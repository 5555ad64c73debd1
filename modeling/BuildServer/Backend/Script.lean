import BuildServer.Backend.Call
import BuildServer.Backend.Kind

/-!
# Scripted backends

A script says how a backend plays its part: how it is called and what it can do, how its calls end,
which of them are held back until they are released, and what it tells the session by itself. Calls
go by labels, the words of the call and of what it is about; a call without a part of its own takes
the part of its first word.
-/

namespace BuildServer.Backend

open BuildServer Protocol Rpc

/-- The words of a call, if it is one that can be scripted. -/
def Call.words? : Call → Option (List String)
  | supportsPreparation | watchers | displayName => none
  | indexDatabase => some ["index_db"]
  | indexStore => some ["index_store"]
  | prepare ids => some ("prepare" :: ids.map fun t => t.uri.text)
  | sources ids => some ("sources" :: ids.map fun t => t.uri.text)
  | options params =>
    some ["options", params.textDocument.uri.text, params.target.uri.text, params.language]
  | targets => some ["targets"]
  | awaitUpdates => some ["updates"]
  | filesChanged changes => some ("changes" :: changes.map fun e =>
    e.uri.text ++ "=" ++ String.ofList (Text.decimalInt e.change.toInt))

/-- The label of a call. -/
def Call.label? (c : Call) : Option String := c.words?.map " ".intercalate

/-- How a call ends: as usual, with a failure, not at all, or with data of the script. -/
inductive Part
  | usual
  | fails (e : Failure)
  | breaksDown
  | gives (d : Json.Document)

/-- How a backend plays its part. -/
structure Script where
  name : String := "Scripted"
  prepares : Bool := true
  watchers : List Watcher := []
  parts : List (String × Part) := []
  held : List String := []
  pushesChanges : Bool := false
  startupFailure : Option Failure := none
  pushesAtStartup : Bool := false

namespace Script

/-- The part of a call. -/
def part (s : Script) (c : Call) : Part :=
  match c.words?, c.label? with
  | some words, some label =>
    ((s.parts.lookup label).or (words.head?.bind fun word => s.parts.lookup word)).getD .usual
  | _, _ => .usual

/-- The answer of a call that may fail, where `usual` is the usual one. -/
def answer {α : Type} [Schema α] (usual : α) : Part → Option (Except Failure α)
  | .usual => some (.ok usual)
  | .fails e => some (.error e)
  | .breaksDown => none
  | .gives d => some (.ok ((Schema.read d).toOption.getD usual))

/-- The answer of a call that cannot fail and says nothing. -/
def acknowledge : Part → Option Unit
  | .breaksDown => none
  | _ => some ()

/-- A source for each file that has changed. -/
def changedSources (changed : List Uri) : List SourceItem :=
  changed.map fun uri => { uri, kind := .file, generated := false }

/-- The only target of a workspace that the script does not describe. -/
def usualTarget : Target where
  id := ⟨⟨"target://lib", rfl⟩⟩
  displayName := some "lib"
  languageIds := ["c"]

/-- The options of a document that the script does not describe; headers have none. -/
def usualOptions (params : OptionsParams) : Option OptionsResult :=
  let document := params.textDocument.uri.text
  if document.endsWith ".h" then none
  else some { compilerArguments := ["-DTEST", document], workingDirectory := some "/repo" }

/-- What the backend answers after the given files have changed. -/
def answers (s : Script) (changed : List Uri) : Answers := fun c =>
  match c with
  | .supportsPreparation => some s.prepares
  | .watchers => some s.watchers
  | .displayName => some s.name
  | .indexDatabase => answer (none : Option String) (s.part .indexDatabase)
  | .indexStore => answer (none : Option String) (s.part .indexStore)
  | .prepare targets => match s.part (.prepare targets) with
    | .fails e => some (.error e)
    | .breaksDown => none
    | _ => some (.ok ())
  | .sources targets =>
    answer ⟨targets.map fun target => { target, sources := changedSources changed }⟩
      (s.part (.sources targets))
  | .options params => answer (usualOptions params) (s.part (.options params))
  | .targets => answer ⟨[usualTarget]⟩ (s.part .targets)
  | .awaitUpdates => acknowledge (s.part .awaitUpdates)
  | .filesChanged changes => acknowledge (s.part (.filesChanged changes))

/-- How a changed file is reported as a changed target. -/
def targetEvent (e : FileEvent) : TargetEvent where
  target := ⟨e.uri⟩
  kind := [.created, .changed, .deleted].find? fun kind => (Coded.code kind).toNat = e.change.toInt

/-- How the backend reports changed files; without any it asks the client to look at all targets. -/
def targetsChanged (changes : List FileEvent) : TargetsChanged :=
  ⟨if changes.isEmpty then none else some (changes.map targetEvent)⟩

end Script

end BuildServer.Backend
