import BuildServer.Proofs.Protocol.RoundTrip

/-! # The extension payload, written and read leniently

The payload comes back from the value that carries it, whatever the watchers: the alternatives of a
pattern and of its base are told apart by the form of the data alone, and the first one that fits is the
one that was written. A reader loses just the members that are missing or null; the others do not depend
on them, nor on members of other names.
-/

namespace BuildServer

open Schema Json

namespace Protocol

section Unions

variable {α β γ : Type} {first : Except Mismatch α} {second : Except Mismatch β} {f : α → γ}
  {g : β → γ}

theorem firstFit_first {union : String} {a : α} (fits : first = .ok a) :
    firstFit union [first.map f, second.map g] = .ok (f a) := by
  rw [fits]
  rfl

theorem firstFit_second {union : String} {e : Mismatch} {b : β} (other : first = .error e)
    (fits : second = .ok b) : firstFit union [first.map f, second.map g] = .ok (g b) := by
  rw [other, fits]
  rfl

end Unions

instance : Lossless WorkspaceFolder where
  returns x := WorkspaceFolder.record.returns (by decide) rfl
    ⟨.required (Lossless.returns x.uri), .required (Lossless.returns x.name), trivial⟩

/-- A folder is not read from a text, which a URI is written as. -/
instance : Lossless PatternBase where
  returns
    | .folder f => firstFit_first (Lossless.returns f)
    | .uri u => firstFit_second rfl (Lossless.returns u)

instance : Lossless RelativePattern where
  returns x := RelativePattern.record.returns (by decide) rfl
    ⟨.required (Lossless.returns x.base), .required (Lossless.returns x.pattern), trivial⟩

/-- A text is not read from an object, which a relative pattern is written as. -/
instance : Lossless GlobPattern where
  returns
    | .text s => firstFit_first (Lossless.returns s)
    | .relative p => firstFit_second rfl (Lossless.returns p)

theorem WatchKind.ofCode?_code (k : WatchKind) : WatchKind.ofCode? k.code = some k := by
  rcases k with ⟨_ | _, _ | _, _ | _⟩ <;> rfl

instance : Lossless WatchKind where
  returns k := by
    have code : read (bridge (write k.code)) = .ok k.code := returns_byte k.code
    change (read (bridge (write k.code)) : Except Mismatch UInt8).bind _ = _
    rw [code]
    change (match WatchKind.ofCode? k.code with
      | some k => Except.ok k
      | none => _) = _
    rw [k.ofCode?_code]

instance : Solid WatchKind := ⟨nofun⟩

instance : Lossless Watcher where
  returns x := Watcher.record.returns (by decide) rfl
    ⟨.required (Lossless.returns x.pattern), .placed (Lossless.returns x.kind), trivial⟩

/-- The only numbers in a watcher are the codes of the changes that it is about. -/
theorem WatchKind.signed (k : WatchKind) : ∀ n ∈ (write k).numbers, (Value.signed? n).isSome = true := by
  rcases k with ⟨_ | _, _ | _, _ | _⟩ <;> exact List.forall_mem_singleton.mpr rfl

theorem Watcher.signed (w : Watcher) : ∀ n ∈ (write w).numbers, (Value.signed? n).isSome = true := by
  obtain ⟨pattern, kind⟩ := w
  have numberless : (write pattern).numbers = [] := by
    rcases pattern with s | ⟨f | u, s⟩ <;> rfl
  cases kind with
  | none =>
    change ∀ n ∈ (write pattern).numbers ++ [], _
    rw [numberless]
    nofun
  | some k =>
    change ∀ n ∈ (write pattern).numbers ++ ((write k).numbers ++ []), _
    rw [numberless, List.append_nil]
    exact k.signed

theorem signed_watchers (watchers : List Watcher) :
    ∀ n ∈ (write watchers).numbers, (Value.signed? n).isSome = true := by
  induction watchers with
  | nil => nofun
  | cons w watchers ih => exact List.forall_mem_append.mpr ⟨w.signed, ih⟩

namespace Extension

open Codable

/-- The names of the members. -/
def names : List String :=
  ["indexDatabasePath", "indexStorePath", "outputPathsProvider", "prepareProvider",
    "sourceKitOptionsProvider", "watchers"]

/-- The members as they are written. -/
def members (x : Extension) : List (String × Value) :=
  [("indexDatabasePath", toValue x.indexDatabasePath), ("indexStorePath", toValue x.indexStorePath),
    ("outputPathsProvider", toValue x.outputPathsProvider),
    ("prepareProvider", toValue x.prepareProvider),
    ("sourceKitOptionsProvider", toValue x.optionsProvider), ("watchers", .ofTyped x.watchers)]

/-- The payload without the members that are lost. -/
def without (x : Extension) (lost : String → Bool) : Extension where
  indexDatabasePath := if lost "indexDatabasePath" then none else x.indexDatabasePath
  indexStorePath := if lost "indexStorePath" then none else x.indexStorePath
  outputPathsProvider := !lost "outputPathsProvider" && x.outputPathsProvider
  prepareProvider := !lost "prepareProvider" && x.prepareProvider
  optionsProvider := !lost "sourceKitOptionsProvider" && x.optionsProvider
  watchers := if lost "watchers" then [] else x.watchers

/-- What entries hold of a payload: nothing or null under the names that are lost, and what was written
under the others. -/
structure Left (x : Extension) (lost : String → Bool) (entries : Entries) : Prop where
  gone : ∀ name ∈ names, lost name = true →
    entries.get? name = none ∨ entries.get? name = some .null
  kept : ∀ name ∈ names, lost name = false →
    entries.get? name = (toValue x : Value).get? name

variable {x : Extension} {lost : String → Bool} {entries : Entries} {key : String}

theorem optionalField_of_gone {α : Type} [Codable α]
    (gone : entries.get? key = none ∨ entries.get? key = some .null) :
    (optionalField entries key : Option (Option α)) = some none := by
  rw [optionalField]
  rcases gone with missing | null
  · rw [missing]
  · rw [null]

theorem optionalField_of_path {path : Option String}
    (kept : entries.get? key = some (toValue path)) : optionalField entries key = some path := by
  rw [optionalField, kept]
  cases path <;> rfl

theorem optionalField_of_flag {flag : Bool} (kept : entries.get? key = some (toValue flag)) :
    optionalField entries key = some (some flag) := by
  rw [optionalField, kept]
  rfl

theorem readWatchers?_of_gone
    (gone : entries.get? "watchers" = none ∨ entries.get? "watchers" = some .null) :
    readWatchers? entries = some [] := by
  rw [readWatchers?]
  rcases gone with missing | null
  · rw [missing]
  · rw [null]

theorem readWatchers?_of_kept {watchers : List Watcher}
    (kept : entries.get? "watchers" = some (.ofTyped watchers)) :
    readWatchers? entries = some watchers := by
  have same : (Value.ofTyped watchers).toTyped = .ok watchers := (Lossless.returns watchers).toTyped
  rw [readWatchers?, kept]
  change (Value.ofTyped watchers).toTyped.toOption = _
  rw [same]
  rfl

theorem get?_toValue (x : Extension) (name : String) :
    (toValue x : Value).get? name = x.members.lookup name := Entries.get?_ofPairs x.members name

namespace Left

theorem path (left : x.Left lost entries) (known : key ∈ names) {path : Option String}
    (written : (toValue x : Value).get? key = some (toValue path)) :
    optionalField entries key = some (if lost key then none else path) := by
  cases state : lost key with
  | true => exact optionalField_of_gone (left.gone key known state)
  | false => exact optionalField_of_path ((left.kept key known state).trans written)

theorem flag (left : x.Left lost entries) (known : key ∈ names) {flag : Bool}
    (written : (toValue x : Value).get? key = some (toValue flag)) :
    ∃ b? : Option Bool, optionalField entries key = some b? ∧
      b?.getD false = (!lost key && flag) := by
  cases state : lost key with
  | true => exact ⟨none, optionalField_of_gone (left.gone key known state), rfl⟩
  | false => exact ⟨flag, optionalField_of_flag ((left.kept key known state).trans written), rfl⟩

theorem watchers (left : x.Left lost entries) :
    readWatchers? entries = some (if lost "watchers" then [] else x.watchers) := by
  have known : "watchers" ∈ names := by decide
  cases state : lost "watchers" with
  | true => exact readWatchers?_of_gone (left.gone "watchers" known state)
  | false =>
    exact readWatchers?_of_kept ((left.kept "watchers" known state).trans (get?_toValue x "watchers"))

/-- What is lost is unknown, unset or empty, and the rest is as it was written. -/
theorem read (left : x.Left lost entries) : ofEntries? entries = some (x.without lost) := by
  have written := get?_toValue x
  have database := left.path (by decide) (written "indexDatabasePath")
  have store := left.path (by decide) (written "indexStorePath")
  obtain ⟨outputs?, outputs, hasOutputs⟩ := left.flag (by decide) (written "outputPathsProvider")
  obtain ⟨prepare?, prepare, hasPrepare⟩ := left.flag (by decide) (written "prepareProvider")
  obtain ⟨options?, options, hasOptions⟩ := left.flag (by decide) (written "sourceKitOptionsProvider")
  rw [without, ← hasOutputs, ← hasPrepare, ← hasOptions]
  simp [ofEntries?, left.watchers, database, store, outputs, prepare, options]

/-- Nothing is lost of the entries that were written. -/
theorem ofPairs (x : Extension) : ∃ written, (toValue x : Value).map? = some written ∧
    x.Left (fun _ => false) written :=
  ⟨_, rfl, nofun, fun _ _ _ => rfl⟩

end Left

theorem without_nothing (x : Extension) : x.without (fun _ => false) = x := rfl

theorem ofValue?_toValue (x : Extension) : (ofValue? (toValue x) : Option Extension) = some x := by
  obtain ⟨written, map, whole⟩ := Left.ofPairs x
  change (toValue x : Value).map?.bind ofEntries? = _
  rw [map]
  exact whole.read.trans (congrArg some x.without_nothing)

/-- The payload is read back from the value that it is written as; and whatever members are missing or
null, and whatever other names are added, just those members are unknown, unset or empty. -/
theorem payload_read_leniently (x : Extension) :
    (ofValue? (toValue x) : Option Extension) = some x ∧
      ∀ (lost : String → Bool) (entries : Entries), x.Left lost entries →
        ofEntries? entries = some (x.without lost) :=
  ⟨x.ofValue?_toValue, fun _ _ left => left.read⟩

/-- A payload with a watcher for each form of pattern. -/
def sample : Extension :=
  { indexDatabasePath := some "/index/db"
    indexStorePath := some "/index/store"
    prepareProvider := true
    optionsProvider := true
    watchers := [⟨.text "**/*.swift", none⟩,
      ⟨.relative ⟨.folder ⟨⟨"file:///app", by rfl⟩, "app"⟩, "*.json"⟩, some ⟨true, true, false⟩⟩,
      ⟨.relative ⟨.uri ⟨"file:///lib", by rfl⟩, "*.toml"⟩, some ⟨false, false, false⟩⟩] }

/-- What is left of the payload when a path is gone and a flag is null, besides another name. -/
def sampleEntries : Entries :=
  [("indexDatabasePath", .string "/index/db"), ("outputPathsProvider", .bool false),
    ("prepareProvider", .null), ("sourceKitOptionsProvider", .bool true), ("version", .int 2),
    ("watchers", .ofTyped sample.watchers)]

theorem sample_read_leniently :
    sample.Left ["indexStorePath", "prepareProvider"].contains sampleEntries ∧
      ofEntries? sampleEntries =
        some { sample with indexStorePath := none, prepareProvider := false } := by
  have left : sample.Left ["indexStorePath", "prepareProvider"].contains sampleEntries :=
    ⟨by decide +kernel, by decide +kernel⟩
  exact ⟨left, (payload_read_leniently sample).2 _ _ left⟩

theorem integral_path (path : Option String) :
    (toValue path : Value).Ordered ∧ (toValue path : Value).floats = [] := by
  cases path <;> exact ⟨trivial, rfl⟩

/-- Inside other typed data the payload comes back as well: there is no float in it. -/
theorem portable (x : Extension) : (toValue x : Value).Portable := by
  have each : ∀ pair ∈ x.members, pair.2.Ordered ∧ pair.2.floats = [] := by
    simp only [members, List.forall_mem_cons]
    exact ⟨integral_path _, integral_path _, ⟨trivial, rfl⟩, ⟨trivial, rfl⟩, ⟨trivial, rfl⟩,
      Value.integral_convert _ (signed_watchers x.watchers), nofun⟩
  constructor
  · exact Value.ordered_ofPairs fun pair inside => (each pair inside).1
  · have floatless : (toValue x : Value).floats = [] := Value.entryFloats_eq_nil_iff.mpr
      fun entry stored => (each entry (Entries.mem_ofPairs stored)).2
    rw [floatless]
    nofun
  · nofun

end Extension

end Protocol

end BuildServer
