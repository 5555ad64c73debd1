import BuildServer.Json.Lexeme
import BuildServer.Settings.Basic

/-!
# Settings as text

Settings are read from their text lexeme by lexeme, so the first thing that is wrong is reported
whether it lies in the text or in the settings: a setting of the wrong type before a fault further
on, and a setting met for the second time before its content. An object may give the settings in any
order, a list in the order of the record.
-/

namespace BuildServer

open Json

/-- Why a text gives no settings. -/
inductive SettingsError
  | malformed (cause : Cause)
  | mismatch (m : Mismatch)
  deriving DecidableEq

/-- The wording of a refusal. -/
def SettingsError.message : SettingsError → String
  | .malformed cause => cause.message
  | .mismatch m => m.message

namespace Settings

/-- What a step of the reading gives: its outcome and the tokens that are left. -/
abbrev Read (α : Type) := α × List Token

/-- A fault of the text. -/
def malformed {α : Type} (cause : Cause) : Except SettingsError α := .error (.malformed cause)

/-- The document that a token is on its own; an opening bracket stands for its container, since no
setting is one. -/
def leaf : List Token → Except SettingsError (Read Document)
  | [] => malformed .valueUnfinished
  | token :: rest =>
    match token with
    | .null => .ok (.null, rest)
    | .bool b => .ok (.bool b, rest)
    | .number n => .ok (.number n, rest)
    | .string s => .ok (.string s, rest)
    | .openBracket => .ok (.array [], rest)
    | .openBrace => .ok (.object [], rest)
    | .broken _ fault => malformed fault.cause
    | _ => malformed .valueExpected

/-- A value that is read from a single token. -/
def readLeaf {α : Type} [Schema α] (tokens : List Token) : Except SettingsError (Read α) := do
  let (d, rest) ← leaf tokens
  match Schema.read d with
  | .ok a => .ok (a, rest)
  | .error m => .error (.mismatch m)

/-- The colon after a key. -/
def colon : List Token → Except SettingsError (Read Unit)
  | .colon :: rest => .ok ((), rest)
  | [] => malformed .objectUnfinished
  | _ => malformed .colonExpected

/-- Data of a type that admits none of its forms. -/
def readNothing (expected : String) (tokens : List Token) : Except SettingsError Unit := do
  let (d, _) ← leaf tokens
  .error (.mismatch (.wrongType (.ofDocument d) expected))

/-- The format of the log, named by a text or by the key of an object. -/
def readFormat (tokens : List Token) : Except SettingsError (Read LogFormat) :=
  match tokens with
  | .string _ :: _ | .broken true _ :: _ => readLeaf tokens
  | .openBrace :: rest => do
    match rest with
    | .string name :: rest => do
      let format ← (LogFormat.ofName name).mapError .mismatch
      let ((), rest) ← colon rest
      match rest with
      | .null :: .closeBrace :: rest => .ok (format, rest)
      | [.null] => malformed .objectUnfinished
      | .null :: _ => malformed .valueExpected
      | rest => do
        readNothing "unit" rest
        return (format, rest)
    | .broken true fault :: _ => malformed fault.cause
    | .closeBrace :: _ => malformed .valueExpected
    | [] => malformed .objectUnfinished
    | _ => malformed .keyExpected
  | [] => malformed .valueUnfinished
  | _ => malformed .valueExpected

/-- The settings, as fields that text names. -/
inductive Name
  | logFilter
  | logFormat
  | queueConcurrency
  | serverVersion
  deriving DecidableEq

/-- The settings in the order of the record. -/
def Name.all : List Name := [.logFilter, .logFormat, .queueConcurrency, .serverVersion]

def Name.key : Name → String
  | .logFilter => "log_filter"
  | .logFormat => "log_format"
  | .queueConcurrency => "queue_concurrency"
  | .serverVersion => "server_version"

/-- The settings with one of them read. -/
def readSetting (s : Settings) (name : Name) (tokens : List Token) :
    Except SettingsError (Read Settings) :=
  match name with
  | .logFilter => do
    let (a, rest) ← readLeaf tokens
    return ({ s with logFilter := a }, rest)
  | .logFormat => do
    let (a, rest) ← readFormat tokens
    return ({ s with logFormat := a }, rest)
  | .queueConcurrency => do
    let (a, rest) ← readLeaf tokens
    return ({ s with queueConcurrency := a }, rest)
  | .serverVersion => do
    let (a, rest) ← readLeaf tokens
    return ({ s with serverVersion := a }, rest)

/-- The setting that a key names, provided it has not been met before. -/
def nameOf (unmet : List Name) (key : String) : Except SettingsError { n : Name // n ∈ unmet } :=
  match h : unmet.find? fun n => n.key == key with
  | some n => .ok ⟨n, List.mem_of_find?_eq_some h⟩
  | none =>
    if (Name.all.map Name.key).contains key then .error (.mismatch (.repeatedField key))
    else .error (.mismatch (.unknownField key (Name.all.map Name.key)))

/-- The members of an object from the place of a key on. -/
def readMembers (unmet : List Name) (s : Settings) (tokens : List Token) :
    Except SettingsError (Read Settings) :=
  match tokens with
  | .string key :: rest => do
    let n ← nameOf unmet key
    let ((), rest) ← colon rest
    let (s, rest) ← readSetting s n.1 rest
    match rest with
    | .closeBrace :: rest => return (s, rest)
    | .comma :: .closeBrace :: _ => malformed .commaTrailing
    | [.comma] => malformed .valueUnfinished
    | .comma :: rest => readMembers (unmet.erase n.1) s rest
    | [] => malformed .objectUnfinished
    | _ => malformed .commaOrBraceExpected
  | .broken true fault :: _ => malformed fault.cause
  | _ => malformed .keyExpected
  termination_by unmet.length
  decreasing_by
    have := List.length_erase_of_mem n.2
    have := List.length_pos_of_mem n.2
    omega

/-- What follows the last item that a list may have, where the list should have ended. -/
def refuseSurplus {α : Type} : List Token → Except SettingsError α
  | [] => malformed .listUnfinished
  | .comma :: .closeBracket :: _ => malformed .commaTrailing
  | _ => malformed .textTrailing

/-- The items of a list from the place of an item on. -/
def readItems (s : Settings) : List Name → List Token → Except SettingsError (Read Settings)
  | [], tokens => refuseSurplus tokens
  | name :: names, tokens => do
    let (s, rest) ← readSetting s name tokens
    match names, rest with
    | _, .closeBracket :: rest => return (s, rest)
    | [], rest => refuseSurplus rest
    | _, .comma :: .closeBracket :: _ => malformed .commaTrailing
    | _, [.comma] => malformed .valueUnfinished
    | _, .comma :: rest => readItems s names rest
    | _, [] => malformed .listUnfinished
    | _, _ => malformed .commaOrBracketExpected

/-- The settings of a sequence of tokens. -/
def ofTokens (tokens : List Token) : Except SettingsError Settings := do
  let (s, rest) ← match tokens with
    | .openBrace :: .closeBrace :: rest => .ok (default, rest)
    | [.openBrace] => malformed .objectUnfinished
    | .openBrace :: rest => readMembers Name.all default rest
    | .openBracket :: .closeBracket :: rest => .ok (default, rest)
    | [.openBracket] => malformed .listUnfinished
    | .openBracket :: rest => readItems default Name.all rest
    | tokens => do
      readNothing record.expectation tokens
      malformed .valueExpected
  if rest.isEmpty then return s else malformed .textTrailing

/-- The settings that a text gives. -/
def ofText (bytes : List UInt8) : Except SettingsError Settings :=
  ofTokens ((lexemes bytes).map (·.token))

end Settings

end BuildServer
