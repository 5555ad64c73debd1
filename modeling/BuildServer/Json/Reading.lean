import BuildServer.Json.Document
import BuildServer.Json.Lexeme

/-!
# Reading JSON documents

Lexemes are assembled from left to right. What has been read so far is the chain of open containers
around the place of reading and a goal that says what may come next; each lexeme either meets the
goal or is a fault at its first byte. The chain is bounded, so a text nested too deeply is refused
at the bracket that goes too far.
-/

namespace BuildServer.Json

/-- An open container around a value that is due, with what it held before, latest first. -/
inductive Frame
  | item (before : List Document)
  | member (before : List (String × Document)) (key : String)

/-- What may come next. Containers that are open but wait for a separator or a key are part of the
goal, with their contents latest first. -/
inductive Goal
  | value
  | firstItem
  | nextItem
  | afterItem (items : List Document)
  | firstKey
  | nextKey (members : List (String × Document))
  | colon (members : List (String × Document)) (key : String)
  | afterMember (members : List (String × Document))
  | done (document : Document)

/-- A reading under way. -/
structure Assembly where
  frames : List Frame := []
  goal : Goal := .value

/-- So many containers may be open around each other. -/
def deepestNesting : Nat := 127

namespace Assembly

/-- A value has been completed. -/
def complete (frames : List Frame) (d : Document) : Assembly :=
  match frames with
  | [] => ⟨[], .done d⟩
  | .item items :: outer => ⟨outer, .afterItem (d :: items)⟩
  | .member members key :: outer => ⟨outer, .afterMember ((key, d) :: members)⟩

/-- The array with the given items, latest first, has been completed. -/
def closeArray (frames : List Frame) (items : List Document) : Assembly :=
  complete frames (.array items.reverse)

/-- The object with the given members, latest first, has been completed. -/
def closeObject (frames : List Frame) (members : List (String × Document)) : Assembly :=
  complete frames (.object members.reverse)

/-- A fault at the first byte of a lexeme. -/
def refuse (lexeme : Lexeme) (cause : Cause) : Except Fault Assembly :=
  .error ⟨cause, lexeme.start + 1, 0⟩

/-- A lexeme where a value is due. -/
def value (frames : List Frame) (lexeme : Lexeme) : Except Fault Assembly :=
  match lexeme.token with
  | .null => .ok (complete frames .null)
  | .bool b => .ok (complete frames (.bool b))
  | .number n => .ok (complete frames (.number n))
  | .string s => .ok (complete frames (.string s))
  | .openBracket =>
    if frames.length < deepestNesting then .ok ⟨.item [] :: frames, .firstItem⟩
    else refuse lexeme .nestingTooDeep
  | .openBrace =>
    if frames.length < deepestNesting then .ok ⟨frames, .firstKey⟩
    else refuse lexeme .nestingTooDeep
  | .broken _ fault => .error fault
  | _ => refuse lexeme .valueExpected

/-- A lexeme where a key is due. -/
def key (frames : List Frame) (members : List (String × Document)) (lexeme : Lexeme) :
    Except Fault Assembly :=
  match lexeme.token with
  | .string s => .ok ⟨frames, .colon members s⟩
  | .broken true fault => .error fault
  | _ => refuse lexeme .keyExpected

/-- One lexeme. -/
def step (a : Assembly) (lexeme : Lexeme) : Except Fault Assembly :=
  match a.goal with
  | .value => value a.frames lexeme
  | .firstItem =>
    match lexeme.token with
    | .closeBracket => .ok (complete (a.frames.drop 1) (.array []))
    | _ => value a.frames lexeme
  | .nextItem =>
    match lexeme.token with
    | .closeBracket => refuse lexeme .commaTrailing
    | _ => value a.frames lexeme
  | .afterItem items =>
    match lexeme.token with
    | .comma => .ok ⟨.item items :: a.frames, .nextItem⟩
    | .closeBracket => .ok (closeArray a.frames items)
    | _ => refuse lexeme .commaOrBracketExpected
  | .firstKey =>
    match lexeme.token with
    | .closeBrace => .ok (complete a.frames (.object []))
    | _ => key a.frames [] lexeme
  | .nextKey members =>
    match lexeme.token with
    | .closeBrace => refuse lexeme .commaTrailing
    | _ => key a.frames members lexeme
  | .colon members key =>
    match lexeme.token with
    | .colon => .ok ⟨.member members key :: a.frames, .value⟩
    | _ => refuse lexeme .colonExpected
  | .afterMember members =>
    match lexeme.token with
    | .comma => .ok ⟨a.frames, .nextKey members⟩
    | .closeBrace => .ok (closeObject a.frames members)
    | _ => refuse lexeme .commaOrBraceExpected
  | .done _ => refuse lexeme .textTrailing

/-- What is missing when the text ends. -/
def finish (a : Assembly) (length : Nat) : Except Fault Document :=
  let missing (cause : Cause) : Except Fault Document := .error ⟨cause, length, 0⟩
  match a.goal with
  | .value | .nextItem | .nextKey _ => missing .valueUnfinished
  | .firstItem | .afterItem _ => missing .listUnfinished
  | .firstKey | .colon .. | .afterMember _ => missing .objectUnfinished
  | .done d => .ok d

end Assembly

/-- Reads a text that holds one document. -/
def Document.read (bytes : List UInt8) : Except Fault Document := do
  (← (lexemes bytes).foldlM Assembly.step {}).finish bytes.length

end BuildServer.Json
