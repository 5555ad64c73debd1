import BuildServer.Binary64.Text
import BuildServer.Json.Document
import BuildServer.Text.Basic
import BuildServer.Text.Utf8

/-!
# Writing JSON documents

Documents are written without blanks. A string escapes the quote, the backslash and the controls
below the space, five of which have a letter of their own; a double that is not finite has no
spelling and is written as null.
-/

namespace BuildServer.Json

/-- One character as it stands in a string. -/
def escapeChar (c : Char) : List Char :=
  match c with
  | '\"' => ['\\', '\"']
  | '\\' => ['\\', '\\']
  | '\x08' => ['\\', 'b']
  | '\t' => ['\\', 't']
  | '\n' => ['\\', 'n']
  | '\x0c' => ['\\', 'f']
  | '\r' => ['\\', 'r']
  | c => if c.toNat < 0x20 then '\\' :: 'u' :: Text.hexPadded 4 c.toNat else [c]

/-- The text of a string. -/
def stringText (s : String) : List Char := '\"' :: s.toList.flatMap escapeChar ++ ['\"']

/-- The text of a number. -/
def Number.text : Number → List Char
  | .natural n => Text.decimal n.toNat
  | .negative i => Text.decimalInt i.toInt
  | .double x => if x.isFinite then x.toText else "null".toList

/-- Parts with a comma between neighbours. -/
def commaJoin : List (List Char) → List Char
  | [] => []
  | [part] => part
  | part :: parts => part ++ ',' :: commaJoin parts

namespace Document

mutual

/-- The text of a document. -/
def text : Document → List Char
  | .null => "null".toList
  | .bool b => if b then "true".toList else "false".toList
  | .number n => n.text
  | .string s => stringText s
  | .array items => '[' :: commaJoin (itemTexts items) ++ [']']
  | .object members => '\x7b' :: commaJoin (memberTexts members) ++ ['\x7d']

/-- The texts of the items of an array. -/
def itemTexts : List Document → List (List Char)
  | [] => []
  | d :: ds => text d :: itemTexts ds

/-- The texts of the members of an object. -/
def memberTexts : List (String × Document) → List (List Char)
  | [] => []
  | (key, d) :: members => (stringText key ++ ':' :: text d) :: memberTexts members

end

/-- The text of a document as a string. -/
def toText (d : Document) : String := String.ofList d.text

/-- The bytes of a document's text. -/
def write (d : Document) : List UInt8 := Text.encode d.text

end Document

end BuildServer.Json
