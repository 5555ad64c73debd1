import BuildServer.Json.Reading
import BuildServer.Json.Writing
import BuildServer.Value.Basic

/-!
# The wire form of values

A value is written as a JSON document and read back from one. There are two readings. `ofDocument`
gives a document its meaning as it is met: of a repeated key the first member counts. `convert`
takes over a finished document, in which a later member has already replaced an earlier one of the
same key. Both keep integers that fit a signed word and make every other number a double.
-/

namespace BuildServer

open Json

namespace Value

/-- The value of an unsigned word, a double when no signed word equals it. -/
def ofWord (n : UInt64) : Value :=
  if n.toNat ≤ greatestSigned then .int (Int64.ofInt n.toNat) else .float (Binary64.ofNat n.toNat)

/-- The value of a number as it is met. -/
def ofNumber : Number → Value
  | .natural n => ofWord n
  | .negative i => .int i
  | .double x => .float x

mutual

/-- The value of a document; of a repeated key the first member counts. -/
def ofDocument : Document → Value
  | .null => .null
  | .bool b => .bool b
  | .number n => ofNumber n
  | .string s => .string s
  | .array items => .list (ofItems items)
  | .object members => .map (ofMembers members [])

/-- The values of the items of an array. -/
def ofItems : List Document → List Value
  | [] => []
  | d :: ds => ofDocument d :: ofItems ds

/-- The entries of an object, added to those already there. -/
def ofMembers : List (String × Document) → Entries → Entries
  | [], entries => entries
  | (key, d) :: members, entries => ofMembers members (entries.insertNew key (ofDocument d))

end

/-- The signed word equal to a number. -/
def signed? : Number → Option Int64
  | .natural n => if n.toNat ≤ greatestSigned then some (Int64.ofInt n.toNat) else none
  | .negative i => some i
  | .double _ => none

/-- The double nearest to a number. -/
def toDouble : Number → Binary64
  | .natural n => Binary64.ofNat n.toNat
  | .negative i => (Binary64.ofNat i.toInt.natAbs).withSign (decide (i.toInt < 0))
  | .double x => x

mutual

/-- The value of a finished document; of a repeated key the last member counts. -/
def convert : Document → Value
  | .null => .null
  | .bool b => .bool b
  | .number n => match signed? n with
    | some i => .int i
    | none => .float (toDouble n)
  | .string s => .string s
  | .array items => .list (convertItems items)
  | .object members => .map (convertMembers members [])

/-- The values of the items of a finished array. -/
def convertItems : List Document → List Value
  | [] => []
  | d :: ds => convert d :: convertItems ds

/-- The entries of a finished object, stored over those already there. -/
def convertMembers : List (String × Document) → Entries → Entries
  | [], entries => entries
  | (key, d) :: members, entries => convertMembers members (entries.insert key (convert d))

end

/-- The number equal to a signed word. -/
def numberOfInt (i : Int64) : Number :=
  if i.toInt < 0 then .negative i else .natural (UInt64.ofNat i.toInt.toNat)

mutual

/-- The document of a value; a float that is not finite has none and becomes null. -/
def toDocument : Value → Document
  | .null => .null
  | .int i => .number (numberOfInt i)
  | .bool b => .bool b
  | .float x => if x.isFinite then .number (.double x) else .null
  | .string s => .string s
  | .list items => .array (itemDocuments items)
  | .map entries => .object (memberDocuments entries)

/-- The documents of the items of a list. -/
def itemDocuments : List Value → List Document
  | [] => []
  | v :: vs => toDocument v :: itemDocuments vs

/-- The members of a map, in the order of its keys. -/
def memberDocuments : List (String × Value) → List (String × Document)
  | [] => []
  | (key, v) :: entries => (key, toDocument v) :: memberDocuments entries

end

/-- The bytes of a value. -/
def encode (v : Value) : List UInt8 := v.toDocument.write

/-- The text of a value. -/
def toText (v : Value) : String := v.toDocument.toText

/-- Reads a value from bytes. -/
def decode (bytes : List UInt8) : Except SyntaxError Value :=
  match Document.read bytes with
  | .ok d => .ok (ofDocument d)
  | .error fault => .error (fault.toError bytes)

end Value

/-- The report that bytes hold no value. -/
def decodeMessage (e : SyntaxError) : String := "structured value cannot be decoded: " ++ e.message

end BuildServer
