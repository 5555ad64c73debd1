import BuildServer.Json.Number

/-!
# JSON documents

A document is what a text says, before any meaning is given to repeated keys or to the difference
between kinds of numbers: an object is the sequence of its members as they were met.
-/

namespace BuildServer.Json

/-- A document; an object may repeat a key. -/
inductive Document
  | null
  | bool (b : Bool)
  | number (n : Number)
  | string (s : String)
  | array (items : List Document)
  | object (members : List (String × Document))
  deriving Inhabited

namespace Document

/-- The document of a natural number that is a word. -/
def ofNat (n : Nat) : Document := .number (.natural (UInt64.ofNat n))

/-- The items of an array. -/
def array? : Document → Option (List Document)
  | .array items => some items
  | _ => none

/-- The members of an object. -/
def object? : Document → Option (List (String × Document))
  | .object members => some members
  | _ => none

/-- The text of a string. -/
def string? : Document → Option String
  | .string s => some s
  | _ => none

/-- The value of a boolean. -/
def bool? : Document → Option Bool
  | .bool b => some b
  | _ => none

/-- The value of a number that was read as an unsigned integer. -/
def natural? : Document → Option Nat
  | .number (.natural n) => some n.toNat
  | _ => none

/-- The first member with the given key, if the document is an object that has one. -/
def get? (d : Document) (key : String) : Option Document :=
  d.object?.bind fun members => members.lookup key

end Document

end BuildServer.Json
