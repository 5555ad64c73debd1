import BuildServer.Schema.Mismatch
import BuildServer.Value.Equality
import BuildServer.Value.Wire

/-!
# Typed data

A schema reads a type from a document, reporting the first mismatch, and writes it as one. Scalars
accept one form of document each; optionals take null for absence; lists read their items in order
and stop at the first that does not fit. Structured values reach typed data through documents, so a
float that is not finite is met as null.
-/

namespace BuildServer

open Json

/-- A type that documents carry. -/
class Schema (α : Type) where
  read : Document → Except Mismatch α
  write : α → Document

/-- What a number is in a report. -/
def Found.ofNumber : Number → Found
  | .natural n => .integer n.toNat
  | .negative i => .integer i.toInt
  | .double x => if x.isFinite then .float x else .null

/-- What a document is in a report. -/
def Found.ofDocument : Document → Found
  | .null => .null
  | .bool b => .bool b
  | .number n => .ofNumber n
  | .string s => .string s
  | .array _ => .sequence
  | .object _ => .map

namespace Schema

variable {α : Type}

/-- A document of a form that the type does not have. -/
def wrongType (expected : String) (d : Document) : Except Mismatch α :=
  .error (.wrongType (.ofDocument d) expected)

instance : Schema Value where
  read d := .ok (Value.ofDocument d)
  write := Value.toDocument

instance : Schema String where
  read
    | .string s => .ok s
    | d => wrongType "a string" d
  write := .string

instance : Schema Bool where
  read
    | .bool b => .ok b
    | d => wrongType "a boolean" d
  write := .bool

/-- The items of a sequence, read in order. -/
def readItems [Schema α] : List Document → Except Mismatch (List α)
  | [] => .ok []
  | d :: ds => do
    let a ← read d
    return a :: (← readItems ds)

instance [Schema α] : Schema (List α) where
  read
    | .array ds => readItems ds
    | d => wrongType "a sequence" d
  write items := .array (items.map write)

instance [Schema α] : Schema (Option α) where
  read
    | .null => .ok none
    | d => (read d).map some
  write
    | none => .null
    | some a => write a

/-- The integer that a document holds, refused when it is not in the stated range. -/
def readInteger (expected : String) (fits : Int → Bool) (d : Document) : Except Mismatch Int :=
  let within (i : Int) : Except Mismatch Int :=
    if fits i then .ok i else .error (.wrongValue (.integer i) expected)
  match d with
  | .number (.natural n) => within n.toNat
  | .number (.negative i) => within i.toInt
  | d => wrongType expected d

/-- The document of an integer that fits 64 bits. -/
def writeInteger (i : Int) : Document :=
  .number (if i < 0 then .negative (Int64.ofInt i) else .natural (UInt64.ofNat i.toNat))

instance : Schema UInt8 where
  read d := do
    return UInt8.ofNat (← readInteger "u8" (fun i => decide (0 ≤ i ∧ i < 0x100)) d).toNat
  write n := writeInteger n.toNat

instance : Schema Int32 where
  read d := do
    return Int32.ofInt (← readInteger "i32" (fun i => decide (-0x80000000 ≤ i ∧ i < 0x80000000)) d)
  write i := writeInteger i.toInt

end Schema

namespace Value

variable {α : Type}

/-- The typed data that a value carries. -/
def toTyped [Schema α] (v : Value) : Except CodecError α :=
  (Schema.read v.toDocument).mapError .decode

/-- The value that carries typed data. -/
def ofTyped [Schema α] (a : α) : Value := convert (Schema.write a)

end Value

/-- A type whose elements are numbered on the wire. -/
class Coded (α : Type) where
  enumeration : String
  code : α → UInt8
  ofCode? : UInt8 → Option α
  label : α → String

/-- A number that an enumeration does not use. -/
structure UnknownKind where
  enumeration : String
  value : UInt8
  deriving DecidableEq

/-- The report of an unused number. -/
def UnknownKind.message (e : UnknownKind) : String :=
  "unknown " ++ e.enumeration ++ " value: " ++ toString e.value.toNat

namespace Coded

variable {α : Type}

/-- The element with the given number. -/
def ofCode [Coded α] (n : UInt8) : Except UnknownKind α :=
  match ofCode? n with
  | some a => .ok a
  | none => .error ⟨enumeration α, n⟩

/-- Numbered elements are read and written by their numbers. -/
@[reducible] def schema [Coded α] : Schema α where
  read d := do (ofCode (← Schema.read d)).mapError fun e => .refused e.message
  write a := Schema.write (code a)

end Coded

end BuildServer
