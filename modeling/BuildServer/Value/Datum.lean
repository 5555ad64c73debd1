import BuildServer.Schema.Mismatch
import BuildServer.Value.Wire

/-!
# Native data as documents

Data as a host program reports it: nothing, booleans, integers of any size, doubles, texts, sequences
and mappings with keys of any form. A document holds integers up to 64 bits and string keys only.
Integers serve as keys by their decimal text and booleans by their names; other keys, and integers
that are too large, have no document. A value is reported form by form, and its maps with their texts
as keys.
-/

namespace BuildServer

open Json

/-- A datum of a host program. -/
inductive Datum
  | unit
  | bool (b : Bool)
  | natural (n : Nat)
  | integer (i : Int64)
  | double (x : Binary64)
  | text (s : String)
  | sequence (items : List Datum)
  | mapping (entries : List (Datum × Datum))

namespace Datum

/-- The string that a datum becomes as a key. -/
def key? : Datum → Option String
  | .text s => some s
  | .bool b => some (if b then "true" else "false")
  | .natural n => some (String.ofList (Text.decimal n))
  | .integer i => some (String.ofList (Text.decimalInt i.toInt))
  | _ => none

mutual

/-- The document of a datum. -/
def document : Datum → Except CodecError Document
  | .unit => .ok .null
  | .bool b => .ok (.bool b)
  | .natural n => if n < wordLimit then .ok (.ofNat n) else .error (.encode .numberOutOfRange)
  | .integer i =>
    .ok (.number (if i.toInt < 0 then .negative i else .natural (UInt64.ofNat i.toInt.toNat)))
  | .double x => .ok (if x.isFinite then .number (.double x) else .null)
  | .text s => .ok (.string s)
  | .sequence items => (documents items).map .array
  | .mapping entries => (members entries).map .object

/-- The documents of a sequence. -/
def documents : List Datum → Except CodecError (List Document)
  | [] => .ok []
  | d :: ds => do return (← document d) :: (← documents ds)

/-- The members of a mapping. -/
def members : List (Datum × Datum) → Except CodecError (List (String × Document))
  | [] => .ok []
  | (k, d) :: entries =>
    match k.key? with
    | none => .error (.encode .keyExpected)
    | some key => do return (key, ← document d) :: (← members entries)

end

end Datum

namespace Value

mutual

/-- What a value reports of itself. -/
def datum : Value → Datum
  | .null => .unit
  | .int i => .integer i
  | .bool b => .bool b
  | .float x => .double x
  | .string s => .text s
  | .list items => .sequence (itemData items)
  | .map entries => .mapping (entryData entries)

/-- What the items of a list report. -/
def itemData : List Value → List Datum
  | [] => []
  | v :: vs => datum v :: itemData vs

/-- What the entries of a map report. -/
def entryData : List (String × Value) → List (Datum × Datum)
  | [] => []
  | (key, v) :: entries => (.text key, datum v) :: entryData entries

end

/-- The value that carries a datum, if it has a document. -/
def ofDatum (d : Datum) : Except CodecError Value := d.document.map convert

end Value

end BuildServer
