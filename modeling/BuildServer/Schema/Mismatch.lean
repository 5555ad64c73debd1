import BuildServer.Binary64.Text
import BuildServer.Json.Fault
import BuildServer.Text.Basic
import BuildServer.Text.Quoted

/-!
# Mismatches between data and types

What a typed reading reports when data does not have the form of its type: what was found, what was
expected, or which member is at fault. A type with rules of its own refuses data with its own words.
-/

namespace BuildServer

/-- What was found, with its content where a reader can be helped by it. -/
inductive Found
  | null
  | bool (b : Bool)
  | integer (i : Int)
  | float (x : Binary64)
  | string (s : String)
  | sequence
  | map
  | bytes
  | wrapper
  deriving DecidableEq

/-- The wording of a finding. -/
def Found.describe : Found → String
  | .null => "null"
  | .bool b => "boolean `" ++ (if b then "true" else "false") ++ "`"
  | .integer i => "integer `" ++ String.ofList (Text.decimalInt i) ++ "`"
  | .float x => "floating point `" ++ String.ofList x.toText ++ "`"
  | .string s => "string " ++ Text.quote s
  | .sequence => "sequence"
  | .map => "map"
  | .bytes => "byte array"
  | .wrapper => "newtype struct"

/-- Why data is not of a type. -/
inductive Mismatch
  | wrongType (found : Found) (expected : String)
  | wrongValue (found : Found) (expected : String)
  | wrongLength (length : Nat) (expected : String)
  | missingField (name : String)
  | unknownField (name : String) (known : List String)
  | repeatedField (name : String)
  | unknownVariant (name : String) (known : List String)
  | noVariant (union : String)
  | refused (reason : String)
  deriving DecidableEq

namespace Mismatch

/-- A name as it stands in a report. -/
def mark (name : String) : String := "`" ++ name ++ "`"

/-- The names that would have been accepted. -/
def oneOf (known : List String) : String :=
  match known with
  | [] => "there are no fields"
  | [a] => "expected " ++ mark a
  | [a, b] => "expected " ++ mark a ++ " or " ++ mark b
  | _ => "expected one of " ++ ", ".intercalate (known.map mark)

/-- The wording of a mismatch. -/
def message : Mismatch → String
  | wrongType found expected => "invalid type: " ++ found.describe ++ ", expected " ++ expected
  | wrongValue found expected => "invalid value: " ++ found.describe ++ ", expected " ++ expected
  | wrongLength n expected => "invalid length " ++ toString n ++ ", expected " ++ expected
  | missingField name => "missing field " ++ mark name
  | unknownField name known => "unknown field " ++ mark name ++ ", " ++ oneOf known
  | repeatedField name => "duplicate field " ++ mark name
  | unknownVariant name known => "unknown variant " ++ mark name ++ ", " ++ oneOf known
  | noVariant union => "data did not match any variant of untagged enum " ++ union
  | refused reason => reason

end Mismatch

/-- Why a typed conversion failed. -/
inductive CodecError
  | encode (cause : Json.Cause)
  | decode (mismatch : Mismatch)
  deriving DecidableEq

/-- The wording of a failed conversion. -/
def CodecError.message : CodecError → String
  | .encode cause => "failed to encode typed value: " ++ cause.message
  | .decode mismatch => "failed to decode typed value: " ++ mismatch.message

end BuildServer
