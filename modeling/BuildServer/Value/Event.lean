import BuildServer.Schema.Mismatch
import BuildServer.Value.Wire

/-!
# Values from reported data

A self-describing format reports what it meets as events. A value takes every event that denotes
data it can hold: absence and unit are null, a present optional is what it contains, characters are
strings of their own, and numbers keep their exact value wherever a value has room for it.
-/

namespace BuildServer

/-- What a format reports for one datum. -/
inductive Event
  | absent
  | unit
  | present (inner : Event)
  | bool (b : Bool)
  | char (c : Char)
  | single (word : Nat)
  | double (x : Binary64)
  | signed (i : Int64)
  | unsigned (n : UInt64)
  | text (s : String)
  | bytes
  | wrapper

/-- The forms that a value accepts, for diagnostics. -/
def Value.expectation : String := "null, integer, boolean, float, string, list or map"

/-- The value of a reported datum. -/
def Value.ofEvent : Event → Except Mismatch Value
  | .absent | .unit => .ok .null
  | .present inner => ofEvent inner
  | .bool b => .ok (.bool b)
  | .char c => .ok (.string (String.singleton c))
  | .single word => .ok (.float (Binary64.ofBinary32 word))
  | .double x => .ok (.float x)
  | .signed i => .ok (.int i)
  | .unsigned n => .ok (ofWord n)
  | .text s => .ok (.string s)
  | .bytes => .error (.wrongType .bytes expectation)
  | .wrapper => .error (.wrongType .wrapper expectation)

end BuildServer
