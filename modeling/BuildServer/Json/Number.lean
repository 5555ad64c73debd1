import BuildServer.Binary64.Rounding
import BuildServer.Word

/-!
# Numbers of JSON documents

A number is read exactly as long as it is an integer that fits 64 bits, signed below zero and
unsigned above. Any other spelling denotes a double: the leading digits that fit an unsigned word
are kept, every digit left out counts as a power of ten, and the word is then scaled by a single
multiplication or by divisions with powers of ten that are doubles themselves. That is within a few
units of the nearest double but need not be the nearest.
-/

namespace BuildServer.Json

/-- A number of a document. -/
inductive Number
  | natural (n : UInt64)
  | negative (i : Int64)
  | double (x : Binary64)
  deriving DecidableEq

/-- A decimal digit. -/
abbrev Digit := Fin 10

/-- A number as it is spelled: sign, digits before and after the point, and the exponent with its
sign. No point was written when there are no fraction digits. -/
structure Numeral where
  negative : Bool
  whole : List Digit
  fraction : List Digit := []
  exponent : Option (Bool × List Digit) := none
  deriving DecidableEq

/-- A significand with a digit appended, as long as it fits an unsigned word. -/
def appendDigit? (significand : Nat) (d : Digit) : Option Nat :=
  let next := significand * 10 + d.val
  if next < wordLimit then some next else none

/-- Appends digits while they fit; returns the significand and the digits left over. -/
def absorb (significand : Nat) : List Digit → Nat × List Digit
  | [] => (significand, [])
  | d :: ds =>
    match appendDigit? significand d with
    | some next => absorb next ds
    | none => (significand, d :: ds)

/-- The greatest exponent that is counted out. -/
def exponentLimit : Nat := 0x7fffffff

/-- The value of exponent digits, and those that follow the digit which takes it past the limit. -/
def exponentValue (value : Nat) : List Digit → Nat × List Digit
  | [] => (value, [])
  | d :: ds =>
    let next := value * 10 + d.val
    if exponentLimit < next then (next, ds) else exponentValue next ds

/-- The powers of ten that are finite doubles go up to this exponent. -/
def greatestPower : Nat := 308

/-- Divides by the greatest power of ten as often as told, stopping at zero. -/
def divideByGreatest (x : Binary64) : Nat → Binary64
  | 0 => x
  | times + 1 =>
    if x.isZero then x else divideByGreatest (x.div (Binary64.powerOfTen greatestPower)) times

/-- The magnitude of `significand · 10 ^ exponent` as a double, unless it is beyond them all. -/
def scaleDecimal (significand : Nat) (exponent : Int) : Option Binary64 :=
  let x := Binary64.ofNat significand
  if 0 ≤ exponent then
    if exponent ≤ greatestPower then
      let y := x.mul (Binary64.powerOfTen exponent.toNat)
      if y.isFinite then some y else none
    else if x.isZero then some x else none
  else
    let down := (-exponent).toNat
    let times := (down - 1) / greatestPower
    some ((divideByGreatest x times).div (Binary64.powerOfTen (down - times * greatestPower)))

namespace Numeral

/-- Whether the spelling is that of an integer. -/
def isInteger (n : Numeral) : Bool := n.fraction.isEmpty && n.exponent.isNone

/-- The significand kept, and the power of ten that the digits before the exponent leave. -/
def significand (n : Numeral) : Nat × Int :=
  let whole := absorb 0 n.whole
  let fraction := absorb whole.1 n.fraction
  (fraction.1, (whole.2.length : Int) - (n.fraction.length - fraction.2.length : Nat))

/-- The written exponent. -/
def exponentInt (n : Numeral) : Int :=
  match n.exponent with
  | none => 0
  | some (below, ds) =>
    let value := (exponentValue 0 ds).1
    if below then -(value : Int) else value

/-- How many digits of the exponent follow the one at which it is given up. -/
def unreadDigits (n : Numeral) : Nat :=
  match n.exponent with
  | none => 0
  | some (_, ds) => (exponentValue 0 ds).2.length

/-- The value as a double. -/
def double? (n : Numeral) : Option Number :=
  let (significand, exponent) := n.significand
  (scaleDecimal significand (exponent + n.exponentInt)).map fun x => .double (x.withSign n.negative)

/-- The number that a numeral denotes, unless it is out of range. A negative zero is a double, as
is a negative integer below the signed words. -/
def number? (n : Numeral) : Option Number :=
  let (value, left) := absorb 0 n.whole
  if n.isInteger && left.isEmpty then
    if n.negative then
      if 0 < value ∧ value ≤ greatestSigned + 1 then some (.negative (Int64.ofInt (-value)))
      else some (.double ((Binary64.ofNat value).withSign true))
    else some (.natural (UInt64.ofNat value))
  else n.double?

end Numeral

end BuildServer.Json
