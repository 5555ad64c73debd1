import BuildServer.Binary64.Basic

/-!
# Rounding to double precision

`ofRatio` delivers the double nearest to a quotient of natural numbers, a tie going to the even
significand, and infinity beyond the largest finite double. Multiplication, division and the
conversion of naturals are that function on exact operands, so each of them is correctly rounded.
The same rounding serves single precision, whose words `ofBinary32` widens without loss.
-/

namespace BuildServer

/-- The natural number nearest to `num / den`; halves go to the even neighbour. -/
def roundHalfEven (num den : Nat) : Nat :=
  let quotient := num / den
  let twice := 2 * (num % den)
  if den < twice ∨ (twice = den ∧ quotient % 2 = 1) then quotient + 1 else quotient

/-- The greatest `k` with `2 ^ k ≤ num / den`, for positive operands. -/
def binaryOrder (num den : Nat) : Int :=
  let guess : Int := (num.log2 : Int) - den.log2
  let scale := powerRatio 2 guess
  if num * scale.2 < den * scale.1 then guess - 1 else guess

/-- A binary interchange format: bits after the leading one, the unit of its smallest significands,
and the exponent field that infinities have. -/
structure BinaryFormat where
  fractionBits : Nat
  leastUnit : Int
  specialField : Nat

/-- Double precision. -/
def BinaryFormat.double : BinaryFormat := ⟨52, -1074, Binary64.specialField⟩

/-- Single precision. -/
def BinaryFormat.single : BinaryFormat := ⟨23, -149, 255⟩

/-- The magnitude number of the word nearest to `num / den`. Magnitude numbers are linear in the
rounded significand within one binade and carry into the next one, so rounding up to a power of
two, or to infinity, needs no case of its own. -/
def BinaryFormat.round (format : BinaryFormat) (num den : Nat) : Nat :=
  if num = 0 then 0 else
  let unit := max (binaryOrder num den - format.fractionBits) format.leastUnit
  let scale := powerRatio 2 unit
  let significand := roundHalfEven (num * scale.2) (den * scale.1)
  min ((unit - format.leastUnit).toNat * Nat.pow 2 format.fractionBits + significand)
    (format.specialField * Nat.pow 2 format.fractionBits)

namespace Binary64

/-- The double nearest to `± num / den`. -/
def ofRatio (negative : Bool) (num den : Nat) : Binary64 :=
  pack negative (BinaryFormat.double.round num den)

/-- The double nearest to a natural number. -/
def ofNat (n : Nat) : Binary64 := ofRatio false n 1

/-- The double nearest to `10 ^ k`. -/
def powerOfTen (k : Nat) : Binary64 := ofNat (Nat.pow 10 k)

/-- The rounded product of the magnitudes of two finite doubles. -/
def mul (x y : Binary64) : Binary64 :=
  ofRatio false (x.ratio.1 * y.ratio.1) (x.ratio.2 * y.ratio.2)

/-- The rounded quotient of the magnitudes of two finite doubles, the second not zero. -/
def div (x y : Binary64) : Binary64 :=
  ofRatio false (x.ratio.1 * y.ratio.2) (x.ratio.2 * y.ratio.1)

/-- The double equal to a single precision word. -/
def ofBinary32 (word : Nat) : Binary64 :=
  let negative := decide (0x80000000 ≤ word)
  let field := word / 0x800000 % 0x100
  let fraction := word % 0x800000
  if field = 255 then
    let payload := if fraction = 0 then 0 else 0x8000000000000 ||| fraction * 0x20000000
    pack negative (infinityMagnitude + payload)
  else
    let scale := powerRatio 2 ((max field 1 : Nat) - 150)
    ofRatio negative ((if field = 0 then fraction else 0x800000 + fraction) * scale.1) scale.2

end Binary64

end BuildServer
