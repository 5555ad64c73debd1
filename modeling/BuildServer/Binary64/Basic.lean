/-!
# Double precision numbers as words

A `Binary64` is its 64 bits: a sign, an eleven-bit exponent field and a 52-bit fraction. A finite
word stands for `± significand · 2 ^ exponent`, an exact number, so every operation on words is
stated over natural numbers and integers and two words are the same number only when they are the
same word. In particular the two zeros differ and a not-a-number equals itself.
-/

namespace BuildServer

/-- `base ^ k` as a quotient of natural numbers, for either sign of `k`. -/
def powerRatio (base : Nat) (k : Int) : Nat × Nat :=
  if 0 ≤ k then (Nat.pow base k.toNat, 1) else (1, Nat.pow base (-k).toNat)

/-- A double precision number, given by its bits. -/
structure Binary64 where
  bits : UInt64
  deriving DecidableEq, Hashable, Inhabited

namespace Binary64

/-- The place of the sign bit. -/
def signPlace : Nat := 0x8000000000000000

/-- The place of the lowest bit of the exponent field, which is that of the hidden leading bit of a
significand. -/
def leadingPlace : Nat := 0x10000000000000

/-- Whether the sign bit is set. -/
def negative (x : Binary64) : Bool := decide (signPlace ≤ x.bits.toNat)

/-- The word without its sign bit; on finite words this numbers the magnitudes from zero upwards. -/
def magnitude (x : Binary64) : Nat := x.bits.toNat % signPlace

/-- The biased exponent: `0` for zeros and subnormals, `2047` for infinities and not-a-numbers. -/
def exponentField (x : Binary64) : Nat := x.magnitude / leadingPlace

/-- The trailing bits of the significand. -/
def fraction (x : Binary64) : Nat := x.magnitude % leadingPlace

/-- The exponent field shared by infinities and not-a-numbers. -/
def specialField : Nat := 2047

/-- Neither infinite nor a not-a-number. -/
def isFinite (x : Binary64) : Bool := x.exponentField != specialField

/-- Either of the two zeros. -/
def isZero (x : Binary64) : Bool := x.magnitude == 0

/-- The integral significand; normal words carry a hidden leading bit. -/
def significand (x : Binary64) : Nat :=
  if x.exponentField = 0 then x.fraction else leadingPlace + x.fraction

/-- The power of two that scales the significand. -/
def exponent (x : Binary64) : Int := (max x.exponentField 1 : Nat) - 1075

/-- The word with the given sign and magnitude number. -/
def pack (negative : Bool) (magnitude : Nat) : Binary64 :=
  ⟨UInt64.ofNat ((if negative then signPlace else 0) + magnitude)⟩

/-- The magnitude number of the infinities. -/
def infinityMagnitude : Nat := specialField * leadingPlace

/-- The same number with the given sign. -/
def withSign (x : Binary64) (negative : Bool) : Binary64 := pack negative x.magnitude

/-- The magnitude of a finite word as a quotient of natural numbers. -/
def ratio (x : Binary64) : Nat × Nat :=
  let scale := powerRatio 2 x.exponent
  (x.significand * scale.1, scale.2)

end Binary64

end BuildServer
