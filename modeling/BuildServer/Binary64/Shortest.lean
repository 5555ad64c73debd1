import BuildServer.Binary64.Rounding

/-!
# Fewest decimal digits that identify a double

Every finite double owns the interval of reals that round to it; the ends belong to it exactly when
its significand is even. `shortest` looks for a decimal in that interval with one digit, then with
two, and so on up to seventeen, trying at each length the two decimals that enclose the double
itself. The nearer of two hits wins and an exact tie goes to the even digit.
-/

namespace BuildServer

/-- A positive decimal `digits · 10 ^ exponent`. -/
structure Decimal where
  digits : Nat
  exponent : Int
  deriving DecidableEq

namespace Decimal

/-- The greatest `k` with `10 ^ k ≤ num / den`, searched downwards from `start`. -/
def order (num den : Nat) : Nat → Int → Int
  | 0, k => k
  | steps + 1, k =>
    let scale := powerRatio 10 k
    if num * scale.2 < den * scale.1 then order num den steps (k - 1) else k

end Decimal

/-- The reals that round to a double, in quarters of the unit of its significand. -/
structure RoundingInterval where
  lower : Nat
  middle : Nat
  upper : Nat
  closed : Bool
  unit : Int

namespace RoundingInterval

/-- The interval of a finite double. The gap below a power of two is half the gap above it, except
at the bottom of the normal range. -/
def of (x : Binary64) : RoundingInterval :=
  let middle := 4 * x.significand
  { lower := if x.fraction = 0 ∧ 1 < x.exponentField then middle - 1 else middle - 2
    middle
    upper := middle + 2
    closed := x.significand % 2 == 0
    unit := x.exponent - 2 }

/-- Whether the decimal `d · 10 ^ k` rounds to the double. -/
def contains (interval : RoundingInterval) (d : Nat) (k : Int) : Bool :=
  let two := powerRatio 2 interval.unit
  let ten := powerRatio 10 k
  let point := d * ten.1 * two.2
  let lower := interval.lower * two.1 * ten.2
  let upper := interval.upper * two.1 * ten.2
  if interval.closed then decide (lower ≤ point ∧ point ≤ upper)
  else decide (lower < point ∧ point < upper)

/-- The decimal on the grid of `10 ^ k` that lies in the interval and is nearest to its middle. -/
def nearestOn (interval : RoundingInterval) (k : Int) : Option Nat :=
  let two := powerRatio 2 interval.unit
  let ten := powerRatio 10 k
  let num := interval.middle * two.1 * ten.2
  let den := two.2 * ten.1
  let below := num / den
  match interval.contains below k, interval.contains (below + 1) k with
  | true, true => some (roundHalfEven num den)
  | true, false => some below
  | false, true => some (below + 1)
  | false, false => none

/-- The first hit on successively finer grids, starting at the grid of `10 ^ k`. -/
def search (interval : RoundingInterval) : Nat → Int → Decimal
  | 0, k => ⟨(interval.nearestOn k).getD 0, k⟩
  | steps + 1, k =>
    match interval.nearestOn k with
    | some digits => ⟨digits, k⟩
    | none => search interval steps (k - 1)

end RoundingInterval

namespace Decimal

/-- Seventeen digits identify every double. -/
def mostDigits : Nat := 17

/-- A hit that rounded up to a power of ten is that power with the single digit one. -/
def carry (d : Decimal) : Decimal :=
  if d.digits % 10 = 0 then ⟨d.digits / 10, d.exponent + 1⟩ else d

/-- The shortest decimal that rounds to a finite non-zero double, the nearest of those. -/
def shortest (x : Binary64) : Decimal :=
  let interval := RoundingInterval.of x
  let top : Int := (Nat.log2 x.significand + x.exponent) * 30103 / 100000 + 1
  let first := order x.ratio.1 x.ratio.2 3 top
  (interval.search (mostDigits - 1) first).carry

end Decimal

end BuildServer
