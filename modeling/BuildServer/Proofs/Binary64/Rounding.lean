import BuildServer.Binary64.Rounding
import BuildServer.Proofs.Binary64.Spacing
import Mathlib.Data.Nat.Cast.Order.Field

/-! # Rounding finds the cell

The significand that `BinaryFormat.round` takes is the natural number nearest to the scaled quotient, and
the scale is that of the binade in which the quotient lies, so the word it gives is the one in whose cell
the quotient is. Conversion, product and quotient of doubles are therefore the exact ones, rounded.
-/

namespace BuildServer

/-- The rounded quotient is at most one half away, and exactly that only if it is even. -/
theorem roundHalfEven_spec (num : Nat) {den : Nat} (positive : 0 < den) :
    2 * num ≤ (2 * roundHalfEven num den + 1) * den ∧ 2 * roundHalfEven num den * den ≤ 2 * num + den ∧
      (2 * num = (2 * roundHalfEven num den + 1) * den ∨
        2 * roundHalfEven num den * den = 2 * num + den → roundHalfEven num den % 2 = 0) := by
  have split := Nat.div_add_mod num den
  have small := Nat.mod_lt num positive
  simp only [roundHalfEven]
  generalize num / den = k at *
  generalize num % den = rest at *
  obtain rfl := split
  have product (j : Nat) : (2 * j + 1) * den = 2 * (den * j) + den ∧ 2 * j * den = 2 * (den * j) := by
    constructor <;> ring
  have next : den * (k + 1) = den * k + den := by ring
  split
  · rw [(product (k + 1)).1, (product (k + 1)).2, next]
    omega
  · rw [(product k).1, (product k).2]
    omega

theorem roundHalfEven_near (num : Nat) {den : Nat} (positive : 0 < den) {r : ℚ}
    (quotient : r = num / den) :
    2 * r ≤ 2 * roundHalfEven num den + 1 ∧ 2 * roundHalfEven num den ≤ 2 * r + 1 ∧
      (2 * r = 2 * roundHalfEven num den + 1 ∨ 2 * roundHalfEven num den = 2 * r + 1 →
        roundHalfEven num den % 2 = 0) := by
  obtain ⟨upper, lower, tie⟩ := roundHalfEven_spec num positive
  generalize roundHalfEven num den = s at *
  have den0 : (0 : ℚ) < den := Nat.cast_pos.mpr positive
  have product : r * den = num := by rw [quotient, div_mul_cancel₀ _ den0.ne']
  have upper' : (2 * num : ℚ) ≤ (2 * s + 1) * den := by exact_mod_cast upper
  have lower' : (2 * s * den : ℚ) ≤ 2 * num + den := by exact_mod_cast lower
  rw [← product] at upper' lower'
  refine ⟨le_of_mul_le_mul_right (by linarith) den0, le_of_mul_le_mul_right (by linarith) den0, ?_⟩
  rintro (same | same)
  · refine tie (.inl ?_)
    have : (2 * num : ℚ) = (2 * s + 1) * den := by rw [← product, ← same]; ring
    exact_mod_cast this
  · refine tie (.inr ?_)
    have : (2 * s * den : ℚ) = 2 * num + den := by rw [← product, same]; ring
    exact_mod_cast this

section Powers

variable (base : Nat)

theorem powerRatio_pos [NeZero base] (k : Int) :
    0 < (powerRatio base k).1 ∧ 0 < (powerRatio base k).2 := by
  have positive (j : Nat) : 0 < Nat.pow base j := Nat.pow_pos (Nat.pos_of_neZero base)
  rw [powerRatio]
  split
  · exact ⟨positive _, Nat.one_pos⟩
  · exact ⟨Nat.one_pos, positive _⟩

variable [base.AtLeastTwo]

theorem cast_natPow (k : Nat) : ((Nat.pow ofNat(base) k : Nat) : ℚ) = ofNat(base) ^ k := by
  rw [Nat.pow_eq, Nat.cast_pow, Nat.cast_ofNat]

theorem powerRatio_eq (k : Int) :
    ((powerRatio ofNat(base) k).1 : ℚ) / (powerRatio ofNat(base) k).2 = ofNat(base) ^ k := by
  rw [powerRatio]
  split
  next up =>
    lift k to Nat using up
    rw [Int.toNat_natCast, cast_natPow, zpow_natCast, Nat.cast_one, div_one]
  next down =>
    obtain ⟨j, rfl⟩ : ∃ j : Nat, k = -j := ⟨(-k).toNat, by omega⟩
    rw [neg_neg, Int.toNat_natCast, cast_natPow, zpow_neg, zpow_natCast, Nat.cast_one, one_div]

end Powers

/-- Comparing quotients is comparing cross products. -/
theorem quotient_lt_iff {a b c d : Nat} (left : 0 < b) (right : 0 < d) :
    (a : ℚ) / b < c / d ↔ a * d < c * b := by
  rw [div_lt_div_iff₀ (Nat.cast_pos.mpr left) (Nat.cast_pos.mpr right)]
  exact_mod_cast Iff.rfl

theorem quotient_le_iff {a b c d : Nat} (left : 0 < b) (right : 0 < d) :
    (a : ℚ) / b ≤ c / d ↔ a * d ≤ c * b := by
  rw [← not_lt, quotient_lt_iff right left, Nat.not_lt]

/-- The order of a quotient is the greatest power of two that it reaches. -/
theorem binaryOrder_spec {num den : Nat} (above : 0 < num) (positive : 0 < den) :
    (2 : ℚ) ^ binaryOrder num den ≤ num / den ∧ (num / den : ℚ) < 2 ^ (binaryOrder num den + 1) := by
  have numLow : (2 : ℚ) ^ (num.log2 : Int) ≤ num := by
    rw [zpow_natCast]
    exact_mod_cast Nat.log2_self_le above.ne'
  have numHigh : (num : ℚ) < 2 ^ ((num.log2 : Int) + 1) := by
    have := @Nat.lt_log2_self num
    exact_mod_cast this
  have denLow : (2 : ℚ) ^ (den.log2 : Int) ≤ den := by
    rw [zpow_natCast]
    exact_mod_cast Nat.log2_self_le positive.ne'
  have denHigh : (den : ℚ) < 2 ^ ((den.log2 : Int) + 1) := by
    have := @Nat.lt_log2_self den
    exact_mod_cast this
  have den0 : (0 : ℚ) < den := Nat.cast_pos.mpr positive
  have reaches (k : Int) : num * (powerRatio 2 k).2 < den * (powerRatio 2 k).1 ↔
      (num / den : ℚ) < 2 ^ k := by
    rw [← powerRatio_eq 2, quotient_lt_iff positive (powerRatio_pos 2 k).2,
      Nat.mul_comm den]
  simp only [binaryOrder, reaches]
  generalize (num.log2 : Int) = l at *
  generalize (den.log2 : Int) = m at *
  have lower : (2 : ℚ) ^ (l - m - 1) ≤ num / den := by
    rw [le_div_iff₀ den0]
    calc (2 : ℚ) ^ (l - m - 1) * den
      _ ≤ 2 ^ (l - m - 1) * 2 ^ (m + 1) := mul_le_mul_of_nonneg_left denHigh.le (by positivity)
      _ = 2 ^ l := by rw [← zpow_add₀ two_ne_zero]; congr 1; omega
      _ ≤ num := numLow
  have upper : (num / den : ℚ) < 2 ^ (l - m + 1) := by
    rw [div_lt_iff₀ den0]
    calc (num : ℚ)
      _ < 2 ^ (l + 1) := numHigh
      _ = 2 ^ (l - m + 1) * 2 ^ m := by rw [← zpow_add₀ two_ne_zero]; congr 1; omega
      _ ≤ 2 ^ (l - m + 1) * den := mul_le_mul_of_nonneg_left denLow (by positivity)
  split
  next short => exact ⟨lower, by rwa [sub_add_cancel]⟩
  next enough => exact ⟨not_lt.mp enough, upper⟩

namespace Binary64

theorem size_of_significand {binade s : Nat} (fits : s ≤ 2 * leadingPlace)
    (leading : leadingPlace ≤ s ∨ binade = 0) :
    size (binade * leadingPlace + s) = s * (2 ^ binade * grain) := by
  rw [size, units_of_significand fits leading, Nat.pow_eq]
  push_cast
  ring

theorem midpoint_of_significand {binade s : Nat} (fits : s < 2 * leadingPlace)
    (leading : leadingPlace ≤ s ∨ binade = 0) :
    2 * midpoint (binade * leadingPlace + s) = (2 * s + 1) * (2 ^ binade * grain) := by
  rw [midpoint, Nat.add_assoc, size_of_significand fits.le leading,
    size_of_significand fits (leading.imp_left Nat.le_succ_of_le)]
  push_cast
  ring

/-- The nearest natural number to a scaled number, in the binade it lies in, is the significand of the
double that the number is rounded to. Where it is the first of the next binade, the whole cell below it
is in this one; where it is the first of this binade, no number of the binade is below it. -/
theorem rounds_of_significand {binade s : Nat} {r : ℚ} (below : r < 2 * leadingPlace)
    (leading : leadingPlace ≤ r ∨ binade = 0) (upper : 2 * r ≤ 2 * s + 1) (lower : 2 * s ≤ 2 * r + 1)
    (tie : 2 * r = 2 * s + 1 ∨ 2 * s = 2 * r + 1 → s % 2 = 0) :
    Rounds (r * (2 ^ binade * grain)) (binade * leadingPlace + s) := by
  have fits : s ≤ 2 * leadingPlace := by
    have : (2 * s : ℚ) < 2 * (2 * leadingPlace) + 1 := by linarith
    have : 2 * s < 2 * (2 * leadingPlace) + 1 := by exact_mod_cast this
    omega
  have normal : leadingPlace ≤ s ∨ binade = 0 := leading.imp_left fun enough => by
    have : (2 * leadingPlace : ℚ) ≤ 2 * s + 1 := by linarith
    have : 2 * leadingPlace ≤ 2 * s + 1 := by exact_mod_cast this
    omega
  have parity : (binade * leadingPlace + s) % 2 = s % 2 := by
    rw [leadingPlace]
    omega
  have scale : (0 : ℚ) < 2 ^ binade * grain := mul_pos (by positivity) grain_pos
  have own := size_of_significand fits normal
  have middles {t : Nat} := @midpoint_of_significand binade t
  generalize (2 : ℚ) ^ binade * grain = w at *
  have upward : r * w ≤ midpoint (binade * leadingPlace + s) ∧
      (r * w = midpoint (binade * leadingPlace + s) → 2 * r = 2 * s + 1) := by
    rcases Nat.lt_or_eq_of_le fits with inside | full
    · have middle := middles inside normal
      have scaled := mul_le_mul_of_nonneg_right upper scale.le
      exact ⟨by linarith, fun same => mul_right_cancel₀ scale.ne' (by linarith)⟩
    · have beyond := size_lt_midpoint (binade * leadingPlace + s)
      have : r * w < s * w := mul_lt_mul_of_pos_right (by rw [full]; exact_mod_cast below) scale
      exact ⟨by linarith, fun same => by linarith⟩
  have under (m : Nat) (next : m + 1 = binade * leadingPlace + s) :
      midpoint m ≤ r * w ∧ (midpoint m = r * w → 2 * s = 2 * r + 1) := by
    by_cases first : s = leadingPlace ∧ binade ≠ 0
    · have beyond := midpoint_lt_size m
      have reached : (s : ℚ) ≤ r := by
        rw [first.1]
        exact leading.resolve_right first.2
      have : s * w ≤ r * w := mul_le_mul_of_nonneg_right reached scale.le
      rw [next, own] at beyond
      exact ⟨by linarith, fun same => by linarith⟩
    · have place : 0 < leadingPlace := by decide
      obtain ⟨t, rfl⟩ : ∃ t, s = t + 1 := ⟨s - 1, by rcases normal with enough | rfl <;> omega⟩
      obtain rfl : m = binade * leadingPlace + t := by omega
      have middle := middles (show t < 2 * leadingPlace by omega) (by omega)
      have scaled := mul_le_mul_of_nonneg_right lower scale.le
      push_cast at scaled
      exact ⟨by linarith, fun same => mul_right_cancel₀ scale.ne' (by push_cast; linarith)⟩
  exact {
    above := upward.1
    below := fun m next => (under m next).1
    even := by
      rw [parity]
      rintro (middle | ⟨m, next, middle⟩)
      · exact tie (.inl (upward.2 middle))
      · exact tie (.inr ((under m next).2 middle)) }

/-- The word that a quotient is rounded to, or the infinity if that is beyond the finite ones. -/
theorem round_spec (num : Nat) {den : Nat} (positive : 0 < den) :
    ∃ n, Rounds (num / den) n ∧ BinaryFormat.double.round num den = min n infinityMagnitude := by
  rcases Nat.eq_zero_or_pos num with rfl | above
  · refine ⟨0, ?_, by simp [BinaryFormat.round]⟩
    simpa using rounds_size 0
  obtain ⟨reached, short⟩ := binaryOrder_spec above positive
  simp only [BinaryFormat.round, if_neg above.ne', BinaryFormat.double]
  generalize unitEq : max (binaryOrder num den - (52 : Nat)) (-1074) = unit
  obtain ⟨scalePos, denPos⟩ := powerRatio_pos 2 unit
  have unit0 : (0 : ℚ) < 2 ^ unit := by positivity
  have place : (2 : ℚ) ^ (52 : Int) = leadingPlace := by
    rw [leadingPlace]
    norm_num
  have scale : (2 : ℚ) ^ (unit - -1074).toNat * grain = 2 ^ unit := by
    rw [grain, ← zpow_natCast, ← zpow_add₀ two_ne_zero]
    congr 1
    omega
  obtain ⟨upper, lower, tie⟩ := roundHalfEven_near (r := num / den / 2 ^ unit)
    (num * (powerRatio 2 unit).2) (Nat.mul_pos positive scalePos) (by
      rw [← powerRatio_eq 2 unit]
      push_cast
      rw [div_div_div_eq, mul_comm (den : ℚ)])
  have below : (num / den / 2 ^ unit : ℚ) < 2 * leadingPlace := by
    rw [div_lt_iff₀ unit0]
    calc (num / den : ℚ)
      _ < 2 ^ (binaryOrder num den + 1) := short
      _ ≤ 2 ^ (1 + 52 + unit) := zpow_le_zpow_right₀ one_le_two (by omega)
      _ = 2 * leadingPlace * 2 ^ unit := by
        rw [zpow_add₀ two_ne_zero, zpow_add₀ two_ne_zero, zpow_one, place]
  have leading : (leadingPlace : ℚ) ≤ num / den / 2 ^ unit ∨ (unit - -1074).toNat = 0 := by
    by_cases least : unit = -1074
    · exact .inr (by omega)
    · refine .inl ?_
      rw [le_div_iff₀ unit0, ← place, ← zpow_add₀ two_ne_zero]
      exact (zpow_le_zpow_right₀ one_le_two (by omega)).trans reached
  refine ⟨(unit - -1074).toNat * leadingPlace +
    roundHalfEven (num * (powerRatio 2 unit).2) (den * (powerRatio 2 unit).1), ?_, rfl⟩
  have rounds := rounds_of_significand below leading upper lower tie
  rwa [scale, div_mul_cancel₀ _ unit0.ne'] at rounds

theorem magnitude_lt (x : Binary64) : x.magnitude < signPlace := Nat.mod_lt _ (by decide)

theorem magnitude_pack (negative : Bool) {m : Nat} (fits : m < signPlace) :
    (pack negative m).magnitude = m := by
  rw [signPlace] at fits
  simp only [magnitude, pack, signPlace, UInt64.toNat_ofNat']
  cases negative <;> simp <;> omega

theorem negative_pack (negative : Bool) {m : Nat} (fits : m < signPlace) :
    (pack negative m).negative = negative := by
  rw [signPlace] at fits
  simp only [Binary64.negative, pack, signPlace, UInt64.toNat_ofNat']
  cases negative <;> simp <;> omega

/-- A double is known by its sign and its magnitude number. -/
theorem pack_magnitude (x : Binary64) : pack x.negative x.magnitude = x := by
  obtain ⟨bits⟩ := x
  have fits : bits.toNat < 18446744073709551616 := bits.toNat_lt
  have whole : ((if Binary64.negative ⟨bits⟩ then signPlace else 0) + magnitude ⟨bits⟩) = bits.toNat := by
    cases sign : Binary64.negative ⟨bits⟩ with
    | true =>
      have large : signPlace ≤ bits.toNat := of_decide_eq_true sign
      simp only [if_true, magnitude, signPlace] at large ⊢
      omega
    | false =>
      have small : ¬signPlace ≤ bits.toNat := of_decide_eq_false sign
      simp only [Bool.false_eq_true, if_false, magnitude, signPlace] at small ⊢
      omega
  rw [pack, whole, UInt64.ofNat_toNat]

/-- The finite doubles are those numbered before the infinity. -/
theorem isFinite_iff (x : Binary64) : x.isFinite = true ↔ x.magnitude < infinityMagnitude := by
  have fits := x.magnitude_lt
  rw [signPlace] at fits
  simp only [isFinite, exponentField, bne_iff_ne, infinityMagnitude, specialField, leadingPlace]
  omega

theorem ratio_pos (x : Binary64) : 0 < x.ratio.2 := (powerRatio_pos 2 _).2

/-- The scale of a significand is that of its binade. -/
theorem zpow_exponent (x : Binary64) : (2 : ℚ) ^ x.exponent = 2 ^ (x.exponentField - 1) * grain := by
  rw [grain, ← zpow_natCast, ← zpow_add₀ two_ne_zero, exponent]
  congr 1
  omega

/-- The size of a double is its scaled significand. -/
theorem size_magnitude (x : Binary64) : size x.magnitude = x.significand * 2 ^ x.exponent := by
  have significand : x.significand = (if x.exponentField = 0 then 0 else leadingPlace) + x.fraction := by
    rw [Binary64.significand]
    split <;> simp
  have whole : units x.magnitude = x.significand * Nat.pow 2 (x.exponentField - 1) := by
    rw [significand]
    rfl
  rw [size, whole, Nat.pow_eq, zpow_exponent]
  push_cast
  ring

/-- The quotient of a double is its size. -/
theorem ratio_eq (x : Binary64) : (x.ratio.1 : ℚ) / x.ratio.2 = size x.magnitude := by
  rw [size_magnitude, ratio, ← powerRatio_eq 2]
  push_cast
  rw [mul_div_assoc]

/-- A quotient is converted by rounding it. -/
theorem ofRatio_spec (negative : Bool) (num : Nat) {den : Nat} (positive : 0 < den) :
    ∃ n, Rounds (num / den) n ∧ (ofRatio negative num den).magnitude = min n infinityMagnitude := by
  obtain ⟨n, rounds, same⟩ := round_spec num positive
  refine ⟨n, rounds, ?_⟩
  rw [ofRatio, same, magnitude_pack]
  exact (Nat.min_le_right ..).trans_lt (by decide)

theorem ofNat_spec (n : Nat) :
    ∃ k, Rounds n k ∧ (ofNat n).magnitude = min k infinityMagnitude := by
  simpa [ofNat] using ofRatio_spec false n Nat.one_pos

theorem mul_spec (x y : Binary64) : ∃ n, Rounds (size x.magnitude * size y.magnitude) n ∧
    (x.mul y).magnitude = min n infinityMagnitude := by
  have spec := ofRatio_spec false (x.ratio.1 * y.ratio.1) (Nat.mul_pos x.ratio_pos y.ratio_pos)
  push_cast at spec
  rwa [mul_div_mul_comm, ratio_eq, ratio_eq] at spec

theorem div_spec (x : Binary64) {y : Binary64} (nonzero : 0 < y.ratio.1) :
    ∃ n, Rounds (size x.magnitude / size y.magnitude) n ∧
      (x.div y).magnitude = min n infinityMagnitude := by
  have spec := ofRatio_spec false (x.ratio.1 * y.ratio.2) (Nat.mul_pos x.ratio_pos nonzero)
  push_cast at spec
  rwa [← div_div_div_eq, ratio_eq, ratio_eq] at spec

/-- The number that a finite double is. -/
def value (x : Binary64) : ℚ := if x.negative then -size x.magnitude else size x.magnitude

/-- Whether a double is finite and no finite double is nearer to a number; if another is as near, the one
with the even significand is meant. -/
structure Nearest (x : Binary64) (q : ℚ) : Prop where
  finite : x.isFinite = true
  closest : ∀ y : Binary64, y.isFinite = true → |x.value - q| ≤ |y.value - q|
  even : ∀ y : Binary64, y.isFinite = true → y.value ≠ x.value → |y.value - q| = |x.value - q| →
    x.magnitude % 2 = 0

theorem abs_value_sub (y : Binary64) (negative : Bool) {q : ℚ} (positive : 0 ≤ q) :
    |y.value - (if negative then -q else q)| =
      if y.negative = negative then |size y.magnitude - q| else size y.magnitude + q := by
  have size := size_nonneg y.magnitude
  rw [value]
  cases y.negative <;> cases negative <;> simp only [Bool.false_eq_true, if_true, if_false, reduceCtorEq]
  · rw [sub_neg_eq_add, abs_of_nonneg (by linarith)]
  · rw [abs_of_nonpos (by linarith)]
    ring
  · rw [← abs_neg]
    congr 1
    ring

/-- A number is rounded to the nearest double, with either sign: a double on the other side of zero is as
near only if it is zero. -/
theorem Rounds.nearest_double {x : Binary64} {q : ℚ} (rounds : Rounds q x.magnitude)
    (finite : x.isFinite = true) (positive : 0 ≤ q) : x.Nearest (if x.negative then -q else q) := by
  have own := abs_value_sub x x.negative positive
  rw [if_pos rfl] at own
  have bounded (y : Binary64) : |size y.magnitude - q| ≤ size y.magnitude + q :=
    abs_le.mpr ⟨by linarith [size_nonneg y.magnitude], by linarith⟩
  refine ⟨finite, fun y _ => ?_, fun y _ other tie => ?_⟩
  · rw [own, abs_value_sub y x.negative positive]
    split
    · exact rounds.nearest _
    · exact (rounds.nearest _).trans (bounded y)
  · rw [own, abs_value_sub y x.negative positive] at tie
    by_cases sign : y.negative = x.negative
    · rw [if_pos sign] at tie
      refine rounds.even_of_tie (fun same => other ?_) tie
      rw [value, value, sign, same]
    · rw [if_neg sign] at tie
      have least := size_nonneg y.magnitude
      have reached := rounds.nearest 0
      rw [size_zero, zero_sub, abs_neg, abs_of_nonneg positive] at reached
      by_cases even : x.magnitude = 0
      · rw [even]
      · refine rounds.even_of_tie (Ne.symm even) ?_
        rw [size_zero, zero_sub, abs_neg, abs_of_nonneg positive]
        linarith

end Binary64

end BuildServer
