import BuildServer.Binary64.Shortest
import BuildServer.Proofs.Binary64.Rounding

/-! # The digits that identify a double

The interval that `Decimal.shortest` searches is the cell of the double. On a grid finer than the cell
is wide one of the two decimals around the double lies in it, and seventeen digits make such a grid: so
the search always has a hit, and what it hits is rounded to the double.
-/

namespace BuildServer

namespace Decimal

/-- The number that a decimal denotes. -/
def value (d : Decimal) : ℚ := d.digits * 10 ^ d.exponent

theorem value_carry (d : Decimal) : d.carry.value = d.value := by
  rw [carry]
  split
  next tens =>
    have whole : d.digits = d.digits / 10 * 10 := by omega
    have cast : (d.digits : ℚ) = (d.digits / 10 : Nat) * 10 := by exact_mod_cast whole
    rw [value, value, cast, zpow_add₀ (by norm_num), zpow_one]
    ring
  next => rfl

end Decimal

namespace Binary64

/-- A magnitude number is its significand counted from the start of its binade. -/
theorem magnitude_eq (x : Binary64) : x.magnitude = (x.exponentField - 1) * leadingPlace + x.significand ∧
    x.significand < 2 * leadingPlace ∧ (leadingPlace ≤ x.significand ∨ x.exponentField - 1 = 0) := by
  have split : leadingPlace * x.exponentField + x.fraction = x.magnitude := Nat.div_add_mod ..
  have small : x.fraction < leadingPlace := Nat.mod_lt _ (by decide)
  rw [significand]
  by_cases subnormal : x.exponentField = 0
  · rw [if_pos subnormal]
    rw [subnormal] at split ⊢
    omega
  · rw [if_neg subnormal]
    simp only [leadingPlace] at split small ⊢
    omega

end Binary64

open Binary64

namespace RoundingInterval

variable {x : Binary64}

/-- The ends of the interval of a double are the midpoints around it. -/
theorem ends_of {m : Nat} (next : m + 1 = x.magnitude) :
    ((of x).lower : ℚ) * 2 ^ (of x).unit = midpoint m ∧
      ((of x).middle : ℚ) * 2 ^ (of x).unit = size x.magnitude ∧
      ((of x).upper : ℚ) * 2 ^ (of x).unit = midpoint x.magnitude := by
  obtain ⟨whole, fits, leading⟩ := x.magnitude_eq
  have quarter : (2 : ℚ) ^ (of x).unit = 2 ^ (x.exponentField - 1) * grain / 4 := by
    rw [← zpow_exponent, of, zpow_sub₀ two_ne_zero]
    norm_num
  have own := size_of_significand fits.le leading
  have upper := midpoint_of_significand fits leading
  rw [← whole] at own upper
  refine ⟨?_, ?_, ?_⟩
  · by_cases first : x.fraction = 0 ∧ 1 < x.exponentField
    · obtain ⟨binade, field⟩ : ∃ binade, x.exponentField = binade + 2 := ⟨x.exponentField - 2, by omega⟩
      have least : x.significand = leadingPlace := by
        rw [significand, if_neg (by omega), first.1, Nat.add_zero]
      have before : m = binade * leadingPlace + (2 * leadingPlace - 1) := by
        rw [field, least, leadingPlace] at whole
        rw [leadingPlace]
        omega
      have below := @midpoint_of_significand binade (2 * leadingPlace - 1) (by decide) (.inl (by decide))
      have lower : (of x).lower = 4 * leadingPlace - 1 := by
        simp only [of, if_pos first, least]
      rw [← before] at below
      rw [quarter, lower, field, show binade + 2 - 1 = binade + 1 by omega, pow_succ]
      rw [leadingPlace] at below ⊢
      push_cast at below ⊢
      linarith
    · have positive : 0 < x.significand := by
        rcases leading with enough | bottom
        · exact (show 0 < leadingPlace by decide).trans_le enough
        · rw [bottom] at whole
          omega
      have before : m = (x.exponentField - 1) * leadingPlace + (x.significand - 1) := by omega
      have within : leadingPlace ≤ x.significand - 1 ∨ x.exponentField - 1 = 0 := by
        by_cases subnormal : x.exponentField = 0
        · exact .inr (by omega)
        · rw [significand, if_neg subnormal]
          omega
      have below := midpoint_of_significand (show x.significand - 1 < 2 * leadingPlace by omega) within
      have lower : (of x).lower = 4 * x.significand - 2 := by
        simp only [of, if_neg first]
      rw [← before, Nat.cast_sub positive] at below
      rw [quarter, lower, Nat.cast_sub (by omega)]
      push_cast at below ⊢
      linarith
  · rw [quarter, own, of]
    push_cast
    ring
  · rw [quarter, of]
    push_cast
    linarith

/-- The interval is closed if the magnitude number is even. -/
theorem closed_of (x : Binary64) : (of x).closed = decide (x.magnitude % 2 = 0) := by
  have whole := x.magnitude_eq.1
  rw [leadingPlace] at whole
  rw [of, Bool.eq_iff_iff, beq_iff_eq, decide_eq_true_eq]
  omega

/-- A decimal against a multiple of a power of two, by cross products. -/
theorem cross_lt (a b : Nat) (k l : Int) :
    (a * (powerRatio 10 k).1 * (powerRatio 2 l).2 < b * (powerRatio 2 l).1 * (powerRatio 10 k).2 ↔
      (a * 10 ^ k : ℚ) < b * 2 ^ l) ∧
    (b * (powerRatio 2 l).1 * (powerRatio 10 k).2 < a * (powerRatio 10 k).1 * (powerRatio 2 l).2 ↔
      (b * 2 ^ l : ℚ) < a * 10 ^ k) := by
  have ten := (powerRatio_pos 10 k).2
  have two := (powerRatio_pos 2 l).2
  rw [← quotient_lt_iff ten two, ← quotient_lt_iff two ten, ← powerRatio_eq 10, ← powerRatio_eq 2]
  push_cast
  rw [mul_div_assoc, mul_div_assoc]
  exact ⟨Iff.rfl, Iff.rfl⟩

/-- The interval of a double holds the decimals that are rounded to it. -/
theorem contains_of {m : Nat} (next : m + 1 = x.magnitude) (d : Nat) (k : Int) :
    (of x).contains d k = true ↔ Rounds (d * 10 ^ k) x.magnitude := by
  obtain ⟨lower, -, upper⟩ := ends_of next
  obtain ⟨-, shortOfLower⟩ := cross_lt d (of x).lower k (of x).unit
  obtain ⟨shortOfUpper, -⟩ := cross_lt d (of x).upper k (of x).unit
  have reachesLower := not_congr (cross_lt d (of x).lower k (of x).unit).1
  have reachesUpper := not_congr (cross_lt d (of x).upper k (of x).unit).2
  simp only [not_lt] at reachesLower reachesUpper
  simp only [contains, closed_of]
  rw [lower] at *
  rw [upper] at *
  rw [← next] at *
  rw [rounds_succ_iff]
  split
  next even =>
    have even := of_decide_eq_true even
    rw [decide_eq_true_eq, reachesLower, reachesUpper]
    exact ⟨fun within => ⟨within.1, within.2, fun _ => even⟩, fun within => ⟨within.1, within.2.1⟩⟩
  next odd =>
    have odd : ¬(m + 1) % 2 = 0 := fun even => odd (decide_eq_true even)
    rw [decide_eq_true_eq, shortOfLower, shortOfUpper]
    constructor
    · rintro ⟨above, below⟩
      refine ⟨above.le, below.le, ?_⟩
      rintro (middle | middle)
      · exact absurd middle above.ne
      · exact absurd middle below.ne
    · rintro ⟨above, below, even⟩
      exact ⟨above.lt_of_ne fun middle => odd (even (.inl middle)),
        below.lt_of_ne fun middle => odd (even (.inr middle))⟩

/-- Where a double lies on a grid. -/
theorem grid_of (x : Binary64) (positive : 0 < x.magnitude) (k : Int) {below : Nat}
    (floor : below = (of x).middle * (powerRatio 2 (of x).unit).1 * (powerRatio 10 k).2 /
      ((powerRatio 2 (of x).unit).2 * (powerRatio 10 k).1)) :
    (below * 10 ^ k : ℚ) ≤ size x.magnitude ∧ size x.magnitude < (below + 1 : Nat) * 10 ^ k := by
  obtain ⟨m, next⟩ : ∃ m, m + 1 = x.magnitude := ⟨x.magnitude - 1, by omega⟩
  have middle := (ends_of next).2.1
  have den := Nat.mul_pos (powerRatio_pos 2 (of x).unit).2 (powerRatio_pos 10 k).1
  have reached := cross_lt below (of x).middle k (of x).unit
  have passed := cross_lt (below + 1) (of x).middle k (of x).unit
  rw [middle] at reached passed
  have within := Nat.div_mul_le_self ((of x).middle * (powerRatio 2 (of x).unit).1 *
    (powerRatio 10 k).2) ((powerRatio 2 (of x).unit).2 * (powerRatio 10 k).1)
  have beyond := (Nat.div_lt_iff_lt_mul den).mp (floor ▸ Nat.lt_succ_self below)
  rw [← floor] at within
  constructor
  · rw [← not_lt, ← reached.2, not_lt, Nat.mul_assoc, Nat.mul_comm (powerRatio 10 k).1]
    exact within
  · rw [← passed.2, Nat.mul_assoc (below + 1), Nat.mul_comm (powerRatio 10 k).1, floor]
    exact beyond

/-- What is found on a grid is rounded to the double, and is one of its two neighbours on the grid. -/
theorem nearestOn_of {m : Nat} (next : m + 1 = x.magnitude) {k : Int} {d : Nat}
    (found : (of x).nearestOn k = some d) :
    Rounds (d * 10 ^ k) x.magnitude ∧ (d - 1 : ℚ) * 10 ^ k ≤ size x.magnitude := by
  have positive : 0 < x.magnitude := by omega
  have grid := grid_of x positive k rfl
  simp only [nearestOn] at found
  generalize (of x).middle * (powerRatio 2 (of x).unit).1 * (powerRatio 10 k).2 = num at *
  generalize (powerRatio 2 (of x).unit).2 * (powerRatio 10 k).1 = den at *
  have either : roundHalfEven num den = num / den ∨ roundHalfEven num den = num / den + 1 := by
    simp only [roundHalfEven]
    split
    · exact .inr rfl
    · exact .inl rfl
  generalize num / den = below at *
  have inside : (d = below ∨ d = below + 1) ∧ (of x).contains d k = true := by
    split at found
    next both above =>
      obtain rfl := Option.some.inj found
      exact ⟨either, by rcases either with same | same <;> rwa [same]⟩
    next only _ =>
      obtain rfl := Option.some.inj found
      exact ⟨.inl rfl, only⟩
    next _ only =>
      obtain rfl := Option.some.inj found
      exact ⟨.inr rfl, only⟩
    next => cases found
  refine ⟨(contains_of next d k).mp inside.2, le_trans ?_ grid.1⟩
  apply mul_le_mul_of_nonneg_right _ (by positivity)
  rcases inside.1 with rfl | rfl
  · linarith
  · push_cast
    linarith

/-- Something is found on a grid that is finer than the interval is wide. -/
theorem nearestOn_ne_none {m : Nat} (next : m + 1 = x.magnitude) {k : Int}
    (fine : (10 : ℚ) ^ k < midpoint x.magnitude - midpoint m) : (of x).nearestOn k ≠ none := by
  have grid := grid_of x (by omega) k rfl
  intro missed
  simp only [nearestOn] at missed
  generalize (of x).middle * (powerRatio 2 (of x).unit).1 * (powerRatio 10 k).2 = num at *
  generalize (powerRatio 2 (of x).unit).2 * (powerRatio 10 k).1 = den at *
  generalize num / den = below at *
  have outside (d : Nat) (out : (of x).contains d k = false) :
      (d * 10 ^ k : ℚ) ≤ midpoint m ∨ midpoint x.magnitude ≤ d * 10 ^ k := by
    by_contra! within
    have rounds : Rounds (d * 10 ^ k) x.magnitude := by
      rw [← next] at within ⊢
      refine rounds_succ_iff.mpr ⟨within.1.le, within.2.le, ?_⟩
      rintro (middle | middle)
      · exact absurd middle within.1.ne
      · exact absurd middle within.2.ne
    rw [(contains_of next d k).mpr rounds] at out
    cases out
  split at missed
  case h_4 neither above =>
    have lower := (outside below neither).resolve_right fun far => by
      linarith [size_lt_midpoint x.magnitude]
    have upper := (outside (below + 1) above).resolve_left fun far => by
      have := midpoint_lt_size m
      rw [next] at this
      linarith
    push_cast at upper
    linarith
  all_goals cases missed

end RoundingInterval

namespace Decimal

/-- The search for the order ends at the greatest power of ten that is reached, if it starts no lower
and takes enough steps. -/
theorem order_spec (num : Nat) {den : Nat} (positive : 0 < den) {steps : Nat} {k : Int}
    (high : (num / den : ℚ) < 10 ^ (k + 1)) (low : (10 : ℚ) ^ (k - steps) ≤ num / den) :
    (10 : ℚ) ^ order num den steps k ≤ num / den ∧
      (num / den : ℚ) < 10 ^ (order num den steps k + 1) := by
  induction steps generalizing k with
  | zero => exact ⟨by simpa [order] using low, high⟩
  | succ steps ih =>
    have short : num * (powerRatio 10 k).2 < den * (powerRatio 10 k).1 ↔ (num / den : ℚ) < 10 ^ k := by
      rw [← powerRatio_eq 10, quotient_lt_iff positive (powerRatio_pos 10 k).2, Nat.mul_comm den]
    simp only [order]
    split
    next below =>
      apply ih
      · rw [sub_add_cancel]
        exact short.mp below
      · rw [show k - 1 - (steps : Int) = k - (steps + 1 : Nat) by push_cast; ring]
        exact low
    next reached => exact ⟨not_lt.mp fun below => reached (short.mpr below), high⟩

/-- The exponent from which the order of a double is searched downwards, by the order of two. -/
def startOrder (l : Int) : Int := l * 30103 / 100000 + 1

/-- Whether the search from the start downwards meets every number of an order of two. -/
def startsWell (l : Int) : Bool :=
  let two := powerRatio 2 l
  let low := powerRatio 10 (startOrder l - 3)
  let high := powerRatio 10 (startOrder l + 1)
  decide (low.1 * two.2 ≤ two.1 * low.2) && decide (2 * two.1 * high.2 ≤ high.1 * two.2)

theorem all_startWell : (List.range 2098).all (fun (i : Nat) => startsWell (i - 1074)) = true := by
  decide +kernel

/-- For the orders of two that doubles have, the start is neither too low nor too high. -/
theorem startOrder_spec {l : Int} (least : -1074 ≤ l) (most : l ≤ 1023) :
    (10 : ℚ) ^ (startOrder l - 3) ≤ 2 ^ l ∧ (2 : ℚ) ^ (l + 1) ≤ 10 ^ (startOrder l + 1) := by
  have well := List.all_eq_true.mp all_startWell (l + 1074).toNat (List.mem_range.mpr (by omega))
  rw [show ((l + 1074).toNat : Int) - 1074 = l by omega, startsWell, Bool.and_eq_true,
    decide_eq_true_eq, decide_eq_true_eq] at well
  have two := (powerRatio_pos 2 l).2
  have twice : (2 : ℚ) ^ (l + 1) = (2 * (powerRatio 2 l).1 : Nat) / (powerRatio 2 l).2 := by
    rw [zpow_add₀ two_ne_zero, ← powerRatio_eq 2]
    push_cast
    ring
  rw [twice, ← powerRatio_eq 2, ← powerRatio_eq 10, ← powerRatio_eq 10,
    quotient_le_iff (powerRatio_pos 10 _).2 two, quotient_le_iff two (powerRatio_pos 10 _).2]
  exact well

end Decimal

namespace Binary64

variable {x : Binary64}

/-- The order of two of a double. -/
theorem log2_spec (finite : x.isFinite = true) (positive : 0 < x.magnitude) :
    (2 : ℚ) ^ (Nat.log2 x.significand + x.exponent) ≤ size x.magnitude ∧
      size x.magnitude < 2 ^ (Nat.log2 x.significand + x.exponent + 1) ∧
      -1074 ≤ Nat.log2 x.significand + x.exponent ∧ Nat.log2 x.significand + x.exponent ≤ 1023 := by
  obtain ⟨whole, fits, -⟩ := x.magnitude_eq
  have nonzero : x.significand ≠ 0 := fun zero => by
    have : size x.magnitude = 0 := by rw [size_magnitude, zero, Nat.cast_zero, zero_mul]
    linarith [size_strictMono positive, size_nonneg 0]
  have scale : (0 : ℚ) < 2 ^ x.exponent := by positivity
  have low : (2 : ℚ) ^ Nat.log2 x.significand ≤ x.significand := by
    exact_mod_cast Nat.log2_self_le nonzero
  have high : (x.significand : ℚ) < 2 ^ (Nat.log2 x.significand + 1) := by
    have := @Nat.lt_log2_self x.significand
    exact_mod_cast this
  have field : x.exponentField ≤ 2046 := by
    have below := (isFinite_iff x).mp finite
    rw [exponentField]
    rw [infinityMagnitude, specialField, leadingPlace] at *
    omega
  have digits : Nat.log2 x.significand < 53 := (Nat.log2_lt nonzero).mpr fits
  refine ⟨?_, ?_, ?_, ?_⟩
  · rw [size_magnitude, zpow_add₀ two_ne_zero, zpow_natCast]
    exact mul_le_mul_of_nonneg_right low scale.le
  · rw [size_magnitude, add_right_comm, zpow_add₀ two_ne_zero]
    exact mul_lt_mul_of_pos_right (by exact_mod_cast high) scale
  · rw [exponent]
    omega
  · rw [exponent]
    omega

/-- The exponent of the first digit of a double, with which the search for its decimal begins. -/
def firstOrder (x : Binary64) : Int :=
  Decimal.order x.ratio.1 x.ratio.2 3 (Decimal.startOrder (Nat.log2 x.significand + x.exponent))

theorem firstOrder_spec (finite : x.isFinite = true) (positive : 0 < x.magnitude) :
    (10 : ℚ) ^ x.firstOrder ≤ size x.magnitude ∧ size x.magnitude < 10 ^ (x.firstOrder + 1) := by
  obtain ⟨reached, short, least, most⟩ := log2_spec finite positive
  obtain ⟨low, high⟩ := Decimal.startOrder_spec least most
  rw [firstOrder, ← ratio_eq]
  apply Decimal.order_spec _ x.ratio_pos
  · rw [ratio_eq]
    exact short.trans_le high
  · rw [ratio_eq]
    exact low.trans reached

/-- The cell of a double is more than 10⁻¹⁶ of the double wide. -/
theorem size_lt_width {m : Nat} (next : m + 1 = x.magnitude) :
    size x.magnitude < 10 ^ (16 : Int) * (midpoint x.magnitude - midpoint m) := by
  have apart := midpoint_lt_scaled m
  have own := size_lt_midpoint x.magnitude
  have positive := midpoint_pos m
  rw [next, roundingUnit, leadingPlace] at apart
  norm_num at apart ⊢
  linarith

/-- The finest grid that is searched is finer than the least positive double. -/
theorem finest_lt_grain : (10 : ℚ) ^ (-324 : Int) < grain := by
  rw [grain, ← powerRatio_eq 2, ← powerRatio_eq 10,
    quotient_lt_iff (powerRatio_pos 10 _).2 (powerRatio_pos 2 _).2]
  decide +kernel

/-- No cell is as narrow as the finest grid. -/
theorem finest_lt_width {m : Nat} (next : m + 1 = x.magnitude) :
    (10 : ℚ) ^ (-324 : Int) < midpoint x.magnitude - midpoint m := by
  have finest := finest_lt_grain
  have first := size_succ m
  have second := size_succ (m + 1)
  have gaps : (1 : ℚ) ≤ gap m ∧ (1 : ℚ) ≤ gap (m + 1) :=
    ⟨by exact_mod_cast gap_pos m, by exact_mod_cast gap_pos (m + 1)⟩
  have scaledFirst := mul_le_mul_of_nonneg_right gaps.1 grain_pos.le
  have scaledSecond := mul_le_mul_of_nonneg_right gaps.2 grain_pos.le
  rw [← next, midpoint, midpoint]
  linarith

variable {k : Int}

/-- Among the grids of seventeen digits, down to the finest, one is finer than the cell. -/
theorem exists_fine_grid {m : Nat} (next : m + 1 = x.magnitude) (low : (10 : ℚ) ^ k ≤ size x.magnitude)
    (high : size x.magnitude < 10 ^ (k + 1)) : ∃ j ≤ 16, -324 ≤ k - (j : Nat) ∧
      (10 : ℚ) ^ (k - (j : Nat)) < midpoint x.magnitude - midpoint m := by
  have least : grain ≤ size x.magnitude := by
    have := size_strictMono.monotone (show 1 ≤ x.magnitude by omega)
    rwa [size_succ 0, size_zero, zero_add, show gap 0 = 1 from rfl, Nat.cast_one, one_mul] at this
  have start : -324 < k + 1 :=
    (zpow_lt_zpow_iff_right₀ (by norm_num)).mp ((finest_lt_grain.trans_le least).trans high)
  by_cases deep : k - 16 < -324
  · refine ⟨(k + 324).toNat, by omega, by omega, ?_⟩
    rw [show k - ((k + 324).toNat : Int) = -324 by omega]
    exact finest_lt_width next
  · refine ⟨16, le_rfl, by omega, ?_⟩
    rw [zpow_sub₀ (by norm_num), div_lt_iff₀ (by positivity), mul_comm]
    exact low.trans_lt (size_lt_width next)

/-- A decimal on one of these grids that is at most one step above the double has seventeen digits. -/
theorem digits_le {d i : Nat} (high : size x.magnitude < 10 ^ (k + 1)) (few : i ≤ 16)
    (near : (d - 1 : ℚ) * 10 ^ (k - i) ≤ size x.magnitude) : d ≤ 10 ^ 17 := by
  have scale : (0 : ℚ) < 10 ^ (k - i) := by positivity
  have scaled : (d - 1 : ℚ) * 10 ^ (k - i) < 10 ^ (17 : Int) * 10 ^ (k - i) := by
    rw [← zpow_add₀ (by norm_num)]
    exact (near.trans_lt high).trans_le (zpow_le_zpow_right₀ (by norm_num) (by omega))
  have below : (d : ℚ) < (10 ^ 17 + 1 : Nat) := by
    have bound := lt_of_mul_lt_mul_right scaled scale.le
    norm_num at bound
    push_cast
    linarith
  exact Nat.le_of_lt_succ (Nat.cast_lt.mp below)

end Binary64

namespace RoundingInterval

/-- The search ends where something is found, no later than at a grid on which something is. -/
theorem search_spec (interval : RoundingInterval) {steps j : Nat} {k : Int} (enough : j ≤ steps)
    (found : interval.nearestOn (k - j) ≠ none) :
    ∃ i ≤ j, ∃ d, interval.nearestOn (k - i) = some d ∧ interval.search steps k = ⟨d, k - i⟩ := by
  induction steps generalizing j k with
  | zero =>
    obtain rfl : j = 0 := Nat.le_zero.mp enough
    obtain ⟨d, hit⟩ := Option.ne_none_iff_exists'.mp found
    rw [Int.natCast_zero, Int.sub_zero] at hit
    exact ⟨0, le_rfl, d, by simpa using hit, by simp [search, hit]⟩
  | succ steps ih =>
    rw [search]
    split
    next d hit => exact ⟨0, Nat.zero_le j, d, by simpa using hit, by simp⟩
    next missed =>
      obtain ⟨j, rfl⟩ : ∃ i, j = i + 1 := Nat.exists_eq_succ_of_ne_zero fun zero => by
        rw [zero, Int.natCast_zero, Int.sub_zero] at found
        exact found missed
      have shift (i : Nat) : k - 1 - (i : Int) = k - (i + 1 : Nat) := by
        push_cast
        ring
      obtain ⟨i, below, d, hit, same⟩ := ih (Nat.le_of_succ_le_succ enough) (by rwa [shift])
      rw [shift] at hit same
      exact ⟨i + 1, Nat.succ_le_succ below, d, hit, same⟩

end RoundingInterval

namespace Decimal

/-- The shortest decimal of a double is rounded to it, has no more than seventeen digits, and its
exponent is no less than that of the finest grid. -/
theorem shortest_spec {x : Binary64} (finite : x.isFinite = true) (positive : 0 < x.magnitude) :
    Rounds (shortest x).value x.magnitude ∧ 0 < (shortest x).digits ∧
      (shortest x).digits ≤ 10 ^ 17 ∧ -324 ≤ (shortest x).exponent := by
  obtain ⟨m, next⟩ : ∃ m, m + 1 = x.magnitude := ⟨x.magnitude - 1, by omega⟩
  obtain ⟨low, high⟩ := firstOrder_spec finite positive
  obtain ⟨j, enough, above, fine⟩ := exists_fine_grid next low high
  obtain ⟨i, within, d, hit, same⟩ := (RoundingInterval.of x).search_spec enough
    (RoundingInterval.nearestOn_ne_none next fine)
  have found : shortest x = carry ⟨d, x.firstOrder - (i : Nat)⟩ := congrArg carry same
  obtain ⟨rounds, near⟩ := RoundingInterval.nearestOn_of next hit
  have few := digits_le high (within.trans enough) near
  have nonzero : 0 < d := by
    rcases Nat.eq_zero_or_pos d with rfl | some
    · rw [Nat.cast_zero, zero_mul, ← size_zero] at rounds
      rw [(rounds_size 0).unique rounds] at positive
      exact absurd positive (Nat.lt_irrefl _)
    · exact some
  rw [found]
  refine ⟨by rwa [value_carry], ?_⟩
  rw [carry]
  split
  next tens =>
    refine ⟨?_, ?_, ?_⟩
    all_goals simp only at tens ⊢
    all_goals omega
  next =>
    refine ⟨nonzero, few, ?_⟩
    simp only
    omega

end Decimal

end BuildServer
