import BuildServer.Binary64.Basic
import Mathlib.Algebra.Order.Field.Basic
import Mathlib.Algebra.Order.Field.Power
import Mathlib.Algebra.Order.Field.Rat
import Mathlib.Tactic.FieldSimp
import Mathlib.Tactic.Linarith
import Mathlib.Tactic.NormNum
import Mathlib.Tactic.Positivity
import Mathlib.Tactic.Ring

/-! # Where the doubles lie

Magnitude numbers count the doubles from zero upwards, and beyond the infinity they go on as if there
were no greatest exponent. Neighbours lie apart by a power of two that doubles with each binade. A
number belongs to the double whose midpoints with its neighbours enclose it; an end belongs to the
double with the even number. Two numbers that differ by a factor of one rounding lie in cells that are
at most neighbours, so that each rounding of a computation moves its result by one double at most.
-/

namespace BuildServer.Binary64

/-- How far the double of a magnitude number is from the next, in units of the least positive double. -/
def gap (n : Nat) : Nat := Nat.pow 2 (n / leadingPlace - 1)

/-- The double of a magnitude number in units of the least positive double. -/
def units (n : Nat) : Nat :=
  ((if n / leadingPlace = 0 then 0 else leadingPlace) + n % leadingPlace) * gap n

theorem gap_pos (n : Nat) : 0 < gap n := Nat.pow_pos (by decide)

/-- The gap in the binade of a significand. -/
theorem gap_of_significand {binade m : Nat} (fits : m < 2 * leadingPlace)
    (leading : leadingPlace ≤ m ∨ binade = 0) :
    gap (binade * leadingPlace + m) = Nat.pow 2 binade := by
  simp only [leadingPlace] at fits leading ⊢
  rw [gap, leadingPlace]
  congr 1
  omega

/-- The units of a significand that is scaled by its binade, the carry into the next one included. -/
theorem units_of_significand {binade m : Nat} (fits : m ≤ 2 * leadingPlace)
    (leading : leadingPlace ≤ m ∨ binade = 0) :
    units (binade * leadingPlace + m) = m * Nat.pow 2 binade := by
  by_cases carries : m = 2 * leadingPlace
  · have next : binade * leadingPlace + m = (binade + 1) * leadingPlace + leadingPlace := by
      rw [carries, leadingPlace]
      omega
    have field : ((binade + 1) * leadingPlace + leadingPlace) / leadingPlace = binade + 2 := by
      rw [leadingPlace]
      omega
    have rest : ((binade + 1) * leadingPlace + leadingPlace) % leadingPlace = 0 := by
      rw [leadingPlace]
      omega
    have twice : Nat.pow 2 (binade + 1) = Nat.pow 2 binade * 2 := rfl
    rw [next, units, gap_of_significand (by decide) (.inl (Nat.le_refl _)), field, rest, carries,
      if_neg (by simp), twice, Nat.add_zero, Nat.mul_comm (Nat.pow 2 binade), ← Nat.mul_assoc,
      Nat.mul_comm leadingPlace]
  · rw [units, gap_of_significand (Nat.lt_of_le_of_ne fits carries) leading]
    congr 1
    by_cases subnormal : (binade * leadingPlace + m) / leadingPlace = 0
    · rw [if_pos subnormal]
      rw [leadingPlace] at subnormal leading ⊢
      omega
    · rw [if_neg subnormal]
      rw [leadingPlace] at subnormal leading fits carries ⊢
      omega

/-- Every magnitude number is a binade and a significand of it. -/
theorem exists_significand (n : Nat) : ∃ binade m, n = binade * leadingPlace + m ∧
    m < 2 * leadingPlace ∧ (leadingPlace ≤ m ∨ binade = 0) := by
  by_cases subnormal : n < leadingPlace
  · exact ⟨0, n, by simp, by omega, .inr rfl⟩
  · refine ⟨n / leadingPlace - 1, leadingPlace + n % leadingPlace, ?_, ?_, .inl (Nat.le_add_right _ _)⟩
    all_goals
      rw [leadingPlace] at subnormal ⊢
      omega

theorem units_succ (n : Nat) : units (n + 1) = units n + gap n := by
  obtain ⟨binade, m, rfl, small, leading⟩ := exists_significand n
  rw [gap_of_significand small leading, units_of_significand (Nat.le_of_lt small) leading,
    Nat.add_assoc, units_of_significand small (leading.imp_left Nat.le_succ_of_le), Nat.succ_mul]

/-- From the least normal double on, the gap is small against the double. -/
theorem gap_le {n : Nat} (normal : leadingPlace ≤ n) : leadingPlace * gap n ≤ units n := by
  obtain ⟨binade, m, rfl, small, leading⟩ := exists_significand n
  rw [gap_of_significand small leading, units_of_significand (Nat.le_of_lt small) leading]
  apply Nat.mul_le_mul_right
  rcases leading with enough | rfl
  · exact enough
  · simpa using normal

/-- The midpoints on both sides of a double are further apart than one rounding reaches. -/
theorem midpoints_apart (n : Nat) :
    units (n + 1) + units (n + 2) < 2 * leadingPlace * (gap n + gap (n + 1)) := by
  have step := units_succ (n + 1)
  obtain ⟨binade, m, rfl, small, leading⟩ := exists_significand n
  have whole := units_of_significand small (leading.imp_left Nat.le_succ_of_le)
  rw [gap_of_significand small leading]
  rw [Nat.succ_eq_add_one, ← Nat.add_assoc] at whole
  have positive : 0 < Nat.pow 2 binade := Nat.pow_pos (by decide)
  by_cases last : m + 1 < 2 * leadingPlace
  · have same : gap (binade * leadingPlace + m + 1) = Nat.pow 2 binade := by
      rw [Nat.add_assoc, gap_of_significand last (leading.imp_left Nat.le_succ_of_le)]
    rw [step, whole, same]
    have room := Nat.mul_le_mul_right (Nat.pow 2 binade) (Nat.succ_le_of_lt last)
    rw [Nat.succ_mul] at room
    generalize Nat.pow 2 binade = g at positive room
    rw [leadingPlace] at room ⊢
    omega
  · have next : binade * leadingPlace + m + 1 = (binade + 1) * leadingPlace + leadingPlace := by
      simp only [leadingPlace] at last small ⊢
      omega
    have twice : gap (binade * leadingPlace + m + 1) = 2 * Nat.pow 2 binade := by
      rw [next, gap_of_significand (by decide) (.inl (Nat.le_refl _))]
      exact Nat.pow_succ'
    have full : m + 1 = 2 * leadingPlace := by omega
    rw [step, whole, twice, full]
    generalize Nat.pow 2 binade = g at positive
    rw [leadingPlace]
    omega

/-- The least positive double. -/
def grain : ℚ := 2 ^ (-1074 : ℤ)

/-- The double of a magnitude number. -/
def size (n : Nat) : ℚ := units n * grain

/-- The middle between a double and the next. -/
def midpoint (n : Nat) : ℚ := (size n + size (n + 1)) / 2

/-- A rounding changes a number by this part of it at most. -/
def roundingUnit : ℚ := 1 / (2 * leadingPlace)

theorem grain_pos : 0 < grain := by
  rw [grain]
  positivity

theorem roundingUnit_pos : 0 < roundingUnit := by
  rw [roundingUnit, leadingPlace]
  norm_num

theorem roundingUnit_lt_one : roundingUnit < 1 := by
  rw [roundingUnit, leadingPlace]
  norm_num

theorem size_succ (n : Nat) : size (n + 1) = size n + gap n * grain := by
  rw [size, size, units_succ, Nat.cast_add, add_mul]

theorem size_strictMono : StrictMono size := strictMono_nat_of_lt_succ fun n => by
  rw [size_succ]
  have positive : (0 : ℚ) < gap n := Nat.cast_pos.mpr (gap_pos n)
  linarith [mul_pos positive grain_pos]

@[simp] theorem size_zero : size 0 = 0 := by simp [size, units]

theorem size_nonneg (n : Nat) : 0 ≤ size n := mul_nonneg (Nat.cast_nonneg _) grain_pos.le

theorem size_lt_midpoint (n : Nat) : size n < midpoint n := by
  have := size_strictMono (Nat.lt_succ_self n)
  rw [midpoint]
  linarith

theorem midpoint_lt_size (n : Nat) : midpoint n < size (n + 1) := by
  have := size_strictMono (Nat.lt_succ_self n)
  rw [midpoint]
  linarith

theorem midpoint_strictMono : StrictMono midpoint :=
  strictMono_nat_of_lt_succ fun n => (midpoint_lt_size n).trans (size_lt_midpoint (n + 1))

theorem midpoint_pos (n : Nat) : 0 < midpoint n := (size_nonneg n).trans_lt (size_lt_midpoint n)

/-- One rounding does not reach from a midpoint to the next. -/
theorem midpoint_lt_scaled (n : Nat) : midpoint n < midpoint (n + 1) * (1 - roundingUnit) := by
  have apart : ((units (n + 1) + units (n + 2) : Nat) : ℚ) <
      (2 * leadingPlace * (gap n + gap (n + 1)) : Nat) := Nat.cast_lt.mpr (midpoints_apart n)
  have whole : 2 * midpoint (n + 1) = (units (n + 1) + units (n + 2) : Nat) * grain := by
    rw [midpoint, size, size]
    push_cast
    ring
  have step : 2 * midpoint n = 2 * midpoint (n + 1) - (gap n + gap (n + 1) : Nat) * grain := by
    rw [midpoint, midpoint, size_succ (n + 1), size_succ n]
    push_cast
    ring
  have reach : 2 * midpoint (n + 1) * roundingUnit < (gap n + gap (n + 1) : Nat) * grain := by
    have scaled := mul_lt_mul_of_pos_right apart grain_pos
    rw [← whole, leadingPlace] at scaled
    rw [roundingUnit, leadingPlace]
    push_cast at scaled ⊢
    linarith
  linarith

/-- A number is rounded to the double of a magnitude number if it lies between the midpoints around it,
on one of them only if the magnitude number is even. -/
structure Rounds (q : ℚ) (n : Nat) : Prop where
  above : q ≤ midpoint n
  below : ∀ m, m + 1 = n → midpoint m ≤ q
  even : (q = midpoint n ∨ ∃ m, m + 1 = n ∧ midpoint m = q) → n % 2 = 0

variable {p q r c : ℚ} {m n : Nat}

/-- The cell of a double beyond zero. -/
theorem rounds_succ_iff : Rounds q (m + 1) ↔ midpoint m ≤ q ∧ q ≤ midpoint (m + 1) ∧
    (midpoint m = q ∨ q = midpoint (m + 1) → (m + 1) % 2 = 0) := by
  constructor
  · intro rounds
    refine ⟨rounds.below m rfl, rounds.above, ?_⟩
    rintro (middle | middle)
    · exact rounds.even (.inr ⟨m, rfl, middle⟩)
    · exact rounds.even (.inl middle)
  · rintro ⟨lower, upper, even⟩
    refine ⟨upper, fun k next => by rwa [Nat.succ.inj next], ?_⟩
    rintro (middle | ⟨k, next, middle⟩)
    · exact even (.inr middle)
    · exact even (.inl (by rwa [Nat.succ.inj next] at middle))

/-- Rounding keeps the order of numbers. -/
theorem Rounds.mono (first : Rounds p m) (second : Rounds q n) (ordered : p ≤ q) : m ≤ n := by
  by_contra! later
  obtain ⟨k, rfl⟩ : ∃ k, m = k + 1 := ⟨m - 1, by omega⟩
  have lower := first.below k rfl
  have upper := second.above
  have within : midpoint n ≤ midpoint k := midpoint_strictMono.monotone (by omega)
  obtain rfl : n = k := midpoint_strictMono.injective (by linarith)
  have evenFirst := first.even (.inr ⟨n, rfl, by linarith⟩)
  have evenSecond := second.even (.inl (by linarith))
  omega

/-- A number is rounded to one double. -/
theorem Rounds.unique (first : Rounds q m) (second : Rounds q n) : m = n :=
  Nat.le_antisymm (first.mono second le_rfl) (second.mono first le_rfl)

/-- A double is rounded to itself. -/
theorem rounds_size (n : Nat) : Rounds (size n) n where
  above := (size_lt_midpoint n).le
  below := by
    rintro m rfl
    exact (midpoint_lt_size m).le
  even := by
    rintro (middle | ⟨m, rfl, middle⟩)
    · exact absurd middle (size_lt_midpoint n).ne
    · exact absurd middle (midpoint_lt_size m).ne

/-- No other double is nearer to a number than the one it is rounded to. -/
theorem Rounds.nearest (rounds : Rounds q n) (m : Nat) : |size n - q| ≤ |size m - q| := by
  rcases Nat.lt_trichotomy m n with before | rfl | after
  · obtain ⟨k, rfl⟩ : ∃ k, n = k + 1 := ⟨n - 1, by omega⟩
    have lower := rounds.below k rfl
    have order : size m ≤ size k := size_strictMono.monotone (by omega)
    have own := midpoint_lt_size k
    rw [midpoint] at lower own
    rw [abs_sub_comm (size m), abs_of_nonneg (show 0 ≤ q - size m by linarith)]
    exact abs_le.mpr ⟨by linarith, by linarith⟩
  · exact le_rfl
  · have upper := rounds.above
    have order : size (n + 1) ≤ size m := size_strictMono.monotone after
    have own := size_lt_midpoint n
    rw [midpoint] at upper own
    rw [abs_of_nonneg (show 0 ≤ size m - q by linarith)]
    exact abs_le.mpr ⟨by linarith, by linarith⟩

/-- A number that is as near to another double is rounded to the even one. -/
theorem Rounds.even_of_tie (rounds : Rounds q n) (other : m ≠ n)
    (tie : |size m - q| = |size n - q|) : n % 2 = 0 := by
  apply rounds.even
  rcases Nat.lt_or_gt_of_ne other with before | after
  · obtain ⟨k, rfl⟩ : ∃ k, n = k + 1 := ⟨n - 1, by omega⟩
    have lower := rounds.below k rfl
    have order : size m ≤ size k := size_strictMono.monotone (by omega)
    have own := size_strictMono before
    have near := size_lt_midpoint k
    rw [abs_sub_comm (size m), abs_of_nonneg (show 0 ≤ q - size m by linarith)] at tie
    refine .inr ⟨k, rfl, le_antisymm lower ?_⟩
    rw [midpoint]
    rcases abs_cases (size (k + 1) - q) with ⟨same, -⟩ | ⟨same, -⟩ <;> linarith
  · have upper := rounds.above
    have order : size (n + 1) ≤ size m := size_strictMono.monotone after
    have own := size_strictMono after
    have near := midpoint_lt_size n
    rw [abs_of_nonneg (show 0 ≤ size m - q by linarith)] at tie
    refine .inl (le_antisymm upper ?_)
    rw [midpoint]
    rcases abs_cases (size n - q) with ⟨same, -⟩ | ⟨same, -⟩ <;> linarith

/-- Two numbers of which each is at most one rounding below the other. -/
structure Close (p q : ℚ) : Prop where
  left : p * (1 - roundingUnit) ≤ q
  right : q * (1 - roundingUnit) ≤ p

theorem Close.symm (close : Close p q) : Close q p := ⟨close.right, close.left⟩

theorem Close.mul_left (close : Close p q) (positive : 0 ≤ c) : Close (c * p) (c * q) where
  left := by rw [mul_assoc]; exact mul_le_mul_of_nonneg_left close.left positive
  right := by rw [mul_assoc]; exact mul_le_mul_of_nonneg_left close.right positive

theorem Close.mul_right (close : Close p q) (positive : 0 ≤ c) : Close (p * c) (q * c) := by
  rw [mul_comm p, mul_comm q]
  exact close.mul_left positive

theorem Close.div_right (close : Close p q) (positive : 0 ≤ c) : Close (p / c) (q / c) := by
  rw [div_eq_inv_mul, div_eq_inv_mul]
  exact close.mul_left (inv_nonneg.mpr positive)

theorem Close.inv (close : Close p q) (left : 0 < p) (right : 0 < q) : Close p⁻¹ q⁻¹ where
  left := by
    rw [inv_mul_le_iff₀ left, ← div_eq_mul_inv, le_div_iff₀ right, mul_comm]
    exact close.right
  right := by
    rw [inv_mul_le_iff₀ right, ← div_eq_mul_inv, le_div_iff₀ left, mul_comm]
    exact close.left

theorem Close.div_left (close : Close p q) (left : 0 < p) (right : 0 < q) (positive : 0 ≤ c) :
    Close (c / p) (c / q) := by
  rw [div_eq_mul_inv, div_eq_mul_inv]
  exact (close.inv left right).mul_left positive

/-- Numbers one rounding apart are rounded to neighbours at most. -/
theorem Rounds.le_succ (first : Rounds p m) (second : Rounds q n) (close : Close p q) : n ≤ m + 1 := by
  by_contra! later
  obtain ⟨k, rfl⟩ : ∃ k, n = k + 1 := ⟨n - 1, by omega⟩
  have reached : midpoint (m + 1) ≤ q :=
    (midpoint_strictMono.monotone (show m + 1 ≤ k by omega)).trans (second.below k rfl)
  have scaled := mul_le_mul_of_nonneg_right reached (sub_pos.mpr roundingUnit_lt_one).le
  linarith [midpoint_lt_scaled m, close.right, first.above]

/-- From the least normal double on, half a gap is a rounding of the double at most. -/
theorem half_gap_le (normal : leadingPlace ≤ n) : gap n * grain / 2 ≤ size n * roundingUnit := by
  have small : ((leadingPlace * gap n : Nat) : ℚ) ≤ (units n : Nat) := Nat.cast_le.mpr (gap_le normal)
  have scaled := mul_le_mul_of_nonneg_right small grain_pos.le
  rw [size, roundingUnit, leadingPlace] at *
  push_cast at scaled ⊢
  linarith

/-- From the least normal double on, a number and its double are one rounding apart. -/
theorem Rounds.close (rounds : Rounds q n) (normal : size leadingPlace ≤ q) : Close q (size n) := by
  have enough : leadingPlace ≤ n := (rounds_size leadingPlace).mono rounds normal
  have unit := roundingUnit_pos
  have positive := size_nonneg n
  have below : 0 ≤ q := (size_nonneg _).trans normal
  rcases le_total q (size n) with up | down
  · refine ⟨by linarith [mul_nonneg below unit.le], ?_⟩
    rcases Nat.eq_or_lt_of_le enough with rfl | beyond
    · linarith [mul_nonneg positive unit.le]
    · obtain ⟨k, rfl⟩ : ∃ k, n = k + 1 := ⟨n - 1, by omega⟩
      have half := half_gap_le (show leadingPlace ≤ k by omega)
      have lower := rounds.below k rfl
      have step := size_succ k
      rw [midpoint] at lower
      have smaller := mul_le_mul_of_nonneg_right (size_strictMono (Nat.lt_succ_self k)).le unit.le
      linarith
  · refine ⟨?_, by linarith [mul_nonneg positive unit.le]⟩
    have half := half_gap_le enough
    have upper := rounds.above
    have step := size_succ n
    rw [midpoint] at upper
    linarith [mul_le_mul_of_nonneg_right down unit.le]

end BuildServer.Binary64
