import BuildServer.Json.Number
import BuildServer.Proofs.Binary64.Shortest

/-! # How far scaling moves a decimal

A decimal is scaled by converting its digits, and multiplying or dividing them with a power of ten that
is converted as well. Each of these is one rounding of what is computed exactly, so before the last
rounding the exact decimal is a few roundings away, and after it the double is as many doubles away from
the one nearest to the decimal. Where the digits and the power of ten are doubles themselves nothing is
rounded but the result.
-/

namespace BuildServer

namespace Binary64

variable {p q : ℚ} {k m n : Nat}

/-- Every number that is not negative is rounded to something. -/
theorem exists_rounds (positive : 0 ≤ q) : ∃ n, Rounds q n := by
  obtain ⟨n, rounds, -⟩ := round_spec q.num.toNat q.den_pos
  have same : ((q.num.toNat : Nat) : ℚ) = q.num := by
    exact_mod_cast Int.toNat_of_nonneg (Rat.num_nonneg.mpr positive)
  rw [same, Rat.num_div_den] at rounds
  exact ⟨n, rounds⟩

/-- A number whose double is at most so many doubles away from the one given. -/
def Within (k : Nat) (q : ℚ) (n : Nat) : Prop := ∃ m, Rounds q m ∧ m ≤ n + k ∧ n ≤ m + k

theorem Rounds.within (rounds : Rounds q n) : Within 0 q n := ⟨n, rounds, le_rfl, le_rfl⟩

/-- One more rounding is one more double. -/
theorem Within.step (within : Within k p n) (close : Close p q) (positive : 0 ≤ q) :
    Within (k + 1) q n := by
  obtain ⟨m, rounds, above, below⟩ := within
  obtain ⟨l, next⟩ := exists_rounds positive
  have up := rounds.le_succ next close
  have down := next.le_succ rounds close.symm
  exact ⟨l, next, by omega, by omega⟩

/-- The double of a number that is not beyond the infinity. -/
theorem Within.of_min (within : Within k q n) (rounds : Rounds q m) (inside : n ≤ infinityMagnitude) :
    min m infinityMagnitude ≤ n + k ∧ n ≤ min m infinityMagnitude + k := by
  obtain ⟨l, same, above, below⟩ := within
  obtain rfl := same.unique rounds
  omega

/-- A double against a quotient, by cross products. -/
theorem le_size_iff (x : Binary64) (a : Nat) {b : Nat} (positive : 0 < b) :
    (a / b : ℚ) ≤ size x.magnitude ↔ a * x.ratio.2 ≤ x.ratio.1 * b := by
  rw [← ratio_eq, quotient_le_iff positive x.ratio_pos]

theorem size_le_iff (x : Binary64) (a : Nat) {b : Nat} (positive : 0 < b) :
    size x.magnitude ≤ a / b ↔ x.ratio.1 * b ≤ a * x.ratio.2 := by
  rw [← ratio_eq, quotient_le_iff x.ratio_pos positive]

/-- The powers of ten that are used are no greater than the greatest finite double. -/
theorem le_greatest {n : Nat} (few : n ≤ Nat.pow 10 Json.greatestPower) :
    (n : ℚ) ≤ size (infinityMagnitude - 1) := by
  have greatest : ((Nat.pow 10 Json.greatestPower : Nat) / (1 : Nat) : ℚ) ≤
      size (magnitude ⟨0x7FEFFFFFFFFFFFFF⟩) :=
    (le_size_iff _ _ Nat.one_pos).mpr (by decide +kernel)
  rw [Nat.cast_one, div_one] at greatest
  exact (Nat.cast_le.mpr few).trans greatest

/-- One is far above the least normal double. -/
theorem least_le_one : size leadingPlace ≤ 1 := by
  have least : size (magnitude ⟨0x0010000000000000⟩) ≤ ((1 : Nat) / (1 : Nat) : ℚ) :=
    (size_le_iff _ _ Nat.one_pos).mpr (by decide +kernel)
  rw [Nat.cast_one, div_one] at least
  exact least

/-- A natural number of moderate length is converted to a finite double. -/
theorem ofNat_rounds {n : Nat} (few : n ≤ Nat.pow 10 Json.greatestPower) : Rounds n (ofNat n).magnitude ∧
    (ofNat n).magnitude < infinityMagnitude := by
  obtain ⟨k, rounds, same⟩ := ofNat_spec n
  have below : k ≤ infinityMagnitude - 1 := rounds.mono (rounds_size _) (le_greatest few)
  have room : 0 < infinityMagnitude := by decide
  rw [same, Nat.min_eq_left (by omega)]
  exact ⟨rounds, by omega⟩

/-- Converting a natural number is one rounding. -/
theorem ofNat_close {n : Nat} (positive : 0 < n) (few : n ≤ Nat.pow 10 Json.greatestPower) :
    Close n (size (ofNat n).magnitude) :=
  (ofNat_rounds few).1.close (least_le_one.trans (Nat.one_le_cast.mpr positive))

/-- The numbers with few bits before a run of zeros are doubles: the significand is shifted up until its
leading bit has its place. -/
theorem exists_size {a : Nat} (few : a ≤ 2 * leadingPlace) (t : Nat) : ∃ k, size k = a * 2 ^ t := by
  rcases Nat.eq_zero_or_pos a with rfl | positive
  · exact ⟨0, by simp⟩
  obtain ⟨j, small, leading, fits⟩ :
      ∃ j ≤ 52, leadingPlace ≤ a * 2 ^ j ∧ a * 2 ^ j ≤ 2 * leadingPlace := by
    rcases Nat.lt_or_eq_of_le few with inside | rfl
    · have digits : Nat.log2 a < 53 := (Nat.log2_lt positive.ne').mpr inside
      have place : leadingPlace = 2 ^ Nat.log2 a * 2 ^ (52 - Nat.log2 a) := by
        rw [← pow_add, show Nat.log2 a + (52 - Nat.log2 a) = 52 by omega]
        rfl
      refine ⟨52 - Nat.log2 a, by omega, ?_, ?_⟩
      · rw [place]
        exact Nat.mul_le_mul_right _ (Nat.log2_self_le positive.ne')
      · rw [place, ← mul_assoc, ← pow_succ']
        exact Nat.mul_le_mul_right _ Nat.lt_log2_self.le
    · exact ⟨0, by omega, by decide, by simp⟩
  refine ⟨(1074 - j + t) * leadingPlace + a * 2 ^ j, ?_⟩
  have scale : (2 : ℚ) ^ (1074 - j + t) * grain * 2 ^ j = 2 ^ t := by
    rw [grain, ← zpow_natCast, ← zpow_natCast, ← zpow_natCast, ← zpow_add₀ two_ne_zero,
      ← zpow_add₀ two_ne_zero]
    congr 1
    omega
  rw [size_of_significand fits (.inl leading), ← scale]
  push_cast
  ring

/-- Numbers that are doubles are converted without loss. -/
theorem size_ofNat {a t : Nat} (few : a ≤ 2 * leadingPlace)
    (within : a * 2 ^ t ≤ Nat.pow 10 Json.greatestPower) :
    size (ofNat (a * 2 ^ t)).magnitude = (a * 2 ^ t : Nat) := by
  obtain ⟨k, same⟩ := exists_size few t
  have rounds := (ofNat_rounds within).1
  push_cast at rounds ⊢
  rw [← same] at rounds ⊢
  rw [rounds.unique (rounds_size k)]

theorem size_ofNat_of_le {n : Nat} (few : n ≤ 2 * leadingPlace) : size (ofNat n).magnitude = n := by
  have same := size_ofNat (t := 0) few
    (by rw [pow_zero, mul_one]; exact few.trans (by decide +kernel))
  rwa [pow_zero, mul_one] at same

/-- A positive natural number is converted to no less than one. -/
theorem one_le_ofNat {n : Nat} (positive : 0 < n) (few : n ≤ Nat.pow 10 Json.greatestPower) :
    1 ≤ size (ofNat n).magnitude := by
  obtain ⟨k, same⟩ := exists_size (show 1 ≤ 2 * leadingPlace by decide) 0
  have one : size k = 1 := by simpa using same
  have above : size k ≤ n := by
    rw [one]
    exact_mod_cast positive
  rw [← one]
  exact size_strictMono.monotone ((rounds_size k).mono (ofNat_rounds few).1 above)

theorem natPow_le_natPow {j k : Nat} (order : j ≤ k) : Nat.pow 10 j ≤ Nat.pow 10 k :=
  Nat.pow_le_pow_right (by decide) order

theorem natPow_pos (k : Nat) : 0 < Nat.pow 10 k := Nat.pow_pos (by decide)

theorem powerOfTen_rounds {k : Nat} (small : k ≤ Json.greatestPower) :
    Rounds (10 ^ k) (powerOfTen k).magnitude := by
  rw [← cast_natPow]
  exact (ofNat_rounds (natPow_le_natPow small)).1

/-- The powers of ten up to the greatest are one rounding away from themselves. -/
theorem powerOfTen_close {k : Nat} (small : k ≤ Json.greatestPower) :
    Close (10 ^ k) (size (powerOfTen k).magnitude) := by
  rw [← cast_natPow]
  exact ofNat_close (natPow_pos k) (natPow_le_natPow small)

/-- The powers of ten up to the twenty-second are doubles. -/
theorem size_powerOfTen {k : Nat} (small : k ≤ 22) : size (powerOfTen k).magnitude = 10 ^ k := by
  have split : Nat.pow 10 k = 5 ^ k * 2 ^ k := by
    rw [← mul_pow]
    rfl
  have few : 5 ^ k ≤ 2 * leadingPlace :=
    (Nat.pow_le_pow_right (by decide) small).trans (by decide)
  have within : 5 ^ k * 2 ^ k ≤ Nat.pow 10 Json.greatestPower := by
    rw [← split]
    exact natPow_le_natPow (small.trans (by decide))
  rw [powerOfTen, split, size_ofNat few within, ← split, cast_natPow]

/-- What is close to a positive number is positive. -/
theorem Close.pos (close : Close p q) (positive : 0 < p) : 0 < q :=
  (mul_pos positive (sub_pos.mpr roundingUnit_lt_one)).trans_le close.left

theorem ratio_pos_of_size {x : Binary64} (positive : 0 < size x.magnitude) : 0 < x.ratio.1 := by
  rw [← ratio_eq, div_pos_iff_of_pos_right (Nat.cast_pos.mpr x.ratio_pos)] at positive
  exact Nat.cast_pos.mp positive

theorem one_le_powerOfTen {k : Nat} (small : k ≤ Json.greatestPower) :
    1 ≤ size (powerOfTen k).magnitude :=
  one_le_ofNat (natPow_pos k) (natPow_le_natPow small)

/-- A finite quotient by one or more is not cut off, and it is no greater than what is divided. -/
theorem div_shrinks {x y : Binary64} (finite : x.magnitude < infinityMagnitude)
    (one : 1 ≤ size y.magnitude) : Rounds (size x.magnitude / size y.magnitude) (x.div y).magnitude ∧
      (x.div y).magnitude ≤ x.magnitude := by
  obtain ⟨n, rounds, same⟩ := div_spec x (ratio_pos_of_size (zero_lt_one.trans_le one))
  have less : n ≤ x.magnitude := rounds.mono (rounds_size _) (div_le_self (size_nonneg _) one)
  rw [same, Nat.min_eq_left (by omega)]
  exact ⟨rounds, less⟩

end Binary64

namespace Json

open Binary64

variable {s n k : Nat}

/-- Whether a decimal is scaled to a finite double that is at most so many doubles away from a given
one. -/
def ScalesWithin (k s : Nat) (e : Int) (n : Nat) : Prop :=
  ∃ y, scaleDecimal s e = some y ∧ y.isFinite = true ∧ y.magnitude ≤ n + k ∧ n ≤ y.magnitude + k

/-- A decimal that one product scales. -/
theorem scaleDecimal_up {e : Nat} (small : e ≤ greatestPower)
    (within : Within k (size (ofNat s).magnitude * size (Binary64.powerOfTen e).magnitude) n)
    (room : n + k < infinityMagnitude) : ScalesWithin k s e n := by
  obtain ⟨m, rounds, same⟩ := mul_spec (ofNat s) (Binary64.powerOfTen e)
  have near := within.of_min rounds (by omega)
  rw [← same] at near
  have finite := (isFinite_iff _).mpr (near.1.trans_lt room)
  refine ⟨(ofNat s).mul (Binary64.powerOfTen e), ?_, finite, near⟩
  simp only [scaleDecimal, if_pos (show (0 : Int) ≤ e by omega), if_pos (Int.ofNat_le.mpr small),
    Int.toNat_natCast, finite, if_true]

/-- A decimal that one quotient scales. -/
theorem scaleDecimal_down {e : Nat} (down : 0 < e) (small : e ≤ greatestPower)
    (within : Within k (size (ofNat s).magnitude / size (Binary64.powerOfTen e).magnitude) n)
    (room : n + k < infinityMagnitude) : ScalesWithin k s (-e) n := by
  have power := (powerOfTen_close small).pos (by positivity)
  obtain ⟨m, rounds, same⟩ := div_spec (ofNat s) (ratio_pos_of_size power)
  have near := within.of_min rounds (by omega)
  rw [← same] at near
  have finite := (isFinite_iff _).mpr (near.1.trans_lt room)
  refine ⟨(ofNat s).div (Binary64.powerOfTen e), ?_, finite, near⟩
  have once : (e - 1) / greatestPower = 0 := Nat.div_eq_of_lt (by omega)
  simp only [scaleDecimal, if_neg (show ¬(0 : Int) ≤ -e by omega), neg_neg, Int.toNat_natCast, once,
    divideByGreatest, Nat.zero_mul, Nat.sub_zero]

/-- A quotient by the greatest power of ten is no less than the least normal double from three on. -/
theorem normal_of_three {x p : ℚ} (some : Close s x) (three : 3 ≤ s)
    (power : Close (10 ^ greatestPower) p) : size leadingPlace ≤ x / p := by
  have least : size (magnitude ⟨0x0010000000000000⟩) ≤
      ((9 : Nat) / (4 * Nat.pow 10 greatestPower : Nat) : ℚ) :=
    (size_le_iff _ _ (by decide +kernel)).mpr (by decide +kernel)
  have positive : 0 < p := power.pos (by positivity)
  have part : (9 / 10 : ℚ) ≤ 1 - roundingUnit := by
    rw [roundingUnit, leadingPlace]
    norm_num
  have digits : 27 / 10 ≤ x := by
    have three : (3 : ℚ) ≤ s := by exact_mod_cast three
    calc (27 / 10 : ℚ)
      _ = 3 * (9 / 10) := by norm_num
      _ ≤ s * (1 - roundingUnit) := mul_le_mul three part (by norm_num) (by positivity)
      _ ≤ x := some.left
  have scale : 9 / 10 * p ≤ 10 ^ greatestPower := by
    calc 9 / 10 * p
      _ = p * (9 / 10) := mul_comm _ _
      _ ≤ p * (1 - roundingUnit) := mul_le_mul_of_nonneg_left part positive.le
      _ ≤ 10 ^ greatestPower := power.right
  refine le_trans least ?_
  rw [Nat.cast_mul, cast_natPow, div_le_div_iff₀ (by positivity) positive]
  calc ((9 : Nat) : ℚ) * p
    _ ≤ 27 / 10 * ((4 : Nat) * (9 / 10 * p)) := by
      push_cast
      linarith
    _ ≤ x * ((4 : Nat) * 10 ^ greatestPower) :=
      mul_le_mul digits (mul_le_mul_of_nonneg_left scale (by positivity)) (by positivity) (by linarith)

/-- A decimal that two quotients scale: the digits, the greatest power of ten and the first quotient are
rounded, while the second power of ten is a double. -/
theorem scaleDecimal_deep {j : Nat} (more : 0 < j) (small : j ≤ 22) (three : 3 ≤ s)
    (few : s ≤ Nat.pow 10 greatestPower)
    (rounds : Rounds (s / (10 ^ greatestPower * 10 ^ j)) n) :
    ScalesWithin 3 s (-(greatestPower + j : Nat)) n := by
  have digits := ofNat_close (show 0 < s by omega) few
  have some := one_le_ofNat (show 0 < s by omega) few
  have power := powerOfTen_close (le_refl greatestPower)
  have one := one_le_powerOfTen (le_refl greatestPower)
  have finite := (ofNat_rounds few).2
  generalize topEq : Binary64.powerOfTen greatestPower = top at power one
  have positive := zero_lt_one.trans_le one
  obtain ⟨first, shrinks⟩ := div_shrinks finite one
  have divided := first.close (normal_of_three digits three power)
  generalize xEq : (ofNat s).div top = x at *
  obtain ⟨second, less⟩ := div_shrinks (show x.magnitude < infinityMagnitude by omega)
    (one_le_powerOfTen (small.trans (by decide)))
  rw [size_powerOfTen small] at second
  have scale : (0 : ℚ) < 10 ^ greatestPower := by positivity
  have scales : (0 : ℚ) ≤ 10 ^ greatestPower * 10 ^ j := mul_nonneg scale.le (by positivity)
  have sizes := size_nonneg x.magnitude
  generalize (10 : ℚ) ^ greatestPower = g at rounds power scale scales
  have near : Within 3 (size x.magnitude / 10 ^ j) n := by
    have one := rounds.within.step (digits.div_right scales) (by positivity)
    rw [div_mul_eq_div_div_swap] at one
    have two := one.step (power.div_left scale positive (by positivity)) (by positivity)
    rw [div_right_comm] at two
    exact two.step (divided.div_right (by positivity)) (by positivity)
  obtain ⟨l, same, counted⟩ := near
  obtain rfl := same.unique second
  refine ⟨x.div (Binary64.powerOfTen j), ?_, (isFinite_iff _).mpr (by omega), counted⟩
  have twice : (greatestPower + j - 1) / greatestPower = 1 :=
    Nat.div_eq_of_lt_le (by omega) (by rw [greatestPower]; omega)
  have nonzero : (ofNat s).isZero = false := by
    rw [isZero, beq_eq_false_iff_ne]
    intro zero
    rw [zero, size_zero] at some
    linarith
  simp only [scaleDecimal, if_neg (show ¬(0 : Int) ≤ -(greatestPower + j : Nat) by omega), neg_neg,
    Int.toNat_natCast, twice, divideByGreatest, nonzero, topEq]
  rw [if_neg Bool.false_ne_true, xEq, Nat.one_mul, Nat.add_sub_cancel_left]

/-- Whether a decimal with few digits is scaled to a double that is near the nearest one. -/
def scalesNear (s e : Nat) : Bool :=
  match scaleDecimal s (-e) with
  | none => false
  | some y => y.isFinite &&
      decide (y.magnitude ≤ BinaryFormat.double.round s (Nat.pow 10 e) + 3 ∧
        BinaryFormat.double.round s (Nat.pow 10 e) ≤ y.magnitude + 3)

/-- The first quotient of one and two is below the normal doubles, but no further off for that. -/
theorem all_scaleNear : [1, 2].all (fun s => (List.range 17).all fun j =>
    scalesNear s (greatestPower + j)) = true := by
  decide +kernel

/-- By how many doubles at most a decimal is missed. -/
def drift (s : Nat) (e : Int) : Nat :=
  if s ≤ 2 * leadingPlace ∧ -22 ≤ e ∧ e ≤ 22 then 0 else if -greatestPower ≤ e then 2 else 3

theorem drift_le (s : Nat) (e : Int) : drift s e ≤ 3 := by
  rw [drift]
  split
  · omega
  · split <;> omega

theorem drift_cases (s : Nat) {e : Int} (near : -greatestPower ≤ e) :
    drift s e = 0 ∧ s ≤ 2 * leadingPlace ∧ -22 ≤ e ∧ e ≤ 22 ∨ drift s e = 2 := by
  rw [drift]
  split
  next exactly => exact .inl ⟨rfl, exactly⟩
  next => exact .inr rfl

theorem zpow_neg_greatest (j : Nat) :
    (s * 10 ^ (-(greatestPower + j : Nat) : Int) : ℚ) = s / (10 ^ greatestPower * 10 ^ j) := by
  rw [zpow_neg, zpow_natCast, pow_add, div_eq_mul_inv]

/-- The decimals with an exponent below the opposite of the greatest power of ten. -/
theorem scaleDecimal_deep_near {j : Nat} (positive : 0 < s) (few : s ≤ Nat.pow 10 greatestPower)
    (more : 0 < j) (small : j ≤ 16)
    (rounds : Rounds (s * 10 ^ (-(greatestPower + j : Nat) : Int)) n) (room : n < infinityMagnitude) :
    ScalesWithin 3 s (-(greatestPower + j : Nat)) n := by
  rw [zpow_neg_greatest] at rounds
  by_cases three : 3 ≤ s
  · exact scaleDecimal_deep more (by omega) three few rounds
  · have listed : s ∈ [1, 2] := by
      rw [List.mem_cons, List.mem_singleton]
      omega
    have table := List.all_eq_true.mp (List.all_eq_true.mp all_scaleNear s listed) j
      (List.mem_range.mpr (by omega))
    obtain ⟨m, nearest, same⟩ := round_spec s (natPow_pos (greatestPower + j))
    rw [cast_natPow, pow_add] at nearest
    rw [← rounds.unique nearest, Nat.min_eq_left room.le] at same
    rw [scalesNear, same] at table
    cases scaled : scaleDecimal s (-(greatestPower + j : Nat)) with
    | none =>
      rw [scaled] at table
      cases table
    | some y =>
      rw [scaled, Bool.and_eq_true, decide_eq_true_eq] at table
      exact ⟨y, scaled, table⟩

/-- However a decimal is scaled, the double is near the nearest one, and is that one if the digits and the
power of ten are doubles. -/
theorem scaleDecimal_near {e : Int} (positive : 0 < s) (few : s ≤ Nat.pow 10 greatestPower)
    (least : -324 ≤ e) (most : e ≤ greatestPower) (rounds : Rounds (s * 10 ^ e) n)
    (room : n + 2 < infinityMagnitude) : ScalesWithin (drift s e) s e n := by
  have digits := ofNat_close positive few
  have some := one_le_ofNat positive few
  rcases lt_or_ge e (-greatestPower) with deep | near
  · have far : drift s e = 3 := by
      rw [drift, if_neg (by rw [greatestPower] at deep; omega), if_neg (by omega)]
    rw [far]
    obtain ⟨j, more, small, rfl⟩ : ∃ j, 0 < j ∧ j ≤ 16 ∧ e = -(greatestPower + j : Nat) := by
      rw [greatestPower] at deep ⊢
      exact ⟨(-e).toNat - 308, by omega, by omega, by omega⟩
    exact scaleDecimal_deep_near positive few more small rounds (by omega)
  have enough : n + drift s e < infinityMagnitude := by
    rcases drift_cases s near with ⟨same, -⟩ | same <;> omega
  rcases lt_or_ge e 0 with below | above
  · obtain ⟨k, down, rfl⟩ : ∃ k : Nat, 0 < k ∧ e = -k := ⟨(-e).toNat, by omega, by omega⟩
    have small : k ≤ greatestPower := by omega
    have power := powerOfTen_close small
    rw [zpow_neg, zpow_natCast, ← div_eq_mul_inv] at rounds
    refine scaleDecimal_down down small ?_ enough
    rcases drift_cases s near with ⟨same, exactly, small, -⟩ | same
    · rw [same, size_powerOfTen (by omega), size_ofNat_of_le exactly]
      exact rounds.within
    · rw [same]
      have one := rounds.within.step (digits.div_right (by positivity)) (by positivity)
      exact one.step (power.div_left (by positivity) (power.pos (by positivity)) (by positivity))
        (div_nonneg (by positivity) (size_nonneg _))
  · lift e to Nat using above
    have small : e ≤ greatestPower := by omega
    have power := powerOfTen_close small
    rw [zpow_natCast] at rounds
    refine scaleDecimal_up small ?_ enough
    rcases drift_cases s near with ⟨same, exactly, -, small⟩ | same
    · rw [same, size_powerOfTen (by omega), size_ofNat_of_le exactly]
      exact rounds.within
    · rw [same]
      have one := rounds.within.step (digits.mul_right (by positivity)) (by positivity)
      exact one.step (power.mul_left (by positivity)) (mul_nonneg (by positivity) (size_nonneg _))

theorem divideByGreatest_le {x : Binary64} (finite : x.magnitude < infinityMagnitude) (times : Nat) :
    (divideByGreatest x times).magnitude ≤ x.magnitude := by
  induction times generalizing x with
  | zero => exact le_rfl
  | succ times ih =>
    rw [divideByGreatest]
    split
    · exact le_rfl
    · have less := (div_shrinks finite (one_le_powerOfTen le_rfl)).2
      exact (ih (less.trans_lt finite)).trans less

/-- A decimal with a negative exponent is never beyond the doubles. -/
theorem scaleDecimal_negative (few : s ≤ Nat.pow 10 greatestPower) {e : Int} (below : e < 0) :
    ∃ y, scaleDecimal s e = some y ∧ y.isFinite = true := by
  have finite := (ofNat_rounds few).2
  have less := divideByGreatest_le finite (((-e).toNat - 1) / greatestPower)
  have rest : (-e).toNat - ((-e).toNat - 1) / greatestPower * greatestPower ≤ greatestPower := by
    have split := Nat.div_add_mod' ((-e).toNat - 1) greatestPower
    have small := Nat.mod_lt ((-e).toNat - 1) (show 0 < greatestPower by decide)
    omega
  have last := (div_shrinks (less.trans_lt finite) (one_le_powerOfTen rest)).2
  simp only [scaleDecimal, if_neg (show ¬(0 : Int) ≤ e by omega)]
  exact ⟨_, rfl, (isFinite_iff _).mpr (last.trans_lt (less.trans_lt finite))⟩

/-- Every double that a decimal is scaled to is finite. -/
theorem scaleDecimal_finite (few : s ≤ Nat.pow 10 greatestPower) {e : Int} {y : Binary64}
    (scaled : scaleDecimal s e = some y) : y.isFinite = true := by
  rcases lt_or_ge e 0 with below | above
  · obtain ⟨z, same, finite⟩ := scaleDecimal_negative few below
    rw [same] at scaled
    rwa [← Option.some.inj scaled]
  · simp only [scaleDecimal, if_pos above] at scaled
    split at scaled
    · split at scaled
      next finite => rwa [← Option.some.inj scaled]
      next => cases scaled
    · split at scaled
      next zero =>
        rw [← Option.some.inj scaled]
        exact (isFinite_iff _).mpr (ofNat_rounds few).2
      next => cases scaled

/-- A decimal up to the greatest power of ten is not beyond the doubles, since the double of that power is
far below the greatest one. -/
theorem scaleDecimal_inRange (few : s ≤ Nat.pow 10 greatestPower) {e : Int}
    (small : (s * 10 ^ e : ℚ) ≤ 10 ^ greatestPower) : ∃ y, scaleDecimal s e = some y := by
  rcases lt_or_ge e 0 with below | above
  · exact (scaleDecimal_negative few below).imp fun y both => both.1
  rcases Nat.eq_zero_or_pos s with rfl | positive
  · by_cases most : e ≤ greatestPower
    · refine ⟨(ofNat 0).mul (Binary64.powerOfTen e.toNat), ?_⟩
      have zero : size (ofNat 0).magnitude = 0 := size_ofNat_of_le (Nat.zero_le _)
      obtain ⟨n, rounds, same⟩ := mul_spec (ofNat 0) (Binary64.powerOfTen e.toNat)
      rw [zero, zero_mul, ← zero] at rounds
      have finite : ((ofNat 0).mul (Binary64.powerOfTen e.toNat)).isFinite = true := by
        rw [isFinite_iff, same, ← (rounds_size _).unique rounds]
        decide
      simp only [scaleDecimal, if_pos above, if_pos most, finite, if_true]
    · refine ⟨ofNat 0, ?_⟩
      simp only [scaleDecimal, if_pos above, if_neg most, show (ofNat 0).isZero = true by decide, if_true]
  have some : (1 : ℚ) ≤ s := Nat.one_le_cast.mpr positive
  have power : (10 : ℚ) ^ e ≤ 10 ^ (greatestPower : Int) := by
    rw [zpow_natCast]
    exact (le_mul_of_one_le_left (by positivity) some).trans small
  have most := (zpow_le_zpow_iff_right₀ (by norm_num)).mp power
  obtain ⟨n, rounds⟩ := exists_rounds (show (0 : ℚ) ≤ s * 10 ^ e by positivity)
  have room : n + 2 < infinityMagnitude := by
    have far : (powerOfTen greatestPower).magnitude + 2 < infinityMagnitude := by decide +kernel
    have := rounds.mono (powerOfTen_rounds le_rfl) small
    omega
  obtain ⟨y, scaled, -⟩ := scaleDecimal_near positive few (by omega) most rounds room
  exact ⟨y, scaled⟩

end Json

end BuildServer
