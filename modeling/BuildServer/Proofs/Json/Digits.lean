import BuildServer.Proofs.Json.Grammar
import BuildServer.Proofs.Json.Scaling

/-! # Digits of a numeral

What the digits of a numeral make as a number, how much of it is kept when they no longer fit a word, and
that a numeral of moderate size is in range however many digits it has.
-/

namespace BuildServer.Json

open Binary64

/-- The number that digits make behind those of another. -/
def digitsValue (front : Nat) (ds : List Digit) : Nat := ds.foldl (fun value d => value * 10 + d.val) front

variable {front value : Nat} {ds es : List Digit}

theorem digitsValue_append (front : Nat) (ds es : List Digit) :
    digitsValue front (ds ++ es) = digitsValue (digitsValue front ds) es := List.foldl_append ..

theorem digitsValue_zeros (front n : Nat) :
    digitsValue front (List.replicate n 0) = front * 10 ^ n := by
  induction n generalizing front with
  | zero => simp [digitsValue]
  | succ n ih =>
    have first : digitsValue front (List.replicate (n + 1) 0) =
        digitsValue (front * 10 + 0) (List.replicate n 0) := rfl
    rw [first, ih]
    ring

theorem digitsValue_bounds (front : Nat) (ds : List Digit) :
    front * 10 ^ ds.length ≤ digitsValue front ds ∧
      digitsValue front ds < (front + 1) * 10 ^ ds.length := by
  induction ds generalizing front with
  | nil => simp [digitsValue]
  | cons d ds ih =>
    have digit : d.val < 10 := d.isLt
    have first : digitsValue front (d :: ds) = digitsValue (front * 10 + d.val) ds := rfl
    obtain ⟨lower, upper⟩ := ih (front * 10 + d.val)
    rw [first, List.length_cons, pow_succ']
    constructor
    · calc front * (10 * 10 ^ ds.length)
        _ = front * 10 * 10 ^ ds.length := by ring
        _ ≤ (front * 10 + d.val) * 10 ^ ds.length := Nat.mul_le_mul_right _ (by omega)
        _ ≤ _ := lower
    · calc _
        _ < (front * 10 + d.val + 1) * 10 ^ ds.length := upper
        _ ≤ (front + 1) * 10 * 10 ^ ds.length := Nat.mul_le_mul_right _ (by omega)
        _ = (front + 1) * (10 * 10 ^ ds.length) := by ring

theorem le_digitsValue (front : Nat) (ds : List Digit) : front ≤ digitsValue front ds :=
  (Nat.le_mul_of_pos_right front (by positivity)).trans (digitsValue_bounds front ds).1

/-- Digits are absorbed as long as their number fits. -/
theorem absorb_eq (fits : digitsValue front ds < wordLimit) :
    absorb front ds = (digitsValue front ds, []) := by
  induction ds generalizing front with
  | nil => rfl
  | cons d ds ih =>
    have room : front * 10 + d.val < wordLimit := (le_digitsValue _ ds).trans_lt fits
    simp only [absorb, appendDigit?, if_pos room]
    exact ih fits

/-- The digits that are absorbed come first and make what is kept; the next one does not fit any more. -/
theorem absorb_split (front : Nat) (ds : List Digit) : ∃ taken, ds = taken ++ (absorb front ds).2 ∧
    (absorb front ds).1 = digitsValue front taken ∧ (front < wordLimit → (absorb front ds).1 < wordLimit) ∧
    ∀ d rest, (absorb front ds).2 = d :: rest → wordLimit ≤ (absorb front ds).1 * 10 + d.val := by
  induction ds generalizing front with
  | nil => exact ⟨[], rfl, rfl, id, fun d rest next => by cases next⟩
  | cons d ds ih =>
    by_cases room : front * 10 + d.val < wordLimit
    · have same : absorb front (d :: ds) = absorb (front * 10 + d.val) ds := by
        simp only [absorb, appendDigit?, if_pos room]
      obtain ⟨taken, split, kept, small, full⟩ := ih (front * 10 + d.val)
      rw [same]
      exact ⟨d :: taken, congrArg (d :: ·) split, kept, fun _ => small room, full⟩
    · have same : absorb front (d :: ds) = (front, d :: ds) := by
        simp only [absorb, appendDigit?, if_neg room]
      rw [same]
      refine ⟨[], rfl, rfl, id, fun e rest next => ?_⟩
      obtain ⟨rfl, -⟩ := List.cons.inj next
      exact Nat.not_lt.mp room

theorem digitsValue_of_absorb (absorbed : absorb front ds = (value, [])) :
    digitsValue front ds = value := by
  obtain ⟨taken, split, kept, -⟩ := absorb_split front ds
  rw [absorbed] at split kept
  rw [split, List.append_nil]
  exact kept.symm

theorem exponentValue_eq (fits : digitsValue front ds ≤ exponentLimit) :
    exponentValue front ds = (digitsValue front ds, []) := by
  induction ds generalizing front with
  | nil => rfl
  | cons d ds ih =>
    have room : ¬exponentLimit < front * 10 + d.val :=
      Nat.not_lt.mpr ((le_digitsValue _ ds).trans fits)
    simp only [exponentValue, if_neg room]
    exact ih fits

/-- The digits of a natural number. -/
theorem digits_spec {n : Nat} (fits : n < wordLimit) : ∃ d ds, Text.decimal n = (d :: ds).map Digit.char ∧
    (d = 0 → ds = []) ∧ digitsValue 0 (d :: ds) = n ∧ (0 < n → d ≠ 0 ∧ 10 ^ ds.length ≤ n) := by
  obtain ⟨d, ds, written, leading, absorbed⟩ := exists_digits n
  have whole := digitsValue_of_absorb (absorbed fits)
  refine ⟨d, ds, written, fun zero => (leading zero).2, whole, fun positive => ?_⟩
  have nonzero : d ≠ 0 := fun zero => by
    have := (leading zero).1
    omega
  refine ⟨nonzero, ?_⟩
  have first : digitsValue 0 (d :: ds) = digitsValue (0 * 10 + d.val) ds := rfl
  have some : 1 ≤ d.val := by
    have := Fin.val_ne_of_ne nonzero
    simp only [Fin.val_zero] at this
    omega
  rw [← whole, first, Nat.zero_mul, Nat.zero_add]
  exact (Nat.le_mul_of_pos_left _ some).trans (digitsValue_bounds d.val ds).1

/-- A numeral whose digits fit a word is read as just these digits. -/
theorem Numeral.significand_eq {n : Numeral} (fits : digitsValue 0 (n.whole ++ n.fraction) < wordLimit) :
    n.significand = (digitsValue 0 (n.whole ++ n.fraction), -(n.fraction.length : Int)) := by
  rw [digitsValue_append] at fits ⊢
  have whole := absorb_eq ((le_digitsValue _ n.fraction).trans_lt fits)
  simp only [Numeral.significand, whole, absorb_eq fits, List.length_nil]
  simp

/-- What is kept of the digits around a point, with zeros for those left out, is no greater than they
are: a digit left out before the point makes more than any digits behind the point. -/
theorem absorb_twice (whole fraction : List Digit) :
    (absorb (absorb 0 whole).1 fraction).1 < wordLimit ∧ (absorb (absorb 0 whole).1 fraction).1 *
      10 ^ ((absorb 0 whole).2.length + (absorb (absorb 0 whole).1 fraction).2.length) ≤
        digitsValue 0 (whole ++ fraction) := by
  obtain ⟨front, wholeSplit, wholeKept, wholeSmall, full⟩ := absorb_split 0 whole
  obtain ⟨back, split, kept, small, -⟩ := absorb_split (absorb 0 whole).1 fraction
  have fits := small (wholeSmall (by decide))
  generalize absorb 0 whole = first at *
  generalize absorb first.1 fraction = second at *
  refine ⟨fits, ?_⟩
  rw [split, ← List.append_assoc, digitsValue_append]
  refine le_trans ?_ (digitsValue_bounds _ second.2).1
  rw [pow_add, ← mul_assoc]
  refine Nat.mul_le_mul_right _ ?_
  rw [digitsValue_append, wholeSplit, digitsValue_append, ← wholeKept]
  cases left : first.2 with
  | nil => simp [digitsValue, kept]
  | cons d rest =>
    have next : digitsValue first.1 (d :: rest) = digitsValue (first.1 * 10 + d.val) rest := rfl
    rw [next, List.length_cons]
    refine le_trans ?_ (digitsValue_bounds _ back).1
    refine le_trans ?_ (Nat.mul_le_mul_right _ (digitsValue_bounds _ rest).1)
    cases back with
    | nil =>
      rw [show second.1 = first.1 from kept, List.length_nil, pow_zero, mul_one, pow_succ', ← mul_assoc]
      exact Nat.mul_le_mul_right _ (by omega)
    | cons e back =>
      have above := full d rest left
      rw [List.length_cons, pow_succ, pow_succ', mul_assoc]
      exact Nat.mul_le_mul (by omega) (Nat.mul_le_mul_left _ (Nat.le_mul_of_pos_right _ (by positivity)))

namespace Numeral

variable {n : Numeral}

/-- The size of the number that is spelled, as far as its exponent is counted. -/
def size (n : Numeral) : ℚ :=
  digitsValue 0 (n.whole ++ n.fraction) * 10 ^ (n.exponentInt - n.fraction.length)

theorem significand_le (n : Numeral) : n.significand.1 < wordLimit ∧
    (n.significand.1 : ℚ) * 10 ^ (n.significand.2 + n.exponentInt) ≤ n.size := by
  obtain ⟨fits, bound⟩ := absorb_twice n.whole n.fraction
  obtain ⟨back, split, -⟩ := absorb_split (absorb 0 n.whole).1 n.fraction
  simp only [significand, size]
  generalize absorb 0 n.whole = first at *
  generalize absorb first.1 n.fraction = second at *
  have places : first.2.length - (n.fraction.length - second.2.length : Nat) + n.exponentInt =
      (first.2.length + second.2.length : Nat) + (n.exponentInt - n.fraction.length) := by
    rw [split, List.length_append]
    omega
  refine ⟨fits, ?_⟩
  rw [places, zpow_add₀ (by norm_num), ← mul_assoc, zpow_natCast]
  exact mul_le_mul_of_nonneg_right (by exact_mod_cast bound) (by positivity)

/-- A numeral that is not an integer of a word is read as a double. -/
theorem number?_eq_scaled (beyond : n.isInteger = true → wordLimit ≤ digitsValue 0 n.whole) :
    n.number? = (scaleDecimal n.significand.1 (n.significand.2 + n.exponentInt)).map
      fun x => .double (x.withSign n.negative) := by
  obtain ⟨taken, split, kept, small, -⟩ := absorb_split 0 n.whole
  refine Eq.trans ?_ (show n.double? = _ from rfl)
  simp only [number?]
  cases whole : n.isInteger with
  | false => simp
  | true =>
    have left : (absorb 0 n.whole).2 ≠ [] := by
      intro none
      rw [none, List.append_nil] at split
      have large := beyond whole
      rw [split, ← kept] at large
      exact absurd (small (by decide)) (Nat.not_lt.mpr large)
    rw [List.isEmpty_eq_false_iff.mpr left]
    simp

/-- A numeral is in range if its size is no greater than the greatest power of ten. -/
theorem inRange_of_le (small : n.size ≤ 10 ^ greatestPower) : n.InRange := by
  by_cases word : n.isInteger = true ∧ digitsValue 0 n.whole < wordLimit
  · have all := absorb_eq word.2
    simp only [InRange, number?, all, word.1, List.isEmpty_nil, Bool.and_self, if_true]
    split
    · split <;> exact Option.some_ne_none _
    · exact Option.some_ne_none _
  · obtain ⟨fits, bound⟩ := n.significand_le
    obtain ⟨y, scaled⟩ := scaleDecimal_inRange (fits.le.trans (by decide +kernel)) (bound.trans small)
    rw [InRange, number?_eq_scaled fun whole => Nat.not_lt.mp fun fits => word ⟨whole, fits⟩, scaled]
    exact Option.some_ne_none _

end Numeral

end BuildServer.Json
