import BuildServer.Proofs.Json.Digits
import BuildServer.Proofs.Json.Spelling

/-! # Doubles that are written and read

The text of a double is the spelling of a numeral, in which the digits of its shortest decimal stand
around a point, with zeros before or after them, or in front of an exponent. All these digits fit the
significand that is read, so the text is read as that very decimal, scaled.
-/

namespace BuildServer

/-- The digits and the exponent as which the text of a decimal is read: an integral number is written
out, with a zero behind the point. -/
def Decimal.written (d : Decimal) : Nat × Int :=
  if 0 ≤ d.exponent ∧ d.leadingExponent (Text.decimal d.digits) ≤ Binary64.style.mostPositional then
    (d.digits * 10 ^ (d.exponent.toNat + 1), -1)
  else (d.digits, d.exponent)

namespace Json

open Binary64

/-- What a numeral is read as, without its sign: these digits with this exponent. -/
structure Numeral.Reads (n : Numeral) (digits : Nat) (exponent : Int) : Prop where
  fractional : n.isInteger = false
  digits : digitsValue 0 (n.whole ++ n.fraction) = digits
  exponent : -(n.fraction.length : Int) + n.exponentInt = exponent

/-- Whether a text, with the sign in front, spells a numeral that is read as these digits. -/
def ReadsAs (negative : Bool) (text : List Char) (digits : Nat) (exponent : Int) : Prop :=
  ∃ n : Numeral, n.negative = negative ∧
    n.Spelling (Text.encode ((if negative then ['-'] else []) ++ text)) ∧ n.Reads digits exponent

theorem encode_sign (negative : Bool) :
    Text.encode (if negative then ['-'] else []) = if negative then [45] else [] := by
  cases negative <;> decide

theorem encode_point (cs : List Char) : Text.encode ('.' :: cs) = 46 :: Text.encode cs :=
  encode_mark (by decide) cs

theorem encode_exponentMark (cs : List Char) : Text.encode ('e' :: cs) = 101 :: Text.encode cs :=
  encode_mark (by decide) cs

theorem char_zero : Digit.char 0 = '0' := rfl

theorem replicate_zero (n : Nat) :
    List.replicate n '0' = (List.replicate n (0 : Digit)).map Digit.char := by
  rw [List.map_replicate]
  rfl

variable {ds : List Digit} {d : Digit} {negative : Bool}

/-- A positional text is the spelling of a numeral without an exponent. -/
theorem spelling_positional {whole fraction : List Digit} (leading : whole = d :: ds)
    (only : d = 0 → ds = []) (some : fraction ≠ []) :
    Numeral.Spelling { negative, whole, fraction } (Text.encode ((if negative then ['-'] else []) ++
      (whole.map Digit.char ++ '.' :: fraction.map Digit.char))) := by
  refine ⟨d, ds, [], leading, fun zero => only (Fin.ext zero), rfl, ?_⟩
  have full : fraction.isEmpty = false := by simpa using some
  simp only [Text.encode_append, encode_sign, encode_digits, encode_point, Numeral.fractionBytes, full,
    Bool.false_eq_true, if_false, List.append_nil]

/-- A text without digits before the point is read as the digits behind its zeros. -/
theorem reads_below (negative : Bool) {point : Int} (below : point ≤ 0) (d : Digit) (ds : List Digit) :
    ReadsAs negative (Decimal.positional ((d :: ds).map Digit.char) point) (digitsValue 0 (d :: ds))
      (point - (d :: ds).length) := by
  refine ⟨{ negative, whole := [0], fraction := List.replicate (-point).toNat 0 ++ d :: ds }, rfl, ?_, ?_⟩
  · have spelled := @spelling_positional [] 0 negative [0]
      (List.replicate (-point).toNat 0 ++ d :: ds) rfl (fun _ => rfl) (by simp)
    simpa only [Decimal.positional, if_pos below, replicate_zero, char_zero, List.map_append,
      List.map_cons, List.map_nil, List.cons_append, List.nil_append] using spelled
  · refine ⟨by simp [Numeral.isInteger], ?_, ?_⟩
    · rw [digitsValue_append, digitsValue_append, digitsValue_zeros]
      simp [digitsValue]
    · simp only [Numeral.exponentInt, List.length_append, List.length_replicate]
      push_cast
      omega

/-- A text whose digits do not reach beyond the point is read with zeros up to it and one behind it. -/
theorem reads_integral (negative : Bool) {point : Nat} (leading : d ≠ 0)
    (integral : (d :: ds).length ≤ point) :
    ReadsAs negative (Decimal.positional ((d :: ds).map Digit.char) point)
      (digitsValue 0 (d :: ds) * 10 ^ (point - (d :: ds).length + 1)) (-1) := by
  have some : 0 < (d :: ds).length := Nat.succ_pos _
  refine ⟨⟨negative, d :: ds ++ List.replicate (point - (d :: ds).length) 0, [0], none⟩, rfl, ?_, ?_⟩
  · have spelled := @spelling_positional (ds ++ List.replicate (point - (d :: ds).length) 0) d
      negative (d :: ds ++ List.replicate (point - (d :: ds).length) 0) [0] rfl
      (fun zero => absurd zero leading) (by simp)
    have whole : ((d :: ds).map Digit.char).length ≤ point := by rwa [List.length_map]
    have text : Decimal.positional ((d :: ds).map Digit.char) point = (d :: ds).map Digit.char ++
        List.replicate (point - ((d :: ds).map Digit.char).length) '0' ++ ['.', '0'] := by
      simp only [Decimal.positional, if_neg (show ¬(point : Int) ≤ 0 by omega)]
      exact if_pos whole
    rw [text, List.length_map, replicate_zero]
    simpa only [List.map_append, List.append_assoc, List.map_cons, List.map_nil, char_zero] using spelled
  · refine ⟨by simp [Numeral.isInteger], ?_, by simp [Numeral.exponentInt]⟩
    rw [digitsValue_append, digitsValue_append, digitsValue_zeros, pow_succ, ← mul_assoc]
    simp [digitsValue]

/-- A text with the point between its digits is read as these digits. -/
theorem reads_between (negative : Bool) {before : Nat} (leading : d ≠ 0)
    (within : before + 1 < (d :: ds).length) :
    ReadsAs negative (Decimal.positional ((d :: ds).map Digit.char) (before + 1 : Nat))
      (digitsValue 0 (d :: ds)) ((before + 1 : Nat) - (d :: ds).length) := by
  have behind : (d :: ds).drop (before + 1) ≠ [] := by
    rw [Ne, List.drop_eq_nil_iff]
    omega
  refine ⟨{ negative, whole := (d :: ds).take (before + 1), fraction := (d :: ds).drop (before + 1) },
    rfl, ?_, ?_⟩
  · have spelled := @spelling_positional (ds.take before) d negative ((d :: ds).take (before + 1))
      ((d :: ds).drop (before + 1)) rfl (fun zero => absurd zero leading) behind
    have part : ¬((d :: ds).map Digit.char).length ≤ before + 1 := by
      rw [List.length_map]
      omega
    have text : Decimal.positional ((d :: ds).map Digit.char) (before + 1 : Nat) =
        ((d :: ds).map Digit.char).take (before + 1) ++
          '.' :: ((d :: ds).map Digit.char).drop (before + 1) := by
      simp only [Decimal.positional, if_neg (show ¬((before + 1 : Nat) : Int) ≤ 0 by omega)]
      exact if_neg part
    rw [text]
    simpa only [List.map_take, List.map_drop] using spelled
  · refine ⟨by simpa [Numeral.isInteger] using behind, ?_, ?_⟩
    · rw [List.take_append_drop]
    · simp only [Numeral.exponentInt, List.length_drop]
      omega

/-- A text with digits behind the point is read as its digits. -/
theorem reads_fractional (negative : Bool) {point : Int} (leading : d ≠ 0)
    (within : point < (d :: ds).length) :
    ReadsAs negative (Decimal.positional ((d :: ds).map Digit.char) point) (digitsValue 0 (d :: ds))
      (point - (d :: ds).length) := by
  rcases le_or_gt point 0 with below | above
  · exact reads_below negative below d ds
  · obtain ⟨before, rfl⟩ : ∃ before : Nat, point = (before + 1 : Nat) := ⟨point.toNat - 1, by omega⟩
    exact reads_between negative leading (by omega)

/-- The scientific text of digits is read as these digits, with the exponent of the last of them. -/
theorem reads_scientific (negative : Bool) (d : Digit) (ds : List Digit) {e : Int}
    (small : e.natAbs ≤ exponentLimit) :
    ReadsAs negative (Decimal.scientific ((d :: ds).map Digit.char) e) (digitsValue 0 (d :: ds))
      (e - ds.length) := by
  have fits : e.natAbs < wordLimit := small.trans_lt (by decide)
  obtain ⟨f, es, written, -, counted, -⟩ := digits_spec fits
  refine ⟨⟨negative, [d], ds, some (decide (e < 0), f :: es)⟩, rfl, ?_, ?_⟩
  · refine ⟨d, [], 101 :: ([if decide (e < 0) then 45 else 43] ++ (f :: es).map Digit.byte), rfl,
      fun _ => rfl, ⟨by simp, 101, _, .inl rfl, .inl rfl, rfl⟩, ?_⟩
    have fraction : Text.encode (if ((d :: ds).map Digit.char).length ≤ 1 then []
        else '.' :: ((d :: ds).map Digit.char).drop 1) = Numeral.fractionBytes ds := by
      cases ds with
      | nil => rfl
      | cons c cs =>
        rw [if_neg (by simp), List.map_cons, List.drop_one, List.tail_cons, encode_point, encode_digits]
        rfl
    have sign : Text.encode [if e < 0 then '-' else '+'] = [if decide (e < 0) then 45 else 43] := by
      by_cases below : e < 0
      · rw [if_pos below, if_pos (decide_eq_true below)]
        rfl
      · rw [if_neg below, if_neg (by simpa using below)]
        rfl
    have head : ((d :: ds).map Digit.char).take 1 = [d].map Digit.char := rfl
    have tail : (if e < 0 then '-' else '+') :: Text.decimal e.natAbs =
        [if e < 0 then '-' else '+'] ++ (f :: es).map Digit.char := by rw [written]; rfl
    rw [Decimal.scientific, Decimal.signedExponent, head, tail, Text.encode_append, encode_sign,
      Text.encode_append, Text.encode_append, encode_digits, fraction, encode_exponentMark,
      Text.encode_append, sign, encode_digits, List.append_assoc]
  · have exponent : exponentValue 0 (f :: es) = (e.natAbs, []) := by
      rw [exponentValue_eq (by omega), counted]
    refine ⟨by simp [Numeral.isInteger], rfl, ?_⟩
    simp only [Numeral.exponentInt, exponent]
    by_cases below : e < 0
    · simp only [below, decide_true, if_true]
      omega
    · simp only [below, decide_false, Bool.false_eq_true, if_false]
      omega

/-- The text of a positive decimal is read as its digits. -/
theorem reads_toText (negative : Bool) {x : Decimal} (positive : 0 < x.digits) (few : x.digits ≤ 10 ^ 17)
    (least : -324 ≤ x.exponent) (most : x.exponent ≤ 308) :
    ReadsAs negative (x.toText style) x.written.1 x.written.2 := by
  obtain ⟨d, ds, written, -, counted, first⟩ := digits_spec (few.trans_lt (by decide))
  obtain ⟨leading, short⟩ := first positive
  have digits : (d :: ds).length ≤ 18 := by
    have : 10 ^ ds.length < 10 ^ 18 := (short.trans few).trans_lt (by norm_num)
    have := (Nat.pow_lt_pow_iff_right (by norm_num)).mp this
    rw [List.length_cons]
    omega
  have point : x.exponent + ((d :: ds).length : Int) - 1 + 1 = x.exponent + (d :: ds).length := by omega
  simp only [Decimal.toText, Decimal.written, Decimal.leadingExponent, written, List.length_map]
  by_cases moderate : style.leastPositional ≤ x.exponent + ((d :: ds).length : Int) - 1 ∧
      x.exponent + ((d :: ds).length : Int) - 1 ≤ style.mostPositional
  · rw [if_pos moderate, point]
    by_cases integral : 0 ≤ x.exponent ∧ x.exponent + ((d :: ds).length : Int) - 1 ≤ style.mostPositional
    · have reads := @reads_integral ds d negative (x.exponent.toNat + (d :: ds).length) leading
        (Nat.le_add_left _ _)
      rw [counted, Nat.add_sub_cancel, Int.natCast_add, Int.toNat_of_nonneg integral.1] at reads
      rwa [if_pos integral]
    · have reads := @reads_fractional ds d negative (x.exponent + (d :: ds).length) leading (by omega)
      rw [counted, add_sub_cancel_right] at reads
      rwa [if_neg integral]
  · have reads := reads_scientific negative d ds
      (show (x.exponent + (d :: ds).length - 1).natAbs ≤ exponentLimit by rw [exponentLimit]; omega)
    have unwritten : ¬(0 ≤ x.exponent ∧
        x.exponent + ((d :: ds).length : Int) - 1 ≤ style.mostPositional) := by
      intro both
      refine moderate ⟨?_, both.2⟩
      rw [List.length_cons, style]
      dsimp only
      omega
    rw [if_neg moderate, if_neg unwritten]
    rwa [counted, show x.exponent + ((d :: ds).length : Nat) - 1 - ds.length = x.exponent by
      rw [List.length_cons]; omega] at reads

/-- A text that is read as digits is read as the double to which they are scaled. -/
theorem Numeral.Reads.number? {n : Numeral} {digits : Nat} {exponent : Int}
    (reads : n.Reads digits exponent) (fits : digits < wordLimit) :
    n.number? = (scaleDecimal digits exponent).map fun x => .double (x.withSign n.negative) := by
  have significand := n.significand_eq (by rwa [reads.digits])
  have fractional : n.isInteger ≠ true := by
    rw [reads.fractional]
    exact Bool.false_ne_true
  rw [Numeral.number?_eq_scaled fun whole => absurd whole fractional, significand, reads.exponent,
    reads.digits]

/-- A decimal that is rounded to a finite double is below the next power of ten. -/
theorem exponent_le {d : Decimal} {n : Nat} (rounds : Rounds d.value n) (finite : n < infinityMagnitude)
    (positive : 0 < d.digits) : d.exponent ≤ 308 := by
  have beyond : size (magnitude ⟨0x7FF0000000000000⟩) ≤
      (Nat.pow 10 (greatestPower + 1) : Nat) / (1 : Nat) :=
    (size_le_iff _ _ Nat.one_pos).mpr (by decide +kernel)
  have some : (1 : ℚ) ≤ d.digits := Nat.one_le_cast.mpr positive
  have power : (10 : ℚ) ^ d.exponent < 10 ^ ((greatestPower + 1 : Nat) : Int) := calc
    (10 : ℚ) ^ d.exponent ≤ d.digits * 10 ^ d.exponent := le_mul_of_one_le_left (by positivity) some
    _ ≤ midpoint n := rounds.above
    _ < size (n + 1) := midpoint_lt_size n
    _ ≤ size (magnitude ⟨0x7FF0000000000000⟩) := size_strictMono.monotone finite
    _ ≤ (Nat.pow 10 (greatestPower + 1) : Nat) / (1 : Nat) := beyond
    _ = 10 ^ ((greatestPower + 1 : Nat) : Int) := by rw [cast_natPow, Nat.cast_one, div_one, zpow_natCast]
  have := (zpow_lt_zpow_iff_right₀ (by norm_num)).mp power
  rw [greatestPower] at this
  omega

/-- The decimal as it is read is the one that was to be written, with few digits still. -/
theorem written_spec {d : Decimal} (positive : 0 < d.digits) (few : d.digits ≤ 10 ^ 17)
    (least : -324 ≤ d.exponent) (most : d.exponent ≤ 308) :
    0 < d.written.1 ∧ d.written.1 ≤ 10 ^ 17 ∧ -324 ≤ d.written.2 ∧ d.written.2 ≤ 308 ∧
      (d.written.1 * 10 ^ d.written.2 : ℚ) = d.value := by
  rw [Decimal.written]
  split
  next moderate =>
    obtain ⟨integral, short⟩ := moderate
    obtain ⟨f, ds, written, -, counted, -⟩ := digits_spec (few.trans_lt (by decide))
    have below : d.digits < 10 ^ (f :: ds).length := by
      have := (digitsValue_bounds 0 (f :: ds)).2
      rwa [counted, Nat.zero_add, Nat.one_mul] at this
    rw [Decimal.leadingExponent, written, List.length_map, style] at short
    refine ⟨by positivity, ?_, by omega, by omega, ?_⟩
    · calc d.digits * 10 ^ (d.exponent.toNat + 1)
        _ ≤ 10 ^ (f :: ds).length * 10 ^ (d.exponent.toNat + 1) := Nat.mul_le_mul_right _ below.le
        _ = 10 ^ ((f :: ds).length + (d.exponent.toNat + 1)) := (pow_add ..).symm
        _ ≤ 10 ^ 17 := Nat.pow_le_pow_right (by norm_num) (by dsimp only at short; omega)
    · obtain ⟨k, same⟩ := Int.eq_ofNat_of_zero_le integral
      rw [Decimal.value, same, Int.toNat_natCast, zpow_natCast]
      push_cast
      rw [pow_succ]
      norm_num
      ring
  next => exact ⟨positive, few, least, most, rfl⟩

/-- The text of a double is read as a double near it, if it is neither zero nor one of the greatest. -/
theorem read_toText {x : Binary64} (positive : 0 < x.magnitude)
    (room : x.magnitude + 2 < infinityMagnitude) :
    ∃ y : Binary64, Document.read (Text.encode x.toText) = .ok (.number (.double y)) ∧
      y.isFinite = true ∧ y.negative = x.negative ∧
      y.magnitude ≤ x.magnitude + drift (Decimal.shortest x).written.1 (Decimal.shortest x).written.2 ∧
      x.magnitude ≤ y.magnitude + drift (Decimal.shortest x).written.1 (Decimal.shortest x).written.2 := by
  have finite : x.magnitude < infinityMagnitude := by omega
  obtain ⟨rounds, some, few, least⟩ := Decimal.shortest_spec ((isFinite_iff x).mpr finite) positive
  have most := exponent_le rounds finite some
  obtain ⟨n, sign, spelled, reads⟩ := reads_toText x.negative some few least most
  obtain ⟨digits, short, low, high, same⟩ := written_spec some few least most
  rw [← same] at rounds
  obtain ⟨y, scaled, inside, near⟩ :=
    scaleDecimal_near digits (short.trans (by decide +kernel)) low high rounds room
  have denoted := reads.number? (short.trans_lt (by decide))
  rw [scaled, sign, Option.map_some] at denoted
  have text : x.toText = (if x.negative then ['-'] else []) ++ (Decimal.shortest x).toText style := by
    have nonzero : x.isZero = false := beq_eq_false_iff_ne.mpr positive.ne'
    rw [toText, nonzero]
    rfl
  have fits : y.magnitude < signPlace := y.magnitude_lt
  have inRange : n.InRange := by
    rw [Numeral.InRange, denoted]
    exact Option.some_ne_none _
  rw [← text] at spelled
  have read := @Outline.read_spelling (.number n) (Text.encode x.toText) (.of_spelling spelled)
    (Nat.zero_le _) fun m member => List.mem_singleton.mp member ▸ inRange
  rw [Outline.document, denoted] at read
  refine ⟨y.withSign x.negative, read, ?_, negative_pack _ fits, ?_⟩
  · rw [isFinite_iff] at inside ⊢
    rwa [withSign, magnitude_pack _ fits]
  · rwa [withSign, magnitude_pack _ fits]

end Json

end BuildServer
