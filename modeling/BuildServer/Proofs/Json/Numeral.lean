import BuildServer.Json.Lexeme
import BuildServer.Json.Writing
import BuildServer.Proofs.Text.Utf8

/-! # Numerals that are read back

A numeral is read byte by byte into a draft. The text of an integer is a draft of that integer. For
the text of a double nothing is said about its digits, only that it consists of numeral bytes and
has a point or an exponent, so that whatever number it is read as is a double.
-/

namespace BuildServer.Json

/-- The draft of digits without a superfluous zero in front. -/
def wholeDraft (negative : Bool) (d : Digit) (ds : List Digit) : NumeralDraft :=
  { part := if d.val = 0 then .zero else .whole, negative, whole := (d :: ds).reverse }

/-- The draft that a byte begins. -/
def start? (b : UInt8) : Option NumeralDraft :=
  if b.toNat = 45 then some { part := .sign, negative := true }
  else (digit? b).map fun d => wholeDraft false d []

/-- The draft that bytes make, if they are a numeral or the beginning of one. -/
def draft? : List UInt8 → Option NumeralDraft
  | [] => none
  | b :: bytes => (start? b).bind fun draft => bytes.foldlM Scan.extendNumeral? draft

/-- A number whose text is a numeral of just this number. -/
def Number.Legible (n : Number) : Prop :=
  ∃ draft, draft? (Text.encode n.text) = some draft ∧ draft.part.complete = true ∧
    draft.numeral.number? = some n

/-- The character of a digit. -/
def Digit.char (d : Digit) : Char := Nat.digitChar d.val

/-- The byte of a digit. -/
def Digit.byte (d : Digit) : UInt8 := UInt8.ofNat (48 + d.val)

theorem digit?_byte : ∀ d : Digit, digit? d.byte = some d := by decide

theorem encodeChar_char : ∀ d : Digit, Text.encodeChar d.char = [d.byte] := by decide

theorem encode_digits (ds : List Digit) : Text.encode (ds.map Digit.char) = ds.map Digit.byte := by
  induction ds with
  | nil => rfl
  | cons d ds ih => rw [List.map_cons, Text.encode_cons, encodeChar_char, ih]; rfl

/-- One more digit is absorbed if the number still fits. -/
theorem absorb_concat {acc value : Nat} {ds : List Digit} (absorbed : absorb acc ds = (value, []))
    (d : Digit) (fits : value * 10 + d.val < wordLimit) :
    absorb acc (ds ++ [d]) = (value * 10 + d.val, []) := by
  induction ds generalizing acc with
  | nil =>
    obtain ⟨rfl, -⟩ := Prod.mk.inj absorbed
    simp [absorb, appendDigit?, fits]
  | cons e ds ih =>
    simp only [List.cons_append, absorb] at absorbed ⊢
    split at absorbed
    · exact ih absorbed
    · simp at absorbed

/-- A natural number is written with digits that are read as that number, and its first digit is zero
only if the number is. -/
theorem exists_digits (n : Nat) : ∃ d ds, Text.decimal n = (d :: ds).map Digit.char ∧
    (d = 0 → n = 0 ∧ ds = []) ∧ (n < wordLimit → absorb 0 (d :: ds) = (n, [])) := by
  induction n using Nat.strongRecOn with
  | ind n ih =>
    by_cases small : n < 10
    · refine ⟨⟨n, small⟩, [], ?_, ?_, fun fits => ?_⟩
      · rw [Text.decimal, Nat.toDigits_of_lt_base small]
        rfl
      · simp
      · simp [absorb, appendDigit?, fits]
    · obtain ⟨d, ds, written, leading, absorbed⟩ := ih (n / 10) (by omega)
      have last : n % 10 < 10 := Nat.mod_lt _ (by decide)
      refine ⟨d, ds ++ [⟨n % 10, last⟩], ?_, fun zero => ?_, fun fits => ?_⟩
      · rw [Text.decimal, Nat.toDigits_of_base_le (by decide) (by omega)]
        rw [Text.decimal] at written
        rw [written]
        simp [Digit.char]
      · have := (leading zero).1
        omega
      · have whole : n / 10 * 10 + n % 10 = n := by omega
        have done := absorb_concat (absorbed (by omega)) ⟨n % 10, last⟩ (by simpa [whole] using fits)
        simpa [whole] using done

/-- Whichever field of a draft takes the next digit, it takes all that follow, the latest first. -/
theorem extend_digits {draft : List Digit → NumeralDraft}
    (takes : ∀ d taken, Scan.extendNumeral? (draft taken) d.byte = some (draft (d :: taken)))
    (ds taken : List Digit) : (ds.map Digit.byte).foldlM Scan.extendNumeral? (draft taken) =
      some (draft (ds.reverse ++ taken)) := by
  induction ds generalizing taken with
  | nil => rfl
  | cons d ds ih =>
    rw [List.map_cons, List.foldlM_cons, takes, Option.bind_eq_bind, Option.bind_some, ih]
    simp

theorem extend_wholeDraft (negative : Bool) {d : Digit} {ds : List Digit} (leading : d = 0 → ds = []) :
    (ds.map Digit.byte).foldlM Scan.extendNumeral? (wholeDraft negative d []) =
      some (wholeDraft negative d ds) := by
  by_cases zero : d = 0
  · rw [leading zero]
    rfl
  · have nonzero : d.val ≠ 0 := by simpa using zero
    have takes (e : Digit) (taken : List Digit) :
        Scan.extendNumeral? { part := .whole, negative, whole := taken } e.byte =
          some { part := .whole, negative, whole := e :: taken } := by
      simp only [Scan.extendNumeral?, digit?_byte]
    simpa [wholeDraft, nonzero] using extend_digits takes ds [d]

theorem draft?_digits {d : Digit} {ds : List Digit} (leading : d = 0 → ds = []) :
    draft? ((d :: ds).map Digit.byte) = some (wholeDraft false d ds) := by
  have first : start? d.byte = some (wholeDraft false d []) := by
    have unsigned : ∀ d : Digit, d.byte.toNat ≠ 45 := by decide
    simp [start?, unsigned, digit?_byte, wholeDraft]
  simp only [List.map_cons, draft?, first, Option.bind_some]
  exact extend_wholeDraft false leading

theorem draft?_negative {d : Digit} {ds : List Digit} (leading : d = 0 → ds = []) :
    draft? (45 :: (d :: ds).map Digit.byte) = some (wholeDraft true d ds) := by
  have signed : start? 45 = some { part := .sign, negative := true } := rfl
  have first : Scan.extendNumeral? { part := .sign, negative := true } d.byte =
      some (wholeDraft true d []) := by
    simp [Scan.extendNumeral?, digit?_byte, wholeDraft]
  simp only [List.map_cons, draft?, signed, Option.bind_some, List.foldlM_cons, first,
    Option.bind_eq_bind]
  exact extend_wholeDraft true leading

theorem part_wholeDraft (negative : Bool) (d : Digit) (ds : List Digit) :
    (wholeDraft negative d ds).part = .zero ∨ (wholeDraft negative d ds).part = .whole := by
  rw [wholeDraft]
  split
  · exact .inl rfl
  · exact .inr rfl

theorem complete_wholeDraft (negative : Bool) (d : Digit) (ds : List Digit) :
    (wholeDraft negative d ds).part.complete = true := by
  rcases part_wholeDraft negative d ds with part | part <;> rw [part] <;> rfl

theorem numeral_wholeDraft (negative : Bool) (d : Digit) (ds : List Digit) :
    (wholeDraft negative d ds).numeral = { negative, whole := d :: ds } := by
  have unended : (wholeDraft negative d ds).part ≠ .exponent := by
    rcases part_wholeDraft negative d ds with part | part <;> simp [part]
  simp only [NumeralDraft.numeral, if_neg unended]
  simp [wholeDraft]

/-- Natural numbers are legible. -/
theorem legible_natural (n : UInt64) : (Number.natural n).Legible := by
  obtain ⟨d, ds, written, leading, absorbed⟩ := exists_digits n.toNat
  refine ⟨wholeDraft false d ds, ?_, complete_wholeDraft .., ?_⟩
  · rw [Number.text, written, encode_digits, draft?_digits fun zero => (leading zero).2]
  · rw [numeral_wholeDraft]
    simp [Numeral.number?, Numeral.isInteger, absorbed n.toNat_lt]

/-- Negative numbers are legible. -/
theorem legible_negative {i : Int64} (below : i.toInt < 0) : (Number.negative i).Legible := by
  obtain ⟨d, ds, written, leading, absorbed⟩ := exists_digits i.toInt.natAbs
  have least : -9223372036854775808 ≤ i.toInt := i.le_toInt
  refine ⟨wholeDraft true d ds, ?_, complete_wholeDraft .., ?_⟩
  · rw [Number.text, Text.decimalInt, if_pos below, written, Text.encode_append, encode_digits]
    exact draft?_negative fun zero => (leading zero).2
  · rw [numeral_wholeDraft]
    have fits : i.toInt.natAbs < wordLimit := by rw [wordLimit]; omega
    have signed : 0 < i.toInt.natAbs ∧ i.toInt.natAbs ≤ greatestSigned + 1 := by
      rw [greatestSigned]; omega
    have same : Int64.ofInt (-(i.toInt.natAbs : Int)) = i := by
      rw [show -(i.toInt.natAbs : Int) = i.toInt by omega, Int64.ofInt_toInt]
    simp only [Numeral.number?, Numeral.isInteger, absorbed fits, List.isEmpty_nil, Option.isNone_none,
      Bool.and_self, if_true, signed.1, signed.2, and_self, same]

/-- The characters of numerals. -/
def numeralChars : List Char :=
  ['+', '-', '.', '0', '1', '2', '3', '4', '5', '6', '7', '8', '9', 'e']

/-- The bytes of numerals. -/
def numeralBytes : List UInt8 := Text.encode numeralChars

theorem decimal_numeral (n : Nat) : ∀ c ∈ Text.decimal n, c ∈ numeralChars := by
  obtain ⟨d, ds, written, -⟩ := exists_digits n
  have digit : ∀ d : Digit, d.char ∈ numeralChars := by decide
  intro c member
  rw [written] at member
  obtain ⟨e, -, rfl⟩ := List.mem_map.mp member
  exact digit e

theorem mem_positional {ds : List Char} {point : Int} {c : Char}
    (member : c ∈ Decimal.positional ds point) : c ∈ ds ∨ c = '0' ∨ c = '.' := by
  simp only [Decimal.positional] at member
  split at member
  · simp only [List.cons_append, List.mem_cons, List.mem_append, List.mem_replicate] at member
    grind
  · split at member
    · simp only [List.mem_cons, List.mem_append, List.mem_replicate] at member
      grind
    · simp only [List.mem_cons, List.mem_append] at member
      rcases member with front | rfl | back
      · exact .inl (List.mem_of_mem_take front)
      · simp
      · exact .inl (List.mem_of_mem_drop back)

theorem mem_scientific {ds : List Char} {e : Int} {c : Char}
    (member : c ∈ Decimal.scientific ds e) :
    c ∈ ds ∨ c ∈ ['.', 'e', '-', '+'] ∨ c ∈ Text.decimal e.natAbs := by
  simp only [Decimal.scientific, Decimal.signedExponent, List.mem_append, List.mem_cons] at member
  rcases member with (front | middle) | rfl | sign | digits
  · exact .inl (List.mem_of_mem_take front)
  · split at middle
    · contradiction
    · rcases List.mem_cons.mp middle with rfl | back
      · simp
      · exact .inl (List.mem_of_mem_drop back)
  · simp
  · refine .inr (.inl ?_)
    split at sign <;> simp [sign]
  · exact .inr (.inr digits)

/-- A double is written with numeral characters. -/
theorem toText_numeral (x : Binary64) : ∀ c ∈ x.toText, c ∈ numeralChars := by
  intro c member
  simp only [Binary64.toText, List.mem_append] at member
  rcases member with sign | digits
  · split at sign
    · simpa [numeralChars] using .inr (.inl (List.mem_singleton.mp sign))
    · contradiction
  · split at digits
    · simp only [List.mem_cons, List.not_mem_nil, or_false] at digits
      rcases digits with rfl | rfl | rfl <;> decide
    · simp only [Decimal.toText] at digits
      split at digits
      · rcases mem_positional digits with member | rfl | rfl
        · exact decimal_numeral _ c member
        · decide
        · decide
      · rcases mem_scientific digits with member | member | member
        · exact decimal_numeral _ c member
        · simp only [List.mem_cons, List.not_mem_nil, or_false] at member
          rcases member with rfl | rfl | rfl | rfl <;> decide
        · exact decimal_numeral _ c member

theorem point_mem_positional (ds : List Char) (point : Int) : '.' ∈ Decimal.positional ds point := by
  simp only [Decimal.positional]
  split
  · simp
  · split <;> simp

theorem mark_mem_scientific (ds : List Char) (e : Int) : 'e' ∈ Decimal.scientific ds e := by
  simp [Decimal.scientific]

/-- A double is written with a point or with an exponent. -/
theorem toText_marked (x : Binary64) : '.' ∈ x.toText ∨ 'e' ∈ x.toText := by
  simp only [Binary64.toText, List.mem_append]
  by_cases zero : x.isZero = true
  · rw [if_pos zero]
    exact .inl (.inr (by decide))
  · rw [if_neg zero]
    simp only [Decimal.toText]
    generalize Text.decimal (Decimal.shortest x).digits = ds
    generalize (Decimal.shortest x).leadingExponent ds = e
    by_cases moderate : Binary64.style.leastPositional ≤ e ∧ e ≤ Binary64.style.mostPositional
    · rw [if_pos moderate]
      exact .inl (.inr (point_mem_positional ds (e + 1)))
    · rw [if_neg moderate]
      exact .inr (.inr (mark_mem_scientific ds e))

/-- The parts of a numeral that come after a point or after the mark of an exponent. -/
def NumeralPart.pastWhole : NumeralPart → Bool
  | .sign | .zero | .whole => false
  | _ => true

/-- A draft that has got past the point has digits behind it before it goes on. -/
def NumeralDraft.Sound (draft : NumeralDraft) : Prop :=
  draft.part = .fraction → draft.fraction ≠ []

/-- Whether a byte is a point or the mark of an exponent. -/
def isMark (b : UInt8) : Bool := b.toNat == 46 || b.toNat == 101

theorem isMark_of_digit? {b : UInt8} {d : Digit} (digit : digit? b = some d) : isMark b = false := by
  simp only [digit?] at digit
  split at digit
  next between =>
    simp only [isMark, Bool.or_eq_false_iff, beq_eq_false_iff_ne]
    omega
  next => contradiction

theorem start?_sound {b : UInt8} {draft : NumeralDraft} (starts : start? b = some draft) :
    draft.Sound ∧ isMark b = false := by
  simp only [start?] at starts
  split at starts
  next minus =>
    obtain rfl := Option.some.inj starts
    exact ⟨by simp [NumeralDraft.Sound], by simp [isMark, minus]⟩
  next =>
    obtain ⟨d, digit, rfl⟩ := Option.map_eq_some_iff.mp starts
    refine ⟨?_, isMark_of_digit? digit⟩
    rcases part_wholeDraft false d [] with part | part <;> simp [NumeralDraft.Sound, part]

/-- A point or an exponent is never forgotten. -/
theorem extend_sound {draft next : NumeralDraft} {b : UInt8}
    (extended : Scan.extendNumeral? draft b = some next) :
    next.Sound ∧ (draft.part.pastWhole = true ∨ isMark b = true → next.part.pastWhole = true) := by
  cases digit : digit? b with
  | some d =>
    rw [isMark_of_digit? digit]
    cases part : draft.part <;> simp only [Scan.extendNumeral?, part, digit, reduceCtorEq] at extended
    all_goals obtain rfl := Option.some.inj extended
    case sign => by_cases zero : d = 0 <;> simp [NumeralDraft.Sound, NumeralPart.pastWhole, zero]
    all_goals simp [NumeralDraft.Sound, NumeralPart.pastWhole]
  | none =>
    cases part : draft.part <;> simp only [Scan.extendNumeral?, part, digit, reduceCtorEq] at extended
    all_goals
      repeat' split at extended
    all_goals cases extended
    all_goals simp [NumeralDraft.Sound, NumeralPart.pastWhole]

theorem extend_all_sound {bytes : List UInt8} {draft final : NumeralDraft}
    (extended : bytes.foldlM Scan.extendNumeral? draft = some final) (sound : draft.Sound) :
    final.Sound ∧
      (draft.part.pastWhole = true ∨ (∃ b ∈ bytes, isMark b = true) → final.part.pastWhole = true) := by
  induction bytes generalizing draft with
  | nil =>
    obtain rfl := Option.some.inj extended
    exact ⟨sound, by simp⟩
  | cons b bytes ih =>
    obtain ⟨next, first, others⟩ := Option.bind_eq_some_iff.mp extended
    obtain ⟨nextSound, past⟩ := extend_sound first
    obtain ⟨finalSound, reached⟩ := ih others nextSound
    refine ⟨finalSound, fun marked => reached ?_⟩
    rcases marked with already | ⟨c, member, mark⟩
    · exact .inl (past (.inl already))
    · rcases List.mem_cons.mp member with rfl | later
      · exact .inl (past (.inr mark))
      · exact .inr ⟨c, later, mark⟩

/-- A numeral with a point or an exponent denotes a double. -/
theorem double_of_marked {bytes : List UInt8} {draft : NumeralDraft} {n : Number}
    (drafted : draft? bytes = some draft) (complete : draft.part.complete = true)
    (marked : ∃ b ∈ bytes, isMark b = true) (denoted : draft.numeral.number? = some n) :
    ∃ x, n = .double x := by
  obtain ⟨sound, past⟩ : draft.Sound ∧ draft.part.pastWhole = true := by
    cases bytes with
    | nil => cases drafted
    | cons b bytes =>
      obtain ⟨first, starts, extended⟩ := Option.bind_eq_some_iff.mp drafted
      obtain ⟨firstSound, unmarked⟩ := start?_sound starts
      obtain ⟨sound, past⟩ := extend_all_sound extended firstSound
      obtain ⟨c, member, mark⟩ := marked
      rcases List.mem_cons.mp member with rfl | later
      · rw [unmarked] at mark
        contradiction
      · exact ⟨sound, past (.inr ⟨c, later, mark⟩)⟩
  have fractional : draft.numeral.isInteger = false := by
    cases part : draft.part with
    | fraction => simp [Numeral.isInteger, NumeralDraft.numeral, sound part]
    | exponent => simp [Numeral.isInteger, NumeralDraft.numeral, part]
    | sign | zero | whole => rw [part] at past; contradiction
    | point | mark | markSign => rw [part] at complete; contradiction
  simp only [Numeral.number?, fractional, Bool.false_and, Bool.false_eq_true, if_false,
    Numeral.double?, Option.map_eq_some_iff] at denoted
  obtain ⟨x, -, rfl⟩ := denoted
  exact ⟨_, rfl⟩

end BuildServer.Json
