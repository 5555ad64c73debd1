import BuildServer.Proofs.Json.Digits
import BuildServer.Proofs.Json.Spelling
import BuildServer.Proofs.Value.Reading

/-! # What a text means

The meaning of an outline is given on its own: an integer of a signed word is kept, every other number is a
float, arrays keep their order, and an object is the map of its members as pairs, of a repeated key the
first. Every text of an outline is decoded to a value that it means, whatever blanks stand between its
lexemes and however the characters of its strings are escaped.
-/

namespace BuildServer

namespace Json

namespace Numeral

/-- The integer that the digits before the point are with their sign. -/
def integer (n : Numeral) : Int :=
  if n.negative then -(digitsValue 0 n.whole : Int) else digitsValue 0 n.whole

/-- Whether a numeral is an integer of the signed words, spelled as one and not as a negative zero. -/
def IsSigned (n : Numeral) : Prop :=
  n.isInteger = true ∧ -2 ^ 63 ≤ n.integer ∧ n.integer < 2 ^ 63 ∧ ¬(n.negative = true ∧ n.integer = 0)

/-- What a numeral means: the integer of a signed word, or else a float of its sign, which is the double
nearest to an integer of up to 64 bits. -/
inductive Means (n : Numeral) : Value → Prop
  | int {i : Int64} (signed : n.IsSigned) (same : i.toInt = n.integer) : Means n (.int i)
  | float {x : Binary64} (unsigned : ¬n.IsSigned) (finite : x.isFinite = true)
    (sign : x.negative = n.negative)
    (nearest : n.isInteger = true → n.integer.natAbs < 2 ^ 64 → x.Nearest n.integer) : Means n (.float x)

end Numeral

namespace Outline

mutual

/-- What an outline means. -/
def Means : Outline → Value → Prop
  | .null, v => v = .null
  | .bool b, v => v = .bool b
  | .number n, v => n.Means v
  | .string s, v => v = .string s
  | .array items, v => ∃ vs, v = .list vs ∧ ItemsMean items vs
  | .object members, v => ∃ pairs, v = .ofPairs pairs ∧ MembersMean members pairs ∧
      ∀ key, v.get? key = pairs.lookup key

/-- What the items of an array mean, one after the other. -/
def ItemsMean : List Outline → List Value → Prop
  | [], vs => vs = []
  | o :: os, vs => ∃ first others, vs = first :: others ∧ Means o first ∧ ItemsMean os others

/-- What the members of an object mean as pairs, one after the other. -/
def MembersMean : List (String × Outline) → List (String × Value) → Prop
  | [], pairs => pairs = []
  | (key, o) :: members, pairs => ∃ first others, pairs = (key, first) :: others ∧ Means o first ∧
      MembersMean members others

end

end Outline

namespace Numeral

open Binary64 Value

variable {n : Numeral}

theorem negative_ofNat (m : Nat) : (ofNat m).negative = false := by
  obtain ⟨k, -, same⟩ := round_spec m Nat.one_pos
  rw [ofNat, ofRatio, same]
  exact negative_pack false ((Nat.min_le_right ..).trans_lt (by decide))

theorem natAbs_integer (n : Numeral) : n.integer.natAbs = digitsValue 0 n.whole := by
  rw [integer]
  split <;> omega

theorem means_float {x : Binary64} (unsigned : ¬n.IsSigned) (finite : x.isFinite = true)
    (rounds : n.isInteger = true → digitsValue 0 n.whole < wordLimit →
      Rounds (digitsValue 0 n.whole) x.magnitude) : n.Means (.float (x.withSign n.negative)) := by
  have fits := x.magnitude_lt
  have sign : (x.withSign n.negative).negative = n.negative := negative_pack _ fits
  have same : (x.withSign n.negative).magnitude = x.magnitude := magnitude_pack _ fits
  have inside : (x.withSign n.negative).isFinite = true := by
    rw [isFinite_iff] at finite ⊢
    rwa [same]
  refine .float unsigned inside sign fun whole small => ?_
  rw [natAbs_integer] at small
  have nearest := (same ▸ rounds whole small).nearest_double inside (Nat.cast_nonneg _)
  rw [sign] at nearest
  rw [integer]
  split at nearest
  next negative => rwa [if_pos negative, Int.cast_neg, Int.cast_natCast]
  next positive => rwa [if_neg positive, Int.cast_natCast]

theorem means_int (whole : n.isInteger = true) (least : -2 ^ 63 ≤ n.integer) (most : n.integer < 2 ^ 63)
    (nonzero : ¬(n.negative = true ∧ n.integer = 0)) : n.Means (.int (Int64.ofInt n.integer)) :=
  .int ⟨whole, least, most, nonzero⟩ (Int64.toInt_ofInt_of_le least most)

theorem word_le {m : Nat} (small : m < wordLimit) : m ≤ Nat.pow 10 greatestPower :=
  small.le.trans (by decide +kernel)

theorem means_ofNat (unsigned : ¬n.IsSigned) (small : digitsValue 0 n.whole < wordLimit) :
    n.Means (.float ((ofNat (digitsValue 0 n.whole)).withSign n.negative)) := by
  obtain ⟨rounds, finite⟩ := ofNat_rounds (word_le small)
  exact means_float unsigned ((isFinite_iff _).mpr finite) fun _ _ => rounds

/-- The number of an integer with at most 64 bits. -/
theorem number?_integer (whole : n.isInteger = true) (small : digitsValue 0 n.whole < wordLimit) :
    n.number? = some (if n.negative then
      if 0 < digitsValue 0 n.whole ∧ digitsValue 0 n.whole ≤ greatestSigned + 1 then
        .negative (Int64.ofInt (-digitsValue 0 n.whole))
      else .double ((ofNat (digitsValue 0 n.whole)).withSign true)
    else .natural (UInt64.ofNat (digitsValue 0 n.whole))) := by
  simp only [number?, absorb_eq small, whole, List.isEmpty_nil, Bool.and_self, if_true]
  split
  · split <;> rfl
  · rfl

theorem means_negative (whole : n.isInteger = true) (small : digitsValue 0 n.whole < wordLimit)
    (sign : n.negative = true) :
    n.Means (ofNumber (if 0 < digitsValue 0 n.whole ∧ digitsValue 0 n.whole ≤ greatestSigned + 1 then
      .negative (Int64.ofInt (-digitsValue 0 n.whole))
    else .double ((ofNat (digitsValue 0 n.whole)).withSign true))) := by
  have integer : n.integer = -digitsValue 0 n.whole := if_pos sign
  split
  next fits =>
    rw [← integer]
    rw [greatestSigned] at fits
    exact means_int whole (by omega) (by omega) fun both => by omega
  next beyond =>
    rw [← sign]
    refine means_ofNat (fun signed => ?_) small
    obtain ⟨-, least, -, nonzero⟩ := signed
    rw [greatestSigned] at beyond
    exact nonzero ⟨sign, by omega⟩

theorem means_natural (whole : n.isInteger = true) (small : digitsValue 0 n.whole < wordLimit)
    (sign : n.negative = false) :
    n.Means (ofNumber (.natural (UInt64.ofNat (digitsValue 0 n.whole)))) := by
  have integer : n.integer = digitsValue 0 n.whole := if_neg (by simp [sign])
  have same : (UInt64.ofNat (digitsValue 0 n.whole)).toNat = digitsValue 0 n.whole :=
    UInt64.toNat_ofNat_of_lt' small
  rw [ofNumber, ofWord, same]
  split
  next fits =>
    rw [← integer]
    rw [greatestSigned] at fits
    exact means_int whole (by omega) (by omega) fun both => by simp [sign] at both
  next beyond =>
    have positive :
        (ofNat (digitsValue 0 n.whole)).withSign n.negative = ofNat (digitsValue 0 n.whole) := by
      rw [sign, ← negative_ofNat (digitsValue 0 n.whole)]
      exact pack_magnitude _
    rw [← positive]
    refine means_ofNat (fun signed => ?_) small
    obtain ⟨-, -, most, -⟩ := signed
    rw [greatestSigned] at beyond
    omega

theorem means_scaled (beyond : n.isInteger = true → wordLimit ≤ digitsValue 0 n.whole) {x : Binary64}
    (scaled : scaleDecimal n.significand.1 (n.significand.2 + n.exponentInt) = some x) :
    n.Means (.float (x.withSign n.negative)) := by
  have finite := scaleDecimal_finite (word_le n.significand_le.1) scaled
  refine means_float (fun signed => ?_) finite fun whole fits =>
    absurd fits (Nat.not_lt.mpr (beyond whole))
  have large := beyond signed.1
  have same := n.natAbs_integer
  obtain ⟨-, least, most, -⟩ := signed
  rw [wordLimit] at large
  omega

/-- The value of the number that a numeral denotes is what the numeral means. -/
theorem means_of_number? {number : Number} (denoted : n.number? = some number) :
    n.Means (ofNumber number) := by
  by_cases word : n.isInteger = true ∧ digitsValue 0 n.whole < wordLimit
  · obtain ⟨whole, small⟩ := word
    rw [number?_integer whole small] at denoted
    obtain rfl := Option.some.inj denoted
    cases sign : n.negative with
    | true => exact means_negative whole small sign
    | false => exact means_natural whole small sign
  · have beyond (whole : n.isInteger = true) : wordLimit ≤ digitsValue 0 n.whole :=
      Nat.not_lt.mp fun fits => word ⟨whole, fits⟩
    rw [number?_eq_scaled beyond] at denoted
    obtain ⟨x, scaled, rfl⟩ := Option.map_eq_some_iff.mp denoted
    exact means_scaled beyond scaled

end Numeral

namespace Outline

open Value

mutual

/-- The value of the document of an outline is what the outline means. -/
theorem means_document (o : Outline) (inRange : ∀ n ∈ o.numerals, n.InRange) :
    o.Means (ofDocument o.document) := by
  match o with
  | .null | .bool _ | .string _ => rfl
  | .number n =>
    obtain ⟨number, denoted⟩ := Option.ne_none_iff_exists'.mp (inRange n (.head _))
    rw [document, denoted]
    exact n.means_of_number? denoted
  | .array items =>
    rw [document, ofDocument_array]
    exact ⟨_, rfl, means_items items inRange⟩
  | .object members =>
    rw [document, ofDocument_object]
    exact ⟨_, rfl, means_members members inRange, Entries.get?_ofPairs _⟩

theorem means_items (os : List Outline) (inRange : ∀ n ∈ itemNumerals os, n.InRange) :
    ItemsMean os ((itemDocuments os).map ofDocument) := by
  match os with
  | [] => rfl
  | o :: os =>
    obtain ⟨first, others⟩ := List.forall_mem_append.mp inRange
    exact ⟨_, _, rfl, means_document o first, means_items os others⟩

theorem means_members (members : List (String × Outline))
    (inRange : ∀ n ∈ memberNumerals members, n.InRange) :
    MembersMean members ((memberDocuments members).map ofMember) := by
  match members with
  | [] => rfl
  | (key, o) :: members =>
    obtain ⟨first, others⟩ := List.forall_mem_append.mp inRange
    exact ⟨_, _, rfl, means_document o first, means_members members others⟩

end

end Outline

end Json

namespace Value

open Json

section Decoding

variable {o : Outline} {bytes : List UInt8}

theorem decode_document (spelled : Padded o.Spelling bytes) (shallow : o.nesting ≤ 127)
    (inRange : ∀ n ∈ o.numerals, n.InRange) : decode bytes = .ok (ofDocument o.document) := by
  rw [decode, Outline.read_spelling spelled shallow inRange]

/-- Every text of an outline without numerals out of range is decoded to what the outline means, unless it
is nested too deep. -/
theorem decode_spelling (spelled : Padded o.Spelling bytes) (shallow : o.nesting ≤ 127)
    (inRange : ∀ n ∈ o.numerals, n.InRange) : ∃ v, decode bytes = .ok v ∧ o.Means v := by
  refine ⟨ofDocument o.document, ?_, o.means_document inRange⟩
  exact decode_document spelled shallow inRange

/-- A negative zero beside an object that repeats a key, once as it is and once escaped, first with a
fraction and an exponent and then with the integer after the greatest signed word. -/
theorem sample_text_decoded : ∃ v, decode (Text.encode
    "[ -0,\x7b\"a\":1.5E+2,\"\\u0061\":9223372036854775808\x7d ]".toList) = .ok v ∧
      (Outline.array [.number ⟨true, [0], [], none⟩, .object [
        ("a", .number ⟨false, [1], [5], some (false, [2])⟩),
        ("a", .number ⟨false, [9, 2, 2, 3, 3, 7, 2, 0, 3, 6, 8, 5, 4, 7, 7, 5, 8, 0, 8], [],
          none⟩)]]).Means v := by
  have space : Blank [32] := fun b member => .inl (List.mem_singleton.mp member)
  have plain : StringSpelling "a" [34, 97, 34] :=
    ⟨[97], .cons (.plain (by decide) (by decide) (by decide)) .nil, rfl⟩
  have digits : UnicodeSpelling 'a'.toNat [92, 117, 48, 48, 54, 49] := by
    refine ⟨48, 48, 54, 49, ?_, ?_, ?_, ?_, rfl⟩ <;> exact .inl ⟨by decide, by decide⟩
  have escaped : StringSpelling "a" [34, 92, 117, 48, 48, 54, 49, 34] :=
    ⟨[92, 117, 48, 48, 54, 49], .cons (.unicode (by decide) digits) .nil, rfl⟩
  have zero : Numeral.Spelling ⟨true, [0], [], none⟩ [45, 48] := ⟨0, [], [], rfl, fun _ => rfl, rfl, rfl⟩
  have exponent : Numeral.ExponentSpelling (some (false, [2])) [69, 43, 50] :=
    ⟨List.cons_ne_nil _ _, 69, [43], .inr rfl, .inl rfl, rfl⟩
  have scaled : Numeral.Spelling ⟨false, [1], [5], some (false, [2])⟩ [49, 46, 53, 69, 43, 50] :=
    ⟨1, [], _, rfl, fun _ => rfl, exponent, rfl⟩
  have unsigned : Numeral.Spelling
      ⟨false, [9, 2, 2, 3, 3, 7, 2, 0, 3, 6, 8, 5, 4, 7, 7, 5, 8, 0, 8], [], none⟩ _ :=
    ⟨9, _, [], rfl, by decide, rfl, rfl⟩
  have members : Outline.MembersSpelling [("a", .number _), ("a", .number _)] _ :=
    ⟨_, _, _, .of_spelling plain, .of_spelling scaled,
      ⟨_, _, .of_spelling escaped, .of_spelling unsigned, rfl⟩, rfl⟩
  have items : Outline.ItemsSpelling [.number _, .object _] _ :=
    ⟨_, _, ⟨[32], _, [], rfl, space, zero, blank_nil⟩,
      ⟨[], _, [32], rfl, blank_nil, ⟨_, members, rfl⟩, space⟩, rfl⟩
  exact decode_spelling (.of_spelling ⟨_, items, by decide⟩) (by decide) (by decide +kernel)

/-- A text is decoded to what it means if no numeral in it is greater than the greatest power of ten. -/
theorem decode_of_size_le (spelled : Padded o.Spelling bytes) (shallow : o.nesting ≤ 127)
    (small : ∀ n ∈ o.numerals, n.size ≤ 10 ^ greatestPower) :
    ∃ v, decode bytes = .ok v ∧ o.Means v := by
  have inRange : ∀ n ∈ o.numerals, n.InRange := fun n member => Numeral.inRange_of_le (small n member)
  refine ⟨ofDocument o.document, ?_, o.means_document inRange⟩
  exact decode_document spelled shallow inRange

end Decoding

end Value

end BuildServer
