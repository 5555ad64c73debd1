import BuildServer.Proofs.Json.Grammar

/-! # Every text of a document is read

Each part of the grammar has its run of the scan: blanks add nothing, a numeral that is spelled in any
way is the draft of that numeral, and each of the ways to write a character leaves its bytes in the
string. So any text of an outline scans as the tokens of its document, which assemble to it.
-/

namespace BuildServer.Json

theorem draft?_append {bytes : List UInt8} {draft : NumeralDraft} (drafted : draft? bytes = some draft)
    (more : List UInt8) : draft? (bytes ++ more) = more.foldlM Scan.extendNumeral? draft := by
  cases bytes with
  | nil => cases drafted
  | cons b bytes =>
    obtain ⟨first, starts, extended⟩ := Option.bind_eq_some_iff.mp drafted
    simp only [List.cons_append, draft?, starts, Option.bind_some, List.foldlM_append, extended,
      Option.bind_eq_bind]

/-- The parts of a numeral that an exponent may follow. -/
def NumeralPart.BeforeMark (part : NumeralPart) : Prop :=
  part = .zero ∨ part = .whole ∨ part = .fraction

/-- A point and digits behind the digits of a numeral. -/
theorem extend_fraction (ds : List Digit) {draft : NumeralDraft}
    (whole : draft.part = .zero ∨ draft.part = .whole) (empty : draft.fraction = []) :
    ∃ part, part.BeforeMark ∧ (Numeral.fractionBytes ds).foldlM Scan.extendNumeral? draft =
      some { draft with part, fraction := ds.reverse } := by
  cases ds with
  | nil =>
    refine ⟨draft.part, whole.imp_right .inl, ?_⟩
    obtain ⟨part, negative, digits, fraction, below, exponent⟩ := draft
    obtain rfl : fraction = [] := empty
    rfl
  | cons d ds =>
    have point : Scan.extendNumeral? draft 46 = some { draft with part := .point } := by
      rcases whole with part | part <;> simp [Scan.extendNumeral?, part, digit?]
    have first : Scan.extendNumeral? { draft with part := .point } d.byte =
        some { draft with part := .fraction, fraction := [d] } := by
      simp only [Scan.extendNumeral?, digit?_byte]
    refine ⟨.fraction, .inr (.inr rfl), ?_⟩
    simp only [Numeral.fractionBytes, List.isEmpty_cons, Bool.false_eq_true, if_false, List.map_cons,
      List.foldlM_cons, point, first, Option.bind_eq_bind, Option.bind_some]
    have takes (e : Digit) (taken : List Digit) :
        Scan.extendNumeral? { draft with part := .fraction, fraction := taken } e.byte =
          some { draft with part := .fraction, fraction := e :: taken } := by
      simp only [Scan.extendNumeral?, digit?_byte]
    rw [extend_digits takes ds [d], List.reverse_cons]

/-- The mark of an exponent, its sign and its digits complete a numeral. -/
theorem extend_exponent {exponent : Option (Bool × List Digit)} {bytes : List UInt8}
    (spelled : Numeral.ExponentSpelling exponent bytes) {draft : NumeralDraft}
    (before : draft.part.BeforeMark) (above : draft.below = false) :
    ∃ final, bytes.foldlM Scan.extendNumeral? draft = some final ∧ final.part.complete = true ∧
      final.numeral = { draft.numeral with exponent } := by
  have unmarked : draft.numeral.exponent = none := by
    rcases before with part | part | part <;> simp [NumeralDraft.numeral, part]
  cases exponent with
  | none =>
    obtain rfl : bytes = [] := spelled
    refine ⟨draft, rfl, ?_, by rw [← unmarked]⟩
    rcases before with part | part | part <;> rw [part] <;> rfl
  | some pair =>
    obtain ⟨below, digits⟩ := pair
    obtain ⟨nonempty, mark, sign, marks, signs, same⟩ := spelled
    obtain ⟨d, ds, rfl⟩ := List.exists_cons_of_ne_nil nonempty
    have marked : Scan.extendNumeral? draft mark = some { draft with part := .mark } := by
      rcases marks with rfl | rfl <;> rcases before with part | part | part <;>
        simp [Scan.extendNumeral?, part, digit?]
    have signed : ∃ next, sign.foldlM Scan.extendNumeral? { draft with part := .mark } = some next ∧
        Scan.extendNumeral? next d.byte =
          some { draft with part := .exponent, below, exponent := [d] } := by
      obtain ⟨part, negative, whole, fraction, below', digits⟩ := draft
      obtain rfl : below' = false := above
      rcases signs with rfl | ⟨rfl, rfl⟩
      · cases below <;> exact ⟨_, rfl, by simp only [Scan.extendNumeral?, digit?_byte]⟩
      · exact ⟨_, rfl, by simp only [Scan.extendNumeral?, digit?_byte]⟩
    obtain ⟨next, taken, first⟩ := signed
    have takes (e : Digit) (taken : List Digit) :
        Scan.extendNumeral? { draft with part := .exponent, below, exponent := taken } e.byte =
          some { draft with part := .exponent, below, exponent := e :: taken } := by
      simp only [Scan.extendNumeral?, digit?_byte]
    refine ⟨{ draft with part := .exponent, below, exponent := (d :: ds).reverse }, ?_, rfl, ?_⟩
    · rw [same, List.foldlM_cons, marked, Option.bind_eq_bind, Option.bind_some, List.foldlM_append,
        taken, Option.bind_eq_bind, Option.bind_some, List.map_cons, List.foldlM_cons, first,
        Option.bind_eq_bind, Option.bind_some, extend_digits takes ds [d], List.reverse_cons]
    · simp [NumeralDraft.numeral]

/-- However a numeral is spelled, the draft that its bytes make is a draft of it. -/
theorem draft?_spelled {n : Numeral} {bytes : List UInt8} (spelled : n.Spelling bytes) :
    ∃ draft, draft? bytes = some draft ∧ draft.part.complete = true ∧ draft.numeral = n := by
  obtain ⟨negative, whole, fraction, exponent⟩ := n
  obtain ⟨d, ds, marked, digits, leading, exponentSpelled, rfl⟩ := spelled
  obtain rfl : whole = d :: ds := digits
  have front : draft? ((if negative then [45] else []) ++ (d :: ds).map Digit.byte) =
      some (wholeDraft negative d ds) := by
    cases negative with
    | false => exact draft?_digits fun zero => leading (congrArg Fin.val zero)
    | true => exact draft?_negative fun zero => leading (congrArg Fin.val zero)
  obtain ⟨part, before, fractional⟩ := extend_fraction fraction (part_wholeDraft negative d ds) rfl
  have fractionBefore : NumeralPart.BeforeMark (NumeralDraft.part
      { wholeDraft negative d ds with part, fraction := fraction.reverse }) := before
  obtain ⟨final, extended, complete, numeral⟩ := extend_exponent exponentSpelled fractionBefore rfl
  refine ⟨final, ?_, complete, ?_⟩
  · rw [← List.append_assoc, draft?_append front, List.foldlM_append, fractional]
    exact extended
  · rw [numeral]
    simp [NumeralDraft.numeral, wholeDraft]

variable {bytes rest : List UInt8} {ts : List Token}

theorem runs_blank (blank : Blank bytes) : Runs .blank bytes .blank [] rest := by
  induction bytes with
  | nil => exact Runs.nil _ _
  | cons b bytes ih =>
    have one : Runs .blank [b] .blank [] (bytes ++ rest) := .into fun s within => by
      simp only [Scan.step, within, Scan.fromBlank]
      rcases blank b (.head _) with rfl | rfl | rfl | rfl <;> rfl
    exact one.append (ih fun c member => blank c (.tail _ member))

/-- Blanks and delimiters are no part of a numeral. -/
theorem endsNumeral_cons {b : UInt8} (ends : IsBlank b ∨ b = 44 ∨ b = 58 ∨ b = 93 ∨ b = 125)
    (rest : List UInt8) : EndsNumeral (b :: rest) := by
  intro c first
  obtain rfl := Option.some.inj first
  rcases ends with (rfl | rfl | rfl | rfl) | rfl | rfl | rfl | rfl <;>
    refine ⟨rfl, fun draft => ?_⟩ <;> simp [Scan.extendNumeral?, digit?] <;> cases draft.part <;> rfl

theorem Blank.endsNumeral (blank : Blank bytes) (ends : EndsNumeral rest) :
    EndsNumeral (bytes ++ rest) := by
  cases bytes with
  | nil => exact ends
  | cons b bytes => exact endsNumeral_cons (.inl (blank b (.head _))) (bytes ++ rest)

/-- Blanks around a text change nothing. -/
theorem Padded.runs {spelling : List UInt8 → Prop} (padded : Padded spelling bytes)
    (ends : EndsNumeral rest) (inside : ∀ {inner after : List UInt8}, spelling inner →
      EndsNumeral after → Runs .blank inner .blank ts after) : Runs .blank bytes .blank ts rest := by
  obtain ⟨before, inner, after, rfl, front, spelled, back⟩ := padded
  have padded := ((runs_blank front).append (inside spelled (back.endsNumeral ends))).append
    (runs_blank back)
  rwa [List.nil_append, List.append_nil] at padded

variable {content : List UInt8}

theorem hexDigit?_of_isHexDigit {d : Nat} {b : UInt8} (digit : IsHexDigit d b) :
    hexDigit? b = some d := by
  simp only [hexDigit?]
  rcases digit with ⟨small, same⟩ | ⟨large, small, same | same⟩
  · rw [if_pos (by omega), same]
    simp
  · rw [if_neg (by omega), if_pos (by omega), same]
    simp
  · rw [if_neg (by omega), if_neg (by omega), if_pos (by omega), same]
    simp

/-- The four digits of an escape are read as its number. -/
theorem hexNumber?_of_spelling {n : Nat} (small : n < 0x10000) (spelled : UnicodeSpelling n bytes) :
    ∃ b₁ b₂ b₃ b₄, bytes = [92, 117, b₁, b₂, b₃, b₄] ∧ hexNumber? [b₄, b₃, b₂, b₁] = some n := by
  obtain ⟨b₁, b₂, b₃, b₄, first, second, third, fourth, same⟩ := spelled
  refine ⟨b₁, b₂, b₃, b₄, same, ?_⟩
  simp only [hexNumber?, hexDigit?_of_isHexDigit first, hexDigit?_of_isHexDigit second,
    hexDigit?_of_isHexDigit third, hexDigit?_of_isHexDigit fourth, Option.bind_eq_bind,
    Option.bind_some, Option.pure_def, Option.some.injEq]
  omega

/-- A character is taken over from any of its spellings. -/
theorem CharSpelling.runs {c : Char} (spelled : CharSpelling c bytes) :
    Runs (.string content .plain) bytes (.string ((Text.encodeChar c).reverse ++ content) .plain) []
      rest := by
  cases spelled with
  | plain printable noQuote noSlash => exact runs_plain (encodeChar_plain printable noQuote noSlash)
  | letter listed =>
    simp only [letterEscapes, List.mem_cons, Prod.mk.injEq, List.not_mem_nil, or_false] at listed
    rcases listed with ⟨rfl, rfl⟩ | ⟨rfl, rfl⟩ | ⟨rfl, rfl⟩ | ⟨rfl, rfl⟩ | ⟨rfl, rfl⟩ | ⟨rfl, rfl⟩ |
      ⟨rfl, rfl⟩ | ⟨rfl, rfl⟩
    all_goals exact runs_letter (by decide) rfl
  | unicode basic digits =>
    obtain ⟨b₁, b₂, b₃, b₄, rfl, number⟩ := hexNumber?_of_spelling basic digits
    have plane : isTrail c.toNat = false ∧ isLead c.toNat = false := by
      have valid := c.valid
      simp only [isTrail, isLead, decide_eq_false_iff_not]
      rcases valid with small | large
      · have : c.toNat < 0xD800 := small
        omega
      · have : 0xDFFF < c.toNat := large.1
        omega
    have taken := @runs_digits content rest _ _ _ _ _ number plane.1 plane.2
    rwa [Char.ofNat_toNat] at taken
  | pair beyond leading trailing =>
    have bound := Text.toNat_lt c
    obtain ⟨b₁, b₂, b₃, b₄, rfl, lead⟩ := hexNumber?_of_spelling (by omega) leading
    obtain ⟨c₁, c₂, c₃, c₄, rfl, trail⟩ := hexNumber?_of_spelling (by omega) trailing
    have taken := @runs_pair content rest _ _ _ _ _ _ _ _ _ _ lead
      (by simp only [isLead, decide_eq_true_eq]; omega) trail
      (by simp only [isTrail, decide_eq_true_eq]; omega)
    have same : pairChar (0xD800 + (c.toNat - 0x10000) / 0x400)
        (0xDC00 + (c.toNat - 0x10000) % 0x400) = c := by
      rw [pairChar, show 0x10000 + (0xD800 + (c.toNat - 0x10000) / 0x400 - 0xD800) * 0x400 +
        (0xDC00 + (c.toNat - 0x10000) % 0x400 - 0xDC00) = c.toNat by omega, Char.ofNat_toNat]
    rwa [same] at taken

theorem CharsSpelling.runs {cs : List Char} (spelled : CharsSpelling cs bytes) :
    Runs (.string content .plain) bytes (.string ((Text.encode cs).reverse ++ content) .plain) []
      rest := by
  induction spelled generalizing content with
  | nil => exact Runs.nil _ _
  | @cons c cs first others one _ ih =>
    have all := one.runs.append (@ih ((Text.encodeChar c).reverse ++ content))
    simpa [Text.encode_cons, List.append_assoc] using all

theorem StringSpelling.runs {s : String} (spelled : StringSpelling s bytes) :
    Runs .blank bytes .blank [.string s] rest := by
  obtain ⟨inside, chars, rfl⟩ := spelled
  have taken := @CharsSpelling.runs inside ([34] ++ rest) [] s.toList chars
  rw [List.append_nil] at taken
  exact runs_quoted taken

namespace Outline

open Document

/-- A numeral in range is scanned as its number. -/
theorem runs_numeral {n : Numeral} (spelled : n.Spelling bytes) (inRange : n.InRange)
    (ends : EndsNumeral rest) : Runs .blank bytes .blank (document (.number n)).tokens rest := by
  obtain ⟨draft, drafted, complete, rfl⟩ := draft?_spelled spelled
  obtain ⟨number, denoted⟩ := Option.ne_none_iff_exists'.mp inRange
  rw [document, denoted]
  exact Json.runs_numeral drafted complete denoted ends

/-- A key with blanks around it and its colon, in front of a value. -/
theorem runs_keyed {key : String} {name value : List UInt8} (named : Padded (StringSpelling key) name)
    (run : Runs .blank value .blank ts rest) :
    Runs .blank (name ++ 58 :: value) .blank (.string key :: .colon :: ts) rest := by
  have front := named.runs (endsNumeral_cons (.inr (.inr (.inl rfl))) (value ++ rest))
    fun spelled _ => StringSpelling.runs spelled
  exact front.append ((runs_mark rfl).append run)

mutual

/-- Any text of an outline scans as the tokens of its document. -/
theorem runs_spelling (o : Outline) (inRange : ∀ n ∈ o.numerals, n.InRange) {bytes rest : List UInt8}
    (spelled : o.Spelling bytes) (ends : EndsNumeral rest) :
    Runs .blank bytes .blank o.document.tokens rest := by
  match o with
  | .null =>
    obtain rfl : bytes = Text.encode "null".toList := spelled
    exact runs_null
  | .bool b =>
    obtain rfl : bytes = Text.encode (if b then "true".toList else "false".toList) := spelled
    exact runs_bool b
  | .number n => exact runs_numeral spelled (inRange n (by simp [numerals])) ends
  | .string s => exact StringSpelling.runs spelled
  | .array items =>
    obtain ⟨inside, listed, rfl⟩ := spelled
    have run := runs_items items inRange listed (endsNumeral_cons (.inr (.inr (.inr (.inl rfl)))) rest)
    simpa only [document, tokens, List.cons_append] using run.enclosed rfl rfl
  | .object members =>
    obtain ⟨inside, listed, rfl⟩ := spelled
    have run := runs_members members inRange listed (endsNumeral_cons (.inr (.inr (.inr (.inr rfl)))) rest)
    simpa only [document, tokens, List.cons_append] using run.enclosed rfl rfl

theorem runs_items (os : List Outline) (inRange : ∀ n ∈ itemNumerals os, n.InRange)
    {bytes rest : List UInt8} (listed : ItemsSpelling os bytes) (ends : EndsNumeral rest) :
    Runs .blank bytes .blank (commaTokens (itemTokens (itemDocuments os))) rest := by
  match os with
  | [] => exact runs_blank listed
  | [o] =>
    exact Padded.runs listed ends
      (runs_spelling o fun n member => inRange n (List.mem_append_left _ member))
  | o :: p :: os =>
    obtain ⟨first, others, spelled, listed, rfl⟩ := listed
    have front := Padded.runs spelled (endsNumeral_cons (.inr (.inl rfl)) (others ++ rest))
      (runs_spelling o fun n member => inRange n (List.mem_append_left _ member))
    have back := runs_items (p :: os) (fun n member => inRange n (List.mem_append_right _ member))
      listed ends
    exact front.comma back

theorem runs_members (members : List (String × Outline))
    (inRange : ∀ n ∈ memberNumerals members, n.InRange) {bytes rest : List UInt8}
    (listed : MembersSpelling members bytes) (ends : EndsNumeral rest) :
    Runs .blank bytes .blank (commaTokens (memberTokens (memberDocuments members))) rest := by
  match members with
  | [] => exact runs_blank listed
  | [(key, o)] =>
    obtain ⟨name, value, named, spelled, rfl⟩ := listed
    exact runs_keyed named (Padded.runs spelled ends
      (runs_spelling o fun n member => inRange n (List.mem_append_left _ member)))
  | (key, o) :: member :: members =>
    obtain ⟨name, value, others, named, spelled, listed, rfl⟩ := listed
    have front := Padded.runs spelled (endsNumeral_cons (.inr (.inl rfl)) (others ++ rest))
      (runs_spelling o fun n inside => inRange n (List.mem_append_left _ inside))
    have back := runs_members (member :: members)
      (fun n inside => inRange n (List.mem_append_right _ inside)) listed ends
    have all := (runs_keyed named front).comma back
    simpa only [memberDocuments, memberTokens, commaTokens, List.append_assoc, List.cons_append] using all

end

mutual

/-- The document of an outline is nested just as deeply. -/
theorem nesting_document (o : Outline) : o.document.nesting = o.nesting := by
  match o with
  | .null | .bool _ | .string _ => rfl
  | .number n =>
    rw [document]
    cases n.number? <;> rfl
  | .array items => rw [document, Document.nesting, nesting, nesting_itemDocuments items]
  | .object members => rw [document, Document.nesting, nesting, nesting_memberDocuments members]

theorem nesting_itemDocuments (os : List Outline) :
    Document.itemNesting (itemDocuments os) = itemNesting os := by
  match os with
  | [] => rfl
  | o :: os =>
    rw [itemDocuments, Document.itemNesting, itemNesting, nesting_document o, nesting_itemDocuments os]

theorem nesting_memberDocuments (members : List (String × Outline)) :
    Document.memberNesting (memberDocuments members) = memberNesting members := by
  match members with
  | [] => rfl
  | (key, o) :: members =>
    rw [memberDocuments, Document.memberNesting, memberNesting, nesting_document o,
      nesting_memberDocuments members]

end

/-- Every text of an outline that is in range and not nested too deeply, with blanks around it, is read
as its document. -/
theorem read_spelling {o : Outline} {bytes : List UInt8} (spelled : Padded o.Spelling bytes)
    (shallow : o.nesting ≤ deepestNesting) (inRange : ∀ n ∈ o.numerals, n.InRange) :
    Document.read bytes = .ok o.document := by
  have ended : EndsNumeral [] := fun b first => by cases first
  apply read_of_runs (Padded.runs spelled ended (runs_spelling o inRange))
  rwa [nesting_document o]

end Outline

end BuildServer.Json
