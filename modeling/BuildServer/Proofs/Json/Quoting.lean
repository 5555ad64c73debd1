import BuildServer.Proofs.Json.Scanning

/-! # Strings that are read back

Every character of a string is written so that the scan takes it over, as it stands or from its
escape, and the closing quote finds the bytes of the string itself.
-/

namespace BuildServer.Json

variable {content bytes rest : List UInt8}

/-- Bytes that stand for themselves. -/
theorem runs_plain (plain : ∀ b ∈ bytes, 32 ≤ b.toNat ∧ b.toNat ≠ 34 ∧ b.toNat ≠ 92) :
    Runs (.string content .plain) bytes (.string (bytes.reverse ++ content) .plain) [] rest := by
  induction bytes generalizing content with
  | nil => exact Runs.nil _ _
  | cons b bytes ih =>
    obtain ⟨printable, noQuote, noSlash⟩ := plain b (.head _)
    have one : Runs (.string content .plain) [b] (.string (b :: content) .plain) [] (bytes ++ rest) :=
      .into fun s within => by
        simp only [Scan.step, within, Scan.fromString, if_neg noQuote, if_neg noSlash,
          if_neg (Nat.not_lt.mpr printable)]
    simpa using one.append (ih fun c member => plain c (.tail _ member))

/-- An escape of one letter. -/
theorem runs_letter {letter b : UInt8} (unicode : letter.toNat ≠ 117)
    (stands : simpleEscape? letter = some b) :
    Runs (.string content .plain) [92, letter] (.string (b :: content) .plain) [] rest := by
  have slash : Runs (.string content .plain) [92] (.string content .escape) [] ([letter] ++ rest) :=
    .into fun s within => by simp [Scan.step, within, Scan.fromString]
  have last : Runs (.string content .escape) [letter] (.string (b :: content) .plain) [] rest :=
    .into fun s within => by simp only [Scan.step, within, Scan.fromString, if_neg unicode, stands]
  exact slash.append last

/-- The opening of an escape of four digits and the first three of them. -/
theorem runs_threeDigits {part : StringPart} {lead : Option Nat} {opening : List UInt8}
    (opened : ∀ after, Runs (.string content part) opening (.string content (.digits lead [])) []
      after) (b₁ b₂ b₃ : UInt8) :
    Runs (.string content part) (opening ++ [b₁, b₂, b₃])
      (.string content (.digits lead [b₃, b₂, b₁])) [] rest := by
  have digit : ∀ (b : UInt8) (read after : List UInt8), read.length < 3 →
      Runs (.string content (.digits lead read)) [b] (.string content (.digits lead (b :: read))) []
        after := fun b read after few =>
    .into fun s within => by simp only [Scan.step, within, Scan.fromString, if_pos few]
  have digits := (digit b₁ [] _ (by simp)).append ((digit b₂ [b₁] _ (by simp)).append
    (digit b₃ [b₂, b₁] rest (by simp)))
  exact (opened _).append digits

/-- A backslash and the mark of an escape of four digits. -/
theorem runs_unicode :
    Runs (.string content .plain) [92, 117] (.string content (.digits none [])) [] rest := by
  have slash : Runs (.string content .plain) [92] (.string content .escape) [] ([117] ++ rest) :=
    .into fun s within => by simp [Scan.step, within, Scan.fromString]
  have mark : Runs (.string content .escape) [117] (.string content (.digits none [])) [] rest :=
    .into fun s within => by simp [Scan.step, within, Scan.fromString]
  exact slash.append mark

/-- An escape of four digits that is no half of a surrogate pair. -/
theorem runs_digits {b₁ b₂ b₃ b₄ : UInt8} {n : Nat} (number : hexNumber? [b₄, b₃, b₂, b₁] = some n)
    (noTrail : isTrail n = false) (noLead : isLead n = false) :
    Runs (.string content .plain) [92, 117, b₁, b₂, b₃, b₄]
      (.string ((Text.encodeChar (Char.ofNat n)).reverse ++ content) .plain) [] rest := by
  have last : Runs (.string content (.digits none [b₃, b₂, b₁])) [b₄]
      (.string ((Text.encodeChar (Char.ofNat n)).reverse ++ content) .plain) [] rest :=
    .into fun s within => by
      simp [Scan.step, within, Scan.fromString, Scan.endDigits, number, noTrail, noLead]
  exact (runs_threeDigits (fun _ => runs_unicode) b₁ b₂ b₃).append last

/-- Two escapes of four digits that are the halves of a surrogate pair. -/
theorem runs_pair {b₁ b₂ b₃ b₄ c₁ c₂ c₃ c₄ : UInt8} {lead trail : Nat}
    (leading : hexNumber? [b₄, b₃, b₂, b₁] = some lead) (isLeading : isLead lead = true)
    (trailing : hexNumber? [c₄, c₃, c₂, c₁] = some trail) (isTrailing : isTrail trail = true) :
    Runs (.string content .plain) [92, 117, b₁, b₂, b₃, b₄, 92, 117, c₁, c₂, c₃, c₄]
      (.string ((Text.encodeChar (pairChar lead trail)).reverse ++ content) .plain) [] rest := by
  have noTrail : isTrail lead = false := by
    simp only [isLead, isTrail, decide_eq_true_eq, decide_eq_false_iff_not] at isLeading ⊢
    omega
  have half : Runs (.string content (.digits none [b₃, b₂, b₁])) [b₄]
      (.string content (.pairSlash lead)) [] ([92, 117, c₁, c₂, c₃, c₄] ++ rest) :=
    .into fun s within => by
      simp [Scan.step, within, Scan.fromString, Scan.endDigits, leading, noTrail, isLeading]
  have again (after : List UInt8) : Runs (.string content (.pairSlash lead)) [92, 117]
      (.string content (.digits (some lead) [])) [] after := by
    have slash : Runs (.string content (.pairSlash lead)) [92] (.string content (.pairMark lead)) []
        ([117] ++ after) :=
      .into fun s within => by simp [Scan.step, within, Scan.fromString]
    exact slash.append (.into fun s within => by simp [Scan.step, within, Scan.fromString])
  have last : Runs (.string content (.digits (some lead) [c₃, c₂, c₁])) [c₄]
      (.string ((Text.encodeChar (pairChar lead trail)).reverse ++ content) .plain) [] rest :=
    .into fun s within => by
      simp [Scan.step, within, Scan.fromString, Scan.endDigits, trailing, isTrailing]
  exact (runs_threeDigits (fun _ => runs_unicode) b₁ b₂ b₃).append
    (half.append ((runs_threeDigits again c₁ c₂ c₃).append last))

/-- The byte of a hexadecimal digit. -/
def hexByte (n : Nat) : UInt8 := UInt8.ofNat (if n < 10 then 48 + n else 87 + n)

/-- The controls are written with four digits of their number. -/
theorem encode_control : ∀ n : Fin 32, Text.encode ('\\' :: 'u' :: Text.hexPadded 4 n) =
    [92, 117, 48, 48, hexByte (n / 16), hexByte (n % 16)] ∧
      hexNumber? [hexByte (n % 16), hexByte (n / 16), 48, 48] = some n.val := by decide

/-- A character other than a control, the quote and the backslash stands for itself. -/
theorem encodeChar_plain {c : Char} (printable : 32 ≤ c.toNat) (noQuote : c ≠ '"')
    (noSlash : c ≠ '\\') : ∀ b ∈ Text.encodeChar c, 32 ≤ b.toNat ∧ b.toNat ≠ 34 ∧ b.toNat ≠ 92 := by
  intro b member
  by_cases small : c.toNat < 0x80
  · rw [Text.encodeChar_of_lt small, List.mem_singleton] at member
    have same : b.toNat = c.toNat := by rw [member, Text.toNat_byte (by omega)]
    rw [same]
    exact ⟨printable, fun quote => noQuote (Char.toNat_inj.mp quote),
      fun slash => noSlash (Char.toNat_inj.mp slash)⟩
  · have := Text.le_of_mem_encodeChar (Nat.not_lt.mp small) b member
    omega

/-- A character is taken over from its spelling in a string. -/
theorem runs_char (c : Char) :
    Runs (.string content .plain) (Text.encode (escapeChar c))
      (.string ((Text.encodeChar c).reverse ++ content) .plain) [] rest := by
  simp only [escapeChar]
  split
  case h_8 noQuote noSlash _ _ _ _ _ =>
    split
    next control =>
      obtain ⟨written, number⟩ := encode_control ⟨c.toNat, control⟩
      have plane : isTrail c.toNat = false ∧ isLead c.toNat = false := by
        simp only [isTrail, isLead, decide_eq_false_iff_not]
        omega
      rw [written]
      have taken := @runs_digits content rest _ _ _ _ _ number plane.1 plane.2
      rwa [Char.ofNat_toNat] at taken
    next printable =>
      have own : Text.encode [c] = Text.encodeChar c := by simp [Text.encode_cons]
      rw [own]
      exact runs_plain (encodeChar_plain (Nat.not_lt.mp printable) noQuote noSlash)
  all_goals exact runs_letter (by decide) rfl

theorem runs_chars (cs : List Char) :
    Runs (.string content .plain) (Text.encode (cs.flatMap escapeChar))
      (.string ((Text.encode cs).reverse ++ content) .plain) [] rest := by
  induction cs generalizing content with
  | nil => exact Runs.nil _ _
  | cons c cs ih =>
    have all := (runs_char c).append (@ih ((Text.encodeChar c).reverse ++ content))
    simpa [Text.encode_cons, List.append_assoc] using all

/-- The bytes of a string, however they are spelled, are scanned as it between quotes. -/
theorem runs_quoted {s : String} (inside : Runs (.string [] .plain) bytes
    (.string (Text.encode s.toList).reverse .plain) [] ([34] ++ rest)) :
    Runs .blank (34 :: (bytes ++ [34])) .blank [.string s] rest := by
  have opened (after : List UInt8) : Runs .blank [34] (.string [] .plain) [] after :=
    .of_foldl fun s blank => by
      simp only [List.foldl_cons, List.foldl_nil, Scan.step, blank]
      exact ⟨rfl, rfl⟩
  have closed : Runs (.string (Text.encode s.toList).reverse .plain) [34] .blank [.string s] rest :=
    .of_foldl fun scan within => by
      simp only [List.foldl_cons, List.foldl_nil, Scan.step, within, Scan.fromString, Scan.endString,
        List.reverse_reverse, Text.decode_encode, String.ofList_toList]
      exact ⟨rfl, rfl⟩
  exact (opened _).append (inside.append closed)

/-- A string is scanned wherever it stands. -/
theorem runs_string (s : String) :
    Runs .blank (Text.encode (stringText s)) .blank [.string s] rest := by
  have quote : Text.encodeChar '"' = [34] := by decide
  have inside := @runs_chars [] ([34] ++ rest) s.toList
  rw [List.append_nil] at inside
  have all := runs_quoted inside
  simpa [stringText, Text.encode_cons, Text.encode_append, quote] using all

end BuildServer.Json
