import Mathlib.Data.List.TakeWhile
import BuildServer.Text.Basic

/-! # Blanks and decimal numbers

Trimming takes the blanks around a text that has none at its own ends, and nothing else. A text is
split where a character stands first. The digits of a word are read back as that word.
-/

namespace BuildServer.Text

/-- The text without the blanks at its end. -/
def trimBack (cs : List Char) : List Char := (trimFront cs.reverse).reverse

variable {front back cs : List Char}

theorem trimFront_blank_append (blank : ∀ c ∈ front, isBlank c = true) (cs : List Char) :
    trimFront (front ++ cs) = trimFront cs := List.dropWhile_append_of_pos blank

/-- The blanks in front of a text are those that trimming its front takes. -/
theorem exists_trimFront (cs : List Char) :
    ∃ front, cs = front ++ trimFront cs ∧ ∀ c ∈ front, isBlank c = true :=
  ⟨cs.takeWhile isBlank, (List.takeWhile_append_dropWhile).symm, fun _ => List.mem_takeWhile_imp⟩

theorem trim_append_left (blank : ∀ c ∈ front, isBlank c = true) (cs : List Char) :
    trim (front ++ cs) = trim cs := by
  rw [trim, trimFront_blank_append blank]
  rfl

/-- Up to a character that is no blank, trimming the front looks at nothing behind. -/
theorem trimFront_divided {c : Char} (solid : isBlank c = false) (front back : List Char) :
    trimFront (front ++ c :: back) = trimFront front ++ c :: back := by
  induction front with
  | nil => exact List.dropWhile_cons_of_neg (by simp [solid])
  | cons d front ih =>
    cases blank : isBlank d with
    | true =>
      rw [trimFront, trimFront, List.cons_append, List.dropWhile_cons_of_pos blank,
        List.dropWhile_cons_of_pos blank]
      exact ih
    | false =>
      have stays : ¬ isBlank d = true := Bool.eq_false_iff.mp blank
      rw [trimFront, trimFront, List.cons_append, List.dropWhile_cons_of_neg stays,
        List.dropWhile_cons_of_neg stays]
      rfl

/-- Around a character that is no blank, either side is trimmed by itself. -/
theorem trim_divided {c : Char} (solid : isBlank c = false) (front back : List Char) :
    trim (front ++ c :: back) = trimFront front ++ c :: trimBack back := by
  rw [trim, trimFront_divided solid, List.reverse_append, List.reverse_cons, List.append_assoc,
    List.singleton_append, trimFront_divided solid, trimBack]
  simp

theorem trim_append_right (blank : ∀ c ∈ back, isBlank c = true) (cs : List Char) :
    trim (cs ++ back) = trim cs := by
  have whole : trimFront (cs ++ back) =
      if (trimFront cs).isEmpty then trimFront back else trimFront cs ++ back := List.dropWhile_append
  rw [trim, trim, whole]
  split
  next nothing =>
    rw [List.isEmpty_iff.mp nothing, show trimFront back = [] from List.dropWhile_eq_nil_iff.mpr blank]
  next =>
    rw [List.reverse_append, trimFront_blank_append (by simpa using blank)]

theorem trim_trimFront (cs : List Char) : trim (trimFront cs) = trim cs := by
  obtain ⟨front, whole, blank⟩ := exists_trimFront cs
  calc trim (trimFront cs) = trim (front ++ trimFront cs) := (trim_append_left blank _).symm
    _ = trim cs := by rw [← whole]

theorem trim_trimBack (cs : List Char) : trim (trimBack cs) = trim cs := by
  obtain ⟨front, whole, blank⟩ := exists_trimFront cs.reverse
  have split : cs = trimBack cs ++ front.reverse := by
    rw [trimBack, ← List.reverse_append, ← whole, List.reverse_reverse]
  calc trim (trimBack cs) = trim (trimBack cs ++ front.reverse) :=
        (trim_append_right (by simpa using blank) _).symm
    _ = trim cs := by rw [← split]

theorem mem_of_mem_trimFront {c : Char} (member : c ∈ trimFront cs) : c ∈ cs :=
  (List.dropWhile_sublist _).subset member

theorem mem_of_mem_trim {c : Char} (member : c ∈ trim cs) : c ∈ cs :=
  mem_of_mem_trimFront (List.mem_reverse.mp (mem_of_mem_trimFront (List.mem_reverse.mp member)))

/-- Only a text of blanks is trimmed to nothing. -/
theorem trim_eq_nil_iff : trim cs = [] ↔ ∀ c ∈ cs, isBlank c = true := by
  constructor
  · intro nothing
    obtain ⟨front, whole, blank⟩ := exists_trimFront cs
    have rest : ∀ c ∈ trimFront cs, isBlank c = true := by
      simpa using List.dropWhile_eq_nil_iff.mp (List.reverse_eq_nil_iff.mp nothing)
    rw [whole]
    intro c member
    exact (List.mem_append.mp member).elim (blank c) (rest c)
  · intro blank
    have trimmed := trim_append_left blank []
    rwa [List.append_nil] at trimmed

theorem trim_of_blank_around (front cs back : List Char) (before : ∀ c ∈ front, isBlank c = true)
    (after : ∀ c ∈ back, isBlank c = true) (first : ∀ c ∈ cs.head?, isBlank c = false)
    (last : ∀ c ∈ cs.getLast?, isBlank c = false) : trim (front ++ (cs ++ back)) = cs := by
  have solid : ∀ ds : List Char, (∀ c ∈ ds.head?, isBlank c = false) → trimFront ds = ds := by
    intro ds first
    cases ds with
    | nil => rfl
    | cons c ds => exact List.dropWhile_cons_of_neg (by simp [first c rfl])
  rw [trim_append_left before, trim_append_right after, trim, solid cs first,
    solid cs.reverse (by rwa [List.head?_reverse]), List.reverse_reverse]

theorem splitAtFirst?_append {c : Char} {front : List Char} (absent : c ∉ front) (back : List Char) :
    splitAtFirst? c (front ++ c :: back) = some (front, back) := by
  induction front with
  | nil => simp [splitAtFirst?]
  | cons d front ih =>
    simp only [List.mem_cons, not_or] at absent
    simp [splitAtFirst?, Ne.symm absent.1, ih absent.2]

theorem splitAtFirst?_eq_none {c : Char} (absent : c ∉ cs) : splitAtFirst? c cs = none := by
  induction cs with
  | nil => rfl
  | cons d cs ih =>
    simp only [List.mem_cons, not_or] at absent
    simp [splitAtFirst?, Ne.symm absent.1, ih absent.2]

theorem not_isBlank_of_isDigit {c : Char} (digit : isDigit c = true) : isBlank c = false := by
  have range : 48 ≤ c.toNat ∧ c.toNat ≤ 57 := of_decide_eq_true digit
  simp only [isBlank, Bool.or_eq_false_iff, Bool.and_eq_false_imp, decide_eq_true_eq,
    decide_eq_false_iff_not, beq_eq_false_iff_ne]
  omega

theorem isDigit_of_mem_decimal {n : Nat} {c : Char} (member : c ∈ decimal n) : isDigit c = true := by
  have digit : decide ('0' ≤ c) && decide (c ≤ '9') :=
    Nat.isDigit_of_mem_toDigits (by decide) (by decide) member
  rwa [isDigit, Bool.decide_and]

theorem not_isBlank_of_mem_decimal {n : Nat} {c : Char} (member : c ∈ decimal n) : isBlank c = false :=
  not_isBlank_of_isDigit (isDigit_of_mem_decimal member)

/-- The blank in front of a number is no part of it. -/
theorem trim_decimal (n : Nat) : trim (' ' :: decimal n) = decimal n := by
  have around := trim_of_blank_around [' '] (decimal n) [] (List.forall_mem_singleton.mpr rfl)
    (List.forall_mem_nil _) (fun c first => not_isBlank_of_mem_decimal (List.mem_of_head? first))
    (fun c last => not_isBlank_of_mem_decimal (List.mem_of_getLast? last))
  rwa [List.append_nil] at around

theorem decimal_ne_nil (n : Nat) : decimal n ≠ [] := Nat.toDigits_ne_nil

theorem ofDigits_decimal (n : Nat) : ofDigits (decimal n) = n :=
  Nat.ofDigitChars_toDigits (by decide) (by decide)

/-- A word is read back from its digits. -/
theorem word?_decimal {n : Nat} (fits : n < wordLimit) : word? (decimal n) = some n := by
  have unsigned : ∀ rest, decimal n ≠ '+' :: rest := by
    intro rest signed
    have digit := isDigit_of_mem_decimal (n := n) (c := '+') (by simp [signed])
    contradiction
  have digits : (decimal n).all isDigit = true := List.all_eq_true.mpr fun c => isDigit_of_mem_decimal
  simp [word?, digits, decimal_ne_nil, ofDigits_decimal, fits]

end BuildServer.Text
