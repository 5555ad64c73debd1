import BuildServer.Proofs.Json.Numeral

/-! # Scanning what stands in front

`Runs` says that a scan in one mode, with certain bytes in front of it, comes to another mode and
adds certain tokens. What follows the bytes matters to numerals alone, which end only where a byte
that cannot continue them or the end of the text shows it. Two runs in a row are a run.
-/

namespace BuildServer.Json

namespace Scan

/-- The tokens so far, latest first. -/
def tokens (s : Scan) : List Token := s.lexemes.map (·.token)

/-- The lexemes that a scan and the bytes still to come make. -/
def read (s : Scan) (bytes : List UInt8) : List Lexeme := (bytes.foldl step s).finish

@[simp] theorem read_cons (s : Scan) (b : UInt8) (bytes : List UInt8) :
    s.read (b :: bytes) = (s.step b).read bytes := rfl

theorem read_append (s : Scan) (first second : List UInt8) :
    s.read (first ++ second) = (first.foldl step s).read second := by
  simp only [read, List.foldl_append]

end Scan

/-- Scans in mode `before` come to mode `after` and add `tokens` as the bytes are taken, if `rest` is
what follows. -/
def Runs (before : ScanMode) (bytes : List UInt8) (after : ScanMode) (tokens : List Token)
    (rest : List UInt8) : Prop :=
  ∀ s : Scan, s.mode = before → ∃ s' : Scan, s'.mode = after ∧
    s'.tokens = tokens.reverse ++ s.tokens ∧ s.read (bytes ++ rest) = s'.read rest

variable {before between after : ScanMode} {first second rest : List UInt8} {ts us : List Token}

theorem Runs.nil (mode : ScanMode) (rest : List UInt8) : Runs mode [] mode [] rest :=
  fun s within => ⟨s, within, rfl, rfl⟩

theorem Runs.append (front : Runs before first between ts (second ++ rest))
    (back : Runs between second after us rest) : Runs before (first ++ second) after (ts ++ us) rest := by
  intro s within
  obtain ⟨s₁, within₁, tokens₁, read₁⟩ := front s within
  obtain ⟨s₂, within₂, tokens₂, read₂⟩ := back s₁ within₁
  refine ⟨s₂, within₂, ?_, ?_⟩
  · rw [tokens₂, tokens₁, List.reverse_append, List.append_assoc]
  · rw [List.append_assoc, read₁, read₂]

/-- A run is known by what each of its scans comes to, if nothing depends on what follows. -/
theorem Runs.of_foldl (lands : ∀ s : Scan, s.mode = before →
    (first.foldl Scan.step s).mode = after ∧
      (first.foldl Scan.step s).tokens = ts.reverse ++ s.tokens) : Runs before first after ts rest :=
  fun s within => ⟨_, (lands s within).1, (lands s within).2, s.read_append first rest⟩

/-- A byte that changes the mode alone. -/
theorem Runs.into {b : UInt8} (turns : ∀ s : Scan, s.mode = before → s.step b = s.into after) :
    Runs before [b] after [] rest :=
  .of_foldl fun s within => by
    rw [List.foldl_cons, List.foldl_nil, turns s within]
    exact ⟨rfl, rfl⟩

/-- The token that a byte is by itself. -/
def mark? (b : UInt8) : Option Token :=
  match b.toNat with
  | 91 => some .openBracket
  | 93 => some .closeBracket
  | 123 => some .openBrace
  | 125 => some .closeBrace
  | 44 => some .comma
  | 58 => some .colon
  | _ => none

theorem runs_mark {b : UInt8} {t : Token} (mark : mark? b = some t) :
    Runs .blank [b] .blank [t] rest := by
  refine .of_foldl fun s blank => ?_
  simp only [List.foldl_cons, List.foldl_nil, Scan.step, blank, Scan.fromBlank]
  simp only [mark?] at mark
  split at mark <;> first
    | contradiction
    | next same => obtain rfl := Option.some.inj mark; rw [same]; exact ⟨rfl, rfl⟩

theorem runs_null : Runs .blank (Text.encode "null".toList) .blank [.null] rest := by
  refine .of_foldl fun s blank => ?_
  obtain ⟨offset, start, mode, lexemes⟩ := s
  subst blank
  exact ⟨rfl, rfl⟩

theorem runs_bool (b : Bool) :
    Runs .blank (Text.encode (if b then "true".toList else "false".toList)) .blank [.bool b] rest := by
  refine .of_foldl fun s blank => ?_
  obtain ⟨offset, start, mode, lexemes⟩ := s
  subst blank
  cases b <;> exact ⟨rfl, rfl⟩

/-- What may follow a value: nothing, a comma, or the end of a container. -/
def Delimited (rest : List UInt8) : Prop := ∀ b ∈ rest.head?, b = 44 ∨ b = 93 ∨ b = 125

theorem fromBlank_start {b : UInt8} {draft : NumeralDraft} (starts : start? b = some draft)
    (s : Scan) : s.fromBlank b = s.begin (.numeral draft) := by
  simp only [Scan.fromBlank]
  simp only [start?] at starts
  split at starts
  next minus =>
    obtain rfl := Option.some.inj starts
    simp only [minus]
  next unsigned =>
    obtain ⟨d, digit, rfl⟩ := Option.map_eq_some_iff.mp starts
    have between : 48 ≤ b.toNat ∧ b.toNat ≤ 57 := by
      simp only [digit?] at digit
      split at digit
      · assumption
      · contradiction
    split <;> first
      | omega
      | simp [digit, wholeDraft]

theorem runs_draft {bytes : List UInt8} {draft final : NumeralDraft}
    (extended : bytes.foldlM Scan.extendNumeral? draft = some final) :
    Runs (.numeral draft) bytes (.numeral final) [] rest := by
  induction bytes generalizing draft with
  | nil =>
    obtain rfl := Option.some.inj extended
    exact Runs.nil _ _
  | cons b bytes ih =>
    obtain ⟨next, first, others⟩ := Option.bind_eq_some_iff.mp extended
    have one : Runs (.numeral draft) [b] (.numeral next) [] (bytes ++ rest) :=
      .into fun s within => by simp only [Scan.step, within, Scan.fromNumeral, first]
    exact one.append (ih others)

theorem endNumeral_number {s : Scan} {draft : NumeralDraft} {n : Number}
    (token : Scan.numeralToken draft s.offset = .number n) : s.endNumeral draft =
      { s with mode := .blank, lexemes := ⟨s.start, .number n⟩ :: s.lexemes } := by
  simp only [Scan.endNumeral, token]

theorem endNumeral_broken {s : Scan} {draft : NumeralDraft} {quoted : Bool} {fault : Fault}
    (token : Scan.numeralToken draft s.offset = .broken quoted fault) : s.endNumeral draft =
      { s with mode := .stopped, lexemes := ⟨s.start, .broken quoted fault⟩ :: s.lexemes } := by
  simp only [Scan.endNumeral, token]

/-- What no numeral goes on with: nothing, or a byte that is no part of one. -/
def EndsNumeral (rest : List UInt8) : Prop :=
  ∀ b ∈ rest.head?, digit? b = none ∧ ∀ draft, Scan.extendNumeral? draft b = none

theorem Delimited.endsNumeral (delimited : Delimited rest) : EndsNumeral rest := by
  intro b first
  rcases delimited b first with rfl | rfl | rfl <;>
    refine ⟨rfl, fun draft => ?_⟩ <;> simp [Scan.extendNumeral?, digit?] <;> cases draft.part <;> rfl

/-- A complete numeral ends at a byte that is no part of it, which is then read on its own. -/
theorem runs_ended {draft : NumeralDraft} {n : Number} (complete : draft.part.complete = true)
    (denoted : draft.numeral.number? = some n) (ends : EndsNumeral rest) :
    Runs (.numeral draft) [] .blank [.number n] rest := by
  intro s within
  have token : Scan.numeralToken draft s.offset = .number n := by
    simp only [Scan.numeralToken, denoted]
  have ended := endNumeral_number token
  refine ⟨s.endNumeral draft, by rw [ended], by rw [ended]; rfl, ?_⟩
  cases rest with
  | nil =>
    simp only [List.append_nil, Scan.read, List.foldl_nil, Scan.finish, within, complete, token,
      if_true, ended]
  | cons b rest =>
    obtain ⟨noDigit, stuck⟩ := ends b rfl
    simp only [List.nil_append, Scan.read_cons]
    congr 1
    simp only [Scan.step, within, Scan.fromNumeral, stuck draft, noDigit, complete, ended]
    simp

/-- A numeral is scanned as the number that it denotes, where no part of it follows. -/
theorem runs_numeral {bytes : List UInt8} {draft : NumeralDraft} {n : Number}
    (drafted : draft? bytes = some draft) (complete : draft.part.complete = true)
    (denoted : draft.numeral.number? = some n) (ends : EndsNumeral rest) :
    Runs .blank bytes .blank [.number n] rest := by
  cases bytes with
  | nil => cases drafted
  | cons b bytes =>
    obtain ⟨first, starts, extended⟩ := Option.bind_eq_some_iff.mp drafted
    have begun : Runs .blank [b] (.numeral first) [] (bytes ++ rest) := .of_foldl fun s blank => by
      simp only [List.foldl_cons, List.foldl_nil, Scan.step, blank, fromBlank_start starts]
      exact ⟨rfl, rfl⟩
    have whole := (runs_draft extended).append (runs_ended complete denoted ends)
    rw [List.append_nil] at whole
    exact begun.append whole

/-- A legible number is scanned where it is delimited. -/
theorem runs_number {n : Number} (legible : n.Legible) (delimited : Delimited rest) :
    Runs .blank (Text.encode n.text) .blank [.number n] rest := by
  obtain ⟨draft, drafted, complete, denoted⟩ := legible
  exact runs_numeral drafted complete denoted delimited.endsNumeral

theorem read_stopped {s : Scan} (stopped : s.mode = .stopped) (bytes : List UInt8) :
    s.read bytes = s.lexemes.reverse := by
  induction bytes with
  | nil => simp only [Scan.read, List.foldl_nil, Scan.finish, stopped]
  | cons b bytes ih =>
    rw [Scan.read_cons, show s.step b = s by simp only [Scan.step, stopped], ih]

/-- A numeral byte between lexemes begins a numeral or is a fault. -/
theorem fromBlank_numeral {b : UInt8} (written : b ∈ numeralBytes) (s : Scan) :
    (∃ draft, start? b = some draft ∧ s.fromBlank b = s.begin (.numeral draft)) ∨
      ∃ start fault, (s.fromBlank b).mode = .stopped ∧
        (s.fromBlank b).lexemes = ⟨start, .broken false fault⟩ :: s.lexemes := by
  cases starts : start? b with
  | some draft => exact .inl ⟨draft, rfl, fromBlank_start starts s⟩
  | none =>
    have others : ∀ b ∈ numeralBytes, start? b = none → b = 43 ∨ b = 46 ∨ b = 101 := by
      decide +kernel
    rcases others b written starts with rfl | rfl | rfl <;> exact .inr ⟨_, _, rfl, rfl⟩

theorem numeralToken_cases (draft : NumeralDraft) (offset : Nat) :
    (∃ fault, Scan.numeralToken draft offset = .broken false fault) ∨
      ∃ n, Scan.numeralToken draft offset = .number n ∧ draft.numeral.number? = some n := by
  simp only [Scan.numeralToken]
  cases denoted : draft.numeral.number? with
  | none => exact .inl ⟨_, rfl⟩
  | some n => exact .inr ⟨n, rfl, rfl⟩

/-- Numeral bytes after the beginning of a numeral make a fault, or a number first; if the number is all
they make, they are its numeral. -/
theorem read_numeral {bytes : List UInt8} (written : ∀ b ∈ bytes, b ∈ numeralBytes) {s : Scan}
    {draft : NumeralDraft} (within : s.mode = .numeral draft) :
    ∃ lexeme more, s.read bytes = s.lexemes.reverse ++ lexeme :: more ∧
      ((∃ quoted fault, lexeme.token = .broken quoted fault) ∨
        ∃ n, lexeme.token = .number n ∧ (more = [] → ∃ final,
          bytes.foldlM Scan.extendNumeral? draft = some final ∧ final.part.complete = true ∧
            final.numeral.number? = some n)) := by
  induction bytes generalizing s draft with
  | nil =>
    simp only [Scan.read, List.foldl_nil, Scan.finish, within]
    by_cases complete : draft.part.complete = true
    · rw [if_pos complete]
      refine ⟨_, [], List.reverse_cons, ?_⟩
      rcases numeralToken_cases draft s.offset with ⟨fault, broken⟩ | ⟨n, token, denoted⟩
      · exact .inl ⟨false, fault, broken⟩
      · exact .inr ⟨n, token, fun _ => ⟨draft, rfl, complete, denoted⟩⟩
    · rw [if_neg complete]
      exact ⟨_, [], List.reverse_cons, .inl ⟨_, _, rfl⟩⟩
  | cons b bytes ih =>
    have others : ∀ c ∈ bytes, c ∈ numeralBytes := fun c member => written c (.tail _ member)
    rw [Scan.read_cons]
    simp only [Scan.step, within, Scan.fromNumeral]
    cases extended : Scan.extendNumeral? draft b with
    | some next =>
      obtain ⟨lexeme, more, reads, kinds⟩ := ih others (s := s.into (.numeral next)) rfl
      refine ⟨lexeme, more, reads, ?_⟩
      rwa [List.foldlM_cons, extended]
    | none =>
      by_cases complete : (draft.part.complete && !(draft.part == .zero && (digit? b).isSome)) = true
      · simp only [if_pos complete]
        rcases numeralToken_cases draft s.offset with ⟨fault, broken⟩ | ⟨n, token, -⟩
        · simp only [endNumeral_broken broken]
          exact ⟨_, [], by rw [read_stopped rfl, List.reverse_cons], .inl ⟨false, fault, rfl⟩⟩
        · simp only [endNumeral_number token]
          refine ⟨⟨s.start, .number n⟩, ?_⟩
          rcases fromBlank_numeral (written b (.head _))
            { s with mode := .blank, lexemes := ⟨s.start, .number n⟩ :: s.lexemes } with
            ⟨begun, -, begins⟩ | ⟨place, fault, stops, fails⟩
          · obtain ⟨lexeme, more, reads, -⟩ := ih others (s := Scan.begin
              { s with mode := .blank, lexemes := ⟨s.start, .number n⟩ :: s.lexemes } _) rfl
            refine ⟨lexeme :: more, ?_, .inr ⟨n, rfl, fun alone => by cases alone⟩⟩
            rw [begins, reads, Scan.begin, List.reverse_cons, List.append_assoc, List.singleton_append]
          · refine ⟨[⟨place, .broken false fault⟩], ?_, .inr ⟨n, rfl, fun alone => by cases alone⟩⟩
            rw [read_stopped stops, fails, List.reverse_cons, List.reverse_cons, List.append_assoc,
              List.singleton_append]
      · simp only [if_neg complete]
        exact ⟨_, [], by rw [read_stopped rfl, Scan.fail, List.reverse_cons], .inl ⟨_, _, rfl⟩⟩

end BuildServer.Json
