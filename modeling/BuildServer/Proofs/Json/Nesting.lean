import BuildServer.Proofs.Json.RoundTrip

/-! # How deep a document that is read is nested

Whatever the bytes, a document that is read has no more containers in one another than the reader has
room for. A reading under way fits: every document that an open container holds is nested no deeper
than the room that the containers around it leave, and each lexeme keeps that.
-/

namespace BuildServer.Json

open Document

theorem itemNesting_le_iff {ds : List Document} {n : Nat} :
    itemNesting ds ≤ n ↔ ∀ d ∈ ds, d.nesting ≤ n := by
  induction ds with
  | nil => simp [itemNesting]
  | cons d ds ih => rw [itemNesting, Nat.max_le, List.forall_mem_cons, ih]

theorem memberNesting_le_iff {members : List (String × Document)} {n : Nat} :
    memberNesting members ≤ n ↔ ∀ member ∈ members, member.2.nesting ≤ n := by
  induction members with
  | nil => simp [memberNesting]
  | cons member members ih =>
    obtain ⟨key, d⟩ := member
    rw [memberNesting, Nat.max_le, List.forall_mem_cons, ih]

/-- Documents in a container that has `outer` containers around it leave room for each other. -/
def Roomy (outer : Nat) (ds : List Document) : Prop :=
  outer < deepestNesting ∧ ∀ d ∈ ds, outer + 1 + d.nesting ≤ deepestNesting

/-- The documents that an open container holds. -/
def Frame.held : Frame → List Document
  | .item before => before
  | .member before _ => before.map (·.2)

/-- Open containers leave room for what they hold, each counting those around it. -/
def FramesFit : List Frame → Prop
  | [] => True
  | frame :: outer => Roomy outer.length frame.held ∧ FramesFit outer

/-- The container that a goal is about leaves room for what it holds; a finished document is nested no
deeper than the reader has room for. -/
def Goal.Fits (goal : Goal) (outer : Nat) : Prop :=
  match goal with
  | .value | .firstItem | .nextItem => True
  | .afterItem items => Roomy outer items
  | .firstKey => Roomy outer []
  | .nextKey members | .colon members _ | .afterMember members => Roomy outer (members.map (·.2))
  | .done d => d.nesting ≤ deepestNesting

/-- All that a reading holds leaves room for each other. -/
def Assembly.Fits (a : Assembly) : Prop := FramesFit a.frames ∧ a.goal.Fits a.frames.length

variable {frames : List Frame} {a b : Assembly} {lexeme : Lexeme}

theorem Roomy.cons {outer : Nat} {d : Document} {ds : List Document} (roomy : Roomy outer ds)
    (room : outer + 1 + d.nesting ≤ deepestNesting) : Roomy outer (d :: ds) :=
  ⟨roomy.1, List.forall_mem_cons.mpr ⟨room, roomy.2⟩⟩

theorem Roomy.array {outer : Nat} {items : List Document} (roomy : Roomy outer items) :
    outer + (Document.array items.reverse).nesting ≤ deepestNesting := by
  obtain ⟨room, each⟩ := roomy
  have items : itemNesting items.reverse ≤ deepestNesting - (outer + 1) :=
    itemNesting_le_iff.mpr fun d member => by
      have := each d (List.mem_reverse.mp member)
      omega
  rw [nesting]
  omega

theorem Roomy.object {outer : Nat} (members : List (String × Document))
    (roomy : Roomy outer (members.map (·.2))) :
    outer + (Document.object members.reverse).nesting ≤ deepestNesting := by
  obtain ⟨room, each⟩ := roomy
  have members : memberNesting members.reverse ≤ deepestNesting - (outer + 1) :=
    memberNesting_le_iff.mpr fun member inside => by
      have := each member.2 (List.mem_map_of_mem (List.mem_reverse.mp inside))
      omega
  rw [nesting]
  omega

theorem FramesFit.length_le (fit : FramesFit frames) : frames.length ≤ deepestNesting := by
  cases frames with
  | nil => exact Nat.zero_le _
  | cons frame outer => exact fit.1.1

/-- A finished value goes where there is room for it. -/
theorem complete_fits {d : Document} (fit : FramesFit frames)
    (room : frames.length + d.nesting ≤ deepestNesting) : (Assembly.complete frames d).Fits := by
  cases frames with
  | nil =>
    rw [List.length_nil, Nat.zero_add] at room
    exact ⟨trivial, room⟩
  | cons frame outer =>
    rw [List.length_cons] at room
    cases frame with
    | item items => exact ⟨fit.2, fit.1.cons room⟩
    | member members key => exact ⟨fit.2, fit.1.cons room⟩

/-- A container is opened only where there is room for it. -/
theorem value_fits (fit : FramesFit frames) (read : Assembly.value frames lexeme = .ok b) :
    b.Fits := by
  have scalar {d : Document} (flat : d.nesting = 0) : (Assembly.complete frames d).Fits :=
    complete_fits fit (by rw [flat]; exact fit.length_le)
  have empty (room : frames.length < deepestNesting) : Roomy frames.length [] :=
    ⟨room, fun d member => by cases member⟩
  obtain ⟨start, token⟩ := lexeme
  cases token with
  | null | bool | number | string =>
    obtain rfl := Except.ok.inj read
    exact scalar rfl
  | openBracket =>
    simp only [Assembly.value] at read
    split at read
    next room =>
      obtain rfl := Except.ok.inj read
      exact ⟨⟨empty room, fit⟩, trivial⟩
    next => cases read
  | openBrace =>
    simp only [Assembly.value] at read
    split at read
    next room =>
      obtain rfl := Except.ok.inj read
      exact ⟨fit, empty room⟩
    next => cases read
  | closeBracket | closeBrace | comma | colon | broken => cases read

theorem key_fits (members : List (String × Document)) (fit : FramesFit frames)
    (roomy : Roomy frames.length (members.map (·.2)))
    (read : Assembly.key frames members lexeme = .ok b) : b.Fits := by
  obtain ⟨start, token⟩ := lexeme
  cases token with
  | string s =>
    obtain rfl := Except.ok.inj read
    exact ⟨fit, roomy⟩
  | broken quoted fault => cases quoted <;> cases read
  | openBracket | closeBracket | openBrace | closeBrace | comma | colon | null | bool | number =>
    cases read

theorem step_keyDue {goal : Goal} {members : List (String × Document)} (due : goal.KeyDue members)
    (opens : lexeme.token ≠ .closeBrace) :
    Assembly.step ⟨frames, goal⟩ lexeme = Assembly.key frames members lexeme := by
  obtain ⟨start, token⟩ := lexeme
  rcases due with rfl | ⟨rfl, rfl⟩
  all_goals cases token <;> first
    | rfl
    | contradiction

/-- Each lexeme keeps a reading fit. -/
theorem step_fits (fits : a.Fits) (read : a.step lexeme = .ok b) : b.Fits := by
  obtain ⟨frames, goal⟩ := a
  obtain ⟨fit, goalFits⟩ := fits
  obtain ⟨start, token⟩ := lexeme
  cases goal with
  | value => exact value_fits fit read
  | firstItem =>
    by_cases closes : token = .closeBracket
    · subst closes
      obtain rfl := Except.ok.inj read
      cases frames with
      | nil => exact ⟨trivial, show 1 ≤ deepestNesting by decide⟩
      | cons frame outer => exact complete_fits fit.2 fit.1.1
    · rw [step_due (.inr (.inl rfl)) closes] at read
      exact value_fits fit read
  | nextItem =>
    by_cases closes : token = .closeBracket
    · subst closes
      cases read
    · rw [step_due (.inr (.inr rfl)) closes] at read
      exact value_fits fit read
  | afterItem items =>
    cases token with
    | comma =>
      obtain rfl := Except.ok.inj read
      exact ⟨⟨goalFits, fit⟩, trivial⟩
    | closeBracket =>
      obtain rfl := Except.ok.inj read
      exact complete_fits fit (Roomy.array goalFits)
    | _ => cases read
  | firstKey =>
    by_cases closes : token = .closeBrace
    · subst closes
      obtain rfl := Except.ok.inj read
      exact complete_fits fit (Roomy.object [] goalFits)
    · rw [step_keyDue (.inr ⟨rfl, rfl⟩) closes] at read
      exact key_fits [] fit goalFits read
  | nextKey members =>
    by_cases closes : token = .closeBrace
    · subst closes
      cases read
    · rw [step_keyDue (.inl rfl) closes] at read
      exact key_fits members fit goalFits read
  | colon members key =>
    cases token with
    | colon =>
      obtain rfl := Except.ok.inj read
      exact ⟨⟨goalFits, fit⟩, trivial⟩
    | _ => cases read
  | afterMember members =>
    cases token with
    | comma =>
      obtain rfl := Except.ok.inj read
      exact ⟨fit, goalFits⟩
    | closeBrace =>
      obtain rfl := Except.ok.inj read
      exact complete_fits fit (Roomy.object members goalFits)
    | _ => cases read
  | done d => cases read

theorem foldlM_fits {lexemes : List Lexeme} (fits : a.Fits)
    (read : lexemes.foldlM Assembly.step a = .ok b) : b.Fits := by
  induction lexemes generalizing a with
  | nil =>
    obtain rfl := Except.ok.inj read
    exact fits
  | cons lexeme lexemes ih =>
    rw [List.foldlM_cons] at read
    cases first : a.step lexeme with
    | error fault =>
      rw [first] at read
      cases read
    | ok next =>
      rw [first] at read
      exact ih (step_fits fits first) read

/-- A document that is read is nested no deeper than the reader has room for. -/
theorem nesting_of_read {bytes : List UInt8} {d : Document} (read : Document.read bytes = .ok d) :
    d.nesting ≤ deepestNesting := by
  rw [Document.read] at read
  cases assembled : (lexemes bytes).foldlM Assembly.step {} with
  | error fault =>
    rw [assembled] at read
    cases read
  | ok a =>
    rw [assembled] at read
    have fits : a.Fits := foldlM_fits (a := ⟨[], .value⟩) ⟨trivial, trivial⟩ assembled
    obtain ⟨frames, goal⟩ := a
    cases goal with
    | done e =>
      obtain rfl := Except.ok.inj read
      exact fits.2
    | _ => cases read

end BuildServer.Json
