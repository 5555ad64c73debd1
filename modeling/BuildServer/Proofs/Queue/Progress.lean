import BuildServer.Proofs.Queue.Run

/-! # The queue neither stalls nor runs over

The job at the front conflicts with nothing, so a scan that the limit does not stop marks it, and a
scan that the limit stops has jobs running already. What a release needs is therefore there as long
as the queue holds anything, and every release takes exactly one item out. Nothing of this asks that
sequences are told apart: where they are not, a release may take another item of its sequence, and
then fewer jobs are counted as running than are marked, never more.
-/

namespace BuildServer.Queue

variable {K J : Type} [Dependency K]

/-- Releases of running jobs one after the other, while nothing is handed in. -/
inductive Draining : Queue K J → List UInt64 → Queue K J → Prop
  | done {q : Queue K J} : Draining q [] q
  | release {q last : Queue K J} {later : List UInt64} (item : Item K J) (present : item ∈ q.items)
      (runs : item.job = none) (rest : Draining (q.release item.sequence).2 later last) :
      Draining q (item.sequence :: later) last

/-- No more jobs are counted as running than are marked, and some job is marked if there is any. -/
structure Lively (q : Queue K J) : Prop where
  counted : q.running ≤ (runningSequences q.items).length
  awake : q.items ≠ [] → runningSequences q.items ≠ []

/-- Every job that a scan starts is counted. -/
theorem running_scan (limit : Option Limit) (earlier : List K) (running : Nat)
    (items : List (Item K J)) : (scan limit earlier running items).running =
      running + (scan limit earlier running items).started.length := by
  induction items generalizing earlier running with
  | nil => rfl
  | cons item rest ih =>
    simp only [scan]
    split
    · rfl
    · split
      · exact ih _ _
      · split
        · exact ih _ _
        · simp only [Scan.start, ih, List.length_cons]
          omega

/-- A scan that the limit lets begin leaves the front of the queue marked. -/
theorem runningSequences_scan_ne_nil {limit : Option Limit} {running : Nat}
    (free : isFull limit running = false) (item : Item K J) (rest : List (Item K J)) :
    runningSequences (scan limit [] running (item :: rest)).items ≠ [] := by
  apply List.ne_nil_of_mem (a := item.sequence)
  rw [mem_runningSequences]
  simp only [scan, free, List.any_nil, Bool.false_eq_true, if_false]
  split
  · exact ⟨item, List.mem_cons_self .., by assumption, rfl⟩
  · exact ⟨item.running, List.mem_cons_self .., rfl, rfl⟩

/-- A limit that has been reached has jobs running. -/
theorem pos_of_isFull {limit : Option Limit} {running : Nat} (full : isFull limit running = true) :
    0 < running := by
  cases limit with
  | none => contradiction
  | some l => exact Nat.lt_of_lt_of_le l.positive (of_decide_eq_true full)

/-- Every job that is handed out is counted. -/
theorem running_takeReady (q : Queue K J) :
    (takeReady q).2.running = q.running + (takeReady q).1.length :=
  running_scan q.limit [] q.running q.items

/-- Every job that is handed out is marked. -/
theorem length_runningSequences_takeReady (q : Queue K J) :
    (runningSequences (takeReady q).2.items).length =
      (runningSequences q.items).length + (takeReady q).1.length := by
  obtain ⟨chosen, began, scanned⟩ := takeReady_scanned q
  have marked := scanned.running_perm.length_eq
  rw [List.length_append, List.length_map] at marked
  rw [marked, began, List.length_map, Nat.add_comm]

theorem lively_takeReady {q : Queue K J} (counted : q.running ≤ (runningSequences q.items).length) :
    Lively (takeReady q).2 := by
  have count := running_takeReady q
  have marked := length_runningSequences_takeReady q
  refine ⟨by omega, fun nonempty => ?_⟩
  cases full : isFull q.limit q.running with
  | true =>
    have positive := pos_of_isFull full
    exact List.ne_nil_of_length_pos (by omega)
  | false =>
    cases items : q.items with
    | nil =>
      obtain ⟨chosen, -, scanned⟩ := takeReady_scanned q
      have empty : (takeReady q).2.items.map Item.entry = [] := by rw [scanned.entries, items]; rfl
      exact absurd (List.map_eq_nil_iff.mp empty) nonempty
    | cons item rest =>
      have front := runningSequences_scan_ne_nil full item rest
      rwa [← items] at front

theorem lively_submit {q : Queue K J} (lively : Lively q) (key : K) (job : J) :
    Lively (q.submit key job).2 := by
  apply lively_takeReady
  simpa [runningSequences] using lively.counted

theorem lively_release {q : Queue K J} (lively : Lively q) (sequence : UInt64) :
    Lively (q.release sequence).2 := by
  apply lively_takeReady
  have fewer := (runningSequences_subperm q.items sequence).length_le
  have counted := lively.counted
  simp only [List.length_cons] at fewer ⊢
  omega

/-- Every run keeps the queue lively, however often sequences have been handed out. -/
theorem Run.lively {limit : Option Limit} {events : List (Event K J)} {q : Queue K J}
    (run : Run limit events q) : Lively q := by
  induction run with
  | start => exact ⟨Nat.zero_le _, fun nonempty => absurd rfl nonempty⟩
  | submit _ key job ih => exact lively_submit ih key job
  | release _ item _ _ ih => exact lively_release ih item.sequence

/-- The release of a job that is there takes exactly one item out. -/
theorem length_release {q : Queue K J} {item : Item K J} (present : item ∈ q.items) :
    q.items.length = (q.release item.sequence).2.items.length + 1 := by
  obtain ⟨chosen, -, scanned⟩ := release_scanned q item.sequence
  have length := congrArg List.length scanned.entries
  simp only [List.length_map] at length
  have erased := List.length_eraseP_of_mem (p := fun other => other.sequence == item.sequence) present
    (beq_self_eq_true _)
  have positive := List.length_pos_of_mem present
  omega

namespace Draining

variable {q last : Queue K J} {sequences : List UInt64}

theorem length (draining : Draining q sequences last) :
    q.items.length = sequences.length + last.items.length := by
  induction draining with
  | done => simp
  | release item present _ _ ih =>
    rw [length_release present, ih, List.length_cons]
    omega

theorem lively (draining : Draining q sequences last) (lively : Lively q) : Lively last := by
  induction draining with
  | done => exact lively
  | release item _ _ _ ih => exact ih (lively_release lively item.sequence)

/-- Releases can go on until nothing is left. -/
theorem exists_empty (lively : Lively q) : ∃ sequences last, Draining q sequences last ∧
    last.items = [] := by
  generalize left : q.items.length = n
  induction n generalizing q with
  | zero => exact ⟨[], q, .done, List.eq_nil_of_length_eq_zero left⟩
  | succ n ih =>
    have nonempty : q.items ≠ [] := List.ne_nil_of_length_eq_add_one left
    obtain ⟨sequence, runs⟩ := List.exists_mem_of_ne_nil _ (lively.awake nonempty)
    obtain ⟨item, present, marked, -⟩ := mem_runningSequences.mp runs
    have one := length_release present
    obtain ⟨later, last, rest, empty⟩ := ih (lively_release lively item.sequence) (by omega)
    exact ⟨_, last, .release item present marked rest, empty⟩

end Draining

end BuildServer.Queue
