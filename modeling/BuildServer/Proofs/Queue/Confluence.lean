import Mathlib.Data.List.Perm.Lattice
import BuildServer.Proofs.Queue.Eager

/-! # Without a limit the schedule leaves no trace

If there is no limit, the marks say nothing that the keys do not say: a job runs exactly when nothing
in front of it conflicts with it. What is left in the queue depends on what was handed in and on what
was released, but not on the order in which either took turns with the other, so neither do the marks.
All this is so however often sequences are handed out. The counter alone needs them to be distinct,
since a release may otherwise take out a job that waits and count one less as running.
-/

namespace BuildServer.Queue

/-- What is left of entries when the first one of each of the given sequences is taken out. -/
def remaining {K : Type} (entries : List (UInt64 × K)) (released : List UInt64) : List (UInt64 × K) :=
  released.foldl (fun left n => left.eraseP fun entry => entry.1 == n) entries

section Remaining

variable {K : Type} {entries : List (UInt64 × K)} {released : List UInt64}

theorem eraseP_eraseP_comm (entries : List (UInt64 × K)) (m n : UInt64) :
    (entries.eraseP fun entry => entry.1 == m).eraseP (fun entry => entry.1 == n) =
      (entries.eraseP fun entry => entry.1 == n).eraseP fun entry => entry.1 == m := by
  by_cases same : m = n
  · rw [same]
  · refine List.eraseP_comm fun entry _ => ?_
    by_cases first : entry.1 = m
    · exact .inr (by simpa [first] using same)
    · exact .inl (by simpa using first)

/-- The order of the releases makes no difference. -/
theorem remaining_perm {other : List UInt64} (perm : released.Perm other)
    (entries : List (UInt64 × K)) : remaining entries released = remaining entries other :=
  have : RightCommutative fun (left : List (UInt64 × K)) n => left.eraseP fun entry => entry.1 == n :=
    ⟨fun left m n => eraseP_eraseP_comm left m n⟩
  perm.foldl_eq entries

theorem map_fst_eraseP (entries : List (UInt64 × K)) (n : UInt64) :
    (entries.eraseP fun entry => entry.1 == n).map Prod.fst = (entries.map Prod.fst).erase n := by
  induction entries with
  | nil => rfl
  | cons entry entries ih =>
    by_cases first : entry.1 = n
    · simp [first]
    · simp [first, ih]

/-- An entry that comes last stays last, if the releases take out entries that were there before. -/
theorem remaining_append (entry : UInt64 × K) (present : released.Subperm (entries.map Prod.fst)) :
    remaining (entries ++ [entry]) released = remaining entries released ++ [entry] := by
  induction released generalizing entries with
  | nil => rfl
  | cons n released ih =>
    obtain ⟨first, member, same⟩ := List.mem_map.mp (present.subset (List.mem_cons_self ..))
    have later := present.erase n
    rw [List.erase_cons_head, ← map_fst_eraseP] at later
    rw [remaining, List.foldl_cons, List.eraseP_append_left (by simpa using same) _ member]
    exact ih later

end Remaining

variable {K J : Type}

theorem map_entry_eraseP (items : List (Item K J)) (n : UInt64) :
    (items.eraseP fun item => item.sequence == n).map Item.entry =
      (items.map Item.entry).eraseP fun entry => entry.1 == n := by
  rw [List.eraseP_map]
  rfl

theorem map_sequence_entry (items : List (Item K J)) :
    (items.map Item.entry).map Prod.fst = items.map (·.sequence) := List.map_map

theorem map_sequence_eraseP (items : List (Item K J)) (n : UInt64) :
    (items.eraseP fun item => item.sequence == n).map (·.sequence) =
      (items.map (·.sequence)).erase n := by
  rw [← map_sequence_entry, map_entry_eraseP, map_fst_eraseP, map_sequence_entry]

variable [Dependency K]

/-- Sequences are handed out in order, over and over again. -/
theorem Run.numbered {limit : Option Limit} {events : List (Event K J)} {q : Queue K J}
    (run : Run limit events q) :
    q.nextSequence = UInt64.ofNat (submissions events).length ∧
    (submissions events).map (·.sequence) =
      (List.range (submissions events).length).map UInt64.ofNat := by
  induction run with
  | start => exact ⟨rfl, rfl⟩
  | submit _ key job ih =>
    simp only [submissions_append, submissions_submitted, submissions_startEvents, List.length_append,
      List.length_singleton, List.range_succ, List.map_append, List.map_singleton]
    exact ⟨by rw [submit_nextSequence, ih.1]; simp, by rw [ih.2, ih.1]⟩
  | release _ item _ _ ih =>
    simpa only [submissions_append, submissions_released, submissions_startEvents, List.append_nil,
      release_nextSequence] using ih

/-- Whatever was handed in has been taken out by a release or is still there. -/
theorem Run.accounted {limit : Option Limit} {events : List (Event K J)} {q : Queue K J}
    (run : Run limit events q) :
    ((submissions events).map (·.sequence)).Perm (releases events ++ q.items.map (·.sequence)) := by
  induction run with
  | start => exact .nil
  | @submit events q _ key job ih =>
    obtain ⟨chosen, -, scanned⟩ := submit_scanned q key job
    rw [← map_sequence_entry, scanned.entries, map_sequence_entry]
    simp only [submissions_append, submissions_submitted, submissions_startEvents, releases_append,
      releases_submitted, releases_startEvents, List.map_append, List.map_cons, List.map_nil,
      List.append_nil, ← List.append_assoc]
    exact ih.append_right _
  | @release events q _ item present _ ih =>
    obtain ⟨chosen, -, scanned⟩ := release_scanned q item.sequence
    have taken := List.perm_cons_erase (List.mem_map_of_mem (f := (·.sequence)) present)
    rw [← map_sequence_entry, scanned.entries, map_sequence_entry, map_sequence_eraseP]
    simp only [submissions_append, submissions_released, submissions_startEvents, releases_append,
      releases_released, releases_startEvents, List.append_nil, List.append_assoc,
      List.singleton_append]
    exact ih.trans (taken.append_left _)

/-- What is in the queue are the submissions without those that the releases took out. -/
theorem Run.entries_eq {limit : Option Limit} {events : List (Event K J)} {q : Queue K J}
    (run : Run limit events q) :
    q.items.map Item.entry = remaining ((submissions events).map Submission.entry) (releases events) := by
  induction run with
  | start => rfl
  | @submit events q run key job ih =>
    obtain ⟨chosen, -, scanned⟩ := submit_scanned q key job
    have taken : (releases events).Subperm (((submissions events).map Submission.entry).map Prod.fst) := by
      rw [List.map_map]
      exact (List.sublist_append_left _ _).subperm.trans run.accounted.symm.subperm
    rw [scanned.entries, List.map_append, ih]
    simp only [submissions_append, submissions_submitted, submissions_startEvents, releases_append,
      releases_submitted, releases_startEvents, List.map_append, List.map_cons, List.map_nil,
      List.append_nil]
    rw [remaining_append _ taken]
    rfl
  | @release events q _ item _ _ ih =>
    obtain ⟨chosen, -, scanned⟩ := release_scanned q item.sequence
    rw [scanned.entries, map_entry_eraseP, ih]
    simp only [submissions_append, submissions_released, submissions_startEvents, releases_append,
      releases_released, releases_startEvents, List.append_nil]
    rw [remaining, remaining, List.foldl_append]
    rfl

theorem Run.clear {limit : Option Limit} {events : List (Event K J)} {q : Queue K J}
    (run : Run limit events q) : Clear q.items := by
  induction run with
  | start => exact .nil
  | submit _ key job ih => exact clear_submit ih key job
  | release _ item _ _ ih => exact clear_release ih item.sequence

/-- Without a limit, exactly the jobs run that nothing holds. -/
theorem Run.runsAt_iff {events : List (Event K J)} {q : Queue K J} (run : Run none events q) {i : Nat}
    (within : i < q.items.length) : RunsAt q.items i ↔ ¬ HeldAt q.items i := by
  have there : q.items[i]? = some q.items[i] := List.getElem?_eq_getElem within
  constructor
  · rintro ⟨item, place, runs⟩ ⟨same, again, h, less, other, found, conflict⟩
    obtain rfl := Option.some.inj (place.symm.trans again)
    obtain ⟨before, rfl⟩ := List.getElem?_eq_some_iff.mp found
    obtain ⟨_, rfl⟩ := List.getElem?_eq_some_iff.mp place
    have free := List.pairwise_iff_getElem.mp run.clear h i before within less runs
    rw [conflict] at free
    contradiction
  · intro free
    by_contra stands
    refine free ((run.full_or_held.resolve_left ?_) i ⟨_, there, fun runs => stands ⟨_, there, runs⟩⟩)
    rw [run.limit_eq]
    exact Bool.false_ne_true

variable {J' : Type}

omit [Dependency K] in
theorem exists_of_entries_eq {items : List (Item K J)} {others : List (Item K J')}
    (same : items.map Item.entry = others.map Item.entry) {i : Nat} {item : Item K J}
    (there : items[i]? = some item) : ∃ other, others[i]? = some other ∧ other.entry = item.entry := by
  have place := congrArg (·[i]?) same
  simp only [List.getElem?_map, there, Option.map_some] at place
  exact Option.map_eq_some_iff.mp place.symm

/-- What holds a job are the keys in front of it. -/
theorem HeldAt.of_entries_eq {items : List (Item K J)} {others : List (Item K J')}
    (same : items.map Item.entry = others.map Item.entry) {i : Nat} (held : HeldAt items i) :
    HeldAt others i := by
  obtain ⟨item, there, h, less, front, found, conflict⟩ := held
  obtain ⟨item', there', entry⟩ := exists_of_entries_eq same there
  obtain ⟨front', found', frontEntry⟩ := exists_of_entries_eq same found
  refine ⟨item', there', h, less, front', found', ?_⟩
  rwa [show item'.key = item.key from congrArg Prod.snd entry,
    show front'.key = front.key from congrArg Prod.snd frontEntry]

omit [Dependency K] in
theorem runningSequences_eq_of_runsAt {items : List (Item K J)} {others : List (Item K J')}
    (same : items.map Item.entry = others.map Item.entry)
    (marks : ∀ i < items.length, RunsAt items i ↔ RunsAt others i) :
    runningSequences items = runningSequences others := by
  induction items generalizing others with
  | nil => rw [List.map_eq_nil_iff.mp same.symm]; rfl
  | cons item items ih =>
    cases others with
    | nil => contradiction
    | cons other others =>
      obtain ⟨entry, rest⟩ := List.cons.inj same
      have later := ih rest fun i within => marks (i + 1) (Nat.succ_lt_succ within)
      have first : item.job = none ↔ other.job = none := by
        simpa [RunsAt] using marks 0 (Nat.zero_lt_succ _)
      have sequence : item.sequence = other.sequence := congrArg Prod.fst entry
      simp only [runningSequences] at later
      by_cases runs : item.job = none
      · simp [runningSequences, runs, first.mp runs, sequence, later]
      · simp [runningSequences, runs, mt first.mpr runs, later]

/-- Submissions with the same keys have the same sequences as well. -/
theorem Run.entries_of_keys {limit limit' : Option Limit} {events : List (Event K J)}
    {events' : List (Event K J')} {q : Queue K J} {q' : Queue K J'} (run : Run limit events q)
    (other : Run limit' events' q')
    (keys : (submissions events).map (·.key) = (submissions events').map (·.key)) :
    (submissions events).map Submission.entry = (submissions events').map Submission.entry := by
  have count : (submissions events).length = (submissions events').length := by
    simpa using congrArg List.length keys
  have sequences : (submissions events).map (·.sequence) = (submissions events').map (·.sequence) := by
    rw [run.numbered.2, other.numbered.2, count]
  calc (submissions events).map Submission.entry
      = ((submissions events).map (·.sequence)).zip ((submissions events).map (·.key)) :=
        List.zip_map'.symm
    _ = ((submissions events').map (·.sequence)).zip ((submissions events').map (·.key)) := by
        rw [sequences, keys]
    _ = (submissions events').map Submission.entry := List.zip_map'

/-- Without a limit, a job runs exactly when nothing in front of it conflicts with it. So if two runs
were handed the same keys in the same order and have released the same sequences, in whatever order and
however mixed with the submissions, then the same is left in their queues, the same of it runs and
the next sequence is the same; and the counters agree as long as no sequence is handed out twice. -/
theorem schedules_confluent :
    (∀ (events : List (Event K J)) (q : Queue K J), Run none events q →
      ∀ i < q.items.length, RunsAt q.items i ↔ ¬ HeldAt q.items i) ∧
    ∀ (events : List (Event K J)) (events' : List (Event K J')) (q : Queue K J) (q' : Queue K J'),
      Run none events q → Run none events' q' →
      (submissions events).map (·.key) = (submissions events').map (·.key) →
      (releases events).Perm (releases events') →
      q.items.map Item.entry = q'.items.map Item.entry ∧
      runningSequences q.items = runningSequences q'.items ∧ q.nextSequence = q'.nextSequence ∧
      ((submissions events).length < wordLimit → q.running = q'.running) := by
  refine ⟨fun events q run i within => run.runsAt_iff within, ?_⟩
  intro events events' q q' run other keys released
  have count : (submissions events).length = (submissions events').length := by
    simpa using congrArg List.length keys
  have entries : q.items.map Item.entry = q'.items.map Item.entry := by
    rw [run.entries_eq, other.entries_eq, run.entries_of_keys other keys, remaining_perm released]
  have marks : runningSequences q.items = runningSequences q'.items := by
    apply runningSequences_eq_of_runsAt entries
    intro i within
    have within' : i < q'.items.length := by
      have length := congrArg List.length entries
      simp only [List.length_map] at length
      omega
    rw [run.runsAt_iff within, other.runsAt_iff within', not_iff_not]
    constructor
    · intro held
      exact held.of_entries_eq entries
    · intro held
      exact held.of_entries_eq entries.symm
  refine ⟨entries, marks, ?_, fun few => ?_⟩
  · rw [run.numbered.1, other.numbered.1, count]
  · rw [run.running_eq few, other.running_eq (count ▸ few), marks]

/-- A change is released behind two readings or ahead of them, and the readings run in either case. -/
theorem readings_confluent : ∃ q q' : Queue Footprint Unit,
    Run none [.submitted ⟨0, .change, ()⟩, .started 0, .submitted ⟨1, .read, ()⟩,
      .submitted ⟨2, .read, ()⟩, .released 0, .started 1, .started 2] q ∧
    Run none [.submitted ⟨0, .change, ()⟩, .started 0, .released 0, .submitted ⟨1, .read, ()⟩,
      .started 1, .submitted ⟨2, .read, ()⟩, .started 2] q' ∧
    (RunsAt q.items 1 ↔ ¬ HeldAt q.items 1) ∧
    runningSequences q.items = runningSequences q'.items ∧ q.running = q'.running := by
  have empty : Run none [] (⟨none, 0, [], 0⟩ : Queue Footprint Unit) := .start
  have behind := (((empty.submit .change ()).submit .read ()).submit .read ()).release
    ⟨0, .change, none⟩ (List.mem_cons_self ..) rfl
  have ahead := (((empty.submit .change ()).release ⟨0, .change, none⟩ (List.mem_cons_self ..)
    rfl).submit .read ()).submit .read ()
  obtain ⟨runs, same⟩ := @schedules_confluent Footprint Unit _ Unit
  obtain ⟨-, marks, -, counters⟩ := same _ _ _ _ behind ahead rfl (.refl [0])
  exact ⟨_, _, behind, ahead, runs _ _ behind 1 (by decide), marks, counters (by decide)⟩

end BuildServer.Queue
