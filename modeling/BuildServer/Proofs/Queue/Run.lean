import Mathlib.Data.List.Nodup
import BuildServer.Proofs.Queue.Scan
import BuildServer.Word

/-! # Runs of the queue and their books

A run interleaves submissions and releases of running jobs in any order. Its events tell what was
handed in, what was started and what was released, so that orders in time become orders of events.
`Books` ties the events to the queue: the items are the submissions without the released ones, in
order, and what runs is what was started without what was released. Sequences are handed out again
after `wordLimit` submissions, and the books are only kept for runs that are shorter.
-/

namespace BuildServer.Queue

variable {K J : Type}

/-- What happens in a queue. -/
inductive Event (K J : Type)
  | submitted (x : Submission K J)
  | started (sequence : UInt64)
  | released (sequence : UInt64)

/-- The events of jobs that start together. -/
def startEvents (started : List (Started J)) : List (Event K J) :=
  started.map fun s => .started s.sequence

/-- What was handed in, in order. -/
def submissions (events : List (Event K J)) : List (Submission K J) :=
  events.filterMap fun
    | .submitted x => some x
    | _ => none

/-- The sequences of the jobs that were started, in order. -/
def starts (events : List (Event K J)) : List UInt64 :=
  events.filterMap fun
    | .started n => some n
    | _ => none

/-- The sequences of the jobs that were released, in order. -/
def releases (events : List (Event K J)) : List UInt64 :=
  events.filterMap fun
    | .released n => some n
    | _ => none

/-- The runs of a queue under a limit: every interleaving of submissions with releases of jobs
that have started. -/
inductive Run [Dependency K] (limit : Option Limit) : List (Event K J) → Queue K J → Prop
  | start : Run limit [] { limit }
  | submit {events : List (Event K J)} {q : Queue K J} (run : Run limit events q)
      (key : K) (job : J) :
      Run limit
        (events ++ .submitted ⟨q.nextSequence, key, job⟩ :: startEvents (q.submit key job).1)
        (q.submit key job).2
  | release {events : List (Event K J)} {q : Queue K J} (run : Run limit events q)
      (item : Item K J) (present : item ∈ q.items) (runs : item.job = none) :
      Run limit
        (events ++ .released item.sequence :: startEvents (q.release item.sequence).1)
        (q.release item.sequence).2

section Events

variable (events more : List (Event K J)) (x : Submission K J) (n : UInt64)

@[simp] theorem submissions_append :
    submissions (events ++ more) = submissions events ++ submissions more := List.filterMap_append

@[simp] theorem starts_append : starts (events ++ more) = starts events ++ starts more :=
  List.filterMap_append

@[simp] theorem releases_append : releases (events ++ more) = releases events ++ releases more :=
  List.filterMap_append

@[simp] theorem submissions_submitted :
    submissions (.submitted x :: events) = x :: submissions events := rfl

@[simp] theorem submissions_released : submissions (.released n :: events) = submissions events := rfl

@[simp] theorem starts_submitted : starts (.submitted x :: events) = starts events := rfl

@[simp] theorem starts_released : starts (.released n :: events) = starts events := rfl

@[simp] theorem releases_submitted : releases (.submitted x :: events) = releases events := rfl

@[simp] theorem releases_released : releases (.released n :: events) = n :: releases events := rfl

variable (started : List (Started J))

@[simp] theorem submissions_startEvents : submissions (startEvents (K := K) started) = [] := by
  simp [submissions, startEvents]

@[simp] theorem starts_startEvents :
    starts (startEvents (K := K) started) = started.map (·.sequence) := by
  simp [starts, startEvents, List.filterMap_map]

@[simp] theorem releases_startEvents : releases (startEvents (K := K) started) = [] := by
  simp [releases, startEvents]

end Events

/-- A pair in order lies in the front of a list if its second member is not in the back. -/
theorem pair_sublist_left {α : Type} {front back : List α} {a b : α}
    (order : [a, b].Sublist (front ++ back)) (absent : b ∉ back) : [a, b].Sublist front := by
  obtain ⟨first, second, split, left, right⟩ := List.sublist_append_iff.mp order
  obtain rfl | nonempty := second.eq_nil_or_concat
  · rw [split, List.append_nil]
    exact left
  · obtain ⟨init, last, rfl⟩ := nonempty
    rw [List.concat_eq_append] at split right
    rw [← List.append_assoc] at split
    have same : b = last := by simpa using congrArg List.getLast? split
    exact absurd (right.subset (same ▸ List.mem_append_right _ (List.mem_singleton_self _))) absent

theorem mem_releases {events : List (Event K J)} {n : UInt64} :
    n ∈ releases events ↔ .released n ∈ events := by
  simp only [releases, List.mem_filterMap]
  constructor
  · rintro ⟨event, member, same⟩
    cases event with
    | released m => cases same; exact member
    | submitted | started => contradiction
  · exact fun member => ⟨_, member, rfl⟩

/-- How the events of a run account for what is in the queue. -/
structure Books [Dependency K] (events : List (Event K J)) (q : Queue K J) : Prop where
  next : q.nextSequence = UInt64.ofNat (submissions events).length
  below : ∀ x ∈ submissions events, x.sequence.toNat < (submissions events).length
  increasing : (submissions events).Pairwise fun x y => x.sequence < y.sequence
  entries : q.items.map Item.entry =
    ((submissions events).filter fun x => x.sequence ∉ releases events).map Submission.entry
  waiting : (waiting q.items).Sublist (submissions events)
  started : ((submissions events).map (·.sequence)).Perm
    (starts events ++ (Queue.waiting q.items).map (·.sequence))
  finished : (starts events).Perm (releases events ++ runningSequences q.items)
  clear : Clear q.items

namespace Books

variable [Dependency K] {events : List (Event K J)} {q : Queue K J}

theorem submissions_nodup (books : Books events q) :
    ((submissions events).map (·.sequence)).Nodup := by
  refine List.pairwise_map.mpr (books.increasing.imp ?_)
  intro x y less same
  rw [same] at less
  exact UInt64.lt_irrefl _ less

/-- A sequence tells what was handed in under it. -/
theorem eq_of_sequence (books : Books events q) {x y : Submission K J}
    (first : x ∈ submissions events) (second : y ∈ submissions events)
    (same : x.sequence = y.sequence) : x = y :=
  List.inj_on_of_nodup_map books.submissions_nodup first second same

/-- No job starts twice. -/
theorem starts_nodup (books : Books events q) : (starts events).Nodup :=
  (books.started.nodup books.submissions_nodup).of_append_left

/-- No job is released twice. -/
theorem releases_nodup (books : Books events q) : (releases events).Nodup :=
  (books.finished.nodup books.starts_nodup).of_append_left

/-- What has started was handed in before. -/
theorem exists_of_started (books : Books events q) {n : UInt64} (started : n ∈ starts events) :
    ∃ x ∈ submissions events, x.sequence = n :=
  List.mem_map.mp (books.started.mem_iff.mpr (List.mem_append_left _ started))

/-- What was released had started. -/
theorem started_of_released (books : Books events q) {n : UInt64} (released : n ∈ releases events) :
    n ∈ starts events :=
  books.finished.mem_iff.mpr (List.mem_append_left _ released)

/-- What is in the queue has not been released. -/
theorem not_released_of_mem (books : Books events q) {item : Item K J} (present : item ∈ q.items) :
    item.sequence ∉ releases events := by
  have entry : item.entry ∈ q.items.map Item.entry := List.mem_map_of_mem present
  rw [books.entries] at entry
  obtain ⟨x, member, same⟩ := List.mem_map.mp entry
  rw [← show x.sequence = item.sequence from congrArg Prod.fst same]
  exact of_decide_eq_true (List.mem_filter.mp member).2

/-- What runs has not been released. -/
theorem not_released_of_running (books : Books events q) {n : UInt64}
    (runs : n ∈ runningSequences q.items) : n ∉ releases events := by
  obtain ⟨item, present, -, rfl⟩ := mem_runningSequences.mp runs
  exact books.not_released_of_mem present

/-- No two items share a sequence. -/
theorem items_nodup (books : Books events q) : (q.items.map (·.sequence)).Nodup := by
  have sequences : q.items.map (·.sequence) =
      ((submissions events).filter fun x => x.sequence ∉ releases events).map (·.sequence) := by
    simpa only [List.map_map, Function.comp_def, Item.entry, Submission.entry] using
      congrArg (List.map Prod.fst) books.entries
  rw [sequences]
  exact books.submissions_nodup.sublist (List.filter_sublist.map _)

end Books

/-- Releasing a running job takes its own item out of the queue, if no other has its sequence. -/
theorem exists_split_of_eraseP {items : List (Item K J)} {item : Item K J}
    (distinct : (items.map (·.sequence)).Nodup) (present : item ∈ items) :
    ∃ front back, items = front ++ item :: back ∧
      items.eraseP (fun other => other.sequence == item.sequence) = front ++ back := by
  obtain ⟨other, front, back, -, same, split, erased⟩ :=
    List.exists_of_eraseP (p := fun other => other.sequence == item.sequence) present (beq_self_eq_true _)
  have mine : other = item :=
    List.inj_on_of_nodup_map distinct (split ▸ List.mem_append_right _ (List.mem_cons_self ..)) present
      (beq_iff_eq.mp same)
  exact ⟨front, back, mine ▸ split, erased⟩

/-- The release of a running job leaves one running job less. -/
theorem length_runningSequences_eraseP {items : List (Item K J)}
    (distinct : (items.map (·.sequence)).Nodup) {sequence : UInt64}
    (runs : sequence ∈ runningSequences items) : (runningSequences items).length =
      (runningSequences (items.eraseP fun item => item.sequence == sequence)).length + 1 := by
  obtain ⟨item, present, marked, rfl⟩ := mem_runningSequences.mp runs
  obtain ⟨front, back, split, erased⟩ := exists_split_of_eraseP distinct present
  rw [erased, split, show item = item.running by rw [Item.running, ← marked]]
  simp only [runningSequences_append, runningSequences_running, List.length_append, List.length_cons]
  omega

@[simp] theorem starts_chosen (chosen : List (Submission K J)) :
    (chosen.map Submission.start).map (·.sequence) = chosen.map (·.sequence) := by
  simp only [List.map_map, Function.comp_def, Submission.start]

theorem Books.start [Dependency K] (limit : Option Limit) :
    Books ([] : List (Event K J)) ({ limit } : Queue K J) where
  next := rfl
  below _ member := by contradiction
  increasing := .nil
  entries := rfl
  waiting := .slnil
  started := .nil
  finished := .nil
  clear := .nil

/-- Sequences grow as long as they are not handed out again. -/
theorem Books.toNat_next [Dependency K] {events : List (Event K J)} {q : Queue K J}
    (books : Books events q) (few : (submissions events).length < wordLimit) :
    q.nextSequence.toNat = (submissions events).length := by
  rw [books.next]
  exact UInt64.toNat_ofNat_of_lt few

/-- A sequence that is handed out is greater than those handed out before. -/
theorem Books.lt_nextSequence [Dependency K] {events : List (Event K J)} {q : Queue K J}
    (books : Books events q) (few : (submissions events).length < wordLimit) {x : Submission K J}
    (member : x ∈ submissions events) : x.sequence < q.nextSequence := by
  rw [UInt64.lt_iff_toNat_lt, books.toNat_next few]
  exact books.below x member

/-- A sequence that is handed out has not been released. -/
theorem Books.fresh [Dependency K] {events : List (Event K J)} {q : Queue K J}
    (books : Books events q) (few : (submissions events).length < wordLimit) :
    q.nextSequence ∉ releases events := by
  intro released
  obtain ⟨x, member, same⟩ := books.exists_of_started (books.started_of_released released)
  exact UInt64.lt_irrefl _ (same ▸ books.lt_nextSequence few member)

theorem Books.submit [Dependency K] {events : List (Event K J)} {q : Queue K J}
    (books : Books events q) (few : (submissions events).length < wordLimit) (key : K) (job : J) :
    Books (events ++ .submitted ⟨q.nextSequence, key, job⟩ :: startEvents (q.submit key job).1)
      (q.submit key job).2 := by
  obtain ⟨chosen, began, scanned⟩ := submit_scanned q key job
  have fresh := books.fresh few
  have waits := scanned.waiting_perm
  have runs := scanned.running_perm
  simp only [waiting_append, runningSequences_append, waiting_item, runningSequences_item, waiting_nil,
    runningSequences_nil, List.append_nil] at waits runs
  refine ⟨?_, ?_, ?_, ?_, ?_, ?_, ?_, clear_submit books.clear key job⟩
  · simp [books.next]
  · simp only [submissions_append, submissions_submitted, submissions_startEvents, List.length_append,
      List.length_singleton]
    intro x member
    rcases List.mem_append.mp member with earlier | last
    · exact Nat.lt_succ_of_lt (books.below x earlier)
    · obtain rfl := List.mem_singleton.mp last
      rw [books.toNat_next few]
      omega
  · simp only [submissions_append, submissions_submitted, submissions_startEvents]
    refine List.pairwise_append.mpr ⟨books.increasing, List.pairwise_singleton _ _, ?_⟩
    intro x member y last
    obtain rfl := List.mem_singleton.mp last
    exact books.lt_nextSequence few member
  · rw [scanned.entries]
    simp [books.entries, fresh, Submission.item, Item.entry, Submission.entry]
  · refine scanned.waiting_sublist.trans ?_
    simpa using books.waiting
  · simp only [began, submissions_append, submissions_submitted, submissions_startEvents, starts_append,
      starts_submitted, starts_startEvents, starts_chosen, List.map_append, List.map_cons, List.map_nil,
      List.append_assoc]
    have later := waits.map (·.sequence)
    simp only [List.map_append, List.map_cons, List.map_nil] at later
    exact (books.started.append_right _).trans
      (by simpa only [List.append_assoc] using later.append_left (starts events))
  · simp only [began, starts_append, starts_submitted, starts_startEvents, starts_chosen, releases_append,
      releases_submitted, releases_startEvents, List.append_nil]
    exact (books.finished.append_right _).trans
      (by simpa only [List.append_assoc] using
        (List.perm_append_comm.trans runs.symm).append_left (releases events))

theorem Books.release [Dependency K] {events : List (Event K J)} {q : Queue K J}
    (books : Books events q) {item : Item K J} (present : item ∈ q.items) (runs : item.job = none) :
    Books (events ++ .released item.sequence :: startEvents (q.release item.sequence).1)
      (q.release item.sequence).2 := by
  obtain ⟨chosen, began, scanned⟩ := release_scanned q item.sequence
  obtain ⟨front, back, split, erased⟩ := exists_split_of_eraseP books.items_nodup present
  rw [show item = item.running by rw [Item.running, ← runs]] at split
  rw [erased] at scanned
  have waits := scanned.waiting_perm
  have ran := scanned.running_perm
  have others : ∀ other ∈ front ++ back, other.sequence ≠ item.sequence := by
    have distinct := books.items_nodup
    rw [split, List.map_append, List.map_cons, List.nodup_middle, ← List.map_append] at distinct
    intro other member same
    exact (List.nodup_cons.mp distinct).1 (List.mem_map.mpr ⟨other, member, same⟩)
  have sameWaiting : Queue.waiting (front ++ back) = Queue.waiting q.items := by
    rw [split]
    simp
  refine ⟨?_, ?_, ?_, ?_, ?_, ?_, ?_, clear_release books.clear item.sequence⟩
  · simpa using books.next
  · simpa using books.below
  · simpa using books.increasing
  · simp only [scanned.entries, submissions_append, submissions_released, submissions_startEvents,
      releases_append, releases_released, releases_startEvents, List.append_nil]
    have filtered : q.items.filter (fun other => other.sequence != item.sequence) = front ++ back := by
      rw [split, List.filter_append, List.filter_cons_of_neg (by simp [Item.running]),
        ← List.filter_append]
      exact List.filter_eq_self.mpr fun other member => bne_iff_ne.mpr (others other member)
    calc (front ++ back).map Item.entry
        = (q.items.map Item.entry).filter (fun entry => entry.1 != item.sequence) := by
          rw [← filtered, List.filter_map]
          rfl
      _ = _ := by
          rw [books.entries, List.filter_map, List.filter_filter]
          refine congrArg _ (List.filter_congr fun x _ => Bool.eq_iff_iff.mpr ?_)
          simp [Submission.entry, and_comm]
  · refine scanned.waiting_sublist.trans ?_
    rw [sameWaiting]
    simpa using books.waiting
  · simp only [began, submissions_append, submissions_released, submissions_startEvents, starts_append,
      starts_released, starts_startEvents, starts_chosen, List.append_nil, List.append_assoc]
    refine books.started.trans (.append_left _ ?_)
    simpa only [sameWaiting, List.map_append] using waits.map (·.sequence)
  · simp only [began, starts_append, starts_released, starts_startEvents, starts_chosen, releases_append,
      releases_released, releases_startEvents, List.append_assoc, List.singleton_append]
    have freed : (runningSequences q.items).Perm (item.sequence :: runningSequences (front ++ back)) := by
      simp [split, List.perm_middle]
    calc starts events ++ chosen.map (·.sequence)
        |>.Perm (releases events ++ runningSequences q.items ++ chosen.map (·.sequence)) :=
          books.finished.append_right _
      _ |>.Perm (releases events ++ (item.sequence :: runningSequences (front ++ back)) ++
          chosen.map (·.sequence)) := (freed.append_left _).append_right _
      _ |>.Perm _ := by
          rw [List.append_assoc, List.cons_append]
          exact ((List.perm_append_comm.trans ran.symm).cons _).append_left _

/-- What starts at a submission was handed in by then. -/
theorem Books.submitted_of_submit [Dependency K] {events : List (Event K J)} {q : Queue K J}
    (books : Books events q) (key : K) (job : J) (s : Started J)
    (starts : s ∈ (q.submit key job).1) :
    ∃ x ∈ submissions (events ++ [.submitted ⟨q.nextSequence, key, job⟩]), s = x.start := by
  obtain ⟨chosen, began, scanned⟩ := submit_scanned q key job
  obtain ⟨x, member, rfl⟩ := List.mem_map.mp (began ▸ starts)
  refine ⟨x, ?_, rfl⟩
  have waits := scanned.chosen_sublist.subset member
  rw [waiting_append] at waits
  rw [submissions_append]
  exact (books.waiting.append (.refl _)).subset waits

/-- What starts at a release was handed in before. -/
theorem Books.submitted_of_release [Dependency K] {events : List (Event K J)} {q : Queue K J}
    (books : Books events q) (sequence : UInt64) (s : Started J)
    (starts : s ∈ (q.release sequence).1) : ∃ x ∈ submissions events, s = x.start := by
  obtain ⟨chosen, began, scanned⟩ := release_scanned q sequence
  obtain ⟨x, member, rfl⟩ := List.mem_map.mp (began ▸ starts)
  have waits := scanned.chosen_sublist.trans (List.eraseP_sublist.filterMap Item.submission?)
  exact ⟨x, books.waiting.subset (waits.subset member), rfl⟩

/-- The books are kept along every run in which no sequence is handed out twice. -/
theorem Run.books [Dependency K] {limit : Option Limit} {events : List (Event K J)} {q : Queue K J}
    (run : Run limit events q) (few : (submissions events).length < wordLimit) : Books events q := by
  induction run with
  | start => exact .start limit
  | submit _ key job ih =>
    simp only [submissions_append, submissions_submitted, List.length_append, List.length_cons] at few
    exact (ih (by omega)).submit (by omega) key job
  | release _ item present runs ih =>
    simp only [submissions_append, submissions_released, List.length_append] at few
    exact (ih (by omega)).release present runs

end BuildServer.Queue
