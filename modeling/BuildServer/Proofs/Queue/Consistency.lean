import BuildServer.Proofs.Queue.Completion
import BuildServer.Proofs.Queue.Eager

/-! # The counter and the sequences agree with the items

The queue keeps a counter beside the marks of its items, and subtracts from it without going below
zero, which would hide a drift between the two. There is none: the sequences of the items ascend below
the next one, the counter is the number of marked items and stays within the limit, and a job that was
handed out finds its own item at its release, so that nothing is ever subtracted from zero. What
asks for a release is a job that is being carried out; that its item is still there is a result.
-/

namespace BuildServer

namespace Queue

variable {K J : Type}

/-- The sequences ascend and have all been handed out, the counter says how many jobs were taken out of
their items, and the limit is kept. -/
structure Consistent (q : Queue K J) : Prop where
  ascending : q.items.Pairwise fun a b => a.sequence < b.sequence
  below : ∀ item ∈ q.items, item.sequence < q.nextSequence
  counted : q.running = q.items.countP fun item => item.job.isNone
  limited : ∀ l, q.limit = some l → q.running ≤ l.value

/-- One item is gone from its place, a running one and the only one of its sequence; all others are
still there, in their order. -/
def TakenOut (sequence : UInt64) (items left : List (Item K J)) : Prop :=
  ∃ front item back, items = front ++ item :: back ∧ item.sequence = sequence ∧ item.job = none ∧
    (∀ other ∈ front ++ back, other.sequence ≠ sequence) ∧
    left.map Item.entry = (front ++ back).map Item.entry

theorem length_runningSequences (items : List (Item K J)) :
    (runningSequences items).length = items.countP fun item => item.job.isNone := by
  rw [runningSequences, List.length_map, List.countP_eq_length_filter]

/-- Every item either waits or runs. -/
theorem length_waiting_add (items : List (Item K J)) :
    (waiting items).length + (runningSequences items).length = items.length := by
  induction items with
  | nil => rfl
  | cons item items ih =>
    obtain runs | ⟨x, rfl⟩ := item_cases item
    · rw [runs, waiting_running, runningSequences_running, List.length_cons, List.length_cons]
      omega
    · rw [waiting_item, runningSequences_item, List.length_cons, List.length_cons]
      omega

/-- What is counted as running and what is reported as waiting make up the queue. -/
theorem Consistent.pendingCount_add {q : Queue K J} (consistent : Consistent q) :
    q.pendingCount = (waiting q.items).length ∧ q.pendingCount + q.running = q.items.length := by
  have parts := length_waiting_add q.items
  have counted := consistent.counted
  rw [← length_runningSequences] at counted
  rw [pendingCount]
  omega

variable [Dependency K] {limit : Option Limit} {events : List (Event K J)} {q : Queue K J}

/-- The items are in the order of their submission, and so are their sequences. -/
theorem Books.ascending (books : Books events q) :
    q.items.Pairwise fun a b => a.sequence < b.sequence := by
  have left : (q.items.map Item.entry).Pairwise fun a b => a.1 < b.1 := by
    rw [books.entries]
    exact List.pairwise_map.mpr (books.increasing.sublist List.filter_sublist)
  rwa [List.pairwise_map] at left

/-- Whatever is in the queue was handed in. -/
theorem Books.handedIn (books : Books events q) {item : Item K J} (present : item ∈ q.items) :
    ∃ x ∈ submissions events, x.entry = item.entry := by
  have entry : item.entry ∈ q.items.map Item.entry := List.mem_map_of_mem present
  rw [books.entries] at entry
  obtain ⟨x, member, same⟩ := List.mem_map.mp entry
  exact ⟨x, (List.mem_filter.mp member).1, same⟩

/-- Every run keeps the queue consistent, as long as no sequence is handed out twice. -/
theorem Run.consistent (run : Run limit events q) (few : (submissions events).length < wordLimit) :
    Consistent q where
  ascending := (run.books few).ascending
  below item present := by
    obtain ⟨x, member, same⟩ := (run.books few).handedIn present
    rw [show item.sequence = x.sequence from (congrArg Prod.fst same).symm]
    exact (run.books few).lt_nextSequence few member
  counted := by rw [run.running_eq few, length_runningSequences]
  limited l limited := by
    rw [run.limit_eq] at limited
    subst limited
    exact run.running_le

/-- The release of a running item takes just this one out and counts it off. -/
theorem Consistent.takenOut (consistent : Consistent q) {item : Item K J} (present : item ∈ q.items)
    (runs : item.job = none) :
    0 < q.running ∧ TakenOut item.sequence q.items (q.release item.sequence).2.items := by
  have distinct : (q.items.map (·.sequence)).Nodup :=
    List.pairwise_map.mpr (consistent.ascending.imp fun less => UInt64.ne_of_lt less)
  constructor
  · rw [consistent.counted, List.countP_pos_iff]
    exact ⟨item, present, Option.isNone_iff_eq_none.mpr runs⟩
  · obtain ⟨front, back, split, erased⟩ := exists_split_of_eraseP distinct present
    obtain ⟨chosen, -, scanned⟩ := release_scanned q item.sequence
    rw [split, List.map_append, List.map_cons, List.nodup_middle, ← List.map_append] at distinct
    refine ⟨front, item, back, split, rfl, runs, fun other member same => ?_, ?_⟩
    · exact (List.nodup_cons.mp distinct).1 (List.mem_map.mpr ⟨other, member, same⟩)
    · rw [scanned.entries, erased]

end Queue

namespace Work

open Queue

variable {K J α : Type} [Dependency K] {ends : J → Option α → Prop} {limit : Option Limit}
  {events : List (Event K J)} {endings : List (UInt64 × Option α)} {w : Work K J α}

/-- As long as no sequence is handed out twice, the jobs that are being carried out are those of the
marked items. -/
theorem Run.sequences_perm (run : Run ends limit events endings w)
    (few : (submissions events).length < wordLimit) :
    w.sequences.Perm (runningSequences w.queue.items) :=
  (List.perm_append_left_iff _).mp (run.starts_perm.symm.trans (run.queue.books few).finished)

/-- In every state that jobs bring the queue to by being handed in and ending, in any order and with
any endings, the sequences of the items ascend below the next one, the counter is the number of items
whose job has been taken and stays within the limit, and together with the reported number of waiting
jobs it makes up the queue. And every job that is being carried out has one item of its own, which its
release finds and takes out while at least one job is counted as running. -/
theorem counter_agrees_with_items (run : Run ends limit events endings w)
    (few : (submissions events).length < wordLimit) :
    w.queue.limit = limit ∧ Consistent w.queue ∧
    (w.queue.pendingCount = (waiting w.queue.items).length ∧
      w.queue.pendingCount + w.queue.running = w.queue.items.length ∧
      w.queue.running ≤ w.queue.items.length) ∧
    w.sequences.Perm (runningSequences w.queue.items) ∧
    ∀ s ∈ w.active, 0 < w.queue.running ∧
      ∀ ending, TakenOut s.sequence w.queue.items (w.finish s.sequence ending).2.queue.items := by
  have consistent := run.queue.consistent few
  obtain ⟨pending, parts⟩ := consistent.pendingCount_add
  refine ⟨run.queue.limit_eq, consistent, ⟨pending, parts, by omega⟩, run.sequences_perm few, ?_⟩
  intro s active
  have runs : s.sequence ∈ runningSequences w.queue.items :=
    run.backed.subset (List.mem_map_of_mem active)
  obtain ⟨item, present, marked, same⟩ := mem_runningSequences.mp runs
  obtain ⟨counted, taken⟩ := consistent.takenOut present marked
  rw [same] at taken
  exact ⟨counted, fun ending => taken⟩

/-- Of three readings, two of which may run, the second ends first and lets the third one in. -/
theorem counter_after_second_ends : ∃ w : Work Footprint Unit Nat,
    Run (fun _ _ => True) (some ⟨2, by decide, by decide⟩)
      [.submitted ⟨0, .read, ()⟩, .started 0, .submitted ⟨1, .read, ()⟩, .started 1,
        .submitted ⟨2, .read, ()⟩, .released 1, .started 2] [(1, none)] w ∧
    w.queue.pendingCount + w.queue.running = 2 ∧
    TakenOut 0 w.queue.items (w.finish 0 (some 5)).2.queue.items := by
  have handedIn : Run (α := Nat) (fun _ _ => True) (some ⟨2, by decide, by decide⟩) _ _ _ :=
    ((Run.start.submit Footprint.read ()).submit Footprint.read ()).submit Footprint.read ()
  have run := handedIn.finish ⟨1, ()⟩ (List.mem_cons_of_mem _ (List.mem_cons_self ..)) none trivial
  obtain ⟨-, -, ⟨-, parts, -⟩, -, releases⟩ := counter_agrees_with_items run (by decide)
  exact ⟨_, run, parts, (releases ⟨0, ()⟩ (List.mem_cons_self ..)).2 (some 5)⟩

end Work

end BuildServer
