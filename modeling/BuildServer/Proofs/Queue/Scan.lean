import Mathlib.Data.List.Perm.Subperm
import BuildServer.Queue.Basic

/-! # What one scan of the queue can do

A scan keeps every item in its place and starts some of those that wait. `Scanned` says which
choices are open to it and leaves out where the limit stops it, so that what is safe about a scan
is safe at every limit. The facts below speak of positions in the queue and of nothing else; they
do not need the sequences to be told apart.
-/

namespace BuildServer

/-- A job as it was handed in. -/
structure Submission (K J : Type) where
  sequence : UInt64
  key : K
  job : J

/-- The job on its way to being carried out. -/
def Submission.start {K J : Type} (x : Submission K J) : Started J := ⟨x.sequence, x.job⟩

/-- The item that keeps the place of a job while it waits. -/
def Submission.item {K J : Type} (x : Submission K J) : Item K J := ⟨x.sequence, x.key, some x.job⟩

/-- The item that keeps the place of a job while it runs. -/
def Item.running {K J : Type} (item : Item K J) : Item K J := { item with job := none }

/-- What was handed in, as long as it is still there to be started. -/
def Item.submission? {K J : Type} (item : Item K J) : Option (Submission K J) :=
  item.job.map fun job => ⟨item.sequence, item.key, job⟩

/-- What stays of an item for as long as it is in the queue. -/
def Item.entry {K J : Type} (item : Item K J) : UInt64 × K := (item.sequence, item.key)

/-- The part of a submission that stays in the queue while its job runs. -/
def Submission.entry {K J : Type} (x : Submission K J) : UInt64 × K := (x.sequence, x.key)

namespace Queue

variable {K J : Type}

/-- The jobs that wait, in order. -/
def waiting (items : List (Item K J)) : List (Submission K J) := items.filterMap Item.submission?

/-- The sequences of the jobs that run, in order. -/
def runningSequences (items : List (Item K J)) : List UInt64 :=
  (items.filter fun item => item.job.isNone).map (·.sequence)

/-- A running job conflicts with nothing in front of it. -/
def Clear [Dependency K] (items : List (Item K J)) : Prop :=
  items.Pairwise fun a b => b.job = none → conflictsWith b.key a.key = false

@[simp] theorem waiting_nil : waiting ([] : List (Item K J)) = [] := rfl

@[simp] theorem runningSequences_nil : runningSequences ([] : List (Item K J)) = [] := rfl

@[simp] theorem waiting_append (front back : List (Item K J)) :
    waiting (front ++ back) = waiting front ++ waiting back := List.filterMap_append

@[simp] theorem runningSequences_append (front back : List (Item K J)) :
    runningSequences (front ++ back) = runningSequences front ++ runningSequences back := by
  simp only [runningSequences, List.filter_append, List.map_append]

@[simp] theorem waiting_item (x : Submission K J) (items : List (Item K J)) :
    waiting (x.item :: items) = x :: waiting items := rfl

@[simp] theorem waiting_running (item : Item K J) (items : List (Item K J)) :
    waiting (item.running :: items) = waiting items := rfl

@[simp] theorem runningSequences_item (x : Submission K J) (items : List (Item K J)) :
    runningSequences (x.item :: items) = runningSequences items := rfl

@[simp] theorem runningSequences_running (item : Item K J) (items : List (Item K J)) :
    runningSequences (item.running :: items) = item.sequence :: runningSequences items := rfl

/-- Every item either runs or keeps the place of a job that waits. -/
theorem item_cases (item : Item K J) :
    item = item.running ∨ ∃ x : Submission K J, item = x.item := by
  obtain ⟨sequence, key, job⟩ := item
  cases job with
  | none => exact .inl rfl
  | some job => exact .inr ⟨⟨sequence, key, job⟩, rfl⟩

theorem mem_waiting {x : Submission K J} {items : List (Item K J)} :
    x ∈ waiting items ↔ x.item ∈ items := by
  simp only [waiting, List.mem_filterMap, Item.submission?, Option.map_eq_some_iff]
  constructor
  · rintro ⟨⟨sequence, key, _⟩, member, job, rfl, rfl⟩
    exact member
  · intro member
    exact ⟨x.item, member, x.job, rfl, rfl⟩

theorem mem_runningSequences {n : UInt64} {items : List (Item K J)} :
    n ∈ runningSequences items ↔ ∃ item ∈ items, item.job = none ∧ item.sequence = n := by
  simp only [runningSequences, List.mem_map, List.mem_filter, Option.isNone_iff_eq_none, and_assoc]

/-- A release takes out one item of its sequence, whether that one runs or not. -/
theorem runningSequences_subperm (items : List (Item K J)) (sequence : UInt64) :
    (runningSequences items).Subperm
      (sequence :: runningSequences (items.eraseP fun item => item.sequence == sequence)) := by
  rcases List.exists_or_eq_self_of_eraseP (fun item : Item K J => item.sequence == sequence) items with
    same | ⟨item, front, back, -, equal, split, erased⟩
  · rw [same]
    exact (List.sublist_cons_self ..).subperm
  · rw [erased, split]
    obtain runs | ⟨x, rfl⟩ := item_cases item
    · rw [runs, ← beq_iff_eq.mp equal]
      simpa using List.perm_middle.subperm
    · simpa using (List.sublist_cons_self ..).subperm

/-- What a scan may do to the items behind the given keys: it keeps an item, or starts one that
waits and conflicts with no key in front of it. -/
inductive Scanned [Dependency K] :
    List K → List (Item K J) → List (Item K J) → List (Submission K J) → Prop
  | nil {earlier : List K} : Scanned earlier [] [] []
  | keep {earlier : List K} {item : Item K J} {items left : List (Item K J)}
      {chosen : List (Submission K J)} (later : Scanned (item.key :: earlier) items left chosen) :
      Scanned earlier (item :: items) (item :: left) chosen
  | start {earlier : List K} {x : Submission K J} {items left : List (Item K J)}
      {chosen : List (Submission K J)}
      (free : ∀ key ∈ earlier, conflictsWith x.key key = false)
      (later : Scanned (x.key :: earlier) items left chosen) :
      Scanned earlier (x.item :: items) (x.item.running :: left) (x :: chosen)

theorem Scanned.refl [Dependency K] (earlier : List K) (items : List (Item K J)) :
    Scanned earlier items items [] := by
  induction items generalizing earlier with
  | nil => exact .nil
  | cons item rest ih => exact .keep (ih _)

theorem Scanned.eq_of_nil [Dependency K] {earlier : List K} {items left : List (Item K J)}
    (scanned : Scanned earlier items left []) : left = items := by
  induction items generalizing earlier left with
  | nil => cases scanned; rfl
  | cons item rest ih =>
    cases scanned with
    | keep later => rw [ih later]

/-- The scan of the queue makes one of these choices. -/
theorem scan_scanned [Dependency K] (limit : Option Limit) (earlier : List K) (running : Nat)
    (items : List (Item K J)) : ∃ chosen : List (Submission K J),
      (scan limit earlier running items).started = chosen.map Submission.start ∧
      Scanned earlier items (scan limit earlier running items).items chosen := by
  induction items generalizing earlier running with
  | nil => exact ⟨[], rfl, .nil⟩
  | cons item rest ih =>
    simp only [scan]
    split
    · exact ⟨[], rfl, .refl _ _⟩
    · obtain ⟨chosen, started, later⟩ := ih (item.key :: earlier) running
      split
      · exact ⟨chosen, started, .keep later⟩
      · rename_i job waits
        split
        · exact ⟨chosen, started, .keep later⟩
        · rename_i free
          obtain ⟨chosen, started, later⟩ := ih (item.key :: earlier) (running + 1)
          obtain ⟨sequence, key, _⟩ := item
          obtain rfl : _ = some job := waits
          refine ⟨⟨sequence, key, job⟩ :: chosen, ?_, .start (x := ⟨sequence, key, job⟩) ?_ later⟩
          · simp only [Scan.start, started, List.map_cons, Submission.start]
          · simpa only [List.any_eq_true, not_exists, not_and, Bool.not_eq_true] using free

namespace Scanned

variable [Dependency K] {earlier : List K} {items left : List (Item K J)}
  {chosen : List (Submission K J)}

/-- Places, sequences and keys stay as they are. -/
theorem entries (scanned : Scanned earlier items left chosen) :
    left.map Item.entry = items.map Item.entry := by
  induction scanned with
  | nil => rfl
  | keep _ ih => simp only [List.map_cons, ih]
  | start _ _ ih => simp only [List.map_cons, ih]; rfl

/-- A job that waits has been chosen or is left waiting. -/
theorem waiting_perm (scanned : Scanned earlier items left chosen) :
    (waiting items).Perm (chosen ++ waiting left) := by
  induction scanned with
  | nil => rfl
  | @keep _ item _ _ chosen _ ih =>
    obtain same | ⟨x, rfl⟩ := item_cases item
    · rw [same]
      exact ih
    · exact (ih.cons x).trans List.perm_middle.symm
  | start _ _ ih => exact ih.cons _

theorem waiting_sublist (scanned : Scanned earlier items left chosen) :
    (waiting left).Sublist (waiting items) := by
  induction scanned with
  | nil => exact .slnil
  | @keep _ item _ _ _ _ ih =>
    obtain same | ⟨x, rfl⟩ := item_cases item
    · rw [same]
      exact ih
    · exact ih.cons_cons x
  | start _ _ ih => exact ih.cons _

theorem chosen_sublist (scanned : Scanned earlier items left chosen) :
    chosen.Sublist (waiting items) := by
  induction scanned with
  | nil => exact .slnil
  | @keep _ item _ _ _ _ ih =>
    obtain same | ⟨x, rfl⟩ := item_cases item
    · rw [same]
      exact ih
    · exact ih.cons x
  | start _ _ ih => exact ih.cons_cons _

/-- A chosen job runs, and so does every job that ran before. -/
theorem running_perm (scanned : Scanned earlier items left chosen) :
    (runningSequences left).Perm (chosen.map (·.sequence) ++ runningSequences items) := by
  induction scanned with
  | nil => rfl
  | @keep _ item _ _ _ _ ih =>
    obtain same | ⟨x, rfl⟩ := item_cases item
    · rw [same]
      exact (ih.cons _).trans List.perm_middle.symm
    · exact ih
  | start _ _ ih => exact ih.cons _

/-- A chosen job conflicts with nothing in front of the items. -/
theorem free_of_mem (scanned : Scanned earlier items left chosen) {x : Submission K J}
    (member : x ∈ chosen) : ∀ key ∈ earlier, conflictsWith x.key key = false := by
  induction scanned with
  | nil => contradiction
  | keep _ ih => exact fun key present => ih member key (List.mem_cons_of_mem _ present)
  | start free _ ih =>
    rcases List.mem_cons.mp member with rfl | later
    · exact free
    · exact fun key present => ih later key (List.mem_cons_of_mem _ present)

/-- An item that runs after the scan did so before or has been chosen. -/
theorem running_cases (scanned : Scanned earlier items left chosen) {item : Item K J}
    (member : item ∈ left) (runs : item.job = none) :
    item ∈ items ∨ ∃ x ∈ chosen, item = x.item.running := by
  induction scanned with
  | nil => contradiction
  | keep _ ih =>
    rcases List.mem_cons.mp member with rfl | later
    · exact .inl (List.mem_cons_self ..)
    · exact (ih later).imp_left (List.mem_cons_of_mem _)
  | @start _ x _ _ _ _ _ ih =>
    rcases List.mem_cons.mp member with rfl | later
    · exact .inr ⟨x, List.mem_cons_self .., rfl⟩
    · refine (ih later).imp (List.mem_cons_of_mem _) ?_
      rintro ⟨y, present, same⟩
      exact ⟨y, List.mem_cons_of_mem _ present, same⟩

/-- No running job conflicts with one in front of it, those marked in the same scan included. -/
theorem clear (scanned : Scanned earlier items left chosen) (before : Clear items) :
    Clear left := by
  induction scanned with
  | nil => exact .nil
  | @keep _ item items left chosen later ih =>
    obtain ⟨front, rest⟩ := List.pairwise_cons.mp before
    refine List.pairwise_cons.mpr ⟨fun b member runs => ?_, ih rest⟩
    rcases later.running_cases member runs with present | ⟨x, present, rfl⟩
    · exact front b present runs
    · exact later.free_of_mem present _ (List.mem_cons_self ..)
  | @start _ x items left chosen _ later ih =>
    obtain ⟨front, rest⟩ := List.pairwise_cons.mp before
    refine List.pairwise_cons.mpr ⟨fun b member runs => ?_, ih rest⟩
    rcases later.running_cases member runs with present | ⟨y, present, rfl⟩
    · exact front b present runs
    · exact later.free_of_mem present _ (List.mem_cons_self ..)

/-- A chosen job overtakes no waiting job that it conflicts with. -/
theorem chosen_before (scanned : Scanned earlier items left chosen) {x y : Submission K J}
    (starts : x ∈ chosen) (waits : y ∈ waiting left) (conflict : conflictsWith x.key y.key = true) :
    [x, y].Sublist (waiting items) := by
  induction scanned with
  | nil => contradiction
  | @keep _ item items left chosen later ih =>
    obtain same | ⟨z, rfl⟩ := item_cases item
    · rw [same] at waits ⊢
      exact ih starts waits
    · rw [waiting_item] at waits
      rcases List.mem_cons.mp waits with rfl | behind
      · exact absurd conflict (Bool.eq_false_iff.mp (later.free_of_mem starts _ (List.mem_cons_self ..)))
      · exact (ih starts behind).cons z
  | @start _ z items left chosen _ later ih =>
    rcases List.mem_cons.mp starts with rfl | behind
    · exact .cons_cons x (List.singleton_sublist.mpr (later.waiting_sublist.subset waits))
    · exact (ih behind waits).cons z

end Scanned

/-- A key that no job passes, neither forward nor backward. -/
def Barrier [Dependency K] (key : K) : Prop :=
  ∀ other : K, conflictsWith key other = true ∧ conflictsWith other key = true

/-- A job with a barrier key runs at the front of the queue, and nothing runs behind it. -/
theorem Clear.front [Dependency K] {items : List (Item K J)} (clear : Clear items)
    {item : Item K J} (present : item ∈ items) (runs : item.job = none)
    (barrier : Barrier item.key) : ∃ rest, items = item :: rest ∧ runningSequences rest = [] := by
  obtain ⟨front, rest, rfl⟩ := List.append_of_mem present
  obtain ⟨-, behind, between⟩ := List.pairwise_append.mp clear
  obtain rfl : front = [] := by
    apply List.eq_nil_iff_forall_not_mem.mpr
    intro other member
    have free := between other member item (List.mem_cons_self ..) runs
    exact Bool.eq_false_iff.mp free (barrier other.key).1
  refine ⟨rest, rfl, List.eq_nil_iff_forall_not_mem.mpr fun n marked => ?_⟩
  obtain ⟨other, member, marked, -⟩ := mem_runningSequences.mp marked
  have free := (List.pairwise_cons.mp behind).1 other member marked
  exact Bool.eq_false_iff.mp free (barrier other.key).2

/-- A job with a barrier key starts alone: from the front of a queue in which nothing runs. -/
theorem Scanned.barrier [Dependency K] {items left : List (Item K J)}
    {chosen : List (Submission K J)} (scanned : Scanned [] items left chosen) (clear : Clear items)
    {x : Submission K J} (starts : x ∈ chosen) (barrier : Barrier x.key) :
    ∃ rest, items = x.item :: rest ∧ left = x.item.running :: rest ∧ chosen = [x] ∧
      runningSequences rest = [] := by
  cases scanned with
  | nil => contradiction
  | @keep _ item items left chosen later =>
    have free := later.free_of_mem starts _ (List.mem_cons_self ..)
    exact absurd (barrier item.key).1 (Bool.eq_false_iff.mp free)
  | @start _ y items left chosen _ later =>
    have none_behind : chosen = [] := by
      apply List.eq_nil_iff_forall_not_mem.mpr
      intro z behind
      have free := later.free_of_mem behind _ (List.mem_cons_self ..)
      rcases List.mem_cons.mp starts with rfl | alsoBehind
      · exact Bool.eq_false_iff.mp free (barrier z.key).2
      · have other := later.free_of_mem alsoBehind _ (List.mem_cons_self ..)
        exact Bool.eq_false_iff.mp other (barrier y.key).1
    subst none_behind
    obtain rfl := List.mem_singleton.mp starts
    obtain rfl := later.eq_of_nil
    refine ⟨left, rfl, rfl, rfl, List.eq_nil_iff_forall_not_mem.mpr fun n runs => ?_⟩
    obtain ⟨item, member, runs, -⟩ := mem_runningSequences.mp runs
    have free := (List.pairwise_cons.mp clear).1 item member runs
    exact Bool.eq_false_iff.mp free (barrier item.key).2

/-- While a job with a barrier key runs, nothing starts. -/
theorem Scanned.chosen_eq_nil [Dependency K] {earlier : List K} {items left : List (Item K J)}
    {chosen : List (Submission K J)} (scanned : Scanned earlier items left chosen)
    (clear : Clear items) {item : Item K J} (present : item ∈ items) (runs : item.job = none)
    (barrier : Barrier item.key) : chosen = [] := by
  obtain ⟨rest, rfl, -⟩ := clear.front present runs barrier
  cases scanned with
  | @keep _ _ _ left _ later =>
    apply List.eq_nil_iff_forall_not_mem.mpr
    intro x starts
    have free := later.free_of_mem starts _ (List.mem_cons_self ..)
    exact Bool.eq_false_iff.mp free (barrier x.key).2
  | start => contradiction

/-- The release of a job that runs takes no waiting job with a barrier key out of the queue, for
whatever runs stands in front of it. -/
theorem mem_waiting_eraseP [Dependency K] {items : List (Item K J)} (clear : Clear items)
    {sequence : UInt64} (runs : sequence ∈ runningSequences items) {x : Submission K J}
    (waits : x ∈ waiting items) (barrier : Barrier x.key) :
    x ∈ waiting (items.eraseP fun item => item.sequence == sequence) := by
  rw [mem_waiting] at waits ⊢
  induction items with
  | nil => contradiction
  | cons head items ih =>
    obtain ⟨front, rest⟩ := List.pairwise_cons.mp clear
    obtain ⟨item, present, marked, same⟩ := mem_runningSequences.mp runs
    by_cases first : head.sequence = sequence
    · rw [List.eraseP_cons_of_pos (by simpa using first)]
      rcases List.mem_cons.mp waits with rfl | behind
      · rcases List.mem_cons.mp present with rfl | later
        · contradiction
        · have free := front item later marked
          exact absurd (barrier item.key).2 (Bool.eq_false_iff.mp free)
      · exact behind
    · rw [List.eraseP_cons_of_neg (by simpa using first)]
      rcases List.mem_cons.mp waits with rfl | behind
      · exact List.mem_cons_self ..
      · rcases List.mem_cons.mp present with rfl | later
        · exact absurd same first
        · have runs := mem_runningSequences.mpr ⟨item, later, marked, same⟩
          exact List.mem_cons_of_mem _ (ih rest runs behind)

theorem takeReady_scanned [Dependency K] (q : Queue K J) : ∃ chosen : List (Submission K J),
    (takeReady q).1 = chosen.map Submission.start ∧
    Scanned [] q.items (takeReady q).2.items chosen :=
  scan_scanned q.limit [] q.running q.items

/-- What starts is running from then on. -/
theorem runs_of_takeReady [Dependency K] (q : Queue K J) (s : Started J)
    (starts : s ∈ (takeReady q).1) : s.sequence ∈ runningSequences (takeReady q).2.items := by
  obtain ⟨chosen, started, scanned⟩ := takeReady_scanned q
  rw [started] at starts
  obtain ⟨x, member, rfl⟩ := List.mem_map.mp starts
  exact scanned.running_perm.mem_iff.mpr (List.mem_append_left _ (List.mem_map_of_mem member))

/-- A submission puts its job behind all others, and then the queue is scanned. -/
theorem submit_scanned [Dependency K] (q : Queue K J) (key : K) (job : J) :
    ∃ chosen : List (Submission K J), (q.submit key job).1 = chosen.map Submission.start ∧
      Scanned [] (q.items ++ [Submission.item ⟨q.nextSequence, key, job⟩])
        (q.submit key job).2.items chosen :=
  takeReady_scanned _

/-- A release removes the first item of the sequence, and then the queue is scanned. -/
theorem release_scanned [Dependency K] (q : Queue K J) (sequence : UInt64) :
    ∃ chosen : List (Submission K J), (q.release sequence).1 = chosen.map Submission.start ∧
      Scanned [] (q.items.eraseP fun item => item.sequence == sequence)
        (q.release sequence).2.items chosen :=
  takeReady_scanned _

@[simp] theorem submit_nextSequence [Dependency K] (q : Queue K J) (key : K) (job : J) :
    (q.submit key job).2.nextSequence = q.nextSequence + 1 := rfl

@[simp] theorem release_nextSequence [Dependency K] (q : Queue K J) (sequence : UInt64) :
    (q.release sequence).2.nextSequence = q.nextSequence := rfl

/-- The order of conflicts holds from one submission to the next. -/
theorem clear_submit [Dependency K] {q : Queue K J} (clear : Clear q.items) (key : K) (job : J) :
    Clear (q.submit key job).2.items := by
  obtain ⟨chosen, -, scanned⟩ := submit_scanned q key job
  refine scanned.clear (List.pairwise_append.mpr ⟨clear, List.pairwise_singleton _ _, ?_⟩)
  intro a _ b last runs
  obtain rfl := List.mem_singleton.mp last
  contradiction

/-- The order of conflicts survives the loss of any item. -/
theorem clear_release [Dependency K] {q : Queue K J} (clear : Clear q.items) (sequence : UInt64) :
    Clear (q.release sequence).2.items := by
  obtain ⟨chosen, -, scanned⟩ := release_scanned q sequence
  exact scanned.clear (clear.sublist List.eraseP_sublist)

end Queue

end BuildServer
