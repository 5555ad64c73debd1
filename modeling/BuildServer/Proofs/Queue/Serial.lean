import BuildServer.Proofs.Queue.ConflictOrder

/-! # Concurrency cannot be seen

Every job acts once on a shared state at some moment between its start and its release. If jobs that
do not conflict may be swapped, then all that a run leaves behind, the state and the result of every
job, is what one gets by carrying out the jobs one at a time in the order of their submission. Every
inversion of the effects against that order is between jobs that may be swapped, because a job that
conflicts with an earlier one starts after its release; so each job, taken in order, can be moved to
the front past all that acted before it.
-/

namespace BuildServer.Queue

variable {K S R : Type}

/-- A job that acts on a shared state at one moment and has a result. -/
abbrev Action (S R : Type) := S → S × R

/-- From every state both orders of two actions lead to the same state and the same results. -/
def Commutes (a b : Action S R) : Prop :=
  ∀ s, (b (a s).1).1 = (a (b s).1).1 ∧ (a s).2 = (a (b s).1).2 ∧ (b (a s).1).2 = (b s).2

/-- Carries out jobs one at a time; each result comes with the sequence of its job. -/
def perform (s : S) : List (Submission K (Action S R)) → S × List (UInt64 × R)
  | [] => (s, [])
  | x :: rest =>
    let later := perform (x.job s).1 rest
    (later.1, (x.sequence, (x.job s).2) :: later.2)

/-- A queue of actions, those of them that have started and have not acted, the state that they
share, and the results so far. -/
structure Workshop (K S R : Type) where
  queue : Queue K (Action S R)
  active : List (Started (Action S R)) := []
  state : S
  results : List (UInt64 × R) := []

/-- The runs of a queue of actions. Every action acts once, at any moment after its start, and only
then its job is released. -/
inductive Execution [Dependency K] (limit : Option Limit) (initial : S) :
    List (Event K (Action S R)) → Workshop K S R → Prop
  | start : Execution limit initial [] { queue := { limit }, state := initial }
  | submit {events : List (Event K (Action S R))} {w : Workshop K S R}
      (run : Execution limit initial events w) (key : K) (action : Action S R) :
      Execution limit initial
        (events ++ .submitted ⟨w.queue.nextSequence, key, action⟩ ::
          startEvents (w.queue.submit key action).1)
        { w with
          queue := (w.queue.submit key action).2
          active := w.active ++ (w.queue.submit key action).1 }
  | act {events : List (Event K (Action S R))} {w : Workshop K S R}
      (run : Execution limit initial events w) (before after : List (Started (Action S R)))
      (s : Started (Action S R)) (active : w.active = before ++ s :: after) :
      Execution limit initial events
        { w with
          active := before ++ after
          state := (s.job w.state).1
          results := w.results ++ [(s.sequence, (s.job w.state).2)] }
  | release {events : List (Event K (Action S R))} {w : Workshop K S R}
      (run : Execution limit initial events w) (item : Item K (Action S R))
      (present : item ∈ w.queue.items) (runs : item.job = none)
      (acted : ∀ s ∈ w.active, s.sequence ≠ item.sequence) :
      Execution limit initial
        (events ++ .released item.sequence :: startEvents (w.queue.release item.sequence).1)
        { w with
          queue := (w.queue.release item.sequence).2
          active := w.active ++ (w.queue.release item.sequence).1 }

/-- Without its effects an execution is a run of the queue. -/
theorem Execution.run [Dependency K] {limit : Option Limit} {initial : S}
    {events : List (Event K (Action S R))} {w : Workshop K S R}
    (execution : Execution limit initial events w) : Run limit events w.queue := by
  induction execution with
  | start => exact .start
  | submit _ key action ih => exact ih.submit key action
  | act _ _ _ _ _ ih => exact ih
  | release _ item present runs _ ih => exact ih.release item present runs

/-- The same state and, job by job, the same results. -/
def Agree (a b : S × List (UInt64 × R)) : Prop := a.1 = b.1 ∧ a.2.Perm b.2

theorem Agree.trans {a b c : S × List (UInt64 × R)} (left : Agree a b) (right : Agree b c) :
    Agree a c := ⟨left.1.trans right.1, left.2.trans right.2⟩

theorem perform_append (s : S) (xs ys : List (Submission K (Action S R))) :
    perform s (xs ++ ys) =
      ((perform (perform s xs).1 ys).1, (perform s xs).2 ++ (perform (perform s xs).1 ys).2) := by
  induction xs generalizing s with
  | nil => rfl
  | cons x rest ih => simp only [List.cons_append, perform, ih]

/-- A job keeps its place in front of others whose outcomes agree. -/
theorem Agree.perform_cons {s : S} {x : Submission K (Action S R)}
    {xs ys : List (Submission K (Action S R))}
    (agree : Agree (perform (x.job s).1 xs) (perform (x.job s).1 ys)) :
    Agree (perform s (x :: xs)) (perform s (x :: ys)) :=
  ⟨agree.1, agree.2.cons _⟩

theorem perform_swap {x y : Submission K (Action S R)} (swap : Commutes x.job y.job) (s : S)
    (rest : List (Submission K (Action S R))) :
    Agree (perform s (y :: x :: rest)) (perform s (x :: y :: rest)) := by
  obtain ⟨state, first, second⟩ := swap s
  simp only [perform, ← state, ← first, second]
  exact ⟨rfl, .swap _ _ _⟩

/-- A job may be moved to the front past all that commute with it. -/
theorem perform_front {x : Submission K (Action S R)} {front : List (Submission K (Action S R))}
    (swaps : ∀ y ∈ front, Commutes x.job y.job) (s : S)
    (back : List (Submission K (Action S R))) :
    Agree (perform s (front ++ x :: back)) (perform s (x :: (front ++ back))) := by
  induction front generalizing s with
  | nil => exact ⟨rfl, .refl _⟩
  | cons y front ih =>
    have moved := ih (fun z member => swaps z (List.mem_cons_of_mem _ member)) (y.job s).1
    exact moved.perform_cons.trans (perform_swap (swaps y (List.mem_cons_self ..)) s _)

/-- An order of effects agrees with the order of submissions if every inversion may be swapped. -/
theorem perform_of_swaps {xs ys : List (Submission K (Action S R))} (perm : ys.Perm xs)
    (swaps : ys.Pairwise fun y x => [x, y].Sublist xs → Commutes x.job y.job) (s : S) :
    Agree (perform s ys) (perform s xs) := by
  induction xs generalizing ys s with
  | nil =>
    rw [perm.eq_nil]
    exact ⟨rfl, .refl _⟩
  | cons x xs ih =>
    obtain ⟨front, back, rfl⟩ := List.append_of_mem (perm.mem_iff.mpr (List.mem_cons_self ..))
    have rest : (front ++ back).Perm xs := (List.perm_middle.symm.trans perm).cons_inv
    have ahead : ∀ y ∈ front, Commutes x.job y.job := by
      intro y member
      refine (List.pairwise_append.mp swaps).2.2 y member x (List.mem_cons_self ..) (.cons_cons x ?_)
      exact List.singleton_sublist.mpr (rest.subset (List.mem_append_left _ member))
    refine (perform_front ahead s back).trans (ih rest ?_ _).perform_cons
    refine (swaps.sublist ((List.sublist_cons_self x back).append_left front)).imp ?_
    exact fun swap order => swap (order.cons x)

/-- What the jobs that have acted, in the order of their effects, tell of an execution. -/
structure Effects [Dependency K] (initial : S) (events : List (Event K (Action S R)))
    (w : Workshop K S R) (acted : List (Submission K (Action S R))) : Prop where
  performed : (w.state, w.results) = perform initial acted
  started : (starts events).Perm (acted.map (·.sequence) ++ w.active.map (·.sequence))
  submitted : ∀ x ∈ acted, x ∈ submissions events
  active : ∀ s ∈ w.active, ∃ x ∈ submissions events, s = x.start
  released : ∀ n ∈ releases events, n ∈ acted.map (·.sequence)
  ordered : ∀ x y, [x, y].Sublist (submissions events) → conflictsWith y.key x.key = true →
    y ∈ acted → [x, y].Sublist acted

namespace Effects

variable [Dependency K] {initial : S} {events : List (Event K (Action S R))} {w : Workshop K S R}
  {acted : List (Submission K (Action S R))}

/-- A job that conflicts with an earlier one acts after it: while it runs, the earlier one has been
released, and what has been released has acted. -/
theorem act (effects : Effects initial events w acted) (books : Books events w.queue)
    {before after : List (Started (Action S R))} {s : Started (Action S R)}
    (active : w.active = before ++ s :: after) : ∃ y, Effects initial events
      { w with
        active := before ++ after
        state := (s.job w.state).1
        results := w.results ++ [(s.sequence, (s.job w.state).2)] } (acted ++ [y]) := by
  obtain ⟨y, member, rfl⟩ := effects.active s (by simp [active])
  have split : (starts events).Perm
      (acted.map (·.sequence) ++ y.sequence :: (before ++ after).map (·.sequence)) := by
    refine effects.started.trans (.append_left _ ?_)
    simp only [active, List.map_append, List.map_cons, Submission.start]
    exact List.perm_middle
  have pending : y.sequence ∉ acted.map (·.sequence) := by
    have distinct := split.nodup books.starts_nodup
    exact fun already => List.disjoint_of_nodup_append distinct already (List.mem_cons_self ..)
  have runs : y.sequence ∈ runningSequences w.queue.items := by
    have began := split.mem_iff.mpr (List.mem_append_right _ (List.mem_cons_self ..))
    rcases List.mem_append.mp (books.finished.mem_iff.mp began) with ended | runs
    · exact absurd (effects.released _ ended) pending
    · exact runs
  refine ⟨y, ⟨?_, ?_, ?_, ?_, ?_, ?_⟩⟩
  · rw [perform_append, ← effects.performed]
    rfl
  · simpa using split
  · intro x present
    rcases List.mem_append.mp present with present | last
    · exact effects.submitted x present
    · exact List.mem_singleton.mp last ▸ member
  · intro s present
    refine effects.active s (active ▸ ?_)
    exact ((List.sublist_cons_self _ after).append_left before).subset present
  · intro n ended
    rw [List.map_append]
    exact List.mem_append_left _ (effects.released n ended)
  · intro x z order conflict present
    rcases List.mem_append.mp present with present | last
    · exact (effects.ordered x z order conflict present).trans (List.sublist_append_left ..)
    · obtain rfl := List.mem_singleton.mp last
      obtain ⟨x', done, same⟩ := List.mem_map.mp
        (effects.released _ (books.released_of_conflict order conflict runs))
      have mine := books.eq_of_sequence (effects.submitted x' done) (order.subset (by simp)) same
      exact (List.singleton_sublist.mpr (mine ▸ done)).append (.refl [z])

/-- More submissions and starts leave the order of the effects alone. -/
theorem extend (effects : Effects initial events w acted) {head : Event K (Action S R)}
    {started : List (Started (Action S R))} {q : Queue K (Action S R)}
    (books : Books (events ++ head :: startEvents started) q)
    (administrative : starts [head] = [])
    (handedIn : ∀ s ∈ started, ∃ x ∈ submissions (events ++ [head]), s = x.start)
    (ended : ∀ n ∈ releases [head], n ∈ acted.map (·.sequence)) :
    Effects initial (events ++ head :: startEvents started)
      { w with queue := q, active := w.active ++ started } acted := by
  have split : events ++ head :: startEvents started = events ++ [head] ++ startEvents started := by
    simp
  rw [split] at books ⊢
  refine ⟨effects.performed, ?_, ?_, ?_, ?_, ?_⟩
  · rw [starts_append, starts_append, administrative, List.append_nil, starts_startEvents, List.map_append,
      ← List.append_assoc]
    exact effects.started.append_right _
  · intro x member
    rw [List.append_assoc, submissions_append]
    exact List.mem_append_left _ (effects.submitted x member)
  · intro s member
    rcases List.mem_append.mp member with present | starts
    · obtain ⟨x, handed, same⟩ := effects.active s present
      refine ⟨x, ?_, same⟩
      rw [List.append_assoc, submissions_append]
      exact List.mem_append_left _ handed
    · obtain ⟨x, handed, same⟩ := handedIn s starts
      refine ⟨x, ?_, same⟩
      rw [submissions_append]
      exact List.mem_append_left _ handed
  · intro n member
    rw [releases_append, releases_append, releases_startEvents, List.append_nil] at member
    exact (List.mem_append.mp member).elim (effects.released n) (ended n)
  · intro x y order conflict done
    have distinct := books.submissions_nodup
    rw [submissions_append, submissions_startEvents, List.append_nil, submissions_append] at order distinct
    refine effects.ordered x y (pair_sublist_left order fun late => ?_) conflict done
    rw [List.map_append] at distinct
    exact List.disjoint_of_nodup_append distinct (List.mem_map_of_mem (effects.submitted y done))
      (List.mem_map_of_mem late)

end Effects

/-- Along every execution the effects can be listed in their order. -/
theorem Execution.effects [Dependency K] {limit : Option Limit} {initial : S}
    {events : List (Event K (Action S R))} {w : Workshop K S R}
    (execution : Execution limit initial events w)
    (few : (submissions events).length < wordLimit) : ∃ acted, Effects initial events w acted := by
  induction execution with
  | start =>
    refine ⟨[], rfl, .nil, ?_, ?_, ?_, ?_⟩ <;> intros <;> contradiction
  | @submit events w execution key action ih =>
    have books := (execution.submit key action).run.books few
    have fewer : (submissions events).length < wordLimit := by
      simp only [submissions_append, List.length_append] at few
      omega
    obtain ⟨acted, effects⟩ := ih fewer
    refine ⟨acted, effects.extend books rfl ?_ (fun n member => by contradiction)⟩
    exact (execution.run.books fewer).submitted_of_submit key action
  | act execution before after s active ih =>
    obtain ⟨acted, effects⟩ := ih few
    obtain ⟨y, effects⟩ := effects.act (execution.run.books few) active
    exact ⟨acted ++ [y], effects⟩
  | @release events w execution item present runs done ih =>
    have books := (execution.release item present runs done).run.books few
    have fewer : (submissions events).length < wordLimit := by
      simp only [submissions_append, List.length_append] at few
      omega
    obtain ⟨acted, effects⟩ := ih fewer
    have before := execution.run.books fewer
    refine ⟨acted, effects.extend books rfl ?_ ?_⟩
    · simpa [submissions] using before.submitted_of_release item.sequence
    · intro n member
      obtain rfl := List.mem_singleton.mp member
      have began : item.sequence ∈ starts events := by
        refine before.finished.mem_iff.mpr (List.mem_append_right _ ?_)
        exact mem_runningSequences.mpr ⟨item, present, runs, rfl⟩
      rcases List.mem_append.mp (effects.started.mem_iff.mp began) with acted | waits
      · exact acted
      · obtain ⟨s, active, same⟩ := List.mem_map.mp waits
        exact absurd same (done s active)

private theorem not_both_orders {α : Type} {l : List α} {a b : α} (distinct : l.Nodup)
    (first : [a, b].Sublist l) (second : [b, a].Sublist l) : False := by
  induction l with
  | nil => contradiction
  | cons c l ih =>
    obtain ⟨absent, rest⟩ := List.nodup_cons.mp distinct
    cases first with
    | cons _ first =>
      cases second with
      | cons _ second => exact ih rest first second
      | cons_cons _ second => exact absent (first.subset (by simp))
    | cons_cons _ first =>
      cases second with
      | cons _ second => exact absent (second.subset (by simp))
      | cons_cons _ second => exact absent (List.singleton_sublist.mp second)

/-- Once every job has been released, the state and the results are those of carrying out the jobs
one at a time in the order of their submission, at every limit and in every interleaving, if any two
jobs of which the later does not conflict with the earlier may be swapped. A sequence that is handed
out again could be released in place of the job that still has it, so `few` keeps to runs in which
sequences tell jobs apart. -/
theorem execution_serialisable [Dependency K] {limit : Option Limit} {initial : S}
    {events : List (Event K (Action S R))} {w : Workshop K S R}
    (execution : Execution limit initial events w)
    (few : (submissions events).length < wordLimit)
    (commute : (submissions events).Pairwise fun i j =>
      conflictsWith j.key i.key = false → Commutes i.job j.job)
    (released : ∀ x ∈ submissions events, x.sequence ∈ releases events) :
    w.state = (perform initial (submissions events)).1 ∧
      w.results.Perm (perform initial (submissions events)).2 := by
  have books := execution.run.books few
  obtain ⟨acted, effects⟩ := execution.effects few
  have distinct : acted.Nodup :=
    ((effects.started.nodup books.starts_nodup).of_append_left).of_map _
  have perm : acted.Perm (submissions events) := by
    apply (List.perm_ext_iff_of_nodup distinct (books.submissions_nodup.of_map _)).mpr
    intro x
    refine ⟨effects.submitted x, fun member => ?_⟩
    obtain ⟨y, done, same⟩ := List.mem_map.mp (effects.released _ (released x member))
    exact books.eq_of_sequence (effects.submitted y done) member same ▸ done
  have swaps : acted.Pairwise fun y x =>
      [x, y].Sublist (submissions events) → Commutes x.job y.job := by
    refine List.pairwise_iff_forall_sublist.mpr fun {y x} inverted order => ?_
    refine List.pairwise_iff_forall_sublist.mp commute order (Bool.eq_false_iff.mpr fun conflict => ?_)
    exact not_both_orders distinct inverted
      (effects.ordered x y order conflict (inverted.subset (by simp)))
  have agree := perform_of_swaps perm swaps initial
  rw [← effects.performed] at agree
  exact agree

/-- A number is doubled and then read twice; the readings act against the order of submission. -/
theorem readings_serialisable : ∃ w : Workshop Footprint Nat Nat,
    Execution none 3 [.submitted ⟨0, .change, fun n => (2 * n, n)⟩, .started 0,
      .submitted ⟨1, .read, fun n => (n, n)⟩, .submitted ⟨2, .read, fun n => (n, n + 1)⟩,
      .released 0, .started 1, .started 2, .released 2, .released 1] w ∧
    w.state = 6 ∧ w.results.Perm [(0, 3), (1, 6), (2, 7)] := by
  have handedIn : Execution none 3 _ (⟨⟨none, 3, [⟨0, .change, none⟩, ⟨1, .read, some fun n => (n, n)⟩,
      ⟨2, .read, some fun n => (n, n + 1)⟩], 1⟩, [⟨0, fun n => (2 * n, n)⟩], 3, []⟩ :
        Workshop Footprint Nat Nat) :=
    ((Execution.start.submit Footprint.change _).submit Footprint.read _).submit Footprint.read _
  have doubled : Execution none 3 _ (⟨⟨none, 3, [⟨1, .read, none⟩, ⟨2, .read, none⟩], 2⟩,
      [⟨1, fun n => (n, n)⟩, ⟨2, fun n => (n, n + 1)⟩], 6, [(0, 3)]⟩ : Workshop Footprint Nat Nat) :=
    (handedIn.act [] [] _ rfl).release ⟨0, .change, none⟩ (List.mem_cons_self ..) rfl
      (fun _ active => absurd active List.not_mem_nil)
  have read : Execution none 3 _ (⟨⟨none, 3, [⟨1, .read, none⟩, ⟨2, .read, none⟩], 2⟩,
      [], 6, [(0, 3), (2, 7), (1, 6)]⟩ : Workshop Footprint Nat Nat) :=
    (doubled.act [⟨1, fun n => (n, n)⟩] [] _ rfl).act [] [] _ rfl
  have execution : Execution none 3 [.submitted ⟨0, .change, fun n => (2 * n, n)⟩, .started 0,
      .submitted ⟨1, .read, fun n => (n, n)⟩, .submitted ⟨2, .read, fun n => (n, n + 1)⟩,
      .released 0, .started 1, .started 2, .released 2, .released 1]
      (⟨⟨none, 3, [], 0⟩, [], 6, [(0, 3), (2, 7), (1, 6)]⟩ : Workshop Footprint Nat Nat) :=
    (read.release ⟨2, .read, none⟩ (List.mem_cons_of_mem _ (List.mem_cons_self ..)) rfl
      (fun _ active => absurd active List.not_mem_nil)).release ⟨1, .read, none⟩
      (List.mem_cons_self ..) rfl (fun _ active => absurd active List.not_mem_nil)
  refine ⟨_, execution, execution_serialisable execution (by decide) ?_ (by decide)⟩
  refine .cons (fun y later free => ?_) (.cons (fun y later _ => ?_) (List.pairwise_singleton _ _))
  · rcases List.mem_cons.mp later with rfl | last
    · contradiction
    · obtain rfl := List.mem_singleton.mp last
      contradiction
  · obtain rfl := List.mem_singleton.mp later
    exact fun _ => ⟨rfl, rfl, rfl⟩

end BuildServer.Queue
