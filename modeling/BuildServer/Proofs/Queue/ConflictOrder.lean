import BuildServer.Proofs.Queue.Run
import BuildServer.Session.Footprint

/-! # Conflicting jobs keep their order

A job starts only when every job that was handed in before it and that it conflicts with has been
released. The queue is only scanned after a submission or a release, and a scan marks jobs while it
passes over them, so the order is first an invariant of the items: whatever runs conflicts with
nothing in front of it. The books turn this into an order of events.
-/

namespace BuildServer.Queue

variable {K J : Type} [Dependency K]

/-- While a job runs, whatever was handed in before it and conflicts with it has been released. -/
theorem Books.released_of_conflict {events : List (Event K J)} {q : Queue K J}
    (books : Books events q) {i j : Submission K J} (order : [i, j].Sublist (submissions events))
    (conflict : conflictsWith j.key i.key = true) (runs : j.sequence ∈ runningSequences q.items) :
    i.sequence ∈ releases events := by
  by_contra kept
  have left := books.not_released_of_running runs
  have both : [i.entry, j.entry].Sublist (q.items.map Item.entry) := by
    rw [books.entries]
    have filtered := order.filter fun x => decide (x.sequence ∉ releases events)
    rw [show [i, j].filter _ = [i, j] by simp [kept, left]] at filtered
    exact filtered.map Submission.entry
  obtain ⟨pair, inOrder, entries⟩ := List.sublist_map_iff.mp both
  obtain ⟨a, rest, rfl, first, entries⟩ := List.map_eq_cons_iff.mp entries.symm
  obtain ⟨b, rest, rfl, second, entries⟩ := List.map_eq_cons_iff.mp entries
  obtain ⟨item, present, marked, same⟩ := mem_runningSequences.mp runs
  have mine : item = b :=
    List.inj_on_of_nodup_map books.items_nodup present (inOrder.subset (by simp))
      (same.trans (congrArg Prod.fst second).symm)
  have free := (List.pairwise_cons.mp (books.clear.sublist inOrder)).1 b (List.mem_cons_self ..)
    (mine ▸ marked)
  rw [show b.key = j.key from congrArg Prod.snd second, show a.key = i.key from congrArg Prod.snd first,
    conflict] at free
  contradiction

/-- One step keeps the order: a start within the step finds the conflicts released by its end, and
releases stand at the head of a step, ahead of every start. -/
private theorem released_before_start_step {events : List (Event K J)} {head : Event K J}
    {started : List (Started J)} {q next : Queue K J} (books : Books events q)
    (booksNext : Books (events ++ head :: startEvents started) next)
    (marked : ∀ s ∈ started, s.sequence ∈ runningSequences next.items)
    (administrative : ∀ n, head ≠ .started n)
    (earlier : ∀ {before after : List (Event K J)} {i j : Submission K J},
      events = before ++ .started j.sequence :: after → [i, j].Sublist (submissions events) →
      conflictsWith j.key i.key = true → .released i.sequence ∈ before)
    {before after : List (Event K J)} {i j : Submission K J}
    (split : events ++ head :: startEvents started = before ++ .started j.sequence :: after)
    (order : [i, j].Sublist (submissions (events ++ head :: startEvents started)))
    (conflict : conflictsWith j.key i.key = true) : .released i.sequence ∈ before := by
  rcases List.append_eq_append_iff.mp split with ⟨middle, rfl, tail⟩ | ⟨middle, rfl, tail⟩
  · cases middle with
    | nil => exact absurd (List.cons.inj tail).1 (administrative _)
    | cons first middle =>
      obtain ⟨rfl, rest⟩ := List.cons.inj tail
      have starting : .started j.sequence ∈ startEvents (K := K) started := by rw [rest]; simp
      obtain ⟨s, member, same⟩ := List.mem_map.mp starting
      have runs := Event.started.inj same ▸ marked s member
      have released := mem_releases.mp (booksNext.released_of_conflict order conflict runs)
      rw [List.mem_append, List.mem_cons] at released ⊢
      rcases released with released | released | released
      · exact .inl released
      · exact .inr (.inl released)
      · obtain ⟨_, _, other⟩ := List.mem_map.mp released
        contradiction
  · cases middle with
    | nil => exact absurd (List.cons.inj tail).1.symm (administrative _)
    | cons first middle =>
      obtain ⟨rfl, rest⟩ := List.cons.inj tail
      rw [submissions_append] at order
      refine earlier rfl (pair_sublist_left order fun late => ?_) conflict
      have began : j.sequence ∈ starts (before ++ .started j.sequence :: middle) := by
        simp [starts]
      obtain ⟨x, member, same⟩ := books.exists_of_started began
      have distinct := booksNext.submissions_nodup
      rw [submissions_append, List.map_append] at distinct
      exact List.disjoint_of_nodup_append distinct (List.mem_map.mpr ⟨x, member, same⟩)
        (List.mem_map_of_mem late)

/-- At the start of a job, whatever was handed in before it and conflicts with it has been
released. -/
theorem Run.released_before_start {limit : Option Limit} {events : List (Event K J)} {q : Queue K J}
    (run : Run limit events q) (few : (submissions events).length < wordLimit)
    {before after : List (Event K J)} {i j : Submission K J}
    (split : events = before ++ .started j.sequence :: after)
    (order : [i, j].Sublist (submissions events)) (conflict : conflictsWith j.key i.key = true) :
    .released i.sequence ∈ before := by
  induction run generalizing before after i j with
  | start => simp at split
  | @submit events q run key job ih =>
    have fewer : (submissions events).length < wordLimit := by
      simp only [submissions_append, List.length_append] at few
      omega
    exact released_before_start_step (run.books fewer) ((run.submit key job).books few)
      (runs_of_takeReady _) (by simp) (ih fewer) split order conflict
  | @release events q run item present runs ih =>
    have fewer : (submissions events).length < wordLimit := by
      simp only [submissions_append, List.length_append] at few
      omega
    exact released_before_start_step (run.books fewer) ((run.release item present runs).books few)
      (runs_of_takeReady _) (by simp) (ih fewer) split order conflict

/-- At every start, each earlier submission that the starting job conflicts with has been released
and so has left the queue, which holds exactly what has not been released; hence no job runs
together with an earlier one that it conflicts with, be that one waiting or running. -/
theorem conflicting_start_after_release {limit : Option Limit} {events : List (Event K J)}
    {q : Queue K J} (run : Run limit events q) (few : (submissions events).length < wordLimit) :
    (∀ (before after : List (Event K J)) (i j : Submission K J),
      events = before ++ .started j.sequence :: after → [i, j].Sublist (submissions events) →
      conflictsWith j.key i.key = true → .released i.sequence ∈ before) ∧
    (q.items.Pairwise fun i j => j.job = none → conflictsWith j.key i.key = false) ∧
    q.items.map Item.entry =
      ((submissions events).filter fun x => x.sequence ∉ releases events).map Submission.entry :=
  ⟨fun _ _ _ _ split order conflict => run.released_before_start few split order conflict,
    (run.books few).clear, (run.books few).entries⟩

/-- A job that reads waits for the one that changes something, while another read waits too. -/
theorem reads_start_after_change : ∃ q : Queue Footprint Unit,
    Run none [.submitted ⟨0, .change, ()⟩, .started 0, .submitted ⟨1, .read, ()⟩,
      .submitted ⟨2, .read, ()⟩, .released 0, .started 1, .started 2] q ∧
    .released 0 ∈ [Event.submitted ⟨0, .change, ()⟩, .started 0, .submitted ⟨1, .read, ()⟩,
      .submitted ⟨2, Footprint.read, ()⟩, .released 0, .started 1] := by
  have empty : Run none [] (⟨none, 0, [], 0⟩ : Queue Footprint Unit) := .start
  have run := (((empty.submit .change ()).submit .read ()).submit .read ()).release
    ⟨0, .change, none⟩ (List.mem_cons_self ..) rfl
  exact ⟨_, run, (conflicting_start_after_release run (by decide)).1 _ []
    ⟨0, .change, ()⟩ ⟨2, .read, ()⟩ rfl (.cons_cons _ (.cons _ (.cons_cons _ .slnil))) rfl⟩

end BuildServer.Queue
