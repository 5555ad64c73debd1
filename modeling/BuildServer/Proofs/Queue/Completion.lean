import BuildServer.Proofs.Pairs
import BuildServer.Proofs.Queue.Progress
import BuildServer.Queue.Completion
import BuildServer.Session.Footprint

/-! # Every job ends once and is known to have ended

A job that is being carried out comes to an ending of its own: it returns something, or it breaks
down and returns nothing. A run of the work says which jobs came to which endings and in what order.
The completion of a job follows from the ending noted for its sequence, so it is pending until the
job is released, and then it brings what the job returned or is abandoned if the job broke down.
-/

namespace BuildServer

open Queue

namespace Work

variable {K J α : Type} [Dependency K]

/-- The runs of work under a limit: jobs are handed in, and jobs that are being carried out end, in
any order, each with an ending that it may come to. -/
inductive Run (ends : J → Option α → Prop) (limit : Option Limit) :
    List (Event K J) → List (UInt64 × Option α) → Work K J α → Prop
  | start : Run ends limit [] [] { queue := { limit } }
  | submit {events : List (Event K J)} {endings : List (UInt64 × Option α)} {w : Work K J α}
      (run : Run ends limit events endings w) (key : K) (job : J) :
      Run ends limit
        (events ++ .submitted ⟨w.queue.nextSequence, key, job⟩ :: startEvents (w.submit key job).2.1)
        endings (w.submit key job).2.2
  | finish {events : List (Event K J)} {endings : List (UInt64 × Option α)} {w : Work K J α}
      (run : Run ends limit events endings w) (s : Started J) (active : s ∈ w.active)
      (ending : Option α) (own : ends s.job ending) :
      Run ends limit
        (events ++ .released s.sequence :: startEvents (w.finish s.sequence ending).1)
        (endings ++ [(s.sequence, ending)]) (w.finish s.sequence ending).2

/-- The sequences of the jobs that are being carried out. -/
def sequences (w : Work K J α) : List UInt64 := w.active.map (·.sequence)

/-- What is known of a job, given the endings so far. -/
def known (endings : List (UInt64 × Option α)) (sequence : UInt64) : Completion α :=
  match endings.lookup sequence with
  | none => .pending
  | some ending => .ofEnding ending

/-- What whoever waits for a job gets when it comes to its ending. -/
def resolution (ending : Option α) : Except QueueError α :=
  match ending with
  | some a => .ok a
  | none => .error .abandoned

theorem wait?_ofEnding (ending : Option α) :
    (Completion.ofEnding ending).wait? = some (resolution ending) := by
  cases ending <;> rfl

theorem resolution_inj {first second : Option α} :
    resolution first = resolution second ↔ first = second := by
  cases first <;> cases second <;> simp [resolution]

@[simp] theorem sequences_submit (w : Work K J α) (key : K) (job : J) :
    (w.submit key job).2.2.sequences = w.sequences ++ (w.submit key job).2.1.map (·.sequence) :=
  List.map_append

@[simp] theorem sequences_finish (w : Work K J α) (sequence : UInt64) (ending : Option α) :
    (w.finish sequence ending).2.sequences =
      w.sequences.erase sequence ++ (w.finish sequence ending).1.map (·.sequence) := by
  have erased : w.sequences.erase sequence =
      (w.active.eraseP fun s => s.sequence == sequence).map (·.sequence) := by
    rw [sequences, List.erase_eq_eraseP', List.eraseP_map]
    rfl
  rw [erased, ← List.map_append]
  rfl

variable {ends : J → Option α → Prop} {limit : Option Limit} {events : List (Event K J)}
  {endings : List (UInt64 × Option α)} {w : Work K J α}

/-- Whatever is being carried out has a running item of its sequence. -/
theorem Run.backed (run : Run ends limit events endings w) :
    w.sequences.Subperm (runningSequences w.queue.items) := by
  induction run with
  | start => exact List.nil_subperm
  | @submit events endings w _ key job ih =>
    obtain ⟨chosen, began, scanned⟩ := submit_scanned w.queue key job
    have runs : (runningSequences (w.queue.submit key job).2.items).Perm
        (chosen.map (·.sequence) ++ runningSequences w.queue.items) := by
      simpa [runningSequences, Submission.item] using scanned.running_perm
    have starts : (w.submit key job).2.1.map (·.sequence) = chosen.map (·.sequence) := by
      rw [← starts_chosen, ← began]
      rfl
    rw [sequences_submit, starts]
    exact (List.perm_append_comm.subperm.trans ((List.subperm_append_left _).mpr ih)).trans
      runs.symm.subperm
  | @finish events endings w _ s active ending _ ih =>
    obtain ⟨chosen, began, scanned⟩ := release_scanned w.queue s.sequence
    have starts : (w.finish s.sequence ending).1.map (·.sequence) = chosen.map (·.sequence) := by
      rw [← starts_chosen, ← began]
      rfl
    have fewer := (ih.trans (runningSequences_subperm w.queue.items s.sequence)).erase s.sequence
    rw [List.erase_cons_head] at fewer
    rw [sequences_finish, starts]
    exact (List.perm_append_comm.subperm.trans ((List.subperm_append_left _).mpr fewer)).trans
      scanned.running_perm.symm.subperm

/-- What is being carried out has started and has not been released. -/
theorem Run.starts_perm (run : Run ends limit events endings w) :
    (starts events).Perm (releases events ++ w.sequences) := by
  induction run with
  | start => exact .nil
  | submit _ key job ih => simpa using ih.append_right _
  | @finish events endings w _ s active ending _ ih =>
    have mine : w.sequences.Perm (s.sequence :: w.sequences.erase s.sequence) :=
      List.perm_cons_erase (List.mem_map_of_mem active)
    have split := ih.trans (mine.append_left _)
    simpa using split.append_right _

/-- Without its endings a run of work is a run of its queue. -/
theorem Run.queue (run : Run ends limit events endings w) : Queue.Run limit events w.queue := by
  induction run with
  | start => exact .start
  | submit _ key job ih => exact ih.submit key job
  | @finish events endings w run s active ending _ ih =>
    have runs : s.sequence ∈ runningSequences w.queue.items :=
      run.backed.subset (List.mem_map_of_mem active)
    obtain ⟨item, present, marked, same⟩ := mem_runningSequences.mp runs
    have released := ih.release item present marked
    rwa [same] at released

/-- How the endings of a run account for its jobs. -/
structure Accounts (ends : J → Option α → Prop) (events : List (Event K J))
    (endings : List (UInt64 × Option α)) (w : Work K J α) : Prop where
  handedIn : ∀ s ∈ w.active, ∃ x ∈ submissions events, s = x.start
  released : endings.map (·.1) = releases events
  own : ∀ p ∈ endings, ∃ x ∈ submissions events, x.sequence = p.1 ∧ ends x.job p.2
  completions : w.completions =
    (submissions events).map fun x => (x.sequence, known endings x.sequence)

/-- Nothing but its own ending changes what is known of a job. -/
theorem known_append {n m : UInt64} {ending : Option α} (absent : n ∉ endings.map (·.1)) :
    known (endings ++ [(n, ending)]) m = if m = n then .ofEnding ending else known endings m := by
  rw [known, List.lookup_append, known]
  by_cases same : m = n
  · subst same
    simp [lookup_eq_none_of_not_mem absent]
  · have other : [(n, ending)].lookup m = none := by
      rw [List.lookup_cons, beq_false_of_ne same, List.lookup_nil]
    rw [other, Option.or_none, if_neg same]

omit [Dependency K] in
/-- The completion of a job that has been handed in follows from the endings. -/
theorem Accounts.completion? (accounts : Accounts ends events endings w) {x : Submission K J}
    (member : x ∈ submissions events) :
    w.completion? x.sequence = some (known endings x.sequence) := by
  rw [Work.completion?, accounts.completions]
  generalize submissions events = handedIn at member
  induction handedIn with
  | nil => contradiction
  | cons y rest ih =>
    rw [List.map_cons, List.lookup_cons]
    by_cases same : x.sequence = y.sequence
    · simp [same]
    · rw [beq_false_of_ne same]
      refine ih ((List.mem_cons.mp member).resolve_left ?_)
      rintro rfl
      exact same rfl

theorem Accounts.submit (accounts : Accounts ends events endings w) (books : Books events w.queue)
    (few : (submissions events).length < wordLimit) (key : K) (job : J) :
    Accounts ends
      (events ++ .submitted ⟨w.queue.nextSequence, key, job⟩ :: startEvents (w.submit key job).2.1)
      endings (w.submit key job).2.2 := by
  have fresh : w.queue.nextSequence ∉ endings.map (·.1) := by
    rw [accounts.released]
    exact books.fresh few
  refine ⟨fun s active => ?_, ?_, fun p member => ?_, ?_⟩
  · rcases List.mem_append.mp active with before | starts
    · obtain ⟨x, handed, same⟩ := accounts.handedIn s before
      exact ⟨x, by simp [handed], same⟩
    · obtain ⟨x, handed, same⟩ := books.submitted_of_submit key job s starts
      refine ⟨x, ?_, same⟩
      rw [submissions_append] at handed ⊢
      rw [submissions_submitted, submissions_startEvents]
      exact handed
  · simpa using accounts.released
  · obtain ⟨x, handed, own⟩ := accounts.own p member
    exact ⟨x, by simp [handed], own⟩
  · have pending : known endings w.queue.nextSequence = .pending := by
      rw [known, lookup_eq_none_of_not_mem fresh]
    simp only [submissions_append, submissions_submitted, submissions_startEvents, List.map_append,
      List.map_cons, List.map_nil, pending, ← accounts.completions]
    rfl

theorem Accounts.finish (accounts : Accounts ends events endings w) (books : Books events w.queue)
    (unreleased : ∀ s ∈ w.active, s.sequence ∉ releases events)
    {s : Started J} (active : s ∈ w.active) {ending : Option α} (own : ends s.job ending) :
    Accounts ends
      (events ++ .released s.sequence :: startEvents (w.finish s.sequence ending).1)
      (endings ++ [(s.sequence, ending)]) (w.finish s.sequence ending).2 := by
  have fresh : s.sequence ∉ endings.map (·.1) := by
    rw [accounts.released]
    exact unreleased s active
  refine ⟨fun t carried => ?_, ?_, fun p member => ?_, ?_⟩
  · rw [submissions_append, submissions_released, submissions_startEvents, List.append_nil]
    rcases List.mem_append.mp carried with before | starts
    · exact accounts.handedIn t (List.mem_of_mem_eraseP before)
    · exact books.submitted_of_release s.sequence t starts
  · simpa using accounts.released
  · rw [submissions_append, submissions_released, submissions_startEvents, List.append_nil]
    rcases List.mem_append.mp member with before | last
    · exact accounts.own p before
    · obtain rfl := List.mem_singleton.mp last
      obtain ⟨x, handed, rfl⟩ := accounts.handedIn s active
      exact ⟨x, handed, rfl, own⟩
  · have noted : (w.finish s.sequence ending).2.completions = w.completions.map fun c =>
        if c.1 = s.sequence then (c.1, .ofEnding ending) else c := rfl
    rw [noted, accounts.completions, submissions_append, submissions_released, submissions_startEvents,
      List.append_nil, List.map_map]
    refine List.map_congr_left fun x _ => ?_
    simp only [Function.comp_apply, known_append fresh]
    split <;> rfl

/-- The accounts are kept along every run in which no sequence is handed out twice. -/
theorem Run.accounts (run : Run ends limit events endings w)
    (few : (submissions events).length < wordLimit) : Accounts ends events endings w := by
  induction run with
  | start =>
    refine ⟨?_, rfl, ?_, rfl⟩ <;> intros <;> contradiction
  | @submit events endings w run key job ih =>
    have fewer : (submissions events).length < wordLimit := by
      simp only [submissions_append, List.length_append] at few
      omega
    exact (ih fewer).submit (run.queue.books fewer) fewer key job
  | @finish events endings w run s active ending own ih =>
    have fewer : (submissions events).length < wordLimit := by
      simp only [submissions_append, List.length_append] at few
      omega
    have books := run.queue.books fewer
    refine (ih fewer).finish books (fun t carried => ?_) active own
    exact books.not_released_of_running (run.backed.subset (List.mem_map_of_mem carried))

/-- At every limit, a queue that holds jobs has one that runs, and running jobs can be released one
after the other until the queue is empty, which takes as many releases as it held jobs. Over a run,
every job is started at most once and released at most once, and whoever waits for it gets what it
returned if it has ended by returning, and learns that it was abandoned if it has broken down; once
the queue is empty every job has been started, has been released and has ended. A sequence that is
handed out again could be released in place of the job that still has it, so what is said of single
jobs keeps to runs in which sequences tell jobs apart. -/
theorem every_job_completes (run : Run ends limit events endings w) :
    (w.queue.items ≠ [] → ∃ item ∈ w.queue.items, item.job = none) ∧
    (∀ sequences q, Draining w.queue sequences q →
      (q.items = [] ↔ sequences.length = w.queue.items.length) ∧
      ∃ later last, Draining q later last ∧ last.items = []) ∧
    ((submissions events).length < wordLimit →
      w.sequences.Perm (runningSequences w.queue.items) ∧
      ∀ x ∈ submissions events,
        (starts events).count x.sequence ≤ 1 ∧ (releases events).count x.sequence ≤ 1 ∧
        (x.sequence ∈ releases events ↔ ∃ ending, (x.sequence, ending) ∈ endings) ∧
        (∀ ending, (x.sequence, ending) ∈ endings → ends x.job ending) ∧
        (∀ ending, (x.sequence, ending) ∈ endings ↔
          (w.completion? x.sequence).bind Completion.wait? = some (resolution ending)) ∧
        (w.queue.isIdle = true →
          (starts events).count x.sequence = 1 ∧ (releases events).count x.sequence = 1)) := by
  have lively := run.queue.lively
  refine ⟨fun nonempty => ?_, fun sequences q draining => ⟨?_, ?_⟩, fun few => ?_⟩
  · obtain ⟨n, runs⟩ := List.exists_mem_of_ne_nil _ (lively.awake nonempty)
    obtain ⟨item, present, marked, -⟩ := mem_runningSequences.mp runs
    exact ⟨item, present, marked⟩
  · rw [draining.length, ← List.length_eq_zero_iff]
    omega
  · exact Draining.exists_empty (draining.lively lively)
  · have books := run.queue.books few
    have accounts := run.accounts few
    have once := accounts.released ▸ books.releases_nodup
    have perm := books.finished.symm.trans run.starts_perm
    refine ⟨((List.perm_append_left_iff _).mp perm).symm, fun x handedIn => ⟨?_, ?_, ?_, ?_, ?_, ?_⟩⟩
    · exact List.nodup_iff_count_le_one.mp books.starts_nodup _
    · exact List.nodup_iff_count_le_one.mp books.releases_nodup _
    · rw [← accounts.released]
      simp
    · intro ending ended
      obtain ⟨y, handed, same, own⟩ := accounts.own _ ended
      exact books.eq_of_sequence handed handedIn same ▸ own
    · intro ending
      rw [mem_iff_lookup_eq_some once, accounts.completion? handedIn, known]
      cases endings.lookup x.sequence with
      | none => simp [Completion.wait?]
      | some result => simp [wait?_ofEnding, resolution_inj]
    · intro idle
      have nothing : w.queue.items = [] := List.isEmpty_iff.mp idle
      have started := books.started.count_eq x.sequence
      have finished := books.finished.count_eq x.sequence
      rw [nothing, waiting_nil, List.map_nil, List.append_nil] at started
      rw [nothing, runningSequences_nil, List.append_nil] at finished
      have once := List.count_eq_one_of_mem books.submissions_nodup (List.mem_map_of_mem handedIn)
      omega

/-- Of two jobs that conflict the first breaks down; the second starts after it and returns. -/
theorem second_job_returns : ∃ w : Work Footprint (Option Nat) Nat,
    Run (fun job ending => ending = job) none
      [.submitted ⟨0, .change, none⟩, .started 0, .submitted ⟨1, .change, some 7⟩, .released 0,
        .started 1, .released 1] [(0, none), (1, some 7)] w ∧
    (w.completion? 0).bind Completion.wait? = some (.error .abandoned) ∧
    (w.completion? 1).bind Completion.wait? = some (.ok 7) := by
  have handedIn : Run (α := Nat) (fun job ending => ending = job) none _ _ _ :=
    (Run.start.submit Footprint.change none).submit Footprint.change (some 7)
  have run := (handedIn.finish ⟨0, none⟩ (List.mem_cons_self ..) none rfl).finish ⟨1, some 7⟩
    (List.mem_cons_self ..) (some 7) rfl
  have completes := ((every_job_completes run).2.2 (by decide)).2
  have first := (completes ⟨0, .change, none⟩ (List.mem_cons_self ..)).2.2.2.2.1 none
  have second := (completes ⟨1, .change, some 7⟩
    (List.mem_cons_of_mem _ (List.mem_cons_self ..))).2.2.2.2.1 (some 7)
  exact ⟨_, run, first.mp (List.mem_cons_self ..),
    second.mp (List.mem_cons_of_mem _ (List.mem_cons_self ..))⟩

end Work

end BuildServer
