import BuildServer.Proofs.Queue.Run
import BuildServer.Proofs.Session.Course

/-! # The queue of a session

What a session does to its queue is a run of it, since a thread always ends with a running item of
its sequence at hand. `Enlisted` ties the submissions of such a run to the messages: the jobs that
messages became are handed in one by one in the order of receipt, and a thread carries out what was
handed in under its sequence. What is known of runs of the queue is thereby known of sessions.
-/

namespace BuildServer

open Backend Protocol Rpc

namespace Session

open Queue

/-- How the submissions to the queue account for the messages and the threads. -/
structure Enlisted (version : String) (ms : List Message) (threads : List Thread)
    (items : List (Item Footprint Job)) (handedIn : List (Submission Footprint Job)) : Prop where
  placed : ∀ x ∈ handedIn, jobAt? version ms x.job.message = some (x.key, x.job)
  increasing : handedIn.Pairwise fun x y => x.job.message < y.job.message
  listed : ∀ d p, jobAt? version ms d = some p → ∃ x ∈ handedIn, x.job.message = d
  waits : ∀ x ∈ waiting items, x ∈ handedIn
  carried : ∀ d sequence, .job d sequence ∈ threads.map (·.origin) →
    ∃ x ∈ handedIn, x.job.message = d ∧ x.sequence = sequence

namespace Enlisted

variable {version : String} {ms : List Message} {threads front back : List Thread}
  {items left : List (Item Footprint Job)} {handedIn : List (Submission Footprint Job)}

/-- Only which jobs threads carry out counts, and items may be missing. -/
theorem congr (enlisted : Enlisted version ms threads items handedIn) (others : List Thread)
    (fewer : left.Sublist items)
    (same : ∀ o ∈ others.map (·.origin), o = .owner ∨ o ∈ threads.map (·.origin)) :
    Enlisted version ms others left handedIn := by
  refine ⟨enlisted.placed, enlisted.increasing, enlisted.listed, fun x waits => ?_,
    fun d sequence member => ?_⟩
  · exact enlisted.waits x ((fewer.filterMap Item.submission?).subset waits)
  · exact enlisted.carried d sequence ((same _ member).resolve_left (by simp))

/-- A message that becomes no job is not handed in. -/
theorem extend (enlisted : Enlisted version ms threads items handedIn) {m : Message}
    (jobless : jobOf? version ms.length m = none) :
    Enlisted version (ms ++ [m]) threads items handedIn := by
  refine ⟨fun x member => ?_, enlisted.increasing, fun d p job => ?_, enlisted.waits,
    enlisted.carried⟩
  · have placed := enlisted.placed x member
    rw [jobAt?_append [m] (lt_of_jobAt? placed), placed]
  · have bound := lt_of_jobAt? job
    rw [List.length_append, List.length_singleton] at bound
    rcases Nat.lt_or_eq_of_le (Nat.le_of_lt_succ bound) with known | rfl
    · rw [jobAt?_append [m] known] at job
      exact enlisted.listed d p job
    · rw [jobAt?_last, jobless] at job
      contradiction

/-- The job of the next message is handed in last. -/
theorem enqueue (enlisted : Enlisted version ms threads items handedIn) {m : Message}
    (x : Submission Footprint Job) (accepted : jobOf? version ms.length m = some (x.key, x.job)) :
    Enlisted version (ms ++ [m]) threads (items ++ [x.item]) (handedIn ++ [x]) := by
  have number : x.job.message = ms.length := message_of_jobOf? accepted
  refine ⟨fun y member => ?_, ?_, fun d p job => ?_, fun y waits => ?_, fun d sequence member => ?_⟩
  · rcases List.mem_append.mp member with before | last
    · have placed := enlisted.placed y before
      rw [jobAt?_append [m] (lt_of_jobAt? placed), placed]
    · obtain rfl := List.mem_singleton.mp last
      rw [number, jobAt?_last, accepted]
  · refine List.pairwise_append.mpr ⟨enlisted.increasing, List.pairwise_singleton _ _, ?_⟩
    intro y before z last
    obtain rfl := List.mem_singleton.mp last
    rw [number]
    exact lt_of_jobAt? (enlisted.placed y before)
  · have bound := lt_of_jobAt? job
    rw [List.length_append, List.length_singleton] at bound
    rcases Nat.lt_or_eq_of_le (Nat.le_of_lt_succ bound) with known | rfl
    · rw [jobAt?_append [m] known] at job
      obtain ⟨y, before, same⟩ := enlisted.listed d p job
      exact ⟨y, List.mem_append_left _ before, same⟩
    · exact ⟨x, by simp, number⟩
  · have either : y ∈ waiting items ∨ y = x := by simpa using waits
    rcases either with before | rfl
    · exact List.mem_append_left _ (enlisted.waits y before)
    · simp
  · obtain ⟨y, before, same⟩ := enlisted.carried d sequence member
    exact ⟨y, List.mem_append_left _ before, same⟩

/-- The jobs that start have been waiting. -/
theorem start (enlisted : Enlisted version ms threads items handedIn) {earlier : List Footprint}
    {chosen : List (Submission Footprint Job)}
    (scanned : Queue.Scanned earlier items left chosen) :
    Enlisted version ms (threads ++ (chosen.map Submission.start).map .ofStarted) left handedIn := by
  refine ⟨enlisted.placed, enlisted.increasing, enlisted.listed,
    fun x waits => enlisted.waits x (scanned.waiting_sublist.subset waits),
    fun d sequence member => ?_⟩
  rw [List.map_append] at member
  rcases List.mem_append.mp member with before | starts
  · exact enlisted.carried d sequence before
  · simp only [List.map_map, List.mem_map, Function.comp_apply] at starts
    obtain ⟨x, picked, origin⟩ := starts
    refine ⟨x, enlisted.waits x (scanned.chosen_sublist.subset picked), ?_⟩
    simpa [Thread.ofStarted, Submission.start] using origin

end Enlisted

/-- Every run of a session is a run of its queue, in which the jobs of its messages are handed in. -/
theorem queue_run_of_run? {settings : Settings} {hasObserver : Bool} {moves : List Move}
    {s : Session} (run : (start settings hasObserver).run? moves = some s) :
    ∃ events, Queue.Run settings.queueConcurrency events s.queue ∧
      Enlisted s.version (messages moves) s.threads s.queue.items (submissions events) := by
  refine run?_induction (fun moves s => ∃ events,
    Queue.Run settings.queueConcurrency events s.queue ∧
      Enlisted s.version (messages moves) s.threads s.queue.items (submissions events)) ?_ ?_ run
  · refine ⟨[], .start, ?_⟩
    constructor <;> simp [start, submissions, messages, jobAt?]
  · rintro moves s move next before ⟨events, queue, enlisted⟩ step
    obtain ⟨counted, balanced⟩ := balanced_of_run? before
    rw [messages_append]
    cases step with
    | @dropped m _ jobless =>
      rw [counted] at jobless
      exact ⟨events, queue, enlisted.extend jobless⟩
    | @refused r e refusal =>
      exact ⟨events, queue, enlisted.extend (jobOf?_of_refusal refusal)⟩
    | @queued m f j accepted =>
      rw [counted] at accepted
      obtain ⟨chosen, began, scanned⟩ := submit_scanned s.queue f j
      have lined := (enlisted.enqueue (m := m) ⟨s.queue.nextSequence, f, j⟩ accepted).start scanned
      refine ⟨_, queue.submit f j, ?_⟩
      simpa [messages, began] using lined
    | pushed => exact ⟨events, queue, by simpa [messages] using enlisted⟩
    | closing =>
      have same := enlisted.congr (s.threads ++ [⟨.owner, none, .close⟩]) (.refl _) (by grind)
      exact ⟨events, queue, by simpa [messages] using same⟩
    | @goes front back t answers body phase claimed more split goes =>
      have same := enlisted.congr (front ++ { t with body } :: back) (.refl _) (by grind)
      exact ⟨events, queue, by simpa [messages] using same⟩
    | @replied front back message sequence owed outcome answers split =>
      have same := enlisted.congr (front ++ ⟨.job message sequence, none, .finish outcome⟩ :: back)
        (.refl _) (by grind)
      exact ⟨events, queue, by simpa [messages] using same⟩
    | @ended front back message sequence outcome answers split =>
      have less := enlisted.congr (front ++ back) (List.eraseP_sublist
        (p := fun item => item.sequence == sequence)) (by grind)
      rw [split] at balanced
      obtain ⟨item, present, marked, rfl⟩ := mem_runningSequences.mp balanced.runs
      obtain ⟨chosen, began, scanned⟩ := release_scanned s.queue item.sequence
      refine ⟨_, queue.release item present marked, ?_⟩
      simpa [messages, began] using less.start scanned
    | @left front back owed outcome answers split =>
      have same := enlisted.congr (front ++ (if owed.isSome then
        [⟨.owner, none, .finish outcome⟩] else []) ++ back) (.refl _) (by grind)
      exact ⟨events, queue, by simpa [messages] using same⟩

end Session

end BuildServer
