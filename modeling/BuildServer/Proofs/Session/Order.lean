import BuildServer.Proofs.Session.Footprint
import BuildServer.Proofs.Session.Reply

/-! # Changes run alone and in the order of receipt

Jobs that change something wait for all before them and are waited for by all after them. `Ordered`
says what this comes to for the jobs that wait and those that threads carry out: a change that runs
is the only job that runs, every job that waits was received after it, and while a change waits,
only jobs received before it run. This needs no two sequences to be told apart: a thread always has
a running item of its sequence, and nothing runs behind a change that waits, so that no release can
take such a change out of the queue.
-/

namespace BuildServer

open Backend Protocol Rpc

/-- The message whose job a thread carries out. -/
def Thread.message? (t : Thread) : Option Nat :=
  match t.origin with
  | .job message _ => some message
  | .owner => none

@[simp] theorem Thread.message?_ofStarted (s : Started Job) :
    (Thread.ofStarted s).message? = some s.job.message := rfl

theorem Thread.message?_eq_some {t : Thread} {message : Nat} :
    t.message? = some message ↔ ∃ sequence, t.origin = .job message sequence := by
  unfold Thread.message?
  cases t.origin <;> simp

namespace Session

open Queue

/-- The messages whose jobs threads carry out. -/
def working (threads : List Thread) : List Nat := threads.filterMap Thread.message?

/-- The job that one of the messages became, with what it touches. -/
def jobAt? (version : String) (ms : List Message) (message : Nat) : Option (Footprint × Job) :=
  ms[message]?.bind (jobOf? version message)

section Facts

variable {version : String} {ms : List Message} {message : Nat}

@[simp] theorem working_nil : working [] = [] := rfl

@[simp] theorem working_append (first second : List Thread) :
    working (first ++ second) = working first ++ working second := List.filterMap_append

@[simp] theorem working_cons (t : Thread) (threads : List Thread) :
    working (t :: threads) = t.message?.toList ++ working threads := by
  simp only [working, List.filterMap_cons]
  cases t.message? <;> rfl

theorem mem_working {threads : List Thread} :
    message ∈ working threads ↔ ∃ t ∈ threads, ∃ sequence, t.origin = .job message sequence := by
  simp only [working, List.mem_filterMap, Thread.message?_eq_some]

/-- Whoever carries out a job has its sequence. -/
theorem working_eq_nil {threads : List Thread} (idle : sequences threads = []) :
    working threads = [] := by
  apply List.eq_nil_iff_forall_not_mem.mpr
  intro message member
  obtain ⟨t, present, sequence, origin⟩ := mem_working.mp member
  have runs : sequence ∈ sequences threads :=
    List.mem_filterMap.mpr ⟨t, present, by simp [Thread.sequence?, origin]⟩
  rw [idle] at runs
  contradiction

theorem working_started (chosen : List (Submission Footprint Job)) :
    working ((chosen.map Submission.start).map .ofStarted) = chosen.map (·.job.message) := by
  simp [working, List.filterMap_map, Function.comp_def, Submission.start]

theorem lt_of_jobAt? {p : Footprint × Job} (job : jobAt? version ms message = some p) :
    message < ms.length := by
  obtain ⟨m, present, -⟩ := Option.bind_eq_some_iff.mp job
  exact (List.getElem?_eq_some_iff.mp present).1

/-- Later messages change nothing about the job of an earlier one. -/
theorem jobAt?_append (more : List Message) (known : message < ms.length) :
    jobAt? version (ms ++ more) message = jobAt? version ms message := by
  rw [jobAt?, jobAt?, List.getElem?_append_left known]

theorem jobAt?_last (m : Message) :
    jobAt? version (ms ++ [m]) ms.length = jobOf? version ms.length m := by
  rw [jobAt?, List.getElem?_concat_length]
  rfl

theorem message_of_jobOf? {m : Message} {f : Footprint} {j : Job}
    (accepted : jobOf? version message m = some (f, j)) : j.message = message := by
  obtain ⟨r, q, rfl, -, -, rfl⟩ | ⟨n, notice, rfl, -, -, rfl⟩ := jobOf?_cases accepted
  · rfl
  · rfl

end Facts

/-- How the jobs that run and those that wait are ordered. -/
structure Ordered (version : String) (ms : List Message) (threads : List Thread)
    (items : List (Item Footprint Job)) : Prop where
  placed : ∀ x ∈ waiting items, jobAt? version ms x.job.message = some (x.key, x.job)
  increasing : (waiting items).Pairwise fun x y => x.job.message < y.job.message
  clear : Clear items
  known : ∀ d ∈ working threads, d < ms.length
  distinct : (working threads).Nodup
  apart : ∀ x ∈ waiting items, x.job.message ∉ working threads
  alone : ∀ d ∈ working threads, ∀ j, jobAt? version ms d = some (.change, j) →
    working threads = [d] ∧ (∃ item ∈ items, item.job = none ∧ item.key = .change) ∧
      ∀ x ∈ waiting items, d < x.job.message
  behind : ∀ x ∈ waiting items, x.key = .change → ∀ d ∈ working threads, d < x.job.message

namespace Ordered

variable {version : String} {ms : List Message} {threads front back : List Thread}
  {items left : List (Item Footprint Job)}

/-- Only which jobs threads carry out counts. -/
theorem congr (ordered : Ordered version ms threads items) (others : List Thread)
    (same : working others = working threads) : Ordered version ms others items := by
  obtain ⟨placed, increasing, clear, known, distinct, apart, alone, behind⟩ := ordered
  rw [← same] at known distinct apart alone behind
  exact ⟨placed, increasing, clear, known, distinct, apart, alone, behind⟩

/-- The next message does not disturb the order. -/
theorem extend (ordered : Ordered version ms threads items) (m : Message) :
    Ordered version (ms ++ [m]) threads items := by
  refine ⟨fun x waits => ?_, ordered.increasing, ordered.clear, fun d works => ?_,
    ordered.distinct, ordered.apart, fun d works j job => ?_, ordered.behind⟩
  · have placed := ordered.placed x waits
    rw [jobAt?_append [m] (lt_of_jobAt? placed)]
    exact placed
  · have known := ordered.known d works
    rw [List.length_append]
    omega
  · rw [jobAt?_append [m] (ordered.known d works)] at job
    exact ordered.alone d works j job

/-- The job of the next message lines up behind all others. -/
theorem enqueue (ordered : Ordered version ms threads items) {m : Message}
    (x : Submission Footprint Job)
    (accepted : jobOf? version ms.length m = some (x.key, x.job)) :
    Ordered version (ms ++ [m]) threads (items ++ [x.item]) := by
  have number : x.job.message = ms.length := message_of_jobOf? accepted
  have earlier : ∀ y ∈ waiting items, y.job.message < ms.length :=
    fun y waits => lt_of_jobAt? (ordered.placed y waits)
  have extended := ordered.extend m
  have split : ∀ y ∈ waiting (items ++ [x.item]), y ∈ waiting items ∨ y = x := by
    intro y waits
    simpa using waits
  refine ⟨fun y waits => ?_, ?_, ?_, extended.known, ordered.distinct, fun y waits => ?_,
    fun d works j job => ?_, fun y waits change d works => ?_⟩
  · rcases split y waits with before | rfl
    · exact extended.placed y before
    · rw [number, jobAt?_last]
      exact accepted
  · rw [waiting_append]
    refine List.pairwise_append.mpr ⟨ordered.increasing, List.pairwise_singleton _ _, ?_⟩
    intro y waits z last
    obtain rfl := List.mem_singleton.mp last
    rw [number]
    exact earlier y waits
  · refine List.pairwise_append.mpr ⟨ordered.clear, List.pairwise_singleton _ _, ?_⟩
    intro a _ b last runs
    obtain rfl := List.mem_singleton.mp last
    contradiction
  · rcases split y waits with before | rfl
    · exact ordered.apart y before
    · intro works
      have known := ordered.known _ works
      omega
  · obtain ⟨single, ⟨item, present, runs, key⟩, after⟩ := extended.alone d works j job
    refine ⟨single, ⟨item, List.mem_append_left _ present, runs, key⟩, fun y waits => ?_⟩
    rcases split y waits with before | rfl
    · exact after y before
    · rw [number]
      exact ordered.known d works
  · rcases split y waits with before | rfl
    · exact ordered.behind y before change d works
    · rw [number]
      exact ordered.known d works

/-- A job that waits is the one that its message became. -/
theorem eq_of_jobAt? (ordered : Ordered version ms threads items) {x : Submission Footprint Job}
    (waits : x ∈ waiting items) {f : Footprint} {j : Job}
    (job : jobAt? version ms x.job.message = some (f, j)) : x.key = f ∧ x.job = j := by
  have placed := ordered.placed x waits
  rw [job] at placed
  exact ⟨(congrArg Prod.fst (Option.some.inj placed)).symm,
    (congrArg Prod.snd (Option.some.inj placed)).symm⟩

/-- Where a change starts, no other job is carried out. -/
theorem none_working (ordered : Ordered version ms threads items)
    (backed : ∀ n, (sequences threads).count n ≤ (runningSequences items).count n)
    {chosen : List (Submission Footprint Job)} (scanned : Scanned [] items left chosen)
    {x : Submission Footprint Job} (starts : x ∈ chosen) (change : x.key = .change) :
    working threads = [] := by
  obtain ⟨rest, rfl, -, -, idle⟩ :=
    scanned.barrier ordered.clear starts (change ▸ barrier_change)
  apply working_eq_nil
  apply List.eq_nil_iff_forall_not_mem.mpr
  intro n member
  have count := backed n
  have positive := List.count_pos_iff.mpr member
  rw [runningSequences_item, idle, List.count_nil] at count
  omega

/-- The jobs that start and those that go on waiting are of different messages. -/
theorem chosen_apart (ordered : Ordered version ms threads items)
    {chosen : List (Submission Footprint Job)} (scanned : Scanned [] items left chosen) :
    (chosen.map (·.job.message) ++ (waiting left).map (·.job.message)).Nodup := by
  have nodup : ((waiting items).map (·.job.message)).Nodup :=
    List.pairwise_map.mpr (ordered.increasing.imp Nat.ne_of_lt)
  rw [← List.map_append]
  exact (scanned.waiting_perm.map _).nodup_iff.mp nodup

/-- A change that runs or starts is alone: nothing starts beside it, and it starts beside nothing. -/
theorem alone_start (ordered : Ordered version ms threads items)
    (backed : ∀ n, (sequences threads).count n ≤ (runningSequences items).count n)
    {chosen : List (Submission Footprint Job)} (scanned : Scanned [] items left chosen) {d : Nat}
    (works : d ∈ working threads ++ chosen.map (·.job.message)) {j : Job}
    (job : jobAt? version ms d = some (.change, j)) :
    working threads ++ chosen.map (·.job.message) = [d] ∧
      (∃ item ∈ left, item.job = none ∧ item.key = .change) ∧
      ∀ x ∈ waiting left, d < x.job.message := by
  rcases List.mem_append.mp works with before | starts
  · obtain ⟨single, ⟨item, present, runs, key⟩, after⟩ := ordered.alone d before j job
    have nothing : chosen = [] :=
      scanned.chosen_eq_nil ordered.clear present runs (key ▸ barrier_change)
    subst nothing
    obtain rfl := scanned.eq_of_nil
    refine ⟨?_, ⟨item, present, runs, key⟩, after⟩
    simpa using single
  · obtain ⟨y, picked, rfl⟩ := List.mem_map.mp starts
    obtain ⟨change, -⟩ := ordered.eq_of_jobAt? (scanned.chosen_sublist.subset picked) job
    have quiet := ordered.none_working backed scanned picked change
    obtain ⟨rest, rfl, rfl, rfl, -⟩ :=
      scanned.barrier ordered.clear picked (change ▸ barrier_change)
    refine ⟨?_, ⟨y.item.running, List.mem_cons_self .., rfl, change⟩, fun x waits => ?_⟩
    · rw [quiet]
      rfl
    · exact (List.pairwise_cons.mp ordered.increasing).1 x waits

/-- The jobs that start are in order with those that run already and those that go on waiting. -/
theorem start (ordered : Ordered version ms threads items)
    (backed : ∀ n, (sequences threads).count n ≤ (runningSequences items).count n)
    {chosen : List (Submission Footprint Job)} (scanned : Scanned [] items left chosen) :
    Ordered version ms (threads ++ (chosen.map Submission.start).map .ofStarted) left := by
  have started : ∀ y ∈ chosen, y ∈ waiting items := fun y starts =>
    scanned.chosen_sublist.subset starts
  have stays : ∀ x ∈ waiting left, x ∈ waiting items := fun x waits =>
    scanned.waiting_sublist.subset waits
  have apart := List.nodup_append.mp (ordered.chosen_apart scanned)
  have grown : working (threads ++ (chosen.map Submission.start).map .ofStarted) =
      working threads ++ chosen.map (·.job.message) := by
    rw [working_append, working_started]
  have either : ∀ d ∈ working threads ++ chosen.map (·.job.message),
      d ∈ working threads ∨ ∃ y ∈ chosen, y.job.message = d := by
    intro d works
    simpa using works
  constructor
  · exact fun x waits => ordered.placed x (stays x waits)
  · exact ordered.increasing.sublist scanned.waiting_sublist
  · exact scanned.clear ordered.clear
  · intro d works
    rw [grown] at works
    rcases either d works with before | ⟨y, starts, rfl⟩
    · exact ordered.known d before
    · exact lt_of_jobAt? (ordered.placed y (started y starts))
  · rw [grown]
    refine List.nodup_append.mpr ⟨ordered.distinct, apart.1, ?_⟩
    rintro d works e starts rfl
    obtain ⟨y, member, rfl⟩ := List.mem_map.mp starts
    exact ordered.apart y (started y member) works
  · intro x waits works
    rw [grown] at works
    rcases List.mem_append.mp works with before | starts
    · exact ordered.apart x (stays x waits) before
    · exact apart.2.2 _ starts _ (List.mem_map_of_mem waits) rfl
  · intro d works j job
    rw [grown] at works ⊢
    exact ordered.alone_start backed scanned works job
  · intro x waits change d works
    rw [grown] at works
    rcases either d works with before | ⟨y, starts, rfl⟩
    · exact ordered.behind x (stays x waits) change d before
    · have conflict : conflictsWith y.key x.key = true := by
        rw [change]
        exact (barrier_change y.key).2
      have order := scanned.chosen_before starts waits conflict
      exact List.pairwise_iff_forall_sublist.mp ordered.increasing order

/-- The order survives the end of a job, whichever item the release takes out. -/
theorem finish {message : Nat} {sequence : UInt64} {owed : Option OwedReply} {body : Body}
    (ordered : Ordered version ms (front ++ ⟨.job message sequence, owed, body⟩ :: back) items)
    {kept : List (Item Footprint Job)} (fewer : kept.Sublist items) :
    Ordered version ms (front ++ back) kept := by
  have stays : ∀ x ∈ waiting kept, x ∈ waiting items := fun x waits =>
    (fewer.filterMap Item.submission?).subset waits
  have less : (working (front ++ back)).Sublist
      (working (front ++ ⟨.job message sequence, owed, body⟩ :: back)) := by
    rw [working_append, working_append, working_cons]
    exact (List.sublist_append_right _ _).append_left _
  constructor
  · exact fun x waits => ordered.placed x (stays x waits)
  · exact ordered.increasing.sublist (fewer.filterMap Item.submission?)
  · exact ordered.clear.sublist fewer
  · exact fun d works => ordered.known d (less.subset works)
  · exact ordered.distinct.sublist less
  · exact fun x waits works => ordered.apart x (stays x waits) (less.subset works)
  · intro d works j job
    obtain ⟨single, -, -⟩ := ordered.alone d (less.subset works) j job
    have empty : working (front ++ back) = [] := by
      have length := congrArg List.length single
      simp only [working_append, working_cons, Thread.message?, List.length_append, Option.toList_some,
        List.length_cons, List.length_nil] at length
      rw [List.eq_nil_iff_length_eq_zero, working_append, List.length_append]
      omega
    rw [empty] at works
    contradiction
  · exact fun x waits change d works =>
      ordered.behind x (stays x waits) change d (less.subset works)

/-- The order is kept by every move. -/
theorem move {s next : Session} {move : Move}
    (ordered : Ordered s.version ms s.threads s.queue.items) (counted : s.received = ms.length)
    (balanced : Balanced (asked ms) (paid s.events) s.threads s.queue.items)
    (moves : Moves s move next) :
    Ordered next.version (ms ++ messages [move]) next.threads next.queue.items := by
  cases moves with
  | @dropped m _ _ => exact ordered.extend m
  | @refused r e _ => exact ordered.extend (.request r)
  | @queued m f j accepted =>
    rw [counted] at accepted
    obtain ⟨chosen, began, scanned⟩ := submit_scanned s.queue f j
    have lined := ordered.enqueue (m := m) ⟨s.queue.nextSequence, f, j⟩ accepted
    have backed := (balanced.ask ⟨s.queue.nextSequence, f, j⟩).backed
    simpa [messages, began] using lined.start backed scanned
  | pushed => simpa [messages] using ordered
  | closing =>
    have same := ordered.congr (s.threads ++ [⟨.owner, none, .close⟩]) (by simp [Thread.message?])
    simpa [messages] using same
  | @goes front back t answers body phase claimed events split goes =>
    have same := ordered.congr (front ++ { t with body } :: back)
      (by simp [split, Thread.message?])
    simpa [messages] using same
  | @replied front back message sequence owed outcome answers split =>
    have same := ordered.congr (front ++ ⟨.job message sequence, none, .finish outcome⟩ :: back)
      (by simp [split, Thread.message?])
    simpa [messages] using same
  | @ended front back message sequence outcome answers split =>
    rw [split] at ordered balanced
    obtain ⟨chosen, began, scanned⟩ := release_scanned s.queue sequence
    have ended := (ordered.finish List.eraseP_sublist).start balanced.finish.backed scanned
    simpa [messages, began] using ended
  | @left front back owed outcome answers split =>
    have same := ordered.congr (front ++ (if owed.isSome then
        [⟨.owner, none, .finish outcome⟩] else []) ++ back)
      (by cases owed <;> simp [split, Thread.message?])
    simpa [messages] using same

end Ordered

/-- Every run keeps its jobs in order. -/
theorem ordered_of_run? {settings : Settings} {hasObserver : Bool} {moves : List Move} {s : Session}
    (run : (start settings hasObserver).run? moves = some s) :
    Ordered s.version (messages moves) s.threads s.queue.items := by
  refine run?_induction (fun moves s => Ordered s.version (messages moves) s.threads s.queue.items)
    ?_ ?_ run
  · constructor <;> simp [start, Clear]
  · intro moves s move next before ordered step
    obtain ⟨counted, balanced⟩ := balanced_of_run? before
    rw [messages_append]
    exact ordered.move counted balanced step

end Session

end BuildServer
