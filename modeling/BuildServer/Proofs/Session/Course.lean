import BuildServer.Proofs.Session.Act
import BuildServer.Proofs.Session.Order

/-! # The course of one job

Threads take their steps in any order, and the events of a session are mixed accordingly. Those
about one message, however, are what its job alone brings about: `Course` lets a single thread go
on, with whatever phase it finds and whatever the backend answers, and `Recorded` says that the
events about every message are such a course. What holds of each course holds of each job in every
run.
-/

namespace BuildServer

open Backend Protocol Rpc

/-- The message that an event is about. -/
def Session.Event.message? : Session.Event → Option Nat
  | .checked (.job message _) _ | .called (.job message _) _ | .returned (.job message _) _ _
  | .closed (.job message _) | .released (.job message _) | .replied message _ => some message
  | _ => none

namespace Session

open Queue

/-- The events about a message, in order. -/
def about (message : Nat) (events : List Event) : List Event :=
  events.filter fun e => e.message? = some message

/-- How far the thread of a job may come by itself: what it owes, the steps that it still has to
take, and the events that it has caused. -/
inductive Course (message : Nat) (sequence : UInt64) (j : Job) :
    Option OwedReply → Body → List Event → Prop
  | start : Course message sequence j j.owed j.body []
  | goes {owed : Option OwedReply} {body rest : Body} {record events : List Event}
      {phase next : Phase} {claimed claims : Bool} (before : Course message sequence j owed body record)
      (goes : Goes (.job message sequence) phase claimed body rest next claims events) :
      Course message sequence j owed rest (record ++ events)
  | replied {owed : OwedReply} {outcome : Option Outcome} {record : List Event}
      (before : Course message sequence j (some owed) (.finish outcome) record) :
      Course message sequence j none (.finish outcome)
        (record ++ [.replied message (owed.response outcome)])

theorem Course.every {message : Nat} {sequence : UInt64} {j : Job} {owed : Option OwedReply}
    {body : Body} {record : List Event} {allowed : Body.Act → Prop}
    (course : Course message sequence j owed body record) (every : j.body.Every allowed) :
    body.Every allowed := by
  induction course with
  | start => exact every
  | goes _ goes ih => exact goes.every ih
  | replied _ ih => exact ih

section Replies

variable {message : Nat} {sequence : UInt64} {j : Job} {owed : Option OwedReply} {body : Body}
  {record : List Event}

/-- What a thread owes is what its job owed, or it has been paid. -/
theorem Course.owed_cases (course : Course message sequence j owed body record) :
    owed = j.owed ∨ owed = none := by
  induction course with
  | start => exact .inl rfl
  | goes _ _ ih => exact ih
  | replied => exact .inr rfl

/-- A reply carries the outcome that the thread has come to. -/
theorem Course.of_replied (course : Course message sequence j owed body record) {n : Nat}
    {reply : Response} (sent : .replied n reply ∈ record) : ∃ outcome o, j.owed = some o ∧
      reply = o.response outcome ∧ body = .finish outcome := by
  induction course with
  | start => contradiction
  | goes _ goes ih =>
    rcases List.mem_append.mp sent with before | new
    · obtain ⟨outcome, o, owes, same, rfl⟩ := ih before
      cases goes
    · cases goes <;> simp at new
  | @replied owed outcome record before ih =>
    rcases List.mem_append.mp sent with earlier | new
    · obtain ⟨result, o, owes, same, body⟩ := ih earlier
      exact ⟨result, o, owes, same, body⟩
    · obtain ⟨-, rfl⟩ : n = message ∧ reply = owed.response outcome := by simpa using new
      have owes := before.owed_cases.resolve_right (by simp)
      exact ⟨outcome, owed, owes.symm, rfl, rfl⟩

end Replies

/-- A job makes only calls that its steps allow. -/
theorem Course.called {message : Nat} {sequence : UInt64} {j : Job} {owed : Option OwedReply}
    {body : Body} {record : List Event} {allowed : Body.Act → Prop}
    (course : Course message sequence j owed body record) (every : j.body.Every allowed)
    {origin : Origin} {c : Call} (called : .called origin c ∈ record) : allowed (.call c) := by
  induction course with
  | start => contradiction
  | goes before goes ih =>
    rcases List.mem_append.mp called with earlier | new
    · exact ih earlier
    · cases goes with
      | called =>
        obtain ⟨-, rfl⟩ : origin = _ ∧ c = _ := by simpa using new
        exact (before.every every).1
      | _ => simp at new
  | replied _ ih => exact ih (by simpa using called)

/-- The answer to a message that becomes no job. -/
def atOnce (number : Nat) : Message → List Event
  | .request r => (refusal? r).toList.map fun e => .replied number ⟨some r.id, .error e⟩
  | _ => []

theorem mem_about {message : Nat} {events : List Event} {e : Event} :
    e ∈ about message events ↔ e ∈ events ∧ e.message? = some message := by
  rw [about, List.mem_filter, decide_eq_true_eq]

theorem about_append (message : Nat) (first second : List Event) :
    about message (first ++ second) = about message first ++ about message second :=
  List.filter_append ..

theorem about_append_own {message : Nat} {more : List Event}
    (own : ∀ e ∈ more, e.message? = some message) (events : List Event) :
    about message (events ++ more) = about message events ++ more := by
  rw [about_append]
  exact congrArg _ (List.filter_eq_self.mpr fun e member => by simpa using own e member)

theorem about_append_other {message : Nat} {more : List Event}
    (other : ∀ e ∈ more, e.message? ≠ some message) (events : List Event) :
    about message (events ++ more) = about message events := by
  have nothing : about message more = [] :=
    List.filter_eq_nil_iff.mpr fun e member => by simpa using other e member
  rw [about_append, nothing, List.append_nil]

/-- What is observed is about no message. -/
theorem about_observation (message : Nat) (hasObserver : Bool) (m : Message) (events : List Event) :
    about message (events ++ observation hasObserver m) = about message events := by
  refine about_append_other ?_ events
  cases m <;> cases hasObserver <;> simp [observation, Event.message?]

/-- A thread causes events about its own message only. -/
theorem Goes.message? {origin : Origin} {phase next : Phase} {claimed claims : Bool}
    {body rest : Body} {events : List Event}
    (goes : Goes origin phase claimed body rest next claims events) {message : Nat}
    {sequence : UInt64} (job : origin = .job message sequence) :
    ∀ e ∈ events, e.message? = some message := by
  subst job
  cases goes <;> simp [Event.message?]

/-- The owner causes no event about a message. -/
theorem Goes.message?_owner {phase next : Phase} {claimed claims : Bool} {body rest : Body}
    {events : List Event} (goes : Goes .owner phase claimed body rest next claims events) :
    ∀ e ∈ events, e.message? = none := by
  cases goes <;> simp [Event.message?]

/-- A message that becomes a job is not answered at once. -/
theorem atOnce_of_jobOf? {version : String} {number : Nat} {m : Message} {f : Footprint} {j : Job}
    (accepted : jobOf? version number m = some (f, j)) : atOnce number m = [] := by
  obtain ⟨r, q, rfl, read, -, -⟩ | ⟨n, notice, rfl, -, -, -⟩ := jobOf?_cases accepted
  · simp [atOnce, refusal?, read]
  · rfl

theorem jobOf?_of_refusal {version : String} {number : Nat} {r : Request} {e : ResponseError}
    (refusal : refusal? r = some e) : jobOf? version number (.request r) = none := by
  simp only [refusal?] at refusal
  simp only [jobOf?]
  split at refusal <;> simp_all

/-- What is noted of every message is a course of its job, or its answer if it has none. -/
structure Recorded (version : String) (ms : List Message) (threads : List Thread)
    (items : List (Item Footprint Job)) (noted : Nat → List Event) : Prop where
  running : ∀ t ∈ threads, ∀ d sequence, t.origin = .job d sequence →
    ∃ f j, jobAt? version ms d = some (f, j) ∧ Course d sequence j t.owed t.body (noted d)
  untouched : ∀ x ∈ waiting items, noted x.job.message = []
  unseen : ∀ d, ms.length ≤ d → noted d = []
  account : ∀ d f j, jobAt? version ms d = some (f, j) →
    ∃ sequence owed body record, Course d sequence j owed body record ∧ (noted d = record ∨
      owed = none ∧ (∃ outcome, body = .finish outcome) ∧
        noted d = record ++ [.released (.job d sequence)])
  answered : ∀ d, jobAt? version ms d = none → noted d = (ms[d]?.map (atOnce d)).getD []

/-- No other thread carries out the same job. -/
theorem Ordered.other {version : String} {ms : List Message} {front back : List Thread} {t : Thread}
    {items : List (Item Footprint Job)} (ordered : Ordered version ms (front ++ t :: back) items)
    {d : Nat} {sequence : UInt64} (origin : t.origin = .job d sequence) :
    d ∉ working (front ++ back) := by
  have distinct := ordered.distinct
  have mine : t.message? = some d := by rw [Thread.message?, origin]
  have perm : (working (front ++ t :: back)).Perm (d :: working (front ++ back)) := by
    simp [mine, List.perm_middle]
  exact (List.nodup_cons.mp (perm.nodup_iff.mp distinct)).1

namespace Recorded

variable {version : String} {ms : List Message} {threads front back : List Thread}
  {items left : List (Item Footprint Job)} {noted next : Nat → List Event}

/-- Threads of the owner do not matter. -/
theorem congr (recorded : Recorded version ms threads items noted) (others : List Thread)
    (jobs : ∀ t ∈ others, ∀ d sequence, t.origin = .job d sequence → t ∈ threads) :
    Recorded version ms others items noted := by
  obtain ⟨running, untouched, unseen, account, answered⟩ := recorded
  refine ⟨fun t member d sequence origin => ?_, untouched, unseen, account, answered⟩
  exact running t (jobs t member d sequence origin) d sequence origin

/-- The next message is answered at once or noted later. -/
theorem extend (recorded : Recorded version ms threads items noted)
    (ordered : Ordered version ms threads items) {m : Message}
    (last : next ms.length = atOnce ms.length m) (others : ∀ d ≠ ms.length, next d = noted d) :
    Recorded version (ms ++ [m]) threads items next := by
  have length : (ms ++ [m]).length = ms.length + 1 := by simp
  constructor
  · intro t member d sequence origin
    have known := ordered.known d (mem_working.mpr ⟨t, member, sequence, origin⟩)
    rw [jobAt?_append [m] known, others d (Nat.ne_of_lt known)]
    exact recorded.running t member d sequence origin
  · intro x waits
    have known := lt_of_jobAt? (ordered.placed x waits)
    rw [others _ (Nat.ne_of_lt known)]
    exact recorded.untouched x waits
  · intro d beyond
    rw [others d (by omega)]
    exact recorded.unseen d (by omega)
  · intro d f j job
    have bound := lt_of_jobAt? job
    rcases Nat.lt_or_eq_of_le (show d ≤ ms.length by omega) with known | rfl
    · rw [jobAt?_append [m] known] at job
      rw [others d (Nat.ne_of_lt known)]
      exact recorded.account d f j job
    · rw [jobAt?_last] at job
      rw [last, atOnce_of_jobOf? job]
      exact ⟨0, j.owed, j.body, [], .start, .inl rfl⟩
  · intro d jobless
    rcases Nat.lt_trichotomy d ms.length with known | rfl | beyond
    · rw [jobAt?_append [m] known] at jobless
      rw [others d (Nat.ne_of_lt known), List.getElem?_append_left known]
      exact recorded.answered d jobless
    · rw [last, List.getElem?_concat_length]
      rfl
    · rw [others d (Nat.ne_of_gt beyond), recorded.unseen d (Nat.le_of_lt beyond),
        List.getElem?_eq_none (by omega)]
      rfl

/-- A thread takes a step, and what it causes is noted of its message and of no other. It may end
with that, and its job may leave the queue. -/
theorem touch {t : Thread} (recorded : Recorded version ms (front ++ t :: back) items noted)
    (ordered : Ordered version ms (front ++ t :: back) items) {d : Nat} {sequence : UInt64}
    (origin : t.origin = .job d sequence) (others : ∀ e ≠ d, next e = noted e)
    {kept : List (Item Footprint Job)} (fewer : kept.Sublist items)
    (running : ∀ v ∈ threads, v ∈ front ++ back ∨ v.origin = .job d sequence ∧
      ∀ j, Course d sequence j t.owed t.body (noted d) → Course d sequence j v.owed v.body (next d))
    (account : ∀ j, Course d sequence j t.owed t.body (noted d) →
      ∃ owed body record, Course d sequence j owed body record ∧ (next d = record ∨
        owed = none ∧ (∃ outcome, body = .finish outcome) ∧
          next d = record ++ [.released (.job d sequence)])) :
    Recorded version ms threads kept next := by
  have present : t ∈ front ++ t :: back := by simp
  have works := mem_working.mpr ⟨t, present, sequence, origin⟩
  obtain ⟨f, j, job, course⟩ := recorded.running t present d sequence origin
  constructor
  · intro v member e number origin'
    rcases running v member with rest | ⟨same, goesOn⟩
    · have different : e ≠ d := by
        rintro rfl
        exact ordered.other origin (mem_working.mpr ⟨v, rest, number, origin'⟩)
      rw [others e different]
      refine recorded.running v ?_ e number origin'
      exact ((List.sublist_cons_self t back).append_left front).subset rest
    · obtain ⟨rfl, rfl⟩ : d = e ∧ sequence = number := by simpa using same.symm.trans origin'
      exact ⟨f, j, job, goesOn j course⟩
  · intro x waits
    have waits := (fewer.filterMap Item.submission?).subset waits
    have different : x.job.message ≠ d := fun equal => ordered.apart x waits (equal ▸ works)
    rw [others _ different]
    exact recorded.untouched x waits
  · intro e beyond
    have known := ordered.known d works
    rw [others e (by omega)]
    exact recorded.unseen e beyond
  · intro e f' j' job'
    by_cases mine : e = d
    · subst mine
      obtain ⟨rfl, rfl⟩ : f = f' ∧ j = j' := by simpa using job.symm.trans job'
      exact ⟨sequence, account j course⟩
    · rw [others e mine]
      exact recorded.account e f' j' job'
  · intro e jobless
    have different : e ≠ d := by
      rintro rfl
      rw [job] at jobless
      contradiction
    rw [others e different]
    exact recorded.answered e jobless

/-- A job that starts has caused nothing yet. -/
theorem start (recorded : Recorded version ms threads items noted)
    (ordered : Ordered version ms threads items) {earlier : List Footprint}
    {chosen : List (Submission Footprint Job)} (scanned : Scanned earlier items left chosen) :
    Recorded version ms (threads ++ (chosen.map Submission.start).map .ofStarted) left noted := by
  refine ⟨fun t member d sequence origin => ?_, fun x waits => ?_, recorded.unseen,
    recorded.account, recorded.answered⟩
  · rcases List.mem_append.mp member with before | starts
    · exact recorded.running t before d sequence origin
    · rw [List.map_map] at starts
      obtain ⟨x, chosen, rfl⟩ := List.mem_map.mp starts
      have waits := scanned.chosen_sublist.subset chosen
      obtain ⟨rfl, rfl⟩ : x.job.message = d ∧ x.sequence = sequence := by
        simpa [Thread.ofStarted, Submission.start] using origin
      refine ⟨x.key, x.job, ordered.placed x waits, ?_⟩
      rw [recorded.untouched x waits]
      exact .start
  · exact recorded.untouched x (scanned.waiting_sublist.subset waits)

/-- A thread that goes on with its job keeps its place. -/
theorem act {t u : Thread} (recorded : Recorded version ms (front ++ t :: back) items noted)
    (ordered : Ordered version ms (front ++ t :: back) items) {d : Nat} {sequence : UInt64}
    (origin : t.origin = .job d sequence) (same : u.origin = .job d sequence)
    (others : ∀ e ≠ d, next e = noted e)
    (course : ∀ j, Course d sequence j t.owed t.body (noted d) →
      Course d sequence j u.owed u.body (next d)) :
    Recorded version ms (front ++ u :: back) items next := by
  refine recorded.touch ordered origin others (List.Sublist.refl _) (fun v member => ?_)
    fun j before => ⟨u.owed, u.body, next d, course j before, .inl rfl⟩
  rw [List.mem_append, List.mem_cons] at member
  by_cases mine : v = u
  · subst mine
    exact .inr ⟨same, course⟩
  · refine .inl (List.mem_append.mpr ?_)
    exact member.imp_right fun later => later.resolve_left mine

section Moves

variable {events more : List Event}
  (recorded : Recorded version ms threads items fun d => about d events)
  (ordered : Ordered version ms threads items)

include recorded ordered

/-- A request that is refused at once is noted with its error. -/
theorem refuse {r : Request} {e : ResponseError} (refusal : refusal? r = some e)
    (hasObserver : Bool) : Recorded version (ms ++ [.request r]) threads items fun d =>
      about d (events ++ (observation hasObserver (.request r) ++
        [.replied ms.length ⟨some r.id, .error e⟩])) := by
  have nothing : about ms.length events = [] := recorded.unseen _ (Nat.le_refl _)
  refine recorded.extend ordered ?_ fun d other => ?_
  · rw [← List.append_assoc, about_append_own (by simp [Event.message?]), about_observation,
      nothing, atOnce, refusal]
    rfl
  · rw [← List.append_assoc, about_append_other, about_observation]
    simpa [Event.message?] using Ne.symm other

/-- Nothing is noted of a message whose job lines up in the queue. -/
theorem enqueue {m : Message} {x : Submission Footprint Job}
    (accepted : jobOf? version ms.length m = some (x.key, x.job)) :
    Recorded version (ms ++ [m]) threads (items ++ [x.item]) fun d => about d events := by
  have nothing : about ms.length events = [] := recorded.unseen _ (Nat.le_refl _)
  have extended := recorded.extend ordered (m := m)
    (by rw [nothing, atOnce_of_jobOf? accepted]) fun d _ => rfl
  refine ⟨extended.running, fun y waits => ?_, extended.unseen, extended.account,
    extended.answered⟩
  rw [waiting_append, List.mem_append] at waits
  rcases waits with before | last
  · exact extended.untouched y before
  · obtain rfl := List.mem_singleton.mp last
    rw [message_of_jobOf? accepted, nothing]

end Moves

/-- What a thread causes when it goes on belongs to the course of its job; what the owner causes is
about no message. -/
theorem goes {t : Thread} {events more : List Event}
    (recorded : Recorded version ms (front ++ t :: back) items fun d => about d events)
    (ordered : Ordered version ms (front ++ t :: back) items) {body : Body} {phase later : Phase}
    {claimed claims : Bool} (goes : Goes t.origin phase claimed t.body body later claims more) :
    Recorded version ms (front ++ { t with body } :: back) items
      fun d => about d (events ++ more) := by
  obtain ⟨⟨d, sequence⟩ | _, owed, earlier⟩ := t
  · have own := goes.message? rfl
    refine recorded.act ordered rfl rfl (fun e other => ?_) fun j before => ?_
    · refine about_append_other (fun event member => ?_) events
      rw [own event member]
      simpa using Ne.symm other
    · rw [about_append_own own]
      exact before.goes goes
  · have same : ∀ d, about d (events ++ more) = about d events := fun d =>
      about_append_other (fun e member => by simp [goes.message?_owner e member]) events
    simp only [same]
    refine recorded.congr _ fun v member d sequence job => ?_
    simp only [List.mem_append, List.mem_cons] at member ⊢
    rcases member with member | rfl | member
    · exact .inl member
    · contradiction
    · exact .inr (.inr member)

/-- A reply belongs to the course of the job that owes it. -/
theorem reply {message : Nat} {sequence : UInt64} {owed : OwedReply} {outcome : Option Outcome}
    {events : List Event} (recorded : Recorded version ms
      (front ++ ⟨.job message sequence, some owed, .finish outcome⟩ :: back) items
      fun d => about d events)
    (ordered : Ordered version ms
      (front ++ ⟨.job message sequence, some owed, .finish outcome⟩ :: back) items) :
    Recorded version ms (front ++ ⟨.job message sequence, none, .finish outcome⟩ :: back) items
      fun d => about d (events ++ [.replied message (owed.response outcome)]) := by
  refine recorded.act ordered rfl rfl (fun e other => ?_) fun j before => ?_
  · exact about_append_other (by simpa [Event.message?] using Ne.symm other) events
  · rw [about_append_own (by simp [Event.message?])]
    exact before.replied

/-- The end of a thread is the last that is noted of its message. -/
theorem finish {message : Nat} {sequence : UInt64} {outcome : Option Outcome}
    {events : List Event} (recorded : Recorded version ms
      (front ++ ⟨.job message sequence, none, .finish outcome⟩ :: back) items
      fun d => about d events)
    (ordered : Ordered version ms
      (front ++ ⟨.job message sequence, none, .finish outcome⟩ :: back) items)
    {kept : List (Item Footprint Job)} (fewer : kept.Sublist items) :
    Recorded version ms (front ++ back) kept
      fun d => about d (events ++ [.released (.job message sequence)]) := by
  refine recorded.touch ordered rfl (fun e other => ?_) fewer (fun v member => .inl member)
    fun j before => ⟨none, .finish outcome, _, before, .inr ⟨rfl, ⟨outcome, rfl⟩, ?_⟩⟩
  · exact about_append_other (by simpa [Event.message?] using Ne.symm other) events
  · exact about_append_own (by simp [Event.message?]) events

/-- The notes are kept by every move. -/
theorem move {s later : Session} {move : Move}
    (recorded : Recorded s.version ms s.threads s.queue.items fun d => about d s.events)
    (ordered : Ordered s.version ms s.threads s.queue.items) (counted : s.received = ms.length)
    (moves : Moves s move later) :
    Recorded later.version (ms ++ messages [move]) later.threads later.queue.items
      fun d => about d later.events := by
  cases moves with
  | @dropped m unasked _ =>
    refine recorded.extend ordered (m := m) ?_ fun d _ => rfl
    cases m with
    | request r => exact absurd rfl (unasked r)
    | notification _ | response _ => exact recorded.unseen _ (Nat.le_refl _)
  | @refused r e refusal =>
    rw [counted]
    exact recorded.refuse ordered refusal s.hasObserver
  | @queued m f j accepted =>
    obtain ⟨chosen, began, scanned⟩ := submit_scanned s.queue f j
    rw [counted] at accepted
    have lined := ordered.enqueue (m := m) ⟨s.queue.nextSequence, f, j⟩ accepted
    have enqueued := recorded.enqueue ordered (m := m) (x := ⟨s.queue.nextSequence, f, j⟩) accepted
    have started := enqueued.start lined scanned
    simpa [messages, began, about_observation] using started
  | @pushed params =>
    have same : ∀ d, about d (s.events ++
        [.pushed Method.targetsChanged.name (.ofTyped params)]) = about d s.events := by
      intro d
      refine about_append_other (fun e member => ?_) s.events
      obtain rfl := List.mem_singleton.mp member
      simp [Event.message?]
    simpa [messages, same] using recorded
  | closing =>
    have same := recorded.congr (s.threads ++ [⟨.owner, none, .close⟩]) (by
      intro t member d sequence job
      rcases List.mem_append.mp member with before | owner
      · exact before
      · obtain rfl := List.mem_singleton.mp owner
        contradiction)
    simpa [messages] using same
  | goes split goes =>
    rw [split] at recorded ordered
    simpa [messages] using recorded.goes ordered goes
  | replied split =>
    rw [split] at recorded ordered
    simpa [messages] using recorded.reply ordered
  | @ended front back message sequence outcome answers split =>
    rw [split] at recorded ordered
    obtain ⟨chosen, began, scanned⟩ := release_scanned s.queue sequence
    have fewer : (s.queue.items.eraseP fun item => item.sequence == sequence).Sublist
        s.queue.items := List.eraseP_sublist
    have started := (recorded.finish ordered fewer).start (ordered.finish fewer) scanned
    simpa [messages, began] using started
  | @left front back owed outcome answers split =>
    rw [split] at recorded
    have same := recorded.congr (front ++ (if owed.isSome then
        [⟨.owner, none, .finish outcome⟩] else []) ++ back) (by
      intro v member d sequence job
      simp only [List.mem_append, List.mem_cons] at member ⊢
      rcases member with (member | owner) | member
      · exact .inl member
      · cases owed <;> simp at owner
        rw [owner] at job
        contradiction
      · exact .inr (.inr member))
    simpa [messages] using same

end Recorded

/-- Every run notes of each message a course of its job, or its answer if it has none. -/
theorem recorded_of_run? {settings : Settings} {hasObserver : Bool} {moves : List Move} {s : Session}
    (run : (start settings hasObserver).run? moves = some s) :
    Recorded s.version (messages moves) s.threads s.queue.items fun d => about d s.events := by
  refine run?_induction (fun moves s => Recorded s.version (messages moves) s.threads s.queue.items
    fun d => about d s.events) ?_ ?_ run
  · constructor <;> simp [start, about, messages, jobAt?]
  · intro moves s move next before recorded step
    obtain ⟨counted, -⟩ := balanced_of_run? before
    rw [messages_append]
    exact recorded.move (ordered_of_run? before) counted step

end Session

end BuildServer
