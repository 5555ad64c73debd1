import Mathlib.Data.List.Perm.Subperm
import BuildServer.Proofs.Session.Step
import BuildServer.Session.Rehearsal

/-! # Every request is answered once

A request that is not answered at once owes its reply until the reply is sent. The debt waits with
the job, goes on to its thread, and is paid before the job is released, by an outcome or because the
backend broke down. Three counts are kept along every run: no debt is held twice or paid twice; no
thread runs without an item that runs for it; and as many debts are missing as there are items
without a thread. Once the queue is empty no item is left, so nothing is missing and all is paid.
Nothing here asks that sequences are told apart.
-/

namespace BuildServer

open Backend Protocol Rpc

/-- A reply that is due: the number of its message and the identifier that it has to carry. -/
abbrev Debt := Nat × Option RequestId

/-- What a job owes. -/
def Job.debt? (j : Job) : Option Debt := j.owed.map fun owed => (j.message, some owed.id)

/-- What a thread owes. -/
def Thread.debt? (t : Thread) : Option Debt :=
  match t.origin with
  | .job message _ => t.owed.map fun owed => (message, some owed.id)
  | .owner => none

/-- The sequence of the job that a thread carries out. -/
def Thread.sequence? (t : Thread) : Option UInt64 :=
  match t.origin with
  | .job _ sequence => some sequence
  | .owner => none

@[simp] theorem Thread.debt?_ofStarted (s : Started Job) :
    (Thread.ofStarted s).debt? = s.job.debt? := rfl

@[simp] theorem Thread.sequence?_ofStarted (s : Started Job) :
    (Thread.ofStarted s).sequence? = some s.sequence := rfl

namespace Session

open Queue

/-- The replies that have been sent, with the messages that they answer. -/
def paid (events : List Event) : List Debt :=
  events.filterMap fun
    | .replied message r => some (message, r.id)
    | _ => none

/-- What threads owe. -/
def owing (threads : List Thread) : List Debt := threads.filterMap Thread.debt?

/-- What waiting jobs owe. -/
def deferred (items : List (Item Footprint Job)) : List Debt :=
  (waiting items).filterMap fun x => x.job.debt?

/-- The sequences of the jobs that threads carry out. -/
def sequences (threads : List Thread) : List UInt64 := threads.filterMap Thread.sequence?

/-- What a message asks for. -/
def due? (number : Nat) : Message → Option Debt
  | .request r => some (number, some r.id)
  | _ => none

/-- What messages ask for. -/
def asked (ms : List Message) : List Debt := ms.zipIdx.filterMap fun m => due? m.2 m.1

@[simp] theorem paid_append (first second : List Event) :
    paid (first ++ second) = paid first ++ paid second := List.filterMap_append

@[simp] theorem owing_append (first second : List Thread) :
    owing (first ++ second) = owing first ++ owing second := List.filterMap_append

@[simp] theorem sequences_append (first second : List Thread) :
    sequences (first ++ second) = sequences first ++ sequences second := List.filterMap_append

@[simp] theorem owing_cons (t : Thread) (threads : List Thread) :
    owing (t :: threads) = t.debt?.toList ++ owing threads := by
  simp only [owing, List.filterMap_cons]
  cases t.debt? <;> rfl

@[simp] theorem sequences_cons (t : Thread) (threads : List Thread) :
    sequences (t :: threads) = t.sequence?.toList ++ sequences threads := by
  simp only [sequences, List.filterMap_cons]
  cases t.sequence? <;> rfl

theorem sequences_started (chosen : List (Submission Footprint Job)) :
    sequences ((chosen.map Submission.start).map .ofStarted) = chosen.map (·.sequence) := by
  simp [sequences, List.filterMap_map, Function.comp_def, Submission.start]

@[simp] theorem deferred_append (first second : List (Item Footprint Job)) :
    deferred (first ++ second) = deferred first ++ deferred second := by
  simp only [deferred, waiting_append, List.filterMap_append]

@[simp] theorem deferred_item (x : Submission Footprint Job) (items : List (Item Footprint Job)) :
    deferred (x.item :: items) = x.job.debt?.toList ++ deferred items := by
  simp only [deferred, waiting_item, List.filterMap_cons]
  cases x.job.debt? <;> rfl

@[simp] theorem deferred_running (item : Item Footprint Job) (items : List (Item Footprint Job)) :
    deferred (item.running :: items) = deferred items := rfl

@[simp] theorem deferred_nil : deferred [] = [] := rfl

@[simp] theorem asked_append (ms : List Message) (m : Message) :
    asked (ms ++ [m]) = asked ms ++ (due? ms.length m).toList := by
  simp only [asked, List.zipIdx_append, List.filterMap_append, List.zipIdx_singleton, Nat.zero_add,
    List.filterMap_cons, List.filterMap_nil]
  cases due? ms.length m <;> rfl

/-- How debts, threads and items are balanced: no debt is counted twice, no debt is missing without
an item that no thread runs for, and every thread has an item. -/
structure Balanced (asked paid : List Debt) (threads : List Thread)
    (items : List (Item Footprint Job)) : Prop where
  within : ∀ d, paid.count d + (owing threads).count d + (deferred items).count d ≤ asked.count d
  covered : asked.length + (sequences threads).length ≤
    paid.length + (owing threads).length + (deferred items).length +
      (runningSequences items).length
  backed : ∀ n, (sequences threads).count n ≤ (runningSequences items).count n

theorem deferred_eraseP (items : List (Item Footprint Job)) (sequence : UInt64) :
    (deferred (items.eraseP fun item => item.sequence == sequence)).Sublist (deferred items) :=
  (List.eraseP_sublist.filterMap Item.submission?).filterMap _

/-- An item that is taken out either ran or had no more than one debt. -/
theorem length_eraseP (items : List (Item Footprint Job)) (sequence : UInt64) :
    (deferred items).length + (runningSequences items).length ≤
      (deferred (items.eraseP fun item => item.sequence == sequence)).length +
        (runningSequences (items.eraseP fun item => item.sequence == sequence)).length + 1 := by
  rcases List.exists_or_eq_self_of_eraseP (fun item : Item Footprint Job => item.sequence == sequence)
    items with same | ⟨item, front, back, -, -, split, erased⟩
  · rw [same]
    omega
  · rw [erased, split]
    obtain runs | ⟨x, rfl⟩ := item_cases item
    · rw [runs]
      simp only [deferred_append, deferred_running, runningSequences_append, runningSequences_running,
        List.length_append, List.length_cons]
      omega
    · have single : x.job.debt?.toList.length ≤ 1 := by cases x.job.debt? <;> simp
      simp only [deferred_append, deferred_item, runningSequences_append, runningSequences_item,
        List.length_append]
      omega

namespace Balanced

variable {asked paid : List Debt} {threads front back : List Thread}
  {items left : List (Item Footprint Job)}

/-- Only what threads owe and which jobs they carry out counts. -/
theorem congr (balanced : Balanced asked paid threads items) (others : List Thread)
    (debts : owing others = owing threads) (jobs : sequences others = sequences threads) :
    Balanced asked paid others items :=
  ⟨debts ▸ balanced.within, debts ▸ jobs ▸ balanced.covered, jobs ▸ balanced.backed⟩

/-- A job that starts takes its debt along and gets its own item. -/
theorem start (balanced : Balanced asked paid threads items) {earlier : List Footprint}
    {chosen : List (Submission Footprint Job)} (scanned : Scanned earlier items left chosen) :
    Balanced asked paid (threads ++ (chosen.map Submission.start).map .ofStarted) left := by
  have debts : (deferred items).Perm (owing ((chosen.map Submission.start).map .ofStarted) ++
      deferred left) := by
    have perm := scanned.waiting_perm.filterMap fun x => x.job.debt?
    simpa [deferred, owing, List.filterMap_map, Function.comp_def, Submission.start] using perm
  have ran := scanned.running_perm
  refine ⟨fun d => ?_, ?_, fun n => ?_⟩
  · have count := debts.count_eq d
    have before := balanced.within d
    simp only [owing_append, List.count_append] at count ⊢
    omega
  · have lengths := debts.length_eq
    have runs := ran.length_eq
    have before := balanced.covered
    simp only [owing_append, sequences_append, sequences_started, List.length_append] at lengths runs ⊢
    omega
  · have count := ran.count_eq n
    have before := balanced.backed n
    simp only [sequences_append, sequences_started, List.count_append] at count ⊢
    omega

/-- A request that becomes a job defers what it asks for. -/
theorem ask (balanced : Balanced asked paid threads items) (x : Submission Footprint Job) :
    Balanced (asked ++ x.job.debt?.toList) paid threads (items ++ [x.item]) := by
  have debts : deferred (items ++ [x.item]) = deferred items ++ x.job.debt?.toList := by simp
  have runs : runningSequences (items ++ [x.item]) = runningSequences items := by simp
  refine ⟨fun d => ?_, ?_, fun n => ?_⟩
  · have before := balanced.within d
    simp only [debts, List.count_append]
    omega
  · have before := balanced.covered
    simp only [debts, runs, List.length_append]
    omega
  · rw [runs]
    exact balanced.backed n

/-- A request that is refused is paid at once. -/
theorem refuse (balanced : Balanced asked paid threads items) (d : Debt) :
    Balanced (asked ++ [d]) (paid ++ [d]) threads items := by
  refine ⟨fun other => ?_, ?_, balanced.backed⟩
  · have before := balanced.within other
    simp only [List.count_append]
    omega
  · have before := balanced.covered
    simp only [List.length_append]
    omega

/-- A thread that pays its debt owes nothing any more. -/
theorem pay {message : Nat} {sequence : UInt64} {owed : OwedReply} {body : Body}
    (balanced : Balanced asked paid (front ++ ⟨.job message sequence, some owed, body⟩ :: back)
      items) :
    Balanced asked (paid ++ [(message, some owed.id)])
      (front ++ ⟨.job message sequence, none, body⟩ :: back) items := by
  refine ⟨fun d => ?_, ?_, fun n => ?_⟩
  · have before := balanced.within d
    simp [Thread.debt?, List.count_cons] at before ⊢
    omega
  · have before := balanced.covered
    simp [Thread.debt?, Thread.sequence?] at before ⊢
    omega
  · simpa [Thread.sequence?] using balanced.backed n

/-- The sequence of a job that a thread carries out runs in the queue. -/
theorem runs {message : Nat} {sequence : UInt64} {owed : Option OwedReply} {body : Body}
    (balanced : Balanced asked paid (front ++ ⟨.job message sequence, owed, body⟩ :: back) items) :
    sequence ∈ runningSequences items := by
  have backed := balanced.backed sequence
  have positive : 0 < (sequences (front ++ ⟨.job message sequence, owed, body⟩ :: back)).count
      sequence := List.count_pos_iff.mpr (by simp [Thread.sequence?])
  exact List.count_pos_iff.mp (by omega)

/-- A thread that ends takes an item of its sequence out of the queue. If another job was waiting
there, its debt is missing from then on, and the thread's own item is left without a thread. -/
theorem finish {message : Nat} {sequence : UInt64} {body : Body}
    (balanced : Balanced asked paid (front ++ ⟨.job message sequence, none, body⟩ :: back) items) :
    Balanced asked paid (front ++ back)
      (items.eraseP fun item => item.sequence == sequence) := by
  have one : (sequences (front ++ ⟨.job message sequence, none, body⟩ :: back)).Perm
      (sequence :: sequences (front ++ back)) := by
    simp [Thread.sequence?, List.perm_middle]
  have debts : owing (front ++ ⟨.job message sequence, none, body⟩ :: back) = owing (front ++ back) := by
    simp [Thread.debt?]
  refine ⟨fun d => ?_, ?_, fun n => ?_⟩
  · have before := balanced.within d
    have kept := (deferred_eraseP items sequence).count_le d
    rw [debts] at before
    omega
  · have before := balanced.covered
    have lost := length_eraseP items sequence
    rw [one.length_eq, debts, List.length_cons] at before
    omega
  · have before := balanced.backed n
    have freed := (runningSequences_subperm items sequence).count_le n
    rw [one.count_eq] at before
    simp only [List.count_cons] at before freed
    omega

/-- What has been paid has been asked for as often. -/
theorem subperm (balanced : Balanced asked paid threads items) : paid.Subperm asked := by
  apply List.subperm_ext_iff.mpr
  intro d _
  have within := balanced.within d
  omega

/-- Where every running item has its thread, no debt is missing. -/
theorem accounted (balanced : Balanced asked paid threads items)
    (matched : (runningSequences items).length ≤ (sequences threads).length) {d : Debt}
    (asks : d ∈ asked) : d ∈ paid ∨ d ∈ owing threads ∨ d ∈ deferred items := by
  have within : (paid ++ (owing threads ++ deferred items)).Subperm asked := by
    apply List.subperm_ext_iff.mpr
    intro e _
    have within := balanced.within e
    simp only [List.count_append]
    omega
  have covered := balanced.covered
  have all := within.perm_of_length_le (by simp only [List.length_append]; omega)
  simpa using all.mem_iff.mpr asks

/-- With no items left, no job is carried out. -/
theorem threadless (balanced : Balanced asked paid threads []) : sequences threads = [] := by
  apply List.eq_nil_iff_forall_not_mem.mpr
  intro n member
  have backed := balanced.backed n
  have positive := List.count_pos_iff.mpr member
  simp only [runningSequences_nil, List.count_nil] at backed
  omega

/-- With no items left, all that was asked for has been paid. -/
theorem settled (balanced : Balanced asked paid threads []) : paid.Perm asked := by
  have threadless := balanced.threadless
  have nothing : owing threads = [] := by
    apply List.eq_nil_iff_forall_not_mem.mpr
    intro d member
    obtain ⟨t, present, owed⟩ := List.mem_filterMap.mp member
    cases origin : t.origin with
    | owner => simp [Thread.debt?, origin] at owed
    | job message sequence =>
      have runs : sequence ∈ sequences threads :=
        List.mem_filterMap.mpr ⟨t, present, by simp [Thread.sequence?, origin]⟩
      simp [threadless] at runs
  have covered := balanced.covered
  simp only [nothing, deferred_nil, runningSequences_nil, List.length_nil] at covered
  exact balanced.subperm.perm_of_length_le (by omega)

end Balanced

/-- A job owes what its message asks for. -/
theorem debt?_of_jobOf? {version : String} {number : Nat} {m : Message} {f : Footprint} {j : Job}
    (accepted : jobOf? version number m = some (f, j)) : j.debt? = due? number m := by
  obtain ⟨r, q, rfl, -, -, rfl⟩ | ⟨n, notice, rfl, -, -, rfl⟩ := jobOf?_cases accepted
  · rfl
  · rfl

/-- A body that goes on sends no reply. -/
theorem Goes.paid {origin : Origin} {phase next : Phase} {claimed claims : Bool} {body rest : Body}
    {events : List Event} (goes : Goes origin phase claimed body rest next claims events) :
    paid events = [] := by
  cases goes <;> rfl

theorem paid_observation (hasObserver : Bool) (m : Message) :
    paid (observation hasObserver m) = [] := by
  cases m <;> cases hasObserver <;> rfl

/-- The balance is kept by every move. -/
theorem Balanced.move {ms : List Message} {s next : Session} {move : Move}
    (balanced : Balanced (asked ms) (paid s.events) s.threads s.queue.items)
    (counted : s.received = ms.length) (moves : Moves s move next) :
    Balanced (asked (ms ++ messages [move])) (paid next.events) next.threads next.queue.items := by
  cases moves with
  | @dropped m unasked _ =>
    have nothing : due? ms.length m = none := by
      cases m with
      | request r => exact absurd rfl (unasked r)
      | notification _ | response _ => rfl
    simpa [messages, nothing] using balanced
  | @refused r e _ =>
    have refused := balanced.refuse (ms.length, some r.id)
    have sent : paid (s.events ++ (observation s.hasObserver (.request r) ++
        [.replied s.received ⟨some r.id, .error e⟩])) = paid s.events ++ [(ms.length, some r.id)] := by
      rw [paid_append, paid_append, paid_observation, counted]
      rfl
    simpa [messages, due?, sent] using refused
  | @queued m f j accepted =>
    have same := debt?_of_jobOf? accepted
    obtain ⟨chosen, began, scanned⟩ := submit_scanned s.queue f j
    have started := (balanced.ask ⟨s.queue.nextSequence, f, j⟩).start scanned
    rw [counted] at same
    simpa [messages, began, same, paid_observation] using started
  | pushed => simpa [messages, paid] using balanced
  | closing =>
    have same := balanced.congr (s.threads ++ [⟨.owner, none, .close⟩])
      (by simp [owing, Thread.debt?]) (by simp [sequences, Thread.sequence?])
    simpa [messages] using same
  | @goes front back t answers body phase claimed events split goes =>
    have same := balanced.congr (front ++ { t with body } :: back)
      (by simp [split, Thread.debt?]) (by simp [split, Thread.sequence?])
    simpa [messages, goes.paid] using same
  | @replied front back message sequence owed outcome answers split =>
    rw [split] at balanced
    simpa [messages, paid, OwedReply.response] using balanced.pay
  | @ended front back message sequence outcome answers split =>
    rw [split] at balanced
    obtain ⟨chosen, began, scanned⟩ := release_scanned s.queue sequence
    simpa [messages, paid, began] using balanced.finish.start scanned
  | @left front back owed outcome answers split =>
    have same := balanced.congr (front ++ (if owed.isSome then
        [⟨.owner, none, .finish outcome⟩] else []) ++ back)
      (by cases owed <;> simp [split, Thread.debt?]) (by cases owed <;> simp [split, Thread.sequence?])
    simpa [messages] using same

theorem Moves.received {ms : List Message} {s next : Session} {move : Move}
    (moves : Moves s move next) (counted : s.received = ms.length) :
    next.received = (ms ++ messages [move]).length := by
  cases moves <;> simp [messages, counted]

/-- Every run keeps count of its messages and of its debts. -/
theorem balanced_of_run? {settings : Settings} {hasObserver : Bool} {moves : List Move} {s : Session}
    (run : (start settings hasObserver).run? moves = some s) :
    s.received = (messages moves).length ∧
      Balanced (asked (messages moves)) (paid s.events) s.threads s.queue.items := by
  refine run?_induction (fun moves s => s.received = (messages moves).length ∧
    Balanced (asked (messages moves)) (paid s.events) s.threads s.queue.items) ?_ ?_ run
  · exact ⟨rfl, by simp [start, paid, owing, deferred], by simp [start, asked, messages, sequences],
      by simp [start, sequences]⟩
  · rintro moves s move next - ⟨counted, balanced⟩ step
    rw [messages_append]
    exact ⟨step.received counted, balanced.move counted step⟩

/-- The responses that answer the message of the given number. -/
def repliesTo (message : Nat) (events : List Event) : List Response :=
  events.filterMap fun
    | .replied m r => if m = message then some r else none
    | _ => none

/-- The requests among messages, in order. -/
def requests (ms : List Message) : List Request :=
  ms.filterMap fun
    | .request r => some r
    | _ => none

theorem mem_repliesTo {message : Nat} {events : List Event} {reply : Response} :
    reply ∈ repliesTo message events ↔ .replied message reply ∈ events := by
  simp only [repliesTo, List.mem_filterMap]
  constructor
  · rintro ⟨e, member, same⟩
    cases e with
    | replied m r =>
      obtain ⟨rfl, rfl⟩ : m = message ∧ r = reply := by simpa using same
      exact member
    | _ => contradiction
  · intro member
    exact ⟨_, member, by simp⟩

theorem map_repliesTo (message : Nat) (events : List Event) :
    (repliesTo message events).map (fun r => (message, r.id)) =
      (paid events).filter fun d => d.1 = message := by
  induction events with
  | nil => rfl
  | cons e events ih =>
    cases e with
    | replied m r =>
      by_cases same : m = message
      · subst same
        simpa [repliesTo, paid] using ih
      · simpa [repliesTo, paid, same] using ih
    | _ => exact ih

/-- A message asks for one reply, or for none. -/
theorem filter_asked (ms : List Message) (message : Nat) :
    (asked ms).filter (fun d => d.1 = message) = (ms[message]?.bind (due? message)).toList := by
  induction ms using List.reverseRecOn with
  | nil => rfl
  | append_singleton ms m ih =>
    rw [asked_append, List.filter_append, ih]
    rcases Nat.lt_trichotomy message ms.length with before | rfl | after
    · have other : (due? ms.length m).toList.filter (fun d => d.1 = message) = [] := by
        cases m <;> simp [due?]
        omega
      rw [other, List.append_nil, List.getElem?_append_left before]
    · have own : (due? ms.length m).toList.filter (fun d => d.1 = ms.length) =
          (due? ms.length m).toList := by
        cases m <;> simp [due?]
      simp [own]
    · have other : (due? ms.length m).toList.filter (fun d => d.1 = message) = [] := by
        cases m <;> simp [due?]
        omega
      have beyond : (ms ++ [m]).length ≤ message := by simpa using Nat.succ_le_of_lt after
      rw [other, List.getElem?_eq_none (Nat.le_of_lt after), List.getElem?_eq_none beyond]
      rfl

theorem map_asked (ms : List Message) :
    (asked ms).map (·.2) = (requests ms).map fun r => some r.id := by
  induction ms using List.reverseRecOn with
  | nil => rfl
  | append_singleton ms m ih =>
    rw [asked_append, List.map_append, ih]
    cases m <;> simp [requests, due?]

theorem map_paid (events : List Event) :
    (paid events).map (·.2) = (Rehearsal.responsesOf events).map (·.id) := by
  induction events with
  | nil => rfl
  | cons e events ih =>
    cases e with
    | replied m r => exact congrArg (List.cons r.id) ih
    | _ => exact ih

/-- A request is answered at most once and with its own identifier, and once nothing is left to be
done it has been answered. -/
theorem repliesTo_of_run? {settings : Settings} {hasObserver : Bool} {moves : List Move}
    {s : Session} (run : (start settings hasObserver).run? moves = some s) {i : Nat} {r : Request}
    (isRequest : (messages moves)[i]? = some (.request r)) :
    (repliesTo i s.events).length ≤ 1 ∧ (∀ reply ∈ repliesTo i s.events, reply.id = some r.id) ∧
      (s.isIdle = true → (repliesTo i s.events).length = 1) := by
  obtain ⟨-, balanced⟩ := balanced_of_run? run
  have asks : (asked (messages moves)).filter (fun d => d.1 = i) = [(i, some r.id)] := by
    rw [filter_asked, isRequest]
    rfl
  have answers := balanced.subperm.filter fun d => d.1 = i
  rw [asks, ← map_repliesTo] at answers
  refine ⟨by simpa using answers.length_le, fun reply sent => ?_, fun idle => ?_⟩
  · simpa using answers.subset (List.mem_map_of_mem sent)
  · rw [List.isEmpty_iff.mp idle] at balanced
    have all := balanced.settled.filter fun d => d.1 = i
    rw [asks, ← map_repliesTo] at all
    simpa using all.length_eq

/-- At every moment of every run, a request has been answered at most once and with its own
identifier, and any other message has not been answered. Once nothing is left to be done, every
request has been answered, so that the identifiers of the responses are those of the requests, each
as often as it was used. -/
theorem each_request_answered_once {settings : Settings} {hasObserver : Bool} {moves : List Move}
    {s : Session} (run : (start settings hasObserver).run? moves = some s) :
    (∀ (i : Nat) (r : Request), (messages moves)[i]? = some (.request r) →
      (repliesTo i s.events).length ≤ 1 ∧
      (∀ reply ∈ repliesTo i s.events, reply.id = some r.id) ∧
      (s.isIdle = true → (repliesTo i s.events).length = 1)) ∧
    (∀ i : Nat, (∀ r, (messages moves)[i]? ≠ some (.request r)) → repliesTo i s.events = []) ∧
    ((Rehearsal.responsesOf s.events).map (·.id)).Subperm
      ((requests (messages moves)).map fun r => some r.id) ∧
    (s.isIdle = true → ((Rehearsal.responsesOf s.events).map (·.id)).Perm
      ((requests (messages moves)).map fun r => some r.id)) := by
  obtain ⟨-, balanced⟩ := balanced_of_run? run
  obtain ⟨answered, perm, sublist⟩ := balanced.subperm
  rw [← map_paid, ← map_asked]
  refine ⟨fun i r isRequest => repliesTo_of_run? run isRequest, fun i other => ?_,
    ⟨answered.map (·.2), perm.map (·.2), sublist.map (·.2)⟩, fun idle => ?_⟩
  · have asks : (asked (messages moves)).filter (fun d => d.1 = i) = [] := by
      rw [filter_asked]
      cases present : (messages moves)[i]? with
      | none => rfl
      | some m =>
        cases m with
        | request r => exact absurd present (other r)
        | notification _ | response _ => rfl
    have answers := balanced.subperm.filter fun d => d.1 = i
    rw [asks, ← map_repliesTo] at answers
    simpa using answers.length_le
  · rw [List.isEmpty_iff.mp idle] at balanced
    exact balanced.settled.map (·.2)

/-- Two requests use one identifier; one is served, the other is not, and both are answered. -/
theorem shared_identifier_answered_twice : ∃ (moves : List Move) (s : Session),
    (start .default false).run? moves = some s ∧
    messages moves = [.request ⟨.number 1, "build/shutdown", .null⟩,
      .request ⟨.number 1, "build/unknown", .null⟩] ∧
    (repliesTo 0 s.events).length = 1 ∧ (repliesTo 1 s.events).length = 1 := by
  have run : (start .default false).run? [.receive (.request ⟨.number 1, "build/shutdown", .null⟩),
      .receive (.request ⟨.number 1, "build/unknown", .null⟩), .step 0 fun _ => none,
      .step 0 fun _ => none, .step 0 fun _ => none, .step 0 fun _ => none] = some _ := rfl
  have answered := (each_request_answered_once run).1
  exact ⟨_, _, run, rfl, (answered 0 _ rfl).2.2 rfl, (answered 1 _ rfl).2.2 rfl⟩

end Session

end BuildServer
