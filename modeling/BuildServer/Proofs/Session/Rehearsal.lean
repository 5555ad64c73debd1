import BuildServer.Proofs.Queue.Progress
import BuildServer.Proofs.Session.Ending
import BuildServer.Session.Rehearsal

/-! # Rehearsals come to rest

What a rehearsal does by itself is a run of its session in which no message comes in. Once no call is
held back, every thread that is driven ends, and what is left to be done becomes less by it, since a
job that starts then has waited before. Draining therefore leaves no thread. Without a thread no item
of the queue is marked as running, if sequences tell the items apart, and then nothing is left in it.
-/

namespace BuildServer

open Backend Protocol Rpc

namespace Session

open Queue

/-- How many threads there are and how many jobs wait to have one. -/
def pending (s : Session) : Nat := s.threads.length + (waiting s.queue.items).length

/-- What starts at a release has waited before. -/
theorem length_release_le (q : Queue Footprint Job) (sequence : UInt64) :
    (q.release sequence).1.length + (waiting (q.release sequence).2.items).length ≤
      (waiting q.items).length := by
  obtain ⟨chosen, began, scanned⟩ := release_scanned q sequence
  have waits := scanned.waiting_perm.length_eq
  have fewer : (waiting (q.items.eraseP fun item => item.sequence == sequence)).length ≤
      (waiting q.items).length := (List.eraseP_sublist.filterMap _).length_le
  rw [List.length_append] at waits
  rw [began, List.length_map]
  omega

theorem pending_endThread_lt {s : Session} {i : Nat} {t : Thread} (present : s.threads[i]? = some t) :
    (s.endThread i t).pending < s.pending := by
  obtain ⟨bound, -⟩ := List.getElem?_eq_some_iff.mp present
  obtain ⟨⟨message, sequence⟩ | _, owed, body⟩ := t
  · have left := length_release_le s.queue sequence
    simp only [endThread, pending, note, List.length_append, List.length_map,
      List.length_eraseIdx_of_lt bound]
    omega
  · simp only [endThread, pending, List.length_eraseIdx_of_lt bound]
    omega

/-- A reply leaves the thread without a debt, and changes no other. -/
theorem threads_reply (s : Session) (i : Nat) (t : Thread) (response : Response) :
    (s.reply i t response).threads = s.threads.set i { t with owed := none } := by
  rw [reply]
  cases t.origin <;> rfl

theorem queue_reply (s : Session) (i : Nat) (t : Thread) (response : Response) :
    (s.reply i t response).queue = s.queue := by
  rw [reply]
  cases t.origin <;> rfl

section Matched

variable {settings : Settings} {hasObserver : Bool} {moves : List Move} {s : Session}
  (run : (start settings hasObserver).run? moves = some s)
  (few : (messages moves).length < wordLimit)

include run few

/-- Every item that is marked as running has its thread, if sequences tell the items apart. -/
theorem matched_of_run? :
    (runningSequences s.queue.items).length ≤ (sequences s.threads).length := by
  refine run?_induction (fun moves s => (messages moves).length < wordLimit →
    (runningSequences s.queue.items).length ≤ (sequences s.threads).length) ?_ ?_ run few
  · simp [start]
  · intro moves s move next before matched step few
    rw [messages_append, List.length_append] at few
    have matched := matched (by omega)
    cases step with
    | dropped | refused | pushed => exact matched
    | @queued m f j accepted =>
      obtain ⟨chosen, began, scanned⟩ := submit_scanned s.queue f j
      have marked := scanned.running_perm.length_eq
      simp only [runningSequences_append, runningSequences_item, runningSequences_nil, List.append_nil,
        List.length_append, List.length_map] at marked
      simp only [began, sequences_append, sequences_started, List.length_append, List.length_map]
      omega
    | closing => exact Nat.le_trans matched (by simp)
    | goes split | replied split => simpa [split, Thread.sequence?] using matched
    | @left front back owed outcome answers split =>
      cases owed <;> simpa [split, Thread.sequence?] using matched
    | @ended front back message sequence outcome answers split =>
      obtain ⟨-, balanced⟩ := balanced_of_run? before
      obtain ⟨chosen, began, scanned⟩ := release_scanned s.queue sequence
      have marked := scanned.running_perm.length_eq
      have gone := length_runningSequences_eraseP (items_nodup_of_run? before (by omega))
        (split ▸ balanced).runs
      simp only [split, sequences_append, sequences_cons, Thread.sequence?, Option.toList_some,
        List.length_append, List.length_singleton] at matched
      simp only [began, sequences_append, sequences_started, List.length_append, List.length_map]
        at marked ⊢
      omega

/-- Once no thread is left, nothing is left to be done. -/
theorem idle_of_threadless (none : s.threads = []) : s.isIdle = true := by
  obtain ⟨events, queue, -⟩ := queue_run_of_run? run
  have matched := matched_of_run? run few
  rw [none] at matched
  have unmarked := List.eq_nil_of_length_eq_zero (Nat.le_zero.mp matched)
  exact List.isEmpty_iff.mpr (by_contra fun nonempty => queue.lively.awake nonempty unmarked)

end Matched

end Session

namespace Rehearsal

open Session

/-- What a rehearsal may become while no message comes in and its owner leaves it open. -/
def Leads (r later : Rehearsal) : Prop :=
  ∃ moves, messages moves = [] ∧ .close ∉ moves ∧ r.session.run? moves = some later.session

theorem Leads.refl (r : Rehearsal) : r.Leads r := ⟨[], rfl, List.not_mem_nil, rfl⟩

theorem Leads.trans {r middle later : Rehearsal} (first : r.Leads middle) (second : middle.Leads later) :
    r.Leads later := by
  obtain ⟨moves, silent, leftOpen, run⟩ := first
  obtain ⟨more, quiet, unclosed, rest⟩ := second
  exact ⟨moves ++ more, by rw [messages_append, silent, quiet]; rfl,
    by simp [leftOpen, unclosed], run?_trans run rest⟩

theorem move_leads (r : Rehearsal) {m : Move} (silent : messages [m] = []) (leftOpen : .close ≠ m) :
    r.Leads (r.move m) := by
  cases success : r.session.step? m with
  | none => exact ⟨[], rfl, List.not_mem_nil, by simp [move, success, run?]⟩
  | some next => exact ⟨[m], silent, by simpa using leftOpen, by simp [move, success, run?]⟩

theorem step_leads (r : Rehearsal) (i : Nat) : r.Leads (r.step i) := r.move_leads rfl (by simp)

theorem sideEffect_leads (r : Rehearsal) (c : Call) : r.Leads (r.sideEffect c) := by
  cases c with
  | filesChanged changes =>
    rw [sideEffect, takeNote]
    split
    · exact move_leads _ rfl (by simp)
    · exact Leads.refl r
  | _ => exact Leads.refl r

theorem endThread_leads (r : Rehearsal) (i : Nat) : r.Leads (r.endThread i) := by
  rw [endThread]
  split
  · exact (r.step_leads i).trans ((r.step i).step_leads i)
  · exact r.step_leads i

/-- A thread that is driven only takes steps. -/
theorem drive_leads (i : Nat) (body : Body) (r : Rehearsal) : r.Leads (drive i body r) := by
  have broken (r : Rehearsal) : r.Leads ((r.step i).endThread i) :=
    (r.step_leads i).trans ((r.step i).endThread_leads i)
  have answered (r : Rehearsal) (c : Call) : r.Leads ((r.sideEffect c).step i) :=
    (r.sideEffect_leads c).trans ((r.sideEffect c).step_leads i)
  induction body generalizing r with
  | checkPhase next ih | claimClose next ih => exact (r.step_leads i).trans (ih _ _)
  | call c next ih =>
    refine (r.step_leads i).trans ?_
    rw [drive]
    split
    · exact Leads.refl _
    · split
      · exact (answered _ c).trans (ih _ _)
      · exact broken _
  | await c next ih =>
    rw [drive]
    split
    · exact Leads.refl r
    · split
      · exact (answered r c).trans (ih _ _)
      · exact broken r
  | advance p rest ih | closeConnection rest ih => exact (r.step_leads i).trans (ih _)
  | finish outcome => exact r.endThread_leads i

theorem settleTimes_leads (n : Nat) (r : Rehearsal) : r.Leads (settleTimes n r) := by
  induction n generalizing r with
  | zero => exact Leads.refl r
  | succ n ih =>
    rw [settleTimes]
    split
    · exact Leads.refl r
    · split
      · exact Leads.refl r
      · exact (drive_leads _ _ r).trans (ih _)

theorem drain_leads (r : Rehearsal) : r.Leads r.drain := settleTimes_leads _ { r with allReleased := true }

theorem session_step {r : Rehearsal} {i : Nat} {t : Thread} (present : r.session.threads[i]? = some t) :
    (r.step i).session = r.session.stepThread i t (r.script.answers r.changed) := by
  simp [step, move, step?, present]

/-- Once every call has been released, none is held. -/
theorem holds_of_allReleased {r : Rehearsal} (released : r.allReleased = true) (c : Call) :
    r.holds c = false := by
  rw [holds]
  split <;> simp [released]

/-- What the backend does by itself changes no answer to the call that it does it for. -/
theorem answers_sideEffect (r : Rehearsal) (c : Call) :
    (r.sideEffect c).script.answers (r.sideEffect c).changed c = r.script.answers r.changed c := by
  cases c with
  | filesChanged changes =>
    rw [sideEffect, takeNote]
    split <;> rfl
  | _ => rfl

/-- A thread has gone on with other steps, while nothing has begun or ended. -/
structure Turned (i : Nat) (t : Thread) (body : Body) (r later : Rehearsal) : Prop where
  allReleased : later.allReleased = r.allReleased
  present : later.session.threads[i]? = some { t with body }
  pending : later.session.pending = r.session.pending

section Turned

variable {r : Rehearsal} {i : Nat} {t : Thread} {body : Body}

theorem step_turned (present : r.session.threads[i]? = some t)
    (went : (r.session.stepThread i t (r.script.answers r.changed)).threads =
      r.session.threads.set i { t with body })
    (queue : (r.session.stepThread i t (r.script.answers r.changed)).queue = r.session.queue) :
    Turned i t body r (r.step i) := by
  obtain ⟨bound, -⟩ := List.getElem?_eq_some_iff.mp present
  refine ⟨rfl, ?_, ?_⟩
  · rw [session_step present, went, List.getElem?_set_self bound]
  · rw [session_step present, pending, went, queue, List.length_set, pending]

/-- What the backend does by itself leaves threads and jobs alone. -/
theorem sideEffect_turned (present : r.session.threads[i]? = some t) (c : Call) :
    Turned i t t.body r (r.sideEffect c) := by
  cases c with
  | filesChanged changes =>
    rw [sideEffect, takeNote]
    split <;> exact ⟨rfl, present, rfl⟩
  | _ => exact ⟨rfl, present, rfl⟩

end Turned

/-- A rehearsal has got on: every call is released, and less is left to be done. -/
structure GotOn (r later : Rehearsal) : Prop where
  allReleased : later.allReleased = true
  pending : later.session.pending < r.session.pending

theorem Turned.gotOn {i : Nat} {t : Thread} {body : Body} {r middle later : Rehearsal}
    (turned : Turned i t body r middle) (gotOn : middle.GotOn later) : r.GotOn later :=
  ⟨gotOn.allReleased, turned.pending ▸ gotOn.pending⟩

section Finish

variable {r : Rehearsal} (released : r.allReleased = true) {i : Nat} {t : Thread}
  (present : r.session.threads[i]? = some t) {outcome : Option Outcome}
  (ended : t.body = .finish outcome)

include released present ended

/-- A thread that has come to an outcome and owes no reply ends. -/
theorem step_gotOn (owes : t.owed = none) : r.GotOn (r.step i) := by
  refine ⟨released, ?_⟩
  rw [session_step present]
  simp only [stepThread, ended, owes]
  exact pending_endThread_lt present

/-- A thread that has come to an outcome ends, after it has sent the reply that it may owe. -/
theorem endThread_gotOn : r.GotOn (r.endThread i) := by
  simp only [endThread, present, Option.bind_some]
  cases owes : t.owed with
  | none =>
    rw [if_neg (by simp)]
    exact step_gotOn released present ended owes
  | some owed =>
    obtain ⟨bound, -⟩ := List.getElem?_eq_some_iff.mp present
    have session : (r.step i).session = r.session.reply i t (owed.response outcome) := by
      rw [session_step present]
      simp only [stepThread, ended, owes]
    have there : (r.step i).session.threads[i]? = some { t with owed := none } := by
      rw [session, threads_reply, List.getElem?_set_self bound]
    have same : (r.step i).session.pending = r.session.pending := by
      rw [session, pending, threads_reply, queue_reply, List.length_set, pending]
    have gotOn := step_gotOn (r := r.step i) released there ended rfl
    rw [if_pos (by simp)]
    exact ⟨gotOn.allReleased, same ▸ gotOn.pending⟩

end Finish

/-- Threads with the given steps end when they are driven. -/
def Ends (i : Nat) (body : Body) : Prop :=
  ∀ (r : Rehearsal) (t : Thread), r.allReleased = true → r.session.threads[i]? = some t →
    t.body = body → r.GotOn (drive i body r)

/-- A thread ends if it does so with the steps that it has gone on with. -/
theorem Ends.of_turned {i : Nat} {t : Thread} {rest : Body} {r later : Rehearsal} (ends : Ends i rest)
    (released : r.allReleased = true) (turned : Turned i t rest r later) :
    r.GotOn (drive i rest later) :=
  turned.gotOn (ends later _ (turned.allReleased.trans released) turned.present rfl)

theorem Ends.await {i : Nat} {c : Call} {next : c.Answer → Body} (each : ∀ a, Ends i (next a)) :
    Ends i (.await c next) := by
  rintro r ⟨origin, owed, _⟩ released present rfl
  rw [drive, if_neg (by simp [holds_of_allReleased released])]
  split
  next a given =>
    have noted := sideEffect_turned present c
    refine noted.gotOn ((each a).of_turned (noted.allReleased.trans released)
      (step_turned noted.present ?_ ?_)) <;>
    · simp only [stepThread, answers_sideEffect, given]
      rfl
  next given =>
    have turned : Turned i ⟨origin, owed, .await c next⟩ (.finish none) r (r.step i) := by
      refine step_turned present ?_ ?_ <;>
      · simp only [stepThread, given]
        rfl
    exact turned.gotOn (endThread_gotOn (turned.allReleased.trans released) turned.present rfl)

theorem drive_call (i : Nat) (c : Call) (next : c.Answer → Body) (r : Rehearsal) :
    drive i (.call c next) r = drive i (.await c next) (r.step i) := by
  rw [drive, drive]

/-- Every thread ends. -/
theorem ends (i : Nat) (body : Body) : Ends i body := by
  induction body with
  | checkPhase next ih =>
    rintro r ⟨origin, owed, _⟩ released present rfl
    exact (ih r.session.phase).of_turned released (step_turned present rfl rfl)
  | call c next ih =>
    rintro r ⟨origin, owed, _⟩ released present rfl
    rw [drive_call]
    exact (Ends.await ih).of_turned released (step_turned present rfl rfl)
  | await c next ih => exact .await ih
  | advance p rest ih =>
    rintro r ⟨origin, owed, _⟩ released present rfl
    exact ih.of_turned released (step_turned present rfl rfl)
  | claimClose next ih =>
    rintro r ⟨origin, owed, _⟩ released present rfl
    exact (ih !r.session.closeClaimed).of_turned released (step_turned present rfl rfl)
  | closeConnection rest ih =>
    rintro r ⟨origin, owed, _⟩ released present rfl
    exact ih.of_turned released (step_turned present rfl rfl)
  | finish outcome => exact fun r t released present ended => endThread_gotOn released present ended

/-- Driving threads as often as there is something left to be done leaves no thread. -/
theorem settleTimes_threadless {n : Nat} {r : Rehearsal} (released : r.allReleased = true)
    (enough : r.session.pending ≤ n) : (settleTimes n r).session.threads = [] := by
  induction n generalizing r with
  | zero =>
    rw [pending] at enough
    rw [settleTimes]
    exact List.eq_nil_of_length_eq_zero (by omega)
  | succ n ih =>
    rw [settleTimes]
    split
    next unheld =>
      refine List.eq_nil_iff_forall_not_mem.mpr fun t present => ?_
      have held := List.findIdx?_eq_none_iff.mp unheld t present
      rw [isHeld] at held
      split at held <;> simp [holds_of_allReleased released] at held
    next i found =>
      obtain ⟨bound, -⟩ := List.findIdx?_eq_some_iff_getElem.mp found
      rw [List.getElem?_eq_getElem bound]
      have gotOn := ends i _ r _ released (List.getElem?_eq_getElem bound) rfl
      exact ih gotOn.allReleased (Nat.le_of_lt_succ (Nat.lt_of_lt_of_le gotOn.pending enough))

/-- Draining leaves no thread. -/
theorem drain_threadless (r : Rehearsal) : r.drain.session.threads = [] :=
  settleTimes_threadless rfl (Nat.add_le_add_left (List.length_filterMap_le ..) _)

/-- Draining ends every job, however its session has come about, as long as sequences tell the jobs
apart. -/
theorem drain_idle {settings : Settings} {hasObserver : Bool} {moves : List Move} {r : Rehearsal}
    (run : (Session.start settings hasObserver).run? moves = some r.session)
    (few : (messages moves).length < wordLimit) : r.drain.session.isIdle = true := by
  obtain ⟨more, silent, -, drained⟩ := r.drain_leads
  refine idle_of_threadless (run?_trans run drained) ?_ r.drain_threadless
  rwa [messages_append, silent, List.append_nil]

end Rehearsal

end BuildServer
