import BuildServer.Proofs.Session.Ending

/-! # Threads come to an end

The steps of a thread are finitely many, whatever phases it finds and whatever the backend answers, and
no step waits for another thread. So a request that is being carried out is answered as soon as its own
thread has taken its steps.
-/

namespace BuildServer

open Backend Protocol Rpc

namespace Session

variable {answers : Answers} {i : Nat}

/-- Threads with the given steps come to an outcome by steps of their own. -/
def Ends (answers : Answers) (i : Nat) (body : Body) : Prop :=
  ∀ (s : Session) (t : Thread), s.threads[i]? = some t → t.body = body →
    ∃ n later outcome, s.run? (List.replicate n (.step i answers)) = some later ∧
      later.threads[i]? = some { t with body := .finish outcome }

/-- A thread comes to an outcome if what is left of it after its next step does. -/
theorem Ends.of_step {s : Session} {t : Thread} {rest : Body} (ends : Ends answers i rest)
    (present : s.threads[i]? = some t)
    (went : (s.stepThread i t answers).threads = s.threads.set i { t with body := rest }) :
    ∃ n later outcome, s.run? (List.replicate n (.step i answers)) = some later ∧
      later.threads[i]? = some { t with body := .finish outcome } := by
  obtain ⟨bound, -⟩ := List.getElem?_eq_some_iff.mp present
  have there : (s.stepThread i t answers).threads[i]? = some { t with body := rest } := by
    rw [went, List.getElem?_set_self bound]
  obtain ⟨n, later, outcome, run, ended⟩ := ends _ _ there rfl
  have first : s.run? [.step i answers] = some (s.stepThread i t answers) := by
    simp [run?, step?, present]
  exact ⟨n + 1, later, outcome, run?_trans first run, ended⟩

theorem Ends.finish (outcome : Option Outcome) : Ends answers i (.finish outcome) := by
  rintro s ⟨origin, owed, _⟩ present rfl
  exact ⟨0, s, outcome, rfl, present⟩

theorem Ends.await {c : Call} {next : c.Answer → Body} (each : ∀ a, Ends answers i (next a)) :
    Ends answers i (.await c next) := by
  rintro s ⟨origin, owed, _⟩ present rfl
  cases given : answers c with
  | some a =>
    refine (each a).of_step present ?_
    simp only [stepThread, given]
    rfl
  | none =>
    refine (Ends.finish none).of_step present ?_
    simp only [stepThread, given]
    rfl

/-- Every thread comes to an outcome. -/
theorem ends (answers : Answers) (i : Nat) (body : Body) : Ends answers i body := by
  induction body with
  | checkPhase next ih =>
    rintro s ⟨origin, owed, _⟩ present rfl
    exact (ih s.phase).of_step present rfl
  | call c next ih =>
    rintro s ⟨origin, owed, _⟩ present rfl
    exact (Ends.await ih).of_step present rfl
  | await c next ih => exact .await ih
  | advance p rest ih =>
    rintro s ⟨origin, owed, _⟩ present rfl
    exact ih.of_step present rfl
  | claimClose next ih =>
    rintro s ⟨origin, owed, _⟩ present rfl
    exact (ih !s.closeClaimed).of_step present rfl
  | closeConnection rest ih =>
    rintro s ⟨origin, owed, _⟩ present rfl
    exact ih.of_step present rfl
  | finish outcome => exact .finish outcome

theorem messages_replicate_step (moves : List Move) (n : Nat) :
    messages (moves ++ List.replicate n (.step i answers)) = messages moves := by
  rw [messages_append]
  simp [messages]

section Run

variable {settings : Settings} {hasObserver : Bool} {moves : List Move} {s : Session}
  (run : (start settings hasObserver).run? moves = some s) {message : Nat} {r : Request}
  (isRequest : (messages moves)[message]? = some (.request r))

include run isRequest

theorem replied_once {reply : Response} (sent : .replied message reply ∈ s.events) :
    (repliesTo message s.events).length = 1 := by
  obtain ⟨most, -, -⟩ := repliesTo_of_run? run isRequest
  have least := List.length_pos_of_mem (mem_repliesTo.mpr sent)
  omega

variable {t : Thread} {sequence : UInt64} (present : s.threads[i]? = some t)
  (origin : t.origin = .job message sequence)

include present origin

/-- A thread that carries out a request owes its reply, or has sent it. -/
theorem owes_or_replied : t.owed ≠ none ∨ ∃ reply, .replied message reply ∈ s.events := by
  obtain ⟨f, j, job, course⟩ :=
    (recorded_of_run? run).running t (List.mem_of_getElem? present) message sequence origin
  have owes : j.owed = some ⟨r.id⟩ := by
    rw [jobAt?, isRequest, Option.bind_some] at job
    obtain ⟨_, _, same, -, -, rfl⟩ | ⟨_, _, other, -⟩ := jobOf?_cases job
    · cases same
      rfl
    · cases other
  rcases course.owes owes with owed | ⟨reply, sent⟩
  · exact .inl (by simp [owed])
  · exact .inr ⟨reply, (mem_about.mp sent).1⟩

/-- A request that is being carried out is answered after finitely many steps of its own thread. -/
theorem replied_by_steps (answers : Answers) : ∃ n later,
    s.run? (List.replicate n (.step i answers)) = some later ∧
      (repliesTo message later.events).length = 1 := by
  rcases owes_or_replied run isRequest present origin with owes | ⟨reply, sent⟩
  · obtain ⟨owed, owes⟩ := Option.ne_none_iff_exists'.mp owes
    obtain ⟨n, ended, outcome, steps, there⟩ := ends answers i t.body s t present rfl
    have last : ended.run? [.step i answers] =
        some (ended.stepThread i { t with body := .finish outcome } answers) := by
      simp [run?, step?, there]
    have steps := run?_trans steps last
    have sent : .replied message (owed.response outcome) ∈
        (ended.stepThread i { t with body := .finish outcome } answers).events := by
      simp [stepThread, owes, reply, origin, note]
    rw [← List.replicate_succ'] at steps
    refine ⟨n + 1, _, steps, replied_once (r := r) (run?_trans run steps) ?_ sent⟩
    rw [messages_replicate_step, isRequest]
  · exact ⟨0, s, rfl, replied_once run isRequest sent⟩

end Run

end Session

end BuildServer
