import BuildServer.Backend.Script
import BuildServer.Proofs.Session.Exit

/-! # The last phase is settled by the messages

A handshake, a shutdown and an exit each ask for a phase, and their jobs move the session at least
that far before they end, whatever they meet with, unless the backend breaks down over what it can
do. Nothing else moves the phase but the owner. So once nothing is left to be done, a session that
its owner has not closed is in the furthest phase that any of its messages asked for, be that phase
reached directly or by way of others, in whatever order the threads took their steps.
-/

namespace BuildServer

open Backend Protocol Rpc

/-- Whether a call asks the backend what it can do. -/
def Backend.Call.asksCapability : Call → Bool
  | .supportsPreparation | .indexDatabase | .indexStore | .watchers | .displayName => true
  | _ => false

/-- The phase that a request asks for; most ask for none. -/
def Protocol.Query.goal : Query → Phase
  | .handshake _ => .initialized
  | .shutdown _ => .shuttingDown
  | _ => .uninitialized

/-- The phase that a notification asks for; only an exit asks for one. -/
def Protocol.Notice.goal : Notice → Phase
  | .exit _ => .closed
  | _ => .uninitialized

namespace Phase

theorem advance_eq (p next : Phase) : p.advance next = p ∨ p.advance next = next := by
  rw [advance]
  split
  · exact .inr rfl
  · exact .inl rfl

end Phase

namespace Body

/-- Steps that end only after the phase has come as far as the given one, unless the backend breaks
down over what it can do. -/
def Attains (goal : Phase) : Body → Prop
  | .checkPhase next => ∀ p, goal ≤ p ∨ (next p).Attains goal
  | .call c next | .await c next => c.asksCapability = true ∧ ∀ a, (next a).Attains goal
  | .advance p _ => goal ≤ p
  | .claimClose _ | .closeConnection _ | .finish _ => False

/-- Steps that move the phase to the given one and to no other. -/
def MovesTo (goal : Phase) : Body → Prop :=
  Every fun act => ∀ p, act = .advance p → p = goal

end Body

namespace Session

open Queue

/-- Whether the backend has broken down over what it can do. -/
def Event.breaksOverCapability : Event → Bool
  | .returned _ c none => c.asksCapability
  | _ => false

/-- The phase that a message asks for. One that cannot be read asks for none. -/
def goal : Message → Phase
  | .request r =>
    match Query.read? r.method r.params with
    | some (.ok q) => q.goal
    | _ => .uninitialized
  | .notification n =>
    match Notice.read? n.method n.params with
    | some (.ok notice) => notice.goal
    | _ => .uninitialized
  | .response _ => .uninitialized

/-- The furthest phase that any of the messages asks for. -/
def destination (ms : List Message) : Phase :=
  if ms.any (goal · = .closed) then .closed
  else if ms.any (goal · = .shuttingDown) then .shuttingDown
  else if ms.any (goal · = .initialized) then .initialized
  else .uninitialized

section Messages

variable {version : String} {number : Nat} {m : Message} {f : Footprint} {j : Job}

theorem query_movesTo (version : String) (q : Query) : (q.body version).MovesTo q.goal := by
  refine ⟨by simp, fun p => ?_⟩
  dsimp only
  split
  · simp [Body.fail, Body.Every]
  · cases q with
    | handshake | shutdown | awaitUpdates =>
      simp [Query.handler, Query.goal, Body.handshake, Body.succeed, Body.Every]
    | prepare | sources | options | targets =>
      exact ⟨by simp, by simp, fun _ => Body.forward_every (by simp) _⟩

theorem notice_movesTo (notice : Notice) : notice.body.MovesTo notice.goal := by
  refine ⟨by simp, fun p => ?_⟩
  dsimp only
  split
  · simp [Body.Every]
  · cases notice with
    | initialized | filesChanged => simp [Notice.handler, Body.Every]
    | exit =>
      refine Body.close_every.imp fun act closing p same => ?_
      subst same
      exact closing

/-- The job of a message moves the phase to the one that the message asks for. -/
theorem movesTo_of_jobOf? (accepted : jobOf? version number m = some (f, j)) :
    j.body.MovesTo (goal m) := by
  obtain ⟨r, q, rfl, read, -, rfl⟩ | ⟨n, notice, rfl, read, -, rfl⟩ := jobOf?_cases accepted
  · simp only [goal, read]
    exact query_movesTo version q
  · simp only [goal, read]
    exact notice_movesTo notice

/-- A handshake and a shutdown become changes that get to the phase asked for. -/
theorem attains_of_goal (version : String) (number : Nat) {p : Phase} (asked : goal m = p)
    (isRequest : p = .initialized ∨ p = .shuttingDown) :
    ∃ j, jobOf? version number m = some (.change, j) ∧ j.body.Attains p := by
  subst asked
  cases m with
  | request r =>
    cases read : Query.read? r.method r.params with
    | none => simp [goal, read] at isRequest
    | some result =>
      cases result with
      | error e => simp [goal, read] at isRequest
      | ok q =>
        simp only [goal, read, jobOf?] at isRequest ⊢
        cases q with
        | handshake =>
          refine ⟨_, rfl, fun p => ?_⟩
          cases p with
          | uninitialized | initialized =>
            exact .inr ⟨rfl, fun _ => ⟨rfl, fun _ => ⟨rfl, fun _ => ⟨rfl, fun _ => Nat.le_refl _⟩⟩⟩⟩
          | shuttingDown | closed => exact .inl (show Phase.initialized ≤ _ by decide)
        | shutdown => exact ⟨_, rfl, fun p => .inr (by cases p <;> exact Nat.le_refl _)⟩
        | _ => simp [Query.goal] at isRequest
  | notification n =>
    have only : ∀ notice : Notice, notice.goal ≠ .initialized ∧ notice.goal ≠ .shuttingDown := by
      intro notice
      cases notice <;> simp [Notice.goal]
    simp only [goal] at isRequest
    split at isRequest
    · exact absurd isRequest (not_or.mpr (only _))
    · simp at isRequest
  | response _ => simp [goal] at isRequest

/-- Only an exit that can be read asks for the last phase. -/
theorem exit_of_goal (asked : goal m = .closed) : ∃ n params, m = .notification n ∧
    Notice.read? n.method n.params = some (.ok (.exit params)) := by
  cases m with
  | request r =>
    simp only [goal] at asked
    split at asked
    · rename_i q read
      cases q <;> contradiction
    · contradiction
  | notification n =>
    simp only [goal] at asked
    split at asked
    · rename_i notice read
      cases notice with
      | exit params => exact ⟨n, params, rfl, read⟩
      | _ => contradiction
    · contradiction
  | response _ => contradiction

end Messages

/-- A phase that some message asks for, and than which none asks for more, is the destination. -/
theorem eq_destination {ms : List Message} {p : Phase}
    (asked : p = .uninitialized ∨ ∃ m ∈ ms, goal m = p) (furthest : ∀ m ∈ ms, goal m ≤ p) :
    p = destination ms := by
  have beyond : ∀ q, ¬ q ≤ p → ms.any (goal · = q) = false := by
    intro q further
    refine List.any_eq_false.mpr fun m received same => further ?_
    exact of_decide_eq_true same ▸ furthest m received
  have given : p ≠ .uninitialized → ms.any (goal · = p) = true := by
    intro other
    obtain ⟨m, received, same⟩ := asked.resolve_left other
    exact List.any_eq_true.mpr ⟨m, received, decide_eq_true same⟩
  cases p with
  | uninitialized =>
    simp [destination, beyond .closed (by decide), beyond .shuttingDown (by decide),
      beyond .initialized (by decide)]
  | initialized =>
    simp [destination, beyond .closed (by decide), beyond .shuttingDown (by decide),
      given (by decide)]
  | shuttingDown => simp [destination, beyond .closed (by decide), given (by decide)]
  | closed => simp [destination, given (by decide)]

/-- Steps that are to attain a phase go on so until the session is there. -/
theorem Goes.attains {origin : Origin} {phase next : Phase} {claimed claims : Bool}
    {body rest : Body} {events : List Event}
    (goes : Goes origin phase claimed body rest next claims events) {p : Phase}
    (attains : body.Attains p) (able : events.any Event.breaksOverCapability = false) :
    p ≤ next ∨ rest.Attains p := by
  cases goes with
  | checked => exact attains phase
  | called => exact .inr attains
  | answered => exact .inr (attains.2 _)
  | @failed c next => simp [Event.breaksOverCapability, attains.1] at able
  | @advanced q rest =>
    rw [Phase.advance_eq_max]
    exact .inl (attains.trans (le_max_right phase q))
  | claimed | closed => exact attains.elim

section Moves

variable {s next : Session} {move : Move}

/-- However a session goes on, its phase is never moved back. -/
theorem phase_le_of_run? {later : Session} {more : List Move} (rest : s.run? more = some later) :
    s.phase ≤ later.phase :=
  run?_induction (fun _ later => s.phase ≤ later.phase) le_rfl
    (fun _ before step => before.trans step.phase_le) rest

/-- A step moves the phase to one that the thread is to move it to, or leaves it. -/
theorem Moves.phase_cases (moves : Moves s move next) : next.phase = s.phase ∨
    ∃ t ∈ s.threads, ∀ p, t.body.MovesTo p → next.phase = p := by
  cases moves with
  | @goes front back t answers body phase claimed events split goes =>
    obtain ⟨origin, owed, earlier⟩ := t
    cases goes with
    | @advanced q rest =>
      have present : ⟨origin, owed, .advance q body⟩ ∈ s.threads := by simp [split]
      refine (s.phase.advance_eq q).imp_right fun same => ⟨_, present, fun p moves => ?_⟩
      exact same.trans (moves.1 q rfl)
    | _ => exact .inl rfl
  | _ => exact .inl rfl

end Moves

section Run

variable {settings : Settings} {hasObserver : Bool} {moves : List Move} {s : Session}
  (run : (start settings hasObserver).run? moves = some s)

include run

/-- As long as the owner does not close the session, some message has asked for the phase that it is
in. -/
theorem phase_asked_for (unclosed : .close ∉ moves) :
    s.phase = .uninitialized ∨ ∃ m ∈ messages moves, goal m = s.phase := by
  refine run?_induction (fun moves s => .close ∉ moves →
    s.phase = .uninitialized ∨ ∃ m ∈ messages moves, goal m = s.phase) (fun _ => .inl rfl) ?_ run
    unclosed
  intro moves s move next before ih step unclosed
  simp only [List.mem_append, List.mem_singleton, not_or] at unclosed
  rcases step.phase_cases with same | ⟨t, present, moved⟩
  · rw [same, messages_append]
    refine (ih unclosed.1).imp_right ?_
    rintro ⟨m, received, asked⟩
    exact ⟨m, List.mem_append_left _ received, asked⟩
  · obtain ⟨d, own⟩ := (settled_of_run? before unclosed.1).jobs t present
    obtain ⟨sequence, origin⟩ := Thread.message?_eq_some.mp own
    obtain ⟨f, j, job, course⟩ := (recorded_of_run? before).running t present d sequence origin
    obtain ⟨m, received, accepted⟩ := Option.bind_eq_some_iff.mp job
    refine .inr ⟨m, ?_, (moved _ (course.every (movesTo_of_jobOf? accepted))).symm⟩
    rw [messages_append]
    exact List.mem_append_left _ (List.mem_of_getElem? received)

/-- A job that is to attain a phase does not end before the session is there, unless the backend
breaks down over what it can do. -/
theorem attained_of_released (able : s.events.any Event.breaksOverCapability = false)
    {p : Phase} {d : Nat} (attains : ∀ f j, jobAt? s.version (messages moves) d = some (f, j) →
      j.body.Attains p) {sequence : UInt64} (released : .released (.job d sequence) ∈ s.events) :
    p ≤ s.phase := by
  have reached := (reached_of_released run (Body.Attains p)
    (fun s => p ≤ s.phase ∨ s.events.any Event.breaksOverCapability = true) ?_ ?_ (fun _ => id)
    attains).2 sequence released
  · exact reached.resolve_right (by simp [able])
  · intro s next move step there
    refine there.imp (fun there => there.trans step.phase_le) fun broken => ?_
    obtain ⟨more, grown, -⟩ := step.events
    rw [grown, List.any_append, broken, Bool.true_or]
  · intro s next origin body rest events goes grown attains
    cases broken : events.any Event.breaksOverCapability with
    | true => exact .inr (.inr (by rw [grown, List.any_append, broken, Bool.or_true]))
    | false => exact (goes.attains attains broken).symm.imp_right .inl

/-- The move that closes the connection is made in the last phase. -/
theorem last_phase_of_closes {move : Move} {next : Session} (step : Moves s move next)
    (closes : next.closeCount ≠ s.closeCount) : s.phase = .closed ∧ next.phase = .closed := by
  obtain ⟨front, t, back, answers, rest, -, split, turns, -, phase, -⟩ := step.closed closes
  have closesLast := closesLast_of_run? run t (by simp [split])
  rw [turns] at closesLast
  exact ⟨closesLast.1, phase.trans closesLast.1⟩

/-- A session whose connection has been closed is in the last phase. -/
theorem phase_of_closeCount (closed : s.closeCount ≠ 0) : s.phase = .closed := by
  refine run?_induction (fun _ s => s.closeCount ≠ 0 → s.phase = .closed) (absurd rfl) ?_ run closed
  intro moves s move next before ih step closed
  by_cases same : next.closeCount = s.closeCount
  · exact Phase.closed_le_iff.mp (ih (same ▸ closed) ▸ step.phase_le)
  · exact (last_phase_of_closes before step same).2

/-- Once nothing is left to be done, an exit has had the session closed, if its owner has not. -/
theorem closed_of_exit (unclosed : .close ∉ moves) (idle : s.isIdle = true) {m : Message}
    (received : m ∈ messages moves) (exits : goal m = .closed) :
    s.closeClaimed = true ∧ s.closeCount = 1 := by
  obtain ⟨d, present⟩ := List.mem_iff_getElem?.mp received
  obtain ⟨n, params, rfl, read⟩ := exit_of_goal exits
  obtain ⟨ends, closes⟩ := exit_closes run present read
  obtain ⟨sequence, released⟩ := ends idle
  obtain ⟨claimed, -, once⟩ := closes sequence released
  exact ⟨claimed, once unclosed⟩

/-- Once nothing is left to be done, the session has come as far as every message asked for. -/
theorem goal_le_phase (unclosed : .close ∉ moves)
    (able : s.events.any Event.breaksOverCapability = false)
    (idle : s.isIdle = true) {m : Message} (received : m ∈ messages moves) : goal m ≤ s.phase := by
  obtain ⟨d, present⟩ := List.mem_iff_getElem?.mp received
  by_cases request : goal m = .initialized ∨ goal m = .shuttingDown
  · obtain ⟨j, accepted, attains⟩ := attains_of_goal s.version d rfl request
    have job : jobAt? s.version (messages moves) d = some (.change, j) := by
      rw [jobAt?, present, Option.bind_some, accepted]
    obtain ⟨sequence, released⟩ := released_of_idle run job idle
    refine attained_of_released run able (fun f other same => ?_) released
    obtain ⟨-, rfl⟩ : .change = f ∧ j = other := by simpa using job.symm.trans same
    exact attains
  · by_cases exit : goal m = .closed
    · obtain ⟨-, once⟩ := closed_of_exit run unclosed idle received exit
      exact (phase_of_closeCount run (by rw [once]; exact Nat.one_ne_zero)).ge.trans' exit.le
    · have none : goal m = .uninitialized := by
        cases asked : goal m <;> simp_all
      rw [none]
      exact Nat.zero_le _

end Run

/-- A session never goes back to an earlier phase, whatever happens to it. If the owner has not closed
it and the backend has not broken down over what it can do, then once nothing is left to be done it
is in the last phase if an exit was received, else shutting down if a shutdown was, else initialized
if a handshake was, and else as at the start, whatever the limit of the queue and the order in which
threads took their steps. -/
theorem phase_settled_by_messages {settings : Settings} {hasObserver : Bool} {moves : List Move}
    {s : Session} (run : (start settings hasObserver).run? moves = some s) :
    (∀ more later, s.run? more = some later → s.phase ≤ later.phase) ∧
    (.close ∉ moves → s.events.any Event.breaksOverCapability = false → s.isIdle = true →
      s.phase = destination (messages moves)) := by
  refine ⟨fun more later rest => phase_le_of_run? rest, fun unclosed able idle => ?_⟩
  exact eq_destination (phase_asked_for run unclosed) fun m received =>
    goal_le_phase run unclosed able idle received

/-- A backend that breaks down when it is asked for its targets. -/
def answersWithoutTargets : Answers := Script.answers { parts := [("targets", .breaksDown)] } []

/-- A handshake takes effect although the backend broke down over the request before it. -/
theorem initialized_after_breakdown : ∃ (moves : List Move) (s : Session),
    (start .default false).run? moves = some s ∧
    messages moves = [.request ⟨.number 1, "workspace/buildTargets", .null⟩,
      .request ⟨.number 2, "build/initialize", .null⟩] ∧
    .returned (.job 0 0) .targets none ∈ s.events ∧ s.isIdle = true ∧ s.phase = .initialized := by
  let moves : List Move := .receive (.request ⟨.number 1, "workspace/buildTargets", .null⟩) ::
    .receive (.request ⟨.number 2, "build/initialize", .null⟩) ::
    List.replicate 19 (.step 0 answersWithoutTargets)
  have run : (start .default false).run? moves = some _ := rfl
  have last := (phase_settled_by_messages run).2 (by simp [moves]) rfl rfl
  exact ⟨moves, _, run, rfl, .tail _ (.tail _ (.head _)), rfl, last⟩

end Session

end BuildServer
