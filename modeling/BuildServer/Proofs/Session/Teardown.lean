import BuildServer.Proofs.Session.Exit
import BuildServer.Session.Serve

/-! # The owner closes without draining the queue

When the owner closes a session, no step of the closing waits for a job. It can be carried out at
once in every state in which nobody else has claimed it, and leaves the queue and the jobs that are
carried out as they are. They go on to be answered, each request once, but what is sent behind the
close is lost. Only what was answered before has reached the client, and that is everything if nothing
was left to be done.
-/

namespace BuildServer

open Backend Protocol Rpc

namespace Session

/-- No event is taken back. -/
theorem events_of_run? {s later : Session} {more : List Move} (run : s.run? more = some later) :
    ∃ new, later.events = s.events ++ new := by
  refine run?_induction (fun _ later => ∃ new, later.events = s.events ++ new)
    ⟨[], (List.append_nil _).symm⟩ ?_ run
  rintro more middle move next - ⟨new, grown⟩ step
  obtain ⟨added, further, -⟩ := step.events
  exact ⟨new ++ added, by rw [further, grown, List.append_assoc]⟩

theorem repliesTo_append (message : Nat) (first second : List Event) :
    repliesTo message (first ++ second) = repliesTo message first ++ repliesTo message second :=
  List.filterMap_append

/-- A session sends nothing to the client behind a close. -/
theorem connection_of_closed {s later : Session} {before new : List Event} {origin : Origin}
    (closed : s.events = before ++ [.closed origin]) (grown : later.events = s.events ++ new)
    (c : Connection) : later.connection c = s.connection c := by
  rw [connection, connection, grown, List.filterMap_append, List.foldl_append]
  refine Connection.foldl_deliver_of_closed ?_ _
  rw [closed, List.filterMap_append, List.foldl_append]
  exact Connection.closed_close _

/-- The owner closes the session in four steps, none of which waits for another thread. -/
theorem run?_close {s : Session} (unclaimed : s.closeClaimed = false) :
    s.run? (.close :: List.replicate 4 (.step s.threads.length fun _ => none)) = some { s with
      phase := .closed
      closeClaimed := true
      events := s.events ++ [.closed .owner] } := by
  simp [run?, List.replicate, step?, beginClose, stepThread, goOn, note, endThread, Body.close,
    unclaimed, Phase.advance_closed, List.eraseIdx_append]

/-- The owner's close waits for nothing. In every state in which the closing has not been claimed it
can be carried out at once, and changes nothing about the queue and the jobs that are carried out.
Whenever the connection is closed for the owner, everything that is sent from then on is lost, and so
every request received by then is answered once, but either before the close or, lost to the client,
behind it. All of them have been answered before if nothing was left to be done. -/
theorem owner_closes_without_draining {settings : Settings} {hasObserver : Bool} {moves : List Move}
    {s : Session} (run : (start settings hasObserver).run? moves = some s) :
    (s.closeClaimed = false →
      s.run? (.close :: List.replicate 4 (.step s.threads.length fun _ => none)) = some { s with
        phase := .closed
        closeClaimed := true
        events := s.events ++ [.closed .owner] }) ∧
    ∀ move next, s.step? move = some next → next.events = s.events ++ [.closed .owner] →
      s.closeCount = 0 ∧
      (s.isIdle = true → ∀ (i : Nat) (r : Request), (messages moves)[i]? = some (.request r) →
        (repliesTo i s.events).length = 1) ∧
      ∀ more later, next.run? more = some later → ∃ new, later.events = next.events ++ new ∧
        (∀ c, later.connection c = next.connection c) ∧
        (later.isIdle = true → ∀ (i : Nat) (r : Request),
          (messages moves)[i]? = some (.request r) →
          (repliesTo i s.events).length + (repliesTo i new).length = 1) := by
  refine ⟨run?_close, fun move next step closed => ⟨?_, ?_, fun more later rest => ?_⟩⟩
  · have more : next.closeCount ≠ s.closeCount := by
      rw [closeCount_eq, closeCount_eq, closed, closes_append]
      exact Nat.succ_ne_self _
    obtain ⟨front, t, back, answers, body, -, split, turns, -⟩ :=
      (moves_of_step? step).closed more
    exact closeCount_of_closeConnection run (by simp [split]) turns
  · exact fun idle i r isRequest => (repliesTo_of_run? run isRequest).2.2 idle
  · obtain ⟨new, grown⟩ := events_of_run? rest
    refine ⟨new, grown, connection_of_closed closed grown, fun idle i r isRequest => ?_⟩
    have whole : (start settings hasObserver).run? (moves ++ move :: more) = some later := by
      rw [run?_append, run, Option.bind_some, run?, List.foldlM_cons, step]
      exact rest
    have known : (messages (moves ++ move :: more))[i]? = some (.request r) := by
      rw [messages_append, List.getElem?_append_left (List.getElem?_eq_some_iff.mp isRequest).1,
        isRequest]
    have once := (repliesTo_of_run? whole known).2.2 idle
    have nothing : repliesTo i [.closed .owner] = [] := rfl
    rw [grown, closed, repliesTo_append, repliesTo_append, nothing, List.append_nil,
      List.length_append] at once
    exact once

/-- The owner closes at once while a request waits for the backend. The reply comes behind the close,
and nothing of it is written. -/
theorem reply_lost_behind_close : ∃ (moves more : List Move) (s early next later : Session)
    (new : List Event), (start .default false).run? moves = some s ∧
    messages moves = [.request ⟨.number 1, "workspace/buildTargets", .null⟩] ∧ s.isIdle = false ∧
    s.run? (.close :: List.replicate 4 (.step 1 fun _ => none)) = some { s with
      phase := .closed
      closeClaimed := true
      events := s.events ++ [.closed .owner] } ∧
    s.run? [.close, .step 1 fun _ => none, .step 1 fun _ => none] = some early ∧
    early.step? (.step 1 fun _ => none) = some next ∧ next.run? more = some later ∧
    later.events = next.events ++ new ∧ repliesTo 0 early.events = [] ∧
    (repliesTo 0 new).length = 1 ∧ later.connection {} = next.connection {} := by
  let moves : List Move := [.receive (.request ⟨.number 1, "workspace/buildTargets", .null⟩),
    .step 0 fun _ => none, .step 0 fun _ => none]
  let more : List Move :=
    .step 1 (fun _ => none) :: List.replicate 3 (.step 0 fun _ => none)
  have run : (start .default false).run? moves = some _ := rfl
  have begun : (start .default false).run?
      (moves ++ [.close, .step 1 fun _ => none, .step 1 fun _ => none]) = some _ := rfl
  obtain ⟨-, -, behind⟩ :=
    (owner_closes_without_draining begun).2 (.step 1 fun _ => none) _ rfl rfl
  obtain ⟨new, grown, lost, answered⟩ := behind more _ rfl
  have once := answered rfl 0 _ rfl
  rw [show repliesTo 0 _ = [] from rfl, List.length_nil, Nat.zero_add] at once
  exact ⟨moves, more, _, _, _, _, new, run, rfl, rfl, (owner_closes_without_draining run).1 rfl,
    rfl, rfl, rfl, grown, rfl, once, lost {}⟩

/-- A request that was received before the owner began to close the session is answered only after the
connection has been closed. -/
theorem close_ahead_of_reply : ∃ (first second : List Move) (s : Session) (before after : List Event),
    (start .default false).run? (first ++ .close :: second) = some s ∧
    messages first = [.request ⟨.number 1, "workspace/buildTargets", .null⟩] ∧
    s.isIdle = true ∧ s.events = before ++ .closed .owner :: after ∧
    repliesTo 0 before = [] ∧ (repliesTo 0 after).length = 1 :=
  ⟨[.receive (.request ⟨.number 1, "workspace/buildTargets", .null⟩)],
    List.replicate 4 (.step 1 fun _ => none) ++ List.replicate 3 (.step 0 fun _ => none), _,
    [], [.checked (.job 0 0) .closed, .replied 0 _, .released (.job 0 0)], rfl, rfl, rfl, rfl, rfl, rfl⟩

end Session

end BuildServer
