import BuildServer.Proofs.Connection.RoundTrip
import BuildServer.Proofs.Session.Closers
import BuildServer.Proofs.Session.Rehearsal
import BuildServer.Session.Serve

/-! # Serving a stream hands on the right messages

A stream is read frame by frame, and what its payloads say is handed to a session up to the first
exit. Whether that exit has closed the session is known only from its job, so the session is drained
before the loop looks. Neither garbage between the frames nor an exit that cannot be read ends the
loop. It knows the session only by what a `Receiver` shows of it: `Hosts` says that a receiver has a
session behind it whose threads may take their steps at any time.
-/

namespace BuildServer

open Backend BuildServer.Frame Protocol Rpc

namespace Session

/-- The messages among payloads, up to and including the first exit that can be read. -/
def delivered : List (List UInt8) → List Message
  | [] => []
  | payload :: payloads =>
    match Message.ofBytes payload with
    | .error _ => delivered payloads
    | .ok m => if goal m = .closed then [m] else m :: delivered payloads

section Delivered

variable {payload : List UInt8} {payloads : List (List UInt8)} {m : Message}

theorem delivered_cons_error {e : MessageError} (garbage : Message.ofBytes payload = .error e) :
    delivered (payload :: payloads) = delivered payloads := by
  rw [delivered, garbage]

theorem delivered_cons_exit (decoded : Message.ofBytes payload = .ok m) (exits : goal m = .closed) :
    delivered (payload :: payloads) = [m] := by
  simp only [delivered, decoded, if_pos exits]

theorem delivered_cons_other (decoded : Message.ofBytes payload = .ok m) (other : goal m ≠ .closed) :
    delivered (payload :: payloads) = m :: delivered payloads := by
  simp only [delivered, decoded, if_neg other]

/-- Whatever is handed on is the message of a payload. -/
theorem exists_of_mem_delivered (member : m ∈ delivered payloads) :
    ∃ payload ∈ payloads, Message.ofBytes payload = .ok m := by
  induction payloads with
  | nil => contradiction
  | cons head payloads ih =>
    have behind (rest : m ∈ delivered payloads) :
        ∃ payload ∈ head :: payloads, Message.ofBytes payload = .ok m := by
      obtain ⟨payload, among, decoded⟩ := ih rest
      exact ⟨payload, .tail _ among, decoded⟩
    cases decoded : Message.ofBytes head with
    | error e =>
      rw [delivered_cons_error decoded] at member
      exact behind member
    | ok first =>
      by_cases exits : goal first = .closed
      · rw [delivered_cons_exit decoded exits] at member
        exact ⟨head, .head _, List.mem_singleton.mp member ▸ decoded⟩
      · rw [delivered_cons_other decoded exits] at member
        rcases List.mem_cons.mp member with rfl | rest
        · exact ⟨head, .head _, decoded⟩
        · exact behind rest

/-- If there is an exit, then the last message that is handed on is one. -/
theorem delivered_eq_concat (exits : ∃ payload ∈ payloads, ∃ m,
    Message.ofBytes payload = .ok m ∧ goal m = .closed) :
    ∃ ms m, delivered payloads = ms ++ [m] ∧ goal m = .closed := by
  induction payloads with
  | nil => simp at exits
  | cons payload payloads ih =>
    cases decoded : Message.ofBytes payload with
    | error e =>
      rw [delivered_cons_error decoded]
      exact ih (by simpa [decoded] using exits)
    | ok m =>
      by_cases own : goal m = .closed
      · exact ⟨[], m, delivered_cons_exit decoded own, own⟩
      · obtain ⟨ms, last, rest, exits⟩ := ih (by simpa [decoded, own] using exits)
        refine ⟨m :: ms, last, ?_, exits⟩
        rw [delivered_cons_other decoded own, rest, List.cons_append]

end Delivered

/-- Moves by which nobody closes the session: neither the owner nor anyone who hands in an exit. -/
structure LeavesOpen (moves : List Move) : Prop where
  unclosed : .close ∉ moves
  harmless : ∀ m ∈ messages moves, goal m ≠ .closed

/-- A run in which the given messages are handed in, one behind the other, while others leave the
session open. -/
inductive Hands : List Message → List Move → Prop
  | done {others : List Move} (leavesOpen : LeavesOpen others) : Hands [] others
  | next {m : Message} {ms : List Message} {others rest : List Move} (leavesOpen : LeavesOpen others)
      (hands : Hands ms rest) : Hands (m :: ms) (others ++ .receive m :: rest)

section Hands

variable {ms : List Message} {first second moves : List Move}

theorem LeavesOpen.append (before : LeavesOpen first) (after : LeavesOpen second) :
    LeavesOpen (first ++ second) := by
  refine ⟨fun closes => ?_, fun m received => ?_⟩
  · exact (List.mem_append.mp closes).elim before.unclosed after.unclosed
  · rw [messages_append] at received
    exact (List.mem_append.mp received).elim (before.harmless m) (after.harmless m)

theorem LeavesOpen.hands (before : LeavesOpen first) (hands : Hands ms second) :
    Hands ms (first ++ second) := by
  cases hands with
  | done after => exact .done (before.append after)
  | next after rest =>
    rw [← List.append_assoc]
    exact .next (before.append after) rest

theorem Hands.append {more : List Message} (before : Hands ms first) (after : Hands more second) :
    Hands (ms ++ more) (first ++ second) := by
  induction before with
  | done leavesOpen => exact leavesOpen.hands after
  | next leavesOpen _ ih =>
    rw [List.append_assoc]
    exact .next leavesOpen ih

/-- Only the messages that are handed in can be exits. -/
theorem Hands.leavesOpen (hands : Hands ms moves) (harmless : ∀ m ∈ ms, goal m ≠ .closed) :
    LeavesOpen moves := by
  induction hands with
  | done leavesOpen => exact leavesOpen
  | @next m ms others rest leavesOpen _ ih =>
    obtain ⟨first, later⟩ := List.forall_mem_cons.mp harmless
    have own : LeavesOpen [.receive m] := ⟨by simp, List.forall_mem_singleton.mpr first⟩
    exact leavesOpen.append (own.append (ih later))

theorem Hands.unclosed (hands : Hands ms moves) : .close ∉ moves := by
  induction hands with
  | done leavesOpen => exact leavesOpen.unclosed
  | next leavesOpen _ ih => simp [leavesOpen.unclosed, ih]

theorem Hands.subset (hands : Hands ms moves) : ms ⊆ messages moves := by
  induction hands with
  | done => exact List.nil_subset _
  | @next m ms others rest _ _ ih =>
    rw [messages_append]
    exact List.subset_append_of_subset_right _ (List.cons_subset_cons m ih)

end Hands

/-- The closing is not claimed as long as everybody leaves the session open. -/
theorem unclaimed_of_leavesOpen {settings : Settings} {hasObserver : Bool} {moves : List Move}
    {s : Session} (run : (start settings hasObserver).run? moves = some s)
    (leavesOpen : LeavesOpen moves) : s.closeClaimed = false := by
  refine Bool.eq_false_iff.mpr fun claimed => ?_
  cases begun_of_claimed run claimed with
  | owner closes => exact leavesOpen.unclosed closes
  | exit received exits => exact leavesOpen.harmless _ (List.mem_of_getElem? received) exits

end Session

/-- A notification that is read as an exit has the name of one. -/
theorem method_of_exit {method : String} {params : Value} {given : NoParams}
    (read : Notice.read? method params = some (.ok (.exit given))) : method = Method.exit.name := by
  obtain ⟨reader, found, read⟩ := Option.map_eq_some_iff.mp read
  obtain ⟨before, after, table, -⟩ := List.lookup_eq_some_iff.mp found
  have member : (method, reader) ∈ Notice.readers := by simp [table]
  simp only [Notice.readers, List.mem_cons, Prod.mk.injEq, List.not_mem_nil, or_false] at member
  rcases member with ⟨-, rfl⟩ | ⟨rfl, -⟩ | ⟨-, rfl⟩
  · obtain ⟨other, impossible⟩ := Session.exists_of_map_eq_ok read
    contradiction
  · rfl
  · obtain ⟨other, impossible⟩ := Session.exists_of_map_eq_ok read
    contradiction

/-- After a message that closes the session, the session is drained. -/
theorem isExitMessage_of_goal {m : Message} (exits : Session.goal m = .closed) :
    isExitMessage m = true := by
  obtain ⟨n, params, rfl, read⟩ := Session.exit_of_goal exits
  exact beq_iff_eq.mpr (method_of_exit read)

namespace Receiver

open Session

variable {σ : Type} {r : Receiver σ}

/-- Hands a message on, and drains the session after one that says that the client is gone. -/
def hand (r : Receiver σ) (x : σ) (m : Message) : σ :=
  if isExitMessage m then r.drain (r.receive x m) else r.receive x m

/-- Serves payloads that have been read already, and ends as the reading did. -/
def serveAll (r : Receiver σ) (ending : Except FrameError Unit) :
    σ → List (List UInt8) → Except FrameError Unit × σ
  | x, [] => (if r.isClosed x then .ok () else ending, x)
  | x, payload :: payloads =>
    if r.isClosed x then (.ok (), x) else r.serveAll ending (r.take x payload) payloads

theorem serveAll_of_closed {x : σ} (closed : r.isClosed x = true) (ending : Except FrameError Unit)
    (payloads : List (List UInt8)) : r.serveAll ending x payloads = (.ok (), x) := by
  cases payloads <;> simp [serveAll, closed]

/-- The loop serves what a reader gets of the stream. -/
theorem serve_eq_serveAll (r : Receiver σ) (limit : Nat) (x : σ) (stream : List UInt8) :
    r.serve limit x stream = r.serveAll (readAll limit stream).2 x (readAll limit stream).1 := by
  fun_induction serve r limit x stream with
  | case1 x stream closed => rw [serveAll_of_closed closed]
  | case2 x stream opened e rest broken =>
    rw [readAll_of_read_error broken, serveAll, if_neg opened]
  | case3 x stream opened rest ended =>
    rw [readAll_of_read_none ended, serveAll, if_neg opened]
  | case4 x stream opened payload rest frame _ ih =>
    rw [readAll_of_read_some frame, serveAll, if_neg opened, ih]

/-- If the session is closed by nothing but an exit that is handed on, then every message up to that
exit is handed on, and nothing else. -/
theorem serveAll_eq {x : σ} {payloads : List (List UInt8)} (ending : Except FrameError Unit)
    (opened : ∀ ms, ms <+: delivered payloads → (∀ m ∈ ms, goal m ≠ .closed) →
      r.isClosed (ms.foldl r.hand x) = false)
    (closed : ∀ ms m, ms ++ [m] <+: delivered payloads → goal m = .closed →
      r.isClosed ((ms ++ [m]).foldl r.hand x) = true) :
    r.serveAll ending x payloads =
      (if ∃ m ∈ delivered payloads, goal m = .closed then .ok () else ending,
        (delivered payloads).foldl r.hand x) := by
  induction payloads generalizing x with
  | nil => simp [serveAll, delivered, show r.isClosed x = false from opened [] (by simp) (by simp)]
  | cons payload payloads ih =>
    have stillOpen : r.isClosed x = false := opened [] List.nil_prefix (List.forall_mem_nil _)
    rw [serveAll, if_neg (Bool.eq_false_iff.mp stillOpen), take]
    cases decoded : Message.ofBytes payload with
    | error e =>
      rw [delivered_cons_error decoded] at opened closed ⊢
      exact ih opened closed
    | ok m =>
      show r.serveAll ending (r.hand x m) payloads = _
      by_cases exits : goal m = .closed
      · rw [delivered_cons_exit decoded exits] at closed ⊢
        have ended : r.isClosed (r.hand x m) = true := closed [] m (List.prefix_refl _) exits
        rw [serveAll_of_closed ended, if_pos ⟨m, List.mem_singleton_self m, exits⟩]
        rfl
      · rw [delivered_cons_other decoded exits] at opened closed ⊢
        have later := ih (fun ms first harmless => opened (m :: ms)
            ((List.prefix_cons_inj m).mpr first) (List.forall_mem_cons.mpr ⟨exits, harmless⟩))
          (fun ms last first => closed (m :: ms) last ((List.prefix_cons_inj m).mpr first))
        rw [later, List.foldl_cons]
        simp [exits]

/-- A receiver that has a session behind it. Whether it is closed is whether the closing has been
claimed, and whatever it does is a run of the session, in which others leave the session open. -/
structure Hosts (r : Receiver σ) (session : σ → Session) : Prop where
  isClosed : ∀ x, r.isClosed x = (session x).closeClaimed
  receive : ∀ x m, ∃ moves, Hands [m] moves ∧
    (session x).run? moves = some (session (r.receive x m))
  drain : ∀ x, ∃ moves, LeavesOpen moves ∧ (session x).run? moves = some (session (r.drain x))

section Hosts

variable {session : σ → Session} (hosts : r.Hosts session)

include hosts

theorem Hosts.hand (x : σ) (m : Message) : ∃ moves, Hands [m] moves ∧
    (session x).run? moves = some (session (r.hand x m)) := by
  obtain ⟨moves, hands, received⟩ := hosts.receive x m
  rw [Receiver.hand]
  split
  · obtain ⟨more, leavesOpen, drained⟩ := hosts.drain (r.receive x m)
    exact ⟨moves ++ more, hands.append (.done leavesOpen), run?_trans received drained⟩
  · exact ⟨moves, hands, received⟩

/-- Messages that are handed on one by one are handed to the session in this order. -/
theorem Hosts.foldl_hand (x : σ) (ms : List Message) : ∃ moves, Hands ms moves ∧
    (session x).run? moves = some (session (ms.foldl r.hand x)) := by
  induction ms generalizing x with
  | nil => exact ⟨[], .done ⟨by simp, by simp [messages]⟩, rfl⟩
  | cons m ms ih =>
    obtain ⟨first, own, received⟩ := hosts.hand x m
    obtain ⟨rest, hands, ran⟩ := ih (r.hand x m)
    exact ⟨first ++ rest, own.append hands, run?_trans received ran⟩

variable {settings : Settings} {hasObserver : Bool} {moves : List Move} {x : σ}
  (run : (start settings hasObserver).run? moves = some (session x)) (leavesOpen : LeavesOpen moves)

include run leavesOpen

/-- Unless an exit is handed on, the session stays open. -/
theorem Hosts.stays_open {ms : List Message} (harmless : ∀ m ∈ ms, goal m ≠ .closed) :
    (session (ms.foldl r.hand x)).closeClaimed = false := by
  obtain ⟨more, hands, ran⟩ := hosts.foldl_hand x ms
  exact unclaimed_of_leavesOpen (run?_trans run ran) (leavesOpen.append (hands.leavesOpen harmless))

/-- An exit that is handed on has the session closed by the time that it has been drained. -/
theorem Hosts.closed_of_exit {ms : List Message} {m : Message} (exits : goal m = .closed)
    (idle : (session ((ms ++ [m]).foldl r.hand x)).isIdle = true) :
    (session ((ms ++ [m]).foldl r.hand x)).closeClaimed = true ∧
      (session ((ms ++ [m]).foldl r.hand x)).closeCount = 1 := by
  obtain ⟨more, hands, ran⟩ := hosts.foldl_hand x (ms ++ [m])
  have unclosed : .close ∉ moves ++ more := by simp [leavesOpen.unclosed, hands.unclosed]
  have received : m ∈ messages (moves ++ more) := by
    rw [messages_append]
    exact List.mem_append_right _ (hands.subset (by simp))
  exact Session.closed_of_exit (run?_trans run ran) unclosed idle received exits

variable {payloads : List (List UInt8)}
  (drained : ∀ ms m, ms ++ [m] <+: delivered payloads → isExitMessage m = true →
    (session (r.drain (r.receive (ms.foldl r.hand x) m))).isIdle = true)

include drained

/-- The exit that is handed on has the session closed, if its jobs end whenever it is drained. -/
theorem Hosts.closed_of_delivered {ms : List Message} {m : Message}
    (first : ms ++ [m] <+: delivered payloads) (exits : goal m = .closed) :
    (session ((ms ++ [m]).foldl r.hand x)).closeClaimed = true ∧
      (session ((ms ++ [m]).foldl r.hand x)).closeCount = 1 := by
  refine hosts.closed_of_exit run leavesOpen exits ?_
  have exit := isExitMessage_of_goal exits
  rw [List.foldl_append, List.foldl_cons, List.foldl_nil, Receiver.hand, if_pos exit]
  exact drained ms m first exit

/-- Serving a stream hands on every message up to the first exit and nothing else. -/
theorem Hosts.serve_eq {limit : Nat} {stream : List UInt8} {ending : Except FrameError Unit}
    (frames : readAll limit stream = (payloads, ending)) : r.serve limit x stream =
      (if ∃ m ∈ delivered payloads, goal m = .closed then .ok () else ending,
        (delivered payloads).foldl r.hand x) := by
  rw [serve_eq_serveAll, frames]
  refine serveAll_eq ending (fun ms _ harmless => ?_) fun ms m first exits => ?_
  · exact (hosts.isClosed _).trans (hosts.stays_open run leavesOpen harmless)
  · exact (hosts.isClosed _).trans (hosts.closed_of_delivered run leavesOpen drained first exits).1

end Hosts

end Receiver

namespace Rehearsal

open Session

/-- A message that is received is the only one that comes in until the threads have been driven. -/
theorem receive_run (x : Rehearsal) (m : Message) : ∃ moves, messages moves = [] ∧ .close ∉ moves ∧
    x.session.run? (.receive m :: moves) = some (x.receive m).session := by
  obtain ⟨moves, silent, leftOpen, run⟩ := (x.move (.receive m)).settleTimes_leads _
  exact ⟨moves, silent, leftOpen, run⟩

/-- A rehearsal plays its session. -/
theorem receiver_hosts : receiver.Hosts Rehearsal.session where
  isClosed _ := rfl
  receive x m := by
    obtain ⟨moves, silent, leftOpen, run⟩ := x.receive_run m
    exact ⟨[] ++ .receive m :: moves,
      .next ⟨by simp, by simp [messages]⟩ (.done ⟨leftOpen, by simp [silent]⟩), run⟩
  drain x := by
    obtain ⟨moves, silent, leftOpen, run⟩ := x.drain_leads
    exact ⟨moves, ⟨leftOpen, by simp [silent]⟩, run⟩

/-- Only the messages that are handed on come in. -/
theorem foldl_hand_run (x : Rehearsal) (ms : List Message) : ∃ moves, messages moves = ms ∧
    x.session.run? moves = some (ms.foldl receiver.hand x).session := by
  have hand (x : Rehearsal) (m : Message) : ∃ moves, messages moves = [m] ∧
      x.session.run? moves = some (receiver.hand x m).session := by
    obtain ⟨moves, silent, -, received⟩ := x.receive_run m
    have own : messages (.receive m :: moves) = [m] := congrArg (m :: ·) silent
    rw [Receiver.hand]
    split
    · obtain ⟨more, quiet, -, drained⟩ := (x.receive m).drain_leads
      exact ⟨_, by rw [messages_append, own, quiet]; rfl, run?_trans received drained⟩
    · exact ⟨_, own, received⟩
  induction ms generalizing x with
  | nil => exact ⟨[], rfl, rfl⟩
  | cons m ms ih =>
    obtain ⟨first, own, received⟩ := hand x m
    obtain ⟨rest, later, ran⟩ := ih (receiver.hand x m)
    exact ⟨_, by rw [messages_append, own, later]; rfl, run?_trans received ran⟩

section Serving

variable {settings : Settings} {hasObserver : Bool} {moves : List Move} {x : Rehearsal}
  (run : (Session.start settings hasObserver).run? moves = some x.session) {limit : Nat}
  {stream : List UInt8} {payloads : List (List UInt8)} {ending : Except FrameError Unit}

include run

/-- Whatever has been handed on, draining a rehearsal ends its jobs. -/
theorem drained_of_few (few : (messages moves).length + (delivered payloads).length < wordLimit)
    {ms : List Message} {m : Message} (first : ms ++ [m] <+: delivered payloads) :
    (receiver.drain (receiver.receive (ms.foldl receiver.hand x) m)).session.isIdle = true := by
  obtain ⟨more, handed, ran⟩ := x.foldl_hand_run ms
  obtain ⟨last, silent, -, received⟩ := (ms.foldl receiver.hand x).receive_run m
  refine drain_idle (run?_trans (run?_trans run ran) received) ?_
  have fewer := first.length_le
  have own : messages (.receive m :: last) = [m] := congrArg (m :: ·) silent
  simp only [messages_append, handed, own, List.length_append, List.length_singleton] at fewer ⊢
  omega

/-- A rehearsal that is served a stream is handed every message up to the first exit and nothing else. -/
theorem serve_eq (leavesOpen : LeavesOpen moves) (frames : readAll limit stream = (payloads, ending))
    (few : (messages moves).length + (delivered payloads).length < wordLimit) :
    receiver.serve limit x stream =
      (if ∃ m ∈ delivered payloads, goal m = .closed then .ok () else ending,
        (delivered payloads).foldl receiver.hand x) :=
  receiver_hosts.serve_eq run leavesOpen (fun _ _ first _ => drained_of_few run few first) frames

end Serving

end Rehearsal

namespace Receiver

open Session

variable {σ : Type} {r : Receiver σ}

/-- Of the payloads that a reader gets of a stream, those that are messages are handed to the session,
in order and up to and including the first exit that can be read; those that are none make no
difference. If there is such an exit, then serving ends well and leaves the connection closed once.
Otherwise it ends as the stream does, well or with the error of the reader, and leaves the session
open. The session may have been through anything before, and may go through anything meanwhile, as long
as nobody else closes it and its jobs end whenever it is drained. -/
theorem serve_delivers_until_exit {session : σ → Session} (hosts : r.Hosts session)
    {settings : Settings} {hasObserver : Bool} {moves : List Move} {x : σ}
    (run : (start settings hasObserver).run? moves = some (session x)) (leavesOpen : LeavesOpen moves)
    {limit : Nat} {stream : List UInt8} {payloads : List (List UInt8)}
    {ending : Except FrameError Unit} (frames : readAll limit stream = (payloads, ending))
    (drained : ∀ ms m, ms ++ [m] <+: delivered payloads → isExitMessage m = true →
      (session (r.drain (r.receive (ms.foldl r.hand x) m))).isIdle = true) :
    ∃ final more, Hands (delivered payloads) more ∧
      (session x).run? more = some (session final) ∧
      final = (delivered payloads).foldl r.hand x ∧
      ((∃ payload ∈ payloads, ∃ m, Message.ofBytes payload = .ok m ∧ goal m = .closed) →
        r.serve limit x stream = (.ok (), final) ∧ (session final).closeClaimed = true ∧
          (session final).closeCount = 1) ∧
      ((∀ payload ∈ payloads, ∀ m, Message.ofBytes payload = .ok m → goal m ≠ .closed) →
        r.serve limit x stream = (ending, final) ∧ (session final).closeClaimed = false) := by
  have served := hosts.serve_eq run leavesOpen drained frames
  obtain ⟨more, hands, ran⟩ := hosts.foldl_hand x (delivered payloads)
  refine ⟨_, more, hands, ran, rfl, fun exits => ?_, fun harmless => ?_⟩
  · obtain ⟨ms, m, last, closes⟩ := delivered_eq_concat exits
    have given : ∃ m ∈ delivered payloads, goal m = .closed := ⟨m, by simp [last], closes⟩
    have whole : ms ++ [m] <+: delivered payloads := last ▸ List.prefix_refl (ms ++ [m])
    have ended := hosts.closed_of_delivered run leavesOpen drained whole closes
    rw [served, if_pos given]
    exact ⟨rfl, last ▸ ended⟩
  · have none : ∀ m ∈ delivered payloads, goal m ≠ .closed := by
      intro m member
      obtain ⟨payload, among, decoded⟩ := exists_of_mem_delivered member
      exact harmless payload among m decoded
    rw [served, if_neg (by simpa using none)]
    exact ⟨rfl, hosts.stays_open run leavesOpen none⟩

/-- A request whose handler waits for the backend, an exit that cannot be read, and one that can. -/
def sampleMessages : List Message :=
  [.request ⟨.number 1, "workspace/buildTargets", .null⟩, .notification ⟨"build/exit", .int 0⟩,
    .notification ⟨"build/exit", .null⟩]

/-- The payloads of the messages with garbage in front, and a payload behind the exit. -/
def samplePayloads : List (List UInt8) :=
  Text.utf8 "?" :: sampleMessages.map Message.toBytes ++ [Text.utf8 "!"]

/-- A backend that holds back what is asked of it until the session is drained. -/
def sampleRehearsal : Rehearsal where
  script := { held := ["targets"] }
  session := .start .default false

theorem delivered_samplePayloads : delivered samplePayloads = sampleMessages := by
  have read : ∀ m ∈ sampleMessages, Message.ofBytes m.toBytes = .ok m.received := by
    intro m member
    simp only [sampleMessages, List.mem_cons, List.not_mem_nil, or_false] at member
    rcases member with rfl | rfl | rfl
    all_goals
      exact Message.Legible.read
        ⟨List.forall_mem_singleton.mpr trivial, by decide, List.forall_mem_nil _⟩
  simp only [sampleMessages, List.forall_mem_cons] at read
  obtain ⟨request, unreadable, exit, -⟩ := read
  have garbage : ∃ e, Message.ofBytes (Text.utf8 "?") = .error e := ⟨_, rfl⟩
  obtain ⟨e, garbage⟩ := garbage
  simp only [samplePayloads, sampleMessages, delivered, List.map_cons, List.cons_append, garbage,
    request, unreadable, exit]
  rfl

/-- The exit that cannot be read has the session drained and does not end the loop. -/
theorem samples_served : ∃ final more, Hands sampleMessages more ∧
    sampleRehearsal.session.run? more = some final.session ∧
    Rehearsal.receiver.serve 128 sampleRehearsal (samplePayloads.flatMap ofPayload) =
      (.ok (), final) ∧
    final.session.closeClaimed = true ∧ final.session.closeCount = 1 := by
  have frames : readAll 128 (samplePayloads.flatMap ofPayload ++ []) = (samplePayloads, .ok ()) := by
    rw [readAll_append (by decide) (by decide), readAll_nil, List.append_nil]
  rw [List.append_nil] at frames
  have run : (Session.start .default false).run? [] = some sampleRehearsal.session := rfl
  have few : (messages []).length + (delivered samplePayloads).length < wordLimit := by
    rw [delivered_samplePayloads]
    decide
  obtain ⟨final, more, hands, ran, -, closes, -⟩ :=
    serve_delivers_until_exit Rehearsal.receiver_hosts run ⟨by simp, by simp [messages]⟩ frames
      fun _ _ first _ => Rehearsal.drained_of_few run few first
  have last : .notification ⟨"build/exit", .null⟩ ∈ delivered samplePayloads := by
    rw [delivered_samplePayloads]
    simp [sampleMessages]
  obtain ⟨payload, among, decoded⟩ := exists_of_mem_delivered last
  rw [delivered_samplePayloads] at hands
  exact ⟨final, more, hands, ran, closes ⟨payload, among, _, decoded, rfl⟩⟩

end Receiver

end BuildServer
