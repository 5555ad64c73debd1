import Mathlib.Data.List.Induction
import BuildServer.Proofs.Queue.Scan
import BuildServer.Session.Basic

/-! # What one move of a session can do

`Moves` lists, with the whole state before and after, everything that a move may do: take in a
message in one of three ways, push a change, begin to close, let a thread go on, let it send the
reply that it owes, or end it. Every property of all runs is shown once for each of these cases.
-/

namespace BuildServer

open Backend Protocol Rpc

namespace Session

/-- The error that answers a request at once, if there is one. -/
def refusal? (r : Request) : Option ResponseError :=
  match Query.read? r.method r.params with
  | none => some (.methodNotFound r.method)
  | some (.error e) => some (.invalidParams r.method e.message)
  | some (.ok _) => none

/-- The job that a message becomes, with what it touches. -/
def jobOf? (version : String) (number : Nat) : Message → Option (Footprint × Job)
  | .request r =>
    match Query.read? r.method r.params with
    | some (.ok q) => some (q.footprint, ⟨number, some ⟨r.id⟩, q.body version⟩)
    | _ => none
  | .notification n =>
    match Notice.read? n.method n.params with
    | some (.ok notice) => some (.change, ⟨number, none, notice.body⟩)
    | _ => none
  | .response _ => none

/-- A job comes of a request or of a notification that can be read. -/
theorem jobOf?_cases {version : String} {number : Nat} {m : Message} {f : Footprint} {j : Job}
    (accepted : jobOf? version number m = some (f, j)) :
    (∃ r q, m = .request r ∧ Query.read? r.method r.params = some (.ok q) ∧ f = q.footprint ∧
      j = ⟨number, some ⟨r.id⟩, q.body version⟩) ∨
    (∃ n notice, m = .notification n ∧ Notice.read? n.method n.params = some (.ok notice) ∧
      f = .change ∧ j = ⟨number, none, notice.body⟩) := by
  cases m with
  | request r =>
    simp only [jobOf?] at accepted
    split at accepted
    · rename_i q read
      cases accepted
      exact .inl ⟨r, q, rfl, read, rfl, rfl⟩
    · contradiction
  | notification n =>
    simp only [jobOf?] at accepted
    split at accepted
    · rename_i notice read
      cases accepted
      exact .inr ⟨n, notice, rfl, read, rfl, rfl⟩
    · contradiction
  | response _ => contradiction

/-- What an observer is shown of a message. -/
def observation (hasObserver : Bool) : Message → List Event
  | .request r => if hasObserver then [.observed r.method r.params] else []
  | _ => []

/-- How a body goes on, with the phase and the claim of the closing that it leaves and the events
that it causes. -/
inductive Goes (origin : Origin) (phase : Phase) (claimed : Bool) :
    Body → Body → Phase → Bool → List Event → Prop
  | checked {next : Phase → Body} : Goes origin phase claimed
      (.checkPhase next) (next phase) phase claimed [.checked origin phase]
  | called {c : Call} {next : c.Answer → Body} : Goes origin phase claimed
      (.call c next) (.await c next) phase claimed [.called origin c]
  | answered {c : Call} {next : c.Answer → Body} {a : c.Answer} : Goes origin phase claimed
      (.await c next) (next a) phase claimed [.returned origin c (some a)]
  | failed {c : Call} {next : c.Answer → Body} : Goes origin phase claimed
      (.await c next) (.finish none) phase claimed [.returned origin c none]
  | advanced {p : Phase} {rest : Body} : Goes origin phase claimed
      (.advance p rest) rest (phase.advance p) claimed []
  | claimed {next : Bool → Body} : Goes origin phase claimed
      (.claimClose next) (next !claimed) phase true []
  | closed {rest : Body} : Goes origin phase claimed
      (.closeConnection rest) rest phase claimed [.closed origin]

/-- Everything that a move may do to a session. -/
inductive Moves (s : Session) : Move → Session → Prop
  | dropped {m : Message} (unasked : ∀ r, m ≠ .request r)
      (jobless : jobOf? s.version s.received m = none) :
      Moves s (.receive m) { s with received := s.received + 1 }
  | refused {r : Request} {e : ResponseError} (refusal : refusal? r = some e) :
      Moves s (.receive (.request r))
        { s with
          received := s.received + 1
          events := s.events ++ (observation s.hasObserver (.request r) ++
            [.replied s.received ⟨some r.id, .error e⟩]) }
  | queued {m : Message} {f : Footprint} {j : Job}
      (accepted : jobOf? s.version s.received m = some (f, j)) :
      Moves s (.receive m)
        { s with
          received := s.received + 1
          queue := (s.queue.submit f j).2
          threads := s.threads ++ (s.queue.submit f j).1.map .ofStarted
          events := s.events ++ observation s.hasObserver m }
  | pushed {params : TargetsChanged} :
      Moves s (.push params)
        { s with events := s.events ++ [.pushed Method.targetsChanged.name (.ofTyped params)] }
  | closing : Moves s .close { s with threads := s.threads ++ [⟨.owner, none, .close⟩] }
  | goes {front back : List Thread} {t : Thread} {answers : Answers} {body : Body} {phase : Phase}
      {claimed : Bool} {events : List Event} (split : s.threads = front ++ t :: back)
      (goes : Goes t.origin s.phase s.closeClaimed t.body body phase claimed events) :
      Moves s (.step front.length answers)
        { s with
          threads := front ++ { t with body } :: back
          phase
          closeClaimed := claimed
          events := s.events ++ events }
  | replied {front back : List Thread} {message : Nat} {sequence : UInt64} {owed : OwedReply}
      {outcome : Option Outcome} {answers : Answers}
      (split : s.threads = front ++ ⟨.job message sequence, some owed, .finish outcome⟩ :: back) :
      Moves s (.step front.length answers)
        { s with
          threads := front ++ ⟨.job message sequence, none, .finish outcome⟩ :: back
          events := s.events ++ [.replied message (owed.response outcome)] }
  | ended {front back : List Thread} {message : Nat} {sequence : UInt64}
      {outcome : Option Outcome} {answers : Answers}
      (split : s.threads = front ++ ⟨.job message sequence, none, .finish outcome⟩ :: back) :
      Moves s (.step front.length answers)
        { s with
          queue := (s.queue.release sequence).2
          threads := front ++ back ++ (s.queue.release sequence).1.map .ofStarted
          events := s.events ++ [.released (.job message sequence)] }
  | left {front back : List Thread} {owed : Option OwedReply} {outcome : Option Outcome}
      {answers : Answers}
      (split : s.threads = front ++ ⟨.owner, owed, .finish outcome⟩ :: back) :
      Moves s (.step front.length answers)
        { s with
          threads := front ++ (if owed.isSome then [⟨.owner, none, .finish outcome⟩] else []) ++ back }

theorem receiveRequest_moves (s : Session) (r : Request) :
    Moves s (.receive (.request r)) (s.receive (.request r)) := by
  have seen : ∀ e : Event, (if s.hasObserver then note { s with received := s.received + 1 } e
      else { s with received := s.received + 1 }) =
      { s with
        received := s.received + 1
        events := s.events ++ if s.hasObserver then [e] else [] } := by
    intro e
    cases s.hasObserver <;> simp [note]
  simp only [receive, receiveRequest, seen]
  cases read : Query.read? r.method r.params with
  | none =>
    have refusal : refusal? r = some (.methodNotFound r.method) := by simp only [refusal?, read]
    simpa only [note, List.append_assoc, observation, OwedReply.response, Option.getD_some]
      using Moves.refused (s := s) refusal
  | some result =>
    cases result with
    | error e =>
      have refusal : refusal? r = some (.invalidParams r.method e.message) := by
        simp only [refusal?, read]
      simpa only [note, List.append_assoc, observation, OwedReply.response, Option.getD_some]
        using Moves.refused (s := s) refusal
    | ok q =>
      refine Moves.queued (s := s) (m := .request r) (f := q.footprint)
        (j := ⟨s.received, some ⟨r.id⟩, q.body s.version⟩) ?_
      simp only [jobOf?, read]

theorem receiveNotification_moves (s : Session) (n : Notification) :
    Moves s (.receive (.notification n)) (s.receive (.notification n)) := by
  simp only [receive, receiveNotification]
  split
  · rename_i notice read
    have accepted : jobOf? s.version s.received (.notification n) =
        some (.change, ⟨s.received, none, notice.body⟩) := by simp only [jobOf?, read]
    simpa only [submit, observation, List.append_nil] using Moves.queued accepted
  · exact .dropped (by simp) (by simp only [jobOf?])

/-- The next step of a thread that has more to do than to end. -/
theorem stepThread_moves (s : Session) {front back : List Thread} {t : Thread}
    (split : s.threads = front ++ t :: back) (answers : Answers) :
    Moves s (.step front.length answers) (s.stepThread front.length t answers) := by
  have put : ∀ u : Thread, s.threads.set front.length u = front ++ u :: back := by
    intro u
    simp [split]
  have out : s.threads.eraseIdx front.length = front ++ back := by simp [split, List.eraseIdx_append]
  obtain ⟨origin, owed, body⟩ := t
  cases body with
  | checkPhase next =>
    have move : Moves s (.step _ answers) _ := .goes split .checked
    simpa only [stepThread, goOn, note, put] using move
  | call c next =>
    have move : Moves s (.step _ answers) _ := .goes split .called
    simpa only [stepThread, goOn, note, put] using move
  | await c next =>
    simp only [stepThread]
    cases answers c with
    | some a =>
      have move : Moves s (.step _ answers) _ := .goes split (.answered (a := a))
      simpa only [goOn, note, put] using move
    | none =>
      have move : Moves s (.step _ answers) _ := .goes split .failed
      simpa only [goOn, note, put] using move
  | advance p rest =>
    have move : Moves s (.step _ answers) _ := .goes split .advanced
    simpa only [stepThread, goOn, put, List.append_nil] using move
  | claimClose next =>
    have move : Moves s (.step _ answers) _ := .goes split .claimed
    simpa only [stepThread, goOn, put, List.append_nil] using move
  | closeConnection rest =>
    have move : Moves s (.step _ answers) _ := .goes split .closed
    simpa only [stepThread, goOn, note, put] using move
  | finish outcome =>
    cases origin with
    | owner =>
      have move : Moves s (.step _ answers) _ := .left split
      cases owed with
      | none => simpa [stepThread, endThread, out] using move
      | some owed => simpa [stepThread, reply, put] using move
    | job message sequence =>
      cases owed with
      | none =>
        have move : Moves s (.step _ answers) _ := .ended split
        simpa only [stepThread, endThread, note, out] using move
      | some owed =>
        have move : Moves s (.step _ answers) _ := .replied split
        simpa only [stepThread, reply, note, put] using move

/-- A move that succeeds is one of these cases. -/
theorem moves_of_step? {s next : Session} {move : Move} (success : s.step? move = some next) :
    Moves s move next := by
  cases move with
  | receive m =>
    obtain rfl := Option.some.inj success
    cases m with
    | request r => exact receiveRequest_moves s r
    | notification n => exact receiveNotification_moves s n
    | response r => exact .dropped (by simp) rfl
  | push params =>
    obtain rfl := Option.some.inj success
    exact .pushed
  | close =>
    obtain rfl := Option.some.inj success
    exact .closing
  | step i answers =>
    obtain ⟨t, present, rfl⟩ := Option.map_eq_some_iff.mp success
    obtain ⟨bound, rfl⟩ := List.getElem?_eq_some_iff.mp present
    have split : s.threads = s.threads.take i ++ s.threads[i] :: s.threads.drop (i + 1) := by simp
    have length : (s.threads.take i).length = i := List.length_take_of_le (Nat.le_of_lt bound)
    simpa only [length] using stepThread_moves s split answers

/-- The messages that a run takes in, in order. -/
def messages (moves : List Move) : List Message :=
  moves.filterMap fun
    | .receive m => some m
    | _ => none

@[simp] theorem messages_append (first second : List Move) :
    messages (first ++ second) = messages first ++ messages second := List.filterMap_append

theorem run?_append (s : Session) (moves more : List Move) :
    s.run? (moves ++ more) = (s.run? moves).bind fun next => next.run? more :=
  List.foldlM_append ..

/-- A run goes on from where another has come to. -/
theorem run?_trans {s middle later : Session} {moves more : List Move}
    (run : s.run? moves = some middle) (rest : middle.run? more = some later) :
    s.run? (moves ++ more) = some later := by
  rw [run?_append, run, Option.bind_some, rest]

/-- What holds at the start and survives every step that succeeds holds after every run. -/
theorem run?_steps {start : Session} (Invariant : List Move → Session → Prop)
    (initial : Invariant [] start)
    (step : ∀ {moves s move next}, start.run? moves = some s → Invariant moves s →
      s.step? move = some next → Invariant (moves ++ [move]) next)
    {moves : List Move} {s : Session} (run : start.run? moves = some s) : Invariant moves s := by
  induction moves using List.reverseRecOn generalizing s with
  | nil =>
    obtain rfl := Option.some.inj run
    exact initial
  | append_singleton moves move ih =>
    rw [run?_append] at run
    obtain ⟨middle, before, last⟩ := Option.bind_eq_some_iff.mp run
    have last : middle.step? move = some s := by simpa [run?] using last
    exact step before (ih before) last

/-- What holds at the start and survives every move holds after every run. -/
theorem run?_induction {start : Session} (Invariant : List Move → Session → Prop)
    (initial : Invariant [] start)
    (step : ∀ {moves s move next}, start.run? moves = some s → Invariant moves s →
      Moves s move next → Invariant (moves ++ [move]) next)
    {moves : List Move} {s : Session} (run : start.run? moves = some s) : Invariant moves s :=
  run?_steps Invariant initial (fun before held last => step before held (moves_of_step? last)) run

/-- Where a thread comes from that is there after a move: it was there and has gone on or not, the
owner begins to close, or it carries out a job that has been waiting or has just come in. -/
inductive Comes (s next : Session) (move : Move) : Thread → Prop
  | stayed {t u : Thread} (present : t ∈ s.threads) (origin : u.origin = t.origin)
      (body : u.body = t.body) : Comes s next move u
  | went {t : Thread} {body : Body} {events : List Event} (present : t ∈ s.threads)
      (goes : Goes t.origin s.phase s.closeClaimed t.body body next.phase next.closeClaimed events)
      (grown : next.events = s.events ++ events) : Comes s next move { t with body }
  | owner : Comes s next move ⟨.owner, none, .close⟩
  | started {x : Submission Footprint Job} (handedIn : x ∈ Queue.waiting s.queue.items ∨
      ∃ m, move = .receive m ∧ jobOf? s.version s.received m = some (x.key, x.job)) :
      Comes s next move (.ofStarted x.start)

theorem Moves.comes {s next : Session} {move : Move} (moves : Moves s move next) {u : Thread}
    (present : u ∈ next.threads) : Comes s next move u := by
  cases moves with
  | dropped | refused | pushed => exact .stayed present rfl rfl
  | @queued m f j accepted =>
    obtain ⟨chosen, began, scanned⟩ := Queue.submit_scanned s.queue f j
    rw [began] at present
    rcases List.mem_append.mp present with before | starts
    · exact .stayed before rfl rfl
    · rw [List.map_map] at starts
      obtain ⟨x, picked, rfl⟩ := List.mem_map.mp starts
      have waits := scanned.chosen_sublist.subset picked
      rw [Queue.waiting_append, List.mem_append] at waits
      refine .started (waits.imp_right fun last => ⟨m, rfl, ?_⟩)
      obtain rfl := List.mem_singleton.mp last
      exact accepted
  | closing =>
    rcases List.mem_append.mp present with before | owner
    · exact .stayed before rfl rfl
    · obtain rfl := List.mem_singleton.mp owner
      exact .owner
  | goes split goes =>
    rcases List.mem_append.mp present with before | behind
    · exact .stayed (by rw [split]; exact List.mem_append_left _ before) rfl rfl
    · rcases List.mem_cons.mp behind with rfl | behind
      · exact .went (by rw [split]; simp) goes rfl
      · exact .stayed (by rw [split]; simp [behind]) rfl rfl
  | @replied front back message sequence owed outcome answers split =>
    rcases List.mem_append.mp present with before | behind
    · exact .stayed (by rw [split]; exact List.mem_append_left _ before) rfl rfl
    · rcases List.mem_cons.mp behind with rfl | behind
      · have mine : ⟨.job message sequence, some owed, .finish outcome⟩ ∈ s.threads := by simp [split]
        exact .stayed mine rfl rfl
      · exact .stayed (by rw [split]; simp [behind]) rfl rfl
  | @ended front back message sequence outcome answers split =>
    obtain ⟨chosen, began, scanned⟩ := Queue.release_scanned s.queue sequence
    rw [began] at present
    rcases List.mem_append.mp present with before | starts
    · refine .stayed (t := u) ?_ rfl rfl
      rw [split]
      exact ((List.sublist_cons_self _ back).append_left front).subset before
    · rw [List.map_map] at starts
      obtain ⟨x, picked, rfl⟩ := List.mem_map.mp starts
      have waits := scanned.chosen_sublist.trans (List.eraseP_sublist.filterMap Item.submission?)
      exact .started (.inl (waits.subset picked))
  | @left front back owed outcome answers split =>
    rcases List.mem_append.mp present with before | behind
    · rcases List.mem_append.mp before with before | mine
      · exact .stayed (by rw [split]; exact List.mem_append_left _ before) rfl rfl
      · refine .stayed (t := ⟨.owner, owed, .finish outcome⟩) (by rw [split]; simp) ?_ ?_ <;>
          cases owed <;> simp_all
    · exact .stayed (by rw [split]; simp [behind]) rfl rfl

/-- What becomes of a thread in a move: it stays or goes on, or it has come to an outcome and ends, and
the job that it carried out is released. -/
inductive Becomes (s next : Session) (t : Thread) : Prop
  | stays {u : Thread} (present : u ∈ next.threads) (origin : u.origin = t.origin)
      (body : u.body = t.body) : Becomes s next t
  | goes {u : Thread} {events : List Event} (present : u ∈ next.threads) (origin : u.origin = t.origin)
      (goes : Goes t.origin s.phase s.closeClaimed t.body u.body next.phase next.closeClaimed events) :
      Becomes s next t
  | ends {outcome : Option Outcome} (body : t.body = .finish outcome)
      (released : ∀ d sequence, t.origin = .job d sequence → .released t.origin ∈ next.events) :
      Becomes s next t

theorem Moves.becomes {s next : Session} {move : Move} (moves : Moves s move next) {t : Thread}
    (present : t ∈ s.threads) : Becomes s next t := by
  cases moves with
  | dropped | refused | pushed => exact .stays present rfl rfl
  | queued | closing => exact .stays (List.mem_append_left _ present) rfl rfl
  | @goes front back v answers body phase claimed events split goes =>
    rw [split, List.mem_append, List.mem_cons] at present
    rcases present with before | rfl | behind
    · exact .stays (u := t) (by simp [before]) rfl rfl
    · exact .goes (u := { t with body }) (by simp) rfl goes
    · exact .stays (u := t) (by simp [behind]) rfl rfl
  | @replied front back message sequence owed outcome answers split =>
    rw [split, List.mem_append, List.mem_cons] at present
    rcases present with before | rfl | behind
    · exact .stays (u := t) (by simp [before]) rfl rfl
    · exact .stays (u := ⟨.job message sequence, none, .finish outcome⟩) (by simp) rfl rfl
    · exact .stays (u := t) (by simp [behind]) rfl rfl
  | ended split =>
    rw [split, List.mem_append, List.mem_cons] at present
    rcases present with before | rfl | behind
    · exact .stays (u := t) (by simp [before]) rfl rfl
    · exact .ends rfl fun _ _ _ => by simp
    · exact .stays (u := t) (by simp [behind]) rfl rfl
  | left split =>
    rw [split, List.mem_append, List.mem_cons] at present
    rcases present with before | rfl | behind
    · exact .stays (u := t) (by simp [before]) rfl rfl
    · exact .ends rfl fun _ _ impossible => by contradiction
    · exact .stays (u := t) (by simp [behind]) rfl rfl

theorem Moves.version {s next : Session} {move : Move} (moves : Moves s move next) :
    next.version = s.version := by
  cases moves <;> rfl

theorem version_of_run? {settings : Settings} {hasObserver : Bool} {moves : List Move} {s : Session}
    (run : (start settings hasObserver).run? moves = some s) : s.version = settings.serverVersion :=
  run?_induction (fun _ s => s.version = settings.serverVersion) rfl
    (fun _ same step => step.version.trans same) run

end Session

end BuildServer
