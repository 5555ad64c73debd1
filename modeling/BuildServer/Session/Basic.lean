import BuildServer.Connection
import BuildServer.Rpc.Reply
import BuildServer.Session.Body
import BuildServer.Settings.Basic

/-!
# Sessions

A session takes in messages one by one. A request that cannot be served is answered at once; all
other requests, and the notifications that are served, become jobs of the queue. A job that has
started takes its steps on a thread of its own, and the owner of the session may close it at any
time on a thread beside them. Which thread takes its next step is not the session's choice: a move
says what happens next, and a run is a list of moves.

The reply that a request is owed travels with its job. It is sent before the job is released, and a
job that ends without an outcome, because the backend broke down, sends the reply that it was
abandoned.
-/

namespace BuildServer

open Backend Protocol Rpc

/-- A submitted message: its number in the order of receipt, the reply that it owes, and the steps
of its handling. -/
structure Job where
  message : Nat
  owed : Option OwedReply
  body : Body

/-- Whose steps a thread takes. -/
inductive Origin
  | job (message : Nat) (sequence : UInt64)
  | owner
  deriving DecidableEq

/-- Steps that are being taken. -/
structure Thread where
  origin : Origin
  owed : Option OwedReply
  body : Body

/-- The thread of a job that starts. -/
def Thread.ofStarted (s : Started Job) : Thread :=
  ⟨.job s.job.message s.sequence, s.job.owed, s.job.body⟩

/-- What can be seen of a session from outside. A call returns with an answer unless the backend
broke down. -/
inductive Session.Event
  | observed (method : String) (params : Value)
  | checked (origin : Origin) (phase : Phase)
  | called (origin : Origin) (c : Call)
  | returned (origin : Origin) (c : Call) (answer : Option c.Answer)
  | replied (message : Nat) (r : Response)
  | pushed (method : String) (params : Value)
  | closed (origin : Origin)
  | released (origin : Origin)

/-- What the event does to the connection. -/
def Session.Event.delivery? : Session.Event → Option Delivery
  | .replied _ r => some (.response r)
  | .pushed method params => some (.notification method params)
  | .closed _ => some .close
  | _ => none

/-- A session: what it was set up with, how far it has come, whether its closing has been claimed,
how many messages it has taken in, its jobs and threads, and the events so far. -/
structure Session where
  version : String := ""
  hasObserver : Bool := false
  phase : Phase := .uninitialized
  closeClaimed : Bool := false
  received : Nat := 0
  queue : Queue Footprint Job := {}
  threads : List Thread := []
  events : List Session.Event := []

/-- What may happen next: a message comes in, the backend pushes a change of targets, the owner
begins to close, or a thread takes a step in which the backend answers as given. -/
inductive Move
  | receive (m : Message)
  | push (params : TargetsChanged)
  | close
  | step (thread : Nat) (answers : Answers)

namespace Session

/-- A session with the given settings. -/
def start (settings : Settings) (hasObserver : Bool) : Session :=
  { version := settings.serverVersion
    hasObserver
    queue := { limit := settings.queueConcurrency } }

/-- Notes an event. -/
def note (s : Session) (e : Event) : Session := { s with events := s.events ++ [e] }

/-- Submits a job. -/
def submit (s : Session) (f : Footprint) (j : Job) : Session :=
  let (started, queue) := s.queue.submit f j
  { s with queue, threads := s.threads ++ started.map .ofStarted }

/-- Takes in a request. -/
def receiveRequest (s : Session) (message : Nat) (r : Request) : Session :=
  let s := if s.hasObserver then s.note (.observed r.method r.params) else s
  let owed : OwedReply := ⟨r.id⟩
  let refuse (e : ResponseError) : Session :=
    s.note (.replied message (owed.response (some (.error e))))
  match Query.read? r.method r.params with
  | none => refuse (.methodNotFound r.method)
  | some (.error e) => refuse (.invalidParams r.method e.message)
  | some (.ok q) => s.submit q.footprint ⟨message, some owed, q.body s.version⟩

/-- Takes in a notification; one that is not served or not understood is dropped. -/
def receiveNotification (s : Session) (message : Nat) (n : Notification) : Session :=
  match Notice.read? n.method n.params with
  | some (.ok notice) => s.submit .change ⟨message, none, notice.body⟩
  | _ => s

/-- Takes in a message; a response is dropped, since the session asks nothing of its client. -/
def receive (s : Session) (m : Message) : Session :=
  let message := s.received
  let s := { s with received := message + 1 }
  match m with
  | .request r => s.receiveRequest message r
  | .notification n => s.receiveNotification message n
  | .response _ => s

/-- Begins to close the session on behalf of its owner. -/
def beginClose (s : Session) : Session :=
  { s with threads := s.threads ++ [⟨.owner, none, .close⟩] }

/-- Sends a change of targets to the client. -/
def push (s : Session) (params : TargetsChanged) : Session :=
  s.note (.pushed Method.targetsChanged.name (.ofTyped params))

/-- Ends a thread; the job it carried out leaves the queue. -/
def endThread (s : Session) (i : Nat) (t : Thread) : Session :=
  let s := { s with threads := s.threads.eraseIdx i }
  match t.origin with
  | .owner => s
  | .job _ sequence =>
    let (started, queue) := s.queue.release sequence
    { s.note (.released t.origin) with queue, threads := s.threads ++ started.map .ofStarted }

/-- Has a thread go on with other steps. -/
def goOn (s : Session) (i : Nat) (t : Thread) (body : Body) : Session :=
  { s with threads := s.threads.set i { t with body } }

/-- Sends the reply that a thread owes. -/
def reply (s : Session) (i : Nat) (t : Thread) (r : Response) : Session :=
  let s := { s with threads := s.threads.set i { t with owed := none } }
  match t.origin with
  | .owner => s
  | .job message _ => s.note (.replied message r)

/-- The session after a thread has taken its next step. -/
def stepThread (s : Session) (i : Nat) (t : Thread) (answers : Answers) : Session :=
  match t.body with
  | .checkPhase next => (s.goOn i t (next s.phase)).note (.checked t.origin s.phase)
  | .call c next => (s.goOn i t (.await c next)).note (.called t.origin c)
  | .await c next =>
    match answers c with
    | some a => (s.goOn i t (next a)).note (.returned t.origin c (some a))
    | none => (s.goOn i t (.finish none)).note (.returned t.origin c none)
  | .advance p rest => { s.goOn i t rest with phase := s.phase.advance p }
  | .claimClose next => { s.goOn i t (next !s.closeClaimed) with closeClaimed := true }
  | .closeConnection rest => (s.goOn i t rest).note (.closed t.origin)
  | .finish outcome =>
    match t.owed with
    | some owed => s.reply i t (owed.response outcome)
    | none => s.endThread i t

/-- The session after a move, which fails if it is about a thread that is not there. -/
def step? (s : Session) : Move → Option Session
  | .receive m => some (s.receive m)
  | .push params => some (s.push params)
  | .close => some s.beginClose
  | .step i answers => s.threads[i]?.map fun t => s.stepThread i t answers

/-- The session after a run. -/
def run? (s : Session) (moves : List Move) : Option Session := moves.foldlM step? s

/-- Whether nothing is left to be done for the messages so far. -/
def isIdle (s : Session) : Bool := s.queue.isIdle

/-- How often the connection has been closed. -/
def closeCount (s : Session) : Nat :=
  s.events.countP fun
    | .closed _ => true
    | _ => false

/-- The wording of a session: its phase, its queue and whether it has an observer. -/
def describe (s : Session) : String :=
  let observer := if s.hasObserver then "true" else "false"
  "BuildServerAdapter \x7b phase: " ++ s.phase.describe ++ ", queue: " ++ s.queue.describe ++
    ", hooks: AdapterHooks \x7b pre_handle_request: " ++ observer ++ " \x7d, .. \x7d"

end Session

end BuildServer
