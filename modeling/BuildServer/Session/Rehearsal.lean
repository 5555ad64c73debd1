import BuildServer.Backend.Script
import BuildServer.Session.Basic

/-!
# Rehearsals

A session played with a scripted backend. After everything that happens, each thread takes its steps
for as long as it can: until it has ended or waits for a call that the script holds back. Threads go
one after the other in the order in which they have started, which is one of the runs that the
session admits.
-/

namespace BuildServer

open Backend Protocol Rpc

/-- A session, its scripted backend, which calls have been released, which files have changed, what
the backend was asked while it was set up, and how many events have been reported. -/
structure Rehearsal where
  script : Script
  session : Session
  released : List String := []
  allReleased : Bool := false
  changed : List Uri := []
  setup : List String := []
  reported : Nat := 0

/-- How a session is to be set up: with a backend that is there already, or with one that has to be
made from its description. -/
inductive Setup
  | existing
  | described (d : Descriptor)

namespace Rehearsal

/-- Whether a call that has begun is held back. -/
def holds (r : Rehearsal) (c : Call) : Bool :=
  match c.label? with
  | some label => !r.allReleased && r.script.held.contains label && !r.released.contains label
  | none => false

/-- Makes a move; one that is about a thread that is not there changes nothing. -/
def move (r : Rehearsal) (m : Move) : Rehearsal :=
  { r with session := (r.session.step? m).getD r.session }

/-- Has a thread take a step. -/
def step (r : Rehearsal) (i : Nat) : Rehearsal := r.move (.step i (r.script.answers r.changed))

/-- Has the backend take note of changed files, of which it may tell the client. -/
def takeNote (r : Rehearsal) (changes : List FileEvent) : Rehearsal :=
  let r := { r with changed := r.changed ++ changes.map FileEvent.uri }
  if r.script.pushesChanges then r.move (.push (Script.targetsChanged changes)) else r

/-- What the backend does by itself when it answers a call. -/
def sideEffect (r : Rehearsal) (c : Call) : Rehearsal :=
  match c with
  | .filesChanged changes => r.takeNote changes
  | _ => r

/-- Has a thread that ends take its last steps. -/
def endThread (r : Rehearsal) (i : Nat) : Rehearsal :=
  if (r.session.threads[i]?.bind (·.owed)).isSome then (r.step i).step i else r.step i

/-- Has a thread with the given steps take them for as long as it can. -/
def drive (i : Nat) : Body → Rehearsal → Rehearsal
  | .checkPhase next, r => drive i (next r.session.phase) (r.step i)
  | .call c next, r =>
    let r := r.step i
    if r.holds c then r
    else match r.script.answers r.changed c with
      | some a => drive i (next a) ((r.sideEffect c).step i)
      | none => (r.step i).endThread i
  | .await c next, r =>
    if r.holds c then r
    else match r.script.answers r.changed c with
      | some a => drive i (next a) ((r.sideEffect c).step i)
      | none => (r.step i).endThread i
  | .advance _ rest, r => drive i rest (r.step i)
  | .claimClose next, r => drive i (next !r.session.closeClaimed) (r.step i)
  | .closeConnection rest, r => drive i rest (r.step i)
  | .finish _, r => r.endThread i

/-- Whether a thread waits for a call that is held back. -/
def isHeld (r : Rehearsal) (t : Thread) : Bool :=
  match t.body with
  | .await c _ => r.holds c
  | _ => false

/-- Drives the first thread that is not held, the given number of times. -/
def settleTimes : Nat → Rehearsal → Rehearsal
  | 0, r => r
  | n + 1, r =>
    match r.session.threads.findIdx? fun t => !r.isHeld t with
    | none => r
    | some i =>
      match r.session.threads[i]? with
      | none => r
      | some t => settleTimes n (drive i t.body r)

/-- Drives threads until all that are left are held; each thread and each waiting job is driven at
most once. -/
def settle (r : Rehearsal) : Rehearsal :=
  settleTimes (r.session.threads.length + r.session.queue.items.length) r

/-- Hands a message to the session. -/
def receive (r : Rehearsal) (m : Message) : Rehearsal := (r.move (.receive m)).settle

/-- Releases the calls with a label for good. -/
def release (r : Rehearsal) (label : String) : Rehearsal :=
  { r with released := label :: r.released }.settle

/-- Closes the session on behalf of its owner. -/
def close (r : Rehearsal) : Rehearsal := (r.move .close).settle

/-- Releases every call, so that all jobs end. -/
def drain (r : Rehearsal) : Rehearsal := { r with allReleased := true }.settle

/-- Sets up a session, or tells why there is none; the calls of the setup come with either. -/
def start (script : Script) (settings : Settings) (hasObserver : Bool) :
    Setup → Except (StartupError × List String) Rehearsal
  | .existing => .ok { script, session := .start settings hasObserver }
  | .described d =>
    let setup := match d.kind with
      | .injected => ["inject " ++ d.projectRoot]
      | .builtIn k => ["provide " ++ k.name ++ " " ++ d.projectRoot ++ " " ++ d.configPath]
    match script.startupFailure with
    | some failure => .error (⟨d.kind.name, failure⟩, setup)
    | none =>
      let r : Rehearsal := { script, session := .start settings hasObserver, setup }
      .ok (if script.pushesAtStartup then r.move (.push ⟨none⟩) else r)

/-- What is reported of a session: where it stands, and what is new. -/
structure Report where
  phase : Phase
  isClosed : Bool
  closes : Nat
  queued : Nat
  running : Nat
  responses : List Response
  notifications : List Notification
  calls : List String
  observed : List (String × Value)

/-- The responses among events. -/
def responsesOf (events : List Session.Event) : List Response :=
  events.filterMap fun
    | .replied _ r => some r
    | _ => none

/-- The notifications among events. -/
def notificationsOf (events : List Session.Event) : List Notification :=
  events.filterMap fun
    | .pushed method params => some ⟨method, params⟩
    | _ => none

/-- The labels of the calls among events. -/
def callsOf (events : List Session.Event) : List String :=
  events.filterMap fun
    | .called _ c => c.label?
    | _ => none

/-- The requests that the observer saw, among events. -/
def observedOf (events : List Session.Event) : List (String × Value) :=
  events.filterMap fun
    | .observed method params => some (method, params)
    | _ => none

/-- Reports what is new since the last report. -/
def report (r : Rehearsal) : Report × Rehearsal :=
  let s := r.session
  let events := s.events.drop r.reported
  ({ phase := s.phase
     isClosed := s.closeClaimed
     closes := s.closeCount
     queued := s.queue.items.length
     running := s.queue.running
     responses := responsesOf events
     notifications := notificationsOf events
     calls := r.setup ++ callsOf events
     observed := observedOf events },
    { r with setup := [], reported := s.events.length })

end Rehearsal

end BuildServer
