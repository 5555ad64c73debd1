import BuildServer.Backend.Call
import BuildServer.Protocol.Method
import BuildServer.Session.Footprint
import BuildServer.Session.Phase

/-!
# What jobs do

The handling of a message is a sequence of steps, each of which is taken at once, while other jobs
may take theirs in between. A step looks at the phase, begins a call of the backend or takes its
answer, moves the phase, claims the closing of the connection or carries it out. The last step ends
the job, with an outcome if it answers a request.
-/

namespace BuildServer

open Backend Protocol Rpc

/-- The steps of a job. -/
inductive Body
  | checkPhase (next : Phase → Body)
  | call (c : Call) (next : c.Answer → Body)
  | await (c : Call) (next : c.Answer → Body)
  | advance (p : Phase) (rest : Body)
  | claimClose (next : Bool → Body)
  | closeConnection (rest : Body)
  | finish (outcome : Option Outcome)

namespace Body

/-- Ends with a result. -/
def succeed {α : Type} [Schema α] (a : α) : Body := .finish (some (.result (.ofTyped a)))

/-- Ends with an error. -/
def fail (e : ResponseError) : Body := .finish (some (.error e))

/-- Ends with what the backend answered. -/
def forward {α : Type} [Schema α] : Except Failure α → Body
  | .ok a => succeed a
  | .error e => fail e.toResponse

/-- Closes the connection unless someone else does. -/
def close : Body :=
  .claimClose fun won =>
    if won then .advance .closed (.closeConnection (.finish none)) else .finish none

/-- The path that the client is told; a backend that cannot say is not asked again. -/
def knownPath : Except Failure (Option String) → Option String
  | .ok path => path
  | .error _ => none

/-- How the server introduces itself, given what its backend says. -/
def introduction (version name : String) (extension : Extension) : InitializeResult where
  displayName := name
  version := version
  bspVersion := revision
  capabilities := {}
  dataKind := some Extension.kind
  data := some (Codable.toValue extension)

/-- Asks the backend what it can do, and tells the client. -/
def handshake (version : String) : Body :=
  .call .supportsPreparation fun (prepares : Bool) =>
  .call .indexDatabase fun database =>
  .call .indexStore fun store =>
  .call .watchers fun watchers =>
  .advance .initialized <|
  .call .displayName fun name =>
  succeed <| introduction version name {
    indexDatabasePath := knownPath database
    indexStorePath := knownPath store
    outputPathsProvider := prepares
    prepareProvider := prepares
    optionsProvider := true
    watchers }

end Body

end BuildServer

namespace BuildServer.Protocol

open BuildServer Backend Rpc

namespace Query

/-- The name of the method. -/
def method : Query → String
  | .handshake _ => Method.handshake.name
  | .shutdown _ => Method.shutdown.name
  | .prepare _ => Method.prepare.name
  | .sources _ => Method.sources.name
  | .options _ => Method.options.name
  | .targets _ => Method.targets.name
  | .awaitUpdates _ => Method.awaitUpdates.name

/-- What a request touches. -/
def footprint : Query → Footprint
  | .handshake _ | .shutdown _ => .change
  | .prepare params => .ofTargets params.targets
  | .sources _ | .options _ | .targets _ | .awaitUpdates _ => .read

/-- Whether a request is served even after the shutdown. -/
def isShutdown : Query → Bool
  | .shutdown _ => true
  | _ => false

/-- How a request is handled while the session serves requests. -/
def handler (version : String) : Query → Body
  | .handshake _ => .handshake version
  | .shutdown _ => .advance .shuttingDown (.succeed ({} : Acknowledgement))
  | .prepare params => .call (.prepare params.targets) fun (answer : Except Failure Unit) =>
    .forward (answer.map fun () => ({} : Acknowledgement))
  | .sources params => .call (.sources params.targets) Body.forward
  | .options params => .call (.options params) Body.forward
  | .targets _ => .call .targets Body.forward
  | .awaitUpdates _ => .call .awaitUpdates fun () => .succeed ({} : Acknowledgement)

/-- The job of a request. -/
def body (version : String) (q : Query) : Body :=
  .checkPhase fun phase =>
    if phase.refusesRequests && !q.isShutdown then .fail (.shuttingDown q.method)
    else q.handler version

end Query

namespace Notice

/-- Whether a notification is taken in even after the shutdown. -/
def isExit : Notice → Bool
  | .exit _ => true
  | _ => false

/-- How a notification is handled while the session takes them in. -/
def handler : Notice → Body
  | .initialized _ => .finish none
  | .exit _ => .close
  | .filesChanged params => .call (.filesChanged params.changes) fun () => .finish none

/-- The job of a notification. -/
def body (n : Notice) : Body :=
  .checkPhase fun phase =>
    if phase.refusesRequests && !n.isExit then .finish none else n.handler

end Notice

end BuildServer.Protocol
