import BuildServer.Proofs.Session.Step

/-! # What a job may do

Which steps a job takes depends on what it meets with, but whatever that is, they are all of a kind
that its message permits. So whatever is ruled out for a kind of message never happens for it.
-/

namespace BuildServer

open Backend Protocol Rpc

namespace Body

/-- A step of a body, apart from those that follow it. -/
inductive Act
  | check
  | call (c : Call)
  | advance (p : Phase)
  | claim
  | disconnect
  | finish (outcome : Option Outcome)

/-- Whatever the steps meet with, each that is taken is one of the given. A call may end them. -/
def Every (allowed : Act → Prop) : Body → Prop
  | .checkPhase next => allowed .check ∧ ∀ p, (next p).Every allowed
  | .call c next | .await c next =>
    allowed (.call c) ∧ allowed (.finish none) ∧ ∀ a, (next a).Every allowed
  | .advance p rest => allowed (.advance p) ∧ rest.Every allowed
  | .claimClose next => allowed .claim ∧ ∀ won, (next won).Every allowed
  | .closeConnection rest => allowed .disconnect ∧ rest.Every allowed
  | .finish outcome => allowed (.finish outcome)

theorem Every.imp {allowed permitted : Act → Prop} (wider : ∀ act, allowed act → permitted act) :
    {body : Body} → body.Every allowed → body.Every permitted
  | .checkPhase _, every => ⟨wider _ every.1, fun p => (every.2 p).imp wider⟩
  | .call .., every | .await .., every =>
    ⟨wider _ every.1, wider _ every.2.1, fun a => (every.2.2 a).imp wider⟩
  | .advance .., every => ⟨wider _ every.1, every.2.imp wider⟩
  | .claimClose _, every => ⟨wider _ every.1, fun won => (every.2 won).imp wider⟩
  | .closeConnection _, every => ⟨wider _ every.1, every.2.imp wider⟩
  | .finish _, every => wider _ every

theorem forward_every {α : Type} [Schema α] {allowed : Act → Prop}
    (finish : ∀ outcome, allowed (.finish outcome)) (answer : Except Failure α) :
    (forward answer).Every allowed := by
  cases answer <;> exact finish _

/-- What it takes to close the connection. -/
def closingActs : Act → Prop
  | .advance p => p = .closed
  | .claim | .disconnect => True
  | .finish outcome => outcome = none
  | .check | .call _ => False

theorem close_every : close.Every closingActs := by
  refine ⟨trivial, fun won => ?_⟩
  cases won
  · exact rfl
  · exact ⟨rfl, trivial, rfl⟩

end Body

open Body

/-- What a request may have done: it never closes the connection, only a shutdown moves the phase
beyond the handshake, and a shutdown makes no call and always succeeds. -/
def permits (q : Query) : Act → Prop
  | .check => True
  | .call c => q.isShutdown = false ∧ ∀ changes, c ≠ .filesChanged changes
  | .advance p => p = if q.isShutdown then .shuttingDown else .initialized
  | .claim | .disconnect => False
  | .finish outcome => q.isShutdown = true →
    outcome = some (.result (.ofTyped ({} : Acknowledgement)))

/-- What a notification may have done: changed files are passed on to the backend, and an exit closes
the connection. -/
def admits (notice : Notice) : Act → Prop
  | .check => True
  | .call c => ∃ params, notice = .filesChanged params ∧ c = .filesChanged params.changes
  | .advance p => notice.isExit = true ∧ p = .closed
  | .claim | .disconnect => notice.isExit = true
  | .finish outcome => outcome = none

theorem query_every (version : String) (q : Query) : (q.body version).Every (permits q) := by
  refine ⟨trivial, fun p => ?_⟩
  dsimp only
  split
  · rename_i refused
    intro shutdown
    simp [shutdown] at refused
  · cases q with
    | handshake | shutdown | awaitUpdates =>
      simp [Query.handler, handshake, succeed, Every, permits, Query.isShutdown]
    | prepare | sources | options | targets =>
      refine ⟨?_, ?_, fun _ => forward_every ?_ _⟩ <;> simp [permits, Query.isShutdown]

theorem notice_every (notice : Notice) : notice.body.Every (admits notice) := by
  refine ⟨trivial, fun p => ?_⟩
  dsimp only
  split
  · exact rfl
  · cases notice with
    | initialized => exact rfl
    | exit params =>
      refine close_every.imp fun act closing => ?_
      cases act <;> first | exact closing | exact closing.elim | exact rfl | exact ⟨rfl, closing⟩
    | filesChanged params => exact ⟨⟨params, rfl, rfl⟩, rfl, fun _ => rfl⟩

theorem Session.Goes.every {origin : Origin} {phase next : Phase} {claimed claims : Bool}
    {body rest : Body} {events : List Session.Event} {allowed : Act → Prop}
    (goes : Goes origin phase claimed body rest next claims events) (every : body.Every allowed) :
    rest.Every allowed := by
  cases goes with
  | checked | claimed => exact every.2 _
  | called => exact every
  | answered => exact every.2.2 _
  | failed => exact every.2.1
  | advanced | closed => exact every.2

end BuildServer
