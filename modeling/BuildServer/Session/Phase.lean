/-!
# Phases of a session

A session goes through its phases in one direction: it may skip a phase but never returns to one.
-/

namespace BuildServer

/-- How far a session has come. -/
inductive Phase
  | uninitialized
  | initialized
  | shuttingDown
  | closed
  deriving DecidableEq, Inhabited

namespace Phase

/-- The place of a phase in the order. -/
def rank : Phase → Nat
  | .uninitialized => 0
  | .initialized => 1
  | .shuttingDown => 2
  | .closed => 3

instance : LT Phase := ⟨fun a b => a.rank < b.rank⟩

instance : LE Phase := ⟨fun a b => a.rank ≤ b.rank⟩

instance (a b : Phase) : Decidable (a < b) := inferInstanceAs (Decidable (a.rank < b.rank))

instance (a b : Phase) : Decidable (a ≤ b) := inferInstanceAs (Decidable (a.rank ≤ b.rank))

instance : Ord Phase := ⟨fun a b => compare a.rank b.rank⟩

/-- The phase of a session that is told to go to `next`. -/
def advance (p next : Phase) : Phase := if p < next then next else p

/-- Whether requests are refused; only another shutdown is not. -/
def refusesRequests : Phase → Bool
  | .uninitialized | .initialized => false
  | .shuttingDown | .closed => true

/-- The name of a phase. -/
def label : Phase → String
  | .uninitialized => "uninitialized"
  | .initialized => "initialized"
  | .shuttingDown => "shutting-down"
  | .closed => "closed"

/-- The phase as it stands in a description. -/
def describe : Phase → String
  | .uninitialized => "Uninitialized"
  | .initialized => "Initialized"
  | .shuttingDown => "ShuttingDown"
  | .closed => "Closed"

end Phase

end BuildServer
