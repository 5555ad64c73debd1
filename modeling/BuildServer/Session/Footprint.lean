import BuildServer.Protocol.Target
import BuildServer.Queue.Basic
import BuildServer.Text.Set

/-!
# What messages touch

A message that changes something waits for all before it and is waited for by all after it.
Preparations wait for each other where they have a target in common. Messages that only read wait
for changes alone.
-/

namespace BuildServer

open Protocol

/-- What a message touches. -/
inductive Footprint
  | change
  | read
  | prepare (targets : TextSet)
  deriving DecidableEq

namespace Footprint

/-- The footprint of preparing targets, which are told apart by their URIs. -/
def ofTargets (targets : List TargetId) : Footprint :=
  .prepare (.ofList (targets.map fun t => t.uri.text))

instance : Dependency Footprint where
  conflictsWith
    | .change, _ | _, .change => true
    | .prepare a, .prepare b => a.meets b
    | _, _ => false

end Footprint

end BuildServer
