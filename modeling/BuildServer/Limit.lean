import BuildServer.Schema.Basic

/-!
# Limits on concurrency

How many jobs may run at a time: at least one, and no more than a word counts.
-/

namespace BuildServer

/-- A positive number of jobs that fits 64 bits. -/
structure Limit where
  value : Nat
  positive : 0 < value
  fits : value < wordLimit
  deriving DecidableEq

namespace Limit

/-- The limit of the given size, if it is one. -/
def ofNat? (n : Nat) : Option Limit :=
  if h : 0 < n ∧ n < wordLimit then some ⟨n, h.1, h.2⟩ else none

/-- The form of a limit in reports. -/
def expectation : String := "a nonzero usize"

instance : Schema Limit where
  read d := do
    let i ← Schema.readInteger expectation (fun i => decide (0 < i ∧ i < wordLimit)) d
    match ofNat? i.toNat with
    | some limit => .ok limit
    | none => .error (.wrongValue (.integer i) expectation)
  write limit := .ofNat limit.value

end Limit

end BuildServer
