import BuildServer.Proofs.Queue.Scan
import BuildServer.Session.Footprint

/-! # Which messages wait for each other

A change and any other message wait for each other. The queue asks the later of two jobs whether it
conflicts with the earlier one, and never the other way round; for messages the question has the same
answer either way. Between two preparations it asks just whether a URI is named by both, however often
and in whatever order they name it.
-/

namespace BuildServer

open Protocol

/-- Changes and everything else wait for each other. -/
theorem barrier_change : Queue.Barrier Footprint.change := by
  intro other
  cases other <;> exact ⟨rfl, rfl⟩

namespace Footprint

/-- Of two messages either both have to wait for the other or none has. -/
theorem conflictsWith_comm (a b : Footprint) : conflictsWith a b = conflictsWith b a := by
  cases a with
  | change => exact ((barrier_change b).1).trans (barrier_change b).2.symm
  | read => cases b <;> rfl
  | prepare ts =>
    cases b with
    | change | read => rfl
    | prepare us => exact ts.meets_comm us

/-- The targets have no URI in common. -/
def Apart (ts us : List TargetId) : Prop := ∀ t ∈ ts, ∀ u ∈ us, t.uri.text ≠ u.uri.text

theorem conflictsWith_ofTargets {ts us : List TargetId} :
    conflictsWith (ofTargets ts) (ofTargets us) = true ↔
      ∃ t ∈ ts, ∃ u ∈ us, t.uri.text = u.uri.text := by
  change (TextSet.ofList _).meets (TextSet.ofList _) = true ↔ _
  simp only [TextSet.meets_iff, TextSet.mem_ofList, List.mem_map]
  constructor
  · rintro ⟨_, ⟨t, first, rfl⟩, u, second, same⟩
    exact ⟨t, first, u, second, same.symm⟩
  · rintro ⟨t, first, u, second, same⟩
    exact ⟨_, ⟨t, first, rfl⟩, u, second, same.symm⟩

theorem apart_iff {ts us : List TargetId} :
    Apart ts us ↔ conflictsWith (ofTargets ts) (ofTargets us) = false := by
  rw [← Bool.not_eq_true, conflictsWith_ofTargets, Apart]
  simp only [not_exists, not_and, ne_eq]

end Footprint

end BuildServer
