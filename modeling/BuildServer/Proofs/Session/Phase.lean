import BuildServer.Session.Phase
import Mathlib.Order.BoundedOrder.Lattice

/-! # The order of the phases

Phases are compared by their ranks, and the closed phase is the last of them. A session that is told
to go to a phase comes to the later one of that phase and its own.
-/

namespace BuildServer.Phase

theorem rank_injective : Function.Injective rank := by
  intro p q
  cases p <;> cases q <;> decide

instance : LinearOrder Phase := LinearOrder.lift' rank rank_injective

instance : OrderTop Phase where
  top := .closed
  le_top p := by cases p <;> decide

/-- No phase comes after the last one. -/
theorem closed_le_iff {p : Phase} : .closed ≤ p ↔ p = .closed := top_le_iff

theorem advance_eq_max (p next : Phase) : p.advance next = max p next := (max_def_lt p next).symm

theorem advance_le_advance {p later : Phase} (forward : p ≤ later) (next : Phase) :
    p.advance next ≤ later.advance next := by
  rw [advance_eq_max, advance_eq_max]
  exact sup_le_sup_right forward next

theorem advance_closed (p : Phase) : p.advance .closed = .closed :=
  (advance_eq_max p .closed).trans (max_top_right p)

end BuildServer.Phase
