/-!
# Sets of texts

A set of texts is the ascending list of its members, each once, so equal sets are equal lists.
-/

namespace BuildServer

/-- A finite set of texts. -/
structure TextSet where
  members : List String
  ascending : members.Pairwise (· < ·)
  deriving DecidableEq

namespace TextSet

/-- Puts a text into its place unless it is there. -/
def place (s : String) : List String → List String
  | [] => [s]
  | t :: ts => if s < t then s :: t :: ts else if s = t then t :: ts else t :: place s ts

theorem mem_place {s a : String} {ts : List String} : a ∈ place s ts ↔ a = s ∨ a ∈ ts := by
  induction ts with
  | nil => simp [place]
  | cons t ts ih =>
    simp only [place]
    split
    · simp
    · split
      · rename_i same
        subst same
        simp
      · simp only [List.mem_cons, ih]
        exact or_left_comm

theorem pairwise_place {s : String} {ts : List String} (h : ts.Pairwise (· < ·)) :
    (place s ts).Pairwise (· < ·) := by
  induction ts with
  | nil => simp [place]
  | cons t ts ih =>
    obtain ⟨below, rest⟩ := List.pairwise_cons.1 h
    simp only [place]
    split
    · rename_i before
      refine List.pairwise_cons.2 ⟨fun a member => ?_, h⟩
      rcases List.mem_cons.1 member with rfl | member
      · exact before
      · exact String.lt_trans before (below a member)
    · split
      · exact h
      · rename_i notBefore differs
        refine List.pairwise_cons.2 ⟨fun a member => ?_, ih rest⟩
        rcases mem_place.1 member with rfl | member
        · exact Std.lt_of_le_of_ne (String.not_lt.1 notBefore) (Ne.symm differs)
        · exact below a member

/-- The set with one more member. -/
def insert (ts : TextSet) (s : String) : TextSet :=
  ⟨place s ts.members, pairwise_place ts.ascending⟩

/-- The set of the texts of a list. -/
def ofList (ss : List String) : TextSet := ss.foldl insert ⟨[], .nil⟩

/-- Whether two sets have a member in common. -/
def meets (a b : TextSet) : Bool := a.members.any b.members.contains

theorem mem_ofList {a : String} {ss : List String} : a ∈ (ofList ss).members ↔ a ∈ ss := by
  suffices ∀ ts : TextSet, a ∈ (ss.foldl insert ts).members ↔ a ∈ ts.members ∨ a ∈ ss by
    simpa [ofList] using this ⟨[], .nil⟩
  induction ss with
  | nil => simp
  | cons s ss ih =>
    intro ts
    simp only [List.foldl_cons, ih, insert, mem_place, List.mem_cons]
    grind

theorem meets_iff {a b : TextSet} : a.meets b = true ↔ ∃ s ∈ a.members, s ∈ b.members := by
  simp only [meets, List.any_eq_true, List.contains_iff_mem]

theorem meets_comm (a b : TextSet) : a.meets b = b.meets a := by
  rw [Bool.eq_iff_iff, meets_iff, meets_iff]
  simp only [and_comm]

end TextSet

end BuildServer
