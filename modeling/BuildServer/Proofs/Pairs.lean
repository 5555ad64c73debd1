/-! # Looking up pairs

Looking up a key gives the first pair that has it. Where no key is repeated, that is the only one.
-/

namespace BuildServer

variable {α β : Type} [BEq α] [LawfulBEq α] {pairs : List (α × β)} {key : α}

theorem lookup_eq_none_of_not_mem (absent : key ∉ pairs.map (·.1)) : pairs.lookup key = none := by
  rw [List.lookup_eq_none_iff]
  rintro p member
  rw [bne_iff_ne]
  rintro rfl
  exact absent (List.mem_map_of_mem member)

/-- What is found under a key is there with the key. -/
theorem mem_of_lookup_eq_some {b : β} (found : pairs.lookup key = some b) : (key, b) ∈ pairs := by
  obtain ⟨before, after, rfl, -⟩ := List.lookup_eq_some_iff.mp found
  simp

theorem mem_iff_lookup_eq_some (distinct : (pairs.map (·.1)).Nodup) {b : β} :
    (key, b) ∈ pairs ↔ pairs.lookup key = some b := by
  induction pairs with
  | nil => simp
  | cons p rest ih =>
    obtain ⟨first, c⟩ := p
    obtain ⟨absent, distinct⟩ := List.nodup_cons.mp distinct
    rw [List.mem_cons, List.lookup_cons]
    by_cases same : key = first
    · subst same
      have elsewhere : (key, b) ∉ rest := by
        intro member
        exact absurd (List.mem_map_of_mem (f := Prod.fst) member) absent
      simp [elsewhere, eq_comm]
    · rw [beq_false_of_ne same]
      simpa [same] using ih distinct

theorem lookup_eq_none_iff_not_mem : pairs.lookup key = none ↔ key ∉ pairs.map (·.1) := by
  refine ⟨fun none member => ?_, lookup_eq_none_of_not_mem⟩
  obtain ⟨p, there, rfl⟩ := List.mem_map.mp member
  exact bne_iff_ne.mp (List.lookup_eq_none_iff.mp none p there) rfl

/-- Where the keys are the same and each comes first with the same value, the same is found under every
key. -/
theorem lookup_eq_lookup {others : List (α × β)}
    (keys : ∀ key, key ∈ pairs.map (·.1) ↔ key ∈ others.map (·.1))
    (firsts : ∀ key b c, pairs.lookup key = some b → others.lookup key = some c → b = c) :
    pairs.lookup key = others.lookup key := by
  have absent : pairs.lookup key = none ↔ others.lookup key = none := by
    rw [lookup_eq_none_iff_not_mem, lookup_eq_none_iff_not_mem, keys]
  cases found : pairs.lookup key with
  | none => exact (absent.mp found).symm
  | some b =>
    cases found' : others.lookup key with
    | none => exact absurd (absent.mpr found') (by simp [found])
    | some c => rw [firsts key b c found found']

end BuildServer
