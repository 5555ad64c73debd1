import BuildServer.Proofs.Pairs
import BuildServer.Value.Codable

/-! # Maps by their keys

Storing keeps the keys of a map ascending and each key once, so a map answers for each key as the
pairs do that it was made of: with the first pair that has the key. An optional field of a record is
what is stored under its key unless that is null.
-/

namespace BuildServer

namespace Entries

/-- A stored entry is one that was there or is the new one. -/
theorem mem_put {keep : Bool} {key : String} {v : Value} {entries : Entries} {entry : String × Value}
    (member : entry ∈ put keep key v entries) : entry ∈ entries ∨ entry = (key, v) := by
  induction entries with
  | nil => exact .inr (List.mem_singleton.mp member)
  | cons first rest ih =>
    rw [put] at member
    split at member
    · rcases List.mem_cons.mp member with rfl | there
      · exact .inr rfl
      · exact .inl there
    · split at member
      · rcases List.mem_cons.mp member with rfl | there
        · cases keep
          · exact .inr rfl
          · exact .inl (.head _)
        · exact .inl (.tail _ there)
      · rcases List.mem_cons.mp member with rfl | there
        · exact .inl (.head _)
        · exact (ih there).imp_left (.tail _)

/-- Storing keeps the keys ascending. -/
theorem Sorted.put {keep : Bool} {key : String} {v : Value} {entries : Entries}
    (sorted : entries.Sorted) : (put keep key v entries).Sorted := by
  induction entries with
  | nil => exact List.pairwise_singleton _ _
  | cons first rest ih =>
    obtain ⟨below, above⟩ := List.pairwise_cons.mp sorted
    rw [Entries.put]
    split
    next less =>
      refine List.pairwise_cons.mpr ⟨fun entry member => ?_, sorted⟩
      rcases List.mem_cons.mp member with rfl | later
      · exact less
      · exact String.lt_trans less (below entry later)
    next notLess =>
      split
      next same =>
        refine List.pairwise_cons.mpr ⟨fun entry member => ?_, above⟩
        cases keep
        · exact same ▸ below entry member
        · exact below entry member
      next other =>
        refine List.pairwise_cons.mpr ⟨fun entry member => ?_, ih above⟩
        rcases mem_put member with there | rfl
        · exact below entry there
        · exact Std.lt_of_le_of_ne (String.not_lt.mp notLess) (Ne.symm other)

theorem get?_cons_self (key : String) (v : Value) (rest : Entries) :
    get? ((key, v) :: rest) key = some v := by
  simp [get?]

theorem get?_cons_of_ne {key sought : String} (other : sought ≠ key) (v : Value) (rest : Entries) :
    get? ((key, v) :: rest) sought = get? rest sought := by
  simp [get?, List.lookup_cons, beq_false_of_ne other]

/-- There is nothing under a key below all others. -/
theorem get?_eq_none_of_lt {key : String} {entries : Entries}
    (below : ∀ entry ∈ entries, key < entry.1) : entries.get? key = none := by
  induction entries with
  | nil => rfl
  | cons entry rest ih =>
    have less : key < entry.1 := below entry (.head _)
    rw [get?_cons_of_ne (String.ne_of_lt less), ih fun other member => below other (.tail _ member)]

/-- Storing leaves what is under every other key. -/
theorem get?_put_of_ne {key sought : String} (other : sought ≠ key) (keep : Bool) (v : Value)
    (entries : Entries) : (put keep key v entries).get? sought = entries.get? sought := by
  induction entries with
  | nil => exact get?_cons_of_ne other v []
  | cons entry rest ih =>
    obtain ⟨first, present⟩ := entry
    rw [put]
    split
    · exact get?_cons_of_ne other v _
    · split
      next same =>
        obtain rfl : key = first := same
        cases keep <;> simp [get?_cons_of_ne other]
      next =>
        by_cases found : sought = first
        · rw [found, get?_cons_self, get?_cons_self]
        · rw [get?_cons_of_ne found, get?_cons_of_ne found, ih]

/-- What is stored under a new key is found there, and what a key has stays. Only here the order counts,
since the key could otherwise stand further back. -/
theorem get?_insertNew_self {entries : Entries} (sorted : entries.Sorted) (key : String) (v : Value) :
    (entries.insertNew key v).get? key = some ((entries.get? key).getD v) := by
  induction entries with
  | nil => exact get?_cons_self key v []
  | cons entry rest ih =>
    obtain ⟨first, present⟩ := entry
    obtain ⟨below, above⟩ := List.pairwise_cons.mp sorted
    rw [insertNew, put]
    split
    next less =>
      have absent : get? ((first, present) :: rest) key = none := by
        refine get?_eq_none_of_lt fun entry member => ?_
        rcases List.mem_cons.mp member with rfl | later
        · exact less
        · exact String.lt_trans less (below entry later)
      rw [absent, get?_cons_self]
      rfl
    next =>
      split
      next same =>
        obtain rfl : key = first := same
        rw [if_pos rfl, get?_cons_self]
        rfl
      next other =>
        rw [get?_cons_of_ne other, get?_cons_of_ne other]
        exact ih above

/-- What is stored in place of any other is found there. -/
theorem get?_insert_self (entries : Entries) (key : String) (v : Value) :
    (entries.insert key v).get? key = some v := by
  induction entries with
  | nil => exact get?_cons_self key v []
  | cons entry rest ih =>
    rw [insert, put]
    split
    next => exact get?_cons_self key v _
    next =>
      split
      next => exact get?_cons_self key v _
      next other =>
        rw [get?_cons_of_ne other]
        exact ih

/-- A key beyond all others is put behind them. -/
theorem put_last {entries : Entries} {key : String} (beyond : ∀ entry ∈ entries, entry.1 < key)
    (keep : Bool) (v : Value) : put keep key v entries = entries ++ [(key, v)] := by
  induction entries with
  | nil => rfl
  | cons entry entries ih =>
    have less : entry.1 < key := beyond entry (.head _)
    rw [put, if_neg (String.lt_asymm less), if_neg (String.ne_of_lt less).symm,
      ih fun other member => beyond other (.tail _ member), List.cons_append]

/-- What holds of the empty map and is kept when one more pair is stored holds of the map of any
pairs. -/
theorem ofPairs_induction (motive : List (String × Value) → Entries → Prop) (empty : motive [] [])
    (more : ∀ pairs pair entries, motive pairs entries →
      motive (pairs ++ [pair]) (entries.insertNew pair.1 pair.2)) (pairs : List (String × Value)) :
    motive pairs (ofPairs pairs) := by
  suffices ∀ stored entries, motive stored entries →
      motive (stored ++ pairs)
        (pairs.foldl (fun entries pair => entries.insertNew pair.1 pair.2) entries) from
    this [] [] empty
  induction pairs with
  | nil => exact fun stored entries held => (List.append_nil stored).symm ▸ held
  | cons pair pairs ih =>
    intro stored entries held
    rw [← List.singleton_append, ← List.append_assoc]
    exact ih _ _ (more stored pair entries held)

/-- A map made of pairs has its keys in ascending order. -/
theorem sorted_ofPairs (pairs : List (String × Value)) : (ofPairs pairs).Sorted :=
  ofPairs_induction (fun _ entries => entries.Sorted) .nil (fun _ _ _ sorted => sorted.put) pairs

theorem mem_ofPairs {pairs : List (String × Value)} {entry : String × Value}
    (member : entry ∈ ofPairs pairs) : entry ∈ pairs := by
  refine ofPairs_induction (fun pairs entries => entry ∈ entries → entry ∈ pairs) id ?_ pairs member
  intro pairs pair entries held stored
  rw [List.mem_append, List.mem_singleton]
  exact (mem_put stored).imp_left held

/-- A map made of pairs has under a key what the first pair with the key has. -/
theorem get?_ofPairs (pairs : List (String × Value)) (key : String) :
    (ofPairs pairs).get? key = pairs.lookup key := by
  refine (ofPairs_induction
    (fun pairs entries => entries.Sorted ∧ entries.get? key = pairs.lookup key) ⟨.nil, rfl⟩ ?_ pairs).2
  rintro pairs ⟨first, v⟩ entries ⟨sorted, same⟩
  refine ⟨sorted.put, ?_⟩
  rw [List.lookup_append, ← same]
  by_cases found : key = first
  · rw [found, get?_insertNew_self sorted, List.lookup_cons_self]
    cases entries.get? first <;> rfl
  · rw [insertNew, get?_put_of_ne found, List.lookup_cons, beq_false_of_ne found]
    exact Option.or_none.symm

end Entries

namespace Value

theorem entriesOrdered_iff {entries : List (String × Value)} :
    EntriesOrdered entries ↔ ∀ entry ∈ entries, entry.2.Ordered := by
  induction entries with
  | nil => exact iff_of_true trivial (by simp)
  | cons entry entries ih =>
    obtain ⟨key, v⟩ := entry
    rw [EntriesOrdered, List.forall_mem_cons, ih]

/-- A map made of ordered values is ordered. -/
theorem ordered_ofPairs {pairs : List (String × Value)} (ordered : ∀ pair ∈ pairs, pair.2.Ordered) :
    (ofPairs pairs).Ordered :=
  ⟨Entries.sorted_ofPairs pairs,
    entriesOrdered_iff.mpr fun entry member => ordered entry (Entries.mem_ofPairs member)⟩

/-- What is stored in the map of an ordered value is ordered. -/
theorem ordered_of_get? {entries : Entries} (ordered : EntriesOrdered entries) {key : String} {v : Value}
    (found : entries.get? key = some v) : v.Ordered :=
  entriesOrdered_iff.mp ordered _ (mem_of_lookup_eq_some found)

theorem isNull_iff {v : Value} : v.isNull = true ↔ v = .null := by
  cases v <;> simp [isNull]

end Value

namespace Codable

@[simp] theorem ofValue?_string (s : String) : ofValue? (.string s) = some s := rfl

@[simp] theorem ofValue?_int (i : Int64) : ofValue? (.int i) = some i := rfl

/-- An optional field of any form is there unless it is null. -/
theorem optionalField_value (entries : Entries) (key : String) :
    optionalField entries key = some ((entries.get? key).filter fun v => !v.isNull) := by
  rw [optionalField]
  rcases entries.get? key with _ | v
  · rfl
  · cases v <;> rfl

end Codable

end BuildServer
