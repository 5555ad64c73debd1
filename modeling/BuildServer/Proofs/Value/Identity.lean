import BuildServer.Proofs.Pairs
import BuildServer.Proofs.Value.Agreement

/-! # Equal values cannot be told apart

Equality of values is written out by cases, and so is what a hasher is told of a value. The two agree:
from the pieces of a value it can be read off which value they belong to and where they end, so exactly
the equal values are told alike. A map is settled by what it has under each key, since its entries are
in the order of their keys, and a map made of pairs therefore by the first pair of each key.
-/

namespace BuildServer

namespace Value

mutual

/-- The pieces of a value tell the value, whatever is told behind it. -/
theorem pieces_append_inj (v w : Value) {rest others : List Piece}
    (same : v.pieces ++ rest = w.pieces ++ others) : v = w ∧ rest = others := by
  match v with
  | .list items =>
    cases w with
    | list items' =>
      simp only [pieces, List.cons_append, List.cons.injEq, Piece.length.injEq, true_and] at same
      obtain ⟨rfl, rest⟩ := itemPieces_append_inj items items' same.1 same.2
      exact ⟨rfl, rest⟩
    | _ => simp [pieces] at same
  | .map entries =>
    cases w with
    | map entries' =>
      simp only [pieces, List.cons_append, List.cons.injEq, Piece.length.injEq, true_and] at same
      obtain ⟨rfl, rest⟩ := entryPieces_append_inj entries entries' same.1 same.2
      exact ⟨rfl, rest⟩
    | _ => simp [pieces] at same
  | .float x =>
    cases w with
    | float y =>
      obtain ⟨bits⟩ := x
      obtain ⟨bits'⟩ := y
      simpa [pieces] using same
    | _ => simp [pieces] at same
  | .null => cases w <;> simp_all [pieces]
  | .int _ => cases w <;> simp_all [pieces]
  | .bool _ => cases w <;> simp_all [pieces]
  | .string _ => cases w <;> simp_all [pieces]

theorem itemPieces_append_inj (vs ws : List Value) {rest others : List Piece}
    (length : vs.length = ws.length) (same : itemPieces vs ++ rest = itemPieces ws ++ others) :
    vs = ws ∧ rest = others := by
  match vs, ws with
  | [], [] => exact ⟨rfl, same⟩
  | v :: vs, w :: ws =>
    rw [itemPieces, itemPieces, List.append_assoc, List.append_assoc] at same
    obtain ⟨rfl, later⟩ := pieces_append_inj v w same
    obtain ⟨rfl, rest⟩ := itemPieces_append_inj vs ws (Nat.succ.inj length) later
    exact ⟨rfl, rest⟩

theorem entryPieces_append_inj (es fs : List (String × Value)) {rest others : List Piece}
    (length : es.length = fs.length) (same : entryPieces es ++ rest = entryPieces fs ++ others) :
    es = fs ∧ rest = others := by
  match es, fs with
  | [], [] => exact ⟨rfl, same⟩
  | (key, v) :: es, (key', w) :: fs =>
    rw [entryPieces, entryPieces, List.cons_append, List.cons_append, List.append_assoc,
      List.append_assoc] at same
    obtain ⟨keys, later⟩ := List.cons.inj same
    obtain rfl := Piece.text.inj keys
    obtain ⟨rfl, behind⟩ := pieces_append_inj v w later
    obtain ⟨rfl, rest⟩ := entryPieces_append_inj es fs (Nat.succ.inj length) behind
    exact ⟨rfl, rest⟩

end

theorem pieces_inj {v w : Value} : v.pieces = w.pieces ↔ v = w := by
  constructor
  · intro same
    have whole : v.pieces ++ [] = w.pieces ++ [] := by rw [same]
    exact (pieces_append_inj v w whole).1
  · exact congrArg pieces

/-- Every hasher, in any state, comes to the same state when it is told of either value. -/
def ToldAlike (v w : Value) : Prop :=
  ∀ (σ : Type) (tell : σ → Piece → σ) (state : σ), v.feed tell state = w.feed tell state

/-- Hashers are told alike of the same value only: one that keeps all that it is told can go by the
pieces. -/
theorem toldAlike_iff {v w : Value} : v.ToldAlike w ↔ v = w := by
  constructor
  · intro alike
    have kept := alike (List Piece) (fun told piece => piece :: told) []
    rw [feed, feed, List.foldl_flip_cons_eq_append', List.foldl_flip_cons_eq_append',
      List.append_left_inj, List.reverse_inj] at kept
    exact pieces_inj.mp kept
  · rintro rfl σ tell state
    rfl

end Value

namespace Entries

/-- Two maps that have the same under every key are the same. -/
theorem Sorted.ext {entries others : Entries} (sorted : entries.Sorted) (sorted' : others.Sorted)
    (same : ∀ key, entries.get? key = others.get? key) : entries = others := by
  have members : ∀ entry, entry ∈ entries ↔ entry ∈ others := by
    rintro ⟨key, v⟩
    rw [mem_iff_lookup_eq_some sorted.nodup, mem_iff_lookup_eq_some sorted'.nodup]
    exact iff_of_eq (congrArg (· = some v) (same key))
  have differ : ∀ a b : String × Value, a.1 < b.1 → a ≠ b := by
    rintro a _ below rfl
    exact String.lt_irrefl _ below
  have perm : entries.Perm others :=
    (List.perm_ext_iff_of_nodup (sorted.imp (differ _ _)) (sorted'.imp (differ _ _))).mpr members
  refine perm.eq_of_pairwise (fun a b _ _ below above => ?_) sorted sorted'
  exact absurd above (String.lt_asymm below)

/-- Pairs in which every key comes first with the same value make the same map. -/
theorem ofPairs_eq {pairs others : List (String × Value)}
    (same : ∀ key, pairs.lookup key = others.lookup key) : ofPairs pairs = ofPairs others := by
  refine (sorted_ofPairs pairs).ext (sorted_ofPairs others) fun key => ?_
  rw [get?_ofPairs, get?_ofPairs, same]

end Entries

namespace Value

/-- Equality is an equivalence; it holds between all values that hashers are told of alike and between
no others, and equal values are written with the same bytes. Pairs with the same keys, of which each
comes first with equal values, make equal maps, in whatever order they stand and whatever is repeated
behind. -/
theorem equality_decides_identity :
    (Equivalence fun v w : Value => v == w) ∧
      (∀ v w : Value, (v == w ↔ v.ToldAlike w) ∧ (v == w → hash v = hash w ∧ encode v = encode w)) ∧
      ∀ pairs others : List (String × Value),
        (∀ key, key ∈ pairs.map (·.1) ↔ key ∈ others.map (·.1)) →
        (∀ key v w, pairs.lookup key = some v → others.lookup key = some w → v == w) →
        ofPairs pairs == ofPairs others ∧ (ofPairs pairs).ToldAlike (ofPairs others) ∧
          hash (ofPairs pairs) = hash (ofPairs others) ∧
          encode (ofPairs pairs) = encode (ofPairs others) := by
  have identity : ∀ v w : Value, (v == w) = true ↔ v = w := beq_iff_eq
  refine ⟨⟨fun v => BEq.rfl, BEq.symm, BEq.trans⟩, fun v w => ⟨?_, fun same => ?_⟩, ?_⟩
  · rw [identity, toldAlike_iff]
  · obtain rfl := (identity v w).mp same
    exact ⟨rfl, rfl⟩
  · intro pairs others keys firsts
    have same : ofPairs pairs = ofPairs others := by
      refine congrArg Value.map (Entries.ofPairs_eq fun _ => lookup_eq_lookup keys ?_)
      exact fun key v w found found' => (identity v w).mp (firsts key v w found found')
    exact ⟨(identity _ _).mpr same, toldAlike_iff.mpr same, congrArg hash same, congrArg encode same⟩

/-- The other order makes no difference, nor does a second `"b"`: both maps have a list of a not-a-number
under `"a"` and the negative zero under `"b"`. -/
theorem same_map_in_other_order :
    ofPairs [("b", .float ⟨0x8000000000000000⟩), ("a", .list [.float ⟨0x7FF8000000000000⟩]),
        ("b", .float ⟨0⟩)] ==
      ofPairs [("a", .list [.float ⟨0x7FF8000000000000⟩]), ("b", .float ⟨0x8000000000000000⟩)] := by
  refine (equality_decides_identity.2.2 _ _ (fun key => ?_) fun key v w found found' => ?_).1
  · simp [or_comm, or_left_comm]
  · by_cases first : key = "a"
    · subst first
      simp only [List.lookup_cons, String.reduceBEq, BEq.rfl, Option.some.injEq] at found found'
      rw [← found, ← found', BEq.rfl]
    · by_cases second : key = "b"
      · subst second
        simp only [List.lookup_cons, String.reduceBEq, BEq.rfl, Option.some.injEq] at found found'
        rw [← found, ← found', BEq.rfl]
      · simp [List.lookup_cons, beq_false_of_ne first, beq_false_of_ne second] at found

end Value

end BuildServer
