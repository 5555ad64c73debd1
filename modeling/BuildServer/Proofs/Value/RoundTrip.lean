import BuildServer.Proofs.Json.RoundTrip
import BuildServer.Proofs.Value.Entries
import BuildServer.Value.Wire

/-! # Values on the wire and back

What is written is read back as it was, save that a float which is not finite comes back as null, as
long as no more lists and maps are nested than the reader has room for; a value nested deeper is
written all the same and then refused. Finite floats are left to a hypothesis, since reading does not
round to the nearest double.
-/

namespace BuildServer

open Json

namespace Value

mutual

/-- How many lists and maps are nested in one another at most. -/
def nesting : Value → Nat
  | .list items => itemNesting items + 1
  | .map entries => entryNesting entries + 1
  | _ => 0

/-- The deepest nesting of an item. -/
def itemNesting : List Value → Nat
  | [] => 0
  | v :: vs => max (nesting v) (itemNesting vs)

/-- The deepest nesting under a key. -/
def entryNesting : List (String × Value) → Nat
  | [] => 0
  | (_, v) :: entries => max (nesting v) (entryNesting entries)

end

mutual

/-- The floats of a value at every level. -/
def floats : Value → List Binary64
  | .float x => [x]
  | .list items => itemFloats items
  | .map entries => entryFloats entries
  | _ => []

/-- The floats in the items of a list. -/
def itemFloats : List Value → List Binary64
  | [] => []
  | v :: vs => floats v ++ itemFloats vs

/-- The floats in the entries of a map. -/
def entryFloats : List (String × Value) → List Binary64
  | [] => []
  | (_, v) :: entries => floats v ++ entryFloats entries

end

mutual

/-- The value with null in place of every float that is not finite. -/
def finiteOnly : Value → Value
  | .float x => if x.isFinite then .float x else .null
  | .list items => .list (finiteItems items)
  | .map entries => .map (finiteEntries entries)
  | v => v

/-- The items of a list with null in place of every float that is not finite. -/
def finiteItems : List Value → List Value
  | [] => []
  | v :: vs => finiteOnly v :: finiteItems vs

/-- The entries of a map with null in place of every float that is not finite. -/
def finiteEntries : List (String × Value) → Entries
  | [] => []
  | (key, v) :: entries => (key, finiteOnly v) :: finiteEntries entries

end

mutual

/-- A document is nested as deep as the value it was made of. -/
theorem nesting_toDocument (v : Value) : v.toDocument.nesting = v.nesting := by
  match v with
  | .null | .int _ | .bool _ | .string _ => rfl
  | .float x =>
    rw [toDocument]
    split <;> rfl
  | .list items => rw [toDocument, Document.nesting, nesting, nesting_items]
  | .map entries => rw [toDocument, Document.nesting, nesting, nesting_entries]

theorem nesting_items (vs : List Value) :
    Document.itemNesting (itemDocuments vs) = itemNesting vs := by
  match vs with
  | [] => rfl
  | v :: vs =>
    rw [itemDocuments, Document.itemNesting, itemNesting, nesting_toDocument, nesting_items]

theorem nesting_entries (entries : List (String × Value)) :
    Document.memberNesting (memberDocuments entries) = entryNesting entries := by
  match entries with
  | [] => rfl
  | (key, v) :: entries =>
    rw [memberDocuments, Document.memberNesting, entryNesting, nesting_toDocument, nesting_entries]

end

theorem legible_numberOfInt (i : Int64) : (numberOfInt i).Legible := by
  rw [numberOfInt]
  split
  next below => exact legible_negative below
  next => exact legible_natural _

/-- An integer is read back as that integer. -/
theorem ofNumber_numberOfInt (i : Int64) : ofNumber (numberOfInt i) = .int i := by
  rw [numberOfInt]
  split
  next => rfl
  next notBelow =>
    have most : i.toInt ≤ 9223372036854775807 := i.toInt_le
    have word : (UInt64.ofNat i.toInt.toNat).toNat = i.toInt.toNat :=
      UInt64.toNat_ofNat_of_lt' (show i.toInt.toNat < 2 ^ 64 by omega)
    have signed : i.toInt.toNat ≤ greatestSigned := by rw [greatestSigned]; omega
    have whole : (i.toInt.toNat : Int) = i.toInt := Int.toNat_of_nonneg (Int.not_lt.mp notBelow)
    rw [ofNumber, ofWord, word, if_pos signed, whole, Int64.ofInt_toInt]

/-- A finite float that is read back by itself is legible wherever it stands. -/
theorem legible_float {x : Binary64} (finite : x.isFinite = true)
    (readBack : decode (encode (.float x)) = .ok (.float x)) : (Number.double x).Legible := by
  have written : encode (.float x) = (Document.number (.double x)).write := by
    rw [encode, toDocument, if_pos finite]
  rw [decode, written] at readBack
  split at readBack
  next d read =>
    obtain ⟨y, rfl, legible⟩ := legible_double finite read
    exact legible (Value.float.inj (Except.ok.inj readBack))
  next => contradiction

mutual

/-- The numbers that are written for a value. -/
theorem numbers_toDocument (v : Value) {n : Number} (member : n ∈ v.toDocument.numbers) :
    (∃ i, n = numberOfInt i) ∨ ∃ x ∈ v.floats, x.isFinite = true ∧ n = .double x := by
  match v with
  | .null | .bool _ | .string _ => cases member
  | .int i => exact .inl ⟨i, List.mem_singleton.mp member⟩
  | .float x =>
    rw [toDocument] at member
    split at member
    next finite => exact .inr ⟨x, List.mem_singleton.mpr rfl, finite, List.mem_singleton.mp member⟩
    next => cases member
  | .list items => exact numbers_items items member
  | .map entries => exact numbers_entries entries member

theorem numbers_items (vs : List Value) {n : Number}
    (member : n ∈ Document.itemNumbers (itemDocuments vs)) :
    (∃ i, n = numberOfInt i) ∨ ∃ x ∈ itemFloats vs, x.isFinite = true ∧ n = .double x := by
  match vs with
  | [] => cases member
  | v :: vs =>
    rcases List.mem_append.mp member with first | others
    · exact (numbers_toDocument v first).imp_right fun ⟨x, inside, found⟩ =>
        ⟨x, List.mem_append_left _ inside, found⟩
    · exact (numbers_items vs others).imp_right fun ⟨x, inside, found⟩ =>
        ⟨x, List.mem_append_right _ inside, found⟩

theorem numbers_entries (entries : List (String × Value)) {n : Number}
    (member : n ∈ Document.memberNumbers (memberDocuments entries)) :
    (∃ i, n = numberOfInt i) ∨ ∃ x ∈ entryFloats entries, x.isFinite = true ∧ n = .double x := by
  match entries with
  | [] => cases member
  | (key, v) :: entries =>
    rcases List.mem_append.mp member with first | others
    · exact (numbers_toDocument v first).imp_right fun ⟨x, inside, found⟩ =>
        ⟨x, List.mem_append_left _ inside, found⟩
    · exact (numbers_entries entries others).imp_right fun ⟨x, inside, found⟩ =>
        ⟨x, List.mem_append_right _ inside, found⟩

end

mutual

/-- The meaning of a value's document is the value without its floats that are not finite. -/
theorem ofDocument_toDocument (v : Value) (ordered : v.Ordered) :
    ofDocument v.toDocument = v.finiteOnly := by
  match v with
  | .null | .bool _ | .string _ => rfl
  | .int i => exact ofNumber_numberOfInt i
  | .float x =>
    rw [toDocument, finiteOnly]
    split <;> rfl
  | .list items => rw [toDocument, ofDocument, finiteOnly, ofItems_itemDocuments items ordered]
  | .map entries =>
    rw [toDocument, ofDocument, finiteOnly, ofMembers_memberDocuments entries ordered.2 ordered.1
      (fun other member => by cases member), List.nil_append]

theorem ofItems_itemDocuments (vs : List Value) (ordered : AllOrdered vs) :
    ofItems (itemDocuments vs) = finiteItems vs := by
  match vs with
  | [] => rfl
  | v :: vs =>
    rw [itemDocuments, ofItems, finiteItems, ofDocument_toDocument v ordered.1,
      ofItems_itemDocuments vs ordered.2]

theorem ofMembers_memberDocuments (entries : List (String × Value))
    (ordered : EntriesOrdered entries) (sorted : Entries.Sorted entries) {before : Entries}
    (beyond : ∀ other ∈ before, ∀ entry ∈ entries, other.1 < entry.1) :
    ofMembers (memberDocuments entries) before = before ++ finiteEntries entries := by
  match entries with
  | [] => exact (List.append_nil before).symm
  | (key, v) :: entries =>
    obtain ⟨first, rest⟩ := List.pairwise_cons.mp sorted
    have stored : before.insertNew key v.finiteOnly = before ++ [(key, v.finiteOnly)] :=
      Entries.put_last (fun other member => beyond other member _ (.head _)) true _
    rw [memberDocuments, ofMembers, ofDocument_toDocument v ordered.1, stored,
      ofMembers_memberDocuments entries ordered.2 rest, finiteEntries, List.append_assoc,
      List.singleton_append]
    intro other member entry inside
    rcases List.mem_append.mp member with earlier | latest
    · exact beyond other earlier entry (.tail _ inside)
    · rw [List.mem_singleton.mp latest]
      exact first entry inside

end

mutual

/-- A value all of whose floats are finite is written as it is. -/
theorem finiteOnly_eq_self (v : Value) (finite : ∀ x ∈ v.floats, x.isFinite = true) :
    v.finiteOnly = v := by
  match v with
  | .null | .int _ | .bool _ | .string _ => rfl
  | .float x => rw [finiteOnly, if_pos (finite x (.head _))]
  | .list items => rw [finiteOnly, finiteItems_eq_self items finite]
  | .map entries => rw [finiteOnly, finiteEntries_eq_self entries finite]

theorem finiteItems_eq_self (vs : List Value) (finite : ∀ x ∈ itemFloats vs, x.isFinite = true) :
    finiteItems vs = vs := by
  match vs with
  | [] => rfl
  | v :: vs =>
    obtain ⟨first, others⟩ := List.forall_mem_append.mp finite
    rw [finiteItems, finiteOnly_eq_self v first, finiteItems_eq_self vs others]

theorem finiteEntries_eq_self (entries : List (String × Value))
    (finite : ∀ x ∈ entryFloats entries, x.isFinite = true) : finiteEntries entries = entries := by
  match entries with
  | [] => rfl
  | (key, v) :: entries =>
    obtain ⟨first, others⟩ := List.forall_mem_append.mp finite
    rw [finiteEntries, finiteOnly_eq_self v first, finiteEntries_eq_self entries others]

end

/-- A value all of whose floats are finite and read back alone is read back as it is, unless it is
nested too deep. -/
theorem decode_encode_of_finite {v : Value} (ordered : v.Ordered) (shallow : v.nesting ≤ 127)
    (readBack : ∀ x ∈ v.floats, x.isFinite = true ∧ decode (encode (.float x)) = .ok (.float x)) :
    decode (encode v) = .ok v := by
  have legible : ∀ n ∈ v.toDocument.numbers, n.Legible := by
    intro n member
    rcases numbers_toDocument v member with ⟨i, rfl⟩ | ⟨x, inside, finite, rfl⟩
    · exact legible_numberOfInt i
    · exact legible_float finite (readBack x inside).2
  have read := read_write legible (by rwa [nesting_toDocument])
  rw [decode, encode, read]
  refine congrArg Except.ok ?_
  rw [ofDocument_toDocument v ordered, finiteOnly_eq_self v fun x inside => (readBack x inside).1]

/-- What is encoded is decoded to the value with null in place of every float that is not finite, if at
most 127 lists and maps are nested in it and its finite floats are each read back alone; nested
deeper, it is refused at the bracket that goes too far. -/
theorem decode_encode_within_nesting (v : OrderedValue)
    (readBack : ∀ x ∈ v.value.floats, x.isFinite = true →
      decode (encode (.float x)) = .ok (.float x)) :
    (v.value.nesting ≤ 127 → decode (encode v.value) = .ok v.value.finiteOnly) ∧
      (127 < v.value.nesting →
        ∃ place, decode (encode v.value) = .error ⟨.nestingTooDeep, place⟩) := by
  obtain ⟨v, ordered⟩ := v
  have legible : ∀ n ∈ v.toDocument.numbers, n.Legible := by
    intro n member
    rcases numbers_toDocument v member with ⟨i, rfl⟩ | ⟨x, inside, finite, rfl⟩
    · exact legible_numberOfInt i
    · exact legible_float finite (readBack x inside finite)
  constructor
  · intro shallow
    have read := read_write legible (by rwa [nesting_toDocument])
    rw [decode, encode, read]
    exact congrArg Except.ok (ofDocument_toDocument v ordered)
  · intro deep
    obtain ⟨place, refused⟩ := read_write_deep legible (by rwa [nesting_toDocument])
    rw [decode, encode, refused]
    exact ⟨_, rfl⟩

/-- A map with escapes in its key, the least integer, and floats that are finite and not. -/
def sampleValue : OrderedValue where
  value := .map [("\"\\\n\x01é", .list [.int (-9223372036854775808), .float ⟨0x3FF8000000000000⟩,
    .float ⟨0x7FF0000000000000⟩, .list []]), ("k", .map [])]
  ordered := ⟨List.pairwise_pair.mpr (by decide), ⟨trivial, trivial, trivial, trivial, trivial⟩,
    ⟨.nil, trivial⟩, trivial⟩

theorem sample_read_back : decode (encode sampleValue.value) =
    .ok (.map [("\"\\\n\x01é", .list [.int (-9223372036854775808), .float ⟨0x3FF8000000000000⟩,
      .null, .list []]), ("k", .map [])]) := by
  refine (decode_encode_within_nesting sampleValue ?_).1 (by decide)
  intro x member finite
  rcases List.mem_cons.mp member with rfl | member
  · rfl
  · rw [List.mem_singleton.mp member] at finite
    contradiction

end Value

end BuildServer
