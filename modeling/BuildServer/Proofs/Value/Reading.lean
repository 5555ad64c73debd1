import BuildServer.Proofs.Json.Nesting
import BuildServer.Proofs.Value.Entries
import BuildServer.Proofs.Value.RoundTrip
import BuildServer.Value.Equality

/-! # What reading can give

A list is read item by item, and a map is what its members make as pairs. So whatever the bytes, a
value that is read has its maps in order at every level and is nested no deeper than it could be
written and read again. Writing it is therefore a normal form of the bytes it was read from.
-/

namespace BuildServer

open Json

namespace Value

/-- A member of an object as a pair of a map. -/
def ofMember (member : String × Document) : String × Value := (member.1, ofDocument member.2)

theorem ofItems_eq_map (ds : List Document) : ofItems ds = ds.map ofDocument := by
  induction ds with
  | nil => rfl
  | cons d ds ih => rw [ofItems, List.map_cons, ih]

theorem ofMembers_eq_foldl (members : List (String × Document)) (entries : Entries) :
    ofMembers members entries = (members.map ofMember).foldl
      (fun entries pair => entries.insertNew pair.1 pair.2) entries := by
  induction members generalizing entries with
  | nil => rfl
  | cons member members ih =>
    obtain ⟨key, d⟩ := member
    rw [ofMembers, List.map_cons, List.foldl_cons, ih]
    rfl

theorem ofDocument_array (ds : List Document) : ofDocument (.array ds) = .list (ds.map ofDocument) := by
  rw [ofDocument, ofItems_eq_map]

/-- An object is read as the map that its members make, of a repeated key the first one. -/
theorem ofDocument_object (members : List (String × Document)) :
    ofDocument (.object members) = ofPairs (members.map ofMember) := by
  rw [ofDocument, ofMembers_eq_foldl]
  rfl

theorem itemNesting_le_iff {vs : List Value} {n : Nat} :
    itemNesting vs ≤ n ↔ ∀ v ∈ vs, v.nesting ≤ n := by
  induction vs with
  | nil => simp [itemNesting]
  | cons v vs ih => rw [itemNesting, Nat.max_le, List.forall_mem_cons, ih]

theorem entryNesting_le_iff {entries : List (String × Value)} {n : Nat} :
    entryNesting entries ≤ n ↔ ∀ entry ∈ entries, entry.2.nesting ≤ n := by
  induction entries with
  | nil => simp [entryNesting]
  | cons entry entries ih =>
    obtain ⟨key, v⟩ := entry
    rw [entryNesting, Nat.max_le, List.forall_mem_cons, ih]

theorem allOrdered_iff {vs : List Value} : AllOrdered vs ↔ ∀ v ∈ vs, v.Ordered := by
  induction vs with
  | nil => exact iff_of_true trivial (by simp)
  | cons v vs ih => rw [AllOrdered, List.forall_mem_cons, ih]

/-- A word is read as a scalar. -/
theorem ofNumber_cases (n : Number) : (∃ i, ofNumber n = .int i) ∨ ∃ x, ofNumber n = .float x := by
  cases n with
  | natural n =>
    rw [ofNumber, ofWord]
    split
    · exact .inl ⟨_, rfl⟩
    · exact .inr ⟨_, rfl⟩
  | negative i => exact .inl ⟨i, rfl⟩
  | double x => exact .inr ⟨x, rfl⟩

mutual

/-- A value that is read has the keys of its maps in order, each once. -/
theorem ordered_ofDocument (d : Document) : (ofDocument d).Ordered := by
  match d with
  | .null | .bool _ | .string _ => trivial
  | .number n =>
    rw [ofDocument]
    rcases ofNumber_cases n with ⟨i, same⟩ | ⟨x, same⟩ <;> rw [same] <;> trivial
  | .array ds =>
    rw [ofDocument_array]
    refine allOrdered_iff.mpr fun v member => ?_
    obtain ⟨d, inside, rfl⟩ := List.mem_map.mp member
    exact ordered_item ds d inside
  | .object members =>
    rw [ofDocument_object]
    refine ordered_ofPairs fun pair member => ?_
    obtain ⟨m, inside, rfl⟩ := List.mem_map.mp member
    exact ordered_member members m inside

theorem ordered_item (ds : List Document) : ∀ d ∈ ds, (ofDocument d).Ordered := by
  match ds with
  | [] => exact fun d member => by cases member
  | d :: ds => exact List.forall_mem_cons.mpr ⟨ordered_ofDocument d, ordered_item ds⟩

theorem ordered_member (members : List (String × Document)) :
    ∀ m ∈ members, (ofDocument m.2).Ordered := by
  match members with
  | [] => exact fun m member => by cases member
  | (key, d) :: members =>
    exact List.forall_mem_cons.mpr ⟨ordered_ofDocument d, ordered_member members⟩

end

mutual

/-- A value that is read is nested no deeper than the document. -/
theorem nesting_ofDocument (d : Document) : (ofDocument d).nesting ≤ d.nesting := by
  match d with
  | .null | .bool _ | .string _ => exact Nat.le_refl 0
  | .number n =>
    rw [ofDocument]
    rcases ofNumber_cases n with ⟨i, same⟩ | ⟨x, same⟩ <;> rw [same] <;> exact Nat.le_refl 0
  | .array ds =>
    rw [ofDocument_array, nesting, Document.nesting]
    refine Nat.succ_le_succ (itemNesting_le_iff.mpr fun v member => ?_)
    obtain ⟨d, inside, rfl⟩ := List.mem_map.mp member
    exact nesting_item ds d inside
  | .object members =>
    rw [ofDocument_object, ofPairs, nesting, Document.nesting]
    refine Nat.succ_le_succ (entryNesting_le_iff.mpr fun entry stored => ?_)
    obtain ⟨m, inside, rfl⟩ := List.mem_map.mp (Entries.mem_ofPairs stored)
    exact nesting_member members m inside

theorem nesting_item (ds : List Document) :
    ∀ d ∈ ds, (ofDocument d).nesting ≤ Document.itemNesting ds := by
  match ds with
  | [] => exact fun d member => by cases member
  | d :: ds =>
    rw [Document.itemNesting]
    exact List.forall_mem_cons.mpr ⟨Nat.le_trans (nesting_ofDocument d) (Nat.le_max_left _ _),
      fun e member => Nat.le_trans (nesting_item ds e member) (Nat.le_max_right _ _)⟩

theorem nesting_member (members : List (String × Document)) :
    ∀ m ∈ members, (ofDocument m.2).nesting ≤ Document.memberNesting members := by
  match members with
  | [] => exact fun m member => by cases member
  | (key, d) :: members =>
    rw [Document.memberNesting]
    exact List.forall_mem_cons.mpr ⟨Nat.le_trans (nesting_ofDocument d) (Nat.le_max_left _ _),
      fun m member => Nat.le_trans (nesting_member members m member) (Nat.le_max_right _ _)⟩

end

theorem eq_ok_of_toOption {ε α : Type} {result : Except ε α} {a : α}
    (given : result.toOption = some a) : result = .ok a := by
  cases result with
  | ok b => exact congrArg Except.ok (Option.some.inj given)
  | error e => cases given

/-- A float that is read back as itself has a spelling, so it is finite. -/
theorem finite_of_readBack {x : Binary64} (readBack : decode (encode (.float x)) = .ok (.float x)) :
    x.isFinite = true := by
  cases finite : x.isFinite with
  | true => rfl
  | false =>
    have unwritten : encode (.float x) = encode .null := by
      rw [encode, toDocument, if_neg (by simp [finite])]
      rfl
    have null : decode (encode .null) = .ok .null := rfl
    rw [unwritten, null] at readBack
    cases readBack

theorem exists_document_of_decode {bytes : List UInt8} {v : Value} (read : decode bytes = .ok v) :
    ∃ d, Document.read bytes = .ok d ∧ ofDocument d = v := by
  rw [decode] at read
  split at read
  next d whole => exact ⟨d, whole, Except.ok.inj read⟩
  next => cases read

theorem ordered_of_decode {bytes : List UInt8} {v : Value} (read : decode bytes = .ok v) : v.Ordered := by
  obtain ⟨d, -, rfl⟩ := exists_document_of_decode read
  exact ordered_ofDocument d

/-- Whatever bytes a value was read from, it is read back from its own bytes, if each of its floats is;
so writing what is read is a normal form, which reading and writing it again does not change. -/
theorem encode_normal_of_decode {bytes : List UInt8} {v : Value} (read : decode bytes = .ok v)
    (readBack : ∀ x ∈ v.floats, decode (encode (.float x)) = .ok (.float x)) :
    decode (encode v) = .ok v ∧ (decode (encode v)).map encode = .ok (encode v) := by
  obtain ⟨d, whole, rfl⟩ := exists_document_of_decode read
  have shallow : (ofDocument d).nesting ≤ 127 :=
    Nat.le_trans (nesting_ofDocument d) (nesting_of_read whole)
  have again : decode (encode (ofDocument d)) = .ok (ofDocument d) :=
    decode_encode_of_finite (ordered_ofDocument d) shallow fun x inside =>
      ⟨finite_of_readBack (readBack x inside), readBack x inside⟩
  exact ⟨again, by rw [again]; rfl⟩

/-- Blanks, an escape, a key that is repeated, keys out of order and a spelling of a float that writing
does not choose. -/
theorem sample_normal :
    decode (Text.utf8 " \x7b\"b\": [1.50, null ],\n\"\\u0061\": -1, \"b\": 2\x7d") =
      .ok (.map [("a", .int (-1)), ("b", .list [.float ⟨0x3FF8000000000000⟩, .null])]) ∧
    decode (encode (.map [("a", .int (-1)), ("b", .list [.float ⟨0x3FF8000000000000⟩, .null])])) =
      .ok (.map [("a", .int (-1)), ("b", .list [.float ⟨0x3FF8000000000000⟩, .null])]) := by
  have read : decode (Text.utf8 " \x7b\"b\": [1.50, null ],\n\"\\u0061\": -1, \"b\": 2\x7d") =
      .ok (.map [("a", .int (-1)), ("b", .list [.float ⟨0x3FF8000000000000⟩, .null])]) :=
    eq_ok_of_toOption (by decide +kernel)
  refine ⟨read, (encode_normal_of_decode read fun x member => ?_).1⟩
  rw [List.mem_singleton.mp member]
  rfl

end Value

end BuildServer
