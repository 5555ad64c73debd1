import BuildServer.Proofs.Pairs
import BuildServer.Proofs.Value.Agreement
import BuildServer.Uri

/-! # Typed data through a value and back

Typed data becomes a value through a document, and comes back through the document of that value. On
the way the members of an object are put in the order of their keys, and a value that is a part of the
data comes back as it was if its floats are finite. What is optional must not be written as null,
which would be taken for its absence.
-/

namespace BuildServer

open Json

namespace Value

/-- A part of typed data that comes back as it was, also where it is optional. -/
structure Portable (v : Value) : Prop where
  ordered : v.Ordered
  finite : ∀ x ∈ v.floats, x.isFinite = true
  present : v ≠ .null

theorem convertItems_eq_map (ds : List Document) : convertItems ds = ds.map convert := by
  induction ds with
  | nil => rfl
  | cons d ds ih => rw [convertItems, ih, List.map_cons]

theorem itemDocuments_eq_map (vs : List Value) : itemDocuments vs = vs.map toDocument := by
  induction vs with
  | nil => rfl
  | cons v vs ih => rw [itemDocuments, ih, List.map_cons]

theorem memberDocuments_eq_map (entries : Entries) :
    memberDocuments entries = entries.map fun entry => (entry.1, entry.2.toDocument) := by
  induction entries with
  | nil => rfl
  | cons entry entries ih => rw [memberDocuments, ih, List.map_cons]

theorem lookup_memberDocuments (entries : Entries) (key : String) :
    (memberDocuments entries).lookup key = (entries.get? key).map toDocument := by
  induction entries with
  | nil => rfl
  | cons entry entries ih =>
    obtain ⟨other, v⟩ := entry
    rw [memberDocuments, Entries.get?, List.lookup_cons, List.lookup_cons]
    split
    · rfl
    · exact ih

theorem mem_memberDocuments {entries : Entries} {key : String} {d : Document}
    (member : (key, d) ∈ memberDocuments entries) : ∃ v, (key, v) ∈ entries ∧ d = v.toDocument := by
  rw [memberDocuments_eq_map] at member
  obtain ⟨entry, inside, same⟩ := List.mem_map.mp member
  obtain ⟨rfl, rfl⟩ := Prod.mk.inj same
  exact ⟨entry.2, inside, rfl⟩

/-- The entries of an object are those stored before and those of its members. -/
theorem mem_convertMembers {members : List (String × Document)} {entries : Entries} {key : String}
    {v : Value} (member : (key, v) ∈ convertMembers members entries) :
    (key, v) ∈ entries ∨ ∃ d, (key, d) ∈ members ∧ v = convert d := by
  induction members generalizing entries with
  | nil => exact .inl member
  | cons first members ih =>
    obtain ⟨name, d⟩ := first
    rcases ih member with stored | ⟨d', later, same⟩
    · rcases Entries.mem_put stored with before | now
      · exact .inl before
      · obtain ⟨rfl, rfl⟩ := Prod.mk.inj now
        exact .inr ⟨d, .head _, rfl⟩
    · exact .inr ⟨d', .tail _ later, same⟩

/-- Where no key is repeated, the member of a key is what is stored under it. -/
theorem get?_convertMembers {members : List (String × Document)} {entries : Entries}
    (distinct : (members.map Prod.fst).Nodup) (key : String) :
    (convertMembers members entries).get? key =
      ((members.lookup key).map convert).or (entries.get? key) := by
  induction members generalizing entries with
  | nil => rfl
  | cons first members ih =>
    obtain ⟨name, d⟩ := first
    obtain ⟨absent, others⟩ := List.nodup_cons.mp distinct
    rw [convertMembers, ih others]
    by_cases same : key = name
    · subst same
      rw [lookup_eq_none_of_not_mem absent, List.lookup_cons_self, Entries.get?_insert_self]
      rfl
    · rw [Entries.insert, Entries.get?_put_of_ne same, List.lookup_cons, beq_false_of_ne same]

/-- Members in the order of their keys are taken over as they stand, behind entries with lower keys. -/
theorem convertMembers_of_ascending {members : List (String × Document)} {entries : Entries}
    (ascending : (members.map Prod.fst).Pairwise (· < ·))
    (beyond : ∀ entry ∈ entries, ∀ member ∈ members, entry.1 < member.1) :
    convertMembers members entries =
      entries ++ members.map fun member => (member.1, convert member.2) := by
  induction members generalizing entries with
  | nil => rw [convertMembers, List.map_nil, List.append_nil]
  | cons first members ih =>
    obtain ⟨name, d⟩ := first
    obtain ⟨above, ascending⟩ := List.pairwise_cons.mp ascending
    have last : entries.insert name (convert d) = entries ++ [(name, convert d)] :=
      Entries.put_last (fun entry stored => beyond entry stored (name, d) (.head _)) _ _
    rw [convertMembers, last, ih ascending, List.append_assoc]
    · rfl
    · intro entry stored member later
      rcases List.mem_append.mp stored with before | now
      · exact beyond entry before member (.tail _ later)
      · obtain rfl := List.mem_singleton.mp now
        exact above member.1 (List.mem_map_of_mem later)

/-- A portable value is taken over from its document as it was. -/
theorem Portable.convert_toDocument {v : Value} (portable : v.Portable) : convert v.toDocument = v := by
  rw [Value.convert_toDocument v portable.ordered, finiteOnly_eq_self v portable.finite]

/-- The entries of an object have their keys in order, whatever the members. -/
theorem sorted_convertMembers (members : List (String × Document)) {entries : Entries}
    (sorted : entries.Sorted) : (convertMembers members entries).Sorted := by
  induction members generalizing entries with
  | nil => exact sorted
  | cons member members ih => exact ih sorted.put

theorem itemFloats_eq_nil_iff {vs : List Value} : itemFloats vs = [] ↔ ∀ v ∈ vs, v.floats = [] := by
  induction vs with
  | nil => simp [itemFloats]
  | cons v vs ih => rw [itemFloats, List.append_eq_nil_iff, List.forall_mem_cons, ih]

theorem entryFloats_eq_nil_iff {entries : List (String × Value)} :
    entryFloats entries = [] ↔ ∀ entry ∈ entries, entry.2.floats = [] := by
  induction entries with
  | nil => simp [entryFloats]
  | cons entry entries ih =>
    obtain ⟨key, v⟩ := entry
    rw [entryFloats, List.append_eq_nil_iff, List.forall_mem_cons, ih]

mutual

/-- The value of a document has its maps in order, and there is no float in it if all numbers of the
document are signed words. -/
theorem integral_convert (d : Document) (signed : ∀ n ∈ d.numbers, (signed? n).isSome = true) :
    (convert d).Ordered ∧ (convert d).floats = [] := by
  match d with
  | .null | .bool _ | .string _ => exact ⟨trivial, rfl⟩
  | .number n =>
    obtain ⟨i, given⟩ := Option.isSome_iff_exists.mp (signed n (.head _))
    rw [convert, given]
    exact ⟨trivial, rfl⟩
  | .array ds =>
    have each := integral_items ds signed
    rw [convert, convertItems_eq_map]
    exact ⟨allOrdered_iff.mpr (List.forall_mem_map.mpr fun d inside => (each d inside).1),
      itemFloats_eq_nil_iff.mpr (List.forall_mem_map.mpr fun d inside => (each d inside).2)⟩
  | .object members =>
    have each : ∀ entry ∈ convertMembers members [], entry.2.Ordered ∧ entry.2.floats = [] := by
      rintro ⟨key, v⟩ stored
      rcases mem_convertMembers stored with before | ⟨d, inside, rfl⟩
      · cases before
      · exact integral_members members signed (key, d) inside
    exact ⟨⟨sorted_convertMembers members .nil,
      entriesOrdered_iff.mpr fun entry stored => (each entry stored).1⟩,
      entryFloats_eq_nil_iff.mpr fun entry stored => (each entry stored).2⟩

theorem integral_items (ds : List Document)
    (signed : ∀ n ∈ Document.itemNumbers ds, (signed? n).isSome = true) :
    ∀ d ∈ ds, (convert d).Ordered ∧ (convert d).floats = [] := by
  match ds with
  | [] => exact fun d member => by cases member
  | d :: ds =>
    obtain ⟨first, others⟩ := List.forall_mem_append.mp signed
    exact List.forall_mem_cons.mpr ⟨integral_convert d first, integral_items ds others⟩

theorem integral_members (members : List (String × Document))
    (signed : ∀ n ∈ Document.memberNumbers members, (signed? n).isSome = true) :
    ∀ m ∈ members, (convert m.2).Ordered ∧ (convert m.2).floats = [] := by
  match members with
  | [] => exact fun m member => by cases member
  | (key, d) :: members =>
    obtain ⟨first, others⟩ := List.forall_mem_append.mp signed
    exact List.forall_mem_cons.mpr ⟨integral_convert d first, integral_members members others⟩

end

/-- A value carries typed data if the data is read from its document. -/
theorem toTyped_eq_ok_iff {α : Type} [Schema α] {v : Value} {a : α} :
    v.toTyped = .ok a ↔ Schema.read v.toDocument = .ok a := by
  rw [toTyped]
  cases (Schema.read v.toDocument : Except Mismatch α) with
  | error => exact iff_of_false (by rintro ⟨⟩) (by rintro ⟨⟩)
  | ok b =>
    exact ⟨fun same => congrArg Except.ok (Except.ok.inj same),
      fun same => congrArg Except.ok (Except.ok.inj same)⟩

end Value

namespace Schema

open Value

variable {α : Type}

/-- The document of the value that a document makes. -/
def bridge (d : Document) : Document := (convert d).toDocument

theorem bridge_array (ds : List Document) : bridge (.array ds) = .array (ds.map bridge) := by
  rw [bridge, convert, toDocument, convertItems_eq_map, itemDocuments_eq_map, List.map_map]
  rfl

/-- The members of an object that is taken over from another one in which no key is repeated. -/
theorem bridge_object (members : List (String × Document)) :
    bridge (.object members) = .object (memberDocuments (convertMembers members [])) := rfl

/-- Members in the order of their keys stay where they are. -/
theorem bridge_object_of_ascending {members : List (String × Document)}
    (ascending : (members.map Prod.fst).Pairwise (· < ·)) :
    bridge (.object members) = .object (members.map fun member => (member.1, bridge member.2)) := by
  rw [bridge_object, convertMembers_of_ascending ascending (by simp), List.nil_append,
    memberDocuments_eq_map, List.map_map]
  rfl

theorem lookup_bridge {members : List (String × Document)}
    (distinct : (members.map Prod.fst).Nodup) (key : String) :
    (memberDocuments (convertMembers members [])).lookup key = (members.lookup key).map bridge := by
  rw [lookup_memberDocuments, get?_convertMembers distinct]
  cases members.lookup key <;> rfl

theorem mem_bridge {members : List (String × Document)} {key : String} {d : Document}
    (member : (key, d) ∈ memberDocuments (convertMembers members [])) :
    ∃ written, (key, written) ∈ members ∧ d = bridge written := by
  obtain ⟨v, stored, rfl⟩ := mem_memberDocuments member
  rcases mem_convertMembers stored with nothing | ⟨written, there, rfl⟩
  · cases nothing
  · exact ⟨written, there, rfl⟩

/-- Typed data that is read back from the document of the value that carries it. -/
def Returns [Schema α] (a : α) : Prop := read (bridge (write a)) = .ok a

theorem Returns.toTyped [Schema α] {a : α} (returns : Returns a) :
    (Value.ofTyped a).toTyped = .ok a :=
  Value.toTyped_eq_ok_iff.mpr returns

theorem returns_string (s : String) : Returns s := rfl

theorem returns_bool (b : Bool) : Returns b := rfl

theorem returns_value {v : Value} (portable : v.Portable) : Returns v := by
  change Except.ok (ofDocument (convert v.toDocument).toDocument) = _
  rw [portable.convert_toDocument, ofDocument_toDocument v portable.ordered,
    finiteOnly_eq_self v portable.finite]

theorem ofText_text (u : Uri) : Uri.ofText u.text = .ok u := by
  rw [Uri.ofText]
  split
  · rfl
  next refused =>
    rw [u.wellFormed] at refused
    cases refused

theorem returns_uri (u : Uri) : Returns u := by
  change (Uri.ofText u.text).mapError _ = _
  rw [ofText_text]
  rfl

/-- An integer of a signed word is written as the word is. -/
theorem writeInteger_eq_toDocument {i : Int} (lower : -0x8000000000000000 ≤ i)
    (upper : i < 0x8000000000000000) : writeInteger i = (Value.int (Int64.ofInt i)).toDocument := by
  rw [writeInteger, toDocument, numberOfInt, Int64.toInt_ofInt_of_le lower upper]

/-- An integer of a signed word is taken over as it is. -/
theorem bridge_writeInteger {i : Int} (lower : -0x8000000000000000 ≤ i)
    (upper : i < 0x8000000000000000) :
    bridge (writeInteger i) = writeInteger i := by
  rw [writeInteger_eq_toDocument lower upper, toDocument, bridge, convert_number,
    ofNumber_numberOfInt, toDocument]

/-- The integer of a signed word is read if it is in the stated range. -/
theorem readInteger_int (expected : String) (fits : Int → Bool) (i : Int64) :
    readInteger expected fits (Value.int i).toDocument =
      if fits i.toInt then .ok i.toInt else .error (.wrongValue (.integer i.toInt) expected) := by
  have upper := i.toInt_lt
  rw [toDocument, numberOfInt]
  by_cases negative : i.toInt < 0
  · rw [if_pos negative, readInteger]
  · have same : ((UInt64.ofNat i.toInt.toNat).toNat : Int) = i.toInt := by
      rw [UInt64.toNat_ofNat_of_lt' (show i.toInt.toNat < 2 ^ 64 by omega)]
      omega
    rw [if_neg negative, readInteger]
    simp only [same]

/-- An integer in the stated range is read back. -/
theorem readInteger_writeInteger {i : Int} (lower : -0x8000000000000000 ≤ i)
    (upper : i < 0x8000000000000000)
    (expected : String) {fits : Int → Bool} (within : fits i = true) :
    readInteger expected fits (writeInteger i) = .ok i := by
  rw [writeInteger_eq_toDocument lower upper, readInteger_int,
    Int64.toInt_ofInt_of_le lower upper, if_pos within]

theorem returns_byte (n : UInt8) : Returns n := by
  have small : n.toNat < 2 ^ 8 := n.toNat_lt
  have lower : -0x8000000000000000 ≤ (n.toNat : Int) := by omega
  have upper : (n.toNat : Int) < 0x8000000000000000 := by omega
  change (do return UInt8.ofNat (← readInteger "u8" _ (bridge (writeInteger n.toNat))).toNat) = _
  rw [bridge_writeInteger lower upper, readInteger_writeInteger lower upper]
  · exact congrArg Except.ok (UInt8.ofNat_toNat)
  · exact decide_eq_true (by omega)

theorem returns_int32 (i : Int32) : Returns i := by
  have least := i.le_toInt
  have most := i.toInt_lt
  have lower : -0x8000000000000000 ≤ i.toInt := by omega
  have upper : i.toInt < 0x8000000000000000 := by omega
  change (do return Int32.ofInt (← readInteger "i32" _ (bridge (writeInteger i.toInt)))) = _
  rw [bridge_writeInteger lower upper, readInteger_writeInteger lower upper]
  · exact congrArg Except.ok (Int32.ofInt_toInt i)
  · exact decide_eq_true (by omega)

/-- A numbered element is read back if its number stands for it. -/
theorem returns_coded [Coded α] {a : α} (known : Coded.ofCode? (Coded.code a) = some a) :
    @Returns α Coded.schema a := by
  have code : read (bridge (write (Coded.code a))) = .ok (Coded.code a) :=
    returns_byte (Coded.code a)
  change (do (Coded.ofCode (← read (bridge (write (Coded.code a))))).mapError _) = _
  rw [code]
  change (Coded.ofCode (Coded.code a)).mapError _ = _
  rw [Coded.ofCode, known]
  rfl

theorem readItems_bridge [Schema α] {items : List α} (returns : ∀ a ∈ items, Returns a) :
    readItems (items.map fun a => bridge (write a)) = .ok items := by
  induction items with
  | nil => rfl
  | cons a items ih =>
    obtain ⟨first, others⟩ := List.forall_mem_cons.mp returns
    have same : read (bridge (write a)) = .ok a := first
    rw [List.map_cons, readItems, same, ih others]
    rfl

theorem returns_list [Schema α] {items : List α} (returns : ∀ a ∈ items, Returns a) :
    Returns items := by
  change read (bridge (.array (items.map write))) = _
  rw [bridge_array, List.map_map]
  exact readItems_bridge returns

/-- Absence is read from null alone. -/
theorem read_eq_none_iff [Schema α] {d : Document} : read d = .ok (none : Option α) ↔ d = .null := by
  cases d with
  | null => exact iff_of_true rfl rfl
  | _ =>
    change (read _).map some = _ ↔ _
    cases (read _ : Except Mismatch α) <;> simp [Except.map]

/-- What is optional is read from anything but null. -/
theorem read_eq_some_iff [Schema α] {d : Document} {a : α} :
    read d = .ok (some a) ↔ d ≠ .null ∧ read d = .ok a := by
  cases d with
  | null => simp [read]
  | _ =>
    change (read _).map some = _ ↔ _
    cases (read _ : Except Mismatch α) <;> simp [Except.map]

theorem returns_none [Schema α] : Returns (none : Option α) := rfl

/-- Something that is not read from null is read back where it is optional. -/
theorem returns_some [Schema α] {a : α} (returns : Returns a)
    (present : (read .null : Except Mismatch α) ≠ .ok a) : Returns (some a) := by
  have same : read (bridge (write a)) = .ok a := returns
  change read (bridge (write a)) = .ok (some a)
  generalize bridge (write a) = d at same
  cases d with
  | null => exact absurd same present
  | bool | number | string | array | object =>
    change (read _).map some = _
    rw [same]
    rfl

end Schema

end BuildServer
