import BuildServer.Proofs.Value.Reading
import BuildServer.Schema.Basic
import BuildServer.Value.Datum

/-! # Ways of conversion agree

A value has a document of its own and another one that comes from what it reports of itself form by
form. A document has a meaning as it is met, and another one as it is taken over once it is finished;
these differ in which member of a repeated key they keep, so on a document in which no key is repeated
they agree. The document of a value repeats no key, since its maps have each key once.
-/

namespace BuildServer

open Json

namespace Json.Document

mutual

/-- No object repeats a key, at any level. -/
def Unrepeated : Document → Prop
  | .array items => ItemsUnrepeated items
  | .object members => (members.map Prod.fst).Nodup ∧ MembersUnrepeated members
  | _ => True

/-- No object in the items of an array repeats a key. -/
def ItemsUnrepeated : List Document → Prop
  | [] => True
  | d :: ds => d.Unrepeated ∧ ItemsUnrepeated ds

/-- No object in the members of an object repeats a key. -/
def MembersUnrepeated : List (String × Document) → Prop
  | [] => True
  | (_, d) :: members => d.Unrepeated ∧ MembersUnrepeated members

end

end Json.Document

namespace Entries

/-- Keys that ascend are different. -/
theorem Sorted.nodup {entries : Entries} (sorted : entries.Sorted) :
    (entries.map Prod.fst).Nodup :=
  List.pairwise_map.mpr (sorted.imp String.ne_of_lt)

/-- Under a new key it makes no difference whether what is there would be kept. -/
theorem put_of_absent {key : String} {entries : Entries} (absent : ∀ entry ∈ entries, entry.1 ≠ key)
    (v : Value) (keep keep' : Bool) : put keep key v entries = put keep' key v entries := by
  induction entries with
  | nil => rfl
  | cons entry entries ih =>
    obtain ⟨other, absent⟩ := List.forall_mem_cons.mp absent
    rw [put, put, ih absent, if_neg other.symm, if_neg other.symm]

end Entries

namespace Value

/-- A number of a finished document is the value that it is as it is met. -/
theorem convert_number (n : Number) : convert (.number n) = ofNumber n := by
  cases n with
  | natural n =>
    rw [convert, signed?, ofNumber, ofWord]
    by_cases signed : n.toNat ≤ greatestSigned
    · rw [if_pos signed, if_pos signed]
    · rw [if_neg signed, if_neg signed]
      rfl
  | negative | double => rfl

mutual

/-- Where no key is repeated, a document is taken over as it is met. -/
theorem convert_eq_ofDocument (d : Document) (unrepeated : d.Unrepeated) :
    convert d = ofDocument d := by
  match d with
  | .null | .bool _ | .string _ => rfl
  | .number n => exact convert_number n
  | .array ds => rw [convert, ofDocument, convertItems_eq_ofItems ds unrepeated]
  | .object members =>
    rw [convert, ofDocument, convertMembers_eq_ofMembers members unrepeated.2 unrepeated.1
      fun _ _ entry stored => by cases stored]

theorem convertItems_eq_ofItems (ds : List Document) (unrepeated : Document.ItemsUnrepeated ds) :
    convertItems ds = ofItems ds := by
  match ds with
  | [] => rfl
  | d :: ds =>
    rw [convertItems, ofItems, convert_eq_ofDocument d unrepeated.1,
      convertItems_eq_ofItems ds unrepeated.2]

/-- Members whose keys are new to the entries, and different from each other, are stored alike. -/
theorem convertMembers_eq_ofMembers (members : List (String × Document))
    (unrepeated : Document.MembersUnrepeated members) (distinct : (members.map Prod.fst).Nodup)
    {entries : Entries} (new : ∀ m ∈ members, ∀ entry ∈ entries, entry.1 ≠ m.1) :
    convertMembers members entries = ofMembers members entries := by
  match members with
  | [] => rfl
  | (key, d) :: members =>
    obtain ⟨absent, distinct⟩ := List.nodup_cons.mp distinct
    obtain ⟨first, others⟩ := List.forall_mem_cons.mp new
    rw [convertMembers, ofMembers, convert_eq_ofDocument d unrepeated.1, Entries.insert,
      Entries.insertNew, Entries.put_of_absent first _ false true]
    refine convertMembers_eq_ofMembers members unrepeated.2 distinct fun m member entry stored => ?_
    rcases Entries.mem_put stored with before | rfl
    · exact others m member entry before
    · rintro rfl
      exact absent (List.mem_map.mpr ⟨m, member, rfl⟩)

end

theorem map_fst_memberDocuments (entries : List (String × Value)) :
    (memberDocuments entries).map Prod.fst = entries.map Prod.fst := by
  induction entries with
  | nil => rfl
  | cons entry entries ih =>
    obtain ⟨key, v⟩ := entry
    rw [memberDocuments, List.map_cons, ih, List.map_cons]

mutual

/-- The document of a value repeats no key. -/
theorem unrepeated_toDocument (v : Value) (ordered : v.Ordered) : v.toDocument.Unrepeated := by
  match v with
  | .null | .bool _ | .string _ | .int _ => trivial
  | .float x =>
    rw [toDocument]
    split <;> trivial
  | .list items => exact unrepeated_items items ordered
  | .map entries =>
    refine ⟨?_, unrepeated_entries entries ordered.2⟩
    rw [map_fst_memberDocuments]
    exact ordered.1.nodup

theorem unrepeated_items (vs : List Value) (ordered : AllOrdered vs) :
    Document.ItemsUnrepeated (itemDocuments vs) := by
  match vs with
  | [] => trivial
  | v :: vs => exact ⟨unrepeated_toDocument v ordered.1, unrepeated_items vs ordered.2⟩

theorem unrepeated_entries (entries : List (String × Value)) (ordered : EntriesOrdered entries) :
    Document.MembersUnrepeated (memberDocuments entries) := by
  match entries with
  | [] => trivial
  | (key, v) :: entries =>
    exact ⟨unrepeated_toDocument v ordered.1, unrepeated_entries entries ordered.2⟩

end

/-- The document of a value is taken over as the value with null in place of every float that is not
finite. -/
theorem convert_toDocument (v : Value) (ordered : v.Ordered) : convert v.toDocument = v.finiteOnly := by
  rw [convert_eq_ofDocument _ (unrepeated_toDocument v ordered), ofDocument_toDocument v ordered]

mutual

/-- What a value reports of itself has the document of the value. -/
theorem document_datum (v : Value) : v.datum.document = .ok v.toDocument := by
  match v with
  | .null | .bool _ | .string _ | .int _ | .float _ => rfl
  | .list items =>
    rw [datum, Datum.document, documents_itemData items]
    rfl
  | .map entries =>
    rw [datum, Datum.document, members_entryData entries]
    rfl

theorem documents_itemData (vs : List Value) :
    Datum.documents (itemData vs) = .ok (itemDocuments vs) := by
  match vs with
  | [] => rfl
  | v :: vs =>
    rw [itemData, Datum.documents, document_datum v, documents_itemData vs]
    rfl

theorem members_entryData (entries : List (String × Value)) :
    Datum.members (entryData entries) = .ok (memberDocuments entries) := by
  match entries with
  | [] => rfl
  | (key, v) :: entries =>
    rw [entryData, Datum.members, document_datum v, members_entryData entries]
    rfl

end

/-- Through its document and back, from what it reports of itself, and as typed data of its own, every
value comes to the same: the value with null in place of every float that is not finite. And every
document in which no key is repeated is taken over as the value that it is read as. -/
theorem conversions_agree :
    (∀ v : OrderedValue,
      convert v.value.toDocument = v.value.finiteOnly ∧ ofDatum v.value.datum = .ok v.value.finiteOnly ∧
        ofTyped v.value = v.value.finiteOnly ∧
        (v.value.toTyped : Except CodecError Value) = .ok v.value.finiteOnly) ∧
      ∀ d : Document, d.Unrepeated → (Schema.read d : Except Mismatch Value) = .ok (convert d) := by
  constructor
  · rintro ⟨v, ordered⟩
    have converted := convert_toDocument v ordered
    refine ⟨converted, ?_, converted, ?_⟩
    · rw [ofDatum, document_datum]
      exact congrArg Except.ok converted
    · exact congrArg Except.ok (ofDocument_toDocument v ordered)
  · intro d unrepeated
    exact congrArg Except.ok (convert_eq_ofDocument d unrepeated).symm

/-- The least integer beside a float that is not finite. -/
def sampleMixture : OrderedValue where
  value := .map [("a", .list [.float ⟨0x7FF8000000000000⟩, .int (-9223372036854775808)]),
    ("b", .float ⟨0x3FF8000000000000⟩)]
  ordered := ⟨List.pairwise_pair.mpr (by decide), ⟨trivial, trivial, trivial⟩, trivial, trivial⟩

/-- Two keys that stand out of order, with the greatest word under the first of them. -/
def sampleObject : Document :=
  .object [("z", .number (.natural 18446744073709551615)), ("a", .array [.null])]

theorem sample_conversions_agree :
    ofDatum sampleMixture.value.datum = .ok (.map [("a", .list [.null, .int (-9223372036854775808)]),
      ("b", .float ⟨0x3FF8000000000000⟩)]) ∧
    sampleObject.Unrepeated ∧ (Schema.read sampleObject : Except Mismatch Value) =
      .ok (.map [("a", .list [.null]), ("z", .float ⟨0x43F0000000000000⟩)]) := by
  have unrepeated : sampleObject.Unrepeated := ⟨by decide, trivial, ⟨trivial, trivial⟩, trivial⟩
  refine ⟨(conversions_agree.1 sampleMixture).2.1, unrepeated, ?_⟩
  refine (conversions_agree.2 _ unrepeated).trans (congrArg Except.ok ?_)
  decide +kernel

end Value

end BuildServer
