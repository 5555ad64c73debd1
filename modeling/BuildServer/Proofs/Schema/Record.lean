import BuildServer.Proofs.Schema.Bridge
import BuildServer.Schema.Record

/-! # Records through a value and back

A record comes back if the content of each of its fields does. A field that is left out comes back
where the content it has then is its default. The members are found by their names, which are
different, so that it does not matter in which order the value has them. Each member is held against
the field of its name, and each field takes its content from the member of its name or has its default;
so where every field has a default, an object is refused for one of its members only.
-/

namespace BuildServer

open Json Schema Value

variable {α τ : Type}

/-- A field whose content comes back: what is written is read back, and where the member is omitted the
content is the one that a missing member stands for. -/
def Field.Returns (f : Field α) (a : α) : Prop :=
  if f.omitted a then f.ofMissing = .ok a else f.schema.read (bridge (f.schema.write a)) = .ok a

namespace Field.Returns

variable [Schema α] {name : String}

theorem required {a : α} (returns : Schema.Returns a) : (Field.required name).Returns a := returns

theorem withDefault {a other : α} (returns : Schema.Returns a) :
    (Field.withDefault name other).Returns a := returns

theorem nullable {a? : Option α} (returns : Schema.Returns a?) : (Field.nullable name).Returns a? :=
  returns

theorem optional {a? : Option α} (returns : Schema.Returns a?) :
    (Field.optional name).Returns a? := by
  cases a? with
  | none => rfl
  | some a => exact returns

theorem placed {a? : Option α} (returns : Schema.Returns a?) : (Field.placed name).Returns a? :=
  (optional returns : (Field.optional name).Returns a?)

end Field.Returns

/-- The content of a field, by its member. -/
def Field.content (f : Field α) : Option Document → Except Mismatch α
  | some d => f.schema.read d
  | none => f.ofMissing

/-- The member of a field is found in front of others unless it is omitted, and its content with it. -/
theorem Field.content_bridge {f : Field α} {a : α} (returns : f.Returns a)
    {others : List (String × Document)} (absent : others.lookup f.name = none) :
    f.content (((f.members a ++ others).lookup f.name).map bridge) = .ok a := by
  rw [Field.Returns] at returns
  rw [Field.members]
  split at returns
  next omitted =>
    rw [if_pos omitted, List.nil_append, absent]
    exact returns
  next written =>
    rw [if_neg written, List.singleton_append, List.lookup_cons_self]
    exact returns

theorem Field.lookup_members_of_ne {f : Field α} {key : String} (other : key ≠ f.name) (a : α)
    (others : List (String × Document)) :
    (f.members a ++ others).lookup key = others.lookup key := by
  rw [Field.members]
  split
  · rw [List.nil_append]
  · rw [List.singleton_append, List.lookup_cons, beq_false_of_ne other]

/-- The contents of all fields come back. -/
def Layout.Returns {τ : Type} : Layout τ → τ → Prop
  | .nil, () => True
  | .cons f rest, (a, b) => f.Returns a ∧ rest.Returns b

namespace Layout

theorem assemble_cons {β : Type} (member : String → Option Document) (f : Field α)
    (rest : Layout β) : (Layout.cons f rest).assemble member = (do
      let a ← f.content (member f.name)
      return (a, ← rest.assemble member)) := by
  rw [assemble]
  cases member f.name <;> rfl

/-- Members are written for fields only, in their order. -/
theorem members_sublist (l : Layout τ) (t : τ) :
    ((l.members t).map Prod.fst).Sublist l.names := by
  induction l with
  | nil => exact .slnil
  | cons f rest ih =>
    obtain ⟨a, b⟩ := t
    rw [members, List.map_append, Field.members, names]
    split
    · exact (ih b).cons f.name
    · exact (ih b).cons_cons f.name

/-- The document of every member fits the field of its name when it comes back. -/
theorem check_bridge {l : Layout τ} (distinct : l.names.Nodup) {t : τ} (returns : l.Returns t)
    {key : String} {d : Document} (member : (key, d) ∈ l.members t) :
    l.check key (bridge d) = .ok () := by
  induction l with
  | nil => cases member
  | cons f rest ih =>
    obtain ⟨a, b⟩ := t
    obtain ⟨first, others⟩ := returns
    obtain ⟨absent, distinct⟩ := List.nodup_cons.mp distinct
    rw [check]
    rcases List.mem_append.mp member with own | later
    · rw [Field.members] at own
      split at own
      next => cases own
      next written =>
        obtain ⟨rfl, rfl⟩ := Prod.mk.inj (List.mem_singleton.mp own)
        rw [Field.Returns, if_neg written] at first
        rw [if_pos rfl, first]
        rfl
    · have other : key ≠ f.name := by
        rintro rfl
        apply absent
        exact (members_sublist rest b).subset (List.mem_map.mpr ⟨_, later, rfl⟩)
      rw [if_neg other]
      exact ih distinct others later

/-- The fields are put together from members that come back. -/
theorem assemble_bridge {l : Layout τ} (distinct : l.names.Nodup) {t : τ} (returns : l.Returns t)
    {member : String → Option Document}
    (found : ∀ key ∈ l.names, member key = ((l.members t).lookup key).map bridge) :
    l.assemble member = .ok t := by
  induction l with
  | nil => rfl
  | cons f rest ih =>
    obtain ⟨a, b⟩ := t
    obtain ⟨first, others⟩ := returns
    obtain ⟨absent, distinct⟩ := List.nodup_cons.mp distinct
    have unwritten : (rest.members b).lookup f.name = none := by
      apply lookup_eq_none_of_not_mem
      intro there
      exact absent ((members_sublist rest b).subset there)
    have content : f.content (member f.name) = .ok a := by
      rw [found f.name (.head _)]
      exact Field.content_bridge first unwritten
    have later : ∀ key ∈ rest.names, member key = ((rest.members b).lookup key).map bridge := by
      intro key inside
      have other : key ≠ f.name := by
        rintro rfl
        exact absent inside
      rw [found key (.tail _ inside), members, Field.lookup_members_of_ne other]
    rw [assemble_cons, content, ih distinct others later]
    rfl

end Layout

theorem forM_eq_ok_iff {β ε : Type} {f : β → Except ε Unit} {items : List β} :
    items.forM f = .ok () ↔ ∀ b ∈ items, f b = .ok () := by
  induction items with
  | nil => exact iff_of_true rfl (by simp)
  | cons b items ih =>
    rw [List.forall_mem_cons, ← ih]
    change (do f b; items.forM f) = _ ↔ _
    cases f b with
    | ok => simp [bind, Except.bind]
    | error => simp [bind, Except.bind]

/-- A record comes back if its fields have different names and their contents come back: every member is
looked at by itself, in the order of the value, and then the fields find them by name. -/
theorem Record.returns {r : Record α} (distinct : r.layout.names.Nodup) {a : α}
    (made : r.make (r.contents a) = a) (returns : r.layout.Returns (r.contents a)) :
    @Schema.Returns α r.schema a := by
  have keys : ((r.layout.members (r.contents a)).map Prod.fst).Sublist r.layout.names :=
    r.layout.members_sublist (r.contents a)
  have checked : (memberDocuments (convertMembers (r.layout.members (r.contents a)) [])).forM
      r.checkMember = .ok () := by
    apply forM_eq_ok_iff.mpr
    rintro ⟨key, d⟩ member
    obtain ⟨written, there, rfl⟩ := mem_bridge member
    have named : key ∈ r.layout.names := keys.subset (List.mem_map.mpr ⟨_, there, rfl⟩)
    have allowed : (r.closed && !r.layout.names.contains key) = false := by simp [named]
    rw [Record.checkMember, allowed]
    exact Layout.check_bridge distinct returns there
  have assembled := Layout.assemble_bridge distinct returns
    fun key _ => lookup_bridge (distinct.sublist keys) key
  change r.read (bridge (.object (r.layout.members (r.contents a)))) = .ok a
  rw [bridge_object, Record.read, checked]
  change (do return r.make (← r.layout.assemble _)) = _
  rw [assembled]
  exact congrArg Except.ok made

namespace Layout

/-- The contents that members found by name give to the fields. -/
def Gives {τ : Type} (member : String → Option Document) : Layout τ → τ → Prop
  | .nil, () => True
  | .cons f rest, (a, b) => f.content (member f.name) = .ok a ∧ rest.Gives member b

/-- Some field has the name of a member and can be read from it. -/
def Admits {τ : Type} (key : String) (d : Document) : Layout τ → Prop
  | .nil => False
  | .cons f rest => if key = f.name then ∃ a, f.schema.read d = .ok a else rest.Admits key d

/-- Every field has a default. -/
def Defaulted {τ : Type} : Layout τ → Prop
  | .nil => True
  | .cons f rest => (∃ a, f.ofMissing = .ok a) ∧ rest.Defaulted

theorem assemble_eq_ok_iff {l : Layout τ} {member : String → Option Document} {t : τ} :
    l.assemble member = .ok t ↔ l.Gives member t := by
  induction l with
  | nil => exact iff_of_true rfl trivial
  | cons f rest ih =>
    obtain ⟨a, b⟩ := t
    rw [assemble_cons, Gives, ← ih]
    cases f.content (member f.name) with
    | error => simp [bind, Except.bind]
    | ok => cases rest.assemble member <;> simp [bind, Except.bind, pure, Except.pure]

/-- A member that has the name of a field is admitted if it fits the field. -/
theorem admits_iff {l : Layout τ} {key : String} {d : Document} :
    l.Admits key d ↔ key ∈ l.names ∧ l.check key d = .ok () := by
  induction l with
  | nil => simp [Admits, names]
  | cons f rest ih =>
    rw [Admits, check, names, List.mem_cons]
    by_cases own : key = f.name
    · rw [if_pos own, if_pos own]
      cases f.schema.read d <;> simp [own, Except.map]
    · simp [own, ih]

/-- Fields with defaults get their contents from any members that fit. -/
theorem exists_gives {l : Layout τ} (distinct : l.names.Nodup) (defaulted : l.Defaulted)
    {member : String → Option Document}
    (fits : ∀ key d, member key = some d → key ∈ l.names → l.Admits key d) :
    ∃ t, l.Gives member t := by
  induction l with
  | nil => exact ⟨(), trivial⟩
  | cons f rest ih =>
    obtain ⟨absent, distinct⟩ := List.nodup_cons.mp distinct
    have later : ∀ key d, member key = some d → key ∈ rest.names → rest.Admits key d := by
      intro key d found inside
      have other : key ≠ f.name := by
        rintro rfl
        exact absent inside
      have admitted := fits key d found (.tail _ inside)
      rwa [Admits, if_neg other] at admitted
    have content : ∃ a, f.content (member f.name) = .ok a := by
      cases found : member f.name with
      | none => exact defaulted.1
      | some d =>
        have admitted := fits f.name d found (.head _)
        rwa [Admits, if_pos rfl] at admitted
    obtain ⟨a, given⟩ := content
    obtain ⟨b, others⟩ := ih distinct defaulted.2 later
    exact ⟨(a, b), given, others⟩

end Layout

namespace Record

variable {r : Record α} {members : List (String × Document)}

/-- A closed record allows the members that its fields admit. -/
theorem checkMember_eq_ok_iff (closed : r.closed = true) {key : String} {d : Document} :
    r.checkMember (key, d) = .ok () ↔ r.layout.Admits key d := by
  rw [Layout.admits_iff, checkMember, closed, Bool.true_and]
  by_cases named : key ∈ r.layout.names <;> simp [named]

theorem read_object_eq_ok_iff {a : α} : r.read (.object members) = .ok a ↔
    (∀ member ∈ members, r.checkMember member = .ok ()) ∧
      ∃ t, r.layout.Gives (fun key => members.lookup key) t ∧ r.make t = a := by
  rw [← forM_eq_ok_iff]
  change (do members.forM r.checkMember; return r.make (← r.layout.assemble _)) = _ ↔ _
  cases members.forM r.checkMember with
  | error => simp [bind, Except.bind]
  | ok =>
    simp only [← Layout.assemble_eq_ok_iff, true_and]
    cases r.layout.assemble fun key => members.lookup key <;>
      simp [bind, Except.bind, pure, Except.pure]

/-- The first member that is not allowed is the one that is reported. -/
theorem read_object_of_refused {before after : List (String × Document)} {member : String × Document}
    {m : Mismatch} (allowed : ∀ other ∈ before, r.checkMember other = .ok ())
    (refused : r.checkMember member = .error m) :
    r.read (.object (before ++ member :: after)) = .error m := by
  have stopped : (before ++ member :: after).forM r.checkMember = .error m := by
    induction before with
    | nil =>
      change (do r.checkMember member; after.forM r.checkMember) = _
      rw [refused]
      rfl
    | cons other before ih =>
      obtain ⟨first, allowed⟩ := List.forall_mem_cons.mp allowed
      change (do r.checkMember other; (before ++ member :: after).forM r.checkMember) = _
      rw [first]
      exact ih allowed
  rw [read, stopped]
  rfl

/-- An object is read as a closed record of fields that have defaults if all its members are admitted. -/
theorem exists_read_object_iff (closed : r.closed = true) (distinct : r.layout.names.Nodup)
    (defaulted : r.layout.Defaulted) : (∃ a, r.read (.object members) = .ok a) ↔
      ∀ member ∈ members, r.layout.Admits member.1 member.2 := by
  have checked : (∀ member ∈ members, r.checkMember member = .ok ()) ↔
      ∀ member ∈ members, r.layout.Admits member.1 member.2 :=
    forall₂_congr fun _ _ => checkMember_eq_ok_iff closed
  rw [← checked]
  refine ⟨fun ⟨a, read⟩ => (read_object_eq_ok_iff.mp read).1, fun each => ?_⟩
  obtain ⟨t, given⟩ := Layout.exists_gives distinct defaulted fun key d found _ =>
    checked.mp each (key, d) (mem_of_lookup_eq_some found)
  exact ⟨r.make t, read_object_eq_ok_iff.mpr ⟨each, t, given, rfl⟩⟩

end Record

end BuildServer
