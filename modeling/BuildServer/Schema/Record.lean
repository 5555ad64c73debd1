import BuildServer.Schema.Basic

/-!
# Records

A record is an object with named fields, or a list of its fields in order. A layout is the sequence
of the fields; it reads and writes the tuple of their contents, which each record turns into a
structure of its own.

From an object, the members are examined in the order in which they stand and the first mismatch is
reported; only then are the fields put together, in the order of the layout, so a missing field is
reported after every mismatch of a member. From a list, the fields take items in the order of the
layout; a field whose item is missing needs a default, and no item may be left over.
-/

namespace BuildServer

open Json

/-- What stands in for a field that is missing: nothing, a value where a member of an object is
missing but not where an item of a list is, or a value in either case. -/
inductive Absence (α : Type)
  | required
  | unlessListed (a : α)
  | always (a : α)

/-- A field of a record. -/
structure Field (α : Type) where
  name : String
  schema : Schema α
  absence : Absence α := .required
  omitted : α → Bool := fun _ => false

namespace Field

variable {α : Type}

/-- A field that has to be there. -/
def required (name : String) [schema : Schema α] : Field α := { name, schema }

/-- A field with a default. -/
def withDefault (name : String) (a : α) [schema : Schema α] : Field α :=
  { name, schema, absence := .always a }

/-- An optional field that is left out when it is empty. -/
def optional (name : String) [schema : Schema α] : Field (Option α) :=
  { name, schema := inferInstance, absence := .always none, omitted := Option.isNone }

/-- An optional field that is written as null when it is empty. -/
def nullable (name : String) [schema : Schema α] : Field (Option α) :=
  { name, schema := inferInstance, absence := .unlessListed none }

/-- An optional field that is left out when it is empty but keeps its place in a list. -/
def placed (name : String) [schema : Schema α] : Field (Option α) :=
  { name, schema := inferInstance, absence := .unlessListed none, omitted := Option.isNone }

/-- The content of the field when its member is missing. -/
def ofMissing (f : Field α) : Except Mismatch α :=
  match f.absence with
  | .required => .error (.missingField f.name)
  | .unlessListed a | .always a => .ok a

/-- The member of the field, unless it is omitted. -/
def members (f : Field α) (a : α) : List (String × Document) :=
  if f.omitted a then [] else [(f.name, f.schema.write a)]

end Field

/-- The fields of a record in order, and the tuple of their contents. -/
inductive Layout : Type → Type 1
  | nil : Layout Unit
  | cons {α β : Type} (f : Field α) (rest : Layout β) : Layout (α × β)

namespace Layout

/-- The names of the fields. -/
def names {τ : Type} : Layout τ → List String
  | .nil => []
  | .cons f rest => f.name :: rest.names

/-- Whether a member fits the field of its name; members of other names fit. -/
def check {τ : Type} (key : String) (d : Document) : Layout τ → Except Mismatch Unit
  | .nil => .ok ()
  | .cons f rest => if key = f.name then (f.schema.read d).map fun _ => () else rest.check key d

/-- The fields put together from members found by name. -/
def assemble {τ : Type} (member : String → Option Document) : Layout τ → Except Mismatch τ
  | .nil => .ok ()
  | .cons f rest => do
    let a ← match member f.name with
      | some d => f.schema.read d
      | none => f.ofMissing
    return (a, ← rest.assemble member)

/-- The fields taken from items in order; `tooShort` is the report of a missing item. -/
def take {τ : Type} (tooShort : Mismatch) : Layout τ → List Document →
    Except Mismatch (τ × List Document)
  | .nil, ds => .ok ((), ds)
  | .cons f rest, [] =>
    match f.absence with
    | .always a => do
      let (b, left) ← rest.take tooShort []
      return ((a, b), left)
    | _ => .error tooShort
  | .cons f rest, d :: ds => do
    let a ← f.schema.read d
    let (b, left) ← rest.take tooShort ds
    return ((a, b), left)

/-- The members of the fields, in order. -/
def members {τ : Type} : Layout τ → τ → List (String × Document)
  | .nil, () => []
  | .cons f rest, (a, b) => f.members a ++ rest.members b

end Layout

/-- A record type: its name in reports, its fields, and how their contents make it up. A closed
record refuses members that are no fields. -/
structure Record (α : Type) where
  name : String
  {Contents : Type}
  layout : Layout Contents
  make : Contents → α
  contents : α → Contents
  closed : Bool := false

namespace Record

variable {α : Type}

/-- How the record is named where it was expected. -/
def expectation (r : Record α) : String := "struct " ++ r.name

/-- The length that a list of the fields has, in words. -/
def lengthExpectation (r : Record α) : String :=
  let n := r.layout.names.length
  r.expectation ++ " with " ++ toString n ++ (if n = 1 then " element" else " elements")

/-- Whether a member may stand in the record. -/
def checkMember (r : Record α) (member : String × Document) : Except Mismatch Unit :=
  if r.closed && !r.layout.names.contains member.1 then
    .error (.unknownField member.1 r.layout.names)
  else r.layout.check member.1 member.2

/-- Reads the record from an object or a list. -/
def read (r : Record α) : Document → Except Mismatch α
  | .object members => do
    members.forM r.checkMember
    return r.make (← r.layout.assemble fun key => members.lookup key)
  | .array ds => do
    let (contents, left) ← r.layout.take (.wrongLength ds.length r.lengthExpectation) ds
    if left.isEmpty then return r.make contents
    else .error (.wrongLength ds.length "fewer elements in array")
  | d => Schema.wrongType r.expectation d

/-- Writes the record as an object. -/
def write (r : Record α) (a : α) : Document := .object (r.layout.members (r.contents a))

/-- The schema of the record type. -/
@[reducible] def schema (r : Record α) : Schema α := ⟨r.read, r.write⟩

end Record

end BuildServer
