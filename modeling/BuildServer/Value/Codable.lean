import BuildServer.Value.Equality

/-!
# Types carried by values

A codable type is written as a value and read back from one. Reading never explains itself: a value
of another form reads as nothing. Records read from the entries of a map; scalars, lists and
optionals read from the value itself. An optional is null when it is empty, and null reads as the
empty optional before the type inside is asked.
-/

namespace BuildServer

/-- A type that values carry. Unless it says otherwise it is read from maps alone. -/
class Codable (α : Type) where
  ofEntries? : Entries → Option α
  toValue : α → Value
  ofValue? : Value → Option α := fun v => v.map?.bind ofEntries?

namespace Codable

variable {α : Type}

/-- The field under a key, which has to be there. -/
def requiredField [Codable α] (entries : Entries) (key : String) : Option α :=
  (entries.get? key).bind ofValue?

/-- The field under a key, which may be missing or null; a field of the wrong form is neither. -/
def optionalField [Codable α] (entries : Entries) (key : String) : Option (Option α) :=
  match entries.get? key with
  | none | some .null => some none
  | some v => (ofValue? v).map some

instance : Codable Value where
  ofEntries? entries := some (.map entries)
  toValue v := v
  ofValue? v := some v

instance : Codable String where
  ofEntries? _ := none
  toValue := .string
  ofValue? := Value.string?

instance : Codable Int64 where
  ofEntries? _ := none
  toValue := .int
  ofValue? := Value.int?

instance : Codable Bool where
  ofEntries? _ := none
  toValue := .bool
  ofValue? := Value.bool?

instance : Codable Binary64 where
  ofEntries? _ := none
  toValue := .float
  ofValue? := Value.float?

instance [Codable α] : Codable (Option α) where
  ofEntries? entries := (ofEntries? entries).map some
  toValue := fun
    | none => .null
    | some a => toValue a
  ofValue? v := if v.isNull then some none else (ofValue? v).map some

/-- One item that does not convert fails the list. -/
instance [Codable α] : Codable (List α) where
  ofEntries? _ := none
  toValue items := .list (items.map toValue)
  ofValue? v := v.list?.bind fun items => items.mapM ofValue?

end Codable

/-- A codable type by itself, for where types are chosen by name. -/
structure CodableType where
  Carrier : Type
  [codable : Codable Carrier]

namespace CodableType

/-- The type of optionals. -/
def option (t : CodableType) : CodableType :=
  have := t.codable
  ⟨Option t.Carrier⟩

/-- The type of lists. -/
def list (t : CodableType) : CodableType :=
  have := t.codable
  ⟨List t.Carrier⟩

/-- A value read as the type and written again. -/
def recode (t : CodableType) (v : Value) : Option Value :=
  (t.codable.ofValue? v).map t.codable.toValue

/-- Entries read as the type and written again. -/
def recodeEntries (t : CodableType) (entries : Entries) : Option Value :=
  (t.codable.ofEntries? entries).map t.codable.toValue

/-- A required field read as the type and written again. -/
def recodeRequired (t : CodableType) (entries : Entries) (key : String) : Option Value :=
  have := t.codable
  (Codable.requiredField entries key : Option t.Carrier).map t.codable.toValue

/-- An optional field read as the type and written again. -/
def recodeOptional (t : CodableType) (entries : Entries) (key : String) : Option (Option Value) :=
  have := t.codable
  (Codable.optionalField entries key : Option (Option t.Carrier)).map (·.map t.codable.toValue)

end CodableType

end BuildServer
