import BuildServer.Value.Codable

/-! # Reading what was written, type by type

A shape says how a type is built from texts, integers, booleans, floats and values by lists and
optionals. At every shape a conversion takes nothing that it would not write itself, and what it
writes it takes back, save that an optional which holds something written as null comes back empty:
null cannot say how many optionals are around it. That can only be where an optional is put directly
around a value or another optional.
-/

namespace BuildServer

/-- How a type is built from scalars and values. -/
inductive Shape
  | string
  | int
  | bool
  | float
  | value
  | list (item : Shape)
  | option (content : Shape)
  deriving DecidableEq

namespace Shape

/-- The type of a shape, with the conversion that comes from its parts. -/
def type : Shape → CodableType
  | .string => ⟨String⟩
  | .int => ⟨Int64⟩
  | .bool => ⟨Bool⟩
  | .float => ⟨Binary64⟩
  | .value => ⟨Value⟩
  | .list item => item.type.list
  | .option content => content.type.option

/-- What a shape carries. -/
abbrev Carrier (s : Shape) : Type := s.type.Carrier

instance (s : Shape) : Codable s.Carrier := s.type.codable

open Codable

/-- What is left of something once it is written: an optional around what is written as null is
empty. -/
def settle : (s : Shape) → s.Carrier → s.Carrier
  | .list item, items => List.map item.settle items
  | .option _, none => none
  | .option content, some x => if (toValue x).isNull then none else some (content.settle x)
  | .string, x | .int, x | .bool, x | .float, x | .value, x => x

/-- No optional is put directly around a value or another optional. -/
def Plain : Shape → Prop
  | .list item => item.Plain
  | .option .value | .option (.option _) => False
  | .option content => content.Plain
  | .string | .int | .bool | .float | .value => True

/-- Items that convert one by one. -/
theorem mapM_eq_some_of_map {α β : Type} {read : α → Option β} {write : β → α}
    {items : List α} {xs : List β} (each : ∀ v x, read v = some x → write x = v)
    (converted : items.mapM read = some xs) : xs.map write = items := by
  induction items generalizing xs with
  | nil =>
    obtain rfl := Option.some.inj converted
    rfl
  | cons v items ih =>
    rw [List.mapM_cons] at converted
    obtain ⟨x, first, converted⟩ := Option.bind_eq_some_iff.mp converted
    obtain ⟨others, rest, whole⟩ := Option.bind_eq_some_iff.mp converted
    obtain rfl := Option.some.inj whole
    rw [List.map_cons, each v x first, ih rest]

/-- A conversion takes only what it would write. -/
theorem toValue_of_ofValue? (s : Shape) {v : Value} {x : s.Carrier} (read : ofValue? v = some x) :
    toValue x = v := by
  induction s generalizing v with
  | string | int | bool | float =>
    cases v <;> cases read
    rfl
  | value =>
    obtain rfl := Option.some.inj read
    rfl
  | list item ih =>
    obtain ⟨items, listed, converted⟩ := Option.bind_eq_some_iff.mp read
    obtain rfl : v = .list items := by
      cases v <;> cases listed
      rfl
    exact congrArg Value.list (mapM_eq_some_of_map (fun _ _ => ih) converted)
  | option content ih =>
    cases v with
    | null =>
      obtain rfl := Option.some.inj read
      rfl
    | int | bool | float | string | list | map =>
      obtain ⟨y, inside, rfl⟩ := Option.map_eq_some_iff.mp read
      exact ih inside

/-- What is written converts to what is left of it. -/
theorem ofValue?_toValue (s : Shape) (x : s.Carrier) : ofValue? (toValue x) = some (s.settle x) := by
  induction s with
  | string | int | bool | float | value => rfl
  | list item ih =>
    change (x.map toValue).mapM ofValue? = some (x.map item.settle)
    induction x with
    | nil => rfl
    | cons y ys others => rw [List.map_cons, List.mapM_cons, ih y, others]; rfl
  | option content ih =>
    cases x with
    | none => rfl
    | some y =>
      change (if (toValue y).isNull then some none else (ofValue? (toValue y)).map some) =
        some (if (toValue y).isNull then none else some (content.settle y))
      rw [ih y]
      split <;> rfl

/-- Only values and optionals are ever written as null. -/
theorem isNull_toValue {s : Shape} (plain : (Shape.option s).Plain) (y : s.Carrier) :
    (toValue y).isNull = false := by
  cases s with
  | value | option => exact plain.elim
  | string | int | bool | float | list => rfl

/-- Nothing is lost where no optional is put directly around a value or another optional. -/
theorem settle_eq_self {s : Shape} (plain : s.Plain) (x : s.Carrier) : s.settle x = x := by
  induction s with
  | string | int | bool | float | value => rfl
  | list item ih =>
    change List.map item.settle x = x
    exact (List.map_congr_left fun y _ => ih plain y).trans (List.map_id x)
  | option content ih =>
    cases x with
    | none => rfl
    | some y =>
      change (if (toValue y).isNull then none else some (content.settle y)) = some y
      have inner : content.Plain := by
        cases content with
        | value | option => exact plain.elim
        | string | int | bool | float | list => exact plain
      rw [isNull_toValue plain y, ih inner y]
      rfl

/-- At every shape, a value converts only to what would be written as just that value, and what is
written converts to itself with every optional made empty that was written as null; if no optional is
put directly around a value or another optional, that is what was written. -/
theorem conversion_laws (s : Shape) :
    (∀ (v : Value) (x : s.Carrier), ofValue? v = some x → toValue x = v) ∧
      (∀ x : s.Carrier, ofValue? (toValue x) = some (s.settle x)) ∧
      (s.Plain → ∀ x : s.Carrier, ofValue? (toValue x) = some x) := by
  refine ⟨fun v x => s.toValue_of_ofValue?, s.ofValue?_toValue, fun plain x => ?_⟩
  rw [s.ofValue?_toValue, settle_eq_self plain]

/-- A list of optional numbers comes back as it was, an optional null inside an optional does not. -/
theorem optional_numbers_convert :
    (ofValue? (.list [.int 1, .null]) = some ([some 1, none] : List (Option Int64)) ∧
      toValue ([some 1, none] : List (Option Int64)) = .list [.int 1, .null]) ∧
    ofValue? (toValue (some (some .null) : Option (Option Value))) =
      some (none : Option (Option Value)) ∧
    ((Shape.list (.option .int)).Plain ∧
      ofValue? (toValue ([some 1, none] : List (Option Int64))) =
        some ([some 1, none] : List (Option Int64))) :=
  ⟨⟨rfl, (conversion_laws (.list (.option .int))).1 (.list [.int 1, .null])
    [some (1 : Int64), none] rfl⟩,
    (conversion_laws (.option (.option .value))).2.1 (some (some .null)),
    trivial, (conversion_laws (.list (.option .int))).2.2 trivial [some (1 : Int64), none]⟩

end Shape

end BuildServer
