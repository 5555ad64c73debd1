import BuildServer.Binary64.Basic

/-!
# Structured values

The payload of a protocol message before any type is imposed on it. Integers and doubles are kept
apart, lists keep their order, and a map is its entries in ascending order of their keys, each key
once. Insertion is the only way the library builds a map, so every map it builds is ordered in this
sense; `Value.Ordered` says so for a value at every level, and an `OrderedValue` comes with it.
-/

namespace BuildServer

/-- A structured value. -/
inductive Value
  | null
  | int (i : Int64)
  | bool (b : Bool)
  | float (x : Binary64)
  | string (s : String)
  | list (items : List Value)
  | map (entries : List (String × Value))
  deriving Inhabited

/-- The entries of a map, ascending by key. -/
abbrev Entries := List (String × Value)

/-- The form of a value, without its contents. -/
inductive ValueKind
  | null
  | int
  | bool
  | float
  | string
  | list
  | map
  deriving DecidableEq, Hashable

/-- The name of a form in diagnostics. -/
def ValueKind.label : ValueKind → String
  | .null => "null"
  | .int => "integer"
  | .bool => "boolean"
  | .float => "float"
  | .string => "string"
  | .list => "list"
  | .map => "map"

namespace Entries

/-- The value stored under a key. -/
def get? (entries : Entries) (key : String) : Option Value := entries.lookup key

/-- Whether something is stored under a key. -/
def contains (entries : Entries) (key : String) : Bool := (entries.get? key).isSome

/-- Stores a value under a key; an entry that is already there stays if `keep`, and otherwise has
its value replaced. -/
def put (keep : Bool) (key : String) (v : Value) : Entries → Entries
  | [] => [(key, v)]
  | entry :: rest =>
    if key < entry.1 then (key, v) :: entry :: rest
    else if key = entry.1 then (if keep then entry else (key, v)) :: rest
    else entry :: put keep key v rest

/-- Stores a value under a key that is not taken yet. -/
def insertNew (entries : Entries) (key : String) (v : Value) : Entries := put true key v entries

/-- Stores a value under a key in place of any other. -/
def insert (entries : Entries) (key : String) (v : Value) : Entries := put false key v entries

/-- The entries of pairs in any order; of a repeated key the first pair counts. -/
def ofPairs (pairs : List (String × Value)) : Entries :=
  pairs.foldl (fun entries pair => entries.insertNew pair.1 pair.2) []

/-- The keys in ascending order. -/
def keys (entries : Entries) : List String := entries.map (·.1)

/-- Ascending keys, each once. -/
def Sorted (entries : Entries) : Prop := entries.Pairwise fun a b => a.1 < b.1

end Entries

namespace Value

/-- The map of pairs in any order; of a repeated key the first pair counts. -/
def ofPairs (pairs : List (String × Value)) : Value := .map (Entries.ofPairs pairs)

/-- The value of something that may be absent. -/
def ofOption : Option Value → Value
  | none => .null
  | some v => v

def kind : Value → ValueKind
  | .null => .null
  | .int _ => .int
  | .bool _ => .bool
  | .float _ => .float
  | .string _ => .string
  | .list _ => .list
  | .map _ => .map

def isNull : Value → Bool
  | .null => true
  | _ => false

def int? : Value → Option Int64
  | .int i => some i
  | _ => none

def bool? : Value → Option Bool
  | .bool b => some b
  | _ => none

/-- The payload of a float; integers are not widened. -/
def float? : Value → Option Binary64
  | .float x => some x
  | _ => none

def string? : Value → Option String
  | .string s => some s
  | _ => none

def list? : Value → Option (List Value)
  | .list items => some items
  | _ => none

def map? : Value → Option Entries
  | .map entries => some entries
  | _ => none

/-- The value stored under a key, if this is a map that has the key. -/
def get? (v : Value) (key : String) : Option Value := v.map?.bind fun entries => entries.get? key

mutual

/-- Maps are sorted at every level. -/
def Ordered : Value → Prop
  | .list items => AllOrdered items
  | .map entries => Entries.Sorted entries ∧ EntriesOrdered entries
  | _ => True

/-- Every value of a list is ordered. -/
def AllOrdered : List Value → Prop
  | [] => True
  | v :: vs => Ordered v ∧ AllOrdered vs

/-- Every value of a map is ordered. -/
def EntriesOrdered : List (String × Value) → Prop
  | [] => True
  | (_, v) :: entries => Ordered v ∧ EntriesOrdered entries

end

end Value

/-- A value whose maps are sorted at every level, as they are in all that the library builds. -/
structure OrderedValue where
  value : Value
  ordered : value.Ordered

end BuildServer
