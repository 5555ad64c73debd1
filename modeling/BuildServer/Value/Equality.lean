import BuildServer.Value.Basic

/-!
# Equality and hashing of values

Two values are equal when they have the same form and equal contents; floats are compared as words,
so a not-a-number equals itself and the two zeros differ. A hasher of any kind is told of a value
piece by piece, in the same cases. Equality decides identity, which makes it an equivalence and makes
equal values hash alike.
-/

namespace BuildServer

namespace Value

mutual

/-- Structural equality. -/
def beq : Value → Value → Bool
  | .null, .null => true
  | .int i, .int j => i == j
  | .bool b, .bool c => b == c
  | .float x, .float y => x.bits == y.bits
  | .string s, .string t => s == t
  | .list vs, .list ws => beqItems vs ws
  | .map es, .map fs => beqEntries es fs
  | _, _ => false

/-- Equality of lists, item by item. -/
def beqItems : List Value → List Value → Bool
  | [], [] => true
  | v :: vs, w :: ws => beq v w && beqItems vs ws
  | _, _ => false

/-- Equality of maps, entry by entry. -/
def beqEntries : List (String × Value) → List (String × Value) → Bool
  | [], [] => true
  | (k, v) :: es, (l, w) :: fs => k == l && beq v w && beqEntries es fs
  | _, _ => false

end

instance : BEq Value := ⟨beq⟩

/-- What a hasher is told of a value, piece by piece. -/
inductive Piece
  | form (kind : ValueKind)
  | integer (i : Int64)
  | flag (b : Bool)
  | word (n : UInt64)
  | text (s : String)
  | length (n : Nat)
  deriving DecidableEq, Hashable

mutual

/-- The pieces of a value: its form, then its contents, with the length of a list or a map in front. -/
def pieces : Value → List Piece
  | .null => [.form .null]
  | .int i => [.form .int, .integer i]
  | .bool b => [.form .bool, .flag b]
  | .float x => [.form .float, .word x.bits]
  | .string s => [.form .string, .text s]
  | .list items => .form .list :: .length items.length :: itemPieces items
  | .map entries => .form .map :: .length entries.length :: entryPieces entries

/-- The pieces of the items of a list. -/
def itemPieces : List Value → List Piece
  | [] => []
  | v :: vs => pieces v ++ itemPieces vs

/-- The pieces of the entries of a map, in the order of its keys. -/
def entryPieces : List (String × Value) → List Piece
  | [] => []
  | (key, v) :: entries => .text key :: (pieces v ++ entryPieces entries)

end

/-- The state of a hasher after it has been told of a value. -/
def feed {σ : Type} (tell : σ → Piece → σ) (state : σ) (v : Value) : σ := v.pieces.foldl tell state

instance : Hashable Value := ⟨feed (fun code piece => mixHash code (hash piece)) 7⟩

mutual

theorem beq_iff_eq : ∀ v w : Value, beq v w = true ↔ v = w
  | .list vs, w => by cases w <;> simp [beq, beqItems_iff_eq vs]
  | .map es, w => by cases w <;> simp [beq, beqEntries_iff_eq es]
  | .float x, w => by
    cases w with
    | float y => cases x; cases y; simp [beq]
    | _ => simp [beq]
  | .null, w => by cases w <;> simp [beq]
  | .int _, w => by cases w <;> simp [beq]
  | .bool _, w => by cases w <;> simp [beq]
  | .string _, w => by cases w <;> simp [beq]

theorem beqItems_iff_eq : ∀ vs ws : List Value, beqItems vs ws = true ↔ vs = ws
  | [], ws => by cases ws <;> simp [beqItems]
  | v :: vs, ws => by
    cases ws with
    | nil => simp [beqItems]
    | cons w ws => simp [beqItems, beq_iff_eq v w, beqItems_iff_eq vs ws]

theorem beqEntries_iff_eq : ∀ es fs : List (String × Value), beqEntries es fs = true ↔ es = fs
  | [], fs => by cases fs <;> simp [beqEntries]
  | (k, v) :: es, fs => by
    cases fs with
    | nil => simp [beqEntries]
    | cons f fs =>
      obtain ⟨l, w⟩ := f
      simp [beqEntries, beq_iff_eq v w, beqEntries_iff_eq es fs, and_assoc]

end

instance : LawfulBEq Value where
  eq_of_beq {v w} h := (beq_iff_eq v w).1 h
  rfl {v} := (beq_iff_eq v v).2 rfl

instance : DecidableEq Value := fun v w => decidable_of_iff (v.beq w = true) (beq_iff_eq v w)

end Value

end BuildServer
