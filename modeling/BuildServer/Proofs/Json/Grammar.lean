import BuildServer.Proofs.Json.RoundTrip

/-! # The texts of a document

An outline is a document whose numerals are still as they are spelled. Its texts are given here without
regard to how they are scanned: blanks may stand around every lexeme, a character of a string may
stand for itself or be escaped in any of the ways there are for it, and the mark of an exponent has two
cases and may go without a plus sign. What an outline must meet so that it can be read is that its
numerals are in range and that it is not nested too deeply.
-/

namespace BuildServer.Json

/-- The bytes that may stand around lexemes. -/
def IsBlank (b : UInt8) : Prop := b = 32 ∨ b = 9 ∨ b = 10 ∨ b = 13

/-- Nothing but blanks. -/
def Blank (bytes : List UInt8) : Prop := ∀ b ∈ bytes, IsBlank b

/-- Blanks around some text. -/
def Padded (spelling : List UInt8 → Prop) (bytes : List UInt8) : Prop :=
  ∃ before inner after, bytes = before ++ inner ++ after ∧ Blank before ∧ spelling inner ∧ Blank after

theorem blank_nil : Blank [] := fun b member => by cases member

/-- No blanks need to stand around a text. -/
theorem Padded.of_spelling {spelling : List UInt8 → Prop} {bytes : List UInt8} (spelled : spelling bytes) :
    Padded spelling bytes :=
  ⟨[], bytes, [], (List.append_nil _).symm, blank_nil, spelled, blank_nil⟩

namespace Numeral

/-- A point and digits, or nothing at all. -/
def fractionBytes (ds : List Digit) : List UInt8 :=
  if ds.isEmpty then [] else 46 :: ds.map Digit.byte

/-- Whether bytes are the mark of an exponent with its sign and digits. -/
def ExponentSpelling (exponent : Option (Bool × List Digit)) (bytes : List UInt8) : Prop :=
  match exponent with
  | none => bytes = []
  | some (below, ds) => ds ≠ [] ∧ ∃ mark sign, (mark = 101 ∨ mark = 69) ∧
      (sign = [if below then 45 else 43] ∨ below = false ∧ sign = []) ∧
      bytes = mark :: (sign ++ ds.map Digit.byte)

/-- Whether bytes spell a numeral; the first digit is zero only when it is the one before the point. -/
def Spelling (n : Numeral) (bytes : List UInt8) : Prop :=
  ∃ d ds exponent, n.whole = d :: ds ∧ (d.val = 0 → ds = []) ∧ ExponentSpelling n.exponent exponent ∧
    bytes = (if n.negative then [45] else []) ++ (n.whole.map Digit.byte ++
      (fractionBytes n.fraction ++ exponent))

/-- A numeral that is not refused as too great; `inRange_of_le` gives a bound for its size. -/
def InRange (n : Numeral) : Prop := n.number? ≠ none

instance (n : Numeral) : Decidable n.InRange := inferInstanceAs (Decidable (_ ≠ _))

end Numeral

/-- Whether a byte is a hexadecimal digit, of either case. -/
def IsHexDigit (d : Nat) (b : UInt8) : Prop :=
  d < 10 ∧ b.toNat = 48 + d ∨ 10 ≤ d ∧ d < 16 ∧ (b.toNat = 87 + d ∨ b.toNat = 55 + d)

/-- Whether bytes are an escape of four digits. -/
def UnicodeSpelling (n : Nat) (bytes : List UInt8) : Prop :=
  ∃ b₁ b₂ b₃ b₄, IsHexDigit (n / 4096) b₁ ∧ IsHexDigit (n / 256 % 16) b₂ ∧
    IsHexDigit (n / 16 % 16) b₃ ∧ IsHexDigit (n % 16) b₄ ∧ bytes = [92, 117, b₁, b₂, b₃, b₄]

/-- The characters that have an escape of one letter, with the letter. -/
def letterEscapes : List (Char × UInt8) :=
  [('"', 34), ('\\', 92), ('/', 47), ('\x08', 98), ('\x0c', 102), ('\n', 110), ('\r', 114), ('\t', 116)]

/-- The bytes that may stand for a character inside a string. -/
inductive CharSpelling (c : Char) : List UInt8 → Prop
  | plain (printable : 32 ≤ c.toNat) (noQuote : c ≠ '"') (noSlash : c ≠ '\\') :
    CharSpelling c (Text.encodeChar c)
  | letter {l : UInt8} (listed : (c, l) ∈ letterEscapes) : CharSpelling c [92, l]
  | unicode {bytes : List UInt8} (basic : c.toNat < 0x10000) (digits : UnicodeSpelling c.toNat bytes) :
    CharSpelling c bytes
  | pair {lead trail : List UInt8} (beyond : 0x10000 ≤ c.toNat)
    (leading : UnicodeSpelling (0xD800 + (c.toNat - 0x10000) / 0x400) lead)
    (trailing : UnicodeSpelling (0xDC00 + (c.toNat - 0x10000) % 0x400) trail) :
    CharSpelling c (lead ++ trail)

/-- The bytes that may stand for characters inside a string. -/
inductive CharsSpelling : List Char → List UInt8 → Prop
  | nil : CharsSpelling [] []
  | cons {c : Char} {cs : List Char} {first others : List UInt8} (one : CharSpelling c first)
    (rest : CharsSpelling cs others) : CharsSpelling (c :: cs) (first ++ others)

/-- Whether bytes are a string between its quotes. -/
def StringSpelling (s : String) (bytes : List UInt8) : Prop :=
  ∃ inside, CharsSpelling s.toList inside ∧ bytes = 34 :: (inside ++ [34])

/-- A document as it is spelled; an object may repeat a key. -/
inductive Outline
  | null
  | bool (b : Bool)
  | number (n : Numeral)
  | string (s : String)
  | array (items : List Outline)
  | object (members : List (String × Outline))

namespace Outline

mutual

/-- Whether bytes are a text of an outline, without blanks around it. -/
def Spelling : Outline → List UInt8 → Prop
  | .null, bytes => bytes = Text.encode "null".toList
  | .bool b, bytes => bytes = Text.encode (if b then "true".toList else "false".toList)
  | .number n, bytes => n.Spelling bytes
  | .string s, bytes => StringSpelling s bytes
  | .array items, bytes => ∃ inside, ItemsSpelling items inside ∧ bytes = 91 :: (inside ++ [93])
  | .object members, bytes => ∃ inside, MembersSpelling members inside ∧ bytes = 123 :: (inside ++ [125])

/-- Whether bytes may stand between the brackets of an array. -/
def ItemsSpelling : List Outline → List UInt8 → Prop
  | [], bytes => Blank bytes
  | [o], bytes => Padded o.Spelling bytes
  | o :: os, bytes => ∃ first others, Padded o.Spelling first ∧ ItemsSpelling os others ∧
      bytes = first ++ 44 :: others

/-- Whether bytes may stand between the braces of an object. -/
def MembersSpelling : List (String × Outline) → List UInt8 → Prop
  | [], bytes => Blank bytes
  | [(key, o)], bytes => ∃ name value, Padded (StringSpelling key) name ∧ Padded o.Spelling value ∧
      bytes = name ++ 58 :: value
  | (key, o) :: members, bytes => ∃ name value others, Padded (StringSpelling key) name ∧
      Padded o.Spelling value ∧ MembersSpelling members others ∧
      bytes = name ++ 58 :: (value ++ 44 :: others)

end

mutual

/-- The numerals of an outline. -/
def numerals : Outline → List Numeral
  | .number n => [n]
  | .array items => itemNumerals items
  | .object members => memberNumerals members
  | _ => []

/-- The numerals in the items of an array. -/
def itemNumerals : List Outline → List Numeral
  | [] => []
  | o :: os => numerals o ++ itemNumerals os

/-- The numerals in the members of an object. -/
def memberNumerals : List (String × Outline) → List Numeral
  | [] => []
  | (_, o) :: members => numerals o ++ memberNumerals members

end

mutual

/-- How many brackets are open around each other at most. -/
def nesting : Outline → Nat
  | .array items => itemNesting items + 1
  | .object members => memberNesting members + 1
  | _ => 0

/-- The deepest nesting of an item. -/
def itemNesting : List Outline → Nat
  | [] => 0
  | o :: os => max (nesting o) (itemNesting os)

/-- The deepest nesting of a member. -/
def memberNesting : List (String × Outline) → Nat
  | [] => 0
  | (_, o) :: members => max (nesting o) (memberNesting members)

end

mutual

/-- The document of an outline; a numeral out of range leaves nothing. -/
def document : Outline → Document
  | .null => .null
  | .bool b => .bool b
  | .number n => (n.number?.map .number).getD .null
  | .string s => .string s
  | .array items => .array (itemDocuments items)
  | .object members => .object (memberDocuments members)

/-- The documents of the items of an array. -/
def itemDocuments : List Outline → List Document
  | [] => []
  | o :: os => document o :: itemDocuments os

/-- The documents of the members of an object. -/
def memberDocuments : List (String × Outline) → List (String × Document)
  | [] => []
  | (key, o) :: members => (key, document o) :: memberDocuments members

end

end Outline

end BuildServer.Json
