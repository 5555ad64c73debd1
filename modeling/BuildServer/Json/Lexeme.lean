import BuildServer.Json.Fault
import BuildServer.Json.Number
import BuildServer.Text.Utf8

/-!
# Lexemes of JSON texts

A text is scanned one byte at a time, so scanning two texts in a row is scanning the second from
where the first left off. Each lexeme records where it starts. A lexeme that cannot be completed
becomes a broken one that carries its fault and ends the scan: whether that fault is the one to
report depends on what the reader of the lexemes was due to meet.
-/

namespace BuildServer.Json

/-- A lexeme without its place. -/
inductive Token
  | openBracket
  | closeBracket
  | openBrace
  | closeBrace
  | comma
  | colon
  | null
  | bool (b : Bool)
  | number (n : Number)
  | string (s : String)
  | broken (quoted : Bool) (fault : Fault)
  deriving DecidableEq

/-- A token and the number of bytes before it. -/
structure Lexeme where
  start : Nat
  token : Token
  deriving DecidableEq

/-- How far a numeral has been read. -/
inductive NumeralPart
  | sign
  | zero
  | whole
  | point
  | fraction
  | mark
  | markSign
  | exponent
  deriving DecidableEq

/-- A numeral under way; its digits are kept latest first. -/
structure NumeralDraft where
  part : NumeralPart
  negative : Bool
  whole : List Digit := []
  fraction : List Digit := []
  below : Bool := false
  exponent : List Digit := []

/-- How far a string has been read: between characters, after a backslash, inside the four digits
of an escape, or between the two halves of a surrogate pair. -/
inductive StringPart
  | plain
  | escape
  | digits (lead : Option Nat) (read : List UInt8)
  | pairSlash (lead : Nat)
  | pairMark (lead : Nat)

/-- What the scan is in the middle of. -/
inductive ScanMode
  | blank
  | word (due : UInt8) (rest : List UInt8) (token : Token)
  | numeral (draft : NumeralDraft)
  | string (content : List UInt8) (part : StringPart)
  | stopped

/-- A scan under way: bytes read, where the current lexeme started, and the lexemes so far with the
latest first. -/
structure Scan where
  offset : Nat := 0
  start : Nat := 0
  mode : ScanMode := .blank
  lexemes : List Lexeme := []

namespace NumeralPart

/-- The parts after which the numeral may end. -/
def complete : NumeralPart → Bool
  | .zero | .whole | .fraction | .exponent => true
  | _ => false

end NumeralPart

namespace NumeralDraft

/-- The numeral of a finished draft. -/
def numeral (draft : NumeralDraft) : Numeral where
  negative := draft.negative
  whole := draft.whole.reverse
  fraction := draft.fraction.reverse
  exponent := if draft.part = .exponent then some (draft.below, draft.exponent.reverse) else none

end NumeralDraft

/-- The digit written by a byte. -/
def digit? (b : UInt8) : Option Digit :=
  if 48 ≤ b.toNat ∧ b.toNat ≤ 57 then some (Fin.ofNat 10 (b.toNat - 48)) else none

/-- The value of a hexadecimal digit of either case. -/
def hexDigit? (b : UInt8) : Option Nat :=
  let n := b.toNat
  if 48 ≤ n ∧ n ≤ 57 then some (n - 48)
  else if 97 ≤ n ∧ n ≤ 102 then some (n - 87)
  else if 65 ≤ n ∧ n ≤ 70 then some (n - 55)
  else none

/-- The number written by hexadecimal digits, latest first. -/
def hexNumber? : List UInt8 → Option Nat
  | [] => some 0
  | b :: earlier => do return (← hexNumber? earlier) * 16 + (← hexDigit? b)

/-- The byte that a one-letter escape stands for. -/
def simpleEscape? (b : UInt8) : Option UInt8 :=
  match b.toNat with
  | 34 => some 34
  | 92 => some 92
  | 47 => some 47
  | 98 => some 8
  | 102 => some 12
  | 110 => some 10
  | 114 => some 13
  | 116 => some 9
  | _ => none

/-- The first half of a surrogate pair. -/
def isLead (n : Nat) : Bool := decide (0xD800 ≤ n ∧ n < 0xDC00)

/-- The second half of a surrogate pair. -/
def isTrail (n : Nat) : Bool := decide (0xDC00 ≤ n ∧ n < 0xE000)

/-- The character that a surrogate pair stands for. -/
def pairChar (lead trail : Nat) : Char :=
  Char.ofNat (0x10000 + (lead - 0xD800) * 0x400 + (trail - 0xDC00))

namespace Scan

/-- A byte that changes the mode alone. -/
def into (s : Scan) (mode : ScanMode) : Scan := { s with offset := s.offset + 1, mode }

/-- A byte that starts a lexeme. -/
def begin (s : Scan) (mode : ScanMode) : Scan :=
  { s with offset := s.offset + 1, start := s.offset, mode }

/-- A byte that ends the current lexeme. -/
def emit (s : Scan) (token : Token) : Scan :=
  { s with offset := s.offset + 1, mode := .blank, lexemes := ⟨s.start, token⟩ :: s.lexemes }

/-- A byte at which the current lexeme fails. -/
def fail (s : Scan) (quoted : Bool) (cause : Cause) (back : Nat := 0) : Scan :=
  { s with
    offset := s.offset + 1
    mode := .stopped
    lexemes := ⟨s.start, .broken quoted ⟨cause, s.offset + 1, back⟩⟩ :: s.lexemes }

/-- A byte between lexemes. -/
def fromBlank (s : Scan) (b : UInt8) : Scan :=
  let single (token : Token) := { s with start := s.offset }.emit token
  match b.toNat with
  | 32 | 9 | 10 | 13 => s.into .blank
  | 91 => single .openBracket
  | 93 => single .closeBracket
  | 123 => single .openBrace
  | 125 => single .closeBrace
  | 44 => single .comma
  | 58 => single .colon
  | 34 => s.begin (.string [] .plain)
  | 110 => s.begin (.word 117 [108, 108] .null)
  | 116 => s.begin (.word 114 [117, 101] (.bool true))
  | 102 => s.begin (.word 97 [108, 115, 101] (.bool false))
  | 45 => s.begin (.numeral { part := .sign, negative := true })
  | _ => match digit? b with
    | some d =>
      let part := if d = 0 then .zero else .whole
      s.begin (.numeral { part, negative := false, whole := [d] })
    | none => { s with start := s.offset }.fail false .valueExpected

/-- The lexeme of a finished numeral, `offset` being where it ends. -/
def numeralToken (draft : NumeralDraft) (offset : Nat) : Token :=
  let numeral := draft.numeral
  match numeral.number? with
  | some n => .number n
  | none => .broken false ⟨.numberOutOfRange, offset - numeral.unreadDigits, 0⟩

/-- Ends a numeral before the current byte. -/
def endNumeral (s : Scan) (draft : NumeralDraft) : Scan :=
  let token := numeralToken draft s.offset
  { s with
    mode := match token with
      | .broken .. => .stopped
      | _ => .blank
    lexemes := ⟨s.start, token⟩ :: s.lexemes }

/-- The draft after one more byte, or nothing if the byte cannot be part of the numeral. -/
def extendNumeral? (draft : NumeralDraft) (b : UInt8) : Option NumeralDraft :=
  let isPoint := b.toNat == 46
  let isMark := b.toNat == 101 || b.toNat == 69
  match draft.part, digit? b with
  | .sign, some d => some { draft with part := if d = 0 then .zero else .whole, whole := [d] }
  | .whole, some d => some { draft with whole := d :: draft.whole }
  | .point, some d => some { draft with part := .fraction, fraction := [d] }
  | .fraction, some d => some { draft with fraction := d :: draft.fraction }
  | .mark, some d | .markSign, some d => some { draft with part := .exponent, exponent := [d] }
  | .exponent, some d => some { draft with exponent := d :: draft.exponent }
  | .zero, none | .whole, none =>
    if isPoint then some { draft with part := .point }
    else if isMark then some { draft with part := .mark }
    else none
  | .fraction, none => if isMark then some { draft with part := .mark } else none
  | .mark, none =>
    if b.toNat == 43 then some { draft with part := .markSign }
    else if b.toNat == 45 then some { draft with part := .markSign, below := true }
    else none
  | _, _ => none

/-- A byte while a numeral is under way. -/
def fromNumeral (s : Scan) (draft : NumeralDraft) (b : UInt8) : Scan :=
  match extendNumeral? draft b with
  | some next => s.into (.numeral next)
  | none =>
    if draft.part.complete && !(draft.part == .zero && (digit? b).isSome) then
      let ended := s.endNumeral draft
      match ended.mode with
      | .stopped => ended
      | _ => ended.fromBlank b
    else s.fail false .numberInvalid

/-- The closing quote of a string whose bytes, latest first, are `content`. -/
def endString (s : Scan) (content : List UInt8) : Scan :=
  match Text.decode content.reverse with
  | (cs, []) => s.emit (.string (String.ofList cs))
  | (_, left) => s.fail true .codePointInvalid left.length

/-- The fourth digit of an escape. -/
def endDigits (s : Scan) (content : List UInt8) (lead : Option Nat) (read : List UInt8) : Scan :=
  let add (c : Char) := s.into (.string ((Text.encodeChar c).reverse ++ content) .plain)
  match hexNumber? read, lead with
  | none, _ => s.fail true .escapeInvalid
  | some n, some lead => if isTrail n then add (pairChar lead n) else s.fail true .surrogateAlone
  | some n, none =>
    if isTrail n then s.fail true .surrogateAlone
    else if isLead n then s.into (.string content (.pairSlash n))
    else add (Char.ofNat n)

/-- A byte inside a string. -/
def fromString (s : Scan) (content : List UInt8) (part : StringPart) (b : UInt8) : Scan :=
  match part with
  | .plain =>
    if b.toNat = 34 then s.endString content
    else if b.toNat = 92 then s.into (.string content .escape)
    else if b.toNat < 32 then s.fail true .controlInString
    else s.into (.string (b :: content) .plain)
  | .escape =>
    if b.toNat = 117 then s.into (.string content (.digits none []))
    else match simpleEscape? b with
      | some c => s.into (.string (c :: content) .plain)
      | none => s.fail true .escapeInvalid
  | .digits lead read =>
    if read.length < 3 then s.into (.string content (.digits lead (b :: read)))
    else s.endDigits content lead (b :: read)
  | .pairSlash lead =>
    if b.toNat = 92 then s.into (.string content (.pairMark lead))
    else s.fail true .escapeUnfinished
  | .pairMark lead =>
    if b.toNat = 117 then s.into (.string content (.digits (some lead) []))
    else s.fail true .escapeUnfinished

/-- One byte of the text. -/
def step (s : Scan) (b : UInt8) : Scan :=
  match s.mode with
  | .blank => s.fromBlank b
  | .word due rest token =>
    if b ≠ due then s.fail false .wordExpected
    else match rest with
      | [] => s.emit token
      | next :: rest => s.into (.word next rest token)
  | .numeral draft => s.fromNumeral draft b
  | .string content part => s.fromString content part b
  | .stopped => s

/-- The end of the text, which may cut the current lexeme short. -/
def finish (s : Scan) : List Lexeme :=
  let cut (quoted : Bool) (cause : Cause) :=
    (⟨s.start, .broken quoted ⟨cause, s.offset, 0⟩⟩ : Lexeme) :: s.lexemes
  List.reverse <| match s.mode with
    | .blank | .stopped => s.lexemes
    | .word .. => cut false .valueUnfinished
    | .numeral draft =>
      if draft.part.complete then ⟨s.start, numeralToken draft s.offset⟩ :: s.lexemes
      else cut false .valueUnfinished
    | .string .. => cut true .stringUnfinished

end Scan

/-- The lexemes of a text, up to and including the first broken one. -/
def lexemes (bytes : List UInt8) : List Lexeme := (bytes.foldl Scan.step {}).finish

end BuildServer.Json
