/-!
# UTF-8

Characters as one to four bytes. `encode` writes them; `decode` reads as many as stand at the front
of a byte sequence and returns the bytes it could not read, so the length of the valid front is
known also where the sequence as a whole is refused. Overlong forms, surrogates and numbers beyond
the last code point are no characters.
-/

namespace BuildServer.Text

/-- A byte from a number below 256. -/
def byte (n : Nat) : UInt8 := UInt8.ofNat n

/-- The bytes of one character. -/
def encodeChar (c : Char) : List UInt8 :=
  let n := c.toNat
  if n < 0x80 then [byte n]
  else if n < 0x800 then [byte (0xC0 + n / 0x40), byte (0x80 + n % 0x40)]
  else if n < 0x10000 then
    [byte (0xE0 + n / 0x1000), byte (0x80 + n / 0x40 % 0x40), byte (0x80 + n % 0x40)]
  else
    [byte (0xF0 + n / 0x40000), byte (0x80 + n / 0x1000 % 0x40), byte (0x80 + n / 0x40 % 0x40),
      byte (0x80 + n % 0x40)]

/-- The bytes of a character sequence. -/
def encode (cs : List Char) : List UInt8 := cs.flatMap encodeChar

/-- The bytes of a string. -/
def utf8 (s : String) : List UInt8 := encode s.toList

/-- The six bits carried by a continuation byte. -/
def tailBits (b : UInt8) : Option Nat :=
  if 0x80 ≤ b.toNat ∧ b.toNat < 0xC0 then some (b.toNat - 0x80) else none

/-- The character numbered `n`, provided it is one and needs as many bytes as were spent on it. -/
def charAtLeast (least n : Nat) : Option Char :=
  if h : least ≤ n ∧ n.isValidChar then some (Char.ofNatAux n h.2) else none

def twoBytes (a b : UInt8) : Option Char := do
  charAtLeast 0x80 ((a.toNat - 0xC0) * 0x40 + (← tailBits b))

def threeBytes (a b c : UInt8) : Option Char := do
  charAtLeast 0x800 ((a.toNat - 0xE0) * 0x1000 + (← tailBits b) * 0x40 + (← tailBits c))

def fourBytes (a b c d : UInt8) : Option Char := do
  charAtLeast 0x10000
    ((a.toNat - 0xF0) * 0x40000 + (← tailBits b) * 0x1000 + (← tailBits c) * 0x40 + (← tailBits d))

/-- The characters at the front of the bytes, and the bytes from the first one that starts none. -/
def decode : List UInt8 → List Char × List UInt8
  | [] => ([], [])
  | a :: rest =>
    let more (c : Char) (tail : List Char × List UInt8) := (c :: tail.1, tail.2)
    if a.toNat < 0x80 then more (Char.ofNat a.toNat) (decode rest)
    else if a.toNat < 0xC0 then ([], a :: rest)
    else if a.toNat < 0xE0 then
      match rest with
      | b :: rest' => match twoBytes a b with
        | some c => more c (decode rest')
        | none => ([], a :: rest)
      | _ => ([], a :: rest)
    else if a.toNat < 0xF0 then
      match rest with
      | b :: c :: rest' => match threeBytes a b c with
        | some ch => more ch (decode rest')
        | none => ([], a :: rest)
      | _ => ([], a :: rest)
    else
      match rest with
      | b :: c :: d :: rest' => match fourBytes a b c d with
        | some ch => more ch (decode rest')
        | none => ([], a :: rest)
      | _ => ([], a :: rest)

/-- The characters of a byte sequence that is well formed throughout. -/
def decode? (bytes : List UInt8) : Option (List Char) :=
  match decode bytes with
  | (cs, []) => some cs
  | _ => none

/-- The string of a byte sequence that is well formed throughout. -/
def ofUtf8? (bytes : List UInt8) : Option String := (decode? bytes).map String.ofList

end BuildServer.Text
