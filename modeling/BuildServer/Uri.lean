import BuildServer.Schema.Basic
import BuildServer.Text.Utf8

/-!
# URI references

A URI is a text that is a reference in the sense of the generic syntax: an optional scheme, an
optional authority, a path, a query and a fragment. The text is kept as it was written. A text that
is no reference is refused at the first byte that cannot be part of one.
-/

namespace BuildServer

/-- Why a text is no reference. -/
inductive UriFault
  | invalidOctet
  | unexpectedCharacter
  | invalidAddress
  deriving DecidableEq

/-- A fault and the byte it was found at. -/
structure UriError where
  fault : UriFault
  index : Nat
  deriving DecidableEq

/-- The wording of a refusal. -/
def UriError.message (e : UriError) : String :=
  (match e.fault with
    | .invalidOctet => "invalid percent-encoded octet"
    | .unexpectedCharacter => "unexpected character"
    | .invalidAddress => "invalid IP literal") ++ " at index " ++ toString e.index

namespace Uri

def isAlpha (b : UInt8) : Bool :=
  let n := b.toNat
  decide (65 ≤ n ∧ n ≤ 90 ∨ 97 ≤ n ∧ n ≤ 122)

def isDigit (b : UInt8) : Bool := decide (48 ≤ b.toNat ∧ b.toNat ≤ 57)

def isHex (b : UInt8) : Bool :=
  let n := b.toNat
  isDigit b || decide (65 ≤ n ∧ n ≤ 70 ∨ 97 ≤ n ∧ n ≤ 102)

/-- Whether a byte is one of the characters of a text. -/
def isOneOf (s : String) (b : UInt8) : Bool := (Text.utf8 s).contains b

def isSchemeByte (b : UInt8) : Bool := isAlpha b || isDigit b || isOneOf "+-." b

/-- The characters of registered names, apart from encoded octets. -/
def isNameByte (b : UInt8) : Bool := isAlpha b || isDigit b || isOneOf "-._~!$&'()*+,;=" b

/-- The characters of an authority up to a delimiter: user information, or a host and its number. -/
def isAuthorityByte (b : UInt8) : Bool := isNameByte b || isOneOf ":" b

/-- The characters of a first path segment that cannot be taken for a scheme. -/
def isRelativeByte (b : UInt8) : Bool := isNameByte b || isOneOf "@" b

def isPathByte (b : UInt8) : Bool := isNameByte b || isOneOf ":@/" b

/-- The characters of queries and fragments. -/
def isQueryByte (b : UInt8) : Bool := isPathByte b || isOneOf "?" b

/-- A decimal number from 0 to 255 without a leading zero. -/
def isOctet (bytes : List UInt8) : Bool :=
  !bytes.isEmpty && bytes.length ≤ 3 && bytes.all isDigit
    && (bytes.length == 1 || bytes.head? != some 48)
    && decide (bytes.foldl (fun n b => 10 * n + (b.toNat - 48)) 0 ≤ 255)

/-- Four octets between points. -/
def isAddress4 (bytes : List UInt8) : Bool :=
  let parts := bytes.splitOn 46
  parts.length == 4 && parts.all isOctet

/-- One to four hexadecimal digits. -/
def isGroup (bytes : List UInt8) : Bool := !bytes.isEmpty && bytes.length ≤ 4 && bytes.all isHex

/-- The number of sixteen-bit groups that parts between colons make up. A short address may take the
last place, where it counts for two. -/
def groupCount? (shortLast : Bool) : List (List UInt8) → Option Nat
  | [] => some 0
  | [part] =>
    if isGroup part then some 1 else if shortLast && isAddress4 part then some 2 else none
  | part :: parts =>
    if isGroup part then (groupCount? shortLast parts).map (· + 1) else none

/-- The groups of one side of an elision, which may be empty. -/
def sideCount? (shortLast : Bool) (bytes : List UInt8) : Option Nat :=
  if bytes.isEmpty then some 0 else groupCount? shortLast (bytes.splitOn 58)

/-- The parts before and after the first double colon. -/
def splitAtElision? : List UInt8 → Option (List UInt8 × List UInt8)
  | [] => none
  | 58 :: 58 :: rest => some ([], rest)
  | b :: rest => (splitAtElision? rest).map fun p => (b :: p.1, p.2)

/-- Eight groups, or fewer with an elision that stands for at least one. -/
def isAddress6 (bytes : List UInt8) : Bool :=
  match splitAtElision? bytes with
  | none => sideCount? true bytes == some 8
  | some (before, after) =>
    match sideCount? false before, sideCount? true after with
    | some m, some n => decide (m + n ≤ 7)
    | _, _ => false

/-- The bytes that are left and the index of the first of them. -/
structure Cursor where
  rest : List UInt8
  index : Nat

namespace Cursor

/-- The cursor `n` bytes further on. -/
def advance (c : Cursor) (n : Nat) : Cursor := ⟨c.rest.drop n, c.index + n⟩

/-- The cursor after the given bytes, if they come next. -/
def after? (c : Cursor) (s : String) : Option Cursor :=
  let bytes := Text.utf8 s
  if bytes.isPrefixOf c.rest then some (c.advance bytes.length) else none

/-- The bytes between two cursors. -/
def upTo (c d : Cursor) : List UInt8 := c.rest.take (d.index - c.index)

/-- A refusal at the cursor. -/
def refuse {α : Type} (c : Cursor) (fault : UriFault) : Except UriError α := .error ⟨fault, c.index⟩

end Cursor

/-- Passes over bytes of a class and over encoded octets. -/
def skip (allowed : UInt8 → Bool) : List UInt8 → Nat → Except UriError Cursor
  | [], index => .ok ⟨[], index⟩
  | 37 :: rest, index =>
    match rest with
    | high :: low :: rest' =>
      if isHex high && isHex low then skip allowed rest' (index + 3)
      else .error ⟨.invalidOctet, index⟩
    | _ => .error ⟨.invalidOctet, index⟩
  | b :: rest, index =>
    if allowed b then skip allowed rest (index + 1) else .ok ⟨b :: rest, index⟩

namespace Cursor

def skip (c : Cursor) (allowed : UInt8 → Bool) : Except UriError Cursor :=
  Uri.skip allowed c.rest c.index

/-- Passes over bytes of a class alone. -/
def skipPlain (c : Cursor) (allowed : UInt8 → Bool) : Cursor :=
  c.advance (c.rest.takeWhile allowed).length

/-- Passes over the number of a host, if one comes next. -/
def skipHostNumber (c : Cursor) : Cursor :=
  match c.after? ":" with
  | some c => c.skipPlain isDigit
  | none => c

/-- Passes over an address in brackets, if a bracket comes next. -/
def skipAddress? (c : Cursor) : Except UriError (Option Cursor) :=
  match c.after? "[" with
  | none => .ok none
  | some inside =>
    let address := inside.rest.takeWhile (fun b => b ≠ 93)
    let close := inside.advance address.length
    match close.after? "]" with
    | some c' => if isAddress6 address then .ok (some c') else c.refuse .invalidAddress
    | none => c.refuse .invalidAddress

/-- Passes over the query and the fragment, which have to be the end. -/
def finish (c : Cursor) : Except UriError Unit := do
  let c ← match c.after? "?" with
    | some c => c.skip isQueryByte
    | none => .ok c
  let c ← match c.after? "#" with
    | some c => c.skip isQueryByte
    | none => .ok c
  if c.rest.isEmpty then .ok () else c.refuse .unexpectedCharacter

/-- The path after an authority, which is empty or starts with a slash, and what follows it. -/
def finishAfterAuthority (c : Cursor) : Except UriError Unit := do
  let d ← c.skip isPathByte
  if d.index ≠ c.index ∧ c.rest.head? ≠ some 47 then c.refuse .unexpectedCharacter
  else d.finish

/-- The index of the last byte that is no digit. -/
def lastNonDigit? (bytes : List UInt8) (index : Nat) : Option Nat :=
  match bytes.reverse.findIdx? fun b => !isDigit b with
  | some back => some (index + bytes.length - 1 - back)
  | none => none

/-- An authority and what follows it. -/
def finishAuthority (c : Cursor) : Except UriError Unit := do
  let d ← c.skip isAuthorityByte
  match d.after? "@" with
  | some host =>
    match ← host.skipAddress? with
    | some e => e.skipHostNumber.finishAfterAuthority
    | none => do (← host.skip isNameByte).skipHostNumber.finishAfterAuthority
  | none =>
    if d.index = c.index then
      match ← c.skipAddress? with
      | some e => e.skipHostNumber.finishAfterAuthority
      | none => c.finishAfterAuthority
    else
      let scanned := c.upTo d
      let host := scanned.takeWhile (fun b => b ≠ 58)
      let number := scanned.drop (host.length + 1)
      let colon := c.index + host.length
      if number.contains 58 then .error ⟨.unexpectedCharacter, colon⟩
      else match lastNonDigit? number (colon + 1) with
        | some index => .error ⟨.unexpectedCharacter, index⟩
        | none => d.finishAfterAuthority

end Cursor

/-- Checks a whole reference. -/
def check (bytes : List UInt8) : Except UriError Unit := do
  let start : Cursor := ⟨bytes, 0⟩
  let scheme := start.skipPlain isSchemeByte
  match scheme.after? ":" with
  | some c =>
    if (bytes.head?.map isAlpha).getD false ∧ scheme.index ≠ 0 then
      match c.after? "//" with
      | some c => c.finishAuthority
      | none => do (← c.skip isPathByte).finish
    else start.refuse .unexpectedCharacter
  | none =>
    match start.after? "//" with
    | some c => c.finishAuthority
    | none =>
      let c ← start.skip isRelativeByte
      if (c.after? ":").isSome then c.refuse .unexpectedCharacter
      else do (← c.skip isPathByte).finish

end Uri

/-- A URI reference, kept as it was written. -/
structure Uri where
  text : String
  wellFormed : Uri.check (Text.utf8 text) = .ok ()

namespace Uri

theorem ext {u v : Uri} (h : u.text = v.text) : u = v := by
  cases u; cases v; cases h; rfl

instance : DecidableEq Uri := fun u v =>
  if h : u.text = v.text then .isTrue (ext h) else .isFalse fun e => h (congrArg text e)

/-- The reference that a text is. -/
def ofText (s : String) : Except UriError Uri :=
  match h : check (Text.utf8 s) with
  | .ok () => .ok ⟨s, h⟩
  | .error e => .error e

instance : Schema Uri where
  read d := do (ofText (← Schema.read d)).mapError fun e => .refused e.message
  write u := .string u.text

end Uri

end BuildServer
