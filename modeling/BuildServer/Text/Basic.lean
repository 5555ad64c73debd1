import BuildServer.Word

/-!
# Blanks, letter case and numbers in text

The character rules that headers, filters and identifiers share. Blanks are the whole Unicode
white space class; letter case is folded for ASCII alone, so that no letter of another script is
taken for an ASCII one.
-/

namespace BuildServer.Text

/-- The Unicode white space class. -/
def isBlank (c : Char) : Bool :=
  let n := c.toNat
  (9 ≤ n && n ≤ 13) || n == 0x20 || n == 0x85 || n == 0xA0 || n == 0x1680 ||
    (0x2000 ≤ n && n ≤ 0x200A) || n == 0x2028 || n == 0x2029 || n == 0x202F || n == 0x205F ||
    n == 0x3000

/-- The text without the blanks at its front. -/
def trimFront (cs : List Char) : List Char := cs.dropWhile isBlank

/-- The text without the blanks at either end. -/
def trim (cs : List Char) : List Char := (trimFront (trimFront cs).reverse).reverse

/-- ASCII capitals made small; every other character stays. -/
def lowerAscii (cs : List Char) : List Char :=
  cs.map fun c => if 'A' ≤ c ∧ c ≤ 'Z' then Char.ofNat (c.toNat + 32) else c

/-- Equality up to the case of ASCII letters. -/
def sameAscii (a b : String) : Bool := lowerAscii a.toList == lowerAscii b.toList

def isDigit (c : Char) : Bool := decide ('0' ≤ c ∧ c ≤ '9')

/-- The value of a decimal digit. -/
def digitValue (c : Char) : Nat := c.toNat - 48

/-- The number written by decimal digits, most significant first. -/
def ofDigits (ds : List Char) : Nat := ds.foldl (fun n d => 10 * n + digitValue d) 0

/-- The decimal digits of a natural number. -/
def decimal (n : Nat) : List Char := Nat.toDigits 10 n

/-- The decimal text of an integer. -/
def decimalInt (i : Int) : List Char := (if i < 0 then ['-'] else []) ++ decimal i.natAbs

/-- The word that unsigned digits denote, with an optional plus sign before them; leading zeros are
allowed and a number of more than 64 bits is not. -/
def word? (cs : List Char) : Option Nat :=
  let ds := match cs with
    | '+' :: ds => ds
    | ds => ds
  if !ds.isEmpty && ds.all isDigit then
    let n := ofDigits ds
    if n < wordLimit then some n else none
  else none

/-- The part before the first occurrence of `c` and the part after it, if there is one. -/
def splitAtFirst? (c : Char) : List Char → Option (List Char × List Char)
  | [] => none
  | d :: rest =>
    if d = c then some ([], rest) else (splitAtFirst? c rest).map fun p => (d :: p.1, p.2)

/-- The value of a hexadecimal digit of either case. -/
def hexValue? (c : Char) : Option Nat :=
  if '0' ≤ c ∧ c ≤ '9' then some (c.toNat - 48)
  else if 'a' ≤ c ∧ c ≤ 'f' then some (c.toNat - 87)
  else if 'A' ≤ c ∧ c ≤ 'F' then some (c.toNat - 55)
  else none

/-- A number in small hexadecimal digits, padded with zeros on the left. -/
def hexPadded (width n : Nat) : List Char :=
  let ds := Nat.toDigits 16 n
  List.replicate (width - ds.length) '0' ++ ds

end BuildServer.Text
