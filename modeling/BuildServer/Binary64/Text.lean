import BuildServer.Binary64.Shortest
import BuildServer.Text.Basic

/-!
# Written form of doubles

A finite double is written with the fewest digits that identify it. Where the leading digit has a
moderate exponent the number is positional and always has a point; beyond that it is scientific,
with an explicit sign on the exponent, no padding, and a point only when a second digit follows.

A decimal text is read back as the double, or the single precision number, nearest to it; the
infinities and the undefined number are read by their names.
-/

namespace BuildServer

/-- The exponents of the leading digit that are written positionally. -/
structure DecimalStyle where
  leastPositional : Int
  mostPositional : Int

namespace Decimal

/-- The exponent of the leading digit when the digits are `ds`. -/
def leadingExponent (d : Decimal) (ds : List Char) : Int := d.exponent + ds.length - 1

/-- Digits with a point after the first `point` of them, padded with zeros on either side. -/
def positional (ds : List Char) (point : Int) : List Char :=
  if point ≤ 0 then '0' :: '.' :: List.replicate (-point).toNat '0' ++ ds
  else
    let whole := point.toNat
    if ds.length ≤ whole then ds ++ List.replicate (whole - ds.length) '0' ++ ['.', '0']
    else ds.take whole ++ '.' :: ds.drop whole

/-- An exponent with its sign always present. -/
def signedExponent (e : Int) : List Char :=
  (if e < 0 then '-' else '+') :: Text.decimal e.natAbs

/-- One digit, a point if more follow, and the exponent. -/
def scientific (ds : List Char) (e : Int) : List Char :=
  ds.take 1 ++ (if ds.length ≤ 1 then [] else '.' :: ds.drop 1) ++ 'e' :: signedExponent e

/-- The text of a positive decimal. -/
def toText (style : DecimalStyle) (d : Decimal) : List Char :=
  let ds := Text.decimal d.digits
  let e := d.leadingExponent ds
  if style.leastPositional ≤ e ∧ e ≤ style.mostPositional then positional ds (e + 1)
  else scientific ds e

end Decimal

namespace Binary64

/-- Sixteen digits may stand before the point and four zeros after it. -/
def style : DecimalStyle := ⟨-5, 15⟩

/-- The text of a finite double; a zero keeps its sign. -/
def toText (x : Binary64) : List Char :=
  (if x.negative then ['-'] else []) ++
    (if x.isZero then ['0', '.', '0'] else (Decimal.shortest x).toText style)

end Binary64

/-- A decimal with a sign; unlike the positive decimals it may be zero. -/
structure SignedDecimal where
  negative : Bool
  magnitude : Decimal

namespace SignedDecimal

/-- Splits off a leading sign. -/
def splitSign : List Char → Bool × List Char
  | '-' :: cs => (true, cs)
  | '+' :: cs => (false, cs)
  | cs => (false, cs)

/-- Reads digits with an optional sign, fraction and exponent. -/
def ofText? (cs : List Char) : Option SignedDecimal := do
  let (negative, cs) := splitSign cs
  let whole := cs.takeWhile Text.isDigit
  let (fraction, rest) := match cs.dropWhile Text.isDigit with
    | '.' :: rest => (rest.takeWhile Text.isDigit, rest.dropWhile Text.isDigit)
    | rest => ([], rest)
  let exponent ← match rest with
    | [] => some (0 : Int)
    | c :: rest =>
      let (below, ds) := splitSign rest
      if (c == 'e' || c == 'E') && !ds.isEmpty && ds.all Text.isDigit then
        some (if below then -(Text.ofDigits ds : Int) else Text.ofDigits ds)
      else none
  if whole.isEmpty && fraction.isEmpty then none
  else some ⟨negative, Text.ofDigits (whole ++ fraction), exponent - fraction.length⟩

/-- The exponent beyond which a decimal is infinite, and below whose opposite it is zero, whatever
its digits. -/
def extremeExponent : Nat := 400

/-- The magnitude as a quotient of natural numbers; an exponent that puts it out of the range of all
doubles is brought near the end of that range. -/
def ratio (d : SignedDecimal) : Nat × Nat :=
  let least : Int := -(extremeExponent + (Text.decimal d.magnitude.digits).length : Nat)
  let ten := powerRatio 10 (max least (min extremeExponent d.magnitude.exponent))
  (d.magnitude.digits * ten.1, ten.2)

end SignedDecimal

/-- A number as text gives it. -/
inductive ExtendedDecimal
  | decimal (d : SignedDecimal)
  | infinite (negative : Bool)
  | undefined (negative : Bool)

namespace ExtendedDecimal

/-- Reads a decimal, or the name of a number that is not finite in any case of its letters. -/
def ofText? (cs : List Char) : Option ExtendedDecimal :=
  let (negative, name) := SignedDecimal.splitSign cs
  let isNamed := Text.sameAscii (String.ofList name)
  if isNamed "inf" || isNamed "infinity" then some (.infinite negative)
  else if isNamed "nan" then some (.undefined negative)
  else (SignedDecimal.ofText? cs).map .decimal

/-- The nearest double. -/
def toBinary64 : ExtendedDecimal → Binary64
  | .decimal d => .ofRatio d.negative d.ratio.1 d.ratio.2
  | .infinite negative => .pack negative Binary64.infinityMagnitude
  | .undefined negative =>
    .pack negative (Binary64.infinityMagnitude + Binary64.leadingPlace / 2)

/-- The word of the nearest single precision number. -/
def toBinary32 : ExtendedDecimal → Nat
  | .decimal d => sign d.negative + BinaryFormat.single.round d.ratio.1 d.ratio.2
  | .infinite negative => sign negative + 0x7F800000
  | .undefined negative => sign negative + 0x7FC00000
where
  /-- The sign bit of a word. -/
  sign (negative : Bool) : Nat := if negative then 0x80000000 else 0

end ExtendedDecimal

end BuildServer
