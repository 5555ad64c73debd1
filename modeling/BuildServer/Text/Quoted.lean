import BuildServer.Text.Invisible

/-!
# Quoted text in diagnostics

A diagnostic shows a text between double quotes, with the quote, the backslash and the common
controls escaped by a letter, and every other character that a reader could not see named by its
number in braces.
-/

namespace BuildServer.Text

/-- The escape that names a character by its number. -/
def numberEscape (c : Char) : List Char :=
  ['\\', 'u', '\x7b'] ++ Nat.toDigits 16 c.toNat ++ ['\x7d']

/-- One character as it stands in quoted text. -/
def quoteChar (c : Char) : List Char :=
  match c with
  | '\x00' => ['\\', '0']
  | '\t' => ['\\', 't']
  | '\n' => ['\\', 'n']
  | '\r' => ['\\', 'r']
  | '\"' => ['\\', '\"']
  | '\\' => ['\\', '\\']
  | c => if isInvisible c.toNat then numberEscape c else [c]

/-- A text in quotes. -/
def quote (s : String) : String := String.ofList ('\"' :: s.toList.flatMap quoteChar ++ ['\"'])

end BuildServer.Text
