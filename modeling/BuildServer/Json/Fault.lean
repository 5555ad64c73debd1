/-!
# Faults of JSON texts

Reading stops at the first fault. A fault is a cause together with the number of bytes read when it
was noticed, the offending byte included. Its line and column follow from the text: lines are
separated by line feeds, columns count bytes, and a fault in the encoding of a string moves its
column back to the first byte that is no character.
-/

namespace BuildServer.Json

/-- What can be wrong with a text. -/
inductive Cause
  | listUnfinished
  | objectUnfinished
  | stringUnfinished
  | valueUnfinished
  | colonExpected
  | commaOrBracketExpected
  | commaOrBraceExpected
  | wordExpected
  | valueExpected
  | escapeInvalid
  | numberInvalid
  | numberOutOfRange
  | codePointInvalid
  | controlInString
  | keyExpected
  | surrogateAlone
  | escapeUnfinished
  | commaTrailing
  | textTrailing
  | nestingTooDeep
  deriving DecidableEq

/-- The wording of a cause. -/
def Cause.message : Cause → String
  | .listUnfinished => "EOF while parsing a list"
  | .objectUnfinished => "EOF while parsing an object"
  | .stringUnfinished => "EOF while parsing a string"
  | .valueUnfinished => "EOF while parsing a value"
  | .colonExpected => "expected `:`"
  | .commaOrBracketExpected => "expected `,` or `]`"
  | .commaOrBraceExpected => "expected `,` or `\x7d`"
  | .wordExpected => "expected ident"
  | .valueExpected => "expected value"
  | .escapeInvalid => "invalid escape"
  | .numberInvalid => "invalid number"
  | .numberOutOfRange => "number out of range"
  | .codePointInvalid => "invalid unicode code point"
  | .controlInString => "control character (\\u0000-\\u001F) found while parsing a string"
  | .keyExpected => "key must be a string"
  | .surrogateAlone => "lone leading surrogate in hex escape"
  | .escapeUnfinished => "unexpected end of hex escape"
  | .commaTrailing => "trailing comma"
  | .textTrailing => "trailing characters"
  | .nestingTooDeep => "recursion limit exceeded"

/-- A cause, how many bytes had been read, and how far its column lies before them. -/
structure Fault where
  cause : Cause
  offset : Nat
  back : Nat := 0
  deriving DecidableEq

/-- A place in a text: lines count from one, columns from the last line feed. -/
structure Location where
  line : Nat
  column : Nat
  deriving DecidableEq

/-- The byte that ends a line. -/
def lineFeed : UInt8 := 10

/-- The place just after the given bytes. -/
def Location.after (bytes : List UInt8) : Location :=
  bytes.foldl (fun place b => if b = lineFeed then ⟨place.line + 1, 0⟩
    else ⟨place.line, place.column + 1⟩) ⟨1, 0⟩

/-- Where a fault lies in the text it was found in. -/
def Fault.location (fault : Fault) (bytes : List UInt8) : Location :=
  let place := Location.after (bytes.take fault.offset)
  ⟨place.line, place.column - fault.back⟩

/-- A cause and the place in the text where it was noticed. -/
structure SyntaxError where
  cause : Cause
  place : Location
  deriving DecidableEq

/-- The error that a fault in the given text amounts to. -/
def Fault.toError (fault : Fault) (bytes : List UInt8) : SyntaxError :=
  ⟨fault.cause, fault.location bytes⟩

/-- The report of an error: its cause and its place. -/
def SyntaxError.message (e : SyntaxError) : String :=
  e.cause.message ++ " at line " ++ toString e.place.line ++ " column " ++ toString e.place.column

end BuildServer.Json
