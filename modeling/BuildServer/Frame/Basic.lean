import BuildServer.Text.Basic

/-!
# Frames

A frame carries one payload: header lines, an empty line and then the bytes of the payload. The only
header that matters gives the length of the payload.
-/

namespace BuildServer.Frame

open BuildServer

/-- The longest payload that is accepted unless another limit is set. -/
def defaultLimit : Nat := 64 * 1024 * 1024

/-- The longest payload that can be addressed at all. -/
def greatestLength : Nat := greatestSigned

/-- The memory that can be had for a payload that is yet to come. -/
def availableMemory : Nat := 64 * 1024 * 1024 * 1024

/-- The name of the header that gives the length. -/
def lengthHeader : String := "Content-Length"

/-- What can go wrong with the stream below the frames. -/
inductive StreamFault
  | payloadCutShort
  | closedInHeaders
  | notText
  | beyondMemory
  | memoryRefused
  | budgetExhausted
  | flushRefused
  deriving DecidableEq

/-- The wording of a fault. -/
def StreamFault.message : StreamFault → String
  | .payloadCutShort => "failed to fill whole buffer"
  | .closedInHeaders => "stream closed while reading headers"
  | .notText => "stream did not contain valid UTF-8"
  | .beyondMemory => "memory allocation failed because the computed capacity exceeded the " ++
    "collection's maximum"
  | .memoryRefused => "memory allocation failed because the memory allocator returned an error"
  | .budgetExhausted => "budget exhausted"
  | .flushRefused => "flush refused"

/-- Why there is no frame. -/
inductive FrameError
  | stream (fault : StreamFault)
  | lengthMissing
  | headerInvalid (line : String)
  | tooLarge (length limit : Nat)
  deriving DecidableEq

/-- The wording of a failure. -/
def FrameError.message : FrameError → String
  | .stream fault => "I/O error: " ++ fault.message
  | .lengthMissing => "missing Content-Length header"
  | .headerInvalid line => "invalid header: " ++ line
  | .tooLarge length limit =>
    "frame of " ++ toString length ++ " bytes exceeds the " ++ toString limit ++ " byte limit"

end BuildServer.Frame
