import BuildServer.Frame.Basic
import BuildServer.Text.Utf8

/-!
# Writing frames

Frames are written to a sink, which keeps the bytes that it has accepted. A sink may accept a number
of bytes in all and then refuse every further one, and it may refuse to be flushed.
-/

namespace BuildServer.Frame

open BuildServer

/-- The frame of a payload. -/
def ofPayload (payload : List UInt8) : List UInt8 :=
  Text.utf8 lengthHeader ++ Text.encode ([':', ' '] ++ Text.decimal payload.length ++
    ['\r', '\n', '\r', '\n']) ++ payload

/-- A destination for bytes; without a budget it accepts them all. -/
structure Sink where
  budget : Option Nat := none
  flushFails : Bool := false
  written : List UInt8 := []
  flushes : Nat := 0

namespace Sink

/-- Writes bytes, or as many of them as the budget leaves. -/
def write (k : Sink) (bytes : List UInt8) : Except StreamFault Unit × Sink :=
  match k.budget with
  | none => (.ok (), { k with written := k.written ++ bytes })
  | some n =>
    let k := { k with written := k.written ++ bytes.take n, budget := some (n - bytes.length) }
    (if bytes.length ≤ n then .ok () else .error .budgetExhausted, k)

/-- Flushes the sink; refused flushes count as well. -/
def flush (k : Sink) : Except StreamFault Unit × Sink :=
  (if k.flushFails then .error .flushRefused else .ok (), { k with flushes := k.flushes + 1 })

/-- Writes the frame of a payload and flushes the sink, unless writing fails. -/
def writeFrame (k : Sink) (payload : List UInt8) : Except FrameError Unit × Sink :=
  match k.write (ofPayload payload) with
  | (.error fault, k) => (.error (.stream fault), k)
  | (.ok (), k) =>
    let (result, k) := k.flush
    (result.mapError .stream, k)

end Sink

end BuildServer.Frame
