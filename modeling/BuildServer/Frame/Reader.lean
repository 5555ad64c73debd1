import BuildServer.Frame.Basic
import BuildServer.Text.Utf8

/-!
# Reading frames

Reading takes a frame off the front of a stream and leaves the rest, also when there is no frame to
be had: a line that is not understood is gone, and so is a payload that is cut short. A header block
ends at a line of blanks only, and of several lengths the last one counts. A stream that ends before
the first line of a frame has ended cleanly.
-/

namespace BuildServer.Frame

open BuildServer

/-- The line feed that ends a line. -/
def lineFeed : UInt8 := 10

/-- The first line of a stream, with its line feed if it has one, and the rest. -/
def splitLine : List UInt8 → List UInt8 × List UInt8
  | [] => ([], [])
  | b :: bs =>
    if b = lineFeed then ([b], bs)
    else
      let (line, rest) := splitLine bs
      (b :: line, rest)

theorem splitLine_append (s : List UInt8) : (splitLine s).1 ++ (splitLine s).2 = s := by
  induction s with
  | nil => rfl
  | cons b bs ih => by_cases h : b = lineFeed <;> simp [splitLine, h, ih]

theorem length_splitLine_snd_lt {s : List UInt8} (h : s ≠ []) :
    (splitLine s).2.length < s.length := by
  have hs := congrArg List.length (splitLine_append s)
  simp only [List.length_append] at hs
  cases s with
  | nil => exact absurd rfl h
  | cons b bs =>
    have : 0 < (splitLine (b :: bs)).1.length := by
      by_cases hb : b = lineFeed <;> simp [splitLine, hb]
    omega

/-- What a line of a header block says. -/
inductive HeaderLine
  | blank
  | length (n : Nat)
  | other
  deriving DecidableEq

/-- What the characters of a line say. -/
def HeaderLine.ofText (cs : List Char) : Except FrameError HeaderLine :=
  let trimmed := Text.trim cs
  if trimmed.isEmpty then .ok .blank
  else match Text.splitAtFirst? ':' trimmed with
    | none => .error (.headerInvalid (String.ofList trimmed))
    | some (name, value) =>
      if Text.sameAscii (String.ofList (Text.trim name)) lengthHeader then
        match Text.word? (Text.trim value) with
        | some n => .ok (.length n)
        | none => .error (.headerInvalid (String.ofList trimmed))
      else .ok .other

/-- What a line of a header block says, provided it is text. -/
def HeaderLine.ofLine (line : List UInt8) : Except FrameError HeaderLine :=
  match Text.decode? line with
  | none => .error (.stream .notText)
  | some cs => HeaderLine.ofText cs

/-- Reads the rest of a header block, in which the last length so far is `length?`; `begun` tells
whether the block has a line already. -/
def readHeaders (begun : Bool) (length? : Option Nat) (s : List UInt8) :
    Except FrameError (Option Nat) × List UInt8 :=
  if _h : s = [] then (if begun then .error (.stream .closedInHeaders) else .ok none, [])
  else
    let rest := (splitLine s).2
    match HeaderLine.ofLine (splitLine s).1 with
    | .error e => (.error e, rest)
    | .ok .blank =>
      match length? with
      | some n => (.ok (some n), rest)
      | none => (.error .lengthMissing, rest)
    | .ok (.length n) => readHeaders true (some n) rest
    | .ok .other => readHeaders true length? rest
  termination_by s.length
  decreasing_by all_goals exact length_splitLine_snd_lt _h

/-- Reads a payload of the given length. A payload that the stream holds is in memory already; of
one that it does not hold, a length for which there is no memory is refused before anything is
taken, and otherwise the beginning is lost. -/
def readPayload (limit n : Nat) (s : List UInt8) : Except FrameError (List UInt8) × List UInt8 :=
  if limit < n then (.error (.tooLarge n limit), s)
  else if n ≤ s.length then (.ok (s.take n), s.drop n)
  else if greatestLength < n then (.error (.stream .beyondMemory), s)
  else if availableMemory < n then (.error (.stream .memoryRefused), s)
  else (.error (.stream .payloadCutShort), [])

/-- Reads the next frame of a stream, or nothing at its end. -/
def read (limit : Nat) (s : List UInt8) : Except FrameError (Option (List UInt8)) × List UInt8 :=
  match readHeaders false none s with
  | (.error e, rest) => (.error e, rest)
  | (.ok none, rest) => (.ok none, rest)
  | (.ok (some n), rest) =>
    let (payload, rest) := readPayload limit n rest
    (payload.map some, rest)

/-- Reads the given number of times, whatever the reads before brought. -/
def readTimes (limit : Nat) : Nat → List UInt8 → List (Except FrameError (Option (List UInt8)))
  | 0, _ => []
  | n + 1, s =>
    let (result, rest) := read limit s
    result :: readTimes limit n rest

theorem length_readHeaders_lt {begun : Bool} {length? : Option Nat} {s rest : List UInt8} {n : Nat}
    (h : readHeaders begun length? s = (.ok (some n), rest)) : rest.length < s.length := by
  fun_induction readHeaders begun length? s with
  | case1 => grind
  | case2 => grind
  | case3 _ s ne => grind [length_splitLine_snd_lt ne]
  | case4 => grind
  | case5 _ _ s ne => grind [length_splitLine_snd_lt ne]
  | case6 _ _ s ne => grind [length_splitLine_snd_lt ne]

theorem length_readPayload_le (limit n : Nat) (s : List UInt8) :
    (readPayload limit n s).2.length ≤ s.length := by
  unfold readPayload
  split
  · exact Nat.le_refl _
  · split
    · simp
    · split
      · exact Nat.le_refl _
      · split
        · exact Nat.le_refl _
        · exact Nat.zero_le _

/-- A frame is longer than its payload, so what it leaves of the stream is shorter. -/
theorem length_read_lt {limit : Nat} {s payload rest : List UInt8}
    (h : read limit s = (.ok (some payload), rest)) : rest.length < s.length := by
  unfold read at h
  split at h
  · simp at h
  · simp at h
  · rename_i n left headers
    have := length_readHeaders_lt headers
    have := length_readPayload_le limit n left
    simp only [Prod.mk.injEq] at h
    obtain ⟨-, rfl⟩ := h
    omega

/-- Reads frames until the end of the stream or the first one that cannot be read. -/
def readAll (limit : Nat) (s : List UInt8) : List (List UInt8) × Except FrameError Unit :=
  match h : read limit s with
  | (.error e, _) => ([], .error e)
  | (.ok none, _) => ([], .ok ())
  | (.ok (some payload), rest) =>
    have : rest.length < s.length := length_read_lt h
    let (payloads, ending) := readAll limit rest
    (payload :: payloads, ending)
  termination_by s.length

end BuildServer.Frame
