import BuildServer.Frame.Writer
import BuildServer.Proofs.Frame.Reading
import BuildServer.Proofs.Text.Basic

/-! # Frames are read back

The frame of a payload is a line that says how long the payload is, an empty line and the payload. A
reader takes just these off a stream, whatever bytes the payload consists of and whatever follows, so
the frames of payloads that are written one behind the other are read as these payloads.
-/

namespace BuildServer.Frame

/-- The header line that gives a length. -/
def lengthLine (n : Nat) : List Char := lengthHeader.toList ++ ([':', ' '] ++ Text.decimal n)

/-- The bytes of that line in front of its line feed. -/
def lengthBytes (n : Nat) : List UInt8 := Text.encode (lengthLine n ++ ['\r'])

/-- The carriage return in front of a line feed. -/
def carriageReturn : UInt8 := 13

theorem ofPayload_eq (payload : List UInt8) :
    ofPayload payload =
      lengthBytes payload.length ++ lineFeed :: carriageReturn :: lineFeed :: payload := by
  have ending : lineFeed :: carriageReturn :: lineFeed :: payload =
      Text.encode ['\n', '\r', '\n'] ++ payload := rfl
  rw [ofPayload, Text.utf8, ← Text.encode_append, lengthBytes, ending,
    ← List.append_assoc (Text.encode _), ← Text.encode_append]
  simp [lengthLine]

theorem trim_lengthLine (n : Nat) :
    Text.trim (lengthLine n ++ ['\r'] ++ ['\n']) = lengthLine n := by
  have first : ∀ c ∈ (lengthLine n).head?, Text.isBlank c = false := by
    intro c first
    obtain rfl := Option.some.inj first
    decide
  have last : ∀ c ∈ (lengthLine n).getLast?, Text.isBlank c = false := by
    intro c last
    rw [lengthLine, ← List.append_assoc, List.getLast?_append,
      List.getLast?_eq_some_getLast (Text.decimal_ne_nil n), Option.some_or] at last
    obtain rfl := Option.some.inj last
    exact Text.not_isBlank_of_mem_decimal (List.getLast_mem _)
  have ending : ∀ c ∈ ['\r', '\n'], Text.isBlank c = true :=
    List.forall_mem_cons.mpr ⟨rfl, List.forall_mem_singleton.mpr rfl⟩
  rw [List.append_assoc]
  exact Text.trim_of_blank_around [] _ _ (List.forall_mem_nil _) ending first last

/-- The line that gives a length is read as that length. -/
theorem ofText_lengthLine {n : Nat} (fits : n < wordLimit) :
    HeaderLine.ofText (lengthLine n ++ ['\r'] ++ ['\n']) = .ok (.length n) := by
  have divided : Text.splitAtFirst? ':' (lengthLine n) =
      some (lengthHeader.toList, ' ' :: Text.decimal n) := Text.splitAtFirst?_append (by decide) _
  have named : Text.sameAscii (String.ofList (Text.trim lengthHeader.toList)) lengthHeader = true := by
    decide
  rw [HeaderLine.ofText, trim_lengthLine]
  simp [show lengthLine n ≠ [] from List.cons_ne_nil _ _, divided, named, Text.trim_decimal,
    Text.word?_decimal fits]

/-- The line is not broken before its end. -/
theorem unbroken_lengthLine (n : Nat) : '\n' ∉ lengthLine n ++ ['\r'] := by
  simp only [lengthLine, List.mem_append, not_or]
  refine ⟨⟨by decide, by decide, fun member => ?_⟩, by decide⟩
  have digit := Text.isDigit_of_mem_decimal member
  contradiction

/-- Behind the line that gives a length, reading goes on with that length. -/
theorem readHeaders_lengthBytes {n : Nat} (fits : n < wordLimit) (rest : List UInt8) :
    readHeaders false none (lengthBytes n ++ lineFeed :: rest) = readHeaders true (some n) rest := by
  rw [lengthBytes, append_lineFeed, readHeaders_text (unbroken_lengthLine n), ofText_lengthLine fits,
    afterLine]

/-- The empty line ends the headers. -/
theorem readHeaders_emptyLine (n : Nat) (rest : List UInt8) :
    readHeaders true (some n) (carriageReturn :: lineFeed :: rest) = (.ok (some n), rest) := by
  have unbroken : '\n' ∉ ['\r'] := by decide
  exact readHeaders_text unbroken true (some n) rest

/-- A frame is read from the front of a stream, and the rest of the stream is left. -/
theorem read_ofPayload {limit : Nat} (addressable : limit < wordLimit) {payload : List UInt8}
    (within : payload.length ≤ limit) (rest : List UInt8) :
    read limit (ofPayload payload ++ rest) = (.ok (some payload), rest) := by
  have headers : readHeaders false none (ofPayload payload ++ rest) =
      (.ok (some payload.length), payload ++ rest) := by
    rw [ofPayload_eq, List.append_assoc]
    exact (readHeaders_lengthBytes (Nat.lt_of_le_of_lt within addressable) _).trans
      (readHeaders_emptyLine _ _)
  simp [read, headers, readPayload_append within, Except.map]

namespace Sink

/-- Writes the frames of payloads one behind the other, whatever came of the ones before. -/
def writeFrames (k : Sink) : List (List UInt8) → List (Except FrameError Unit) × Sink
  | [] => ([], k)
  | payload :: payloads =>
    let (result, k) := k.writeFrame payload
    let (results, k) := k.writeFrames payloads
    (result :: results, k)

/-- A sink that accepts all bytes takes a frame as a whole. -/
theorem writeFrame_unbounded {k : Sink} (unbounded : k.budget = none) (flushed : k.flushFails = false)
    (payload : List UInt8) : k.writeFrame payload =
      (.ok (), { k with written := k.written ++ ofPayload payload, flushes := k.flushes + 1 }) := by
  simp only [writeFrame, write, flush, unbounded, flushed, Bool.false_eq_true, if_false]
  rfl

/-- A sink that accepts all bytes has the frames of the payloads written to it, in order. -/
theorem writeFrames_unbounded {k : Sink} (unbounded : k.budget = none) (flushed : k.flushFails = false)
    (payloads : List (List UInt8)) :
    (k.writeFrames payloads).1 = payloads.map (fun _ => .ok ()) ∧
      (k.writeFrames payloads).2.written = k.written ++ payloads.flatMap ofPayload := by
  induction payloads generalizing k with
  | nil => simp [writeFrames]
  | cons payload payloads ih =>
    have first := writeFrame_unbounded unbounded flushed payload
    obtain ⟨results, written⟩ := ih
      (k := { k with written := k.written ++ ofPayload payload, flushes := k.flushes + 1 })
      unbounded flushed
    simp only [writeFrames, first, List.map_cons, List.flatMap_cons]
    rw [results, written, List.append_assoc]
    exact ⟨rfl, rfl⟩

end Sink

variable {limit : Nat} {payloads : List (List UInt8)}

/-- Frames at the front of a stream are read one by one, whatever follows them. -/
theorem readTimes_append (addressable : limit < wordLimit)
    (within : ∀ payload ∈ payloads, payload.length ≤ limit) (n : Nat) (rest : List UInt8) :
    readTimes limit (payloads.length + n) (payloads.flatMap ofPayload ++ rest) =
      payloads.map (fun payload => .ok (some payload)) ++ readTimes limit n rest := by
  induction payloads with
  | nil => simp
  | cons payload payloads ih =>
    obtain ⟨first, others⟩ := List.forall_mem_cons.mp within
    rw [List.length_cons, Nat.add_right_comm, readTimes, List.flatMap_cons, List.append_assoc,
      read_ofPayload addressable first]
    simp only [ih others, List.map_cons, List.cons_append]

theorem readAll_append (addressable : limit < wordLimit)
    (within : ∀ payload ∈ payloads, payload.length ≤ limit) (rest : List UInt8) :
    readAll limit (payloads.flatMap ofPayload ++ rest) =
      (payloads ++ (readAll limit rest).1, (readAll limit rest).2) := by
  induction payloads with
  | nil => rfl
  | cons payload payloads ih =>
    obtain ⟨first, others⟩ := List.forall_mem_cons.mp within
    rw [List.flatMap_cons, List.append_assoc,
      readAll_of_read_some (read_ofPayload addressable first _), ih others]
    rfl

/-- Payloads of any bytes, none of them longer than a reader's limit, are read back from the frames
written for them: each read brings the next payload, every read after the last one finds the end of
the stream, and so does a reader that goes on for as long as there are frames. -/
theorem written_frames_read_back (addressable : limit < wordLimit)
    (within : ∀ payload ∈ payloads, payload.length ≤ limit) :
    (Sink.writeFrames {} payloads).1 = payloads.map (fun _ => .ok ()) ∧
      (∀ n, readTimes limit (payloads.length + n) (Sink.writeFrames {} payloads).2.written =
        payloads.map (fun payload => .ok (some payload)) ++ List.replicate n (.ok none)) ∧
      readAll limit (Sink.writeFrames {} payloads).2.written = (payloads, .ok ()) := by
  obtain ⟨results, written⟩ := Sink.writeFrames_unbounded (k := {}) rfl rfl payloads
  have stream : (Sink.writeFrames {} payloads).2.written = payloads.flatMap ofPayload ++ [] := by
    rw [written, List.append_nil]
    rfl
  refine ⟨results, fun n => ?_, ?_⟩
  · rw [stream, readTimes_append addressable within, readTimes_nil]
  · rw [stream, readAll_append addressable within, readAll_nil, List.append_nil]

/-- Nothing, two line ends and a text that looks like a header block. -/
def oddPayloads : List (List UInt8) :=
  ["", "\r\n\r\n", "Content-Length: 1\r\n\r\n:"].map Text.utf8

/-- Whatever looks like a part of a frame is read back as a payload. -/
theorem odd_payloads_read_back :
    (∀ payload ∈ oddPayloads, payload.length ≤ 22) ∧
      readTimes 22 4 (Sink.writeFrames {} oddPayloads).2.written =
        oddPayloads.map (fun payload => .ok (some payload)) ++ [.ok none] := by
  have within : ∀ payload ∈ oddPayloads, payload.length ≤ 22 := by decide
  exact ⟨within, (written_frames_read_back (by decide) within).2.1 1⟩

end BuildServer.Frame
