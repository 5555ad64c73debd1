import BuildServer.Proofs.Frame.RoundTrip

/-! # Streams that are cut short

A stream of frames may be cut anywhere. The frames in front of the cut are read as if nothing was
missing. What is left of the frame at the cut is no frame: the line that gives the length counts only
with its line feed, the headers only with the line that ends them, and the payload only as a whole. So
a length of which digits are missing is not acted upon. The one exception is the last line feed of a
frame without a payload, since a line of blanks may end with the stream.
-/

namespace BuildServer.Frame

/-- The payloads whose frames lie wholly within the first `n` bytes of the stream. -/
def whole : List (List UInt8) → Nat → List (List UInt8)
  | [], _ => []
  | payload :: payloads, n =>
    if (ofPayload payload).length ≤ n then
      payload :: whole payloads (n - (ofPayload payload).length)
    else []

/-- A frame in two parts, neither of them empty, by the place of the cut. -/
inductive CutFrame (payload : List UInt8) : List UInt8 → List UInt8 → Prop
  | inLine {part back : List UInt8} (begun : part ≠ [])
      (split : part ++ back = lengthBytes payload.length) :
      CutFrame payload part (back ++ lineFeed :: carriageReturn :: lineFeed :: payload)
  | behindLine :
      CutFrame payload (lengthBytes payload.length ++ [lineFeed]) (carriageReturn :: lineFeed :: payload)
  | inEmptyLine :
      CutFrame payload (lengthBytes payload.length ++ [lineFeed, carriageReturn]) (lineFeed :: payload)
  | inPayload {front missing : List UInt8} (split : front ++ missing = payload) (more : missing ≠ []) :
      CutFrame payload
        (lengthBytes payload.length ++ lineFeed :: carriageReturn :: lineFeed :: front) missing

theorem cutFrame_of_append {payload part missing : List UInt8}
    (split : part ++ missing = ofPayload payload) (begun : part ≠ []) (more : missing ≠ []) :
    CutFrame payload part missing := by
  rw [ofPayload_eq] at split
  rcases List.append_eq_append_iff.mp split with ⟨back, line, rfl⟩ | ⟨behind, rfl, rest⟩
  · exact .inLine begun line.symm
  · rcases behind with - | ⟨feed, - | ⟨ret, - | ⟨feed', front⟩⟩⟩
    · obtain rfl : lineFeed :: carriageReturn :: lineFeed :: payload = missing := rest
      have line : lengthBytes payload.length ++ [] ++ [] = lengthBytes payload.length := by
        rw [List.append_nil, List.append_nil]
      exact .inLine begun line
    · cases rest
      exact .behindLine
    · cases rest
      exact .inEmptyLine
    · cases rest
      exact .inPayload rfl more

/-- Nothing is read from a first line that the stream ends, whatever it says: even if it is understood,
the stream ends within the headers. -/
theorem read_unended {part : List UInt8} (begun : part ≠ []) (unbroken : lineFeed ∉ part)
    (limit : Nat) : ∃ e rest, read limit part = (.error e, rest) := by
  have failed : ∃ e rest, readHeaders false none part = (.error e, rest) := by
    rw [readHeaders_lastLine unbroken begun]
    match HeaderLine.ofLine part with
    | .error e => exact ⟨e, [], rfl⟩
    | .ok .blank => exact ⟨_, [], rfl⟩
    | .ok (.length n) => exact ⟨.stream .closedInHeaders, [], by simp [afterLine, readHeaders]⟩
    | .ok .other => exact ⟨.stream .closedInHeaders, [], by simp [afterLine, readHeaders]⟩
  obtain ⟨e, rest, failed⟩ := failed
  exact ⟨e, rest, by rw [read, failed]⟩

/-- A payload that the stream does not hold as a whole is not read. -/
theorem readPayload_short {n : Nat} {s : List UInt8} (short : s.length < n) (limit : Nat) :
    ∃ e rest, readPayload limit n s = (.error e, rest) := by
  rw [readPayload, if_neg (Nat.not_le.mpr short)]
  split
  · exact ⟨_, _, rfl⟩
  · split
    · exact ⟨_, _, rfl⟩
    · split <;> exact ⟨_, _, rfl⟩

theorem read_of_headers {limit n : Nat} {s rest : List UInt8}
    (headers : readHeaders false none s = (.ok (some n), rest)) :
    read limit s = ((readPayload limit n rest).1.map some, (readPayload limit n rest).2) := by
  rw [read, headers]

/-- From a part of a frame that has its headers but not all of its payload nothing is read. -/
theorem read_short {limit n : Nat} {s rest : List UInt8}
    (headers : readHeaders false none s = (.ok (some n), rest)) (short : rest.length < n) :
    ∃ e left, read limit s = (.error e, left) := by
  obtain ⟨e, left, failed⟩ := readPayload_short short limit
  exact ⟨e, left, by rw [read_of_headers headers, failed]; rfl⟩

/-- From a frame that is cut inside, nothing is read but an empty payload whose last line feed is all
that is missing. -/
theorem CutFrame.read {limit : Nat} (addressable : limit < wordLimit) {payload part missing : List UInt8}
    (within : payload.length ≤ limit) (cut : CutFrame payload part missing) :
    (payload = [] ∧ missing = [lineFeed] → Frame.read limit part = (.ok (some []), [])) ∧
      (¬(payload = [] ∧ missing = [lineFeed]) → ∃ e rest, Frame.read limit part = (.error e, rest)) := by
  have fits : payload.length < wordLimit := Nat.lt_of_le_of_lt within addressable
  cases cut with
  | @inLine part back begun split =>
    refine ⟨fun only => absurd (congrArg List.length only.2) ?_, fun _ => ?_⟩
    · simp only [List.length_append, List.length_cons, List.length_nil]
      omega
    refine read_unended begun (fun feed => ?_) limit
    refine lineFeed_not_mem_encode (unbroken_lengthLine payload.length) ?_
    rw [← lengthBytes, ← split]
    exact List.mem_append_left _ feed
  | behindLine =>
    refine ⟨fun only => absurd (congrArg List.length only.2) (by simp), fun _ => ?_⟩
    refine ⟨.stream .closedInHeaders, [], ?_⟩
    rw [Frame.read, readHeaders_lengthBytes fits, readHeaders]
    rfl
  | inEmptyLine =>
    have headers : readHeaders false none (lengthBytes payload.length ++ [lineFeed, carriageReturn]) =
        (.ok (some payload.length), []) := by
      rw [readHeaders_lengthBytes fits, readHeaders_lastLine (by decide) (by decide)]
      rfl
    constructor
    · rintro ⟨rfl, -⟩
      rw [read_of_headers headers]
      rfl
    · intro other
      refine read_short headers (List.length_pos_iff.mpr fun nothing => other ⟨nothing, ?_⟩)
      rw [nothing]
  | @inPayload front missing split more =>
    have headers : readHeaders false none (lengthBytes payload.length ++
        lineFeed :: carriageReturn :: lineFeed :: front) = (.ok (some payload.length), front) :=
      (readHeaders_lengthBytes fits _).trans (readHeaders_emptyLine _ _)
    have short : front.length < payload.length := by
      have := List.length_pos_iff.mpr more
      rw [← split, List.length_append]
      omega
    refine ⟨?_, fun _ => read_short headers short⟩
    rintro ⟨rfl, -⟩
    exact absurd short (Nat.not_lt_zero _)

/-- The frames in front of a cut are those of the first payloads, and what is left up to the cut is
nothing or the beginning of the next frame. -/
theorem exists_part {payloads : List (List UInt8)} {cut lost : List UInt8}
    (split : cut ++ lost = payloads.flatMap ofPayload) :
    ∃ part after, payloads = whole payloads cut.length ++ after ∧
      cut = (whole payloads cut.length).flatMap ofPayload ++ part ∧
      (part = [] ∨ ∃ payload later missing, after = payload :: later ∧
        part ++ missing = ofPayload payload ∧ part ≠ [] ∧ missing ≠ []) := by
  induction payloads generalizing cut with
  | nil =>
    obtain ⟨rfl, -⟩ := List.append_eq_nil_iff.mp split
    exact ⟨[], [], rfl, rfl, .inl rfl⟩
  | cons payload payloads ih =>
    rw [List.flatMap_cons] at split
    rw [whole]
    by_cases fits : (ofPayload payload).length ≤ cut.length
    · obtain ⟨behind, rfl, rest⟩ : ∃ behind, cut = ofPayload payload ++ behind ∧
          payloads.flatMap ofPayload = behind ++ lost := by
        rcases List.append_eq_append_iff.mp split with ⟨back, frame, rest⟩ | found
        · have none : back = [] := by
            rw [frame, List.length_append] at fits
            exact List.length_eq_zero_iff.mp (by omega)
          subst none
          exact ⟨[], by rw [frame, List.append_nil, List.append_nil], rest.symm⟩
        · exact found
      obtain ⟨part, after, all, cut, ended⟩ := ih rest.symm
      have left : (ofPayload payload ++ behind).length - (ofPayload payload).length = behind.length := by
        rw [List.length_append, Nat.add_sub_cancel_left]
      rw [if_pos fits, left]
      refine ⟨part, after, ?_, ?_, ended⟩
      · rw [List.cons_append, ← all]
      · rw [List.flatMap_cons, List.append_assoc, ← cut]
    · rw [if_neg fits]
      refine ⟨cut, payload :: payloads, rfl, rfl, or_iff_not_imp_left.mpr fun begun => ?_⟩
      rcases List.append_eq_append_iff.mp split with ⟨back, frame, -⟩ | ⟨behind, rfl, -⟩
      · refine ⟨payload, payloads, back, rfl, frame.symm, begun, ?_⟩
        rintro rfl
        rw [List.append_nil] at frame
        exact fits (Nat.le_of_eq (congrArg List.length frame))
      · exact absurd (by simp) fits

variable {limit : Nat} {payloads : List (List UInt8)} {cut lost : List UInt8}

/-- Wherever the stream of frames that were written is cut, the payloads whose frames lie wholly before
the cut are read in order. If the cut is where a frame ends, every further read finds the end of the
stream. Otherwise the next read fails, save where only the last line feed of the frame of an empty
payload is missing: there that payload is read, and after it the end of the stream. -/
theorem truncated_frames_read (addressable : limit < wordLimit)
    (within : ∀ payload ∈ payloads, payload.length ≤ limit)
    (split : cut ++ lost = (Sink.writeFrames {} payloads).2.written) :
    let before := whole payloads cut.length
    (cut = before.flatMap ofPayload → ∀ n, readTimes limit (before.length + n) cut =
        before.map (fun payload => .ok (some payload)) ++ List.replicate n (.ok none)) ∧
      (cut ≠ before.flatMap ofPayload → ∃ payload after missing, payloads = before ++ payload :: after ∧
        cut ++ missing = (before ++ [payload]).flatMap ofPayload ∧
        (payload = [] ∧ missing = [lineFeed] → ∀ n, readTimes limit (before.length + 1 + n) cut =
          before.map (fun payload => .ok (some payload)) ++
            .ok (some []) :: List.replicate n (.ok none)) ∧
        (¬(payload = [] ∧ missing = [lineFeed]) → ∃ e, readTimes limit (before.length + 1) cut =
          before.map (fun payload => .ok (some payload)) ++ [.error e])) := by
  have written : (Sink.writeFrames {} payloads).2.written = payloads.flatMap ofPayload :=
    (Sink.writeFrames_unbounded (k := {}) rfl rfl payloads).2
  obtain ⟨part, after, all, shape, ended⟩ := exists_part (split.trans written)
  intro before
  change payloads = before ++ after at all
  change cut = before.flatMap ofPayload ++ part at shape
  have fit : ∀ payload ∈ before, payload.length ≤ limit := fun payload member =>
    within payload (all ▸ List.mem_append_left _ member)
  constructor
  · intro boundary n
    have read := readTimes_append addressable fit n []
    rwa [List.append_nil, ← boundary, readTimes_nil] at read
  · intro inside
    rcases ended with rfl | ⟨payload, later, missing, rfl, frame, begun, more⟩
    · exact absurd (shape.trans (List.append_nil _)) inside
    · have next := (cutFrame_of_append frame begun more).read addressable
        (within payload (all ▸ List.mem_append_right _ (.head _)))
      refine ⟨payload, later, missing, all, ?_, fun only n => ?_, fun other => ?_⟩
      · rw [shape, List.append_assoc, frame, List.flatMap_append, List.flatMap_singleton]
      · rw [shape, Nat.add_assoc, readTimes_append addressable fit, Nat.add_comm 1 n, readTimes,
          next.1 only]
        exact congrArg _ (congrArg _ (readTimes_nil limit n))
      · obtain ⟨e, rest, failed⟩ := next.2 other
        refine ⟨e, ?_⟩
        rw [shape, readTimes_append addressable fit, readTimes, failed]
        rfl

/-- A text, nothing, and a text whose length has two digits. -/
def cutPayloads : List (List UInt8) := ["hi", "", "0123456789"].map Text.utf8

/-- The frames of these texts. -/
def cutStream : List UInt8 := (Sink.writeFrames {} cutPayloads).2.written

/-- In front of the last line feed of the second frame nothing but that is missing; between the digits
of the length of the third one the shorter length is not taken. -/
theorem cut_payloads_read :
    (∀ payload ∈ cutPayloads, payload.length ≤ 10) ∧
      readTimes 10 3 (cutStream.take 43) = [.ok (some [104, 105]), .ok (some []), .ok none] ∧
      ∃ e, readTimes 10 3 (cutStream.take 61) = [.ok (some [104, 105]), .ok (some []), .error e] := by
  have within : ∀ payload ∈ cutPayloads, payload.length ≤ 10 := by decide
  have inFrame : ∀ n, _ := fun n =>
    (truncated_frames_read (by decide) within (List.take_append_drop n cutStream)).2
  refine ⟨within, ?_, ?_⟩
  · obtain ⟨payload, after, missing, all, frame, last, -⟩ := inFrame 43 (by decide)
    have split : [Text.utf8 "hi"] ++ [[], Text.utf8 "0123456789"] = [Text.utf8 "hi"] ++ payload :: after :=
      all
    obtain rfl : [] = payload := (List.cons.inj (List.append_cancel_left split)).1
    have whole : cutStream.take 43 ++ missing = cutStream.take 43 ++ [lineFeed] :=
      frame.trans (by decide)
    exact last ⟨rfl, List.append_cancel_left whole⟩ 1
  · obtain ⟨payload, after, missing, all, -, -, failed⟩ := inFrame 61 (by decide)
    have split : [Text.utf8 "hi", []] ++ [Text.utf8 "0123456789"] =
        [Text.utf8 "hi", []] ++ payload :: after := all
    refine failed ?_
    rintro ⟨rfl, -⟩
    exact absurd (List.cons.inj (List.append_cancel_left split)).1 (by decide)

end BuildServer.Frame
