import BuildServer.Frame.Reader
import BuildServer.Proofs.Text.Utf8

/-! # What a reader takes

A reader takes a header block line by line and then a payload, and what is behind them in the stream
makes no difference to it.
-/

namespace BuildServer.Frame

/-- The first line of a stream ends at its first line feed. -/
theorem splitLine_line {line : List UInt8} (unbroken : lineFeed ∉ line) (rest : List UInt8) :
    splitLine (line ++ lineFeed :: rest) = (line ++ [lineFeed], rest) := by
  induction line with
  | nil => simp [splitLine]
  | cons b line ih =>
    simp only [List.mem_cons, not_or] at unbroken
    simp only [List.cons_append, splitLine, if_neg (Ne.symm unbroken.1), ih unbroken.2]

theorem splitLine_unbroken {s : List UInt8} (unbroken : lineFeed ∉ s) : splitLine s = (s, []) := by
  induction s with
  | nil => rfl
  | cons b s ih =>
    simp only [List.mem_cons, not_or] at unbroken
    simp only [splitLine, if_neg (Ne.symm unbroken.1), ih unbroken.2]

/-- A stream is taken line by line, the last of which may lack its line feed. -/
theorem line_induction {motive : List UInt8 → Prop}
    (unended : ∀ s, lineFeed ∉ s → motive s)
    (ended : ∀ line rest, lineFeed ∉ line → motive rest → motive (line ++ lineFeed :: rest))
    (s : List UInt8) : motive s := by
  generalize bound : s.length = n
  induction n using Nat.strongRecOn generalizing s with
  | ind n ih =>
    by_cases more : lineFeed ∈ s
    · obtain ⟨line, rest, rfl, unbroken⟩ := List.eq_append_cons_of_mem more
      apply ended line rest unbroken
      apply ih rest.length _ rest rfl
      rw [← bound, List.length_append, List.length_cons]
      omega
    · exact unended s more

/-- What is read behind a line of a header block, by what the line said. -/
def afterLine (length? : Option Nat) (rest : List UInt8) :
    Except FrameError HeaderLine → Except FrameError (Option Nat) × List UInt8
  | .error e => (.error e, rest)
  | .ok .blank =>
    match length? with
    | some n => (.ok (some n), rest)
    | none => (.error .lengthMissing, rest)
  | .ok (.length n) => readHeaders true (some n) rest
  | .ok .other => readHeaders true length? rest

/-- One line of a header block is read. -/
theorem readHeaders_line {line : List UInt8} (unbroken : lineFeed ∉ line) (begun : Bool)
    (length? : Option Nat) (rest : List UInt8) :
    readHeaders begun length? (line ++ lineFeed :: rest) =
      afterLine length? rest (HeaderLine.ofLine (line ++ [lineFeed])) := by
  have more : line ++ lineFeed :: rest ≠ [] :=
    List.append_ne_nil_of_right_ne_nil _ (List.cons_ne_nil _ _)
  rw [readHeaders, dif_neg more]
  simp only [splitLine_line unbroken]
  rfl

/-- The last line of a header block is read where the stream ends it. -/
theorem readHeaders_lastLine {line : List UInt8} (unbroken : lineFeed ∉ line) (more : line ≠ [])
    (begun : Bool) (length? : Option Nat) :
    readHeaders begun length? line = afterLine length? [] (HeaderLine.ofLine line) := by
  rw [readHeaders, dif_neg more]
  simp only [splitLine_unbroken unbroken]
  rfl

/-- A payload that the stream holds is read unless it is too long. -/
theorem readPayload_append {limit : Nat} {payload : List UInt8} (within : payload.length ≤ limit)
    (rest : List UInt8) : readPayload limit payload.length (payload ++ rest) = (.ok payload, rest) := by
  rw [readPayload, if_neg (Nat.not_lt.mpr within), if_pos (by simp)]
  simp

/-- A text is on one line if it has no line feed. -/
theorem lineFeed_not_mem_encode {cs : List Char} (unbroken : '\n' ∉ cs) :
    lineFeed ∉ Text.encode cs := by
  induction cs with
  | nil => exact List.not_mem_nil
  | cons c cs ih =>
    simp only [List.mem_cons, not_or] at unbroken
    obtain ⟨other, unbroken⟩ := unbroken
    rw [Text.encode_cons, List.mem_append, not_or]
    refine ⟨fun member => ?_, ih unbroken⟩
    by_cases small : c.toNat < 0x80
    · rw [Text.encodeChar_of_lt small, List.mem_singleton] at member
      have same : c.toNat = 10 := by
        rw [← Text.toNat_byte (show c.toNat < 256 by omega), ← member]
        rfl
      exact other (Char.toNat_inj.mp same).symm
    · have large := Text.le_of_mem_encodeChar (Nat.not_lt.mp small) _ member
      exact absurd large (by decide)

/-- The line feed behind a text is its last character. -/
theorem append_lineFeed (text : List Char) (rest : List UInt8) :
    Text.encode text ++ lineFeed :: rest = Text.encode (text ++ ['\n']) ++ rest := by
  rw [Text.encode_append, List.append_assoc]
  rfl

/-- A line of text is read as what its characters say. -/
theorem readHeaders_text {cs : List Char} (unbroken : '\n' ∉ cs) (begun : Bool)
    (length? : Option Nat) (rest : List UInt8) :
    readHeaders begun length? (Text.encode (cs ++ ['\n']) ++ rest) =
      afterLine length? rest (HeaderLine.ofText (cs ++ ['\n'])) := by
  have feed : Text.encode ['\n'] = [lineFeed] := rfl
  have meaning : HeaderLine.ofLine (Text.encode cs ++ [lineFeed]) = HeaderLine.ofText (cs ++ ['\n']) := by
    rw [← feed, ← Text.encode_append, HeaderLine.ofLine, Text.decode?, Text.decode_encode]
  rw [Text.encode_append, feed, List.append_assoc, List.singleton_append,
    readHeaders_line (lineFeed_not_mem_encode unbroken), meaning]

/-- Nothing is read at the end of a stream. -/
theorem read_nil (limit : Nat) : read limit [] = (.ok none, []) := by
  simp [read, readHeaders]

theorem readTimes_nil (limit n : Nat) : readTimes limit n [] = List.replicate n (.ok none) := by
  induction n with
  | zero => rfl
  | succ n ih => simp only [readTimes, read_nil, List.replicate_succ, ih]

theorem readAll_of_read_error {limit : Nat} {s rest : List UInt8} {e : FrameError}
    (broken : read limit s = (.error e, rest)) : readAll limit s = ([], .error e) := by
  rw [readAll]
  split
  case h_1 found =>
    rw [broken] at found
    obtain ⟨rfl, -⟩ : e = _ ∧ rest = _ := by simpa using found
    rfl
  all_goals
    rename_i found
    simp [broken] at found

theorem readAll_of_read_none {limit : Nat} {s rest : List UInt8}
    (ended : read limit s = (.ok none, rest)) : readAll limit s = ([], .ok ()) := by
  rw [readAll]
  split
  case h_2 => rfl
  all_goals
    rename_i found
    simp [ended] at found

theorem readAll_nil (limit : Nat) : readAll limit [] = ([], .ok ()) :=
  readAll_of_read_none (read_nil limit)

theorem readAll_of_read_some {limit : Nat} {s payload rest : List UInt8}
    (frame : read limit s = (.ok (some payload), rest)) :
    readAll limit s = (payload :: (readAll limit rest).1, (readAll limit rest).2) := by
  rw [readAll]
  split
  case h_3 found =>
    rw [frame] at found
    simp only [Prod.mk.injEq, Except.ok.injEq, Option.some.injEq] at found
    obtain ⟨rfl, rfl⟩ := found
    rfl
  all_goals
    rename_i found
    simp [frame] at found

end BuildServer.Frame
