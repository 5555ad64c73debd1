import BuildServer.Proofs.Frame.Reading
import BuildServer.Proofs.Text.Basic

/-! # The format of a frame

A frame is a block of headers, a line of blanks and a payload. A header is a line with a colon in it,
which sets the name apart from the value, so no header is a line of blanks. Only headers that are
named for the length count, all of which have to give one; the last one of them tells how long the
payload is. A reader takes a payload from a stream exactly where the stream begins with a frame of it.
-/

namespace BuildServer.Frame

/-- A name and a value around the first colon of a line. -/
structure Header where
  name : List Char
  value : List Char
  undivided : ':' ∉ name
  unbroken : '\n' ∉ name ++ ':' :: value

/-- What ends a line. -/
inductive LineEnd
  | feed
  | returned

/-- The characters that end a line. -/
def LineEnd.text : LineEnd → List Char
  | .feed => ['\n']
  | .returned => ['\r', '\n']

namespace Header

/-- The characters of a header. -/
def text (h : Header) : List Char := h.name ++ ':' :: h.value

/-- The line of a header. -/
def line (h : Header) (ending : LineEnd) : List UInt8 := Text.encode (h.text ++ ending.text)

/-- Whether a header is named for the length, in whatever case. -/
def isLength (h : Header) : Bool := Text.sameAscii (String.ofList (Text.trim h.name)) lengthHeader

/-- The length that the value of a header is. -/
def length (h : Header) : Except FrameError Nat :=
  match Text.word? (Text.trim h.value) with
  | some n => .ok n
  | none => .error (.headerInvalid (String.ofList (Text.trim h.text)))

/-- What a header says. -/
def meaning (h : Header) : Except FrameError HeaderLine :=
  if h.isLength then h.length.map .length else .ok .other

end Header

/-- The headers that are named for the length. -/
def lengthHeaders (headers : List Header) : List Header := headers.filter (·.isLength)

/-- The lengths that headers give, or the failure of the first one that is to give one and does not. -/
def lengths (headers : List Header) : Except FrameError (List Nat) :=
  (lengthHeaders headers).mapM Header.length

/-- Headers, each on a line that ends in its own way. -/
def lines (headers : List (Header × LineEnd)) : List UInt8 :=
  headers.flatMap fun (h, ending) => h.line ending

/-- A line of blanks and what follows it: the line may end with the stream if it is not empty. -/
inductive EndsBlock : List UInt8 → List UInt8 → Prop
  | line {cs : List Char} (blank : ∀ c ∈ cs, Text.isBlank c = true) (unbroken : '\n' ∉ cs)
      (rest : List UInt8) : EndsBlock (Text.encode (cs ++ ['\n'])) rest
  | stream {cs : List Char} (more : cs ≠ []) (blank : ∀ c ∈ cs, Text.isBlank c = true)
      (unbroken : '\n' ∉ cs) : EndsBlock (Text.encode cs) []

/-- A stream begins with a block of headers that give these lengths, and goes on with the rest. -/
def Block (s : List UInt8) (given : List Nat) (rest : List UInt8) : Prop :=
  ∃ (headers : List Header) (blank : List UInt8),
    s = headers.flatMap (·.line .feed) ++ (blank ++ rest) ∧ EndsBlock blank rest ∧
      lengths headers = .ok given

/-- A stream begins with a frame of the payload, which is no longer than the limit. -/
def Framed (limit : Nat) (s payload rest : List UInt8) : Prop :=
  payload.length ≤ limit ∧
    ∃ given, Block s given (payload ++ rest) ∧ given.getLast? = some payload.length

theorem lineFeed_mem_encode {cs : List Char} (broken : '\n' ∈ cs) : lineFeed ∈ Text.encode cs :=
  List.mem_flatMap.mpr ⟨'\n', broken, List.mem_singleton.mpr rfl⟩

/-- A line that is text ends with the line feed as a character. -/
theorem exists_text_of_line {line : List UInt8} (unbroken : lineFeed ∉ line) {cs : List Char}
    (whole : line ++ [lineFeed] = Text.encode cs) :
    ∃ text, cs = text ++ ['\n'] ∧ line = Text.encode text ∧ '\n' ∉ text := by
  have broken : '\n' ∈ cs := by
    by_contra absent
    have feed : lineFeed ∈ line ++ [lineFeed] := by simp
    exact lineFeed_not_mem_encode absent (whole ▸ feed)
  obtain ⟨text, back, rfl, clean⟩ := List.eq_append_cons_of_mem broken
  rw [Text.encode_append, Text.encode_cons, Text.encodeChar_of_lt (by decide)] at whole
  have split := congrArg splitLine whole
  change splitLine (line ++ lineFeed :: []) =
    splitLine (Text.encode text ++ lineFeed :: Text.encode back) at split
  rw [splitLine_line unbroken, splitLine_line (lineFeed_not_mem_encode clean)] at split
  obtain ⟨same, nothing⟩ := Prod.mk.inj split
  exact ⟨text, by rw [Text.eq_nil_of_encode nothing.symm], List.append_cancel_right same, clean⟩

theorem blank_feed : ∀ c ∈ ['\n'], Text.isBlank c = true := List.forall_mem_singleton.mpr rfl

/-- What ends a line is blank. -/
theorem LineEnd.blank (ending : LineEnd) : ∀ c ∈ ending.text, Text.isBlank c = true := by
  cases ending with
  | feed => exact blank_feed
  | returned => exact List.forall_mem_cons.mpr ⟨rfl, blank_feed⟩

theorem LineEnd.exists_front (ending : LineEnd) :
    ∃ front, ending.text = front ++ ['\n'] ∧ '\n' ∉ front := by
  cases ending with
  | feed => exact ⟨[], rfl, List.not_mem_nil⟩
  | returned => exact ⟨['\r'], rfl, by decide⟩

/-- A line with a colon is a header. -/
theorem exists_header {text : List Char} (unbroken : '\n' ∉ text) (divided : ':' ∈ text) :
    ∃ h : Header, h.text = text := by
  obtain ⟨name, value, rfl, undivided⟩ := List.eq_append_cons_of_mem divided
  exact ⟨⟨name, value, undivided, unbroken⟩, rfl⟩

/-- A header is read as what it says, whatever ends its line. -/
theorem ofText_header (h : Header) {ending : List Char}
    (blank : ∀ c ∈ ending, Text.isBlank c = true) :
    HeaderLine.ofText (h.text ++ ending) = h.meaning := by
  have trimmed : Text.trim h.text = Text.trimFront h.name ++ ':' :: Text.trimBack h.value :=
    Text.trim_divided rfl _ _
  have divided : Text.splitAtFirst? ':' (Text.trim h.text) =
      some (Text.trimFront h.name, Text.trimBack h.value) := by
    rw [trimmed]
    exact Text.splitAtFirst?_append (fun member => h.undivided (Text.mem_of_mem_trimFront member)) _
  have solid : Text.trim h.text ≠ [] := by rw [trimmed]; simp
  rw [HeaderLine.ofText, Text.trim_append_right blank]
  simp only [List.isEmpty_eq_false_iff.mpr solid, Bool.false_eq_true, if_false, divided,
    Text.trim_trimFront, Text.trim_trimBack]
  rw [Header.meaning, Header.length]
  cases Text.word? (Text.trim h.value) <;> rfl

/-- A line without a colon says nothing unless it is blank, and then it ends the block. -/
theorem ofText_undivided {cs : List Char} (undivided : ':' ∉ cs) {said : HeaderLine}
    (read : HeaderLine.ofText cs = .ok said) : said = .blank ∧ ∀ c ∈ cs, Text.isBlank c = true := by
  rw [HeaderLine.ofText] at read
  split at read
  next nothing =>
    exact ⟨(Except.ok.inj read).symm, Text.trim_eq_nil_iff.mp (List.isEmpty_iff.mp nothing)⟩
  next =>
    rw [Text.splitAtFirst?_eq_none fun member => undivided (Text.mem_of_mem_trim member)] at read
    contradiction

/-- A line of blanks ends the block. -/
theorem ofText_blank {cs : List Char} (blank : ∀ c ∈ cs, Text.isBlank c = true) :
    HeaderLine.ofText cs = .ok .blank := by
  rw [HeaderLine.ofText, Text.trim_eq_nil_iff.mpr blank]
  rfl

/-- A line that is no failure is a line of blanks or a header. -/
theorem ofText_cases {text ending : List Char} (unbroken : '\n' ∉ text)
    (ended : ∀ c ∈ ending, Text.isBlank c = true) {said : HeaderLine}
    (read : HeaderLine.ofText (text ++ ending) = .ok said) :
    (said = .blank ∧ ∀ c ∈ text, Text.isBlank c = true) ∨
      ∃ h : Header, h.text = text ∧ h.meaning = .ok said := by
  by_cases divided : ':' ∈ text
  · obtain ⟨h, rfl⟩ := exists_header unbroken divided
    exact .inr ⟨h, rfl, (ofText_header h ended).symm.trans read⟩
  · have undivided : ':' ∉ text ++ ending := by
      intro member
      rcases List.mem_append.mp member with inside | behind
      · exact divided inside
      · exact absurd (ended _ behind) (by decide)
    obtain ⟨blank, blanks⟩ := ofText_undivided undivided read
    exact .inl ⟨blank, fun c member => blanks c (List.mem_append_left _ member)⟩

namespace Header

theorem meaning_of_isLength {h : Header} (named : h.isLength = true) :
    h.meaning = h.length.map .length := if_pos named

theorem meaning_of_not_isLength {h : Header} (other : h.isLength = false) : h.meaning = .ok .other :=
  if_neg (Bool.eq_false_iff.mp other)

end Header

theorem lengths_cons (h : Header) (headers : List Header) :
    lengths (h :: headers) =
      if h.isLength then do
        let n ← h.length
        let given ← lengths headers
        pure (n :: given)
      else lengths headers := by
  rw [lengths, lengthHeaders, List.filter_cons]
  split
  · rw [List.mapM_cons]
    rfl
  · rfl

theorem getLast?_cons_or {α : Type} (a : α) (items : List α) (before : Option α) :
    (a :: items).getLast?.or before = items.getLast?.or (some a) := by
  rw [List.getLast?_cons]
  cases items.getLast? <;> rfl

/-- A header is read as what it says. -/
theorem readHeaders_header (h : Header) (ending : LineEnd) (begun : Bool) (length? : Option Nat)
    (rest : List UInt8) :
    readHeaders begun length? (h.line ending ++ rest) = afterLine length? rest h.meaning := by
  obtain ⟨front, ended, clean⟩ := ending.exists_front
  have unbroken : '\n' ∉ h.text ++ front := by
    rw [List.mem_append, not_or]
    exact ⟨h.unbroken, clean⟩
  rw [Header.line, ended, ← List.append_assoc, readHeaders_text unbroken, List.append_assoc, ← ended,
    ofText_header h ending.blank]

/-- The end of a block is read as such. -/
theorem EndsBlock.read {blank rest : List UInt8} (ends : EndsBlock blank rest) (begun : Bool)
    (length? : Option Nat) :
    readHeaders begun length? (blank ++ rest) = afterLine length? rest (.ok .blank) := by
  cases ends with
  | @line cs blank unbroken rest =>
    have blanks : ∀ c ∈ cs ++ ['\n'], Text.isBlank c = true :=
      List.forall_mem_append.mpr ⟨blank, blank_feed⟩
    rw [readHeaders_text unbroken, ofText_blank blanks]
  | @stream cs more blank unbroken =>
    have bytes : Text.encode cs ≠ [] := fun nothing => more (Text.eq_nil_of_encode nothing)
    rw [List.append_nil, readHeaders_lastLine (lineFeed_not_mem_encode unbroken) bytes,
      HeaderLine.ofLine, Text.decode?_eq_some_iff.mpr rfl]
    exact congrArg _ (ofText_blank blank)

/-- A block of headers is read up to its line of blanks, and the last length counts, unless a header
that is to give a length gives none; other headers, and how the lines end, make no difference. A length
may have been given before, which every other one replaces. -/
theorem readHeaders_lines {blank rest : List UInt8} (ends : EndsBlock blank rest)
    (headers : List (Header × LineEnd)) (begun : Bool) (length? : Option Nat) :
    (∀ given, lengths (headers.map Prod.fst) = .ok given →
      readHeaders begun length? (lines headers ++ (blank ++ rest)) =
        afterLine (given.getLast?.or length?) rest (.ok .blank)) ∧
    (∀ e, lengths (headers.map Prod.fst) = .error e →
      (readHeaders begun length? (lines headers ++ (blank ++ rest))).1 = .error e) := by
  induction headers generalizing begun length? with
  | nil =>
    refine ⟨fun given nothing => ?_, fun e failed => by cases failed⟩
    obtain rfl := Except.ok.inj nothing
    exact ends.read begun length?
  | cons first headers ih =>
    obtain ⟨h, ending⟩ := first
    rw [lines, List.flatMap_cons, List.append_assoc, readHeaders_header, List.map_cons, lengths_cons]
    cases named : h.isLength with
    | false =>
      rw [h.meaning_of_not_isLength named]
      exact ih true length?
    | true =>
      rw [h.meaning_of_isLength named]
      cases h.length with
      | ok n =>
        obtain ⟨read, failed⟩ := ih true (some n)
        cases others : lengths (headers.map Prod.fst) with
        | ok given =>
          refine ⟨fun all joined => ?_, fun e failed => by cases failed⟩
          obtain rfl := Except.ok.inj joined
          rw [getLast?_cons_or]
          exact read given others
        | error e =>
          refine ⟨fun all joined => (by cases joined), fun e' same => ?_⟩
          obtain rfl := Except.error.inj same
          exact failed e others
      | error e =>
        refine ⟨fun all joined => (by cases joined), fun e' same => ?_⟩
        obtain rfl := Except.error.inj same
        rfl

/-- The lengths that a line of a block gives. -/
def HeaderLine.lengths : HeaderLine → List Nat
  | .length n => [n]
  | _ => []

theorem Block.blank {blank rest : List UInt8} (ends : EndsBlock blank rest) :
    Block (blank ++ rest) [] rest := ⟨[], blank, rfl, ends, rfl⟩

/-- A header in front of a block makes it a block again, with one more length if it gives one. -/
theorem Block.cons {h : Header} {said : HeaderLine} (meaning : h.meaning = .ok said)
    {s rest : List UInt8} {given : List Nat} (block : Block s given rest) :
    Block (h.line .feed ++ s) (said.lengths ++ given) rest := by
  obtain ⟨headers, blank, rfl, ends, known⟩ := block
  refine ⟨h :: headers, blank, ?_, ends, ?_⟩
  · rw [List.flatMap_cons, List.append_assoc]
  · rw [lengths_cons, known]
    cases named : h.isLength with
    | false =>
      obtain rfl : HeaderLine.other = said := Except.ok.inj (h.meaning_of_not_isLength named ▸ meaning)
      rfl
    | true =>
      rw [h.meaning_of_isLength named] at meaning
      cases number : h.length with
      | ok n =>
        rw [number] at meaning
        obtain rfl := Except.ok.inj meaning
        rfl
      | error e => rw [number] at meaning; cases meaning

/-- A header does not say that it is blank. -/
theorem Header.meaning_ne_blank (h : Header) : h.meaning ≠ .ok .blank := by
  rw [meaning]
  split
  · cases h.length <;> nofun
  · nofun

/-- Where a length is read, the line was understood. -/
theorem exists_said {length? : Option Nat} {left rest : List UInt8} {n : Nat}
    {result : Except FrameError HeaderLine}
    (read : afterLine length? left result = (.ok (some n), rest)) : ∃ said, result = .ok said := by
  cases result with
  | error e => cases read
  | ok said => exact ⟨said, rfl⟩

theorem ofLine_eq_ok_iff {bytes : List UInt8} {said : HeaderLine} :
    HeaderLine.ofLine bytes = .ok said ↔
      ∃ cs, bytes = Text.encode cs ∧ HeaderLine.ofText cs = .ok said := by
  rw [HeaderLine.ofLine]
  constructor
  · intro read
    cases decoded : Text.decode? bytes with
    | none => rw [decoded] at read; cases read
    | some cs =>
      rw [decoded] at read
      exact ⟨cs, Text.decode?_eq_some_iff.mp decoded, read⟩
  · rintro ⟨cs, rfl, read⟩
    rwa [Text.decode?_eq_some_iff.mpr rfl]

theorem afterLine_blank {length? : Option Nat} {left rest : List UInt8} {n : Nat}
    (read : afterLine length? left (.ok .blank) = (.ok (some n), rest)) :
    length? = some n ∧ left = rest := by
  cases length? with
  | none => cases read
  | some m =>
    cases read
    exact ⟨rfl, rfl⟩

/-- No length is read where the stream has ended. -/
theorem readHeaders_nil_ne (begun : Bool) (length? : Option Nat) (n : Nat) (rest : List UInt8) :
    readHeaders begun length? [] ≠ (.ok (some n), rest) := by
  rw [readHeaders, dif_pos rfl]
  cases begun <;> simp

/-- A length is read from a block only: it is the last one that is given there, or else the one that
was given before. -/
theorem exists_block {begun : Bool} {length? : Option Nat} {s rest : List UInt8} {n : Nat}
    (read : readHeaders begun length? s = (.ok (some n), rest)) :
    ∃ given, Block s given rest ∧ given.getLast?.or length? = some n := by
  induction s using line_induction generalizing begun length? with
  | unended s unbroken =>
    have more : s ≠ [] := fun nothing => readHeaders_nil_ne _ _ _ _ (nothing ▸ read)
    rw [readHeaders_lastLine unbroken more] at read
    obtain ⟨said, understood⟩ := exists_said read
    obtain ⟨text, rfl, meaning⟩ := ofLine_eq_ok_iff.mp understood
    have clean : '\n' ∉ text := fun broken => unbroken (lineFeed_mem_encode broken)
    rw [understood] at read
    rw [← List.append_nil text] at meaning
    rcases ofText_cases clean (List.forall_mem_nil _) meaning with ⟨rfl, blank⟩ | ⟨h, -, spoken⟩
    · obtain ⟨rfl, rfl⟩ := afterLine_blank read
      have ends : EndsBlock (Text.encode text) [] :=
        .stream (fun nothing => more (nothing ▸ Text.encode_nil)) blank clean
      exact ⟨[], List.append_nil (Text.encode text) ▸ Block.blank ends, rfl⟩
    · cases said with
      | blank => exact absurd spoken h.meaning_ne_blank
      | length m => exact absurd read (readHeaders_nil_ne _ _ _ _)
      | other => exact absurd read (readHeaders_nil_ne _ _ _ _)
  | ended line left unbroken ih =>
    rw [readHeaders_line unbroken] at read
    obtain ⟨said, understood⟩ := exists_said read
    obtain ⟨cs, whole, meaning⟩ := ofLine_eq_ok_iff.mp understood
    obtain ⟨text, rfl, rfl, clean⟩ := exists_text_of_line unbroken whole
    rw [understood] at read
    rw [append_lineFeed]
    rcases ofText_cases clean blank_feed meaning with ⟨rfl, blank⟩ | ⟨h, rfl, spoken⟩
    · obtain ⟨rfl, rfl⟩ := afterLine_blank read
      exact ⟨[], Block.blank (.line blank clean left), rfl⟩
    · cases said with
      | blank => exact absurd spoken h.meaning_ne_blank
      | length m =>
        obtain ⟨given, block, last⟩ := ih read
        exact ⟨m :: given, block.cons spoken, getLast?_cons_or m given length? ▸ last⟩
      | other =>
        obtain ⟨given, block, last⟩ := ih read
        exact ⟨given, block.cons spoken, last⟩

/-- From a block the last length that is given there is read. -/
theorem Block.read {s rest : List UInt8} {given : List Nat} (block : Block s given rest)
    (begun : Bool) (length? : Option Nat) :
    readHeaders begun length? s = afterLine (given.getLast?.or length?) rest (.ok .blank) := by
  obtain ⟨headers, blank, rfl, ends, known⟩ := block
  have same : (headers.map (·, LineEnd.feed)).map Prod.fst = headers := by
    rw [List.map_map]
    exact List.map_id headers
  have fed : headers.flatMap (·.line .feed) = lines (headers.map (·, LineEnd.feed)) := by
    rw [lines, List.flatMap_map]
  rw [fed]
  exact (readHeaders_lines ends _ begun length?).1 given (same.symm ▸ known)

/-- A payload is read where the stream goes on with it and it is no longer than the limit. -/
theorem readPayload_eq_ok_iff {limit n : Nat} {s payload rest : List UInt8} :
    readPayload limit n s = (.ok payload, rest) ↔
      n ≤ limit ∧ s = payload ++ rest ∧ payload.length = n := by
  constructor
  · intro read
    rw [readPayload] at read
    split at read
    next => cases read
    next within =>
      split at read
      next held =>
        cases read
        exact ⟨Nat.not_lt.mp within, (List.take_append_drop n s).symm, List.length_take_of_le held⟩
      next => split at read <;> (try split at read) <;> cases read
  · rintro ⟨within, rfl, rfl⟩
    exact readPayload_append within rest

/-- A payload is taken from a stream exactly where the stream begins with a frame of it. -/
theorem read_eq_ok_iff {limit : Nat} {s payload rest : List UInt8} :
    read limit s = (.ok (some payload), rest) ↔ Framed limit s payload rest := by
  constructor
  · intro taken
    rw [read] at taken
    split at taken
    next => cases taken
    next => cases taken
    next n left headers =>
      cases payloads : readPayload limit n left with
      | mk result behind =>
        rw [payloads] at taken
        cases result with
        | error e => cases taken
        | ok found =>
          cases taken
          obtain ⟨within, rfl, rfl⟩ := readPayload_eq_ok_iff.mp payloads
          obtain ⟨given, block, last⟩ := exists_block headers
          exact ⟨within, given, block, by simpa using last⟩
  · rintro ⟨within, given, block, last⟩
    have headers := block.read false none
    rw [Option.or_none, last] at headers
    rw [read, headers]
    simp only [afterLine, readPayload_append within]
    rfl

/-- Reading looks at nothing but the lengths that the headers give, if they all do. -/
theorem read_lines_of_lengths {limit : Nat} {headers headers' : List (Header × LineEnd)}
    {given : List Nat} (known : lengths (headers.map Prod.fst) = .ok given)
    (known' : lengths (headers'.map Prod.fst) = .ok given) {blank blank' rest : List UInt8}
    (ends : EndsBlock blank rest) (ends' : EndsBlock blank' rest) :
    read limit (lines headers ++ (blank ++ rest)) = read limit (lines headers' ++ (blank' ++ rest)) := by
  rw [read, read, (readHeaders_lines ends headers false none).1 given known,
    (readHeaders_lines ends' headers' false none).1 given known']

theorem read_of_headers_error {limit : Nat} {s : List UInt8} {e : FrameError}
    (failed : (readHeaders false none s).1 = .error e) : (read limit s).1 = .error e := by
  rw [read]
  split
  next found =>
    rw [found] at failed
    obtain rfl := Except.error.inj failed
    rfl
  next found => rw [found] at failed; cases failed
  next found => rw [found] at failed; cases failed

/-- The result is the same whatever the other headers are, wherever they stand and however the lines
end. -/
theorem read_lines_of_lengthHeaders {limit : Nat} {headers headers' : List (Header × LineEnd)}
    (same : lengthHeaders (headers.map Prod.fst) = lengthHeaders (headers'.map Prod.fst))
    {blank blank' rest : List UInt8} (ends : EndsBlock blank rest) (ends' : EndsBlock blank' rest) :
    (read limit (lines headers ++ (blank ++ rest))).1 =
      (read limit (lines headers' ++ (blank' ++ rest))).1 := by
  have equal : lengths (headers.map Prod.fst) = lengths (headers'.map Prod.fst) := by
    rw [lengths, same, lengths]
  cases known : lengths (headers.map Prod.fst) with
  | ok given => rw [read_lines_of_lengths known (equal ▸ known) ends ends']
  | error e =>
    rw [read_of_headers_error ((readHeaders_lines ends headers false none).2 e known),
      read_of_headers_error ((readHeaders_lines ends' headers' false none).2 e (equal ▸ known))]

/-- A reader takes a payload exactly where the stream begins with a frame of it, so none is longer
than the limit. The lengths that the headers give make all of the difference that headers can make,
and the headers that are named for the length do where one of them gives none. -/
theorem reader_takes_frames (limit : Nat) :
    (∀ s payload rest, read limit s = (.ok (some payload), rest) ↔ Framed limit s payload rest) ∧
    (∀ s payload rest, read limit s = (.ok (some payload), rest) → payload.length ≤ limit) ∧
    ∀ (headers headers' : List (Header × LineEnd)) (blank blank' rest : List UInt8),
      EndsBlock blank rest → EndsBlock blank' rest →
        (lengthHeaders (headers.map Prod.fst) = lengthHeaders (headers'.map Prod.fst) →
          (read limit (lines headers ++ (blank ++ rest))).1 =
            (read limit (lines headers' ++ (blank' ++ rest))).1) ∧
        ∀ given, lengths (headers.map Prod.fst) = .ok given →
          lengths (headers'.map Prod.fst) = .ok given →
          read limit (lines headers ++ (blank ++ rest)) =
            read limit (lines headers' ++ (blank' ++ rest)) := by
  refine ⟨fun s payload rest => read_eq_ok_iff, ?_, ?_⟩
  · intro s payload rest taken
    obtain ⟨within, -⟩ := read_eq_ok_iff.mp taken
    exact within
  · intro headers headers' blank blank' rest ends ends'
    constructor
    · intro same
      exact read_lines_of_lengthHeaders same ends ends'
    · intro given known known'
      exact read_lines_of_lengths known known' ends ends'

/-- Two headers that are named for the length, in different case, and one that is not. -/
def longLength : Header := ⟨"content-LENGTH ".toList, " 9".toList, by decide, by decide⟩

def shortLength : Header := ⟨"Content-Length".toList, "2 ".toList, by decide, by decide⟩

def contentKind : Header := ⟨"Content-Type".toList, "a:b".toList, by decide, by decide⟩

/-- The last length counts, and the frame is as good with its headers rearranged. -/
theorem short_payload_taken :
    read 2 (lines [(longLength, .feed), (contentKind, .feed), (shortLength, .feed)] ++
        (Text.encode " \r\n".toList ++ [104, 105, 33])) = (.ok (some [104, 105]), [33]) ∧
      read 2 (lines [(contentKind, .returned), (longLength, .returned), (shortLength, .returned)] ++
        (Text.encode "\n".toList ++ [104, 105, 33])) = (.ok (some [104, 105]), [33]) := by
  have ends : EndsBlock (Text.encode " \r\n".toList) [104, 105, 33] :=
    @EndsBlock.line [' ', '\r']
      (List.forall_mem_cons.mpr ⟨rfl, List.forall_mem_singleton.mpr rfl⟩) (by decide) _
  have ends' : EndsBlock (Text.encode "\n".toList) [104, 105, 33] :=
    @EndsBlock.line [] (List.forall_mem_nil _) (by decide) _
  have known : lengths [longLength, contentKind, shortLength] = .ok [9, 2] := by decide +kernel
  have known' : lengths [contentKind, longLength, shortLength] = .ok [9, 2] := by decide +kernel
  obtain ⟨exactly, -, indifferent⟩ := reader_takes_frames 2
  have taken := (exactly _ [104, 105] [33]).mpr
    ⟨by decide, [9, 2], ⟨[longLength, contentKind, shortLength], _, rfl, ends, known⟩, rfl⟩
  refine ⟨taken, ?_⟩
  have same := (indifferent
    [(contentKind, .returned), (longLength, .returned), (shortLength, .returned)]
    [(longLength, .feed), (contentKind, .feed), (shortLength, .feed)] _ _ _ ends' ends).2
  exact (same [9, 2] known' known).trans taken

end BuildServer.Frame
