import BuildServer.Json.Reading
import BuildServer.Proofs.Json.Quoting

/-! # Reading a written document

The text of a document scans as its tokens, and its tokens are assembled to the document unless it
holds more containers in one another than the reader has room for. Writing has no such bound, so the
document is then refused at the bracket that goes too far.
-/

namespace BuildServer.Json

/-- Parts with a comma between neighbours. -/
def commaTokens : List (List Token) → List Token
  | [] => []
  | [part] => part
  | part :: parts => part ++ .comma :: commaTokens parts

namespace Document

mutual

/-- The tokens of a document's text. -/
def tokens : Document → List Token
  | .null => [.null]
  | .bool b => [.bool b]
  | .number n => [.number n]
  | .string s => [.string s]
  | .array items => .openBracket :: commaTokens (itemTokens items) ++ [.closeBracket]
  | .object members => .openBrace :: commaTokens (memberTokens members) ++ [.closeBrace]

/-- The tokens of each item of an array. -/
def itemTokens : List Document → List (List Token)
  | [] => []
  | d :: ds => tokens d :: itemTokens ds

/-- The tokens of each member of an object. -/
def memberTokens : List (String × Document) → List (List Token)
  | [] => []
  | (key, d) :: members => (.string key :: .colon :: tokens d) :: memberTokens members

end

mutual

/-- The numbers of a document. -/
def numbers : Document → List Number
  | .number n => [n]
  | .array items => itemNumbers items
  | .object members => memberNumbers members
  | _ => []

/-- The numbers in the items of an array. -/
def itemNumbers : List Document → List Number
  | [] => []
  | d :: ds => numbers d ++ itemNumbers ds

/-- The numbers in the members of an object. -/
def memberNumbers : List (String × Document) → List Number
  | [] => []
  | (_, d) :: members => numbers d ++ memberNumbers members

end

mutual

/-- How many containers are open around each other at most. -/
def nesting : Document → Nat
  | .array items => itemNesting items + 1
  | .object members => memberNesting members + 1
  | _ => 0

/-- The deepest nesting of an item. -/
def itemNesting : List Document → Nat
  | [] => 0
  | d :: ds => max (nesting d) (itemNesting ds)

/-- The deepest nesting of a member. -/
def memberNesting : List (String × Document) → Nat
  | [] => 0
  | (_, d) :: members => max (nesting d) (memberNesting members)

end

end Document

open Document

variable {rest : List UInt8}

/-- Runs with a comma between them. -/
theorem Runs.comma {first second : List UInt8} {ts us : List Token}
    (front : Runs .blank first .blank ts (44 :: (second ++ rest)))
    (back : Runs .blank second .blank us rest) :
    Runs .blank (first ++ 44 :: second) .blank (ts ++ .comma :: us) rest :=
  front.append ((runs_mark rfl).append back)

/-- A run between brackets. -/
theorem Runs.enclosed {opening closing : UInt8} {o c : Token} {inner : List UInt8} {ts : List Token}
    (opens : mark? opening = some o) (closes : mark? closing = some c)
    (inside : Runs .blank inner .blank ts (closing :: rest)) :
    Runs .blank (opening :: (inner ++ [closing])) .blank (o :: (ts ++ [c])) rest :=
  (runs_mark opens).append (inside.append (runs_mark closes))

theorem encode_mark {c : Char} {b : UInt8} (written : Text.encodeChar c = [b]) (cs : List Char) :
    Text.encode (c :: cs) = b :: Text.encode cs := by
  rw [Text.encode_cons, written]
  rfl

theorem encodeChar_openBracket : Text.encodeChar '[' = [91] := by decide

theorem encodeChar_closeBracket : Text.encodeChar ']' = [93] := by decide

theorem encodeChar_openBrace : Text.encodeChar '\x7b' = [123] := by decide

theorem encodeChar_closeBrace : Text.encodeChar '\x7d' = [125] := by decide

theorem encodeChar_comma : Text.encodeChar ',' = [44] := by decide

theorem encodeChar_colon : Text.encodeChar ':' = [58] := by decide

theorem delimited_cons {b : UInt8} (delimiter : b = 44 ∨ b = 93 ∨ b = 125) (rest : List UInt8) :
    Delimited (b :: rest) := by
  intro c first
  obtain rfl := Option.some.inj first
  exact delimiter

/-- A key in front of a value. -/
theorem runs_member (key : String) {value : List Char} {ts : List Token} {rest : List UInt8}
    (run : Runs .blank (Text.encode value) .blank ts rest) :
    Runs .blank (Text.encode (stringText key ++ ':' :: value)) .blank (.string key :: .colon :: ts)
      rest := by
  rw [Text.encode_append, encode_mark encodeChar_colon]
  exact (runs_string key).append ((runs_mark rfl).append run)

mutual

/-- The text of a document scans as its tokens. -/
theorem runs_document (d : Document) (legible : ∀ n ∈ d.numbers, n.Legible) {rest : List UInt8}
    (delimited : Delimited rest) : Runs .blank (Text.encode d.text) .blank d.tokens rest := by
  match d with
  | .null => exact runs_null
  | .bool b => exact runs_bool b
  | .number n =>
    simp only [Document.text, tokens]
    exact runs_number (legible n (by simp [numbers])) delimited
  | .string s =>
    simp only [Document.text, tokens]
    exact runs_string s
  | .array items =>
    have inside := runs_items items legible (delimited_cons (.inr (.inl rfl)) rest)
    simpa only [Document.text, tokens, List.cons_append, encode_mark encodeChar_openBracket,
      Text.encode_append, encode_mark encodeChar_closeBracket, Text.encode_nil]
      using inside.enclosed rfl rfl
  | .object members =>
    have inside := runs_members members legible (delimited_cons (.inr (.inr rfl)) rest)
    simpa only [Document.text, tokens, List.cons_append, encode_mark encodeChar_openBrace,
      Text.encode_append, encode_mark encodeChar_closeBrace, Text.encode_nil]
      using inside.enclosed rfl rfl

theorem runs_items (ds : List Document) (legible : ∀ n ∈ itemNumbers ds, n.Legible)
    {rest : List UInt8} (delimited : Delimited rest) :
    Runs .blank (Text.encode (commaJoin (itemTexts ds))) .blank (commaTokens (itemTokens ds)) rest := by
  match ds with
  | [] => exact Runs.nil _ _
  | [d] =>
    exact runs_document d (fun n member => legible n (List.mem_append_left _ member)) delimited
  | d :: e :: ds =>
    have first := runs_document d (fun n member => legible n (List.mem_append_left _ member))
      (delimited_cons (.inl rfl) (Text.encode (commaJoin (itemTexts (e :: ds))) ++ rest))
    have others := runs_items (e :: ds)
      (fun n member => legible n (List.mem_append_right _ member))
      delimited
    simpa only [itemTexts, itemTokens, commaJoin, commaTokens, Text.encode_append,
      encode_mark encodeChar_comma] using first.comma others

theorem runs_members (members : List (String × Document))
    (legible : ∀ n ∈ memberNumbers members, n.Legible) {rest : List UInt8}
    (delimited : Delimited rest) :
    Runs .blank (Text.encode (commaJoin (memberTexts members))) .blank
      (commaTokens (memberTokens members)) rest := by
  match members with
  | [] => exact Runs.nil _ _
  | [(key, d)] =>
    have value := runs_document d (fun n member => legible n (List.mem_append_left _ member)) delimited
    simpa only [memberTexts, memberTokens, commaJoin, commaTokens] using runs_member key value
  | (key, d) :: e :: members =>
    have value := runs_document d (fun n member => legible n (List.mem_append_left _ member))
      (delimited_cons (.inl rfl) (Text.encode (commaJoin (memberTexts (e :: members))) ++ rest))
    have others := runs_members (e :: members)
      (fun n member => legible n (List.mem_append_right _ member))
      delimited
    simpa only [memberTexts, memberTokens, commaJoin, commaTokens, Text.encode_append,
      encode_mark encodeChar_comma] using (runs_member key value).comma others

end

/-- Lexemes with these tokens take a reading from `a` to `b`, wherever they start. -/
def Assembles (a : Assembly) (ts : List Token) (b : Assembly) : Prop :=
  ∀ lexemes : List Lexeme, lexemes.map (·.token) = ts → lexemes.foldlM Assembly.step a = .ok b

/-- Lexemes with these tokens are refused as nested too deeply, wherever they start. -/
def Refuses (a : Assembly) (ts : List Token) : Prop :=
  ∀ lexemes : List Lexeme, lexemes.map (·.token) = ts →
    ∃ place, lexemes.foldlM Assembly.step a = .error ⟨.nestingTooDeep, place, 0⟩

variable {a b c : Assembly} {ts us : List Token}

theorem Assembles.single {t : Token} (steps : ∀ start, a.step ⟨start, t⟩ = .ok b) :
    Assembles a [t] b := by
  intro lexemes same
  obtain ⟨⟨start, token⟩, rfl, rfl⟩ := List.map_eq_singleton_iff.mp same
  rw [List.foldlM_cons, steps]
  rfl

theorem Assembles.append (front : Assembles a ts b) (back : Assembles b us c) :
    Assembles a (ts ++ us) c := by
  intro lexemes same
  obtain ⟨first, second, rfl, firstTokens, secondTokens⟩ := List.map_eq_append_iff.mp same
  rw [List.foldlM_append, front first firstTokens]
  exact back second secondTokens

theorem Refuses.single {t : Token} (refused : ∀ start, ∃ place,
    a.step ⟨start, t⟩ = .error ⟨.nestingTooDeep, place, 0⟩) : Refuses a [t] := by
  intro lexemes same
  obtain ⟨⟨start, token⟩, rfl, rfl⟩ := List.map_eq_singleton_iff.mp same
  obtain ⟨place, refusal⟩ := refused start
  exact ⟨place, by rw [List.foldlM_cons, refusal]; rfl⟩

/-- A refusal is not made good by what follows. -/
theorem Refuses.front (refused : Refuses a ts) (us : List Token) : Refuses a (ts ++ us) := by
  intro lexemes same
  obtain ⟨first, second, rfl, firstTokens, -⟩ := List.map_eq_append_iff.mp same
  obtain ⟨place, refusal⟩ := refused first firstTokens
  exact ⟨place, by rw [List.foldlM_append, refusal]; rfl⟩

theorem Assembles.refuses (front : Assembles a ts b) (refused : Refuses b us) :
    Refuses a (ts ++ us) := by
  intro lexemes same
  obtain ⟨first, second, rfl, firstTokens, secondTokens⟩ := List.map_eq_append_iff.mp same
  obtain ⟨place, refusal⟩ := refused second secondTokens
  exact ⟨place, by rw [List.foldlM_append, front first firstTokens]; exact refusal⟩

/-- Whether a value may come next. -/
def Goal.Due (goal : Goal) : Prop := goal = .value ∨ goal = .firstItem ∨ goal = .nextItem

/-- Whether a key may come next, after the members so far. -/
def Goal.KeyDue (goal : Goal) (members : List (String × Document)) : Prop :=
  goal = .nextKey members ∨ goal = .firstKey ∧ members = []

variable {goal : Goal} {frames : List Frame}

theorem step_due (due : goal.Due) {lexeme : Lexeme} (opens : lexeme.token ≠ .closeBracket) :
    Assembly.step ⟨frames, goal⟩ lexeme = Assembly.value frames lexeme := by
  obtain ⟨start, token⟩ := lexeme
  rcases due with rfl | rfl | rfl
  · rfl
  all_goals cases token <;> first
    | rfl
    | contradiction

theorem assembles_openBracket (due : goal.Due) (room : frames.length < deepestNesting) :
    Assembles ⟨frames, goal⟩ [.openBracket] ⟨.item [] :: frames, .firstItem⟩ :=
  .single fun start => by
    rw [step_due due (by simp)]
    exact if_pos room

theorem assembles_openBrace (due : goal.Due) (room : frames.length < deepestNesting) :
    Assembles ⟨frames, goal⟩ [.openBrace] ⟨frames, .firstKey⟩ :=
  .single fun start => by
    rw [step_due due (by simp)]
    exact if_pos room

/-- Where no container may be opened, either opening is refused. -/
theorem refuses_opening (due : goal.Due) (full : deepestNesting ≤ frames.length) {t : Token}
    (opening : t = .openBracket ∨ t = .openBrace) : Refuses ⟨frames, goal⟩ [t] :=
  .single fun start => by
    refine ⟨start + 1, ?_⟩
    rcases opening with rfl | rfl <;> rw [step_due due (by simp)] <;>
      exact if_neg (Nat.not_lt.mpr full)

/-- A key and its colon. -/
theorem assembles_key {members : List (String × Document)} (due : goal.KeyDue members)
    (key : String) : Assembles ⟨frames, goal⟩ [.string key, .colon]
      ⟨.member members key :: frames, .value⟩ := by
  have keyed : Assembles ⟨frames, goal⟩ [.string key] ⟨frames, .colon members key⟩ :=
    .single fun start => by rcases due with rfl | ⟨rfl, rfl⟩ <;> rfl
  exact keyed.append (.single fun _ => rfl)

theorem assembles_itemComma (items : List Document) :
    Assembles ⟨frames, .afterItem items⟩ [.comma] ⟨.item items :: frames, .nextItem⟩ :=
  .single fun _ => rfl

theorem assembles_memberComma (members : List (String × Document)) :
    Assembles ⟨frames, .afterMember members⟩ [.comma] ⟨frames, .nextKey members⟩ :=
  .single fun _ => rfl

mutual

/-- The tokens of a document complete it where there is room for its nesting. -/
theorem assembles_document (d : Document) {goal : Goal} (due : goal.Due) {frames : List Frame}
    (room : frames.length + d.nesting ≤ deepestNesting) :
    Assembles ⟨frames, goal⟩ d.tokens (Assembly.complete frames d) := by
  match d with
  | .null => exact .single fun start => step_due due (by simp)
  | .bool b => exact .single fun start => step_due due (by simp)
  | .number n => exact .single fun start => step_due due (by simp)
  | .string s => exact .single fun start => step_due due (by simp)
  | .array [] =>
    rw [nesting] at room
    exact (assembles_openBracket due (by omega)).append (.single fun start => rfl)
  | .array (d :: ds) =>
    rw [nesting] at room
    have items : Assembles ⟨.item [] :: frames, .firstItem⟩ (commaTokens (itemTokens (d :: ds)))
        ⟨frames, .afterItem ((d :: ds).reverse ++ [])⟩ :=
      assembles_items (d :: ds) (by simp) (.inr (.inl rfl)) (by omega)
    have closed : Assembles ⟨frames, .afterItem ((d :: ds).reverse ++ [])⟩ [.closeBracket]
        (Assembly.complete frames (.array (d :: ds))) := .single fun start => by
      simp [Assembly.step, Assembly.closeArray]
    exact (assembles_openBracket due (by omega)).append (items.append closed)
  | .object [] =>
    rw [nesting] at room
    exact (assembles_openBrace due (by omega)).append (.single fun start => rfl)
  | .object (m :: ms) =>
    rw [nesting] at room
    have members := assembles_members (m :: ms) (by simp) (.inr ⟨rfl, rfl⟩) (by omega)
    have closed : Assembles ⟨frames, .afterMember ((m :: ms).reverse ++ [])⟩ [.closeBrace]
        (Assembly.complete frames (.object (m :: ms))) := .single fun start => by
      simp [Assembly.step, Assembly.closeObject]
    exact (assembles_openBrace due (by omega)).append (members.append closed)

theorem assembles_items (ds : List Document) (some : ds ≠ []) {goal : Goal} (due : goal.Due)
    {frames : List Frame} {before : List Document}
    (room : frames.length + itemNesting ds + 1 ≤ deepestNesting) :
    Assembles ⟨.item before :: frames, goal⟩ (commaTokens (itemTokens ds))
      ⟨frames, .afterItem (ds.reverse ++ before)⟩ := by
  match ds with
  | [d] =>
    simp only [itemNesting] at room
    exact assembles_document d due (by rw [List.length_cons]; omega)
  | d :: e :: ds =>
    rw [itemNesting] at room
    have item : Assembles ⟨.item before :: frames, goal⟩ d.tokens ⟨frames, .afterItem (d :: before)⟩ :=
      assembles_document d due (by rw [List.length_cons]; omega)
    have others : Assembles ⟨.item (d :: before) :: frames, .nextItem⟩
        (commaTokens (itemTokens (e :: ds))) ⟨frames, .afterItem ((e :: ds).reverse ++ d :: before)⟩ :=
      assembles_items (e :: ds) (by simp) (.inr (.inr rfl)) (by omega)
    rw [List.reverse_cons, List.append_assoc]
    exact item.append ((assembles_itemComma _).append others)

theorem assembles_members (members : List (String × Document)) (some : members ≠ []) {goal : Goal}
    {before : List (String × Document)} (due : goal.KeyDue before) {frames : List Frame}
    (room : frames.length + memberNesting members + 1 ≤ deepestNesting) :
    Assembles ⟨frames, goal⟩ (commaTokens (memberTokens members))
      ⟨frames, .afterMember (members.reverse ++ before)⟩ := by
  match members with
  | [(key, d)] =>
    simp only [memberNesting] at room
    exact (assembles_key due key).append
      (assembles_document d (.inl rfl) (by rw [List.length_cons]; omega))
  | (key, d) :: e :: members =>
    rw [memberNesting] at room
    have value : Assembles ⟨.member before key :: frames, .value⟩ d.tokens
        ⟨frames, .afterMember ((key, d) :: before)⟩ :=
      assembles_document d (.inl rfl) (by rw [List.length_cons]; omega)
    have others : Assembles ⟨frames, .nextKey ((key, d) :: before)⟩
        (commaTokens (memberTokens (e :: members)))
        ⟨frames, .afterMember ((e :: members).reverse ++ (key, d) :: before)⟩ :=
      assembles_members (e :: members) (by simp) (.inl rfl) (by omega)
    rw [List.reverse_cons, List.append_assoc]
    exact (assembles_key due key).append (value.append ((assembles_memberComma _).append others))

end

mutual

/-- The tokens of a document are refused where there is no room for its nesting. -/
theorem refuses_document (d : Document) {goal : Goal} (due : goal.Due) {frames : List Frame}
    (within : frames.length ≤ deepestNesting)
    (noRoom : deepestNesting < frames.length + d.nesting) : Refuses ⟨frames, goal⟩ d.tokens := by
  match d with
  | .null | .bool _ | .number _ | .string _ =>
    simp only [nesting] at noRoom
    omega
  | .array items =>
    rw [nesting] at noRoom
    by_cases full : deepestNesting ≤ frames.length
    · exact (refuses_opening due full (.inl rfl)).front _
    · have inside : Refuses ⟨.item [] :: frames, .firstItem⟩ (commaTokens (itemTokens items)) :=
        refuses_items items (.inr (.inl rfl)) (by omega) (by omega)
      exact (assembles_openBracket due (by omega)).refuses (inside.front _)
  | .object members =>
    rw [nesting] at noRoom
    by_cases full : deepestNesting ≤ frames.length
    · exact (refuses_opening due full (.inr rfl)).front _
    · have inside : Refuses ⟨frames, .firstKey⟩ (commaTokens (memberTokens members)) :=
        refuses_members members (.inr ⟨rfl, rfl⟩) (by omega) (by omega)
      exact (assembles_openBrace due (by omega)).refuses (inside.front _)

theorem refuses_items (ds : List Document) {goal : Goal} (due : goal.Due) {frames : List Frame}
    {before : List Document} (within : frames.length < deepestNesting)
    (noRoom : deepestNesting < frames.length + itemNesting ds + 1) :
    Refuses ⟨.item before :: frames, goal⟩ (commaTokens (itemTokens ds)) := by
  match ds with
  | [] =>
    rw [itemNesting] at noRoom
    omega
  | [d] =>
    simp only [itemNesting] at noRoom
    exact refuses_document d due (by rw [List.length_cons]; omega) (by rw [List.length_cons]; omega)
  | d :: e :: ds =>
    rw [itemNesting] at noRoom
    by_cases room : frames.length + 1 + d.nesting ≤ deepestNesting
    · have item : Assembles ⟨.item before :: frames, goal⟩ d.tokens
          ⟨frames, .afterItem (d :: before)⟩ := assembles_document d due room
      have others : Refuses ⟨.item (d :: before) :: frames, .nextItem⟩
          (commaTokens (itemTokens (e :: ds))) :=
        refuses_items (e :: ds) (.inr (.inr rfl)) within (by omega)
      exact item.refuses ((assembles_itemComma _).refuses others)
    · have deep : Refuses ⟨.item before :: frames, goal⟩ d.tokens :=
        refuses_document d due within (by rw [List.length_cons]; omega)
      exact deep.front _

theorem refuses_members (members : List (String × Document)) {goal : Goal}
    {before : List (String × Document)} (due : goal.KeyDue before) {frames : List Frame}
    (within : frames.length < deepestNesting)
    (noRoom : deepestNesting < frames.length + memberNesting members + 1) :
    Refuses ⟨frames, goal⟩ (commaTokens (memberTokens members)) := by
  match members with
  | [] =>
    rw [memberNesting] at noRoom
    omega
  | [(key, d)] =>
    simp only [memberNesting] at noRoom
    exact (assembles_key due key).refuses
      (refuses_document d (.inl rfl) within (by rw [List.length_cons]; omega))
  | (key, d) :: e :: members =>
    rw [memberNesting] at noRoom
    by_cases room : frames.length + 1 + d.nesting ≤ deepestNesting
    · have value : Assembles ⟨.member before key :: frames, .value⟩ d.tokens
          ⟨frames, .afterMember ((key, d) :: before)⟩ := assembles_document d (.inl rfl) room
      have others : Refuses ⟨frames, .nextKey ((key, d) :: before)⟩
          (commaTokens (memberTokens (e :: members))) :=
        refuses_members (e :: members) (.inl rfl) within (by omega)
      exact (assembles_key due key).refuses (value.refuses ((assembles_memberComma _).refuses others))
    · have deep : Refuses ⟨.member before key :: frames, .value⟩ d.tokens :=
        refuses_document d (.inl rfl) within (by rw [List.length_cons]; omega)
      exact (assembles_key due key).refuses (deep.front _)

end

/-- The lexemes of a text that runs on to its end. -/
theorem lexemes_of_runs {bytes : List UInt8} {ts : List Token} (run : Runs .blank bytes .blank ts []) :
    (lexemes bytes).map (·.token) = ts := by
  obtain ⟨s, blank, taken, reads⟩ := run {} rfl
  rw [List.append_nil] at reads
  have ends : lexemes bytes = s.lexemes.reverse := by
    rw [lexemes]
    simpa only [Scan.read, List.foldl_nil, Scan.finish, blank] using reads
  have latest : s.lexemes.map (·.token) = ts.reverse := by
    simpa [Scan.tokens] using taken
  rw [ends, List.map_reverse, latest, List.reverse_reverse]

/-- A text that scans as the tokens of a document is read as it, if the reader has room for it. -/
theorem read_of_runs {bytes : List UInt8} {d : Document} (run : Runs .blank bytes .blank d.tokens [])
    (shallow : d.nesting ≤ deepestNesting) : Document.read bytes = .ok d := by
  have assembled : Assembles ⟨[], .value⟩ d.tokens ⟨[], .done d⟩ :=
    assembles_document d (.inl rfl) (by simpa using shallow)
  rw [Document.read, show ({} : Assembly) = ⟨[], .value⟩ from rfl, assembled _ (lexemes_of_runs run)]
  rfl

theorem runs_write {d : Document} (legible : ∀ n ∈ d.numbers, n.Legible) :
    Runs .blank d.write .blank d.tokens [] :=
  runs_document d legible fun b first => by cases first

/-- A written document is read back, if its numbers are legible and the reader has room for it. -/
theorem read_write {d : Document} (legible : ∀ n ∈ d.numbers, n.Legible)
    (shallow : d.nesting ≤ deepestNesting) : Document.read d.write = .ok d :=
  read_of_runs (runs_write legible) shallow

/-- A document with too many containers around each other is written but not read back. -/
theorem read_write_deep {d : Document} (legible : ∀ n ∈ d.numbers, n.Legible)
    (deep : deepestNesting < d.nesting) :
    ∃ place, Document.read d.write = .error ⟨.nestingTooDeep, place, 0⟩ := by
  have refused : Refuses ⟨[], .value⟩ d.tokens :=
    refuses_document d (.inl rfl) (by simp) (by simpa using deep)
  obtain ⟨place, refusal⟩ := refused _ (lexemes_of_runs (runs_write legible))
  refine ⟨place, ?_⟩
  rw [Document.read, show ({} : Assembly) = ⟨[], .value⟩ from rfl, refusal]
  rfl

theorem bytes_numeral (x : Binary64) : ∀ b ∈ Text.encode x.toText, b ∈ numeralBytes := by
  intro b member
  obtain ⟨c, inside, encoded⟩ := List.mem_flatMap.mp member
  exact List.mem_flatMap.mpr ⟨c, toText_numeral x c inside, encoded⟩

theorem bytes_marked (x : Binary64) : ∃ b ∈ Text.encode x.toText, isMark b = true := by
  rcases toText_marked x with point | mark
  · exact ⟨46, List.mem_flatMap.mpr ⟨'.', point, by decide⟩, rfl⟩
  · exact ⟨101, List.mem_flatMap.mpr ⟨'e', mark, by decide⟩, rfl⟩

/-- Numeral bytes that are read as one document are the numeral of a number. -/
theorem draft?_of_read {bytes : List UInt8} {d : Document}
    (written : ∀ b ∈ bytes, b ∈ numeralBytes) (read : Document.read bytes = .ok d) :
    ∃ draft n, draft? bytes = some draft ∧ draft.part.complete = true ∧
      draft.numeral.number? = some n ∧ d = .number n := by
  cases bytes with
  | nil => cases read
  | cons b bytes =>
    have scanned : lexemes (b :: bytes) = (Scan.fromBlank {} b).read bytes := rfl
    rw [Document.read, scanned] at read
    rcases fromBlank_numeral (written b (.head _)) {} with
      ⟨first, starts, begins⟩ | ⟨start, fault, stops, fails⟩
    · obtain ⟨⟨start, token⟩, more, reads, ⟨quoted, fault, rfl⟩ | ⟨n, rfl, alone⟩⟩ :=
        read_numeral (fun c member => written c (.tail _ member)) (s := Scan.begin {} _) rfl
      · rw [begins, reads] at read
        cases read
      · rw [begins, reads] at read
        cases more with
        | cons next more => cases read
        | nil =>
          obtain ⟨final, extended, complete, denoted⟩ := alone rfl
          refine ⟨final, n, ?_, complete, denoted, (Except.ok.inj read).symm⟩
          rw [draft?, starts, Option.bind_some, extended]
    · rw [read_stopped stops, fails] at read
      cases read

/-- A finite double is read back as a double, and if that is the same one its text is legible. -/
theorem legible_double {x : Binary64} {d : Document} (finite : x.isFinite = true)
    (read : Document.read (Document.number (.double x)).write = .ok d) :
    ∃ y, d = .number (.double y) ∧ (y = x → (Number.double x).Legible) := by
  have spelled : (Number.double x).text = x.toText := if_pos finite
  have written : (Document.number (.double x)).write = Text.encode x.toText := by
    rw [Document.write, Document.text, spelled]
  rw [written] at read
  obtain ⟨draft, n, drafted, complete, denoted, rfl⟩ := draft?_of_read (bytes_numeral x) read
  obtain ⟨y, rfl⟩ := double_of_marked drafted complete (bytes_marked x) denoted
  refine ⟨y, rfl, ?_⟩
  rintro rfl
  exact ⟨draft, by rw [spelled, drafted], complete, denoted⟩

end BuildServer.Json
