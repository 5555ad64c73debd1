import BuildServer.Proofs.Json.Scaling
import BuildServer.Proofs.Schema.Record
import BuildServer.Settings.Basic

/-! # Settings over their defaults

Settings are read from a map when each of its entries is a setting that is well given, and then they are
the defaults with the given ones in their place. Settings are read back as they were written unless their
limit is beyond the signed words: such a limit is carried as a float, and a float is no limit.
-/

namespace BuildServer

open Json Schema

/-- What becomes null in a document: null itself and every float that is not finite. -/
def Value.Blank (v : Value) : Prop := v = .null ∨ ∃ x, v = .float x ∧ x.isFinite = false

namespace Value

theorem toDocument_eq_null_iff {v : Value} : v.toDocument = .null ↔ v.Blank := by
  cases v with
  | float x => cases finite : x.isFinite <;> simp [Blank, toDocument, finite]
  | _ => simp [Blank, toDocument]

end Value

theorem Schema.read_string_iff {v : Value} {s : String} :
    Schema.read v.toDocument = .ok s ↔ v = .string s := by
  cases v with
  | float x => cases finite : x.isFinite <;> simp [Value.toDocument, finite, read, wrongType]
  | _ => simp [Value.toDocument, read, wrongType]

namespace LogFormat

/-- A format is named by a text, or as the only key of a map that has nothing under it. -/
inductive Named (f : LogFormat) : Value → Prop
  | text : Named f (.string f.label)
  | key {v : Value} (blank : v.Blank) : Named f (.map [(f.label, v)])

theorem ofName_eq_ok_iff {name : String} {f : LogFormat} : ofName name = .ok f ↔ name = f.label := by
  rw [ofName]
  constructor
  · intro found
    split at found
    next g first =>
      obtain rfl := Except.ok.inj found
      have same := List.find?_some first
      exact (beq_iff_eq.mp same).symm
    next => cases found
  · rintro rfl
    cases f <;> rfl

theorem readUnit_eq_ok_iff {v : Value} : readUnit v.toDocument = .ok () ↔ v.Blank := by
  rw [← Value.toDocument_eq_null_iff]
  cases v.toDocument <;> simp [readUnit, wrongType]

theorem read_key_eq_ok_iff {name : String} {d : Document} {f : LogFormat} :
    Schema.read (.object [(name, d)]) = .ok f ↔ name = f.label ∧ readUnit d = .ok () := by
  change (do let format ← ofName name; readUnit d; return format) = _ ↔ _
  rw [← ofName_eq_ok_iff]
  cases ofName name <;> cases readUnit d <;> simp [bind, Except.bind, pure, Except.pure]

theorem read_iff {v : Value} {f : LogFormat} : Schema.read v.toDocument = .ok f ↔ f.Named v := by
  constructor
  · intro accepted
    cases v with
    | string name =>
      obtain rfl := ofName_eq_ok_iff.mp accepted
      exact .text
    | float x =>
      rw [Value.toDocument] at accepted
      split at accepted <;> cases accepted
    | map entries =>
      match entries with
      | [(name, v)] =>
        obtain ⟨rfl, content⟩ := read_key_eq_ok_iff.mp accepted
        exact .key (readUnit_eq_ok_iff.mp content)
      | [] => cases accepted
      | _ :: _ :: _ => cases accepted
    | _ => cases accepted
  · rintro (_ | blank)
    · exact ofName_eq_ok_iff.mpr rfl
    · exact read_key_eq_ok_iff.mpr ⟨rfl, readUnit_eq_ok_iff.mpr blank⟩

theorem returns (f : LogFormat) : Returns f := by
  cases f <;> rfl

end LogFormat

namespace Limit

theorem ofNat?_eq_some_iff {n : Nat} {limit : Limit} : ofNat? n = some limit ↔ n = limit.value := by
  have positive := limit.positive
  have fits := limit.fits
  rw [ofNat?]
  split
  · rw [Option.some.injEq]
    exact ⟨congrArg value, fun same => by cases limit; cases same; rfl⟩
  · exact iff_of_false (by simp) (by omega)

/-- A limit is read from the signed word that is as great. -/
theorem read_int_iff {i : Int64} {limit : Limit} :
    read (Value.int i).toDocument = .ok limit ↔ i.toInt = limit.value := by
  have upper := i.toInt_lt
  have positive := limit.positive
  simp only [Schema.read, readInteger_int, decide_eq_true_eq]
  by_cases above : 0 < i.toInt
  · have word : i.toInt.toNat = limit.value ↔ i.toInt = limit.value := by omega
    rw [if_pos ⟨above, by rw [wordLimit]; omega⟩, ← word, ← ofNat?_eq_some_iff]
    simp only [bind, Except.bind]
    cases ofNat? i.toInt.toNat <;> simp
  · rw [if_neg fun within => above within.1]
    exact iff_of_false (by rintro ⟨⟩) (by omega)

/-- A limit is given by a signed word. -/
theorem read_iff {v : Value} {limit : Limit} :
    read v.toDocument = .ok limit ↔ ∃ i : Int64, v = .int i ∧ i.toInt = limit.value := by
  constructor
  · intro accepted
    cases v with
    | int i => exact ⟨i, rfl, read_int_iff.mp accepted⟩
    | float x =>
      rw [Value.toDocument] at accepted
      split at accepted <;> cases accepted
    | _ => cases accepted
  · rintro ⟨i, rfl, same⟩
    exact read_int_iff.mpr same

/-- A limit is given by a signed word, and none by what becomes null. -/
def Given : Option Limit → Value → Prop
  | none, v => v.Blank
  | some limit, v => ∃ i : Int64, v = .int i ∧ i.toInt = limit.value

theorem given_iff {v : Value} {limit? : Option Limit} :
    read v.toDocument = .ok limit? ↔ Given limit? v := by
  cases limit? with
  | none => rw [read_eq_none_iff, Value.toDocument_eq_null_iff, Given]
  | some limit =>
    rw [read_eq_some_iff, read_iff, Given, and_iff_right_iff_imp, ne_eq, Value.toDocument_eq_null_iff]
    rintro ⟨i, rfl, -⟩
    simp [Value.Blank]

/-- A limit that is a signed word is read back. -/
theorem returns {limit : Limit} (signed : limit.value ≤ greatestSigned) : Returns limit := by
  have same : Schema.write limit = writeInteger limit.value := by
    rw [writeInteger, if_neg (by omega)]
    rfl
  have lower : -0x8000000000000000 ≤ (limit.value : Int) := by omega
  have upper : (limit.value : Int) < 0x8000000000000000 := by rw [greatestSigned] at signed; omega
  rw [Returns, same, bridge_writeInteger lower upper, writeInteger_eq_toDocument lower upper,
    read_int_iff]
  exact Int64.toInt_ofInt_of_le lower upper

/-- A limit is not beyond the finite floats. -/
theorem ofNat_finite (limit : Limit) : (Binary64.ofNat limit.value).isFinite = true := by
  have few : wordLimit ≤ Nat.pow 10 greatestPower := by decide +kernel
  rw [Binary64.isFinite_iff]
  exact (Binary64.ofNat_rounds (limit.fits.le.trans few)).2

/-- A limit beyond the signed words is carried as a float. -/
theorem bridge_large {limit : Limit} (large : greatestSigned < limit.value) :
    bridge (Schema.write limit) = .number (.double (Binary64.ofNat limit.value)) := by
  have word : (UInt64.ofNat limit.value).toNat = limit.value :=
    UInt64.toNat_ofNat_of_lt' limit.fits
  change (Value.convert (.number (.natural (UInt64.ofNat limit.value)))).toDocument = _
  rw [Value.convert, Value.signed?, word, if_neg (Nat.not_le.mpr large)]
  change (Value.float (Binary64.ofNat _)).toDocument = _
  rw [word, Value.toDocument, if_pos limit.ofNat_finite]

end Limit

namespace Settings

/-- The entries from which settings are read. -/
inductive Admits : String → Value → Prop
  | logFilter (s : String) : Admits "log_filter" (.string s)
  | logFormat {f : LogFormat} {v : Value} (named : f.Named v) : Admits "log_format" v
  | unlimited {v : Value} (blank : v.Blank) : Admits "queue_concurrency" v
  | limited {i : Int64} (positive : 0 < i.toInt) : Admits "queue_concurrency" (.int i)
  | serverVersion (s : String) : Admits "server_version" (.string s)

/-- What a setting is: what its entry means, or the default where it has none. -/
def Follows {α : Type} (means : α → Value → Prop) (default a : α) : Option Value → Prop
  | none => a = default
  | some v => means a v

/-- The defaults with the settings that a map has in their place. -/
structure Overrides (entries : Entries) (x : Settings) : Prop where
  logFilter : Follows (fun s v => v = .string s) default.logFilter x.logFilter
    (entries.get? "log_filter")
  logFormat : Follows LogFormat.Named default.logFormat x.logFormat (entries.get? "log_format")
  queueConcurrency : Follows Limit.Given default.queueConcurrency x.queueConcurrency
    (entries.get? "queue_concurrency")
  serverVersion : Follows (fun s v => v = .string s) default.serverVersion x.serverVersion
    (entries.get? "server_version")

theorem names_nodup : record.layout.names.Nodup := by decide +kernel

theorem defaulted : record.layout.Defaulted := ⟨⟨_, rfl⟩, ⟨_, rfl⟩, ⟨_, rfl⟩, ⟨_, rfl⟩, trivial⟩

theorem layoutAdmits_iff {key : String} {v : Value} :
    record.layout.Admits key v.toDocument ↔ Admits key v := by
  have unfolded : record.layout.Admits key v.toDocument ↔
      if key = "log_filter" then ∃ s : String, read v.toDocument = .ok s
      else if key = "log_format" then ∃ f : LogFormat, read v.toDocument = .ok f
      else if key = "queue_concurrency" then ∃ limit? : Option Limit, read v.toDocument = .ok limit?
      else if key = "server_version" then ∃ s : String, read v.toDocument = .ok s
      else False := Iff.rfl
  simp only [unfolded, read_string_iff, LogFormat.read_iff, Limit.given_iff]
  constructor
  · intro admitted
    split at admitted
    next same =>
      obtain ⟨s, rfl⟩ := admitted
      exact same ▸ .logFilter s
    split at admitted
    next same =>
      obtain ⟨f, named⟩ := admitted
      exact same ▸ .logFormat named
    split at admitted
    next same =>
      obtain ⟨_ | limit, given⟩ := admitted
      · exact same ▸ .unlimited given
      · obtain ⟨i, rfl, word⟩ := given
        have positive := limit.positive
        exact same ▸ .limited (by omega)
    split at admitted
    next same =>
      obtain ⟨s, rfl⟩ := admitted
      exact same ▸ .serverVersion s
    next => cases admitted
  · intro admitted
    cases admitted with
    | logFilter s => exact ⟨s, rfl⟩
    | logFormat named => exact ⟨_, named⟩
    | unlimited blank => exact ⟨none, blank⟩
    | @limited i positive =>
      have upper := i.toInt_lt
      refine ⟨some ⟨i.toInt.toNat, by omega, by rw [wordLimit]; omega⟩, i, rfl, ?_⟩
      exact (Int.toNat_of_nonneg positive.le).symm
    | serverVersion s => exact ⟨s, rfl⟩

/-- A field with a default has what its entry gives it. -/
theorem content_iff {α : Type} [Schema α] {name : String} {default a : α} {v? : Option Value}
    {means : α → Value → Prop} (reads : ∀ {v}, read v.toDocument = .ok a ↔ means a v) :
    (Field.withDefault name default).content (v?.map Value.toDocument) = .ok a ↔
      Follows means default a v? := by
  cases v? with
  | none => exact ⟨fun same => (Except.ok.inj same).symm, fun same => congrArg Except.ok same.symm⟩
  | some v => exact reads

/-- The fields of the record get what the entries give them. -/
theorem gives_iff {entries : Entries} {x : Settings} :
    record.layout.Gives (fun key => (entries.get? key).map Value.toDocument) (record.contents x) ↔
      Overrides entries x := by
  constructor
  · rintro ⟨logFilter, logFormat, queueConcurrency, serverVersion, -⟩
    exact ⟨(content_iff read_string_iff).mp logFilter, (content_iff LogFormat.read_iff).mp logFormat,
      (content_iff Limit.given_iff).mp queueConcurrency, (content_iff read_string_iff).mp serverVersion⟩
  · rintro ⟨logFilter, logFormat, queueConcurrency, serverVersion⟩
    exact ⟨(content_iff read_string_iff).mpr logFilter, (content_iff LogFormat.read_iff).mpr logFormat,
      (content_iff Limit.given_iff).mpr queueConcurrency,
      (content_iff read_string_iff).mpr serverVersion, trivial⟩

theorem exists_read_iff {entries : Entries} :
    (∃ x : Settings, (Value.map entries).toTyped = .ok x) ↔
      ∀ entry ∈ entries, Admits entry.1 entry.2 := by
  have members : (∀ member ∈ Value.memberDocuments entries, record.layout.Admits member.1 member.2) ↔
      ∀ entry ∈ entries, Admits entry.1 entry.2 := by
    rw [Value.memberDocuments_eq_map, List.forall_mem_map]
    exact forall₂_congr fun _ _ => layoutAdmits_iff
  rw [← members, ← Record.exists_read_object_iff rfl names_nodup defaulted]
  exact exists_congr fun x => Value.toTyped_eq_ok_iff

theorem overrides_of_read {entries : Entries} {x : Settings} (read : (Value.map entries).toTyped = .ok x) :
    Overrides entries x := by
  obtain ⟨-, t, given, made⟩ := Record.read_object_eq_ok_iff.mp (Value.toTyped_eq_ok_iff.mp read)
  obtain rfl : t = record.contents x := by rw [← made]; rfl
  simp only [Value.lookup_memberDocuments] at given
  exact gives_iff.mp given

theorem returns {x : Settings}
    (signed : ∀ limit, x.queueConcurrency = some limit → limit.value ≤ greatestSigned) :
    (Value.ofTyped x).toTyped = .ok x := by
  have limit : Returns x.queueConcurrency := by
    cases given : x.queueConcurrency with
    | none => exact returns_none
    | some limit =>
      exact returns_some (Limit.returns (signed limit given)) (by rintro ⟨⟩)
  have layout : record.layout.Returns (record.contents x) :=
    ⟨.withDefault (returns_string _), .withDefault (LogFormat.returns _), .withDefault limit,
      .withDefault (returns_string _), trivial⟩
  exact (Record.returns names_nodup (r := record) rfl layout).toTyped

/-- A member of the limit is held against the limit alone. -/
theorem checkMember_queueConcurrency (d : Document) :
    record.checkMember ("queue_concurrency", d) =
      (read d : Except Mismatch (Option Limit)).map fun _ => () := by
  have known : (record.closed && !record.layout.names.contains "queue_concurrency") = false := by
    decide +kernel
  rw [Record.checkMember, known]
  rfl

/-- A limit beyond the signed words is what is refused when the settings are read back, since the members
in front of it are fine. -/
theorem refuses_large {x : Settings} {limit : Limit} (given : x.queueConcurrency = some limit)
    (large : greatestSigned < limit.value) :
    record.read (bridge (record.write x)) =
      .error (.wrongType (.float (Binary64.ofNat limit.value)) Limit.expectation) := by
  have ascending : ((record.layout.members (record.contents x)).map Prod.fst).Pairwise (· < ·) :=
    show ["log_filter", "log_format", "queue_concurrency", "server_version"].Pairwise (· < ·) by
      decide +kernel
  have logFilter : record.checkMember ("log_filter", bridge (.string x.logFilter)) = .ok () :=
    (Record.checkMember_eq_ok_iff rfl).mpr ⟨x.logFilter, rfl⟩
  have logFormat : record.checkMember ("log_format", bridge (.string x.logFormat.label)) = .ok () :=
    (Record.checkMember_eq_ok_iff rfl).mpr ⟨x.logFormat, LogFormat.returns x.logFormat⟩
  have queueConcurrency : record.checkMember ("queue_concurrency", bridge (write x.queueConcurrency)) =
      .error (.wrongType (.float (Binary64.ofNat limit.value)) Limit.expectation) := by
    rw [checkMember_queueConcurrency, given]
    change ((read (bridge (write limit)) : Except Mismatch (Option Limit)).map fun _ => ()) = _
    rw [Limit.bridge_large large]
    change Except.error (Mismatch.wrongType (Found.ofNumber (.double _)) _) = _
    rw [Found.ofNumber, if_pos limit.ofNat_finite]
  rw [Record.write, bridge_object_of_ascending ascending]
  change record.read (.object
    ([("log_filter", bridge (.string x.logFilter)), ("log_format", bridge (.string x.logFormat.label))] ++
      ("queue_concurrency", bridge (write x.queueConcurrency)) ::
      [("server_version", bridge (.string x.serverVersion))])) = _
  refine Record.read_object_of_refused ?_ queueConcurrency
  simp only [List.forall_mem_cons, logFilter, logFormat, List.not_mem_nil, false_imp_iff, implies_true,
    and_self]

/-- Settings are read from a map if every entry is admitted, and then they are the defaults with the
settings of the map in their place. Settings without a limit beyond the signed words are read back as
they were, and others are not read back at all. -/
theorem entries_override_defaults :
    (∀ entries : Entries,
      ((∃ x : Settings, (Value.map entries).toTyped = .ok x) ↔
        ∀ entry ∈ entries, Admits entry.1 entry.2) ∧
      ∀ x : Settings, (Value.map entries).toTyped = .ok x → Overrides entries x) ∧
    ∀ x : Settings,
      ((∀ limit, x.queueConcurrency = some limit → limit.value ≤ greatestSigned) →
        (Value.ofTyped x).toTyped = .ok x) ∧
      ∀ limit, x.queueConcurrency = some limit → greatestSigned < limit.value →
        ((Value.ofTyped x).toTyped : Except CodecError Settings) =
          .error (.decode (.wrongType (.float (Binary64.ofNat limit.value)) Limit.expectation)) := by
  refine ⟨fun entries => ⟨exists_read_iff, fun x => overrides_of_read⟩, fun x => ⟨returns, ?_⟩⟩
  intro limit given large
  change (record.read (bridge (record.write x))).mapError _ = _
  rw [refuses_large given large]
  rfl

/-- A format that is the key over a not-a-number and a limit of four are put in the place of their
defaults. The greatest signed word is read back as a limit, and the next one is refused. -/
theorem sample_overrides :
    (Value.map [("log_format", .map [("compact", .float ⟨0x7FF8000000000000⟩)]),
        ("queue_concurrency", .int 4)]).toTyped =
      .ok (⟨"info", .compact, Limit.ofNat? 4, ""⟩ : Settings) ∧
    (Value.ofTyped (default.withQueueConcurrency (Limit.ofNat? greatestSigned))).toTyped =
      .ok (default.withQueueConcurrency (Limit.ofNat? greatestSigned)) ∧
    (Value.ofTyped (default.withQueueConcurrency (Limit.ofNat? (greatestSigned + 1)))).toTyped =
      (.error (.decode (.wrongType (.float (Binary64.ofNat (greatestSigned + 1))) "a nonzero usize")) :
        Except CodecError Settings) := by
  refine ⟨?_, ?_, ?_⟩
  · obtain ⟨readable, overrides⟩ := entries_override_defaults.1
      [("log_format", .map [("compact", .float ⟨0x7FF8000000000000⟩)]), ("queue_concurrency", .int 4)]
    have blank : (Value.float ⟨0x7FF8000000000000⟩).Blank := .inr ⟨_, rfl, by decide⟩
    obtain ⟨⟨logFilter, logFormat, limit?, version⟩, read⟩ := readable.mpr <| by
      rintro entry (_ | ⟨_, _ | ⟨_, ⟨⟩⟩⟩)
      · exact .logFormat (LogFormat.Named.key (f := .compact) blank)
      · exact .limited (by decide)
    obtain ⟨filterSet, formatSet, limitSet, versionSet⟩ := overrides _ read
    obtain rfl : logFilter = "info" := filterSet
    obtain rfl : version = "" := versionSet
    have format : logFormat = .compact :=
      Except.ok.inj ((LogFormat.read_iff.mpr formatSet).symm.trans (LogFormat.read_iff.mpr (.key blank)))
    have limit : limit? = Limit.ofNat? 4 := by
      rcases limit? with _ | limit
      · rcases limitSet with none | ⟨_, none, _⟩ <;> cases none
      · obtain ⟨i, four, same⟩ := limitSet
        obtain rfl := Value.int.inj four
        exact (Limit.ofNat?_eq_some_iff.mpr (Int.ofNat.inj same)).symm
    rw [read, format, limit]
  · refine (entries_override_defaults.2 _).1 fun limit given => ?_
    have same : Limit.ofNat? greatestSigned = some limit := given
    exact (Limit.ofNat?_eq_some_iff.mp same).ge
  · have large := (entries_override_defaults.2
      (default.withQueueConcurrency (Limit.ofNat? (greatestSigned + 1)))).2
    exact large ⟨greatestSigned + 1, by decide, by decide⟩ rfl (Nat.lt_succ_self _)

end Settings

end BuildServer
