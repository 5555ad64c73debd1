import BuildServer.Proofs.Schema.Record
import BuildServer.Protocol.Method

/-! # What methods carry, through a value and back

The parameters and results of the methods, and the records inside them, all come back from the values
that carry them. The only parts that could keep them from it are the extension payloads, which may be
any values: a float that is not finite is taken for null, and a payload that is null for none.
-/

namespace BuildServer

open Schema Json

/-- The values inside typed data that may be of any form. -/
class Payloads (α : Type) where
  payloads : α → List Value := fun _ => []

/-- A type all of whose data comes back. -/
class Lossless (α : Type) [Schema α] : Prop where
  returns : ∀ a : α, Returns a

/-- A type whose data comes back if the payloads inside do. -/
class Lasting (α : Type) [Schema α] [Payloads α] : Prop where
  returns : ∀ a : α, (∀ v ∈ Payloads.payloads a, v.Portable) → Returns a

/-- A type of which nothing is read from null. -/
class Solid (α : Type) [Schema α] : Prop where
  present : ∀ a : α, (Schema.read .null : Except Mismatch α) ≠ .ok a

section Types

variable {α : Type} [Schema α]

instance : Lossless String := ⟨returns_string⟩

instance : Lossless Bool := ⟨returns_bool⟩

instance : Lossless Int32 := ⟨returns_int32⟩

instance : Lossless Uri := ⟨returns_uri⟩

instance [Lossless α] : Lossless (List α) := ⟨fun _ => returns_list fun a _ => Lossless.returns a⟩

instance [Lossless α] [Solid α] : Lossless (Option α) where
  returns
    | none => returns_none
    | some a => returns_some (Lossless.returns a) (Solid.present a)

instance : Solid String := ⟨nofun⟩

instance : Solid Bool := ⟨nofun⟩

instance : Solid Uri := ⟨nofun⟩

instance : Solid (List α) := ⟨nofun⟩

instance : Payloads Value := ⟨fun v => [v]⟩

instance [Payloads α] : Payloads (List α) := ⟨fun items => items.flatMap Payloads.payloads⟩

instance [Payloads α] : Payloads (Option α) := ⟨fun a? => a?.toList.flatMap Payloads.payloads⟩

/-- Nothing has to be asked of data that comes back in any case. -/
instance (priority := low) [Lossless α] : Payloads α := {}

instance [Payloads α] [Lossless α] : Lasting α := ⟨fun a _ => Lossless.returns a⟩

instance [Payloads α] [Lasting α] : Lasting (List α) where
  returns _ portable := returns_list fun a member =>
    Lasting.returns a fun v inside => portable v (List.mem_flatMap.mpr ⟨a, member, inside⟩)

instance [Payloads α] [Lasting α] [Solid α] : Lasting (Option α) where
  returns
    | none, _ => returns_none
    | some a, portable => returns_some
        (Lasting.returns a fun v inside => portable v (List.mem_append_left _ inside)) (Solid.present a)

instance : Lasting (Option Value) where
  returns
    | none, _ => returns_none
    | some v, portable => by
      have own : v.Portable := portable v (.head _)
      apply returns_some (returns_value own)
      intro same
      exact own.present (Except.ok.inj same).symm

end Types

namespace Protocol

instance : Lossless NoParams := ⟨fun _ => rfl⟩

instance : Lossless Acknowledgement := ⟨fun _ => rfl⟩

instance : Lossless ServerCapabilities := ⟨fun _ => rfl⟩

instance : Lossless SourceKind := ⟨fun kind => returns_coded (by cases kind <;> rfl)⟩

instance : Lossless TargetEventKind := ⟨fun kind => returns_coded (by cases kind <;> rfl)⟩

instance : Solid TargetEventKind := ⟨nofun⟩

instance : Lossless TargetId where
  returns x := TargetId.record.returns (by decide) rfl ⟨.required (Lossless.returns x.uri), trivial⟩

instance : Lossless TargetCapabilities where
  returns x := TargetCapabilities.record.returns (by decide) rfl
    ⟨.optional (Lossless.returns x.canCompile), .optional (Lossless.returns x.canTest),
      .optional (Lossless.returns x.canRun), trivial⟩

instance : Lossless PrepareParams where
  returns x := PrepareParams.record.returns (by decide) rfl
    ⟨.required (Lossless.returns x.targets), .optional (Lossless.returns x.originId), trivial⟩

instance : Lossless SourcesParams where
  returns x := SourcesParams.record.returns (by decide) rfl
    ⟨.required (Lossless.returns x.targets), trivial⟩

instance : Lossless TextDocument where
  returns x := TextDocument.record.returns (by decide) rfl
    ⟨.required (Lossless.returns x.uri), trivial⟩

instance : Lossless OptionsParams where
  returns x := OptionsParams.record.returns (by decide) rfl
    ⟨.required (Lossless.returns x.textDocument), .required (Lossless.returns x.target),
      .withDefault (Lossless.returns x.language), trivial⟩

instance : Lossless ClientCapabilities where
  returns x := ClientCapabilities.record.returns (by decide) rfl
    ⟨.withDefault (Lossless.returns x.languageIds), trivial⟩

instance : Lossless FileEvent where
  returns x := FileEvent.record.returns (by decide) rfl
    ⟨.required (Lossless.returns x.uri), .required (Lossless.returns x.change), trivial⟩

instance : Lossless FilesChanged where
  returns x := FilesChanged.record.returns (by decide) rfl
    ⟨.required (Lossless.returns x.changes), trivial⟩

open Payloads

instance : Payloads SourceItem := ⟨fun x => payloads x.data⟩

instance : Payloads TargetSources := ⟨fun x => payloads x.sources⟩

instance : Payloads SourcesResult := ⟨fun x => payloads x.items⟩

instance : Payloads OptionsResult := ⟨fun x => payloads x.data⟩

instance : Payloads Target := ⟨fun x => payloads x.data⟩

instance : Payloads Targets := ⟨fun x => payloads x.targets⟩

instance : Payloads TargetEvent := ⟨fun x => payloads x.data⟩

instance : Payloads TargetsChanged := ⟨fun x => payloads x.changes⟩

instance : Payloads InitializeParams := ⟨fun x => payloads x.data⟩

instance : Payloads InitializeResult := ⟨fun x => payloads x.data⟩

instance : Lasting SourceItem where
  returns x portable := SourceItem.record.returns (by decide) rfl
    ⟨.required (Lossless.returns x.uri), .required (Lossless.returns x.kind),
      .required (Lossless.returns x.generated), .optional (Lossless.returns x.dataKind),
      .optional (Lasting.returns x.data portable), trivial⟩

instance : Lasting TargetSources where
  returns x portable := TargetSources.record.returns (by decide) rfl
    ⟨.required (Lossless.returns x.target), .required (Lasting.returns x.sources portable),
      .optional (Lossless.returns x.roots), trivial⟩

instance : Lasting SourcesResult where
  returns x portable := SourcesResult.record.returns (by decide) rfl
    ⟨.required (Lasting.returns x.items portable), trivial⟩

instance : Lasting OptionsResult where
  returns x portable := OptionsResult.record.returns (by decide) rfl
    ⟨.required (Lossless.returns x.compilerArguments),
      .optional (Lossless.returns x.workingDirectory),
      .optional (Lasting.returns x.data portable), trivial⟩

instance : Solid OptionsResult := ⟨nofun⟩

instance : Lasting Target where
  returns x portable := Target.record.returns (by decide) rfl
    ⟨.required (Lossless.returns x.id), .optional (Lossless.returns x.displayName),
      .optional (Lossless.returns x.baseDirectory), .withDefault (Lossless.returns x.tags),
      .withDefault (Lossless.returns x.languageIds),
      .withDefault (Lossless.returns x.dependencies),
      .withDefault (Lossless.returns x.capabilities), .optional (Lossless.returns x.dataKind),
      .optional (Lasting.returns x.data portable), trivial⟩

instance : Lasting Targets where
  returns x portable := Targets.record.returns (by decide) rfl
    ⟨.required (Lasting.returns x.targets portable), trivial⟩

instance : Lasting TargetEvent where
  returns x portable := TargetEvent.record.returns (by decide) rfl
    ⟨.required (Lossless.returns x.target), .optional (Lossless.returns x.kind),
      .optional (Lossless.returns x.dataKind), .optional (Lasting.returns x.data portable), trivial⟩

instance : Lasting TargetsChanged where
  returns x portable := TargetsChanged.record.returns (by decide) rfl
    ⟨.nullable (Lasting.returns x.changes portable), trivial⟩

instance : Lasting InitializeParams where
  returns x portable := InitializeParams.record.returns (by decide) rfl
    ⟨.withDefault (Lossless.returns x.displayName), .withDefault (Lossless.returns x.version),
      .withDefault (Lossless.returns x.bspVersion), .withDefault (Lossless.returns x.rootUri),
      .withDefault (Lossless.returns x.capabilities), .withDefault (Lossless.returns x.dataKind),
      .withDefault (Lasting.returns x.data portable), trivial⟩

instance : Lasting InitializeResult where
  returns x portable := InitializeResult.record.returns (by decide) rfl
    ⟨.required (Lossless.returns x.displayName), .required (Lossless.returns x.version),
      .required (Lossless.returns x.bspVersion), .required (Lossless.returns x.capabilities),
      .optional (Lossless.returns x.dataKind), .optional (Lasting.returns x.data portable), trivial⟩

/-- A type of data that messages carry. -/
structure Carried where
  Data : Type
  [schema : Schema Data]
  [inside : Payloads Data]

instance (t : Carried) : Schema t.Data := t.schema

instance (t : Carried) : Payloads t.Data := t.inside

/-- The types of what a request and its answer carry. -/
def RequestMethod.carried {Params Result : Type} [Schema Params] [Payloads Params] [Schema Result]
    [Payloads Result] (_ : RequestMethod Params Result) : List Carried := [⟨Params⟩, ⟨Result⟩]

/-- The type of what a notification carries. -/
def NotificationMethod.carried {Params : Type} [Schema Params] [Payloads Params]
    (_ : NotificationMethod Params) : List Carried := [⟨Params⟩]

/-- The types of what the methods carry. -/
def Method.carried : List Carried :=
  handshake.carried ++ (shutdown.carried ++ (prepare.carried ++ (sources.carried ++
    (options.carried ++ (targets.carried ++ (awaitUpdates.carried ++ (initialized.carried ++
      (exit.carried ++ (filesChanged.carried ++ targetsChanged.carried)))))))))

/-- The types of the records inside what the methods carry. -/
def Method.records : List Carried :=
  [⟨ClientCapabilities⟩, ⟨ServerCapabilities⟩, ⟨TargetId⟩, ⟨SourceKind⟩, ⟨SourceItem⟩,
    ⟨TargetSources⟩, ⟨TextDocument⟩, ⟨OptionsResult⟩, ⟨TargetCapabilities⟩, ⟨Target⟩,
    ⟨TargetEventKind⟩, ⟨TargetEvent⟩, ⟨FileEvent⟩]

/-- All data of the type comes back if the payloads inside do. -/
def Carried.Survives (t : Carried) : Prop :=
  ∀ x : t.Data, (∀ v ∈ payloads x, v.Portable) → (Value.ofTyped x).toTyped = .ok x

theorem Carried.Survives.of_lasting {α : Type} [Schema α] [Payloads α] [Lasting α] :
    Carried.Survives ⟨α⟩ := by
  intro (x : α) portable
  exact (Lasting.returns x portable).toTyped

theorem RequestMethod.carried_survive {Params Result : Type} [Schema Params] [Payloads Params]
    [Lasting Params] [Schema Result] [Payloads Result] [Lasting Result]
    (m : RequestMethod Params Result) : ∀ t ∈ m.carried, t.Survives :=
  List.forall_mem_cons.mpr ⟨.of_lasting, List.forall_mem_singleton.mpr .of_lasting⟩

theorem NotificationMethod.carried_survive {Params : Type} [Schema Params] [Payloads Params]
    [Lasting Params] (m : NotificationMethod Params) : ∀ t ∈ m.carried, t.Survives :=
  List.forall_mem_singleton.mpr .of_lasting

theorem Method.records_survive : ∀ t ∈ Method.records, t.Survives := by
  simp only [Method.records, List.forall_mem_cons, List.not_mem_nil, false_implies,
    implies_true, and_true]
  exact ⟨.of_lasting, .of_lasting, .of_lasting, .of_lasting, .of_lasting, .of_lasting, .of_lasting,
    .of_lasting, .of_lasting, .of_lasting, .of_lasting, .of_lasting, .of_lasting⟩

theorem Method.carried_survive : ∀ t ∈ Method.carried, t.Survives := by
  simp only [Method.carried, List.forall_mem_append]
  exact ⟨handshake.carried_survive, shutdown.carried_survive, prepare.carried_survive,
    sources.carried_survive, options.carried_survive, targets.carried_survive,
    awaitUpdates.carried_survive, initialized.carried_survive, exit.carried_survive,
    filesChanged.carried_survive, targetsChanged.carried_survive⟩

/-- Whatever a method carries, and every record inside it, is read back from the value that carries it,
if the payloads inside have no floats that are not finite and are not null. -/
theorem carried_data_returns (t : Carried) (member : t ∈ Method.carried ++ Method.records)
    (x : t.Data) (portable : ∀ v ∈ payloads x, v.Portable) :
    (Value.ofTyped x).toTyped = .ok x := by
  rcases List.mem_append.mp member with outermost | inner
  · exact Method.carried_survive t outermost x portable
  · exact Method.records_survive t inner x portable

/-- A change of a target that is gone, with a payload in which there is a float and a null. -/
def sampleChange : TargetsChanged :=
  ⟨some [⟨⟨⟨"build://target?name=a", by rfl⟩⟩, some .deleted, none,
    some (.map [("cause", .null), ("code", .float ⟨0x3FF8000000000000⟩)])⟩]⟩

theorem sample_change_returns : (Value.ofTyped sampleChange).toTyped = .ok sampleChange := by
  refine carried_data_returns ⟨TargetsChanged⟩ ?_ sampleChange ?_
  · exact List.mem_append_left _ (List.mem_of_getLast? rfl)
  · intro v inside
    obtain rfl := List.mem_singleton.mp inside
    refine ⟨⟨?_, trivial, trivial, trivial⟩, ?_, nofun⟩
    · exact List.pairwise_pair.mpr (by decide)
    · exact List.forall_mem_singleton.mpr rfl

end Protocol

end BuildServer
