import BuildServer.Proofs.Value.Entries
import BuildServer.Proofs.Value.Reading
import BuildServer.Rpc.Message

/-! # Messages are read back

The object of a message has a method unless the message is a response, and an identifier that is not
null if it is a request. That is what the three forms are told apart by, so a message is read back as
what it was. Nothing of it is lost, except that an error whose data is null comes back without data.
-/

namespace BuildServer.Rpc

open BuildServer Codable

/-- An error as it is read back, in which data that is null counts as none. -/
def ResponseError.received (e : ResponseError) : ResponseError :=
  { e with data := e.data.filter fun v => !v.isNull }

theorem ResponseError.received_eq_self {e : ResponseError} (kept : e.data ≠ some .null) :
    e.received = e := by
  have same : (e.data.filter fun v => !v.isNull) = e.data := by
    cases data : e.data with
    | none => rfl
    | some v =>
      have present : v.isNull = false := by
        rw [← Bool.not_eq_true, Value.isNull_iff]
        rintro rfl
        exact kept data
      rw [Option.filter_some, present]
      rfl
  rw [received, same]

theorem ResponseError.received_of_null {e : ResponseError} (null : e.data = some .null) :
    e.received = { e with data := none } := by
  rw [received, null]
  rfl

/-- What a request ended with as it is read back. -/
def Outcome.received : Outcome → Outcome
  | .result v => .result v
  | .error e => .error e.received

/-- An error is read back from its object. -/
theorem ResponseError.ofValue?_toValue (e : ResponseError) :
    ofValue? (toValue e) = some e.received := by
  let members : List (String × Value) :=
    [("code", .int e.code.value), ("message", .string e.message)] ++
      e.data.toList.map fun v => ("data", v)
  have code : (Entries.ofPairs members).get? "code" = some (.int e.code.value) := by
    rw [Entries.get?_ofPairs]
    rfl
  have message : (Entries.ofPairs members).get? "message" = some (.string e.message) := by
    rw [Entries.get?_ofPairs]
    rfl
  have data : (Entries.ofPairs members).get? "data" = e.data := by
    rw [Entries.get?_ofPairs]
    cases present : e.data <;> simp [members, present, List.lookup_cons]
  show (ofEntries? (Entries.ofPairs members) : Option ResponseError) = _
  simp [ofEntries?, requiredField, optionalField_value, code, message, data, received]

/-- The entries of an object with the version and the given members. -/
def envelopeEntries (members : List (String × Value)) : Entries :=
  Entries.ofPairs (("jsonrpc", .string version) :: members)

variable {members : List (String × Value)}

/-- A member that is not the version is looked up among the members. -/
theorem get?_envelopeEntries {name : String} (other : name ≠ "jsonrpc") :
    (envelopeEntries members).get? name = members.lookup name := by
  rw [envelopeEntries, Entries.get?_ofPairs, List.lookup_cons, beq_false_of_ne other]

/-- Parameters are what is found under their name, and null when nothing is. -/
theorem lookup_params (params : Value) :
    ((paramsMember params).lookup "params").getD .null = params := by
  by_cases absent : params.isNull = true
  · rw [paramsMember, if_pos absent, Value.isNull_iff.mp absent]
    rfl
  · rw [paramsMember, if_neg absent, List.lookup_cons_self]
    rfl

theorem lookup_paramsMember_of_ne {name : String} (other : name ≠ "params") (params : Value) :
    (paramsMember params).lookup name = none := by
  rw [paramsMember]
  split
  · rfl
  · rw [List.lookup_cons, beq_false_of_ne other]
    rfl

/-- The outcome of a response is found by the name of its member. The object of an error is a map, so it
is not taken for an error that is null. -/
theorem outcomeOf?_envelopeEntries {outcome : Outcome} {id : Value} :
    outcomeOf? (envelopeEntries [("id", id), outcomeMember outcome]) = some outcome.received := by
  rw [outcomeOf?, get?_envelopeEntries (by decide), get?_envelopeEntries (by decide)]
  cases outcome with
  | result v => rfl
  | error e =>
    have given : (Codable.ofValue? (Codable.toValue e) : Option ResponseError).map Outcome.error =
        some (.error e.received) := by rw [ResponseError.ofValue?_toValue, Option.map_some]
    exact given

namespace Message

/-- A message that the entries of an object give is the message of the object. -/
theorem ofValue_envelope {m : Message} (found : ofEntries? (envelopeEntries members) = some m) :
    ofValue (envelope members) = .ok m := by
  have versioned : (envelopeEntries members).get? "jsonrpc" = some (.string version) := by
    rw [envelopeEntries, Entries.get?_ofPairs, List.lookup_cons_self]
  show ofValue (.map (envelopeEntries members)) = .ok m
  simp [ofValue, Value.map?, versioned, Value.string?, found]

theorem ofValue_request (r : Request) : ofValue (toValue (.request r)) = .ok (.request r) := by
  let entries := envelopeEntries
    ([("id", Codable.toValue r.id), ("method", .string r.method)] ++ paramsMember r.params)
  have id : entries.get? "id" = some (Codable.toValue r.id) := get?_envelopeEntries (by decide)
  have method : entries.get? "method" = some (.string r.method) := get?_envelopeEntries (by decide)
  have params : paramsOf entries = r.params := by
    rw [paramsOf, get?_envelopeEntries (by decide)]
    exact lookup_params r.params
  have identified : ∀ id : RequestId, (Codable.toValue id).isNull = false ∧
      Codable.ofValue? (Codable.toValue id) = some id := by
    rintro (n | s) <;> exact ⟨rfl, rfl⟩
  refine ofValue_envelope ?_
  show ofEntries? entries = _
  simp [ofEntries?, Codable.ofEntries?, requiredField, Entries.contains, id, method, params,
    identified r.id]

theorem ofValue_notification (n : Notification) :
    ofValue (toValue (.notification n)) = .ok (.notification n) := by
  let entries := envelopeEntries (("method", .string n.method) :: paramsMember n.params)
  have id : entries.get? "id" = none := by
    rw [get?_envelopeEntries (by decide)]
    exact lookup_paramsMember_of_ne (by decide) n.params
  have method : entries.get? "method" = some (.string n.method) := get?_envelopeEntries (by decide)
  have params : paramsOf entries = n.params := by
    rw [paramsOf, get?_envelopeEntries (by decide)]
    exact lookup_params n.params
  refine ofValue_envelope ?_
  show ofEntries? entries = _
  simp [ofEntries?, Codable.ofEntries?, requiredField, Entries.contains, id, method, params,
    Value.isNull]

/-- A message as it is read back. -/
def received : Message → Message
  | .response r => .response { r with outcome := r.outcome.received }
  | m => m

theorem ofValue_response (r : Response) :
    ofValue (toValue (.response r)) = .ok (received (.response r)) := by
  let entries := envelopeEntries [("id", Codable.toValue r.id), outcomeMember r.outcome]
  have method : entries.get? "method" = none := by
    rw [get?_envelopeEntries (by decide)]
    cases r.outcome <;> rfl
  have id : optionalField entries "id" = some r.id := by
    have found : entries.get? "id" = some (Codable.toValue r.id) := get?_envelopeEntries (by decide)
    rw [optionalField, found]
    rcases r.id with _ | n | s <;> rfl
  have outcome : outcomeOf? entries = some r.outcome.received := outcomeOf?_envelopeEntries
  refine ofValue_envelope ?_
  show ofEntries? entries = _
  simp [ofEntries?, Codable.ofEntries?, Entries.contains, method, id, outcome, received]

theorem received_eq_self {m : Message}
    (kept : ∀ id e, m = .response ⟨id, .error e⟩ → e.data ≠ some .null) : m.received = m := by
  rcases m with r | n | ⟨id, v | e⟩
  · rfl
  · rfl
  · rfl
  · rw [received, Outcome.received, ResponseError.received_eq_self (kept id e rfl)]

/-- The object of a message gives the message, as it is read back. -/
theorem ofValue_toValue (m : Message) : ofValue m.toValue = .ok m.received := by
  cases m with
  | request r => exact ofValue_request r
  | notification n => exact ofValue_notification n
  | response r => exact ofValue_response r

/-- The values that a message carries. -/
def values : Message → List Value
  | .request r => [r.params]
  | .notification n => [n.params]
  | .response r => match r.outcome with
    | .result v => [v]
    | .error e => e.data.toList

theorem ordered_envelope (ordered : ∀ member ∈ members, member.2.Ordered) :
    (envelope members).Ordered :=
  Value.ordered_ofPairs (List.forall_mem_cons.mpr ⟨trivial, ordered⟩)

/-- The object of a message has its keys in order at every level if the values that it carries do. -/
theorem ordered_toValue {m : Message} (ordered : ∀ v ∈ m.values, v.Ordered) : m.toValue.Ordered := by
  have identified : ∀ id : RequestId, (Codable.toValue id).Ordered := by
    rintro (n | s) <;> trivial
  have given : ∀ params : Value, params.Ordered →
      ∀ member ∈ paramsMember params, member.2.Ordered := by
    intro params ordered member inside
    rw [paramsMember] at inside
    split at inside
    · cases inside
    · rwa [List.mem_singleton.mp inside]
  cases m with
  | request r =>
    refine ordered_envelope (List.forall_mem_append.mpr ⟨?_, given _ (ordered _ (.head _))⟩)
    exact List.forall_mem_cons.mpr ⟨identified r.id, by simp [Value.Ordered]⟩
  | notification n =>
    exact ordered_envelope (List.forall_mem_cons.mpr ⟨trivial, given _ (ordered _ (.head _))⟩)
  | response r =>
    obtain ⟨id, outcome⟩ := r
    refine ordered_envelope (List.forall_mem_cons.mpr ⟨?_, List.forall_mem_singleton.mpr ?_⟩)
    · cases id with
      | none => trivial
      | some id => exact identified id
    · cases outcome with
      | result v => exact ordered v (.head _)
      | error e =>
        refine Value.ordered_ofPairs (List.forall_mem_append.mpr ⟨by simp [Value.Ordered], ?_⟩)
        intro member inside
        obtain ⟨v, present, rfl⟩ := List.mem_map.mp inside
        exact ordered v present

section Ordered

variable {entries : Entries} (ordered : Value.EntriesOrdered entries)

include ordered

theorem ordered_paramsOf : (paramsOf entries).Ordered := by
  rw [paramsOf]
  cases found : entries.get? "params" with
  | none => trivial
  | some v => exact Value.ordered_of_get? ordered found

theorem ordered_of_outcomeOf? {id : Option RequestId} {outcome : Outcome}
    (read : outcomeOf? entries = some outcome) :
    ∀ v ∈ (Message.response ⟨id, outcome⟩).values, v.Ordered := by
  have result (read : (entries.get? "result").map .result = some outcome) :
      ∀ v ∈ (Message.response ⟨id, outcome⟩).values, v.Ordered := by
    obtain ⟨v, found, rfl⟩ := Option.map_eq_some_iff.mp read
    exact List.forall_mem_singleton.mpr (Value.ordered_of_get? ordered found)
  rw [outcomeOf?] at read
  split at read
  next => exact result read
  next => exact result read
  next v _ found =>
    obtain ⟨e, given, rfl⟩ := Option.map_eq_some_iff.mp read
    obtain ⟨members, isMap, parts⟩ := Option.bind_eq_some_iff.mp given
    obtain rfl : v = .map members := by
      cases v <;> cases isMap
      rfl
    obtain ⟨code, -, others⟩ := Option.bind_eq_some_iff.mp parts
    obtain ⟨message, -, last⟩ := Option.bind_eq_some_iff.mp others
    obtain ⟨data, optional, same⟩ := Option.bind_eq_some_iff.mp last
    cases same
    rw [optionalField_value] at optional
    obtain rfl := Option.some.inj optional
    intro d inside
    have stored := (Option.filter_eq_some_iff.mp (Option.mem_toList.mp inside)).1
    exact Value.ordered_of_get? (Value.ordered_of_get? ordered found).2 stored

/-- The values that a message takes from an object are ordered if those of the object are. -/
theorem ordered_of_ofEntries? {m : Message} (read : ofEntries? entries = some m) :
    ∀ v ∈ m.values, v.Ordered := by
  rw [ofEntries?] at read
  split at read
  · split at read
    · obtain ⟨n, given, rfl⟩ := Option.map_eq_some_iff.mp read
      obtain ⟨method, -, same⟩ := Option.bind_eq_some_iff.mp given
      cases same
      exact List.forall_mem_singleton.mpr (ordered_paramsOf ordered)
    · obtain ⟨r, given, rfl⟩ := Option.map_eq_some_iff.mp read
      obtain ⟨id, -, given⟩ := Option.bind_eq_some_iff.mp given
      obtain ⟨method, -, same⟩ := Option.bind_eq_some_iff.mp given
      cases same
      exact List.forall_mem_singleton.mpr (ordered_paramsOf ordered)
  · obtain ⟨r, given, rfl⟩ := Option.map_eq_some_iff.mp read
    obtain ⟨id, -, given⟩ := Option.bind_eq_some_iff.mp given
    obtain ⟨outcome, reported, same⟩ := Option.bind_eq_some_iff.mp given
    cases same
    exact ordered_of_outcomeOf? ordered reported

end Ordered

/-- Whatever bytes a message was read from, the maps in it are sorted at every level. -/
theorem ordered_of_ofBytes {bytes : List UInt8} {m : Message} (read : ofBytes bytes = .ok m) :
    ∀ v ∈ m.values, v.Ordered := by
  rw [ofBytes] at read
  split at read
  next => cases read
  next v decoded =>
    have ordered := Value.ordered_of_decode decoded
    rw [ofValue] at read
    split at read
    next => cases read
    next entries isMap =>
      obtain rfl : v = .map entries := by
        cases v <;> cases isMap
        rfl
      split at read
      · split at read
        next m taken =>
          cases read
          exact ordered_of_ofEntries? ordered.2 taken
        next => cases read
      · cases read

/-- A message that carries values with their maps sorted at every level. -/
structure OrderedMessage where
  message : Message
  ordered : ∀ v ∈ message.values, v.Ordered

/-- A message is read back from its payload as it was, if its object is not nested too deep and has
only floats that are finite and each read back alone. The only exception is an error whose data is
null, which comes back without data and is otherwise the same. -/
theorem ofBytes_toBytes (m : OrderedMessage) (shallow : m.message.toValue.nesting ≤ 127)
    (readBack : ∀ x ∈ m.message.toValue.floats,
      x.isFinite = true ∧ Value.decode (Value.encode (.float x)) = .ok (.float x)) :
    ((∀ id e, m.message = .response ⟨id, .error e⟩ → e.data ≠ some .null) →
      ofBytes m.message.toBytes = .ok m.message) ∧
      ∀ id e, m.message = .response ⟨id, .error e⟩ → e.data = some .null →
        ofBytes m.message.toBytes = .ok (.response ⟨id, .error { e with data := none }⟩) := by
  obtain ⟨m, ordered⟩ := m
  have read : ofBytes m.toBytes = .ok m.received := by
    rw [ofBytes, toBytes, Value.decode_encode_of_finite (ordered_toValue ordered) shallow readBack]
    exact ofValue_toValue m
  constructor
  · intro kept
    rw [read, received_eq_self kept]
  · rintro id e rfl null
    rw [read, received, Outcome.received, ResponseError.received_of_null null]

/-- A request with a text for its identifier and a float in its parameters. -/
def sampleRequest : OrderedMessage where
  message := .request ⟨.text "a", "m", .map [("k", .list [.float ⟨0x3FF8000000000000⟩, .null])]⟩
  ordered := List.forall_mem_singleton.mpr
    ⟨List.pairwise_singleton _ _, ⟨trivial, trivial, trivial⟩, trivial⟩

/-- A response to nobody knows what, which succeeds with null. -/
def sampleResponse : OrderedMessage where
  message := .response ⟨none, .result .null⟩
  ordered := List.forall_mem_singleton.mpr trivial

/-- An error whose data is null. -/
def sampleError : OrderedMessage where
  message := .response ⟨some (.number 1), .error ⟨.internalError, "e", some .null⟩⟩
  ordered := List.forall_mem_singleton.mpr trivial

theorem samples_read_back :
    ofBytes sampleRequest.message.toBytes = .ok sampleRequest.message ∧
    ofBytes sampleResponse.message.toBytes = .ok sampleResponse.message ∧
    ofBytes sampleError.message.toBytes =
      .ok (.response ⟨some (.number 1), .error ⟨.internalError, "e", none⟩⟩) := by
  have floats : sampleRequest.message.toValue.floats = [⟨0x3FF8000000000000⟩] := rfl
  have readBack : ∀ x ∈ sampleRequest.message.toValue.floats,
      x.isFinite = true ∧ Value.decode (Value.encode (.float x)) = .ok (.float x) := by
    rw [floats]
    exact List.forall_mem_singleton.mpr ⟨rfl, rfl⟩
  refine ⟨(ofBytes_toBytes sampleRequest (by decide) readBack).1 ?_,
    (ofBytes_toBytes sampleResponse (by decide) (List.forall_mem_nil _)).1 ?_,
    (ofBytes_toBytes sampleError (by decide) (List.forall_mem_nil _)).2 _ _ rfl rfl⟩
  · rintro id e ⟨⟩
  · rintro id e ⟨⟩

end Message

end BuildServer.Rpc
