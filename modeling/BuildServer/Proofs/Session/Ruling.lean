import BuildServer.Proofs.Session.Shutdown

/-! # The kind of answer is settled by the order of receipt

Which answer a request gets may be told from the messages received up to it: it is refused because
of its method, its parameters or an earlier shutdown, or it is served, and then the answer is what
its handler makes of the reactions of the backend to its own calls. Neither the limit of the queue
nor the order in which threads take their steps plays a part.
-/

namespace BuildServer

open Backend Protocol Rpc

/-- A call of the backend and its answer, if the backend did not break down. -/
abbrev Reaction := (c : Call) × Option c.Answer

/-- Carrying out steps by themselves: with the given reactions of the backend, in this order, they
end with the given outcome. -/
inductive Body.Concludes : Body → List Reaction → Option Outcome → Prop
  | finish {result : Option Outcome} : Concludes (.finish result) [] result
  | call {c : Call} {next : c.Answer → Body} {heard : List Reaction} {result : Option Outcome}
      (rest : Concludes (.await c next) heard result) : Concludes (.call c next) heard result
  | answered {c : Call} {next : c.Answer → Body} {a : c.Answer} {heard : List Reaction}
      {result : Option Outcome} (rest : Concludes (next a) heard result) :
      Concludes (.await c next) (⟨c, some a⟩ :: heard) result
  | failed {c : Call} {next : c.Answer → Body} : Concludes (.await c next) [⟨c, none⟩] none
  | advance {p : Phase} {rest : Body} {heard : List Reaction} {result : Option Outcome}
      (later : Concludes rest heard result) : Concludes (.advance p rest) heard result

/-- The reactions of the backend settle the outcome. -/
theorem Body.Concludes.unique {body : Body} {heard : List Reaction} {first second : Option Outcome}
    (concludes : body.Concludes heard first) (other : body.Concludes heard second) :
    first = second := by
  induction concludes with
  | finish =>
    cases other
    rfl
  | call _ ih =>
    cases other with
    | call rest => exact ih rest
  | answered _ ih =>
    cases other with
    | answered rest => exact ih rest
  | failed =>
    cases other
    rfl
  | advance _ ih =>
    cases other with
    | advance later => exact ih later

section Concludes

variable {c : Call} {next : c.Answer → Body} {heard : List Reaction} {result : Option Outcome}

@[simp] theorem Body.concludes_finish_iff {outcome : Option Outcome} :
    (Body.finish outcome).Concludes heard result ↔ heard = [] ∧ result = outcome := by
  constructor
  · rintro ⟨⟩
    exact ⟨rfl, rfl⟩
  · rintro ⟨rfl, rfl⟩
    exact .finish

/-- A call is answered, and then the rest concludes, or the backend breaks down over it. -/
theorem Body.concludes_call_iff : (Body.call c next).Concludes heard result ↔
    (∃ a rest, heard = ⟨c, some a⟩ :: rest ∧ (next a).Concludes rest result) ∨
      heard = [⟨c, none⟩] ∧ result = none := by
  constructor
  · intro concludes
    cases concludes with
    | call awaits =>
      cases awaits with
      | answered rest => exact .inl ⟨_, _, rfl, rest⟩
      | failed => exact .inr ⟨rfl, rfl⟩
  · rintro (⟨a, rest, rfl, concludes⟩ | ⟨rfl, rfl⟩)
    · exact concludes.answered.call
    · exact Body.Concludes.failed.call

/-- What the client is told of an answer of the backend that is passed on to it. -/
def Body.forwarded {α : Type} [Schema α] : Except Failure α → Outcome
  | .ok a => .result (.ofTyped a)
  | .error e => .error e.toResponse

theorem Body.forward_eq {α : Type} [Schema α] (answer : Except Failure α) :
    Body.forward answer = .finish (some (forwarded answer)) := by
  cases answer <;> rfl

/-- Steps that pass on what the backend answers ask it once and tell the client just that. -/
theorem Body.concludes_forward_iff {α : Type} [Schema α] {answer : c.Answer → Except Failure α} :
    (Body.call c fun a => .forward (answer a)).Concludes heard result ↔
      (∃ a, heard = [⟨c, some a⟩] ∧ result = some (forwarded (answer a))) ∨
        heard = [⟨c, none⟩] ∧ result = none := by
  rw [concludes_call_iff]
  refine or_congr_left (exists_congr fun a => ?_)
  simp only [forward_eq, concludes_finish_iff]
  constructor
  · rintro ⟨rest, rfl, rfl, rfl⟩
    exact ⟨rfl, rfl⟩
  · rintro ⟨rfl, rfl⟩
    exact ⟨[], rfl, rfl, rfl⟩

end Concludes

/-- Steps that ask the backend or move the phase, and that end with an outcome. -/
def Body.Serves : Body → Prop
  | .call _ next | .await _ next => ∀ a, (next a).Serves
  | .advance _ rest => rest.Serves
  | .finish outcome => outcome.isSome = true
  | .checkPhase _ | .claimClose _ | .closeConnection _ => False

/-- Without a breakdown of the backend there is an outcome. -/
theorem Body.Concludes.eq_none {body : Body} {heard : List Reaction} {result : Option Outcome}
    (concludes : body.Concludes heard result) (serves : body.Serves) :
    result = none ↔ ∃ c, ⟨c, none⟩ ∈ heard := by
  induction concludes with
  | finish =>
    have present : _ ≠ none := Option.isSome_iff_ne_none.mp serves
    simp [present]
  | call _ ih => exact ih serves
  | answered _ ih =>
    refine (ih (serves _)).trans (exists_congr fun c => ?_)
    rw [List.mem_cons, or_iff_right]
    intro same
    cases same
  | failed => simp
  | advance _ ih => exact ih serves

theorem handler_serves (version : String) (q : Query) : (q.handler version).Serves := by
  cases q with
  | handshake => exact fun _ _ _ _ _ => rfl
  | shutdown => rfl
  | prepare | sources | options | targets =>
    intro answer
    cases answer <;> rfl
  | awaitUpdates => exact fun _ => rfl

namespace Session

open Queue

/-- The reaction that an event reports. -/
def Event.reaction? : Event → Option Reaction
  | .returned _ c answer => some ⟨c, answer⟩
  | _ => none

/-- What the job of a message has heard from the backend. -/
def heard (message : Nat) (events : List Event) : List Reaction :=
  (about message events).filterMap Event.reaction?

/-- How a request is dealt with. -/
inductive Ruling
  | refused (e : ResponseError)
  | served (q : Query)

/-- How a request is dealt with that comes after the given messages. -/
def ruling (earlier : List Message) (r : Request) : Ruling :=
  match Query.read? r.method r.params with
  | none => .refused (.methodNotFound r.method)
  | some (.error e) => .refused (.invalidParams r.method e.message)
  | some (.ok q) =>
    if earlier.any refuses && r.method != Method.shutdown.name then
      .refused (.shuttingDown r.method)
    else .served q

/-- What a request gets that is dealt with so: its error, or what its handler comes to with what it
has heard from the backend. A request whose handler broke down with the backend is abandoned. -/
def Ruling.Gives (version : String) (heard : List Reaction) (outcome : Outcome) : Ruling → Prop
  | .refused e => outcome = .error e
  | .served q => ∃ result, (q.handler version).Concludes heard result ∧
      outcome = result.getD (.error .abandoned) ∧ (result = none ↔ ∃ c, ⟨c, none⟩ ∈ heard)

/-- What is heard from the backend settles what a request gets. -/
theorem Ruling.Gives.unique {version : String} {heard : List Reaction} {first second : Outcome}
    {ruling : Ruling} (gives : ruling.Gives version heard first)
    (other : ruling.Gives version heard second) : first = second := by
  cases ruling with
  | refused e => exact gives.trans other.symm
  | served q =>
    obtain ⟨result, concludes, rfl, -⟩ := gives
    obtain ⟨again, concluded, rfl, -⟩ := other
    rw [concludes.unique concluded]

/-- A request that is passed on to the backend gets what the backend answers. -/
theorem Ruling.Gives.of_forward {version : String} {heard : List Reaction} {outcome : Outcome}
    {q : Query} {c : Call} {α : Type} [Schema α] {answer : c.Answer → Except Failure α}
    (gives : (Ruling.served q).Gives version heard outcome)
    (forwards : q.handler version = .call c fun a => .forward (answer a)) :
    (∃ a, heard = [⟨c, some a⟩] ∧ outcome = Body.forwarded (answer a)) ∨
      heard = [⟨c, none⟩] ∧ outcome = .error .abandoned := by
  obtain ⟨result, concludes, rfl, -⟩ := gives
  rw [forwards, Body.concludes_forward_iff] at concludes
  obtain ⟨a, once, rfl⟩ | ⟨once, rfl⟩ := concludes
  · exact .inl ⟨a, once, rfl⟩
  · exact .inr ⟨once, rfl⟩

example (version : String) (params : SourcesParams) : (Query.sources params).handler version =
    .call (.sources params.targets) fun answer => .forward answer := rfl

theorem exists_of_map_eq_ok {α β ε : Type} {f : α → β} {x : Except ε α} {b : β}
    (success : x.map f = .ok b) : ∃ a, f a = b := by
  cases x with
  | error e => contradiction
  | ok a => exact ⟨a, Except.ok.inj success⟩

/-- A request that can be read knows its method. -/
theorem method_of_read? {method : String} {params : Value} {q : Query}
    (read : Query.read? method params = some (.ok q)) : q.method = method := by
  obtain ⟨reader, found, read⟩ := Option.map_eq_some_iff.mp read
  obtain ⟨before, after, table, -⟩ := List.lookup_eq_some_iff.mp found
  have member : (method, reader) ∈ Query.readers := by simp [table]
  simp only [Query.readers, List.mem_cons, Prod.mk.injEq, List.not_mem_nil, or_false] at member
  rcases member with ⟨rfl, rfl⟩ | ⟨rfl, rfl⟩ | ⟨rfl, rfl⟩ | ⟨rfl, rfl⟩ | ⟨rfl, rfl⟩ | ⟨rfl, rfl⟩ |
    ⟨rfl, rfl⟩
  all_goals
    obtain ⟨params, rfl⟩ := exists_of_map_eq_ok read
    rfl

/-- Only a request of one method goes on being served after a shutdown. -/
theorem isShutdown_iff (q : Query) : q.isShutdown = true ↔ q.method = Method.shutdown.name := by
  cases q <;> simp only [Query.isShutdown, Query.method] <;> decide

namespace Course

variable {message : Nat} {sequence : UInt64} {j : Job} {owed : Option OwedReply} {body : Body}
  {record : List Event}

/-- A job that looks at the phase first goes on with what follows from it. -/
theorem of_checkPhase (course : Course message sequence j owed body record) {next : Phase → Body}
    (first : j.body = .checkPhase next) :
    (record = [] ∧ body = j.body ∧ owed = j.owed) ∨ ∃ p rest,
      record = .checked (.job message sequence) p :: rest ∧
      Course message sequence { j with body := next p } owed body rest := by
  induction course with
  | start => exact .inl ⟨rfl, rfl, rfl⟩
  | goes _ goes ih =>
    rcases ih with ⟨rfl, rfl, rfl⟩ | ⟨p, rest, rfl, course⟩
    · rw [first] at goes
      cases goes
      exact .inr ⟨_, [], rfl, .start⟩
    · exact .inr ⟨p, _, rfl, course.goes goes⟩
  | replied _ ih =>
    rcases ih with ⟨-, same, -⟩ | ⟨p, rest, rfl, course⟩
    · rw [first] at same
      contradiction
    · exact .inr ⟨p, _, rfl, course.replied⟩

/-- A job that has nothing to do but to end causes no event but its reply. -/
theorem of_finish (course : Course message sequence j owed body record) {outcome : Option Outcome}
    (first : j.body = .finish outcome) :
    body = .finish outcome ∧ (record = [] ∨
      ∃ o, j.owed = some o ∧ record = [.replied message (o.response outcome)] ∧ owed = none) := by
  induction course with
  | start => exact ⟨first, .inl rfl⟩
  | goes _ goes ih =>
    rw [ih.1] at goes
    cases goes
  | replied before ih =>
    obtain ⟨same, rfl | ⟨o, -, -, paid⟩⟩ := ih
    · cases same
      have owes := before.owed_cases.resolve_right (by simp)
      exact ⟨rfl, .inr ⟨_, owes.symm, rfl, rfl⟩⟩
    · contradiction

/-- What is left of a serving job concludes as the whole does with what has been heard before. -/
theorem concludes (course : Course message sequence j owed body record) (serves : j.body.Serves) :
    (body.Serves ∨ body = .finish none) ∧ ∀ heard result, body.Concludes heard result →
      j.body.Concludes (record.filterMap Event.reaction? ++ heard) result := by
  induction course with
  | start => exact ⟨.inl serves, fun _ _ concludes => concludes⟩
  | goes _ goes ih =>
    obtain ⟨serving | rfl, whole⟩ := ih
    · cases goes with
      | checked | claimed | closed => exact serving.elim
      | called =>
        refine ⟨.inl serving, fun heard result rest => ?_⟩
        rw [List.filterMap_append, List.append_assoc]
        exact whole heard result rest.call
      | answered =>
        refine ⟨.inl (serving _), fun heard result rest => ?_⟩
        rw [List.filterMap_append, List.append_assoc]
        exact whole _ result rest.answered
      | failed =>
        refine ⟨.inr rfl, fun heard result rest => ?_⟩
        cases rest
        rw [List.filterMap_append, List.append_assoc]
        exact whole _ none .failed
      | advanced =>
        refine ⟨.inl serving, fun heard result rest => ?_⟩
        rw [List.append_nil]
        exact whole heard result rest.advance
    · cases goes
  | replied _ ih =>
    refine ⟨ih.1, fun heard result rest => ?_⟩
    rw [List.filterMap_append, List.append_assoc]
    exact ih.2 heard result rest

end Course

/-- The steps that a request takes once it has looked at the phase: those that its ruling asks
for. -/
def Ruling.body (version : String) : Ruling → Body
  | .refused e => .fail e
  | .served q => q.handler version

theorem ruling_of_refusal {r : Request} {e : ResponseError} (refusal : refusal? r = some e)
    (earlier : List Message) : ruling earlier r = .refused e := by
  simp only [refusal?] at refusal
  simp only [ruling]
  split at refusal <;> simp_all

theorem read_of_refusal {r : Request} (refusal : refusal? r = none) :
    ∃ q, Query.read? r.method r.params = some (.ok q) := by
  simp only [refusal?] at refusal
  split at refusal
  · contradiction
  · contradiction
  · exact ⟨_, by assumption⟩

/-- A request that looks at the phase goes on as its ruling says, if what it finds comes of the
messages before it. -/
theorem body_of_phase (earlier : List Message) {r : Request} {q : Query}
    (read : Query.read? r.method r.params = some (.ok q)) (version : String) {p : Phase}
    (found : q.isShutdown = false → p.refusesRequests = earlier.any refuses) :
    (if p.refusesRequests && !q.isShutdown then .fail (.shuttingDown q.method)
      else q.handler version) = (ruling earlier r).body version := by
  have method := method_of_read? read
  simp only [ruling, read]
  cases shutdown : q.isShutdown with
  | true =>
    have same : r.method = Method.shutdown.name := method ▸ (isShutdown_iff q).mp shutdown
    simp [same, Ruling.body]
  | false =>
    have other : r.method ≠ Method.shutdown.name := by
      rw [← method]
      intro same
      rw [(isShutdown_iff q).mpr same] at shutdown
      contradiction
    rw [found shutdown]
    cases earlier.any refuses <;> simp [other, method, Ruling.body]

/-- What a request gets once its steps are those of its ruling is what the ruling gives. -/
theorem Ruling.gives_of_course {ruling : Ruling} {version : String} {i : Nat} {sequence : UInt64}
    {id : RequestId} {owed : Option OwedReply} {body : Body} {record : List Event}
    (course : Course i sequence ⟨i, some ⟨id⟩, ruling.body version⟩ owed body record)
    {n : Nat} {reply : Response} (sent : .replied n reply ∈ record) :
    ruling.Gives version (record.filterMap Event.reaction?) reply.outcome := by
  obtain ⟨outcome, o, -, rfl, rfl⟩ := course.of_replied sent
  cases ruling with
  | refused e =>
    obtain ⟨same, -⟩ := course.of_finish rfl
    cases same
    rfl
  | served q =>
    have serves := handler_serves version q
    have concluded := (course.concludes serves).2 [] outcome .finish
    rw [List.append_nil] at concluded
    exact ⟨outcome, concluded, rfl, concluded.eq_none serves⟩

/-- A refused request causes no event but its reply. -/
theorem Course.of_refused {e : ResponseError} {version : String} {i : Nat} {sequence : UInt64}
    {id : RequestId} {owed : Option OwedReply} {body : Body} {record : List Event}
    (course : Course i sequence ⟨i, some ⟨id⟩, (Ruling.refused e).body version⟩ owed body record) :
    ∀ event ∈ record, ∃ reply, event = .replied i reply := by
  intro event member
  obtain ⟨-, rfl | ⟨o, -, rfl, -⟩⟩ := course.of_finish rfl
  · contradiction
  · exact ⟨_, List.mem_singleton.mp member⟩

section Run

variable {settings : Settings} {hasObserver : Bool} {moves : List Move} {s : Session}
  (run : (start settings hasObserver).run? moves = some s)

include run

/-- Nothing is seen of a request that is refused at once but its error. -/
theorem about_of_refusal {i : Nat} {r : Request} {e : ResponseError}
    (isRequest : (messages moves)[i]? = some (.request r)) (refusal : refusal? r = some e) :
    about i s.events = [.replied i ⟨some r.id, .error e⟩] := by
  have jobless : jobAt? s.version (messages moves) i = none := by
    rw [jobAt?, isRequest]
    exact jobOf?_of_refusal refusal
  rw [(recorded_of_run? run).answered i jobless, isRequest]
  simp [atOnce, refusal]

/-- What is seen of a request that can be read is its look at the phase, a course of what it goes on
with then, and its end; or nothing of it is seen. -/
theorem about_of_look {i : Nat} {r : Request} {q : Query}
    (isRequest : (messages moves)[i]? = some (.request r))
    (read : Query.read? r.method r.params = some (.ok q)) {next : Body}
    (goes : ∀ sequence p, .checked (.job i sequence) p ∈ s.events →
      (if p.refusesRequests && !q.isShutdown then .fail (.shuttingDown q.method)
        else q.handler s.version) = next) :
    ∃ sequence owed body before record after, about i s.events = before ++ record ++ after ∧
      Course i sequence ⟨i, some ⟨r.id⟩, next⟩ owed body record ∧
      (∀ e ∈ before, ∃ o p, e = .checked o p) ∧ ∀ e ∈ after, ∃ o, e = .released o := by
  have job : jobAt? s.version (messages moves) i =
      some (q.footprint, ⟨i, some ⟨r.id⟩, q.body s.version⟩) := by
    simp only [jobAt?, isRequest, Option.bind_some, jobOf?, read]
  obtain ⟨sequence, owed, body, record, course, noted⟩ :=
    (recorded_of_run? run).account i _ _ job
  obtain ⟨after, noted, ended⟩ : ∃ after, about i s.events = record ++ after ∧
      ∀ e ∈ after, ∃ o, e = .released o := by
    rcases noted with noted | ⟨-, -, noted⟩
    · exact ⟨[], by rw [noted, List.append_nil], by simp⟩
    · exact ⟨[.released (.job i sequence)], noted, by simp⟩
  rcases course.of_checkPhase rfl with ⟨rfl, -, -⟩ | ⟨p, rest, rfl, later⟩
  · exact ⟨sequence, _, _, [], [], after, noted, .start, by simp, ended⟩
  · have looked : .checked (.job i sequence) p ∈ about i s.events := by
      rw [noted]
      exact List.mem_cons_self ..
    rw [← goes sequence p (mem_about.mp looked).1]
    exact ⟨sequence, owed, body, [.checked (.job i sequence) p], rest, after, noted, later,
      by simp, ended⟩

/-- In a session that the owner does not close, what a request goes on with is what its ruling asks
for. -/
theorem about_of_read (unclosed : .close ∉ moves) {i : Nat} {r : Request} {q : Query}
    (isRequest : (messages moves)[i]? = some (.request r))
    (read : Query.read? r.method r.params = some (.ok q)) :
    ∃ sequence owed body before record after, about i s.events = before ++ record ++ after ∧
      Course i sequence
        ⟨i, some ⟨r.id⟩, (ruling ((messages moves).take i) r).body s.version⟩ owed body record ∧
      (∀ e ∈ before, ∃ o p, e = .checked o p) ∧ ∀ e ∈ after, ∃ o, e = .released o := by
  refine about_of_look run isRequest read fun sequence p looked => ?_
  apply body_of_phase ((messages moves).take i) read s.version
  intro other
  refine (phase_of_checked run unclosed looked).2 ?_
  rintro ⟨m, present, refused⟩
  obtain rfl := Option.some.inj (isRequest.symm.trans present)
  simp only [refuses, read, other] at refused
  contradiction

/-- Apart from its look at the phase and its end, what is seen of a request is a course of what its
ruling asks for. -/
theorem course_of_ruling (unclosed : .close ∉ moves) {i : Nat} {r : Request}
    (isRequest : (messages moves)[i]? = some (.request r)) :
    ∃ sequence owed body before record after, about i s.events = before ++ record ++ after ∧
      Course i sequence
        ⟨i, some ⟨r.id⟩, (ruling ((messages moves).take i) r).body s.version⟩ owed body record ∧
      (∀ e ∈ before, ∃ o p, e = .checked o p) ∧ ∀ e ∈ after, ∃ o, e = .released o := by
  cases refusal : refusal? r with
  | some e =>
    have seen := about_of_refusal run isRequest refusal
    rw [ruling_of_refusal refusal]
    exact ⟨0, _, _, [], _, [], by rw [List.append_nil, seen]; rfl, Course.start.replied, by simp,
      by simp⟩
  | none =>
    obtain ⟨q, read⟩ := read_of_refusal refusal
    exact about_of_read run unclosed isRequest read

/-- Every reply to a request is what its ruling gives, and nothing is asked of the backend for a
request that is refused. -/
theorem gives_of_ruling (unclosed : .close ∉ moves) {i : Nat} {r : Request}
    (isRequest : (messages moves)[i]? = some (.request r)) :
    (∀ reply ∈ repliesTo i s.events, (ruling ((messages moves).take i) r).Gives settings.serverVersion
      (heard i s.events) reply.outcome) ∧
    ∀ e, ruling ((messages moves).take i) r = .refused e →
      ∀ sequence c, .called (.job i sequence) c ∉ s.events := by
  obtain ⟨sequence, owed, body, before, record, after, noted, course, checks, ends⟩ :=
    course_of_ruling run unclosed isRequest
  have among : ∀ e, e ∈ s.events → e.message? = some i → e ∈ record ∨
      (∃ o p, e = .checked o p) ∨ ∃ o, e = .released o := by
    intro e member mine
    have seen := mem_about.mpr ⟨member, mine⟩
    rw [noted, List.mem_append, List.mem_append] at seen
    rcases seen with (check | caused) | ended
    · exact .inr (.inl (checks e check))
    · exact .inl caused
    · exact .inr (.inr (ends e ended))
  have reactions : heard i s.events = record.filterMap Event.reaction? := by
    have checked : before.filterMap Event.reaction? = [] := by
      rw [List.filterMap_eq_nil_iff]
      intro e member
      obtain ⟨o, p, rfl⟩ := checks e member
      rfl
    have ended : after.filterMap Event.reaction? = [] := by
      rw [List.filterMap_eq_nil_iff]
      intro e member
      obtain ⟨o, rfl⟩ := ends e member
      rfl
    rw [heard, noted, List.filterMap_append, List.filterMap_append, checked, ended,
      List.nil_append, List.append_nil]
  rw [version_of_run? run] at course
  refine ⟨fun reply sent => ?_, fun e refused number c called => ?_⟩
  · have caused : .replied i reply ∈ record := by simpa using among _ (mem_repliesTo.mp sent) rfl
    rw [reactions]
    exact Ruling.gives_of_course course caused
  · have caused : .called (.job i number) c ∈ record := by simpa using among _ called rfl
    rw [refused] at course
    obtain ⟨reply, impossible⟩ := course.of_refused _ caused
    contradiction

/-- The reply to a request that is passed on to the backend has what the backend answered, unless it
broke down. -/
theorem forwarded_of_served (unclosed : .close ∉ moves) {i : Nat} {r : Request}
    (isRequest : (messages moves)[i]? = some (.request r)) {q : Query}
    (served : ruling ((messages moves).take i) r = .served q) {c : Call} {α : Type} [Schema α]
    {answer : c.Answer → Except Failure α}
    (forwards : q.handler settings.serverVersion = .call c fun a => .forward (answer a))
    {reply : Response} (sent : reply ∈ repliesTo i s.events) :
    (∃ a, heard i s.events = [⟨c, some a⟩] ∧ reply.outcome = Body.forwarded (answer a)) ∨
      heard i s.events = [⟨c, none⟩] ∧ reply.outcome = .error .abandoned := by
  have gives := (gives_of_ruling run unclosed isRequest).1 reply sent
  rw [served] at gives
  exact gives.of_forward forwards

/-- Two sessions of one version that received the same messages up to a request, and that heard the
same from the backend on account of it, have sent the same reply to it, whatever else happened. -/
theorem replies_agree {limits : Settings} {observes : Bool} {others : List Move} {other : Session}
    (again : (start limits observes).run? others = some other)
    (version : limits.serverVersion = settings.serverVersion) (unclosed : .close ∉ moves)
    (leftOpen : .close ∉ others) {i : Nat} {r : Request}
    (isRequest : (messages moves)[i]? = some (.request r))
    (received : (messages others).take (i + 1) = (messages moves).take (i + 1))
    (same : heard i other.events = heard i s.events) {first second : Response}
    (sent : first ∈ repliesTo i s.events) (answered : second ∈ repliesTo i other.events) :
    first = second := by
  have isAgain : (messages others)[i]? = some (.request r) := by
    rw [← List.getElem?_take_of_lt i.lt_succ_self, received,
      List.getElem?_take_of_lt i.lt_succ_self, isRequest]
  have earlier : (messages others).take i = (messages moves).take i := by
    simpa [List.take_take] using congrArg (List.take i) received
  have gives := (gives_of_ruling run unclosed isRequest).1 first sent
  have given := (gives_of_ruling again leftOpen isAgain).1 second answered
  rw [version, earlier, same] at given
  have identified := (repliesTo_of_run? run isRequest).2.1 first sent
  have identifies := (repliesTo_of_run? again isAgain).2.1 second answered
  obtain ⟨id, outcome⟩ := first
  obtain ⟨id', outcome'⟩ := second
  exact congrArg₂ Response.mk (identified.trans identifies.symm) (gives.unique given)

end Run

/-- In every run that the owner does not close, a request is answered as the messages received
before it rule, whatever comes after it and in whatever order threads take their steps: with an
error if it is refused, and then the backend has not been called for it, or else with what its
handler makes of the reactions of the backend. Once nothing is left to be done it has been
answered. -/
theorem answer_ruled_by_receipt_order {settings : Settings} {hasObserver : Bool}
    {moves : List Move} {s : Session} (run : (start settings hasObserver).run? moves = some s)
    (unclosed : .close ∉ moves) {i : Nat} {r : Request}
    (isRequest : (messages moves)[i]? = some (.request r)) :
    (∀ reply ∈ repliesTo i s.events, reply.id = some r.id ∧
      (ruling ((messages moves).take i) r).Gives settings.serverVersion (heard i s.events)
        reply.outcome) ∧
    (∀ e, ruling ((messages moves).take i) r = .refused e →
      ∀ sequence c, .called (.job i sequence) c ∉ s.events) ∧
    (s.isIdle = true → (repliesTo i s.events).length = 1) := by
  obtain ⟨-, identifier, answered⟩ := repliesTo_of_run? run isRequest
  obtain ⟨gives, uncalled⟩ := gives_of_ruling run unclosed isRequest
  exact ⟨fun reply sent => ⟨identifier reply sent, gives reply sent⟩, uncalled, answered⟩

/-- A request that comes after a shutdown is answered with its refusal. -/
theorem request_refused_after_shutdown : ∃ (moves : List Move) (s : Session),
    (start .default false).run? moves = some s ∧
    messages moves = [.request ⟨.number 1, "build/shutdown", .null⟩,
      .request ⟨.number 2, "workspace/buildTargets", .null⟩] ∧
    (repliesTo 1 s.events).length = 1 ∧ ∀ reply ∈ repliesTo 1 s.events, reply.outcome =
      .error (.shuttingDown "workspace/buildTargets") := by
  have run : (start .default false).run? [.receive (.request ⟨.number 1, "build/shutdown", .null⟩),
      .receive (.request ⟨.number 2, "workspace/buildTargets", .null⟩), .step 0 fun _ => none,
      .step 0 fun _ => none, .step 0 fun _ => none, .step 0 fun _ => none, .step 0 fun _ => none,
      .step 0 fun _ => none, .step 0 fun _ => none] = some _ := rfl
  have ruled := answer_ruled_by_receipt_order (i := 1) run (by simp) rfl
  exact ⟨_, _, run, rfl, ruled.2.2 rfl, fun reply sent => (ruled.1 reply sent).2⟩

end Session

end BuildServer
