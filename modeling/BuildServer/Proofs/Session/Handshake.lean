import BuildServer.Proofs.Protocol.Extension
import BuildServer.Proofs.Session.Progress
import BuildServer.Proofs.Session.Ruling

/-! # The answer to the handshake

Five calls ask the backend what it can do, and the answer hands on what it said. Whatever that was, the
answer is a result, and what the client reads from it is what the backend said: the capabilities go
through a payload inside a record, and a path that the backend cannot tell is left out without touching
the rest.
-/

namespace BuildServer

open Backend Protocol Rpc

/-- What a backend says that it can do. -/
structure Capabilities where
  displayName : String
  prepares : Bool
  indexDatabase : Except Failure (Option String)
  indexStore : Except Failure (Option String)
  watchers : List Watcher

namespace Capabilities

/-- Whether a backend that can do so may react like this; it may answer all other calls in any way. -/
def Admits (k : Capabilities) : Reaction → Prop
  | ⟨.displayName, answer⟩ => answer = some k.displayName
  | ⟨.supportsPreparation, answer⟩ => answer = some k.prepares
  | ⟨.indexDatabase, answer⟩ => answer = some k.indexDatabase
  | ⟨.indexStore, answer⟩ => answer = some k.indexStore
  | ⟨.watchers, answer⟩ => answer = some k.watchers
  | _ => True

/-- The payload that tells the client so; a path that the backend fails to tell is not known. -/
def extension (k : Capabilities) : Extension where
  indexDatabasePath := k.indexDatabase.toOption.join
  indexStorePath := k.indexStore.toOption.join
  outputPathsProvider := k.prepares
  prepareProvider := k.prepares
  optionsProvider := true
  watchers := k.watchers

/-- What the client reads from the answer of a server of the given version. -/
def ReadFrom (k : Capabilities) (version : String) (outcome : Outcome) : Prop :=
  ∃ v, outcome = .result v ∧ ∃ result : InitializeResult, v.toTyped = .ok result ∧
    result.displayName = k.displayName ∧ result.version = version ∧
    ∃ data, result.data = some data ∧ Codable.ofValue? data = some k.extension

/-- A backend that can do so, and that breaks down when it is asked for anything else. -/
def answers (k : Capabilities) : Answers
  | .displayName => some k.displayName
  | .supportsPreparation => some k.prepares
  | .indexDatabase => some k.indexDatabase
  | .indexStore => some k.indexStore
  | .watchers => some k.watchers
  | _ => none

theorem admits_answers (k : Capabilities) (c : Call) : k.Admits ⟨c, k.answers c⟩ := by
  cases c <;> trivial

end Capabilities

theorem Body.knownPath_eq (answer : Except Failure (Option String)) :
    Body.knownPath answer = answer.toOption.join := by
  cases answer <;> rfl

/-- A call to which there is only one possible answer is answered by it. -/
theorem Body.Concludes.of_call {c : Call} {next : c.Answer → Body} {heard : List Reaction}
    {result : Option Outcome} (concludes : (Body.call c next).Concludes heard result)
    {possible : Reaction → Prop} (admitted : ∀ x ∈ heard, possible x) {a : c.Answer}
    (only : ∀ answer, possible ⟨c, answer⟩ → answer = some a) :
    ∃ later, (next a).Concludes later result ∧ ∀ x ∈ later, possible x := by
  obtain ⟨_, later, rfl, rest⟩ | ⟨rfl, -⟩ := Body.concludes_call_iff.mp concludes
  · obtain ⟨first, others⟩ := List.forall_mem_cons.mp admitted
    obtain rfl := Option.some.inj (only _ first)
    exact ⟨later, rest, others⟩
  · obtain ⟨first, -⟩ := List.forall_mem_cons.mp admitted
    cases only _ first

/-- The handler comes to the introduction of what the backend says, one call after the other; the phase is
moved on before the last of them. -/
theorem Body.Concludes.of_handshake {version : String} {heard : List Reaction}
    {result : Option Outcome} (concludes : (Body.handshake version).Concludes heard result)
    {k : Capabilities} (admitted : ∀ x ∈ heard, k.Admits x) :
    result = some (.result (.ofTyped (Body.introduction version k.displayName k.extension))) := by
  obtain ⟨heard, concludes, admitted⟩ := concludes.of_call admitted fun _ told => told
  obtain ⟨heard, concludes, admitted⟩ := concludes.of_call admitted fun _ told => told
  obtain ⟨heard, concludes, admitted⟩ := concludes.of_call admitted fun _ told => told
  obtain ⟨heard, concludes, admitted⟩ := concludes.of_call admitted fun _ told => told
  cases concludes with
  | advance concludes =>
    obtain ⟨heard, concludes, -⟩ := concludes.of_call admitted fun _ told => told
    cases concludes
    rw [Body.knownPath_eq, Body.knownPath_eq]
    rfl

/-- The introduction is read as it was meant, with the payload inside. -/
theorem Capabilities.readFrom_introduction (k : Capabilities) (version : String) :
    k.ReadFrom version (.result (.ofTyped (Body.introduction version k.displayName k.extension))) := by
  have returns : Schema.Returns (Body.introduction version k.displayName k.extension) := by
    apply Lasting.returns
    intro v inside
    obtain rfl := List.mem_singleton.mp inside
    exact k.extension.portable
  exact ⟨_, rfl, _, returns.toTyped, rfl, rfl, _, rfl, k.extension.ofValue?_toValue⟩

namespace Session

/-- The answer to a call is what the backend answers in the step that notes it. -/
theorem stepThread_returned {s : Session} {i : Nat} {t : Thread} {answers : Answers} {origin : Origin}
    {c : Call} {answer : Option c.Answer}
    (returned : .returned origin c answer ∈ (s.stepThread i t answers).events) :
    .returned origin c answer ∈ s.events ∨ answer = answers c := by
  obtain ⟨whose, owed, body⟩ := t
  cases body with
  | await c next =>
    have noted : (s.stepThread i ⟨whose, owed, .await c next⟩ answers).events =
        s.events ++ [.returned whose c (answers c)] := by
      simp only [stepThread]
      cases answers c <;> rfl
    rw [noted, List.mem_append, List.mem_singleton] at returned
    rcases returned with before | now
    · exact .inl before
    · cases now
      exact .inr rfl
  | finish outcome =>
    refine .inl ?_
    cases owed <;> cases whose <;> simpa [stepThread, reply, endThread, note] using returned
  | _ => exact .inl (by simpa [stepThread, goOn, note] using returned)

/-- Every answer to a call was given in a step of the run. -/
theorem returned_of_run? {settings : Settings} {hasObserver : Bool} {moves : List Move} {s : Session}
    (run : (start settings hasObserver).run? moves = some s) {origin : Origin} {c : Call}
    {answer : Option c.Answer} (returned : .returned origin c answer ∈ s.events) :
    ∃ i answers, .step i answers ∈ moves ∧ answer = answers c := by
  refine run?_steps (fun moves s => .returned origin c answer ∈ s.events →
    ∃ i answers, .step i answers ∈ moves ∧ answer = answers c) (by simp [start]) ?_ run returned
  intro moves s move next _ given step returned
  have earlier : .returned origin c answer ∈ s.events →
      ∃ i answers, .step i answers ∈ moves ++ [move] ∧ answer = answers c := by
    intro before
    obtain ⟨i, answers, member, same⟩ := given before
    exact ⟨i, answers, List.mem_append_left _ member, same⟩
  cases move with
  | step i answers =>
    obtain ⟨t, -, rfl⟩ := Option.map_eq_some_iff.mp step
    rcases stepThread_returned returned with before | now
    · exact earlier before
    · exact ⟨i, answers, by simp, now⟩
  | receive m =>
    refine earlier ?_
    cases moves_of_step? step with
    | dropped => exact returned
    | refused => cases seen : s.hasObserver <;> simpa [seen, observation] using returned
    | queued => cases seen : s.hasObserver <;> cases m <;> simpa [seen, observation] using returned
  | push params =>
    obtain rfl := Option.some.inj step
    exact earlier (by simpa [push, note] using returned)
  | close =>
    obtain rfl := Option.some.inj step
    exact earlier returned

theorem read_handshake {r : Request} (method : r.method = Method.handshake.name)
    {params : InitializeParams} (decodable : readParams r.params = .ok params) :
    Query.read? r.method r.params = some (.ok (.handshake params)) := by
  rw [method]
  change some ((readParams r.params).map Query.handshake) = _
  rw [decodable]
  rfl

section Run

variable {settings : Settings} {hasObserver : Bool} {moves : List Move} {s : Session}
  (run : (start settings hasObserver).run? moves = some s) {i : Nat} {r : Request}
  (isRequest : (messages moves)[i]? = some (.request r)) {params : InitializeParams}
  (read : Query.read? r.method r.params = some (.ok (.handshake params)))
  (early : ∀ sequence phase, .checked (.job i sequence) phase ∈ s.events →
    phase.refusesRequests = false)

include run isRequest read early

/-- A handshake that finds the session serving requests is answered with what its handler comes to,
given reactions of the backend that are among the events. -/
theorem outcome_of_handshake {reply : Response} (sent : .replied i reply ∈ s.events) :
    ∃ heard result, (Body.handshake settings.serverVersion).Concludes heard result ∧
      reply.outcome = result.getD (.error .abandoned) ∧
      ∀ c answer, ⟨c, answer⟩ ∈ heard → ∃ origin, .returned origin c answer ∈ s.events := by
  have goes : ∀ sequence p, .checked (.job i sequence) p ∈ s.events →
      (if p.refusesRequests && !(Query.handshake params).isShutdown then
        .fail (.shuttingDown (Query.handshake params).method)
      else (Query.handshake params).handler s.version) =
      (Ruling.served (.handshake params)).body s.version := by
    intro sequence p looked
    rw [early sequence p looked]
    rfl
  obtain ⟨sequence, owed, body, before, record, after, noted, course, checks, ends⟩ :=
    about_of_look run isRequest read goes
  rw [version_of_run? run] at course
  have caused : .replied i reply ∈ record := by
    have seen := mem_about.mpr ⟨sent, rfl⟩
    rw [noted, List.mem_append, List.mem_append] at seen
    rcases seen with (check | caused) | ended
    · obtain ⟨_, _, same⟩ := checks _ check
      cases same
    · exact caused
    · obtain ⟨_, same⟩ := ends _ ended
      cases same
  obtain ⟨result, concludes, outcome, -⟩ := Ruling.gives_of_course course caused
  refine ⟨_, result, concludes, outcome, fun c answer member => ?_⟩
  obtain ⟨e, inside, reaction⟩ := List.mem_filterMap.mp member
  have seen : e ∈ about i s.events := by
    rw [noted]
    exact List.mem_append_left _ (List.mem_append_right _ inside)
  cases e with
  | returned origin _ _ =>
    cases reaction
    exact ⟨origin, (mem_about.mp seen).1⟩
  | _ => cases reaction

/-- What the client reads from the answer to such a handshake is what the backend says. -/
theorem readFrom_of_handshake {k : Capabilities}
    (backend : ∀ thread answers, .step thread answers ∈ moves → ∀ c, k.Admits ⟨c, answers c⟩)
    {reply : Response} (sent : .replied i reply ∈ s.events) :
    k.ReadFrom settings.serverVersion reply.outcome := by
  obtain ⟨heard, result, concludes, outcome, reported⟩ :=
    outcome_of_handshake run isRequest read early sent
  have admitted : ∀ x ∈ heard, k.Admits x := by
    rintro ⟨c, answer⟩ member
    obtain ⟨origin, returned⟩ := reported c answer member
    obtain ⟨thread, answers, step, rfl⟩ := returned_of_run? run returned
    exact backend thread answers step c
  rw [outcome, concludes.of_handshake admitted]
  exact k.readFrom_introduction settings.serverVersion

end Run

/-- A handshake whose parameters can be read, and that is looked at before requests are refused, is
answered with a result from which the client reads what the backend says, whatever that is and whatever
else the backend is asked. Once nothing is left to be done it has been answered; and as soon as it is
being carried out, nothing but steps of its own thread is needed for that. -/
theorem handshake_answered_faithfully {settings : Settings} {hasObserver : Bool} {moves : List Move}
    {s : Session} (run : (start settings hasObserver).run? moves = some s) {i : Nat} {r : Request}
    (isRequest : (messages moves)[i]? = some (.request r)) (method : r.method = Method.handshake.name)
    {params : InitializeParams} (decodable : readParams r.params = .ok params)
    (early : ∀ sequence phase, .checked (.job i sequence) phase ∈ s.events →
      phase.refusesRequests = false)
    {k : Capabilities}
    (backend : ∀ thread answers, .step thread answers ∈ moves → ∀ c, k.Admits ⟨c, answers c⟩) :
    (∀ reply ∈ repliesTo i s.events, reply.id = some r.id ∧
      k.ReadFrom settings.serverVersion reply.outcome) ∧
    (s.isIdle = true → (repliesTo i s.events).length = 1) ∧
    ∀ thread t sequence, s.threads[thread]? = some t → t.origin = .job i sequence → ∀ answers,
      ∃ n later, s.run? (List.replicate n (.step thread answers)) = some later ∧
        (repliesTo i later.events).length = 1 := by
  obtain ⟨-, identifier, answered⟩ := repliesTo_of_run? run isRequest
  refine ⟨fun reply sent => ⟨identifier reply sent, ?_⟩, answered,
    fun thread t sequence present origin => replied_by_steps run isRequest present origin⟩
  exact readFrom_of_handshake run isRequest (read_handshake method decodable) early backend
    (mem_repliesTo.mp sent)

/-- A backend that knows where one of its paths is, and fails to tell the other. -/
def sampleCapabilities : Capabilities where
  displayName := "Make"
  prepares := true
  indexDatabase := .ok (some "/index/db")
  indexStore := .error ⟨"no index store", none, none⟩
  watchers := [⟨.text "**/Makefile", some ⟨true, true, true⟩⟩]

/-- A handshake all of whose steps are taken, with such a backend. -/
def sampleMoves : List Move :=
  .receive (.request ⟨.number 1, "build/initialize", .null⟩) ::
    List.replicate 14 (.step 0 sampleCapabilities.answers)

theorem sample_handshake_answered : ∃ s, (start .default false).run? sampleMoves = some s ∧
    (repliesTo 0 s.events).length = 1 ∧ ∀ reply ∈ repliesTo 0 s.events,
      sampleCapabilities.ReadFrom Settings.default.serverVersion reply.outcome := by
  have finished : ((start .default false).run? sampleMoves).map isIdle = some true := rfl
  obtain ⟨s, run, idle⟩ := Option.map_eq_some_iff.mp finished
  have unclosed : .close ∉ sampleMoves := by simp [sampleMoves]
  have early : ∀ sequence phase, .checked (.job 0 sequence) phase ∈ s.events →
      phase.refusesRequests = false := by
    intro sequence phase looked
    refine (phase_of_checked run unclosed looked).2 ?_
    rintro ⟨m, isFirst, refused⟩
    cases isFirst
    cases refused
  have backend : ∀ thread answers, .step thread answers ∈ sampleMoves →
      ∀ c, sampleCapabilities.Admits ⟨c, answers c⟩ := by
    intro thread answers step
    obtain ⟨rfl, rfl⟩ : thread = 0 ∧ answers = sampleCapabilities.answers := by
      simpa [sampleMoves] using step
    exact sampleCapabilities.admits_answers
  obtain ⟨read, answered, -⟩ := handshake_answered_faithfully run rfl rfl rfl early backend
  exact ⟨s, run, answered idle, fun reply sent => (read reply sent).2⟩

end Session

end BuildServer
