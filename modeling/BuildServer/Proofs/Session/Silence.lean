import BuildServer.Proofs.Session.Closing
import BuildServer.Proofs.Session.Shutdown

/-! # A shutdown silences the backend

Only the job of a shutdown moves the phase to the one in which a session shuts down, and that job
runs by itself. From then on the phase refuses requests, and every job looks at it before it does
anything else, so that none ever calls the backend again. What does not need the backend goes on: a
further shutdown succeeds, and an exit closes the connection.
-/

namespace BuildServer

open Backend Protocol Rpc

namespace Body

/-- Steps that make no call as long as the phase refuses requests. -/
def Quiet : Body → Prop
  | .checkPhase next => ∀ p, p.refusesRequests = true → (next p).Quiet
  | .call .. | .await .. => False
  | .advance _ rest | .closeConnection rest => rest.Quiet
  | .claimClose next => ∀ won, (next won).Quiet
  | .finish _ => True

/-- Steps that make no call at all. -/
theorem Every.quiet : {body : Body} → body.Every (fun act => ∀ c, act ≠ .call c) → body.Quiet
  | .checkPhase _, every => fun p _ => (every.2 p).quiet
  | .call c _, every | .await c _, every => every.1 c rfl
  | .advance .., every => every.2.quiet
  | .claimClose _, every => fun won => (every.2 won).quiet
  | .closeConnection _, every => every.2.quiet
  | .finish _, _ => trivial

theorem Every.quiet_of_closing {body : Body} (every : body.Every closingActs) : body.Quiet := by
  refine (every.imp fun act closing c => ?_).quiet
  rintro rfl
  exact closing

end Body

namespace Session

open Queue

/-- Quiet steps stay quiet while the phase refuses requests. -/
theorem Goes.quiet {origin : Origin} {phase next : Phase} {claimed claims : Bool} {body rest : Body}
    {events : List Event} (goes : Goes origin phase claimed body rest next claims events)
    (quiet : body.Quiet) (refused : phase.refusesRequests = true) :
    rest.Quiet ∧ ∀ o c, .called o c ∉ events := by
  cases goes with
  | checked => exact ⟨quiet phase refused, by simp⟩
  | called | answered | failed => exact quiet.elim
  | advanced => exact ⟨quiet, by simp⟩
  | claimed => exact ⟨quiet _, by simp⟩
  | closed => exact ⟨quiet, by simp⟩

/-- Every job looks at the phase before it makes a call. -/
theorem quiet_of_jobOf? {version : String} {number : Nat} {m : Message} {f : Footprint} {j : Job}
    (accepted : jobOf? version number m = some (f, j)) : j.body.Quiet := by
  obtain ⟨r, q, rfl, -, rfl, rfl⟩ | ⟨n, notice, rfl, -, rfl, rfl⟩ := jobOf?_cases accepted
  · intro p refused
    cases q <;> simp [refused, Query.isShutdown, Query.handler, Body.fail, Body.succeed, Body.Quiet]
  · intro p refused
    cases notice with
    | exit => simpa [Notice.isExit, Notice.handler] using Body.close_every.quiet_of_closing
    | initialized | filesChanged => simp [refused, Notice.isExit, Body.Quiet]

/-- A move of a session that is quiet and refuses requests leaves it so and makes no call. -/
theorem Moves.quiet {ms : List Message} {s next : Session} {move : Move} (moves : Moves s move next)
    (ordered : Ordered s.version ms s.threads s.queue.items)
    (refused : s.phase.refusesRequests = true) (quiet : ∀ t ∈ s.threads, t.body.Quiet) :
    next.phase.refusesRequests = true ∧ (∀ t ∈ next.threads, t.body.Quiet) ∧
      ∃ more, next.events = s.events ++ more ∧ ∀ o c, .called o c ∉ more := by
  have threads : ∀ t ∈ next.threads, t.body.Quiet := by
    intro u present
    cases moves.comes present with
    | stayed before _ body => exact body ▸ quiet _ before
    | went before steps => exact (steps.quiet (quiet _ before) refused).1
    | owner => exact Body.close_every.quiet_of_closing
    | @started x handedIn =>
      obtain ⟨number, m, accepted⟩ := ordered.jobOf?_of_handedIn handedIn
      exact quiet_of_jobOf? accepted
  refine ⟨?_, threads, ?_⟩
  · cases moves with
    | goes _ goes => exact goes.refuses refused
    | _ => exact refused
  · cases moves with
    | dropped | closing | left => exact ⟨[], (List.append_nil _).symm, by simp⟩
    | refused => exact ⟨_, rfl, by cases s.hasObserver <;> simp [observation]⟩
    | @queued m f j accepted =>
      refine ⟨_, rfl, ?_⟩
      cases m <;> cases s.hasObserver <;> simp [observation]
    | pushed | replied | ended => exact ⟨_, rfl, by simp⟩
    | goes split goes => exact ⟨_, rfl, (goes.quiet (quiet _ (by simp [split])) refused).2⟩

/-- A session that is quiet and refuses requests makes no call any more. -/
theorem silent_of_run? {settings : Settings} {hasObserver : Bool} {moves more : List Move}
    {s later : Session} (run : (start settings hasObserver).run? moves = some s)
    (refused : s.phase.refusesRequests = true) (quiet : ∀ t ∈ s.threads, t.body.Quiet)
    (rest : s.run? more = some later) :
    ∃ new, later.events = s.events ++ new ∧ ∀ o c, .called o c ∉ new := by
  have whole := run?_induction (fun _ later => later.phase.refusesRequests = true ∧
    (∀ t ∈ later.threads, t.body.Quiet) ∧
    ∃ new, later.events = s.events ++ new ∧ ∀ o c, .called o c ∉ new)
    ⟨refused, quiet, [], (List.append_nil _).symm, by simp⟩ ?_ rest
  · exact whole.2.2
  · rintro more t move next before ⟨refused, quiet, new, grown, silent⟩ step
    obtain ⟨refused, quiet, added, further, nothing⟩ :=
      step.quiet (ordered_of_run? (run?_trans run before)) refused quiet
    refine ⟨refused, quiet, new ++ added, by rw [further, grown, List.append_assoc], fun o c => ?_⟩
    rw [List.mem_append, not_or]
    exact ⟨silent o c, nothing o c⟩

/-- The owner only ever closes. -/
theorem owner_closes {settings : Settings} {hasObserver : Bool} {moves : List Move} {s : Session}
    (run : (start settings hasObserver).run? moves = some s) :
    ∀ t ∈ s.threads, t.origin = .owner → t.body.Every Body.closingActs :=
  threads_of_run? (fun origin body => origin = .owner → body.Every Body.closingActs) run
    (fun _ _ impossible => by contradiction) (fun _ => Body.close_every)
    fun goes every owner => goes.every (every owner)

/-- A job that is about to move the phase to the shutdown is that of a shutdown. -/
theorem shutdown_of_advance {settings : Settings} {hasObserver : Bool} {moves : List Move}
    {s : Session} (run : (start settings hasObserver).run? moves = some s) {t : Thread}
    (present : t ∈ s.threads) {rest : Body} (turns : t.body = .advance .shuttingDown rest) :
    ∃ d sequence j r params, t.origin = .job d sequence ∧
      jobAt? s.version (messages moves) d = some (.change, j) ∧
      (messages moves)[d]? = some (.request r) ∧
      Query.read? r.method r.params = some (.ok (.shutdown params)) ∧ rest.Quiet := by
  cases origin : t.origin with
  | owner =>
    have every := owner_closes run t present origin
    rw [turns] at every
    exact absurd every.1 (by simp [Body.closingActs])
  | job d sequence =>
    obtain ⟨f, j, job, course⟩ := (recorded_of_run? run).running t present d sequence origin
    obtain ⟨m, received, accepted⟩ := Option.bind_eq_some_iff.mp job
    obtain ⟨r, q, rfl, read, rfl, rfl⟩ | ⟨n, notice, rfl, -, rfl, rfl⟩ := jobOf?_cases accepted
    · have every := course.every (query_every _ q)
      rw [turns] at every
      obtain ⟨phase, later⟩ := every
      cases q with
      | shutdown params =>
        refine ⟨d, sequence, _, r, params, rfl, job, received, read, (later.imp ?_).quiet⟩
        rintro act permitted c rfl
        exact absurd permitted.1 (by simp [Query.isShutdown])
      | _ => cases phase
    · have every := course.every (notice_every notice)
      rw [turns] at every
      exact absurd every.1.2 (by simp)

theorem eq_shuttingDown_of_advance {phase p : Phase} (before : phase ≠ .shuttingDown)
    (after : phase.advance p = .shuttingDown) : p = .shuttingDown := by
  cases phase <;> cases p <;> first | rfl | contradiction

/-- The phase is moved to the shutdown by the job of a shutdown, beside which no other job is carried
out, and no thread is about to call the backend then. -/
theorem Moves.shutdown {settings : Settings} {hasObserver : Bool} {moves : List Move}
    {s next : Session} {move : Move} (run : (start settings hasObserver).run? moves = some s)
    (step : Moves s move next) (before : s.phase ≠ .shuttingDown)
    (after : next.phase = .shuttingDown) :
    (∃ i answers t d sequence r params, move = .step i answers ∧ s.threads[i]? = some t ∧
      t.origin = .job d sequence ∧ (messages moves)[d]? = some (.request r) ∧
      Query.read? r.method r.params = some (.ok (.shutdown params)) ∧ working s.threads = [d]) ∧
    ∀ u ∈ next.threads, u.body.Quiet := by
  cases step with
  | dropped | refused | queued | pushed | closing | replied | ended | left =>
    exact absurd after before
  | @goes front back t answers body phase claimed events split goes =>
    obtain ⟨origin, owed, earlier⟩ := t
    cases goes with
    | @advanced p rest =>
      obtain rfl := eq_shuttingDown_of_advance before after
      have present : (⟨origin, owed, .advance .shuttingDown body⟩ : Thread) ∈ s.threads := by
        simp [split]
      obtain ⟨d, sequence, j, r, params, rfl, job, received, read, quiet⟩ :=
        shutdown_of_advance run present rfl
      have ordered := ordered_of_run? run
      obtain ⟨single, -, -⟩ :=
        ordered.alone d (mem_working.mpr ⟨_, present, sequence, rfl⟩) j job
      have others : ∀ u ∈ front ++ back, u.body.Quiet := by
        intro u member
        have there : u ∈ s.threads := by
          rw [split]
          exact ((List.sublist_cons_self _ back).append_left front).subset member
        exact (owner_closes run u there (ordered.owners split rfl job u member)).quiet_of_closing
      have there : s.threads[front.length]? =
          some ⟨.job d sequence, owed, .advance .shuttingDown body⟩ := by simp [split]
      refine ⟨⟨front.length, answers, _, d, sequence, r, params, rfl, there, rfl, received, read,
        single⟩, fun u member => ?_⟩
      rw [List.mem_append, List.mem_cons] at member
      rcases member with first | rfl | behind
      · exact others u (List.mem_append_left _ first)
      · exact quiet
      · exact others u (List.mem_append_right _ behind)
    | _ => exact absurd after before

section Run

variable {settings : Settings} {hasObserver : Bool} {moves : List Move} {s : Session}
  (run : (start settings hasObserver).run? moves = some s)

include run

/-- A request for the shutdown succeeds whenever it is answered. -/
theorem shutdown_succeeds {i : Nat} {r : Request} {params : NoParams}
    (isRequest : (messages moves)[i]? = some (.request r))
    (read : Query.read? r.method r.params = some (.ok (.shutdown params))) :
    ∀ reply ∈ repliesTo i s.events, reply.outcome = .result (.ofTyped ({} : Acknowledgement)) := by
  intro reply sent
  have job : jobAt? s.version (messages moves) i = some (.change,
      ⟨i, some ⟨r.id⟩, (Query.shutdown params).body s.version⟩) := by
    simp only [jobAt?, isRequest, Option.bind_some, jobOf?, read, Query.footprint]
  obtain ⟨sequence, owed, body, record, course, noted⟩ :=
    (recorded_of_run? run).account i _ _ job
  have seen := mem_about.mpr ⟨mem_repliesTo.mp sent, (rfl : _ = some i)⟩
  have caused : .replied i reply ∈ record := by
    rcases noted with noted | ⟨-, -, noted⟩
    · exact noted ▸ seen
    · simpa [noted] using seen
  obtain ⟨outcome, o, -, rfl, rfl⟩ := course.of_replied caused
  have success : outcome = some (.result (.ofTyped ({} : Acknowledgement))) :=
    course.every (query_every _ (.shutdown params)) rfl
  rw [success]
  rfl

/-- After the job of an exit the connection has been closed, unless the owner, who was there first,
has yet to close it. -/
theorem exit_closes {i : Nat} {n : Notification} {params : NoParams}
    (isNotification : (messages moves)[i]? = some (.notification n))
    (read : Notice.read? n.method n.params = some (.ok (.exit params))) :
    (s.isIdle = true → ∃ sequence, .released (.job i sequence) ∈ s.events) ∧
    ∀ sequence, .released (.job i sequence) ∈ s.events →
      s.closeClaimed = true ∧
      (s.closeCount = 1 ∨ ∃ t ∈ s.threads, t.origin = .owner ∧ t.body.closing = true) ∧
      (.close ∉ moves → s.closeCount = 1) := by
  have job : jobAt? s.version (messages moves) i = some (.change,
      ⟨i, none, (Notice.exit params).body⟩) := by
    simp only [jobAt?, isNotification, Option.bind_some, jobOf?, read]
  refine ⟨released_of_idle run job, fun sequence released => ?_⟩
  · obtain ⟨-, claimed⟩ := claimed_of_released run (d := i) fun f j same => by
      obtain ⟨rfl, rfl⟩ : .change = f ∧ _ = j := by simpa using job.symm.trans same
      exact ⟨rfl, Body.exit_willClaim params⟩
    obtain ⟨claim, owners⟩ := claimed sequence released
    have balance := claims_of_run? run
    rw [claim, Bool.toNat_true, ← closeCount_eq] at balance
    have holder : s.closeCount = 1 ∨ ∃ t ∈ s.threads, t.origin = .owner ∧ t.body.closing = true := by
      rcases Nat.eq_zero_or_pos (held s.threads) with free | busy
      · exact .inl (by omega)
      · obtain ⟨t, present, holds⟩ := List.countP_pos_iff.mp busy
        exact .inr ⟨t, present, owners t present holds, holds⟩
    refine ⟨claim, holder, fun unclosed => holder.resolve_right ?_⟩
    rintro ⟨t, present, owner, -⟩
    obtain ⟨d, mine⟩ := (settled_of_run? run unclosed).jobs t present
    simp [Thread.message?, owner] at mine

end Run

/-- When the phase moves to the shutdown, this is a step of the job of a shutdown, and no other job is
carried out. However the session goes on from there, with whatever messages and closings by the
owner, the backend is not called again; every request for the shutdown succeeds, and an exit has the
connection closed unless the owner, who was there first, has yet to close it. -/
theorem shutdown_silences_backend {settings : Settings} {hasObserver : Bool} {moves : List Move}
    {s : Session} (run : (start settings hasObserver).run? moves = some s) {move : Move}
    {next : Session} (step : s.step? move = some next) (before : s.phase ≠ .shuttingDown)
    (after : next.phase = .shuttingDown) {more : List Move} {later : Session}
    (rest : next.run? more = some later) :
    (∃ i answers t d sequence r params, move = .step i answers ∧ s.threads[i]? = some t ∧
      t.origin = .job d sequence ∧ (messages moves)[d]? = some (.request r) ∧
      Query.read? r.method r.params = some (.ok (.shutdown params)) ∧ working s.threads = [d]) ∧
    (∃ new, later.events = next.events ++ new ∧ ∀ origin c, .called origin c ∉ new) ∧
    (∀ (i : Nat) (r : Request) (params : NoParams),
      (messages (moves ++ move :: more))[i]? = some (.request r) →
      Query.read? r.method r.params = some (.ok (.shutdown params)) →
      (∀ reply ∈ repliesTo i later.events,
        reply.outcome = .result (.ofTyped ({} : Acknowledgement))) ∧
      (later.isIdle = true → (repliesTo i later.events).length = 1)) ∧
    ∀ (i : Nat) (n : Notification) (params : NoParams),
      (messages (moves ++ move :: more))[i]? = some (.notification n) →
      Notice.read? n.method n.params = some (.ok (.exit params)) →
      (later.isIdle = true → ∃ sequence, .released (.job i sequence) ∈ later.events) ∧
      ∀ sequence, .released (.job i sequence) ∈ later.events →
        later.closeClaimed = true ∧
        (later.closeCount = 1 ∨ ∃ t ∈ later.threads, t.origin = .owner ∧ t.body.closing = true) ∧
        (.close ∉ moves ++ move :: more → later.closeCount = 1) := by
  obtain ⟨turn, quiet⟩ := (moves_of_step? step).shutdown run before after
  have stepped : s.run? [move] = some next := by simpa [run?] using step
  have there : (start settings hasObserver).run? (moves ++ [move]) = some next := by
    rw [run?_append, run, Option.bind_some, stepped]
  have whole : (start settings hasObserver).run? (moves ++ move :: more) = some later := by
    rw [List.append_cons, run?_append, there, Option.bind_some, rest]
  have refused : next.phase.refusesRequests = true := by rw [after]; rfl
  refine ⟨turn, silent_of_run? there refused quiet rest, fun i r params isRequest read => ?_,
    fun i n params isNotification read => exit_closes whole isNotification read⟩
  exact ⟨shutdown_succeeds whole isRequest read, (repliesTo_of_run? whole isRequest).2.2⟩

/-- Of what comes after a shutdown, the changed files do not reach the backend, while a second
shutdown is answered and the exit closes the connection. -/
theorem silent_after_shutdown : ∃ (next later : Session) (more : List Move) (new : List Event),
    messages more = [.notification ⟨"workspace/didChangeWatchedFiles", .map [("changes", .list [])]⟩,
      .request ⟨.number 2, "build/shutdown", .null⟩, .notification ⟨"build/exit", .null⟩] ∧
    next.phase = .shuttingDown ∧ next.run? more = some later ∧
    later.events = next.events ++ new ∧ (∀ origin c, .called origin c ∉ new) ∧
    (repliesTo 2 later.events).length = 1 ∧ later.closeCount = 1 := by
  have run : (start .default false).run?
      [.receive (.request ⟨.number 1, "build/shutdown", .null⟩), .step 0 fun _ => none] = some _ := rfl
  let more : List Move :=
    .receive (.notification ⟨"workspace/didChangeWatchedFiles", .map [("changes", .list [])]⟩) ::
      .receive (.request ⟨.number 2, "build/shutdown", .null⟩) ::
      .receive (.notification ⟨"build/exit", .null⟩) :: List.replicate 13 (.step 0 fun _ => none)
  obtain ⟨-, ⟨new, grown, silent⟩, succeeds, closes⟩ :=
    @shutdown_silences_backend .default false _ _ run (.step 0 fun _ => none) _ rfl (by decide) rfl
      more _ rfl
  obtain ⟨ends, closed⟩ := closes 3 _ ⟨⟩ rfl rfl
  obtain ⟨sequence, released⟩ := ends rfl
  refine ⟨_, _, more, new, rfl, ?_, ?_, grown, silent, (succeeds 2 _ ⟨⟩ rfl rfl).2 rfl,
    (closed sequence released).2.2 (by simp [more])⟩
  · rfl
  · rfl

end Session

end BuildServer
