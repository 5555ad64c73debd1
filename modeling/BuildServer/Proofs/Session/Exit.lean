import BuildServer.Proofs.Session.Phase
import BuildServer.Proofs.Session.Precedence
import BuildServer.Proofs.Session.Ruling
import BuildServer.Proofs.Session.Silence

/-! # An exit closes the connection after all earlier work

The job of an exit is a change, so it runs by itself, and every request received before it has been
answered by then: at once if it was refused, and otherwise before its job was released. It moves the
phase to the last one before it closes the connection, and in that phase no job calls the backend.
Hence no reply to an earlier request is lost, and nothing is asked of the backend afterwards.
-/

namespace BuildServer

open Backend Protocol Rpc

namespace Body

/-- Steps that close the connection only in the last phase, given the phase that they begin in. -/
def ClosesLast : Phase → Body → Prop
  | phase, .checkPhase next => ∀ p, (next p).ClosesLast phase
  | phase, .call _ next | phase, .await _ next => ∀ a, (next a).ClosesLast phase
  | phase, .advance p rest => rest.ClosesLast (phase.advance p)
  | phase, .claimClose next => ∀ won, (next won).ClosesLast phase
  | phase, .closeConnection rest => phase = .closed ∧ rest.ClosesLast phase
  | _, .finish _ => True

/-- Other jobs may move the phase on in between. -/
theorem ClosesLast.mono : {phase later : Phase} → phase ≤ later → {body : Body} →
    body.ClosesLast phase → body.ClosesLast later
  | _, _, forward, .checkPhase _, closes => fun p => (closes p).mono forward
  | _, _, forward, .call .., closes | _, _, forward, .await .., closes =>
    fun a => (closes a).mono forward
  | _, _, forward, .advance p _, closes =>
    closes.mono (Phase.advance_le_advance forward p)
  | _, _, forward, .claimClose _, closes => fun won => (closes won).mono forward
  | _, _, forward, .closeConnection _, closes =>
    ⟨Phase.closed_le_iff.mp (closes.1 ▸ forward), closes.2.mono forward⟩
  | _, _, _, .finish _, _ => trivial

/-- Steps that never close the connection. -/
theorem Every.closesLast : {phase : Phase} → {body : Body} →
    body.Every (fun act => act ≠ .disconnect) → body.ClosesLast phase
  | _, .checkPhase _, every => fun p => (every.2 p).closesLast
  | _, .call .., every | _, .await .., every => fun a => (every.2.2 a).closesLast
  | _, .advance _ rest, every => show rest.ClosesLast _ from Every.closesLast every.2
  | _, .claimClose _, every => fun won => (every.2 won).closesLast
  | _, .closeConnection _, every => absurd rfl every.1
  | _, .finish _, _ => trivial

theorem close_closesLast (phase : Phase) : close.ClosesLast phase := by
  intro won
  cases won
  · trivial
  · exact ⟨phase.advance_closed, trivial⟩

end Body

namespace Session

open Queue

section Goes

variable {origin : Origin} {phase next : Phase} {claimed claims : Bool} {body rest : Body}
  {events : List Event}

theorem Goes.phase_le (goes : Goes origin phase claimed body rest next claims events) :
    phase ≤ next := by
  cases goes with
  | advanced => exact (Phase.advance_eq_max ..).ge.trans' (le_max_left ..)
  | _ => exact le_rfl

theorem Goes.closesLast (goes : Goes origin phase claimed body rest next claims events)
    (closes : body.ClosesLast phase) : rest.ClosesLast next := by
  cases goes with
  | checked | answered | claimed => exact closes _
  | called | advanced => exact closes
  | failed => trivial
  | closed => exact closes.2

end Goes

/-- No move takes the phase back. -/
theorem Moves.phase_le {s next : Session} {move : Move} (moves : Moves s move next) :
    s.phase ≤ next.phase := by
  cases moves with
  | goes _ goes => exact goes.phase_le
  | _ => exact Nat.le_refl _

/-- A job closes the connection only after it has moved the phase to the last one. -/
theorem closesLast_of_jobOf? {version : String} {number : Nat} {m : Message} {f : Footprint} {j : Job}
    (accepted : jobOf? version number m = some (f, j)) (phase : Phase) :
    j.body.ClosesLast phase := by
  obtain ⟨r, q, rfl, -, rfl, rfl⟩ | ⟨n, notice, rfl, -, rfl, rfl⟩ := jobOf?_cases accepted
  · refine ((query_every version q).imp fun act permitted => ?_).closesLast
    rintro rfl
    exact permitted
  · intro p
    dsimp only
    split
    · trivial
    · cases notice with
      | initialized => trivial
      | exit => exact Body.close_closesLast phase
      | filesChanged => exact fun _ => trivial

/-- Whoever is about to close the connection does so in the last phase. -/
theorem closesLast_of_run? {settings : Settings} {hasObserver : Bool} {moves : List Move} {s : Session}
    (run : (start settings hasObserver).run? moves = some s) :
    ∀ t ∈ s.threads, t.body.ClosesLast s.phase := by
  refine run?_induction (fun _ s => ∀ t ∈ s.threads, t.body.ClosesLast s.phase) (by simp [start])
    ?_ run
  intro moves s move next run closes step u present
  cases step.comes present with
  | stayed before _ body => exact body ▸ (closes _ before).mono step.phase_le
  | went before steps => exact steps.closesLast (closes _ before)
  | owner => exact Body.close_closesLast _
  | @started x handedIn =>
    obtain ⟨number, m, accepted⟩ := (ordered_of_run? run).jobOf?_of_handedIn handedIn
    exact closesLast_of_jobOf? accepted _

/-- The connection is closed by a thread that is about to do so, and by nothing else. -/
theorem Moves.closed {s next : Session} {move : Move} (moves : Moves s move next)
    (closes : next.closeCount ≠ s.closeCount) :
    ∃ front t back answers rest, move = .step front.length answers ∧
      s.threads = front ++ t :: back ∧ t.body = .closeConnection rest ∧
      next.threads = front ++ { t with body := rest } :: back ∧
      next.phase = s.phase ∧ next.events = s.events ++ [.closed t.origin] := by
  have changed : ∀ more, next.events = s.events ++ more → Session.closes more ≠ 0 := by
    intro more grown none
    rw [closeCount_eq, closeCount_eq, grown, closes_append, none] at closes
    exact closes rfl
  cases moves with
  | dropped | closing | left => exact absurd rfl closes
  | @refused r e refusal =>
    refine absurd ?_ (changed _ rfl)
    cases s.hasObserver <;> rfl
  | @queued m f j accepted =>
    refine absurd ?_ (changed _ rfl)
    cases m <;> cases s.hasObserver <;> rfl
  | pushed | replied | ended => exact absurd rfl (changed _ rfl)
  | @goes front back t answers body phase claimed events split goes =>
    obtain ⟨origin, owed, earlier⟩ := t
    cases goes with
    | closed => exact ⟨front, _, back, answers, body, rfl, split, rfl, rfl, rfl, rfl⟩
    | _ => exact absurd rfl (changed _ rfl)

section Run

variable {settings : Settings} {hasObserver : Bool} {moves : List Move} {s : Session}
  (run : (start settings hasObserver).run? moves = some s)

include run

/-- Whoever is about to close the connection holds the only claim, so that it has not been closed. -/
theorem closeCount_of_closeConnection {t : Thread} (present : t ∈ s.threads) {rest : Body}
    (turns : t.body = .closeConnection rest) : s.closeCount = 0 := by
  have balance := claims_of_run? run
  have atMost := Bool.toNat_le s.closeClaimed
  have holds : 0 < held s.threads :=
    List.countP_pos_iff.mpr ⟨t, present, by rw [turns, Body.closing]⟩
  rw [closeCount_eq]
  omega

/-- A job that is about to close the connection is that of an exit. -/
theorem exit_of_closeConnection {t : Thread} (present : t ∈ s.threads) {rest : Body}
    (turns : t.body = .closeConnection rest) {d : Nat} {sequence : UInt64}
    (origin : t.origin = .job d sequence) :
    ∃ n params j, jobAt? s.version (messages moves) d = some (.change, j) ∧
      (messages moves)[d]? = some (.notification n) ∧
      Notice.read? n.method n.params = some (.ok (.exit params)) ∧ rest.Quiet := by
  obtain ⟨f, j, job, course⟩ := (recorded_of_run? run).running t present d sequence origin
  obtain ⟨m, received, accepted⟩ := Option.bind_eq_some_iff.mp job
  obtain ⟨r, q, rfl, -, -, rfl⟩ | ⟨n, notice, rfl, read, rfl, rfl⟩ := jobOf?_cases accepted
  · have every := course.every (query_every _ q)
    rw [turns] at every
    exact every.1.elim
  · have every := course.every (notice_every notice)
    rw [turns] at every
    obtain ⟨exits, later⟩ := every
    cases notice with
    | exit params =>
      refine ⟨n, params, _, job, received, read, (later.imp ?_).quiet⟩
      rintro act admitted c rfl
      obtain ⟨changed, other, -⟩ := admitted
      contradiction
    | _ => contradiction

/-- While a change is carried out, every request received before it has been answered, be it that it
was refused at once or that its job has been released. -/
theorem reply_before_change {i d : Nat} (earlier : i < d) {r : Request}
    (isRequest : (messages moves)[i]? = some (.request r)) {j : Job}
    (change : jobAt? s.version (messages moves) d = some (.change, j))
    (works : d ∈ working s.threads) :
    ∃ reply, repliesTo i s.events = [reply] ∧ reply.id = some r.id := by
  have sent : ∃ reply, .replied i reply ∈ s.events := by
    cases refusal : refusal? r with
    | some e =>
      have noted := about_of_refusal run isRequest refusal
      exact ⟨_, (mem_about.mp (noted ▸ List.mem_singleton_self _)).1⟩
    | none =>
      obtain ⟨q, read⟩ := read_of_refusal refusal
      have job : jobAt? s.version (messages moves) i =
          some (q.footprint, ⟨i, some ⟨r.id⟩, q.body s.version⟩) := by
        simp only [jobAt?, isRequest, Option.bind_some, jobOf?, read]
      obtain ⟨-, complete⟩ := request_over run earlier job change works rfl rfl
      exact complete.replied rfl
  obtain ⟨reply, sent⟩ := sent
  obtain ⟨once, own, -⟩ := repliesTo_of_run? run isRequest
  have listed := mem_repliesTo.mpr sent
  obtain ⟨only, single⟩ := List.length_eq_one_iff.mp
    (Nat.le_antisymm once (List.length_pos_of_mem listed))
  exact ⟨only, single, own only (single ▸ List.mem_singleton_self _)⟩

/-- While a change is carried out, it is the only running item of the queue. -/
theorem runningSequences_of_change {t : Thread} (present : t ∈ s.threads) {d : Nat}
    {sequence : UInt64} (origin : t.origin = .job d sequence) {j : Job}
    (change : jobAt? s.version (messages moves) d = some (.change, j)) :
    runningSequences s.queue.items = [sequence] := by
  have ordered := ordered_of_run? run
  obtain ⟨-, balanced⟩ := balanced_of_run? run
  have works := mem_working.mpr ⟨t, present, sequence, origin⟩
  obtain ⟨-, ⟨item, member, marked, key⟩, -⟩ := ordered.alone d works j change
  obtain ⟨rest, items, idle⟩ := ordered.clear.front member marked (key ▸ barrier_change)
  have mine : sequence ∈ sequences s.threads :=
    List.mem_filterMap.mpr ⟨t, present, by rw [Thread.sequence?, origin]⟩
  have runs : sequence ∈ runningSequences s.queue.items :=
    List.count_pos_iff.mp
      (Nat.lt_of_lt_of_le (List.count_pos_iff.mpr mine) (balanced.backed sequence))
  rw [items, show item = item.running by rw [Item.running, ← marked], runningSequences_running,
    idle] at runs ⊢
  rw [List.mem_singleton.mp runs]

end Run

/-- As long as the owner has not begun to close the session, the connection is closed only by the job
of an exit. When it is, no other thread is there and no other job runs, the connection has not been
closed before, and every request received before the exit has been answered. However the session goes
on from there, the backend is not called any more. -/
theorem exit_closes_after_earlier_work {settings : Settings} {hasObserver : Bool} {moves : List Move}
    {s : Session} (run : (start settings hasObserver).run? moves = some s) (unclosed : .close ∉ moves)
    {move : Move} {next : Session} (step : s.step? move = some next)
    (closes : next.closeCount ≠ s.closeCount) {more : List Move} {later : Session}
    (rest : next.run? more = some later) :
    ∃ t d sequence n params, s.threads = [t] ∧ t.origin = .job d sequence ∧
      (messages moves)[d]? = some (.notification n) ∧
      Notice.read? n.method n.params = some (.ok (.exit params)) ∧
      runningSequences s.queue.items = [sequence] ∧
      s.closeCount = 0 ∧ next.events = s.events ++ [.closed (.job d sequence)] ∧
      (∀ i < d, ∀ r, (messages moves)[i]? = some (.request r) →
        ∃ reply, repliesTo i s.events = [reply] ∧ reply.id = some r.id) ∧
      ∃ new, later.events = next.events ++ new ∧ ∀ origin c, .called origin c ∉ new := by
  obtain ⟨front, t, back, answers, body, rfl, split, turns, threads, phase, events⟩ :=
    (moves_of_step? step).closed closes
  have present : t ∈ s.threads := by simp [split]
  have jobs := (settled_of_run? run unclosed).jobs
  obtain ⟨d, own⟩ := jobs t present
  obtain ⟨sequence, origin⟩ := Thread.message?_eq_some.mp own
  obtain ⟨n, params, j, change, received, read, quiet⟩ :=
    exit_of_closeConnection run present turns origin
  have works := mem_working.mpr ⟨t, present, sequence, origin⟩
  have alone : ∀ u, u ∉ front ++ back := by
    intro u member
    have owner := (ordered_of_run? run).owners split origin change u member
    obtain ⟨e, job⟩ := jobs u (by
      rw [split]
      exact ((List.sublist_cons_self t back).append_left front).subset member)
    simp [Thread.message?, owner] at job
  obtain ⟨rfl, rfl⟩ := List.append_eq_nil_iff.mp (List.eq_nil_iff_forall_not_mem.mpr alone)
  have last : next.phase = .closed := by
    have closesLast := closesLast_of_run? run t present
    rw [turns] at closesLast
    exact phase.trans closesLast.1
  have there : (start settings hasObserver).run? (moves ++ [.step 0 answers]) = some next := by
    rw [run?_append, run, Option.bind_some]
    simpa [run?] using step
  have silent : ∀ u ∈ next.threads, u.body.Quiet := by
    intro u member
    rw [threads] at member
    obtain rfl := List.mem_singleton.mp member
    exact quiet
  refine ⟨t, d, sequence, n, params, split, origin, received, read,
    runningSequences_of_change run present origin change,
    closeCount_of_closeConnection run present turns, origin ▸ events,
    fun i earlier r isRequest => reply_before_change run earlier isRequest change works,
    silent_of_run? there (by rw [last]; rfl) silent rest⟩

/-- A request that is refused at once and one that is served, over which the backend breaks down, have
both been answered when the exit after them closes the connection. -/
theorem exit_after_refused_and_broken : ∃ (moves : List Move) (s next : Session) (t : Thread),
    (start .default false).run? moves = some s ∧
    messages moves = [.request ⟨.number 1, "build/unknown", .null⟩,
      .request ⟨.number 2, "workspace/buildTargets", .null⟩, .notification ⟨"build/exit", .null⟩] ∧
    s.step? (.step 0 fun _ => none) = some next ∧ next.closeCount = 1 ∧ s.threads = [t] ∧
    (∃ reply, repliesTo 0 s.events = [reply]) ∧ ∃ reply, repliesTo 1 s.events = [reply] := by
  have run : (start .default false).run? (
      .receive (.request ⟨.number 1, "build/unknown", .null⟩) ::
      .receive (.request ⟨.number 2, "workspace/buildTargets", .null⟩) ::
      .receive (.notification ⟨"build/exit", .null⟩) ::
      List.replicate 8 (.step 0 fun _ => none)) = some _ := rfl
  obtain ⟨t, d, sequence, n, params, single, origin, -, -, -, -, -, answered, -⟩ :=
    @exit_closes_after_earlier_work .default false _ _ run (by simp) (.step 0 fun _ => none) _ rfl
      (by decide) [] _ rfl
  have works : working [t] = [2] := (congrArg working single).symm.trans rfl
  obtain rfl : d = 2 := by simpa [Thread.message?, origin] using works
  obtain ⟨first, refused, -⟩ := answered 0 (by decide) _ rfl
  obtain ⟨second, broken, -⟩ := answered 1 (by decide) _ rfl
  exact ⟨_, _, _, t, run, rfl, rfl, rfl, single, ⟨first, refused⟩, ⟨second, broken⟩⟩

end Session

end BuildServer
