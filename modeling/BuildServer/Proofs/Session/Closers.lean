import BuildServer.Proofs.Session.Lifecycle

/-! # Racing to close the connection

The owner may close the session as often as it likes, and every exit that is received does so too.
Whoever begins to close claims the closing first; only one claim is granted, and its holder moves the
phase to the last one before it closes the connection. Others may take their steps between any two
of these. So the connection is never closed twice, it is closed once nobody who has begun is still
at it, and the session is in its last phase from then on.
-/

namespace BuildServer

open Backend Protocol Rpc

namespace Session

open Queue

/-- Who closes the session: its owner, and the jobs of the exits that have been received. -/
inductive Closer (ms : List Message) : Origin → Prop
  | owner : Closer ms .owner
  | exit {d : Nat} {m : Message} {sequence : UInt64} (received : ms[d]? = some m)
      (exits : goal m = .closed) : Closer ms (.job d sequence)

/-- Whether anyone has begun to close the session: its owner, or the job of an exit that is carried
out or has been released. -/
inductive Begun (moves : List Move) (s : Session) : Prop
  | owner (closes : .close ∈ moves) : Begun moves s
  | exit {d : Nat} {m : Message} (received : (messages moves)[d]? = some m)
      (exits : goal m = .closed)
      (started : d ∈ working s.threads ∨ ∃ sequence, .released (.job d sequence) ∈ s.events) :
      Begun moves s

section Messages

variable {version : String} {number : Nat} {m : Message} {f : Footprint} {j : Job}

/-- The job of a message that is not an exit leaves the closing alone. -/
theorem every_of_jobOf? (accepted : jobOf? version number m = some (f, j))
    (other : goal m ≠ .closed) :
    j.body.Every fun act => act ≠ .claim ∧ act ≠ .disconnect := by
  obtain ⟨r, q, rfl, -, -, rfl⟩ | ⟨n, notice, rfl, read, -, rfl⟩ := jobOf?_cases accepted
  · refine (query_every version q).imp fun act permitted => ?_
    constructor <;> rintro rfl <;> exact permitted
  · have stays : notice.isExit ≠ true := by
      simp only [goal, read] at other
      cases notice <;> simp_all [Notice.goal, Notice.isExit]
    refine (notice_every notice).imp fun act admitted => ?_
    constructor <;> rintro rfl <;> exact stays admitted

/-- The job of an exit is a change that claims the closing before it ends. -/
theorem willClaim_of_exit {ms : List Message} {d : Nat} (received : ms[d]? = some m)
    (exits : goal m = .closed) (accepted : jobAt? version ms d = some (f, j)) :
    f = .change ∧ j.body.WillClaim := by
  obtain ⟨n, params, rfl, read⟩ := exit_of_goal exits
  obtain ⟨rfl, rfl⟩ : .change = f ∧ ⟨d, none, (Notice.exit params).body⟩ = j := by
    simpa only [jobAt?, received, Option.bind_some, jobOf?, read, Option.some.injEq,
      Prod.mk.injEq] using accepted
  exact ⟨rfl, Body.exit_willClaim params⟩

end Messages

section Moves

variable {s next : Session} {move : Move} (moves : Moves s move next)

include moves

/-- Only a thread that claims the closing has it claimed. -/
theorem Moves.claimed_cases : next.closeClaimed = s.closeClaimed ∨
    ∃ t ∈ s.threads, ∃ rest, t.body = .claimClose rest := by
  cases moves with
  | @goes front back t answers body phase claimed events split goes =>
    obtain ⟨origin, owed, earlier⟩ := t
    cases goes with
    | @claimed rest =>
      have present : ⟨origin, owed, .claimClose rest⟩ ∈ s.threads := by simp [split]
      exact .inr ⟨_, present, rest, rfl⟩
    | _ => exact .inl rfl
  | _ => exact .inl rfl

/-- A thread that is to claim the closing goes on so until it has been claimed. -/
theorem Moves.willClaim {t : Thread} (present : t ∈ s.threads) (will : t.body.WillClaim) :
    next.closeClaimed = true ∨ ∃ u ∈ next.threads, u.origin = t.origin ∧ u.body.WillClaim := by
  cases moves.becomes present with
  | @stays u present origin body => exact .inr ⟨u, present, origin, body ▸ will⟩
  | @goes u events present origin goes =>
    exact (goes.willClaim will).symm.imp_right fun rest => ⟨u, present, origin, rest⟩
  | ends body => rw [body] at will; exact will.elim

/-- A job that has started is carried out until it is released. -/
theorem Moves.started {d : Nat}
    (started : d ∈ working s.threads ∨ ∃ sequence, .released (.job d sequence) ∈ s.events) :
    d ∈ working next.threads ∨ ∃ sequence, .released (.job d sequence) ∈ next.events := by
  rcases started with works | ⟨sequence, released⟩
  · obtain ⟨t, present, sequence, own⟩ := mem_working.mp works
    cases moves.becomes present with
    | @stays u present origin | @goes u _ present origin =>
      exact .inl (mem_working.mpr ⟨u, present, sequence, origin.trans own⟩)
    | ends body released => exact .inr ⟨sequence, own ▸ released d sequence own⟩
  · obtain ⟨more, grown, -⟩ := moves.events
    exact .inr ⟨sequence, grown ▸ List.mem_append_left _ released⟩

end Moves

section Run

variable {settings : Settings} {hasObserver : Bool} {moves : List Move} {s : Session}
  (run : (start settings hasObserver).run? moves = some s)

include run

/-- Whoever is not to close the session leaves the closing alone. -/
theorem closer_or_every {t : Thread} (present : t ∈ s.threads) : Closer (messages moves) t.origin ∨
    t.body.Every fun act => act ≠ .claim ∧ act ≠ .disconnect := by
  cases origin : t.origin with
  | owner => exact .inl .owner
  | job d sequence =>
    obtain ⟨f, j, job, course⟩ := (recorded_of_run? run).running t present d sequence origin
    obtain ⟨m, received, accepted⟩ := Option.bind_eq_some_iff.mp job
    by_cases exits : goal m = .closed
    · exact .inl (.exit received exits)
    · exact .inr (course.every (every_of_jobOf? accepted exits))

/-- An owner who has begun to close claims the closing, unless it has been claimed. -/
theorem owner_claims (closes : .close ∈ moves) : s.closeClaimed = true ∨
    ∃ t ∈ s.threads, t.origin = .owner ∧ t.body.WillClaim := by
  refine run?_induction (fun moves s => .close ∈ moves → s.closeClaimed = true ∨
    ∃ t ∈ s.threads, t.origin = .owner ∧ t.body.WillClaim) (fun none => by simp at none) ?_ run closes
  intro moves s move next before ih step closes
  rcases List.mem_append.mp closes with earlier | now
  · rcases ih earlier with claimed | ⟨t, present, owner, will⟩
    · exact .inl (step.claimed_mono claimed)
    · refine (step.willClaim present will).imp_right ?_
      rintro ⟨u, present, origin, will⟩
      exact ⟨u, present, origin.trans owner, will⟩
  · obtain rfl := List.mem_singleton.mp now
    cases step with
    | closing => exact .inr ⟨⟨.owner, none, .close⟩, by simp, rfl, trivial⟩

/-- The closing is claimed by those who have begun to close and by nobody else; the owner's thread is
there only if the owner has begun to. -/
theorem begun_of_claimed (claimed : s.closeClaimed = true) : Begun moves s := by
  refine run?_induction (fun moves s => s.closeClaimed = true → Begun moves s) (by simp [start]) ?_
    run claimed
  intro moves s move next before ih step claimed
  have mono : Begun moves s → Begun (moves ++ [move]) next := by
    rintro (closes | ⟨received, exits, started⟩)
    · exact .owner (List.mem_append_left _ closes)
    · refine .exit ?_ exits (step.started started)
      rw [messages_append, List.getElem?_append_left (List.getElem?_eq_some_iff.mp received).1,
        received]
  rcases step.claimed_cases with same | ⟨t, present, rest, turns⟩
  · exact mono (ih (same ▸ claimed))
  · have closer := (closer_or_every before present).resolve_right fun every => by
      rw [turns] at every
      exact every.1.1 rfl
    refine mono ?_
    cases whose : t.origin with
    | owner =>
      refine .owner (Classical.byContradiction fun unclosed => ?_)
      obtain ⟨d, job⟩ := (settled_of_run? before unclosed).jobs t present
      simp [Thread.message?, whose] at job
    | job d sequence =>
      rw [whose] at closer
      cases closer with
      | exit received exits =>
        exact .exit received exits (.inl (mem_working.mpr ⟨t, present, sequence, whose⟩))

/-- Once someone has begun to close and nobody who has is still at it, the closing has been claimed. -/
theorem claimed_of_begun (begun : Begun moves s) (finished : ∀ t ∈ s.threads,
    Closer (messages moves) t.origin → ∃ outcome, t.body = .finish outcome) :
    s.closeClaimed = true := by
  cases begun with
  | owner closes =>
    refine (owner_claims run closes).resolve_right ?_
    rintro ⟨t, present, owner, will⟩
    obtain ⟨outcome, ended⟩ := finished t present (owner ▸ .owner)
    rw [ended] at will
    exact will
  | exit received exits started =>
    obtain ⟨heads, ended⟩ :=
      claimed_of_released run fun f j accepted => willClaim_of_exit received exits accepted
    rcases started with works | ⟨sequence, released⟩
    · obtain ⟨t, present, sequence, origin⟩ := mem_working.mp works
      obtain ⟨outcome, ended⟩ := finished t present (origin ▸ .exit received exits)
      refine (heads t present sequence origin).resolve_left fun will => ?_
      rw [ended] at will
      exact will
    · exact (ended sequence released).1

/-- Only those who close the session hold a claim. -/
theorem held_eq_zero (finished : ∀ t ∈ s.threads, Closer (messages moves) t.origin →
    ∃ outcome, t.body = .finish outcome) : held s.threads = 0 := by
  refine List.countP_eq_zero.mpr fun t present holds => ?_
  rcases closer_or_every run present with closer | every
  · obtain ⟨outcome, ended⟩ := finished t present closer
    rw [ended] at holds
    contradiction
  · rw [every.tidy.1] at holds
    contradiction

end Run

/-- However many exits are received and however often the owner closes, and in whatever order all
threads take their steps, the connection is closed at most once. It is closed by those who have
begun to close and by nobody else, and has been closed exactly once as soon as someone has begun and
nobody who has is still at it. The session is in its last phase when that happens, and remains in
it. -/
theorem connection_closed_once {settings : Settings} {hasObserver : Bool} {moves : List Move}
    {s : Session} (run : (start settings hasObserver).run? moves = some s) :
    s.closeCount ≤ 1 ∧ (s.closeCount = 1 → Begun moves s) ∧
    (Begun moves s → (∀ t ∈ s.threads, Closer (messages moves) t.origin →
      ∃ outcome, t.body = .finish outcome) → s.closeCount = 1) ∧
    ∀ move next, s.step? move = some next → next.closeCount ≠ s.closeCount →
      s.phase = .closed ∧ ∀ more later, next.run? more = some later → later.phase = .closed := by
  have balance := claims_of_run? run
  rw [← closeCount_eq] at balance
  have atMost := Bool.toNat_le s.closeClaimed
  refine ⟨by omega, fun closed => begun_of_claimed run ?_, fun begun finished => ?_,
    fun move next step closes => ?_⟩
  · cases claimed : s.closeClaimed with
    | true => rfl
    | false => rw [claimed, Bool.toNat_false] at balance; omega
  · rw [held_eq_zero run finished, claimed_of_begun run begun finished, Bool.toNat_true] at balance
    exact balance
  · obtain ⟨before, after⟩ := last_phase_of_closes run (moves_of_step? step) closes
    exact ⟨before, fun more later rest => Phase.closed_le_iff.mp (after ▸ phase_le_of_run? rest)⟩

/-- An exit and two closings by the owner race. The first closing is granted the claim, and while it
has yet to close the connection the others find that they have come too late. -/
theorem closed_once_in_race : ∃ (moves : List Move) (s next : Session),
    (start .default false).run? moves = some s ∧
    messages moves = [.notification ⟨"build/exit", .null⟩] ∧
    s.threads.map (·.origin) = [.job 0 0, .owner, .owner] ∧ s.closeCount = 0 ∧ s.phase = .closed ∧
    s.step? (.step 1 fun _ => none) = some next ∧ next.closeCount = 1 := by
  let moves : List Move := .receive (.notification ⟨"build/exit", .null⟩) :: .close :: .close ::
    [0, 1, 0, 2, 1].map fun i => .step i fun _ => none
  have run : (start .default false).run? moves = some _ := rfl
  have closed : (start .default false).run? (moves ++ [.step 1 fun _ => none]) = some _ := rfl
  obtain ⟨-, -, -, last⟩ := connection_closed_once run
  obtain ⟨-, -, once, -⟩ := connection_closed_once closed
  refine ⟨moves, _, _, run, rfl, rfl, rfl, (last (.step 1 fun _ => none) _ rfl (by decide)).1, rfl,
    once (.owner (by simp [moves])) fun t present _ => ?_⟩
  replace present : t ∈ [⟨.job 0 0, none, .finish none⟩, ⟨.owner, none, .finish none⟩,
    ⟨.owner, none, .finish none⟩] := present
  simp only [List.mem_cons, List.not_mem_nil, or_false] at present
  rcases present with rfl | rfl | rfl <;> exact ⟨none, rfl⟩

end Session

end BuildServer
