import BuildServer.Proofs.Session.Ending

/-! # The connection is closed once

The closing is claimed before it is carried out, and only the first claim is granted. At every moment
there are as many threads with a granted claim that they have yet to carry out as claims without a
close, so the connection is closed at most once. An exit claims the closing before its job ends; if it
comes too late, then the owner has claimed it, since no other job runs beside that of an exit.
-/

namespace BuildServer

open Backend Protocol Rpc

namespace Body

/-- Whether the closing has been claimed by these steps and has yet to be carried out. -/
def closing : Body → Bool
  | .advance _ rest => rest.closing
  | .closeConnection _ => true
  | _ => false

/-- Steps that carry out each closing that they have claimed, and no other. -/
def Tidy : Body → Prop
  | .checkPhase next => ∀ p, (next p).closing = false ∧ (next p).Tidy
  | .call _ next | .await _ next => ∀ a, (next a).closing = false ∧ (next a).Tidy
  | .advance _ rest => rest.Tidy
  | .claimClose next => (∀ won, (next won).Tidy) ∧ ∀ won, (next won).closing = won
  | .closeConnection rest => rest.closing = false ∧ rest.Tidy
  | .finish _ => True

/-- Steps that claim the closing before they end. -/
def WillClaim : Body → Prop
  | .checkPhase next => ∀ p, (next p).WillClaim
  | .advance _ rest | .closeConnection rest => rest.WillClaim
  | .claimClose _ => True
  | .call .. | .await .. | .finish _ => False

theorem close_tidy : close.Tidy := by
  constructor <;> intro won <;> cases won <;> simp [Tidy, closing]

theorem exit_willClaim (params : NoParams) : (Notice.exit params).body.WillClaim :=
  fun p => by simp [Notice.isExit, Notice.handler, close, WillClaim]

/-- Steps that leave the closing alone. -/
theorem Every.tidy : {body : Body} → body.Every (fun act => act ≠ .claim ∧ act ≠ .disconnect) →
    body.closing = false ∧ body.Tidy
  | .checkPhase _, every => ⟨rfl, fun p => (every.2 p).tidy⟩
  | .call .., every | .await .., every => ⟨rfl, fun a => (every.2.2 a).tidy⟩
  | .advance .., every => every.2.tidy
  | .claimClose _, every => absurd rfl every.1.1
  | .closeConnection _, every => absurd rfl every.1.2
  | .finish _, _ => ⟨rfl, trivial⟩

end Body

namespace Session

open Queue

/-- How often the connection is closed among events. -/
def closes (events : List Event) : Nat :=
  events.countP fun
    | .closed _ => true
    | _ => false

theorem closeCount_eq (s : Session) : s.closeCount = closes s.events := rfl

@[simp] theorem closes_append (first second : List Event) :
    closes (first ++ second) = closes first + closes second := List.countP_append

section Goes

variable {origin : Origin} {phase next : Phase} {claimed claims : Bool} {body rest : Body}
  {events : List Event}

/-- A claim that is granted is held until the connection is closed for it. -/
theorem Goes.tidy (goes : Goes origin phase claimed body rest next claims events)
    (tidy : body.Tidy) : rest.Tidy ∧ closes events + rest.closing.toNat + claimed.toNat =
      body.closing.toNat + claims.toNat := by
  cases goes with
  | checked => simp [closes, Body.closing, (tidy phase).1, (tidy phase).2]
  | called => exact ⟨tidy, by simp [closes, Body.closing]⟩
  | @answered c next a => simp [closes, Body.closing, (tidy a).1, (tidy a).2]
  | failed => simp [closes, Body.closing, Body.Tidy]
  | advanced => exact ⟨tidy, by simp [closes, Body.closing]⟩
  | claimed =>
    obtain ⟨tidy, won⟩ := tidy
    refine ⟨tidy _, ?_⟩
    cases claimed <;> simp [closes, Body.closing, won]
  | closed => simp [closes, Body.closing, tidy.1, tidy.2]

/-- A claim is not taken back. -/
theorem Goes.claimed_mono (goes : Goes origin phase claimed body rest next claims events)
    (claim : claimed = true) : claims = true := by
  cases goes <;> first | exact claim | rfl

/-- Steps that will claim the closing go on so until it has been claimed. -/
theorem Goes.willClaim (goes : Goes origin phase claimed body rest next claims events)
    (will : body.WillClaim) : rest.WillClaim ∨ claims = true := by
  cases goes with
  | checked => exact .inl (will phase)
  | called | answered | failed => exact will.elim
  | advanced | closed => exact .inl will
  | claimed => exact .inr rfl

end Goes

/-- The job of a message closes the connection only by a claim of its own. -/
theorem tidy_of_jobOf? {version : String} {number : Nat} {m : Message} {f : Footprint} {j : Job}
    (accepted : jobOf? version number m = some (f, j)) :
    j.body.closing = false ∧ j.body.Tidy := by
  obtain ⟨r, q, rfl, -, rfl, rfl⟩ | ⟨n, notice, rfl, -, rfl, rfl⟩ := jobOf?_cases accepted
  · refine Body.Every.tidy ((query_every version q).imp fun act permitted => ?_)
    constructor <;> rintro rfl <;> exact permitted
  · refine ⟨rfl, fun p => ?_⟩
    dsimp only
    split
    · exact ⟨rfl, trivial⟩
    · cases notice with
      | initialized => exact ⟨rfl, trivial⟩
      | exit => exact ⟨rfl, Body.close_tidy⟩
      | filesChanged => exact ⟨rfl, fun _ => ⟨rfl, trivial⟩⟩

theorem Ordered.jobOf? {version : String} {ms : List Message} {threads : List Thread}
    {items : List (Item Footprint Job)} (ordered : Ordered version ms threads items)
    {x : Submission Footprint Job} (waits : x ∈ waiting items) :
    ∃ number m, Session.jobOf? version number m = some (x.key, x.job) := by
  obtain ⟨m, -, accepted⟩ := Option.bind_eq_some_iff.mp (ordered.placed x waits)
  exact ⟨_, m, accepted⟩

/-- A job that starts is that of a message, whether it has been waiting or has just come in. -/
theorem Ordered.jobOf?_of_handedIn {version : String} {ms : List Message} {threads : List Thread}
    {items : List (Item Footprint Job)} (ordered : Ordered version ms threads items) {number : Nat}
    {move : Move} {x : Submission Footprint Job} (handedIn : x ∈ waiting items ∨
      ∃ m, move = .receive m ∧ Session.jobOf? version number m = some (x.key, x.job)) :
    ∃ number m, Session.jobOf? version number m = some (x.key, x.job) := by
  rcases handedIn with waits | ⟨m, -, accepted⟩
  · exact ordered.jobOf? waits
  · exact ⟨_, m, accepted⟩

/-- What holds of every job and of the owner when they start, and survives each of their steps, holds
of every thread. -/
theorem threads_of_run? {settings : Settings} {hasObserver : Bool} {moves : List Move} {s : Session}
    (good : Origin → Body → Prop) (run : (start settings hasObserver).run? moves = some s)
    (jobs : ∀ {version number m f j} sequence, jobOf? version number m = some (f, j) →
      good (.job number sequence) j.body)
    (owner : good .owner .close)
    (goes : ∀ {origin phase next claimed claims body rest events},
      Goes origin phase claimed body rest next claims events → good origin body → good origin rest) :
    ∀ t ∈ s.threads, good t.origin t.body := by
  refine run?_induction (fun _ s => ∀ t ∈ s.threads, good t.origin t.body) (by simp [start]) ?_ run
  intro moves s move next before holds step u present
  cases step.comes present with
  | stayed before origin body => exact origin ▸ body ▸ holds _ before
  | went before steps => exact goes steps (holds _ before)
  | owner => exact owner
  | @started x handedIn =>
    obtain ⟨number, m, accepted⟩ := (ordered_of_run? before).jobOf?_of_handedIn handedIn
    rw [← message_of_jobOf? accepted] at accepted
    exact jobs x.sequence accepted

theorem tidy_of_run? {settings : Settings} {hasObserver : Bool} {moves : List Move} {s : Session}
    (run : (start settings hasObserver).run? moves = some s) : ∀ t ∈ s.threads, t.body.Tidy :=
  threads_of_run? (fun _ body => body.Tidy) run (fun _ job => (tidy_of_jobOf? job).2)
    Body.close_tidy fun goes tidy => (goes.tidy tidy).1

/-- How many threads have claimed the closing and have yet to carry it out. -/
def held (threads : List Thread) : Nat := threads.countP fun t => t.body.closing

@[simp] theorem held_append (first second : List Thread) :
    held (first ++ second) = held first + held second := List.countP_append

@[simp] theorem held_cons (t : Thread) (threads : List Thread) :
    held (t :: threads) = t.body.closing.toNat + held threads := by
  rw [held, List.countP_cons, Nat.add_comm, held]
  cases t.body.closing <;> rfl

@[simp] theorem held_nil : held [] = 0 := rfl

/-- A job that starts has claimed nothing. -/
theorem held_started (chosen : List (Submission Footprint Job)) (version : String)
    (jobs : ∀ x ∈ chosen, ∃ number m, jobOf? version number m = some (x.key, x.job)) :
    held ((chosen.map Submission.start).map .ofStarted) = 0 := by
  rw [held, List.countP_eq_zero]
  intro t member
  rw [List.map_map] at member
  obtain ⟨x, picked, rfl⟩ := List.mem_map.mp member
  obtain ⟨number, m, accepted⟩ := jobs x picked
  rw [Bool.not_eq_true]
  exact (tidy_of_jobOf? accepted).1

/-- As many closings have been claimed as have been carried out or are about to be. -/
theorem claims_of_run? {settings : Settings} {hasObserver : Bool} {moves : List Move} {s : Session}
    (run : (start settings hasObserver).run? moves = some s) :
    closes s.events + held s.threads = s.closeClaimed.toNat := by
  refine run?_induction (fun _ s => closes s.events + held s.threads = s.closeClaimed.toNat)
    rfl ?_ run
  intro moves s move next before claims step
  have ordered := ordered_of_run? before
  have tidy := tidy_of_run? before
  have quiet : ∀ m, closes (observation s.hasObserver m) = 0 := by
    intro m
    cases m <;> cases s.hasObserver <;> rfl
  cases step with
  | dropped => exact claims
  | @refused r e refusal =>
    have sent : closes [.replied s.received ⟨some r.id, .error e⟩] = 0 := rfl
    simpa [quiet, sent] using claims
  | @queued m f j accepted =>
    obtain ⟨chosen, began, scanned⟩ := submit_scanned s.queue f j
    have fresh := held_started chosen s.version (fun x picked => by
      have waits := scanned.chosen_sublist.subset picked
      rw [waiting_append, List.mem_append] at waits
      rcases waits with before | last
      · exact ordered.jobOf? before
      · obtain rfl := List.mem_singleton.mp last
        exact ⟨_, m, accepted⟩)
    simpa only [began, held_append, fresh, closes_append, quiet, Nat.add_zero] using claims
  | pushed => simpa [closes] using claims
  | closing => simpa [Body.close, Body.closing] using claims
  | @goes front back t answers body phase claimed events split goes =>
    have balance := (goes.tidy (tidy t (by simp [split]))).2
    simp only [split, held_append, held_cons, closes_append] at claims ⊢
    omega
  | replied split => simpa [split, closes, Body.closing] using claims
  | @ended front back message sequence outcome answers split =>
    obtain ⟨chosen, began, scanned⟩ := release_scanned s.queue sequence
    have fresh := held_started chosen s.version fun x picked =>
      ordered.jobOf? ((scanned.chosen_sublist.trans
        (List.eraseP_sublist.filterMap Item.submission?)).subset picked)
    have sent : closes [.released (.job message sequence)] = 0 := rfl
    simp only [split, held_append, held_cons, Body.closing, Bool.toNat_false, Nat.zero_add] at claims
    simpa only [began, held_append, fresh, closes_append, sent, Nat.add_zero] using claims
  | @left front back owed outcome answers split =>
    cases owed <;> simpa [split, Body.closing] using claims

section Moves

variable {s next : Session} {move : Move} (moves : Moves s move next)

include moves

theorem Moves.claimed_mono (claim : s.closeClaimed = true) : next.closeClaimed = true := by
  cases moves with
  | goes _ goes => exact goes.claimed_mono claim
  | _ => exact claim

/-- A job is released at the end of its thread. -/
theorem Moves.released {d : Nat} {sequence : UInt64}
    (released : .released (.job d sequence) ∈ next.events) :
    .released (.job d sequence) ∈ s.events ∨
      ∃ outcome, ⟨.job d sequence, none, .finish outcome⟩ ∈ s.threads := by
  cases moves with
  | dropped | closing | left => exact .inl released
  | refused =>
    refine .inl ?_
    cases h : s.hasObserver <;> simpa [observation, h] using released
  | @queued m f j accepted =>
    refine .inl ?_
    cases m <;> cases h : s.hasObserver <;> simpa [observation, h] using released
  | pushed | replied => exact .inl (by simpa using released)
  | @goes front back t answers body phase claimed events split goes =>
    obtain ⟨origin, owed, earlier⟩ := t
    exact .inl (by cases goes <;> simpa using released)
  | @ended front back message number outcome answers split =>
    rcases List.mem_append.mp released with before | last
    · exact .inl before
    · obtain ⟨rfl, rfl⟩ : d = message ∧ sequence = number := by simpa using last
      exact .inr ⟨outcome, by simp [split]⟩

/-- The job that a thread starts with is that of its message. -/
theorem Moves.jobAt? {ms : List Message} (ordered : Ordered s.version ms s.threads s.queue.items)
    (counted : s.received = ms.length) {x : Submission Footprint Job}
    (handedIn : x ∈ waiting s.queue.items ∨
      ∃ m, move = .receive m ∧ jobOf? s.version s.received m = some (x.key, x.job)) :
    jobAt? next.version (ms ++ messages [move]) x.job.message = some (x.key, x.job) := by
  rw [moves.version]
  rcases handedIn with waits | ⟨m, rfl, accepted⟩
  · have placed := ordered.placed x waits
    rw [jobAt?_append _ (lt_of_jobAt? placed), placed]
  · rw [message_of_jobOf? accepted, counted, show messages [Move.receive m] = [m] from rfl,
      jobAt?_last, ← counted, accepted]

/-- Once the closing has been claimed, no other thread comes to hold a claim. -/
theorem Moves.closing_mono (tidy : ∀ t ∈ s.threads, t.body.Tidy)
    {ms : List Message} (ordered : Ordered s.version ms s.threads s.queue.items)
    (claim : s.closeClaimed = true)
    (owners : ∀ t ∈ s.threads, t.body.closing = true → t.origin = .owner) :
    ∀ t ∈ next.threads, t.body.closing = true → t.origin = .owner := by
  intro u present holds
  cases moves.comes present with
  | stayed before origin body => exact origin.trans (owners _ before (body ▸ holds))
  | @went t body events before steps =>
    have balance := (steps.tidy (tidy t before)).2
    rw [claim, steps.claimed_mono claim, show body.closing = true from holds] at balance
    refine owners t before ?_
    cases holding : t.body.closing with
    | true => rfl
    | false => simp [holding] at balance
  | owner => rfl
  | @started x handedIn =>
    obtain ⟨number, m, accepted⟩ := ordered.jobOf?_of_handedIn handedIn
    rw [show (Thread.ofStarted x.start).body.closing = false from (tidy_of_jobOf? accepted).1] at holds
    contradiction

end Moves

/-- While a change is carried out, every other thread is one of the owner. -/
theorem Ordered.owners {version : String} {ms : List Message} {threads front back : List Thread}
    {items : List (Item Footprint Job)} (ordered : Ordered version ms threads items) {t : Thread}
    (split : threads = front ++ t :: back) {d : Nat} {sequence : UInt64}
    (origin : t.origin = .job d sequence) {j : Job}
    (job : Session.jobAt? version ms d = some (.change, j)) :
    ∀ u ∈ front ++ back, u.origin = .owner := by
  subst split
  obtain ⟨single, -, -⟩ :=
    ordered.alone d (mem_working.mpr ⟨t, by simp, sequence, origin⟩) j job
  intro u member
  cases whose : u.origin with
  | owner => rfl
  | job e number =>
    have works : e ∈ working (front ++ back) := mem_working.mpr ⟨u, member, number, whose⟩
    have among : e ∈ working (front ++ t :: back) :=
      (((List.sublist_cons_self t back).append_left front).filterMap Thread.message?).subset works
    rw [single, List.mem_singleton] at among
    exact absurd (among ▸ works) (ordered.other origin)

section Released

variable {settings : Settings} {hasObserver : Bool} {moves : List Move} {s : Session}
  (run : (start settings hasObserver).run? moves = some s) {d : Nat}

include run

/-- Steps that are to bring something about go on so until it has been brought about, and then it is
not undone. So by the time that a job of such steps is released, it has been. -/
theorem reached_of_released (heads : Body → Prop) (reached : Session → Prop)
    (kept : ∀ {s next move}, Moves s move next → reached s → reached next)
    (goes : ∀ {s next : Session} {origin body rest events},
      Goes origin s.phase s.closeClaimed body rest next.phase next.closeClaimed events →
      next.events = s.events ++ events → heads body → heads rest ∨ reached next)
    (ends : ∀ outcome, ¬ heads (.finish outcome))
    (begins : ∀ f j, jobAt? s.version (messages moves) d = some (f, j) → heads j.body) :
    (∀ t ∈ s.threads, ∀ sequence, t.origin = .job d sequence → heads t.body ∨ reached s) ∧
    ∀ sequence, .released (.job d sequence) ∈ s.events → reached s := by
  refine run?_induction (fun moves s =>
    (∀ f j, jobAt? s.version (messages moves) d = some (f, j) → heads j.body) →
    (∀ t ∈ s.threads, ∀ sequence, t.origin = .job d sequence → heads t.body ∨ reached s) ∧
    ∀ sequence, .released (.job d sequence) ∈ s.events → reached s) ?_ ?_ run begins
  · simp [start]
  · intro moves s move next run ih step begins
    obtain ⟨counted, -⟩ := balanced_of_run? run
    obtain ⟨heading, ended⟩ := ih fun f j job => by
      refine begins f j ?_
      rw [step.version, messages_append, jobAt?_append _ (lt_of_jobAt? job), job]
    refine ⟨fun u present sequence origin => ?_, fun sequence released => ?_⟩
    · cases step.comes present with
      | stayed before same body =>
        rw [body]
        exact (heading _ before sequence (same.symm.trans origin)).imp_right (kept step)
      | went before steps grown =>
        rcases heading _ before sequence origin with heads | there
        · exact goes steps grown heads
        · exact .inr (kept step there)
      | owner => contradiction
      | @started x handedIn =>
        obtain ⟨rfl, rfl⟩ : x.job.message = d ∧ x.sequence = sequence := by
          simpa [Thread.ofStarted, Submission.start] using origin
        have job := step.jobAt? (ordered_of_run? run) counted handedIn
        rw [← messages_append] at job
        exact .inl (begins _ _ job)
    · refine kept step ?_
      rcases step.released released with before | ⟨outcome, present⟩
      · exact ended sequence before
      · exact (heading _ present sequence rfl).resolve_left (ends outcome)

/-- A change that claims the closing before it ends leaves it claimed, and if anyone has yet to carry
it out then, it is the owner, since the job is released by itself. -/
theorem claimed_of_released
    (claims : ∀ f j, jobAt? s.version (messages moves) d = some (f, j) →
      f = .change ∧ j.body.WillClaim) :
    (∀ t ∈ s.threads, ∀ sequence, t.origin = .job d sequence →
      t.body.WillClaim ∨ s.closeClaimed = true) ∧
    ∀ sequence, .released (.job d sequence) ∈ s.events → s.closeClaimed = true ∧
      ∀ t ∈ s.threads, t.body.closing = true → t.origin = .owner := by
  have claimed {moves : List Move} {s : Session}
      (run : (start settings hasObserver).run? moves = some s)
      (claims : ∀ f j, jobAt? s.version (messages moves) d = some (f, j) →
        f = .change ∧ j.body.WillClaim) :=
    reached_of_released run Body.WillClaim (·.closeClaimed = true) Moves.claimed_mono
      (fun goes _ will => goes.willClaim will) (fun _ => id) fun f j job => (claims f j job).2
  refine ⟨(claimed run claims).1, fun sequence released => ⟨(claimed run claims).2 _ released, ?_⟩⟩
  refine run?_induction (fun moves s => (∀ f j, jobAt? s.version (messages moves) d = some (f, j) →
      f = .change ∧ j.body.WillClaim) → .released (.job d sequence) ∈ s.events →
    ∀ t ∈ s.threads, t.body.closing = true → t.origin = .owner) ?_ ?_ run claims released
  · simp [start]
  · intro moves s move next run ih step claims released
    have ordered := ordered_of_run? run
    have known : ∀ f j, jobAt? s.version (messages moves) d = some (f, j) →
        f = .change ∧ j.body.WillClaim := by
      intro f j job
      refine claims f j ?_
      rw [step.version, messages_append, jobAt?_append _ (lt_of_jobAt? job), job]
    obtain ⟨heads, ended⟩ := claimed run known
    rcases step.released released with before | ⟨outcome, present⟩
    · exact step.closing_mono (tidy_of_run? run) ordered (ended sequence before) (ih known before)
    · obtain ⟨f, j, job, -⟩ := (recorded_of_run? run).running _ present d sequence rfl
      obtain ⟨rfl, -⟩ := known f j job
      have claim := (heads _ present sequence rfl).resolve_left id
      refine step.closing_mono (tidy_of_run? run) ordered claim fun t member holds => ?_
      obtain ⟨front, back, split⟩ := List.append_of_mem present
      rw [split, List.mem_append, List.mem_cons] at member
      refine ordered.owners split rfl job t (List.mem_append.mpr ?_)
      refine member.imp_right fun behind => behind.resolve_left ?_
      rintro rfl
      contradiction

end Released

end Session

end BuildServer
