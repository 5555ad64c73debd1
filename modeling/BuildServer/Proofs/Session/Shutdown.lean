import BuildServer.Proofs.Session.Course

/-! # When a session refuses requests

The phase is shared by all jobs, and a job may look at it long after its message was received. As
long as the owner does not close the session, what it finds is settled by the order of receipt: the
phase refuses requests exactly if a shutdown or an exit was received before the message. In one
direction, only the job of such a message moves the phase there, and it runs ahead of all that were
received after it. In the other, such a job heads for the phase from its first step on and cannot
end without it, while those received later wait.
-/

namespace BuildServer

open Backend Protocol Rpc

namespace Phase

theorem refusesRequests_advance (p next : Phase) :
    (p.advance next).refusesRequests = (p.refusesRequests || next.refusesRequests) := by
  cases p <;> cases next <;> rfl

end Phase

namespace Body

/-- Steps that end only after they have moved the phase to one that refuses requests, given whether
the closing has been claimed. -/
def Heads : Bool → Body → Prop
  | claimed, .checkPhase next => ∀ p, (next p).Heads claimed
  | _, .advance p _ => p.refusesRequests = true
  | claimed, .claimClose next => claimed = false ∧ (next true).Heads true
  | claimed, .closeConnection rest => rest.Heads claimed
  | _, .call .. | _, .await .. | _, .finish _ => False

/-- Steps that neither move the phase to one that refuses requests nor claim the closing. -/
def Mild : Body → Prop
  | .checkPhase next => ∀ p, (next p).Mild
  | .call _ next | .await _ next => ∀ a, (next a).Mild
  | .advance p rest => p.refusesRequests = false ∧ rest.Mild
  | .claimClose _ => False
  | .closeConnection rest => rest.Mild
  | .finish _ => True

end Body

namespace Session

open Queue

/-- Whether a message has the session refuse the requests after it: a shutdown or an exit that can
be read. -/
def refuses : Message → Bool
  | .request r =>
    match Query.read? r.method r.params with
    | some (.ok q) => q.isShutdown
    | _ => false
  | .notification n =>
    match Notice.read? n.method n.params with
    | some (.ok notice) => notice.isExit
    | _ => false
  | .response _ => false

/-- The message of the given number has the session refuse requests. -/
def Refusing (ms : List Message) (message : Nat) : Prop :=
  ∃ m, ms[message]? = some m ∧ refuses m = true

section Goes

variable {origin : Origin} {phase next : Phase} {claimed claims : Bool} {body rest : Body}
  {events : List Event}

/-- Steps that head for the refusal get there or go on heading for it. -/
theorem Goes.heads (goes : Goes origin phase claimed body rest next claims events)
    (heads : body.Heads claimed) : next.refusesRequests = true ∨ rest.Heads claims := by
  cases goes with
  | checked => exact .inr (heads phase)
  | called | answered | failed => exact heads.elim
  | advanced =>
    refine .inl ?_
    rw [Phase.refusesRequests_advance, Bool.or_eq_true]
    exact .inr heads
  | claimed =>
    obtain ⟨rfl, heads⟩ := heads
    exact .inr heads
  | closed => exact .inr heads

/-- Mild steps leave alone what all jobs share. -/
theorem Goes.mild (goes : Goes origin phase claimed body rest next claims events)
    (mild : body.Mild) :
    rest.Mild ∧ next.refusesRequests = phase.refusesRequests ∧ claims = claimed := by
  cases goes with
  | checked => exact ⟨mild phase, rfl, rfl⟩
  | called => exact ⟨mild, rfl, rfl⟩
  | @answered c next a => exact ⟨mild a, rfl, rfl⟩
  | failed => exact ⟨trivial, rfl, rfl⟩
  | advanced =>
    obtain ⟨still, mild⟩ := mild
    refine ⟨mild, ?_, rfl⟩
    rw [Phase.refusesRequests_advance, still, Bool.or_false]
  | claimed => exact mild.elim
  | closed => exact ⟨mild, rfl, rfl⟩

/-- A phase that refuses requests is never left for one that does not. -/
theorem Goes.refuses (goes : Goes origin phase claimed body rest next claims events)
    (refused : phase.refusesRequests = true) : next.refusesRequests = true := by
  cases goes with
  | advanced => rw [Phase.refusesRequests_advance, refused, Bool.true_or]
  | _ => exact refused

end Goes

theorem Course.mild {message : Nat} {sequence : UInt64} {j : Job} {owed : Option OwedReply}
    {body : Body} {record : List Event} (course : Course message sequence j owed body record)
    (mild : j.body.Mild) : body.Mild := by
  induction course with
  | start => exact mild
  | goes _ goes ih => exact (goes.mild ih).1
  | replied _ _ => trivial

section Messages

variable {version : String} {number : Nat} {m : Message}

theorem handler_mild (version : String) {q : Query} (other : q.isShutdown = false) :
    (q.handler version).Mild := by
  cases q with
  | handshake => exact fun _ _ _ _ => ⟨rfl, fun _ => trivial⟩
  | shutdown => contradiction
  | prepare | sources | options | targets =>
    intro answer
    cases answer <;> trivial
  | awaitUpdates => exact fun _ => trivial

/-- A message that has requests refused becomes a job that changes something and heads for it. -/
theorem jobOf?_of_refuses (version : String) (number : Nat) (refused : refuses m = true) :
    ∃ j, jobOf? version number m = some (.change, j) ∧ j.body.Heads false := by
  cases m with
  | request r =>
    simp only [refuses] at refused
    split at refused
    · rename_i q read
      refine ⟨⟨number, some ⟨r.id⟩, q.body version⟩, ?_, fun p => ?_⟩
      · simp only [jobOf?, read]
        cases q <;> first | contradiction | rfl
      · cases q <;> first | contradiction | (cases p <;> exact rfl)
    · contradiction
  | notification n =>
    simp only [refuses] at refused
    split at refused
    · rename_i notice read
      refine ⟨⟨number, none, notice.body⟩, ?_, fun p => ?_⟩
      · simp only [jobOf?, read]
      · cases notice <;> first | contradiction | (cases p <;> exact ⟨rfl, rfl⟩)
    · contradiction
  | response _ => contradiction

/-- All other messages become mild jobs or none. -/
theorem mild_of_jobOf? {f : Footprint} {j : Job} (accepted : jobOf? version number m = some (f, j))
    (other : refuses m = false) : j.body.Mild := by
  obtain ⟨r, q, rfl, read, rfl, rfl⟩ | ⟨n, notice, rfl, read, rfl, rfl⟩ := jobOf?_cases accepted
  · simp only [refuses, read] at other
    intro p
    cases refused : p.refusesRequests && !q.isShutdown with
    | true => simp only [refused, if_true]; trivial
    | false => simpa [refused] using handler_mild version other
  · simp only [refuses, read] at other
    intro p
    cases notice with
    | initialized => cases p <;> trivial
    | exit => contradiction
    | filesChanged => cases p <;> first | exact fun _ => trivial | trivial

end Messages

theorem Refusing.lt {ms : List Message} {d : Nat} (refusing : Refusing ms d) : d < ms.length := by
  obtain ⟨m, present, -⟩ := refusing
  exact (List.getElem?_eq_some_iff.mp present).1

theorem Refusing.append {ms : List Message} {d : Nat} (refusing : Refusing ms d)
    (more : List Message) : Refusing (ms ++ more) d := by
  have known := refusing.lt
  obtain ⟨m, present, refused⟩ := refusing
  exact ⟨m, by rw [List.getElem?_append_left known, present], refused⟩

/-- The next message is the only one that can be new. -/
theorem Refusing.of_append {ms : List Message} {m : Message} {d : Nat}
    (refusing : Refusing (ms ++ [m]) d) : Refusing ms d ∨ d = ms.length ∧ refuses m = true := by
  obtain ⟨n, present, refused⟩ := refusing
  rw [List.getElem?_append] at present
  split at present
  · exact .inl ⟨n, present, refused⟩
  · obtain ⟨bound, rfl⟩ := List.getElem?_eq_some_iff.mp present
    simp only [List.length_cons, List.length_nil] at bound
    refine .inr ⟨by omega, ?_⟩
    simpa using refused

/-- The job of such a message changes something. -/
theorem Refusing.job {ms : List Message} {d : Nat} (refusing : Refusing ms d) (version : String) :
    ∃ j, jobAt? version ms d = some (.change, j) ∧ j.body.Heads false := by
  obtain ⟨m, present, refused⟩ := refusing
  rw [jobAt?, present]
  exact jobOf?_of_refuses version d refused

/-- A thread that goes on carries out the same job. -/
theorem working_set (front back : List Thread) (t : Thread) (body : Body) :
    working (front ++ { t with body } :: back) = working (front ++ t :: back) := by
  simp [Thread.message?]

/-- What ties the phase and the claim of the closing to the messages, while the owner does not close
the session. -/
structure Settled (ms : List Message) (threads : List Thread) (items : List (Item Footprint Job))
    (phase : Phase) (claimed : Bool) : Prop where
  jobs : ∀ t ∈ threads, ∃ d, t.message? = some d
  cause : phase.refusesRequests = true → ∃ d, Refusing ms d ∧ (∀ e ∈ working threads, d ≤ e) ∧
    ∀ x ∈ waiting items, d ≤ x.job.message
  effect : ∀ d, Refusing ms d → phase.refusesRequests = true ∨
    (∃ x ∈ waiting items, x.job.message = d) ∨
    ∃ t ∈ threads, t.message? = some d ∧ t.body.Heads claimed
  claim : claimed = true → phase.refusesRequests = true ∨
    ∃ d, Refusing ms d ∧ ∃ t ∈ threads, t.message? = some d ∧ t.body.Heads true

namespace Settled

variable {version : String} {ms : List Message} {threads front back : List Thread}
  {items left : List (Item Footprint Job)} {phase : Phase} {claimed : Bool}

/-- A message that becomes no job settles nothing. -/
theorem extend (settled : Settled ms threads items phase claimed) {m : Message}
    (other : refuses m = false) : Settled (ms ++ [m]) threads items phase claimed := by
  refine ⟨settled.jobs, fun refused => ?_, fun d refusing => ?_, fun claim => ?_⟩
  · obtain ⟨d, refusing, before⟩ := settled.cause refused
    exact ⟨d, refusing.append [m], before⟩
  · rcases refusing.of_append with refusing | ⟨-, refused⟩
    · exact settled.effect d refusing
    · rw [other] at refused
      contradiction
  · rcases settled.claim claim with refused | ⟨d, refusing, heading⟩
    · exact .inl refused
    · exact .inr ⟨d, refusing.append [m], heading⟩

/-- The job of the next message waits behind whatever is the cause. -/
theorem enqueue (settled : Settled ms threads items phase claimed) {m : Message}
    {x : Submission Footprint Job} (number : x.job.message = ms.length) :
    Settled (ms ++ [m]) threads (items ++ [x.item]) phase claimed := by
  have last : x ∈ waiting (items ++ [x.item]) := by simp
  refine ⟨settled.jobs, fun refused => ?_, fun d refusing => ?_, fun claim => ?_⟩
  · obtain ⟨d, refusing, alive, queued⟩ := settled.cause refused
    refine ⟨d, refusing.append [m], alive, fun y waits => ?_⟩
    rw [waiting_append, List.mem_append] at waits
    rcases waits with before | new
    · exact queued y before
    · obtain rfl := List.mem_singleton.mp new
      rw [number]
      exact Nat.le_of_lt refusing.lt
  · rcases refusing.of_append with refusing | ⟨rfl, -⟩
    · rcases settled.effect d refusing with refused | ⟨y, waits, same⟩ | heading
      · exact .inl refused
      · refine .inr (.inl ⟨y, ?_, same⟩)
        rw [waiting_append]
        exact List.mem_append_left _ waits
      · exact .inr (.inr heading)
    · exact .inr (.inl ⟨x, last, number⟩)
  · rcases settled.claim claim with refused | ⟨d, refusing, heading⟩
    · exact .inl refused
    · exact .inr ⟨d, refusing.append [m], heading⟩

/-- The jobs that start have been waiting; one that heads for the refusal starts alone, and by then
the closing has been claimed only if requests are refused. -/
theorem start (settled : Settled ms threads items phase claimed)
    (ordered : Ordered version ms threads items)
    (backed : ∀ n, (sequences threads).count n ≤ (runningSequences items).count n)
    {chosen : List (Submission Footprint Job)} (scanned : Scanned [] items left chosen) :
    Settled ms (threads ++ (chosen.map Submission.start).map .ofStarted) left phase claimed := by
  have started : ∀ y ∈ chosen, Thread.ofStarted y.start ∈
      threads ++ (chosen.map Submission.start).map .ofStarted := by
    intro y starts
    exact List.mem_append_right _ (List.mem_map_of_mem (List.mem_map_of_mem starts))
  constructor
  · intro t member
    rcases List.mem_append.mp member with before | starts
    · exact settled.jobs t before
    · obtain ⟨y, -, rfl⟩ := List.mem_map.mp starts
      exact ⟨_, rfl⟩
  · intro refused
    obtain ⟨d, refusing, alive, queued⟩ := settled.cause refused
    refine ⟨d, refusing, fun e works => ?_, fun x waits => ?_⟩
    · rw [working_append, working_started, List.mem_append] at works
      rcases works with before | starts
      · exact alive e before
      · obtain ⟨y, member, rfl⟩ := List.mem_map.mp starts
        exact queued y (scanned.chosen_sublist.subset member)
    · exact queued x (scanned.waiting_sublist.subset waits)
  · intro d refusing
    rcases settled.effect d refusing with refused | ⟨x, waits, rfl⟩ | ⟨t, member, heading⟩
    · exact .inl refused
    · rcases List.mem_append.mp (scanned.waiting_perm.mem_iff.mp waits) with starts | stays
      · obtain ⟨j, job, heads⟩ := refusing.job version
        obtain ⟨change, rfl⟩ := ordered.eq_of_jobAt? waits job
        have quiet := ordered.none_working backed scanned starts change
        cases claimed with
        | false => exact .inr (.inr ⟨_, started x starts, rfl, heads⟩)
        | true =>
          rcases settled.claim rfl with refused | ⟨e, -, t, member, works, -⟩
          · exact .inl refused
          · have works : e ∈ working threads := List.mem_filterMap.mpr ⟨t, member, works⟩
            rw [quiet] at works
            contradiction
      · exact .inr (.inl ⟨x, stays, rfl⟩)
    · exact .inr (.inr ⟨t, List.mem_append_left _ member, heading⟩)
  · intro claim
    rcases settled.claim claim with refused | ⟨d, refusing, t, member, heading⟩
    · exact .inl refused
    · exact .inr ⟨d, refusing, t, List.mem_append_left _ member, heading⟩

/-- Threads that do not head for the refusal may come to their end, and their jobs may leave the
queue, as long as no change is lost. -/
theorem leave (settled : Settled ms threads items phase claimed)
    (ordered : Ordered version ms threads items) {others : List Thread}
    {kept : List (Item Footprint Job)} (fewer : kept.Sublist items)
    (changes : ∀ x ∈ waiting items, x.key = .change → x ∈ waiting kept)
    (jobs : ∀ t ∈ others, ∃ d, t.message? = some d)
    (less : ∀ e ∈ working others, e ∈ working threads)
    (heading : ∀ t ∈ threads, ∀ c, t.body.Heads c → t ∈ others) :
    Settled ms others kept phase claimed := by
  refine ⟨jobs, fun refused => ?_, fun d refusing => ?_, fun claim => ?_⟩
  · obtain ⟨d, refusing, alive, queued⟩ := settled.cause refused
    refine ⟨d, refusing, fun e works => alive e (less e works), fun x waits => queued x ?_⟩
    exact (fewer.filterMap Item.submission?).subset waits
  · rcases settled.effect d refusing with refused | ⟨x, waits, rfl⟩ | ⟨t, member, mine, heads⟩
    · exact .inl refused
    · obtain ⟨j, job, -⟩ := refusing.job version
      obtain ⟨change, -⟩ := ordered.eq_of_jobAt? waits job
      exact .inr (.inl ⟨x, changes x waits change, rfl⟩)
    · exact .inr (.inr ⟨t, heading t member _ heads, mine, heads⟩)
  · rcases settled.claim claim with refused | ⟨d, refusing, t, member, mine, heads⟩
    · exact .inl refused
    · exact .inr ⟨d, refusing, t, heading t member _ heads, mine, heads⟩

/-- A thread that has come to its outcome may reply. -/
theorem reply {message : Nat} {sequence : UInt64} {owed : OwedReply} {outcome : Option Outcome}
    (settled : Settled ms (front ++ ⟨.job message sequence, some owed, .finish outcome⟩ :: back)
      items phase claimed)
    (ordered : Ordered version ms
      (front ++ ⟨.job message sequence, some owed, .finish outcome⟩ :: back) items) :
    Settled ms (front ++ ⟨.job message sequence, none, .finish outcome⟩ :: back) items phase
      claimed := by
  refine settled.leave ordered (.refl _) (fun x waits _ => waits) (fun t member => ?_)
    (fun e works => ?_) fun t member c heads => ?_
  · rw [List.mem_append, List.mem_cons] at member
    rcases member with member | rfl | member
    · exact settled.jobs t (by simp [member])
    · exact ⟨message, rfl⟩
    · exact settled.jobs t (by simp [member])
  · simpa [Thread.message?] using works
  · simp only [List.mem_append, List.mem_cons] at member ⊢
    rcases member with member | rfl | member
    · exact .inl member
    · exact heads.elim
    · exact .inr (.inr member)

/-- A thread that has come to its outcome may end. -/
theorem finish {message : Nat} {sequence : UInt64} {owed : Option OwedReply}
    {outcome : Option Outcome} (settled : Settled ms
      (front ++ ⟨.job message sequence, owed, .finish outcome⟩ :: back) items phase claimed)
    (ordered : Ordered version ms
      (front ++ ⟨.job message sequence, owed, .finish outcome⟩ :: back) items)
    {kept : List (Item Footprint Job)} (fewer : kept.Sublist items)
    (changes : ∀ x ∈ waiting items, x.key = .change → x ∈ waiting kept) :
    Settled ms (front ++ back) kept phase claimed := by
  have less : (front ++ back).Sublist
      (front ++ ⟨.job message sequence, owed, .finish outcome⟩ :: back) :=
    (List.sublist_cons_self _ back).append_left front
  refine settled.leave ordered fewer changes (fun u member => settled.jobs u (less.subset member))
    (fun e works => (less.filterMap Thread.message?).subset works) fun u member c heads => ?_
  simp only [List.mem_append, List.mem_cons] at member ⊢
  rcases member with member | rfl | member
  · exact .inl member
  · exact heads.elim
  · exact .inr member

/-- The job of a message that has requests refused heads for it until they are. -/
theorem heads {t : Thread} (settled : Settled ms (front ++ t :: back) items phase claimed)
    (ordered : Ordered version ms (front ++ t :: back) items) {d : Nat} {sequence : UInt64}
    (origin : t.origin = .job d sequence) (refusing : Refusing ms d) :
    phase.refusesRequests = true ∨ t.body.Heads claimed := by
  have works : d ∈ working (front ++ t :: back) :=
    mem_working.mpr ⟨t, by simp, sequence, origin⟩
  rcases settled.effect d refusing with refused | ⟨x, waits, rfl⟩ | ⟨u, member, mine, heads⟩
  · exact .inl refused
  · exact absurd works (ordered.apart x waits)
  · rw [List.mem_append, List.mem_cons] at member
    by_cases same : u = t
    · exact .inr (same ▸ heads)
    · have elsewhere : u ∈ front ++ back := by
        rw [List.mem_append]
        exact member.imp_right fun later => later.resolve_left same
      exact absurd (List.mem_filterMap.mpr ⟨u, elsewhere, mine⟩) (ordered.other origin)

/-- A thread that goes on stays a thread of its job. -/
theorem jobs_set {t : Thread} (settled : Settled ms (front ++ t :: back) items phase claimed)
    (body : Body) : ∀ u ∈ front ++ { t with body } :: back, ∃ e, u.message? = some e := by
  intro u member
  rw [List.mem_append, List.mem_cons] at member
  rcases member with member | rfl | member
  · exact settled.jobs u (by simp [member])
  · exact settled.jobs t (by simp)
  · exact settled.jobs u (by simp [member])

/-- The thread of a message that has requests refused goes on towards that; it is the only one. -/
theorem turn {t : Thread} (settled : Settled ms (front ++ t :: back) items phase claimed)
    (ordered : Ordered version ms (front ++ t :: back) items) {d : Nat} {sequence : UInt64}
    (origin : t.origin = .job d sequence) (refusing : Refusing ms d) {body : Body} {next : Phase}
    {claims : Bool} {events : List Event}
    (goes : Goes t.origin phase claimed t.body body next claims events) :
    Settled ms (front ++ { t with body } :: back) items next claims := by
  have works : d ∈ working (front ++ t :: back) :=
    mem_working.mpr ⟨t, by simp, sequence, origin⟩
  have mine : t.message? = some d := by rw [Thread.message?, origin]
  obtain ⟨j, change, -⟩ := refusing.job version
  obtain ⟨single, -, after⟩ := ordered.alone d works j change
  have arrives : next.refusesRequests = true ∨ body.Heads claims := by
    rcases settled.heads ordered origin refusing with refused | heads
    · exact .inl (goes.refuses refused)
    · exact goes.heads heads
  refine ⟨settled.jobs_set body, fun _ => ⟨d, refusing, fun e works => ?_, fun x waits =>
    Nat.le_of_lt (after x waits)⟩, fun e other => ?_, fun claim => ?_⟩
  · rw [working_set, single] at works
    exact Nat.le_of_eq (List.mem_singleton.mp works).symm
  · rcases settled.effect e other with refused | waits | ⟨u, member, theirs, -⟩
    · exact .inl (goes.refuses refused)
    · exact .inr (.inl waits)
    · have works : e ∈ working (front ++ t :: back) :=
        List.mem_filterMap.mpr ⟨u, member, theirs⟩
      rw [single] at works
      obtain rfl := List.mem_singleton.mp works
      exact arrives.imp_right fun heads => .inr ⟨{ t with body }, by simp, mine, heads⟩
  · subst claim
    exact arrives.imp_right fun heads => ⟨d, refusing, { t with body }, by simp, mine, heads⟩

/-- The thread of any other message goes on and leaves alone what all jobs share. -/
theorem pass {t : Thread} (settled : Settled ms (front ++ t :: back) items phase claimed) {d : Nat}
    {sequence : UInt64} (origin : t.origin = .job d sequence) (other : ¬ Refusing ms d)
    {body : Body} {next : Phase} (still : next.refusesRequests = phase.refusesRequests) :
    Settled ms (front ++ { t with body } :: back) items next claimed := by
  have mine : t.message? = some d := by rw [Thread.message?, origin]
  have stays : ∀ e, Refusing ms e → ∀ u ∈ front ++ t :: back, u.message? = some e →
      u ∈ front ++ { t with body } :: back := by
    intro e refusing u member theirs
    simp only [List.mem_append, List.mem_cons] at member ⊢
    rcases member with member | rfl | member
    · exact .inl member
    · obtain rfl := Option.some.inj (mine.symm.trans theirs)
      exact absurd refusing other
    · exact .inr (.inr member)
  refine ⟨settled.jobs_set body, fun refused => ?_, fun e refusing => ?_, fun claim => ?_⟩
  · rw [working_set]
    exact settled.cause (still ▸ refused)
  · rw [still]
    rcases settled.effect e refusing with refused | waits | ⟨u, member, theirs, heads⟩
    · exact .inl refused
    · exact .inr (.inl waits)
    · exact .inr (.inr ⟨u, stays e refusing u member theirs, theirs, heads⟩)
  · rw [still]
    rcases settled.claim claim with refused | ⟨e, refusing, u, member, theirs, heads⟩
    · exact .inl refused
    · exact .inr ⟨e, refusing, u, stays e refusing u member theirs, theirs, heads⟩

/-- The thread of a job goes on. -/
theorem goes {t : Thread} (settled : Settled ms (front ++ t :: back) items phase claimed)
    (ordered : Ordered version ms (front ++ t :: back) items) {d : Nat} {sequence : UInt64}
    (origin : t.origin = .job d sequence) {f : Footprint} {j : Job}
    (job : jobAt? version ms d = some (f, j)) {record : List Event}
    (course : Course d sequence j t.owed t.body record) {body : Body} {next : Phase} {claims : Bool}
    {events : List Event} (goes : Goes t.origin phase claimed t.body body next claims events) :
    Settled ms (front ++ { t with body } :: back) items next claims := by
  by_cases refusing : Refusing ms d
  · exact settled.turn ordered origin refusing goes
  · obtain ⟨m, present, accepted⟩ := Option.bind_eq_some_iff.mp job
    have other : refuses m = false := Bool.eq_false_iff.mpr fun refused =>
      refusing ⟨m, present, refused⟩
    obtain ⟨-, still, rfl⟩ := goes.mild (course.mild (mild_of_jobOf? accepted other))
    exact settled.pass origin refusing still

/-- Unless the owner closes the session, every move leaves it settled. -/
theorem move {s later : Session} {move : Move}
    (settled : Settled ms s.threads s.queue.items s.phase s.closeClaimed)
    (ordered : Ordered s.version ms s.threads s.queue.items)
    (recorded : Recorded s.version ms s.threads s.queue.items fun d => about d s.events)
    (balanced : Balanced (asked ms) (paid s.events) s.threads s.queue.items)
    (counted : s.received = ms.length) (unclosed : move ≠ .close) (moves : Moves s move later) :
    Settled (ms ++ messages [move]) later.threads later.queue.items later.phase
      later.closeClaimed := by
  have mild : ∀ m, jobOf? s.version s.received m = none → refuses m = false := by
    intro m jobless
    apply Bool.eq_false_iff.mpr
    intro refused
    obtain ⟨j, job, -⟩ := jobOf?_of_refuses s.version s.received refused
    rw [jobless] at job
    contradiction
  cases moves with
  | @dropped m _ jobless => exact settled.extend (mild m jobless)
  | @refused r e refusal => exact settled.extend (mild _ (jobOf?_of_refusal refusal))
  | @queued m f j accepted =>
    rw [counted] at accepted
    obtain ⟨chosen, began, scanned⟩ := submit_scanned s.queue f j
    have lined := ordered.enqueue (m := m) ⟨s.queue.nextSequence, f, j⟩ accepted
    have backed := (balanced.ask ⟨s.queue.nextSequence, f, j⟩).backed
    have enqueued : Settled (ms ++ [m]) s.threads
        (s.queue.items ++ [Submission.item ⟨s.queue.nextSequence, f, j⟩]) s.phase s.closeClaimed :=
      settled.enqueue (message_of_jobOf? accepted)
    simpa [messages, began] using enqueued.start lined backed scanned
  | pushed => simpa [messages] using settled
  | closing => contradiction
  | @goes front back t answers body phase claimed events split goes =>
    rw [split] at settled ordered recorded
    obtain ⟨d, mine⟩ := settled.jobs t (by simp)
    obtain ⟨sequence, origin⟩ := Thread.message?_eq_some.mp mine
    obtain ⟨f, j, job, course⟩ := recorded.running t (by simp) d sequence origin
    simpa [messages] using settled.goes ordered origin job course goes
  | @replied front back message sequence owed outcome answers split =>
    rw [split] at settled ordered
    simpa [messages] using settled.reply ordered
  | @ended front back message sequence outcome answers split =>
    rw [split] at settled ordered balanced
    obtain ⟨chosen, began, scanned⟩ := release_scanned s.queue sequence
    have fewer : (s.queue.items.eraseP fun item => item.sequence == sequence).Sublist
        s.queue.items := List.eraseP_sublist
    have ended := settled.finish ordered fewer fun x waits change =>
      mem_waiting_eraseP ordered.clear balanced.runs waits (change ▸ barrier_change)
    have started := ended.start (ordered.finish fewer) balanced.finish.backed scanned
    simpa [messages, began] using started
  | @left front back owed outcome answers split =>
    rw [split] at settled
    obtain ⟨d, mine⟩ := settled.jobs ⟨.owner, owed, .finish outcome⟩ (by simp)
    contradiction

end Settled

/-- A run that the owner does not close is settled. -/
theorem settled_of_run? {settings : Settings} {hasObserver : Bool} {moves : List Move} {s : Session}
    (run : (start settings hasObserver).run? moves = some s) (unclosed : .close ∉ moves) :
    Settled (messages moves) s.threads s.queue.items s.phase s.closeClaimed := by
  refine run?_induction (fun moves s => .close ∉ moves →
    Settled (messages moves) s.threads s.queue.items s.phase s.closeClaimed) ?_ ?_ run unclosed
  · intro
    constructor <;> simp [start, Phase.refusesRequests, messages, Refusing]
  · intro moves s move next before settled step unclosed
    obtain ⟨counted, balanced⟩ := balanced_of_run? before
    simp only [List.mem_append, List.mem_singleton, not_or] at unclosed
    rw [messages_append]
    exact (settled unclosed.1).move (ordered_of_run? before) (recorded_of_run? before) balanced
      counted (Ne.symm unclosed.2) step

theorem any_take_refuses {ms : List Message} {d : Nat} :
    (ms.take d).any refuses = true ↔ ∃ e < d, Refusing ms e := by
  rw [List.any_eq_true]
  constructor
  · rintro ⟨m, member, refused⟩
    obtain ⟨e, present⟩ := List.mem_iff_getElem?.mp member
    rw [List.getElem?_take] at present
    split at present
    · rename_i before
      exact ⟨e, before, m, present, refused⟩
    · contradiction
  · rintro ⟨e, before, m, present, refused⟩
    refine ⟨m, List.mem_iff_getElem?.mpr ⟨e, ?_⟩, refused⟩
    rw [List.getElem?_take_of_lt before, present]

/-- While a job runs, the phase refuses requests exactly if a message before it has it so, unless
its own message is one that does. -/
theorem Settled.phase_eq {version : String} {ms : List Message} {threads : List Thread}
    {items : List (Item Footprint Job)} {phase : Phase} {claimed : Bool}
    (settled : Settled ms threads items phase claimed) (ordered : Ordered version ms threads items)
    {d : Nat} (works : d ∈ working threads) (other : ¬ Refusing ms d) :
    phase.refusesRequests = (ms.take d).any refuses := by
  rw [Bool.eq_iff_iff, any_take_refuses]
  constructor
  · intro refused
    obtain ⟨e, refusing, alive, -⟩ := settled.cause refused
    refine ⟨e, Nat.lt_of_le_of_ne (alive d works) ?_, refusing⟩
    rintro rfl
    exact other refusing
  · rintro ⟨e, before, refusing⟩
    obtain ⟨j, job, -⟩ := refusing.job version
    rcases settled.effect e refusing with refused | ⟨x, waits, rfl⟩ | ⟨t, member, mine, -⟩
    · exact refused
    · obtain ⟨change, -⟩ : x.key = .change ∧ x.job = j := by
        simpa using (ordered.placed x waits).symm.trans job
      have later := ordered.behind x waits change d works
      omega
    · obtain ⟨single, -, -⟩ := ordered.alone e (List.mem_filterMap.mpr ⟨t, member, mine⟩) j job
      rw [single] at works
      obtain rfl := List.mem_singleton.mp works
      contradiction

/-- What a move adds to the checks of jobs is the check of a thread against the phase. -/
theorem Moves.checked {s next : Session} {move : Move} (moves : Moves s move next) {d : Nat}
    {sequence : UInt64} {p : Phase} (checked : .checked (.job d sequence) p ∈ next.events) :
    .checked (.job d sequence) p ∈ s.events ∨ d ∈ working s.threads ∧ p = s.phase := by
  cases moves with
  | dropped | closing | left => exact .inl checked
  | refused =>
    refine .inl ?_
    cases h : s.hasObserver <;> simpa [observation, h] using checked
  | @queued m f j accepted =>
    refine .inl ?_
    cases m <;> cases h : s.hasObserver <;> simpa [observation, h] using checked
  | pushed | replied | ended => exact .inl (by simpa using checked)
  | @goes front back t answers body phase claimed events split goes =>
    refine (List.mem_append.mp checked).imp_right fun added => ?_
    obtain ⟨origin, owed, earlier⟩ := t
    cases goes with
    | checked =>
      obtain ⟨rfl, rfl⟩ : .job d sequence = origin ∧ p = s.phase := by simpa using added
      have works : d ∈ working s.threads := by simp [split, Thread.message?]
      exact ⟨works, rfl⟩
    | _ => simp at added

/-- In a run that the owner does not close, a job that looks at the phase finds that requests are
refused exactly if a message before it has it so, unless its own message is one that does. -/
theorem phase_of_checked {settings : Settings} {hasObserver : Bool} {moves : List Move}
    {s : Session} (run : (start settings hasObserver).run? moves = some s)
    (unclosed : .close ∉ moves) {d : Nat} {sequence : UInt64} {p : Phase}
    (checked : .checked (.job d sequence) p ∈ s.events) :
    d < (messages moves).length ∧ (¬ Refusing (messages moves) d →
      p.refusesRequests = ((messages moves).take d).any refuses) := by
  refine run?_induction (fun moves s => .close ∉ moves →
    ∀ d sequence p, .checked (.job d sequence) p ∈ s.events → d < (messages moves).length ∧
      (¬ Refusing (messages moves) d →
        p.refusesRequests = ((messages moves).take d).any refuses)) ?_ ?_ run unclosed d sequence p
    checked
  · intro _ d sequence p checked
    contradiction
  · intro moves s move next before found step unclosed d sequence p checked
    simp only [List.mem_append, List.mem_singleton, not_or] at unclosed
    rw [messages_append]
    have earlier : d < (messages moves).length ∧ (¬ Refusing (messages moves) d →
        p.refusesRequests = ((messages moves).take d).any refuses) := by
      rcases step.checked checked with old | ⟨works, rfl⟩
      · exact found unclosed.1 d sequence p old
      · have ordered := ordered_of_run? before
        refine ⟨ordered.known d works, fun other => ?_⟩
        exact (settled_of_run? before unclosed.1).phase_eq ordered works other
    obtain ⟨known, found⟩ := earlier
    refine ⟨by rw [List.length_append]; omega, fun other => ?_⟩
    rw [List.take_append_of_le_length (Nat.le_of_lt known)]
    exact found fun refusing => other (refusing.append _)

end Session

end BuildServer
