import BuildServer.Proofs.Session.Queueing

/-! # No job is left behind

The job that a message became waits, is carried out or has been released, and once it has been
released all its calls have returned and its reply has been sent. A job that waits could leave the
queue without being carried out only if the release of another job were to take it for its own. That
never happens to a change, since nothing runs behind one that waits, and it happens to no job as
long as sequences tell jobs apart.
-/

namespace BuildServer

open Backend Protocol Rpc

namespace Session

open Queue

/-- The messages whose jobs wait or are carried out. -/
def underway (threads : List Thread) (items : List (Item Footprint Job)) : List Nat :=
  (waiting items).map (·.job.message) ++ working threads

/-- What is noted of a job is a whole course of it: its thread has come to an outcome and owes
nothing. -/
def Complete (message : Nat) (j : Job) (events : List Event) : Prop :=
  ∃ sequence outcome record, Course message sequence j none (.finish outcome) record ∧
    (about message events = record ∨
      about message events = record ++ [.released (.job message sequence)])

section Underway

variable {threads : List Thread} {items left : List (Item Footprint Job)} {d : Nat}

theorem mem_underway : d ∈ underway threads items ↔
    (∃ x ∈ waiting items, x.job.message = d) ∨ d ∈ working threads := by
  rw [underway, List.mem_append, List.mem_map]

/-- A job that starts goes on being underway. -/
theorem underway_start {earlier : List Footprint} {chosen : List (Submission Footprint Job)}
    (scanned : Scanned earlier items left chosen) :
    (underway (threads ++ (chosen.map Submission.start).map .ofStarted) left).Perm
      (underway threads items) := by
  have waits := scanned.waiting_perm.map (·.job.message)
  rw [List.map_append] at waits
  rw [underway, working_append, working_started]
  calc (waiting left).map (·.job.message) ++ (working threads ++ chosen.map (·.job.message))
      |>.Perm (chosen.map (·.job.message) ++ (waiting left).map (·.job.message) ++
        working threads) := by
        rw [← List.append_assoc]
        exact List.perm_append_comm.trans (by rw [List.append_assoc])
    _ |>.Perm (underway threads items) := waits.symm.append_right _

/-- Only the message that comes in can be new. -/
theorem Moves.underway_cases {s next : Session} {move : Move} (moves : Moves s move next)
    (member : d ∈ underway next.threads next.queue.items) :
    d ∈ underway s.threads s.queue.items ∨ d = s.received := by
  cases moves with
  | dropped | refused | pushed => exact .inl member
  | @queued m f j accepted =>
    obtain ⟨chosen, began, scanned⟩ := submit_scanned s.queue f j
    have lined := (underway_start scanned).subset (began ▸ member)
    simp only [underway, waiting_append, waiting_item, waiting_nil, List.map_append, List.map_cons,
      List.map_nil, List.mem_append, List.mem_singleton, message_of_jobOf? accepted] at lined ⊢
    grind
  | closing => exact .inl (by simpa [underway, Thread.message?] using member)
  | goes split | replied split =>
    exact .inl (by simpa [underway, split, Thread.message?] using member)
  | @left front back owed outcome answers split =>
    refine .inl ?_
    cases owed <;> simpa [underway, split, Thread.message?] using member
  | @ended front back message sequence outcome answers split =>
    obtain ⟨chosen, began, scanned⟩ := release_scanned s.queue sequence
    have lined := (underway_start scanned).subset (began ▸ member)
    simp only [underway, List.mem_append, split, working_append, working_cons] at lined ⊢
    rcases lined with waits | works
    · exact .inl (.inl (((List.eraseP_sublist.filterMap Item.submission?).map _).subset waits))
    · exact .inl (.inr (works.imp_right .inr))

end Underway

/-- What is found in a list lies in the part of it that was added or in the part before. -/
theorem split_append {α : Type} {init more front back : List α} {e : α}
    (split : init ++ more = front ++ e :: back) :
    (∃ middle, front = init ++ middle ∧ more = middle ++ e :: back) ∨
      ∃ rest, init = front ++ e :: rest ∧ back = rest ++ more := by
  rcases List.append_eq_append_iff.mp split with ⟨middle, rfl, tail⟩ | ⟨middle, rfl, tail⟩
  · exact .inl ⟨middle, rfl, tail⟩
  · cases middle with
    | nil => exact .inl ⟨[], by simp, tail.symm⟩
    | cons first middle =>
      obtain ⟨rfl, rfl⟩ := List.cons.inj tail
      exact .inr ⟨middle, rfl, rfl⟩

theorem split_concat {α : Type} {init front back : List α} {last e : α}
    (split : init ++ [last] = front ++ e :: back) :
    (init = front ∧ last = e ∧ back = []) ∨
      ∃ rest, init = front ++ e :: rest ∧ back = rest ++ [last] := by
  refine (split_append split).imp_left ?_
  rintro ⟨middle, rfl, tail⟩
  cases middle <;> simp_all

namespace Course

variable {message : Nat} {sequence : UInt64} {j : Job} {owed : Option OwedReply} {body : Body}
  {record : List Event}

/-- A call that was made has returned, or it is what the thread waits for. -/
theorem returned (course : Course message sequence j owed body record) {origin : Origin} {c : Call}
    {front back : List Event} (split : record = front ++ .called origin c :: back) :
    origin = .job message sequence ∧
      ((∃ answer, .returned origin c answer ∈ back) ∨ ∃ next, body = .await c next) := by
  induction course generalizing front back with
  | start => simp at split
  | goes before goes ih =>
    cases goes with
    | advanced | claimed =>
      rw [List.append_nil] at split
      obtain ⟨mine, back | ⟨next, waits⟩⟩ := ih split
      · exact ⟨mine, .inl back⟩
      · cases waits
    | called =>
      rcases split_concat split with ⟨-, same, -⟩ | ⟨rest, earlier, rfl⟩
      · cases same
        exact ⟨rfl, .inr ⟨_, rfl⟩⟩
      · obtain ⟨mine, ⟨answer, back⟩ | ⟨next, waits⟩⟩ := ih earlier
        · exact ⟨mine, .inl ⟨answer, List.mem_append_left _ back⟩⟩
        · cases waits
    | checked | closed =>
      rcases split_concat split with ⟨-, same, -⟩ | ⟨rest, earlier, rfl⟩
      · cases same
      · obtain ⟨mine, ⟨answer, back⟩ | ⟨next, waits⟩⟩ := ih earlier
        · exact ⟨mine, .inl ⟨answer, List.mem_append_left _ back⟩⟩
        · cases waits
    | answered | failed =>
      rcases split_concat split with ⟨-, same, -⟩ | ⟨rest, earlier, rfl⟩
      · cases same
      · obtain ⟨rfl, ⟨answer, back⟩ | ⟨next, waits⟩⟩ := ih earlier
        · exact ⟨rfl, .inl ⟨answer, List.mem_append_left _ back⟩⟩
        · cases waits
          exact ⟨rfl, .inl ⟨_, List.mem_append_right _ (List.mem_singleton_self _)⟩⟩
  | replied before ih =>
    rcases split_concat split with ⟨-, same, -⟩ | ⟨rest, earlier, rfl⟩
    · cases same
    · obtain ⟨mine, ⟨answer, back⟩ | ⟨next, waits⟩⟩ := ih earlier
      · exact ⟨mine, .inl ⟨answer, List.mem_append_left _ back⟩⟩
      · cases waits

/-- A reply that was owed is owed still or has been sent. -/
theorem owes (course : Course message sequence j owed body record) {o : OwedReply}
    (owes : j.owed = some o) : owed = some o ∨ ∃ reply, .replied message reply ∈ record := by
  induction course with
  | start => exact .inl owes
  | goes _ _ ih =>
    refine ih.imp_right ?_
    rintro ⟨reply, sent⟩
    exact ⟨reply, List.mem_append_left _ sent⟩
  | replied => exact .inr ⟨_, List.mem_append_right _ (List.mem_singleton_self _)⟩

/-- A thread that has sent its reply has come to its outcome and owes nothing. -/
theorem paid (course : Course message sequence j owed body record) {n : Nat} {reply : Response}
    (sent : .replied n reply ∈ record) : owed = none ∧ ∃ outcome, body = .finish outcome := by
  induction course with
  | start => contradiction
  | goes _ goes ih =>
    rcases List.mem_append.mp sent with before | new
    · obtain ⟨-, outcome, rfl⟩ := ih before
      cases goes
    · cases goes <;> simp at new
  | replied => exact ⟨rfl, _, rfl⟩

/-- The end of a job is noted by the queue. -/
theorem not_released (course : Course message sequence j owed body record) {origin : Origin} :
    .released origin ∉ record := by
  induction course with
  | start => simp
  | goes _ goes ih => cases goes <;> simpa using ih
  | replied _ ih => simpa using ih

end Course

/-- The job of a message, once it has been taken in, is known. -/
theorem jobAt?_received {version : String} {ms : List Message} {m : Message} {d : Nat}
    {p : Footprint × Job} (job : jobAt? version (ms ++ [m]) d = some p) :
    jobAt? version ms d = some p ∨ d = ms.length ∧ jobOf? version ms.length m = some p := by
  have bound := lt_of_jobAt? job
  rw [List.length_append, List.length_singleton] at bound
  rcases Nat.lt_or_eq_of_le (Nat.le_of_lt_succ bound) with known | rfl
  · rw [jobAt?_append [m] known] at job
    exact .inl job
  · rw [jobAt?_last] at job
    exact .inr ⟨rfl, job⟩

/-- What a move brings about: at most one event about a message whose job is carried out, or events
about the message that comes in, which then becomes no job. -/
theorem Moves.events {s next : Session} {move : Move} (moves : Moves s move next) :
    ∃ more, next.events = s.events ++ more ∧ ∀ e ∈ more, ∀ d, e.message? = some d →
      (d ∈ working s.threads ∧ more = [e]) ∨
      (d = s.received ∧ ∃ m, move = .receive m ∧ jobOf? s.version s.received m = none) := by
  cases moves with
  | dropped | closing | left => exact ⟨[], (List.append_nil _).symm, by simp⟩
  | @refused r e refusal =>
    refine ⟨_, rfl, fun event member d about => .inr ⟨?_, _, rfl, jobOf?_of_refusal refusal⟩⟩
    cases h : s.hasObserver <;> simp [observation, h] at member
    · subst member
      simpa [Event.message?] using about.symm
    · rcases member with rfl | rfl <;> simpa [Event.message?] using about.symm
  | @queued m f j accepted =>
    refine ⟨_, rfl, fun event member d about => ?_⟩
    cases m <;> cases h : s.hasObserver <;> simp [observation, h] at member
    subst member
    simp [Event.message?] at about
  | pushed => exact ⟨_, rfl, by simp [Event.message?]⟩
  | @goes front back t answers body phase claimed events split goes =>
    refine ⟨events, rfl, fun event member d about => .inl ?_⟩
    obtain ⟨⟨e, sequence⟩ | _, owed, earlier⟩ := t
    · obtain rfl : e = d := by simpa [goes.message? rfl event member] using about
      refine ⟨by simp [split, Thread.message?], ?_⟩
      cases goes <;> simp_all
    · simp [goes.message?_owner event member] at about
  | replied split | ended split =>
    refine ⟨_, rfl, fun event member d about => .inl ?_⟩
    obtain rfl := List.mem_singleton.mp member
    simp only [Event.message?, Option.some.injEq] at about
    exact ⟨by simp [split, Thread.message?, about], rfl⟩

/-- No more jobs are handed in than messages are received. -/
theorem Enlisted.length_le {version : String} {ms : List Message} {threads : List Thread}
    {items : List (Item Footprint Job)} {handedIn : List (Submission Footprint Job)}
    (enlisted : Enlisted version ms threads items handedIn) : handedIn.length ≤ ms.length := by
  have distinct : (handedIn.map (·.job.message)).Nodup :=
    List.pairwise_map.mpr (enlisted.increasing.imp Nat.ne_of_lt)
  have known : handedIn.map (·.job.message) ⊆ List.range ms.length := by
    intro d member
    obtain ⟨x, handed, rfl⟩ := List.mem_map.mp member
    exact List.mem_range.mpr (lt_of_jobAt? (enlisted.placed x handed))
  simpa using (distinct.subperm known).length_le

/-- As long as no more than `wordLimit` messages have been received, no two items of the queue share
a sequence. -/
theorem items_nodup_of_run? {settings : Settings} {hasObserver : Bool} {moves : List Move}
    {s : Session} (run : (start settings hasObserver).run? moves = some s)
    (few : (messages moves).length < wordLimit) : (s.queue.items.map (·.sequence)).Nodup := by
  obtain ⟨events, queue, enlisted⟩ := queue_run_of_run? run
  exact (queue.books (Nat.lt_of_le_of_lt enlisted.length_le few)).items_nodup

/-- The release of a running job takes no waiting job out of the queue, if sequences tell them
apart. -/
theorem mem_waiting_eraseP_of_nodup {items : List (Item Footprint Job)}
    (distinct : (items.map (·.sequence)).Nodup) {sequence : UInt64}
    (runs : sequence ∈ runningSequences items) {x : Submission Footprint Job}
    (waits : x ∈ waiting items) :
    x ∈ waiting (items.eraseP fun item => item.sequence == sequence) := by
  obtain ⟨item, present, marked, rfl⟩ := mem_runningSequences.mp runs
  obtain ⟨front, back, split, erased⟩ := exists_split_of_eraseP distinct present
  rw [mem_waiting] at waits ⊢
  rw [split, List.mem_append, List.mem_cons] at waits
  rw [erased, List.mem_append]
  refine waits.imp_right fun behind => behind.resolve_left ?_
  rintro rfl
  contradiction

/-- A job that is underway stays so until it is released, unless the release of another takes it out
of the queue. -/
theorem Moves.stays {s next : Session} {move : Move} (moves : Moves s move next)
    (backed : ∀ n, (sequences s.threads).count n ≤ (runningSequences s.queue.items).count n) {d : Nat}
    (member : d ∈ underway s.threads s.queue.items)
    (stays : ∀ x ∈ waiting s.queue.items, x.job.message = d →
      ∀ sequence ∈ runningSequences s.queue.items,
        x ∈ waiting (s.queue.items.eraseP fun item => item.sequence == sequence)) :
    d ∈ underway next.threads next.queue.items ∨
      ∃ sequence, .released (.job d sequence) ∈ next.events := by
  cases moves with
  | dropped | refused | pushed => exact .inl member
  | @queued m f j accepted =>
    obtain ⟨chosen, began, scanned⟩ := submit_scanned s.queue f j
    refine .inl ?_
    rw [began, (underway_start scanned).mem_iff]
    rw [mem_underway] at member ⊢
    exact member.imp_left fun ⟨x, waits, same⟩ => ⟨x, by simp [waits], same⟩
  | closing => exact .inl (by simpa [underway, Thread.message?] using member)
  | goes split | replied split =>
    exact .inl (by simpa [underway, split, Thread.message?] using member)
  | @left front back owed outcome answers split =>
    refine .inl ?_
    cases owed <;> simpa [underway, split, Thread.message?] using member
  | @ended front back message sequence outcome answers split =>
    obtain ⟨chosen, began, scanned⟩ := release_scanned s.queue sequence
    have runs : sequence ∈ runningSequences s.queue.items := by
      have positive : 0 < (sequences s.threads).count sequence :=
        List.count_pos_iff.mpr (by simp [split, Thread.sequence?])
      exact List.count_pos_iff.mp (Nat.lt_of_lt_of_le positive (backed sequence))
    rw [began, (underway_start scanned).mem_iff, mem_underway]
    rcases mem_underway.mp member with ⟨x, waits, rfl⟩ | works
    · exact .inl (.inl ⟨x, stays x waits rfl sequence runs, rfl⟩)
    · simp only [split, working_append, working_cons, Thread.message?, Option.toList_some,
        List.mem_append, List.mem_singleton] at works ⊢
      rcases works with before | rfl | behind
      · exact .inl (.inr (.inl before))
      · exact .inr ⟨sequence, by simp⟩
      · exact .inl (.inr (.inr behind))

/-- The job of the message that comes in is underway. -/
theorem Moves.enters {s next : Session} {m : Message} (moves : Moves s (.receive m) next)
    {f : Footprint} {j : Job} (job : jobOf? s.version s.received m = some (f, j)) :
    s.received ∈ underway next.threads next.queue.items := by
  cases moves with
  | dropped _ jobless => simp [jobless] at job
  | refused refusal => simp [jobOf?_of_refusal refusal] at job
  | @queued _ f j accepted =>
    obtain ⟨chosen, began, scanned⟩ := submit_scanned s.queue f j
    rw [began, (underway_start scanned).mem_iff, mem_underway]
    exact .inl ⟨⟨s.queue.nextSequence, f, j⟩, by simp, message_of_jobOf? accepted⟩

/-- The job of a message is underway until it has been released. This goes for every change, and as
long as sequences tell jobs apart it goes for all. -/
theorem underway_or_released {settings : Settings} {hasObserver : Bool} {moves : List Move}
    {s : Session} (run : (start settings hasObserver).run? moves = some s) {d : Nat} {f : Footprint}
    {j : Job} (job : jobAt? s.version (messages moves) d = some (f, j))
    (safe : f = .change ∨ (messages moves).length < wordLimit) :
    d ∈ underway s.threads s.queue.items ∨ ∃ sequence, .released (.job d sequence) ∈ s.events := by
  refine run?_induction (fun moves s => ∀ d f j,
    jobAt? s.version (messages moves) d = some (f, j) →
    f = .change ∨ (messages moves).length < wordLimit →
    d ∈ underway s.threads s.queue.items ∨ ∃ sequence, .released (.job d sequence) ∈ s.events)
    ?_ ?_ run d f j job safe
  · intro d f j job
    simp [messages, jobAt?] at job
  · intro moves s move next before kept step d f j job safe
    obtain ⟨counted, balanced⟩ := balanced_of_run? before
    have ordered := ordered_of_run? before
    have fewer : f = .change ∨ (messages moves).length < wordLimit := by
      rw [messages_append, List.length_append] at safe
      exact safe.imp_right (Nat.lt_of_le_of_lt (Nat.le_add_right ..))
    have earlier : jobAt? s.version (messages moves) d = some (f, j) ∨
        d = s.received ∧ ∃ m, move = .receive m ∧ jobOf? s.version d m = some (f, j) := by
      rw [messages_append, step.version] at job
      cases move with
      | receive m =>
        refine (jobAt?_received job).imp_right fun latest => ?_
        exact ⟨latest.1.trans counted.symm, m, rfl, latest.1 ▸ latest.2⟩
      | push | close | step => exact .inl (by simpa [messages] using job)
    rcases earlier with known | ⟨rfl, m, rfl, accepted⟩
    · rcases kept d f j known fewer with member | ⟨sequence, released⟩
      · refine step.stays balanced.backed member fun x waits same sequence runs => ?_
        subst same
        obtain ⟨rfl, rfl⟩ := ordered.eq_of_jobAt? waits known
        rcases fewer with change | few
        · exact mem_waiting_eraseP ordered.clear runs waits (change ▸ barrier_change)
        · exact mem_waiting_eraseP_of_nodup (items_nodup_of_run? before few) runs waits
      · obtain ⟨more, grown, -⟩ := step.events
        exact .inr ⟨sequence, grown ▸ List.mem_append_left _ released⟩
    · exact .inl (step.enters accepted)

/-- Once nothing is left to be done, every change has been released. -/
theorem released_of_idle {settings : Settings} {hasObserver : Bool} {moves : List Move}
    {s : Session} (run : (start settings hasObserver).run? moves = some s) {d : Nat} {j : Job}
    (job : jobAt? s.version (messages moves) d = some (.change, j)) (idle : s.isIdle = true) :
    ∃ sequence, .released (.job d sequence) ∈ s.events := by
  refine (underway_or_released run job (.inl rfl)).resolve_left fun member => ?_
  obtain ⟨-, balanced⟩ := balanced_of_run? run
  rw [List.isEmpty_iff.mp idle] at balanced member
  rw [underway, working_eq_nil balanced.threadless] at member
  contradiction

namespace Complete

variable {message : Nat} {j : Job} {events : List Event}

/-- Every call of a complete job has returned. -/
theorem returned (complete : Complete message j events) {sequence : UInt64} {c : Call}
    {front back : List Event} (split : events = front ++ .called (.job message sequence) c :: back) :
    ∃ answer, .returned (.job message sequence) c answer ∈ back := by
  obtain ⟨number, outcome, record, course, noted⟩ := complete
  have called : about message (.called (.job message sequence) c :: back) =
      .called (.job message sequence) c :: about message back := by
    simp [about, Event.message?]
  rw [split, about_append, called] at noted
  have among : ∀ rest : List Event, record = about message front ++
      .called (.job message sequence) c :: rest → ∃ answer,
      .returned (.job message sequence) c answer ∈ rest := by
    intro rest split
    obtain ⟨-, answered | ⟨next, waits⟩⟩ := course.returned split
    · exact answered
    · contradiction
  rcases noted with noted | noted
  · obtain ⟨answer, returned⟩ := among _ noted.symm
    exact ⟨answer, (mem_about.mp returned).1⟩
  · rcases split_concat noted.symm with ⟨-, same, -⟩ | ⟨rest, earlier, behind⟩
    · contradiction
    · obtain ⟨answer, returned⟩ := among rest earlier
      have later : .returned (.job message sequence) c answer ∈ about message back := by
        rw [behind]
        exact List.mem_append_left _ returned
      exact ⟨answer, (mem_about.mp later).1⟩

/-- The reply that a complete job owed has been sent. -/
theorem replied (complete : Complete message j events) {o : OwedReply} (owes : j.owed = some o) :
    ∃ reply, .replied message reply ∈ events := by
  obtain ⟨sequence, outcome, record, course, noted⟩ := complete
  obtain ⟨reply, sent⟩ := (course.owes owes).resolve_left (by simp)
  have seen : .replied message reply ∈ about message events := by
    rcases noted with noted | noted
    · exact noted ▸ sent
    · exact noted ▸ List.mem_append_left _ sent
  exact ⟨reply, (mem_about.mp seen).1⟩

end Complete

section Recorded

variable {version : String} {ms : List Message} {threads : List Thread}
  {items : List (Item Footprint Job)} {events : List Event} {d : Nat} {f : Footprint} {j : Job}
  (recorded : Recorded version ms threads items fun d => about d events)
  (job : jobAt? version ms d = some (f, j))

include recorded job

/-- A job that has been released is complete. -/
theorem Recorded.complete_of_released {origin : Origin} (released : .released origin ∈ events)
    (own : (Event.released origin).message? = some d) : Complete d j events := by
  obtain ⟨sequence, owed, body, record, course, noted⟩ := recorded.account d f j job
  have seen := mem_about.mpr ⟨released, own⟩
  rcases noted with noted | ⟨rfl, ⟨outcome, rfl⟩, noted⟩
  · exact absurd (noted ▸ seen) course.not_released
  · exact ⟨sequence, outcome, record, course, .inr noted⟩

/-- A job that has replied is complete. -/
theorem Recorded.complete_of_replied {reply : Response} (sent : .replied d reply ∈ events) :
    Complete d j events := by
  obtain ⟨sequence, owed, body, record, course, noted⟩ := recorded.account d f j job
  have seen := mem_about.mpr ⟨sent, rfl⟩
  rcases noted with noted | ⟨rfl, ⟨outcome, rfl⟩, noted⟩
  · obtain ⟨rfl, outcome, rfl⟩ := course.paid (noted ▸ seen)
    exact ⟨sequence, outcome, record, course, .inl noted⟩
  · exact ⟨sequence, outcome, record, course, .inr noted⟩

end Recorded

end Session

end BuildServer
