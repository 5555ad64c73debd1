import BuildServer.Proofs.Queue.ConflictOrder
import BuildServer.Proofs.Session.Ending

/-! # Conflicting messages take effect in the order of receipt

By the time a job takes its first step, every earlier message that it conflicts with is over and done
with: its calls have returned and its reply has been sent, and nothing more will be seen of it. For
changes this follows from the order of the queue alone. That a request before a change has been
answered follows from the balance of replies: the change runs by itself, so no item is left for
which a reply could be missing. Only for two preparations do the books of the queue come in, which
need sequences to tell jobs apart.
-/

namespace BuildServer

open Backend Protocol Rpc

namespace Session

open Queue

/-- One job was handed in for each message. -/
theorem Enlisted.eq_of_message {version : String} {ms : List Message} {threads : List Thread}
    {items : List (Item Footprint Job)} {handedIn : List (Submission Footprint Job)}
    (enlisted : Enlisted version ms threads items handedIn) {x y : Submission Footprint Job}
    (first : x ∈ handedIn) (second : y ∈ handedIn) (same : x.job.message = y.job.message) : x = y :=
  List.inj_on_of_nodup_map (List.pairwise_map.mpr (enlisted.increasing.imp Nat.ne_of_lt)) first second
    same

/-- Jobs are handed in as their messages are received. -/
theorem Enlisted.sublist_of_lt {version : String} {ms : List Message} {threads : List Thread}
    {items : List (Item Footprint Job)} {handedIn : List (Submission Footprint Job)}
    (enlisted : Enlisted version ms threads items handedIn) {x y : Submission Footprint Job}
    (first : x ∈ handedIn) (second : y ∈ handedIn) (earlier : x.job.message < y.job.message) :
    [x, y].Sublist handedIn := by
  obtain ⟨front, back, rfl⟩ := List.append_of_mem first
  rcases List.mem_append.mp second with before | behind
  · have later := (List.pairwise_append.mp enlisted.increasing).2.2 y before x (List.mem_cons_self ..)
    exact absurd later (Nat.lt_asymm earlier)
  · have present := (List.mem_cons.mp behind).resolve_left (by
      rintro rfl
      exact Nat.lt_irrefl _ earlier)
    exact (List.cons_sublist_cons.mpr (List.singleton_sublist.mpr present)).trans
      (List.sublist_append_right ..)

/-- A job that the queue has released is not underway. -/
theorem not_underway_of_released {version : String} {ms : List Message} {threads : List Thread}
    {events : List (Queue.Event Footprint Job)} {q : Queue Footprint Job} (books : Books events q)
    (enlisted : Enlisted version ms threads q.items (submissions events))
    (backed : ∀ n, (sequences threads).count n ≤ (runningSequences q.items).count n)
    {x : Submission Footprint Job} (handedIn : x ∈ submissions events)
    (released : x.sequence ∈ releases events) : x.job.message ∉ underway threads q.items := by
  intro member
  rcases mem_underway.mp member with ⟨y, waits, same⟩ | works
  · obtain rfl := enlisted.eq_of_message (enlisted.waits y waits) handedIn same
    exact books.not_released_of_mem (mem_waiting.mp waits) released
  · obtain ⟨t, present, sequence, origin⟩ := mem_working.mp works
    obtain ⟨y, other, same, rfl⟩ :=
      enlisted.carried x.job.message sequence (List.mem_map.mpr ⟨t, present, origin⟩)
    obtain rfl := enlisted.eq_of_message other handedIn same
    have runs : y.sequence ∈ sequences threads :=
      List.mem_filterMap.mpr ⟨t, present, by rw [Thread.sequence?, origin]⟩
    have positive := Nat.lt_of_lt_of_le (List.count_pos_iff.mpr runs) (backed y.sequence)
    exact books.not_released_of_running (List.count_pos_iff.mp positive) released

/-- Whatever is owed is underway. -/
theorem underway_of_owing {threads : List Thread} {items : List (Item Footprint Job)} {d : Debt}
    (owed : d ∈ owing threads ∨ d ∈ deferred items) : d.1 ∈ underway threads items := by
  rw [mem_underway]
  rcases owed with owed | owed
  · obtain ⟨t, present, owes⟩ := List.mem_filterMap.mp owed
    refine .inr (List.mem_filterMap.mpr ⟨t, present, ?_⟩)
    obtain ⟨⟨message, sequence⟩ | _, owed, body⟩ := t
    · obtain ⟨o, -, rfl⟩ := Option.map_eq_some_iff.mp owes
      rfl
    · contradiction
  · obtain ⟨x, waits, owes⟩ := List.mem_filterMap.mp owed
    obtain ⟨o, -, rfl⟩ := Option.map_eq_some_iff.mp owes
    exact .inl ⟨x, waits, rfl⟩

theorem replied_of_paid {events : List Event} {d : Debt} (sent : d ∈ paid events) :
    ∃ reply, .replied d.1 reply ∈ events := by
  obtain ⟨e, member, same⟩ := List.mem_filterMap.mp sent
  cases e with
  | replied message reply =>
    cases same
    exact ⟨reply, member⟩
  | _ => contradiction

section Run

variable {settings : Settings} {hasObserver : Bool} {moves : List Move} {s : Session}
  (run : (start settings hasObserver).run? moves = some s) {i j : Nat} (earlier : i < j)
  {f g : Footprint} {a b : Job}
  (first : jobAt? s.version (messages moves) i = some (f, a))
  (second : jobAt? s.version (messages moves) j = some (g, b)) (works : j ∈ working s.threads)

include run earlier first

/-- When a job is carried out, every earlier change has been released. -/
theorem change_over (change : f = .change) (works : j ∈ working s.threads) :
    i ∉ underway s.threads s.queue.items ∧ Complete i a s.events := by
  subst change
  have ordered := ordered_of_run? run
  have past : i ∉ underway s.threads s.queue.items := by
    intro member
    rcases mem_underway.mp member with ⟨x, waits, rfl⟩ | present
    · have behind := ordered.behind x waits (ordered.eq_of_jobAt? waits first).1 j works
      exact Nat.lt_asymm earlier behind
    · obtain ⟨single, -, -⟩ := ordered.alone i present a first
      rw [single, List.mem_singleton] at works
      exact Nat.ne_of_gt earlier works
  obtain ⟨sequence, released⟩ := (underway_or_released run first (.inl rfl)).resolve_left past
  exact ⟨past, (recorded_of_run? run).complete_of_released first released rfl⟩

include second works

/-- When a change is carried out, every earlier request has been answered. -/
theorem request_over (change : g = .change) {owed : OwedReply} (owes : a.owed = some owed) :
    i ∉ underway s.threads s.queue.items ∧ Complete i a s.events := by
  subst change
  have ordered := ordered_of_run? run
  obtain ⟨single, ⟨item, present, marked, key⟩, later⟩ := ordered.alone j works b second
  have past : i ∉ underway s.threads s.queue.items := by
    intro member
    rcases mem_underway.mp member with ⟨x, waits, rfl⟩ | works
    · exact Nat.lt_asymm earlier (later x waits)
    · rw [single, List.mem_singleton] at works
      exact Nat.ne_of_lt earlier works
  obtain ⟨-, balanced⟩ := balanced_of_run? run
  have matched : (runningSequences s.queue.items).length ≤ (sequences s.threads).length := by
    obtain ⟨rest, items, idle⟩ := ordered.clear.front present marked (key ▸ barrier_change)
    have busy : sequences s.threads ≠ [] := by
      intro idle
      rw [working_eq_nil idle] at works
      contradiction
    rw [items, show item = item.running by rw [Item.running, ← marked], runningSequences_running, idle]
    exact List.length_pos_iff.mpr busy
  obtain ⟨m, received, accepted⟩ := Option.bind_eq_some_iff.mp first
  obtain ⟨r, q, rfl, -, -, rfl⟩ | ⟨n, notice, rfl, -, -, rfl⟩ := jobOf?_cases accepted
  · have asks : (i, some r.id) ∈ asked (messages moves) := by
      have mine := filter_asked (messages moves) i
      rw [received] at mine
      have listed : (i, some r.id) ∈ (asked (messages moves)).filter fun d => d.1 = i := by
        rw [mine]
        exact List.mem_singleton_self _
      exact (List.mem_filter.mp listed).1
    rcases balanced.accounted matched asks with sent | owed
    · obtain ⟨reply, sent⟩ := replied_of_paid sent
      exact ⟨past, (recorded_of_run? run).complete_of_replied first sent⟩
    · exact absurd (underway_of_owing owed) past
  · contradiction

/-- When a job is carried out that conflicts with an earlier one, the earlier one has been released,
as long as sequences tell jobs apart. -/
theorem conflict_over (few : (messages moves).length < wordLimit) (conflict : conflictsWith g f = true) :
    i ∉ underway s.threads s.queue.items ∧ Complete i a s.events := by
  obtain ⟨events, queue, enlisted⟩ := queue_run_of_run? run
  obtain ⟨-, balanced⟩ := balanced_of_run? run
  have books := queue.books (Nat.lt_of_le_of_lt enlisted.length_le few)
  obtain ⟨x, handedIn, rfl⟩ := enlisted.listed i _ first
  obtain ⟨t, present, sequence, origin⟩ := mem_working.mp works
  obtain ⟨y, later, rfl, rfl⟩ := enlisted.carried j sequence (List.mem_map.mpr ⟨t, present, origin⟩)
  have keys : x.key = f ∧ y.key = g := by
    have placedFirst := enlisted.placed x handedIn
    have placedSecond := enlisted.placed y later
    rw [first] at placedFirst
    rw [second] at placedSecond
    exact ⟨(congrArg Prod.fst (Option.some.inj placedFirst)).symm,
      (congrArg Prod.fst (Option.some.inj placedSecond)).symm⟩
  have runs : y.sequence ∈ runningSequences s.queue.items := by
    have mine : y.sequence ∈ sequences s.threads :=
      List.mem_filterMap.mpr ⟨t, present, by rw [Thread.sequence?, origin]⟩
    exact List.count_pos_iff.mp
      (Nat.lt_of_lt_of_le (List.count_pos_iff.mpr mine) (balanced.backed y.sequence))
  have gone := books.released_of_conflict (enlisted.sublist_of_lt handedIn later earlier)
    (by rw [keys.1, keys.2]; exact conflict) runs
  have past := not_underway_of_released books enlisted balanced.backed handedIn gone
  obtain ⟨sequence, released⟩ := (underway_or_released run first (.inr few)).resolve_left past
  exact ⟨past, (recorded_of_run? run).complete_of_released first released rfl⟩

/-- When a job is carried out, every earlier job that it conflicts with is over. -/
theorem over_of_conflict (conflict : conflictsWith g f = true)
    (told : f = .change ∨ g = .change ∨ (messages moves).length < wordLimit) :
    i ∉ underway s.threads s.queue.items ∧ Complete i a s.events := by
  rcases told with change | change | few
  · exact change_over run earlier first change works
  · cases owes : a.owed with
    | some owed => exact request_over run earlier first second works change owes
    | none =>
      obtain ⟨m, -, accepted⟩ := Option.bind_eq_some_iff.mp first
      obtain ⟨r, q, rfl, -, -, rfl⟩ | ⟨n, notice, rfl, -, change, rfl⟩ := jobOf?_cases accepted
      · contradiction
      · exact change_over run earlier first change works
  · exact conflict_over run earlier first second works few conflict

end Run

/-- Whatever is seen of a job, it is carried out or has been, and so it is known. -/
theorem lt_of_about {version : String} {ms : List Message} {threads : List Thread}
    {items : List (Item Footprint Job)} {events : List Event}
    (recorded : Recorded version ms threads items fun d => about d events) {e : Event} {d : Nat}
    (member : e ∈ events) (own : e.message? = some d) : d < ms.length := by
  by_contra beyond
  have seen := mem_about.mpr ⟨member, own⟩
  rw [recorded.unseen d (Nat.le_of_not_lt beyond)] at seen
  contradiction

/-- Before anything is seen of a job another one is over, of which nothing more is seen then. -/
def Passed (s : Session) (i : Nat) (a : Job) (j : Nat) : Prop :=
  ∀ before e after, s.events = before ++ e :: after → e.message? = some j →
    i ∉ underway s.threads s.queue.items ∧ Complete i a before ∧
      ∀ other ∈ after, other.message? ≠ some i

/-- A move changes nothing about which job is over before another one, if the former is over whenever
the latter is carried out. -/
theorem Moves.passed {s next : Session} {move : Move} (step : Moves s move next) {i j : Nat} {a : Job}
    (known : i < s.received)
    (gone : j ∈ working s.threads → i ∉ underway s.threads s.queue.items ∧ Complete i a s.events)
    (accepted : ∀ m, move = .receive m → j = s.received → jobOf? s.version s.received m ≠ none)
    (passed : s.Passed i a j) : next.Passed i a j := by
  intro before e after split own
  obtain ⟨more, grown, noted⟩ := step.events
  have stays (past : i ∉ underway s.threads s.queue.items) :
      i ∉ underway next.threads next.queue.items := by
    intro member
    rcases step.underway_cases member with before | last
    · exact past before
    · exact Nat.ne_of_lt known last
  rcases split_append (grown.symm.trans split) with ⟨middle, rfl, new⟩ | ⟨rest, old, rfl⟩
  · rcases noted e (by simp [new]) j own with ⟨works, single⟩ | ⟨last, m, received, jobless⟩
    · obtain ⟨past, complete⟩ := gone works
      rw [single] at new
      obtain ⟨rfl, tail⟩ | ⟨-, nothing⟩ := List.singleton_eq_append_iff.mp new
      · obtain rfl := (List.cons.inj tail).2
        exact ⟨stays past, by simpa using complete, by simp⟩
      · contradiction
    · exact absurd jobless (accepted m received last)
  · obtain ⟨past, complete, silent⟩ := passed before e rest old own
    refine ⟨stays past, complete, fun other member mine => ?_⟩
    rcases List.mem_append.mp member with before | new
    · exact silent other before mine
    · rcases noted other new i mine with ⟨works, -⟩ | ⟨last, -⟩
      · exact past (mem_underway.mpr (.inr works))
      · exact Nat.ne_of_lt known last

/-- Once anything is seen of a job, every earlier job that it conflicts with was over before. -/
theorem passed_of_run? {settings : Settings} {hasObserver : Bool} {moves : List Move} {s : Session}
    (run : (start settings hasObserver).run? moves = some s) {i j : Nat} (earlier : i < j)
    {f g : Footprint} {a b : Job} (first : jobAt? s.version (messages moves) i = some (f, a))
    (second : jobAt? s.version (messages moves) j = some (g, b))
    (conflict : conflictsWith g f = true)
    (told : f = .change ∨ g = .change ∨ (messages moves).length < wordLimit) : s.Passed i a j := by
  refine run?_induction (fun moves s => jobAt? s.version (messages moves) i = some (f, a) →
    jobAt? s.version (messages moves) j = some (g, b) →
    (f = .change ∨ g = .change ∨ (messages moves).length < wordLimit) → s.Passed i a j)
    ?_ ?_ run first second told
  · intro _ _ _ before e after split
    simp [start] at split
  · intro moves s move next run ih step first second told
    obtain ⟨counted, -⟩ := balanced_of_run? run
    rw [messages_append, step.version] at first second
    have told : f = .change ∨ g = .change ∨ (messages moves).length < wordLimit := by
      rw [messages_append, List.length_append] at told
      exact told.imp_right (Or.imp_right (Nat.lt_of_le_of_lt (Nat.le_add_right ..)))
    have before (known : j < (messages moves).length) :
        jobAt? s.version (messages moves) i = some (f, a) ∧
        jobAt? s.version (messages moves) j = some (g, b) := by
      rw [jobAt?_append _ known] at second
      rw [jobAt?_append _ (Nat.lt_trans earlier known)] at first
      exact ⟨first, second⟩
    refine step.passed ?_ (fun works => ?_) ?_ fun front e back split own => ?_
    · have bound := lt_of_jobAt? second
      have single : (messages [move]).length ≤ 1 := List.length_filterMap_le ..
      rw [List.length_append] at bound
      omega
    · obtain ⟨first, second⟩ := before ((ordered_of_run? run).known j works)
      exact over_of_conflict run earlier first second works conflict told
    · rintro m rfl rfl
      rw [counted, show messages [Move.receive m] = [m] from rfl, jobAt?_last] at second
      rw [counted, second]
      exact Option.some_ne_none _
    · have known := lt_of_about (recorded_of_run? run) (by rw [split]; simp) own
      obtain ⟨first, second⟩ := before known
      exact ih first second told front e back split own

/-- A message is over and done with between two stretches of events: in the first one every call
made for it has returned and its reply, if it is a request, has been sent, and in the second one
nothing is seen of it. -/
structure Over (ms : List Message) (message : Nat) (before after : List Event) : Prop where
  returned : ∀ sequence c front back, before = front ++ .called (.job message sequence) c :: back →
    ∃ answer, .returned (.job message sequence) c answer ∈ back
  replied : ∀ r, ms[message]? = some (.request r) → ∃ reply, .replied message reply ∈ before
  silent : ∀ e ∈ after, e.message? ≠ some message

theorem Complete.over {version : String} {ms : List Message} {message : Nat} {f : Footprint} {j : Job}
    (job : jobAt? version ms message = some (f, j)) {before after : List Event}
    (complete : Complete message j before) (silent : ∀ e ∈ after, e.message? ≠ some message) :
    Over ms message before after := by
  refine ⟨fun sequence c front back split => complete.returned split, fun r isRequest => ?_, silent⟩
  rw [jobAt?, isRequest, Option.bind_some] at job
  obtain ⟨r, q, -, -, -, rfl⟩ | ⟨n, notice, same, -⟩ := jobOf?_cases job
  · exact complete.replied rfl
  · contradiction

/-- One of the messages asks to prepare these targets. -/
def AsksToPrepare (ms : List Message) (message : Nat) (ts : List TargetId) : Prop :=
  ∃ r params, ms[message]? = some (.request r) ∧
    Query.read? r.method r.params = some (.ok (.prepare params)) ∧ params.targets = ts

theorem AsksToPrepare.jobAt? {ms : List Message} {message : Nat} {ts : List TargetId}
    (asks : AsksToPrepare ms message ts) (version : String) :
    ∃ j, jobAt? version ms message = some (.ofTargets ts, j) := by
  obtain ⟨r, params, isRequest, read, rfl⟩ := asks
  refine ⟨⟨message, some ⟨r.id⟩, (Query.prepare params).body version⟩, ?_⟩
  rw [Session.jobAt?, isRequest, Option.bind_some, jobOf?, read]
  rfl

section Order

variable {settings : Settings} {hasObserver : Bool} {moves : List Move} {s : Session}
  (run : (start settings hasObserver).run? moves = some s) {i j : Nat} (earlier : i < j)

include run earlier

/-- Before anything is seen of a job, every earlier message that it conflicts with is over. -/
theorem over_of_seen {f g : Footprint} {a b : Job}
    (first : jobAt? s.version (messages moves) i = some (f, a))
    (second : jobAt? s.version (messages moves) j = some (g, b))
    (conflict : conflictsWith g f = true)
    (told : f = .change ∨ g = .change ∨ (messages moves).length < wordLimit)
    {before after : List Event} {e : Event} (split : s.events = before ++ e :: after)
    (own : e.message? = some j) : Over (messages moves) i before (e :: after) := by
  obtain ⟨-, complete, silent⟩ :=
    passed_of_run? run earlier first second conflict told before e after split own
  refine complete.over first fun other member => ?_
  rcases List.mem_cons.mp member with rfl | later
  · simpa [own] using Nat.ne_of_gt earlier
  · exact silent other later

/-- Of two requests to prepare targets of which one is common, the earlier one is over before anything
is seen of the later one. -/
theorem preparation_over (few : (messages moves).length < wordLimit) {ts us : List TargetId}
    (first : AsksToPrepare (messages moves) i ts) (second : AsksToPrepare (messages moves) j us)
    (common : ∃ u ∈ us, ∃ t ∈ ts, u.uri.text = t.uri.text) {before after : List Event} {e : Event}
    (split : s.events = before ++ e :: after) (own : e.message? = some j) :
    Over (messages moves) i before (e :: after) := by
  obtain ⟨a, isFirst⟩ := first.jobAt? s.version
  obtain ⟨b, isSecond⟩ := second.jobAt? s.version
  have conflict := Footprint.conflictsWith_ofTargets.mpr common
  exact over_of_seen run earlier isFirst isSecond conflict (.inr (.inr few)) split own

end Order

/-- The backend is told of changed files for a notification of just these changes. -/
theorem notification_of_filesChanged {settings : Settings} {hasObserver : Bool} {moves : List Move}
    {s : Session} (run : (start settings hasObserver).run? moves = some s) {d : Nat} {n : UInt64}
    {changes : List FileEvent} (told : .called (.job d n) (.filesChanged changes) ∈ s.events) :
    ∃ notification params, (messages moves)[d]? = some (.notification notification) ∧
      Notice.read? notification.method notification.params = some (.ok (.filesChanged params)) ∧
      params.changes = changes := by
  have recorded := recorded_of_run? run
  have seen := mem_about.mpr ⟨told, (rfl : _ = some d)⟩
  cases job : jobAt? s.version (messages moves) d with
  | none =>
    rw [recorded.answered d job] at seen
    cases received : (messages moves)[d]? with
    | none => simp [received] at seen
    | some m => cases m <;> simp [received, atOnce] at seen
  | some p =>
    obtain ⟨f, j⟩ := p
    obtain ⟨sequence, owed, body, record, course, noted⟩ := recorded.account d f j job
    have caused : .called (.job d n) (.filesChanged changes) ∈ record := by
      rcases noted with noted | ⟨-, -, noted⟩
      · exact noted ▸ seen
      · simpa [noted] using seen
    obtain ⟨m, received, accepted⟩ := Option.bind_eq_some_iff.mp job
    obtain ⟨r, q, rfl, -, -, rfl⟩ | ⟨notification, notice, rfl, read, -, rfl⟩ :=
      jobOf?_cases accepted
    · exact absurd rfl ((course.called (query_every _ q) caused).2 changes)
    · obtain ⟨params, rfl, same⟩ := course.called (notice_every notice) caused
      exact ⟨notification, params, received, read, (Call.filesChanged.inj same).symm⟩

/-- In every run, before a job looks at the phase, calls the backend or does anything else, every
earlier message that it conflicts with is over and done with, even if the backend broke down over
that one. Hence the backend is told of changed files in the order of receipt, each time for a
notification of just these changes, after everything that was taken up before it and before
everything that was taken up after it. Sequences have to tell jobs apart only where neither message
is a change. -/
theorem conflicting_messages_in_order {settings : Settings} {hasObserver : Bool}
    {moves : List Move} {s : Session} (run : (start settings hasObserver).run? moves = some s) :
    (∀ i j f g a b, i < j →
      jobAt? settings.serverVersion (messages moves) i = some (f, a) →
      jobAt? settings.serverVersion (messages moves) j = some (g, b) →
      conflictsWith g f = true →
      (f = .change ∨ g = .change ∨ (messages moves).length < wordLimit) →
      ∀ before e after, s.events = before ++ e :: after → e.message? = some j →
        Over (messages moves) i before (e :: after)) ∧
    ∀ d n changes before after,
      s.events = before ++ .called (.job d n) (.filesChanged changes) :: after →
      (∃ notification params, (messages moves)[d]? = some (.notification notification) ∧
        Notice.read? notification.method notification.params = some (.ok (.filesChanged params)) ∧
        params.changes = changes) ∧
      (∀ i < d, ∀ p, jobAt? settings.serverVersion (messages moves) i = some p →
        Over (messages moves) i before after) ∧
      ∀ k > d, ∀ p, jobAt? settings.serverVersion (messages moves) k = some p →
        (∀ e ∈ before, e.message? ≠ some k) ∧
        ∀ middle e later, after = middle ++ e :: later → e.message? = some k →
          ∃ answer, .returned (.job d n) (.filesChanged changes) answer ∈ middle := by
  have order : ∀ i j f g a b, i < j →
      jobAt? settings.serverVersion (messages moves) i = some (f, a) →
      jobAt? settings.serverVersion (messages moves) j = some (g, b) →
      conflictsWith g f = true →
      (f = .change ∨ g = .change ∨ (messages moves).length < wordLimit) →
      ∀ before e after, s.events = before ++ e :: after → e.message? = some j →
        Over (messages moves) i before (e :: after) := by
    rw [← version_of_run? run]
    intro i j f g a b earlier first second conflict told before e after split own
    exact over_of_seen run earlier first second conflict told split own
  refine ⟨order, fun d n changes before after split => ?_⟩
  have told : .called (.job d n) (.filesChanged changes) ∈ s.events := by simp [split]
  have noted := notification_of_filesChanged run told
  obtain ⟨notification, params, received, read, -⟩ := id noted
  have change : jobAt? settings.serverVersion (messages moves) d =
      some (.change, ⟨d, none, (Notice.filesChanged params).body⟩) := by
    simp only [jobAt?, received, Option.bind_some, jobOf?, read]
  refine ⟨noted, fun i earlier p job => ?_, fun k later p job => ⟨fun e member own => ?_, ?_⟩⟩
  · obtain ⟨returned, replied, silent⟩ := order i d p.1 .change p.2 _ earlier job change
      (barrier_change p.1).1 (.inr (.inl rfl)) before _ after split rfl
    exact ⟨returned, replied, fun e member => silent e (List.mem_cons_of_mem _ member)⟩
  · obtain ⟨front, back, rfl⟩ := List.append_of_mem member
    rw [List.append_assoc, List.cons_append] at split
    have past := order d k .change p.1 _ p.2 later change job (barrier_change p.1).2 (.inl rfl)
      front e _ split own
    exact past.silent (.called (.job d n) (.filesChanged changes)) (by simp) rfl
  · rintro middle e later' rfl own
    rw [← List.cons_append, ← List.append_assoc] at split
    exact (order d k .change p.1 _ p.2 later change job (barrier_change p.1).2 (.inl rfl)
      _ e later' split own).returned n (.filesChanged changes) before middle rfl

/-- A read waits until the change before it is over, although the backend broke down over that. -/
theorem read_after_broken_change : ∃ (moves : List Move) (s : Session) (before after : List Event),
    (start .default false).run? moves = some s ∧
    messages moves = [.notification ⟨"workspace/didChangeWatchedFiles", .map [("changes", .list [])]⟩,
      .request ⟨.number 1, "workspace/buildTargets", .null⟩] ∧
    s.events = before ++ .checked (.job 1 1) .uninitialized :: after ∧
    .called (.job 0 0) (.filesChanged []) ∈ before ∧
    Over (messages moves) 0 before (.checked (.job 1 1) .uninitialized :: after) := by
  have run : (start .default false).run? [
      .receive (.notification ⟨"workspace/didChangeWatchedFiles", .map [("changes", .list [])]⟩),
      .receive (.request ⟨.number 1, "workspace/buildTargets", .null⟩), .step 0 fun _ => none,
      .step 0 fun _ => none, .step 0 fun _ => none, .step 0 fun _ => none,
      .step 0 fun _ => none] = some _ := rfl
  have order := (conflicting_messages_in_order run).1 0 1 .change .read _ _ (by decide) rfl rfl rfl
    (.inl rfl) [.checked (.job 0 0) .uninitialized, .called (.job 0 0) (.filesChanged []),
      .returned (.job 0 0) (.filesChanged []) none, .released (.job 0 0)] _ [] rfl rfl
  exact ⟨_, _, _, _, run, rfl, rfl, .tail _ (.head _), order⟩

end Session

end BuildServer
