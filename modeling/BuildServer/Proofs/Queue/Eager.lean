import BuildServer.Proofs.Queue.Progress
import BuildServer.Session.Footprint

/-! # Nothing waits that could run

A scan ends at the end of the queue or where the limit stops it. Whatever it has passed by then and
left waiting conflicts with something in front of it, so a job that starts is never let past one that
could have started instead, and unless the limit is reached nothing that could run is left. Positions
in the queue tell the jobs apart, so none of this asks that sequences are distinct; only that the
counter agrees with the marks does.
-/

namespace BuildServer.Queue

variable {K J : Type}

/-- The item at a position waits. -/
def WaitsAt (items : List (Item K J)) (i : Nat) : Prop :=
  ∃ item, items[i]? = some item ∧ item.job ≠ none

/-- The item at a position runs. -/
def RunsAt (items : List (Item K J)) (i : Nat) : Prop :=
  ∃ item, items[i]? = some item ∧ item.job = none

/-- The item at a position conflicts with one that is in front of it. -/
def HeldAt [Dependency K] (items : List (Item K J)) (i : Nat) : Prop :=
  ∃ item, items[i]? = some item ∧
    ∃ h < i, ∃ other, items[h]? = some other ∧ conflictsWith item.key other.key = true

/-- The jobs of the items that wait before and run after, in order. -/
def begun (before after : List (Item K J)) : List (Started J) :=
  (before.zip after).filterMap fun pair =>
    if pair.2.job.isNone then pair.1.submission?.map Submission.start else none

/-- What a scan makes of the items: places, sequences and keys stay, the jobs of those that are marked
are handed out in order, and whatever is passed over by a mark has to wait for something. -/
structure Eager [Dependency K] (before after : List (Item K J)) (started : List (Started J)) : Prop where
  entries : after.map Item.entry = before.map Item.entry
  started : started = begun before after
  overtaken : ∀ i j, i < j → WaitsAt before j → RunsAt after j → WaitsAt after i → HeldAt after i

/-- Every item that waits conflicts with something in front of it, be it one of the given keys. -/
def Held [Dependency K] : List K → List (Item K J) → Prop
  | _, [] => True
  | earlier, item :: rest =>
    (item.job ≠ none → ∃ key ∈ earlier, conflictsWith item.key key = true) ∧
      Held (item.key :: earlier) rest

variable [Dependency K]

/-- What waits among held items conflicts with a given key or with an item before it. -/
theorem Held.at {earlier : List K} {items : List (Item K J)} (held : Held earlier items) {i : Nat}
    {item : Item K J} (there : items[i]? = some item) (waits : item.job ≠ none) :
    (∃ key ∈ earlier, conflictsWith item.key key = true) ∨
      ∃ h < i, ∃ other, items[h]? = some other ∧ conflictsWith item.key other.key = true := by
  induction items generalizing earlier i with
  | nil => contradiction
  | cons first rest ih =>
    obtain ⟨front, held⟩ := held
    cases i with
    | zero =>
      obtain rfl := Option.some.inj there
      exact .inl (front waits)
    | succ i =>
      rcases ih held there with ⟨key, member, conflict⟩ | ⟨h, less, other, place, conflict⟩
      · rcases List.mem_cons.mp member with rfl | earlier
        · exact .inr ⟨0, Nat.succ_pos i, first, rfl, conflict⟩
        · exact .inl ⟨key, earlier, conflict⟩
      · exact .inr ⟨h + 1, Nat.succ_lt_succ less, other, place, conflict⟩

/-- A scan with these results has passed over the front of the items, where it has left nothing waiting
without a reason, and the limit is reached if it has not come to their end. -/
def Passes (limit : Option Limit) (earlier : List K) (items left : List (Item K J)) (running : Nat) :
    Prop :=
  ∃ front passed rest : List (Item K J), items = front ++ rest ∧ left = passed ++ rest ∧
    passed.length = front.length ∧ Held earlier passed ∧ (rest = [] ∨ isFull limit running = true)

theorem Passes.stop {limit : Option Limit} {running : Nat} {items : List (Item K J)}
    (ending : items = [] ∨ isFull limit running = true) (earlier : List K) :
    Passes limit earlier items items running := ⟨[], [], items, rfl, rfl, rfl, trivial, ending⟩

/-- One more item is passed in front, which has a reason if it is left waiting. -/
theorem Passes.cons {limit : Option Limit} {earlier : List K} {items left : List (Item K J)}
    {running : Nat} {item : Item K J} (passing : Item K J)
    (reason : passing.job ≠ none → ∃ key ∈ earlier, conflictsWith passing.key key = true)
    (passes : Passes limit (passing.key :: earlier) items left running) :
    Passes limit earlier (item :: items) (passing :: left) running := by
  obtain ⟨front, passed, rest, rfl, rfl, length, held, ending⟩ := passes
  refine ⟨item :: front, passing :: passed, rest, rfl, rfl, ?_, ⟨reason, held⟩, ending⟩
  rw [List.length_cons, length, List.length_cons]

/-- Every scan passes over the front of the items. -/
theorem passes_scan (limit : Option Limit) (earlier : List K) (running : Nat)
    (items : List (Item K J)) :
    Passes limit earlier items (scan limit earlier running items).items
      (scan limit earlier running items).running := by
  induction items generalizing earlier running with
  | nil => exact .stop (.inl rfl) earlier
  | cons item items ih =>
    rw [scan]
    split
    case isTrue full => exact .stop (.inr full) earlier
    case isFalse =>
      split
      case h_1 runs =>
        apply Passes.cons item _ (ih (item.key :: earlier) running)
        intro waits
        exact absurd runs waits
      case h_2 =>
        split
        case isTrue conflict =>
          apply Passes.cons item _ (ih (item.key :: earlier) running)
          intro _
          exact List.any_eq_true.mp conflict
        case isFalse =>
          apply Passes.cons item.running _ (ih (item.key :: earlier) (running + 1))
          intro waits
          exact absurd rfl waits

/-- Unless the limit is reached, whatever a scan leaves waiting is held. -/
theorem held_of_scan {limit : Option Limit} {running : Nat} {items : List (Item K J)}
    (free : isFull limit (scan limit [] running items).running = false) {i : Nat}
    (waits : WaitsAt (scan limit [] running items).items i) :
    HeldAt (scan limit [] running items).items i := by
  obtain ⟨front, passed, rest, -, scanned, -, held, ending⟩ := passes_scan limit [] running items
  obtain rfl : rest = [] := ending.resolve_right (Bool.eq_false_iff.mp free)
  rw [List.append_nil] at scanned
  rw [scanned] at waits ⊢
  obtain ⟨item, there, waits⟩ := waits
  refine ⟨item, there, (held.at there waits).resolve_left ?_⟩
  rintro ⟨key, member, -⟩
  contradiction

/-- Whatever a scan has passed when it marks a job and left waiting is held, since behind what has been
passed the scan changes nothing. -/
theorem held_of_overtaken {limit : Option Limit} {running : Nat} {items : List (Item K J)} {i j : Nat}
    (less : i < j) (waited : WaitsAt items j) (runs : RunsAt (scan limit [] running items).items j)
    (waits : WaitsAt (scan limit [] running items).items i) :
    HeldAt (scan limit [] running items).items i := by
  obtain ⟨front, passed, rest, split, scanned, length, held, -⟩ := passes_scan limit [] running items
  rw [scanned] at runs waits ⊢
  have within : j < passed.length := by
    by_contra beyond
    obtain ⟨item, there, waited⟩ := waited
    obtain ⟨same, place, runs⟩ := runs
    rw [split, List.getElem?_append_right (by omega), ← length] at there
    rw [List.getElem?_append_right (by omega), there] at place
    exact waited (Option.some.inj place ▸ runs)
  obtain ⟨item, there, waits⟩ := waits
  have place := there
  rw [List.getElem?_append_left (by omega)] at place
  rcases held.at place waits with ⟨key, member, -⟩ | ⟨h, before, other, found, conflict⟩
  · contradiction
  · refine ⟨item, there, h, before, other, ?_, conflict⟩
    rw [List.getElem?_append_left (by omega), found]

/-- What is handed out are the jobs of the items that are marked. -/
theorem Scanned.begun {earlier : List K} {items left : List (Item K J)}
    {chosen : List (Submission K J)} (scanned : Scanned earlier items left chosen) :
    Queue.begun items left = chosen.map Submission.start := by
  induction scanned with
  | nil => rfl
  | @keep _ item items left _ _ ih =>
    rw [← ih, Queue.begun, Queue.begun, List.zip_cons_cons, List.filterMap_cons_none]
    obtain ⟨sequence, key, job⟩ := item
    cases job <;> rfl
  | start _ _ ih =>
    rw [List.map_cons, ← ih]
    rfl

/-- Every scan is eager. -/
theorem eager_takeReady (q : Queue K J) : Eager q.items (takeReady q).2.items (takeReady q).1 := by
  obtain ⟨chosen, began, scanned⟩ := takeReady_scanned q
  refine ⟨scanned.entries, began.trans scanned.begun.symm, fun i j less waited runs waits => ?_⟩
  exact held_of_overtaken less waited runs waits

theorem eager_submit (q : Queue K J) (key : K) (job : J) :
    Eager (q.items ++ [Submission.item ⟨q.nextSequence, key, job⟩]) (q.submit key job).2.items
      (q.submit key job).1 :=
  eager_takeReady { q with
    nextSequence := q.nextSequence + 1, items := q.items ++ [⟨q.nextSequence, key, some job⟩] }

theorem eager_release (q : Queue K J) (sequence : UInt64) :
    Eager (q.items.eraseP fun item => item.sequence == sequence) (q.release sequence).2.items
      (q.release sequence).1 :=
  eager_takeReady { q with
    items := q.items.eraseP fun item => item.sequence == sequence, running := q.running - 1 }

/-- A scan counts no further than the limit. -/
theorem running_scan_le {l : Limit} {earlier : List K} {running : Nat} (within : running ≤ l.value)
    (items : List (Item K J)) : (scan (some l) earlier running items).running ≤ l.value := by
  induction items generalizing earlier running with
  | nil => exact within
  | cons item items ih =>
    simp only [scan]
    split
    case isTrue => exact within
    case isFalse free =>
      have room : running + 1 ≤ l.value := Nat.lt_of_not_le fun full => free (decide_eq_true full)
      split
      · exact ih within
      · split
        · exact ih within
        · exact ih room

theorem Run.limit_eq {limit : Option Limit} {events : List (Event K J)} {q : Queue K J}
    (run : Run limit events q) : q.limit = limit := by
  induction run with
  | start => rfl
  | submit _ _ _ ih => exact ih
  | release _ _ _ _ ih => exact ih

/-- No more jobs are counted as running than the limit allows. -/
theorem running_takeReady_le {l : Limit} {q : Queue K J} (limited : q.limit = some l)
    (within : q.running ≤ l.value) : (takeReady q).2.running ≤ l.value := by
  rw [takeReady, limited]
  exact running_scan_le within q.items

theorem Run.running_le {l : Limit} {events : List (Event K J)} {q : Queue K J}
    (run : Run (some l) events q) : q.running ≤ l.value := by
  induction run with
  | start => exact Nat.zero_le _
  | submit run _ _ ih => exact running_takeReady_le run.limit_eq ih
  | release run _ _ _ ih => exact running_takeReady_le run.limit_eq (Nat.le_trans (Nat.sub_le _ _) ih)

/-- As long as no sequence is handed out twice, exactly the marked jobs are counted as running. -/
theorem Run.running_eq {limit : Option Limit} {events : List (Event K J)} {q : Queue K J}
    (run : Run limit events q) (few : (submissions events).length < wordLimit) :
    q.running = (runningSequences q.items).length := by
  induction run with
  | start => rfl
  | @submit events q run key job ih =>
    have fewer : (submissions events).length < wordLimit := by
      simp only [submissions_append, List.length_append] at few
      omega
    rw [Queue.submit, running_takeReady, length_runningSequences_takeReady, ih fewer]
    simp [runningSequences]
  | @release events q run item present runs ih =>
    have fewer : (submissions events).length < wordLimit := by
      simp only [submissions_append, List.length_append] at few
      omega
    obtain ⟨front, back, split, erased⟩ :=
      exists_split_of_eraseP (run.books fewer).items_nodup present
    have counted := ih fewer
    rw [show item = item.running by rw [Item.running, ← runs]] at split
    rw [split, runningSequences_append, runningSequences_running, List.length_append,
      List.length_cons] at counted
    rw [Queue.release, running_takeReady, length_runningSequences_takeReady]
    simp only [erased, runningSequences_append, List.length_append]
    omega

/-- After every scan either as many jobs are counted as running as may run, or whatever waits is held. -/
theorem full_or_held {q : Queue K J} :
    isFull (takeReady q).2.limit (takeReady q).2.running = true ∨
      ∀ i, WaitsAt (takeReady q).2.items i → HeldAt (takeReady q).2.items i := by
  cases full : isFull (takeReady q).2.limit (takeReady q).2.running with
  | true => exact .inl rfl
  | false => exact .inr fun i waits => held_of_scan full waits

theorem Run.full_or_held {limit : Option Limit} {events : List (Event K J)} {q : Queue K J}
    (run : Run limit events q) :
    isFull q.limit q.running = true ∨ ∀ i, WaitsAt q.items i → HeldAt q.items i := by
  cases run with
  | start =>
    refine .inr fun i waits => ?_
    obtain ⟨item, there, -⟩ := waits
    contradiction
  | submit | release => exact Queue.full_or_held

/-- In whatever state a run leaves the queue, either as many jobs are counted as running as the limit
allows, which are the marked ones as long as no sequence is handed out twice, or every job that waits
conflicts with one in front of it; and the scans of the next submission and of every release hand
jobs out in order and let none past another that could start. -/
theorem waiting_jobs_held {limit : Option Limit} {events : List (Event K J)} {q : Queue K J}
    (run : Run limit events q) :
    ((∃ l, limit = some l ∧ q.running = l.value) ∨ ∀ i, WaitsAt q.items i → HeldAt q.items i) ∧
    ((submissions events).length < wordLimit → q.running = (runningSequences q.items).length) ∧
    (∀ (key : K) (job : J),
      Eager (q.items ++ [Submission.item ⟨q.nextSequence, key, job⟩]) (q.submit key job).2.items
        (q.submit key job).1) ∧
    ∀ sequence, Eager (q.items.eraseP fun item => item.sequence == sequence)
      (q.release sequence).2.items (q.release sequence).1 := by
  refine ⟨run.full_or_held.imp_left fun full => ?_, run.running_eq, eager_submit q,
    eager_release q⟩
  rw [run.limit_eq] at full
  cases limit with
  | none => contradiction
  | some l => exact ⟨l, rfl, Nat.le_antisymm run.running_le (of_decide_eq_true full)⟩

/-- A preparation waits for one of the same target, and one of another target is let past it. -/
theorem preparation_held : ∃ q : Queue Footprint Unit,
    Run none [.submitted ⟨0, .prepare (.ofList ["a"]), ()⟩, .started 0,
      .submitted ⟨1, .prepare (.ofList ["a"]), ()⟩] q ∧
    q.running = 1 ∧ (q.submit (.prepare (.ofList ["b"])) ()).1 = [⟨2, ()⟩] ∧
    HeldAt (q.submit (.prepare (.ofList ["b"])) ()).2.items 1 := by
  have empty : Run none [] (⟨none, 0, [], 0⟩ : Queue Footprint Unit) := .start
  have run := (empty.submit (.prepare (.ofList ["a"])) ()).submit (.prepare (.ofList ["a"])) ()
  obtain ⟨-, counted, submitted, -⟩ := waiting_jobs_held run
  have eager := submitted (.prepare (.ofList ["b"])) ()
  refine ⟨_, run, counted (by decide), eager.started, eager.overtaken 1 2 (by decide) ?_ ?_ ?_⟩
  · exact ⟨_, rfl, Option.some_ne_none ()⟩
  · exact ⟨_, rfl, rfl⟩
  · exact ⟨_, rfl, Option.some_ne_none ()⟩

end BuildServer.Queue
