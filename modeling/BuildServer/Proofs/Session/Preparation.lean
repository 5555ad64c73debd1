import BuildServer.Proofs.Session.Precedence

/-! # Preparations that run together have no target in common

Jobs that run together do not conflict, whichever of them is the later one. As preparations conflict
where a URI is named by both, what the queue keeps apart are those that share a target.
-/

namespace BuildServer

open Backend Protocol Rpc

namespace Session

open Queue Footprint

section Run

variable {settings : Settings} {hasObserver : Bool} {moves : List Move} {s : Session}
  (run : (start settings hasObserver).run? moves = some s)

include run

/-- Of two jobs that run, whichever is the later one, neither conflicts with the other. -/
theorem running_free : s.queue.items.Pairwise fun a b => a.job = none → b.job = none →
    conflictsWith a.key b.key = false ∧ conflictsWith b.key a.key = false := by
  refine (ordered_of_run? run).clear.imp fun {a b} free _ runs => ?_
  rw [conflictsWith_comm a.key b.key]
  exact ⟨free runs, free runs⟩

/-- Of two messages whose jobs are carried out, the later one does not conflict with the earlier one. -/
theorem working_free (few : (messages moves).length < wordLimit) {i j : Nat} (earlier : i < j)
    (first : i ∈ working s.threads) (second : j ∈ working s.threads) {f g : Footprint} {a b : Job}
    (isFirst : jobAt? s.version (messages moves) i = some (f, a))
    (isSecond : jobAt? s.version (messages moves) j = some (g, b)) : conflictsWith g f = false := by
  by_contra conflict
  have past := (conflict_over run earlier isFirst isSecond second few
    (eq_true_of_ne_false conflict)).1
  exact past (mem_underway.mpr (.inr first))

end Run

/-- The conflicts of messages are symmetric, and two lists of targets make keys that conflict exactly
if some URI is in both. Hence in every state of every session no two items of the queue that run are
preparations of a common target; and as long as no sequence is handed out twice, which tells jobs that
threads carry out by their items, no two requests that are being carried out prepare a common target. -/
theorem running_preparations_apart :
    (∀ a b : Footprint, conflictsWith a b = conflictsWith b a) ∧
    (∀ ts us : List TargetId, conflictsWith (ofTargets ts) (ofTargets us) = true ↔
      ∃ t ∈ ts, ∃ u ∈ us, t.uri.text = u.uri.text) ∧
    ∀ (settings : Settings) (hasObserver : Bool) (moves : List Move) (s : Session),
      (start settings hasObserver).run? moves = some s →
      (s.queue.items.Pairwise fun a b => a.job = none → b.job = none →
        ∀ ts us, a.key = ofTargets ts → b.key = ofTargets us → Apart ts us) ∧
      ((messages moves).length < wordLimit →
        ∀ i ∈ working s.threads, ∀ j ∈ working s.threads, i ≠ j →
          ∀ ts us, AsksToPrepare (messages moves) i ts → AsksToPrepare (messages moves) j us →
            Apart ts us) := by
  refine ⟨conflictsWith_comm, fun _ _ => conflictsWith_ofTargets, ?_⟩
  intro settings hasObserver moves s run
  refine ⟨(running_free run).imp fun {a b} free first second ts us key other => ?_, ?_⟩
  · rw [apart_iff, ← key, ← other]
    exact (free first second).1
  · intro few i first j second different ts us asks asksToo
    obtain ⟨a, isFirst⟩ := asks.jobAt? s.version
    obtain ⟨b, isSecond⟩ := asksToo.jobAt? s.version
    rw [apart_iff]
    rcases Nat.lt_or_gt_of_ne different with earlier | later
    · rw [conflictsWith_comm]
      exact working_free run few earlier first second isFirst isSecond
    · exact working_free run few later second first isSecond isFirst

/-- A request to prepare one target, by its URI. -/
def samplePreparation (id : Int64) (uri : String) : Message :=
  .request ⟨.number id, "buildTarget/prepare",
    .map [("targets", .list [.map [("uri", .string uri)]])]⟩

/-- Of three preparations the first and the third are being carried out, while the second one waits for
the first. -/
theorem sample_preparations_apart : ∃ (s : Session) (a b : Uri),
    (start .default false).run? [.receive (samplePreparation 1 "target://a"),
      .receive (samplePreparation 2 "target://a"), .receive (samplePreparation 3 "target://b")] =
      some s ∧ working s.threads = [0, 2] ∧ a.text = "target://a" ∧ b.text = "target://b" ∧
    Apart [⟨a⟩] [⟨b⟩] := by
  have run : (start .default false).run? [.receive (samplePreparation 1 "target://a"),
      .receive (samplePreparation 2 "target://a"), .receive (samplePreparation 3 "target://b")] =
      some _ := rfl
  obtain ⟨-, threads⟩ := running_preparations_apart.2.2 _ _ _ _ run
  refine ⟨_, ⟨"target://a", by decide +kernel⟩, ⟨"target://b", by decide +kernel⟩, run, rfl, rfl, rfl,
    ?_⟩
  exact threads (by decide) 0 (by decide) 2 (by decide) (by decide) _ _ ⟨_, _, rfl, rfl, rfl⟩
    ⟨_, _, rfl, rfl, rfl⟩

end Session

end BuildServer
