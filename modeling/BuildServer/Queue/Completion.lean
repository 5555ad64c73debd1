import BuildServer.Queue.Basic

/-!
# Completions

A completion brings the result of a job to whoever submitted it, once. A job that ends without a
result abandons its completion, and a completion whose result has been taken is abandoned too.
-/

namespace BuildServer

/-- What is known of the result of a job. -/
inductive Completion (α : Type)
  | pending
  | finished (a : α)
  | abandoned
  deriving DecidableEq

/-- Why a completion has no result. -/
inductive QueueError
  | abandoned
  deriving DecidableEq

/-- The wording of a failure. -/
def QueueError.message : QueueError → String
  | .abandoned => "queued job ended without producing a result"

namespace Completion

variable {α : Type}

/-- The completion of a job that has ended, with its result if it has one. -/
def ofEnding : Option α → Completion α
  | some a => .finished a
  | none => .abandoned

/-- Takes the result if it is there; nothing while the job has not ended. -/
def poll : Completion α → Except QueueError (Option α) × Completion α
  | .pending => (.ok none, .pending)
  | .finished a => (.ok (some a), .abandoned)
  | .abandoned => (.error .abandoned, .abandoned)

/-- The result that waiting brings; nothing if there is still something to wait for. -/
def wait? : Completion α → Option (Except QueueError α)
  | .pending => none
  | .finished a => some (.ok a)
  | .abandoned => some (.error .abandoned)

end Completion

/-- A queue, the jobs that are being carried out and the completions of all jobs by sequence. -/
structure Work (K J α : Type) where
  queue : Queue K J
  active : List (Started J) := []
  completions : List (UInt64 × Completion α) := []

namespace Work

variable {K J α : Type}

/-- Submits a job under a key; returns its sequence and which jobs start. -/
def submit [Dependency K] (w : Work K J α) (key : K) (job : J) :
    UInt64 × List (Started J) × Work K J α :=
  let sequence := w.queue.nextSequence
  let (started, queue) := w.queue.submit key job
  (sequence, started,
    ⟨queue, w.active ++ started, w.completions ++ [(sequence, .pending)]⟩)

/-- Ends an active job, with its result if it has one; returns which jobs start. -/
def finish [Dependency K] (w : Work K J α) (sequence : UInt64) (ending : Option α) :
    List (Started J) × Work K J α :=
  let (started, queue) := w.queue.release sequence
  (started,
    { queue
      active := w.active.eraseP (fun s => s.sequence == sequence) ++ started
      completions := w.completions.map fun c =>
        if c.1 = sequence then (c.1, .ofEnding ending) else c })

/-- What is known of the result of a job. -/
def completion? (w : Work K J α) (sequence : UInt64) : Option (Completion α) :=
  w.completions.lookup sequence

/-- Puts what is left of a completion in its place. -/
def setCompletion (w : Work K J α) (sequence : UInt64) (c : Completion α) : Work K J α :=
  { w with completions := w.completions.map fun d => if d.1 = sequence then (d.1, c) else d }

end Work

end BuildServer
