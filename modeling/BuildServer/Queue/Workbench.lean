import BuildServer.Queue.Completion
import BuildServer.Session.Footprint

/-!
# The workbench

A queue whose jobs are held once they have started, so that every schedule can be played out by
hand. Jobs have names. A job that is let go first submits its child, if it has one, and then ends:
it panics or has a result made of its name. Its completion is kept under its name unless it is
detached.
-/

namespace BuildServer

/-- A key of the workbench: that of a message, or tags that are met with the tags of others. -/
inductive BenchKey
  | message (f : Footprint)
  | tagged (tags waits : List String)

/-- A tagged job waits for those that have a tag it waits for; messages and tags never meet. -/
instance : Dependency BenchKey where
  conflictsWith
    | .message a, .message b => conflictsWith a b
    | .tagged _ waits, .tagged tags _ => waits.any tags.contains
    | _, _ => false

/-- A job of the workbench. -/
inductive Assignment
  | mk (name : String) (key : BenchKey) (panics detached : Bool) (child : Option Assignment)

namespace Assignment

def name : Assignment → String
  | mk name _ _ _ _ => name

def key : Assignment → BenchKey
  | mk _ key _ _ _ => key

def detached : Assignment → Bool
  | mk _ _ _ detached _ => detached

def child : Assignment → Option Assignment
  | mk _ _ _ _ child => child

/-- How many jobs there are, with those that are submitted on the way. -/
def size : Assignment → Nat
  | mk _ _ _ _ none => 1
  | mk _ _ _ _ (some child) => 1 + child.size

/-- The result of the job, unless it panics. -/
def result? : Assignment → Option String
  | mk name _ panics _ _ => if panics then none else some (name ++ " done")

end Assignment

/-- A queue of held jobs, the completions kept by name, which jobs have started since the last
report, which have ended, and how many of those have been reported. -/
structure Workbench where
  work : Work BenchKey Assignment String
  kept : List (String × UInt64) := []
  started : List (Started String) := []
  finished : List String := []
  reported : Nat := 0

/-- What happened since the last report, and how many jobs wait and run. -/
structure BenchReport where
  started : List String
  finished : List String
  pending : Nat
  running : Nat

/-- What a job's completion was found to be. -/
inductive Finding
  | noCompletion
  | unfinished
  | found (result : Except QueueError (Option String))

namespace Workbench

/-- A workbench without jobs. -/
def empty (limit : Option Limit) : Workbench := { work := { queue := { limit } } }

/-- Notes which jobs have started. -/
def noteStarted (b : Workbench) (started : List (Started Assignment)) : Workbench :=
  { b with started := b.started ++ started.map fun s => ⟨s.sequence, s.job.name⟩ }

/-- Submits a job. -/
def submit (b : Workbench) (a : Assignment) : Workbench :=
  let (sequence, started, work) := b.work.submit a.key a
  let kept := if a.detached then b.kept else b.kept.filter (·.1 != a.name) ++ [(a.name, sequence)]
  noteStarted { b with work, kept } started

/-- Lets a held job go. -/
def letGo (b : Workbench) (held : Started Assignment) : Workbench :=
  let b := match held.job.child with
    | some child => b.submit child
    | none => b
  let (started, work) := b.work.finish held.sequence held.job.result?
  noteStarted { b with work, finished := b.finished ++ [held.job.name] } started

/-- The held job of a name. -/
def held? (b : Workbench) (name : String) : Option (Started Assignment) :=
  b.work.active.find? fun s => s.job.name == name

/-- The held job that was submitted first. -/
def earliest? (b : Workbench) : Option (Started Assignment) :=
  b.work.active.foldl (fun best s => match best with
    | some t => if s.sequence < t.sequence then some s else some t
    | none => some s) none

/-- Takes what there is of the result of a kept completion. -/
def poll (b : Workbench) (name : String) : Finding × Workbench :=
  match b.kept.lookup name with
  | none => (.noCompletion, b)
  | some sequence =>
    match b.work.completion? sequence with
    | none => (.noCompletion, b)
    | some c =>
      let (result, left) := c.poll
      (.found result, { b with work := b.work.setCompletion sequence left })

/-- Takes the result of a job that has ended, and gives up its completion. -/
def wait (b : Workbench) (name : String) : Finding × Workbench :=
  if !b.finished.contains name then (.unfinished, b)
  else match ((b.kept.lookup name).bind b.work.completion?).bind Completion.wait? with
    | none => (.noCompletion, b)
    | some result => (.found (result.map some), { b with kept := b.kept.filter (·.1 != name) })

/-- Reports what has happened. -/
def report (b : Workbench) : BenchReport × Workbench :=
  let inOrder := b.started.mergeSort fun s t => s.sequence ≤ t.sequence
  ({ started := inOrder.map (·.job)
     finished := b.finished.drop b.reported
     pending := b.work.queue.pendingCount
     running := b.work.queue.running },
    { b with started := [], reported := b.finished.length })

/-- How many jobs have not ended, with those that are yet to be submitted. -/
def outstanding (b : Workbench) : Nat :=
  let jobs := b.work.active.map (·.job) ++ b.work.queue.items.filterMap (·.job)
  jobs.foldl (fun n a => n + a.size) 0

/-- Lets held jobs go, earliest first, the given number of times. -/
def letGoTimes : Nat → Workbench → Workbench
  | 0, b => b
  | n + 1, b =>
    match b.earliest? with
    | some held => letGoTimes n (b.letGo held)
    | none => b

/-- Lets held jobs go until none is left; each of them leaves one less outstanding. -/
def drain (b : Workbench) : Workbench := letGoTimes b.outstanding b

end Workbench

end BuildServer
