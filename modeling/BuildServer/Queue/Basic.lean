import BuildServer.Limit
import BuildServer.Text.Basic

/-!
# The queue

Jobs are submitted in an order and kept in it until they end. A job may start once no job submitted
before it whose key it conflicts with is left, be that one waiting or running. Each submission and
each release looks through the waiting jobs from the front and starts every one that may start, as
far as the limit allows; a job that has to wait does not hold up those behind it.

Conflicts are asked of the later job about the earlier one only, so they need not be symmetric.
-/

namespace BuildServer

/-- Keys that tell which earlier jobs a job has to wait for. -/
class Dependency (K : Type) where
  conflictsWith (later earlier : K) : Bool

export Dependency (conflictsWith)

/-- A submitted job; the job itself is handed out when it starts. -/
structure Item (K J : Type) where
  sequence : UInt64
  key : K
  job : Option J

/-- A job on its way to being carried out. -/
structure Started (J : Type) where
  sequence : UInt64
  job : J

/-- Jobs in the order of their submission, and how many of them are running. -/
structure Queue (K J : Type) where
  limit : Option Limit := none
  nextSequence : UInt64 := 0
  items : List (Item K J) := []
  running : Nat := 0

namespace Queue

variable {K J : Type}

/-- Whether no more than the given number of jobs may run. -/
def isFull (limit : Option Limit) (running : Nat) : Bool :=
  match limit with
  | none => false
  | some l => decide (l.value ≤ running)

/-- What looking through the items gives: the items, how many run now and which have started. -/
structure Scan (K J : Type) where
  items : List (Item K J)
  running : Nat
  started : List (Started J)

/-- Puts an item that is left as it is in front. -/
def Scan.keep (item : Item K J) (s : Scan K J) : Scan K J := { s with items := item :: s.items }

/-- Puts an item whose job starts in front. -/
def Scan.start (item : Item K J) (job : J) (s : Scan K J) : Scan K J :=
  { s with
    items := { item with job := none } :: s.items
    started := ⟨item.sequence, job⟩ :: s.started }

/-- Starts every waiting item that may start; `earlier` are the keys in front of the items. -/
def scan [Dependency K] (limit : Option Limit) (earlier : List K) (running : Nat) :
    List (Item K J) → Scan K J
  | [] => ⟨[], running, []⟩
  | item :: rest =>
    if isFull limit running then ⟨item :: rest, running, []⟩
    else match item.job with
      | none => (scan limit (item.key :: earlier) running rest).keep item
      | some job =>
        if earlier.any (conflictsWith item.key) then
          (scan limit (item.key :: earlier) running rest).keep item
        else (scan limit (item.key :: earlier) (running + 1) rest).start item job

/-- Starts what may start. -/
def takeReady [Dependency K] (q : Queue K J) : List (Started J) × Queue K J :=
  let s := scan q.limit [] q.running q.items
  (s.started, { q with items := s.items, running := s.running })

/-- Adds a job behind all others. -/
def submit [Dependency K] (q : Queue K J) (key : K) (job : J) : List (Started J) × Queue K J :=
  takeReady { q with
    nextSequence := q.nextSequence + 1, items := q.items ++ [⟨q.nextSequence, key, some job⟩] }

/-- Removes a job that has ended. -/
def release [Dependency K] (q : Queue K J) (sequence : UInt64) : List (Started J) × Queue K J :=
  takeReady { q with
    items := q.items.eraseP fun item => item.sequence == sequence, running := q.running - 1 }

/-- How many jobs have not started. -/
def pendingCount (q : Queue K J) : Nat := q.items.length - q.running

/-- Whether every job has ended. -/
def isIdle (q : Queue K J) : Bool := q.items.isEmpty

/-- The wording of a limit. -/
def describeLimit : Option Limit → String
  | none => "None"
  | some l => "Some(" ++ toString l.value ++ ")"

/-- The wording of a queue: its counts and its limit. -/
def describe (q : Queue K J) : String :=
  "MessageQueue \x7b queued: " ++ toString q.items.length ++ ", running: " ++ toString q.running ++
    ", limit: " ++ describeLimit q.limit ++ " \x7d"

end Queue

end BuildServer
