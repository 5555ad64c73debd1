import BuildServer.Frame.Writer
import BuildServer.Protocol.Method
import BuildServer.Rpc.Message

/-!
# The connection to the client

Responses and notifications are framed onto a sink one at a time. A message that cannot be written
is lost, and so is every message after the connection is closed. Closing flushes the sink once.
-/

namespace BuildServer

open BuildServer.Frame Rpc

/-- Something to do with a connection. -/
inductive Delivery
  | response (r : Response)
  | notification (method : String) (params : Value)
  | close

/-- The message of a delivery; closing has none. -/
def Delivery.message? : Delivery → Option Message
  | .response r => some (.response r)
  | .notification method params => some (.notification ⟨method, params⟩)
  | .close => none

/-- The delivery that pushes a notification. -/
def Delivery.push {α : Type} [Schema α] (m : Protocol.NotificationMethod α) (params : α) :
    Delivery :=
  .notification m.name (.ofTyped params)

/-- A connection over a sink. -/
structure Connection where
  sink : Sink := {}
  closed : Bool := false

namespace Connection

/-- Writes a message unless the connection is closed; failures are not reported. -/
def send (c : Connection) (m : Message) : Connection :=
  if c.closed then c else { c with sink := (c.sink.writeFrame m.toBytes).2 }

/-- Closes the connection; once it is closed this does nothing. -/
def close (c : Connection) : Connection :=
  if c.closed then c else { sink := c.sink.flush.2, closed := true }

/-- Carries out a delivery. -/
def deliver (c : Connection) (d : Delivery) : Connection :=
  match d.message? with
  | some m => c.send m
  | none => c.close

@[simp] theorem closed_close (c : Connection) : c.close.closed = true := by
  rw [close]
  split
  · assumption
  · rfl

/-- Nothing is done to a connection that is closed. -/
theorem deliver_of_closed {c : Connection} (closed : c.closed = true) (d : Delivery) :
    c.deliver d = c := by
  cases d <;> simp [deliver, Delivery.message?, send, close, closed]

theorem foldl_deliver_of_closed {c : Connection} (closed : c.closed = true) (ds : List Delivery) :
    ds.foldl deliver c = c := by
  induction ds with
  | nil => rfl
  | cons d ds ih => rw [List.foldl_cons, deliver_of_closed closed, ih]

end Connection

end BuildServer
