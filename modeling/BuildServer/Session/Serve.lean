import BuildServer.Frame.Reader
import BuildServer.Session.Rehearsal

/-!
# Serving a stream

Frames are read from a stream and their messages handed to a session until the session is closed,
the stream ends or a frame cannot be read. A payload that is no message is skipped. After the
message that the client is gone the session is drained, so that it is known whether it has closed.
-/

namespace BuildServer

open BuildServer.Frame Protocol Rpc

/-- Whoever messages are handed to. -/
structure Receiver (σ : Type) where
  isClosed : σ → Bool
  receive : σ → Message → σ
  drain : σ → σ

/-- Whether a message says that the client is gone, whatever its parameters. -/
def isExitMessage : Message → Bool
  | .notification n => n.method == Method.exit.name
  | _ => false

namespace Receiver

variable {σ : Type}

/-- Takes in a payload. -/
def take (r : Receiver σ) (s : σ) (payload : List UInt8) : σ :=
  match Message.ofBytes payload with
  | .error _ => s
  | .ok m => if isExitMessage m then r.drain (r.receive s m) else r.receive s m

/-- Serves a stream. -/
def serve (r : Receiver σ) (limit : Nat) (s : σ) (stream : List UInt8) :
    Except FrameError Unit × σ :=
  if r.isClosed s then (.ok (), s)
  else
    match h : Frame.read limit stream with
    | (.error e, _) => (.error e, s)
    | (.ok none, _) => (.ok (), s)
    | (.ok (some payload), rest) =>
      have : rest.length < stream.length := length_read_lt h
      r.serve limit (r.take s payload) rest
  termination_by stream.length

end Receiver

namespace Rehearsal

/-- A rehearsal takes in messages. -/
def receiver : Receiver Rehearsal where
  isClosed r := r.session.closeClaimed
  receive := Rehearsal.receive
  drain := Rehearsal.drain

end Rehearsal

namespace Session

/-- The connection after everything that the session has done to it. -/
def connection (s : Session) (c : Connection) : Connection :=
  (s.events.filterMap Event.delivery?).foldl Connection.deliver c

end Session

end BuildServer
