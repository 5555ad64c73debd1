import BuildServer.Connection
import BuildServer.Proofs.Frame.RoundTrip
import BuildServer.Proofs.Rpc.RoundTrip

/-! # What is sent can be read

Many senders share a connection, and whoever gets hold of it next sends a message or closes it. What
is written is the frame of one message behind that of another, up to the first close, and nothing of
what comes behind it. A reader of the stream gets back the messages that were sent, in the order in
which their senders got hold of the connection.
-/

namespace BuildServer

open BuildServer.Frame Rpc

/-- The frame of a message. -/
def Rpc.Message.frame (m : Message) : List UInt8 := ofPayload m.toBytes

/-- A message whose payload says all that there is to it, short of error data that is null: it is not
nested too deep, and it has only floats that are finite and each read back alone. -/
structure Rpc.Message.Legible (m : Message) : Prop where
  ordered : ∀ v ∈ m.values, v.Ordered
  shallow : m.toValue.nesting ≤ 127
  readBack : ∀ x ∈ m.toValue.floats,
    x.isFinite = true ∧ Value.decode (Value.encode (.float x)) = .ok (.float x)

/-- The messages that are sent before the first close. -/
def Delivery.sent : List Delivery → List Message
  | [] => []
  | d :: ds =>
    match d.message? with
    | some m => m :: sent ds
    | none => []

/-- The messages of a stream, up to its end or the first frame that cannot be read. -/
def Frame.readMessages (limit : Nat) (s : List UInt8) :
    List (Except MessageError Message) × Except FrameError Unit :=
  ((readAll limit s).1.map Message.ofBytes, (readAll limit s).2)

theorem Rpc.Message.Legible.read {m : Message} (legible : m.Legible) :
    Message.ofBytes m.toBytes = .ok m.received := by
  obtain ⟨ordered, shallow, readBack⟩ := legible
  rw [Message.ofBytes, Message.toBytes,
    Value.decode_encode_of_finite (Message.ordered_toValue ordered) shallow readBack]
  exact Message.ofValue_toValue m

/-- Messages are read back from their frames one by one. -/
theorem Frame.readMessages_frames {limit : Nat} (addressable : limit < wordLimit) {ms : List Message}
    (legible : ∀ m ∈ ms, m.Legible) (within : ∀ m ∈ ms, m.toBytes.length ≤ limit) :
    readMessages limit (ms.flatMap Message.frame) = (ms.map fun m => .ok m.received, .ok ()) := by
  have payloads : ∀ payload ∈ ms.map Message.toBytes, payload.length ≤ limit :=
    List.forall_mem_map.mpr within
  have stream : ms.flatMap Message.frame = (ms.map Message.toBytes).flatMap ofPayload ++ [] := by
    rw [List.flatMap_map, List.append_nil]
    rfl
  rw [readMessages, stream, readAll_append addressable payloads, readAll_nil, List.append_nil,
    List.map_map]
  exact congrArg (·, _) (List.map_congr_left fun m member => (legible m member).read)

namespace Connection

variable {c : Connection}

section Open

variable (opened : c.closed = false) (unbounded : c.sink.budget = none)
  (flushed : c.sink.flushFails = false)

include opened unbounded flushed

/-- A message that is sent over an open connection is written at the end. -/
theorem send_unbounded (m : Message) : c.send m = { c with
    sink := { c.sink with written := c.sink.written ++ m.frame, flushes := c.sink.flushes + 1 } } := by
  rw [send, if_neg (by rw [opened]; exact Bool.false_ne_true),
    Sink.writeFrame_unbounded unbounded flushed]
  rfl

/-- What is written is the frames of the messages that are sent before the first close: closing flushes
the sink, and neither that nor anything behind it writes. -/
theorem written_deliveries (ds : List Delivery) : (ds.foldl deliver c).sink.written =
    c.sink.written ++ (Delivery.sent ds).flatMap Message.frame := by
  induction ds generalizing c with
  | nil => exact (List.append_nil _).symm
  | cons d ds ih =>
    rw [List.foldl_cons, deliver, Delivery.sent]
    cases d.message? with
    | some m =>
      dsimp only
      rw [send_unbounded opened unbounded flushed m, List.flatMap_cons, ← List.append_assoc]
      exact ih opened unbounded flushed
    | none =>
      dsimp only
      rw [foldl_deliver_of_closed (closed_close c), close,
        if_neg (by rw [opened]; exact Bool.false_ne_true)]
      exact (List.append_nil _).symm

end Open

/-- Whatever is delivered behind a close makes no difference, another close included. -/
theorem foldl_deliver_close (c : Connection) (first second : List Delivery) :
    (first ++ Delivery.close :: second).foldl deliver c =
      (first ++ [Delivery.close]).foldl deliver c := by
  rw [List.append_cons, List.foldl_append]
  refine foldl_deliver_of_closed ?_ second
  rw [List.foldl_append]
  exact closed_close _

/-- Over a sink that never fails, an open connection writes just the frames of the messages that are
sent before the first close, whoever sends them, and nothing makes a difference from then on. A
reader with a limit that no payload exceeds gets back all these messages and then finds the end of the
stream. Only data of an error that is null comes back as no data. -/
theorem deliveries_read_back (opened : c.closed = false) (unbounded : c.sink.budget = none)
    (flushed : c.sink.flushFails = false) (ds : List Delivery) :
    (ds.foldl deliver c).sink.written =
      c.sink.written ++ (Delivery.sent ds).flatMap Message.frame ∧
    (∀ first second, ds = first ++ .close :: second →
      ds.foldl deliver c = (first ++ [Delivery.close]).foldl deliver c) ∧
    ∀ limit < wordLimit,
      (∀ m ∈ Delivery.sent ds, m.Legible) →
      (∀ m ∈ Delivery.sent ds, m.toBytes.length ≤ limit) →
      readMessages limit ((Delivery.sent ds).flatMap Message.frame) =
        ((Delivery.sent ds).map fun m => .ok m.received, .ok ()) ∧
      ((∀ id e, .response ⟨id, .error e⟩ ∈ Delivery.sent ds → e.data ≠ some .null) →
        readMessages limit ((Delivery.sent ds).flatMap Message.frame) =
          ((Delivery.sent ds).map .ok, .ok ())) := by
  refine ⟨written_deliveries opened unbounded flushed ds, ?_, fun limit addressable legible within => ?_⟩
  · rintro first second rfl
    exact foldl_deliver_close c first second
  · have read := readMessages_frames addressable legible within
    refine ⟨read, fun kept => ?_⟩
    rw [read]
    refine congrArg (·, _) (List.map_congr_left fun m member => ?_)
    rw [Message.received_eq_self fun id e same => kept id e (same ▸ member)]

/-- An answer and a push, and an answer that comes too late because of a close. -/
def sampleDeliveries : List Delivery :=
  [.response ⟨some (.number 1), .result (.list [.int 2, .string "\r\n"])⟩,
    .notification "m" (.map [("k", .string "é")]), .close,
    .response ⟨some (.text "a"), .error (.methodNotFound "m")⟩, .close]

/-- A reader finds the end of the stream where the connection was closed. -/
theorem sample_deliveries_read_back :
    readMessages 64 (sampleDeliveries.foldl deliver {}).sink.written =
      ((sampleDeliveries.take 2).filterMap fun d => d.message?.map .ok, .ok ()) := by
  have legible : ∀ m ∈ Delivery.sent sampleDeliveries, m.Legible := by
    refine List.forall_mem_cons.mpr ⟨⟨?_, by decide, List.forall_mem_nil _⟩,
      List.forall_mem_singleton.mpr ⟨?_, by decide, List.forall_mem_nil _⟩⟩
    · exact List.forall_mem_singleton.mpr ⟨trivial, trivial, trivial⟩
    · exact List.forall_mem_singleton.mpr ⟨List.pairwise_singleton _ _, trivial, trivial⟩
  have within : ∀ m ∈ Delivery.sent sampleDeliveries, m.toBytes.length ≤ 64 := by decide
  obtain ⟨written, -, read⟩ := deliveries_read_back (c := {}) rfl rfl rfl sampleDeliveries
  rw [written]
  refine (read 64 (by decide) legible within).2 fun id e sent => ?_
  simp [Delivery.sent, sampleDeliveries, Delivery.message?] at sent

end Connection

end BuildServer
