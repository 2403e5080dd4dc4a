import Networker.BufferArrivals
import Networker.ShutdownOrder

/-!
Two connections at the ends of one TCP stream. What one of them writes, the
kernel brings to the other in order and in pieces of its own choosing; each end
runs as its own loop and its own threads make it.
-/

namespace Networker

open CheckedRuns

/-- What one `readv` of `readFd` takes of the bytes that have come in. -/
def Buffer.taken (b : Buffer) (result : Buffer.ReadResult) : List UInt8 :=
  result.bytes.take (b.writableBytes + if b.writableBytes < extrabufSize then extrabufSize else 0)

def Event.isShutdownWrite : Event → Bool
  | .shutdownWrite _ _ _ => true
  | .shutdownInLoop | .connectionCallback _ | .handleClose _ | .closeCallback | .removeConnection
  | .messageCallback _ | .remove _ _ | .writeCompleteCallback | .highWaterMarkCallback _ => false

namespace TcpConnection

/-- The write half of the socket has been shut down. -/
def finished (c : TcpConnection) : Bool := c.trace.any Event.isShutdownWrite

/-- The messages given to `sendInLoop` and not dropped, in order. -/
def kept (c : TcpConnection) : List (List UInt8) := (c.handed.filter fun m => m.2 = .kept).map Prod.fst

/-- The bytes a step reads from the socket. -/
def arrived (c : TcpConnection) : Step → List UInt8
  | .task r _ => if c.tasks.head? = some (.channel .read) then c.inputBuffer.taken r else []
  | .call _ _ | .event _ | .delayedClose | .removeConnection | .doPendingFunctors | .functor _ | .destroy => []

/-- The bytes a step takes out of the input buffer. -/
def retrieved (c : TcpConnection) : Step → List UInt8
  | .call _ (.retrieveInput len) => c.inputBuffer.readable.take len
  | .call _ _ | .task _ _ | .event _ | .delayedClose | .removeConnection | .doPendingFunctors | .functor _
  | .destroy => []

/-- A step finds the end of the stream: `readv` returns 0. -/
def endsInput (c : TcpConnection) : Step → Bool
  | .task r _ => decide (c.tasks.head? = some (.channel .read) ∧ r = .read [])
  | .call _ _ | .event _ | .delayedClose | .removeConnection | .doPendingFunctors | .functor _ | .destroy => false

/-- The answer of `write(2)` in a step that may write. -/
def Step.write : Step → Option WriteResult
  | .call _ (.send _ w) | .task _ w | .functor w => some w
  | .call _ _ | .event _ | .delayedClose | .removeConnection | .doPendingFunctors | .destroy => none

end TcpConnection

structure Endpoint where
  conn : TcpConnection
  /-- the destructor has closed the socket -/
  closed : Bool := false
  /-- record: the bytes `readv` has returned here -/
  received : List UInt8 := []
  /-- record: the bytes taken out of the input buffer -/
  consumed : List UInt8 := []
  /-- record: `readv` has returned 0 here -/
  eof : Bool := false

namespace Endpoint

/-- The bytes on their way to `e`. -/
def inFlight (e peer : Endpoint) : List UInt8 := peer.conn.accepted.drop e.received.length

/-- `readv` takes from the bytes on their way, and returns 0 where none will follow; it may fail at any time. -/
def Reads (e peer : Endpoint) : Buffer.ReadResult → Prop
  | .read bytes => bytes <+: e.inFlight peer ∧
      (bytes = [] → e.inFlight peer = [] ∧ (peer.conn.finished = true ∨ peer.closed = true))
  | .failed _ => True

instance (e peer : Endpoint) : (r : Buffer.ReadResult) → Decidable (e.Reads peer r)
  | .read _ => inferInstanceAs (Decidable (_ ∧ (_ → _ ∧ _)))
  | .failed _ => inferInstanceAs (Decidable True)

/-- What the kernel answers a step of `e`. Nothing can be written once the write half is shut down. -/
def Answers (e peer : Endpoint) (s : TcpConnection.Step) : Prop :=
  (∀ w ∈ s.write, e.conn.finished = true → w = .failed .EPIPE) ∧
    match s with
    | .task r _ => e.conn.tasks.head? = some (.channel .read) → e.Reads peer r
    | .call _ _ | .event _ | .delayedClose | .removeConnection | .doPendingFunctors | .functor _ | .destroy => True

instance (e peer : Endpoint) (s : TcpConnection.Step) : Decidable (e.Answers peer s) :=
  match s with
  | .task _ _ => inferInstanceAs (Decidable ((∀ w ∈ _, _ → _) ∧ (_ → _)))
  | .call _ _ | .event _ | .delayedClose | .removeConnection | .doPendingFunctors | .functor _ | .destroy =>
    inferInstanceAs (Decidable ((∀ w ∈ _, _ → _) ∧ True))

variable [Build]

def step (e : Endpoint) (s : TcpConnection.Step) : Exec Endpoint := do
  let conn ← e.conn.step s
  .ok { e with
    conn
    received := e.received ++ e.conn.arrived s
    consumed := e.consumed ++ e.conn.retrieved s
    eof := e.eof || e.conn.endsInput s }

/-- `~TcpConnection`, whose member `socket_` closes the descriptor. -/
def close (e : Endpoint) : Exec Endpoint := do
  assert (e.conn.state = .kDisconnected)
  .ok { e with closed := true }

end Endpoint

inductive Side
  | left
  | right
deriving DecidableEq, Repr

def Side.peer : Side → Side
  | .left => .right
  | .right => .left

theorem Side.peer_ne (s : Side) : s.peer ≠ s := by cases s <;> decide

@[simp] theorem Side.peer_peer (s : Side) : s.peer.peer = s := by cases s <;> rfl

theorem Side.eq_or (s t : Side) : s = t ∨ s = t.peer := by cases s <;> cases t <;> decide

abbrev SocketPair := Side → Endpoint

namespace SocketPair

inductive Step
  | conn (side : Side) (s : TcpConnection.Step)
  | close (side : Side)
deriving DecidableEq, Repr

def step [Build] (p : SocketPair) : Step → Exec SocketPair
  | .conn side s => (p side).step s >>= fun e => .ok (Function.update p side e)
  | .close side => (p side).close >>= fun e => .ok (Function.update p side e)

/-- A destroyed connection takes no more steps; it is destroyed once, down and out of its loop's poller. -/
def Enabled (p : SocketPair) : Step → Prop
  | .conn side s => (p side).closed = false ∧ (p side).conn.Enabled s ∧ (p side).Answers (p side.peer) s
  | .close side => (p side).closed = false ∧ (p side).conn.state = .kDisconnected ∧
      (p side).conn.channel.index = EPollPoller.kNew

instance (p : SocketPair) : (s : Step) → Decidable (p.Enabled s)
  | .conn _ _ => inferInstanceAs (Decidable (_ ∧ _ ∧ _))
  | .close _ => inferInstanceAs (Decidable (_ ∧ _ ∧ _))

def established (c : Side → TcpConnection) : SocketPair := fun side => { conn := c side }

end SocketPair

end Networker
