import Networker.ChannelModel
import Networker.StringPieceModel

/-!
`net/TcpConnection.cpp` with the part of `net/EventLoop.cpp` it relies on: the
functor queue of the connection's loop and the calls other threads make.

A handler of the source that invokes a user callback is split there. What it
does after the callback returns is kept in `tasks`, so that the calls the user
code makes come in between as steps of their own. Fields whose comment says so
only record what happened.
-/

namespace Networker

open CheckedRuns

inductive StateE
  | kDisconnected
  | kConnecting
  | kConnected
  | kDisconnecting
deriving DecidableEq, Repr

inductive Errno
  | EWOULDBLOCK
  | EPIPE
  | ECONNRESET
  | other (code : ℕ)
deriving DecidableEq, Repr

/-- The outcome of one `write(2)`: of `count` bytes the kernel accepts `min n count`, or it fails. -/
inductive WriteResult
  | wrote (n : ℕ)
  | failed (errno : Errno)
deriving DecidableEq, Repr

/-- The functors a connection binds for its loop; the message of `sendInLoop` is a bound `std::string`. -/
inductive Functor
  | sendInLoop (message : List UInt8)
  | shutdownInLoop
  | forceCloseInLoop
  | startReadInLoop
  | connectDestroyed
  | writeCompleteCallback
  | highWaterMarkCallback (size : ℕ)
deriving DecidableEq, Repr

/-- What the loop thread still has to run of a handler. -/
inductive Task
  | channel (callback : Channel.Callback)
  | closeCallback
  | remove
deriving DecidableEq, Repr

inductive Event
  | connectionCallback (connected : Bool)
  | handleClose (state : StateE)
  | closeCallback
  | removeConnection
  | messageCallback (n : ℤ)
  | shutdownInLoop
  | shutdownWrite (state : StateE) (queued accepted : List UInt8)
  | remove (noneEvent registered : Bool)
  | writeCompleteCallback
  | highWaterMarkCallback (size : ℕ)
deriving DecidableEq, Repr

/-- What `sendInLoop` did with a message: kept it, dropped it after `EPIPE` or `ECONNRESET`, or gave up
because the connection was down. -/
inductive Fate
  | kept
  | dropped
  | refused
deriving DecidableEq, Repr

structure TcpConnection where
  state : StateE := .kConnecting
  reading : Bool := true
  channel : Channel
  inputBuffer : Buffer
  outputBuffer : Buffer
  highWaterMark : ℕ := 64 * 1024 * 1024
  /-- whether `writeCompleteCallback_` is set -/
  writeComplete : Bool := false
  /-- whether `highWaterMarkCallback_` is set -/
  highWater : Bool := false
  pendingFunctors : List Functor := []
  /-- the rest of the batch `doPendingFunctors` has swapped out, while `callingPendingFunctors_` -/
  functors : Option (List Functor) := none
  tasks : List Task := []
  /-- timers of `forceCloseWithDelay` that have not fired -/
  delayedCloses : ℕ := 0
  /-- the bytes `write(2)` has accepted on the socket -/
  accepted : List UInt8 := []
  /-- record: the messages of `send` calls that found the connection up, in call order -/
  sent : List (List UInt8) := []
  /-- record: the messages passed to `sendInLoop(const void*, size_t)`, in call order -/
  handed : List (List UInt8 × Fate) := []
  /-- record: what happened, in order -/
  trace : List Event := []
deriving DecidableEq, Repr

namespace TcpConnection

def live (c : TcpConnection) : Prop := c.state = .kConnected ∨ c.state = .kDisconnecting

instance (c : TcpConnection) : Decidable c.live := inferInstanceAs (Decidable (_ ∨ _))

def log (c : TcpConnection) (e : Event) : TcpConnection := { c with trace := c.trace ++ [e] }

def queueInLoop (c : TcpConnection) (f : Functor) : TcpConnection :=
  { c with pendingFunctors := c.pendingFunctors ++ [f] }

/-- The direct write of `sendInLoop`: the connection after it, the bytes written and `faultError`. -/
def writeDirectly (c : TcpConnection) (message : List UInt8) (w : WriteResult) : TcpConnection × ℕ × Bool :=
  if !c.channel.isWriting && c.outputBuffer.readableBytes == 0 then
    match w with
    | .wrote n =>
      let nwrote := min n message.length
      let c := { c with accepted := c.accepted ++ message.take nwrote }
      if message.length - nwrote = 0 ∧ c.writeComplete then
        (c.queueInLoop .writeCompleteCallback, nwrote, false)
      else (c, nwrote, false)
    | .failed errno =>
      (c, 0, decide (errno ≠ .EWOULDBLOCK ∧ (errno = .EPIPE ∨ errno = .ECONNRESET)))
  else (c, 0, false)

section Handlers

variable [Build]

/-- The constructor, and the callbacks the owner sets right after it. -/
def create (fd : ℤ) (writeComplete highWater : Bool) (highWaterMark : ℕ) : Exec TcpConnection := do
  let inputBuffer ← Buffer.create Buffer.kInitialSize
  let outputBuffer ← Buffer.create Buffer.kInitialSize
  .ok { channel := { fd }, inputBuffer, outputBuffer, writeComplete, highWater, highWaterMark }

/-- The rest of `sendInLoop`, for what the direct write left over. -/
def queueOutput (c : TcpConnection) (remaining : List UInt8) : Exec TcpConnection := do
  let oldLen := c.outputBuffer.readableBytes
  let c :=
    if c.highWaterMark ≤ oldLen + remaining.length ∧ oldLen < c.highWaterMark ∧ c.highWater then
      c.queueInLoop (.highWaterMarkCallback (oldLen + remaining.length))
    else c
  let b ← c.outputBuffer.append remaining
  let c := { c with outputBuffer := b }
  .ok (if c.channel.isWriting then c else { c with channel := c.channel.enableWriting })

/-- `sendInLoop(const void*, size_t)`. -/
def sendInLoop (c : TcpConnection) (data : List UInt8) (len : ℕ) (w : WriteResult) :
    Exec TcpConnection := do
  let message ← bytesAt data len
  if c.state = .kDisconnected then
    .ok { c with handed := c.handed ++ [(message, .refused)] }
  else
    let (c, nwrote, faultError) := c.writeDirectly message w
    let c := { c with handed := c.handed ++ [(message, if faultError then .dropped else .kept)] }
    assert (len - nwrote ≤ len)
    if !faultError && len - nwrote > 0 then c.queueOutput (message.drop nwrote) else .ok c

/-- `sendInLoop(const StringPiece&)`. -/
def sendPieceInLoop (c : TcpConnection) (message : StringPiece) (w : WriteResult) : Exec TcpConnection :=
  c.sendInLoop message.data (toSize message.size) w

/-- `send(const StringPiece&)`. -/
def sendPiece (c : TcpConnection) (onLoop : Bool) (message : StringPiece) (w : WriteResult) :
    Exec TcpConnection :=
  if c.state = .kConnected then
    if onLoop then c.sendPieceInLoop message w
    else do
      let s ← message.asString
      .ok (c.queueInLoop (.sendInLoop s))
  else .ok c

/-- `send(const void*, int)`. -/
def sendMemory (c : TcpConnection) (onLoop : Bool) (data : List UInt8) (len : ℤ) (w : WriteResult) :
    Exec TcpConnection :=
  c.sendPiece onLoop (.ofMemory data len) w

/-- `send(Buffer*)`; the buffer is emptied when the connection is up. -/
def sendBuffer (c : TcpConnection) (onLoop : Bool) (buf : Buffer) (w : WriteResult) :
    Exec (TcpConnection × Buffer) :=
  if c.state = .kConnected then
    if onLoop then do
      let c ← c.sendInLoop (buf.buffer.drop buf.peek) buf.readableBytes w
      .ok (c, buf.retrieveAll)
    else do
      let (s, buf) ← buf.retrieveAllAsString
      .ok (c.queueInLoop (.sendInLoop s), buf)
  else .ok (c, buf)

def shutdownInLoop (c : TcpConnection) : TcpConnection :=
  let c := c.log .shutdownInLoop
  if c.channel.isWriting then c else c.log (.shutdownWrite c.state c.outputBuffer.readable c.accepted)

def shutdown (c : TcpConnection) (onLoop : Bool) : TcpConnection :=
  if c.state = .kConnected then
    let c := { c with state := .kDisconnecting }
    if onLoop then c.shutdownInLoop else c.queueInLoop .shutdownInLoop
  else c

def forceClose (c : TcpConnection) : TcpConnection :=
  if c.live then { c with state := .kDisconnecting }.queueInLoop .forceCloseInLoop else c

def forceCloseWithDelay (c : TcpConnection) : TcpConnection :=
  if c.live then { c with state := .kDisconnecting, delayedCloses := c.delayedCloses + 1 } else c

def startReadInLoop (c : TcpConnection) : TcpConnection :=
  if !c.reading || !c.channel.isReading then
    { c with channel := c.channel.enableReading, reading := true }
  else c

def startRead (c : TcpConnection) (onLoop : Bool) : TcpConnection :=
  if onLoop then c.startReadInLoop else c.queueInLoop .startReadInLoop

def connectEstablished (c : TcpConnection) : Exec TcpConnection := do
  assert (c.state = .kConnecting)
  let c := { c with state := .kConnected, channel := c.channel.enableReading }
  .ok (c.log (.connectionCallback (decide (c.state = .kConnected))))

/-- `connectionCallback_` is the last thing done here; `closeCallback_` follows it. -/
def handleClose (c : TcpConnection) : Exec TcpConnection := do
  let c := c.log (.handleClose c.state)
  assert c.live
  let c := { c with state := .kDisconnected, channel := c.channel.disableAll }
  let c := c.log (.connectionCallback (decide (c.state = .kConnected)))
  .ok { c with tasks := .closeCallback :: c.tasks }

def forceCloseInLoop (c : TcpConnection) : Exec TcpConnection :=
  if c.live then c.handleClose else .ok c

/-- `Channel::remove` and `EPollPoller::removeChannel`. -/
def removeChannel (c : TcpConnection) : Exec TcpConnection := do
  let c := c.log (.remove c.channel.isNoneEvent (decide (c.channel.index ≠ EPollPoller.kNew)))
  assert (c.channel.isNoneEvent)
  assert (c.channel.index ≠ EPollPoller.kNew)
  .ok { c with channel := { c.channel with addedToLoop := false, index := EPollPoller.kNew } }

/-- Where `connectionCallback_` is invoked, the channel is removed after it returns. -/
def connectDestroyed (c : TcpConnection) : Exec TcpConnection :=
  if c.state = .kConnected then
    let c := { c with state := .kDisconnected, channel := c.channel.disableAll }
    let c := c.log (.connectionCallback (decide (c.state = .kConnected)))
    .ok { c with tasks := .remove :: c.tasks }
  else c.removeChannel

def handleRead (c : TcpConnection) (r : Buffer.ReadResult) : Exec TcpConnection := do
  let (b, n, _) ← c.inputBuffer.readFd r
  let c := { c with inputBuffer := b }
  if n > 0 then .ok (c.log (.messageCallback n))
  else if n = 0 then c.handleClose
  else .ok c

/-- The bytes of `readable` that `write(2)` accepts, none when it fails. -/
def writeAccepted (readable : List UInt8) : WriteResult → List UInt8
  | .wrote n => readable.take n
  | .failed _ => []

def handleWrite (c : TcpConnection) (w : WriteResult) : Exec TcpConnection :=
  if c.channel.isWriting then
    let written := writeAccepted c.outputBuffer.readable w
    let c := { c with accepted := c.accepted ++ written }
    if written.length > 0 then do
      let b ← c.outputBuffer.retrieve written.length
      let c := { c with outputBuffer := b }
      if c.outputBuffer.readableBytes = 0 then
        let c := { c with channel := c.channel.disableWriting }
        let c := if c.writeComplete then c.queueInLoop .writeCompleteCallback else c
        .ok (if c.state = .kDisconnecting then c.shutdownInLoop else c)
      else .ok c
    else .ok c
  else .ok c

end Handlers

inductive Message
  | string (s : List UInt8)
  | memory (data : List UInt8) (len : ℤ)
  | buffer (buf : Buffer)
deriving DecidableEq, Repr

/-- The bytes the caller means to send. -/
def Message.bytes : Message → List UInt8
  | .string s => s
  | .memory data len => data.take len.toNat
  | .buffer buf => buf.readable

inductive Call
  | send (message : Message) (w : WriteResult)
  | shutdown
  | forceClose
  | forceCloseWithDelay
  | startRead
  | retrieveInput (len : ℕ)
deriving DecidableEq, Repr

/-- `call` and `task` may happen at any time, the others only when the loop thread is between handlers;
see `Enabled`. -/
inductive Step
  | call (onLoop : Bool) (call : Call)
  | event (revents : BitVec 32)
  | task (r : Buffer.ReadResult) (w : WriteResult)
  | delayedClose
  | removeConnection
  | doPendingFunctors
  | functor (w : WriteResult)
  | destroy
deriving DecidableEq, Repr

section Machine

variable [Build]

def send (c : TcpConnection) (onLoop : Bool) (message : Message) (w : WriteResult) : Exec TcpConnection :=
  let c := if c.state = .kConnected then { c with sent := c.sent ++ [message.bytes] } else c
  match message with
  | .string s => c.sendPiece onLoop (.ofString s) w
  | .memory data len => c.sendMemory onLoop data len w
  | .buffer buf => c.sendBuffer onLoop buf w >>= fun r => .ok r.1

def call (c : TcpConnection) (onLoop : Bool) : Call → Exec TcpConnection
  | .send message w => c.send onLoop message w
  | .shutdown => .ok (c.shutdown onLoop)
  | .forceClose => .ok c.forceClose
  | .forceCloseWithDelay => .ok c.forceCloseWithDelay
  | .startRead => .ok (c.startRead onLoop)
  | .retrieveInput len => do
    let b ← c.inputBuffer.retrieve len
    .ok { c with inputBuffer := b }

def runTask (c : TcpConnection) (r : Buffer.ReadResult) (w : WriteResult) : Task → Exec TcpConnection
  | .channel .close => c.handleClose
  | .channel .error => .ok c
  | .channel .read => c.handleRead r
  | .channel .write => c.handleWrite w
  | .closeCallback => .ok (c.log .closeCallback)
  | .remove => c.removeChannel

def runFunctor (c : TcpConnection) (w : WriteResult) : Functor → Exec TcpConnection
  | .sendInLoop message => c.sendPieceInLoop (.ofString message) w
  | .shutdownInLoop => .ok c.shutdownInLoop
  | .forceCloseInLoop => c.forceCloseInLoop
  | .startReadInLoop => .ok c.startReadInLoop
  | .connectDestroyed => c.connectDestroyed
  | .writeCompleteCallback => .ok (c.log .writeCompleteCallback)
  | .highWaterMarkCallback size => .ok (c.log (.highWaterMarkCallback size))

def step (c : TcpConnection) : Step → Exec TcpConnection
  | .call onLoop call => c.call onLoop call
  | .event revents =>
    .ok { c with
      channel := { c.channel with revents }
      tasks := (Channel.handleEventWithGuard revents).map .channel }
  | .task r w =>
    match c.tasks with
    | [] => .ok c
    | t :: ts => { c with tasks := ts }.runTask r w t
  | .delayedClose => .ok { c with delayedCloses := c.delayedCloses - 1 }.forceClose
  | .removeConnection => .ok ((c.log .removeConnection).queueInLoop .connectDestroyed)
  | .doPendingFunctors =>
    .ok { c with functors := some c.pendingFunctors, pendingFunctors := [] }
  | .functor w =>
    match c.functors with
    | some (f :: fs) => { c with functors := some fs }.runFunctor w f
    | some [] | none => .ok { c with functors := none }
  | .destroy => c.connectDestroyed

end Machine

def established (fd : ℤ) (writeComplete highWater : Bool) (highWaterMark : ℕ) : TcpConnection where
  state := .kConnected
  channel := Channel.enableReading { fd }
  inputBuffer := .initial Buffer.kInitialSize
  outputBuffer := .initial Buffer.kInitialSize
  writeComplete := writeComplete
  highWater := highWater
  highWaterMark := highWaterMark
  trace := [.connectionCallback true]

/-- The loop thread is neither in a handler of this connection nor in `doPendingFunctors`. -/
def polling (c : TcpConnection) : Prop := c.tasks = [] ∧ c.functors = none

instance (c : TcpConnection) : Decidable c.polling := inferInstanceAs (Decidable (_ ∧ _))

/-- When a step can happen. The kernel reports a descriptor only while it is in the interest list, with
events that were asked for or with `POLLERR`, `POLLHUP` or `POLLNVAL`. -/
def Enabled (c : TcpConnection) : Step → Prop
  | .call _ _ => True
  | .event revents => c.polling ∧ c.channel.index = EPollPoller.kAdded ∧
      revents &&& ~~~(c.channel.events ||| POLLERR ||| POLLHUP ||| POLLNVAL) = 0
  | .task _ _ => c.tasks ≠ []
  | .delayedClose => c.polling ∧ 0 < c.delayedCloses
  | .removeConnection => c.trace.count .removeConnection < c.trace.count .closeCallback
  | .doPendingFunctors => c.polling
  | .functor _ => c.tasks = [] ∧ c.functors ≠ none
  | .destroy => c.tasks = []

instance (c : TcpConnection) : (s : Step) → Decidable (c.Enabled s)
  | .call _ _ => inferInstanceAs (Decidable True)
  | .event _ => inferInstanceAs (Decidable (_ ∧ _ ∧ _))
  | .task _ _ => inferInstanceAs (Decidable (_ ≠ _))
  | .delayedClose => inferInstanceAs (Decidable (_ ∧ _))
  | .removeConnection => inferInstanceAs (Decidable (_ < _))
  | .doPendingFunctors => inferInstanceAs (Decidable (_ ∧ _))
  | .functor _ => inferInstanceAs (Decidable (_ ∧ _))
  | .destroy => inferInstanceAs (Decidable (_ = _))

end TcpConnection

end Networker
