import Networker.PendingFunctors
import Networker.ConnectionModel
import Networker.DigitStrings
import Networker.CheckedIntegers
import Networker.VectorSearch
import Mathlib.Data.List.AList

/-!
`net/TcpServer.cpp` and the round robin of `net/EventLoopThreadPool.cpp`, on any number of
event loops. Loop 0 is the base loop, the others belong to the threads of the pool. A
connection appears as far as the server and the two ends of its life see it.
-/

namespace Networker

open CheckedRuns VectorSearch

structure EventLoopThreadPool where
  started : Bool := false
  loops : List ℕ := []
  next : ℕ := 0
deriving DecidableEq, Repr

namespace EventLoopThreadPool

variable [Build]

def start (p : EventLoopThreadPool) (numThreads : ℕ) : Exec EventLoopThreadPool := do
  assert (p.started = false)
  return { p with started := true, loops := p.loops ++ (List.range numThreads).map (· + 1) }

def getNextLoop (p : EventLoopThreadPool) : Exec (ℕ × EventLoopThreadPool) := do
  assert (p.started = true)
  if p.loops = [] then return (0, p)
  else
    let loop ← element p.loops p.next
    let next := p.next + 1
    return (loop, { p with next := if p.loops.length ≤ next then 0 else next })

end EventLoopThreadPool

/-- A connection by its place among those that were accepted. -/
inductive ServerFunctor
  | connectEstablished (conn : ℕ)
  | removeConnectionInLoop (conn : ℕ)
  | connectDestroyed (conn : ℕ)
deriving DecidableEq, Repr

inductive LifeCall
  | connectEstablished
  | connectDestroyed
deriving DecidableEq, Repr

structure ServerConnection where
  loop : ℕ
  name : List Char
  state : StateE := .kConnecting
  /-- `isNoneEvent` of the channel -/
  noneEvent : Bool := true
  /-- `handleClose` has run, and has still to call `closeCallback_` or has called it -/
  closing : Bool := false
  closed : Bool := false
  /-- record: the calls of the server, with the loop whose thread made them -/
  calls : List (LifeCall × ℕ) := []
deriving DecidableEq, Repr

/-- What `connectDestroyed` does first: a connection that is still connected goes down. -/
def ServerConnection.disconnect (c : ServerConnection) : ServerConnection :=
  if c.state = .kConnected then { c with state := .kDisconnected, noneEvent := true } else c

structure TcpServer where
  name : List Char
  ipPort : List Char
  threadPool : EventLoopThreadPool := {}
  nextConnId : ℕ := 1
  connections : AList fun _ : List Char => ℕ := ∅
  /-- all connections that were accepted -/
  conns : List ServerConnection := []
  /-- functors that the server did not bind are `none` -/
  loops : ℕ → EventLoop (Option ServerFunctor) := fun _ => {}
  /-- record: the connections that `removeConnectionInLoop` was called for, and what `erase` returned -/
  removed : List ℕ := []
  erased : List ℕ := []

namespace TcpServer

section Calls

variable [Build] (s : TcpServer)

/-- The thread is that of the loop with the same number. -/
def assertInLoopThread (thread loop : ℕ) : Exec Unit := if thread = loop then .ok () else .error .abort

def connName : List Char := s.name ++ snprintf 64 ('-' :: s.ipPort ++ '#' :: decimal s.nextConnId)

def conn (id : ℕ) : Exec ServerConnection := element s.conns id

def setConn (id : ℕ) (c : ServerConnection) : TcpServer := { s with conns := s.conns.set id c }

def queueInLoop (thread loop : ℕ) (f : ServerFunctor) : TcpServer :=
  { s with loops := Function.update s.loops loop ((s.loops loop).queueInLoop (thread = loop) (some f)) }

def connectEstablished (thread id : ℕ) : Exec TcpServer := do
  let c ← s.conn id
  assertInLoopThread thread c.loop
  assert (c.state = .kConnecting)
  return s.setConn id { c with
    state := .kConnected, noneEvent := false, calls := c.calls ++ [(.connectEstablished, thread)] }

def connectDestroyed (thread id : ℕ) : Exec TcpServer := do
  let c ← s.conn id
  assertInLoopThread thread c.loop
  let c := c.disconnect
  -- in `Channel::remove`
  assert (c.noneEvent = true)
  return s.setConn id { c with calls := c.calls ++ [(.connectDestroyed, thread)] }

def removeConnectionInLoop (thread id : ℕ) : Exec TcpServer := do
  assertInLoopThread thread 0
  let c ← s.conn id
  let n := if c.name ∈ s.connections then 1 else 0
  let s := { s with
    connections := s.connections.erase c.name
    removed := s.removed ++ [id]
    erased := s.erased ++ [n] }
  assert (n = 1)
  return s.queueInLoop thread c.loop (.connectDestroyed id)

def callFunctor (thread : ℕ) : ServerFunctor → Exec TcpServer
  | .connectEstablished id => s.connectEstablished thread id
  | .removeConnectionInLoop id => s.removeConnectionInLoop thread id
  | .connectDestroyed id => s.connectDestroyed thread id

def runInLoop (thread loop : ℕ) (f : ServerFunctor) : Exec TcpServer :=
  if thread = loop then s.callFunctor thread f else return s.queueInLoop thread loop f

/-- The callback of the acceptor, on the thread of the base loop. -/
def newConnection : Exec TcpServer := do
  let (ioLoop, threadPool) ← s.threadPool.getNextLoop
  let connName := s.connName
  let _ ← int32 (s.nextConnId + 1)
  let id := s.conns.length
  let conn : ServerConnection := { loop := ioLoop, name := connName }
  let s := { s with
    threadPool
    nextConnId := s.nextConnId + 1
    conns := s.conns ++ [conn]
    connections := s.connections.insert connName id }
  s.runInLoop 0 ioLoop (.connectEstablished id)

/-- The close callback of a connection, on the thread of its loop. -/
def removeConnection (thread id : ℕ) : Exec TcpServer := s.runInLoop thread 0 (.removeConnectionInLoop id)

end Calls

inductive Step
  | newConnection
  /-- `shutdown`, `forceClose` or `forceCloseWithDelay` from any thread -/
  | disconnecting (id : ℕ)
  /-- `startRead`, `stopRead` and the output change what the channel waits for -/
  | update (id : ℕ) (noneEvent : Bool)
  | handleClose (id : ℕ)
  | closeCallback (id : ℕ)
  /-- a step of a loop other than the call of a handler -/
  | loop (l : ℕ) (i : EventLoop.Step (Option ServerFunctor))

variable [Build]

/-- The functor that a loop is about to call. -/
def nextFunctor (s : TcpServer) (l : ℕ) : Option ServerFunctor :=
  match (s.loops l).phase with
  | .call (some f :: _) => some f
  | _ => none

def proceed (s : TcpServer) (l : ℕ) (active : List ActiveChannel) : Exec TcpServer := do
  let t ← (s.loops l).proceed active
  let next := s.nextFunctor l
  let s := { s with loops := Function.update s.loops l t }
  match next with
  | some f => s.callFunctor l f
  | none => return s

def step (s : TcpServer) : Step → Exec TcpServer
  | .newConnection => s.newConnection
  | .disconnecting id => do
    let c ← s.conn id
    return if c.state = .kConnected then s.setConn id { c with state := .kDisconnecting } else s
  | .update id noneEvent => do
    let c ← s.conn id
    return s.setConn id { c with noneEvent }
  | .handleClose id => do
    let c ← s.conn id
    assert (c.state = .kConnected ∨ c.state = .kDisconnecting)
    return s.setConn id { c with state := .kDisconnected, noneEvent := true, closing := true }
  | .closeCallback id => do
    let c ← s.conn id
    (s.setConn id { c with closed := true }).removeConnection c.loop id
  | .loop l (.proceed active) => s.proceed l active
  | .loop l i => do
    let t ← (s.loops l).step i
    return { s with loops := Function.update s.loops l t }

/-- Handlers run in user code of their loop. A connection closes once, and not before
`connectEstablished` has enabled its channel; nobody starts to read again after that. -/
def Enabled (s : TcpServer) : Step → Prop
  | .newConnection => (s.loops 0).inUserCode = true ∧ s.conns.length + 1 < 2 ^ 31 - 1
  | .disconnecting id => id < s.conns.length
  | .update id _ => ∃ c ∈ s.conns[id]?, (s.loops c.loop).inUserCode = true ∧
      c.state ≠ .kConnecting ∧ c.closing = false
  | .handleClose id => ∃ c ∈ s.conns[id]?, (s.loops c.loop).inUserCode = true ∧
      c.state ≠ .kConnecting ∧ c.closing = false
  | .closeCallback id => ∃ c ∈ s.conns[id]?, (s.loops c.loop).inUserCode = true ∧
      c.closing = true ∧ c.closed = false
  | .loop l (.queueInLoop isInLoopThread f) => f = none ∧ (s.loops l).Enabled (.queueInLoop isInLoopThread f)
  | .loop l i => (s.loops l).Enabled i

instance (s : TcpServer) : (i : Step) → Decidable (s.Enabled i)
  | .newConnection => inferInstanceAs (Decidable (_ ∧ _))
  | .disconnecting _ => inferInstanceAs (Decidable (_ < _))
  | .update _ _ => inferInstanceAs (Decidable (∃ _ ∈ _, _ ∧ _ ∧ _))
  | .handleClose _ => inferInstanceAs (Decidable (∃ _ ∈ _, _ ∧ _ ∧ _))
  | .closeCallback _ => inferInstanceAs (Decidable (∃ _ ∈ _, _ ∧ _ ∧ _))
  | .loop _ (.queueInLoop _ _) => inferInstanceAs (Decidable (_ ∧ _))
  | .loop l (.wakeup b) => inferInstanceAs (Decidable ((s.loops l).Enabled (.wakeup b)))
  | .loop l (.quit b) => inferInstanceAs (Decidable ((s.loops l).Enabled (.quit b)))
  | .loop l .quitWakeup => inferInstanceAs (Decidable ((s.loops l).Enabled .quitWakeup))
  | .loop l (.proceed active) => inferInstanceAs (Decidable ((s.loops l).Enabled (.proceed active)))

/-- A server whose pool has been started. -/
def started (name ipPort : List Char) (numThreads : ℕ) : Exec TcpServer := do
  let threadPool ← EventLoopThreadPool.start {} numThreads
  return { name, ipPort, threadPool }

end TcpServer

end Networker
