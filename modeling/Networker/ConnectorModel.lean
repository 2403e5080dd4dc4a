import Networker.ChannelModel
import Networker.Descriptors

/-!
`net/Connector.cpp`. The functors it queues run in the order they were queued; its
retry timers, the events of the connecting socket and the calls of other threads come
in between. A run also records the state at the places that the assertions are about.
-/

namespace Networker

open CheckedRuns

namespace Connector

inductive States
  | kDisconnected
  | kConnecting
  | kConnected
deriving DecidableEq, Repr

def kMaxRetryDelayMs : ℕ := 30 * 1000
def kInitRetryDelayMs : ℕ := 500

/-- The values of `savedErrno` that `connect` distinguishes; `success` is 0. -/
inductive Errno
  | success
  | EINPROGRESS
  | EINTR
  | EISCONN
  | EAGAIN
  | EADDRINUSE
  | EADDRNOTAVAIL
  | ECONNREFUSED
  | ENETUNREACH
  | EACCES
  | EPERM
  | EAFNOSUPPORT
  | EALREADY
  | EBADF
  | EFAULT
  | ENOTSOCK
  | other (code : ℕ)
deriving DecidableEq, Repr

/-- What `socket(2)` and `connect(2)` answer; `socket(2)` fails with `none`. -/
structure Attempt where
  sockfd : Option ℕ
  errno : Errno
deriving DecidableEq, Repr

/-- What `getSocketError` and `isSelfConnect` say about the connecting socket. -/
structure Outcome where
  err : ℕ := 0
  selfConnect : Bool := false
deriving DecidableEq, Repr

inductive Functor
  | startInLoop
  | stopInLoop
  | resetChannel
deriving DecidableEq, Repr

inductive Point
  | startInLoop (state : States)
  | connecting (channel : Option Channel)
  | resetChannel (channel : Option Channel)
  | close (sockfd : ℕ) (channel : Option Channel)
deriving DecidableEq, Repr

end Connector

open Connector in
structure Connector where
  connect_ : Bool := false
  state_ : States := .kDisconnected
  channel_ : Option Channel := none
  retryDelayMs_ : ℕ := kInitRetryDelayMs
  pending : List Functor := []
  /-- the delays of the timers `retry` started that have not expired -/
  timers : List ℕ := []
  files : Descriptors Unit := {}
  trace : List Point := []

namespace Connector

def log (s : Connector) (p : Point) : Connector := { s with trace := s.trace ++ [p] }

def queueInLoop (s : Connector) (f : Functor) : Connector := { s with pending := s.pending ++ [f] }

-- `sockets::close`
def close (s : Connector) (sockfd : ℕ) : Connector :=
  { s.log (.close sockfd s.channel_) with files := s.files.close sockfd }

def retry (s : Connector) (sockfd : ℕ) : Connector :=
  let s := { s.close sockfd with state_ := .kDisconnected }
  if s.connect_ then
    { s with
      timers := s.timers ++ [s.retryDelayMs_]
      retryDelayMs_ := min (s.retryDelayMs_ * 2) kMaxRetryDelayMs }
  else s

variable [Build]

def connecting (s : Connector) (sockfd : ℕ) : Exec Connector := do
  let s := { s with state_ := .kConnecting }
  let s := s.log (.connecting s.channel_)
  assert (s.channel_ = none)
  .ok { s with channel_ := some (Channel.enableWriting { fd := sockfd }) }

def connect (s : Connector) (r : Attempt) : Exec Connector :=
  match r.sockfd with
  -- `connect(-1)` fails with `EBADF`, and so does the `close(-1)` that follows
  | none => .ok s
  | some sockfd =>
    let s := { s with files := s.files.create sockfd () }
    match r.errno with
    | .success | .EINPROGRESS | .EINTR | .EISCONN => s.connecting sockfd
    | .EAGAIN | .EADDRINUSE | .EADDRNOTAVAIL | .ECONNREFUSED | .ENETUNREACH => .ok (s.retry sockfd)
    | .EACCES | .EPERM | .EAFNOSUPPORT | .EALREADY | .EBADF | .EFAULT | .ENOTSOCK => .ok (s.close sockfd)
    | .other _ => .ok (s.close sockfd)

def startInLoop (s : Connector) (r : Attempt) : Exec Connector := do
  let s := s.log (.startInLoop s.state_)
  assert (s.state_ = .kDisconnected)
  if s.connect_ then s.connect r else .ok s

def start (s : Connector) (isInLoopThread : Bool) (r : Attempt) : Exec Connector :=
  let s := { s with connect_ := true }
  if isInLoopThread then s.startInLoop r else .ok (s.queueInLoop .startInLoop)

def stop (s : Connector) : Connector := queueInLoop { s with connect_ := false } .stopInLoop

def restart (s : Connector) (r : Attempt) : Exec Connector :=
  startInLoop { s with state_ := .kDisconnected, retryDelayMs_ := kInitRetryDelayMs, connect_ := true } r

def removeAndResetChannel (s : Connector) : Exec (ℕ × Connector) :=
  match s.channel_ with
  | none => .error .undefined
  | some c => do
    let c := c.disableAll
    assert (c.isNoneEvent)
    assert (c.index ≠ EPollPoller.kNew)
    let c := { c with addedToLoop := false, index := EPollPoller.kNew }
    .ok (c.fd.toNat, queueInLoop { s with channel_ := some c } .resetChannel)

/-- The destructor of the channel asserts that it is not registered. -/
def resetChannel (s : Connector) : Exec Connector := do
  let s := s.log (.resetChannel s.channel_)
  match s.channel_ with
  | none => .ok s
  | some c =>
    assert (c.addedToLoop = false)
    assert (c.index = EPollPoller.kNew)
    .ok { s with channel_ := none }

def stopInLoop (s : Connector) : Exec Connector :=
  if s.state_ = .kConnecting then do
    let (sockfd, s) ← removeAndResetChannel { s with state_ := .kDisconnected }
    .ok (s.retry sockfd)
  else .ok s

def handleWrite (s : Connector) (o : Outcome) : Exec Connector :=
  if s.state_ = .kConnecting then do
    let (sockfd, s) ← s.removeAndResetChannel
    if o.err ≠ 0 then .ok (s.retry sockfd)
    else if o.selfConnect then .ok (s.retry sockfd)
    else
      let s := { s with state_ := .kConnected }
      -- `newConnectionCallback_(sockfd)`
      if s.connect_ then .ok { s with files := s.files.hand sockfd } else .ok (s.close sockfd)
  else do
    assert (s.state_ = .kDisconnected)
    .ok s

def handleError (s : Connector) : Exec Connector :=
  if s.state_ = .kConnecting then do
    let (sockfd, s) ← s.removeAndResetChannel
    .ok (s.retry sockfd)
  else .ok s

/-- `connecting` sets the write and the error callback only. -/
def callback (s : Connector) (o : Outcome) : Channel.Callback → Exec Connector
  | .error => s.handleError
  | .write => s.handleWrite o
  | .close | .read => .ok s

def handleEvent (s : Connector) (o : Outcome) : List Channel.Callback → Exec Connector
  | [] => .ok s
  | c :: cs => s.callback o c >>= fun s => s.handleEvent o cs

def runFunctor (s : Connector) (r : Attempt) : Functor → Exec Connector
  | .startInLoop => s.startInLoop r
  | .stopInLoop => s.stopInLoop
  | .resetChannel => s.resetChannel

inductive Step
  | start (isInLoopThread : Bool) (r : Attempt)
  | stop
  | restart (r : Attempt)
  | functor (r : Attempt)
  | timer (i : ℕ) (r : Attempt)
  | event (revents : BitVec 32) (o : Outcome)
  /-- the connection that was given a socket closes it -/
  | release (fd : ℕ)
deriving DecidableEq, Repr

def step (s : Connector) : Step → Exec Connector
  | .start isInLoopThread r => s.start isInLoopThread r
  | .stop => .ok s.stop
  | .restart r => s.restart r
  | .functor r =>
    match s.pending with
    | [] => .ok s
    | f :: pending => runFunctor { s with pending } r f
  | .timer i r => startInLoop { s with timers := s.timers.eraseIdx i } r
  | .event revents o => s.handleEvent o (Channel.handleEventWithGuard revents)
  | .release fd => .ok { s with files := s.files.release fd }

/-- `socket(2)` returns a number that is not in use. -/
def Fresh (s : Connector) (r : Attempt) : Prop := ∀ fd ∈ r.sockfd, s.files.table fd = none

instance (s : Connector) (r : Attempt) : Decidable (s.Fresh r) :=
  inferInstanceAs (Decidable (∀ fd ∈ r.sockfd, s.files.table fd = none))

def Enabled (s : Connector) : Step → Prop
  | .start _ r | .restart r => s.Fresh r
  | .stop => True
  | .functor r => s.pending ≠ [] ∧ s.Fresh r
  | .timer i r => i < s.timers.length ∧ s.Fresh r
  | .event _ _ => ∃ c ∈ s.channel_, c.index = EPollPoller.kAdded
  | .release fd => ∃ f ∈ s.files.table fd, f.serial ∈ s.files.handed

instance (s : Connector) : (i : Step) → Decidable (s.Enabled i)
  | .start _ r => inferInstanceAs (Decidable (s.Fresh r))
  | .restart r => inferInstanceAs (Decidable (s.Fresh r))
  | .stop => inferInstanceAs (Decidable True)
  | .functor r => inferInstanceAs (Decidable (_ ∧ s.Fresh r))
  | .timer _ r => inferInstanceAs (Decidable (_ ∧ s.Fresh r))
  | .event _ _ => inferInstanceAs (Decidable (∃ c ∈ s.channel_, c.index = EPollPoller.kAdded))
  | .release fd => inferInstanceAs (Decidable (∃ f ∈ s.files.table fd, f.serial ∈ s.files.handed))

end Connector

end Networker
