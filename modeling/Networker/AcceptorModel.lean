import Networker.CheckedRuns
import Networker.Descriptors

/-!
`net/Acceptor.cpp` with `Socket::accept` and `sockets::accept`. `errno` is a field of
the state, since system calls and the logger write it between the calls that read it.
-/

namespace Networker

open CheckedRuns

namespace Acceptor

/-- The values `sockets::accept` distinguishes; `other` goes to its `default` label. -/
inductive Errno
  | EAGAIN
  | ECONNABORTED
  | EINTR
  | EPROTO
  | EPERM
  | EMFILE
  | EBADF
  | EFAULT
  | EINVAL
  | ENFILE
  | ENOBUFS
  | ENOMEM
  | ENOTSOCK
  | EOPNOTSUPP
  | other (code : ℕ)
deriving DecidableEq, Repr

/-- The six a listening socket gets over by itself. On the others the `switch` of `sockets::accept` logs `FATAL`. -/
def Errno.transient : Errno → Bool
  | .EAGAIN | .ECONNABORTED | .EINTR | .EPROTO | .EPERM | .EMFILE => true
  | _ => false

structure Flags where
  O_NONBLOCK : Bool := false
  FD_CLOEXEC : Bool := false
deriving DecidableEq, Repr

end Acceptor

/-- The descriptor `-1` is `none`; `α` is the type of socket addresses. -/
structure Acceptor (α : Type) where
  errno : Acceptor.Errno := .other 0
  files : Descriptors Acceptor.Flags := {}
  idleFd_ : Option ℕ := none
  newConnectionCallback_ : Bool := false
  /-- the arguments of the calls of `newConnectionCallback_` -/
  passed : List (ℕ × α) := []
  /-- serials of the files that `accept(2)` returned -/
  accepted : List ℕ := []
  /-- what the last `open("/dev/null")` returned -/
  opened : Option ℕ := none
  /-- how often the branch for `EMFILE` ran -/
  replaced : ℕ := 0

namespace Acceptor

variable {α : Type}

section SystemCalls

def accept2 (s : Acceptor α) : Except Errno (ℕ × α) → Option (ℕ × α) × Acceptor α
  | .ok (fd, addr) => (some (fd, addr),
      { s with files := s.files.create fd {}, accepted := s.accepted ++ [s.files.created] })
  | .error e => (none, { s with errno := e })

/-- `set` is the change an `F_SETFL` or `F_SETFD` makes, and the identity for `F_GETFL` and `F_GETFD`. -/
def fcntl (s : Acceptor α) (fd : Option ℕ) (set : Flags → Flags) : Acceptor α :=
  match fd with
  | some fd => if (s.files.table fd).isSome then { s with files := s.files.modify fd set } else { s with errno := .EBADF }
  | none => { s with errno := .EBADF }

def close (s : Acceptor α) (fd : Option ℕ) : Acceptor α :=
  match fd with
  | some fd => { s with files := s.files.close fd }
  | none => { s with errno := .EBADF }

-- `idleFd_ = ::open("/dev/null", O_RDONLY | O_CLOEXEC)`
def openIdle (s : Acceptor α) : Except Errno ℕ → Acceptor α
  | .ok fd => { s with files := s.files.create fd { FD_CLOEXEC := true }, idleFd_ := some fd, opened := some fd }
  | .error e => { s with errno := e, idleFd_ := none, opened := none }

end SystemCalls

def setNonBlockAndCloseOnExec (s : Acceptor α) (sockfd : Option ℕ) : Acceptor α :=
  let s := s.fcntl sockfd id
  let s := s.fcntl sockfd fun f => { f with O_NONBLOCK := true }
  let s := s.fcntl sockfd id
  s.fcntl sockfd fun f => { f with FD_CLOEXEC := true }

/-- The outcomes of the system calls in one call of `handleRead`; `logged` is what `LOG_SYSERR` leaves in `errno`,
`again` and `reopen` belong to the branch for `EMFILE`. -/
structure Readable (α : Type) where
  accept : Except Errno (ℕ × α)
  logged : Errno := .other 0
  again : Except Errno (ℕ × α) := .error .EAGAIN
  reopen : Except Errno ℕ := .error .EMFILE

-- `sockets::accept`
def socketsAccept (s : Acceptor α) (e : Readable α) : Exec (Option (ℕ × α) × Acceptor α) :=
  let (connfd, s) := s.accept2 e.accept
  let s := s.setNonBlockAndCloseOnExec (connfd.map Prod.fst)
  match connfd with
  | none =>
    let savedErrno := s.errno
    let s := { s with errno := e.logged }
    match savedErrno with
    | .EAGAIN | .ECONNABORTED | .EINTR | .EPROTO | .EPERM | .EMFILE => .ok (none, { s with errno := savedErrno })
    | .EBADF | .EFAULT | .EINVAL | .ENFILE | .ENOBUFS | .ENOMEM | .ENOTSOCK | .EOPNOTSUPP => .error .abort
    | .other _ => .error .abort
  | some conn => .ok (some conn, s)

def handleRead (s : Acceptor α) (e : Readable α) : Exec (Acceptor α) := do
  let (connfd, s) ← s.socketsAccept e
  match connfd with
  | some (connfd, peerAddr) =>
    if s.newConnectionCallback_ then
      .ok { s with files := s.files.hand connfd, passed := s.passed ++ [(connfd, peerAddr)] }
    else .ok (s.close (some connfd))
  | none =>
    if s.errno = .EMFILE then
      let s := { s with replaced := s.replaced + 1 }
      let s := s.close s.idleFd_
      let (idleFd, s) := s.accept2 e.again
      let s := { s with idleFd_ := idleFd.map Prod.fst }
      let s := s.close s.idleFd_
      .ok (s.openIdle e.reopen)
    else .ok s

/-- The constructor, as far as it concerns `idleFd_`. -/
def construct [Build] (idle : Except Errno ℕ) : Exec (Acceptor α) := do
  let s := openIdle {} idle
  assert (s.idleFd_.isSome)
  .ok s

inductive Step (α : Type)
  | readable (e : Readable α)
  | setNewConnectionCallback (cb : Bool)
  /-- the connection that got the descriptor closes it -/
  | release (fd : ℕ)

def step (s : Acceptor α) : Step α → Exec (Acceptor α)
  | .readable e => s.handleRead e
  | .setNewConnectionCallback cb => .ok { s with newConnectionCallback_ := cb }
  | .release fd => .ok { s with files := s.files.release fd }

/-- `accept` and `open` return numbers that are not in use; in the branch for `EMFILE` that of `idleFd_` is free too. -/
def Enabled (s : Acceptor α) : Step α → Prop
  | .readable e =>
    (∀ c ∈ e.accept.toOption, s.files.table c.1 = none) ∧
    (∀ c ∈ e.again.toOption, s.files.table c.1 = none ∨ s.idleFd_ = some c.1) ∧
    (∀ fd ∈ e.reopen.toOption, s.files.table fd = none ∨ s.idleFd_ = some fd)
  | .setNewConnectionCallback _ => True
  | .release fd => ∃ f ∈ s.files.table fd, f.serial ∈ s.files.handed

end Acceptor

end Networker
