import Mathlib.Algebra.Group.Nat.Defs
import Mathlib.Data.List.Basic
import Networker.CheckedRuns

/-!
`net/EventLoop.cpp`: the loop thread inside and outside `loop()`, the functor queue
that all threads push to and the eventfd that wakes the loop. A push and the wakeup
after it are separate steps, as are the store to `quit_` and its wakeup.
-/

namespace Networker

open CheckedRuns

inductive ActiveChannel
  | wakeup
  | other
deriving DecidableEq, Repr

-- where the loop thread is; `handler` and `functor` are user code, and so is `outside`
inductive Phase (φ : Type)
  | outside
  | entered
  | test
  | poll
  | handle (active : List ActiveChannel)
  | handler (active : List ActiveChannel)
  | swap
  | call (functors : List φ)
  | functor (functors : List φ)
deriving DecidableEq, Repr

structure EventLoop (φ : Type) where
  looping : Bool := false
  quit_ : Bool := false
  callingPendingFunctors : Bool := false
  pendingFunctors : List φ := []
  phase : Phase φ := .outside
  /-- the counter of `wakeupFd_` -/
  wakeupFd : ℕ := 0
  /-- the loop thread has still to call `wakeup()` in `queueInLoop` -/
  owesWakeup : Bool := false
  /-- other threads between the push and the write of their `queueInLoop` -/
  pushers : ℕ := 0
  /-- other threads between the store and the write of their `quit` -/
  quitters : ℕ := 0
  -- records: every push, the vectors swapped out, the functors called
  pushed : List φ := []
  passes : List (List φ) := []
  executed : List φ := []
deriving DecidableEq, Repr

namespace EventLoop

variable {φ : Type}

def maxCounter : ℕ := 2 ^ 64 - 2

def wakeup (s : EventLoop φ) : EventLoop φ :=
  { s with wakeupFd := if s.wakeupFd < maxCounter then s.wakeupFd + 1 else s.wakeupFd }

def handleRead (s : EventLoop φ) : EventLoop φ := { s with wakeupFd := 0 }

def queueInLoop (s : EventLoop φ) (isInLoopThread : Bool) (f : φ) : EventLoop φ :=
  let s := { s with pendingFunctors := s.pendingFunctors ++ [f], pushed := s.pushed ++ [f] }
  if !isInLoopThread then { s with pushers := s.pushers + 1 }
  else if s.callingPendingFunctors then { s with owesWakeup := true }
  else s

def quit (s : EventLoop φ) (isInLoopThread : Bool) : EventLoop φ :=
  let s := { s with quit_ := true }
  if !isInLoopThread then { s with quitters := s.quitters + 1 } else s

/-- The loop thread goes on to its next step; `active` is what `poll` reports. -/
def proceed [Build] (s : EventLoop φ) (active : List ActiveChannel) : Exec (EventLoop φ) :=
  match s.phase with
  | .outside => do
    assert (s.looping = false)
    .ok { s with looping := true, phase := .entered }
  | .entered => .ok { s with quit_ := false, phase := .test }
  | .test => .ok (if s.quit_ then { s with looping := false, phase := .outside } else { s with phase := .poll })
  | .poll => .ok { s with phase := .handle active }
  | .handle (.wakeup :: rest) => .ok { s.handleRead with phase := .handle rest }
  | .handle (.other :: rest) => .ok { s with phase := .handler rest }
  | .handler rest => .ok { s with phase := .handle rest }
  | .handle [] => .ok { s with callingPendingFunctors := true, phase := .swap }
  | .swap =>
    .ok { s with
      pendingFunctors := []
      passes := s.passes ++ [s.pendingFunctors]
      phase := .call s.pendingFunctors }
  | .call (f :: rest) => .ok { s with executed := s.executed ++ [f], phase := .functor rest }
  | .functor rest => .ok { s with phase := .call rest }
  | .call [] => .ok { s with callingPendingFunctors := false, phase := .test }

inductive Step (φ : Type)
  | queueInLoop (isInLoopThread : Bool) (f : φ)
  | wakeup (isInLoopThread : Bool)
  | quit (isInLoopThread : Bool)
  | quitWakeup
  | proceed (active : List ActiveChannel)
deriving DecidableEq, Repr

def step [Build] (s : EventLoop φ) : Step φ → Exec (EventLoop φ)
  | .queueInLoop isInLoopThread f => .ok (s.queueInLoop isInLoopThread f)
  | .wakeup true => .ok { s.wakeup with owesWakeup := false }
  | .wakeup false => .ok { s.wakeup with pushers := s.pushers - 1 }
  | .quit isInLoopThread => .ok (s.quit isInLoopThread)
  | .quitWakeup => .ok { s.wakeup with quitters := s.quitters - 1 }
  | .proceed active => s.proceed active

def inUserCode (s : EventLoop φ) : Bool :=
  s.owesWakeup = false ∧ s.phase matches .outside | .handler _ | .functor _

def Enabled (s : EventLoop φ) : Step φ → Prop
  | .queueInLoop isInLoopThread _ => isInLoopThread = true → s.inUserCode = true
  | .quit isInLoopThread => isInLoopThread = true → s.inUserCode = true
  | .wakeup true => s.owesWakeup = true
  | .wakeup false => 0 < s.pushers
  | .quitWakeup => 0 < s.quitters
  | .proceed active => s.owesWakeup = false ∧ (s.phase matches .poll → .wakeup ∈ active → 0 < s.wakeupFd)

instance (s : EventLoop φ) : (i : Step φ) → Decidable (s.Enabled i)
  | .queueInLoop _ _ => inferInstanceAs (Decidable (_ → _))
  | .quit _ => inferInstanceAs (Decidable (_ → _))
  | .wakeup true => inferInstanceAs (Decidable (_ = _))
  | .wakeup false => inferInstanceAs (Decidable (_ < _))
  | .quitWakeup => inferInstanceAs (Decidable (_ < _))
  | .proceed _ => inferInstanceAs (Decidable (_ ∧ (_ → _ → _)))

/-- The functors of the current pass that have still to be called. -/
def remaining (s : EventLoop φ) : List φ :=
  match s.phase with
  | .call functors | .functor functors => functors
  | .outside | .entered | .test | .poll | .handle _ | .handler _ | .swap => []

end EventLoop

end Networker
