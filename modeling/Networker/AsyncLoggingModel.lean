import Mathlib.Logic.Function.Basic
import Networker.CheckedRuns
import Networker.LogStreamInsertions

/-!
`base/AsyncLogging.h` and `AsyncLogging.cpp`. Buffers are objects at addresses that are
never used again, for the model does not need to know when one is freed. What happens
under `mutex_` is one step; a wait on `cond_` ends the step and may end at any time,
by a notification, the timeout or for no reason.
-/

namespace Networker

open CheckedRuns

-- where `threadFunc` is
inductive BackEnd
  | starting
  | started
  | test
  | enter
  | waiting
  | swapped
  | write (i : ℕ)
  | finished
deriving DecidableEq, Repr

/-- What is passed to `output.append`. -/
inductive OutputCall
  | notice (dropped : ℕ)
  | data (bytes : List UInt8)
deriving DecidableEq, Repr

abbrev BufferHeap := ℕ → FixedBuffer kLargeBuffer

structure AsyncLogging where
  heap : BufferHeap := fun _ => {}
  allocated : ℕ := 2
  running : Bool := true
  currentBuffer : Option ℕ := some 0
  nextBuffer : Option ℕ := some 1
  buffers : List ℕ := []
  -- the locals of `threadFunc`
  phase : BackEnd := .starting
  newBuffer1 : Option ℕ := none
  newBuffer2 : Option ℕ := none
  buffersToWrite : List ℕ := []
  -- `thread_.join()` of `stop` has returned
  joined : Bool := false
  -- records: the lines of all `append` calls, how many there were when `stop` was called, the calls of
  -- `output.append`, and of every buffer taken over whether it was erased and its lines
  appended : List Line := []
  beforeStop : Option ℕ := none
  output : List OutputCall := []
  taken : List (Bool × List Line) := []

namespace AsyncLogging

def put (s : AsyncLogging) (p : ℕ) (b : FixedBuffer kLargeBuffer) : AsyncLogging :=
  { s with heap := Function.update s.heap p b }

/-- `new Buffer` gives the address `s.allocated`. -/
def newBuffer (s : AsyncLogging) : AsyncLogging :=
  { s.put s.allocated {} with allocated := s.allocated + 1 }

/-- Using a null pointer is undefined. -/
def get (p : Option ℕ) : Exec ℕ :=
  match p with
  | some p => .ok p
  | none => .error .undefined

def append (s : AsyncLogging) (logline : Line) : Exec AsyncLogging := do
  let current ← get s.currentBuffer
  let s := { s with appended := s.appended ++ [logline] }
  if logline.length < (s.heap current).avail then
    .ok (s.put current ((s.heap current).append logline))
  else
    let s := { s with buffers := s.buffers ++ [current], currentBuffer := none }
    let s :=
      match s.nextBuffer with
      | some next => { s with currentBuffer := some next, nextBuffer := none }
      | none => { s.newBuffer with currentBuffer := some s.allocated }
    let current ← get s.currentBuffer
    .ok (s.put current ((s.heap current).append logline))

/-- The critical section of `threadFunc` after the wait. -/
def swap (s : AsyncLogging) : Exec AsyncLogging := do
  let current ← get s.currentBuffer
  let s := { s with
    buffersToWrite := s.buffers ++ [current]
    buffers := s.buffersToWrite
    currentBuffer := s.newBuffer1
    newBuffer1 := none
    phase := .swapped }
  .ok (if s.nextBuffer.isNone then { s with nextBuffer := s.newBuffer2, newBuffer2 := none } else s)

section BackEnd

variable [Build]

def checkEmpty (s : AsyncLogging) (p : Option ℕ) : Exec Unit :=
  assert (p.any (fun p => (s.heap p).length = 0) = true)

def overload (s : AsyncLogging) : Exec AsyncLogging := do
  assert (s.buffersToWrite ≠ [])
  let keep := if 25 < s.buffersToWrite.length then 2 else s.buffersToWrite.length
  let s := { s with
    taken := s.taken ++ (s.buffersToWrite.take keep).map (fun p => (false, (s.heap p).pieces)) ++
      (s.buffersToWrite.drop keep).map (fun p => (true, (s.heap p).pieces))
    phase := .write 0 }
  .ok (
    if 25 < s.buffersToWrite.length then
      { s with
        output := s.output ++ [.notice (s.buffersToWrite.length - 2)]
        buffersToWrite := s.buffersToWrite.take 2 }
    else s)

/-- `newBuffer1` and `newBuffer2` are filled up in the same way: from the back of `buffersToWrite`, if null. -/
def refill (s : AsyncLogging) (newBuffer : Option ℕ) : Exec (AsyncLogging × Option ℕ) :=
  if newBuffer.isNone then do
    assert (s.buffersToWrite ≠ [])
    let p ← get s.buffersToWrite.getLast?
    .ok ({ s.put p (s.heap p).reset with buffersToWrite := s.buffersToWrite.dropLast }, some p)
  else .ok (s, newBuffer)

/-- The iteration after the last write. -/
def recycle (s : AsyncLogging) : Exec AsyncLogging := do
  let (s, newBuffer1) ← refill { s with buffersToWrite := s.buffersToWrite.take 2 } s.newBuffer1
  let (s, newBuffer2) ← s.refill s.newBuffer2
  .ok { s with newBuffer1, newBuffer2, buffersToWrite := [], phase := .test }

/-- One step of `threadFunc`. -/
def threadFunc (s : AsyncLogging) : Exec AsyncLogging :=
  match s.phase with
  | .starting => do
    assert (s.running = true)
    .ok { s with phase := .started }
  | .started =>
    let one := s.newBuffer
    let two := one.newBuffer
    .ok { two with newBuffer1 := some s.allocated, newBuffer2 := some one.allocated, phase := .test }
  | .test =>
    if s.running then do
      s.checkEmpty s.newBuffer1
      s.checkEmpty s.newBuffer2
      assert (s.buffersToWrite = [])
      .ok { s with phase := .enter }
    else .ok { s with phase := .finished }
  | .enter => if s.buffers = [] then .ok { s with phase := .waiting } else s.swap
  | .waiting => s.swap
  | .swapped => s.overload
  | .write i =>
    match s.buffersToWrite[i]? with
    | some p => .ok { s with output := s.output ++ [.data (s.heap p).data], phase := .write (i + 1) }
    | none => s.recycle
  | .finished => .ok s

inductive Step
  | append (logline : Line)
  | threadFunc
  | stop
  | join
deriving DecidableEq, Repr

def step (s : AsyncLogging) : Step → Exec AsyncLogging
  | .append logline => s.append logline
  | .threadFunc => s.threadFunc
  | .stop => .ok { s with running := false, beforeStop := some s.appended.length }
  | .join => .ok { s with joined := true }

end BackEnd

/-- `stop` is called once, after `start` has returned; `LogStream` makes no line as long as a large buffer. -/
def Enabled (s : AsyncLogging) : Step → Prop
  | .append logline => logline.length < kLargeBuffer
  | .threadFunc => s.phase ≠ .finished
  | .stop => s.phase ≠ .starting ∧ s.beforeStop = none
  | .join => s.phase = .finished

instance (s : AsyncLogging) : (i : Step) → Decidable (s.Enabled i)
  | .append _ => inferInstanceAs (Decidable (_ < _))
  | .threadFunc => inferInstanceAs (Decidable (_ ≠ _))
  | .stop => inferInstanceAs (Decidable (_ ∧ _))
  | .join => inferInstanceAs (Decidable (_ = _))

end AsyncLogging

end Networker
