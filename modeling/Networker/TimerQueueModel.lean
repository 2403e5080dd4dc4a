import Mathlib.Data.Finset.Insert
import Mathlib.Data.Finset.Card
import Mathlib.Data.Prod.Lex
import Mathlib.Data.Int.Order.Basic
import Networker.CheckedIntegers
import Networker.OrderedSets

/-!
`net/TimerQueue.cpp` and `net/Timer.h`. Timers live at addresses, and an address
may be used again once the timer there is deleted. Times are microseconds since
the epoch. `handleRead` is split where it runs a callback, so that what the
callback does to the queue comes in between as steps of their own.
-/

namespace Networker

open CheckedRuns

structure Timer where
  expiration : ℤ
  /-- `interval_` in microseconds, if it is positive -/
  interval : Option ℕ
  sequence : ℕ
deriving DecidableEq, Repr

namespace Timer

def repeats (t : Timer) : Bool := t.interval.isSome

/-- The sum is an `int64_t` in the source. -/
def restart (t : Timer) (now : ℤ) : Timer :=
  match t.interval with
  | some delta => { t with expiration := now + delta }
  | none => { t with expiration := 0 }

end Timer

def uintptrMax : ℕ := 2 ^ 64 - 1

abbrev Entry := ℤ ×ₗ ℕ

namespace Entry

def of (when : ℤ) (timer : ℕ) : Entry := toLex (when, timer)
def time (e : Entry) : ℤ := (ofLex e).1
def timer (e : Entry) : ℕ := (ofLex e).2

/-- The `sentry` of `getExpired`, after all entries of the time. -/
def sentry (now : ℤ) : Entry := .of now uintptrMax

end Entry

/-- The timers `handleRead` took out at `now`, and those whose callbacks have still to run. -/
structure Batch where
  now : ℤ
  expired : List Entry
  remaining : List Entry

structure TimerQueue where
  heap : ℕ → Option Timer := fun _ => none
  numCreated : ℕ := 0
  /-- the timers `addTimer` has made and `addTimerInLoop` has not yet been run for -/
  created : List ℕ := []
  timers : OrderedSet Entry := .empty
  activeTimers : Finset (ℕ × ℕ) := ∅
  cancelingTimers : Finset (ℕ × ℕ) := ∅
  /-- while `callingExpiredTimers_` -/
  batch : Option Batch := none
  /-- when the timerfd expires or expired, unless that was read -/
  timerfd : Option ℤ := none
  /-- the time of the last `timerfd_settime` -/
  lastSet : ℤ := 0
  /-- the last reading of the clock -/
  clock : ℤ := 0
  /-- record: the sequence numbers of the timers whose callbacks were run, in order -/
  ran : List ℕ := []

namespace TimerQueue

def callingExpiredTimers (q : TimerQueue) : Bool := q.batch.isSome

def put (q : TimerQueue) (p : ℕ) (t : Option Timer) : TimerQueue :=
  { q with heap := fun r => if r = p then t else q.heap r }

/-- The difference of two `int64_t` wraps where it has no representation; C++ leaves that undefined. -/
def howMuchTimeFromNow (when now : ℤ) : ℤ :=
  let microseconds := castInt64 (when - now)
  if microseconds < 100 then 100 else microseconds

def resetTimerfd (q : TimerQueue) (expiration now : ℤ) : TimerQueue :=
  { q with timerfd := some (now + howMuchTimeFromNow expiration now), lastSet := now, clock := now }

def readTimerfd (q : TimerQueue) (now : ℤ) : TimerQueue :=
  match q.timerfd with
  | some expiry => if expiry ≤ now then { q with timerfd := none } else q
  | none => q

/-- The part of `addTimer` that may run on any thread. -/
def newTimer (q : TimerQueue) (p : ℕ) (when : ℤ) (interval : Option ℕ) : TimerQueue :=
  { q.put p (some ⟨when, interval, q.numCreated + 1⟩) with
    numCreated := q.numCreated + 1
    created := p :: q.created }

section Operations

variable [Build]

def deref (q : TimerQueue) (p : ℕ) : Exec Timer :=
  match q.heap p with
  | some t => .ok t
  | none => .error .undefined

def insert (q : TimerQueue) (p : ℕ) : Exec (TimerQueue × Bool) := do
  assert (q.timers.size = q.activeTimers.card)
  let t ← q.deref p
  let earliestChanged :=
    match q.timers.first with
    | none => true
    | some it => decide (it.time < t.expiration)
  assert (Entry.of t.expiration p ∉ q.timers)
  let q := { q with timers := q.timers.insert (.of t.expiration p) }
  assert ((p, t.sequence) ∉ q.activeTimers)
  let q := { q with activeTimers := Insert.insert (p, t.sequence) q.activeTimers }
  assert (q.timers.size = q.activeTimers.card)
  .ok (q, earliestChanged)

def addTimerInLoop (q : TimerQueue) (p : ℕ) (now : ℤ) : Exec TimerQueue := do
  let (q, earliestChanged) ← insert { q with created := q.created.erase p } p
  if earliestChanged then
    let t ← q.deref p
    .ok (q.resetTimerfd t.expiration now)
  else .ok q

def cancelInLoop (q : TimerQueue) (p sequence : ℕ) : Exec TimerQueue := do
  assert (q.timers.size = q.activeTimers.card)
  if (p, sequence) ∈ q.activeTimers then
    let t ← q.deref p
    assert (Entry.of t.expiration p ∈ q.timers)
    let q := { q with timers := q.timers.erase (.of t.expiration p) }
    let q := q.put p none
    let q := { q with activeTimers := q.activeTimers.erase (p, sequence) }
    assert (q.timers.size = q.activeTimers.card)
    .ok q
  else
    let q :=
      if q.callingExpiredTimers then { q with cancelingTimers := Insert.insert (p, sequence) q.cancelingTimers }
      else q
    assert (q.timers.size = q.activeTimers.card)
    .ok q

/-- The loop of `getExpired` over the expired entries. -/
def deactivate (q : TimerQueue) : List Entry → Exec TimerQueue
  | [] => .ok q
  | it :: expired => do
    let t ← q.deref it.timer
    assert ((it.timer, t.sequence) ∈ q.activeTimers)
    deactivate { q with activeTimers := q.activeTimers.erase (it.timer, t.sequence) } expired

def getExpired (q : TimerQueue) (now : ℤ) : Exec (TimerQueue × List Entry) := do
  assert (q.timers.size = q.activeTimers.card)
  let expired := q.timers.below (Entry.sentry now)
  let rest := q.timers.notBelow (Entry.sentry now)
  assert (rest.first.all (fun it => now < it.time) = true)
  let q ← deactivate { q with timers := rest } expired
  assert (q.timers.size = q.activeTimers.card)
  .ok (q, expired)

/-- `handleRead` up to the first callback. -/
def handleRead (q : TimerQueue) (now : ℤ) : Exec TimerQueue := do
  let q := { q with clock := now }.readTimerfd now
  let (q, expired) ← q.getExpired now
  .ok { q with cancelingTimers := ∅, batch := some ⟨now, expired, expired⟩ }

/-- The next callback of the batch starts. -/
def runNext (q : TimerQueue) : Exec TimerQueue :=
  match q.batch with
  | some ⟨now, expired, it :: remaining⟩ => do
    let t ← q.deref it.timer
    .ok { q with batch := some ⟨now, expired, remaining⟩, ran := q.ran ++ [t.sequence] }
  | some ⟨_, _, []⟩ | none => .ok q

/-- The loop of `reset`. -/
def requeue (q : TimerQueue) (now : ℤ) : List Entry → Exec TimerQueue
  | [] => .ok q
  | it :: expired => do
    let t ← q.deref it.timer
    if t.repeats = true ∧ (it.timer, t.sequence) ∉ q.cancelingTimers then
      let (q, _) ← insert (q.put it.timer (some (t.restart now))) it.timer
      requeue q now expired
    else requeue (q.put it.timer none) now expired

/-- `clock` is what `howMuchTimeFromNow` reads, if it is called. -/
def reset (q : TimerQueue) (expired : List Entry) (now clock : ℤ) : Exec TimerQueue := do
  let q ← q.requeue now expired
  match q.timers.first with
  | none => .ok q
  | some it =>
    let t ← q.deref it.timer
    .ok (if 0 < t.expiration then q.resetTimerfd t.expiration clock else q)

/-- `handleRead` after the last callback. -/
def finish (q : TimerQueue) (clock : ℤ) : Exec TimerQueue :=
  match q.batch with
  | some b => reset { q with batch := none } b.expired b.now clock
  | none => .ok q

end Operations

inductive Step
  | newTimer (p : ℕ) (when : ℤ) (interval : Option ℕ)
  | addTimerInLoop (p : ℕ) (now : ℤ)
  | cancelInLoop (p sequence : ℕ)
  | handleRead (now : ℤ)
  | runNext
  | finish (clock : ℤ)
deriving DecidableEq, Repr

def step [Build] (q : TimerQueue) : Step → Exec TimerQueue
  | .newTimer p when interval => .ok (q.newTimer p when interval)
  | .addTimerInLoop p now => q.addTimerInLoop p now
  | .cancelInLoop p sequence => q.cancelInLoop p sequence
  | .handleRead now => q.handleRead now
  | .runNext => q.runNext
  | .finish clock => q.finish clock

/-- When a step can happen. No timer begins at the last address. -/
def Enabled (q : TimerQueue) : Step → Prop
  | .newTimer p _ _ => q.heap p = none ∧ p < uintptrMax
  | .addTimerInLoop p _ => p ∈ q.created
  | .cancelInLoop _ _ => True
  | .handleRead _ => q.batch.isNone = true
  | .runNext => q.batch.any (fun b => !b.remaining.isEmpty) = true
  | .finish _ => q.batch.any (fun b => b.remaining.isEmpty) = true

instance (q : TimerQueue) : (s : Step) → Decidable (q.Enabled s)
  | .newTimer _ _ _ => inferInstanceAs (Decidable (_ ∧ _))
  | .addTimerInLoop _ _ => inferInstanceAs (Decidable (_ ∈ _))
  | .cancelInLoop _ _ => inferInstanceAs (Decidable True)
  | .handleRead _ | .runNext | .finish _ => inferInstanceAs (Decidable (_ = _))

end TimerQueue

end Networker
