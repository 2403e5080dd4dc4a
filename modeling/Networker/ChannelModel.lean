import Mathlib.Data.Int.Basic
import Networker.CheckedRuns

/-!
`net/Channel.h` and `net/Channel.cpp`: the event mask of one file descriptor and
the dispatch of the events a poller reports for it. The `index_` transitions are
those of `EPollPoller::updateChannel` and `EPollPoller::removeChannel`.
-/

namespace Networker

def POLLIN : BitVec 32 := 0x001
def POLLPRI : BitVec 32 := 0x002
def POLLOUT : BitVec 32 := 0x004
def POLLERR : BitVec 32 := 0x008
def POLLHUP : BitVec 32 := 0x010
def POLLNVAL : BitVec 32 := 0x020
def POLLRDHUP : BitVec 32 := 0x2000

structure Channel where
  fd : ℤ
  events : BitVec 32 := 0
  revents : BitVec 32 := 0
  index : ℤ := -1
  addedToLoop : Bool := false
deriving DecidableEq, Repr

namespace Channel

def kNoneEvent : BitVec 32 := 0
def kReadEvent : BitVec 32 := POLLIN ||| POLLPRI
def kWriteEvent : BitVec 32 := POLLOUT

inductive Interest
  | enableReading
  | disableReading
  | enableWriting
  | disableWriting
  | disableAll
deriving DecidableEq, Repr

def Interest.mask (events : BitVec 32) : Interest → BitVec 32
  | .enableReading => events ||| kReadEvent
  | .disableReading => events &&& ~~~kReadEvent
  | .enableWriting => events ||| kWriteEvent
  | .disableWriting => events &&& ~~~kWriteEvent
  | .disableAll => kNoneEvent

def has (mask bits : BitVec 32) : Bool := mask &&& bits != 0

def isNoneEvent (c : Channel) : Bool := c.events == kNoneEvent
def isWriting (c : Channel) : Bool := has c.events kWriteEvent
def isReading (c : Channel) : Bool := has c.events kReadEvent

/-- The callbacks `handleEventWithGuard` invokes, named after the connection's handlers. -/
inductive Callback
  | close
  | error
  | read
  | write
deriving DecidableEq, Repr

def handleEventWithGuard (revents : BitVec 32) : List Callback :=
  (if has revents POLLHUP && !has revents POLLIN then [.close] else []) ++
  (if has revents (POLLERR ||| POLLNVAL) then [.error] else []) ++
  (if has revents (POLLIN ||| POLLPRI ||| POLLRDHUP) then [.read] else []) ++
  (if has revents POLLOUT then [.write] else [])

end Channel

namespace EPollPoller

def kNew : ℤ := -1
def kAdded : ℤ := 1
def kDeleted : ℤ := 2

def updatedIndex (c : Channel) : ℤ :=
  if c.index = kNew ∨ c.index = kDeleted then kAdded
  else if c.isNoneEvent then kDeleted else kAdded

end EPollPoller

namespace Channel

open EPollPoller

section Masks

variable (e : BitVec 32)

theorem has_or_self (m : BitVec 32) (hm : m ≠ 0#32) : has (e ||| m) m = true := by
  have h : (e ||| m) &&& m = m := by
    ext i
    simp only [BitVec.getElem_and, BitVec.getElem_or]
    cases m[i] <;> simp
  simpa [has, h] using hm

theorem has_and_not (m : BitVec 32) : has (e &&& ~~~m) m = false := by
  have h : e &&& ~~~m &&& m = 0#32 := by
    ext i
    simp only [BitVec.getElem_and, BitVec.getElem_not, BitVec.getElem_zero]
    cases m[i] <;> simp
  simp [has, h]

theorem has_or_other (m n : BitVec 32) (h : m &&& n = 0#32) : has (e ||| m) n = has e n := by
  have h' : (e ||| m) &&& n = e &&& n := by
    ext i hi
    have hb := congrArg (fun v : BitVec 32 => v[i]) h
    simp only [BitVec.getElem_and, BitVec.getElem_or, BitVec.getElem_zero] at hb ⊢
    revert hb
    cases e[i] <;> cases m[i] <;> cases n[i] <;> simp
  simp [has, h']

theorem has_and_not_other (m n : BitVec 32) (h : m &&& n = 0#32) : has (e &&& ~~~m) n = has e n := by
  have h' : e &&& ~~~m &&& n = e &&& n := by
    ext i hi
    have hb := congrArg (fun v : BitVec 32 => v[i]) h
    simp only [BitVec.getElem_and, BitVec.getElem_not, BitVec.getElem_zero] at hb ⊢
    revert hb
    cases e[i] <;> cases m[i] <;> cases n[i] <;> simp
  simp [has, h']

end Masks

/-- `enableReading()` and its siblings on a channel of an `EPollPoller`. -/
def change (c : Channel) (i : Interest) : Channel :=
  let c := { c with events := i.mask c.events, addedToLoop := true }
  { c with index := updatedIndex c }

def enableReading (c : Channel) : Channel := c.change .enableReading
def enableWriting (c : Channel) : Channel := c.change .enableWriting
def disableWriting (c : Channel) : Channel := c.change .disableWriting
def disableAll (c : Channel) : Channel := c.change .disableAll

section Change

variable (c : Channel)

@[simp] theorem change_events (i : Interest) : (c.change i).events = i.mask c.events := rfl

@[simp] theorem isWriting_enableWriting : c.enableWriting.isWriting = true :=
  has_or_self _ _ (by decide)

@[simp] theorem isWriting_disableWriting : c.disableWriting.isWriting = false := has_and_not _ _

@[simp] theorem isWriting_enableReading : c.enableReading.isWriting = c.isWriting :=
  has_or_other _ _ _ (by decide)

@[simp] theorem isReading_enableReading : c.enableReading.isReading = true :=
  has_or_self _ _ (by decide)

theorem not_none_of_isReading (h : c.isReading = true) : c.isNoneEvent = false := by
  by_contra hn
  have he : c.events = kNoneEvent := by simpa [isNoneEvent] using hn
  rw [isReading, he] at h
  exact absurd h (by decide)

/-- A channel that stays interested in something stays in the kernel's interest list. -/
theorem change_index (i : Interest) (h : has (i.mask c.events) kReadEvent = true) :
    (c.change i).index = kAdded := by
  have hn : isNoneEvent { c with events := i.mask c.events, addedToLoop := true } = false :=
    not_none_of_isReading _ h
  simp [change, updatedIndex, hn]

theorem change_ne_new (i : Interest) : (c.change i).index ≠ kNew := by
  simp only [change, updatedIndex]
  split_ifs <;> simp [kNew, kAdded, kDeleted]

theorem disableAll_index (h : c.index = kAdded) : c.disableAll.index = kDeleted := by
  simp [disableAll, change, updatedIndex, h, isNoneEvent, Interest.mask, kNew, kAdded, kDeleted]

end Change

end Channel

end Networker
