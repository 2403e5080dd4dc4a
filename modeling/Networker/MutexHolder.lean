import Mathlib.Data.List.Basic
import Networker.CheckedRuns

/-!
`base/MutexLock.h` and `base/Condition.h`: one mutex with one condition, and threads that take it, give it
back and wait. What `holder_` says is compared with the owner that the mutex itself knows.
-/

namespace Networker

open CheckedRuns

/-- A `MutexLock`, its pthread mutex and the threads inside the waits of its `Condition`. Threads are
given by their `tid()`. -/
structure MutexLock where
  holder_ : ℕ := 0
  /-- the thread that owns the pthread mutex -/
  owner : Option ℕ := none
  /-- blocked in `pthread_cond_wait`, or in `pthread_cond_timedwait` with `true` -/
  waiting : List (ℕ × Bool) := []
  /-- woken up, and about to take the mutex again -/
  woken : List ℕ := []
deriving DecidableEq, Repr

namespace MutexLock

def assignHolder (m : MutexLock) (tid : ℕ) : MutexLock := { m with holder_ := tid }

def unassignHolder (m : MutexLock) : MutexLock := { m with holder_ := 0 }

def isLockedByThisThread (m : MutexLock) (tid : ℕ) : Bool := m.holder_ = tid

def lock (m : MutexLock) (tid : ℕ) : MutexLock := ({ m with owner := some tid } : MutexLock).assignHolder tid

def unlock (m : MutexLock) : MutexLock := { m.unassignHolder with owner := none }

/-- The first half of a wait, up to the point where the thread is blocked and the mutex is free. -/
def beginWait (m : MutexLock) (tid : ℕ) (timed : Bool) : MutexLock :=
  { m with owner := none, waiting := m.waiting ++ [(tid, timed)] }

/-- A signal, a timeout or no reason at all ends the blocking of a thread. -/
def wake (m : MutexLock) (tid : ℕ) (timed : Bool) : MutexLock :=
  { m with waiting := m.waiting.erase (tid, timed), woken := m.woken ++ [tid] }

def endWait (m : MutexLock) (tid : ℕ) : MutexLock := { m with owner := some tid, woken := m.woken.erase tid }

inductive Step
  | lock (tid : ℕ)
  | unlock (tid : ℕ)
  | wait (tid : ℕ)
  | waitForSeconds (tid : ℕ)
  /-- a thread is woken, if one is waiting -/
  | notify (chosen : Option (ℕ × Bool))
  | notifyAll
  | timeout (tid : ℕ)
  | spurious (tid : ℕ) (timed : Bool)
  /-- `wait` or `waitForSeconds` returns -/
  | waitReturns (tid : ℕ)
deriving DecidableEq, Repr

def step (m : MutexLock) : Step → Exec MutexLock
  | .lock tid => .ok (m.lock tid)
  | .unlock _ => .ok m.unlock
  | .wait tid => .ok (m.beginWait tid false)
  | .waitForSeconds tid => .ok (m.beginWait tid true)
  | .notify (some chosen) => .ok (m.wake chosen.1 chosen.2)
  | .notify none => .ok m
  | .notifyAll => .ok { m with waiting := [], woken := m.woken ++ m.waiting.map Prod.fst }
  | .timeout tid => .ok (m.wake tid true)
  | .spurious tid timed => .ok (m.wake tid timed)
  | .waitReturns tid => .ok (m.endWait tid)

/-- A thread is neither blocked nor on its way out of a wait. -/
def Runs (m : MutexLock) (tid : ℕ) : Prop := 0 < tid ∧ (∀ timed, (tid, timed) ∉ m.waiting) ∧ tid ∉ m.woken

instance (m : MutexLock) (tid : ℕ) : Decidable (m.Runs tid) := inferInstanceAs (Decidable (_ ∧ _ ∧ _))

/-- Threads unlock and wait only with the mutex, and `lock` and the end of a wait block while another has it. -/
def Enabled (m : MutexLock) : Step → Prop
  | .lock tid => m.Runs tid ∧ m.owner = none
  | .unlock tid | .wait tid | .waitForSeconds tid => m.owner = some tid
  | .notify (some chosen) => chosen ∈ m.waiting
  | .notify none => m.waiting = []
  | .notifyAll => True
  | .timeout tid => (tid, true) ∈ m.waiting
  | .spurious tid timed => (tid, timed) ∈ m.waiting
  | .waitReturns tid => tid ∈ m.woken ∧ m.owner = none

instance (m : MutexLock) : (i : Step) → Decidable (m.Enabled i)
  | .lock _ => inferInstanceAs (Decidable (_ ∧ _))
  | .unlock _ | .wait _ | .waitForSeconds _ => inferInstanceAs (Decidable (_ = _))
  | .notify (some _) => inferInstanceAs (Decidable (_ ∈ _))
  | .notify none => inferInstanceAs (Decidable (_ = _))
  | .notifyAll => inferInstanceAs (Decidable True)
  | .timeout _ | .spurious _ _ => inferInstanceAs (Decidable (_ ∈ _))
  | .waitReturns _ => inferInstanceAs (Decidable (_ ∧ _))

def Step.waits : Step → Bool
  | .wait _ | .waitForSeconds _ => true
  | .lock _ | .unlock _ | .notify _ | .notifyAll | .timeout _ | .spurious _ _ | .waitReturns _ => false

/-- `holder_` is the owner's `tid()`, and 0 if there is none; the questions of all threads are answered right. -/
structure HolderRight (m : MutexLock) : Prop where
  holder : m.holder_ = m.owner.getD 0
  locked : ∀ tid, 0 < tid → (m.isLockedByThisThread tid = true ↔ m.owner = some tid)

structure Unwaited (m : MutexLock) : Prop where
  holder : m.holder_ = m.owner.getD 0
  positive : ∀ tid, m.owner = some tid → 0 < tid
  waiting : m.waiting = []
  woken : m.woken = []

section Steps

variable {m m' : MutexLock}

theorem Unwaited.right (h : Unwaited m) : HolderRight m := by
  refine ⟨h.holder, fun tid htid => ?_⟩
  unfold isLockedByThisThread
  rw [decide_eq_true_iff, h.holder]
  cases hown : m.owner with
  | none => exact iff_of_false (Nat.ne_of_lt htid) (by simp)
  | some own => simp

theorem Unwaited.step (h : Unwaited m) {i : Step} (he : m.Enabled i) (hw : i.waits = false) (hs : m.step i = .ok m') :
    Unwaited m' := by
  have hwaiting := h.waiting
  have hwoken := h.woken
  cases i with
  | lock tid =>
    cases hs
    exact ⟨rfl, fun own hown => by rw [← Option.some.inj hown]; exact he.1.1, hwaiting, hwoken⟩
  | unlock tid =>
    cases hs
    exact ⟨rfl, fun _ hown => (by cases hown), hwaiting, hwoken⟩
  | wait tid => cases hw
  | waitForSeconds tid => cases hw
  | notify chosen =>
    cases chosen with
    | none =>
      cases hs
      exact h
    | some chosen =>
      have hmem : chosen ∈ m.waiting := he
      rw [hwaiting] at hmem
      cases hmem
  | notifyAll =>
    cases hs
    exact ⟨h.holder, h.positive, rfl, by rw [hwaiting, hwoken]; rfl⟩
  | timeout tid =>
    have hmem : (tid, true) ∈ m.waiting := he
    rw [hwaiting] at hmem
    cases hmem
  | spurious tid timed =>
    have hmem : (tid, timed) ∈ m.waiting := he
    rw [hwaiting] at hmem
    cases hmem
  | waitReturns tid =>
    have hmem := he.1
    rw [hwoken] at hmem
    cases hmem

/-- The wait gives up the mutex and leaves `holder_` as it is. -/
theorem wait_wrong {i : Step} (hr : HolderRight m) (hp : ∀ tid, m.owner = some tid → 0 < tid) (he : m.Enabled i)
    (hw : i.waits = true) (hs : m.step i = .ok m') : ¬HolderRight m' := by
  have hbegin {tid : ℕ} {timed : Bool} (howner : m.owner = some tid) (hm : m' = m.beginWait tid timed) : ¬HolderRight m' := by
    intro hr'
    have hheld : m.holder_ = 0 := by
      rw [hm] at hr'
      exact hr'.holder
    have hpos := hp tid howner
    have hholder := hr.holder
    rw [howner, hheld] at hholder
    exact absurd hholder (Nat.ne_of_lt hpos)
  cases i with
  | wait tid => exact hbegin he (Except.ok.inj hs).symm
  | waitForSeconds tid => exact hbegin he (Except.ok.inj hs).symm
  | _ => cases hw

theorem initial_unwaited : Unwaited {} := ⟨rfl, fun _ h => (by cases h), rfl, rfl⟩

theorem run_unwaited {steps : List Step} (h : Path step Enabled {} steps m) (hw : ∀ i ∈ steps, i.waits = false) :
    Unwaited m := by
  induction h with
  | nil => exact initial_unwaited
  | snoc i _ he hs ih =>
    exact (ih fun j hj => hw j (List.mem_append_left _ hj)).step he (hw i (List.mem_append_right _ (List.mem_singleton_self i))) hs

theorem no_wait_of_right {steps : List Step} (h : Path step Enabled {} steps m)
    (hr : ∀ pre post t, steps = pre ++ post → Path step Enabled {} pre t → HolderRight t) :
    ∀ i ∈ steps, i.waits = false := by
  induction h with
  | nil =>
    intro i hi
    cases hi
  | @snoc steps t u i hp he hs ih =>
    have hbefore := ih fun pre post v heq hv => hr pre (post ++ [i]) v (by rw [heq, List.append_assoc]) hv
    have ht := run_unwaited hp hbefore
    intro j hj
    rcases List.mem_append.mp hj with hj | hj
    · exact hbefore j hj
    · obtain rfl := List.mem_singleton.mp hj
      cases hw : j.waits with
      | false => rfl
      | true =>
        have hu := hr (steps ++ [j]) [] u (List.append_nil _).symm (Path.snoc j hp he hs)
        exact absurd hu (wait_wrong (hr steps [j] t rfl hp) ht.positive he hw hs)

/-- `holder_` names the owner in all states of a run exactly if no thread waits for the condition in it. -/
theorem holder_right_iff {steps : List Step} (h : Path step Enabled {} steps m) :
    (∀ pre post t, steps = pre ++ post → Path step Enabled {} pre t → HolderRight t) ↔ ∀ i ∈ steps, i.waits = false := by
  constructor
  · exact no_wait_of_right h
  · intro hw pre post t heq ht
    exact (run_unwaited ht fun i hi => hw i (by rw [heq]; exact List.mem_append_left _ hi)).right

end Steps

/-- Thread 2 takes and gives back the mutex while thread 1 waits, and wakes it. -/
def signalled : List Step := [.lock 1, .wait 1, .lock 2, .notify (some (1, false)), .unlock 2, .waitReturns 1]

-- A run without a wait.
theorem holder_right_iff_handover :
    ∃ m, Path step Enabled {} [.lock 1, .unlock 1, .lock 2, .notify none] m ∧
      ((∀ pre post t, [Step.lock 1, .unlock 1, .lock 2, .notify none] = pre ++ post → Path step Enabled {} pre t →
        HolderRight t) ↔ ∀ i ∈ [Step.lock 1, .unlock 1, .lock 2, .notify none], i.waits = false) := by
  have h : Path step Enabled {} [.lock 1, .unlock 1, .lock 2, .notify none] { holder_ := 2, owner := some 2 } :=
    Path.of_guardedRun (by decide)
  exact ⟨_, h, holder_right_iff h⟩

-- The wait has returned, but the thread that owns the mutex fails `assertLocked()`.
theorem holder_lost :
    ¬∀ (steps : List Step) (m : MutexLock), Path step Enabled {} steps m → HolderRight m := by
  intro h
  have hrun : Path step Enabled {} signalled { holder_ := 0, owner := some 1 } := Path.of_guardedRun (by decide)
  have hlocked := ((h signalled _ hrun).locked 1 (by decide)).mpr rfl
  exact absurd hlocked (by decide)

end MutexLock

end Networker
