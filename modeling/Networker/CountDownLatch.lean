import Mathlib.Logic.Function.Basic
import Networker.CheckedIntegers
import Networker.MutexHolder

/-!
`base/CountDownLatch.cpp` as its threads run it: every access to the mutex, the
condition and `count_` is a step of its own.
-/

namespace Networker

open CheckedRuns

/-- Where a thread is in `wait()` or `countDown()`. -/
inductive LatchPosition
  | outside
  | lockWait
  | test
  | block
  | blocked
  | unlockWait
  | lockCount
  | decrement
  | notify
  | unlockCount
deriving DecidableEq, Repr

/-- The thread is between taking the mutex and giving it back, and not in the condition. -/
def LatchPosition.holds : LatchPosition → Bool
  | .test | .block | .unlockWait | .decrement | .notify | .unlockCount => true
  | .outside | .lockWait | .blocked | .lockCount => false

/-- The thread is in `countDown()`. -/
def LatchPosition.inCount : LatchPosition → Bool
  | .lockCount | .decrement | .notify | .unlockCount => true
  | .outside | .lockWait | .test | .block | .blocked | .unlockWait => false

structure CountDownLatch where
  /-- the mutex, with the threads inside the waits of `condition_` -/
  mutex_ : MutexLock := {}
  count_ : ℤ
  position : ℕ → LatchPosition := fun _ => .outside
  /-- record: the threads whose `wait` has returned -/
  released : List ℕ := []

namespace CountDownLatch

inductive Step
  | wait (tid : ℕ)
  | countDown (tid : ℕ)
  /-- the next step of a thread that is inside -/
  | proceed (tid : ℕ)
  | spurious (tid : ℕ)
deriving DecidableEq, Repr

def move (l : CountDownLatch) (tid : ℕ) (p : LatchPosition) : CountDownLatch :=
  { l with position := Function.update l.position tid p }

def proceed (l : CountDownLatch) (tid : ℕ) : LatchPosition → Exec CountDownLatch
  | .outside => .ok l
  | .lockWait => .ok (move { l with mutex_ := l.mutex_.lock tid } tid .test)
  | .test => .ok (l.move tid (if 0 < l.count_ then .block else .unlockWait))
  | .block => .ok (move { l with mutex_ := l.mutex_.beginWait tid false } tid .blocked)
  | .blocked => .ok (move { l with mutex_ := l.mutex_.endWait tid } tid .test)
  | .unlockWait =>
    .ok (move { l with mutex_ := l.mutex_.unlock, released := l.released ++ [tid] } tid .outside)
  | .lockCount => .ok (move { l with mutex_ := l.mutex_.lock tid } tid .decrement)
  | .decrement => do
    let count_ ← int32 (l.count_ - 1)
    .ok (move { l with count_ } tid .notify)
  | .notify =>
    (if l.count_ = 0 then l.mutex_.step .notifyAll else .ok l.mutex_) >>= fun mutex_ =>
      .ok (move { l with mutex_ } tid .unlockCount)
  | .unlockCount => .ok (move { l with mutex_ := l.mutex_.unlock } tid .outside)

def step (l : CountDownLatch) : Step → Exec CountDownLatch
  | .wait tid => .ok (l.move tid .lockWait)
  | .countDown tid => .ok (l.move tid .lockCount)
  | .proceed tid => l.proceed tid (l.position tid)
  | .spurious tid => .ok { l with mutex_ := l.mutex_.wake tid false }

/-- A thread waits for the mutex while another has it, and in the condition until it is woken. -/
def Enabled (l : CountDownLatch) : Step → Prop
  | .wait tid | .countDown tid => 0 < tid ∧ l.position tid = .outside
  | .proceed tid => l.position tid ≠ .outside ∧
      (l.position tid = .lockWait ∨ l.position tid = .lockCount → l.mutex_.owner = none) ∧
      (l.position tid = .blocked → tid ∈ l.mutex_.woken ∧ l.mutex_.owner = none)
  | .spurious tid => (tid, false) ∈ l.mutex_.waiting

instance (l : CountDownLatch) : (s : Step) → Decidable (l.Enabled s)
  | .wait _ | .countDown _ => inferInstanceAs (Decidable (_ ∧ _))
  | .proceed _ => inferInstanceAs (Decidable (_ ∧ (_ ∨ _ → _) ∧ (_ → _)))
  | .spurious _ => inferInstanceAs (Decidable (_ ∈ _))

structure Latched (l : CountDownLatch) : Prop where
  owner : ∀ t, l.mutex_.owner = some t ↔ (l.position t).holds = true
  inside : ∀ t, l.position t = .blocked ↔ (t, false) ∈ l.mutex_.waiting ∨ t ∈ l.mutex_.woken
  untimed : ∀ x ∈ l.mutex_.waiting, x.2 = false
  nodup : (l.mutex_.waiting.map Prod.fst ++ l.mutex_.woken).Nodup
  blocks : ∀ t, l.position t = .block → 0 < l.count_
  leaves : ∀ t, l.position t = .unlockWait → l.count_ ≤ 0
  /-- who waits will be notified, or is about to be -/
  notified : l.mutex_.waiting ≠ [] → 0 < l.count_ ∨ l.count_ = 0 ∧ ∃ t, l.position t = .notify
  released : l.released ≠ [] → l.count_ ≤ 0

section Steps

variable {l l' : CountDownLatch} {tid : ℕ} {p : LatchPosition}

theorem move_cases (l : CountDownLatch) (tid : ℕ) (p : LatchPosition) (t : ℕ) :
    t = tid ∧ (l.move tid p).position t = p ∨ t ≠ tid ∧ (l.move tid p).position t = l.position t := by
  by_cases ht : t = tid
  · exact Or.inl ⟨ht, by simp [move, ht]⟩
  · exact Or.inr ⟨ht, by simp [move, ht]⟩

theorem Latched.unique (h : Latched l) {t u : ℕ} (ht : (l.position t).holds = true) (hu : (l.position u).holds = true) :
    t = u :=
  Option.some.inj (((h.owner t).mpr ht).symm.trans ((h.owner u).mpr hu))

theorem Latched.not_waiting (h : Latched l) (hp : l.position tid ≠ .blocked) :
    (tid, false) ∉ l.mutex_.waiting ∧ tid ∉ l.mutex_.woken :=
  ⟨fun hm => hp ((h.inside tid).mpr (Or.inl hm)), fun hm => hp ((h.inside tid).mpr (Or.inr hm))⟩

/-- A thread goes on without touching the mutex or the condition. -/
theorem Latched.moves (h : Latched l) (hh : p.holds = (l.position tid).holds) (hp : p ≠ .blocked)
    (hfrom : l.position tid ≠ .blocked) (hblock : p = .block → 0 < l.count_) (hleave : p = .unlockWait → l.count_ ≤ 0)
    (hnotify : l.position tid = .notify → p = .notify ∨ l.count_ ≠ 0 ∨ l.mutex_.waiting = []) :
    Latched (l.move tid p) := by
  have hcases := l.move_cases tid p
  refine ⟨fun t => ?_, fun t => ?_, h.untimed, h.nodup, fun t ht => ?_, fun t ht => ?_, fun hw => ?_, h.released⟩
  · rcases hcases t with ⟨rfl, hpos⟩ | ⟨-, hpos⟩
    · rw [hpos, hh]
      exact h.owner t
    · rw [hpos]
      exact h.owner t
  · rcases hcases t with ⟨rfl, hpos⟩ | ⟨-, hpos⟩
    · have hnot := h.not_waiting hfrom
      rw [hpos]
      exact iff_of_false hp (not_or.mpr hnot)
    · rw [hpos]
      exact h.inside t
  · rcases hcases t with ⟨-, hpos⟩ | ⟨-, hpos⟩
    · exact hblock (hpos ▸ ht)
    · exact h.blocks t (hpos ▸ ht)
  · rcases hcases t with ⟨-, hpos⟩ | ⟨-, hpos⟩
    · exact hleave (hpos ▸ ht)
    · exact h.leaves t (hpos ▸ ht)
  · rcases h.notified hw with hc | ⟨hc, t, ht⟩
    · exact Or.inl hc
    · refine Or.inr ⟨hc, t, ?_⟩
      rcases hcases t with ⟨rfl, hpos⟩ | ⟨-, hpos⟩
      · rw [hpos]
        exact (hnotify ht).resolve_right (not_or.mpr ⟨fun hn => hn hc, hw⟩)
      · rw [hpos, ht]

/-- A thread takes the free mutex, from outside the condition or on its way out of it. -/
theorem Latched.takes (h : Latched l) (hfree : l.mutex_.owner = none) (hp : p = .test ∨ p = .decrement)
    (hw : (tid, false) ∉ l.mutex_.waiting) {m : MutexLock} (hm : m.owner = some tid)
    (hmw : m.waiting = l.mutex_.waiting) (hmk : m.woken = l.mutex_.woken.erase tid) :
    Latched (move { l with mutex_ := m } tid p) := by
  have hholds : p.holds = true := by rcases hp with rfl | rfl <;> rfl
  have hfalse (t : ℕ) : (l.position t).holds = false := by
    rw [← Bool.not_eq_true, ← h.owner t, hfree]
    simp
  have hcases := move_cases { l with mutex_ := m } tid p
  have hnodup := List.nodup_append.mp h.nodup
  refine ⟨fun t => ?_, fun t => ?_, fun x hx => h.untimed x (hmw ▸ hx), ?_, fun t ht => ?_, fun t ht => ?_,
    fun hne => ?_, h.released⟩
  · change m.owner = some t ↔ _
    rcases hcases t with ⟨rfl, hpos⟩ | ⟨hne, hpos⟩
    · rw [hpos]
      exact iff_of_true hm hholds
    · rw [hpos, hm, hfalse t]
      simp [Ne.symm hne]
  · change _ ↔ (t, false) ∈ m.waiting ∨ t ∈ m.woken
    rw [hmw, hmk]
    rcases hcases t with ⟨rfl, hpos⟩ | ⟨hne, hpos⟩
    · rw [hpos]
      refine iff_of_false ?_ (not_or.mpr ⟨hw, hnodup.2.1.not_mem_erase⟩)
      rcases hp with rfl | rfl <;> decide
    · rw [hpos, List.mem_erase_of_ne hne]
      exact h.inside t
  · change (m.waiting.map Prod.fst ++ m.woken).Nodup
    rw [hmw, hmk]
    exact h.nodup.sublist ((List.Sublist.refl _).append List.erase_sublist)
  · rcases hcases t with ⟨-, hpos⟩ | ⟨-, hpos⟩
    · rcases hp with rfl | rfl <;> exact absurd (hpos.symm.trans ht) (by decide)
    · exact h.blocks t (hpos ▸ ht)
  · rcases hcases t with ⟨-, hpos⟩ | ⟨-, hpos⟩
    · rcases hp with rfl | rfl <;> exact absurd (hpos.symm.trans ht) (by decide)
    · exact h.leaves t (hpos ▸ ht)
  · rcases h.notified (hmw ▸ hne) with hc | ⟨-, t, ht⟩
    · exact Or.inl hc
    · have hf := hfalse t
      rw [ht] at hf
      cases hf

/-- A thread gives the mutex back and is outside. -/
theorem Latched.gives (h : Latched l) (hp : l.position tid = .unlockWait ∨ l.position tid = .unlockCount) {r : List ℕ}
    (hr : r ≠ [] → l.count_ ≤ 0) :
    Latched (move { l with mutex_ := l.mutex_.unlock, released := r } tid .outside) := by
  have hheld : (l.position tid).holds = true := by rcases hp with hp | hp <;> rw [hp] <;> rfl
  have hcases := move_cases { l with mutex_ := l.mutex_.unlock, released := r } tid .outside
  refine ⟨fun t => ?_, fun t => ?_, h.untimed, h.nodup, fun t ht => ?_, fun t ht => ?_, fun hw => ?_, hr⟩
  · refine iff_of_false (by simp [move, MutexLock.unlock]) ?_
    rcases hcases t with ⟨-, hpos⟩ | ⟨hne, hpos⟩
    · simp [hpos, LatchPosition.holds]
    · rw [hpos]
      exact fun ht => hne (h.unique ht hheld)
  · rcases hcases t with ⟨rfl, hpos⟩ | ⟨-, hpos⟩
    · have hnot : (t, false) ∉ l.mutex_.waiting ∧ t ∉ l.mutex_.woken :=
        h.not_waiting (by rcases hp with hp | hp <;> rw [hp] <;> decide)
      rw [hpos]
      exact iff_of_false (by decide) (not_or.mpr hnot)
    · rw [hpos]
      exact h.inside t
  · rcases hcases t with ⟨-, hpos⟩ | ⟨-, hpos⟩
    · exact absurd (hpos.symm.trans ht) (by decide)
    · exact h.blocks t (hpos ▸ ht)
  · rcases hcases t with ⟨-, hpos⟩ | ⟨-, hpos⟩
    · exact absurd (hpos.symm.trans ht) (by decide)
    · exact h.leaves t (hpos ▸ ht)
  · refine (h.notified hw).imp id (And.imp id ?_)
    rintro ⟨t, ht⟩
    refine ⟨t, ?_⟩
    rcases hcases t with ⟨rfl, -⟩ | ⟨-, hpos⟩
    · rcases hp with hp | hp <;> exact absurd (hp.symm.trans ht) (by decide)
    · rw [hpos, ht]

/-- A thread that has found `count_` above zero gives up the mutex and blocks. -/
theorem Latched.waits (h : Latched l) (hp : l.position tid = .block) :
    Latched (move { l with mutex_ := l.mutex_.beginWait tid false } tid .blocked) := by
  have hheld : (l.position tid).holds = true := by rw [hp]; rfl
  have hnot : (tid, false) ∉ l.mutex_.waiting ∧ tid ∉ l.mutex_.woken := h.not_waiting (by rw [hp]; decide)
  have hcases := move_cases { l with mutex_ := l.mutex_.beginWait tid false } tid .blocked
  refine ⟨fun t => ?_, fun t => ?_, fun x hx => ?_, ?_, fun t ht => ?_, fun t ht => ?_, fun _ => Or.inl (h.blocks tid hp),
    h.released⟩
  · refine iff_of_false (by simp [move, MutexLock.beginWait]) ?_
    rcases hcases t with ⟨-, hpos⟩ | ⟨hne, hpos⟩
    · simp [hpos, LatchPosition.holds]
    · rw [hpos]
      exact fun ht => hne (h.unique ht hheld)
  · change _ ↔ (t, false) ∈ l.mutex_.waiting ++ [(tid, false)] ∨ t ∈ l.mutex_.woken
    rcases hcases t with ⟨rfl, hpos⟩ | ⟨hne, hpos⟩
    · simp [hpos]
    · rw [hpos]
      simpa [hne] using h.inside t
  · rcases List.mem_append.mp hx with hx | hx
    · exact h.untimed x hx
    · rw [List.mem_singleton.mp hx]
  · change ((l.mutex_.waiting ++ [(tid, false)]).map Prod.fst ++ l.mutex_.woken).Nodup
    have htid : tid ∉ l.mutex_.waiting.map Prod.fst := by
      intro hm
      obtain ⟨⟨u, timed⟩, hx, rfl⟩ := List.mem_map.mp hm
      cases h.untimed _ hx
      exact hnot.1 hx
    have hperm : ((l.mutex_.waiting ++ [(tid, false)]).map Prod.fst ++ l.mutex_.woken).Perm
        (tid :: (l.mutex_.waiting.map Prod.fst ++ l.mutex_.woken)) := by
      simp [List.perm_middle]
    exact hperm.nodup_iff.mpr (List.nodup_cons.mpr ⟨fun hm => (List.mem_append.mp hm).elim htid hnot.2, h.nodup⟩)
  · rcases hcases t with ⟨-, hpos⟩ | ⟨-, hpos⟩
    · exact absurd (hpos.symm.trans ht) (by decide)
    · exact h.blocks t (hpos ▸ ht)
  · rcases hcases t with ⟨-, hpos⟩ | ⟨-, hpos⟩
    · exact absurd (hpos.symm.trans ht) (by decide)
    · exact h.leaves t (hpos ▸ ht)

theorem Latched.wakes (h : Latched l) (hw : (tid, false) ∈ l.mutex_.waiting) :
    Latched { l with mutex_ := l.mutex_.wake tid false } := by
  have hsub : l.mutex_.waiting.erase (tid, false) ⊆ l.mutex_.waiting := List.erase_subset
  refine ⟨h.owner, fun t => ?_, fun x hx => h.untimed x (hsub hx), ?_, h.blocks, h.leaves, fun hne => h.notified ?_, h.released⟩
  · change _ ↔ (t, false) ∈ l.mutex_.waiting.erase (tid, false) ∨ t ∈ l.mutex_.woken ++ [tid]
    rw [h.inside t]
    by_cases ht : t = tid
    · simp [ht, hw]
    · have hne : (t, false) ≠ (tid, false) := fun he => ht (congrArg Prod.fst he)
      rw [List.mem_erase_of_ne hne]
      simp [ht]
  · change ((l.mutex_.waiting.erase (tid, false)).map Prod.fst ++ (l.mutex_.woken ++ [tid])).Nodup
    have hperm : ((l.mutex_.waiting.erase (tid, false)).map Prod.fst ++ (l.mutex_.woken ++ [tid])).Perm
        (l.mutex_.waiting.map Prod.fst ++ l.mutex_.woken) := by
      have hmap := (List.perm_cons_erase hw).map Prod.fst
      calc (l.mutex_.waiting.erase (tid, false)).map Prod.fst ++ (l.mutex_.woken ++ [tid])
        _ |>.Perm ((l.mutex_.waiting.erase (tid, false)).map Prod.fst ++ (tid :: l.mutex_.woken)) :=
          (List.perm_append_singleton tid _).append_left _
        _ |>.Perm (tid :: ((l.mutex_.waiting.erase (tid, false)).map Prod.fst ++ l.mutex_.woken)) := List.perm_middle
        _ |>.Perm (l.mutex_.waiting.map Prod.fst ++ l.mutex_.woken) := (hmap.symm.append_right _)
    exact hperm.nodup_iff.mpr h.nodup
  · intro hnil
    rw [hnil] at hw
    cases hw

/-- `count_` goes down by one; who finds it at zero notifies all. -/
theorem Latched.counts (h : Latched l) (hp : l.position tid = .decrement) :
    Latched (move { l with count_ := l.count_ - 1 } tid .notify) := by
  have hheld : (l.position tid).holds = true := by rw [hp]; rfl
  have hcases := move_cases { l with count_ := l.count_ - 1 } tid .notify
  refine ⟨fun t => ?_, fun t => ?_, h.untimed, h.nodup, fun t ht => ?_, fun t ht => ?_, fun hw => ?_, fun hr => ?_⟩
  · rcases hcases t with ⟨rfl, hpos⟩ | ⟨-, hpos⟩
    · rw [hpos]
      exact (h.owner t).trans (iff_of_true hheld rfl)
    · rw [hpos]
      exact h.owner t
  · rcases hcases t with ⟨rfl, hpos⟩ | ⟨-, hpos⟩
    · have hnot : (t, false) ∉ l.mutex_.waiting ∧ t ∉ l.mutex_.woken := h.not_waiting (by rw [hp]; decide)
      rw [hpos]
      exact iff_of_false (by decide) (not_or.mpr hnot)
    · rw [hpos]
      exact h.inside t
  · rcases hcases t with ⟨-, hpos⟩ | ⟨hne, hpos⟩
    · exact absurd (hpos.symm.trans ht) (by decide)
    · rw [hpos] at ht
      exact absurd (h.unique (by rw [ht]; rfl) hheld) hne
  · rcases hcases t with ⟨-, hpos⟩ | ⟨hne, hpos⟩
    · exact absurd (hpos.symm.trans ht) (by decide)
    · rw [hpos] at ht
      exact absurd (h.unique (by rw [ht]; rfl) hheld) hne
  · change 0 < l.count_ - 1 ∨ l.count_ - 1 = 0 ∧ _
    have hpos : 0 < l.count_ := by
      rcases h.notified hw with hc | ⟨-, t, ht⟩
      · exact hc
      · have heq := h.unique (t := t) (by rw [ht]; rfl) hheld
        exact absurd (ht.symm.trans (heq ▸ hp)) (by decide)
    rcases (show 1 < l.count_ ∨ l.count_ = 1 by omega) with hc | hc
    · exact Or.inl (by omega)
    · refine Or.inr ⟨by omega, tid, ?_⟩
      simp [move]
  · change l.count_ - 1 ≤ 0
    have := h.released hr
    omega

theorem Latched.notifies (h : Latched l) (hp : l.position tid = .notify) :
    Latched (move { l with mutex_ := { l.mutex_ with
      waiting := [], woken := l.mutex_.woken ++ l.mutex_.waiting.map Prod.fst } } tid .unlockCount) := by
  have hwoken : Latched { l with mutex_ := { l.mutex_ with
      waiting := [], woken := l.mutex_.woken ++ l.mutex_.waiting.map Prod.fst } } := by
    refine ⟨h.owner, fun t => ?_, by simp, ?_, h.blocks, h.leaves, by simp, h.released⟩
    · rw [h.inside t, List.mem_append]
      have hmap : t ∈ l.mutex_.waiting.map Prod.fst ↔ (t, false) ∈ l.mutex_.waiting := by
        constructor
        · intro hm
          obtain ⟨⟨u, timed⟩, hx, rfl⟩ := List.mem_map.mp hm
          cases h.untimed _ hx
          exact hx
        · exact fun hm => List.mem_map.mpr ⟨_, hm, rfl⟩
      rw [hmap]
      simp [or_comm]
    · simpa using (List.perm_append_comm.nodup_iff.mp h.nodup)
  exact hwoken.moves (by rw [show _ = _ from hp]; rfl) (by decide) (by rw [show _ = _ from hp]; decide)
    (by simp) (by simp) fun _ => Or.inr (Or.inr rfl)

theorem int32_ok {x y : ℤ} (h : int32 x = .ok y) : y = x := by
  unfold int32 signed at h
  split_ifs at h
  exact (Except.ok.inj h).symm

theorem Latched.proceed (h : Latched l) (he : l.Enabled (.proceed tid)) (hs : l.proceed tid (l.position tid) = .ok l') :
    Latched l' := by
  obtain ⟨hin, hlock, hwake⟩ := he
  cases hp : l.position tid with
  | outside => exact absurd hp hin
  | lockWait =>
    rw [hp] at hs
    cases hs
    have hnot : (tid, false) ∉ l.mutex_.waiting ∧ tid ∉ l.mutex_.woken := h.not_waiting (by rw [hp]; decide)
    exact h.takes (hlock (Or.inl hp)) (Or.inl rfl) hnot.1 rfl rfl (List.erase_of_not_mem hnot.2).symm
  | test =>
    rw [hp] at hs
    cases hs
    split_ifs with hc
    · exact h.moves (by rw [hp]; rfl) (by decide) (by rw [hp]; decide) (fun _ => hc) (by simp) (by simp [hp])
    · exact h.moves (by rw [hp]; rfl) (by decide) (by rw [hp]; decide) (by simp) (fun _ => Int.not_lt.mp hc) (by simp [hp])
  | block =>
    rw [hp] at hs
    cases hs
    exact h.waits hp
  | blocked =>
    rw [hp] at hs
    cases hs
    obtain ⟨hwoken, hfree⟩ := hwake hp
    have hdisjoint := (List.nodup_append.mp h.nodup).2.2
    have hw : (tid, false) ∉ l.mutex_.waiting := fun hm =>
      hdisjoint tid (List.mem_map.mpr ⟨_, hm, rfl⟩) tid hwoken rfl
    exact h.takes hfree (Or.inl rfl) hw rfl rfl rfl
  | unlockWait =>
    rw [hp] at hs
    cases hs
    exact h.gives (Or.inl hp) fun _ => h.leaves tid hp
  | lockCount =>
    rw [hp] at hs
    cases hs
    have hnot : (tid, false) ∉ l.mutex_.waiting ∧ tid ∉ l.mutex_.woken := h.not_waiting (by rw [hp]; decide)
    exact h.takes (hlock (Or.inr hp)) (Or.inr rfl) hnot.1 rfl rfl (List.erase_of_not_mem hnot.2).symm
  | decrement =>
    rw [hp] at hs
    obtain ⟨count, hc, heq⟩ := bind_eq_ok.mp hs
    cases heq
    rw [int32_ok hc]
    exact h.counts hp
  | notify =>
    rw [hp] at hs
    obtain ⟨m, hm, heq⟩ := bind_eq_ok.mp hs
    cases heq
    split_ifs at hm with hc
    · cases hm
      exact h.notifies hp
    · cases hm
      exact h.moves (by rw [hp]; rfl) (by decide) (by rw [hp]; decide) (by simp) (by simp) fun _ => Or.inr (Or.inl hc)
  | unlockCount =>
    rw [hp] at hs
    cases hs
    exact h.gives (Or.inr hp) h.released

theorem Latched.step (h : Latched l) {s : Step} (he : l.Enabled s) (hs : l.step s = .ok l') : Latched l' := by
  cases s with
  | wait tid =>
    cases hs
    have hp := he.2
    exact h.moves (by rw [hp]; rfl) (by decide) (by rw [hp]; decide) (by simp) (by simp) (by simp [hp])
  | countDown tid =>
    cases hs
    have hp := he.2
    exact h.moves (by rw [hp]; rfl) (by decide) (by rw [hp]; decide) (by simp) (by simp) (by simp [hp])
  | proceed tid => exact h.proceed he hs
  | spurious tid =>
    cases hs
    exact h.wakes he

theorem initial_latched (count : ℤ) : Latched { count_ := count } := by
  constructor <;> simp [LatchPosition.holds]

/-- Where a thread's next step brings it. -/
def next (l : CountDownLatch) : LatchPosition → LatchPosition
  | .outside | .unlockWait | .unlockCount => .outside
  | .lockWait | .blocked => .test
  | .test => if 0 < l.count_ then .block else .unlockWait
  | .block => .blocked
  | .lockCount => .decrement
  | .decrement => .notify
  | .notify => .unlockCount

theorem next_inCount (l : CountDownLatch) (h : p.inCount = false) : (l.next p).inCount = false := by
  cases p with
  | test =>
    unfold next
    split_ifs <;> rfl
  | lockCount | decrement | notify | unlockCount => cases h
  | _ => rfl

theorem next_ne_outside (l : CountDownLatch) (h : p.inCount = false) (ho : p ≠ .outside) (hu : p ≠ .unlockWait) :
    l.next p ≠ .outside := by
  cases p with
  | outside => exact absurd rfl ho
  | unlockWait => exact absurd rfl hu
  | test =>
    unfold next
    split_ifs <;> decide
  | lockCount | decrement | notify | unlockCount => cases h
  | lockWait | block | blocked => simp [next]

theorem next_eq_unlockWait (l : CountDownLatch) (h : l.next p = .unlockWait) : p = .test := by
  cases p with
  | test => rfl
  | _ => cases h

theorem proceed_effect (hs : l.proceed tid (l.position tid) = .ok l') :
    l'.position = Function.update l.position tid (l.next (l.position tid)) ∧
      l'.count_ = (if l.position tid = .decrement then l.count_ - 1 else l.count_) ∧
      l'.released = if l.position tid = .unlockWait then l.released ++ [tid] else l.released := by
  cases hp : l.position tid with
  | outside =>
    rw [hp] at hs
    cases hs
    refine ⟨?_, rfl, rfl⟩
    rw [next, ← hp, Function.update_eq_self]
  | decrement =>
    rw [hp] at hs
    obtain ⟨count, hc, heq⟩ := bind_eq_ok.mp hs
    cases heq
    exact ⟨rfl, int32_ok hc, rfl⟩
  | notify =>
    rw [hp] at hs
    obtain ⟨m, -, heq⟩ := bind_eq_ok.mp hs
    cases heq
    exact ⟨rfl, rfl, rfl⟩
  | _ =>
    rw [hp] at hs
    cases hs
    exact ⟨rfl, rfl, rfl⟩

theorem proceed_ok (l : CountDownLatch) (tid : ℕ) (p : LatchPosition)
    (h : p = .decrement → -2147483648 < l.count_ ∧ l.count_ ≤ 2147483647) : ∃ l', l.proceed tid p = .ok l' := by
  cases p with
  | decrement =>
    have hc := h rfl
    exact ⟨_, int32_bind (by omega)⟩
  | notify =>
    by_cases hc : l.count_ = 0
    · exact ⟨_, bind_eq_ok.mpr ⟨_, by rw [if_pos hc]; rfl, rfl⟩⟩
    · exact ⟨_, bind_eq_ok.mpr ⟨_, by rw [if_neg hc], rfl⟩⟩
  | _ => exact ⟨_, rfl⟩

theorem Latched.owner_enabled (h : Latched l) (hown : l.mutex_.owner = some tid) : l.Enabled (.proceed tid) := by
  have hheld := (h.owner tid).mp hown
  refine ⟨?_, ?_, ?_⟩
  · intro hp
    simp [hp, LatchPosition.holds] at hheld
  · rintro (hp | hp) <;> simp [hp, LatchPosition.holds] at hheld
  · intro hp
    simp [hp, LatchPosition.holds] at hheld

/-- Nobody is blocked for good: a thread inside can go on, or the one that has the mutex can. -/
theorem Latched.progress (h : Latched l) (hc : l.count_ ≤ 0) (ht : l.position tid ≠ .outside) :
    ∃ u, l.Enabled (.proceed u) := by
  cases hown : l.mutex_.owner with
  | some u => exact ⟨u, h.owner_enabled hown⟩
  | none =>
    refine ⟨tid, ht, fun _ => hown, fun hp => ⟨?_, hown⟩⟩
    refine ((h.inside tid).mp hp).resolve_left fun hw => ?_
    rcases h.notified (List.ne_nil_of_mem hw) with hpos | ⟨-, u, hu⟩
    · omega
    · have howner := (h.owner u).mpr (by rw [hu]; rfl)
      rw [hown] at howner
      cases howner

end Steps

/-- `wait` returns only when `count_` has reached zero; from then on, and while no thread is in the middle of a call,
none is blocked in the condition; and a thread that is inside is never stuck. Threads may wake up for no reason. -/
theorem latch_releases {count : ℤ} {l : CountDownLatch} {steps : List Step}
    (h : Path step Enabled { count_ := count } steps l) :
    (l.released ≠ [] → l.count_ ≤ 0) ∧
      (l.count_ ≤ 0 → l.mutex_.owner = none → l.mutex_.waiting = []) ∧
      (l.count_ ≤ 0 → (∃ t, l.position t ≠ .outside) → ∃ t, l.Enabled (.proceed t)) := by
  have hinv : Latched l := h.invariant (initial_latched count) fun _ _ _ ht ha hs => ht.step ha hs
  refine ⟨hinv.released, fun hc hfree => ?_, fun hc ⟨t, ht⟩ => hinv.progress hc ht⟩
  by_contra hw
  rcases hinv.notified hw with hpos | ⟨-, t, ht⟩
  · omega
  · have howner := (hinv.owner t).mpr (by rw [ht]; rfl)
    rw [hfree] at howner
    cases howner

/-- Thread 1 wakes up for no reason before thread 2 counts down. -/
theorem latch_releases_spurious :
    let steps : List Step := [.wait 1, .proceed 1, .proceed 1, .proceed 1, .spurious 1, .proceed 1, .proceed 1, .proceed 1,
      .countDown 2, .proceed 2, .proceed 2, .proceed 2, .proceed 2, .proceed 1, .proceed 1, .proceed 1]
    ∃ l, Path step Enabled { count_ := 1 } steps l ∧ l.released = [1] ∧ l.count_ ≤ 0 := by
  intro steps
  obtain ⟨l, hl, hr⟩ := Path.exists_of_any step Enabled { count_ := 1 } steps (fun l => decide (l.released = [1]))
    (by decide +kernel)
  have hr := of_decide_eq_true hr
  exact ⟨l, hl, hr, (latch_releases hl).1 (by simp [hr])⟩

end CountDownLatch

end Networker
