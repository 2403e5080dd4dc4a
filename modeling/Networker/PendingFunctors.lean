import Networker.EventLoopModel

/-!
What the functor queue guarantees: a loop that blocks in `poll` is woken for every
functor that waits, and functors are called once, in the order of their pushes. The
constructor leaves `callingPendingFunctors_` without a value, so that a run may start
with either one.
-/

namespace Networker

open CheckedRuns

namespace Phase

variable {φ : Type}

-- the swap of this iteration is still to come
def beforeSwap : Phase φ → Bool
  | .handle _ | .handler _ | .swap => true
  | .outside | .entered | .test | .poll | .call _ | .functor _ => false

def inPass : Phase φ → Bool
  | .swap | .call _ | .functor _ => true
  | .outside | .entered | .test | .poll | .handle _ | .handler _ => false

end Phase

namespace EventLoop

variable {φ : Type}

/-- The loop thread pushes from its event handlers and functors only, not before `loop()`. -/
def WhileLooping (s : EventLoop φ) : Step φ → Prop
  | .queueInLoop isInLoopThread _ => isInLoopThread = true → s.looping = true
  | .wakeup _ | .quit _ | .quitWakeup | .proceed _ => True

instance (s : EventLoop φ) : (i : Step φ) → Decidable (s.WhileLooping i)
  | .queueInLoop _ _ => inferInstanceAs (Decidable (_ → _))
  | .wakeup _ | .quit _ | .quitWakeup | .proceed _ => inferInstanceAs (Decidable True)

/-- A push outside `loop()` writes to the eventfd, or finds it readable, or finds another thread about to
write to it. -/
def Covered (s : EventLoop φ) : Step φ → Prop
  | .queueInLoop true _ => s.phase = .outside → s.callingPendingFunctors = true ∨ 0 < s.wakeupFd ∨ 0 < s.pushers
  | .queueInLoop false _ | .wakeup _ | .quit _ | .quitWakeup | .proceed _ => True

instance [DecidableEq φ] (s : EventLoop φ) : (i : Step φ) → Decidable (s.Covered i)
  | .queueInLoop true _ => inferInstanceAs (Decidable (_ → _))
  | .queueInLoop false _ | .wakeup _ | .quit _ | .quitWakeup | .proceed _ => inferInstanceAs (Decidable True)

theorem wakeup_pos (s : EventLoop φ) : 0 < s.wakeup.wakeupFd := by
  by_cases h : s.wakeupFd < maxCounter
  · rw [wakeup, if_pos h]
    exact Nat.succ_pos _
  · rw [wakeup, if_neg h]
    simp only [maxCounter] at h
    show 0 < s.wakeupFd
    omega

/-- What the flags of the loop thread say of its phase if nothing is known of their first values. -/
structure Flagged (s : EventLoop φ) : Prop where
  looping : s.looping = false ↔ s.phase = .outside
  calling : s.phase.inPass = true → s.callingPendingFunctors = true
  owes : s.owesWakeup = true → s.phase ≠ .poll

structure Wakes (s : EventLoop φ) : Prop extends Flagged s where
  wakes : s.pendingFunctors ≠ [] →
    s.phase.beforeSwap = true ∨ 0 < s.wakeupFd ∨ 0 < s.pushers ∨ s.owesWakeup = true

-- after a start with a clear flag, the flags say in which phase the loop thread is
structure Phased (s : EventLoop φ) : Prop extends Flagged s where
  inPass : s.callingPendingFunctors = true → s.phase.inPass = true
  functor : s.owesWakeup = true → ∃ functors, s.phase = .functor functors

theorem initial_flagged (flag : Bool) : Flagged ({ callingPendingFunctors := flag } : EventLoop φ) where
  looping := by simp
  calling h := by cases h
  owes h := by cases h

theorem initial_wakes (flag : Bool) : Wakes ({ callingPendingFunctors := flag } : EventLoop φ) :=
  ⟨initial_flagged flag, fun h => absurd rfl h⟩

theorem initial_phased : Phased ({} : EventLoop φ) := ⟨initial_flagged false, by simp, by simp⟩

section Steps

variable {s t : EventLoop φ}

theorem inUserCode_cases (h : s.inUserCode = true) :
    s.owesWakeup = false ∧
      (s.phase = .outside ∨ (∃ active, s.phase = .handler active) ∨ ∃ functors, s.phase = .functor functors) := by
  unfold inUserCode at h
  simp only [Bool.decide_and, Bool.and_eq_true, decide_eq_true_eq] at h
  refine ⟨h.1, ?_⟩
  have hp := h.2
  split at hp
  · next he => exact Or.inl he
  · next active he => exact Or.inr (Or.inl ⟨active, he⟩)
  · next functors he => exact Or.inr (Or.inr ⟨functors, he⟩)
  · cases hp

theorem inUserCode_phase (h : s.inUserCode = true) :
    s.phase = .outside ∨ s.phase.beforeSwap = true ∨ s.phase.inPass = true := by
  obtain ⟨-, hp | ⟨active, hp⟩ | ⟨functors, hp⟩⟩ := inUserCode_cases h
  · exact Or.inl hp
  · exact Or.inr (Or.inl (by rw [hp]; rfl))
  · exact Or.inr (Or.inr (by rw [hp]; rfl))

theorem inUserCode_not_poll (h : s.inUserCode = true) : s.phase ≠ .poll := by
  obtain ⟨-, hp | ⟨active, hp⟩ | ⟨functors, hp⟩⟩ := inUserCode_cases h <;> simp [hp]

theorem queueInLoop_calling (h : s.callingPendingFunctors = true) (f : φ) :
    s.queueInLoop true f = { s with
      pendingFunctors := s.pendingFunctors ++ [f]
      pushed := s.pushed ++ [f]
      owesWakeup := true } := if_pos h

theorem queueInLoop_handling (h : s.callingPendingFunctors = false) (f : φ) :
    s.queueInLoop true f = { s with
      pendingFunctors := s.pendingFunctors ++ [f]
      pushed := s.pushed ++ [f] } := if_neg (by simp [h])

theorem Flagged.queueInLoop (h : Flagged s) {isInLoopThread : Bool} {f : φ}
    (he : isInLoopThread = true → s.inUserCode = true) : Flagged (s.queueInLoop isInLoopThread f) := by
  cases isInLoopThread with
  | false => exact { h with }
  | true =>
    cases hc : s.callingPendingFunctors with
    | false =>
      rw [queueInLoop_handling hc]
      exact { h with }
    | true =>
      have hpoll := inUserCode_not_poll (he rfl)
      rw [queueInLoop_calling hc]
      exact ⟨h.looping, h.calling, fun _ => hpoll⟩

theorem Phased.queueInLoop (h : Phased s) {isInLoopThread : Bool} {f : φ}
    (he : isInLoopThread = true → s.inUserCode = true) : Phased (s.queueInLoop isInLoopThread f) := by
  have hflagged : Flagged (s.queueInLoop isInLoopThread f) := h.toFlagged.queueInLoop he
  cases isInLoopThread with
  | false => exact ⟨hflagged, h.inPass, h.functor⟩
  | true =>
    cases hc : s.callingPendingFunctors with
    | false =>
      rw [queueInLoop_handling hc] at hflagged ⊢
      exact ⟨hflagged, h.inPass, h.functor⟩
    | true =>
      rw [queueInLoop_calling hc] at hflagged ⊢
      have hpass := h.inPass hc
      obtain ⟨-, hp | ⟨active, hp⟩ | ⟨functors, hp⟩⟩ := inUserCode_cases (he rfl)
      · rw [hp] at hpass
        cases hpass
      · rw [hp] at hpass
        cases hpass
      · exact ⟨hflagged, h.inPass, fun _ => ⟨functors, hp⟩⟩

theorem Wakes.queueInLoop (h : Wakes s) {isInLoopThread : Bool} {f : φ}
    (he : isInLoopThread = true → s.inUserCode = true) (hc : s.Covered (.queueInLoop isInLoopThread f)) :
    Wakes (s.queueInLoop isInLoopThread f) := by
  refine ⟨h.toFlagged.queueInLoop he, fun _ => ?_⟩
  cases isInLoopThread with
  | false => exact Or.inr (Or.inr (Or.inl (Nat.succ_pos _)))
  | true =>
    cases hflag : s.callingPendingFunctors with
    | true =>
      rw [queueInLoop_calling hflag]
      exact Or.inr (Or.inr (Or.inr rfl))
    | false =>
      rw [queueInLoop_handling hflag]
      rcases inUserCode_phase (he rfl) with hout | hbefore | hpass
      · rcases hc hout with hcalling | hreadable | hpusher
        · rw [hflag] at hcalling
          cases hcalling
        · exact Or.inr (Or.inl hreadable)
        · exact Or.inr (Or.inr (Or.inl hpusher))
      · exact Or.inl hbefore
      · have hcalling := h.calling hpass
        rw [hflag] at hcalling
        cases hcalling

/-- While the loop runs, no push is made outside of it. -/
theorem Flagged.covered (h : Flagged s) {i : Step φ} (hl : s.WhileLooping i) : s.Covered i := by
  cases i with
  | queueInLoop isInLoopThread f =>
    cases isInLoopThread with
    | false => trivial
    | true =>
      intro hp
      have hout := h.looping.mpr hp
      rw [hl rfl] at hout
      cases hout
  | wakeup isInLoopThread => trivial
  | quit isInLoopThread => trivial
  | quitWakeup => trivial
  | proceed active => trivial

variable [Build]

/-- What a step of the loop thread does to its flags: `callingPendingFunctors_` changes with the phase, and
`looping_` changes on the way into `loop()` and out of it only. -/
theorem proceed_flags {active : List ActiveChannel} (hs : s.proceed active = .ok t) :
    t.owesWakeup = s.owesWakeup ∧
      (t.callingPendingFunctors = t.phase.inPass ∨
        (t.callingPendingFunctors = s.callingPendingFunctors ∧ t.phase.inPass = s.phase.inPass)) ∧
      ((t.looping = false ↔ t.phase = .outside) ∨
        (t.looping = s.looping ∧ s.phase ≠ .outside ∧ t.phase ≠ .outside)) := by
  unfold EventLoop.proceed at hs
  split at hs
  case h_1 hp =>
    cases assert_bind_ok hs
    exact ⟨rfl, Or.inr ⟨rfl, by rw [hp]; rfl⟩, Or.inl (by simp)⟩
  case h_3 hp =>
    by_cases hq : s.quit_ = true
    · rw [if_pos hq] at hs
      cases hs
      exact ⟨rfl, Or.inr ⟨rfl, by rw [hp]; rfl⟩, Or.inl (by simp)⟩
    · rw [if_neg hq] at hs
      cases hs
      exact ⟨rfl, Or.inr ⟨rfl, by rw [hp]; rfl⟩, Or.inr ⟨rfl, by simp [hp], by simp⟩⟩
  case h_8 hp =>
    cases hs
    exact ⟨rfl, Or.inl rfl, Or.inr ⟨rfl, by simp [hp], by simp⟩⟩
  case h_12 hp =>
    cases hs
    exact ⟨rfl, Or.inl rfl, Or.inr ⟨rfl, by simp [hp], by simp⟩⟩
  all_goals
    next hp =>
    cases hs
    exact ⟨rfl, Or.inr ⟨rfl, by rw [hp]; rfl⟩, Or.inr ⟨rfl, by simp [hp], by simp⟩⟩

theorem Flagged.proceed (h : Flagged s) (ho : s.owesWakeup = false) {active : List ActiveChannel}
    (hs : s.proceed active = .ok t) : Flagged t := by
  obtain ⟨howes, hcalling, hlooping⟩ := proceed_flags hs
  constructor
  · rcases hlooping with hl | ⟨hl, hsp, htp⟩
    · exact hl
    · rw [hl, h.looping]
      exact iff_of_false hsp htp
  · intro hin
    rcases hcalling with hc | ⟨hc, hpass⟩
    · rw [hc, hin]
    · rw [hc, h.calling (hpass ▸ hin)]
  · intro htrue
    rw [howes, ho] at htrue
    cases htrue

theorem Flagged.step (h : Flagged s) {i : Step φ} (he : s.Enabled i) (hs : s.step i = .ok t) : Flagged t := by
  cases i with
  | queueInLoop isInLoopThread f =>
    cases hs
    exact h.queueInLoop he
  | wakeup isInLoopThread =>
    cases isInLoopThread <;> cases hs
    · exact { h with }
    · exact ⟨h.looping, h.calling, by simp⟩
  | quit isInLoopThread =>
    cases isInLoopThread <;> cases hs <;> exact { h with }
  | quitWakeup =>
    cases hs
    exact { h with }
  | proceed active => exact h.proceed he.1 hs

theorem Phased.proceed (h : Phased s) (ho : s.owesWakeup = false) {active : List ActiveChannel}
    (hs : s.proceed active = .ok t) : Phased t := by
  obtain ⟨howes, hcalling, -⟩ := proceed_flags hs
  refine ⟨h.toFlagged.proceed ho hs, fun hin => ?_, fun htrue => ?_⟩
  · rcases hcalling with hc | ⟨hc, hpass⟩
    · rwa [← hc]
    · rw [hpass]
      exact h.inPass (hc ▸ hin)
  · rw [howes, ho] at htrue
    cases htrue

theorem Phased.step (h : Phased s) {i : Step φ} (he : s.Enabled i) (hs : s.step i = .ok t) : Phased t := by
  cases i with
  | queueInLoop isInLoopThread f =>
    cases hs
    exact h.queueInLoop he
  | wakeup isInLoopThread =>
    cases isInLoopThread <;> cases hs
    · exact { h with }
    · exact ⟨⟨h.looping, h.calling, by simp⟩, h.inPass, by simp⟩
  | quit isInLoopThread =>
    cases isInLoopThread <;> cases hs <;> exact { h with }
  | quitWakeup =>
    cases hs
    exact { h with }
  | proceed active => exact h.proceed he.1 hs

/-- What a step of the loop thread can do to the queue: it swaps it out, calls a functor or leaves it alone. It
reads the eventfd only before a swap. -/
theorem proceed_inv {active : List ActiveChannel} (hs : s.proceed active = .ok t) :
    (∃ looping quit_ callingPendingFunctors phase wakeupFd,
      t = { s with looping, quit_, callingPendingFunctors, phase, wakeupFd } ∧ t.remaining = s.remaining ∧
        (phase.beforeSwap = true ∨ (s.phase.beforeSwap = false ∧ wakeupFd = s.wakeupFd))) ∨
      (s.phase = .swap ∧ t = { s with
        pendingFunctors := []
        passes := s.passes ++ [s.pendingFunctors]
        phase := .call s.pendingFunctors }) ∨
      ∃ f rest, s.phase = .call (f :: rest) ∧
        t = { s with executed := s.executed ++ [f], phase := .functor rest } := by
  unfold EventLoop.proceed at hs
  unfold remaining
  split at hs
  · next hp =>
    cases assert_bind_ok hs
    exact Or.inl ⟨_, _, _, _, _, rfl, by rw [hp], Or.inr ⟨by rw [hp]; rfl, rfl⟩⟩
  · next hp =>
    cases hs
    exact Or.inl ⟨_, _, _, _, _, rfl, by rw [hp], Or.inr ⟨by rw [hp]; rfl, rfl⟩⟩
  · next hp =>
    split_ifs at hs <;> cases hs <;>
      exact Or.inl ⟨_, _, _, _, _, rfl, by rw [hp], Or.inr ⟨by rw [hp]; rfl, rfl⟩⟩
  · next hp =>
    cases hs
    exact Or.inl ⟨_, _, _, _, _, rfl, by rw [hp], Or.inl rfl⟩
  · next rest hp =>
    cases hs
    exact Or.inl ⟨_, _, _, _, _, rfl, by rw [hp], Or.inl rfl⟩
  · next rest hp =>
    cases hs
    exact Or.inl ⟨_, _, _, _, _, rfl, by rw [hp], Or.inl rfl⟩
  · next rest hp =>
    cases hs
    exact Or.inl ⟨_, _, _, _, _, rfl, by rw [hp], Or.inl rfl⟩
  · next hp =>
    cases hs
    exact Or.inl ⟨_, _, _, _, _, rfl, by rw [hp], Or.inl rfl⟩
  · next hp =>
    cases hs
    exact Or.inr (Or.inl ⟨hp, rfl⟩)
  · next f rest hp =>
    cases hs
    exact Or.inr (Or.inr ⟨f, rest, hp, rfl⟩)
  · next rest hp =>
    cases hs
    exact Or.inl ⟨_, _, _, _, _, rfl, by rw [hp], Or.inr ⟨by rw [hp]; rfl, rfl⟩⟩
  · next hp =>
    cases hs
    exact Or.inl ⟨_, _, _, _, _, rfl, by rw [hp], Or.inr ⟨by rw [hp]; rfl, rfl⟩⟩

/-- A step of the loop thread leaves no functor waiting without a reason for `poll` to return. -/
theorem proceed_wakes {active : List ActiveChannel} (hs : s.proceed active = .ok t)
    (h : s.pendingFunctors ≠ [] → s.phase.beforeSwap = true ∨ 0 < s.wakeupFd ∨ 0 < s.pushers ∨ s.owesWakeup = true) :
    t.pendingFunctors ≠ [] → t.phase.beforeSwap = true ∨ 0 < t.wakeupFd ∨ 0 < t.pushers ∨ t.owesWakeup = true := by
  obtain ⟨_, _, _, phase, _, rfl, -, hb | ⟨hb, rfl⟩⟩ | ⟨-, rfl⟩ | ⟨f, rest, hp, rfl⟩ := proceed_inv hs
  · intro _
    exact Or.inl hb
  · intro hne
    have hw := h hne
    rw [hb] at hw
    exact Or.inr (hw.resolve_left Bool.false_ne_true)
  · intro hne
    exact absurd rfl hne
  · intro hne
    have hw := h hne
    rw [hp] at hw
    exact hw

theorem Wakes.proceed (h : Wakes s) (ho : s.owesWakeup = false) {active : List ActiveChannel}
    (hs : s.proceed active = .ok t) : Wakes t :=
  ⟨h.toFlagged.proceed ho hs, proceed_wakes hs h.wakes⟩

theorem Wakes.step (h : Wakes s) {i : Step φ} (he : s.Enabled i) (hc : s.Covered i) (hs : s.step i = .ok t) :
    Wakes t := by
  have hp := h.toFlagged.step he hs
  cases i with
  | queueInLoop isInLoopThread f =>
    cases hs
    exact h.queueInLoop he hc
  | wakeup isInLoopThread =>
    cases isInLoopThread <;> cases hs <;> exact ⟨hp, fun _ => Or.inr (Or.inl s.wakeup_pos)⟩
  | quit isInLoopThread =>
    cases isInLoopThread <;> cases hs <;> exact ⟨hp, h.wakes⟩
  | quitWakeup =>
    cases hs
    exact ⟨hp, fun _ => Or.inr (Or.inl s.wakeup_pos)⟩
  | proceed active => exact h.proceed he.1 hs

theorem Wakes.polling (h : Wakes s) (hp : s.phase = .poll) (hf : s.pendingFunctors ≠ []) :
    0 < s.wakeupFd ∨ 0 < s.pushers := by
  rcases h.wakes hf with hb | hc | hc | ho
  · rw [hp] at hb
    cases hb
  · exact Or.inl hc
  · exact Or.inr hc
  · exact absurd hp (h.owes ho)

theorem no_lost_wakeup (flag : Bool) {steps : List (Step φ)}
    (h : Path EventLoop.step (fun s i => s.Enabled i ∧ s.WhileLooping i) { callingPendingFunctors := flag } steps s)
    (hp : s.phase = .poll) (hf : s.pendingFunctors ≠ []) : 0 < s.wakeupFd ∨ 0 < s.pushers := by
  have hinv : Wakes s := h.invariant (initial_wakes flag) fun _ _ _ ht ha hs =>
    ht.step ha.1 (ht.toFlagged.covered ha.2) hs
  exact hinv.polling hp hf

end Steps

theorem no_lost_wakeup_after_pass :
    letI := Build.debug
    let steps : List (Step ℕ) := [.proceed [], .proceed [], .proceed [], .queueInLoop false 1, .wakeup false,
      .proceed [.wakeup, .other], .queueInLoop false 2, .wakeup false, .proceed [], .proceed [], .queueInLoop true 3,
      .proceed [], .proceed [], .proceed [], .queueInLoop false 4, .proceed [], .queueInLoop true 5, .wakeup true,
      .proceed [], .proceed [], .proceed [], .proceed [], .proceed [], .proceed [], .proceed []]
    ∃ s, Path step (fun s i => s.Enabled i ∧ s.WhileLooping i) {} steps s ∧ s.executed = [1, 2, 3] ∧
      s.phase = .poll ∧ s.pendingFunctors = [4, 5] ∧ (0 < s.wakeupFd ∨ 0 < s.pushers) := by
  intro steps
  let _ := Build.debug
  obtain ⟨s, hs, hp⟩ := Path.exists_of_any step (fun s i => s.Enabled i ∧ s.WhileLooping i) {} steps
    (fun s => decide (s.executed = [1, 2, 3] ∧ s.phase = .poll ∧ s.pendingFunctors = [4, 5])) (by decide +kernel)
  obtain ⟨hx, hpoll, hf⟩ := of_decide_eq_true hp
  exact ⟨s, hs, hx, hpoll, hf, no_lost_wakeup false hs hpoll (by simp [hf])⟩

/-- Functors that the loop thread queues while it is not inside `loop()`: in a run with covered pushes, a `poll` that
is entered with waiting functors does not block, as far as no other thread is between its push and its write. -/
theorem outside_functors_wake [Build] (flag : Bool) {steps : List (Step φ)} {s : EventLoop φ}
    (h : Path EventLoop.step (fun s i => s.Enabled i ∧ s.Covered i) { callingPendingFunctors := flag } steps s)
    (hp : s.phase = .poll) (hf : s.pendingFunctors ≠ []) (hn : s.pushers = 0) : 0 < s.wakeupFd := by
  have hinv : Wakes s := h.invariant (initial_wakes flag) fun _ _ _ ht ha hs => ht.step ha.1 ha.2 hs
  rcases hinv.polling hp hf with hc | hc
  · exact hc
  · omega

-- With the flag set by chance, a push before the first `loop()` wakes it.
theorem outside_functors_wake_flag :
    letI := Build.debug
    let steps : List (Step ℕ) := [.queueInLoop true 1, .wakeup true, .proceed [], .proceed [], .proceed []]
    ∃ s, Path step (fun s i => s.Enabled i ∧ s.Covered i) { callingPendingFunctors := true } steps s ∧
      s.phase = .poll ∧ s.pendingFunctors = [1] ∧ 0 < s.wakeupFd := by
  intro steps
  let _ := Build.debug
  obtain ⟨s, hs, hp⟩ := Path.exists_of_any step (fun s i => s.Enabled i ∧ s.Covered i) { callingPendingFunctors := true }
    steps (fun s => decide (s.phase = .poll ∧ s.pendingFunctors = [1] ∧ s.pushers = 0)) (by decide +kernel)
  obtain ⟨hpoll, hf, hn⟩ := of_decide_eq_true hp
  exact ⟨s, hs, hpoll, hf, outside_functors_wake true hs hpoll (by simp [hf]) hn⟩

-- With the flag clear, `poll` blocks although a functor waits.
theorem outside_functors_sleep :
    letI := Build.debug
    ¬∀ (flag : Bool) (steps : List (Step ℕ)) (s : EventLoop ℕ), Path step Enabled { callingPendingFunctors := flag } steps s →
      s.phase = .poll → s.pendingFunctors ≠ [] → s.pushers = 0 → 0 < s.wakeupFd := by
  let _ := Build.debug
  intro h
  obtain ⟨s, hs, hp⟩ := Path.exists_of_any (@step ℕ _) Enabled { callingPendingFunctors := false }
    [.queueInLoop true 1, .proceed [], .proceed [], .proceed []]
    (fun s => decide (s.phase = .poll ∧ s.pendingFunctors ≠ [] ∧ s.pushers = 0 ∧ s.wakeupFd = 0)) (by decide +kernel)
  obtain ⟨hpoll, hf, hn, hzero⟩ := of_decide_eq_true hp
  have := h false _ s hs hpoll hf hn
  omega

-- every functor pushed waits, is about to be called in this pass or was called, in the order of the pushes
structure Fifo (s : EventLoop φ) : Prop where
  waiting : s.pushed = s.passes.flatten ++ s.pendingFunctors
  called : s.passes.flatten = s.executed ++ s.remaining

theorem Flagged.remaining_eq {s : EventLoop φ} (h : Flagged s) (hc : s.callingPendingFunctors = false) :
    s.remaining = [] := by
  have hp : s.phase.inPass ≠ true := by simpa [hc] using h.calling
  unfold remaining
  cases hphase : s.phase with
  | call functors =>
    rw [hphase] at hp
    exact absurd rfl hp
  | functor functors =>
    rw [hphase] at hp
    exact absurd rfl hp
  | _ => rfl

section Order

variable {s t : EventLoop φ}

theorem Fifo.queueInLoop (h : Fifo s) (isInLoopThread : Bool) (f : φ) : Fifo (s.queueInLoop isInLoopThread f) := by
  have hw : s.pushed ++ [f] = s.passes.flatten ++ (s.pendingFunctors ++ [f]) := by
    rw [h.waiting, List.append_assoc]
  cases isInLoopThread with
  | false => exact ⟨hw, h.called⟩
  | true =>
    cases hc : s.callingPendingFunctors with
    | true =>
      rw [queueInLoop_calling hc]
      exact ⟨hw, h.called⟩
    | false =>
      rw [queueInLoop_handling hc]
      exact ⟨hw, h.called⟩

theorem queueInLoop_waiting (s : EventLoop φ) (isInLoopThread : Bool) (f : φ) :
    (s.queueInLoop isInLoopThread f).remaining ++ (s.queueInLoop isInLoopThread f).pendingFunctors =
      s.remaining ++ s.pendingFunctors ++ [f] := by
  unfold EventLoop.queueInLoop remaining
  dsimp only
  split_ifs <;> simp

theorem queueInLoop_records (s : EventLoop φ) (isInLoopThread : Bool) (f : φ) :
    (s.queueInLoop isInLoopThread f).executed = s.executed ∧ (s.queueInLoop isInLoopThread f).passes = s.passes := by
  unfold EventLoop.queueInLoop
  dsimp only
  split_ifs <;> exact ⟨rfl, rfl⟩

variable [Build]

theorem Fifo.proceed (h : Fifo s) {active : List ActiveChannel} (hs : s.proceed active = .ok t) : Fifo t := by
  obtain ⟨_, _, _, phase, _, rfl, hr, -⟩ | ⟨hp, rfl⟩ | ⟨f, rest, hp, rfl⟩ := proceed_inv hs
  · exact ⟨h.waiting, by rw [hr]; exact h.called⟩
  · have hd := h.called
    rw [remaining, hp] at hd
    constructor
    · simpa using h.waiting
    · simpa [remaining] using hd
  · have hd := h.called
    rw [remaining, hp] at hd
    constructor
    · exact h.waiting
    · simpa [remaining] using hd

theorem Fifo.step (h : Fifo s) {i : Step φ} (hs : s.step i = .ok t) : Fifo t := by
  cases i with
  | queueInLoop isInLoopThread f =>
    cases hs
    exact h.queueInLoop isInLoopThread f
  | wakeup isInLoopThread =>
    cases isInLoopThread <;> cases hs <;> exact { h with }
  | quit isInLoopThread =>
    cases isInLoopThread <;> cases hs <;> exact { h with }
  | quitWakeup =>
    cases hs
    exact { h with }
  | proceed active => exact h.proceed hs

def Grows (s t : EventLoop φ) : Prop := s.passes <+: t.passes ∧ s.executed <+: t.executed

theorem step_executed {i : Step φ} (hs : s.step i = .ok t) :
    (t.executed = s.executed ∨ ∃ f rest, s.phase = .call (f :: rest) ∧ t.executed = s.executed ++ [f]) ∧
      s.passes <+: t.passes := by
  have hp : s.passes <+: s.passes := ⟨[], List.append_nil _⟩
  cases i with
  | queueInLoop isInLoopThread f =>
    cases hs
    obtain ⟨he, hpass⟩ := queueInLoop_records s isInLoopThread f
    rw [he, hpass]
    exact ⟨Or.inl rfl, hp⟩
  | wakeup isInLoopThread =>
    cases isInLoopThread <;> cases hs <;> exact ⟨Or.inl rfl, hp⟩
  | quit isInLoopThread =>
    cases isInLoopThread <;> cases hs <;> exact ⟨Or.inl rfl, hp⟩
  | quitWakeup =>
    cases hs
    exact ⟨Or.inl rfl, hp⟩
  | proceed active =>
    obtain ⟨_, _, _, _, _, rfl, -⟩ | ⟨-, rfl⟩ | ⟨f, rest, hphase, rfl⟩ := proceed_inv hs
    · exact ⟨Or.inl rfl, hp⟩
    · exact ⟨Or.inl rfl, List.prefix_append _ _⟩
    · exact ⟨Or.inr ⟨f, rest, hphase, rfl⟩, hp⟩

theorem path_grows {allowed : EventLoop φ → Step φ → Prop} {steps : List (Step φ)}
    (h : Path step allowed s steps t) : Grows s t := by
  apply h.invariant (P := fun u => Grows s u)
  · exact ⟨⟨[], List.append_nil _⟩, ⟨[], List.append_nil _⟩⟩
  · intro u i v hu _ hs
    obtain ⟨he, hp⟩ := step_executed hs
    refine ⟨hu.1.trans hp, hu.2.trans ?_⟩
    rcases he with he | ⟨f, rest, -, he⟩
    · exact ⟨[], by rw [he, List.append_nil]⟩
    · exact ⟨[f], he.symm⟩

/-- What one pass has done at `t`, seen from the state `s` before its swap. -/
def InPass (s t : EventLoop φ) : Prop :=
  ∃ called, s.pendingFunctors = called ++ t.remaining ∧ t.executed = s.executed ++ called ∧
    (t.callingPendingFunctors = false → t.remaining = []) ∧ t.pushed = s.pushed ++ t.pendingFunctors

theorem Fifo.inPass (h : Fifo s) (hp : s.phase = .swap) {u : EventLoop φ} {active : List ActiveChannel}
    (hs : s.proceed active = .ok u) {steps : List (Step φ)} (ht : Path EventLoop.step Enabled u steps t)
    (hcall : Flagged t) (hlen : t.passes.length = s.passes.length + 1) : InPass s t := by
  have hu : Fifo u := h.proceed hs
  have hft : Fifo t := ht.invariant hu fun _ _ _ hv _ hstep => hv.step hstep
  have hgrows := path_grows ht
  unfold EventLoop.proceed at hs
  rw [hp] at hs
  cases hs
  have hpasses : t.passes = s.passes ++ [s.pendingFunctors] :=
    (hgrows.1.eq_of_length (by simp [hlen])).symm
  have hflat : t.passes.flatten = s.passes.flatten ++ s.pendingFunctors := by simp [hpasses]
  have hrem : s.remaining = [] := by rw [remaining, hp]
  have hexec : s.passes.flatten = s.executed := by rw [h.called, hrem, List.append_nil]
  obtain ⟨called, hcalled⟩ := hgrows.2
  have hcalled' : s.executed ++ called = t.executed := hcalled
  refine ⟨called, ?_, hcalled'.symm, hcall.remaining_eq, ?_⟩
  · have heq := hflat.symm.trans hft.called
    rw [hexec, ← hcalled', List.append_assoc] at heq
    exact List.append_cancel_left heq
  · rw [hft.waiting, hflat, ← h.waiting]

theorem functors_called_once_in_order (flag : Bool) {steps : List (Step φ)}
    (h : Path EventLoop.step Enabled { callingPendingFunctors := flag } steps s) :
    s.pushed = s.executed ++ s.remaining ++ s.pendingFunctors ∧
      (∀ i t, s.Enabled i → s.step i = .ok t → t.executed = s.executed ∨
        ∃ f rest, s.phase = .call (f :: rest) ∧ t.executed = s.executed ++ [f]) ∧
      ∀ active u later t, s.phase = .swap → s.Enabled (.proceed active) → s.step (.proceed active) = .ok u →
        Path EventLoop.step Enabled u later t → t.passes.length = s.passes.length + 1 → InPass s t := by
  have h₀ : Fifo ({ callingPendingFunctors := flag } : EventLoop φ) := ⟨rfl, rfl⟩
  have hinv : Fifo s := h.invariant h₀ fun _ _ _ ht _ hs => ht.step hs
  have hflagged : Flagged s := h.invariant (initial_flagged flag) fun _ _ _ ht he hs => ht.step he hs
  refine ⟨?_, ?_, ?_⟩
  · rw [hinv.waiting, hinv.called]
  · intro i t _ hs
    exact (step_executed hs).1
  · intro active u later t hp he hs ht hlen
    have hflagged' : Flagged t := ht.invariant (hflagged.step he hs) fun _ _ _ hv hv' hw => hv.step hv' hw
    exact hinv.inPass hp hs ht hflagged' hlen

/-- A functor that waits goes on waiting, in its place, until it is called. -/
theorem proceed_waiting {active : List ActiveChannel} (hs : s.proceed active = .ok t)
    (hp : ∀ f rest, s.phase ≠ .call (f :: rest)) :
    s.remaining ++ s.pendingFunctors = t.remaining ++ t.pendingFunctors := by
  obtain ⟨_, _, _, phase, _, rfl, hr, -⟩ | ⟨hswap, rfl⟩ | ⟨f, rest, hcall, rfl⟩ := proceed_inv hs
  · rw [hr]
  · simp [remaining, hswap]
  · exact absurd hcall (hp f rest)

theorem proceed_call {f : φ} {rest : List φ} {active : List ActiveChannel} (hs : s.proceed active = .ok t)
    (hp : s.phase = .call (f :: rest)) :
    s.remaining ++ s.pendingFunctors = f :: (t.remaining ++ t.pendingFunctors) := by
  unfold EventLoop.proceed at hs
  rw [hp] at hs
  cases hs
  simp [remaining, hp]

end Order

theorem functors_called_once_in_order_requeue :
    letI := Build.debug
    let before : List (Step ℕ) := [.queueInLoop false 1, .wakeup false, .proceed [], .proceed [], .proceed [],
      .proceed [.wakeup], .queueInLoop false 2, .proceed [], .proceed []]
    let pass : List (Step ℕ) := [.proceed [], .queueInLoop true 1, .wakeup true, .proceed [], .proceed [], .wakeup false,
      .proceed [], .proceed []]
    ∃ s u t, Path step Enabled {} before s ∧ s.phase = .swap ∧ s.step (.proceed []) = .ok u ∧
      Path step Enabled u pass t ∧ t.executed = [1, 2] ∧ t.pendingFunctors = [1] ∧ InPass s t := by
  intro before pass
  let _ := Build.debug
  let s : EventLoop ℕ := {
    looping := true, callingPendingFunctors := true, pendingFunctors := [1, 2], phase := .swap
    pushers := 1, pushed := [1, 2] }
  let u : EventLoop ℕ := { s with pendingFunctors := [], phase := .call [1, 2], passes := [[1, 2]] }
  let t : EventLoop ℕ := {
    looping := true, pendingFunctors := [1], phase := .test, wakeupFd := 2
    pushed := [1, 2, 1], passes := [[1, 2]], executed := [1, 2] }
  have hs : Path step Enabled {} before s := Path.of_guardedRun (by decide +kernel)
  have hu : s.step (.proceed []) = .ok u := by decide +kernel
  have ht : Path step Enabled u pass t := Path.of_guardedRun (by decide +kernel)
  exact ⟨s, u, t, hs, rfl, hu, ht, rfl, rfl,
    (functors_called_once_in_order false hs).2.2 [] u pass t rfl (by decide) hu ht rfl⟩

end EventLoop

end Networker
