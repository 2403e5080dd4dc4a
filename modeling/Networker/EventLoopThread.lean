import Networker.PendingFunctors

/-!
`net/EventLoopThread.cpp`: the thread publishes its loop and then enters `loop()`,
which clears `quit_`, while the creating thread may already call `quit()`.
-/

namespace Networker

open CheckedRuns

structure EventLoopThread (φ : Type) where
  loop : EventLoop φ := {}
  /-- `loop_` is not null -/
  published : Bool := false
  /-- `loop()` has returned to `threadFunc` -/
  returned : Bool := false
deriving DecidableEq, Repr

namespace EventLoopThread

variable {φ : Type}

inductive Step (φ : Type)
  | publish
  | loop (i : EventLoop.Step φ)
  | unpublish
deriving DecidableEq, Repr

def leaves : Phase φ → Phase φ → Bool
  | .test, .outside => true
  | _, _ => false

def step [Build] (s : EventLoopThread φ) : Step φ → Exec (EventLoopThread φ)
  | .publish => .ok { s with published := true }
  | .loop i => do
    let loop ← s.loop.step i
    .ok { s with loop, returned := s.returned || leaves s.loop.phase loop.phase }
  | .unpublish => .ok { s with published := false }

/-- `startLoop` hands out the pointer once it is published; `threadFunc` calls `loop()` once, after that. -/
def Enabled (s : EventLoopThread φ) : Step φ → Prop
  | .publish => s.loop.phase matches .outside ∧ s.published = false ∧ s.returned = false
  | .loop (.proceed active) => s.loop.Enabled (.proceed active) ∧
      (s.loop.phase matches .outside → s.published = true ∧ s.returned = false)
  | .loop (.quit isInLoopThread) => s.loop.Enabled (.quit isInLoopThread) ∧ (isInLoopThread = false → s.published = true)
  | .loop i => s.loop.Enabled i
  | .unpublish => s.returned = true

instance (s : EventLoopThread φ) : (i : Step φ) → Decidable (s.Enabled i)
  | .publish => inferInstanceAs (Decidable (_ ∧ _ ∧ _))
  | .loop (.proceed active) => inferInstanceAs (Decidable (s.loop.Enabled (.proceed active) ∧ (_ → _ ∧ _)))
  | .loop (.quit isInLoopThread) => inferInstanceAs (Decidable (s.loop.Enabled (.quit isInLoopThread) ∧ (_ → _)))
  | .loop (.queueInLoop b f) => inferInstanceAs (Decidable (s.loop.Enabled (.queueInLoop b f)))
  | .loop (.wakeup b) => inferInstanceAs (Decidable (s.loop.Enabled (.wakeup b)))
  | .loop .quitWakeup => inferInstanceAs (Decidable (s.loop.Enabled .quitWakeup))
  | .unpublish => inferInstanceAs (Decidable (_ = _))

/-- Once a `quit()` that the creating thread calls in this state has completed, `quit_` stays set until `loop()`
returns, and a loop thread that is in `poll` by then is woken. -/
def KeepsQuit [Build] (s : EventLoopThread φ) : Prop :=
  ∀ u later t, s.step (.loop (.quit false)) = .ok u → Path step Enabled u later t → .loop .quitWakeup ∈ later →
    t.returned = false → t.loop.quit_ = true ∧ (t.loop.phase = .poll → 0 < t.loop.wakeupFd ∨ 0 < t.loop.quitters)

section Quit

variable {s t : EventLoopThread φ}

theorem enabled_loop {i : EventLoop.Step φ} (h : s.Enabled (.loop i)) : s.loop.Enabled i := by
  cases i with
  | proceed active => exact h.1
  | quit isInLoopThread => exact h.1
  | queueInLoop isInLoopThread f => exact h
  | wakeup isInLoopThread => exact h
  | quitWakeup => exact h

theorem leaves_self (p : Phase φ) : leaves p p = false := by
  cases p <;> rfl

theorem queueInLoop_quit (l : EventLoop φ) (isInLoopThread : Bool) (f : φ) :
    (l.queueInLoop isInLoopThread f).phase = l.phase ∧ (l.queueInLoop isInLoopThread f).quit_ = l.quit_ ∧
      (l.queueInLoop isInLoopThread f).wakeupFd = l.wakeupFd ∧
      (l.queueInLoop isInLoopThread f).quitters = l.quitters := by
  unfold EventLoop.queueInLoop
  dsimp only
  split_ifs <;> exact ⟨rfl, rfl, rfl, rfl⟩

-- `loop()` is past `quit_ = false`, and once the request is made it will be seen
structure Quitting (s : EventLoopThread φ) : Prop where
  phased : s.loop.Phased
  past : s.loop.phase ≠ .entered
  outside : s.loop.phase = .outside ↔ s.returned = true
  quit : s.returned = false → s.loop.quit_ = true
  wakes : s.loop.phase = .poll → 0 < s.loop.wakeupFd ∨ 0 < s.loop.quitters

-- a step of another thread, or a call the loop thread makes from its callbacks
theorem Quitting.stay (h : Quitting s) {l : EventLoop φ} (hphased : l.Phased) (hp : l.phase = s.loop.phase)
    (hq : s.loop.quit_ = true → l.quit_ = true)
    (hw : 0 < s.loop.wakeupFd ∨ 0 < s.loop.quitters → 0 < l.wakeupFd ∨ 0 < l.quitters) :
    Quitting { s with loop := l, returned := s.returned || leaves s.loop.phase l.phase } := by
  rw [hp, leaves_self, Bool.or_false]
  constructor
  · exact hphased
  · exact hp ▸ h.past
  · exact hp ▸ h.outside
  · exact fun hr => hq (h.quit hr)
  · exact fun hpoll => hw (h.wakes (hp ▸ hpoll))

variable [Build]

theorem step_inv {i : Step φ} (hs : s.step i = .ok t) :
    (i = .publish ∧ t = { s with published := true }) ∨ (i = .unpublish ∧ t = { s with published := false }) ∨
      ∃ j l, i = .loop j ∧ s.loop.step j = .ok l ∧
        t = { s with loop := l, returned := s.returned || leaves s.loop.phase l.phase } := by
  cases i with
  | publish =>
    cases hs
    exact Or.inl ⟨rfl, rfl⟩
  | unpublish =>
    cases hs
    exact Or.inr (Or.inl ⟨rfl, rfl⟩)
  | loop j =>
    obtain ⟨l, hl, ht⟩ := bind_eq_ok.mp hs
    cases ht
    exact Or.inr (Or.inr ⟨j, l, rfl, hl, rfl⟩)

/-- A loop that is past `quit_ = false` with `quit_` set goes on to the end of its iteration and leaves at the test. -/
theorem proceed_quitting {l l' : EventLoop φ} {active : List ActiveChannel} (hq : l.quit_ = true)
    (ho : l.phase ≠ .outside) (he : l.phase ≠ .entered) (hs : l.proceed active = .ok l') :
    l'.quit_ = true ∧ ((l.phase = .test ∧ l'.phase = .outside) ∨
      (l.phase ≠ .test ∧ l'.phase ≠ .outside ∧ l'.phase ≠ .entered ∧ l'.phase ≠ .poll)) := by
  unfold EventLoop.proceed at hs
  split at hs
  · next hp => exact absurd hp ho
  · next hp => exact absurd hp he
  · next hp =>
    rw [if_pos hq] at hs
    cases hs
    exact ⟨hq, Or.inl ⟨hp, rfl⟩⟩
  all_goals
    next hp =>
    cases hs
    exact ⟨hq, Or.inr ⟨by simp [hp], by simp, by simp, by simp⟩⟩

theorem Quitting.proceed (h : Quitting s) {active : List ActiveChannel} (he : s.Enabled (.loop (.proceed active)))
    {l : EventLoop φ} (hs : s.loop.proceed active = .ok l) :
    Quitting { s with loop := l, returned := s.returned || leaves s.loop.phase l.phase } := by
  have hphased : l.Phased := h.phased.proceed he.1.1 hs
  have ho : s.loop.phase ≠ .outside := by
    intro hp
    have hr := (he.2 (by rw [hp])).2
    rw [h.outside.mp hp] at hr
    cases hr
  have hr : s.returned = false := by simpa using mt h.outside.mpr ho
  obtain ⟨hq, ⟨htest, hout⟩ | ⟨htest, hout, hent, hpoll⟩⟩ := proceed_quitting (h.quit hr) ho h.past hs
  · exact ⟨hphased, by simp [hout], by simp [htest, hout, leaves], fun _ => hq, by simp [hout]⟩
  · have hstay : leaves s.loop.phase l.phase = false := by
      unfold leaves
      split
      · next hp _ => exact absurd hp htest
      · rfl
    refine ⟨hphased, hent, ?_, fun _ => hq, fun hp => absurd hp hpoll⟩
    simpa [hr, hstay] using hout

theorem Quitting.step (h : Quitting s) {i : Step φ} (he : s.Enabled i) (hs : s.step i = .ok t) : Quitting t := by
  obtain ⟨rfl, rfl⟩ | ⟨rfl, rfl⟩ | ⟨j, l, rfl, hl, rfl⟩ := step_inv hs
  · exact { h with }
  · exact { h with }
  · have hphased : l.Phased := h.phased.step (enabled_loop he) hl
    have hw := s.loop.wakeup_pos
    cases j with
    | proceed active => exact h.proceed he hl
    | queueInLoop isInLoopThread f =>
      cases hl
      obtain ⟨hp, hq, hfd, hn⟩ := queueInLoop_quit s.loop isInLoopThread f
      exact h.stay hphased hp (by rw [hq]; exact id) (by rw [hfd, hn]; exact id)
    | wakeup isInLoopThread =>
      cases isInLoopThread <;> cases hl <;> exact h.stay hphased rfl id fun _ => Or.inl hw
    | quit isInLoopThread =>
      cases isInLoopThread <;> cases hl
      · exact h.stay hphased rfl (fun _ => rfl) fun _ => Or.inr (Nat.succ_pos _)
      · exact h.stay hphased rfl (fun _ => rfl) id
    | quitWakeup =>
      cases hl
      exact h.stay hphased rfl id fun _ => Or.inl hw

theorem step_phased (h : s.loop.Phased) {i : Step φ} (he : s.Enabled i) (hs : s.step i = .ok t) : t.loop.Phased := by
  obtain ⟨-, rfl⟩ | ⟨-, rfl⟩ | ⟨j, l, rfl, hl, rfl⟩ := step_inv hs
  · exact h
  · exact h
  · exact h.step (enabled_loop he) hl

-- the creating thread finishes its `quit()` and `loop()` executes `quit_ = false` after it
theorem cleared_entered (hp : s.loop.phase = .entered) (ho : s.loop.owesWakeup = false) (hr : s.returned = false) :
    ∃ t, Path step Enabled s [.loop (.proceed [])] t ∧ t.returned = false ∧ t.loop.quit_ = false := by
  let t : EventLoopThread φ := { s with loop := { s.loop with quit_ := false, phase := .test } }
  have he : s.Enabled (.loop (.proceed [])) := by simp [Enabled, EventLoop.Enabled, ho, hp]
  have hs : s.step (.loop (.proceed [])) = .ok t := by
    simp [EventLoopThread.step, EventLoop.step, EventLoop.proceed, hp, leaves, t]
  exact ⟨t, .cons he hs .nil, hr, rfl⟩

theorem cleared_outside (h : s.loop.Phased) (hp : s.loop.phase = .outside) (ho : s.loop.owesWakeup = false)
    (hpub : s.published = true) (hr : s.returned = false) :
    ∃ t, Path step Enabled s [.loop (.proceed []), .loop (.proceed [])] t ∧ t.returned = false ∧
      t.loop.quit_ = false := by
  let t : EventLoopThread φ := { s with loop := { s.loop with looping := true, phase := .entered } }
  have he : s.Enabled (.loop (.proceed [])) := by simp [Enabled, EventLoop.Enabled, ho, hp, hpub, hr]
  have hs : s.step (.loop (.proceed [])) = .ok t := by
    simp [EventLoopThread.step, EventLoop.step, EventLoop.proceed, hp, leaves, t, assert_pos (h.looping.mpr hp)]
  obtain ⟨u, hu, hret, hquit⟩ := cleared_entered (s := t) rfl ho hr
  exact ⟨u, .cons he hs hu, hret, hquit⟩

theorem cleared (h : s.loop.Phased) (hp : s.loop.phase = .outside ∨ s.loop.phase = .entered)
    (hpub : s.published = true) (hr : s.returned = false) :
    ∃ later t, Path step Enabled s later t ∧ t.returned = false ∧ t.loop.quit_ = false := by
  have ho : s.loop.owesWakeup = false := by
    by_contra hne
    obtain ⟨functors, hf⟩ := h.functor (by simpa using hne)
    rcases hp with hp | hp
    · rw [hp] at hf
      cases hf
    · rw [hp] at hf
      cases hf
  rcases hp with hp | hp
  · exact ⟨_, cleared_outside h hp ho hpub hr⟩
  · exact ⟨_, cleared_entered hp ho hr⟩

theorem quit_kept_iff {steps : List (Step φ)} (h : Path step Enabled {} steps s) (hpub : s.published = true)
    (hr : s.returned = false) : s.KeepsQuit ↔ s.loop.phase ≠ .outside ∧ s.loop.phase ≠ .entered := by
  have hphased : s.loop.Phased :=
    h.invariant (P := fun t => t.loop.Phased) EventLoop.initial_phased fun _ _ _ ht he hs => step_phased ht he hs
  constructor
  · intro hk
    by_contra hp
    -- `quit()` runs to its end, and only then does `loop()` clear the flag
    let u : EventLoopThread φ := { s with loop := s.loop.quit false }
    let v : EventLoopThread φ := { s with loop := { (s.loop.quit false).wakeup with quitters := s.loop.quitters } }
    have hu : s.step (.loop (.quit false)) = .ok u := by
      simp [EventLoopThread.step, EventLoop.step, EventLoop.quit, u, leaves_self]
    have hv : u.step (.loop .quitWakeup) = .ok v := by
      simp [EventLoopThread.step, EventLoop.step, EventLoop.quit, EventLoop.wakeup, u, v, leaves_self]
    have he : u.Enabled (.loop .quitWakeup) := Nat.succ_pos _
    have hvp : v.loop.Phased := { hphased with }
    obtain ⟨later, t, ht, hret, hquit⟩ := cleared (s := v) hvp (by tauto) hpub hr
    have hkeeps := (hk u _ t hu (.cons he hv ht) List.mem_cons_self hret).1
    rw [hquit] at hkeeps
    cases hkeeps
  · rintro ⟨hout, hent⟩ u later t hu ht _ hret
    have hq : Quitting u := by
      cases hu
      refine ⟨{ hphased with }, hent, ?_, fun _ => rfl, fun _ => Or.inr (Nat.succ_pos _)⟩
      simpa [hr, EventLoop.quit, leaves_self] using hout
    have hqt : Quitting t := ht.invariant hq fun _ _ _ hv he hs => hv.step he hs
    exact ⟨hqt.quit hret, hqt.wakes⟩

end Quit

theorem quit_kept_polling :
    letI := Build.debug
    let steps : List (Step ℕ) := [.publish, .loop (.proceed []), .loop (.proceed []), .loop (.proceed [])]
    ∃ s : EventLoopThread ℕ, Path step Enabled {} steps s ∧ s.loop.phase = .poll ∧ s.KeepsQuit := by
  intro steps
  let _ := Build.debug
  let s : EventLoopThread ℕ := { loop := { looping := true, phase := .poll }, published := true }
  have hs : Path step Enabled {} steps s := Path.of_guardedRun (by decide +kernel)
  exact ⟨s, hs, rfl, (quit_kept_iff hs rfl rfl).mpr ⟨by decide, by decide⟩⟩

-- the destructor's `quit()` between `cond_.notify()` and `loop()`: the loop blocks in `poll` for good
theorem quit_lost_before_loop :
    letI := Build.debug
    let quit : List (Step ℕ) := [.loop (.quit false), .loop .quitWakeup]
    let later : List (Step ℕ) := [.loop (.proceed []), .loop (.proceed []), .loop (.proceed []),
      .loop (.proceed [.wakeup]), .loop (.proceed []), .loop (.proceed []), .loop (.proceed []), .loop (.proceed []),
      .loop (.proceed [])]
    ∃ s t u : EventLoopThread ℕ, Path step Enabled {} [.publish] s ∧ Path step Enabled s quit t ∧
      t.loop.quit_ = true ∧ t.loop.quitters = 0 ∧ Path step Enabled t later u ∧ u.returned = false ∧
      u.loop.quit_ = false ∧ u.loop.phase = .poll ∧ u.loop.wakeupFd = 0 := by
  intro quit later
  let _ := Build.debug
  let s : EventLoopThread ℕ := { published := true }
  let t : EventLoopThread ℕ := { loop := { quit_ := true, wakeupFd := 1 }, published := true }
  let u : EventLoopThread ℕ := { loop := { looping := true, phase := .poll, passes := [[]] }, published := true }
  have hs : Path step Enabled {} [.publish] s := Path.of_guardedRun (by decide +kernel)
  have ht : Path step Enabled s quit t := Path.of_guardedRun (by decide +kernel)
  have hu : Path step Enabled t later u := Path.of_guardedRun (by decide +kernel)
  exact ⟨s, t, u, hs, ht, rfl, rfl, hu, rfl, rfl, rfl, rfl⟩

end EventLoopThread

end Networker
