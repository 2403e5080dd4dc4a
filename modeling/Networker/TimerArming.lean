import Networker.TimerOwnership

/-!
Whether the timerfd is set in time for the earliest timer.
-/

namespace Networker.TimerQueue

open CheckedRuns

/-- With a timer queued, the timerfd expires no later than the earliest one, or 100 microseconds after it was set. -/
def Armed (q : TimerQueue) : Prop :=
  ∀ it, q.timers.first = some it → ∃ expiry, q.timerfd = some expiry ∧ expiry ≤ max it.time (q.lastSet + 100)

/-- Inserting the timer `t` at `now` sets the timerfd to it if it comes before all others, and otherwise does not
put off what was set. -/
def Rearms (q : TimerQueue) (t : Timer) (now : ℤ) (q' : TimerQueue) : Prop :=
  ((∀ e ∈ q.timers, t.expiration < e.time) →
      q'.timerfd = some (max t.expiration (now + 100)) ∧ q'.lastSet = now) ∧
    ((∃ e ∈ q.timers, e.time ≤ t.expiration) →
      ∀ expiry, q.timerfd = some expiry → ∃ expiry', q'.timerfd = some expiry' ∧ expiry' ≤ expiry)

/-- The clock does not go back, and is past the epoch. -/
def ClockForward (q : TimerQueue) : Step → Prop
  | .addTimerInLoop _ now | .handleRead now | .finish now => q.clock ≤ now ∧ 0 < now
  | .newTimer _ _ _ | .cancelInLoop _ _ | .runNext => True

instance (q : TimerQueue) : (s : Step) → Decidable (q.ClockForward s)
  | .addTimerInLoop _ _ | .handleRead _ | .finish _ => inferInstanceAs (Decidable (_ ∧ _))
  | .newTimer _ _ _ | .cancelInLoop _ _ | .runNext => inferInstanceAs (Decidable True)

/-- The sums of `Timer::restart` and the differences of `howMuchTimeFromNow` that a step makes have 64 bits. -/
def Representable (q : TimerQueue) : Step → Prop
  | .newTimer _ when _ => InInt64 when
  | .addTimerInLoop p now => ∀ t ∈ q.heap p,
      (∀ it ∈ q.timers.first, it.time < t.expiration) → InInt64 (t.expiration - now)
  | .finish clock => InInt64 clock ∧ ∀ b ∈ q.batch, ∀ e ∈ b.expired, ∀ t ∈ q.heap e.timer,
      (e.timer, t.sequence) ∉ q.cancelingTimers → InInt64 (t.restart b.now).expiration
  | .cancelInLoop _ _ | .handleRead _ | .runNext => True

instance (q : TimerQueue) : (s : Step) → Decidable (q.Representable s)
  | .newTimer _ when _ => inferInstanceAs (Decidable (InInt64 when))
  | .addTimerInLoop p now => inferInstanceAs (Decidable (∀ t ∈ q.heap p,
      (∀ it ∈ q.timers.first, it.time < t.expiration) → InInt64 (t.expiration - now)))
  | .finish clock => inferInstanceAs (Decidable (InInt64 clock ∧ ∀ b ∈ q.batch, ∀ e ∈ b.expired, ∀ t ∈ q.heap e.timer,
      (e.timer, t.sequence) ∉ q.cancelingTimers → InInt64 (t.restart b.now).expiration))
  | .cancelInLoop _ _ | .handleRead _ | .runNext => inferInstanceAs (Decidable True)

/-- The steps that leave the timerfd right. `insert` compares the wrong way round, so outside a batch the queue
must be empty, or the earliest timer expires at the same time, or the timer comes later and the time then set is no
later than the one it replaces. A timer that a callback inserts must expire after the epoch, else `reset` takes the
queue for empty. -/
def ArmsInTime (q : TimerQueue) (s : Step) : Prop :=
  q.Representable s ∧
    match s with
    | .addTimerInLoop p now => ∀ t ∈ q.heap p,
        (q.batch.isSome = true → 0 < t.expiration) ∧
          (q.batch.isNone = true → ∀ it ∈ q.timers.first, t.expiration = it.time ∨
            (it.time < t.expiration ∧ ∀ expiry ∈ q.timerfd, max t.expiration (now + 100) ≤ expiry))
    | .newTimer _ _ _ | .cancelInLoop _ _ | .handleRead _ | .runNext | .finish _ => True

instance (q : TimerQueue) : (s : Step) → Decidable (q.ArmsInTime s)
  | .addTimerInLoop p now => inferInstanceAs (Decidable (q.Representable (.addTimerInLoop p now) ∧ ∀ t ∈ q.heap p,
      (q.batch.isSome = true → 0 < t.expiration) ∧
        (q.batch.isNone = true → ∀ it ∈ q.timers.first, t.expiration = it.time ∨
          (it.time < t.expiration ∧ ∀ expiry ∈ q.timerfd, max t.expiration (now + 100) ≤ expiry))))
  | .newTimer p when interval => inferInstanceAs (Decidable (q.Representable (.newTimer p when interval) ∧ True))
  | .cancelInLoop p sequence => inferInstanceAs (Decidable (q.Representable (.cancelInLoop p sequence) ∧ True))
  | .handleRead now => inferInstanceAs (Decidable (q.Representable (.handleRead now) ∧ True))
  | .runNext => inferInstanceAs (Decidable (q.Representable .runNext ∧ True))
  | .finish clock => inferInstanceAs (Decidable (q.Representable (.finish clock) ∧ True))

structure Arming (q : TimerQueue) : Prop where
  owned : Owned q q.running
  lastSet_le : q.lastSet ≤ q.clock
  armed : q.batch = none → Armed q
  batch : ∀ b, q.batch = some b → 0 < b.now ∧ ∀ e ∈ q.timers, 0 < e.time
  times : ∀ p t, q.heap p = some t → InInt64 t.expiration

theorem resetTimerfd_timerfd (q : TimerQueue) {expiration now : ℤ} (h : InInt64 (expiration - now)) :
    (q.resetTimerfd expiration now).timerfd = some (max expiration (now + 100)) := by
  simp only [resetTimerfd, howMuchTimeFromNow, castInt64_eq h]
  congr 1
  split_ifs <;> omega

theorem Armed.reset {q : TimerQueue} {it : Entry} (h : q.timers.first = some it) {now : ℤ}
    (hin : InInt64 (it.time - now)) : Armed (q.resetTimerfd it.time now) := by
  intro it' hit'
  cases h.symm.trans hit'
  exact ⟨_, resetTimerfd_timerfd q hin, le_rfl⟩

theorem first_insert_of_le {s : OrderedSet Entry} {it e e' : Entry} (h : s.first = some it)
    (hle : it.time ≤ e.time) (h' : (s.insert e).first = some e') : e'.time = it.time := by
  have hmem := OrderedSet.mem_of_first h'
  have hup := Entry.time_le (OrderedSet.first_le h' (OrderedSet.mem_insert.mpr (Or.inr (OrderedSet.mem_of_first h))))
  rcases OrderedSet.mem_insert.mp hmem with rfl | hmem
  · exact le_antisymm hup hle
  · exact le_antisymm hup (Entry.time_le (OrderedSet.first_le h hmem))

/-- Fewer timers, and so a later first one, need no new setting. -/
theorem Armed.mono {q q' : TimerQueue} (h : Armed q) (hsub : ∀ e ∈ q'.timers, e ∈ q.timers) (hfd : q'.timerfd = q.timerfd)
    (hset : q'.lastSet = q.lastSet) : Armed q' := by
  intro it' hit'
  have hm := hsub it' (OrderedSet.mem_of_first hit')
  cases hf : q.timers.first with
  | none => exact absurd hm (OrderedSet.first_eq_none hf it')
  | some it =>
    obtain ⟨expiry, hx, hle⟩ := h it hf
    have htime := Entry.time_le (OrderedSet.first_le hf hm)
    exact ⟨expiry, hfd.trans hx, by rw [hset]; omega⟩

section Runs

variable [Build] {q q' : TimerQueue}

/-- What an insertion does to the timerfd. The comparison is the one of the source: a timer is set when it comes
after the first one. -/
theorem addTimerInLoop_sets {p : ℕ} {now : ℤ} {t : Timer} (ht : q.heap p = some t)
    (hin : (∀ it ∈ q.timers.first, it.time < t.expiration) → InInt64 (t.expiration - now))
    (hs : q.addTimerInLoop p now = .ok q') :
    q'.batch = q.batch ∧ q'.timers = q.timers.insert (.of t.expiration p) ∧
      ((∀ it, q.timers.first = some it → it.time < t.expiration) ∧
          q'.timerfd = some (max t.expiration (now + 100)) ∧ q'.lastSet = now ∧ q'.clock = now ∨
        (∃ it, q.timers.first = some it ∧ t.expiration ≤ it.time) ∧
          q'.timerfd = q.timerfd ∧ q'.lastSet = q.lastSet ∧ q'.clock = q.clock) := by
  obtain ⟨t₁, q₁, changed, ht₁, hi, rfl⟩ := addTimerInLoop_inv hs
  cases ht.symm.trans ht₁
  obtain ⟨t₂, ht₂, hchanged, rfl⟩ := insert_inv hi
  cases ht.symm.trans ht₂
  cases hf : q.timers.first with
  | none =>
    simp only [hf] at hchanged
    rw [if_pos hchanged]
    exact ⟨rfl, rfl, Or.inl ⟨by simp, resetTimerfd_timerfd _ (hin (by simp [hf])), rfl, rfl⟩⟩
  | some it =>
    simp only [hf] at hchanged
    rcases lt_or_ge it.time t.expiration with hlt | hle
    · rw [if_pos (by simpa [hlt] using hchanged)]
      exact ⟨rfl, rfl, Or.inl ⟨by simpa using hlt, resetTimerfd_timerfd _ (hin (by simpa [hf] using hlt)), rfl, rfl⟩⟩
    · rw [if_neg (by simpa [not_lt_of_ge hle] using hchanged)]
      exact ⟨rfl, rfl, Or.inr ⟨⟨it, rfl, hle⟩, rfl, rfl, rfl⟩⟩

/-- Outside a batch, an insertion that satisfies the condition keeps the timerfd armed and does what it should. -/
theorem addTimerInLoop_arms (h : Arming q) (hb : q.batch = none) {p : ℕ} {now : ℤ} {t : Timer}
    (ht : q.heap p = some t) (hclock : q.ClockForward (.addTimerInLoop p now))
    (ha : q.ArmsInTime (.addTimerInLoop p now)) (hs : q.addTimerInLoop p now = .ok q') :
    Armed q' ∧ Rearms q t now q' := by
  have hclock : q.lastSet ≤ now := le_trans h.lastSet_le hclock.1
  have ha' := (ha.2 t ht).2 (by simp [hb])
  obtain ⟨-, htimers, ⟨hlate, hfd, hset, -⟩ | ⟨⟨it, hf, hle⟩, hfd, hset, -⟩⟩ := addTimerInLoop_sets ht (ha.1 t ht) hs
  · have hin : ∀ it, q.timers.first = some it → ∀ x, q.timerfd = some x → max t.expiration (now + 100) ≤ x := by
      intro it hf
      obtain heq | ⟨-, hin⟩ := ha' it hf
      · exact absurd heq (ne_of_gt (hlate it hf))
      · exact hin
    refine ⟨?_, fun _ => ⟨hfd, hset⟩, ?_⟩
    · intro it' hit'
      refine ⟨_, hfd, ?_⟩
      rw [htimers] at hit'
      rw [hset]
      cases hf : q.timers.first with
      | none =>
        have hnew := OrderedSet.mem_insert.mp (OrderedSet.mem_of_first hit')
        rw [hnew.resolve_right (OrderedSet.first_eq_none hf it')]
        exact le_rfl
      | some it =>
        obtain ⟨expiry, hx, hle⟩ := h.armed hb it hf
        have hearlier := hin it hf expiry hx
        rw [first_insert_of_le (e := .of t.expiration p) hf (le_of_lt (hlate it hf)) hit']
        omega
    · rintro ⟨e, hm, -⟩ x hx
      cases hf : q.timers.first with
      | none => exact absurd hm (OrderedSet.first_eq_none hf e)
      | some it => exact ⟨_, hfd, hin it hf x hx⟩
  · have heq : t.expiration = it.time := (ha' it hf).resolve_right (fun hlt => absurd hlt.1 (not_lt_of_ge hle))
    refine ⟨?_, ?_, fun _ x hx => ⟨x, hfd.trans hx, le_rfl⟩⟩
    · intro it' hit'
      rw [htimers] at hit'
      obtain ⟨expiry, hx, hle⟩ := h.armed hb it hf
      refine ⟨expiry, hfd.trans hx, ?_⟩
      rwa [hset, first_insert_of_le (e := .of t.expiration p) hf (le_of_eq heq.symm) hit']
    · intro hall
      exact absurd heq (ne_of_lt (hall it (OrderedSet.mem_of_first hf)))

theorem addTimerInLoop_arming (h : Arming q) {p : ℕ} {now : ℤ} (he : q.Enabled (.addTimerInLoop p now))
    (hc : q.ClockForward (.addTimerInLoop p now)) (ha : q.ArmsInTime (.addTimerInLoop p now))
    (hs : q.addTimerInLoop p now = .ok q') : Arming q' := by
  have howned := step_owned h.owned he hs
  obtain ⟨t, _, _, _, ht, hshape⟩ := addTimerInLoop_shape hs
  obtain ⟨hbatch, htimers, hset⟩ := addTimerInLoop_sets ht (ha.1 t ht) hs
  refine ⟨howned, ?_, ?_, ?_, ?_⟩
  · rcases hset with ⟨-, -, hset, hclock⟩ | ⟨-, -, hset, hclock⟩
    · rw [hset, hclock]
    · rw [hset, hclock]
      exact h.lastSet_le
  · intro hb
    exact (addTimerInLoop_arms h (hbatch ▸ hb) ht hc ha hs).1
  · intro b hb
    rw [hbatch] at hb
    refine ⟨(h.batch b hb).1, ?_⟩
    intro e hm
    rw [htimers] at hm
    rcases OrderedSet.mem_insert.mp hm with rfl | hm
    · exact (ha.2 t ht).1 (by simp [hb])
    · exact (h.batch b hb).2 e hm
  · rw [hshape]
    exact h.times

theorem cancelInLoop_arming (h : Arming q) {p s : ℕ} (hs : q.cancelInLoop p s = .ok q') : Arming q' := by
  have howned : Owned q' q'.running := step_owned (s := .cancelInLoop p s) h.owned trivial hs
  have hframe : (∀ e ∈ q'.timers, e ∈ q.timers) ∧ q'.timerfd = q.timerfd ∧ q'.lastSet = q.lastSet ∧
      q'.clock = q.clock ∧ q'.batch = q.batch ∧ ∀ r t, q'.heap r = some t → q.heap r = some t := by
    obtain ⟨-, t, -, rfl⟩ | ⟨-, rfl⟩ := cancelInLoop_inv hs
    · refine ⟨fun e he => (OrderedSet.mem_erase.mp he).1, rfl, rfl, rfl, rfl, fun r u hu => ?_⟩
      have hne : r ≠ p := by
        rintro rfl
        cases (put_heap_same q r none).symm.trans hu
      exact (put_heap_other q none hne).symm.trans hu
    · exact ⟨fun e he => he, rfl, rfl, rfl, rfl, fun _ _ hu => hu⟩
  obtain ⟨hsub, hfd, hset, hclock, hbatch, hheap⟩ := hframe
  refine ⟨howned, by rw [hset, hclock]; exact h.lastSet_le, ?_, ?_, fun r t ht => h.times r t (hheap r t ht)⟩
  · intro hb
    exact (h.armed (hbatch ▸ hb)).mono hsub hfd hset
  · intro b hb
    obtain ⟨hnow, hpos⟩ := h.batch b (hbatch ▸ hb)
    exact ⟨hnow, fun e he => hpos e (hsub e he)⟩

theorem handleRead_arming (h : Arming q) {now : ℤ} (he : q.Enabled (.handleRead now))
    (hc : q.ClockForward (.handleRead now)) (hs : q.handleRead now = .ok q') : Arming q' := by
  have howned := step_owned h.owned he hs
  obtain ⟨timerfd, activeTimers, rfl⟩ := handleRead_shape h.owned hs
  refine ⟨howned, le_trans h.lastSet_le hc.1, fun hb => (by cases hb), ?_, h.times⟩
  intro b hb
  cases hb
  refine ⟨hc.2, ?_⟩
  intro e hm
  have hlate : now < e.time := by simpa using (OrderedSet.mem_filter.mp hm).2
  exact lt_trans hc.2 hlate

theorem runNext_arming (h : Arming q) (he : q.Enabled .runNext) (hs : q.runNext = .ok q') : Arming q' := by
  have howned := step_owned (s := .runNext) h.owned he hs
  obtain rfl | ⟨now, expired, e, remaining, t, hb, -, rfl⟩ := runNext_inv hs
  · exact h
  · refine ⟨howned, h.lastSet_le, fun hb' => (by cases hb'), ?_, h.times⟩
    intro b hb'
    cases hb'
    exact ⟨(h.batch _ hb).1, (h.batch _ hb).2⟩

theorem finish_arming (h : Arming q) {clock : ℤ} (he : q.Enabled (.finish clock)) (hc : q.ClockForward (.finish clock))
    (ha : q.Representable (.finish clock)) (hs : q.finish clock = .ok q') : Arming q' := by
  have howned := step_owned h.owned he hs
  obtain ⟨b, hb, -⟩ := (Option.any_eq_true _ _).mp he
  obtain ⟨hnow, hpos⟩ := h.batch b hb
  obtain ⟨hclock, hsums⟩ := ha
  obtain ⟨q₁, hr, hq⟩ := finish_inv hb hs
  obtain ⟨hfd, hset, hclk, hb₁, hmem⟩ := requeue_frame hr
  have hout : Owned { q with batch := none } b.expired := by
    have ho : Owned q b.expired := by simpa [running, hb] using h.owned
    exact { ho with }
  have h₁ : Owned q₁ [] := hout.requeue hr
  have htimes : ∀ p t, q₁.heap p = some t → InInt64 t.expiration := by
    intro p t ht
    obtain ⟨e, he, u, rfl, hu, rfl, -⟩ | ⟨-, hu⟩ := (hout.requeued hr).live (fun e he => (hout.out_owned e he).1) ht
    · refine hsums b hb e he u hu fun hcanceled => ?_
      cases ht.symm.trans ((hout.requeued hr).deleted e he u hu fun h => h.2 hcanceled)
    · exact h.times p t hu
  rcases hq with ⟨hf, rfl⟩ | ⟨e, t, hf, ht, hq⟩
  · refine ⟨howned, by rw [hset, hclk]; exact h.lastSet_le, fun _ it hit => ?_, fun b' hb' => ?_, htimes⟩
    · cases hf.symm.trans hit
    · cases hb₁.symm.trans hb'
  · have htime : t.expiration = e.time := by
      obtain ⟨t', ht', htime⟩ := h₁.queued e (OrderedSet.mem_of_first hf)
      cases ht.symm.trans ht'
      exact htime
    have hvalid : 0 < t.expiration := by
      rw [htime]
      rcases hmem e (OrderedSet.mem_of_first hf) with hm | hm
      · exact hpos e hm
      · omega
    have hin : InInt64 (e.time - clock) := by
      have hbound := htimes _ t ht
      have hafter := hc.2
      unfold InInt64 at hbound hclock ⊢
      omega
    rw [if_pos hvalid] at hq
    subst hq
    refine ⟨howned, le_rfl, fun _ => ?_, fun b' hb' => ?_, htimes⟩
    · rw [htime]
      exact Armed.reset hf hin
    · cases hb₁.symm.trans hb'

theorem step_arming {s : Step} (h : Arming q) (he : q.Enabled s) (hc : q.ClockForward s) (ha : q.ArmsInTime s)
    (hs : q.step s = .ok q') : Arming q' := by
  cases s with
  | newTimer p when interval =>
    have howned := step_owned h.owned he hs
    cases hs
    refine ⟨howned, h.lastSet_le, h.armed, h.batch, fun r t ht => ?_⟩
    by_cases hr : r = p
    · subst hr
      cases (put_heap_same q r _).symm.trans ht
      exact ha.1
    · exact h.times r t ((put_heap_other q _ hr).symm.trans ht)
  | addTimerInLoop p now => exact addTimerInLoop_arming h he hc ha hs
  | cancelInLoop p sequence => exact cancelInLoop_arming h hs
  | handleRead now => exact handleRead_arming h he hc hs
  | runNext => exact runNext_arming h he hs
  | finish clock => exact finish_arming h he hc ha.1 hs

/-- In every run whose clock goes forward and whose steps satisfy the condition, the timerfd is armed in time between
any two steps and the next insertion sets it as it should. -/
theorem timerfd_armed {steps : List Step}
    (h : Path step (fun q s => q.Enabled s ∧ q.ClockForward s ∧ q.ArmsInTime s) {} steps q) (hb : q.batch = none) :
    Armed q ∧ ∀ p now t q', q.heap p = some t → q.ClockForward (.addTimerInLoop p now) →
      q.ArmsInTime (.addTimerInLoop p now) → q.addTimerInLoop p now = .ok q' → Rearms q t now q' := by
  have h₀ : Arming {} := ⟨initial_managed.owned, le_rfl, by simp [Armed], by simp, by simp⟩
  have hinv : Arming q := h.invariant h₀ fun t s u ht ha hs => step_arming ht ha.1 ha.2.1 ha.2.2 hs
  exact ⟨hinv.armed hb, fun p now t q' ht hc ha hs => (addTimerInLoop_arms hinv hb ht hc ha hs).2⟩

end Runs

/-- A callback adds an earlier timer and cancels a later one, and its own timer repeats. -/
theorem timerfd_armed_batch :
    letI := Build.debug
    let steps : List Step := [.newTimer 1 5000000 (some 1000000), .addTimerInLoop 1 1000, .newTimer 2 5000000 none,
      .addTimerInLoop 2 2000, .handleRead 5000050, .runNext, .newTimer 3 5500000 none, .addTimerInLoop 3 5000060,
      .runNext, .cancelInLoop 2 2, .finish 5000070]
    ∃ q, Path step (fun q s => q.Enabled s ∧ q.ClockForward s ∧ q.ArmsInTime s) {} steps q ∧
      q.timers.toList = [.of 5500000 3, .of 6000050 1] ∧ q.timerfd = some 5500000 ∧ Armed q := by
  intro steps
  let _ := Build.debug
  obtain ⟨q, hq, hp⟩ := Path.exists_of_any step
    (fun q s => q.Enabled s ∧ q.ClockForward s ∧ q.ArmsInTime s) {} steps (fun q => decide (q.batch.isNone = true ∧
      q.timers.toList = [.of 5500000 3, .of 6000050 1] ∧ q.timerfd = some 5500000)) (by decide +kernel)
  obtain ⟨hb, ht, hfd⟩ := of_decide_eq_true hp
  exact ⟨q, hq, ht, hfd, (timerfd_armed hq (by simpa using hb)).1⟩

/-- A timer for five seconds added after one for ten: the timerfd stays set to ten. -/
theorem timerfd_late :
    letI := Build.release
    let steps : List Step := [.newTimer 1 10000000 none, .addTimerInLoop 1 1000, .newTimer 2 5000000 none,
      .addTimerInLoop 2 2000]
    ∃ q, Path step (fun q s => q.Enabled s ∧ q.ClockForward s ∧ q.Representable s) {} steps q ∧
      q.batch.isNone = true ∧ ¬Armed q := by
  intro steps
  let _ := Build.release
  obtain ⟨q, hq, hp⟩ := Path.exists_of_any step
    (fun q s => q.Enabled s ∧ q.ClockForward s ∧ q.Representable s) {} steps (fun q => decide (q.batch.isNone = true ∧
      q.timers.first = some (.of 5000000 2) ∧ q.timerfd = some 10000000 ∧ q.lastSet = 1000)) (by decide +kernel)
  obtain ⟨hb, hf, hfd, hset⟩ := of_decide_eq_true hp
  refine ⟨q, hq, hb, ?_⟩
  intro h
  obtain ⟨expiry, hx, hle⟩ := h _ hf
  cases hfd.symm.trans hx
  rw [hset] at hle
  exact absurd hle (by decide)

end Networker.TimerQueue
