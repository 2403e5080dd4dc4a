import Networker.TimerOwnership

/-!
What `cancelInLoop` does to the timer it names, for the rest of the run, and to the
other timers. An id is an address and a number, and only the number tells two timers
at the same address apart.
-/

namespace Networker.TimerQueue

open CheckedRuns

section Canceling

variable {q q' : TimerQueue}

-- a timer of the batch that `reset` will delete
structure Condemned (q : TimerQueue) (p s : ℕ) : Prop where
  canceling : (p, s) ∈ q.cancelingTimers
  live : ∃ t, q.heap p = some t ∧ t.sequence = s
  running : ∃ e ∈ q.running, e.timer = p

/-- The timer with this number was made and is deleted. -/
abbrev Gone (q : TimerQueue) (s : ℕ) : Prop := Confined q s fun _ => False

theorem gone_of_deleted {p s : ℕ} {t : Timer} (hm : Managed q) (ht : q.heap p = some t) (hseq : t.sequence = s)
    (hmade : q.numCreated ≤ q'.numCreated) (hdel : q'.heap p = none)
    (hold : ∀ r t', q'.heap r = some t' → ∃ t, q.heap r = some t ∧ t.sequence = t'.sequence) : Gone q' s := by
  refine ⟨le_trans (hseq ▸ hm.numbered.bounded p t ht) hmade, ?_⟩
  intro r u hu husq
  obtain ⟨t', ht', hseq'⟩ := hold r u hu
  have hrp : r = p := hm.numbered.distinct r p t' t ht' ht (by rw [hseq', husq, hseq])
  subst hrp
  cases hdel.symm.trans hu

theorem Condemned.not_active {p s : ℕ} (h : Condemned q p s) (hm : Managed q) : (p, s) ∉ q.activeTimers := by
  obtain ⟨e, he, rfl⟩ := h.running
  exact (hm.consistent.batch e he).2 s

variable [Build]

def NeverRuns (q : TimerQueue) (s : ℕ) : Prop :=
  ∀ later q', Path step Enabled q later q' → ∃ more, q'.ran = q.ran ++ more ∧ s ∉ more

structure Stopped (q : TimerQueue) (p s : ℕ) (q₁ : TimerQueue) : Prop where
  queued : (p, s) ∈ q.activeTimers →
    (p, s) ∉ q₁.activeTimers ∧ (∀ e ∈ q₁.timers, e.timer ≠ p) ∧ NeverRuns q₁ s
  batch : (∃ e ∈ q.running, e.timer = p) → (∃ t, q.heap p = some t ∧ t.sequence = s) →
    ∀ later q₂, Path step Enabled q₁ later q₂ → (p, s) ∉ q₂.activeTimers ∧ (q₂.batch = none → NeverRuns q₂ s)

structure Untouched (q : TimerQueue) (p s : ℕ) (q₁ : TimerQueue) : Prop where
  heap : ∀ r t, q.heap r = some t → (r, t.sequence) ≠ (p, s) → q₁.heap r = some t
  timers : ∀ e ∈ q.timers, (∀ t, q.heap e.timer = some t → (e.timer, t.sequence) ≠ (p, s)) → e ∈ q₁.timers
  active : ∀ id, id ≠ (p, s) → (id ∈ q₁.activeTimers ↔ id ∈ q.activeTimers)
  canceling : ∀ id, id ≠ (p, s) → (id ∈ q₁.cancelingTimers ↔ id ∈ q.cancelingTimers)
  batch : q₁.batch = q.batch
  created : q₁.created = q.created

/-- A repeating timer of the batch that starts here is queued again unless its own id is cancelled in between. -/
def KeepsRepeating (q : TimerQueue) : Prop :=
  ∀ now q₁ later q₂ b clock q₃, q.Enabled (.handleRead now) → q.step (.handleRead now) = .ok q₁ →
    Path step Enabled q₁ later q₂ → q₂.batch = some b → q₂.step (.finish clock) = .ok q₃ →
    ∀ e ∈ b.expired, ∀ t, q₂.heap e.timer = some t → t.repeats = true → .cancelInLoop e.timer t.sequence ∉ later →
      q₃.heap e.timer = some (t.restart b.now) ∧ Entry.of (t.restart b.now).expiration e.timer ∈ q₃.timers

theorem step_ran {i : Step} (hm : Managed q) (he : q.Enabled i) (hs : q.step i = .ok q') :
    q'.ran = q.ran ∨ ∃ e ∈ q.running, ∃ t, q.heap e.timer = some t ∧ q'.ran = q.ran ++ [t.sequence] := by
  obtain ⟨hr, -⟩ | ⟨_, _, -, hr, -⟩ | ⟨now, expired, e, remaining, t, hb, ht, hr, -⟩ | ⟨hr, -⟩ :=
    step_effects hm.owned he hs
  · exact Or.inl hr
  · exact Or.inl hr
  · have hin := hm.batch _ hb e List.mem_cons_self
    exact Or.inr ⟨e, by simpa [TimerQueue.running, hb] using hin, t, ht, hr⟩
  · exact Or.inl hr

theorem Gone.neverRuns {s : ℕ} (h : Gone q s) (hm : Managed q) : NeverRuns q s := by
  intro later q' hr
  have hall : Managed q' ∧ Gone q' s ∧ ∃ more, q'.ran = q.ran ++ more ∧ s ∉ more := by
    apply hr.invariant (P := fun u => Managed u ∧ Gone u s ∧ ∃ more, u.ran = q.ran ++ more ∧ s ∉ more)
    · exact ⟨hm, h, [], by simp, by simp⟩
    · rintro t i u ⟨hmt, hg, more, hran, hnot⟩ he hs
      refine ⟨hmt.step he hs, hg.step hmt.owned he hs, ?_⟩
      rcases step_ran hmt he hs with hsame | ⟨e, -, t', ht', hnext⟩
      · exact ⟨more, hsame.trans hran, hnot⟩
      · refine ⟨more ++ [t'.sequence], by rw [hnext, hran, List.append_assoc], ?_⟩
        have hne : s ≠ t'.sequence := fun heq => hg.2 e.timer t' ht' heq.symm
        simp [hnot, hne]
  exact hall.2.2

theorem cancelInLoop_untouched {p s : ℕ} (hm : Managed q) (hs : q.cancelInLoop p s = .ok q') : Untouched q p s q' := by
  obtain ⟨ha, t, ht, rfl⟩ | ⟨-, rfl⟩ := cancelInLoop_inv hs
  · obtain ⟨t', ht', hseq, hin⟩ := (hm.owned.active p s).mp ha
    cases ht.symm.trans ht'
    constructor
    · intro r u hu hne
      have hr : r ≠ p := by
        rintro rfl
        cases ht.symm.trans hu
        exact hne (by rw [hseq])
      exact (put_heap_other q none hr).trans hu
    · intro e he hne
      refine OrderedSet.mem_erase.mpr ⟨he, ?_⟩
      rintro rfl
      exact hne t ht (by rw [hseq, Entry.timer_of])
    · intro id hne
      simp [hne]
    · exact fun _ _ => Iff.rfl
    · rfl
    · rfl
  · refine ⟨fun _ _ hu _ => hu, fun _ he _ => he, fun _ _ => Iff.rfl, ?_, rfl, rfl⟩
    intro id hne
    dsimp only
    split_ifs
    · simp [hne]
    · exact Iff.rfl

/-- `cancelingTimers_` starts a batch empty, and until then only grows. -/
theorem step_cancelingTimers {i : Step} (hm : Managed q) (he : q.Enabled i) (hs : q.step i = .ok q') :
    q'.cancelingTimers = q.cancelingTimers ∨
      (∃ p s, i = .cancelInLoop p s ∧ q'.cancelingTimers = Insert.insert (p, s) q.cancelingTimers) ∨
      ∃ now, i = .handleRead now ∧ q'.cancelingTimers = ∅ := by
  obtain ⟨-, -, hc⟩ | ⟨now, _, hi, -, -, hc⟩ | ⟨_, _, _, _, _, -, -, -, -, hc⟩ | ⟨-, -, hc⟩ :=
    step_effects hm.owned he hs
  · exact hc.imp_right Or.inl
  · exact Or.inr (Or.inr ⟨now, hi, hc⟩)
  · exact Or.inl hc
  · exact Or.inl hc

theorem canceling_step {i : Step} (hm : Managed q) (he : q.Enabled i) (hs : q.step i = .ok q')
    (hb : q.batch.isSome = true) {id : ℕ × ℕ} (h : id ∈ q.cancelingTimers) : id ∈ q'.cancelingTimers := by
  obtain hsame | ⟨p, s, -, hadd⟩ | ⟨now, rfl, -⟩ := step_cancelingTimers hm he hs
  · exact hsame ▸ h
  · rw [hadd]
    exact Finset.mem_insert_of_mem h
  · rw [Option.isNone_iff_eq_none.mp he] at hb
    cases hb

theorem Condemned.step {p s : ℕ} {i : Step} (h : Condemned q p s) (hm : Managed q) (he : q.Enabled i)
    (hs : q.step i = .ok q') : Condemned q' p s ∨ Gone q' s := by
  obtain ⟨t, ht, hseq⟩ := h.live
  obtain ⟨e, hin, hp⟩ := h.running
  have hb : q.batch.isSome = true := by
    by_contra hnone
    rw [TimerQueue.running, Option.not_isSome_iff_eq_none.mp hnone] at hin
    cases hin
  have hcan : (p, s) ∈ q'.cancelingTimers := canceling_step hm he hs hb h.canceling
  cases i with
  | newTimer r when interval =>
    cases hs
    have hr : p ≠ r := by
      rintro rfl
      cases ht.symm.trans he.1
    exact Or.inl ⟨hcan, ⟨t, (put_heap_other q _ hr).trans ht, hseq⟩, h.running⟩
  | addTimerInLoop r now =>
    obtain ⟨t, _, _, _, -, rfl⟩ := addTimerInLoop_shape hs
    exact Or.inl ⟨hcan, h.live, h.running⟩
  | cancelInLoop r s' =>
    obtain ⟨ha, t', -, rfl⟩ | ⟨-, rfl⟩ := cancelInLoop_inv hs
    · have hr : p ≠ r := by
        rintro rfl
        exact (hp ▸ (hm.consistent.batch e hin).2) s' ha
      exact Or.inl ⟨hcan, ⟨t, (put_heap_other q none hr).trans ht, hseq⟩, h.running⟩
    · exact Or.inl ⟨hcan, h.live, h.running⟩
  | handleRead now =>
    rw [Option.isNone_iff_eq_none.mp he] at hb
    cases hb
  | runNext =>
    obtain rfl | ⟨now, expired, e', remaining, t', hb, -, rfl⟩ := runNext_inv hs
    · exact Or.inl h
    · rw [TimerQueue.running, hb] at hin
      exact Or.inl ⟨hcan, h.live, e, hin, hp⟩
  | finish clock =>
    obtain hnew | ⟨hn, hold⟩ := step_heap hm.owned he hs
    · obtain ⟨_, _, _, hnew⟩ := hnew
      cases hnew
    · obtain ⟨b, q₁, _, _, _, hb, -, hreq, rfl⟩ := finish_shape hm.owned he hs
      rw [TimerQueue.running, hb] at hin
      have hdel : q₁.heap p = none := by
        rw [← hp] at ht ⊢
        refine hreq.deleted e hin t ht ?_
        rintro ⟨-, hnot⟩
        exact hnot (by rw [hp, hseq]; exact h.canceling)
      exact Or.inr (gone_of_deleted hm ht hseq hn.ge hdel hold)

theorem Condemned.run {p s : ℕ} (h : Condemned q p s) (hm : Managed q) {later : List Step}
    (hr : Path TimerQueue.step Enabled q later q') : Managed q' ∧ (Condemned q' p s ∨ Gone q' s) := by
  apply hr.invariant (P := fun u => Managed u ∧ (Condemned u p s ∨ Gone u s))
  · exact ⟨hm, Or.inl h⟩
  · rintro t i u ⟨hmt, hc | hg⟩ he hs
    · exact ⟨hmt.step he hs, hc.step hmt he hs⟩
    · exact ⟨hmt.step he hs, Or.inr (hg.step hmt.owned he hs)⟩

theorem cancelInLoop_stopped {p s : ℕ} (hm : Managed q) (hs : q.cancelInLoop p s = .ok q') : Stopped q p s q' := by
  have hm' : Managed q' := hm.step (i := .cancelInLoop p s) trivial hs
  constructor
  · intro ha
    obtain ⟨-, t, ht, rfl⟩ | ⟨hnot, -⟩ := cancelInLoop_inv hs
    · obtain ⟨t', ht', hseq, hin⟩ := (hm.owned.active p s).mp ha
      cases ht.symm.trans ht'
      refine ⟨Finset.notMem_erase _ _, ?_, ?_⟩
      · intro e he hp
        obtain ⟨he, hne⟩ := OrderedSet.mem_erase.mp he
        exact hne (hm.owned.timer_injective he hin hp)
      · obtain hnew | ⟨hn, hold⟩ := step_heap (i := .cancelInLoop p s) hm.owned trivial hs
        · obtain ⟨_, _, _, hnew⟩ := hnew
          cases hnew
        · exact (gone_of_deleted hm ht hseq hn.ge (put_heap_same q p none) hold).neverRuns hm'
    · exact absurd ha hnot
  · rintro ⟨e, hin, hp⟩ hlive later q₂ hr
    have hnot : (p, s) ∉ q.activeTimers := hp ▸ (hm.consistent.batch e hin).2 s
    obtain ⟨ha, -⟩ | ⟨-, rfl⟩ := cancelInLoop_inv hs
    · exact absurd ha hnot
    · have hcalling : q.callingExpiredTimers = true := by
        cases hb : q.batch with
        | none =>
          rw [TimerQueue.running, hb] at hin
          simp at hin
        | some b => simp [callingExpiredTimers, hb]
      have hc : Condemned { q with
          cancelingTimers :=
            if q.callingExpiredTimers then Insert.insert (p, s) q.cancelingTimers else q.cancelingTimers } p s := by
        refine ⟨?_, hlive, e, hin, hp⟩
        rw [if_pos hcalling]
        exact Finset.mem_insert_self _ _
      obtain ⟨hm₂, hc₂ | hg₂⟩ := hc.run hm' hr
      · refine ⟨hc₂.not_active hm₂, ?_⟩
        intro hb
        obtain ⟨e, he, -⟩ := hc₂.running
        rw [TimerQueue.running, hb] at he
        simp at he
      · refine ⟨?_, fun _ => hg₂.neverRuns hm₂⟩
        intro ha
        obtain ⟨t, ht, hseq⟩ := hm₂.consistent.active p s ha
        exact hg₂.2 p t ht hseq

theorem step_canceling {i : Step} (hm : Managed q) (he : q.Enabled i) (hs : q.step i = .ok q') {r s : ℕ}
    (h : (r, s) ∈ q'.cancelingTimers) : (r, s) ∈ q.cancelingTimers ∨ i = .cancelInLoop r s := by
  obtain hsame | ⟨p, s', rfl, hadd⟩ | ⟨_, -, hnone⟩ := step_cancelingTimers hm he hs
  · exact Or.inl (hsame ▸ h)
  · rw [hadd] at h
    obtain ⟨rfl, rfl⟩ | hold := (Finset.mem_insert.mp h).imp_left Prod.mk.inj
    · exact Or.inr rfl
    · exact Or.inl hold
  · rw [hnone] at h
    exact absurd h (Finset.notMem_empty _)

/-- What `cancelingTimers_` holds was put there by a `cancelInLoop` with this id since the batch started. -/
theorem canceling_run (hm : Managed q) (hempty : q.cancelingTimers = ∅) {later : List Step}
    (hr : Path step Enabled q later q') : ∀ r s, (r, s) ∈ q'.cancelingTimers → .cancelInLoop r s ∈ later := by
  induction hr with
  | nil =>
    intro r s h
    rw [hempty] at h
    exact absurd h (Finset.notMem_empty _)
  | snoc i hpath he hs ih =>
    intro r s h
    rcases step_canceling (hm.run hpath) he hs h with hold | rfl
    · exact List.mem_append_left _ (ih r s hold)
    · exact List.mem_append_right _ List.mem_cons_self

theorem Managed.keepsRepeating (hm : Managed q) : KeepsRepeating q := by
  intro now q₁ later q₂ b clock q₃ he hs hr hb hf e hin t ht hrep hnot
  have hm₁ : Managed q₁ := hm.step he hs
  have hempty : q₁.cancelingTimers = ∅ := by
    obtain ⟨_, _, rfl⟩ := handleRead_shape hm.owned hs
    rfl
  have hm₂ : Managed q₂ := hm₁.run hr
  have ho := hm₂.owned
  rw [TimerQueue.running, hb] at ho
  obtain ⟨q', _, _, _, hreq, rfl⟩ := finish_requeued hb ho hf
  exact hreq.again e hin t ht hrep fun hc => hnot (canceling_run hm₁ hempty hr _ _ hc)

theorem cancel_permanent_and_precise {steps : List Step} (h : Path step Enabled {} steps q) :
    (∀ p s q₁, q.step (.cancelInLoop p s) = .ok q₁ → Stopped q p s q₁ ∧ Untouched q p s q₁) ∧ KeepsRepeating q := by
  have hm : Managed q := initial_managed.run h
  refine ⟨?_, hm.keepsRepeating⟩
  intro p s q₁ hs
  exact ⟨cancelInLoop_stopped hm hs, cancelInLoop_untouched hm hs⟩

end Canceling

-- the callback cancels its own repeating timer and, through an old id, a new timer at the same address
theorem cancel_permanent_and_precise_batch :
    letI := Build.debug
    let steps : List Step := [.newTimer 1 100 none, .addTimerInLoop 1 1, .cancelInLoop 1 1, .newTimer 1 100 (some 10),
      .addTimerInLoop 1 2, .newTimer 2 100 (some 10), .addTimerInLoop 2 3, .handleRead 200, .runNext,
      .cancelInLoop 1 1]
    ∃ q q₁, Path step Enabled {} steps q ∧ q.running = [.of 100 1, .of 100 2] ∧ q.ran = [2] ∧
      q.step (.cancelInLoop 1 2) = .ok q₁ ∧ Stopped q 1 2 q₁ ∧ Untouched q 1 2 q₁ := by
  intro steps
  let _ := Build.debug
  obtain ⟨q, hq, hp⟩ := Path.exists_of_any step Enabled {} steps
    (fun q => decide (q.running = [.of 100 1, .of 100 2] ∧ q.ran = [2])) (by decide +kernel)
  obtain ⟨hr, hran⟩ := of_decide_eq_true hp
  obtain ⟨q₁, hs⟩ := (initial_managed.run hq).step_ok (i := .cancelInLoop 1 2) trivial
  obtain ⟨hstop, huntouched⟩ := (cancel_permanent_and_precise hq).1 1 2 q₁ hs
  exact ⟨q, q₁, hq, hr, hran, hs, hstop, huntouched⟩

end Networker.TimerQueue
