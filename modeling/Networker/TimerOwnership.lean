import Mathlib.Data.Finset.Dedup
import Networker.TimerQueueSpecs

/-!
The two sets agree with each other and with the timers that are alive, so that no
assertion of `TimerQueue` fails and no timer is leaked, used or deleted after its deletion.
-/

namespace Networker.TimerQueue

open CheckedRuns

variable {q q' : TimerQueue} {out : List Entry}

-- every live timer belongs to somebody
def Accounted (q : TimerQueue) (out : List Entry) : Prop :=
  ∀ p t, q.heap p = some t → p ∈ q.created ∨ Entry.of t.expiration p ∈ q.timers ∨ ∃ e ∈ out, e.timer = p

/-- Timers have different numbers, none above the number of timers ever made. -/
structure Numbered (q : TimerQueue) : Prop where
  bounded : ∀ p t, q.heap p = some t → t.sequence ≤ q.numCreated
  distinct : ∀ p r t u, q.heap p = some t → q.heap r = some u → t.sequence = u.sequence → p = r

theorem Owned.sizes (h : Owned q out) : q.timers.size = q.activeTimers.card := by
  let f : Entry → ℕ × ℕ := fun e => (e.timer, ((q.heap e.timer).map Timer.sequence).getD 0)
  have hf {e : Entry} {t : Timer} (ht : q.heap e.timer = some t) : f e = (e.timer, t.sequence) := by simp [f, ht]
  have hnodup : (q.timers.toList.map f).Nodup := by
    refine List.Nodup.map_on ?_ q.timers.nodup
    intro e he e' he' heq
    exact h.timer_injective he he' (congrArg Prod.fst heq)
  have hset : (q.timers.toList.map f).toFinset = q.activeTimers := by
    ext ⟨p, s⟩
    rw [List.mem_toFinset, List.mem_map, h.active]
    constructor
    · rintro ⟨e, he, hp⟩
      obtain ⟨t, ht, -⟩ := h.queued e he
      rw [hf ht] at hp
      cases hp
      exact ⟨t, ht, rfl, h.unique he ht ▸ he⟩
    · rintro ⟨t, ht, rfl, he⟩
      exact ⟨_, he, hf ht⟩
  rw [← hset, List.toFinset_card_of_nodup hnodup, List.length_map]
  rfl

theorem deref_live {p : ℕ} {t : Timer} (h : q.heap p = some t) : q.deref p = .ok t := by
  simp only [deref, h]

theorem Owned.not_active (h : Owned q out) {p : ℕ} (hq : ∀ e ∈ q.timers, e.timer ≠ p) (s : ℕ) :
    (p, s) ∉ q.activeTimers := by
  intro hm
  obtain ⟨t, -, -, he⟩ := (h.active p s).mp hm
  exact hq _ he rfl

section Progress

variable [Build]

theorem Owned.insert_ok (h : Owned q out) {p : ℕ} {t : Timer} (ht : q.heap p = some t)
    (hq : ∀ e ∈ q.timers, e.timer ≠ p) (ho : ∀ e ∈ out, e.timer ≠ p) (hc : p ∉ q.created) :
    ∃ q' changed, q.insert p = .ok (q', changed) := by
  have hnew : Entry.of t.expiration p ∉ q.timers := fun he => hq _ he rfl
  have hsizes := (h.inserted ht ho hc).sizes
  simp only [TimerQueue.insert, assert_pos h.sizes, ok_bind, deref_live ht, assert_pos hnew,
    assert_pos (h.not_active hq t.sequence), assert_pos hsizes]
  exact ⟨_, _, rfl⟩

theorem Owned.addTimerInLoop_ok (h : Owned q out) {p : ℕ} (hp : p ∈ q.created) (now : ℤ) :
    ∃ q', q.addTimerInLoop p now = .ok q' := by
  obtain ⟨⟨t, ht⟩, hq⟩ := h.created_owned p hp
  have ho : ∀ e ∈ out, e.timer ≠ p := by
    rintro e he rfl
    exact (h.out_owned e he).2.2 hp
  obtain ⟨q₁, changed, hi⟩ := Owned.insert_ok (h.started p) ht hq ho (fun hm => h.created_nodup.not_mem_erase hm)
  have ht₁ : q₁.heap p = some t := by
    obtain ⟨t', -, -, rfl⟩ := insert_inv hi
    exact ht
  simp only [TimerQueue.addTimerInLoop, hi, ok_bind, deref_live ht₁]
  split_ifs
  · exact ⟨_, rfl⟩
  · exact ⟨_, rfl⟩

theorem Owned.cancelInLoop_ok (h : Owned q out) (p s : ℕ) : ∃ q', q.cancelInLoop p s = .ok q' := by
  simp only [TimerQueue.cancelInLoop, assert_pos h.sizes, ok_bind]
  by_cases hm : (p, s) ∈ q.activeTimers
  · obtain ⟨t, ht, rfl, he⟩ := (h.active p s).mp hm
    have hsizes := (h.removed ht he).sizes
    rw [if_pos hm, deref_live ht]
    simp only [ok_bind, assert_pos he]
    exact ⟨_, by rw [assert_pos (by exact hsizes), ok_bind]⟩
  · rw [if_neg hm]
    by_cases hcalling : q.callingExpiredTimers = true
    · rw [if_pos hcalling]
      exact ⟨_, by rw [assert_pos (by exact h.sizes), ok_bind]⟩
    · rw [if_neg hcalling]
      exact ⟨_, by rw [assert_pos h.sizes, ok_bind]⟩

theorem deactivate_ok {expired : List Entry} (hnodup : (expired.map Entry.timer).Nodup)
    (h : ∀ e ∈ expired, ∃ t, q.heap e.timer = some t ∧ (e.timer, t.sequence) ∈ q.activeTimers) :
    ∃ q', q.deactivate expired = .ok q' := by
  induction expired generalizing q with
  | nil => exact ⟨q, rfl⟩
  | cons e expired ih =>
    obtain ⟨t, ht, hm⟩ := h e (by simp)
    obtain ⟨hnotMem, hnodup⟩ := List.nodup_cons.mp (List.map_cons .. ▸ hnodup)
    simp only [deactivate, deref_live ht, ok_bind, assert_pos hm]
    apply ih hnodup
    intro e' he'
    obtain ⟨t', ht', hm'⟩ := h e' (by simp [he'])
    refine ⟨t', ht', Finset.mem_erase.mpr ⟨?_, hm'⟩⟩
    intro heq
    have hp : e'.timer = e.timer := congrArg Prod.fst heq
    exact hnotMem (hp ▸ List.mem_map_of_mem he')

theorem Owned.getExpired_ok (h : Owned q []) (now : ℤ) : ∃ r, q.getExpired now = .ok r := by
  obtain ⟨hbelow, hrest⟩ := h.below_sentry now
  have hmem {e : Entry} (he : e ∈ (q.timers.filter fun e => e.time ≤ now).toList) : e ∈ q.timers :=
    (OrderedSet.mem_filter.mp he).1
  have hlate : (q.timers.filter fun e => now < e.time).first.all (fun e => now < e.time) = true := by
    rw [Option.all_eq_true]
    intro e he
    exact (OrderedSet.mem_filter.mp (OrderedSet.mem_of_first he)).2
  have hnodup : ((q.timers.filter fun e => e.time ≤ now).toList.map Entry.timer).Nodup := by
    refine List.Nodup.map_on ?_ (OrderedSet.nodup _)
    intro e he e' he' hp
    exact h.timer_injective (hmem he) (hmem he') hp
  obtain ⟨q₁, hd⟩ := deactivate_ok (q := { q with timers := q.timers.filter fun e => now < e.time }) hnodup (by
    intro e he
    obtain ⟨t, ht, -⟩ := h.queued e (hmem he)
    exact ⟨t, ht, (h.active _ _).mpr ⟨t, ht, rfl, h.unique (hmem he) ht ▸ hmem he⟩⟩)
  have hsizes : q₁.timers.size = q₁.activeTimers.card := by
    obtain ⟨activeTimers, rfl, hact⟩ := deactivate_inv hd
    exact (h.expire hact).sizes
  simp only [TimerQueue.getExpired, assert_pos h.sizes, ok_bind, hbelow, hrest, assert_pos hlate, hd,
    assert_pos hsizes]
  exact ⟨_, rfl⟩

theorem Owned.handleRead_ok (h : Owned q []) (now : ℤ) : ∃ q', q.handleRead now = .ok q' := by
  obtain ⟨timerfd, ht⟩ := readTimerfd_eq { q with clock := now } now
  have hread : Owned { q with clock := now, timerfd } [] := { h with }
  obtain ⟨⟨q₁, expired⟩, he⟩ := hread.getExpired_ok now
  simp only [TimerQueue.handleRead, ht, he, ok_bind]
  exact ⟨_, rfl⟩

theorem Owned.requeue_ok {expired : List Entry} (h : Owned q expired) (now : ℤ) :
    ∃ q', q.requeue now expired = .ok q' := by
  induction expired generalizing q with
  | nil => exact ⟨q, rfl⟩
  | cons e expired ih =>
    obtain ⟨⟨t, ht⟩, hd, hn⟩ := h.out_owned e (by simp)
    obtain ⟨hrest, hne⟩ := h.out_cons
    simp only [TimerQueue.requeue, deref_live ht, ok_bind]
    split_ifs
    · have hput := hrest.put (some (t.restart now)) hd hne hn fun _ => h.addresses _ t ht
      obtain ⟨q₁, changed, hi⟩ := hput.insert_ok (put_heap_same q e.timer _) hd hne hn
      rw [hi, ok_bind]
      exact ih (hput.insert hne hn hi)
    · exact ih (hrest.put none hd hne hn (by simp))

theorem Owned.finish_ok {b : Batch} (hb : q.batch = some b) (h : Owned q b.expired) (clock : ℤ) :
    ∃ q', q.finish clock = .ok q' := by
  have hout : Owned { q with batch := none } b.expired := { h with }
  obtain ⟨q₁, hr⟩ := hout.requeue_ok b.now
  simp only [TimerQueue.finish, hb, TimerQueue.reset, hr, ok_bind]
  split
  · exact ⟨_, rfl⟩
  · next e hf =>
    obtain ⟨t, ht, -⟩ := (hout.requeue hr).queued e (OrderedSet.mem_of_first hf)
    rw [deref_live ht, ok_bind]
    exact ⟨_, rfl⟩

end Progress

@[simp] theorem restart_sequence (t : Timer) (now : ℤ) : (t.restart now).sequence = t.sequence := by
  unfold Timer.restart
  split <;> rfl

structure Requeued (q : TimerQueue) (now : ℤ) (expired : List Entry) (q' : TimerQueue) : Prop where
  shape : ∃ heap timers activeTimers, q' = { q with heap, timers, activeTimers }
  other : ∀ p, (∀ e ∈ expired, e.timer ≠ p) → q'.heap p = q.heap p
  kept : ∀ e ∈ q.timers, e ∈ q'.timers
  again : ∀ e ∈ expired, ∀ t, q.heap e.timer = some t → t.repeats = true → (e.timer, t.sequence) ∉ q.cancelingTimers →
    q'.heap e.timer = some (t.restart now) ∧ Entry.of (t.restart now).expiration e.timer ∈ q'.timers
  deleted : ∀ e ∈ expired, ∀ t, q.heap e.timer = some t →
    ¬(t.repeats = true ∧ (e.timer, t.sequence) ∉ q.cancelingTimers) → q'.heap e.timer = none

theorem Requeued.cons {now : ℤ} {e : Entry} {expired : List Entry} {q₁ : TimerQueue} {t : Timer}
    (h : Requeued q₁ now expired q') (hne : ∀ e' ∈ expired, e'.timer ≠ e.timer) (ht : q.heap e.timer = some t)
    (hshape : ∃ heap timers activeTimers, q₁ = { q with heap, timers, activeTimers })
    (hother : ∀ p, p ≠ e.timer → q₁.heap p = q.heap p) (hkept : ∀ e ∈ q.timers, e ∈ q₁.timers)
    (hagain : t.repeats = true → (e.timer, t.sequence) ∉ q.cancelingTimers →
      q₁.heap e.timer = some (t.restart now) ∧ Entry.of (t.restart now).expiration e.timer ∈ q₁.timers)
    (hdeleted : ¬(t.repeats = true ∧ (e.timer, t.sequence) ∉ q.cancelingTimers) → q₁.heap e.timer = none) :
    Requeued q now (e :: expired) q' := by
  obtain ⟨heap, timers, activeTimers, rfl⟩ := h.shape
  obtain ⟨heap₁, timers₁, activeTimers₁, rfl⟩ := hshape
  have hself := h.other e.timer hne
  refine ⟨⟨heap, timers, activeTimers, rfl⟩, ?_, fun e' he' => h.kept e' (hkept e' he'), ?_, ?_⟩
  · intro p hp
    rw [h.other p fun e' he' => hp e' (by simp [he']), hother p (hp e (by simp)).symm]
  · intro e' he' t' ht' hrep hcan
    rcases List.mem_cons.mp he' with rfl | he'
    · cases ht.symm.trans ht'
      obtain ⟨hheap, hin⟩ := hagain hrep hcan
      exact ⟨hself.trans hheap, h.kept _ hin⟩
    · exact h.again e' he' t' ((hother _ (hne e' he')).trans ht') hrep hcan
  · intro e' he' t' ht' hcan
    rcases List.mem_cons.mp he' with rfl | he'
    · cases ht.symm.trans ht'
      exact hself.trans (hdeleted hcan)
    · exact h.deleted e' he' t' ((hother _ (hne e' he')).trans ht') hcan

section Steps

variable [Build]

theorem Owned.requeued {now : ℤ} {expired : List Entry} (h : Owned q expired)
    (hr : q.requeue now expired = .ok q') : Requeued q now expired q' := by
  induction expired generalizing q with
  | nil =>
    cases hr
    exact ⟨⟨_, _, _, rfl⟩, fun _ _ => rfl, fun _ he => he, by simp, by simp⟩
  | cons e expired ih =>
    obtain ⟨-, hd, hn⟩ := h.out_owned e (by simp)
    obtain ⟨hrest, hne⟩ := h.out_cons
    obtain ⟨t, ht, ⟨hrep, hcan, q₁, changed, hi, hq⟩ | ⟨hcan, hq⟩⟩ := requeue_cons_inv hr
    · have hput := hrest.put (some (t.restart now)) hd hne hn fun _ => h.addresses _ t ht
      have hreq := ih (hput.insert hne hn hi) hq
      obtain ⟨t', ht', -, rfl⟩ := insert_inv hi
      rw [put_heap_same] at ht'
      cases ht'
      apply hreq.cons hne ht
      · exact ⟨_, _, _, rfl⟩
      · exact fun p hp => put_heap_other q _ hp
      · exact fun e' he' => OrderedSet.mem_insert.mpr (Or.inr he')
      · exact fun _ _ => ⟨put_heap_same q _ _, OrderedSet.mem_insert.mpr (Or.inl rfl)⟩
      · exact fun hnot => absurd ⟨hrep, hcan⟩ hnot
    · apply (ih (hrest.put none hd hne hn (by simp)) hq).cons hne ht
      · exact ⟨_, _, _, rfl⟩
      · exact fun p hp => put_heap_other q _ hp
      · exact fun e' he' => he'
      · exact fun h₁ h₂ => absurd ⟨h₁, h₂⟩ hcan
      · exact fun _ => put_heap_same q _ _

theorem finish_requeued {b : Batch} (hb : q.batch = some b) (h : Owned q b.expired) {clock : ℤ}
    (hs : q.finish clock = .ok q') :
    ∃ q₁ timerfd lastSet clock', Requeued { q with batch := none } b.now b.expired q₁ ∧
      q' = { q₁ with timerfd, lastSet, clock := clock' } := by
  obtain ⟨q₁, hr, hq⟩ := finish_inv hb hs
  have hout : Owned { q with batch := none } b.expired := { h with }
  have hreq := hout.requeued hr
  rcases hq with ⟨-, rfl⟩ | ⟨e, t, -, -, rfl⟩
  · exact ⟨_, _, _, _, hreq, rfl⟩
  · split_ifs
    · exact ⟨_, _, _, _, hreq, rfl⟩
    · exact ⟨_, _, _, _, hreq, rfl⟩

omit [Build] in
/-- A timer that is left was restarted, or it was not in the batch. -/
theorem Requeued.live {now : ℤ} {expired : List Entry} (h : Requeued q now expired q')
    (hlive : ∀ e ∈ expired, ∃ t, q.heap e.timer = some t) {r : ℕ} {t' : Timer} (ht' : q'.heap r = some t') :
    (∃ e ∈ expired, ∃ t, e.timer = r ∧ q.heap r = some t ∧ t' = t.restart now ∧ Entry.of t'.expiration r ∈ q'.timers) ∨
      ((∀ e ∈ expired, e.timer ≠ r) ∧ q.heap r = some t') := by
  by_cases hr : ∃ e ∈ expired, e.timer = r
  · obtain ⟨e, hm, rfl⟩ := hr
    obtain ⟨t, ht⟩ := hlive e hm
    by_cases hcan : t.repeats = true ∧ (e.timer, t.sequence) ∉ q.cancelingTimers
    · obtain ⟨hheap, hin⟩ := h.again e hm t ht hcan.1 hcan.2
      cases hheap.symm.trans ht'
      exact Or.inl ⟨e, hm, t, rfl, ht, rfl, hin⟩
    · cases (h.deleted e hm t ht hcan).symm.trans ht'
  · push Not at hr
    exact Or.inr ⟨hr, (h.other r hr).symm.trans ht'⟩

/-- The end of a batch, which the queue owned. -/
theorem finish_shape {clock : ℤ} (h : Owned q q.running) (he : q.Enabled (.finish clock)) (hs : q.step (.finish clock) = .ok q') :
    ∃ b q₁ timerfd lastSet clock', q.batch = some b ∧ Owned q b.expired ∧
      Requeued { q with batch := none } b.now b.expired q₁ ∧ q' = { q₁ with timerfd, lastSet, clock := clock' } := by
  obtain ⟨b, hb, -⟩ := (Option.any_eq_true _ _).mp he
  rw [running, hb] at h
  obtain ⟨q₁, timerfd, lastSet, clock', hreq, hq⟩ := finish_requeued hb h hs
  exact ⟨b, q₁, timerfd, lastSet, clock', hb, h, hreq, hq⟩

theorem addTimerInLoop_shape {p : ℕ} {now : ℤ} (h : q.addTimerInLoop p now = .ok q') :
    ∃ t timerfd lastSet clock, q.heap p = some t ∧
      q' = { q with
        created := q.created.erase p
        timers := q.timers.insert (.of t.expiration p)
        activeTimers := Insert.insert (p, t.sequence) q.activeTimers
        timerfd, lastSet, clock } := by
  obtain ⟨t, q₁, changed, ht, hi, rfl⟩ := addTimerInLoop_inv h
  obtain ⟨t', ht', -, rfl⟩ := insert_inv hi
  cases ht.symm.trans ht'
  split_ifs
  · exact ⟨t, _, _, _, ht, rfl⟩
  · exact ⟨t, _, _, _, ht, rfl⟩

theorem handleRead_shape {now : ℤ} (ho : Owned q out) (h : q.handleRead now = .ok q') :
    ∃ timerfd activeTimers,
      q' = { q with
        timers := q.timers.filter fun e => now < e.time
        activeTimers
        cancelingTimers := ∅
        batch := some ⟨now, (q.timers.filter fun e => e.time ≤ now).toList,
          (q.timers.filter fun e => e.time ≤ now).toList⟩
        timerfd
        clock := now } := by
  obtain ⟨q₁, expired, hexp, rfl⟩ := handleRead_inv h
  obtain ⟨timerfd, ht⟩ := readTimerfd_eq { q with clock := now } now
  rw [ht] at hexp
  have hread : Owned { q with clock := now, timerfd } out := { ho with }
  obtain ⟨rfl, hd⟩ := getExpired_inv hread hexp
  obtain ⟨activeTimers, rfl, -⟩ := deactivate_inv hd
  exact ⟨timerfd, activeTimers, rfl⟩

/-- No step but `newTimer` makes a timer, and no step changes the number of one. -/
theorem step_heap {i : Step} (h : Owned q q.running) (he : q.Enabled i) (hs : q.step i = .ok q') :
    (∃ p when interval, i = .newTimer p when interval) ∨
      (q'.numCreated = q.numCreated ∧
        ∀ p t', q'.heap p = some t' → ∃ t, q.heap p = some t ∧ t.sequence = t'.sequence) := by
  cases i with
  | newTimer p when interval => exact Or.inl ⟨p, when, interval, rfl⟩
  | addTimerInLoop p now =>
    obtain ⟨t, _, _, _, -, rfl⟩ := addTimerInLoop_shape hs
    exact Or.inr ⟨rfl, fun r t' ht' => ⟨t', ht', rfl⟩⟩
  | cancelInLoop p s =>
    refine Or.inr ?_
    obtain ⟨-, t, -, rfl⟩ | ⟨-, rfl⟩ := cancelInLoop_inv hs
    · refine ⟨rfl, ?_⟩
      intro r t' ht'
      have hne : r ≠ p := by
        rintro rfl
        cases (put_heap_same q r none).symm.trans ht'
      exact ⟨t', (put_heap_other q none hne).symm.trans ht', rfl⟩
    · exact ⟨rfl, fun r t' ht' => ⟨t', ht', rfl⟩⟩
  | handleRead now =>
    obtain ⟨_, _, rfl⟩ := handleRead_shape h hs
    exact Or.inr ⟨rfl, fun r t' ht' => ⟨t', ht', rfl⟩⟩
  | runNext =>
    obtain rfl | ⟨_, _, _, _, _, -, -, rfl⟩ := runNext_inv hs
    · exact Or.inr ⟨rfl, fun r t' ht' => ⟨t', ht', rfl⟩⟩
    · exact Or.inr ⟨rfl, fun r t' ht' => ⟨t', ht', rfl⟩⟩
  | finish clock =>
    obtain ⟨b, q₁, _, _, _, hb, h, hreq, rfl⟩ := finish_shape h he hs
    obtain ⟨heap, timers, activeTimers, rfl⟩ := hreq.shape
    refine Or.inr ⟨rfl, ?_⟩
    intro r t' ht'
    obtain ⟨-, -, t, -, ht, rfl, -⟩ | ⟨-, ht⟩ := hreq.live (fun e hm => (h.out_owned e hm).1) ht'
    · exact ⟨t, ht, (restart_sequence t b.now).symm⟩
    · exact ⟨t', ht, rfl⟩

theorem Numbered.step {i : Step} (h : Numbered q) (ho : Owned q q.running) (he : q.Enabled i)
    (hs : q.step i = .ok q') : Numbered q' := by
  obtain ⟨p, when, interval, rfl⟩ | ⟨hn, hold⟩ := step_heap ho he hs
  · cases hs
    have hcases : ∀ r t, (q.newTimer p when interval).heap r = some t →
        (r = p ∧ t.sequence = q.numCreated + 1) ∨ (q.heap r = some t ∧ t.sequence ≤ q.numCreated) := by
      intro r t ht
      by_cases hr : r = p
      · subst hr
        cases (put_heap_same q r _).symm.trans ht
        exact Or.inl ⟨rfl, rfl⟩
      · have ht' := (put_heap_other q _ hr).symm.trans ht
        exact Or.inr ⟨ht', h.bounded r t ht'⟩
    constructor
    · intro r t ht
      show t.sequence ≤ q.numCreated + 1
      rcases hcases r t ht with ⟨-, hs⟩ | ⟨-, hs⟩ <;> omega
    · intro r r' t u ht hu heq
      rcases hcases r t ht with ⟨rfl, hs⟩ | ⟨ht', hs⟩ <;> rcases hcases r' u hu with ⟨rfl, hs'⟩ | ⟨hu', hs'⟩
      · rfl
      · omega
      · omega
      · exact h.distinct r r' t u ht' hu' heq
  · constructor
    · intro p t' ht'
      obtain ⟨t, ht, hseq⟩ := hold p t' ht'
      rw [hn, ← hseq]
      exact h.bounded p t ht
    · intro p r t' u' ht' hu' heq
      obtain ⟨t, ht, hseq⟩ := hold p t' ht'
      obtain ⟨u, hu, hseq'⟩ := hold r u' hu'
      exact h.distinct p r t u ht hu (by rw [hseq, heq, hseq'])

theorem Accounted.step {i : Step} (h : Accounted q q.running) (ho : Owned q q.running) (he : q.Enabled i)
    (hs : q.step i = .ok q') : Accounted q' q'.running := by
  intro r t' ht'
  cases i with
  | newTimer p when interval =>
    cases hs
    by_cases hr : r = p
    · exact Or.inl (hr ▸ List.mem_cons_self)
    · have ht := (put_heap_other q _ hr).symm.trans ht'
      rcases h r t' ht with hc | hin | hout
      · exact Or.inl (List.mem_cons_of_mem p hc)
      · exact Or.inr (Or.inl hin)
      · exact Or.inr (Or.inr hout)
  | addTimerInLoop p now =>
    obtain ⟨t, _, _, _, ht, rfl⟩ := addTimerInLoop_shape hs
    by_cases hr : r = p
    · subst hr
      cases ht.symm.trans ht'
      exact Or.inr (Or.inl (OrderedSet.mem_insert.mpr (Or.inl rfl)))
    · rcases h r t' ht' with hc | hin | hout
      · exact Or.inl ((List.mem_erase_of_ne hr).mpr hc)
      · exact Or.inr (Or.inl (OrderedSet.mem_insert.mpr (Or.inr hin)))
      · exact Or.inr (Or.inr hout)
  | cancelInLoop p s =>
    obtain ⟨-, t, -, rfl⟩ | ⟨-, rfl⟩ := cancelInLoop_inv hs
    · have hr : r ≠ p := by
        rintro rfl
        cases (put_heap_same q r none).symm.trans ht'
      have ht := (put_heap_other q none hr).symm.trans ht'
      rcases h r t' ht with hc | hin | hout
      · exact Or.inl hc
      · exact Or.inr (Or.inl (OrderedSet.mem_erase.mpr ⟨hin, fun heq => hr (congrArg Entry.timer heq)⟩))
      · exact Or.inr (Or.inr hout)
    · exact h r t' ht'
  | handleRead now =>
    have hb : q.batch = none := Option.isNone_iff_eq_none.mp he
    obtain ⟨_, _, rfl⟩ := handleRead_shape ho hs
    rw [running, hb] at h
    rcases h r t' ht' with hc | hin | hout
    · exact Or.inl hc
    · by_cases hdue : t'.expiration ≤ now
      · exact Or.inr (Or.inr ⟨_, OrderedSet.mem_filter.mpr ⟨hin, decide_eq_true hdue⟩, rfl⟩)
      · exact Or.inr (Or.inl (OrderedSet.mem_filter.mpr ⟨hin, decide_eq_true (not_le.mp hdue)⟩))
    · simp at hout
  | runNext =>
    obtain rfl | ⟨now, expired, e, remaining, t, hb, -, rfl⟩ := runNext_inv hs
    · exact h r t' ht'
    · rw [running, hb] at h
      exact h r t' ht'
  | finish clock =>
    obtain ⟨b, q₁, _, _, _, hb, ho, hreq, rfl⟩ := finish_shape ho he hs
    rw [running, hb] at h
    obtain ⟨heap, timers, activeTimers, rfl⟩ := hreq.shape
    obtain ⟨-, -, t, -, -, -, hin⟩ | ⟨hr, ht⟩ := hreq.live (fun e hm => (ho.out_owned e hm).1) ht'
    · exact Or.inr (Or.inl hin)
    · rcases h r t' ht with hc | hin | ⟨e, hm, hp⟩
      · exact Or.inl hc
      · exact Or.inr (Or.inl (hreq.kept _ hin))
      · exact absurd hp (hr e hm)

end Steps

structure Managed (q : TimerQueue) : Prop where
  owned : Owned q q.running
  accounted : Accounted q q.running
  numbered : Numbered q
  batch : ∀ b, q.batch = some b → ∀ e ∈ b.remaining, e ∈ b.expired

theorem initial_managed : Managed {} := by
  refine ⟨⟨?_, ?_, ?_, ?_, ?_, ?_, ?_⟩, ?_, ⟨?_, ?_⟩, ?_⟩
  all_goals simp [running, Accounted]

/-- The two sets hold the same timers, and an inserted timer that is not deleted is in both of them or in the batch. -/
structure Consistent (q : TimerQueue) : Prop where
  entry : ∀ when p, Entry.of when p ∈ q.timers ↔
    ∃ t, q.heap p = some t ∧ t.expiration = when ∧ (p, t.sequence) ∈ q.activeTimers
  active : ∀ p s, (p, s) ∈ q.activeTimers → ∃ t, q.heap p = some t ∧ t.sequence = s
  sizes : q.timers.size = q.activeTimers.card
  batch : ∀ e ∈ q.running, (∃ t, q.heap e.timer = some t) ∧ ∀ s, (e.timer, s) ∉ q.activeTimers
  inserted : ∀ p t, q.heap p = some t → p ∉ q.created →
    (p, t.sequence) ∈ q.activeTimers ∨ ∃ e ∈ q.running, e.timer = p

theorem Managed.consistent (h : Managed q) : Consistent q := by
  have ho := h.owned
  constructor
  · intro when p
    constructor
    · intro he
      obtain ⟨t, ht, htime⟩ := ho.queued _ he
      exact ⟨t, ht, htime, (ho.active p t.sequence).mpr ⟨t, ht, rfl, ho.unique he ht ▸ he⟩⟩
    · rintro ⟨t, ht, rfl, hm⟩
      obtain ⟨t', ht', -, he⟩ := (ho.active p t.sequence).mp hm
      cases ht.symm.trans ht'
      exact he
  · intro p s hm
    obtain ⟨t, ht, hs, -⟩ := (ho.active p s).mp hm
    exact ⟨t, ht, hs⟩
  · exact ho.sizes
  · intro e he
    obtain ⟨hlive, hd, -⟩ := ho.out_owned e he
    exact ⟨hlive, ho.not_active hd⟩
  · intro p t ht hc
    rcases h.accounted p t ht with hin | hin | hout
    · exact absurd hin hc
    · exact Or.inl ((ho.active p t.sequence).mpr ⟨t, ht, rfl, hin⟩)
    · exact Or.inr hout

section Runs

variable [Build]

/-- What a step does to the fields that only the batches and the cancellations during them change. -/
theorem step_effects {i : Step} (ho : Owned q q.running) (he : q.Enabled i) (hs : q.step i = .ok q') :
    (q'.ran = q.ran ∧ q'.batch = q.batch ∧ (q'.cancelingTimers = q.cancelingTimers ∨
        ∃ p s, i = .cancelInLoop p s ∧ q'.cancelingTimers = Insert.insert (p, s) q.cancelingTimers)) ∨
      (∃ now expired, i = .handleRead now ∧ q'.ran = q.ran ∧ q'.batch = some ⟨now, expired, expired⟩ ∧
        q'.cancelingTimers = ∅) ∨
      (∃ now expired e remaining t, q.batch = some ⟨now, expired, e :: remaining⟩ ∧ q.heap e.timer = some t ∧
        q'.ran = q.ran ++ [t.sequence] ∧ q'.batch = some ⟨now, expired, remaining⟩ ∧
        q'.cancelingTimers = q.cancelingTimers) ∨
      (q'.ran = q.ran ∧ q'.batch = none ∧ q'.cancelingTimers = q.cancelingTimers) := by
  cases i with
  | newTimer p when interval =>
    cases hs
    exact Or.inl ⟨rfl, rfl, Or.inl rfl⟩
  | addTimerInLoop p now =>
    obtain ⟨t, _, _, _, -, rfl⟩ := addTimerInLoop_shape hs
    exact Or.inl ⟨rfl, rfl, Or.inl rfl⟩
  | cancelInLoop p s =>
    obtain ⟨-, t, -, rfl⟩ | ⟨-, rfl⟩ := cancelInLoop_inv hs
    · exact Or.inl ⟨rfl, rfl, Or.inl rfl⟩
    · refine Or.inl ⟨rfl, rfl, ?_⟩
      dsimp only
      split_ifs
      · exact Or.inr ⟨p, s, rfl, rfl⟩
      · exact Or.inl rfl
  | handleRead now =>
    obtain ⟨_, _, rfl⟩ := handleRead_shape ho hs
    exact Or.inr (Or.inl ⟨now, _, rfl, rfl, rfl, rfl⟩)
  | runNext =>
    obtain rfl | ⟨now, expired, e, remaining, t, hb, ht, rfl⟩ := runNext_inv hs
    · exact Or.inl ⟨rfl, rfl, Or.inl rfl⟩
    · exact Or.inr (Or.inr (Or.inl ⟨now, expired, e, remaining, t, hb, ht, rfl, rfl, rfl⟩))
  | finish clock =>
    obtain ⟨b, q₁, _, _, _, hb, -, hreq, rfl⟩ := finish_shape ho he hs
    obtain ⟨heap, timers, activeTimers, rfl⟩ := hreq.shape
    exact Or.inr (Or.inr (Or.inr ⟨rfl, rfl, rfl⟩))

/-- A batch starts with all its callbacks to run, and loses them from the front. -/
theorem step_batch {i : Step} (ho : Owned q q.running) (he : q.Enabled i) (hs : q.step i = .ok q') {b' : Batch}
    (hb' : q'.batch = some b') :
    b'.remaining = b'.expired ∨
      ∃ b, q.batch = some b ∧ b'.expired = b.expired ∧ b'.remaining <:+ b.remaining := by
  obtain ⟨-, hsame, -⟩ | ⟨now, expired, -, -, hnew, -⟩ | ⟨now, expired, e, remaining, t, hb, -, -, hnext, -⟩ |
    ⟨-, hnone, -⟩ := step_effects ho he hs
  · exact Or.inr ⟨b', hsame ▸ hb', rfl, List.suffix_rfl⟩
  · cases hnew.symm.trans hb'
    exact Or.inl rfl
  · cases hnext.symm.trans hb'
    exact Or.inr ⟨_, hb, rfl, List.suffix_cons e remaining⟩
  · cases hnone.symm.trans hb'

theorem Managed.step {i : Step} (h : Managed q) (he : q.Enabled i) (hs : q.step i = .ok q') : Managed q' where
  owned := step_owned h.owned he hs
  accounted := h.accounted.step h.owned he hs
  numbered := h.numbered.step h.owned he hs
  batch := fun b' hb' e hin => by
    rcases step_batch h.owned he hs hb' with hall | ⟨b, hb, hexp, hsuffix⟩
    · exact hall ▸ hin
    · exact hexp ▸ h.batch b hb e (hsuffix.subset hin)

theorem Managed.step_ok {i : Step} (h : Managed q) (he : q.Enabled i) : ∃ q', q.step i = .ok q' := by
  cases i with
  | newTimer p when interval => exact ⟨_, rfl⟩
  | addTimerInLoop p now => exact h.owned.addTimerInLoop_ok he now
  | cancelInLoop p s => exact h.owned.cancelInLoop_ok p s
  | handleRead now =>
    have hb : q.batch = none := Option.isNone_iff_eq_none.mp he
    have ho := h.owned
    rw [running, hb] at ho
    exact ho.handleRead_ok now
  | runNext =>
    obtain ⟨⟨now, expired, remaining⟩, hb, hne⟩ := (Option.any_eq_true _ _).mp he
    cases remaining with
    | nil => cases hne
    | cons e remaining =>
      have ho := h.owned
      rw [running, hb] at ho
      obtain ⟨⟨t, ht⟩, -⟩ := ho.out_owned e (h.batch _ hb e (by simp))
      simp only [TimerQueue.step, runNext, hb, deref_live ht, ok_bind]
      exact ⟨_, rfl⟩
  | finish clock =>
    obtain ⟨b, hb, -⟩ := (Option.any_eq_true _ _).mp he
    have ho := h.owned
    rw [running, hb] at ho
    exact Owned.finish_ok hb ho clock

/-- The timer with this number was made, and may be alive at these addresses only. -/
def Confined (q : TimerQueue) (s : ℕ) (places : ℕ → Prop) : Prop :=
  s ≤ q.numCreated ∧ ∀ p t, q.heap p = some t → t.sequence = s → places p

theorem Confined.step {s : ℕ} {places : ℕ → Prop} {i : Step} (h : Confined q s places) (ho : Owned q q.running)
    (he : q.Enabled i) (hs : q.step i = .ok q') : Confined q' s places := by
  obtain ⟨hmade, hplaces⟩ := h
  obtain ⟨p, when, interval, rfl⟩ | ⟨hn, hold⟩ := step_heap ho he hs
  · cases hs
    refine ⟨Nat.le_succ_of_le hmade, ?_⟩
    intro r t ht hseq
    by_cases hr : r = p
    · subst hr
      cases (put_heap_same q r _).symm.trans ht
      have hnew : q.numCreated + 1 = s := hseq
      omega
    · exact hplaces r t ((put_heap_other q _ hr).symm.trans ht) hseq
  · refine ⟨hn ▸ hmade, ?_⟩
    intro r t' ht' hseq
    obtain ⟨t, ht, hseq'⟩ := hold r t' ht'
    exact hplaces r t ht (hseq'.trans hseq)

theorem Managed.run {steps : List Step} (h : Managed q) (hr : Path TimerQueue.step Enabled q steps q') : Managed q' :=
  hr.invariant h fun _ _ _ ht he hs => ht.step he hs

theorem Confined.run {s : ℕ} {places : ℕ → Prop} {steps : List Step} (h : Confined q s places) (hm : Managed q)
    (hr : Path TimerQueue.step Enabled q steps q') : Confined q' s places := by
  have hboth : Managed q' ∧ Confined q' s places :=
    hr.invariant (P := fun t => Managed t ∧ Confined t s places) ⟨hm, h⟩ fun _ _ _ ht he hs =>
      ⟨ht.1.step he hs, ht.2.step ht.1.owned he hs⟩
  exact hboth.2

/-- Between any two steps of a run the sets are consistent, the next step fails no assertion and touches no deleted
timer, and a timer that is alive later was alive now, at the same address, or is made after now. -/
theorem timers_owned {steps : List Step} (h : Path step Enabled {} steps q) :
    Consistent q ∧ (∀ i, q.Enabled i → ∃ q', q.step i = .ok q') ∧
      ∀ later q', Path step Enabled q later q' → ∀ p t, q'.heap p = some t → t.sequence ≤ q.numCreated →
        ∃ t₀, q.heap p = some t₀ ∧ t₀.sequence = t.sequence := by
  have hm : Managed q := initial_managed.run h
  refine ⟨hm.consistent, fun i he => hm.step_ok he, ?_⟩
  intro later q' hl p t ht hmade
  have hc : Confined q t.sequence fun p => ∃ t₀, q.heap p = some t₀ ∧ t₀.sequence = t.sequence :=
    ⟨hmade, fun p t₀ ht₀ hseq => ⟨t₀, ht₀, hseq⟩⟩
  exact (hc.run hm hl).2 p t ht rfl

end Runs

-- the callback of the first timer deletes a queued timer, adds a new one at its address and cancels itself
theorem timers_owned_reuse :
    letI := Build.debug
    let steps : List Step := [.newTimer 1 100 (some 10), .addTimerInLoop 1 1, .newTimer 2 900 none,
      .addTimerInLoop 2 2, .handleRead 200, .runNext, .cancelInLoop 2 2, .newTimer 2 800 none, .addTimerInLoop 2 201,
      .cancelInLoop 1 1]
    ∃ q, Path step Enabled {} steps q ∧ q.activeTimers = {(2, 3)} ∧ q.running = [.of 100 1] ∧ Consistent q ∧
      ∃ q', q.step (.finish 300) = .ok q' := by
  intro steps
  let _ := Build.debug
  obtain ⟨q, hq, hp⟩ := Path.exists_of_any step Enabled {} steps
    (fun q => decide (q.activeTimers = {(2, 3)} ∧ q.running = [.of 100 1] ∧ q.Enabled (.finish 300)))
    (by decide +kernel)
  obtain ⟨ha, hr, he⟩ := of_decide_eq_true hp
  obtain ⟨hc, hok, -⟩ := timers_owned hq
  exact ⟨q, hq, ha, hr, hc, hok _ he⟩

end Networker.TimerQueue
