import Networker.PeriodicRuns
import Networker.TimerOwnership

/-!
When the callbacks of a timer run. The next expiration of a repeating timer counts from
the time `handleRead` has read at its start, so that a timer never catches up with runs
it is late for, and two runs are never closer than the interval.
-/

namespace Networker

open CheckedRuns PeriodicRuns

/-- Besides the queue, every `Timer` as it was made, by its number, and of every callback that was run the number,
the expiration and the `now` of its `handleRead`. -/
structure TimedQueue where
  queue : TimerQueue := {}
  made : ℕ → Option Timer := fun _ => none
  runs : List (ℕ × ℤ × ℤ) := []

namespace TimerQueue

def makes (q : TimerQueue) : Step → List Timer
  | .newTimer _ when interval => [⟨when, interval, q.numCreated + 1⟩]
  | .addTimerInLoop _ _ | .cancelInLoop _ _ | .handleRead _ | .runNext | .finish _ => []

def starts (q : TimerQueue) : Step → List (ℕ × ℤ × ℤ)
  | .runNext =>
    match q.batch with
    | some ⟨now, _, it :: _⟩ => ((q.heap it.timer).map fun t => (t.sequence, t.expiration, now)).toList
    | some ⟨_, _, []⟩ | none => []
  | .newTimer _ _ _ | .addTimerInLoop _ _ | .cancelInLoop _ _ | .handleRead _ | .finish _ => []

/-- The callback of the timer at `p` was run, and the batch is not finished. -/
def HasRun (q : TimerQueue) (p : ℕ) : Prop :=
  ∃ b, q.batch = some b ∧ (∃ e ∈ b.expired, e.timer = p) ∧ ∀ e ∈ b.remaining, e.timer ≠ p

end TimerQueue

namespace TimedQueue

open TimerQueue

def step [Build] (s : TimedQueue) (i : Step) : Exec TimedQueue := do
  let queue ← s.queue.step i
  .ok {
    queue
    made := (s.queue.makes i).foldl (fun made t => Function.update made t.sequence (some t)) s.made
    runs := s.runs ++ s.queue.starts i }

def Enabled (s : TimedQueue) (i : Step) : Prop := s.queue.Enabled i

instance (s : TimedQueue) (i : Step) : Decidable (s.Enabled i) := inferInstanceAs (Decidable (s.queue.Enabled i))

/-- When the timer was due and when it ran, run after run. -/
def runsOf (s : TimedQueue) (number : ℕ) : List (ℤ × ℤ) :=
  (s.runs.filter fun r => r.1 = number).map Prod.snd

/-- The invariant: a timer that is to run is due as its runs so far say, and one of the batch that
has run was run at the time of the batch. -/
structure InPace (s : TimedQueue) : Prop where
  managed : Managed s.queue
  suffix : ∀ b, s.queue.batch = some b → b.remaining <:+ b.expired
  due : ∀ b, s.queue.batch = some b → ∀ e ∈ b.remaining, ∀ t, s.queue.heap e.timer = some t → t.expiration ≤ b.now
  counted : s.runs.map Prod.fst = s.queue.ran
  bounded : (∀ n t, s.made n = some t → n ≤ s.queue.numCreated) ∧ ∀ r ∈ s.runs, r.1 ≤ s.queue.numCreated
  paced : ∀ n t, s.made n = some t → Paced t.expiration t.interval (s.runsOf n)
  live : ∀ p t, s.queue.heap p = some t → ∃ t₀, s.made t.sequence = some t₀ ∧ t.interval = t₀.interval ∧
    (¬s.queue.HasRun p → nextDue t₀.expiration t₀.interval (s.runsOf t.sequence) = some t.expiration) ∧
    (s.queue.HasRun p → ∃ earlier due b, s.queue.batch = some b ∧ s.runsOf t.sequence = earlier ++ [(due, b.now)])

section Steps

variable {s : TimedQueue} {q' : TimerQueue}

theorem runsOf_append (s : TimedQueue) (more : List (ℕ × ℤ × ℤ)) (made : ℕ → Option Timer) (queue : TimerQueue) (n : ℕ) :
    runsOf { queue, made, runs := s.runs ++ more } n = s.runsOf n ++ (more.filter fun r => r.1 = n).map Prod.snd := by
  simp [runsOf]

theorem runsOf_eq_nil {n : ℕ} (h : ∀ r ∈ s.runs, r.1 ≤ s.queue.numCreated) (hn : s.queue.numCreated < n) :
    s.runsOf n = [] := by
  rw [runsOf, List.map_eq_nil_iff, List.filter_eq_nil_iff]
  intro r hr heq
  have hle := h r hr
  have hr' : r.1 = n := of_decide_eq_true heq
  omega

theorem initial_inPace : InPace {} := by
  refine ⟨initial_managed, ?_, ?_, rfl, ⟨?_, ?_⟩, ?_, ?_⟩
  all_goals simp

/-- A step that makes no timer, starts no callback and restarts no timer. -/
theorem InPace.quiet (h : InPace s) (hm : Managed q') (hn : q'.numCreated = s.queue.numCreated)
    (hran : q'.ran = s.queue.ran) (hb : q'.batch = s.queue.batch)
    (hheap : ∀ p t, q'.heap p = some t → s.queue.heap p = some t) : InPace { s with queue := q' } := by
  have hrun (p : ℕ) : q'.HasRun p ↔ s.queue.HasRun p := by
    unfold HasRun
    rw [hb]
  refine ⟨hm, fun b hb' => h.suffix b (hb ▸ hb'), fun b hb' e he t ht => h.due b (hb ▸ hb') e he t (hheap _ t ht),
    h.counted.trans hran.symm, ?_, h.paced, ?_⟩
  · rw [hn]
    exact h.bounded
  · intro p t ht
    obtain ⟨t₀, hmade, hint, hwaits, hdone⟩ := h.live p t (hheap p t ht)
    refine ⟨t₀, hmade, hint, fun hnot => hwaits (mt (hrun p).mpr hnot), fun hr => ?_⟩
    obtain ⟨earlier, due, b, hb', hlast⟩ := hdone ((hrun p).mp hr)
    exact ⟨earlier, due, b, hb.trans hb', hlast⟩

theorem InPace.newTimer (h : InPace s) {p : ℕ} (hp : s.queue.heap p = none) (when : ℤ) (interval : Option ℕ)
    (hm : Managed (s.queue.newTimer p when interval)) : InPace {
      queue := s.queue.newTimer p when interval
      made := Function.update s.made (s.queue.numCreated + 1) (some ⟨when, interval, s.queue.numCreated + 1⟩)
      runs := s.runs } := by
  have hmade {n : ℕ} {t : Timer} (ht : Function.update s.made (s.queue.numCreated + 1)
      (some ⟨when, interval, s.queue.numCreated + 1⟩) n = some t) : n = s.queue.numCreated + 1 ∨ s.made n = some t := by
    by_cases hn : n = s.queue.numCreated + 1
    · exact Or.inl hn
    · exact Or.inr ((Function.update_of_ne hn ..).symm.trans ht)
  have hfresh : s.runsOf (s.queue.numCreated + 1) = [] := runsOf_eq_nil h.bounded.2 (Nat.lt_succ_self _)
  have hexpired {b : Batch} (hb : s.queue.batch = some b) {e : Entry} (he : e ∈ b.expired) : e.timer ≠ p := by
    have hout := h.managed.owned.out_owned e (by simpa [running, hb] using he)
    obtain ⟨t, ht⟩ := hout.1
    rintro rfl
    cases hp.symm.trans ht
  refine ⟨hm, h.suffix, ?_, h.counted, ⟨?_, fun r hr => Nat.le_succ_of_le (h.bounded.2 r hr)⟩, ?_, ?_⟩
  · intro b hb e he t ht
    have hne := hexpired hb ((h.suffix b hb).subset he)
    exact h.due b hb e he t ((put_heap_other s.queue _ hne).symm.trans ht)
  · intro n t ht
    rcases hmade ht with hn | ht
    · exact hn.le
    · exact Nat.le_succ_of_le (h.bounded.1 n t ht)
  · intro n t ht
    rcases hmade ht with rfl | ht
    · show Paced t.expiration t.interval (s.runsOf _)
      rw [hfresh]
      exact .nil
    · exact h.paced n t ht
  · intro r t ht
    by_cases hr : r = p
    · subst hr
      cases (put_heap_same s.queue r _).symm.trans ht
      refine ⟨⟨when, interval, s.queue.numCreated + 1⟩, Function.update_self .., rfl, fun _ => ?_, fun hrun => ?_⟩
      · show nextDue when interval (s.runsOf _) = some when
        rw [hfresh]
        rfl
      · obtain ⟨b, hb, ⟨e, he, hep⟩, -⟩ := hrun
        exact absurd hep (hexpired hb he)
    · have ht' := (put_heap_other s.queue _ hr).symm.trans ht
      obtain ⟨t₀, hold, hint, hwaits, hdone⟩ := h.live r t ht'
      refine ⟨t₀, ?_, hint, hwaits, hdone⟩
      have hle := h.bounded.1 _ _ hold
      exact (Function.update_of_ne (by omega) ..).trans hold

/-- The callback that is run was due, and the timer has run from then on. -/
theorem InPace.runNext (h : InPace s) {now : ℤ} {expired : List Entry} {e : Entry} {remaining : List Entry} {t : Timer}
    (hb : s.queue.batch = some ⟨now, expired, e :: remaining⟩) (ht : s.queue.heap e.timer = some t)
    (hm : Managed { s.queue with batch := some ⟨now, expired, remaining⟩, ran := s.queue.ran ++ [t.sequence] }) :
    InPace {
      queue := { s.queue with batch := some ⟨now, expired, remaining⟩, ran := s.queue.ran ++ [t.sequence] }
      made := s.made
      runs := s.runs ++ [(t.sequence, t.expiration, now)] } := by
  have hsuffix := h.suffix _ hb
  have hnodup : ((e :: remaining).map Entry.timer).Nodup := by
    have hall := h.managed.owned.out_nodup
    rw [running, hb] at hall
    exact hall.sublist (hsuffix.sublist.map Entry.timer)
  have hnot : ∀ e' ∈ remaining, e'.timer ≠ e.timer := by
    rw [List.map_cons, List.nodup_cons] at hnodup
    exact fun e' he' heq => hnodup.1 (heq ▸ List.mem_map_of_mem he')
  have hwaiting : ¬s.queue.HasRun e.timer := by
    rintro ⟨b, hb', -, hdone⟩
    cases hb.symm.trans hb'
    exact hdone e List.mem_cons_self rfl
  obtain ⟨t₀, hmade, hint, hwaits, -⟩ := h.live e.timer t ht
  have hdue := hwaits hwaiting
  have hnow := h.due _ hb e List.mem_cons_self t ht
  have hsame : s.runsOf t.sequence ++ ([(t.sequence, t.expiration, now)].filter fun r => r.1 = t.sequence).map Prod.snd =
      s.runsOf t.sequence ++ [(t.expiration, now)] := by simp
  have hother {n : ℕ} (hn : n ≠ t.sequence) :
      s.runsOf n ++ ([(t.sequence, t.expiration, now)].filter fun r => r.1 = n).map Prod.snd = s.runsOf n := by
    simp [hn.symm]
  refine ⟨hm, ?_, ?_, ?_, ⟨h.bounded.1, ?_⟩, ?_, ?_⟩
  · intro b hb'
    cases hb'
    exact (List.suffix_cons e remaining).trans hsuffix
  · intro b hb' e' he' t' ht'
    cases hb'
    exact h.due _ hb e' (List.mem_cons_of_mem _ he') t' ht'
  · rw [List.map_append, h.counted]
    rfl
  · intro r hr
    rcases List.mem_append.mp hr with hr | hr
    · exact h.bounded.2 r hr
    · cases List.mem_singleton.mp hr
      exact h.managed.numbered.bounded _ t ht
  · intro n t' ht'
    rw [runsOf_append]
    by_cases hn : n = t.sequence
    · subst hn
      cases hmade.symm.trans ht'
      rw [hsame]
      exact (h.paced _ t₀ hmade).snoc hdue hnow
    · rw [hother hn]
      exact h.paced n t' ht'
  · intro p t' ht'
    by_cases hp : p = e.timer
    · subst hp
      cases ht.symm.trans ht'
      refine ⟨t₀, hmade, hint, fun hnotrun => absurd ⟨_, rfl, ⟨e, hsuffix.subset List.mem_cons_self, rfl⟩, hnot⟩ hnotrun,
        fun _ => ⟨s.runsOf t.sequence, t.expiration, _, rfl, ?_⟩⟩
      rw [runsOf_append, hsame]
    · have hn : t'.sequence ≠ t.sequence := fun heq => hp (h.managed.numbered.distinct p e.timer t' t ht' ht heq)
      obtain ⟨t₁, hmade', hint', hwaits', hdone'⟩ := h.live p t' ht'
      rw [runsOf_append, hother hn]
      refine ⟨t₁, hmade', hint', fun hnotrun => hwaits' ?_, ?_⟩
      · rintro ⟨b, hb', hin, hdone⟩
        cases hb.symm.trans hb'
        exact hnotrun ⟨_, rfl, hin, fun e' he' => hdone e' (List.mem_cons_of_mem _ he')⟩
      · rintro ⟨b, hb', hin, hdone⟩
        cases hb'
        obtain ⟨earlier, due, b', hb', hlast⟩ := hdone' ⟨_, hb, hin, fun e' he' => by
          rcases List.mem_cons.mp he' with rfl | he'
          · exact fun heq => hp heq.symm
          · exact hdone e' he'⟩
        cases hb.symm.trans hb'
        exact ⟨earlier, due, _, rfl, hlast⟩

variable [Build]

theorem InPace.handleRead (h : InPace s) {now : ℤ} (hidle : s.queue.batch = none) (hm : Managed q')
    (hs : s.queue.handleRead now = .ok q') : InPace { s with queue := q' } := by
  obtain ⟨timerfd, activeTimers, rfl⟩ := handleRead_shape h.managed.owned hs
  refine ⟨hm, ?_, ?_, h.counted, h.bounded, h.paced, ?_⟩
  · intro b hb
    cases hb
    exact List.suffix_rfl
  · intro b hb e he t ht
    cases hb
    obtain ⟨hin, hdue⟩ := OrderedSet.mem_filter.mp he
    obtain ⟨t', ht', htime⟩ := h.managed.owned.queued e hin
    cases ht.symm.trans ht'
    exact htime.le.trans (of_decide_eq_true hdue)
  · intro p t ht
    obtain ⟨t₀, hmade, hint, hwaits, -⟩ := h.live p t ht
    refine ⟨t₀, hmade, hint, fun _ => hwaits ?_, ?_⟩
    · rintro ⟨b, hb, -⟩
      cases hidle.symm.trans hb
    · rintro ⟨b, hb, ⟨e, he, hp⟩, hnot⟩
      cases hb
      exact absurd hp (hnot e he)

/-- A timer that is restarted is due an interval after the `now` of the batch, when it has just run. -/
theorem InPace.finish (h : InPace s) {clock : ℤ} (he : s.queue.Enabled (.finish clock)) (hm : Managed q')
    (hs : s.queue.step (.finish clock) = .ok q') : InPace { s with queue := q' } := by
  obtain ⟨b, q₁, _, _, _, hb, ho, hreq, rfl⟩ := finish_shape h.managed.owned he hs
  obtain ⟨heap, timers, activeTimers, rfl⟩ := hreq.shape
  have hall : b.remaining = [] := by
    obtain ⟨b', hb', hempty⟩ := (Option.any_eq_true _ _).mp he
    cases hb.symm.trans hb'
    exact List.isEmpty_iff.mp hempty
  refine ⟨hm, ?_, ?_, h.counted, h.bounded, h.paced, ?_⟩
  · rintro _ ⟨⟩
  · rintro _ ⟨⟩
  · intro p t' ht'
    have hdue : ∃ t₀, s.made t'.sequence = some t₀ ∧ t'.interval = t₀.interval ∧
        nextDue t₀.expiration t₀.interval (s.runsOf t'.sequence) = some t'.expiration := by
      by_cases hp : ∃ e ∈ b.expired, e.timer = p
      · obtain ⟨e, hin, rfl⟩ := hp
        obtain ⟨t, ht⟩ := (ho.out_owned e hin).1
        obtain ⟨t₀, hmade, hint, -, hdone⟩ := h.live e.timer t ht
        by_cases hagain : t.repeats = true ∧ (e.timer, t.sequence) ∉ s.queue.cancelingTimers
        · cases (hreq.again e hin t ht hagain.1 hagain.2).1.symm.trans ht'
          obtain ⟨earlier, due, b', hb', hlast⟩ := hdone ⟨b, hb, ⟨e, hin, rfl⟩, by simp [hall]⟩
          cases hb.symm.trans hb'
          obtain ⟨delta, hdelta⟩ := Option.isSome_iff_exists.mp hagain.1
          refine ⟨t₀, (restart_sequence t b.now).symm ▸ hmade, ?_, ?_⟩
          · simp [Timer.restart, hdelta, ← hint]
          · rw [restart_sequence, hlast, nextDue_snoc, ← hint]
            simp [Timer.restart, hdelta]
        · cases (hreq.deleted e hin t ht hagain).symm.trans ht'
      · push Not at hp
        have ht := (hreq.other p hp).symm.trans ht'
        obtain ⟨t₀, hmade, hint, hwaits, -⟩ := h.live p t' ht
        refine ⟨t₀, hmade, hint, hwaits ?_⟩
        rintro ⟨b', hb', ⟨e, hin, hep⟩, -⟩
        cases hb.symm.trans hb'
        exact hp e hin hep
    obtain ⟨t₀, hmade, hint, hnext⟩ := hdue
    refine ⟨t₀, hmade, hint, fun _ => hnext, ?_⟩
    rintro ⟨_, ⟨⟩, -⟩

theorem InPace.step (h : InPace s) {i : Step} (he : s.Enabled i) {s' : TimedQueue} (hs : s.step i = .ok s') : InPace s' := by
  obtain ⟨q', hq, hs'⟩ := bind_eq_ok.mp hs
  cases hs'
  have hm := h.managed.step he hq
  cases i with
  | newTimer p when interval =>
    cases hq
    simp only [makes, starts, List.foldl_cons, List.foldl_nil, List.append_nil]
    exact h.newTimer he.1 when interval hm
  | addTimerInLoop p now =>
    obtain ⟨t, _, _, _, -, rfl⟩ := addTimerInLoop_shape hq
    simp only [makes, starts, List.foldl_nil, List.append_nil]
    exact h.quiet hm rfl rfl rfl fun _ _ ht => ht
  | cancelInLoop p number =>
    simp only [makes, starts, List.foldl_nil, List.append_nil]
    obtain ⟨-, t, -, rfl⟩ | ⟨-, rfl⟩ := cancelInLoop_inv hq
    · refine h.quiet hm rfl rfl rfl fun r t' ht' => ?_
      have hr : r ≠ p := by
        rintro rfl
        cases (put_heap_same s.queue r none).symm.trans ht'
      exact (put_heap_other s.queue none hr).symm.trans ht'
    · exact h.quiet hm rfl rfl rfl fun _ _ ht => ht
  | handleRead now =>
    simp only [makes, starts, List.foldl_nil, List.append_nil]
    exact h.handleRead (Option.isNone_iff_eq_none.mp he) hm hq
  | runNext =>
    obtain ⟨⟨now, expired, remaining⟩, hb, hne⟩ := (Option.any_eq_true _ _).mp he
    cases remaining with
    | nil => cases hne
    | cons e remaining =>
      simp only [TimerQueue.step, TimerQueue.runNext, hb] at hq
      obtain ⟨t, ht, hq⟩ := bind_eq_ok.mp hq
      have ht := deref_ok ht
      cases hq
      simp only [makes, starts, hb, ht, List.foldl_nil, Option.map_some, Option.toList_some]
      exact h.runNext hb ht hm
  | finish clock =>
    simp only [makes, starts, List.foldl_nil, List.append_nil]
    exact h.finish he hm hq

/-- The runs of a timer keep their pace: the first is due at the time the timer was made with, every later one an
interval after the one before, and none is early. So a timer that does not repeat runs once, and the runs of one that
does are an interval apart. -/
theorem timer_pace {steps : List Step} (h : Path step Enabled {} steps s) :
    s.runs.map Prod.fst = s.queue.ran ∧
      (∀ p t, s.queue.heap p = some t → ∃ t₀, s.made t.sequence = some t₀) ∧
      ∀ n t, s.made n = some t → Paced t.expiration t.interval (s.runsOf n) ∧
        ((s.runsOf n).map Prod.snd).Pairwise (fun (a b : ℤ) => ∃ delta : ℕ, t.interval = some delta ∧ a + delta ≤ b) ∧
        (t.interval = none → (s.runsOf n).length ≤ 1) ∧
        ∀ delta : ℕ, t.interval = some delta → ∀ (i : ℕ) run, (s.runsOf n)[i]? = some run →
          t.expiration + i * delta ≤ run.2 := by
  have hpace : InPace s := h.invariant initial_inPace fun u i v hu he hs => hu.step he hs
  refine ⟨hpace.counted, fun p t ht => ?_, fun n t ht => ?_⟩
  · obtain ⟨t₀, hmade, -⟩ := hpace.live p t ht
    exact ⟨t₀, hmade⟩
  · have hp := hpace.paced n t ht
    refine ⟨hp, hp.apart, fun hnone => ?_, fun delta hdelta i run hi => ?_⟩
    · rw [hnone] at hp
      exact hp.once
    · rw [hdelta] at hp
      exact hp.not_before hi

end Steps

-- the second run is late by 400, and the third is an interval after it
theorem timer_pace_late :
    letI := Build.debug
    ∃ s : TimedQueue, Path step Enabled {} [.newTimer 1 100 (some 50), .addTimerInLoop 1 10, .handleRead 120, .runNext,
        .finish 130, .handleRead 570, .runNext, .finish 580, .handleRead 620, .runNext] s ∧
      s.runsOf 1 = [(100, 120), (170, 570), (620, 620)] ∧
      ((s.runsOf 1).map Prod.snd).Pairwise fun (a b : ℤ) => ∃ delta : ℕ, some 50 = some delta ∧ a + delta ≤ b := by
  let _ := Build.debug
  obtain ⟨s, hs, hp⟩ := Path.exists_of_any step Enabled {} [.newTimer 1 100 (some 50), .addTimerInLoop 1 10,
    .handleRead 120, .runNext, .finish 130, .handleRead 570, .runNext, .finish 580, .handleRead 620, .runNext]
    (fun s => decide (s.runsOf 1 = [(100, 120), (170, 570), (620, 620)] ∧ s.made 1 = some ⟨100, some 50, 1⟩))
    (by decide +kernel)
  obtain ⟨hruns, hmade⟩ := of_decide_eq_true hp
  exact ⟨s, hs, hruns, ((timer_pace hs).2.2 1 _ hmade).2.1⟩

end TimedQueue

end Networker
