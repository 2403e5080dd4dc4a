import Mathlib.Algebra.Group.Nat.Defs
import Networker.TimerCancellation

/-!
One expiry of the timerfd, from the entry of `handleRead` to its return, whatever the
callbacks do to the queue in between.
-/

namespace Networker.TimerQueue

open CheckedRuns

def number (q : TimerQueue) (e : Entry) : ℕ := ((q.heap e.timer).map Timer.sequence).getD 0

theorem number_eq {q : TimerQueue} {e : Entry} {t : Timer} (h : q.heap e.timer = some t) : q.number e = t.sequence := by
  simp [number, h]

/-- The steps between two points of one `handleRead`. -/
def Within (during : List Step) : Prop := ∀ clock, .finish clock ∉ during

theorem Within.init {during : List Step} {i : Step} (h : Within (during ++ [i])) :
    Within during ∧ ∀ clock, i ≠ .finish clock := by
  constructor
  · exact fun clock hm => h clock (List.mem_append_left _ hm)
  · rintro clock rfl
    exact h clock (List.mem_append_right _ List.mem_cons_self)

/-- From `q`, where the batch was `b`, to `u` some callbacks of the batch were run and its timers were left alone. -/
structure Expiring (q : TimerQueue) (b : Batch) (u : TimerQueue) : Prop where
  progress : ∃ done rest, b.remaining = done ++ rest ∧ u.batch = some ⟨b.now, b.expired, rest⟩ ∧
    u.ran = q.ran ++ done.map q.number
  heap : ∀ e ∈ b.expired, u.heap e.timer = q.heap e.timer

structure Queued (q : TimerQueue) (p : ℕ) (t : Timer) : Prop where
  live : q.heap p = some t
  entry : Entry.of t.expiration p ∈ q.timers

section Batches

variable {q u u' : TimerQueue} {b : Batch}

theorem Expiring.refl (hb : q.batch = some b) : Expiring q b q :=
  ⟨⟨[], b.remaining, rfl, hb, by simp⟩, fun _ _ => rfl⟩

theorem Expiring.batch_isSome (h : Expiring q b u) : u.batch.isSome = true := by
  obtain ⟨_, _, _, hb, -⟩ := h.progress
  simp [hb]

theorem Expiring.running (h : Expiring q b u) : u.running = b.expired := by
  obtain ⟨_, _, _, hb, -⟩ := h.progress
  simp [TimerQueue.running, hb]

theorem Managed.queued_of_entry (h : Managed q) {e : Entry} (he : e ∈ q.timers) {t : Timer}
    (ht : q.heap e.timer = some t) : Queued q e.timer t :=
  ⟨ht, h.owned.unique he ht ▸ he⟩

/-- A queued timer has one entry. -/
theorem Managed.entry_iff (h : Managed q) {p : ℕ} {t : Timer} (hq : Queued q p t) (e : Entry) :
    e ∈ q.timers ∧ e.timer = p ↔ e = .of t.expiration p := by
  constructor
  · rintro ⟨hin, rfl⟩
    exact h.owned.unique hin hq.live
  · rintro rfl
    exact ⟨hq.entry, rfl⟩

theorem Managed.no_entry (h : Managed q) {p : ℕ} (hp : q.heap p = none) : ∀ e ∈ q.timers, e.timer ≠ p := by
  rintro e hin rfl
  obtain ⟨t, ht, -⟩ := h.owned.queued e hin
  cases hp.symm.trans ht

/-- Entries of different timers have different numbers. -/
theorem Managed.numbers_nodup (hm : Managed q) {l : List Entry} (hl : (l.map Entry.timer).Nodup)
    (hlive : ∀ e ∈ l, ∃ t, q.heap e.timer = some t) : (l.map q.number).Nodup := by
  refine List.Nodup.map_on ?_ hl.of_map
  intro e he e' he' heq
  obtain ⟨t, ht⟩ := hlive e he
  obtain ⟨t', ht'⟩ := hlive e' he'
  rw [number_eq ht, number_eq ht'] at heq
  exact List.inj_on_of_nodup_map hl he he' (hm.numbered.distinct _ _ t t' ht ht' heq)

variable [Build]

theorem Expiring.step {i : Step} (h : Expiring q b u) (hm : Managed u) (he : u.Enabled i) (hs : u.step i = .ok u')
    (hi : ∀ clock, i ≠ .finish clock) : Expiring q b u' := by
  have hlive : ∀ e ∈ b.expired, (∃ t, u.heap e.timer = some t) ∧ ∀ s, (e.timer, s) ∉ u.activeTimers := by
    rw [← h.running]
    exact hm.consistent.batch
  obtain ⟨done, rest, hrest, hb, hran⟩ := h.progress
  cases i with
  | newTimer p when interval =>
    cases hs
    refine ⟨⟨done, rest, hrest, hb, hran⟩, ?_⟩
    intro e hin
    obtain ⟨⟨t, ht⟩, -⟩ := hlive e hin
    have hne : e.timer ≠ p := by
      rintro rfl
      cases ht.symm.trans he.1
    exact (put_heap_other u _ hne).trans (h.heap e hin)
  | addTimerInLoop p now =>
    obtain ⟨t, _, _, _, -, rfl⟩ := addTimerInLoop_shape hs
    exact ⟨⟨done, rest, hrest, hb, hran⟩, h.heap⟩
  | cancelInLoop p s =>
    obtain ⟨ha, t, -, rfl⟩ | ⟨-, rfl⟩ := cancelInLoop_inv hs
    · refine ⟨⟨done, rest, hrest, hb, hran⟩, ?_⟩
      intro e hin
      have hne : e.timer ≠ p := by
        rintro rfl
        exact (hlive e hin).2 s ha
      exact (put_heap_other u none hne).trans (h.heap e hin)
    · exact ⟨⟨done, rest, hrest, hb, hran⟩, h.heap⟩
  | handleRead now =>
    simp [Enabled, hb] at he
  | runNext =>
    obtain rfl | ⟨now, expired, e, remaining, t, hb', ht, rfl⟩ := runNext_inv hs
    · exact h
    · cases hb.symm.trans hb'
      have hin : e ∈ b.expired := hm.batch _ hb e List.mem_cons_self
      refine ⟨⟨done ++ [e], remaining, by simp [hrest], rfl, ?_⟩, h.heap⟩
      rw [hran, List.map_append, List.map_singleton, number_eq ((h.heap e hin).symm.trans ht), List.append_assoc]
  | finish clock => exact absurd rfl (hi clock)

theorem Expiring.run (hm : Managed q) (hb : q.batch = some b) {during : List Step}
    (hr : Path TimerQueue.step Enabled q during u) (hd : Within during) : Managed u ∧ Expiring q b u := by
  induction hr with
  | nil => exact ⟨hm, .refl hb⟩
  | snoc i _ he hs ih =>
    obtain ⟨hinit, hi⟩ := hd.init
    obtain ⟨hmt, ht⟩ := ih hinit
    exact ⟨hmt.step he hs, ht.step hmt he hs hi⟩

/-- `handleRead` takes a timer out only when it is due, and nobody else does without its id. -/
theorem Queued.step {p : ℕ} {t : Timer} {i : Step} (h : Queued q p t) (hm : Managed q) (he : q.Enabled i)
    (hs : q.step i = .ok u) (hnot : i ≠ .cancelInLoop p t.sequence)
    (hlate : ∀ now, i = .handleRead now → now < t.expiration) : Queued u p t := by
  cases i with
  | newTimer r when interval =>
    cases hs
    have hne : p ≠ r := by
      rintro rfl
      cases h.live.symm.trans he.1
    exact ⟨(put_heap_other q _ hne).trans h.live, h.entry⟩
  | addTimerInLoop r now =>
    obtain ⟨_, _, _, _, -, rfl⟩ := addTimerInLoop_shape hs
    exact ⟨h.live, OrderedSet.mem_insert.mpr (Or.inr h.entry)⟩
  | cancelInLoop r s =>
    have hid : (p, t.sequence) ≠ (r, s) := by
      rintro ⟨⟩
      exact hnot rfl
    have hu := cancelInLoop_untouched hm hs
    refine ⟨hu.heap p t h.live hid, hu.timers _ h.entry ?_⟩
    intro t' ht'
    cases h.live.symm.trans ht'
    exact hid
  | handleRead now =>
    obtain ⟨_, _, rfl⟩ := handleRead_shape hm.owned hs
    exact ⟨h.live, OrderedSet.mem_filter.mpr ⟨h.entry, decide_eq_true (hlate now rfl)⟩⟩
  | runNext =>
    obtain rfl | ⟨_, _, _, _, _, -, -, rfl⟩ := runNext_inv hs
    · exact h
    · exact ⟨h.live, h.entry⟩
  | finish clock =>
    obtain ⟨b, q₁, _, _, _, hb, ho, hreq, rfl⟩ := finish_shape hm.owned he hs
    have hout : ∀ e ∈ b.expired, e.timer ≠ p := fun e hin => ((ho.out_owned e hin).2.1 _ h.entry).symm
    exact ⟨(hreq.other p hout).trans h.live, hreq.kept _ h.entry⟩

theorem Queued.run (hm : Managed q) (hb : q.batch.isSome = true) {p : ℕ} {t : Timer} (h : Queued q p t)
    {during : List Step} (hr : Path TimerQueue.step Enabled q during u) (hd : Within during)
    (hnot : .cancelInLoop p t.sequence ∉ during) : Queued u p t := by
  obtain ⟨b, hb⟩ := Option.isSome_iff_exists.mp hb
  induction hr with
  | nil => exact h
  | snoc i hpath he hs ih =>
    obtain ⟨hinit, -⟩ := hd.init
    obtain ⟨hmt, hex⟩ := Expiring.run hm hb hpath hinit
    have hq := ih hinit fun hin => hnot (List.mem_append_left _ hin)
    apply hq.step hmt he hs
    · rintro rfl
      exact hnot (List.mem_append_right _ List.mem_cons_self)
    · rintro now rfl
      have hsome := hex.batch_isSome
      rw [Option.isNone_iff_eq_none.mp he] at hsome
      cases hsome

/-- A cancellation of a timer of the batch is remembered until `reset`. -/
theorem Expiring.canceling (hm : Managed q) (hb : q.batch = some b) {during : List Step}
    (hr : Path TimerQueue.step Enabled q during u) (hd : Within during) {e : Entry} (hin : e ∈ b.expired) {s : ℕ}
    (hcan : .cancelInLoop e.timer s ∈ during) : (e.timer, s) ∈ u.cancelingTimers := by
  induction hr with
  | nil => cases hcan
  | snoc i hpath he hs ih =>
    obtain ⟨hinit, -⟩ := hd.init
    obtain ⟨hmt, hex⟩ := Expiring.run hm hb hpath hinit
    rcases List.mem_append.mp hcan with hbefore | hnow
    · exact canceling_step hmt he hs hex.batch_isSome (ih hinit hbefore)
    · cases List.mem_singleton.mp hnow
      have hnotActive : (e.timer, s) ∉ _ := (hmt.consistent.batch e (hex.running ▸ hin)).2 s
      obtain ⟨ha, -⟩ | ⟨-, rfl⟩ := cancelInLoop_inv hs
      · exact absurd ha hnotActive
      · have hcalling : callingExpiredTimers _ = true := hex.batch_isSome
        dsimp only
        rw [if_pos hcalling]
        exact Finset.mem_insert_self _ _

theorem remaining_suffix {steps : List Step} (h : Path TimerQueue.step Enabled {} steps q) :
    ∀ b, q.batch = some b → b.remaining <:+ b.expired := by
  have hboth : Managed q ∧ ∀ b, q.batch = some b → b.remaining <:+ b.expired := by
    apply h.invariant (P := fun u => Managed u ∧ ∀ b, u.batch = some b → b.remaining <:+ b.expired)
    · exact ⟨initial_managed, by simp⟩
    · rintro t i u ⟨hm, hsuffix⟩ he hs
      refine ⟨hm.step he hs, ?_⟩
      intro b' hb'
      rcases step_batch hm.owned he hs hb' with hall | ⟨b, hb, hexp, hsub⟩
      · exact hall ▸ List.suffix_rfl
      · exact hexp ▸ hsub.trans (hsuffix b hb)
  exact hboth.2

theorem handleRead_batch {now : ℤ} (hm : Managed q) (hs : q.handleRead now = .ok u) :
    ∃ b, u.batch = some b ∧ b.now = now ∧ b.remaining = b.expired ∧
      (∀ e, e ∈ b.expired ↔ e ∈ q.timers ∧ e.time ≤ now) ∧ b.expired.Pairwise (· < ·) ∧
      u.heap = q.heap ∧ u.ran = q.ran := by
  obtain ⟨_, _, rfl⟩ := handleRead_shape hm.owned hs
  refine ⟨_, rfl, rfl, rfl, ?_, OrderedSet.sorted _, rfl, rfl⟩
  intro e
  rw [OrderedSet.mem_toList]
  simp

/-- What `reset` makes of the timers of the batch. -/
theorem Expiring.finish (h : Expiring q b u) (hm : Managed u) {clock : ℤ} (he : u.Enabled (.finish clock))
    (hs : u.step (.finish clock) = .ok u') :
    u'.ran = q.ran ++ b.remaining.map q.number ∧ u'.batch = none ∧
      ∀ e ∈ b.expired, ∀ t, q.heap e.timer = some t →
        (t.repeats = true → (e.timer, t.sequence) ∉ u.cancelingTimers → Queued u' e.timer (t.restart b.now)) ∧
        (t.repeats = false ∨ (e.timer, t.sequence) ∈ u.cancelingTimers → u'.heap e.timer = none) := by
  obtain ⟨done, rest, hrest, hb, hran⟩ := h.progress
  have hempty : rest = [] := by simpa [Enabled, hb] using he
  rw [hempty, List.append_nil] at hrest
  have ho := hm.owned
  rw [h.running] at ho
  obtain ⟨q₁, _, _, _, hreq, rfl⟩ := finish_requeued hb ho hs
  have hlive {e : Entry} (hin : e ∈ b.expired) {t : Timer} (ht : q.heap e.timer = some t) : u.heap e.timer = some t :=
    (h.heap e hin).trans ht
  have hrest' : q₁.ran = u.ran ∧ q₁.batch = none := by
    obtain ⟨heap, timers, activeTimers, rfl⟩ := hreq.shape
    exact ⟨rfl, rfl⟩
  refine ⟨hrest'.1.trans (by rw [hran, hrest]), hrest'.2, ?_⟩
  intro e hin t ht
  constructor
  · intro hrep hcan
    obtain ⟨hheap, hentry⟩ := hreq.again e hin t (hlive hin ht) hrep hcan
    exact ⟨hheap, hentry⟩
  · intro hgone
    apply hreq.deleted e hin t (hlive hin ht)
    rintro ⟨hrep, hcan⟩
    rcases hgone with hno | hc
    · rw [hrep] at hno
      cases hno
    · exact hcan hc

end Batches

section Results

variable {q q' : TimerQueue} [Build]

/-- What the `handleRead` at `now` does to the queue `q` while the callbacks take the steps `during`. -/
structure ExpiryStep (q : TimerQueue) (now : ℤ) (during : List Step) (q' : TimerQueue) : Prop where
  fired : ∃ fired : List Entry, (∀ e, e ∈ fired ↔ e ∈ q.timers ∧ e.time ≤ now) ∧
    fired.Pairwise (fun e e' => e.time ≤ e'.time) ∧ (fired.map q.number).Nodup ∧ q'.ran = q.ran ++ fired.map q.number
  later : ∀ e ∈ q.timers, now < e.time → ∀ t, q.heap e.timer = some t → .cancelInLoop e.timer t.sequence ∉ during →
    q'.heap e.timer = some t ∧ e ∈ q'.timers
  again : ∀ e ∈ q.timers, e.time ≤ now → ∀ t, q.heap e.timer = some t → ∀ interval, t.interval = some interval →
    .cancelInLoop e.timer t.sequence ∉ during →
      q'.heap e.timer = some { t with expiration := now + interval } ∧
        ∀ e', e' ∈ q'.timers ∧ e'.timer = e.timer ↔ e' = .of (now + interval) e.timer
  gone : ∀ e ∈ q.timers, e.time ≤ now → ∀ t, q.heap e.timer = some t →
    t.interval = none ∨ .cancelInLoop e.timer t.sequence ∈ during →
      q'.heap e.timer = none ∧ ∀ e' ∈ q'.timers, e'.timer ≠ e.timer
  added : ∀ before after p start u t, during = before ++ .addTimerInLoop p start :: after →
    Path step Enabled q (.handleRead now :: before) u → u.heap p = some t →
      (∀ more, q'.ran = q.ran ++ more → t.sequence ∉ more) ∧
        (.cancelInLoop p t.sequence ∉ after → q'.heap p = some t ∧ Entry.of t.expiration p ∈ q'.timers)

theorem Queued.finished {q₁ u : TimerQueue} {p : ℕ} {t : Timer} {during : List Step} {clock : ℤ}
    (h : Queued q₁ p t) (hm : Managed q₁) (hb : q₁.batch.isSome = true) (hr : Path TimerQueue.step Enabled q₁ during u)
    (hd : Within during) (hnot : .cancelInLoop p t.sequence ∉ during) (he : u.Enabled (.finish clock))
    (hs : u.step (.finish clock) = .ok q') : Queued q' p t := by
  have hu : Queued u p t := h.run hm hb hr hd hnot
  exact hu.step (hm.run hr) he hs (by rintro ⟨⟩) (by rintro _ ⟨⟩)

theorem expiry_points {now clock : ℤ} {during : List Step}
    (hr : Path step Enabled q (.handleRead now :: (during ++ [.finish clock])) q') :
    ∃ q₁ u, q.Enabled (.handleRead now) ∧ q.step (.handleRead now) = .ok q₁ ∧ Path step Enabled q₁ during u ∧
      u.Enabled (.finish clock) ∧ u.step (.finish clock) = .ok q' := by
  obtain ⟨q₁, hfirst, hrest⟩ := Path.split (show Path step Enabled q ([.handleRead now] ++ (during ++ [.finish clock])) q' from hr)
  obtain ⟨u, hduring, hlast⟩ := hrest.split
  obtain ⟨he, hs⟩ := hfirst.single
  obtain ⟨he', hs'⟩ := hlast.single
  exact ⟨q₁, u, he, hs, hduring, he', hs'⟩

/-- A timer that a callback adds is not one of the batch, and stays in the queue. -/
theorem Expiring.added {q₁ u v : TimerQueue} {b : Batch} {before after : List Step} {p : ℕ} {start : ℤ} {t : Timer}
    (hm : Managed q₁) (hb : q₁.batch = some b) (hr : Path TimerQueue.step Enabled q₁ (before ++ .addTimerInLoop p start :: after) u)
    (hd : Within (before ++ .addTimerInLoop p start :: after)) (hv : Path TimerQueue.step Enabled q₁ before v) (ht : v.heap p = some t)
    {clock : ℤ} (he : u.Enabled (.finish clock)) (hs : u.step (.finish clock) = .ok q') :
    t.sequence ∉ b.expired.map q₁.number ∧ (.cancelInLoop p t.sequence ∉ after → Queued q' p t) := by
  obtain ⟨w, hbefore, hrest⟩ := hr.split
  cases hbefore.unique hv
  obtain ⟨v', hadd, hafter⟩ := Path.split (show Path TimerQueue.step Enabled v ([.addTimerInLoop p start] ++ after) u from hrest)
  obtain ⟨hea, hsa⟩ := hadd.single
  have hdb : Within before := fun c hc => hd c (List.mem_append_left _ hc)
  have hda : Within after := fun c hc => hd c (List.mem_append_right _ (List.mem_cons_of_mem _ hc))
  obtain ⟨hmv, hex⟩ := Expiring.run hm hb hv hdb
  constructor
  · intro hin
    obtain ⟨e, hexp, hseq⟩ := List.mem_map.mp hin
    have ho := hmv.owned
    rw [hex.running] at ho
    obtain ⟨⟨t', ht'⟩, -, hnot⟩ := ho.out_owned e hexp
    rw [number_eq ((hex.heap e hexp).symm.trans ht')] at hseq
    have hp : e.timer = p := hmv.numbered.distinct _ _ t' t ht' ht hseq
    exact hnot (hp ▸ hea)
  · intro hnot
    have hq : Queued v' p t := by
      obtain ⟨t₁, _, _, _, ht₁, rfl⟩ := addTimerInLoop_shape hsa
      cases ht.symm.trans ht₁
      exact ⟨ht, OrderedSet.mem_insert.mpr (Or.inl rfl)⟩
    exact hq.finished (hmv.step hea hsa) (hex.step hmv hea hsa (by rintro _ ⟨⟩)).batch_isSome hafter hda hnot he hs

theorem Managed.expiryStep (hm : Managed q) {now clock : ℤ} {during : List Step}
    (hr : Path TimerQueue.step Enabled q (.handleRead now :: (during ++ [.finish clock])) q') (hd : Within during) :
    ExpiryStep q now during q' := by
  obtain ⟨q₁, u, he₁, hs₁, hpath, he, hs⟩ := expiry_points hr
  have hm₁ : Managed q₁ := hm.step he₁ hs₁
  obtain ⟨b, hb, rfl, hall, hmem, hsorted, hheap, hran⟩ := handleRead_batch hm hs₁
  have hb₁ : q₁.batch.isSome = true := by simp [hb]
  obtain ⟨hmu, hex⟩ := Expiring.run hm₁ hb hpath hd
  have hm' : Managed q' := hmu.step he hs
  obtain ⟨hran', -, hreset⟩ := hex.finish hmu he hs
  have hempty : q₁.cancelingTimers = ∅ := by
    obtain ⟨_, _, rfl⟩ := handleRead_shape hm.owned hs₁
    rfl
  have hnumber : q₁.number = q.number := by
    funext e
    simp [number, hheap]
  constructor
  case fired =>
    refine ⟨b.expired, hmem, hsorted.imp fun hlt => Entry.time_le (le_of_lt hlt), ?_, ?_⟩
    · have ho := hm₁.owned
      rw [TimerQueue.running, hb] at ho
      rw [← hnumber]
      exact hm₁.numbers_nodup ho.out_nodup fun e hin => (ho.out_owned e hin).1
    · rw [hran', hran, hall, hnumber]
  case later =>
    intro e hin hlate t ht hnot
    have hq : Queued q₁ e.timer t := by
      apply (hm.queued_of_entry hin ht).step hm he₁ hs₁ (by rintro ⟨⟩)
      rintro _ ⟨⟩
      rwa [hm.owned.unique hin ht] at hlate
    obtain ⟨hlive, hentry⟩ := hq.finished hm₁ hb₁ hpath hd hnot he hs
    exact ⟨hlive, (hm.owned.unique hin ht).symm ▸ hentry⟩
  case again =>
    intro e hin hdue t ht interval hinterval hnot
    have hcan : (e.timer, t.sequence) ∉ u.cancelingTimers := fun hc => hnot (canceling_run hm₁ hempty hpath _ _ hc)
    have hrestart : t.restart b.now = { t with expiration := b.now + interval } := by
      simp [Timer.restart, hinterval]
    have hq := (hreset e ((hmem e).mpr ⟨hin, hdue⟩) t (hheap ▸ ht)).1 (by simp [Timer.repeats, hinterval]) hcan
    rw [hrestart] at hq
    exact ⟨hq.live, hm'.entry_iff hq⟩
  case gone =>
    intro e hin hdue t ht hgone
    have hexp : e ∈ b.expired := (hmem e).mpr ⟨hin, hdue⟩
    have hdel : q'.heap e.timer = none := by
      apply (hreset e hexp t (hheap ▸ ht)).2
      rcases hgone with honce | hcan
      · exact Or.inl (by simp [Timer.repeats, honce])
      · exact Or.inr (Expiring.canceling hm₁ hb hpath hd hexp hcan)
    exact ⟨hdel, hm'.no_entry hdel⟩
  case added =>
    rintro before after p start v t rfl hv ht
    obtain ⟨q₂, hfirst, hv'⟩ := Path.split (show Path TimerQueue.step Enabled q ([.handleRead b.now] ++ before) v from hv)
    cases hs₁.symm.trans hfirst.single.2
    obtain ⟨hnotIn, hq⟩ := Expiring.added hm₁ hb hpath hd hv' ht he hs
    refine ⟨?_, fun hnot => ⟨(hq hnot).live, (hq hnot).entry⟩⟩
    intro more hmore
    rw [hran', hran, List.append_cancel_left_eq] at hmore
    rwa [← hmore, hall]

theorem Managed.completes {b : Batch} (hm : Managed q) (hb : q.batch = some b) (clock : ℤ) :
    ∃ n q', Path TimerQueue.step Enabled q (List.replicate n .runNext ++ [.finish clock]) q' := by
  obtain ⟨now, expired, remaining⟩ := b
  induction remaining generalizing q with
  | nil =>
    have he : q.Enabled (.finish clock) := by simp [Enabled, hb]
    obtain ⟨q', hs⟩ := hm.step_ok he
    exact ⟨0, q', .snoc _ .nil he hs⟩
  | cons e remaining ih =>
    have he : q.Enabled .runNext := by simp [Enabled, hb]
    have hin : e ∈ q.running := by
      simpa [TimerQueue.running, hb] using hm.batch _ hb e List.mem_cons_self
    obtain ⟨t, ht⟩ := (hm.consistent.batch e hin).1
    have hs : q.step .runNext =
        .ok { q with batch := some ⟨now, expired, remaining⟩, ran := q.ran ++ [t.sequence] } := by
      simp only [TimerQueue.step, runNext, hb, deref_live ht, ok_bind]
    obtain ⟨n, q', hr⟩ := ih (hm.step he hs) rfl
    exact ⟨n + 1, q', hr.cons he hs⟩

/-- Every `handleRead` fires what was due when it began and nothing else, and once its callbacks return it returns. -/
theorem expiry_step {steps : List Step} (h : Path step Enabled {} steps q) {now : ℤ} {during : List Step}
    (hd : Within during) :
    (∀ clock q', Path step Enabled q (.handleRead now :: (during ++ [.finish clock])) q' → ExpiryStep q now during q') ∧
      ∀ u, Path step Enabled q (.handleRead now :: during) u → ∀ clock,
        ∃ n q', Path step Enabled u (List.replicate n .runNext ++ [.finish clock]) q' := by
  have hm : Managed q := initial_managed.run h
  refine ⟨fun clock q' hr => hm.expiryStep hr hd, ?_⟩
  intro u hr clock
  obtain ⟨q₁, hfirst, hpath⟩ := Path.split (show Path step Enabled q ([.handleRead now] ++ during) u from hr)
  obtain ⟨he, hs⟩ := hfirst.single
  obtain ⟨b, hb, -⟩ := handleRead_batch hm hs
  obtain ⟨hmu, hex⟩ := Expiring.run (hm.step he hs) hb hpath hd
  obtain ⟨_, _, _, hbu, -⟩ := hex.progress
  exact hmu.completes hbu clock

/-- Cancelling a timer of the batch before its callback was run does not keep the callback from being run, once, but the
timer is deleted after the batch and its callback is never run again. -/
theorem cancelled_mate_runs_once {steps : List Step} (h : Path step Enabled {} steps q) {b : Batch}
    (hb : q.batch = some b) {e : Entry} (hin : e ∈ b.remaining) {t : Timer} (ht : q.heap e.timer = some t)
    {later : List Step} (hd : Within later) {clock : ℤ}
    (hr : Path step Enabled q (.cancelInLoop e.timer t.sequence :: (later ++ [.finish clock])) q') :
    (∃ more, q'.ran = q.ran ++ more ∧ more.count t.sequence = 1) ∧
      q'.heap e.timer = none ∧ (∀ e' ∈ q'.timers, e'.timer ≠ e.timer) ∧ NeverRuns q' t.sequence := by
  have hm : Managed q := initial_managed.run h
  have hexp : e ∈ b.expired := hm.batch b hb e hin
  have hrunning : e ∈ q.running := by simpa [TimerQueue.running, hb] using hexp
  obtain ⟨u, hduring, hlast⟩ := Path.split
    (show Path step Enabled q ((.cancelInLoop e.timer t.sequence :: later) ++ [.finish clock]) q' from hr)
  obtain ⟨he, hs⟩ := hlast.single
  have hd' : Within (.cancelInLoop e.timer t.sequence :: later) := by
    rintro c hc
    rcases List.mem_cons.mp hc with hcan | hc
    · cases hcan
    · exact hd c hc
  obtain ⟨hmu, hex⟩ := Expiring.run hm hb hduring hd'
  obtain ⟨hran, hnone, hreset⟩ := hex.finish hmu he hs
  have hcan : (e.timer, t.sequence) ∈ u.cancelingTimers := Expiring.canceling hm hb hduring hd' hexp List.mem_cons_self
  have hdel : q'.heap e.timer = none := (hreset e hexp t ht).2 (Or.inr hcan)
  refine ⟨⟨_, hran, ?_⟩, hdel, (hmu.step he hs).no_entry hdel, ?_⟩
  · have ho := hm.owned
    rw [TimerQueue.running, hb] at ho
    have hsub := (remaining_suffix h b hb).sublist
    have hnodup : (b.remaining.map q.number).Nodup :=
      hm.numbers_nodup (ho.out_nodup.sublist (hsub.map _)) fun e' he' => (ho.out_owned e' (hsub.subset he')).1
    exact List.count_eq_one_of_mem hnodup (List.mem_map.mpr ⟨e, hin, number_eq ht⟩)
  · obtain ⟨q₁, hfirst, hrest⟩ := Path.split
      (show Path step Enabled q ([.cancelInLoop e.timer t.sequence] ++ (later ++ [.finish clock])) q' from hr)
    have hstopped := cancelInLoop_stopped hm hfirst.single.2
    exact (hstopped.batch ⟨e, hrunning, rfl⟩ ⟨t, ht, rfl⟩ _ q' hrest).2 hnone

end Results

-- timers 1 and 2 are due together; the callback of 1 adds timer 4, which is due already
theorem expiry_step_ties :
    letI := Build.debug
    let steps : List Step := [.newTimer 1 100 (some 10), .addTimerInLoop 1 1, .newTimer 2 100 none, .addTimerInLoop 2 2,
      .newTimer 3 300 none, .addTimerInLoop 3 3]
    let during : List Step := [.runNext, .newTimer 4 120 none, .addTimerInLoop 4 201, .runNext]
    ∃ q q', Path step Enabled {} steps q ∧ Path step Enabled q (.handleRead 200 :: (during ++ [.finish 202])) q' ∧
      q'.ran = [1, 2] ∧ ExpiryStep q 200 during q' := by
  intro steps during
  let _ := Build.debug
  obtain ⟨q', hq', hp⟩ := Path.exists_of_any step Enabled {} (steps ++ .handleRead 200 :: (during ++ [.finish 202]))
    (fun q => decide (q.ran = [1, 2])) (by decide +kernel)
  obtain ⟨q, hq, hr⟩ := hq'.split
  exact ⟨q, q', hq, hr, of_decide_eq_true hp, (expiry_step hq (by simp [Within, during])).1 202 q' hr⟩

-- the callback of timer 1 cancels timer 2 of the same batch
theorem cancelled_mate_runs_once_first :
    letI := Build.debug
    let steps : List Step := [.newTimer 1 100 none, .addTimerInLoop 1 1, .newTimer 2 100 (some 10), .addTimerInLoop 2 2,
      .handleRead 200, .runNext]
    ∃ q q', Path step Enabled {} steps q ∧ Path step Enabled q [.cancelInLoop 2 2, .runNext, .finish 201] q' ∧
      (∃ more, q'.ran = q.ran ++ more ∧ more.count 2 = 1) ∧
      q'.heap 2 = none ∧ (∀ e' ∈ q'.timers, e'.timer ≠ 2) ∧ NeverRuns q' 2 := by
  intro steps
  let _ := Build.debug
  obtain ⟨q, hq, hp⟩ := Path.exists_of_any step Enabled {} steps
    (fun q => decide (q.batch.map (·.remaining) = some [.of 100 2] ∧ q.heap 2 = some ⟨100, some 10, 2⟩ ∧
      (guardedRun step Enabled q [.cancelInLoop 2 2, .runNext, .finish 201]).isSome = true)) (by decide +kernel)
  obtain ⟨hb, ht, hrun⟩ := of_decide_eq_true hp
  obtain ⟨b, hb, hrem⟩ := Option.map_eq_some_iff.mp hb
  obtain ⟨q', hr⟩ := Option.isSome_iff_exists.mp hrun
  have hpath := Path.of_guardedRun hr
  have hin : Entry.of 100 2 ∈ b.remaining := hrem ▸ List.mem_cons_self
  exact ⟨q, q', hq, hpath, cancelled_mate_runs_once hq hb hin ht (show Within [.runNext] by simp [Within]) hpath⟩

/-- The batch is copied out before the first callback, and its loop asks nobody about cancellations. -/
theorem cancelled_mate_not_skipped :
    letI := Build.debug
    ¬∀ steps q, Path step Enabled {} steps q → ∀ b, q.batch = some b → ∀ e ∈ b.remaining, ∀ t, q.heap e.timer = some t →
      ∀ later u, Path step Enabled q (.cancelInLoop e.timer t.sequence :: later) u → Within later →
        ∃ more, u.ran = q.ran ++ more ∧ t.sequence ∉ more := by
  let _ := Build.debug
  intro h
  let steps : List Step := [.newTimer 1 100 none, .addTimerInLoop 1 1, .newTimer 2 100 (some 10), .addTimerInLoop 2 2,
    .handleRead 200, .runNext]
  obtain ⟨q, hq, hp⟩ := Path.exists_of_any step Enabled {} steps
    (fun q => decide (q.batch.map (·.remaining) = some [.of 100 2] ∧ q.heap 2 = some ⟨100, some 10, 2⟩ ∧ q.ran = [1] ∧
      (guardedRun step Enabled q [.cancelInLoop 2 2, .runNext]).any (fun u => decide (u.ran = [1, 2])) = true))
    (by decide +kernel)
  obtain ⟨hb, ht, hran, hrun⟩ := of_decide_eq_true hp
  obtain ⟨b, hb, hrem⟩ := Option.map_eq_some_iff.mp hb
  obtain ⟨u, hr, hu⟩ := (Option.any_eq_true _ _).mp hrun
  have hin : Entry.of 100 2 ∈ b.remaining := hrem ▸ List.mem_cons_self
  obtain ⟨more, hmore, hnot⟩ := h steps q hq b hb _ hin _ ht [.runNext] u (.of_guardedRun hr) (by simp [Within])
  rw [of_decide_eq_true hu, hran] at hmore
  cases List.append_cancel_left (show [1] ++ [2] = [1] ++ more from hmore)
  exact hnot List.mem_cons_self

end Networker.TimerQueue
