import Mathlib.Data.List.Nodup
import Networker.TimerQueueModel

namespace Networker

open CheckedRuns

@[simp] theorem Entry.time_of (when : ℤ) (p : ℕ) : (Entry.of when p).time = when := rfl

@[simp] theorem Entry.timer_of (when : ℤ) (p : ℕ) : (Entry.of when p).timer = p := rfl

theorem Entry.eta (e : Entry) : Entry.of e.time e.timer = e := rfl

theorem Entry.lt_sentry_iff {e : Entry} {now : ℤ} (h : e.timer < uintptrMax) : e < sentry now ↔ e.time ≤ now := by
  rw [sentry, Prod.Lex.lt_iff]
  change e.time < now ∨ e.time = now ∧ e.timer < uintptrMax ↔ e.time ≤ now
  omega

theorem Entry.time_le {e e' : Entry} (h : e ≤ e') : e.time ≤ e'.time := Prod.Lex.monotone_fst _ _ h

namespace TimerQueue

/-- Who owns which timer: the two sets, the batch that was taken `out` of them, or a queued `addTimerInLoop`. -/
structure Owned (q : TimerQueue) (out : List Entry) : Prop where
  queued : ∀ e ∈ q.timers, ∃ t, q.heap e.timer = some t ∧ t.expiration = e.time
  active : ∀ p s, (p, s) ∈ q.activeTimers ↔
    ∃ t, q.heap p = some t ∧ t.sequence = s ∧ Entry.of t.expiration p ∈ q.timers
  out_nodup : (out.map Entry.timer).Nodup
  out_owned : ∀ e ∈ out, (∃ t, q.heap e.timer = some t) ∧ (∀ e' ∈ q.timers, e'.timer ≠ e.timer) ∧ e.timer ∉ q.created
  created_nodup : q.created.Nodup
  created_owned : ∀ p ∈ q.created, (∃ t, q.heap p = some t) ∧ ∀ e ∈ q.timers, e.timer ≠ p
  addresses : ∀ p t, q.heap p = some t → p < uintptrMax

@[simp] theorem put_heap_same (q : TimerQueue) (p : ℕ) (t : Option Timer) : (q.put p t).heap p = t := by
  simp [put]

theorem put_heap_other (q : TimerQueue) {p r : ℕ} (t : Option Timer) (h : r ≠ p) :
    (q.put p t).heap r = q.heap r := by
  simp [put, h]

namespace Owned

variable {q q' : TimerQueue} {out : List Entry}

theorem unique (h : Owned q out) {e : Entry} {t : Timer} (he : e ∈ q.timers) (ht : q.heap e.timer = some t) :
    e = .of t.expiration e.timer := by
  obtain ⟨t', ht', htime⟩ := h.queued e he
  cases ht.symm.trans ht'
  rw [htime, Entry.eta]

theorem timer_injective (h : Owned q out) {e e' : Entry} (he : e ∈ q.timers) (he' : e' ∈ q.timers)
    (hp : e.timer = e'.timer) : e = e' := by
  obtain ⟨t, ht, -⟩ := h.queued e he
  rw [h.unique he ht, h.unique he' (hp ▸ ht), hp]

theorem put (h : Owned q out) {p : ℕ} (t : Option Timer) (hq : ∀ e ∈ q.timers, e.timer ≠ p)
    (ho : ∀ e ∈ out, e.timer ≠ p) (hc : p ∉ q.created) (ha : t.isSome = true → p < uintptrMax) :
    Owned (q.put p t) out where
  queued := fun e he => by
    rw [put_heap_other q t (hq e he)]
    exact h.queued e he
  active := fun r s => by
    by_cases hr : r = p
    · subst hr
      have hno {t' : Timer} : Entry.of t'.expiration r ∉ q.timers := fun hm => hq _ hm rfl
      rw [show (q.put r t).activeTimers = q.activeTimers from rfl, h.active]
      simp [TimerQueue.put, hno]
    · rw [put_heap_other q t hr]
      exact h.active r s
  out_nodup := h.out_nodup
  out_owned := fun e he => by
    rw [put_heap_other q t (ho e he)]
    exact h.out_owned e he
  created_nodup := h.created_nodup
  created_owned := fun r hr => by
    have hne : r ≠ p := by
      rintro rfl
      exact hc hr
    rw [put_heap_other q t hne]
    exact h.created_owned r hr
  addresses := fun r u hu => by
    by_cases hr : r = p
    · subst hr
      rw [put_heap_same] at hu
      exact ha (by rw [hu]; rfl)
    · exact h.addresses r u ((put_heap_other q t hr).symm.trans hu)

theorem newTimer (h : Owned q out) {p : ℕ} (hp : q.heap p = none) (ha : p < uintptrMax) (when : ℤ)
    (interval : Option ℕ) : Owned (q.newTimer p when interval) out := by
  have hq : ∀ e ∈ q.timers, e.timer ≠ p := by
    rintro e he rfl
    obtain ⟨t, ht, -⟩ := h.queued e he
    cases hp.symm.trans ht
  have ho : ∀ e ∈ out, e.timer ≠ p := by
    rintro e he rfl
    obtain ⟨⟨t, ht⟩, -⟩ := h.out_owned e he
    cases hp.symm.trans ht
  have hc : p ∉ q.created := by
    intro hm
    obtain ⟨⟨t, ht⟩, -⟩ := h.created_owned p hm
    cases hp.symm.trans ht
  have hput := h.put (some ⟨when, interval, q.numCreated + 1⟩) hq ho hc fun _ => ha
  refine ⟨hput.queued, hput.active, hput.out_nodup, ?_, List.nodup_cons.mpr ⟨hc, h.created_nodup⟩, ?_,
    hput.addresses⟩
  · intro e he
    obtain ⟨hs, hd, hn⟩ := hput.out_owned e he
    exact ⟨hs, hd, fun hm => (List.mem_cons.mp hm).elim (ho e he) hn⟩
  · intro r hr
    rcases List.mem_cons.mp hr with rfl | hr
    · exact ⟨⟨_, put_heap_same q r _⟩, hq⟩
    · exact hput.created_owned r hr

theorem inserted (h : Owned q out) {p : ℕ} {t : Timer} (ht : q.heap p = some t) (ho : ∀ e ∈ out, e.timer ≠ p)
    (hc : p ∉ q.created) :
    Owned { q with
      timers := q.timers.insert (.of t.expiration p)
      activeTimers := Insert.insert (p, t.sequence) q.activeTimers } out := by
  refine ⟨?_, ?_, h.out_nodup, ?_, h.created_nodup, ?_, h.addresses⟩
  · intro e he
    rcases OrderedSet.mem_insert.mp he with rfl | he
    · exact ⟨t, ht, rfl⟩
    · exact h.queued e he
  · intro r s
    rw [Finset.mem_insert, h.active]
    constructor
    · rintro (hrs | ⟨t', ht', hs, hm⟩)
      · cases hrs
        exact ⟨t, ht, rfl, OrderedSet.mem_insert.mpr (Or.inl rfl)⟩
      · exact ⟨t', ht', hs, OrderedSet.mem_insert.mpr (Or.inr hm)⟩
    · rintro ⟨t', ht', hs, hm⟩
      rcases OrderedSet.mem_insert.mp hm with he | hm
      · obtain rfl : r = p := congrArg Entry.timer he
        cases ht.symm.trans ht'
        exact Or.inl (by rw [hs])
      · exact Or.inr ⟨t', ht', hs, hm⟩
  · intro e he
    obtain ⟨hs, hd, hn⟩ := h.out_owned e he
    refine ⟨hs, ?_, hn⟩
    intro e' he'
    rcases OrderedSet.mem_insert.mp he' with rfl | he'
    · exact (ho e he).symm
    · exact hd e' he'
  · intro r hr
    obtain ⟨hs, hd⟩ := h.created_owned r hr
    refine ⟨hs, ?_⟩
    intro e' he'
    rcases OrderedSet.mem_insert.mp he' with rfl | he'
    · rintro rfl
      exact hc hr
    · exact hd e' he'

theorem removed (h : Owned q out) {p : ℕ} {t : Timer} (ht : q.heap p = some t) (hin : Entry.of t.expiration p ∈ q.timers) :
    Owned { q.put p none with
      timers := q.timers.erase (.of t.expiration p)
      activeTimers := q.activeTimers.erase (p, t.sequence) } out := by
  -- the entry that goes is the only one of this timer
  have hrest : ∀ e ∈ q.timers.erase (.of t.expiration p), e ∈ q.timers ∧ e.timer ≠ p := by
    intro e he
    obtain ⟨he, hne⟩ := OrderedSet.mem_erase.mp he
    refine ⟨he, ?_⟩
    intro hp
    exact hne ((h.unique he (hp ▸ ht)).trans (by rw [hp]))
  refine ⟨?_, ?_, h.out_nodup, ?_, h.created_nodup, ?_, ?_⟩
  · intro e he
    obtain ⟨he, hne⟩ := hrest e he
    rw [show (q.put p none).heap e.timer = q.heap e.timer from put_heap_other q none hne]
    exact h.queued e he
  · intro r s'
    rw [Finset.mem_erase, h.active]
    constructor
    · rintro ⟨hne, t', ht', hs', hm'⟩
      have hrp : r ≠ p := by
        rintro rfl
        cases ht.symm.trans ht'
        exact hne (by rw [← hs'])
      refine ⟨t', (put_heap_other q none hrp).trans ht', hs', OrderedSet.mem_erase.mpr ⟨hm', ?_⟩⟩
      exact fun he => hrp (congrArg Entry.timer he)
    · rintro ⟨t', ht', hs', hm'⟩
      have hrp : r ≠ p := (hrest _ hm').2
      have ht'' : q.heap r = some t' := (put_heap_other q none hrp).symm.trans ht'
      exact ⟨fun he => hrp (congrArg Prod.fst he), t', ht'', hs', (hrest _ hm').1⟩
  · intro e he
    obtain ⟨⟨te, hte⟩, hd, hn⟩ := h.out_owned e he
    have hne : e.timer ≠ p := (hd _ hin).symm
    exact ⟨⟨te, (put_heap_other q none hne).trans hte⟩, fun e' he' => hd e' (hrest e' he').1, hn⟩
  · intro r hr
    obtain ⟨⟨tr, htr⟩, hd⟩ := h.created_owned r hr
    have hne : r ≠ p := (hd _ hin).symm
    exact ⟨⟨tr, (put_heap_other q none hne).trans htr⟩, fun e' he' => hd e' (hrest e' he').1⟩
  · intro r u hu
    by_cases hr : r = p
    · subst hr
      cases (put_heap_same q r none).symm.trans hu
    · exact h.addresses r u ((put_heap_other q none hr).symm.trans hu)

/-- The entries before the sentry are those due at `now`, ties included. -/
theorem below_sentry (h : Owned q out) (now : ℤ) :
    q.timers.below (Entry.sentry now) = (q.timers.filter fun e => e.time ≤ now).toList ∧
      q.timers.notBelow (Entry.sentry now) = q.timers.filter fun e => now < e.time := by
  have hlt : ∀ e ∈ q.timers, e < Entry.sentry now ↔ e.time ≤ now := by
    intro e he
    obtain ⟨t, ht, -⟩ := h.queued e he
    exact Entry.lt_sentry_iff (h.addresses _ t ht)
  rw [OrderedSet.below_eq_filter, OrderedSet.notBelow_eq_filter]
  constructor
  · exact List.filter_congr fun e he => decide_eq_decide.mpr (hlt e he)
  · refine OrderedSet.eq_of_toList (List.filter_congr fun e he => decide_eq_decide.mpr ?_)
    rw [← not_lt, hlt e he, not_le]

/-- The timers that are due leave both sets for the batch. -/
theorem expire (h : Owned q []) {now : ℤ} {activeTimers : Finset (ℕ × ℕ)}
    (hmem : ∀ r s, (r, s) ∈ activeTimers ↔ (r, s) ∈ q.activeTimers ∧
      ∀ e ∈ (q.timers.filter fun e => e.time ≤ now).toList, ∀ t, q.heap e.timer = some t →
        (r, s) ≠ (e.timer, t.sequence)) :
    Owned { q with timers := q.timers.filter fun e => now < e.time, activeTimers }
      (q.timers.filter fun e => e.time ≤ now).toList := by
  have hexp {e : Entry} : e ∈ (q.timers.filter fun e => e.time ≤ now).toList ↔ e ∈ q.timers ∧ e.time ≤ now := by
    rw [OrderedSet.mem_toList]
    simp
  have hrest {e : Entry} : (e ∈ q.timers.filter fun e => now < e.time) ↔ e ∈ q.timers ∧ now < e.time := by simp
  refine ⟨fun e he => h.queued e (hrest.mp he).1, ?_, ?_, ?_, h.created_nodup, ?_, h.addresses⟩
  · intro r s
    rw [hmem, h.active]
    constructor
    · rintro ⟨⟨t, ht, hs, hm⟩, hall⟩
      refine ⟨t, ht, hs, hrest.mpr ⟨hm, ?_⟩⟩
      by_contra hdue
      exact hall _ (hexp.mpr ⟨hm, not_lt.mp hdue⟩) t ht (by rw [hs]; rfl)
    · rintro ⟨t, ht, hs, hm⟩
      obtain ⟨hm, hlate⟩ := hrest.mp hm
      refine ⟨⟨t, ht, hs, hm⟩, ?_⟩
      intro e he t' ht' hrs
      obtain ⟨he, hdue⟩ := hexp.mp he
      have hsame : Entry.of t.expiration r = e := h.timer_injective hm he (congrArg Prod.fst hrs)
      rw [hsame] at hlate
      exact absurd hdue (not_le.mpr hlate)
  · refine List.Nodup.map_on ?_ (OrderedSet.nodup _)
    intro e he e' he' hp
    exact h.timer_injective (hexp.mp he).1 (hexp.mp he').1 hp
  · intro e he
    obtain ⟨he, hdue⟩ := hexp.mp he
    obtain ⟨t, ht, htime⟩ := h.queued e he
    refine ⟨⟨t, ht⟩, ?_, fun hc => (h.created_owned _ hc).2 e he rfl⟩
    intro e' he' hp
    obtain ⟨he', hlate⟩ := hrest.mp he'
    rw [h.timer_injective he' he hp] at hlate
    exact absurd hdue (not_le.mpr hlate)
  · intro r hr
    obtain ⟨hs, hd⟩ := h.created_owned r hr
    exact ⟨hs, fun e he => hd e (hrest.mp he).1⟩

theorem out_cons {e : Entry} (h : Owned q (e :: out)) : Owned q out ∧ ∀ e' ∈ out, e'.timer ≠ e.timer := by
  obtain ⟨hnotMem, hnodup⟩ := List.nodup_cons.mp (List.map_cons .. ▸ h.out_nodup)
  constructor
  · exact ⟨h.queued, h.active, hnodup, fun e' he' => h.out_owned e' (by simp [he']), h.created_nodup, h.created_owned,
      h.addresses⟩
  · intro e' he' hp
    exact hnotMem (hp ▸ List.mem_map_of_mem he')

/-- The functor of `addTimer` has started, and its timer is on the way into the sets. -/
theorem started (h : Owned q out) (p : ℕ) : Owned { q with created := q.created.erase p } out := by
  have hsub {r : ℕ} (hr : r ∈ q.created.erase p) : r ∈ q.created := List.mem_of_mem_erase hr
  refine ⟨h.queued, h.active, h.out_nodup, ?_, h.created_nodup.erase p, fun r hr => h.created_owned r (hsub hr),
    h.addresses⟩
  intro e he
  obtain ⟨hs, hd, hn⟩ := h.out_owned e he
  exact ⟨hs, hd, fun hm => hn (hsub hm)⟩

end Owned

variable {q q' : TimerQueue} {out : List Entry}

theorem deref_ok {p : ℕ} {t : Timer} (h : q.deref p = .ok t) : q.heap p = some t := by
  unfold deref at h
  split at h
  · next ht =>
    cases h
    exact ht
  · cases h

def running (q : TimerQueue) : List Entry := (q.batch.map Batch.expired).getD []

theorem readTimerfd_eq (q : TimerQueue) (now : ℤ) : ∃ timerfd, q.readTimerfd now = { q with timerfd } := by
  unfold readTimerfd
  split
  · split_ifs
    · exact ⟨none, rfl⟩
    · exact ⟨q.timerfd, rfl⟩
  · exact ⟨q.timerfd, rfl⟩

theorem runNext_inv (h : q.runNext = .ok q') :
    q' = q ∨ ∃ now expired e remaining t, q.batch = some ⟨now, expired, e :: remaining⟩ ∧
      q.heap e.timer = some t ∧
      q' = { q with batch := some ⟨now, expired, remaining⟩, ran := q.ran ++ [t.sequence] } := by
  unfold runNext at h
  split at h
  · next now expired e remaining hb =>
    obtain ⟨t, ht, h'⟩ := bind_eq_ok.mp h
    exact Or.inr ⟨now, expired, e, remaining, t, hb, deref_ok ht, (Except.ok.inj h').symm⟩
  · exact Or.inl (Except.ok.inj h).symm
  · exact Or.inl (Except.ok.inj h).symm

variable [Build]

theorem insert_inv {p : ℕ} {changed : Bool} (h : q.insert p = .ok (q', changed)) :
    ∃ t, q.heap p = some t ∧
      changed = (match q.timers.first with
        | none => true
        | some it => decide (it.time < t.expiration)) ∧
      q' = { q with
        timers := q.timers.insert (.of t.expiration p)
        activeTimers := Insert.insert (p, t.sequence) q.activeTimers } := by
  obtain ⟨t, ht, h'⟩ := bind_eq_ok.mp (assert_bind_ok h)
  have h'' := assert_bind_ok (assert_bind_ok (assert_bind_ok h'))
  cases h''
  exact ⟨t, deref_ok ht, rfl, rfl⟩

theorem Owned.insert {p : ℕ} {changed : Bool} (h : Owned q out) (ho : ∀ e ∈ out, e.timer ≠ p) (hc : p ∉ q.created)
    (hi : q.insert p = .ok (q', changed)) : Owned q' out := by
  obtain ⟨t, ht, -, rfl⟩ := insert_inv hi
  exact h.inserted ht ho hc

theorem cancelInLoop_inv {p s : ℕ} (h : q.cancelInLoop p s = .ok q') :
    ((p, s) ∈ q.activeTimers ∧ ∃ t, q.heap p = some t ∧
        q' = { q.put p none with
          timers := q.timers.erase (.of t.expiration p)
          activeTimers := q.activeTimers.erase (p, s) }) ∨
      ((p, s) ∉ q.activeTimers ∧ q' = { q with
        cancelingTimers :=
          if q.callingExpiredTimers then Insert.insert (p, s) q.cancelingTimers else q.cancelingTimers }) := by
  have h' := assert_bind_ok h
  split_ifs at h' with hm hcalling
  · obtain ⟨t, ht, h''⟩ := bind_eq_ok.mp h'
    cases assert_bind_ok (assert_bind_ok h'')
    exact Or.inl ⟨hm, t, deref_ok ht, rfl⟩
  · cases assert_bind_ok h'
    exact Or.inr ⟨hm, by rw [if_pos hcalling]⟩
  · cases assert_bind_ok h'
    exact Or.inr ⟨hm, by rw [if_neg hcalling]⟩

theorem Owned.cancelInLoop {p s : ℕ} (h : Owned q out) (hc : q.cancelInLoop p s = .ok q') : Owned q' out := by
  obtain ⟨hm, t, ht, rfl⟩ | ⟨-, rfl⟩ := cancelInLoop_inv hc
  · obtain ⟨t₁, ht₁, rfl, hin⟩ := (h.active p s).mp hm
    cases ht.symm.trans ht₁
    exact h.removed ht hin
  · exact { h with }

theorem deactivate_inv {expired : List Entry} (h : q.deactivate expired = .ok q') :
    ∃ activeTimers, q' = { q with activeTimers } ∧
      ∀ r s, (r, s) ∈ activeTimers ↔ (r, s) ∈ q.activeTimers ∧
        ∀ e ∈ expired, ∀ t, q.heap e.timer = some t → (r, s) ≠ (e.timer, t.sequence) := by
  induction expired generalizing q with
  | nil => exact ⟨q.activeTimers, (Except.ok.inj h).symm, by simp⟩
  | cons e expired ih =>
    obtain ⟨t, ht, h'⟩ := bind_eq_ok.mp h
    have ht := deref_ok ht
    obtain ⟨activeTimers, rfl, hmem⟩ := ih (assert_bind_ok h')
    refine ⟨activeTimers, rfl, ?_⟩
    intro r s
    rw [hmem, Finset.mem_erase]
    constructor
    · rintro ⟨⟨hne, hm⟩, hall⟩
      refine ⟨hm, ?_⟩
      intro e' he' t' ht'
      rcases List.mem_cons.mp he' with rfl | he'
      · cases ht.symm.trans ht'
        exact hne
      · exact hall e' he' t' ht'
    · rintro ⟨hm, hall⟩
      exact ⟨⟨hall e (by simp) t ht, hm⟩, fun e' he' => hall e' (by simp [he'])⟩

theorem getExpired_inv {now : ℤ} {expired : List Entry} (ho : Owned q out) (h : q.getExpired now = .ok (q', expired)) :
    expired = (q.timers.filter fun e => e.time ≤ now).toList ∧
      deactivate { q with timers := q.timers.filter fun e => now < e.time } expired = .ok q' := by
  obtain ⟨q₁, hd, h'⟩ := bind_eq_ok.mp (assert_bind_ok (assert_bind_ok h))
  cases assert_bind_ok h'
  obtain ⟨hbelow, hrest⟩ := ho.below_sentry now
  rw [hrest] at hd
  exact ⟨hbelow, hd⟩

theorem Owned.getExpired {now : ℤ} {expired : List Entry} (h : Owned q [])
    (he : q.getExpired now = .ok (q', expired)) : Owned q' expired := by
  obtain ⟨rfl, hd⟩ := getExpired_inv h he
  obtain ⟨activeTimers, rfl, hmem⟩ := deactivate_inv hd
  exact h.expire hmem

theorem requeue_cons_inv {now : ℤ} {e : Entry} {expired : List Entry} (h : q.requeue now (e :: expired) = .ok q') :
    ∃ t, q.heap e.timer = some t ∧
      ((t.repeats = true ∧ (e.timer, t.sequence) ∉ q.cancelingTimers ∧
          ∃ q₁ changed, insert (q.put e.timer (some (t.restart now))) e.timer = .ok (q₁, changed) ∧
            q₁.requeue now expired = .ok q') ∨
        (¬(t.repeats = true ∧ (e.timer, t.sequence) ∉ q.cancelingTimers) ∧
          (q.put e.timer none).requeue now expired = .ok q')) := by
  obtain ⟨t, ht, h'⟩ := bind_eq_ok.mp h
  refine ⟨t, deref_ok ht, ?_⟩
  split_ifs at h' with hr
  · obtain ⟨⟨q₁, changed⟩, hi, h''⟩ := bind_eq_ok.mp h'
    exact Or.inl ⟨hr.1, hr.2, q₁, changed, hi, h''⟩
  · exact Or.inr ⟨hr, h'⟩

/-- The part of a batch that is still out shrinks until every timer of it is queued again or deleted. -/
theorem Owned.requeue {now : ℤ} {expired : List Entry} (h : Owned q expired)
    (hr : q.requeue now expired = .ok q') : Owned q' [] := by
  induction expired generalizing q with
  | nil =>
    cases hr
    exact h
  | cons e expired ih =>
    obtain ⟨-, hd, hn⟩ := h.out_owned e (by simp)
    obtain ⟨hrest, hne⟩ := h.out_cons
    obtain ⟨t, ht, ⟨-, -, q₁, changed, hi, hq⟩ | ⟨-, hq⟩⟩ := requeue_cons_inv hr
    · exact ih ((hrest.put _ hd hne hn fun _ => h.addresses _ t ht).insert hne hn hi) hq
    · exact ih (hrest.put none hd hne hn (by simp)) hq

theorem requeue_frame {now : ℤ} {expired : List Entry} (h : q.requeue now expired = .ok q') :
    q'.timerfd = q.timerfd ∧ q'.lastSet = q.lastSet ∧ q'.clock = q.clock ∧ q'.batch = q.batch ∧
      ∀ e ∈ q'.timers, e ∈ q.timers ∨ now ≤ e.time := by
  induction expired generalizing q with
  | nil =>
    cases h
    exact ⟨rfl, rfl, rfl, rfl, fun e he => Or.inl he⟩
  | cons e expired ih =>
    obtain ⟨t, -, ⟨hrep, -, q₁, changed, hi, hq⟩ | ⟨-, hq⟩⟩ := requeue_cons_inv h
    · obtain ⟨t', ht', -, rfl⟩ := insert_inv hi
      rw [put_heap_same] at ht'
      cases ht'
      obtain ⟨h1, h2, h3, h4, hm⟩ := ih hq
      refine ⟨h1, h2, h3, h4, ?_⟩
      intro e' he'
      rcases hm e' he' with hm | hm
      · rcases OrderedSet.mem_insert.mp hm with rfl | hm
        · right
          obtain ⟨delta, hdelta⟩ := Option.isSome_iff_exists.mp hrep
          simp only [Timer.restart, hdelta, Entry.time_of]
          omega
        · exact Or.inl hm
      · exact Or.inr hm
    · obtain ⟨h1, h2, h3, h4, hm⟩ := ih hq
      exact ⟨h1, h2, h3, h4, hm⟩

theorem addTimerInLoop_inv {p : ℕ} {now : ℤ} (h : q.addTimerInLoop p now = .ok q') :
    ∃ t q₁ changed, q.heap p = some t ∧
      insert { q with created := q.created.erase p } p = .ok (q₁, changed) ∧
      q' = if changed = true then q₁.resetTimerfd t.expiration now else q₁ := by
  obtain ⟨⟨q₁, changed⟩, hi, h'⟩ := bind_eq_ok.mp h
  obtain ⟨t, ht, -, rfl⟩ := insert_inv hi
  refine ⟨t, _, changed, ht, hi, ?_⟩
  dsimp only at h'
  split_ifs at h' with hc
  · obtain ⟨t', ht', h''⟩ := bind_eq_ok.mp h'
    cases ht.symm.trans (deref_ok ht')
    cases h''
    rw [if_pos hc]
  · cases h'
    rw [if_neg hc]

theorem Owned.addTimerInLoop {p : ℕ} {now : ℤ} (h : Owned q out) (hp : p ∈ q.created)
    (ha : q.addTimerInLoop p now = .ok q') : Owned q' out := by
  obtain ⟨t, q₁, changed, -, hi, rfl⟩ := addTimerInLoop_inv ha
  have hout : ∀ e ∈ out, e.timer ≠ p := by
    rintro e he rfl
    exact (h.out_owned e he).2.2 hp
  have h₁ := (h.started p).insert hout (fun hm => h.created_nodup.not_mem_erase hm) hi
  split_ifs
  · exact { h₁ with }
  · exact h₁

theorem finish_inv {clock : ℤ} {b : Batch} (hb : q.batch = some b) (h : q.finish clock = .ok q') :
    ∃ q₁, requeue { q with batch := none } b.now b.expired = .ok q₁ ∧
      ((q₁.timers.first = none ∧ q' = q₁) ∨
        ∃ e t, q₁.timers.first = some e ∧ q₁.heap e.timer = some t ∧
          q' = if 0 < t.expiration then q₁.resetTimerfd t.expiration clock else q₁) := by
  simp only [finish, hb] at h
  obtain ⟨q₁, hr, h'⟩ := bind_eq_ok.mp h
  refine ⟨q₁, hr, ?_⟩
  split at h'
  · next hf => exact Or.inl ⟨hf, (Except.ok.inj h').symm⟩
  · next e hf =>
    obtain ⟨t, ht, h''⟩ := bind_eq_ok.mp h'
    exact Or.inr ⟨e, t, hf, deref_ok ht, (Except.ok.inj h'').symm⟩

theorem handleRead_inv {now : ℤ} (h : q.handleRead now = .ok q') :
    ∃ q₁ expired, getExpired (readTimerfd { q with clock := now } now) now = .ok (q₁, expired) ∧
      q' = { q₁ with cancelingTimers := ∅, batch := some ⟨now, expired, expired⟩ } := by
  obtain ⟨⟨q₁, expired⟩, he, h'⟩ := bind_eq_ok.mp h
  exact ⟨q₁, expired, he, (Except.ok.inj h').symm⟩

theorem step_owned {s : Step} (h : Owned q q.running) (he : q.Enabled s) (hs : q.step s = .ok q') :
    Owned q' q'.running := by
  cases s with
  | newTimer p when interval =>
    cases hs
    exact h.newTimer he.1 he.2 when interval
  | addTimerInLoop p now =>
    have hq := h.addTimerInLoop he hs
    obtain ⟨t, q₁, changed, -, hi, rfl⟩ := addTimerInLoop_inv hs
    obtain ⟨t', -, -, rfl⟩ := insert_inv hi
    split_ifs at hq ⊢
    · exact hq
    · exact hq
  | cancelInLoop p sequence =>
    have hq := h.cancelInLoop hs
    obtain ⟨-, t, -, rfl⟩ | ⟨-, rfl⟩ := cancelInLoop_inv hs
    · exact hq
    · exact hq
  | handleRead now =>
    have hb : q.batch = none := Option.isNone_iff_eq_none.mp he
    obtain ⟨q₁, expired, hexp, rfl⟩ := handleRead_inv hs
    obtain ⟨timerfd, ht⟩ := readTimerfd_eq { q with clock := now } now
    rw [running, hb] at h
    rw [ht] at hexp
    have hread : Owned { q with clock := now, timerfd } [] := { h with }
    exact { hread.getExpired hexp with }
  | runNext =>
    obtain rfl | ⟨now, expired, e, remaining, t, hb, -, rfl⟩ := runNext_inv hs
    · exact h
    · rw [running, hb] at h
      exact { h with }
  | finish clock =>
    obtain ⟨b, hb, -⟩ := (Option.any_eq_true _ _).mp he
    rw [running, hb] at h
    obtain ⟨q₁, hr, hq⟩ := finish_inv hb hs
    have h₁ : Owned q₁ [] := Owned.requeue (q := { q with batch := none }) { h with } hr
    have hb₁ : q₁.batch = none := (requeue_frame hr).2.2.2.1
    rcases hq with ⟨-, rfl⟩ | ⟨e, t, -, -, rfl⟩
    · rwa [running, hb₁]
    · split_ifs
      · rw [running, show (q₁.resetTimerfd t.expiration clock).batch = none from hb₁]
        exact { h₁ with }
      · rwa [running, hb₁]

end TimerQueue

end Networker
