import Networker.PollerModel

/-!
The operations of the two pollers, one at a time. `EPollPoller` keeps its map,
the status of the channels and the interest list of the kernel in step.
-/

namespace Networker

open CheckedRuns

namespace ChannelHeap

variable (heap : ChannelHeap) (ch : ℕ) (c : Channel)

@[simp] theorem set_same : heap.set ch c ch = c := by simp [set]

theorem set_other {r : ℕ} (h : r ≠ ch) : heap.set ch c r = heap r := by simp [set, h]

@[simp] theorem set_set (c' : Channel) : (heap.set ch c).set ch c' = heap.set ch c' := by
  funext r
  by_cases h : r = ch <;> simp [set, h]

theorem set_self : heap.set ch (heap ch) = heap := by
  funext r
  by_cases h : r = ch <;> simp [set, h]

theorem set_field {β : Type} (g : Channel → β) (h : g c = g (heap ch)) (r : ℕ) : g (heap.set ch c r) = g (heap r) := by
  by_cases hr : r = ch
  · subst hr
    rw [set_same, h]
  · rw [set_other heap ch c hr]

def setRevents (heap : ChannelHeap) : List (ℕ × BitVec 32) → ChannelHeap
  | [] => heap
  | (ch, events) :: rest => (heap.set ch { heap ch with revents := events }).setRevents rest

theorem setRevents_fields (events : List (ℕ × BitVec 32)) :
    (heap.setRevents events ch).fd = (heap ch).fd ∧ (heap.setRevents events ch).events = (heap ch).events ∧
      (heap.setRevents events ch).index = (heap ch).index := by
  induction events generalizing heap with
  | nil => exact ⟨rfl, rfl, rfl⟩
  | cons e rest ih =>
    obtain ⟨r, mask⟩ := e
    obtain ⟨h1, h2, h3⟩ := ih (heap.set r { heap r with revents := mask })
    rw [setRevents, h1, h2, h3]
    by_cases h : ch = r
    · subst h
      simp
    · simp [set_other heap r _ h]

theorem setRevents_other {events : List (ℕ × BitVec 32)} (h : ch ∉ events.map Prod.fst) :
    heap.setRevents events ch = heap ch := by
  induction events generalizing heap with
  | nil => rfl
  | cons e rest ih =>
    simp only [List.map_cons, List.mem_cons, not_or] at h
    rw [setRevents, ih _ h.2, set_other heap _ _ h.1]

theorem setRevents_mem {events : List (ℕ × BitVec 32)} (hn : (events.map Prod.fst).Nodup)
    {e : ℕ × BitVec 32} (he : e ∈ events) : (heap.setRevents events e.1).revents = e.2 := by
  induction events generalizing heap with
  | nil => cases he
  | cons e' rest ih =>
    simp only [List.map_cons, List.nodup_cons] at hn
    rw [setRevents]
    rcases List.mem_cons.mp he with rfl | he
    · simp [setRevents_other _ _ hn.1]
    · exact ih _ hn.2 he

end ChannelHeap

namespace ChannelMap

variable (m : ChannelMap) (fd : ℤ) (ch : Option ℕ)

@[simp] theorem set_same : m.set fd ch fd = ch := by simp [set]

theorem set_other {k : ℤ} (h : k ≠ fd) : m.set fd ch k = m k := by simp [set, h]

theorem set_self (h : m fd = ch) : m.set fd ch = m := by
  funext k
  by_cases hk : k = fd
  · rw [hk, h, set_same]
  · exact set_other m fd ch hk

end ChannelMap

namespace EPollPoller

/-- The map holds the channels that are not new, and the kernel watches those that are added. -/
structure Mirrors (p : EPollPoller) (heap : ChannelHeap) : Prop where
  status : ∀ ch, (heap ch).index = kNew ∨ (heap ch).index = kAdded ∨ (heap ch).index = kDeleted
  registered : ∀ ch, (heap ch).index ≠ kNew → p.channels (heap ch).fd = some ch
  owner : ∀ fd ch, p.channels fd = some ch → (heap ch).fd = fd ∧ (heap ch).index ≠ kNew
  watched : ∀ fd, p.interest fd =
    (p.channels fd).bind fun ch => if (heap ch).index = kAdded then some (ch, (heap ch).events) else none

namespace Mirrors

variable {p : EPollPoller} {heap : ChannelHeap} {ch : ℕ}

theorem new_iff (h : Mirrors p heap) : (heap ch).index = kNew ↔ p.channels (heap ch).fd ≠ some ch := by
  refine ⟨fun hi hc => (h.owner _ _ hc).2 hi, fun hc => ?_⟩
  by_contra hi
  exact hc (h.registered ch hi)

theorem interest_none (h : Mirrors p heap) {fd : ℤ} (hc : p.channels fd = none) : p.interest fd = none := by
  rw [h.watched, hc]
  rfl

theorem interest_of_added (h : Mirrors p heap) (hi : (heap ch).index = kAdded) :
    p.interest (heap ch).fd = some (ch, (heap ch).events) := by
  have hc : p.channels (heap ch).fd = some ch := h.registered ch (by rw [hi]; decide)
  rw [h.watched, hc]
  exact if_pos hi

theorem interest_of_deleted (h : Mirrors p heap) (hi : (heap ch).index = kDeleted) :
    p.interest (heap ch).fd = none := by
  have hc : p.channels (heap ch).fd = some ch := h.registered ch (by rw [hi]; decide)
  rw [h.watched, hc]
  exact if_neg (by rw [hi]; decide)

/-- A reported descriptor carries the pointer of the channel that is registered for it. -/
theorem channel_of_interest (h : Mirrors p heap) {fd : ℤ} {entry : ℕ × BitVec 32}
    (hi : p.interest fd = some entry) : p.channels fd = some entry.1 ∧ (heap entry.1).fd = fd := by
  rw [h.watched, Option.bind_eq_some_iff] at hi
  obtain ⟨r, hr, he⟩ := hi
  split_ifs at he with hk
  cases he
  exact ⟨hr, (h.owner fd r hr).1⟩

theorem congr (h : Mirrors p heap) {heap' : ChannelHeap} {p' : EPollPoller}
    (hf : ∀ r, (heap' r).fd = (heap r).fd ∧ (heap' r).events = (heap r).events ∧ (heap' r).index = (heap r).index)
    (hc : p'.channels = p.channels) (hi : p'.interest = p.interest) : Mirrors p' heap' where
  status r := by
    rw [(hf r).2.2]
    exact h.status r
  registered r := by
    rw [(hf r).2.2, (hf r).1, hc]
    exact h.registered r
  owner fd r := by
    rw [(hf r).2.2, (hf r).1, hc]
    exact h.owner fd r
  watched fd := by
    rw [hc, hi, h.watched fd]
    congr 1
    funext r
    rw [(hf r).2.2, (hf r).2.1]

end Mirrors

variable {p : EPollPoller} {heap : ChannelHeap} {ch : ℕ}

/-- The poller after an `updateChannel` that leaves the channel `c` behind. -/
def registerAs (p : EPollPoller) (ch : ℕ) (c : Channel) : EPollPoller where
  channels := p.channels.set c.fd (some ch)
  interest fd := if fd = c.fd then if c.index = kAdded then some (ch, c.events) else none else p.interest fd
  events := p.events

def unregister (p : EPollPoller) (fd : ℤ) : EPollPoller where
  channels := p.channels.set fd none
  interest k := if k = fd then none else p.interest k
  events := p.events

theorem Mirrors.set (h : Mirrors p heap) (hc : p.channels (heap ch).fd = none ∨ p.channels (heap ch).fd = some ch)
    {c : Channel} {p' : EPollPoller} (hfd : c.fd = (heap ch).fd)
    (hi : c.index = kNew ∨ c.index = kAdded ∨ c.index = kDeleted)
    (hreg : p'.channels c.fd = if c.index = kNew then none else some ch)
    (hint : p'.interest c.fd = if c.index = kAdded then some (ch, c.events) else none)
    (hother : ∀ fd, fd ≠ c.fd → p'.channels fd = p.channels fd ∧ p'.interest fd = p.interest fd) :
    Mirrors p' (heap.set ch c) := by
  have hne : ∀ fd r, fd ≠ c.fd → p.channels fd = some r → r ≠ ch := by
    rintro fd r hk hr rfl
    exact hk ((h.owner fd r hr).1.symm.trans hfd.symm)
  constructor
  · intro r
    by_cases hr : r = ch
    · subst hr
      rw [ChannelHeap.set_same]
      exact hi
    · rw [ChannelHeap.set_other _ _ _ hr]
      exact h.status r
  · intro r hir
    by_cases hr : r = ch
    · subst hr
      rw [ChannelHeap.set_same] at hir ⊢
      rw [hreg, if_neg hir]
    · rw [ChannelHeap.set_other _ _ _ hr] at hir ⊢
      have hr' := h.registered r hir
      have hk : (heap r).fd ≠ c.fd := by
        intro he
        rw [he, hfd] at hr'
        rcases hc with hc | hc
        · simp [hc] at hr'
        · exact hr (Option.some.inj (hr'.symm.trans hc))
      rw [(hother _ hk).1, hr']
  · intro fd r hr
    by_cases hk : fd = c.fd
    · subst hk
      rw [hreg] at hr
      split_ifs at hr with hn
      cases hr
      rw [ChannelHeap.set_same]
      exact ⟨rfl, hn⟩
    · rw [(hother fd hk).1] at hr
      rw [ChannelHeap.set_other _ _ _ (hne fd r hk hr)]
      exact h.owner fd r hr
  · intro fd
    by_cases hk : fd = c.fd
    · subst hk
      rw [hint, hreg]
      by_cases hn : c.index = kNew
      · simp [hn, kNew, kAdded]
      · simp [hn]
    · rw [(hother fd hk).1, (hother fd hk).2, h.watched fd]
      cases hr : p.channels fd with
      | none => rfl
      | some r => simp only [Option.bind_some, ChannelHeap.set_other _ _ _ (hne fd r hk hr)]

theorem updatedIndex_cases (c : Channel) : updatedIndex c = kAdded ∨ updatedIndex c = kDeleted := by
  unfold updatedIndex
  split_ifs <;> simp

theorem registerAs_mirrors (h : Mirrors p heap) (hc : p.channels (heap ch).fd = none ∨ p.channels (heap ch).fd = some ch)
    {c : Channel} (hfd : c.fd = (heap ch).fd) (hi : c.index = kAdded ∨ c.index = kDeleted) :
    Mirrors (p.registerAs ch c) (heap.set ch c) := by
  have hn : c.index ≠ kNew := by rcases hi with hi | hi <;> rw [hi] <;> decide
  refine h.set hc hfd (Or.inr hi) ?_ (if_pos rfl) fun fd hk => ⟨ChannelMap.set_other _ _ _ hk, if_neg hk⟩
  rw [if_neg hn]
  exact ChannelMap.set_same _ _ _

theorem unregister_mirrors (h : Mirrors p heap) (hc : p.channels (heap ch).fd = some ch)
    (c : Channel) (hfd : c.fd = (heap ch).fd) :
    Mirrors (p.unregister c.fd) (heap.set ch { c with index := kNew }) :=
  h.set (Or.inr hc) hfd (Or.inl rfl) (ChannelMap.set_same _ _ _) (if_pos rfl)
    fun _ hk => ⟨ChannelMap.set_other _ _ _ hk, if_neg hk⟩

variable [Build]

/-- On a channel whose mask was just changed, no assertion fails and every `epoll_ctl` is legal. -/
theorem updateChannel_eq (h : Mirrors p heap)
    (hc : p.channels (heap ch).fd = none ∨ p.channels (heap ch).fd = some ch)
    (c : Channel) (hfd : c.fd = (heap ch).fd) (hi : c.index = (heap ch).index) :
    p.updateChannel (heap.set ch c) ch =
      .ok (p.registerAs ch { c with index := updatedIndex c },
        heap.set ch { c with index := updatedIndex c }) := by
  unfold updateChannel
  rw [ChannelHeap.set_same]
  dsimp only
  rcases h.status ch with hs | hs | hs
  · -- kNew
    have hnone : p.channels c.fd = none := by
      rw [hfd]
      exact hc.resolve_right (h.new_iff.mp hs)
    have hint : p.interest c.fd = none := h.interest_none hnone
    have hidx : updatedIndex c = kAdded := if_pos (Or.inl (hi.trans hs))
    rw [if_pos (hi.trans hs), assert_pos hnone, ok_bind]
    simp only [update, hint, ok_bind, hidx, ChannelHeap.set_set, registerAs, if_true]
  · -- kAdded
    have hreg : p.channels c.fd = some ch := by
      rw [hfd]
      exact h.registered ch (by rw [hs]; decide)
    have hint : p.interest c.fd = some (ch, (heap ch).events) := by
      rw [hfd]
      exact h.interest_of_added hs
    have hs' := hi.trans hs
    rw [if_neg (by rw [hs']; decide), if_neg (by rw [hs']; decide), assert_pos (by simp [hreg]), ok_bind,
      assert_pos hreg, ok_bind, assert_pos hs', ok_bind]
    have hn : ¬(c.index = kNew ∨ c.index = kDeleted) := by
      rw [hs']
      decide
    cases hne : c.isNoneEvent with
    | true =>
      have hidx : updatedIndex c = kDeleted := by rw [updatedIndex, if_neg hn, hne, if_pos rfl]
      have hd : kDeleted ≠ kAdded := by decide
      simp only [if_true, update, ok_bind, hidx, ChannelHeap.set_set, registerAs, if_neg hd,
        ChannelMap.set_self _ _ _ hreg]
    | false =>
      have hidx : updatedIndex c = kAdded := by rw [updatedIndex, if_neg hn, hne, if_neg (by decide)]
      have hsame : { c with index := kAdded } = c := by rw [← hs']
      simp only [Bool.false_eq_true, if_false, if_true, update, hint, ok_bind, hidx, hsame, registerAs,
        ChannelMap.set_self _ _ _ hreg]
  · -- kDeleted
    have hreg : p.channels c.fd = some ch := by
      rw [hfd]
      exact h.registered ch (by rw [hs]; decide)
    have hint : p.interest c.fd = none := by
      rw [hfd]
      exact h.interest_of_deleted hs
    have hs' := hi.trans hs
    have hidx : updatedIndex c = kAdded := if_pos (Or.inr hs')
    rw [if_neg (by rw [hs']; decide), if_pos hs', assert_pos (by simp [hreg]), ok_bind, assert_pos hreg, ok_bind]
    simp only [update, hint, ok_bind, hidx, ChannelHeap.set_set, registerAs, if_true, ChannelMap.set_self _ _ _ hreg]

theorem removeChannel_eq (h : Mirrors p heap) (hc : p.channels (heap ch).fd = some ch)
    (c : Channel) (hfd : c.fd = (heap ch).fd) (hi : c.index = (heap ch).index) (hn : c.isNoneEvent = true) :
    p.removeChannel (heap.set ch c) ch =
      .ok (p.unregister c.fd, heap.set ch { c with index := kNew }) := by
  have hreg : p.channels c.fd = some ch := by rw [hfd, hc]
  have hs : c.index = kAdded ∨ c.index = kDeleted := by
    rw [hi]
    exact (h.status ch).resolve_left (h.owner _ _ hc).2
  unfold removeChannel
  rw [ChannelHeap.set_same]
  dsimp only
  rw [assert_pos (by simp [hreg]), ok_bind, assert_pos hreg, ok_bind, assert_pos hn, ok_bind, assert_pos hs, ok_bind]
  rcases hs with hs | hs
  · rw [if_pos hs]
    simp only [update, ok_bind, ChannelHeap.set_set, unregister]
  · have hint : p.interest c.fd = none := by
      rw [hfd]
      exact h.interest_of_deleted (hi.symm.trans hs)
    have hsame : p.interest = fun k => if k = c.fd then none else p.interest k := by
      funext k
      by_cases hk : k = c.fd
      · rw [if_pos hk, hk, hint]
      · rw [if_neg hk]
    rw [if_neg (by rw [hs]; decide), ok_bind, ChannelHeap.set_set, unregister, ← hsame]

theorem fillActiveChannels_eq {events : List (ℕ × BitVec 32)}
    (h : ∀ e ∈ events, p.channels (heap e.1).fd = some e.1) :
    p.fillActiveChannels heap events = .ok (heap.setRevents events, events.map Prod.fst) := by
  induction events generalizing heap with
  | nil => rfl
  | cons e rest ih =>
    obtain ⟨ch, mask⟩ := e
    have hch : p.channels (heap ch).fd = some ch := h (ch, mask) List.mem_cons_self
    have hrest := @ih (heap.set ch { heap ch with revents := mask }) fun e he => by
      have hf := heap.setRevents_fields e.1 [(ch, mask)]
      simp only [ChannelHeap.setRevents] at hf
      rw [hf.1]
      exact h e (List.mem_cons_of_mem _ he)
    rw [fillActiveChannels, assert_pos (by simp [hch]), ok_bind, assert_pos hch, ok_bind, hrest]
    rfl

theorem poll_eq {ready : List (ℤ × BitVec 32)} (h : Mirrors p heap) (hl : ready.length ≤ p.events) :
    ∃ p', p.poll heap ready = .ok (p', heap.setRevents (p.eventsOf ready), (p.eventsOf ready).map Prod.fst) ∧
      p'.channels = p.channels ∧ p'.interest = p.interest := by
  have hle : (p.eventsOf ready).length ≤ p.events := Nat.le_trans (List.length_filterMap_le _ _) hl
  have hch : ∀ e ∈ p.eventsOf ready, p.channels (heap e.1).fd = some e.1 := by
    intro e he
    obtain ⟨x, -, hx⟩ := List.mem_filterMap.mp he
    obtain ⟨entry, hentry, rfl⟩ := Option.map_eq_some_iff.mp hx
    obtain ⟨h1, h2⟩ := h.channel_of_interest hentry
    rw [h2, h1]
  unfold poll
  dsimp only
  by_cases h0 : 0 < (p.eventsOf ready).length
  · rw [if_pos h0, assert_pos hle, ok_bind, fillActiveChannels_eq hch, ok_bind]
    refine ⟨_, rfl, ?_⟩
    split_ifs <;> exact ⟨rfl, rfl⟩
  · rw [if_neg h0]
    have hnil : p.eventsOf ready = [] := List.eq_nil_of_length_eq_zero (by omega)
    rw [hnil]
    exact ⟨p, rfl, rfl, rfl⟩

end EPollPoller

namespace PollPoller

variable [Build] {p p' : PollPoller} {heap heap' : ChannelHeap} {ch : ℕ}

theorem updateChannel_revents (h : p.updateChannel heap ch = .ok (p', heap')) (r : ℕ) :
    (heap' r).revents = (heap r).revents := by
  unfold updateChannel at h
  dsimp only at h
  by_cases hi : (heap ch).index < 0
  · rw [if_pos hi] at h
    cases assert_bind_ok h
    exact ChannelHeap.set_field heap ch _ Channel.revents (by rfl) r
  · rw [if_neg hi] at h
    replace h := assert_bind_ok (assert_bind_ok (assert_bind_ok h))
    split at h
    · cases h
    · cases assert_bind_ok h
      rfl

theorem removeChannel_revents (h : p.removeChannel heap ch = .ok (p', heap')) (r : ℕ) :
    (heap' r).revents = (heap r).revents := by
  unfold removeChannel at h
  dsimp only at h
  replace h := assert_bind_ok (assert_bind_ok (assert_bind_ok (assert_bind_ok h)))
  by_cases hi : (heap ch).index < 0
  · rw [if_pos hi] at h
    cases h
  · rw [if_neg hi] at h
    split at h
    next pfd back _ _ =>
      replace h := assert_bind_ok h
      by_cases hl : (heap ch).index.toNat = p.pollfds.length - 1
      · rw [if_pos hl] at h
        cases h
        rfl
      · rw [if_neg hl] at h
        split at h
        · cases h
        · cases h
          exact ChannelHeap.set_field heap _ _ Channel.revents (by rfl) r
    · cases h

theorem poll_nothing (heap : ChannelHeap) {revents : List (BitVec 16)} (h : ∀ x ∈ p.pollfds.zip revents, x.2 = 0) :
    ∃ p', p.poll heap revents = .ok (p', []) := by
  have h0 : (p.pollfds.zipWith (fun pfd r => { pfd with revents := r }) revents).countP
      (fun pfd => pfd.revents ≠ 0) = 0 := by
    rw [← List.map_uncurry_zip_eq_zipWith, List.countP_eq_zero]
    intro pfd hpfd
    obtain ⟨x, hx, rfl⟩ := List.mem_map.mp hpfd
    simp [Function.uncurry_def, h x hx]
  unfold poll
  dsimp only
  rw [h0, if_neg (by omega)]
  exact ⟨_, rfl⟩

end PollPoller

end Networker
