import Mathlib.Data.Set.Card
import Networker.PollDelivery

/-!
The array of `PollPoller`. Every registered channel has one entry of `pollfds_`, found
through its `index_`; a removal moves the last entry into the gap.
-/

namespace Networker

open CheckedRuns

/-- The masks that `enableReading()` and its siblings leave behind. -/
def Channel.Mask (m : BitVec 32) : Prop := m = 0 ∨ m = kReadEvent ∨ m = kWriteEvent ∨ m = kReadEvent ||| kWriteEvent

theorem Channel.Mask.change {m : BitVec 32} (h : Mask m) (interest : Interest) : Mask (interest.mask m) := by
  unfold Mask
  rcases h with rfl | rfl | rfl | rfl <;> cases interest <;> decide

-- `pollfd` has a `short` for them
theorem Channel.Mask.signExtend {m : BitVec 32} (h : Mask m) : (m.truncate 16).signExtend 32 = m := by
  rcases h with rfl | rfl | rfl | rfl <;> decide

namespace PollPoller

/-- The descriptor that `updateChannel` leaves in an entry that is there. -/
def ignoredIfNone (c : Channel) : ℤ := if c.isNoneEvent then -c.fd - 1 else c.fd

/-- The entry of a channel. A channel may be added without events, and then `poll(2)` watches its descriptor; under
`strict` none is. -/
structure Entry (strict : Prop) (pfd : PollFd) (c : Channel) : Prop where
  fd : pfd.fd = c.fd ∨ pfd.fd = -c.fd - 1
  events : pfd.events.signExtend 32 = c.events
  ignored : strict → pfd.fd = ignoredIfNone c

structure Dense (strict : Prop) (p : PollPoller) (heap : ChannelHeap) : Prop where
  nonneg : ∀ ch, 0 ≤ (heap ch).fd
  masks : ∀ ch, Channel.Mask (heap ch).events
  owner : ∀ fd ch, p.channels fd = some ch → (heap ch).fd = fd
  entry : ∀ fd ch, p.channels fd = some ch →
    ∃ (i : ℕ) (pfd : PollFd), (heap ch).index = i ∧ p.pollfds[i]? = some pfd ∧ Entry strict pfd (heap ch)
  onto : ∀ i < p.pollfds.length, ∃ fd ch, p.channels fd = some ch ∧ (heap ch).index = i

variable {strict : Prop} {p : PollPoller} {heap : ChannelHeap} {ch : ℕ}

-- the negation is undone for every descriptor, 0 included
theorem Entry.fd_eq {pfd : PollFd} {c d : Channel} (hc : Entry strict pfd c) (hd : Entry strict pfd d) (hc0 : 0 ≤ c.fd)
    (hd0 : 0 ≤ d.fd) : c.fd = d.fd := by
  have h1 := hc.fd
  have h2 := hd.fd
  omega

theorem Entry.congr {pfd : PollFd} {c d : Channel} (h : Entry strict pfd c) (hfd : d.fd = c.fd)
    (he : d.events = c.events) : Entry strict pfd d := by
  constructor
  · rw [hfd]
    exact h.fd
  · rw [he]
    exact h.events
  · rw [ignoredIfNone, Channel.isNoneEvent, hfd, he]
    exact h.ignored

theorem Entry.atEnd {pfd : PollFd} {c : Channel} (h : Entry strict pfd c) (h0 : 0 ≤ c.fd) :
    (if pfd.fd < 0 then -pfd.fd - 1 else pfd.fd) = c.fd := by
  have h1 := h.fd
  split_ifs <;> omega

theorem Dense.index_inj (h : Dense strict p heap) {fd fd' : ℤ} {a b : ℕ} (ha : p.channels fd = some a)
    (hb : p.channels fd' = some b) (hi : (heap a).index = (heap b).index) : a = b := by
  obtain ⟨i, pfd, hia, hpa, hea⟩ := h.entry fd a ha
  obtain ⟨j, pfd', hjb, hpb, heb⟩ := h.entry fd' b hb
  have hij : i = j := by omega
  subst hij
  cases hpa.symm.trans hpb
  have hfd : fd = fd' := by
    rw [← h.owner fd a ha, ← h.owner fd' b hb]
    exact hea.fd_eq heb (h.nonneg a) (h.nonneg b)
  subst hfd
  exact Option.some.inj (ha.symm.trans hb)

theorem Dense.lt_length (h : Dense strict p heap) {fd : ℤ} (hc : p.channels fd = some ch) {i : ℕ}
    (hi : (heap ch).index = i) : i < p.pollfds.length := by
  obtain ⟨j, pfd, hj, hp, -⟩ := h.entry fd ch hc
  have hij : i = j := by omega
  subst hij
  exact (List.getElem?_eq_some_iff.mp hp).1

theorem Dense.congr (h : Dense strict p heap) {heap' : ChannelHeap}
    (hf : ∀ r, (heap' r).fd = (heap r).fd ∧ (heap' r).events = (heap r).events ∧ (heap' r).index = (heap r).index) :
    Dense strict p heap' := by
  constructor
  · intro r
    rw [(hf r).1]
    exact h.nonneg r
  · intro r
    rw [(hf r).2.1]
    exact h.masks r
  · intro fd r hr
    rw [(hf r).1]
    exact h.owner fd r hr
  · intro fd r hr
    obtain ⟨i, pfd, hi, hp, he⟩ := h.entry fd r hr
    exact ⟨i, pfd, (hf r).2.2.trans hi, hp, he.congr (hf r).1 (hf r).2.1⟩
  · intro i hi
    obtain ⟨fd, r, hr, hri⟩ := h.onto i hi
    exact ⟨fd, r, hr, (hf r).2.2.trans hri⟩

section Put

variable {c : Channel} {i : ℕ}

theorem put_inv (h : Dense strict p heap) (hfd : c.fd = (heap ch).fd) {fd : ℤ} {r : ℕ}
    (hr : p.channels.set c.fd (some ch) fd = some r) : (fd = c.fd ∧ r = ch) ∨ (r ≠ ch ∧ p.channels fd = some r) := by
  by_cases hk : fd = c.fd
  · subst hk
    rw [ChannelMap.set_same] at hr
    exact Or.inl ⟨rfl, (Option.some.inj hr).symm⟩
  · rw [ChannelMap.set_other _ _ _ hk] at hr
    refine Or.inr ⟨?_, hr⟩
    rintro rfl
    exact hk ((h.owner fd r hr).symm.trans hfd.symm)

theorem put_onto (h : Dense strict p heap) (hc : p.channels c.fd = none ∨ p.channels c.fd = some ch) (hi : c.index = i)
    (hslot : ∀ fd r, p.channels fd = some r → ((heap r).index = i ↔ r = ch)) {j : ℕ} (hj : j ≠ i → j < p.pollfds.length) :
    ∃ fd r, p.channels.set c.fd (some ch) fd = some r ∧ (heap.set ch c r).index = j := by
  by_cases hji : j = i
  · subst hji
    exact ⟨c.fd, ch, ChannelMap.set_same _ _ _, by rw [ChannelHeap.set_same, hi]⟩
  · obtain ⟨fd, r, hr, hidx⟩ := h.onto j (hj hji)
    have hrc : r ≠ ch := by
      intro hrc
      have hri := (hslot fd r hr).mpr hrc
      omega
    have hk : fd ≠ c.fd := by
      rintro rfl
      rcases hc with hc | hc
      · simp [hc] at hr
      · exact hrc (Option.some.inj (hr.symm.trans hc))
    refine ⟨fd, r, ?_, ?_⟩
    · rw [ChannelMap.set_other _ _ _ hk, hr]
    · rw [ChannelHeap.set_other _ _ _ hrc, hidx]

/-- A channel is registered in a slot of its own, the others stay where they are. -/
theorem Dense.put (h : Dense strict p heap) {p' : PollPoller} {pfd : PollFd}
    (hc : p.channels c.fd = none ∨ p.channels c.fd = some ch) (hfd : c.fd = (heap ch).fd) (hm : Channel.Mask c.events)
    (hi : c.index = i) (hpfd : p'.pollfds[i]? = some pfd) (he : Entry strict pfd c)
    (hchan : p'.channels = p.channels.set c.fd (some ch)) (hother : ∀ j, j ≠ i → p'.pollfds[j]? = p.pollfds[j]?)
    (hslot : ∀ fd r, p.channels fd = some r → ((heap r).index = i ↔ r = ch)) : Dense strict p' (heap.set ch c) := by
  constructor
  · intro r
    by_cases hr : r = ch
    · rw [hr, ChannelHeap.set_same, hfd]
      exact h.nonneg ch
    · rw [ChannelHeap.set_other _ _ _ hr]
      exact h.nonneg r
  · intro r
    by_cases hr : r = ch
    · rw [hr, ChannelHeap.set_same]
      exact hm
    · rw [ChannelHeap.set_other _ _ _ hr]
      exact h.masks r
  · intro fd r hr
    rw [hchan] at hr
    obtain ⟨rfl, rfl⟩ | ⟨hrc, hr⟩ := put_inv h hfd hr
    · rw [ChannelHeap.set_same]
    · rw [ChannelHeap.set_other _ _ _ hrc]
      exact h.owner fd r hr
  · intro fd r hr
    rw [hchan] at hr
    obtain ⟨rfl, rfl⟩ | ⟨hrc, hr⟩ := put_inv h hfd hr
    · rw [ChannelHeap.set_same]
      exact ⟨i, pfd, hi, hpfd, he⟩
    · obtain ⟨j, pfd', hj, hp, he'⟩ := h.entry fd r hr
      have hji : j ≠ i := by
        rintro rfl
        exact hrc ((hslot fd r hr).mp hj)
      rw [ChannelHeap.set_other _ _ _ hrc]
      exact ⟨j, pfd', hj, (hother j hji).trans hp, he'⟩
  · intro j hj
    rw [hchan]
    refine put_onto h hc hi hslot fun hji => ?_
    by_contra hge
    have hnone := (hother j hji).trans (List.getElem?_eq_none (by omega))
    have hle := List.getElem?_eq_none_iff.mp hnone
    omega

end Put

theorem Dense.add (h : Dense strict p heap) {c : Channel} (hc : p.channels c.fd = none) (hfd : c.fd = (heap ch).fd)
    (hm : Channel.Mask c.events) (hs : strict → c.isNoneEvent = false) :
    Dense strict ⟨p.channels.set c.fd (some ch), p.pollfds ++ [⟨c.fd, c.events.truncate 16, 0⟩]⟩
      (heap.set ch { c with index := p.pollfds.length }) := by
  refine h.put (c := { c with index := p.pollfds.length }) (i := p.pollfds.length) (Or.inl hc) hfd hm rfl
    List.getElem?_concat_length ⟨Or.inl rfl, hm.signExtend, ?_⟩ rfl ?_ ?_
  · intro hstrict
    exact (if_neg (by simpa [Channel.isNoneEvent] using hs hstrict)).symm
  · intro j hj
    by_cases hlt : j < p.pollfds.length
    · exact List.getElem?_append_left hlt
    · have hold : p.pollfds[j]? = none := List.getElem?_eq_none (by omega)
      rw [hold, List.getElem?_eq_none_iff]
      simp only [List.length_append, List.length_singleton]
      omega
  · intro fd r hr
    constructor
    · intro hi
      exact absurd (h.lt_length hr hi) (Nat.lt_irrefl _)
    · rintro rfl
      rw [hfd, h.owner fd r hr, hr] at hc
      cases hc

theorem Dense.update (h : Dense strict p heap) {c : Channel} {i : ℕ} (hc : p.channels c.fd = some ch)
    (hfd : c.fd = (heap ch).fd) (hm : Channel.Mask c.events) (hi : c.index = i) (hidx : (heap ch).index = i) :
    Dense strict { p with pollfds := p.pollfds.set i ⟨ignoredIfNone c, c.events.truncate 16, 0⟩ } (heap.set ch c) := by
  have hlt := h.lt_length hc hidx
  have hpfd : ignoredIfNone c = c.fd ∨ ignoredIfNone c = -c.fd - 1 := by
    unfold ignoredIfNone
    split_ifs <;> simp
  refine h.put (Or.inr hc) hfd hm hi (List.getElem?_set_self hlt) ⟨hpfd, hm.signExtend, fun _ => rfl⟩ ?_ ?_ ?_
  · exact (ChannelMap.set_self _ _ _ hc).symm
  · intro j hj
    exact List.getElem?_set_ne (Ne.symm hj)
  · intro fd r hr
    constructor
    · intro hri
      exact h.index_inj hr hc (hri.trans hidx.symm)
    · rintro rfl
      exact hidx

section Gap

variable {α : Type} {l : List α} {i j : ℕ} {a : α}

theorem getElem?_gap (hi : i < l.length - 1) : (l.set i a).dropLast[i]? = some a := by
  rw [List.getElem?_dropLast, List.length_set, if_pos hi, List.getElem?_set_self (by omega)]

theorem getElem?_kept (hji : j ≠ i) (hj : j < l.length - 1) : (l.set i a).dropLast[j]? = l[j]? := by
  rw [List.getElem?_dropLast, List.length_set, if_pos hj, List.getElem?_set_ne (Ne.symm hji)]

end Gap

section Remove

variable {idx last : ℕ} {fd : ℤ} {back : PollFd}

theorem remove_inv (h : Dense strict p heap) {k : ℤ} {r : ℕ}
    (hr : p.channels.set (heap ch).fd none k = some r) : r ≠ ch ∧ p.channels k = some r := by
  have hk : k ≠ (heap ch).fd := by
    rintro rfl
    simp at hr
  rw [ChannelMap.set_other _ _ _ hk] at hr
  refine ⟨?_, hr⟩
  rintro rfl
  exact hk (h.owner k r hr).symm

/-- Every channel that stays has an entry; the one at the end of the array now has the slot of the removed one. -/
theorem remove_entry (h : Dense strict p heap) (hc : p.channels (heap ch).fd = some ch) (hidx : (heap ch).index = idx)
    (hlast : p.channels fd = some last) (hend : (heap last).index = (p.pollfds.length - 1 : ℕ))
    (hback : p.pollfds[p.pollfds.length - 1]? = some back) {k : ℤ} {r : ℕ} (hr : p.channels k = some r) (hrc : r ≠ ch) :
    ∃ (i : ℕ) (pfd : PollFd), (heap.set last { heap last with index := idx } r).index = i ∧
      (p.pollfds.set idx back).dropLast[i]? = some pfd ∧
      Entry strict pfd (heap.set last { heap last with index := idx } r) := by
  obtain ⟨j, pfd, hj, hp, he⟩ := h.entry k r hr
  by_cases hrl : r = last
  · subst hrl
    have hne : idx ≠ p.pollfds.length - 1 := by
      rintro rfl
      exact hrc (h.index_inj hr hc (hend.trans hidx.symm))
    have hlt := h.lt_length hc hidx
    obtain rfl : j = p.pollfds.length - 1 := by omega
    obtain rfl := Option.some.inj (hback.symm.trans hp)
    rw [ChannelHeap.set_same]
    exact ⟨idx, back, rfl, getElem?_gap (by omega), he.congr rfl rfl⟩
  · have hji : j ≠ idx := by
      rintro rfl
      exact hrc (h.index_inj hr hc (hj.trans hidx.symm))
    have hjl : j ≠ p.pollfds.length - 1 := by
      rintro rfl
      exact hrl (h.index_inj hr hlast (hj.trans hend.symm))
    have hlt := h.lt_length hr hj
    rw [ChannelHeap.set_other _ _ _ hrl]
    exact ⟨j, pfd, hj, (getElem?_kept hji (by omega)).trans hp, he⟩

theorem remove_onto (h : Dense strict p heap) (hc : p.channels (heap ch).fd = some ch) (hidx : (heap ch).index = idx)
    (hlast : p.channels fd = some last) (hend : (heap last).index = (p.pollfds.length - 1 : ℕ)) {i : ℕ}
    (hi : i < p.pollfds.length - 1) :
    ∃ k r, p.channels.set (heap ch).fd none k = some r ∧ (heap.set last { heap last with index := idx } r).index = i := by
  have hstays : ∀ k r, p.channels k = some r → r ≠ ch → p.channels.set (heap ch).fd none k = some r := by
    intro k r hr hrc
    rw [ChannelMap.set_other, hr]
    rintro rfl
    exact hrc (Option.some.inj (hr.symm.trans hc))
  by_cases hii : i = idx
  · have hrc : last ≠ ch := by
      rintro rfl
      omega
    exact ⟨fd, last, hstays fd last hlast hrc, by rw [ChannelHeap.set_same, hii]⟩
  · obtain ⟨k, r, hr, hri⟩ := h.onto i (by omega)
    have hrc : r ≠ ch := by
      rintro rfl
      omega
    have hrl : r ≠ last := by
      rintro rfl
      omega
    exact ⟨k, r, hstays k r hr hrc, by rw [ChannelHeap.set_other _ _ _ hrl, hri]⟩

/-- The channel at the end of the array moves into the slot of the one that is removed. -/
theorem Dense.remove (h : Dense strict p heap) (hc : p.channels (heap ch).fd = some ch) (hidx : (heap ch).index = idx)
    (hlast : p.channels fd = some last) (hend : (heap last).index = (p.pollfds.length - 1 : ℕ))
    (hback : p.pollfds[p.pollfds.length - 1]? = some back) :
    Dense strict ⟨p.channels.set (heap ch).fd none, (p.pollfds.set idx back).dropLast⟩
      (heap.set last { heap last with index := idx }) := by
  have hfd := heap.set_field last { heap last with index := idx } Channel.fd rfl
  have hevents := heap.set_field last { heap last with index := idx } Channel.events rfl
  constructor
  · intro r
    rw [hfd r]
    exact h.nonneg r
  · intro r
    rw [hevents r]
    exact h.masks r
  · intro k r hr
    obtain ⟨-, hr⟩ := remove_inv h hr
    rw [hfd r]
    exact h.owner k r hr
  · intro k r hr
    obtain ⟨hrc, hr⟩ := remove_inv h hr
    exact remove_entry h hc hidx hlast hend hback hr hrc
  · intro i hi
    simp only [List.length_dropLast, List.length_set] at hi
    exact remove_onto h hc hidx hlast hend hi

end Remove

/-- `poll(2)` writes `revents` only. -/
theorem Dense.answered (h : Dense strict p heap) {revents : List (BitVec 16)}
    (hl : revents.length = p.pollfds.length) :
    Dense strict { p with pollfds := p.pollfds.zipWith (fun pfd r => { pfd with revents := r }) revents } heap := by
  constructor
  · exact h.nonneg
  · exact h.masks
  · exact h.owner
  · intro fd r hr
    obtain ⟨i, pfd, hi, hp, he⟩ := h.entry fd r hr
    have hlt := h.lt_length hr hi
    have hri : revents[i]? = some (revents.get ⟨i, by omega⟩) := List.getElem?_eq_getElem (by omega)
    refine ⟨i, { pfd with revents := revents.get ⟨i, by omega⟩ }, hi, ?_, he.fd, he.events, he.ignored⟩
    simp only [List.getElem?_zipWith, hp, hri]
  · intro i hi
    simp only [List.length_zipWith, hl, Nat.min_self] at hi
    exact h.onto i hi

variable [Build]

theorem updateChannel_new {c : Channel} (hc : p.channels c.fd = none) (hi : c.index < 0) :
    p.updateChannel (heap.set ch c) ch =
      .ok (⟨p.channels.set c.fd (some ch), p.pollfds ++ [⟨c.fd, c.events.truncate 16, 0⟩]⟩,
        heap.set ch { c with index := p.pollfds.length }) := by
  unfold updateChannel
  rw [ChannelHeap.set_same]
  dsimp only
  rw [if_pos hi, assert_pos hc, ok_bind, ChannelHeap.set_set]
  simp

theorem updateChannel_registered (h : Dense strict p heap) {c : Channel} (hc : p.channels c.fd = some ch)
    (hfd : c.fd = (heap ch).fd) {i : ℕ} (hi : c.index = i) (hidx : (heap ch).index = i) :
    p.updateChannel (heap.set ch c) ch =
      .ok ({ p with pollfds := p.pollfds.set i ⟨ignoredIfNone c, c.events.truncate 16, 0⟩ }, heap.set ch c) := by
  obtain ⟨j, pfd, hj, hp, he⟩ := h.entry c.fd ch hc
  have hij : j = i := by omega
  subst hij
  have hlt := h.lt_length hc hidx
  have hentry : pfd.fd = c.fd ∨ pfd.fd = -c.fd - 1 := by
    rw [hfd]
    exact he.fd
  unfold updateChannel
  rw [ChannelHeap.set_same]
  dsimp only
  have hneg : ¬c.index < 0 := by omega
  have hrange : c.index < p.pollfds.length := by omega
  have hnat : c.index.toNat = j := by omega
  rw [if_neg hneg, assert_pos (by simp [hc]), ok_bind, assert_pos hc, ok_bind, assert_pos hrange, ok_bind, hnat, hp]
  dsimp only
  rw [assert_pos hentry, ok_bind]
  rfl

/-- What is left of `removeChannel` are the assertions about the events of the channel. -/
theorem removeChannel_eq (h : Dense strict p heap) {idx : ℕ} (hc : p.channels (heap ch).fd = some ch)
    (hidx : (heap ch).index = idx) :
    ∃ fd last back pfd, p.channels fd = some last ∧ (heap last).index = (p.pollfds.length - 1 : ℕ) ∧
      p.pollfds[p.pollfds.length - 1]? = some back ∧ p.pollfds[idx]? = some pfd ∧ Entry strict pfd (heap ch) ∧
      p.removeChannel heap ch = (do
        assert ((heap ch).isNoneEvent = true)
        assert (pfd.fd = -(heap ch).fd - 1 ∧ pfd.events.signExtend 32 = (heap ch).events)
        .ok (⟨p.channels.set (heap ch).fd none, (p.pollfds.set idx back).dropLast⟩,
          heap.set last { heap last with index := idx })) := by
  have hlt := h.lt_length hc hidx
  obtain ⟨fd, last, hlast, hend⟩ := h.onto (p.pollfds.length - 1) (by omega)
  obtain ⟨j, back, hj, hback, he⟩ := h.entry fd last hlast
  obtain ⟨k, pfd, hk, hpfd, hentry⟩ := h.entry (heap ch).fd ch hc
  have hjl : j = p.pollfds.length - 1 := by omega
  have hki : k = idx := by omega
  subst hjl hki
  refine ⟨fd, last, back, pfd, hlast, hend, hback, hpfd, hentry, ?_⟩
  have hrange : 0 ≤ (heap ch).index ∧ (heap ch).index < p.pollfds.length := by omega
  have hneg : ¬(heap ch).index < 0 := by omega
  have hnat : (heap ch).index.toNat = k := by omega
  have hatEnd := he.atEnd (h.nonneg last)
  rw [h.owner fd last hlast] at hatEnd
  unfold removeChannel
  dsimp only
  rw [assert_pos (by simp [hc]), ok_bind, assert_pos hc, ok_bind, assert_pos hrange, ok_bind, if_neg hneg, hnat, hpfd,
    List.getLast?_eq_getElem?, hback]
  dsimp only
  rw [hatEnd]
  by_cases hl : k = p.pollfds.length - 1
  · -- the entry is the last one and the channel keeps its index
    have hsame : last = ch := h.index_inj hlast hc (hend.trans (by rw [hidx, hl]))
    subst hsame
    have hset : p.pollfds.set k back = p.pollfds := by
      rw [← hl] at hback
      obtain ⟨_, rfl⟩ := List.getElem?_eq_some_iff.mp hback
      exact List.set_getElem_self _
    have hchan : { heap last with index := (k : ℤ) } = heap last := by rw [← hidx]
    rw [if_pos hl, hset, hchan, ChannelHeap.set_self]
  · have hne : fd ≠ (heap ch).fd := by
      rintro rfl
      cases hlast.symm.trans hc
      omega
    rw [if_neg hl, ChannelMap.set_other _ _ _ hne, hlast]

end PollPoller

end Networker
