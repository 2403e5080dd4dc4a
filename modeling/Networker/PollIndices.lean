import Networker.PollArray

/-!
Runs of a `PollPoller` in which no channel comes back after its removal. `removeChannel`
leaves the index of the removed channel as it is, so that a channel with an index is
either registered or one of those.
-/

namespace Networker

open CheckedRuns

namespace Polling

open PollPoller

/-- A descriptor has at most one channel registered, and only a registered channel is removed. -/
def Registering (s : Polling) : Step → Prop
  | .change ch _ => s.channels (s.heap ch).fd = none ∨ s.channels (s.heap ch).fd = some ch
  | .remove ch => s.channels (s.heap ch).fd = some ch
  | .wait answer => s.poller.Answers answer

instance (s : Polling) : (i : Step) → Decidable (s.Registering i)
  | .change _ _ => inferInstanceAs (Decidable (_ ∨ _))
  | .remove _ => inferInstanceAs (Decidable (_ = _))
  | .wait answer => inferInstanceAs (Decidable (s.poller.Answers answer))

/-- No channel is updated again after its removal. -/
def NoReuse (steps : List Step) : Prop :=
  steps.Pairwise fun i j => ∀ ch interest, i = .remove ch → j ≠ .change ch interest

theorem NoReuse.snoc {steps : List Step} {i : Step} (h : NoReuse (steps ++ [i])) :
    NoReuse steps ∧ ∀ ch interest, i = .change ch interest → .remove ch ∉ steps := by
  obtain ⟨hsteps, -, hi⟩ := List.pairwise_append.mp h
  refine ⟨hsteps, ?_⟩
  rintro ch interest rfl hmem
  exact hi _ hmem _ (List.mem_singleton_self _) ch interest rfl rfl

/-- A channel that has an index is registered or has been removed. -/
def Kept (removed : List Step) (p : PollPoller) (heap : ChannelHeap) : Prop :=
  ∀ ch, 0 ≤ (heap ch).index → p.channels (heap ch).fd = some ch ∨ .remove ch ∈ removed

section Steps

variable {strict : Prop} {p : PollPoller} {heap : ChannelHeap} {ch : ℕ}

-- a channel that was never removed and is not registered is new
theorem Kept.slot {steps : List Step} (hk : Kept steps p heap)
    (hc : p.channels (heap ch).fd = none ∨ p.channels (heap ch).fd = some ch) (hno : .remove ch ∉ steps) :
    p.channels (heap ch).fd = none ∧ (heap ch).index < 0 ∨ p.channels (heap ch).fd = some ch := by
  rcases hc with hnone | hreg
  · left
    refine ⟨hnone, ?_⟩
    by_contra hge
    rcases hk ch (by omega) with hreg | hrem
    · exact Option.some_ne_none _ (hreg.symm.trans hnone)
    · exact hno hrem
  · exact Or.inr hreg

theorem Kept.change {steps : List Step} (hk : Kept steps p heap)
    (hc : p.channels (heap ch).fd = none ∨ p.channels (heap ch).fd = some ch) {q : PollPoller} {c : Channel}
    (hchan : q.channels = p.channels.set (heap ch).fd (some ch)) (hcfd : c.fd = (heap ch).fd) (i : Step) :
    Kept (steps ++ [i]) q (heap.set ch c) := by
  intro r hr
  rw [hchan]
  by_cases hrc : r = ch
  · left
    rw [hrc, ChannelHeap.set_same, hcfd, ChannelMap.set_same]
  · rw [ChannelHeap.set_other _ _ _ hrc] at hr ⊢
    rcases hk r hr with hreg | hrem
    · left
      have hne : (heap r).fd ≠ (heap ch).fd := by
        intro he
        rw [he] at hreg
        rcases hc with hc | hc
        · simp [hc] at hreg
        · exact hrc (Option.some.inj (hreg.symm.trans hc))
      rw [ChannelMap.set_other _ _ _ hne, hreg]
    · exact Or.inr (List.mem_append_left _ hrem)

theorem Kept.remove {steps : List Step} (hk : Kept steps p heap) (hc : p.channels (heap ch).fd = some ch)
    {q : PollPoller} {heap' : ChannelHeap} (hchan : q.channels = p.channels.set (heap ch).fd none)
    (hfd : ∀ r, (heap' r).fd = (heap r).fd)
    (hidx : ∀ r, p.channels (heap r).fd ≠ some r → (heap' r).index = (heap r).index) :
    Kept (steps ++ [.remove ch]) q heap' := by
  intro r hr
  by_cases hrc : r = ch
  · right
    simp [hrc]
  · by_cases hreg : p.channels (heap r).fd = some r
    · left
      have hne : (heap r).fd ≠ (heap ch).fd := by
        intro he
        rw [he, hc] at hreg
        exact hrc (Option.some.inj hreg).symm
      rw [hchan, hfd r, ChannelMap.set_other _ _ _ hne, hreg]
    · rw [hidx r hreg] at hr
      right
      exact List.mem_append_left _ ((hk r hr).resolve_left hreg)

variable [Build]

theorem poll_change (h : Dense strict p heap) (interest : Channel.Interest)
    (hc : p.channels (heap ch).fd = none ∧ (heap ch).index < 0 ∨ p.channels (heap ch).fd = some ch)
    (hs : strict → p.channels (heap ch).fd = none → interest.mask (heap ch).events ≠ 0) :
    ∃ q c, step ⟨heap, .poll p⟩ (.change ch interest) = .ok ⟨heap.set ch c, .poll q⟩ ∧
      Dense strict q (heap.set ch c) ∧ q.channels = p.channels.set (heap ch).fd (some ch) ∧
      c.fd = (heap ch).fd ∧ c.events = interest.mask (heap ch).events := by
  obtain ⟨c, hfd, hevents, hindex, hstep⟩ : ∃ c : Channel, c.fd = (heap ch).fd ∧
      c.events = interest.mask (heap ch).events ∧ c.index = (heap ch).index ∧
      ∀ q heap', p.updateChannel (heap.set ch c) ch = .ok (q, heap') →
        step ⟨heap, .poll p⟩ (.change ch interest) = .ok ⟨heap', .poll q⟩ := by
    refine ⟨{ heap ch with events := interest.mask (heap ch).events, addedToLoop := true }, rfl, rfl, rfl, ?_⟩
    intro q heap' hu
    simp only [step, change, updateChannel, hu, ok_bind]
  have hm : Channel.Mask c.events := by
    rw [hevents]
    exact (h.masks ch).change interest
  rw [← hfd] at hc hs ⊢
  rw [← hevents] at hs ⊢
  rcases hc with ⟨hnone, hi⟩ | hreg
  · refine ⟨_, _, hstep _ _ (updateChannel_new hnone (hindex ▸ hi)), h.add hnone hfd hm ?_, rfl, rfl, rfl⟩
    intro hstrict
    simpa [Channel.isNoneEvent, Channel.kNoneEvent] using hs hstrict hnone
  · obtain ⟨i, -, hi, -, -⟩ := h.entry _ ch hreg
    have hci := hindex.trans hi
    refine ⟨_, _, hstep _ _ (updateChannel_registered h hreg hfd hci hi), h.update hreg hfd hm hci hi, ?_, rfl, rfl⟩
    exact (ChannelMap.set_self _ _ _ hreg).symm

theorem poll_remove (h : Dense strict p heap) (hc : p.channels (heap ch).fd = some ch) :
    ∃ q heap' pfd, Entry strict pfd (heap ch) ∧
      step ⟨heap, .poll p⟩ (.remove ch) = (do
        assert ((heap ch).isNoneEvent = true)
        assert ((heap ch).isNoneEvent = true)
        assert (pfd.fd = -(heap ch).fd - 1 ∧ pfd.events.signExtend 32 = (heap ch).events)
        .ok ⟨heap', .poll q⟩) ∧
      Dense strict q heap' ∧ q.channels = p.channels.set (heap ch).fd none ∧
      (∀ r, (heap' r).fd = (heap r).fd ∧ (heap' r).events = (heap r).events) ∧
      ∀ r, p.channels (heap r).fd ≠ some r → (heap' r).index = (heap r).index := by
  obtain ⟨mid, hf, hstep⟩ : ∃ mid : ChannelHeap,
      (∀ r, (mid r).fd = (heap r).fd ∧ (mid r).events = (heap r).events ∧ (mid r).index = (heap r).index) ∧
      step ⟨heap, .poll p⟩ (.remove ch) = (do
        assert ((heap ch).isNoneEvent = true)
        let x ← p.removeChannel mid ch
        .ok ⟨x.2, .poll x.1⟩) := by
    refine ⟨heap.set ch { heap ch with addedToLoop := false }, fun r => ⟨?_, ?_, ?_⟩, rfl⟩
    · exact heap.set_field ch _ Channel.fd (by rfl) r
    · exact heap.set_field ch _ Channel.events (by rfl) r
    · exact heap.set_field ch _ Channel.index (by rfl) r
  have hmid := h.congr hf
  obtain ⟨idx, -, hidx, -, -⟩ := h.entry _ ch hc
  rw [← (hf ch).1] at hc
  rw [← (hf ch).2.2] at hidx
  obtain ⟨fd, last, back, pfd, hlast, hend, hback, -, hentry, hu⟩ := removeChannel_eq hmid hc hidx
  have hnone : (mid ch).isNoneEvent = (heap ch).isNoneEvent := by
    unfold Channel.isNoneEvent
    rw [(hf ch).2.1]
  refine ⟨_, _, pfd, hentry.congr (hf ch).1.symm (hf ch).2.1.symm, ?_, hmid.remove hc hidx hlast hend hback, ?_, ?_, ?_⟩
  · rw [hstep, hu]
    simp only [hnone, (hf ch).1, (hf ch).2.1, bind_assoc, ok_bind]
  · rw [(hf ch).1]
  · intro r
    constructor
    · exact (mid.set_field last _ Channel.fd (by rfl) r).trans (hf r).1
    · exact (mid.set_field last _ Channel.events (by rfl) r).trans (hf r).2.1
  · intro r hr
    have hrl : r ≠ last := by
      rintro rfl
      apply hr
      rw [← (hf r).1, hmid.owner fd r hlast, hlast]
    rw [ChannelHeap.set_other _ _ _ hrl]
    exact (hf r).2.2

theorem poll_wait (h : Dense strict p heap) {answer : Wait} (ha : (Poller.poll p).Answers answer) {t : Polling}
    (ht : step ⟨heap, .poll p⟩ (.wait answer) = .ok t) :
    ∃ q, t = ⟨heap, .poll q⟩ ∧ Dense strict q heap ∧ q.channels = p.channels := by
  cases answer with
  | failed =>
    cases ht
    exact ⟨p, rfl, h, rfl⟩
  | epoll ready => exact ha.elim
  | poll revents =>
    obtain ⟨⟨u, active⟩, hw, ht⟩ := bind_eq_ok.mp ht
    obtain ⟨⟨q, a⟩, hq, hw⟩ := bind_eq_ok.mp hw
    cases ht
    cases hw
    have hd := h.answered ha.1
    unfold PollPoller.poll at hq
    dsimp only at hq
    split_ifs at hq
    · obtain ⟨_, -, hq⟩ := bind_eq_ok.mp hq
      cases hq
      exact ⟨_, rfl, hd, rfl⟩
    · cases hq
      exact ⟨_, rfl, hd, rfl⟩

/-- The invariant of a run of a `PollPoller`. -/
def Packed (steps : List Step) (s : Polling) : Prop :=
  ∃ p heap, s = ⟨heap, .poll p⟩ ∧ Dense False p heap ∧ Kept steps p heap

theorem Packed.step {steps : List Step} {s t : Polling} (h : Packed steps s) {i : Step} (hi : s.Registering i)
    (hno : ∀ ch interest, i = .change ch interest → .remove ch ∉ steps) (ht : s.step i = .ok t) :
    Packed (steps ++ [i]) t := by
  obtain ⟨p, heap, rfl, hd, hk⟩ := h
  cases i with
  | change ch interest =>
    have hc := hk.slot hi (hno ch interest rfl)
    obtain ⟨q, c, hq, hd', hchan, hcfd, -⟩ := poll_change hd _ hc False.elim
    cases hq.symm.trans ht
    exact ⟨q, _, rfl, hd', hk.change hi hchan hcfd _⟩
  | remove ch =>
    obtain ⟨q, heap', pfd, -, hq, hd', hchan, hf, hidx⟩ := poll_remove hd hi
    cases assert_bind_ok (assert_bind_ok (assert_bind_ok (hq.symm.trans ht)))
    exact ⟨q, heap', rfl, hd', hk.remove hi hchan (fun r => (hf r).1) hidx⟩
  | wait answer =>
    obtain ⟨q, rfl, hd', hchan⟩ := poll_wait hd hi ht
    refine ⟨q, heap, rfl, hd', ?_⟩
    intro r hr
    rw [hchan]
    exact (hk r hr).imp_right (List.mem_append_left _)

end Steps

def Registered (s : Polling) (ch : ℕ) : Prop := s.channels (s.heap ch).fd = some ch

end Polling

end Networker
