import Mathlib.Data.List.Nodup
import Networker.PollerSpecs

/-!
What a wait hands to the event loop. `EPollPoller` copies the reported mask into
every channel it activates, `PollPoller` activates channels but never calls
`set_revents`.
-/

namespace Networker

open CheckedRuns

/-- What the kernel can answer: an ignored entry of `poll(2)` reports nothing, and `epoll_wait(2)`
reports descriptors of the interest list, each at most once and no more than fit into `events_`. -/
def Poller.Answers : Poller → Wait → Prop
  | _, .failed => True
  | .poll p, .poll revents =>
    revents.length = p.pollfds.length ∧ ∀ x ∈ p.pollfds.zip revents, 0 ≤ x.2.toInt ∧ (x.1.fd < 0 → x.2 = 0)
  | .epoll p, .epoll ready =>
    (ready.map Prod.fst).Nodup ∧ (∀ x ∈ ready, p.interest x.1 ≠ none ∧ x.2 ≠ 0) ∧ ready.length ≤ p.events
  | .poll _, .epoll _ => False
  | .epoll _, .poll _ => False

instance : (p : Poller) → (answer : Wait) → Decidable (p.Answers answer)
  | .poll _, .failed => inferInstanceAs (Decidable True)
  | .epoll _, .failed => inferInstanceAs (Decidable True)
  | .poll _, .poll _ => inferInstanceAs (Decidable (_ ∧ _))
  | .epoll _, .epoll _ => inferInstanceAs (Decidable (_ ∧ _ ∧ _))
  | .poll _, .epoll _ => inferInstanceAs (Decidable False)
  | .epoll _, .poll _ => inferInstanceAs (Decidable False)

namespace Polling

/-- A descriptor has at most one channel registered, and only a registered channel without events is removed. -/
def Enabled (s : Polling) : Step → Prop
  | .change ch _ => s.channels (s.heap ch).fd = none ∨ s.channels (s.heap ch).fd = some ch
  | .remove ch => s.channels (s.heap ch).fd = some ch ∧ (s.heap ch).isNoneEvent = true
  | .wait answer => s.poller.Answers answer

instance (s : Polling) : (i : Step) → Decidable (s.Enabled i)
  | .change _ _ => inferInstanceAs (Decidable (_ ∨ _))
  | .remove _ => inferInstanceAs (Decidable (_ ∧ _))
  | .wait answer => inferInstanceAs (Decidable (s.poller.Answers answer))

def reported (s : Polling) (answer : Wait) : List (ℤ × BitVec 32) :=
  match s.poller, answer with
  | .poll p, .poll revents =>
    ((p.pollfds.zip revents).filter fun x => x.2 ≠ 0).map fun x => (x.1.fd, x.2.zeroExtend 32)
  | .epoll _, .epoll ready => ready
  | _, _ => []

def isEPoll (s : Polling) : Bool :=
  match s.poller with
  | .poll _ => false
  | .epoll _ => true

/-- The wait succeeds, its active channels are those of the reported descriptors, each once, and
each has the reported mask in `revents_`. -/
def Delivered [Build] (s : Polling) (answer : Wait) : Prop :=
  ∃ t active, s.wait answer = .ok (t, active) ∧ active.Nodup ∧
    (∀ ch ∈ active, t.channels (t.heap ch).fd = some ch) ∧
    (active.map fun ch => ((t.heap ch).fd, (t.heap ch).revents)).Perm (s.reported answer)

/-- The invariant of each poller; with `poll(2)` nothing ever writes `revents_`. -/
def Consistent (s : Polling) : Prop :=
  match s.poller with
  | .poll _ => ∀ ch, (s.heap ch).revents = 0
  | .epoll p => p.Mirrors s.heap

theorem newPollPoller_consistent (fd : ℕ → ℤ) : (newPollPoller fd).Consistent := fun _ => rfl

theorem newEPollPoller_consistent (fd : ℕ → ℤ) : (newEPollPoller fd).Consistent where
  status _ := Or.inl rfl
  registered _ h := absurd rfl h
  owner _ _ h := by cases h
  watched _ := rfl

theorem eventsOf_fds {p : EPollPoller} {heap : ChannelHeap} (h : p.Mirrors heap)
    {ready : List (ℤ × BitVec 32)} (hi : ∀ x ∈ ready, p.interest x.1 ≠ none) :
    (p.eventsOf ready).map (fun e => ((heap e.1).fd, e.2)) = ready := by
  induction ready with
  | nil => rfl
  | cons x rest ih =>
    obtain ⟨entry, he⟩ := Option.ne_none_iff_exists'.mp (hi x List.mem_cons_self)
    have hx : p.eventsOf (x :: rest) = (entry.1, x.2) :: p.eventsOf rest := by
      simp [EPollPoller.eventsOf, he]
    rw [hx, List.map_cons, ih fun y hy => hi y (List.mem_cons_of_mem _ hy), (h.channel_of_interest he).2]

section Delivery

variable [Build] {s t : Polling}

theorem change_consistent {ch : ℕ} {interest : Channel.Interest} (h : s.Consistent)
    (hc : s.channels (s.heap ch).fd = none ∨ s.channels (s.heap ch).fd = some ch)
    (hs : s.change ch interest = .ok t) : t.Consistent := by
  obtain ⟨heap, _ | p⟩ := s
  · obtain ⟨⟨p', heap'⟩, hu, ht⟩ := bind_eq_ok.mp hs
    cases ht
    intro r
    exact (PollPoller.updateChannel_revents hu r).trans ((ChannelHeap.set_field heap ch _ Channel.revents (by rfl) r).trans (h r))
  · have hu := EPollPoller.updateChannel_eq h hc
      { heap ch with events := interest.mask (heap ch).events, addedToLoop := true } rfl rfl
    obtain ⟨⟨p', heap'⟩, hu', ht⟩ := bind_eq_ok.mp hs
    cases ht
    cases hu.symm.trans hu'
    exact EPollPoller.registerAs_mirrors h hc rfl (EPollPoller.updatedIndex_cases _)

theorem remove_consistent {ch : ℕ} (h : s.Consistent) (hc : s.channels (s.heap ch).fd = some ch)
    (hn : (s.heap ch).isNoneEvent = true) (hs : s.remove ch = .ok t) : t.Consistent := by
  replace hs := assert_bind_ok hs
  obtain ⟨heap, _ | p⟩ := s
  · obtain ⟨⟨p', heap'⟩, hu, ht⟩ := bind_eq_ok.mp hs
    cases ht
    intro r
    exact (PollPoller.removeChannel_revents hu r).trans ((ChannelHeap.set_field heap ch _ Channel.revents (by rfl) r).trans (h r))
  · have hu := EPollPoller.removeChannel_eq h hc { heap ch with addedToLoop := false } rfl rfl hn
    obtain ⟨⟨p', heap'⟩, hu', ht⟩ := bind_eq_ok.mp hs
    cases ht
    cases hu.symm.trans hu'
    exact EPollPoller.unregister_mirrors h hc _ rfl

theorem wait_poll_heap {p : PollPoller} {heap : ChannelHeap} {answer : Wait} {active : List ℕ}
    (h : wait ⟨heap, .poll p⟩ answer = .ok (t, active)) : t.heap = heap ∧ t.isEPoll = false := by
  cases answer with
  | failed =>
    cases h
    exact ⟨rfl, rfl⟩
  | epoll ready =>
    cases h
    exact ⟨rfl, rfl⟩
  | poll revents =>
    obtain ⟨⟨p', a⟩, -, ht⟩ := bind_eq_ok.mp h
    cases ht
    exact ⟨rfl, rfl⟩

theorem wait_epoll_eq {p : EPollPoller} {heap : ChannelHeap} {ready : List (ℤ × BitVec 32)}
    (h : p.Mirrors heap) (hl : ready.length ≤ p.events) :
    ∃ p', wait ⟨heap, .epoll p⟩ (.epoll ready) =
        .ok (⟨heap.setRevents (p.eventsOf ready), .epoll p'⟩, (p.eventsOf ready).map Prod.fst) ∧
      p'.channels = p.channels ∧ p'.interest = p.interest := by
  obtain ⟨p', hp, hc, hi⟩ := EPollPoller.poll_eq h hl
  refine ⟨p', ?_, hc, hi⟩
  simp only [wait, hp, ok_bind]

theorem wait_consistent {answer : Wait} (h : s.Consistent) (ha : s.poller.Answers answer)
    {active : List ℕ} (hs : s.wait answer = .ok (t, active)) : t.Consistent := by
  obtain ⟨heap, p | p⟩ := s
  · obtain ⟨hh, hp⟩ := wait_poll_heap hs
    obtain ⟨heap', p' | p'⟩ := t
    · cases hh
      exact h
    · cases hp
  · cases answer with
    | failed =>
      cases hs
      exact h
    | poll revents => exact ha.elim
    | epoll ready =>
      obtain ⟨p', hw, hc, hi⟩ := wait_epoll_eq h ha.2.2
      cases hw.symm.trans hs
      exact EPollPoller.Mirrors.congr h (fun r => heap.setRevents_fields r _) hc hi

theorem step_consistent {i : Step} (h : s.Consistent) (ha : s.Enabled i) (hs : s.step i = .ok t) :
    t.Consistent := by
  cases i with
  | change ch interest => exact change_consistent h ha hs
  | remove ch => exact remove_consistent h ha.1 ha.2 hs
  | wait answer =>
    obtain ⟨⟨u, active⟩, hw, hu⟩ := bind_eq_ok.mp hs
    cases hu
    exact wait_consistent h ha hw

theorem epoll_delivered {p : EPollPoller} {heap : ChannelHeap} {ready : List (ℤ × BitVec 32)}
    (h : p.Mirrors heap) (ha : (Poller.epoll p).Answers (.epoll ready)) :
    Delivered ⟨heap, .epoll p⟩ (.epoll ready) := by
  obtain ⟨hn, hr, hl⟩ := ha
  obtain ⟨p', hw, hc, hi⟩ := wait_epoll_eq h hl
  have hfds := eventsOf_fds h fun x hx => (hr x hx).1
  have hnodup : ((p.eventsOf ready).map Prod.fst).Nodup := by
    rw [← hfds, List.map_map] at hn
    exact List.Nodup.of_map (fun ch => (heap ch).fd) (by simpa [Function.comp_def] using hn)
  refine ⟨_, _, hw, hnodup, ?_, ?_⟩
  · intro ch hch
    obtain ⟨e, he, rfl⟩ := List.mem_map.mp hch
    obtain ⟨x, -, hx⟩ := List.mem_filterMap.mp he
    obtain ⟨entry, hentry, rfl⟩ := Option.map_eq_some_iff.mp hx
    obtain ⟨h1, h2⟩ := h.channel_of_interest hentry
    show p'.channels (heap.setRevents _ entry.1).fd = some entry.1
    rw [(heap.setRevents_fields _ _).1, h2, hc, h1]
  · have hmap : ((p.eventsOf ready).map Prod.fst).map (fun ch =>
        ((heap.setRevents (p.eventsOf ready) ch).fd, (heap.setRevents (p.eventsOf ready) ch).revents)) = ready := by
      rw [List.map_map]
      conv_rhs => rw [← hfds]
      refine List.map_congr_left fun e he => ?_
      simp only [Function.comp_apply, (heap.setRevents_fields _ _).1, heap.setRevents_mem hnodup he]
    exact List.Perm.of_eq hmap

theorem poll_not_delivered {p : PollPoller} {heap : ChannelHeap} (h : ∀ ch, (heap ch).revents = 0) {answer : Wait}
    (hr : reported ⟨heap, .poll p⟩ answer ≠ []) : ¬Delivered ⟨heap, .poll p⟩ answer := by
  rintro ⟨t, active, hw, -, -, hperm⟩
  obtain ⟨hh, -⟩ := wait_poll_heap hw
  obtain ⟨x, hx⟩ := List.exists_mem_of_ne_nil _ hr
  have hzero : x.2 = 0 := by
    obtain ⟨ch, -, rfl⟩ := List.mem_map.mp (hperm.symm.subset hx)
    rw [hh]
    exact h ch
  have hne : x.2 ≠ 0 := by
    cases answer with
    | failed => cases hx
    | epoll ready => cases hx
    | poll revents =>
      obtain ⟨y, hy, rfl⟩ := List.mem_map.mp hx
      have hy0 : y.2 ≠ 0 := by simpa using (List.mem_filter.mp hy).2
      intro h0
      apply hy0
      have hn := congrArg BitVec.toNat h0
      have hlt := y.2.isLt
      simp only [BitVec.toNat_setWidth] at hn
      exact BitVec.eq_of_toNat_eq (by simp at hn ⊢; omega)
  exact hne hzero

theorem poll_nothing_delivered {p : PollPoller} {heap : ChannelHeap} {answer : Wait}
    (hr : reported ⟨heap, .poll p⟩ answer = []) : Delivered ⟨heap, .poll p⟩ answer := by
  have hnil : ∃ t, wait ⟨heap, .poll p⟩ answer = .ok (t, []) := by
    cases answer with
    | failed => exact ⟨_, rfl⟩
    | epoll ready => exact ⟨_, rfl⟩
    | poll revents =>
      have hz : ∀ x ∈ p.pollfds.zip revents, x.2 = 0 := by
        have hf := List.filter_eq_nil_iff.mp (List.map_eq_nil_iff.mp hr)
        simpa using hf
      obtain ⟨p', hp⟩ := PollPoller.poll_nothing heap hz
      exact ⟨⟨heap, .poll p'⟩, by simp only [wait, hp, ok_bind]⟩
  obtain ⟨t, ht⟩ := hnil
  exact ⟨t, [], ht, List.nodup_nil, by simp, by rw [hr]; exact List.Perm.refl _⟩

theorem reachable_consistent (fd : ℕ → ℤ) (hs : s = newPollPoller fd ∨ s = newEPollPoller fd)
    {is : List Step} (h : Path step Enabled s is t) : t.Consistent := by
  refine h.invariant ?_ fun t i u => step_consistent
  rcases hs with rfl | rfl
  · exact newPollPoller_consistent fd
  · exact newEPollPoller_consistent fd

theorem poll_delivers_iff (fd : ℕ → ℤ) (hs : s = newPollPoller fd ∨ s = newEPollPoller fd)
    {is : List Step} (h : Path step Enabled s is t) {answer : Wait} (ha : t.poller.Answers answer) :
    t.Delivered answer ↔ t.isEPoll = true ∨ t.reported answer = [] := by
  have hcon : t.Consistent := reachable_consistent fd hs h
  obtain ⟨heap, p | p⟩ := t
  · refine ⟨fun hd => Or.inr ?_, fun hr => poll_nothing_delivered (hr.resolve_left Bool.false_ne_true)⟩
    by_contra hr
    exact poll_not_delivered hcon hr hd
  · refine ⟨fun _ => Or.inl rfl, fun _ => ?_⟩
    cases answer with
    | failed => exact ⟨_, [], rfl, List.nodup_nil, by simp, List.Perm.refl _⟩
    | poll revents => exact ha.elim
    | epoll ready => exact epoll_delivered hcon ha

end Delivery

theorem poll_delivers_iff_epoll : letI := Build.debug
    ∃ t, Path step Enabled (newEPollPoller fun ch => ch)
        [.change 3 .enableReading, .change 4 .enableWriting, .wait (.epoll [(4, POLLOUT)]), .change 4 .disableAll,
          .remove 4, .change 4 .enableReading] t ∧
      t.poller.Answers (.epoll [(4, POLLIN ||| POLLHUP), (3, POLLIN)]) ∧
      (t.Delivered (.epoll [(4, POLLIN ||| POLLHUP), (3, POLLIN)]) ↔
        t.isEPoll = true ∨ t.reported (.epoll [(4, POLLIN ||| POLLHUP), (3, POLLIN)]) = []) := by
  let _ := Build.debug
  obtain ⟨t, ht, hp⟩ := Path.exists_of_any step Enabled (newEPollPoller fun ch => ch)
    [.change 3 .enableReading, .change 4 .enableWriting, .wait (.epoll [(4, POLLOUT)]), .change 4 .disableAll,
      .remove 4, .change 4 .enableReading]
    (fun t => decide (t.poller.Answers (.epoll [(4, POLLIN ||| POLLHUP), (3, POLLIN)]))) (by decide +kernel)
  have ha := of_decide_eq_true hp
  exact ⟨t, ht, ha, poll_delivers_iff _ (Or.inr rfl) ht ha⟩

def dispatched [Build] (s : Polling) (answer : Wait) : Exec (List (ℕ × List Channel.Callback)) := do
  let (t, active) ← s.wait answer
  .ok (active.map fun ch => (ch, Channel.handleEventWithGuard (t.heap ch).revents))

/-- A readable socket is reported to both pollers; `PollPoller` leaves `revents_` at 0 and no callback runs. -/
theorem poll_leaves_revents : letI := Build.debug
    (∃ t, Path step Enabled (newPollPoller fun ch => ch) [.change 3 .enableReading] t ∧
      t.poller.Answers (.poll [1]) ∧ t.reported (.poll [1]) = [(3, POLLIN)] ∧
      ¬t.Delivered (.poll [1]) ∧ t.dispatched (.poll [1]) = .ok [(3, [])]) ∧
    (∃ t, Path step Enabled (newEPollPoller fun ch => ch) [.change 3 .enableReading] t ∧
      t.poller.Answers (.epoll [(3, POLLIN)]) ∧ t.reported (.epoll [(3, POLLIN)]) = [(3, POLLIN)] ∧
      t.dispatched (.epoll [(3, POLLIN)]) = .ok [(3, [.read])]) := by
  let _ := Build.debug
  constructor
  · obtain ⟨t, ht, hp⟩ := Path.exists_of_any step Enabled (newPollPoller fun ch => ch) [.change 3 .enableReading]
      (fun t => decide (t.isEPoll = false ∧ t.poller.Answers (.poll [1]) ∧ t.reported (.poll [1]) = [(3, POLLIN)] ∧
        t.dispatched (.poll [1]) = .ok [(3, [])])) (by decide +kernel)
    obtain ⟨he, ha, hr, hd⟩ := of_decide_eq_true hp
    have hcon := reachable_consistent _ (Or.inl rfl) ht
    refine ⟨t, ht, ha, hr, ?_, hd⟩
    obtain ⟨heap, p | p⟩ := t
    · exact poll_not_delivered hcon (by rw [hr]; exact List.cons_ne_nil _ _)
    · cases he
  · obtain ⟨t, ht, hp⟩ := Path.exists_of_any step Enabled (newEPollPoller fun ch => ch) [.change 3 .enableReading]
      (fun t => decide (t.poller.Answers (.epoll [(3, POLLIN)]) ∧ t.reported (.epoll [(3, POLLIN)]) = [(3, POLLIN)] ∧
        t.dispatched (.epoll [(3, POLLIN)]) = .ok [(3, [.read])])) (by decide +kernel)
    exact ⟨t, ht, of_decide_eq_true hp⟩

end Polling

end Networker
