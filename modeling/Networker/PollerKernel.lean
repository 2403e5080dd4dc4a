import Networker.PollDelivery

/-!
`EPollPoller` and the interest list of the kernel. Every `epoll_ctl(2)` it issues is one
that the kernel accepts, so neither the logged error nor the abort is reached.
-/

namespace Networker

open CheckedRuns

namespace EPollPoller

abbrev InterestList := ℤ → Option (ℕ × BitVec 32)

/-- A call of `epoll_ctl(2)` for a channel. -/
structure Call where
  operation : Operation
  ch : ℕ
  channel : Channel
deriving DecidableEq, Repr

/-- The interest list after a legal call. -/
def Call.apply (interest : InterestList) (call : Call) : InterestList :=
  match call.operation with
  | .add | .mod => fun fd => if fd = call.channel.fd then some (call.ch, call.channel.events) else interest fd
  | .del => fun fd => if fd = call.channel.fd then none else interest fd

/-- The operation that `updateChannel` passes to `update`. -/
def updateOperation (c : Channel) : Operation :=
  if c.index = kNew ∨ c.index = kDeleted then .add else if c.isNoneEvent then .del else .mod

def updateCall (ch : ℕ) (c : Channel) : Option Call := some ⟨updateOperation c, ch, c⟩

/-- `removeChannel` calls `update` for an added channel only. -/
def removeCall (ch : ℕ) (c : Channel) : Option Call := if c.index = kAdded then some ⟨.del, ch, c⟩ else none

def issue (interest : InterestList) (call : Option Call) : InterestList :=
  call.elim interest fun c => c.apply interest

section Calls

variable {p p' : EPollPoller} {heap heap' : ChannelHeap} {ch : ℕ}

theorem update_apply {operation : Operation} {c : Channel} (h : p.update operation ch c = .ok p') :
    p'.interest = Call.apply p.interest ⟨operation, ch, c⟩ := by
  unfold update at h
  split at h
  · cases h
    rfl
  · cases h
    rfl
  · cases h
  · cases h
  · cases h
    rfl

variable [Build]

/-- The call is the one that the poller makes, whatever state it is in. -/
theorem updateChannel_issue (h : p.updateChannel heap ch = .ok (p', heap')) :
    p'.interest = issue p.interest (updateCall ch (heap ch)) := by
  unfold updateChannel at h
  dsimp only at h
  unfold updateCall issue updateOperation
  split_ifs at h with hnew hdel hnone
  · obtain ⟨q, hq, h⟩ := bind_eq_ok.mp (assert_bind_ok h)
    cases h
    rw [if_pos (Or.inl hnew)]
    exact update_apply hq
  · obtain ⟨q, hq, h⟩ := bind_eq_ok.mp (assert_bind_ok (assert_bind_ok h))
    cases h
    rw [if_pos (Or.inr hdel)]
    exact update_apply hq
  · obtain ⟨q, hq, h⟩ := bind_eq_ok.mp (assert_bind_ok (assert_bind_ok (assert_bind_ok h)))
    cases h
    rw [if_neg (not_or.mpr ⟨hnew, hdel⟩), if_pos hnone]
    exact update_apply hq
  · obtain ⟨q, hq, h⟩ := bind_eq_ok.mp (assert_bind_ok (assert_bind_ok (assert_bind_ok h)))
    cases h
    rw [if_neg (not_or.mpr ⟨hnew, hdel⟩), if_neg hnone]
    exact update_apply hq

theorem removeChannel_issue (h : p.removeChannel heap ch = .ok (p', heap')) :
    p'.interest = issue p.interest (removeCall ch (heap ch)) := by
  unfold removeChannel at h
  replace h := assert_bind_ok (assert_bind_ok (assert_bind_ok (assert_bind_ok h)))
  dsimp only at h
  unfold removeCall issue
  split_ifs at h ⊢ with ha
  · obtain ⟨q, hq, h⟩ := bind_eq_ok.mp h
    cases h
    exact update_apply hq
  · cases h
    rfl

end Calls

end EPollPoller

namespace Polling

open EPollPoller

def interest (s : Polling) : InterestList :=
  match s.poller with
  | .poll _ => fun _ => none
  | .epoll p => p.interest

/-- The `epoll_ctl(2)` of a step of an `EPollPoller`. -/
def epollCtl (s : Polling) : Step → Option Call
  | .change ch interest => updateCall ch { s.heap ch with events := interest.mask (s.heap ch).events, addedToLoop := true }
  | .remove ch => removeCall ch { s.heap ch with addedToLoop := false }
  | .wait _ => none

section Steps

variable [Build] {p : EPollPoller} {heap : ChannelHeap}

theorem epoll_change (h : p.Mirrors heap) {ch : ℕ} (interest : Channel.Interest)
    (hc : Enabled ⟨heap, .epoll p⟩ (.change ch interest)) :
    ∃ q c, step ⟨heap, .epoll p⟩ (.change ch interest) = .ok ⟨heap.set ch c, .epoll q⟩ ∧ q.Mirrors (heap.set ch c) ∧
      q.interest = issue p.interest (epollCtl ⟨heap, .epoll p⟩ (.change ch interest)) ∧
      q.channels = p.channels.set (heap ch).fd (some ch) ∧ c.fd = (heap ch).fd ∧
      c.events = interest.mask (heap ch).events ∧ c.index = updatedIndex { heap ch with events := c.events } := by
  obtain ⟨q, c, hu, hm, hchan, hfd, hevents, hindex⟩ : ∃ q c, p.updateChannel (heap.set ch { heap ch with
      events := interest.mask (heap ch).events, addedToLoop := true }) ch = .ok (q, heap.set ch c) ∧
      q.Mirrors (heap.set ch c) ∧ q.channels = p.channels.set (heap ch).fd (some ch) ∧ c.fd = (heap ch).fd ∧
      c.events = interest.mask (heap ch).events ∧ c.index = updatedIndex { heap ch with events := c.events } :=
    ⟨_, _, updateChannel_eq h hc _ rfl rfl, registerAs_mirrors h hc rfl (updatedIndex_cases _), rfl, rfl, rfl, rfl⟩
  have hi := updateChannel_issue hu
  rw [ChannelHeap.set_same] at hi
  exact ⟨q, c, by simp only [step, change, updateChannel, hu, ok_bind], hm, hi, hchan, hfd, hevents, hindex⟩

theorem epoll_remove (h : p.Mirrors heap) {ch : ℕ} (hc : Enabled ⟨heap, .epoll p⟩ (.remove ch)) :
    ∃ q c, step ⟨heap, .epoll p⟩ (.remove ch) = .ok ⟨heap.set ch c, .epoll q⟩ ∧ q.Mirrors (heap.set ch c) ∧
      q.interest = issue p.interest (epollCtl ⟨heap, .epoll p⟩ (.remove ch)) ∧
      q.channels = p.channels.set (heap ch).fd none ∧ c.fd = (heap ch).fd ∧ c.events = (heap ch).events ∧
      c.index = kNew := by
  obtain ⟨hreg, hnone⟩ := hc
  obtain ⟨q, c, hu, hm, hchan, hfd, hevents, hindex⟩ : ∃ q c,
      p.removeChannel (heap.set ch { heap ch with addedToLoop := false }) ch = .ok (q, heap.set ch c) ∧
      q.Mirrors (heap.set ch c) ∧ q.channels = p.channels.set (heap ch).fd none ∧ c.fd = (heap ch).fd ∧
      c.events = (heap ch).events ∧ c.index = kNew :=
    ⟨_, _, removeChannel_eq h hreg _ rfl rfl hnone, unregister_mirrors h hreg { heap ch with addedToLoop := false } rfl,
      rfl, rfl, rfl, rfl⟩
  have hi := removeChannel_issue hu
  rw [ChannelHeap.set_same] at hi
  refine ⟨q, c, ?_, hm, hi, hchan, hfd, hevents, hindex⟩
  simp only [step, remove, assert_pos hnone, removeChannel, hu, ok_bind]

theorem epoll_wait (h : p.Mirrors heap) {answer : Wait} (ha : Enabled ⟨heap, .epoll p⟩ (.wait answer)) :
    ∃ q heap', step ⟨heap, .epoll p⟩ (.wait answer) = .ok ⟨heap', .epoll q⟩ ∧ q.Mirrors heap' ∧
      q.interest = p.interest := by
  cases answer with
  | failed => exact ⟨p, heap, rfl, h, rfl⟩
  | poll revents => exact ha.elim
  | epoll ready =>
    obtain ⟨q, hw, hchan, hint⟩ := wait_epoll_eq h ha.2.2
    refine ⟨q, _, by rw [step, hw, ok_bind], ?_, hint⟩
    exact h.congr (fun r => heap.setRevents_fields r _) hchan hint

theorem epoll_step (h : p.Mirrors heap) {i : Step} (hi : Enabled ⟨heap, .epoll p⟩ i) :
    ∃ q heap', step ⟨heap, .epoll p⟩ i = .ok ⟨heap', .epoll q⟩ ∧ q.Mirrors heap' ∧
      q.interest = issue p.interest (epollCtl ⟨heap, .epoll p⟩ i) := by
  cases i with
  | change ch interest =>
    obtain ⟨q, c, hq, hm, hint, -⟩ := epoll_change h _ hi
    exact ⟨q, _, hq, hm, hint⟩
  | remove ch =>
    obtain ⟨q, c, hq, hm, hint, -⟩ := epoll_remove h hi
    exact ⟨q, _, hq, hm, hint⟩
  | wait answer => exact epoll_wait h hi

end Steps

end Polling

end Networker
