import Networker.PollerKernel
import Mathlib.Algebra.BigOperators.Intervals

/-!
The event list of an `EPollPoller`. It doubles when a wait has filled it, so that only a few
waits leave out channels that are ready, however many there are.
-/

namespace Networker

open CheckedRuns EPollPoller

namespace Polling

/-- A step that is no successful wait, or a wait while the descriptors `ready` are ready. -/
inductive BusyStep
  | change (ch : ℕ) (interest : Channel.Interest)
  | remove (ch : ℕ)
  | failed
  | wait (ready reported : List (ℤ × BitVec 32))
deriving DecidableEq, Repr

namespace BusyStep

def toStep : BusyStep → Step
  | change ch interest => .change ch interest
  | remove ch => .remove ch
  | failed => .wait .failed
  | wait _ reported => .wait (.epoll reported)

/-- A wait that does not report everything that is ready. -/
def leavesOut : BusyStep → Bool
  | wait ready reported => decide (reported.length < ready.length)
  | change _ _ | remove _ | failed => false

end BusyStep

/-- The size of `events_`. -/
def listSize (s : Polling) : ℕ :=
  match s.poller with
  | .poll _ => 0
  | .epoll p => p.events

/-- `epoll_wait(2)` reports as many of the ready descriptors as the list has room for. -/
def Busy (s : Polling) : BusyStep → Prop
  | .wait ready reported => s.Enabled (.wait (.epoll reported)) ∧ reported ⊆ ready ∧
      reported.length = min ready.length s.listSize
  | .change ch interest => s.Enabled (.change ch interest)
  | .remove ch => s.Enabled (.remove ch)
  | .failed => True

instance (s : Polling) : (i : BusyStep) → Decidable (s.Busy i)
  | .wait _ _ => inferInstanceAs (Decidable (_ ∧ _ ∧ _))
  | .change ch interest => inferInstanceAs (Decidable (s.Enabled (.change ch interest)))
  | .remove ch => inferInstanceAs (Decidable (s.Enabled (.remove ch)))
  | .failed => inferInstanceAs (Decidable True)

def busyStep [Build] (s : Polling) (i : BusyStep) : Exec Polling := s.step i.toStep

section Growth

variable [Build] {s t : Polling} {p : EPollPoller} {heap : ChannelHeap}

omit [Build] in
theorem busy_enabled {i : BusyStep} (h : s.Busy i) : s.Enabled i.toStep := by
  cases i with
  | wait ready reported => exact h.1
  | change ch interest => exact h
  | remove ch => exact h
  | failed =>
    obtain ⟨heap, p | p⟩ := s
    · exact h
    · exact h

/-- Whether the poller is an `EPollPoller` whose map is in order, and the list has the size `n`. -/
def HasList (n : ℕ) (s : Polling) : Prop := ∃ heap p, s = ⟨heap, .epoll p⟩ ∧ p.Mirrors heap ∧ p.events = n

theorem change_size (h : p.Mirrors heap) {ch : ℕ} {interest : Channel.Interest}
    (hc : Enabled ⟨heap, .epoll p⟩ (.change ch interest)) (hs : step ⟨heap, .epoll p⟩ (.change ch interest) = .ok t) :
    HasList p.events t := by
  have hu := updateChannel_eq h hc { heap ch with events := interest.mask (heap ch).events, addedToLoop := true } rfl rfl
  have hm := registerAs_mirrors h hc (c := { heap ch with
    events := interest.mask (heap ch).events
    addedToLoop := true
    index := updatedIndex { heap ch with events := interest.mask (heap ch).events, addedToLoop := true } }) rfl
    (updatedIndex_cases _)
  obtain ⟨⟨q, heap'⟩, hq, ht⟩ := bind_eq_ok.mp hs
  cases ht
  cases hu.symm.trans hq
  exact ⟨_, _, rfl, hm, rfl⟩

theorem remove_size (h : p.Mirrors heap) {ch : ℕ} (hc : Enabled ⟨heap, .epoll p⟩ (.remove ch))
    (hs : step ⟨heap, .epoll p⟩ (.remove ch) = .ok t) : HasList p.events t := by
  obtain ⟨hreg, hnone⟩ := hc
  have hu := removeChannel_eq h hreg { heap ch with addedToLoop := false } rfl rfl hnone
  have hm := unregister_mirrors h hreg { heap ch with addedToLoop := false } rfl
  obtain ⟨⟨q, heap'⟩, hq, ht⟩ := bind_eq_ok.mp (assert_bind_ok hs)
  cases ht
  cases hu.symm.trans hq
  exact ⟨_, _, rfl, hm, rfl⟩

theorem wait_size (h : p.Mirrors heap) {reported : List (ℤ × BitVec 32)}
    (ha : Enabled ⟨heap, .epoll p⟩ (.wait (.epoll reported))) (hpos : 0 < p.events)
    (hs : step ⟨heap, .epoll p⟩ (.wait (.epoll reported)) = .ok t) :
    HasList (if reported.length = p.events then p.events * 2 else p.events) t := by
  obtain ⟨-, hwatched, hle⟩ := ha
  have hlength : (p.eventsOf reported).length = reported.length := by
    have hfds := congrArg List.length (eventsOf_fds h fun x hx => (hwatched x hx).1)
    rwa [List.length_map] at hfds
  obtain ⟨q, hq, hchannels, hinterest⟩ := poll_eq h hle
  have hsize : q.events = if reported.length = p.events then p.events * 2 else p.events := by
    unfold EPollPoller.poll at hq
    dsimp only at hq
    rw [hlength] at hq
    by_cases hnonempty : 0 < reported.length
    · rw [if_pos hnonempty] at hq
      obtain ⟨⟨heap', active⟩, -, hq⟩ := bind_eq_ok.mp (assert_bind_ok hq)
      have hfirst := congrArg Prod.fst (Except.ok.inj hq)
      dsimp only at hfirst
      rw [← hfirst]
      split_ifs <;> rfl
    · rw [if_neg hnonempty] at hq
      have hfirst := congrArg Prod.fst (Except.ok.inj hq)
      dsimp only at hfirst
      rw [← hfirst, if_neg (by omega)]
  obtain ⟨⟨u, active⟩, hwait, ht⟩ := bind_eq_ok.mp hs
  cases ht
  obtain ⟨⟨q', heap', active'⟩, hq', hu⟩ := bind_eq_ok.mp hwait
  cases hu
  cases hq.symm.trans hq'
  exact ⟨_, _, rfl, h.congr (fun r => heap.setRevents_fields r _) hchannels hinterest, hsize⟩

/-- The list has doubled `d` times, once at least for every wait that left something out, and each time because it was
full of channels that were ready. -/
structure Grown (N : ℕ) (is : List BusyStep) (n d : ℕ) : Prop where
  size : n = 26 * 2 ^ d
  leftOut : is.countP BusyStep.leavesOut ≤ d
  filled : d ≠ 0 → 26 * 2 ^ (d - 1) ≤ N
  exceeded : is.countP BusyStep.leavesOut ≠ 0 → 26 * 2 ^ (is.countP BusyStep.leavesOut - 1) < N

omit [Build] in
theorem Grown.size_pos {N n d : ℕ} {is : List BusyStep} (h : Grown N is n d) : 0 < n := by
  rw [h.size]
  exact Nat.mul_pos (by decide) (Nat.pow_pos (by decide))

omit [Build] in
theorem Grown.quiet {N n d : ℕ} {is : List BusyStep} (h : Grown N is n d) {i : BusyStep} (hi : i.leavesOut = false) :
    Grown N (is ++ [i]) n d := by
  have hcount : (is ++ [i]).countP BusyStep.leavesOut = is.countP BusyStep.leavesOut := by
    rw [List.countP_append, List.countP_singleton, hi]
    rfl
  exact ⟨h.size, by rw [hcount]; exact h.leftOut, h.filled, by rw [hcount]; exact h.exceeded⟩

omit [Build] in
/-- A wait that fills the list doubles it. -/
theorem Grown.full {N n d : ℕ} {is : List BusyStep} (h : Grown N is n d) {ready reported : List (ℤ × BitVec 32)}
    (hN : ready.length ≤ N) (hfull : reported.length = n) (hle : reported.length ≤ ready.length) :
    Grown N (is ++ [.wait ready reported]) (n * 2) (d + 1) := by
  have hsize := h.size
  have hcount : (is ++ [BusyStep.wait ready reported]).countP BusyStep.leavesOut =
      is.countP BusyStep.leavesOut + if reported.length < ready.length then 1 else 0 := by
    rw [List.countP_append, List.countP_singleton]
    simp [BusyStep.leavesOut]
  constructor
  case size => rw [hsize, Nat.pow_succ, Nat.mul_assoc]
  case leftOut =>
    rw [hcount]
    have hleft := h.leftOut
    split_ifs <;> omega
  case filled =>
    intro _
    rw [Nat.add_sub_cancel, ← hsize]
    omega
  case exceeded =>
    rw [hcount]
    split_ifs with hout
    · intro _
      have hmono : 2 ^ is.countP BusyStep.leavesOut ≤ 2 ^ d := Nat.pow_le_pow_right (by decide) h.leftOut
      rw [Nat.add_sub_cancel]
      omega
    · exact h.exceeded

theorem busyStep_grown {N n d : ℕ} {is : List BusyStep} {i : BusyStep} (h : Grown N is n d) (hs : HasList n s)
    (hi : s.Busy i) (hN : ∀ ready reported, i = .wait ready reported → ready.length ≤ N) (ht : s.busyStep i = .ok t) :
    ∃ n' d', HasList n' t ∧ Grown N (is ++ [i]) n' d' := by
  obtain ⟨heap, p, rfl, hm, rfl⟩ := hs
  cases i with
  | change ch interest => exact ⟨_, d, change_size hm hi ht, h.quiet rfl⟩
  | remove ch => exact ⟨_, d, remove_size hm hi ht, h.quiet rfl⟩
  | failed =>
    cases ht
    exact ⟨_, d, ⟨heap, p, rfl, hm, rfl⟩, h.quiet rfl⟩
  | wait ready reported =>
    obtain ⟨henabled, -, hlength⟩ := hi
    have hlength : reported.length = min ready.length p.events := hlength
    have hsize := wait_size hm henabled h.size_pos ht
    by_cases hfull : reported.length = p.events
    · rw [if_pos hfull] at hsize
      exact ⟨_, d + 1, hsize, h.full (hN ready reported rfl) hfull (by omega)⟩
    · rw [if_neg hfull] at hsize
      exact ⟨_, d, hsize, h.quiet (decide_eq_false (by omega))⟩

/-- If never more than `N` channels are ready at a time, the list has at most twice that size or its first one, and at
most about `log₂ (N / 26)` waits of the whole run leave a ready channel out. Every step succeeds. -/
theorem event_list_growth (fd : ℕ → ℤ) {is : List BusyStep} (h : Path busyStep Busy (newEPollPoller fd) is s) {N : ℕ}
    (hN : ∀ ready reported, .wait ready reported ∈ is → ready.length ≤ N) :
    (∃ d, s.listSize = 26 * 2 ^ d) ∧ s.listSize ≤ max 26 (2 * N) ∧
      (is.countP BusyStep.leavesOut ≠ 0 → 26 * 2 ^ (is.countP BusyStep.leavesOut - 1) < N) ∧
      ∀ i, s.Busy i → ∃ t, s.busyStep i = .ok t := by
  have hgrown : ∃ n d, HasList n s ∧ Grown N is n d := by
    induction h with
    | nil =>
      refine ⟨26, 0, ⟨_, _, rfl, newEPollPoller_consistent fd, rfl⟩, ⟨rfl, Nat.le_refl _, fun h => absurd rfl h, ?_⟩⟩
      exact fun h => absurd rfl h
    | snoc i hp hi hs ih =>
      obtain ⟨n, d, hholds, hg⟩ := ih fun ready reported hmem => hN ready reported (List.mem_append_left _ hmem)
      exact busyStep_grown hg hholds hi (fun ready reported heq => hN ready reported (by simp [heq])) hs
  obtain ⟨n, d, ⟨heap, p, rfl, hm, rfl⟩, hg⟩ := hgrown
  refine ⟨⟨d, hg.size⟩, ?_, hg.exceeded, fun i hi => ?_⟩
  · have hsize : p.events = 26 * 2 ^ d := hg.size
    change p.events ≤ _
    cases d with
    | zero => omega
    | succ d =>
      have hfilled := hg.filled (Nat.succ_ne_zero d)
      rw [Nat.add_sub_cancel] at hfilled
      rw [Nat.pow_succ] at hsize
      omega
  · obtain ⟨q, heap', hq, -⟩ := epoll_step hm (busy_enabled hi)
    exact ⟨_, hq⟩

end Growth

/-- Thirty channels are ready, and the first wait leaves four of them out. -/
theorem event_list_growth_thirty :
    letI := Build.debug
    let ready : List (ℤ × BitVec 32) := (List.range 30).map fun k => ((k : ℤ), POLLIN)
    let is : List BusyStep := (List.range 30).map (fun k => .change k .enableReading) ++
      [.wait ready (ready.take 26), .wait ready ready]
    ∃ s, Path busyStep Busy (newEPollPoller fun k => (k : ℤ)) is s ∧ s.listSize = 52 ∧ s.listSize ≤ max 26 (2 * 30) ∧
      is.countP BusyStep.leavesOut = 1 ∧ 26 * 2 ^ (1 - 1) < 30 := by
  intro ready is
  let _ := Build.debug
  obtain ⟨s, hs, hsize⟩ := Path.exists_of_any busyStep Busy (newEPollPoller fun k => (k : ℤ)) is
    (fun s : Polling => decide (s.listSize = 52)) (by decide +kernel)
  have hcount : is.countP BusyStep.leavesOut = 1 := by decide
  obtain ⟨-, hbound, hexceeded, -⟩ := event_list_growth (fun k => (k : ℤ)) hs (N := 30) (by
    intro ready' reported hmem
    simp [is] at hmem
    rcases hmem with ⟨rfl, -⟩ | ⟨rfl, -⟩ <;> simp [ready])
  rw [hcount] at hexceeded
  exact ⟨s, hs, of_decide_eq_true hsize, hbound, hcount, hexceeded (by decide)⟩

end Polling

end Networker
