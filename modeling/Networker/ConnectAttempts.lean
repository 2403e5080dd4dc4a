import Mathlib.Data.List.Perm.Subperm
import Networker.ConnectorModel

/-!
One connection attempt at a time. A `startInLoop` functor, a retry timer and an attempt
under way each lead to a `connecting()`, so a caller of `start()` must not add one to
another; and while `resetChannel` is queued the old channel is still there.
-/

namespace Networker.Connector

open CheckedRuns Descriptors

def Removed (c : Channel) : Prop := c.addedToLoop = false ∧ c.index = EPollPoller.kNew

/-- What the code asserts at the places a run records, and that no descriptor is closed under a registered channel. -/
def Point.Holds : Point → Prop
  | .startInLoop state => state = .kDisconnected
  | .connecting channel => channel = none
  | .resetChannel channel => ∀ c ∈ channel, Removed c
  | .close sockfd channel => ∀ c ∈ channel, c.fd = sockfd → Removed c

/-- The sockets it has created that are neither closed nor given away. -/
def connectingSockets (s : Connector) : List ℕ :=
  (List.range s.files.created).filter fun k => k ∉ s.files.closed ∧ k ∉ s.files.handed

/-- `connect` goes on to `connecting()`. -/
def Attempt.inProgress (r : Attempt) : Bool :=
  r.sockfd.isSome && match r.errno with
    | .success | .EINPROGRESS | .EINTR | .EISCONN => true
    | _ => false

/-- No attempt is under way, and no `startInLoop` is due to run. -/
def AtRest (s : Connector) : Prop :=
  s.state_ = .kDisconnected ∧ .startInLoop ∉ s.pending ∧ s.timers = []

/-- `start()` is called at rest, `restart()` for a connection that was given away, and none of them, nor a retry
timer, begins an attempt while `resetChannel` is queued. -/
def Orderly (s : Connector) : Step → Prop
  | .start isInLoopThread r =>
    s.AtRest ∧ (isInLoopThread = true → .resetChannel ∈ s.pending → r.inProgress = false)
  | .restart r => s.state_ = .kConnected ∧ (.resetChannel ∈ s.pending → r.inProgress = false)
  | .timer _ r => s.connect_ = true → .resetChannel ∈ s.pending → r.inProgress = false
  | .stop | .functor _ | .event _ _ | .release _ => True

instance (s : Connector) : Decidable s.AtRest :=
  inferInstanceAs (Decidable (_ = _ ∧ _ ∉ _ ∧ _ = _))

instance (s : Connector) : (i : Step) → Decidable (s.Orderly i)
  | .start _ _ => inferInstanceAs (Decidable (s.AtRest ∧ (_ = _ → _ ∈ _ → _ = _)))
  | .restart _ => inferInstanceAs (Decidable (_ = _ ∧ (_ ∈ _ → _ = _)))
  | .timer _ _ => inferInstanceAs (Decidable (_ = _ → _ ∈ _ → _ = _))
  | .stop | .functor _ | .event _ _ | .release _ => inferInstanceAs (Decidable True)

def outstanding (s : Connector) : ℕ :=
  (if s.state_ = .kDisconnected then 0 else 1) + s.timers.length + s.pending.count .startInLoop

section Invariant

/-- `channel_` is empty, or `resetChannel` is queued for a channel that has been removed from the poller. -/
def Vacated (s : Connector) : Prop :=
  (s.channel_ = none ∧ .resetChannel ∉ s.pending) ∨
    ∃ c, s.channel_ = some c ∧ Removed c ∧ s.pending.count .resetChannel = 1

inductive Shape (s : Connector) : List (ℕ × ℕ) → Prop
  | connecting {c : Channel} {fd : ℕ} (k : ℕ) : s.state_ = .kConnecting → s.channel_ = some c → c.fd = fd →
      .resetChannel ∉ s.pending → Shape s [(fd, k)]
  | vacated : s.state_ ≠ .kConnecting → s.Vacated → Shape s []

structure Single (s : Connector) : Prop where
  trace : ∀ p ∈ s.trace, p.Holds
  one : s.outstanding ≤ 1
  -- a functor that opens the channel does not overtake the one that clears it
  order : s.pending.Pairwise fun f g => f = .startInLoop → g ≠ .resetChannel
  custody : ∃ held, Shape s held ∧ Custody s.files held

structure Ready (s : Connector) : Prop where
  trace : ∀ p ∈ s.trace, p.Holds
  rest : s.AtRest
  vacated : s.Vacated
  custody : Custody s.files []

/-- `sockfd` has been created or taken from its channel, and `retry`, `close` or the callback comes next. -/
structure Holding (s : Connector) (sockfd : ℕ) : Prop where
  trace : ∀ p ∈ s.trace, p.Holds
  starts : .startInLoop ∉ s.pending
  timers : s.timers = []
  vacated : s.Vacated
  custody : ∃ k, Custody s.files [(sockfd, k)]

variable {s : Connector} {sockfd : ℕ}

theorem pairwise_of_no_start {pending : List Functor} (h : .startInLoop ∉ pending) :
    pending.Pairwise fun f g => f = .startInLoop → g ≠ .resetChannel := by
  apply List.pairwise_of_forall_mem_list
  intro f hf g _ he
  exact absurd (he ▸ hf) h

theorem atRest_iff : s.AtRest ↔ s.outstanding = 0 := by
  unfold AtRest outstanding
  rw [Nat.add_eq_zero_iff, Nat.add_eq_zero_iff, List.length_eq_zero_iff, List.count_eq_zero]
  by_cases hs : s.state_ = .kDisconnected
  · simp [hs, and_comm]
  · simp [hs]

-- an attempt under way or given away is the only thing outstanding
theorem Single.atRest_of_state (h : Single s) (hs : s.state_ ≠ .kDisconnected) :
    AtRest { s with state_ := .kDisconnected } := by
  rw [atRest_iff]
  have hone := h.one
  rw [outstanding, if_neg hs] at hone
  simp only [outstanding, if_true]
  omega

theorem initial_single : Single {} := by
  constructor
  · simp
  · simp [outstanding]
  · exact .nil
  · exact ⟨[], .vacated (by simp) (Or.inl ⟨rfl, by simp⟩), initial_custody⟩

theorem Vacated.single (hv : s.Vacated) (ht : ∀ p ∈ s.trace, p.Holds) (hstart : .startInLoop ∉ s.pending)
    (hs : s.state_ ≠ .kConnecting) (hone : s.timers = [] ∨ s.state_ = .kDisconnected ∧ s.timers.length ≤ 1)
    (hc : Custody s.files []) : Single s := by
  constructor
  · exact ht
  · rw [outstanding, List.count_eq_zero_of_not_mem hstart]
    rcases hone with hnil | ⟨hd, hle⟩
    · rw [hnil]
      split_ifs <;> simp
    · rw [if_pos hd]
      omega
  · exact pairwise_of_no_start hstart
  · exact ⟨[], .vacated hs hv, hc⟩

theorem Ready.single (h : Ready s) : Single s := by
  obtain ⟨hd, hstart, htimers⟩ := h.rest
  exact h.vacated.single h.trace hstart (by simp [hd]) (Or.inl htimers) h.custody

theorem Single.vacated (h : Single s) (hs : s.state_ ≠ .kConnecting) : s.Vacated ∧ Custody s.files [] := by
  obtain ⟨held, hshape, hc⟩ := h.custody
  cases hshape with
  | connecting k hs' => exact absurd hs' hs
  | vacated _ hv => exact ⟨hv, hc⟩

theorem Single.ready (h : Single s) (hrest : s.AtRest) : Ready s := by
  obtain ⟨hv, hc⟩ := h.vacated (by simp [hrest.1])
  exact ⟨h.trace, hrest, hv, hc⟩

theorem Shape.congr {t : Connector} {held : List (ℕ × ℕ)} (h : Shape s held) (hs : t.state_ = s.state_)
    (hc : t.channel_ = s.channel_) (hp : t.pending.count .resetChannel = s.pending.count .resetChannel) :
    Shape t held := by
  have hmem : .resetChannel ∉ t.pending ↔ .resetChannel ∉ s.pending := by
    rw [← List.count_eq_zero, hp, List.count_eq_zero]
  cases h with
  | connecting k hstate hchan hfd hreset =>
    exact .connecting k (hs.trans hstate) (hc.trans hchan) hfd (hmem.mpr hreset)
  | vacated hstate hv =>
    apply Shape.vacated (hs ▸ hstate)
    unfold Vacated at hv ⊢
    rw [hc, hmem, hp]
    exact hv

theorem Single.queueInLoop (h : Single s) {f : Functor} (hf : f ≠ .resetChannel) (hrest : f = .startInLoop → s.AtRest) :
    Single (s.queueInLoop f) := by
  obtain ⟨held, hshape, hc⟩ := h.custody
  constructor
  · exact h.trace
  · have hone := h.one
    by_cases hs : f = .startInLoop
    · obtain ⟨hd, hstart, htimers⟩ := hrest hs
      simp [outstanding, Connector.queueInLoop, hd, htimers, hs, List.count_eq_zero_of_not_mem hstart]
    · have hcount : (s.queueInLoop f).pending.count .startInLoop = s.pending.count .startInLoop := by
        simp [Connector.queueInLoop, hs]
      change _ + s.timers.length + (s.queueInLoop f).pending.count .startInLoop ≤ 1
      rw [hcount]
      exact hone
  · rw [Connector.queueInLoop, List.pairwise_append]
    refine ⟨h.order, List.pairwise_singleton _ _, ?_⟩
    intro _ _ g hg _
    rwa [List.mem_singleton.mp hg]
  · exact ⟨held, hshape.congr rfl rfl (by simp [Connector.queueInLoop, hf]), hc⟩

theorem Single.stop (h : Single s) : Single s.stop := by
  obtain ⟨held, hshape, hc⟩ := h.custody
  have hs : Single { s with connect_ := false } := ⟨h.trace, h.one, h.order, held, hshape.congr rfl rfl rfl, hc⟩
  exact hs.queueInLoop (by simp) (by simp)

-- the functor at the front of the queue is about to be called
theorem Single.pop (h : Single s) {f : Functor} {pending : List Functor} (hp : s.pending = f :: pending)
    (hf : f ≠ .resetChannel) : Single { s with pending } := by
  obtain ⟨held, hshape, hc⟩ := h.custody
  have hone := h.one
  have horder := h.order
  rw [hp, List.pairwise_cons] at horder
  constructor
  · exact h.trace
  · rw [outstanding, hp, List.count_cons] at hone
    simp only [outstanding]
    omega
  · exact horder.2
  · exact ⟨held, hshape.congr rfl rfl (by simp [hp, hf]), hc⟩

theorem Vacated.removed (h : s.Vacated) {c : Channel} (hc : c ∈ s.channel_) : Removed c := by
  rcases h with ⟨hn, _⟩ | ⟨c', hc', hr, _⟩
  · rw [hn] at hc
    cases hc
  · rw [hc'] at hc
    cases hc
    exact hr

theorem Holding.close_holds (h : Holding s sockfd) : (Point.close sockfd s.channel_).Holds :=
  fun _ hc _ => h.vacated.removed hc

theorem trace_snoc {p : Point} (h : ∀ p ∈ s.trace, p.Holds) (hp : p.Holds) : ∀ q ∈ (s.log p).trace, q.Holds := by
  intro q hq
  rcases List.mem_append.mp hq with hq | hq
  · exact h q hq
  · rw [List.mem_singleton.mp hq]
    exact hp

theorem Holding.close (h : Holding s sockfd) (hs : s.state_ ≠ .kConnecting) : Single (s.close sockfd) := by
  obtain ⟨k, hc⟩ := h.custody
  exact Vacated.single h.vacated (trace_snoc h.trace h.close_holds) h.starts hs (Or.inl h.timers) hc.close

theorem Holding.hand (h : Holding s sockfd) (hs : s.state_ ≠ .kConnecting) :
    Single { s with files := s.files.hand sockfd } := by
  obtain ⟨k, hc⟩ := h.custody
  exact Vacated.single h.vacated h.trace h.starts hs (Or.inl h.timers) hc.hand

theorem Holding.retry (h : Holding s sockfd) : Single (s.retry sockfd) := by
  obtain ⟨k, hc⟩ := h.custody
  have htrace := trace_snoc h.trace h.close_holds
  unfold Connector.retry
  dsimp only
  split_ifs
  · refine Vacated.single h.vacated htrace h.starts (by simp) (Or.inr ⟨rfl, ?_⟩) hc.close
    simp [Connector.close, log, h.timers]
  · exact Vacated.single h.vacated htrace h.starts (by simp) (Or.inl h.timers) hc.close

end Invariant

section Steps

variable {s : Connector}

def removedChannel (c : Channel) : Channel := { c.disableAll with addedToLoop := false, index := EPollPoller.kNew }

theorem retry_state (s : Connector) (sockfd : ℕ) : (s.retry sockfd).state_ = .kDisconnected := by
  unfold retry
  dsimp only
  split_ifs <;> rfl

theorem count_write_handleEventWithGuard (revents : BitVec 32) :
    (Channel.handleEventWithGuard revents).count .write ≤ 1 := by
  unfold Channel.handleEventWithGuard
  split_ifs <;> decide

variable [Build]

theorem connect_cases (s : Connector) (r : Attempt) :
    (r.sockfd = none ∧ s.connect r = .ok s) ∨
      ∃ sockfd t, r.sockfd = some sockfd ∧ t = { s with files := s.files.create sockfd () } ∧
        ((r.inProgress = true ∧ s.connect r = t.connecting sockfd) ∨
          s.connect r = .ok (t.retry sockfd) ∨ s.connect r = .ok (t.close sockfd)) := by
  cases hfd : r.sockfd with
  | none => exact Or.inl ⟨rfl, by simp [connect, hfd]⟩
  | some sockfd =>
    refine Or.inr ⟨sockfd, _, rfl, rfl, ?_⟩
    simp only [connect, hfd, Attempt.inProgress]
    cases r.errno <;> simp

theorem connecting_eq (hn : s.channel_ = none) (sockfd : ℕ) :
    s.connecting sockfd = .ok { s.log (.connecting s.channel_) with
      state_ := .kConnecting, channel_ := some (Channel.enableWriting { fd := sockfd }) } := by
  simp [connecting, assert, log, hn]

theorem Holding.connecting {sockfd : ℕ} (h : Holding s sockfd) (hreset : .resetChannel ∉ s.pending) :
    ∃ t, s.connecting sockfd = .ok t ∧ Single t := by
  have hn : s.channel_ = none := by
    rcases h.vacated with ⟨hn, _⟩ | ⟨c, _, _, hcount⟩
    · exact hn
    · rw [List.count_eq_zero_of_not_mem hreset] at hcount
      cases hcount
  obtain ⟨k, hc⟩ := h.custody
  refine ⟨_, connecting_eq hn sockfd, ?_⟩
  constructor
  · exact trace_snoc h.trace hn
  · simp [outstanding, log, h.timers, List.count_eq_zero_of_not_mem h.starts]
  · exact pairwise_of_no_start h.starts
  · exact ⟨_, .connecting k rfl rfl rfl hreset, hc⟩

theorem Ready.startInLoop (h : Ready s) {r : Attempt} (hfresh : s.Fresh r)
    (hr : s.connect_ = true → .resetChannel ∈ s.pending → r.inProgress = false) :
    ∃ t, s.startInLoop r = .ok t ∧ Single t := by
  have hready : Ready (s.log (.startInLoop s.state_)) := { h with trace := trace_snoc h.trace h.rest.1 }
  have hstate : (s.log (.startInLoop s.state_)).state_ = .kDisconnected := h.rest.1
  simp only [Connector.startInLoop, assert_pos hstate, ok_bind]
  split_ifs with hconn
  · obtain ⟨-, he⟩ | ⟨sockfd, t, hfd, ht, hcase⟩ := connect_cases (s.log (.startInLoop s.state_)) r
    · exact ⟨_, he, hready.single⟩
    · have hhold : Holding t sockfd := by
        rw [ht]
        have hcust := hready.custody.create (hfresh sockfd hfd) ()
        exact ⟨hready.trace, hready.rest.2.1, hready.rest.2.2, hready.vacated, _, hcust⟩
      obtain ⟨hprog, he⟩ | he | he := hcase
      · rw [he]
        apply hhold.connecting
        intro hreset
        rw [ht] at hreset
        have hnot := hr hconn hreset
        rw [hprog] at hnot
        cases hnot
      · exact ⟨_, he, hhold.retry⟩
      · refine ⟨_, he, hhold.close ?_⟩
        rw [ht]
        simp [hstate]
  · exact ⟨_, rfl, hready.single⟩

theorem removeAndResetChannel_eq {c : Channel} (h : s.channel_ = some c) :
    s.removeAndResetChannel =
      .ok (c.fd.toNat, queueInLoop { s with channel_ := some (removedChannel c) } .resetChannel) := by
  have hnone : c.disableAll.isNoneEvent = true := by simp [Channel.disableAll, Channel.isNoneEvent, Channel.Interest.mask]
  have hnew : c.disableAll.index ≠ EPollPoller.kNew := c.change_ne_new .disableAll
  simp only [removeAndResetChannel, h, assert_pos hnone, assert_pos hnew, ok_bind]
  rfl

/-- `stopInLoop` has left `kConnecting` by then, the handlers have not. -/
theorem Single.removeAndResetChannel (h : Single s) (hs : s.state_ = .kConnecting) (state : States) :
    ∃ sockfd t, Connector.removeAndResetChannel { s with state_ := state } = .ok (sockfd, t) ∧
      Holding t sockfd ∧ t.state_ = state ∧ t.connect_ = s.connect_ := by
  obtain ⟨-, hstart, htimers⟩ := h.atRest_of_state (by simp [hs])
  obtain ⟨held, hshape, hc⟩ := h.custody
  cases hshape with
  | vacated hne => exact absurd hs hne
  | @connecting c fd k _ hchan hfd hreset =>
    refine ⟨_, _, removeAndResetChannel_eq (s := { s with state_ := state }) hchan, ?_, rfl, rfl⟩
    constructor
    · exact h.trace
    · simpa [Connector.queueInLoop] using hstart
    · exact htimers
    · refine Or.inr ⟨_, rfl, ⟨rfl, rfl⟩, ?_⟩
      simp [Connector.queueInLoop, List.count_eq_zero_of_not_mem hreset]
    · have hnat : c.fd.toNat = fd := by simp [hfd]
      rw [hnat]
      exact ⟨k, hc⟩

theorem Single.stopInLoop (h : Single s) : ∃ t, s.stopInLoop = .ok t ∧ Single t := by
  unfold Connector.stopInLoop
  split_ifs with hs
  · obtain ⟨sockfd, t, he, hh, -, -⟩ := h.removeAndResetChannel hs .kDisconnected
    exact ⟨_, by rw [he, ok_bind], hh.retry⟩
  · exact ⟨s, rfl, h⟩

theorem Single.handleError (h : Single s) :
    ∃ t, s.handleError = .ok t ∧ Single t ∧ (t.state_ = .kConnected → s.state_ = .kConnected) := by
  unfold Connector.handleError
  split_ifs with hs
  · obtain ⟨sockfd, t, he, hh, -, -⟩ := h.removeAndResetChannel hs s.state_
    refine ⟨_, by rw [he, ok_bind], hh.retry, ?_⟩
    simp [retry_state]
  · exact ⟨s, rfl, h, id⟩

theorem Single.handleWrite (h : Single s) (o : Outcome) (hs : s.state_ ≠ .kConnected) :
    ∃ t, s.handleWrite o = .ok t ∧ Single t := by
  unfold Connector.handleWrite
  by_cases hc : s.state_ = .kConnecting
  · obtain ⟨sockfd, t, he, hh, -, -⟩ := h.removeAndResetChannel hc s.state_
    have hkept : Holding { t with state_ := .kConnected } sockfd := { hh with }
    rw [if_pos hc, he, ok_bind]
    dsimp only
    split_ifs
    · exact ⟨_, rfl, hh.retry⟩
    · exact ⟨_, rfl, hh.retry⟩
    · exact ⟨_, rfl, hkept.hand (by simp)⟩
    · exact ⟨_, rfl, hkept.close (by simp)⟩
  · have hd : s.state_ = .kDisconnected := by
      cases hst : s.state_ with
      | kDisconnected => rfl
      | kConnecting => exact absurd hst hc
      | kConnected => exact absurd hst hs
    rw [if_neg hc, assert_pos hd, ok_bind]
    exact ⟨s, rfl, h⟩

/-- In one event `handleError` may leave nothing for `handleWrite` to do, but `handleWrite` runs once only. -/
theorem Single.handleEvent (h : Single s) (o : Outcome) (callbacks : List Channel.Callback)
    (hw : callbacks.count .write ≤ 1) (hs : s.state_ = .kConnected → .write ∉ callbacks) :
    ∃ t, s.handleEvent o callbacks = .ok t ∧ Single t := by
  induction callbacks generalizing s with
  | nil => exact ⟨s, rfl, h⟩
  | cons c cs ih =>
    have hrest : cs.count .write ≤ 1 := le_trans (List.count_le_count_cons) hw
    unfold Connector.handleEvent
    cases c with
    | close => exact ih h hrest fun hc => List.not_mem_of_not_mem_cons (hs hc)
    | read => exact ih h hrest fun hc => List.not_mem_of_not_mem_cons (hs hc)
    | error =>
      obtain ⟨t, he, ht, hst⟩ := h.handleError
      rw [callback, he, ok_bind]
      exact ih ht hrest fun hc => List.not_mem_of_not_mem_cons (hs (hst hc))
    | write =>
      have hne : s.state_ ≠ .kConnected := fun hc => hs hc List.mem_cons_self
      obtain ⟨t, he, ht⟩ := h.handleWrite o hne
      rw [callback, he, ok_bind]
      apply ih ht hrest
      intro _
      rw [← List.count_eq_zero]
      rw [List.count_cons_self] at hw
      omega

theorem Single.resetChannel (h : Single s) {pending : List Functor} (hp : s.pending = .resetChannel :: pending) :
    ∃ t, Connector.resetChannel { s with pending } = .ok t ∧ Single t := by
  have horder := h.order
  rw [hp, List.pairwise_cons] at horder
  obtain ⟨held, hshape, hc⟩ := h.custody
  cases hshape with
  | connecting k _ _ _ hreset => simp [hp] at hreset
  | vacated hs hv =>
    obtain ⟨_, hreset⟩ | ⟨c, hchan, hr, hcount⟩ := hv
    · simp [hp] at hreset
    · refine ⟨{ s with pending, channel_ := none, trace := s.trace ++ [.resetChannel s.channel_] }, ?_, ?_⟩
      · simp only [Connector.resetChannel, log, hchan, assert_pos hr.1, assert_pos hr.2, ok_bind]
      constructor
      · apply trace_snoc h.trace
        intro c' hc'
        rw [hchan] at hc'
        cases hc'
        exact hr
      · have hone := h.one
        simpa [outstanding, hp] using hone
      · exact horder.2
      · refine ⟨[], .vacated hs (Or.inl ⟨rfl, ?_⟩), hc⟩
        rw [hp, List.count_cons_self] at hcount
        exact List.count_eq_zero.mp (Nat.succ.inj hcount)

theorem Single.runFunctor (h : Single s) {f : Functor} {pending : List Functor} {r : Attempt}
    (hp : s.pending = f :: pending) (hfresh : s.Fresh r) :
    ∃ t, Connector.runFunctor { s with pending } r f = .ok t ∧ Single t := by
  cases f with
  | resetChannel => exact h.resetChannel hp
  | stopInLoop => exact (h.pop hp (by simp)).stopInLoop
  | startInLoop =>
    have hpop := h.pop hp (by simp)
    have hrest : AtRest { s with pending } := by
      have hcount : s.outstanding = outstanding { s with pending } + 1 := by
        rw [outstanding, hp, List.count_cons_self]
        rfl
      rw [atRest_iff]
      have hone := h.one
      omega
    apply (hpop.ready hrest).startInLoop hfresh
    intro _ hreset
    have horder := h.order
    rw [hp, List.pairwise_cons] at horder
    exact absurd rfl (horder.1 _ hreset rfl)

theorem Single.timer (h : Single s) {i : ℕ} {r : Attempt} (hi : i < s.timers.length) (hfresh : s.Fresh r)
    (hr : s.connect_ = true → .resetChannel ∈ s.pending → r.inProgress = false) :
    ∃ t, Connector.startInLoop { s with timers := s.timers.eraseIdx i } r = .ok t ∧ Single t := by
  have hrest : AtRest { s with timers := s.timers.eraseIdx i } := by
    have hone := h.one
    rw [atRest_iff]
    simp only [outstanding, List.length_eraseIdx, if_pos hi] at hone ⊢
    omega
  have hd : s.state_ = .kDisconnected := hrest.1
  obtain ⟨hv, hc⟩ := h.vacated (by simp [hd])
  have hready : Ready { s with timers := s.timers.eraseIdx i } := ⟨h.trace, hrest, hv, hc⟩
  exact hready.startInLoop hfresh hr

theorem Single.restart (h : Single s) {r : Attempt} (hs : s.state_ = .kConnected) (hfresh : s.Fresh r)
    (hr : .resetChannel ∈ s.pending → r.inProgress = false) : ∃ t, s.restart r = .ok t ∧ Single t := by
  have hrest := h.atRest_of_state (by simp [hs])
  obtain ⟨hv, hc⟩ := h.vacated (by simp [hs])
  have hready : Ready { s with state_ := .kDisconnected, retryDelayMs_ := kInitRetryDelayMs, connect_ := true } :=
    ⟨h.trace, hrest, hv, hc⟩
  exact hready.startInLoop hfresh fun _ => hr

theorem Single.start (h : Single s) {isInLoopThread : Bool} {r : Attempt} (hrest : s.AtRest) (hfresh : s.Fresh r)
    (hr : isInLoopThread = true → .resetChannel ∈ s.pending → r.inProgress = false) :
    ∃ t, s.start isInLoopThread r = .ok t ∧ Single t := by
  have hready : Ready { s with connect_ := true } := { h.ready hrest with }
  unfold Connector.start
  dsimp only
  split_ifs with hin
  · exact hready.startInLoop hfresh fun _ => hr hin
  · exact ⟨_, rfl, hready.single.queueInLoop (by simp) fun _ => hrest⟩

theorem Single.step (h : Single s) {i : Step} (he : s.Enabled i) (ho : s.Orderly i) :
    ∃ t, s.step i = .ok t ∧ Single t := by
  cases i with
  | start isInLoopThread r => exact h.start ho.1 he ho.2
  | stop => exact ⟨_, rfl, h.stop⟩
  | restart r => exact h.restart ho.1 he ho.2
  | functor r =>
    unfold Connector.step
    cases hp : s.pending with
    | nil => exact absurd hp he.1
    | cons f pending => exact h.runFunctor hp he.2
  | timer i r => exact h.timer he.1 he.2 ho
  | event revents o =>
    apply h.handleEvent o _ (count_write_handleEventWithGuard revents)
    intro hs
    obtain ⟨c, hc, hadded⟩ := he
    obtain ⟨-, hnew⟩ := (h.vacated (by simp [hs])).1.removed hc
    rw [hadded] at hnew
    cases hnew
  | release fd =>
    obtain ⟨f, hf, hh⟩ := he
    obtain ⟨held, hshape, hc⟩ := h.custody
    exact ⟨_, rfl, h.trace, h.one, h.order, held, hshape.congr rfl rfl rfl, hc.release hf hh⟩

end Steps

theorem Single.connectingSockets_le {s : Connector} (h : Single s) : s.connectingSockets.length ≤ 1 := by
  obtain ⟨held, hshape, hc⟩ := h.custody
  have hnd : s.connectingSockets.Nodup := List.nodup_range.filter _
  have hsub : s.connectingSockets ⊆ held.map Prod.snd := by
    intro k hk
    rw [← hc.owned_iff]
    simpa [connectingSockets] using hk
  have hle := (List.Nodup.subperm hnd hsub).length_le
  cases hshape with
  | connecting k => simpa using hle
  | vacated => exact le_trans hle (by simp)

/-- In every run whose calls and timers are orderly the assertions hold, at the places the run has passed and in
whatever orderly step comes next. -/
theorem one_attempt_at_a_time [Build] {steps : List Step} {s : Connector}
    (h : Path step (fun s i => s.Enabled i ∧ s.Orderly i) {} steps s) :
    (∀ p ∈ s.trace, p.Holds) ∧ s.connectingSockets.length ≤ 1 ∧
      ∀ i, s.Enabled i → s.Orderly i → ∃ t, s.step i = .ok t := by
  have hs : Single s := by
    apply h.invariant initial_single
    intro t i u ht hi hu
    obtain ⟨v, hv, hsingle⟩ := ht.step hi.1 hi.2
    rw [hu] at hv
    cases hv
    exact hsingle
  refine ⟨hs.trace, hs.connectingSockets_le, ?_⟩
  intro i he ho
  obtain ⟨t, ht, -⟩ := hs.step he ho
  exact ⟨t, ht⟩

theorem one_attempt_at_a_time_retried :
    letI := Build.debug
    let steps : List Step := [.start false ⟨none, .success⟩, .functor ⟨some 3, .ECONNREFUSED⟩, .stop,
      .functor ⟨none, .success⟩, .timer 0 ⟨none, .success⟩, .start true ⟨some 3, .EINPROGRESS⟩,
      .event (POLLOUT ||| POLLERR) { err := 111 }, .functor ⟨none, .success⟩, .timer 0 ⟨some 4, .EINPROGRESS⟩]
    ∃ s : Connector, Path step (fun s i => s.Enabled i ∧ s.Orderly i) {} steps s ∧ s.state_ = .kConnecting ∧
      (∀ p ∈ s.trace, p.Holds) ∧ s.connectingSockets.length ≤ 1 ∧ ∃ t, s.step (.event POLLOUT {}) = .ok t := by
  intro steps
  let _ := Build.debug
  obtain ⟨s, hs, hp⟩ := Path.exists_of_any step (fun s i => s.Enabled i ∧ s.Orderly i) {} steps
    (fun u : Connector => u.state_ = .kConnecting ∧ u.Enabled (.event POLLOUT {})) (by decide +kernel)
  obtain ⟨hstate, he⟩ := of_decide_eq_true hp
  obtain ⟨htrace, hle, hnext⟩ := one_attempt_at_a_time hs
  exact ⟨s, hs, hstate, htrace, hle, hnext _ he trivial⟩

-- `stopInLoop` gives up the first attempt, and the second `startInLoop` comes before `resetChannel`
theorem stop_start_fails_assertion :
    letI := Build.debug
    let connecting : List Step := [.start false ⟨none, .success⟩, .functor ⟨some 3, .EINPROGRESS⟩]
    let stopStart : List Step := [.stop, .start false ⟨none, .success⟩, .functor ⟨none, .success⟩]
    ∃ s t : Connector, Path step Enabled {} connecting s ∧ s.state_ = .kConnecting ∧ Path step Enabled s stopStart t ∧
      t.Enabled (.functor ⟨some 4, .EINPROGRESS⟩) ∧ t.step (.functor ⟨some 4, .EINPROGRESS⟩) = .error .assertion := by
  intro connecting stopStart
  let _ := Build.debug
  obtain ⟨s, hs, hstate, t, ht, he, hfail⟩ : ∃ s : Connector, guardedRun step Enabled {} connecting = some s ∧
      s.state_ = .kConnecting ∧ ∃ t, guardedRun step Enabled s stopStart = some t ∧
        t.Enabled (.functor ⟨some 4, .EINPROGRESS⟩) ∧
        t.step (.functor ⟨some 4, .EINPROGRESS⟩) = .error .assertion :=
    ⟨_, rfl, rfl, _, rfl, by decide +kernel, rfl⟩
  exact ⟨s, t, .of_guardedRun hs, hstate, .of_guardedRun ht, he, hfail⟩

end Networker.Connector
