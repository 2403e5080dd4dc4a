import Networker.ConnectAttempts

/-!
Who closes the sockets of a connector. One `start()` begins, and `restart()` follows a
connection that was handed out; the rest comes from the loop. That such calls find the
connector at rest is an invariant of the calls made so far.
-/

namespace Networker.Connector

open CheckedRuns Descriptors

/-- A connector with the calls its owner has made. -/
structure Session where
  connector : Connector := {}
  started : Bool := false
  restarts : ℕ := 0

def Step.isStart : Step → Bool
  | .start _ _ => true
  | _ => false

def Step.isRestart : Step → Bool
  | .restart _ => true
  | _ => false

/-- `start()` is called once, and `restart()` at most once for each connection handed out, whether or not that
connection has been closed and `stop()` has been called by then. -/
def Session.Enabled (s : Session) (i : Step) : Prop :=
  s.connector.Enabled i ∧ (i.isStart = true → s.started = false) ∧
    (i.isRestart = true → s.restarts < s.connector.files.handed.length)

instance (s : Session) (i : Step) : Decidable (s.Enabled i) :=
  inferInstanceAs (Decidable (_ ∧ (_ = _ → _ = _) ∧ (_ = _ → _ < _)))

/-- No retry timer and no `restart()` begins an attempt while `resetChannel` is queued. -/
def Clear (s : Connector) : Step → Prop
  | .restart r => .resetChannel ∈ s.pending → r.inProgress = false
  | .timer _ r => s.connect_ = true → .resetChannel ∈ s.pending → r.inProgress = false
  | .start _ _ | .stop | .functor _ | .event _ _ | .release _ => True

instance (s : Connector) : (i : Step) → Decidable (s.Clear i)
  | .restart _ => inferInstanceAs (Decidable (_ ∈ _ → _ = _))
  | .timer _ _ => inferInstanceAs (Decidable (_ = _ → _ ∈ _ → _ = _))
  | .start _ _ | .stop | .functor _ | .event _ _ | .release _ => inferInstanceAs (Decidable True)

structure Accounted (s : Connector) : Prop where
  once : ∀ k < s.files.created, s.files.closed.count k + s.files.handed.count k ≤ 1
  settled : s.state_ ≠ .kConnecting → ∀ k < s.files.created, s.files.closed.count k + s.files.handed.count k = 1
  -- the attempts before the one under way are settled too
  held : s.connectingSockets.length ≤ 1
  -- no number is closed that is not, or no longer, one of its sockets
  stray : s.files.stray = []
  closes : ∀ (sockfd : ℕ) (channel : Option Channel), .close sockfd channel ∈ s.trace → ∀ c ∈ channel, c.fd = sockfd → Removed c
  timers : s.timers.length ≤ 1

theorem Single.accounted {s : Connector} (h : Single s) : s.Accounted := by
  obtain ⟨held, hshape, hc⟩ := h.custody
  have hcount : ∀ k < s.files.created, s.files.closed.count k + s.files.handed.count k ≤ 1 := by
    intro k _
    have hle := List.nodup_iff_count_le_one.mp hc.nodup k
    rw [List.count_append, List.count_append] at hle
    omega
  constructor
  · exact hcount
  · intro hs k hk
    exact (h.vacated hs).2.once hk (by simp)
  · exact h.connectingSockets_le
  · exact hc.stray
  · intro sockfd channel hp
    exact h.trace _ hp
  · have hone := h.one
    unfold outstanding at hone
    omega

section Calls

variable {s t : Connector} {n : ℕ}

/-- After `n` calls of `restart()`, and unless a connection has just been handed out, `n` have been. -/
def Balanced (n : ℕ) (s : Connector) : Prop :=
  s.files.handed.length = n ∨ s.state_ = .kConnected ∧ s.files.handed.length = n + 1

/-- `start()` has not been called. -/
structure Pristine (s : Connector) : Prop where
  rest : s.AtRest
  channel : s.channel_ = none
  reset : .resetChannel ∉ s.pending

theorem Balanced.handed (h : Balanced n s) (hs : s.state_ ≠ .kConnected) : s.files.handed.length = n := by
  rcases h with h | ⟨hc, _⟩
  · exact h
  · exact absurd hc hs

theorem Balanced.connected (h : Balanced n s) (hn : n < s.files.handed.length) : s.state_ = .kConnected := by
  rcases h with h | ⟨hc, _⟩
  · omega
  · exact hc

theorem retry_handed (s : Connector) (sockfd : ℕ) : (s.retry sockfd).files.handed = s.files.handed := by
  unfold retry
  dsimp only
  split_ifs <;> exact close_handed _ _

theorem Balanced.hand (h : s.files.handed.length = n) (hs : s.state_ = .kConnected) (sockfd : ℕ) :
    Balanced n { s with files := s.files.hand sockfd } := by
  unfold Balanced Descriptors.hand
  cases s.files.table sockfd with
  | none => simp [h]
  | some f => simp [h, hs]

/-- The channel is removed and its socket is given up; `stopInLoop` has left `kConnecting` by then. -/
def Abandons (s t : Connector) : Prop :=
  ∃ c sockfd state, t = (queueInLoop { s with state_ := state, channel_ := some c } .resetChannel).retry sockfd

theorem Balanced.abandons (h : Balanced n s) (hs : s.state_ = .kConnecting) (ht : s.Abandons t) : Balanced n t := by
  obtain ⟨c, sockfd, state, rfl⟩ := ht
  left
  rw [retry_handed]
  exact h.handed (by simp [hs])

variable [Build]

theorem removeAndResetChannel_ok {sockfd : ℕ} (h : s.removeAndResetChannel = .ok (sockfd, t)) :
    ∃ c, t = queueInLoop { s with channel_ := some c } .resetChannel := by
  unfold removeAndResetChannel at h
  split at h
  · cases h
  · cases assert_bind_ok (assert_bind_ok h)
    exact ⟨_, rfl⟩

theorem stopInLoop_ok (h : s.stopInLoop = .ok t) : t = s ∨ s.state_ = .kConnecting ∧ s.Abandons t := by
  unfold Connector.stopInLoop at h
  split_ifs at h with hs
  · obtain ⟨⟨sockfd, u⟩, hu, ht⟩ := bind_eq_ok.mp h
    obtain ⟨c, rfl⟩ := removeAndResetChannel_ok hu
    cases ht
    exact Or.inr ⟨hs, c, sockfd, .kDisconnected, rfl⟩
  · cases h
    exact Or.inl rfl

theorem handleError_ok (h : s.handleError = .ok t) : t = s ∨ s.state_ = .kConnecting ∧ s.Abandons t := by
  unfold Connector.handleError at h
  split_ifs at h with hs
  · obtain ⟨⟨sockfd, u⟩, hu, ht⟩ := bind_eq_ok.mp h
    obtain ⟨c, rfl⟩ := removeAndResetChannel_ok hu
    cases ht
    exact Or.inr ⟨hs, c, sockfd, s.state_, rfl⟩
  · cases h
    exact Or.inl rfl

theorem handleWrite_ok {o : Outcome} (h : s.handleWrite o = .ok t) :
    t = s ∨ s.state_ = .kConnecting ∧ (s.Abandons t ∨ ∃ c sockfd u,
      u = queueInLoop { s with state_ := .kConnected, channel_ := some c } .resetChannel ∧
        (s.connect_ = true ∧ t = { u with files := u.files.hand sockfd } ∨
          s.connect_ = false ∧ t = u.close sockfd)) := by
  unfold Connector.handleWrite at h
  by_cases hs : s.state_ = .kConnecting
  · rw [if_pos hs] at h
    obtain ⟨⟨sockfd, u⟩, hu, ht⟩ := bind_eq_ok.mp h
    obtain ⟨c, rfl⟩ := removeAndResetChannel_ok hu
    refine Or.inr ⟨hs, ?_⟩
    dsimp only at ht
    split_ifs at ht with _ _ hon
    · cases ht
      exact Or.inl ⟨c, sockfd, s.state_, rfl⟩
    · cases ht
      exact Or.inl ⟨c, sockfd, s.state_, rfl⟩
    · cases ht
      exact Or.inr ⟨c, sockfd, _, rfl, Or.inl ⟨hon, rfl⟩⟩
    · cases ht
      exact Or.inr ⟨c, sockfd, _, rfl, Or.inr ⟨Bool.not_eq_true _ ▸ hon, rfl⟩⟩
  · rw [if_neg hs] at h
    cases assert_bind_ok h
    exact Or.inl rfl

theorem resetChannel_ok (h : s.resetChannel = .ok t) :
    t = { s.log (.resetChannel s.channel_) with channel_ := none } := by
  unfold Connector.resetChannel at h
  cases hc : s.channel_ with
  | none =>
    simp only [log, hc] at h
    cases h
    simp [log, hc]
  | some c =>
    simp only [log, hc] at h
    cases assert_bind_ok (assert_bind_ok h)
    rfl

theorem handleEvent_preserves {P : Connector → Prop} {o : Outcome}
    (herror : ∀ s t : Connector, P s → s.handleError = .ok t → P t)
    (hwrite : ∀ s t : Connector, P s → s.handleWrite o = .ok t → P t)
    {callbacks : List Channel.Callback} (h : s.handleEvent o callbacks = .ok t) (hs : P s) : P t := by
  induction callbacks generalizing s with
  | nil =>
    cases h
    exact hs
  | cons c cs ih =>
    obtain ⟨u, hu, h⟩ := bind_eq_ok.mp h
    apply ih h
    cases c with
    | close =>
      cases hu
      exact hs
    | read =>
      cases hu
      exact hs
    | error => exact herror s u hs hu
    | write => exact hwrite s u hs hu

theorem startInLoop_handed {r : Attempt} (h : s.startInLoop r = .ok t) : t.files.handed = s.files.handed := by
  have h := assert_bind_ok h
  split_ifs at h
  · obtain ⟨-, he⟩ | ⟨sockfd, u, -, rfl, ⟨-, he⟩ | he | he⟩ := connect_cases (s.log (.startInLoop s.state_)) r
    · cases he.symm.trans h
      rfl
    · cases assert_bind_ok (he.symm.trans h)
      rfl
    · cases he.symm.trans h
      exact retry_handed _ _
    · cases he.symm.trans h
      exact close_handed _ _
  · cases h
    rfl

theorem Balanced.startInLoop (h : Balanced n s) (hs : s.state_ ≠ .kConnected) {r : Attempt}
    (he : s.startInLoop r = .ok t) : Balanced n t := by
  left
  rw [startInLoop_handed he]
  exact h.handed hs

theorem Balanced.stopInLoop (h : Balanced n s) (he : s.stopInLoop = .ok t) : Balanced n t := by
  obtain rfl | ⟨hs, ht⟩ := stopInLoop_ok he
  · exact h
  · exact h.abandons hs ht

theorem Balanced.handleError (h : Balanced n s) (he : s.handleError = .ok t) : Balanced n t := by
  obtain rfl | ⟨hs, ht⟩ := handleError_ok he
  · exact h
  · exact h.abandons hs ht

theorem Balanced.handleWrite (h : Balanced n s) {o : Outcome} (he : s.handleWrite o = .ok t) : Balanced n t := by
  obtain rfl | ⟨hs, ht | ⟨c, sockfd, u, rfl, ⟨-, rfl⟩ | ⟨-, rfl⟩⟩⟩ := handleWrite_ok he
  · exact h
  · exact h.abandons hs ht
  · apply Balanced.hand _ rfl
    exact h.handed (by simp [hs])
  · left
    exact (congrArg List.length (close_handed _ _)).trans (h.handed (by simp [hs]))

theorem Pristine.functor (h : Pristine s) {r : Attempt} (hp : s.pending ≠ []) (he : s.step (.functor r) = .ok t) :
    Pristine t := by
  obtain ⟨⟨hstate, hstart, htimers⟩, hchannel, hreset⟩ := h
  cases hq : s.pending with
  | nil => exact absurd hq hp
  | cons f pending =>
    rw [hq, List.mem_cons, not_or] at hstart hreset
    cases f with
    | startInLoop => exact absurd rfl hstart.1
    | resetChannel => exact absurd rfl hreset.1
    | stopInLoop =>
      have hnot : s.state_ ≠ .kConnecting := by simp [hstate]
      simp only [Connector.step, hq, Connector.runFunctor, Connector.stopInLoop, if_neg hnot] at he
      cases he
      exact ⟨⟨hstate, hstart.2, htimers⟩, hchannel, hreset.2⟩

theorem Pristine.step (h : Pristine s) {i : Step} (hstart : i.isStart = false) (hrestart : i.isRestart = false)
    (hen : s.Enabled i) (he : s.step i = .ok t) : Pristine t := by
  cases i with
  | start => cases hstart
  | restart => cases hrestart
  | functor r => exact h.functor hen.1 he
  | timer i r =>
    have hi := hen.1
    rw [h.rest.2.2] at hi
    exact absurd hi (Nat.not_lt_zero i)
  | event revents o =>
    obtain ⟨c, hc, -⟩ := hen
    rw [h.channel] at hc
    cases hc
  | stop =>
    cases he
    obtain ⟨⟨hstate, hstart, htimers⟩, hchannel, hreset⟩ := h
    refine ⟨⟨hstate, ?_, htimers⟩, hchannel, ?_⟩
    · simpa [stop, queueInLoop] using hstart
    · simpa [stop, queueInLoop] using hreset
  | release fd =>
    cases he
    exact ⟨h.rest, h.channel, h.reset⟩

/-- A functor, a timer or an event: it does not take a connection that was handed out for an attempt to make. -/
theorem Balanced.step (h : Balanced n s) (hs : Single s) {i : Step} (hrestart : i.isRestart = false)
    (hstart : i.isStart = true → s.state_ ≠ .kConnected) (hen : s.Enabled i) (he : s.step i = .ok t) :
    Balanced n t := by
  have hone := hs.one
  unfold outstanding at hone
  cases i with
  | restart => cases hrestart
  | start isInLoopThread r =>
    simp only [Connector.step, Connector.start] at he
    split_ifs at he
    · exact startInLoop (s := { s with connect_ := true }) h (hstart rfl) he
    · cases he
      exact h
  | stop =>
    cases he
    exact h
  | functor r =>
    cases hq : s.pending with
    | nil => exact absurd hq hen.1
    | cons f pending =>
      simp only [Connector.step, hq] at he
      cases f with
      | stopInLoop => exact stopInLoop (s := { s with pending }) h he
      | resetChannel =>
        rw [resetChannel_ok he]
        exact h
      | startInLoop =>
        apply startInLoop (s := { s with pending }) h _ he
        intro (hc : s.state_ = .kConnected)
        simp only [hc, hq, reduceCtorEq, if_false, List.count_cons_self] at hone
        omega
  | timer i r =>
    apply startInLoop (s := { s with timers := s.timers.eraseIdx i }) h _ he
    intro (hc : s.state_ = .kConnected)
    have hi := hen.1
    simp only [hc, reduceCtorEq, if_false] at hone
    omega
  | event revents o =>
    apply handleEvent_preserves _ _ he h
    · exact fun _ _ hb => hb.handleError
    · exact fun _ _ hb => hb.handleWrite
  | release fd =>
    cases he
    exact h

theorem Balanced.restart (h : Balanced n s) (hn : n < s.files.handed.length) {r : Attempt}
    (he : s.restart r = .ok t) : Balanced (n + 1) t := by
  left
  rw [startInLoop_handed he]
  rcases h with h | ⟨_, h⟩
  · omega
  · exact h

end Calls

section Sessions

def Session.step [Build] (s : Session) (i : Step) : Exec Session := do
  let connector ← s.connector.step i
  .ok { connector, started := s.started || i.isStart, restarts := s.restarts + i.isRestart.toNat }

structure Session.Tracked (s : Session) : Prop where
  single : Single s.connector
  fresh : s.started = false → Pristine s.connector
  balanced : Balanced s.restarts s.connector

variable {s t : Session}

theorem Session.initial_tracked : Tracked {} := by
  constructor
  · exact initial_single
  · intro _
    exact ⟨⟨rfl, by simp, rfl⟩, rfl, by simp⟩
  · exact Or.inl rfl

/-- The calls made so far leave the connector where the next one needs it. -/
theorem Session.Tracked.orderly (h : Tracked s) {i : Step} (hen : s.Enabled i) (hc : s.connector.Clear i) :
    s.connector.Orderly i := by
  cases i with
  | start isInLoopThread r =>
    have hp := h.fresh (hen.2.1 rfl)
    exact ⟨hp.rest, fun _ hreset => absurd hreset hp.reset⟩
  | restart r => exact ⟨h.balanced.connected (hen.2.2 rfl), hc⟩
  | timer i r => exact hc
  | stop => trivial
  | functor r => trivial
  | event revents o => trivial
  | release fd => trivial

variable [Build]

theorem Session.Tracked.step (h : Tracked s) {i : Step} (hen : s.Enabled i) (hc : s.connector.Clear i) :
    ∃ t, s.step i = .ok t ∧ Tracked t := by
  obtain ⟨u, hu, hsingle⟩ := h.single.step hen.1 (h.orderly hen hc)
  refine ⟨_, by rw [Session.step, hu, ok_bind], hsingle, ?_, ?_⟩
  · intro hstarted
    obtain ⟨hno, hstart⟩ := Bool.or_eq_false_iff.mp hstarted
    have hp := h.fresh hno
    have hrestart : i.isRestart = false := by
      by_contra hr
      have hstate := h.balanced.connected (hen.2.2 (by simpa using hr))
      rw [hp.rest.1] at hstate
      cases hstate
    exact hp.step hstart hrestart hen.1 hu
  · cases hr : i.isRestart with
    | false =>
      apply h.balanced.step h.single hr _ hen.1 hu
      intro hstart
      rw [(h.fresh (hen.2.1 hstart)).rest.1]
      simp
    | true =>
      cases i with
      | restart r => exact h.balanced.restart (hen.2.2 rfl) hu
      | _ => cases hr

end Sessions

/-- In every session whose timers and restarts find `resetChannel` done, a socket is closed once by the connector or
handed out once, not both, and it is neither only while its attempt is under way. -/
theorem sockets_accounted [Build] {steps : List Step} {s : Session}
    (h : Path Session.step (fun s i => s.Enabled i ∧ s.connector.Clear i) {} steps s) :
    s.connector.Accounted ∧ ∀ i, s.Enabled i → s.connector.Clear i → ∃ t, s.step i = .ok t := by
  have hs : s.Tracked := by
    apply h.invariant Session.initial_tracked
    intro t i u ht hi hu
    obtain ⟨v, hv, htracked⟩ := ht.step hi.1 hi.2
    cases hu.symm.trans hv
    exact htracked
  refine ⟨hs.single.accounted, ?_⟩
  intro i hen hc
  obtain ⟨t, ht, -⟩ := hs.step hen hc
  exact ⟨t, ht⟩

theorem sockets_accounted_reconnect :
    letI := Build.debug
    let none : Attempt := ⟨none, .success⟩
    let steps : List Step := [.start false none, .functor ⟨some 3, .EINPROGRESS⟩, .event POLLOUT {},
      .functor none, .release 3, .restart ⟨some 3, .EINPROGRESS⟩, .event (POLLOUT ||| POLLERR) { err := 111 },
      .functor none, .timer 0 ⟨some 4, .EINPROGRESS⟩, .stop]
    ∃ s : Session, Path Session.step (fun s i => s.Enabled i ∧ s.connector.Clear i) {} steps s ∧
      s.connector.state_ = .kConnecting ∧ s.connector.files.created = 3 ∧ s.connector.Accounted ∧
        ∃ t, s.step (.functor none) = .ok t := by
  intro none steps
  let _ := Build.debug
  obtain ⟨s, hs, hp⟩ := Path.exists_of_any Session.step (fun s i => s.Enabled i ∧ s.connector.Clear i) {} steps
    (fun u : Session => u.connector.state_ = .kConnecting ∧ u.connector.files.created = 3 ∧
      u.Enabled (.functor none)) (by decide +kernel)
  obtain ⟨hstate, hcreated, hen⟩ := of_decide_eq_true hp
  obtain ⟨hacc, hnext⟩ := sockets_accounted hs
  exact ⟨s, hs, hstate, hcreated, hacc, hnext _ hen trivial⟩

/-- Without assertions: the retry timer expires before `resetChannel` runs, which then destroys the channel of the
second attempt. `stopInLoop` leaves `kConnecting`, has no channel to take the socket from, and its socket 4 is never
closed. -/
theorem early_timer_loses_socket :
    letI := Build.release
    let none : Attempt := ⟨none, .success⟩
    let steps : List Step := [.start true ⟨some 3, .EINPROGRESS⟩, .event POLLOUT { err := 111 },
      .timer 0 ⟨some 4, .EINPROGRESS⟩, .functor none, .stop]
    ∃ s : Session, Path Session.step Session.Enabled {} steps s ∧ s.connector.pending = [.stopInLoop] ∧
      s.connector.state_ = .kConnecting ∧ s.connector.connectingSockets = [1] ∧ s.connector.channel_ = Option.none ∧
      s.Enabled (.functor none) ∧ s.step (.functor none) = .error .undefined := by
  intro none steps
  let _ := Build.release
  obtain ⟨s, hs, hrest⟩ : ∃ s : Session, guardedRun Session.step Session.Enabled {} steps = some s ∧
      s.connector.pending = [.stopInLoop] ∧ s.connector.state_ = .kConnecting ∧
      s.connector.connectingSockets = [1] ∧ s.connector.channel_ = Option.none ∧
      s.Enabled (.functor none) ∧ s.step (.functor none) = .error .undefined :=
    ⟨_, rfl, rfl, rfl, rfl, rfl, by decide +kernel, rfl⟩
  exact ⟨s, .of_guardedRun hs, hrest⟩

end Networker.Connector
