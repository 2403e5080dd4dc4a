import Networker.BackOff
import Networker.ConnectorSockets

/-!
When a `Connector` tries again. `retry` doubles the delay up to `kMaxRetryDelayMs`, and
`restart` alone sets it back, so that a peer that keeps refusing is asked less and less often.
-/

namespace Networker

open CheckedRuns BackOff

/-- A connector with a clock that counts milliseconds. -/
structure TimedConnector where
  connector : Connector := {}
  now : ℕ := 0
  /-- when the retry timers of the connector expire -/
  dues : List ℕ := []
  /-- record: the time and the delay of every retry since the last `restart` -/
  retries : List (ℕ × ℕ) := []

namespace Connector

/-- What a step leaves of a list about the retry timers. -/
def unexpired {α : Type} (l : List α) : Step → List α
  | .timer i _ => l.eraseIdx i
  | .start _ _ | .stop | .restart _ | .functor _ | .event _ _ | .release _ => l

def startDelay (s : Connector) : Step → ℕ
  | .restart _ => kInitRetryDelayMs
  | .start _ _ | .stop | .functor _ | .timer _ _ | .event _ _ | .release _ => s.retryDelayMs_

/-- A retry timer is started or not. -/
def Retries (timers : List ℕ) (delay : ℕ) (t : Connector) : Prop :=
  (t.timers = timers ∧ t.retryDelayMs_ = delay) ∨
    (t.timers = timers ++ [delay] ∧ t.retryDelayMs_ = min (delay * 2) kMaxRetryDelayMs)

section Steps

variable {s t : Connector}

theorem retry_retries (s : Connector) (sockfd : ℕ) : Retries s.timers s.retryDelayMs_ (s.retry sockfd) := by
  unfold retry
  dsimp only
  split
  · exact Or.inr ⟨rfl, rfl⟩
  · exact Or.inl ⟨rfl, rfl⟩

theorem Abandons.retries (h : s.Abandons t) : t.state_ = .kDisconnected ∧ Retries s.timers s.retryDelayMs_ t := by
  obtain ⟨c, sockfd, state, rfl⟩ := h
  exact ⟨retry_state _ _, retry_retries (queueInLoop _ _) sockfd⟩

variable [Build]

theorem startInLoop_retries {r : Attempt} (h : s.startInLoop r = .ok t) : Retries s.timers s.retryDelayMs_ t := by
  have h := assert_bind_ok h
  split at h
  · obtain ⟨-, he⟩ | ⟨sockfd, u, -, rfl, ⟨-, he⟩ | he | he⟩ := connect_cases (s.log (.startInLoop s.state_)) r
    · obtain rfl := Except.ok.inj (he.symm.trans h)
      exact Or.inl ⟨rfl, rfl⟩
    · cases assert_bind_ok (he.symm.trans h)
      exact Or.inl ⟨rfl, rfl⟩
    · obtain rfl := Except.ok.inj (he.symm.trans h)
      exact retry_retries _ sockfd
    · obtain rfl := Except.ok.inj (he.symm.trans h)
      exact Or.inl ⟨rfl, rfl⟩
  · obtain rfl := Except.ok.inj h
    exact Or.inl ⟨rfl, rfl⟩

theorem stopInLoop_retries (h : s.stopInLoop = .ok t) : Retries s.timers s.retryDelayMs_ t := by
  obtain rfl | ⟨-, ha⟩ := stopInLoop_ok h
  · exact Or.inl ⟨rfl, rfl⟩
  · exact ha.retries.2

/-- Of the callbacks of one event at most one gives the attempt up: it leaves `kConnecting`. -/
theorem handleEvent_retries {o : Outcome} {callbacks : List Channel.Callback} (h : s.handleEvent o callbacks = .ok t) :
    Retries s.timers s.retryDelayMs_ t := by
  let Once : Connector → Prop := fun u =>
    (u.timers = s.timers ∧ u.retryDelayMs_ = s.retryDelayMs_) ∨
      (u.state_ ≠ .kConnecting ∧ Retries s.timers s.retryDelayMs_ u)
  have habandons : ∀ u v : Connector, Once u → u.state_ = .kConnecting → u.Abandons v → Once v := by
    rintro u v (⟨htimers, hdelay⟩ | ⟨hne, -⟩) hstate ha
    · obtain ⟨hv, hretries⟩ := ha.retries
      rw [htimers, hdelay] at hretries
      exact Or.inr ⟨by simp [hv], hretries⟩
    · exact absurd hstate hne
  have honce : Once t := by
    refine handleEvent_preserves ?_ ?_ h (Or.inl ⟨rfl, rfl⟩)
    · intro u v hu hv
      obtain rfl | ⟨hstate, ha⟩ := handleError_ok hv
      · exact hu
      · exact habandons u v hu hstate ha
    · intro u v hu hv
      obtain rfl | ⟨hstate, ha | ⟨c, sockfd, w, rfl, hw⟩⟩ := handleWrite_ok hv
      · exact hu
      · exact habandons u v hu hstate ha
      · obtain ⟨htimers, hdelay⟩ | ⟨hne, -⟩ := hu
        · obtain ⟨-, rfl⟩ | ⟨-, rfl⟩ := hw
          · exact Or.inl ⟨htimers, hdelay⟩
          · exact Or.inl ⟨htimers, hdelay⟩
        · exact absurd hstate hne
  obtain hsame | ⟨-, hretries⟩ := honce
  · exact Or.inl hsame
  · exact hretries

theorem step_retries {i : Step} (h : s.step i = .ok t) : Retries (unexpired s.timers i) (s.startDelay i) t := by
  cases i with
  | start isInLoopThread r =>
    unfold Connector.step Connector.start at h
    dsimp only at h
    split at h
    · have hretries := startInLoop_retries h
      exact hretries
    · obtain rfl := Except.ok.inj h
      exact Or.inl ⟨rfl, rfl⟩
  | stop =>
    obtain rfl := Except.ok.inj h
    exact Or.inl ⟨rfl, rfl⟩
  | restart r => exact startInLoop_retries h
  | functor r =>
    unfold Connector.step at h
    dsimp only at h
    split at h
    · obtain rfl := Except.ok.inj h
      exact Or.inl ⟨rfl, rfl⟩
    · rename_i f pending _
      cases f with
      | startInLoop =>
        have hretries := startInLoop_retries h
        exact hretries
      | stopInLoop =>
        have hretries := stopInLoop_retries h
        exact hretries
      | resetChannel =>
        obtain rfl := resetChannel_ok h
        exact Or.inl ⟨rfl, rfl⟩
  | timer j r => exact startInLoop_retries h
  | event revents o => exact handleEvent_retries h
  | release fd =>
    obtain rfl := Except.ok.inj h
    exact Or.inl ⟨rfl, rfl⟩

/-- A retry is asked for when no other waits. -/
theorem Single.step_retries (h : Single s) {i : Step} (he : s.Enabled i) (ho : s.Orderly i) (hs : s.step i = .ok t) :
    Single t ∧ ((t.timers = unexpired s.timers i ∧ t.retryDelayMs_ = s.startDelay i) ∨
      (unexpired s.timers i = [] ∧ t.timers = [s.startDelay i] ∧
        t.retryDelayMs_ = min (s.startDelay i * 2) kMaxRetryDelayMs)) := by
  obtain ⟨u, hu, hsingle⟩ := h.step he ho
  rw [hs] at hu
  obtain rfl := Except.ok.inj hu
  refine ⟨hsingle, ?_⟩
  obtain hsame | ⟨htimers, hdelay⟩ := Connector.step_retries hs
  · exact Or.inl hsame
  · have hone := hsingle.one
    unfold outstanding at hone
    rw [htimers, List.length_append, List.length_singleton] at hone
    have hnil : unexpired s.timers i = [] := List.length_eq_zero_iff.mp (by omega)
    rw [hnil] at htimers
    exact Or.inr ⟨hnil, htimers, hdelay⟩

end Steps

end Connector

namespace TimedConnector

inductive Step
  | pass (ms : ℕ)
  | call (i : Connector.Step)
deriving DecidableEq, Repr

def sinceRestart (s : TimedConnector) : Connector.Step → List (ℕ × ℕ)
  | .restart _ => []
  | .start _ _ | .stop | .functor _ | .timer _ _ | .event _ _ | .release _ => s.retries

def step [Build] (s : TimedConnector) : Step → Exec TimedConnector
  | .pass ms => .ok { s with now := s.now + ms }
  | .call i => do
    let connector ← s.connector.step i
    let dues := Connector.unexpired s.dues i
    -- the timers that this step has started
    let delays := connector.timers.drop dues.length
    return { s with
      connector
      dues := dues ++ delays.map (s.now + ·)
      retries := s.sinceRestart i ++ delays.map (s.now, ·) }

/-- A timer does not expire early. -/
def Expires (s : TimedConnector) : Connector.Step → Prop
  | .timer i _ => ∃ due ∈ s.dues[i]?, due ≤ s.now
  | .start _ _ | .stop | .restart _ | .functor _ | .event _ _ | .release _ => True

def Enabled (s : TimedConnector) : Step → Prop
  | .pass _ => True
  | .call i => s.connector.Enabled i ∧ s.connector.Orderly i ∧ s.Expires i

instance (s : TimedConnector) : (i : Connector.Step) → Decidable (s.Expires i)
  | .timer i _ => inferInstanceAs (Decidable (∃ due ∈ s.dues[i]?, due ≤ s.now))
  | .start _ _ | .stop | .restart _ | .functor _ | .event _ _ | .release _ => inferInstanceAs (Decidable True)

instance (s : TimedConnector) : (i : Step) → Decidable (s.Enabled i)
  | .pass _ => inferInstanceAs (Decidable True)
  | .call _ => inferInstanceAs (Decidable (_ ∧ _ ∧ _))

/-- The invariant: the last retry waits for its timer, or its time has passed. -/
structure BacksOff (s : TimedConnector) : Prop where
  single : s.connector.Single
  backedOff : BackedOff Connector.kInitRetryDelayMs Connector.kMaxRetryDelayMs s.retries
  nextDelay : s.connector.retryDelayMs_ = delay Connector.kInitRetryDelayMs Connector.kMaxRetryDelayMs s.retries.length
  dues : s.dues.length = s.connector.timers.length
  past : ∀ r ∈ s.retries, r.1 ≤ s.now
  waits : (s.dues = [] ∧ ∀ last ∈ s.retries.getLast?, last.1 + last.2 ≤ s.now) ∨
    ∃ last ∈ s.retries.getLast?, s.dues = [last.1 + last.2]

theorem initial_backsOff : BacksOff {} := by
  refine ⟨Connector.initial_single, .nil, (delay_zero (by decide)).symm, rfl, ?_, Or.inl ⟨rfl, ?_⟩⟩
  · intro r hr
    cases hr
  · intro last hlast
    cases hlast

theorem unexpired_length {α β : Type} {l : List α} {m : List β} (h : l.length = m.length) (i : Connector.Step) :
    (Connector.unexpired l i).length = (Connector.unexpired m i).length := by
  cases i with
  | timer j r =>
    unfold Connector.unexpired
    dsimp only
    rw [List.length_eraseIdx, List.length_eraseIdx, h]
  | start | stop | restart | functor | event | release => exact h

section Steps

variable [Build] {s t : TimedConnector}

theorem BacksOff.call (h : BacksOff s) {i : Connector.Step} (he : s.Enabled (.call i)) (hs : s.step (.call i) = .ok t) :
    BacksOff t := by
  obtain ⟨hen, ho, hexp⟩ := he
  obtain ⟨connector, hc, hs⟩ := bind_eq_ok.mp hs
  obtain rfl := Except.ok.inj hs
  obtain ⟨hsingle, hcase⟩ := h.single.step_retries hen ho hc
  have hlen := unexpired_length h.dues i
  -- what is known of the retries before this step is known after `restart`, which forgets them
  have hbefore : BackedOff Connector.kInitRetryDelayMs Connector.kMaxRetryDelayMs (s.sinceRestart i) ∧
      s.connector.startDelay i = delay Connector.kInitRetryDelayMs Connector.kMaxRetryDelayMs (s.sinceRestart i).length ∧
      (∀ r ∈ s.sinceRestart i, r.1 ≤ s.now) ∧
      ((Connector.unexpired s.dues i = [] ∧ ∀ last ∈ (s.sinceRestart i).getLast?, last.1 + last.2 ≤ s.now) ∨
        ∃ last ∈ (s.sinceRestart i).getLast?, Connector.unexpired s.dues i = [last.1 + last.2]) := by
    cases i with
    | restart r =>
      have hrest := (h.single.atRest_of_state (by rw [ho.1]; simp)).2.2
      have hnone : s.dues = [] := List.length_eq_zero_iff.mp (h.dues.trans (congrArg List.length hrest))
      have hfirst : Connector.kInitRetryDelayMs = delay Connector.kInitRetryDelayMs Connector.kMaxRetryDelayMs 0 :=
        (delay_zero (by decide)).symm
      refine ⟨.nil, hfirst, ?_, Or.inl ⟨hnone, ?_⟩⟩
      · intro r hr
        cases hr
      · intro last hlast
        cases hlast
    | timer j r =>
      refine ⟨h.backedOff, h.nextDelay, h.past, Or.inl ?_⟩
      obtain ⟨due, hdue, hnow⟩ := hexp
      obtain ⟨hnone, -⟩ | ⟨last, hlast, hdues⟩ := h.waits
      · rw [hnone] at hdue
        cases hdue
      · rw [hdues] at hdue
        obtain ⟨hj, hget⟩ := List.getElem?_eq_some_iff.mp hdue
        rw [List.length_singleton, Nat.lt_one_iff] at hj
        subst hj
        refine ⟨by rw [hdues]; rfl, fun last' hlast' => ?_⟩
        cases hlast.symm.trans hlast'
        rw [List.getElem_singleton] at hget
        rwa [hget]
    | start | stop | functor | event | release => exact ⟨h.backedOff, h.nextDelay, h.past, h.waits⟩
  obtain ⟨hbacked, hdelay, hpast, hwaits⟩ := hbefore
  obtain ⟨htimers, hsame⟩ | ⟨hnil, htimers, hnext⟩ := hcase
  · have hdrop : connector.timers.drop (Connector.unexpired s.dues i).length = [] := by
      rw [htimers, hlen]
      exact List.drop_length
    rw [hdrop, List.map_nil, List.map_nil, List.append_nil, List.append_nil]
    exact ⟨hsingle, hbacked, hsame.trans hdelay, hlen.trans (congrArg List.length htimers.symm), hpast, hwaits⟩
  · have hdues : Connector.unexpired s.dues i = [] := by
      rw [hnil] at hlen
      exact List.length_eq_zero_iff.mp hlen
    have hmade : ∀ last ∈ (s.sinceRestart i).getLast?, last.1 + last.2 ≤ s.now := by
      obtain ⟨-, hmade⟩ | ⟨last, -, hlast⟩ := hwaits
      · exact hmade
      · rw [hdues] at hlast
        cases hlast
    rw [hdues, htimers, List.length_nil, List.drop_zero, List.map_singleton, List.map_singleton, List.nil_append, hdelay]
    refine ⟨hsingle, hbacked.snoc hmade, ?_, by rw [htimers]; rfl, ?_, Or.inr ?_⟩
    · rw [hnext, hdelay, delay_succ, List.length_append, List.length_singleton]
    · intro r hr
      obtain hr | hr := List.mem_append.mp hr
      · exact hpast r hr
      · rw [List.mem_singleton.mp hr]
    · refine ⟨_, List.getLast?_concat, rfl⟩

theorem BacksOff.step (h : BacksOff s) {i : Step} (he : s.Enabled i) (hs : s.step i = .ok t) : BacksOff t := by
  cases i with
  | call i => exact h.call he hs
  | pass ms =>
    obtain rfl := Except.ok.inj hs
    refine ⟨h.single, h.backedOff, h.nextDelay, h.dues, fun r hr => Nat.le_add_right_of_le (h.past r hr), ?_⟩
    obtain ⟨hnone, hmade⟩ | hwaits := h.waits
    · exact Or.inl ⟨hnone, fun last hlast => Nat.le_add_right_of_le (hmade last hlast)⟩
    · exact Or.inr hwaits

end Steps

/-- In every run whose calls are orderly the retry number `j` since the last `restart` waits for half a second that has
been doubled `j` times, or for thirty seconds, and no retry is asked for before the waits of those before it are over. -/
theorem retries_back_off [Build] {steps : List Step} {s : TimedConnector} (h : Path step Enabled {} steps s) :
    (∀ (i j : ℕ) (a b : ℕ × ℕ), i ≤ j → s.retries[i]? = some a → s.retries[j]? = some b →
      b.2 = min (500 * 2 ^ j) 30000 ∧ a.1 + ∑ k ∈ Finset.Ico i j, min (500 * 2 ^ k) 30000 ≤ b.1) ∧
      (∀ due ∈ s.dues, ∃ last ∈ s.retries.getLast?, due = last.1 + last.2) ∧
      s.connector.timers.length = s.dues.length ∧ s.dues.length ≤ 1 ∧
      s.connector.retryDelayMs_ = min (500 * 2 ^ s.retries.length) 30000 := by
  have hs : BacksOff s := h.invariant initial_backsOff fun _ _ _ ht he hs => ht.step he hs
  refine ⟨fun i j a b hij ha hb => ⟨hs.backedOff.delays hb, hs.backedOff.elapsed hij ha hb⟩, ?_, hs.dues.symm, ?_,
    hs.nextDelay⟩
  · intro due hdue
    obtain ⟨hnone, -⟩ | ⟨last, hlast, hdues⟩ := hs.waits
    · rw [hnone] at hdue
      cases hdue
    · rw [hdues] at hdue
      exact ⟨last, hlast, List.mem_singleton.mp hdue⟩
  · have hone := hs.single.one
    unfold Connector.outstanding at hone
    rw [hs.dues]
    omega

/-- A peer that refuses three attempts, and hears of the connector again after half a second and after another one. -/
theorem retries_back_off_refused :
    letI := Build.debug
    let refused : Connector.Attempt := ⟨some 3, .ECONNREFUSED⟩
    let steps : List Step := [.call (.start true refused), .pass 500, .call (.timer 0 refused), .pass 1200,
      .call (.timer 0 refused)]
    ∃ s, Path step Enabled {} steps s ∧ s.retries = [(0, 500), (500, 1000), (1700, 2000)] ∧
      ∀ (i j : ℕ) (a b : ℕ × ℕ), i ≤ j → s.retries[i]? = some a → s.retries[j]? = some b →
        a.1 + ∑ k ∈ Finset.Ico i j, min (500 * 2 ^ k) 30000 ≤ b.1 := by
  intro refused steps
  let _ := Build.debug
  obtain ⟨s, hs, hp⟩ := Path.exists_of_any step Enabled {} steps
    (fun s => s.retries = [(0, 500), (500, 1000), (1700, 2000)]) (by decide +kernel)
  exact ⟨s, hs, of_decide_eq_true hp, fun i j a b hij ha hb => ((retries_back_off hs).1 i j a b hij ha hb).2⟩

end TimedConnector

end Networker
