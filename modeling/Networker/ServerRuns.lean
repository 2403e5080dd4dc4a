import Networker.ServerTable

/-!
Every step of the server keeps its connection table, whichever loop makes it.
-/

namespace Networker

open CheckedRuns VectorSearch

namespace TcpServer

variable {s : TcpServer}

theorem holding_other {l : ℕ} {f : ServerFunctor} {j : ℕ} (hj : j ≠ f.conn) (k : ℕ) :
    s.holding l f k j = s.pendingOf k j := by
  unfold holding
  rw [if_neg (fun h => hj h.2.symm)]

theorem phased_queueInLoop (h : ∀ l, (s.loops l).Phased) {thread : ℕ} (hu : (s.loops thread).inUserCode = true)
    (l : ℕ) (f : ServerFunctor) (k : ℕ) : ((s.queueInLoop thread l f).loops k).Phased := by
  have hl : ((s.loops l).queueInLoop (decide (thread = l)) (some f)).Phased := by
    apply (h l).queueInLoop
    intro hthread
    rwa [← of_decide_eq_true hthread]
  exact (Function.forall_update_iff s.loops fun _ t => t.Phased).mpr ⟨hl, fun k _ => h k⟩ k

theorem enabled_loop {l : ℕ} {i : EventLoop.Step (Option ServerFunctor)} (he : s.Enabled (.loop l i)) :
    (s.loops l).Enabled i := by
  cases i with
  | queueInLoop isInLoopThread f => exact he.2
  | proceed active => exact he
  | wakeup isInLoopThread => exact he
  | quit isInLoopThread => exact he
  | quitWakeup => exact he

namespace Table

theorem phased_update (h : Table s s.pendingOf) {l : ℕ} {t : EventLoop (Option ServerFunctor)} (ht : t.Phased) (k : ℕ) :
    (Function.update s.loops l t k).Phased :=
  (Function.forall_update_iff s.loops fun _ t => t.Phased).mpr ⟨ht, fun k _ => h.phased k⟩ k

/-- A loop makes a step that calls no functor of the server. -/
theorem update (h : Table s s.pendingOf) {l : ℕ} {t : EventLoop (Option ServerFunctor)} (ht : t.Phased)
    (hw : s.waiting l = (t.remaining ++ t.pendingFunctors).reduceOption) :
    Table { s with loops := Function.update s.loops l t }
      (TcpServer.pendingOf { s with loops := Function.update s.loops l t }) := by
  refine h.congr (fun k id => ?_) (h.phased_update ht)
  unfold pendingOf
  rw [waiting_update]
  by_cases hk : k = l
  · rw [if_pos hk, ← hw, hk]
  · rw [if_neg hk]

variable [Build]

theorem removeConnectionInLoop_ok {id : ℕ} {c : ServerConnection}
    (h : Table s (s.holding 0 (.removeConnectionInLoop id))) (hc : s.conns[id]? = some c)
    (hfit : Stage.closed.Fits c) (hnot : id ∉ s.removed) (hnone : ∀ k, s.pendingOf k id = [])
    (hu : (s.loops 0).inUserCode = true) :
    ∃ t, s.removeConnectionInLoop 0 id = .ok t ∧ Table t t.pendingOf := by
  have hmem : c.name ∈ s.connections := by
    rw [← AList.lookup_isSome, (h.holds c.name id).mpr ⟨c, hc, rfl, hnot⟩]
    rfl
  obtain ⟨u, hu'⟩ : ∃ u : TcpServer, u = { s with
      connections := s.connections.erase c.name
      removed := s.removed ++ [id]
      erased := s.erased ++ [1] } := ⟨_, rfl⟩
  have hloops : u.loops = s.loops := by rw [hu']
  refine ⟨u.queueInLoop 0 c.loop (.connectDestroyed id), ?_, ?_⟩
  · unfold removeConnectionInLoop assertInLoopThread TcpServer.conn
    rw [if_pos rfl, ok_bind, element_eq hc, ok_bind, if_pos hmem]
    dsimp only
    rw [assert_pos rfl, ok_bind, hu']
    rfl
  · have hpend : ∀ k j, (u.queueInLoop 0 c.loop (.connectDestroyed id)).pendingOf k j =
        s.pendingOf k j ++ if k = c.loop ∧ id = j then [.connectDestroyed id] else [] := by
      intro k j
      rw [pendingOf_queueInLoop]
      unfold pendingOf waiting
      rw [hloops]
      rfl
    have hrem := h.remove (u.queueInLoop 0 c.loop (.connectDestroyed id)).pendingOf hc hnot hfit
      (by
        intro k
        rw [hpend, hnone, List.nil_append]
        simp [pendingAt, Stage.due])
      (by
        intro j hj k
        rw [hpend, holding_other hj, if_neg (fun h => hj h.2.symm), List.append_nil])
    rw [← hu'] at hrem
    exact hrem.congr (fun _ _ => rfl) (phased_queueInLoop (by rw [hloops]; exact h.phased) (by rwa [hloops]) _ _)

end Table

section Lives

variable [Build] {l id : ℕ} {c : ServerConnection}

theorem connectEstablished_ok (hc : s.conns[id]? = some c) (hl : l = c.loop) (hstate : c.state = .kConnecting) :
    s.connectEstablished l id = .ok (s.setConn id { c with
      state := .kConnected, noneEvent := false, calls := c.calls ++ [(.connectEstablished, l)] }) := by
  unfold connectEstablished TcpServer.conn assertInLoopThread
  rw [element_eq hc, ok_bind, if_pos hl, ok_bind, assert_pos hstate, ok_bind]
  rfl

theorem connectDestroyed_ok (hc : s.conns[id]? = some c) (hl : l = c.loop)
    (hn : assert (c.disconnect.noneEvent = true) = .ok ()) :
    s.connectDestroyed l id =
      .ok (s.setConn id { c.disconnect with calls := c.disconnect.calls ++ [(.connectDestroyed, l)] }) := by
  unfold connectDestroyed TcpServer.conn assertInLoopThread
  rw [element_eq hc, ok_bind, if_pos hl, ok_bind]
  dsimp only
  rw [hn, ok_bind]
  rfl

end Lives

namespace Table

variable [Build]

/-- The functor in hand can be called, and takes its connection to the next stage. -/
theorem call {l : ℕ} {f : ServerFunctor} (h : Table s (s.holding l f)) (hu : (s.loops l).inUserCode = true) :
    ∃ t, s.callFunctor l f = .ok t ∧ Table t t.pendingOf := by
  obtain ⟨id, hid⟩ : ∃ id, f.conn = id := ⟨_, rfl⟩
  have hself : ∀ k, s.holding l f k id = if k = l then f :: s.pendingOf k id else s.pendingOf k id := by
    intro k
    unfold holding
    rw [hid]
    simp
  have hlt : id < s.conns.length := by
    by_contra hge
    have habs := h.absent id (by omega) l
    rw [hself, if_pos rfl] at habs
    cases habs
  obtain ⟨c, hc⟩ : ∃ c, s.conns[id]? = some c := ⟨_, List.getElem?_eq_getElem hlt⟩
  obtain ⟨st, hfit, hrem, hpend⟩ := h.stages id c hc
  obtain ⟨hdue, hnone⟩ := due_of_holding fun k => (hself k).symm.trans (hpend k)
  have hother : ∀ j, j ≠ id → ∀ k, s.pendingOf k j = s.holding l f k j := by
    intro j hj k
    rw [holding_other (by rwa [hid])]
  cases st with
  | established => cases hdue
  | destroyed => cases hdue
  | connecting =>
    obtain ⟨rfl, rfl⟩ := Prod.mk.inj (Option.some.inj hdue)
    obtain ⟨hstate, hclosing, hclosed, hcalls⟩ := hfit
    refine ⟨_, connectEstablished_ok hc rfl hstate, ?_⟩
    refine h.setConn hc rfl .established ⟨⟨by simp, fun _ => Or.inl rfl, ?_, hclosed⟩, ?_⟩ hrem hnone hother
    · simp [hclosing]
    · rw [hcalls]
      rfl
  | closed =>
    obtain ⟨rfl, rfl⟩ := Prod.mk.inj (Option.some.inj hdue)
    exact h.removeConnectionInLoop_ok hc hfit (fun hmem => hrem.mp hmem) hnone hu
  | removed =>
    obtain ⟨rfl, rfl⟩ := Prod.mk.inj (Option.some.inj hdue)
    obtain ⟨hcl, hcalls⟩ := hfit
    have hsame := c.disconnect_disconnected hcl.state
    refine ⟨_, connectDestroyed_ok hc rfl (assert_pos (by rw [hsame]; exact hcl.noneEvent)), ?_⟩
    rw [hsame]
    refine h.setConn hc rfl .destroyed ⟨⟨hcl.state, hcl.noneEvent, hcl.closing, hcl.closed⟩, ?_⟩ hrem hnone hother
    rw [hcalls]
    rfl

/-- A functor for a connection of which nothing waits is called at once or becomes the only one that waits. -/
theorem runInLoop {thread l : ℕ} {f : ServerFunctor} (h : Table s (s.holding l f))
    (hnone : ∀ k, s.pendingOf k f.conn = []) (hu : (s.loops thread).inUserCode = true) :
    ∃ t, s.runInLoop thread l f = .ok t ∧ Table t t.pendingOf := by
  unfold TcpServer.runInLoop
  by_cases hl : thread = l
  · subst hl
    rw [if_pos rfl]
    exact h.call hu
  · rw [if_neg hl]
    refine ⟨_, rfl, h.congr (fun k j => ?_) (phased_queueInLoop h.phased hu _ _)⟩
    rw [pendingOf_queueInLoop]
    unfold holding
    by_cases hk : k = l ∧ f.conn = j
    · rw [if_pos hk, if_pos hk, ← hk.2, hnone, List.nil_append]
    · rw [if_neg hk, if_neg hk, List.append_nil]

theorem getNextLoop_ok {p : EventLoopThreadPool}
    (h : p.started = true ∧ (p.loops ≠ [] → p.next < p.loops.length)) :
    ∃ l q, p.getNextLoop = .ok (l, q) ∧ q.started = true ∧ (q.loops ≠ [] → q.next < q.loops.length) := by
  obtain ⟨hstarted, hnext⟩ := h
  unfold EventLoopThreadPool.getNextLoop
  rw [assert_pos hstarted, ok_bind]
  by_cases hloops : p.loops = []
  · rw [if_pos hloops]
    exact ⟨0, p, rfl, hstarted, fun hne => absurd hloops hne⟩
  · obtain ⟨l, hl⟩ := element_lt (hnext hloops)
    rw [if_neg hloops, hl, ok_bind]
    refine ⟨l, _, rfl, hstarted, fun _ => ?_⟩
    have hpos : 0 < p.loops.length := List.length_pos_iff.mpr hloops
    dsimp only
    split <;> omega

theorem newConnection_ok (h : Table s s.pendingOf) (he : s.Enabled .newConnection) :
    ∃ t, s.newConnection = .ok t ∧ Table t t.pendingOf := by
  obtain ⟨hu, hroom⟩ := he
  obtain ⟨l, q, hpool, hq⟩ := getNextLoop_ok h.pool
  have hids := h.ids
  unfold TcpServer.newConnection
  rw [hpool, ok_bind]
  dsimp only
  rw [int32_bind (by omega)]
  have hnone := h.absent s.conns.length (Nat.le_refl _)
  apply runInLoop
  · refine h.accept _ hroom hq rfl ⟨rfl, rfl, rfl, rfl⟩ ?_ ?_
    · intro k
      unfold holding
      change (if k = l ∧ s.conns.length = s.conns.length then _ :: s.pendingOf k s.conns.length
        else s.pendingOf k s.conns.length) = _
      rw [hnone]
      simp [pendingAt, Stage.due]
    · intro j hj k
      exact holding_other hj k
  · exact hnone
  · exact hu

theorem disconnecting_ok (h : Table s s.pendingOf) {id : ℕ} (he : s.Enabled (.disconnecting id)) :
    ∃ t, s.step (.disconnecting id) = .ok t ∧ Table t t.pendingOf := by
  obtain ⟨c, hc⟩ : ∃ c, s.conns[id]? = some c := ⟨_, List.getElem?_eq_getElem he⟩
  unfold step TcpServer.conn
  dsimp only
  rw [element_eq hc, ok_bind]
  refine ⟨_, rfl, ?_⟩
  by_cases hstate : c.state = .kConnected
  · rw [if_pos hstate]
    obtain ⟨st, hfit, hrem, hpend⟩ := h.stages id c hc
    refine h.setConn hc rfl st ?_ hrem hpend fun _ _ _ => rfl
    cases st with
    | connecting => exact absurd (hstate.symm.trans hfit.1) (by simp)
    | established =>
      refine ⟨⟨by simp, fun _ => Or.inr rfl, fun hclosing => ?_, hfit.1.closed⟩, hfit.2⟩
      exact absurd (hstate.symm.trans (hfit.1.down hclosing).1) (by simp)
    | closed => exact absurd (hstate.symm.trans hfit.1.state) (by simp)
    | removed => exact absurd (hstate.symm.trans hfit.1.state) (by simp)
    | destroyed => exact absurd (hstate.symm.trans hfit.1.state) (by simp)
  · rw [if_neg hstate]
    exact h

theorem update_ok (h : Table s s.pendingOf) {id : ℕ} {noneEvent : Bool} (he : s.Enabled (.update id noneEvent)) :
    ∃ t, s.step (.update id noneEvent) = .ok t ∧ Table t t.pendingOf := by
  obtain ⟨c, hc, -, hstate, hclosing⟩ := he
  obtain ⟨st, hfit, hrem, hpend⟩ := h.stages id c hc
  unfold step TcpServer.conn
  dsimp only
  rw [element_eq hc, ok_bind]
  refine ⟨_, rfl, h.setConn hc rfl st ?_ hrem hpend fun _ _ _ => rfl⟩
  cases st with
  | connecting => exact absurd hfit.1 hstate
  | established =>
    exact ⟨⟨hstate, hfit.1.live, fun hclosing' => absurd hclosing' (by simp [hclosing]), hfit.1.closed⟩, hfit.2⟩
  | closed => exact absurd (hclosing.symm.trans hfit.1.closing) (by simp)
  | removed => exact absurd (hclosing.symm.trans hfit.1.closing) (by simp)
  | destroyed => exact absurd (hclosing.symm.trans hfit.1.closing) (by simp)

theorem handleClose_ok (h : Table s s.pendingOf) {id : ℕ} (he : s.Enabled (.handleClose id)) :
    ∃ t, s.step (.handleClose id) = .ok t ∧ Table t t.pendingOf := by
  obtain ⟨c, hc, -, hstate, hclosing⟩ := he
  obtain ⟨st, hfit, hrem, hpend⟩ := h.stages id c hc
  unfold step TcpServer.conn
  dsimp only
  rw [element_eq hc, ok_bind]
  cases st with
  | connecting => exact absurd hfit.1 hstate
  | established =>
    rw [assert_pos (hfit.1.live hclosing), ok_bind]
    refine ⟨_, rfl, h.setConn hc rfl .established ?_ hrem hpend fun _ _ _ => rfl⟩
    exact ⟨⟨by simp, by simp, fun _ => ⟨rfl, rfl⟩, hfit.1.closed⟩, hfit.2⟩
  | closed => exact absurd (hclosing.symm.trans hfit.1.closing) (by simp)
  | removed => exact absurd (hclosing.symm.trans hfit.1.closing) (by simp)
  | destroyed => exact absurd (hclosing.symm.trans hfit.1.closing) (by simp)

theorem closeCallback_ok (h : Table s s.pendingOf) {id : ℕ} (he : s.Enabled (.closeCallback id)) :
    ∃ t, s.step (.closeCallback id) = .ok t ∧ Table t t.pendingOf := by
  obtain ⟨c, hc, hu, hclosing, hclosed⟩ := he
  obtain ⟨st, hfit, hrem, hpend⟩ := h.stages id c hc
  unfold step TcpServer.conn removeConnection
  dsimp only
  rw [element_eq hc, ok_bind]
  cases st with
  | connecting => exact absurd (hclosing.symm.trans hfit.2.1) (by simp)
  | established =>
    apply runInLoop
    · obtain ⟨hdown, hnoneEvent⟩ := hfit.1.down hclosing
      refine h.setConn hc rfl .closed ⟨⟨hdown, hnoneEvent, hclosing, rfl⟩, hfit.2⟩ hrem ?_ ?_
      · intro k
        unfold holding
        change (if k = 0 ∧ id = id then _ :: s.pendingOf k id else s.pendingOf k id) = _
        rw [hpend]
        simp [pendingAt, Stage.due]
      · intro j hj k
        exact holding_other hj k
    · exact hpend
    · exact hu
  | closed => exact absurd (hclosed.symm.trans hfit.1.closed) (by simp)
  | removed => exact absurd (hclosed.symm.trans hfit.1.closed) (by simp)
  | destroyed => exact absurd (hclosed.symm.trans hfit.1.closed) (by simp)

theorem proceed_ok {l : EventLoop (Option ServerFunctor)} (h : l.Phased) (active : List ActiveChannel) :
    ∃ t, l.proceed active = .ok t := by
  unfold EventLoop.proceed
  split
  case h_1 hp =>
    rw [assert_pos (h.looping.mpr hp)]
    exact ⟨_, rfl⟩
  all_goals exact ⟨_, rfl⟩

theorem proceed_step (h : Table s s.pendingOf) {l : ℕ} {active : List ActiveChannel}
    (he : (s.loops l).Enabled (.proceed active)) : ∃ t, s.proceed l active = .ok t ∧ Table t t.pendingOf := by
  obtain ⟨t, ht⟩ := proceed_ok (h.phased l) active
  have hphased : t.Phased := (h.phased l).step he ht
  unfold TcpServer.proceed
  rw [ht, ok_bind]
  dsimp only
  by_cases hcall : ∃ f rest, (s.loops l).phase = .call (f :: rest)
  · obtain ⟨f, rest, hphase⟩ := hcall
    have hw := EventLoop.proceed_call ht hphase
    cases f with
    | none =>
      have hnext : s.nextFunctor l = none := by
        unfold nextFunctor
        rw [hphase]
      rw [hnext]
      refine ⟨_, rfl, h.update hphased ?_⟩
      unfold waiting
      rw [hw, List.reduceOption_cons_of_none]
    | some f =>
      have hnext : s.nextFunctor l = some f := by
        unfold nextFunctor
        rw [hphase]
      rw [hnext]
      apply call
      · refine h.congr (fun k id => s.holding_of_call ?_ k id) (h.phased_update hphased)
        unfold waiting
        rw [hw, List.reduceOption_cons_of_some]
      · dsimp only
        rw [Function.update_self]
        unfold EventLoop.proceed at ht
        rw [hphase] at ht
        cases ht
        simp [EventLoop.inUserCode, he.1]
  · have hne : ∀ f rest, (s.loops l).phase ≠ .call (f :: rest) := fun f rest hp => hcall ⟨f, rest, hp⟩
    have hnext : s.nextFunctor l = none := by
      unfold nextFunctor
      split
      · exact absurd (by assumption) (hne _ _)
      · rfl
    rw [hnext]
    refine ⟨_, rfl, h.update hphased ?_⟩
    unfold waiting
    rw [EventLoop.proceed_waiting ht hne]

theorem loop_ok (h : Table s s.pendingOf) {l : ℕ} {i : EventLoop.Step (Option ServerFunctor)}
    (he : s.Enabled (.loop l i)) : ∃ t, s.step (.loop l i) = .ok t ∧ Table t t.pendingOf := by
  have hphased : ∀ t, (s.loops l).step i = .ok t → t.Phased := fun t ht => (h.phased l).step (enabled_loop he) ht
  cases i with
  | proceed active => exact h.proceed_step he
  | queueInLoop isInLoopThread f =>
    obtain ⟨rfl, -⟩ := he
    refine ⟨_, rfl, h.update (hphased _ rfl) ?_⟩
    unfold waiting
    rw [EventLoop.queueInLoop_waiting, List.reduceOption_append _ [none]]
    exact (List.append_nil _).symm
  | wakeup isInLoopThread => cases isInLoopThread <;> exact ⟨_, rfl, h.update (hphased _ rfl) rfl⟩
  | quit isInLoopThread => cases isInLoopThread <;> exact ⟨_, rfl, h.update (hphased _ rfl) rfl⟩
  | quitWakeup => exact ⟨_, rfl, h.update (hphased _ rfl) rfl⟩

theorem step_ok (h : Table s s.pendingOf) {i : Step} (he : s.Enabled i) : ∃ t, s.step i = .ok t ∧ Table t t.pendingOf := by
  cases i with
  | newConnection => exact h.newConnection_ok he
  | disconnecting id => exact h.disconnecting_ok he
  | update id noneEvent => exact h.update_ok he
  | handleClose id => exact h.handleClose_ok he
  | closeCallback id => exact h.closeCallback_ok he
  | loop l i => exact h.loop_ok he

end Table

/-- What the table and the records of a server show. -/
structure ConnectionTable (s : TcpServer) : Prop where
  /-- the entries are the connections that were accepted and not removed -/
  holds : ∀ name id, s.connections.lookup name = some id ↔
    ∃ c, s.conns[id]? = some c ∧ c.name = name ∧ id ∉ s.removed
  distinct : ∀ (i j : ℕ) (c d : ServerConnection), s.conns[i]? = some c → s.conns[j]? = some d → c.name = d.name → i = j
  /-- no part of a name is cut off -/
  names : ∀ id c, s.conns[id]? = some c → c.name = s.name ++ '-' :: (s.ipPort ++ '#' :: decimal (id + 1))
  /-- the next connection overwrites nothing -/
  fresh : s.connName ∉ s.connections
  erased : s.removed.Nodup ∧ s.erased = List.replicate s.removed.length 1
  calls : ∀ (id : ℕ) (c : ServerConnection), s.conns[id]? = some c →
    c.calls <+: [(.connectEstablished, c.loop), (.connectDestroyed, c.loop)]

theorem Table.connectionTable {s : TcpServer} (h : Table s s.pendingOf) : ConnectionTable s where
  holds := h.holds
  distinct i j c d hc hd hname := by
    rw [h.names i c hc, h.names j d hd] at hname
    exact Table.name_injective hname
  names := h.names
  fresh := AList.lookup_eq_none.mp h.connName_fresh
  erased := ⟨h.removed.1, h.erased⟩
  calls id c hc := by
    obtain ⟨st, hfit, -, -⟩ := h.stages id c hc
    cases st with
    | connecting => rw [hfit.2.2.2]; exact List.nil_prefix
    | established => rw [hfit.2]; exact ⟨[_], rfl⟩
    | closed => rw [hfit.2]; exact ⟨[_], rfl⟩
    | removed => rw [hfit.2]; exact ⟨[_], rfl⟩
    | destroyed => exact ⟨[], by rw [hfit.2, List.append_nil]⟩

theorem started_table [Build] {name ipPort : List Char} (hip : ipPort.length ≤ 51) {n : ℕ} {s : TcpServer}
    (h : started name ipPort n = .ok s) : Table s s.pendingOf := by
  unfold started EventLoopThreadPool.start at h
  rw [assert_pos rfl] at h
  obtain rfl := Except.ok.inj h
  constructor
  case pool =>
    refine ⟨rfl, fun hne => ?_⟩
    exact List.length_pos_iff.mpr hne
  case ids => rfl
  case room =>
    dsimp only
    decide
  case ipPort => exact hip
  case names =>
    intro id c hc
    cases hc
  case holds =>
    intro nm id
    constructor
    · intro hlookup
      cases hlookup
    · rintro ⟨c, hc, -⟩
      cases hc
  case removed => exact ⟨List.nodup_nil, by simp⟩
  case erased => rfl
  case stages =>
    intro id c hc
    cases hc
  case absent =>
    intro id _ l
    rfl
  case phased => exact fun _ => EventLoop.initial_phased

theorem connection_table [Build] {name ipPort : List Char} (hip : ipPort.length ≤ 51) {n : ℕ} {s₀ s : TcpServer}
    (h₀ : started name ipPort n = .ok s₀) {steps : List Step} (h : Path step Enabled s₀ steps s) :
    ConnectionTable s ∧ ∀ i, s.Enabled i → ∃ t, s.step i = .ok t := by
  have hinv : Table s s.pendingOf := by
    apply h.invariant (started_table hip h₀)
    intro t i u ht he hs
    obtain ⟨u', hu, hu'⟩ := ht.step_ok he
    rw [hs] at hu
    rwa [Except.ok.inj hu]
  refine ⟨hinv.connectionTable, fun i he => ?_⟩
  obtain ⟨t, ht, -⟩ := hinv.step_ok he
  exact ⟨t, ht⟩

/-- Two connections on two loops, of which the first is closed, removed and destroyed. -/
theorem connection_table_destroyed :
    letI := Build.debug
    let proceed : ℕ → ℕ → List Step := fun l n => List.replicate n (.loop l (.proceed []))
    let woken : ℕ → List Step := fun l => [.loop l (.wakeup false), .loop l (.proceed [.wakeup])] ++ proceed l 4
    let steps := proceed 0 3 ++ proceed 1 3 ++ [.loop 0 (.proceed [.other]), .loop 0 (.proceed []), .newConnection] ++
      woken 1 ++ [.handleClose 0, .closeCallback 0, .newConnection] ++ proceed 0 4 ++ proceed 1 3 ++ woken 1
    ∃ s₀ s, started ['s'] ['h'] 2 = .ok s₀ ∧ Path step Enabled s₀ steps s ∧ s.conns.length = 2 ∧ s.removed = [0] ∧
      s.conns.map (fun c => c.calls.length) = [2, 0] ∧ ConnectionTable s := by
  intro proceed woken steps
  let _ := Build.debug
  obtain ⟨s₀, h₀⟩ : ∃ s₀, started ['s'] ['h'] 2 = .ok s₀ := ⟨_, rfl⟩
  obtain ⟨s, hs, hp⟩ := Path.exists_of_any step Enabled s₀ steps
    (fun s => s.conns.length = 2 ∧ s.removed = [0] ∧ s.conns.map (fun c => c.calls.length) = [2, 0]) (by
      rw [← Except.ok.inj h₀]
      decide +kernel)
  obtain ⟨hconns, hremoved, hcalls⟩ := of_decide_eq_true hp
  exact ⟨s₀, s, h₀, hs, hconns, hremoved, hcalls, (connection_table (by decide) h₀ hs).1⟩

end TcpServer

end Networker
