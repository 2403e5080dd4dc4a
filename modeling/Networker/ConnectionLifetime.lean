import Networker.ConnectionOwners
import Networker.ConnectionTeardown
import Networker.CoveredQueues
import Networker.HalfClose

/-!
No functor, timer, event or call reaches a connection after its last
`TcpConnectionPtr` is gone.
-/

namespace Networker

open CheckedRuns CoveredQueues EPollPoller

namespace TcpConnection

variable {c c' d : TcpConnection}

/-- A step queues functors of the kind `p` and takes none. -/
structure Queues (p : Functor → Prop) (c c' : TcpConnection) : Prop where
  functors : c'.functors = c.functors
  queued : ∃ extra, c'.pendingFunctors = c.pendingFunctors ++ extra ∧ ∀ f ∈ extra, p f
  removal : .removeConnection ∈ c'.trace ↔ .removeConnection ∈ c.trace

namespace Queues

variable {p : Functor → Prop}

theorem push (extra : List Functor) (hf : c'.functors = c.functors)
    (hp : c'.pendingFunctors = c.pendingFunctors ++ extra) (hx : ∀ f ∈ extra, p f)
    (ht : .removeConnection ∈ c'.trace ↔ .removeConnection ∈ c.trace) : Queues p c c' :=
  ⟨hf, ⟨extra, hp, hx⟩, ht⟩

theorem none (hf : c'.functors = c.functors) (hp : c'.pendingFunctors = c.pendingFunctors)
    (ht : .removeConnection ∈ c'.trace ↔ .removeConnection ∈ c.trace) : Queues p c c' :=
  push [] hf (by simpa using hp) (by simp) ht

theorem mono {q : Functor → Prop} (h : Queues p c c') (hpq : ∀ f, p f → q f) : Queues q c c' :=
  have ⟨extra, he, hp⟩ := h.queued
  ⟨h.functors, ⟨extra, he, fun f hf => hpq f (hp f hf)⟩, h.removal⟩

theorem queue (h : Queues p c c') : ∃ extra, c'.queue = c.queue ++ extra ∧ ∀ f ∈ extra, p f := by
  obtain ⟨extra, he, hp⟩ := h.queued
  exact ⟨extra, by rw [TcpConnection.queue, TcpConnection.queue, h.functors, he, List.append_assoc], hp⟩

end Queues

/-- The functors that loop code queues: they hold the connection, and none of them destroys it. -/
def Binds (f : Functor) : Prop := f.isRaw = false ∧ f ≠ .connectDestroyed

theorem binds_of_notification {f : Functor} (h : Notification f) : Binds f := by
  cases f with
  | writeCompleteCallback => exact ⟨rfl, by simp⟩
  | highWaterMarkCallback size => exact ⟨rfl, by simp⟩
  | _ => exact absurd h id

theorem shutdownInLoop_queues (c : TcpConnection) : Queues Binds c c.shutdownInLoop := by
  unfold shutdownInLoop
  dsimp only
  split_ifs
  · exact .none rfl rfl (by simp [log])
  · exact .none rfl rfl (by simp [log])

theorem forceClose_queues (c : TcpConnection) : Queues Binds c c.forceClose := by
  unfold forceClose
  split_ifs
  · exact .push [.forceCloseInLoop] rfl rfl (by simp [Binds, Functor.isRaw]) Iff.rfl
  · exact .none rfl rfl Iff.rfl

theorem startReadInLoop_queues (c : TcpConnection) : Queues Binds c c.startReadInLoop := by
  unfold startReadInLoop
  split_ifs
  · exact .none rfl rfl Iff.rfl
  · exact .none rfl rfl Iff.rfl

theorem closed_queues (c : TcpConnection) : Queues Binds c c.closed := .none rfl rfl (by simp [closed])

theorem removed_queues (c : TcpConnection) : Queues Binds c c.removed := .none rfl rfl (by simp [removed])

variable [Build]

theorem sendInLoop_queues (hv : c.outputBuffer.Valid) {data : List UInt8} {len : ℕ} {w : WriteResult}
    (h : c.sendInLoop data len w = .ok c') : Queues Binds c c' := by
  obtain ⟨message, -, ⟨-, rfl⟩ | ⟨-, -, rfl⟩ | ⟨-, -, n, b, ch, extra, hk, rfl⟩⟩ := sendInLoop_inv hv h
  · exact .none rfl rfl Iff.rfl
  · exact .none rfl rfl Iff.rfl
  · exact .push _ rfl rfl (fun f hf => binds_of_notification (hk.notifies f hf)) Iff.rfl

theorem handleWrite_queues (hv : c.outputBuffer.Valid) {w : WriteResult} (h : c.handleWrite w = .ok c') :
    Queues Binds c c' := by
  rcases handleWrite_cases hv w with ⟨-, he⟩ | ⟨-, -, b, -, -, ⟨-, he⟩ | ⟨-, extra, hx, he⟩⟩
  · cases he.symm.trans h
    exact .none rfl rfl Iff.rfl
  · cases he.symm.trans h
    exact .none rfl rfl Iff.rfl
  · let d : TcpConnection := { c with
      accepted := c.accepted ++ writeAccepted c.outputBuffer.readable w
      outputBuffer := b
      channel := c.channel.disableWriting
      pendingFunctors := c.pendingFunctors ++ extra }
    have hd : Queues Binds c d := .push _ rfl rfl (fun f hf => binds_of_notification (hx f hf)) Iff.rfl
    cases he.symm.trans h
    split_ifs
    · obtain ⟨trace, ht⟩ := shutdownInLoop_eq d
      have hs := (shutdownInLoop_queues d).removal
      rw [show d.shutdownInLoop = _ from ht] at hs
      exact ht ▸ .push _ rfl rfl (fun f hf => binds_of_notification (hx f hf)) hs
    · exact hd

theorem connectDestroyed_queues (h : c.connectDestroyed = .ok c') : Queues Binds c c' := by
  unfold connectDestroyed at h
  split_ifs at h
  · cases h
    exact .none rfl rfl (by simp [log])
  · rw [removeChannel_eq h]
    exact c.removed_queues

theorem call_queues (hv : c.outputBuffer.Valid) {onLoop : Bool} {call : Call} (h : c.call onLoop call = .ok c') :
    Queues (fun f => f ≠ .connectDestroyed ∧ (onLoop = true → f.isRaw = false)) c c' := by
  have hmono {d : TcpConnection} (hd : Queues Binds c d) :
      Queues (fun f => f ≠ .connectDestroyed ∧ (onLoop = true → f.isRaw = false)) c d :=
    hd.mono fun f hf => ⟨hf.2, fun _ => hf.1⟩
  cases call with
  | send message w =>
    obtain ⟨-, rfl⟩ | ⟨-, ⟨-, data, len, he⟩ | ⟨rfl, s, rfl⟩⟩ := send_inv h
    · exact .none rfl rfl Iff.rfl
    · have hs := sendInLoop_queues (c := { c with sent := c.sent ++ [message.bytes] }) hv he
      exact hmono ⟨hs.functors, hs.queued, hs.removal⟩
    · exact .push [.sendInLoop s] rfl rfl (by simp) Iff.rfl
  | shutdown =>
    cases h
    unfold shutdown
    split_ifs with hc hl
    · have hs := shutdownInLoop_queues { c with state := .kDisconnecting }
      exact hmono ⟨hs.functors, hs.queued, hs.removal⟩
    · exact .push [.shutdownInLoop] rfl rfl (by simp [hl]) Iff.rfl
    · exact .none rfl rfl Iff.rfl
  | forceClose =>
    cases h
    exact hmono c.forceClose_queues
  | forceCloseWithDelay =>
    cases h
    unfold forceCloseWithDelay
    split_ifs
    · exact .none rfl rfl Iff.rfl
    · exact .none rfl rfl Iff.rfl
  | startRead =>
    cases h
    cases onLoop with
    | true => exact hmono c.startReadInLoop_queues
    | false => exact .push [.startReadInLoop] rfl rfl (by simp) Iff.rfl
  | retrieveInput len =>
    obtain ⟨b, -, hb⟩ := bind_eq_ok.mp h
    cases hb
    exact .none rfl rfl Iff.rfl

theorem runTask_queues (hv : c.outputBuffer.Valid) {r : Buffer.ReadResult} {w : WriteResult} {t : Task}
    (h : c.runTask r w t = .ok c') : Queues Binds c c' := by
  cases t with
  | channel callback =>
    cases callback with
    | close => exact handleClose_eq h ▸ c.closed_queues
    | error =>
      cases h
      exact .none rfl rfl Iff.rfl
    | read =>
      obtain ⟨b, ⟨-, hclose⟩ | ⟨-, rfl | ⟨n, rfl⟩⟩⟩ := handleRead_inv h
      · rw [handleClose_eq hclose]
        exact .none rfl rfl (by simp [closed])
      · exact .none rfl rfl Iff.rfl
      · exact .none rfl rfl (by simp [log])
    | write => exact handleWrite_queues hv h
  | closeCallback =>
    cases h
    exact .none rfl rfl (by simp [log])
  | remove => exact removeChannel_eq h ▸ c.removed_queues

theorem runFunctor_queues (hv : c.outputBuffer.Valid) {w : WriteResult} {f : Functor} (h : c.runFunctor w f = .ok c') :
    Queues Binds c c' := by
  cases f with
  | sendInLoop message => exact sendInLoop_queues hv h
  | shutdownInLoop =>
    cases h
    exact c.shutdownInLoop_queues
  | forceCloseInLoop =>
    simp only [runFunctor, forceCloseInLoop] at h
    split_ifs at h
    · exact handleClose_eq h ▸ c.closed_queues
    · cases h
      exact .none rfl rfl Iff.rfl
  | startReadInLoop =>
    cases h
    exact c.startReadInLoop_queues
  | connectDestroyed => exact connectDestroyed_queues h
  | writeCompleteCallback =>
    cases h
    exact .none rfl rfl (by simp [log])
  | highWaterMarkCallback size =>
    cases h
    exact .none rfl rfl (by simp [log])

/-- Another thread's call queues at most one functor. -/
theorem call_foreign_length {call : Call} (h : c.call false call = .ok c') :
    c'.pendingFunctors.length ≤ c.pendingFunctors.length + 1 := by
  cases call with
  | send message w =>
    obtain ⟨-, rfl⟩ | ⟨-, ⟨hf, -⟩ | ⟨-, s, rfl⟩⟩ := send_inv h
    · exact Nat.le_succ _
    · cases hf
    · simp [queueInLoop]
  | shutdown =>
    cases h
    unfold shutdown
    split_ifs <;> simp_all [queueInLoop]
  | forceClose =>
    cases h
    unfold forceClose
    split_ifs <;> simp [queueInLoop]
  | forceCloseWithDelay =>
    cases h
    unfold forceCloseWithDelay
    split_ifs <;> simp
  | startRead =>
    cases h
    simp [startRead, queueInLoop]
  | retrieveInput len =>
    obtain ⟨b, -, hb⟩ := bind_eq_ok.mp h
    cases hb
    exact Nat.le_succ _

/-- The channel is out of the poller. -/
def Out (c : TcpConnection) : Prop := c.channel.index = kNew ∧ c.channel.addedToLoop = false

instance (c : TcpConnection) : Decidable c.Out := inferInstanceAs (Decidable (_ ∧ _))

omit [Build] in
theorem Out.of_channel (ho : c.Out) (h : c'.channel = c.channel) : c'.Out := by rwa [Out, h]

omit [Build] in
theorem Lifecycle.isWriting_down (h : Lifecycle c) (hl : ¬c.live) : c.channel.isWriting = false := by
  rw [← Bool.not_eq_true]
  exact fun hw => hl (h.isWriting_live hw)

omit [Build] in
theorem Lifecycle.disconnected (h : Lifecycle c) (hl : ¬c.live) : c.state = .kDisconnected := by
  by_contra hs
  exact hl (live_of_ne h.state hs)

theorem call_channel_down (hd : c.state = .kDisconnected) {onLoop : Bool} {call : Call}
    (hr : onLoop = true → call ≠ .startRead) (h : c.call onLoop call = .ok c') : c'.channel = c.channel := by
  by_cases hcall : call.leavesDown = true
  · rw [call_down hd onLoop hcall] at h
    cases h
    rfl
  · cases call with
    | startRead =>
      cases h
      cases onLoop with
      | true => exact absurd rfl (hr rfl)
      | false => rfl
    | retrieveInput len =>
      obtain ⟨b, -, hb⟩ := bind_eq_ok.mp h
      cases hb
      rfl
    | _ => exact absurd rfl hcall

theorem runTask_down (h : Lifecycle c) (hl : ¬c.live) {t : Task} {ts : List Task} (ht : c.tasks = t :: ts)
    {r : Buffer.ReadResult} {w : WriteResult} (ha : c.ClosesOnce (.task r w))
    (hs : runTask { c with tasks := ts } r w t = .ok c') : c'.channel = c.channel := by
  cases t with
  | channel callback =>
    cases callback with
    | close => exact absurd (h.closing (by simp [ht])).1 hl
    | error =>
      cases hs
      rfl
    | read =>
      obtain ⟨b, ⟨hr, -⟩ | ⟨-, rfl | ⟨n, rfl⟩⟩⟩ := handleRead_inv hs
      · exact absurd (ha (by simp [ht]) hr) (fun hn => hn ((h.reading (by simp [ht])).resolve_left hl))
      · rfl
      · rfl
    | write =>
      have hw := h.isWriting_down hl
      simp only [runTask, handleWrite, hw, Bool.false_eq_true, if_false] at hs
      cases hs
      rfl
  | closeCallback =>
    cases hs
    rfl
  | remove => exact absurd (by simp [ht]) h.remove

theorem runFunctor_down (h : Lifecycle c) (hl : ¬c.live) {f : Functor} {fs : List Functor}
    (hf : c.functors = some (f :: fs)) {w : WriteResult} (ha : c.ClosesOnce (.functor w))
    (hs : runFunctor { c with functors := some fs } w f = .ok c') :
    (f ≠ .connectDestroyed ∧ c'.channel = c.channel) ∨ c'.Out := by
  have hd := h.disconnected hl
  cases f with
  | sendInLoop message =>
    obtain ⟨message', -, ⟨-, rfl⟩ | ⟨hne, -⟩ | ⟨hne, -⟩⟩ := sendInLoop_inv (c := { c with functors := some fs }) h.valid hs
    · exact Or.inl ⟨by simp, rfl⟩
    · exact absurd hd hne
    · exact absurd hd hne
  | shutdownInLoop =>
    cases hs
    obtain ⟨trace, ht⟩ := shutdownInLoop_eq { c with functors := some fs }
    exact Or.inl ⟨by simp, by rw [ht]⟩
  | forceCloseInLoop =>
    have hl' : ¬live { c with functors := some fs } := hl
    simp only [runFunctor, forceCloseInLoop, if_neg hl'] at hs
    cases hs
    exact Or.inl ⟨by simp, rfl⟩
  | startReadInLoop => exact absurd hd (ha (by simp [hf]))
  | connectDestroyed =>
    have hc : c.state ≠ .kConnected := by simp [hd]
    simp only [runFunctor, connectDestroyed, if_neg hc] at hs
    rw [removeChannel_eq hs]
    exact Or.inr ⟨rfl, rfl⟩
  | writeCompleteCallback =>
    cases hs
    exact Or.inl ⟨by simp, rfl⟩
  | highWaterMarkCallback size =>
    cases hs
    exact Or.inl ⟨by simp, rfl⟩

/-- Only a functor that holds the connection leaves something to do. -/
theorem runFunctor_tasks (hv : c.outputBuffer.Valid) (hk : c.state ≠ .kConnecting) {w : WriteResult} {f : Functor}
    (hf : f.isRaw = true) (hs : c.runFunctor w f = .ok c') : c'.tasks = c.tasks := by
  cases f with
  | sendInLoop message => exact (sendInLoop_quiet hv hk hs).tasks
  | shutdownInLoop =>
    cases hs
    exact (Quiet.refl hv).shutdownInLoop.tasks
  | startReadInLoop =>
    cases hs
    unfold startReadInLoop
    split_ifs <;> rfl
  | _ => cases hf

end TcpConnection

namespace Owned

open TcpConnection

variable {o o' : Owned}

abbrev Behind (queue : List Functor) : Prop := Covered (fun f : Functor => f.isRaw = true) (· = .connectDestroyed) queue

/-- Once the owner has let go, the connection is kept by a functor `connectDestroyed`, with every functor bound to
`this` before it, until that has taken the channel out of the poller. -/
structure Alive (o : Owned) : Prop where
  life : Lifecycle o.conn
  behind : o.inMap = false → Behind o.conn.queue
  out : o.inMap = false → .connectDestroyed ∈ o.conn.queue ∨ o.conn.Out
  handler : o.conn.tasks ≠ [] → o.guarded = true ∨ ∃ f ∈ o.executed, f.isRaw = false
  held_le : o.held.length ≤ o.users
  held : .connectDestroyed ∉ o.held

theorem inMap_eq_false (o : Owned) : o.inMap = false ↔ .removeConnection ∈ o.conn.trace := by simp [inMap]

theorem Alive.down (h : o.Alive) (hm : o.inMap = false) : ¬o.conn.live := by
  intro hl
  have hmem : .removeConnection ∈ o.conn.lifecycle := by
    simp only [lifecycle, List.mem_filter]
    exact ⟨(inMap_eq_false o).mp hm, rfl⟩
  rw [(h.life.up hl).lifecycle] at hmem
  exact absurd hmem (by decide)

section References

theorem references_pos_of_inMap (h : o.inMap = true) : 0 < o.references := by
  simp only [references, h, Bool.toNat_true]
  omega

theorem references_pos_of_users (h : 0 < o.users) : 0 < o.references := by
  simp only [references]
  omega

theorem references_pos_of_guarded (h : o.guarded = true) : 0 < o.references := by
  simp only [references, h, Bool.toNat_true]
  omega

theorem references_pos_of_removals (h : 0 < o.removals) : 0 < o.references := by
  simp only [references]
  omega

theorem references_pos_of_functor {f : Functor} (hf : f ∈ o.conn.queue ++ o.executed ++ o.held)
    (hr : f.isRaw = false) : 0 < o.references := by
  have hc : 0 < (o.conn.queue ++ o.executed ++ o.held).countP (!·.isRaw) :=
    List.countP_pos_iff.mpr ⟨f, hf, by simp [hr]⟩
  simp only [references]
  omega

theorem references_pos_of_queue {f : Functor} (hf : f ∈ o.conn.queue) (hr : f.isRaw = false) : 0 < o.references :=
  references_pos_of_functor (List.mem_append_left _ (List.mem_append_left _ hf)) hr

theorem references_pos_of_executed {f : Functor} (hf : f ∈ o.executed) (hr : f.isRaw = false) : 0 < o.references :=
  references_pos_of_functor (List.mem_append_left _ (List.mem_append_right _ hf)) hr

end References

/-- A step that uses the connection finds it there. -/
theorem Alive.touches (h : o.Alive) {s : Step} (he : o.Enabled s) (ht : o.Touches s) : 0 < o.references := by
  cases s with
  | loop s =>
    cases s with
    | call onLoop call =>
      obtain ⟨-, -, hu | hg | ⟨f, hf, hr⟩⟩ := he
      · exact references_pos_of_users (by omega)
      · exact references_pos_of_guarded hg
      · refine references_pos_of_executed (f := f) ?_ hr
        rw [current] at hf
        split_ifs at hf
        · exact List.mem_of_mem_getLast? hf
        · cases hf
    | event revents =>
      cases hm : o.inMap with
      | true => exact references_pos_of_inMap hm
      | false =>
        rcases h.out hm with hq | ho
        · exact references_pos_of_queue hq rfl
        · have hi := he.1.2.1
          rw [ho.1] at hi
          exact absurd hi (by decide)
    | task r w =>
      rcases h.handler he.1 with hg | ⟨f, hf, hr⟩
      · exact references_pos_of_guarded hg
      · exact references_pos_of_executed hf hr
    | delayedClose => exact absurd ht id
    | removeConnection =>
      have hcount : o.conn.trace.count .removeConnection < o.conn.trace.count .closeCallback := he.1
      exact references_pos_of_removals (by rw [removals]; omega)
    | doPendingFunctors => exact absurd ht id
    | functor w =>
      have ht : o.conn.functors.getD [] ≠ [] := ht
      cases hf : o.conn.functors.getD [] with
      | nil => exact absurd hf ht
      | cons f fs =>
        have hq : o.conn.queue = f :: (fs ++ o.conn.pendingFunctors) := by rw [queue, hf, List.cons_append]
        cases hm : o.inMap with
        | true => exact references_pos_of_inMap hm
        | false =>
          have hb := h.behind hm
          cases hr : f.isRaw with
          | false => exact references_pos_of_queue (by simp [hq]) hr
          | true =>
            rw [hq] at hb
            obtain ⟨g, hg, rfl⟩ := hb.1 hr
            exact references_pos_of_queue (by rw [hq]; exact List.mem_cons_of_mem _ hg) rfl
    | destroy => exact absurd he.2 id
  | call call =>
    have he : o.held.length < o.users := he
    exact references_pos_of_users (by omega)
  | queueInLoop i =>
    have hi : i < o.held.length := he
    have := h.held_le
    exact references_pos_of_users (by omega)
  | handleEventReturns => exact references_pos_of_guarded he.1
  | acquire => exact absurd ht id
  | release => exact absurd ht id

/-- What a `TcpConnection` is when its destructor runs. -/
structure Gone (o : Owned) : Prop where
  state : o.conn.state = .kDisconnected
  out : o.conn.Out
  tasks : o.conn.tasks = []
  queue : o.conn.queue = []
  held : o.held = []

theorem Alive.gone (h : o.Alive) (hr : o.references = 0) : o.Gone := by
  have hzero {p : Prop} (hp : p → 0 < o.references) : ¬p := fun hp' => absurd (hp hp') (by omega)
  have hm : o.inMap = false := by
    rw [← Bool.not_eq_true]
    exact hzero references_pos_of_inMap
  have hu : o.users = 0 := Nat.eq_zero_of_not_pos (hzero references_pos_of_users)
  have hqueue (f : Functor) (hf : f ∈ o.conn.queue) : f.isRaw = true := by
    rw [← Bool.not_eq_false]
    exact hzero (references_pos_of_queue hf)
  have hdest : .connectDestroyed ∉ o.conn.queue := fun hq => absurd (hqueue _ hq) (by decide)
  refine ⟨h.life.disconnected (h.down hm), (h.out hm).resolve_left hdest, ?_, ?_, ?_⟩
  · by_contra ht
    rcases h.handler ht with hg | ⟨f, hf, hraw⟩
    · exact hzero references_pos_of_guarded hg
    · exact hzero (references_pos_of_executed hf) hraw
  · have hraw := (h.behind hm).not_borrows fun f hf hd => hdest (hd ▸ hf)
    exact List.eq_nil_iff_forall_not_mem.mpr fun f hf => hraw f hf (hqueue f hf)
  · have := h.held_le
    exact List.eq_nil_of_length_eq_zero (by omega)

section Steps

/-- Steps of the loop thread that add functors behind the others and, once the connection is down, leave its channel. -/
theorem Alive.frame (h : o.Alive) {conn : TcpConnection} (hlife : Lifecycle conn) (hq : Queues Binds o.conn conn)
    (hout : ¬o.conn.live → o.conn.Out → conn.Out) (htasks : conn.tasks ≠ [] → o.conn.tasks ≠ []) :
    Alive { o with conn } := by
  have hm : inMap { o with conn } = false → o.inMap = false := by
    rw [inMap_eq_false, inMap_eq_false]
    exact hq.removal.mp
  obtain ⟨extra, he, hx⟩ := hq.queue
  refine ⟨hlife, fun hm' => ?_, fun hm' => ?_, fun ht => h.handler (htasks ht), h.held_le, h.held⟩
  · change Behind conn.queue
    rw [he]
    exact (h.behind (hm hm')).append fun f hf hraw => absurd ((hx f hf).1.symm.trans hraw) (by decide)
  · change _ ∈ conn.queue ∨ conn.Out
    rw [he]
    exact (h.out (hm hm')).imp (List.mem_append_left extra) (hout (h.down (hm hm')))

theorem Alive.handleEventReturns (h : o.Alive) (ht : o.conn.tasks = []) : Alive { o with guarded := false } :=
  { h with handler := fun hn => absurd ht hn }

theorem Alive.acquire (h : o.Alive) : Alive { o with users := o.users + 1 } :=
  { h with held_le := Nat.le_succ_of_le h.held_le }

theorem Alive.release (h : o.Alive) (hu : o.held.length < o.users) : Alive { o with users := o.users - 1 } :=
  { h with held_le := Nat.le_sub_one_of_lt hu }

theorem Alive.queueInLoop (h : o.Alive) {i : ℕ} {f : Functor} (hf : o.held[i]? = some f)
    (ht : f.isRaw = true → o.inMap = true) :
    Alive { o with conn := o.conn.queueInLoop f, held := o.held.eraseIdx i } := by
  have hmem : f ∈ o.held := List.mem_of_getElem? hf
  have hne : f ≠ .connectDestroyed := fun hd => h.held (hd ▸ hmem)
  have hqueue : (o.conn.queueInLoop f).queue = o.conn.queue ++ [f] := by simp [queue, TcpConnection.queueInLoop]
  refine ⟨h.life.quiet ((Quiet.refl h.life.valid).queueInLoop hne), fun hm => ?_, fun hm => ?_, h.handler, ?_, ?_⟩
  · change Behind (o.conn.queueInLoop f).queue
    rw [hqueue]
    refine (h.behind hm).append fun g hg hraw => ?_
    cases List.mem_singleton.mp hg
    exact absurd (hm.symm.trans (ht hraw)) (by decide)
  · change _ ∈ (o.conn.queueInLoop f).queue ∨ _
    rw [hqueue]
    exact (h.out hm).imp (List.mem_append_left [f]) id
  · exact (List.length_eraseIdx_le o.held i).trans h.held_le
  · exact fun hd => h.held (List.mem_of_mem_eraseIdx hd)

theorem Alive.removeConnection (h : o.Alive)
    (hlife : Lifecycle ((o.conn.log .removeConnection).queueInLoop .connectDestroyed)) :
    Alive { o with conn := (o.conn.log .removeConnection).queueInLoop .connectDestroyed } := by
  have hqueue : ((o.conn.log .removeConnection).queueInLoop .connectDestroyed).queue =
      o.conn.queue ++ [.connectDestroyed] := by simp [queue, TcpConnection.queueInLoop, log]
  refine ⟨hlife, fun _ => ?_, fun _ => Or.inl ?_, h.handler, h.held_le, h.held⟩
  · change Behind ((o.conn.log .removeConnection).queueInLoop .connectDestroyed).queue
    rw [hqueue]
    exact .concat rfl (by decide)
  · change _ ∈ ((o.conn.log .removeConnection).queueInLoop .connectDestroyed).queue
    rw [hqueue]
    simp

variable [Build]

theorem Alive.call (h : o.Alive) {call : TcpConnection.Call} (hu : o.held.length < o.users) {conn : TcpConnection}
    (hs : o.conn.call false call = .ok conn) :
    Alive { o with
      conn := { conn with pendingFunctors := o.conn.pendingFunctors }
      held := o.held ++ conn.pendingFunctors.drop o.conn.pendingFunctors.length } := by
  have hquiet := call_quiet h.life.valid h.life.state (fun ho => absurd ho (by decide)) hs
  have hqueues := call_queues h.life.valid hs
  have hlen := call_foreign_length hs
  obtain ⟨extra, he, hx⟩ := hqueues.queued
  have hdrop : conn.pendingFunctors.drop o.conn.pendingFunctors.length = extra := by rw [he, List.drop_left]
  have hqueue : queue { conn with pendingFunctors := o.conn.pendingFunctors } = o.conn.queue := by
    rw [queue, queue, hqueues.functors]
  have hlife : Lifecycle { conn with pendingFunctors := o.conn.pendingFunctors } :=
    h.life.quiet { hquiet with queue := fun hd => by rwa [hqueue] at hd }
  have hm : .removeConnection ∈ conn.trace → o.inMap = false := fun hr =>
    (inMap_eq_false o).mpr (hqueues.removal.mp hr)
  rw [hdrop]
  refine ⟨hlife, fun hm' => ?_, fun hm' => ?_, fun ht => ?_, ?_, ?_⟩
  · change Behind (queue { conn with pendingFunctors := o.conn.pendingFunctors })
    rw [hqueue]
    exact h.behind (hm ((inMap_eq_false _).mp hm'))
  · change _ ∈ queue { conn with pendingFunctors := o.conn.pendingFunctors } ∨ _
    rw [hqueue]
    have hmap := hm ((inMap_eq_false _).mp hm')
    have hch := call_channel_down (h.life.disconnected (h.down hmap)) (fun ho => absurd ho (by decide)) hs
    exact (h.out hmap).imp id fun ho => ho.of_channel hch
  · exact h.handler (hquiet.tasks ▸ ht)
  · rw [he, List.length_append] at hlen
    change (o.held ++ extra).length ≤ o.users
    rw [List.length_append]
    omega
  · intro hd
    rcases List.mem_append.mp hd with hd | hd
    · exact h.held hd
    · exact (hx _ hd).1 rfl

theorem Alive.functor (h : o.Alive) {f : Functor} {fs : List Functor} (hf : o.conn.functors = some (f :: fs))
    {w : WriteResult} (he : o.conn.Enabled (.functor w)) (ha : o.conn.ClosesOnce (.functor w)) {conn : TcpConnection}
    (hs : runFunctor { o.conn with functors := some fs } w f = .ok conn) :
    Alive { o with conn, executed := o.executed ++ [f] } := by
  have hlife := runFunctor_lifecycle hf h.life he ha hs
  have hqueues := runFunctor_queues (c := { o.conn with functors := some fs }) h.life.valid hs
  obtain ⟨extra, hq, hx⟩ := hqueues.queue
  have hpop : o.conn.queue = f :: queue { o.conn with functors := some fs } := by simp [queue, hf]
  have hm : .removeConnection ∈ conn.trace → o.inMap = false := fun hr =>
    (inMap_eq_false o).mpr (hqueues.removal.mp hr)
  refine ⟨hlife, fun hm' => ?_, fun hm' => ?_, fun ht => ?_, h.held_le, h.held⟩
  · change Behind conn.queue
    rw [hq]
    have hb := h.behind (hm ((inMap_eq_false _).mp hm'))
    rw [hpop] at hb
    exact hb.tail.append fun g hg hraw => absurd ((hx g hg).1.symm.trans hraw) (by decide)
  · have hmap := hm ((inMap_eq_false _).mp hm')
    rcases runFunctor_down h.life (h.down hmap) hf ha hs with ⟨hne, hch⟩ | hout
    · change _ ∈ conn.queue ∨ _
      have ho := h.out hmap
      rw [hpop, List.mem_cons] at ho
      rw [hq]
      rcases ho with (hd | hd) | hd
      · exact absurd hd.symm hne
      · exact Or.inl (List.mem_append_left extra hd)
      · exact Or.inr (hd.of_channel hch)
    · exact Or.inr hout
  · refine Or.inr ⟨f, by simp, ?_⟩
    rw [← Bool.not_eq_true]
    intro hraw
    have hkeep := runFunctor_tasks (c := { o.conn with functors := some fs }) h.life.valid h.life.state hraw hs
    exact ht (hkeep.trans he.1)

theorem step_delayedClose (o : Owned) :
    o.step (.loop .delayedClose) =
      if o.references = 0 then .ok { o with conn := { o.conn with delayedCloses := o.conn.delayedCloses - 1 } }
      else o.conn.step .delayedClose >>= fun conn => .ok { o with conn } :=
  rfl

theorem step_queueInLoop {i : ℕ} {f : Functor} (hf : o.held[i]? = some f) :
    o.step (.queueInLoop i) = .ok { o with conn := o.conn.queueInLoop f, held := o.held.eraseIdx i } := by
  change Except.ok (Option.getD (Option.map _ o.held[i]?) o) = _
  rw [hf]
  rfl

theorem Alive.loop (h : o.Alive) {s : TcpConnection.Step} (he : o.Enabled (.loop s)) (ha : o.conn.ClosesOnce s)
    (hs : o.step (.loop s) = .ok o') : Alive o' := by
  cases s with
  | call onLoop call =>
    obtain ⟨conn, hc, heq⟩ := bind_eq_ok.mp hs
    cases heq
    have hlife := step_lifecycle h.life he.1 ha hc
    obtain ⟨-, rfl, -⟩ := he
    have hquiet := call_quiet h.life.valid h.life.state (fun ho hst => live_of_ne h.life.state (ha ho hst)) hc
    have hqueues := (call_queues h.life.valid hc).mono (q := Binds) fun f hf => ⟨hf.2 rfl, hf.1⟩
    refine h.frame hlife hqueues (fun hl ho => ?_) (by rw [hquiet.tasks]; exact id)
    have hd := h.life.disconnected hl
    exact ho.of_channel (call_channel_down hd (fun honloop hst => ha honloop hst hd) hc)
  | event revents =>
    obtain ⟨conn, hc, heq⟩ := bind_eq_ok.mp hs
    cases heq
    have hlife := step_lifecycle h.life he.1 ha hc
    cases hc
    exact ⟨hlife, h.behind, h.out, fun _ => Or.inl rfl, h.held_le, h.held⟩
  | task r w =>
    obtain ⟨conn, hc, heq⟩ := bind_eq_ok.mp hs
    cases heq
    have hlife := step_lifecycle h.life he.1 ha hc
    have htasks : o.conn.tasks ≠ [] := he.1
    obtain ⟨t, ts, ht, hrun⟩ | ⟨ht, -⟩ := task_inv hc
    · have hqueues := runTask_queues (c := { o.conn with tasks := ts }) h.life.valid hrun
      exact h.frame hlife ⟨hqueues.functors, hqueues.queued, hqueues.removal⟩
        (fun hl ho => ho.of_channel (runTask_down h.life hl ht ha hrun)) fun _ => htasks
    · exact absurd ht htasks
  | delayedClose =>
    rw [step_delayedClose] at hs
    split_ifs at hs with hr
    · cases hs
      have hquiet : Quiet o.conn { o.conn with delayedCloses := o.conn.delayedCloses - 1 } :=
        { Quiet.refl h.life.valid with }
      exact h.frame (h.life.quiet hquiet) (.none rfl rfl Iff.rfl) (fun _ ho => ho) id
    · obtain ⟨conn, hc, heq⟩ := bind_eq_ok.mp hs
      cases heq
      have hlife := step_lifecycle h.life he.1 ha hc
      cases hc
      have hq := forceClose_queues { o.conn with delayedCloses := o.conn.delayedCloses - 1 }
      refine h.frame hlife ⟨hq.functors, hq.queued, hq.removal⟩ ?_ ?_
      · unfold forceClose
        split_ifs <;> exact fun _ ho => ho
      · unfold forceClose
        split_ifs <;> exact id
  | removeConnection =>
    obtain ⟨conn, hc, heq⟩ := bind_eq_ok.mp hs
    cases heq
    have hlife := step_lifecycle h.life he.1 ha hc
    cases hc
    exact h.removeConnection hlife
  | doPendingFunctors =>
    obtain ⟨conn, hc, heq⟩ := bind_eq_ok.mp hs
    cases heq
    have hlife := step_lifecycle h.life he.1 ha hc
    cases hc
    have hf : o.conn.functors = none := he.1.2
    have hqueue : queue { o.conn with functors := some o.conn.pendingFunctors, pendingFunctors := [] } = o.conn.queue := by
      simp [queue, hf]
    refine ⟨hlife, fun hm => ?_, fun hm => ?_, h.handler, h.held_le, h.held⟩
    · exact hqueue ▸ h.behind hm
    · exact (h.out hm).imp (fun hd => hqueue ▸ hd) id
  | functor w =>
    obtain ⟨conn, hc, heq⟩ := bind_eq_ok.mp hs
    have htasks : o.conn.tasks = [] := he.1.1
    obtain ⟨f, fs, hf, hrun⟩ | ⟨hf, rfl⟩ := functor_inv hc
    · rw [hf] at heq
      cases heq
      exact h.functor hf he.1 ha hrun
    · have hlife := step_lifecycle h.life he.1 ha hc
      rw [hf] at heq
      cases heq
      have hqueue : queue { o.conn with functors := none } = o.conn.queue := by simp [queue, hf]
      refine ⟨hlife, fun hm => ?_, fun hm => ?_, fun ht => absurd htasks ht, h.held_le, h.held⟩
      · exact hqueue ▸ h.behind hm
      · exact (h.out hm).imp (fun hd => hqueue ▸ hd) id
  | destroy => exact absurd he.2 id

theorem Alive.step (h : o.Alive) {s : Step} (he : o.Enabled s) (ha : o.InTime s) (hs : o.step s = .ok o') :
    Alive o' := by
  cases s with
  | loop s => exact h.loop he ha hs
  | call call =>
    obtain ⟨conn, hc, heq⟩ := bind_eq_ok.mp hs
    cases heq
    exact h.call he hc
  | queueInLoop i =>
    have hi : i < o.held.length := he
    have hf : o.held[i]? = some o.held[i] := List.getElem?_eq_getElem hi
    rw [step_queueInLoop hf] at hs
    cases hs
    exact h.queueInLoop hf fun hraw => ha ⟨_, hf, hraw⟩
  | handleEventReturns =>
    cases hs
    exact h.handleEventReturns he.2
  | acquire =>
    cases hs
    exact h.acquire
  | release =>
    cases hs
    exact h.release he

/-- Where the last pointer is gone, the loop's timers and batches are all that is left, and they do not bring it back. -/
theorem Alive.stays (h : o.Alive) (hr : o.references = 0) {s : Step} (he : o.Enabled s) (hs : o.step s = .ok o') :
    o'.references = 0 := by
  have hgone := h.gone hr
  have ht : ¬o.Touches s := fun ht => absurd (h.touches he ht) (by omega)
  have hu : o.users = 0 := Nat.eq_zero_of_not_pos fun hu => absurd (references_pos_of_users hu) (by omega)
  cases s with
  | loop s =>
    cases s with
    | delayedClose =>
      rw [step_delayedClose, if_pos hr] at hs
      cases hs
      exact hr
    | doPendingFunctors =>
      obtain ⟨conn, hc, heq⟩ := bind_eq_ok.mp hs
      cases heq
      cases hc
      have hqueue : queue { o.conn with functors := some o.conn.pendingFunctors, pendingFunctors := [] } = o.conn.queue := by
        simp [queue, show o.conn.functors = none from he.1.2]
      have hsame : references { o with
          conn := { o.conn with functors := some o.conn.pendingFunctors, pendingFunctors := [] } } = o.references := by
        simp only [references, hqueue]
        rfl
      exact hsame.trans hr
    | functor w =>
      have hempty : o.conn.functors.getD [] = [] := by
        by_contra hne
        exact ht hne
      obtain ⟨conn, hc, heq⟩ := bind_eq_ok.mp hs
      obtain ⟨f, fs, hf, -⟩ | ⟨hf, rfl⟩ := functor_inv hc
      · rw [hf] at hempty
        cases hempty
      · rw [hempty] at heq
        cases heq
        have hqueue : queue { o.conn with functors := none } = o.conn.queue := by simp [queue, hempty]
        have hsame : references { o with conn := { o.conn with functors := none }, executed := [] } ≤ o.references := by
          simp only [references, hqueue, List.append_nil, List.countP_append]
          have hin : inMap { o with conn := { o.conn with functors := none }, executed := [] } = o.inMap := rfl
          have hrem : removals { o with conn := { o.conn with functors := none }, executed := [] } = o.removals := rfl
          rw [hin, hrem]
          omega
        exact Nat.eq_zero_of_le_zero (hr ▸ hsame)
    | _ => exact absurd trivial ht
  | acquire =>
    have he : 0 < o.references := he
    omega
  | release =>
    have he : o.held.length < o.users := he
    omega
  | _ => exact absurd trivial ht

end Steps

theorem established_alive (fd : ℤ) (writeComplete highWater : Bool) (highWaterMark : ℕ) :
    Alive { conn := established fd writeComplete highWater highWaterMark } where
  life := established_lifecycle fd writeComplete highWater highWaterMark
  behind := by simp [inMap, established]
  out := by simp [inMap, established]
  handler := by simp [established]
  held_le := Nat.le_refl 0
  held := by simp

/-- Every step that uses the connection finds it alive. When its last `TcpConnectionPtr` goes it is down and out of
the poller, nothing is queued for it, and no step brings it back. -/
theorem no_use_after_free [Build] {fd : ℤ} {writeComplete highWater : Bool} {highWaterMark : ℕ} {c₀ : TcpConnection}
    (h₀ : (create fd writeComplete highWater highWaterMark >>= connectEstablished) = .ok c₀) {steps : List Step}
    (h : Path step (fun o s => o.Enabled s ∧ o.InTime s) { conn := c₀ } steps o) :
    (∀ s, o.Enabled s → o.Touches s → 0 < o.references) ∧
      (o.references = 0 → o.Gone ∧ ∀ s o', o.Enabled s → o.step s = .ok o' → o'.references = 0) := by
  cases h₀.symm.trans (create_connectEstablished fd writeComplete highWater highWaterMark)
  have hinv : o.Alive := h.invariant (established_alive fd writeComplete highWater highWaterMark)
    fun t s u ht ha hs => ht.step ha.1 ha.2 hs
  exact ⟨fun s he ht => hinv.touches he ht, fun hr => ⟨hinv.gone hr, fun s o' he hs => hinv.stays hr he hs⟩⟩

/-- The peer hangs up while another thread's message and a timer wait; the user's pointer outlasts the owner's. -/
theorem no_use_after_free_hangup :
    letI := Build.debug
    let steps : List Step := [.acquire, .acquire, .call (.send (.string [1]) (.wrote 0)), .call .forceCloseWithDelay,
      .loop (.event POLLHUP), .loop (.task (.failed 0) (.wrote 0)), .queueInLoop 0,
      .loop (.task (.failed 0) (.wrote 0)), .handleEventReturns, .loop .removeConnection, .loop .doPendingFunctors,
      .loop (.functor (.wrote 0)), .loop (.functor (.wrote 0)), .loop (.functor (.wrote 0)), .release, .release,
      .loop .delayedClose]
    ∃ o, Path step (fun o s => o.Enabled s ∧ o.InTime s)
      { conn := established 7 false false 67108864 } steps o ∧ o.references = 0 ∧ o.Gone := by
  intro steps
  let _ := Build.debug
  obtain ⟨o, ho, hr⟩ := Path.exists_of_any step (fun o s => o.Enabled s ∧ o.InTime s)
    { conn := established 7 false false 67108864 } steps (fun o => decide (o.references = 0)) (by decide +kernel)
  have hr := of_decide_eq_true hr
  exact ⟨o, ho, hr, ((no_use_after_free (create_connectEstablished 7 false false 67108864) ho).2 hr).1⟩

/-- A thread that saw `kConnected` queues its message after `connectDestroyed` has run, and lets its pointer go: the
functor finds the connection destroyed. -/
theorem late_send_uses_freed :
    letI := Build.debug
    let steps : List Step := [.acquire, .call (.send (.string [1]) (.wrote 0)), .loop (.event POLLHUP),
      .loop (.task (.failed 0) (.wrote 0)), .loop (.task (.failed 0) (.wrote 0)), .handleEventReturns,
      .loop .removeConnection, .loop .doPendingFunctors, .loop (.functor (.wrote 0)), .loop (.functor (.wrote 0)),
      .queueInLoop 0, .release, .loop .doPendingFunctors]
    ∃ o, Path step Enabled { conn := established 7 false false 67108864 } steps o ∧
      o.Enabled (.loop (.functor (.wrote 0))) ∧ o.Touches (.loop (.functor (.wrote 0))) ∧ o.references = 0 := by
  intro steps
  let _ := Build.debug
  obtain ⟨o, ho, hd⟩ := Path.exists_of_any step Enabled { conn := established 7 false false 67108864 } steps
    (fun o => decide (o.Enabled (.loop (.functor (.wrote 0))) ∧ o.Touches (.loop (.functor (.wrote 0))) ∧
      o.references = 0)) (by decide +kernel)
  exact ⟨o, ho, of_decide_eq_true hd⟩

end Owned

end Networker
