import Networker.ConnectionTeardown
import Networker.HalfClose

/-!
What the steps of a connection do with its channel: nothing, one `update()` or one `remove()`.
While a connection is live, the channel stays in the interest list of its poller.
-/

namespace Networker.TcpConnection

open CheckedRuns EPollPoller

/-- The channel after at most one call of `Channel::update` or, if the step may remove it, of `Channel::remove`. -/
inductive Touches [Build] (removes : Prop) (c : Channel) : Channel → Prop
  | same : Touches removes c c
  | update (events : BitVec 32) : Touches removes c
      { c with events, addedToLoop := true, index := updatedIndex { c with events, addedToLoop := true } }
  | remove (hr : removes) (hnone : assert (c.isNoneEvent = true) = .ok ()) (hnew : assert (c.index ≠ kNew) = .ok ()) :
      Touches removes c { c with addedToLoop := false, index := kNew }

/-- The step is the poller's report that the descriptor is ready. -/
def Step.isEvent : Step → Bool
  | .event _ => true
  | .call _ _ | .task _ _ | .delayedClose | .removeConnection | .doPendingFunctors | .functor _ | .destroy => false

/-- The owner destroys the connection, or a functor does, or that has begun. -/
def MayRemove (c : TcpConnection) : Step → Prop
  | .destroy | .functor _ => True
  | _ => .remove ∈ c.tasks

section Effects

variable [Build] {c c' : TcpConnection} {removes : Prop}

theorem Touches.change (ch : Channel) (i : Channel.Interest) : Touches removes ch (ch.change i) :=
  .update (i.mask ch.events)

theorem Touches.fd {ch ch' : Channel} (h : Touches removes ch ch') : ch'.fd = ch.fd := by
  cases h <;> rfl

theorem removeChannel_touches (hr : removes) (h : c.removeChannel = .ok c') : Touches removes c.channel c'.channel := by
  obtain ⟨⟨⟩, hnone, h⟩ := bind_eq_ok.mp h
  obtain ⟨⟨⟩, hnew, h⟩ := bind_eq_ok.mp h
  cases h
  exact .remove hr hnone hnew

theorem connectDestroyed_touches (hr : removes) (h : c.connectDestroyed = .ok c') :
    Touches removes c.channel c'.channel := by
  unfold connectDestroyed at h
  split_ifs at h
  · cases h
    exact .change _ .disableAll
  · exact removeChannel_touches hr h

theorem handleClose_touches (h : c.handleClose = .ok c') : Touches removes c.channel c'.channel := by
  rw [handleClose_eq h]
  exact .change _ .disableAll

theorem sendInLoop_touches (hv : c.outputBuffer.Valid) {data : List UInt8} {len : ℕ} {w : WriteResult}
    (h : c.sendInLoop data len w = .ok c') : Touches removes c.channel c'.channel := by
  obtain ⟨message, -, ⟨-, rfl⟩ | ⟨-, -, rfl⟩ | ⟨-, -, n, b, ch, extra, hkept, rfl⟩⟩ := sendInLoop_inv hv h
  · exact .same
  · exact .same
  · change Touches removes c.channel ch
    rw [hkept.channel_eq]
    split_ifs
    · exact .change _ .enableWriting
    · exact .same

omit [Build] in
theorem shutdownInLoop_channel (c : TcpConnection) : c.shutdownInLoop.channel = c.channel := by
  obtain ⟨trace, h⟩ := shutdownInLoop_eq c
  rw [h]

theorem startReadInLoop_touches (c : TcpConnection) : Touches removes c.channel c.startReadInLoop.channel := by
  unfold startReadInLoop
  split_ifs
  · exact .change _ .enableReading
  · exact .same

theorem handleWrite_touches (hv : c.outputBuffer.Valid) {w : WriteResult} (h : c.handleWrite w = .ok c') :
    Touches removes c.channel c'.channel := by
  rcases handleWrite_cases hv w with ⟨-, he⟩ | ⟨-, -, b, -, -, ⟨-, he⟩ | ⟨-, extra, -, he⟩⟩
  · cases he.symm.trans h
    exact .same
  · cases he.symm.trans h
    exact .same
  · cases he.symm.trans h
    split_ifs
    · rw [shutdownInLoop_channel]
      exact .change _ .disableWriting
    · exact .change _ .disableWriting

theorem call_touches (hv : c.outputBuffer.Valid) {onLoop : Bool} {call : Call} (h : c.call onLoop call = .ok c') :
    Touches removes c.channel c'.channel := by
  cases call with
  | send message w =>
    obtain ⟨-, rfl⟩ | ⟨-, ⟨-, data, len, he⟩ | ⟨-, s, rfl⟩⟩ := send_inv h
    · exact .same
    · exact sendInLoop_touches (c := { c with sent := c.sent ++ [message.bytes] }) hv he
    · exact .same
  | shutdown =>
    cases h
    obtain ⟨state, trace, pendingFunctors, hs, -⟩ := shutdown_eq c onLoop
    rw [hs]
    exact .same
  | forceClose =>
    cases h
    unfold forceClose
    split_ifs <;> exact .same
  | forceCloseWithDelay =>
    cases h
    unfold forceCloseWithDelay
    split_ifs <;> exact .same
  | startRead =>
    cases h
    cases onLoop with
    | true => exact startReadInLoop_touches c
    | false => exact .same
  | retrieveInput len =>
    obtain ⟨b, -, hb⟩ := bind_eq_ok.mp h
    cases hb
    exact .same

theorem runTask_touches (hv : c.outputBuffer.Valid) {r : Buffer.ReadResult} {w : WriteResult} {t : Task}
    (hr : t = .remove → removes) (h : c.runTask r w t = .ok c') : Touches removes c.channel c'.channel := by
  cases t with
  | channel callback =>
    cases callback with
    | close => exact handleClose_touches h
    | error =>
      cases h
      exact .same
    | read =>
      obtain ⟨b, ⟨-, hclose⟩ | ⟨-, rfl | ⟨n, rfl⟩⟩⟩ := handleRead_inv h
      · exact handleClose_touches (c := { c with inputBuffer := b }) hclose
      · exact .same
      · exact .same
    | write => exact handleWrite_touches hv h
  | closeCallback =>
    cases h
    exact .same
  | remove => exact removeChannel_touches (hr rfl) h

theorem runFunctor_touches (hv : c.outputBuffer.Valid) {w : WriteResult} {f : Functor} (hr : removes)
    (h : c.runFunctor w f = .ok c') : Touches removes c.channel c'.channel := by
  cases f with
  | sendInLoop message => exact sendInLoop_touches hv h
  | shutdownInLoop =>
    cases h
    rw [shutdownInLoop_channel]
    exact .same
  | forceCloseInLoop =>
    simp only [runFunctor, forceCloseInLoop] at h
    split_ifs at h
    · exact handleClose_touches h
    · cases h
      exact .same
  | startReadInLoop =>
    cases h
    exact startReadInLoop_touches c
  | connectDestroyed => exact connectDestroyed_touches hr h
  | writeCompleteCallback =>
    cases h
    exact .same
  | highWaterMarkCallback size =>
    cases h
    exact .same

theorem step_touches (hv : c.outputBuffer.Valid) {i : Step} (hi : i.isEvent = false) (h : c.step i = .ok c') :
    Touches (c.MayRemove i) c.channel c'.channel := by
  cases i with
  | call onLoop call => exact call_touches hv h
  | event revents => cases hi
  | task r w =>
    obtain ⟨t, ts, ht, hrun⟩ | ⟨-, rfl⟩ := task_inv h
    · refine runTask_touches (c := { c with tasks := ts }) hv ?_ hrun
      rintro rfl
      change .remove ∈ c.tasks
      rw [ht]
      exact List.mem_cons_self
    · exact .same
  | delayedClose =>
    cases h
    unfold forceClose
    split_ifs <;> exact .same
  | removeConnection =>
    cases h
    exact .same
  | doPendingFunctors =>
    cases h
    exact .same
  | functor w =>
    obtain ⟨f, fs, -, hrun⟩ | ⟨-, rfl⟩ := functor_inv h
    · exact runFunctor_touches (c := { c with functors := some fs }) hv trivial hrun
    · exact .same
  | destroy => exact connectDestroyed_touches trivial h

/-- No handler is given a channel to remove, and no functors to call. -/
structure Goes (c c' : TcpConnection) : Prop where
  remove : .remove ∈ c'.tasks → .remove ∈ c.tasks
  functors : c'.functors = c.functors

omit [Build] in
theorem Goes.of_eq (ht : c'.tasks = c.tasks) (hf : c'.functors = c.functors) : Goes c c' :=
  ⟨fun hm => by rwa [ht] at hm, hf⟩

theorem sendInLoop_goes (hv : c.outputBuffer.Valid) {data : List UInt8} {len : ℕ} {w : WriteResult}
    (h : c.sendInLoop data len w = .ok c') : Goes c c' := by
  obtain ⟨message, -, ⟨-, rfl⟩ | ⟨-, -, rfl⟩ | ⟨-, -, n, b, ch, extra, -, rfl⟩⟩ := sendInLoop_inv hv h
  · exact .of_eq rfl rfl
  · exact .of_eq rfl rfl
  · exact .of_eq rfl rfl

omit [Build] in
theorem shutdownInLoop_goes (c : TcpConnection) : Goes c c.shutdownInLoop := by
  obtain ⟨trace, h⟩ := shutdownInLoop_eq c
  rw [h]
  exact .of_eq rfl rfl

omit [Build] in
theorem startReadInLoop_goes (c : TcpConnection) : Goes c c.startReadInLoop := by
  unfold startReadInLoop
  split_ifs <;> exact .of_eq rfl rfl

theorem handleWrite_goes (hv : c.outputBuffer.Valid) {w : WriteResult} (h : c.handleWrite w = .ok c') : Goes c c' := by
  rcases handleWrite_cases hv w with ⟨-, he⟩ | ⟨-, -, b, -, -, ⟨-, he⟩ | ⟨-, extra, -, he⟩⟩
  · cases he.symm.trans h
    exact .of_eq rfl rfl
  · cases he.symm.trans h
    exact .of_eq rfl rfl
  · cases he.symm.trans h
    split_ifs
    · obtain ⟨hremove, hfunctors⟩ := shutdownInLoop_goes { c with
        accepted := c.accepted ++ writeAccepted c.outputBuffer.readable w
        outputBuffer := b
        channel := c.channel.disableWriting
        pendingFunctors := c.pendingFunctors ++ extra }
      exact ⟨hremove, hfunctors⟩
    · exact .of_eq rfl rfl

theorem call_goes (hv : c.outputBuffer.Valid) {onLoop : Bool} {call : Call} (h : c.call onLoop call = .ok c') :
    Goes c c' := by
  cases call with
  | send message w =>
    obtain ⟨-, rfl⟩ | ⟨-, ⟨-, data, len, he⟩ | ⟨-, s, rfl⟩⟩ := send_inv h
    · exact .of_eq rfl rfl
    · obtain ⟨hremove, hfunctors⟩ := sendInLoop_goes (c := { c with sent := c.sent ++ [message.bytes] }) hv he
      exact ⟨hremove, hfunctors⟩
    · exact .of_eq rfl rfl
  | shutdown =>
    cases h
    obtain ⟨state, trace, pendingFunctors, hs, -⟩ := shutdown_eq c onLoop
    rw [hs]
    exact .of_eq rfl rfl
  | forceClose =>
    cases h
    unfold forceClose
    split_ifs <;> exact .of_eq rfl rfl
  | forceCloseWithDelay =>
    cases h
    unfold forceCloseWithDelay
    split_ifs <;> exact .of_eq rfl rfl
  | startRead =>
    cases h
    cases onLoop with
    | true => exact startReadInLoop_goes c
    | false => exact .of_eq rfl rfl
  | retrieveInput len =>
    obtain ⟨b, -, hb⟩ := bind_eq_ok.mp h
    cases hb
    exact .of_eq rfl rfl

theorem runTask_goes (hv : c.outputBuffer.Valid) {r : Buffer.ReadResult} {w : WriteResult} {t : Task}
    (h : c.runTask r w t = .ok c') : Goes c c' := by
  obtain ⟨-, hwrite⟩ | rfl | ⟨b, rfl | rfl | ⟨e, -, rfl⟩⟩ := runTask_inv h
  · exact handleWrite_goes hv hwrite
  · exact .of_eq rfl rfl
  · exact .of_eq rfl rfl
  · exact ⟨fun hm => by simpa [closed] using hm, rfl⟩
  · exact .of_eq rfl rfl

theorem connectDestroyed_functors (h : c.connectDestroyed = .ok c') : c'.functors = c.functors := by
  unfold connectDestroyed at h
  split_ifs at h
  · cases h
    rfl
  · rw [removeChannel_eq h]
    rfl

/-- A handler is given a channel to remove only where the connection is being destroyed. -/
theorem step_remove (hv : c.outputBuffer.Valid) {i : Step} (h : c.step i = .ok c') (hm : .remove ∈ c'.tasks) :
    c.MayRemove i := by
  cases i with
  | call onLoop call => exact (call_goes hv h).remove hm
  | event revents =>
    cases h
    simp at hm
  | task r w =>
    obtain ⟨t, ts, ht, hrun⟩ | ⟨-, rfl⟩ := task_inv h
    · have hts := (runTask_goes (c := { c with tasks := ts }) hv hrun).remove hm
      change .remove ∈ c.tasks
      rw [ht]
      exact List.mem_cons_of_mem t hts
    · exact hm
  | delayedClose =>
    cases h
    unfold forceClose at hm
    split_ifs at hm <;> exact hm
  | removeConnection =>
    cases h
    exact hm
  | doPendingFunctors =>
    cases h
    exact hm
  | functor w => trivial
  | destroy => trivial

/-- Only `doPendingFunctors` sets out to call functors. -/
theorem step_functors (hv : c.outputBuffer.Valid) {i : Step} (h : c.step i = .ok c') (hf : c'.functors ≠ none) :
    c.functors ≠ none ∨ i = .doPendingFunctors := by
  cases i with
  | call onLoop call => exact Or.inl (by rwa [(call_goes hv h).functors] at hf)
  | event revents =>
    cases h
    exact Or.inl hf
  | task r w =>
    obtain ⟨t, ts, -, hrun⟩ | ⟨-, rfl⟩ := task_inv h
    · rw [(runTask_goes (c := { c with tasks := ts }) hv hrun).functors] at hf
      exact Or.inl hf
    · exact Or.inl hf
  | delayedClose =>
    cases h
    unfold forceClose at hf
    split_ifs at hf <;> exact Or.inl hf
  | removeConnection =>
    cases h
    exact Or.inl hf
  | doPendingFunctors => exact Or.inr rfl
  | functor w =>
    obtain ⟨f, fs, hfs, -⟩ | ⟨-, rfl⟩ := functor_inv h
    · exact Or.inl (by simp [hfs])
    · exact absurd rfl hf
  | destroy =>
    rw [connectDestroyed_functors h] at hf
    exact Or.inl hf

end Effects

/-- The connection is live and reads, and nothing that is still to run would remove its channel. -/
structure Attached (c : TcpConnection) : Prop where
  live : c.live
  index : c.channel.index = kAdded
  reading : c.channel.isReading = true
  closeCallback : .closeCallback ∉ c.trace
  tasks : .closeCallback ∉ c.tasks ∧ .remove ∉ c.tasks
  queue : .connectDestroyed ∉ c.queue

section Attachment

variable {c c' : TcpConnection}

theorem mem_trace_iff (c : TcpConnection) {e : Event} (he : e.isLifecycle = true) : e ∈ c.trace ↔ e ∈ c.lifecycle := by
  rw [lifecycle, List.mem_filter]
  exact (and_iff_left he).symm

theorem Attached.quiet (h : Attached c) (hq : Quiet c c') : Attached c' where
  live := hq.live_iff.mpr h.live
  index := (hq.reading h.index h.reading).1
  reading := (hq.reading h.index h.reading).2
  closeCallback := by
    rw [mem_trace_iff c' rfl, hq.lifecycle, ← mem_trace_iff c rfl]
    exact h.closeCallback
  tasks := by
    rw [hq.tasks]
    exact h.tasks
  queue := fun hm => h.queue (hq.queue hm)

theorem Attached.pop (h : Attached c) {t : Task} {ts : List Task} (ht : c.tasks = t :: ts) :
    Attached { c with tasks := ts } :=
  { h with tasks := ⟨fun hm => h.tasks.1 (by rw [ht]; exact List.mem_cons_of_mem _ hm),
      fun hm => h.tasks.2 (by rw [ht]; exact List.mem_cons_of_mem _ hm)⟩ }

theorem established_attached (fd : ℤ) (writeComplete highWater : Bool) (highWaterMark : ℕ) :
    Attached (established fd writeComplete highWater highWaterMark) :=
  ⟨Or.inl rfl, rfl, Channel.isReading_enableReading _, by simp [established], by simp [established],
    by simp [established, TcpConnection.queue]⟩

variable [Build]

theorem runTask_stays_down (hv : c.outputBuffer.Valid) (hd : c.state = .kDisconnected) {r : Buffer.ReadResult} {w : WriteResult}
    {t : Task} (h : c.runTask r w t = .ok c') : c'.state = .kDisconnected := by
  obtain ⟨-, hwrite⟩ | rfl | ⟨b, rfl | rfl | ⟨e, -, rfl⟩⟩ := runTask_inv h
  · exact (handleWrite_stream hv hwrite).2.2.trans hd
  · exact hd
  · exact hd
  · rfl
  · exact hd

theorem runFunctor_stays_down (hv : c.outputBuffer.Valid) (hd : c.state = .kDisconnected) {w : WriteResult} {f : Functor}
    (h : c.runFunctor w f = .ok c') : c'.state = .kDisconnected := by
  obtain ⟨s, -, hsend⟩ | ⟨-, ⟨-, rfl⟩ | rfl | hdestroy | (rfl | rfl) | ⟨e, -, rfl⟩⟩ := runFunctor_inv h
  · obtain ⟨message, -, ⟨-, rfl⟩ | ⟨hne, -, -⟩ | ⟨hne, -, -⟩⟩ := sendInLoop_inv hv hsend
    · exact hd
    · exact absurd hd hne
    · exact absurd hd hne
  · obtain ⟨trace, hs⟩ := shutdownInLoop_eq c
    rw [hs]
    exact hd
  · unfold startReadInLoop
    split_ifs <;> exact hd
  · rw [connectDestroyed, if_neg (by rw [hd]; decide)] at hdestroy
    rw [removeChannel_eq hdestroy]
    exact hd
  · exact hd
  · rfl
  · exact hd

/-- A connection that is closed stays closed. -/
theorem step_stays_down (hv : c.outputBuffer.Valid) (hd : c.state = .kDisconnected) {i : Step} (h : c.step i = .ok c') :
    c'.state = .kDisconnected := by
  have hl : ¬c.live := by simp [live, hd]
  have hne : c.state ≠ .kConnected := by simp [hd]
  cases i with
  | call onLoop call =>
    change c.call onLoop call = .ok c' at h
    by_cases hcall : call.leavesDown = true
    · cases (call_down hd onLoop hcall).symm.trans h
      exact hd
    · cases call with
      | startRead =>
        cases h
        cases onLoop with
        | true =>
          simp only [startRead, if_true, startReadInLoop]
          split_ifs <;> exact hd
        | false => exact hd
      | retrieveInput len =>
        obtain ⟨b, -, hb⟩ := bind_eq_ok.mp h
        cases hb
        exact hd
      | send message w => exact absurd rfl hcall
      | shutdown => exact absurd rfl hcall
      | forceClose => exact absurd rfl hcall
      | forceCloseWithDelay => exact absurd rfl hcall
  | event revents =>
    cases h
    exact hd
  | task r w =>
    obtain ⟨t, ts, -, hrun⟩ | ⟨-, rfl⟩ := task_inv h
    · exact runTask_stays_down (c := { c with tasks := ts }) hv hd hrun
    · exact hd
  | delayedClose =>
    cases h
    unfold forceClose
    split_ifs with hlive
    · exact absurd hlive hl
    · exact hd
  | removeConnection =>
    cases h
    exact hd
  | doPendingFunctors =>
    cases h
    exact hd
  | functor w =>
    obtain ⟨f, fs, -, hrun⟩ | ⟨-, rfl⟩ := functor_inv h
    · exact runFunctor_stays_down (c := { c with functors := some fs }) hv hd hrun
    · exact hd
  | destroy =>
    change c.connectDestroyed = .ok c' at h
    rw [connectDestroyed, if_neg hne] at h
    rw [removeChannel_eq h]
    exact hd

/-- An attached connection stays attached until it is closed. -/
theorem Attached.step (h : Attached c) (hv : c.outputBuffer.Valid) {i : Step} (he : c.Enabled i)
    (hi : i = .destroy → c.state ≠ .kDisconnecting) (hs : c.step i = .ok c') : c'.state = .kDisconnected ∨ Attached c' := by
  have hl : c.live := h.live
  have hk : c.state ≠ .kConnecting := by rcases hl with hc | hc <;> rw [hc] <;> decide
  have hclosed {d : TcpConnection} (hd : d.handleClose = .ok c') : c'.state = .kDisconnected := by
    rw [handleClose_eq hd]
    rfl
  cases i with
  | call onLoop call => exact Or.inr (h.quiet (call_quiet hv hk (fun _ _ => hl) hs))
  | event revents =>
    cases hs
    exact Or.inr { h with tasks := by simp }
  | task r w =>
    obtain ⟨t, ts, ht, hrun⟩ | ⟨-, rfl⟩ := task_inv hs
    · have hp := h.pop ht
      have hq := Quiet.refl (c := { c with tasks := ts }) hv
      cases t with
      | channel callback =>
        cases callback with
        | close => exact Or.inl (hclosed hrun)
        | error =>
          cases hrun
          exact Or.inr hp
        | read =>
          obtain ⟨b, ⟨-, hclose⟩ | ⟨-, rfl | ⟨n, rfl⟩⟩⟩ := handleRead_inv hrun
          · exact Or.inl (hclosed hclose)
          · exact Or.inr { hp with }
          · have hb : Quiet { c with tasks := ts } { c with tasks := ts, inputBuffer := b } := { hq with }
            exact Or.inr (hp.quiet (hb.log rfl))
        | write => exact Or.inr (hp.quiet (handleWrite_quiet (c := { c with tasks := ts }) hv (fun _ => hl) hrun))
      | closeCallback => exact absurd (by rw [ht]; exact List.mem_cons_self) h.tasks.1
      | remove => exact absurd (by rw [ht]; exact List.mem_cons_self) h.tasks.2
    · exact Or.inr h
  | delayedClose =>
    cases hs
    have hq : Quiet c { c with delayedCloses := c.delayedCloses - 1 } := { Quiet.refl hv with }
    exact Or.inr (h.quiet (hq.trans (forceClose_quiet hv)))
  | removeConnection =>
    have hzero : c.trace.count .closeCallback = 0 := List.count_eq_zero.mpr h.closeCallback
    have hcount : c.trace.count .removeConnection < c.trace.count .closeCallback := he
    omega
  | doPendingFunctors =>
    cases hs
    refine Or.inr { h with queue := fun hm => h.queue ?_ }
    simp only [TcpConnection.queue, Option.getD_some, List.append_nil] at hm ⊢
    exact List.mem_append_right _ hm
  | functor w =>
    obtain ⟨f, fs, hf, hrun⟩ | ⟨hf, rfl⟩ := functor_inv hs
    · have hp : Attached { c with functors := some fs } :=
        { h with queue := fun hm => h.queue (by simp only [TcpConnection.queue, hf] at hm ⊢; simp_all) }
      have hq := Quiet.refl (c := { c with functors := some fs }) hv
      cases f with
      | sendInLoop message => exact Or.inr (hp.quiet (sendInLoop_quiet (c := { c with functors := some fs }) hv hk hrun))
      | shutdownInLoop =>
        cases hrun
        exact Or.inr (hp.quiet hq.shutdownInLoop)
      | forceCloseInLoop =>
        simp only [runFunctor, forceCloseInLoop] at hrun
        split_ifs at hrun
        · exact Or.inl (hclosed hrun)
        · cases hrun
          exact Or.inr hp
      | startReadInLoop =>
        cases hrun
        exact Or.inr (hp.quiet (startReadInLoop_quiet (c := { c with functors := some fs }) hv hl))
      | connectDestroyed => exact absurd (by simp [TcpConnection.queue, hf]) h.queue
      | writeCompleteCallback =>
        cases hrun
        exact Or.inr (hp.quiet (hq.log rfl))
      | highWaterMarkCallback size =>
        cases hrun
        exact Or.inr (hp.quiet (hq.log rfl))
    · exact Or.inr { h with queue := fun hm => h.queue (by simpa [TcpConnection.queue, hf] using hm) }
  | destroy =>
    have hc : c.state = .kConnected := hl.resolve_right (hi rfl)
    change c.connectDestroyed = .ok c' at hs
    rw [connectDestroyed, if_pos hc] at hs
    cases hs
    exact Or.inl rfl

end Attachment

section Polling

variable [Build] {c c' : TcpConnection}

/-- The loop has no more to do for the connection, and the channel has at most been made to watch for more. -/
structure Waiting (c c' : TcpConnection) : Prop where
  polling : c'.polling
  channel : c'.channel = c.channel ∨ c'.channel = c.channel.enableWriting ∨ c'.channel = c.channel.enableReading

omit [Build] in
theorem forceClose_waiting (hp : c.polling) : Waiting c c.forceClose := by
  unfold forceClose
  split_ifs <;> exact ⟨hp, Or.inl rfl⟩

theorem call_waiting (hv : c.outputBuffer.Valid) (hp : c.polling) {onLoop : Bool} {call : Call}
    (h : c.call onLoop call = .ok c') : Waiting c c' := by
  cases call with
  | send message w =>
    obtain ⟨-, rfl⟩ | ⟨-, ⟨-, data, len, he⟩ | ⟨-, s, rfl⟩⟩ := send_inv h
    · exact ⟨hp, Or.inl rfl⟩
    · obtain ⟨message, -, ⟨-, rfl⟩ | ⟨-, -, rfl⟩ | ⟨-, -, n, b, ch, extra, hkept, rfl⟩⟩ :=
        sendInLoop_inv (c := { c with sent := c.sent ++ [message.bytes] }) hv he
      · exact ⟨hp, Or.inl rfl⟩
      · exact ⟨hp, Or.inl rfl⟩
      · refine ⟨hp, ?_⟩
        change ch = _ ∨ ch = _ ∨ ch = _
        rw [hkept.channel_eq]
        split_ifs
        · exact Or.inr (Or.inl rfl)
        · exact Or.inl rfl
    · exact ⟨hp, Or.inl rfl⟩
  | shutdown =>
    cases h
    obtain ⟨state, trace, pendingFunctors, hs, -⟩ := shutdown_eq c onLoop
    rw [hs]
    exact ⟨hp, Or.inl rfl⟩
  | forceClose =>
    cases h
    exact forceClose_waiting hp
  | forceCloseWithDelay =>
    cases h
    unfold forceCloseWithDelay
    split_ifs <;> exact ⟨hp, Or.inl rfl⟩
  | startRead =>
    cases h
    cases onLoop with
    | true =>
      simp only [startRead, if_true, startReadInLoop]
      split_ifs
      · exact ⟨hp, Or.inr (Or.inr rfl)⟩
      · exact ⟨hp, Or.inl rfl⟩
    | false => exact ⟨hp, Or.inl rfl⟩
  | retrieveInput len =>
    obtain ⟨b, -, hb⟩ := bind_eq_ok.mp h
    cases hb
    exact ⟨hp, Or.inl rfl⟩

/-- While its event waits to be handled, only calls and timers reach the connection. -/
theorem step_waiting (hv : c.outputBuffer.Valid) (hp : c.polling) {i : Step} (he : c.Enabled i) (hevent : i.isEvent = false)
    (hfunctors : i ≠ .doPendingFunctors) (hdestroy : i ≠ .destroy) (h : c.step i = .ok c') : Waiting c c' := by
  cases i with
  | call onLoop call => exact call_waiting hv hp h
  | event revents => cases hevent
  | task r w => exact absurd hp.1 he
  | delayedClose =>
    cases h
    exact { forceClose_waiting (c := { c with delayedCloses := c.delayedCloses - 1 }) hp with }
  | removeConnection =>
    cases h
    exact ⟨hp, Or.inl rfl⟩
  | doPendingFunctors => exact absurd rfl hfunctors
  | functor w => exact absurd hp.2 he.2
  | destroy => exact absurd rfl hdestroy

end Polling

end Networker.TcpConnection
