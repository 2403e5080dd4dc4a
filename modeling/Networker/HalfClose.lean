import Networker.ConnectionSteps

/-!
Interest in writing follows the output buffer, and the write half of the socket
is shut down only when that buffer is empty.
-/

namespace Networker

open CheckedRuns

def Event.isShutdown : Event → Bool
  | .shutdownInLoop | .shutdownWrite _ _ _ => true
  | .connectionCallback _ | .handleClose _ | .closeCallback | .removeConnection | .messageCallback _ | .remove _ _
  | .writeCompleteCallback | .highWaterMarkCallback _ => false

namespace TcpConnection

structure HalfClose (c : TcpConnection) : Prop where
  valid : c.outputBuffer.Valid
  interest : c.live → (c.channel.isWriting = true ↔ c.outputBuffer.readable ≠ [])
  drained : ∀ state queued accepted, .shutdownWrite state queued accepted ∈ c.trace →
    state = .kConnected ∨ state = .kDisconnecting → queued = []
  asked : c.live → .shutdownInLoop ∈ c.trace ∨ .shutdownInLoop ∈ c.queue → c.state = .kDisconnecting
  done : c.live → .shutdownInLoop ∈ c.trace → c.outputBuffer.readable = [] →
    ∃ state queued accepted, .shutdownWrite state queued accepted ∈ c.trace

/-- A task is the write callback, or it takes input, closes the connection, removes the channel or notifies. -/
theorem runTask_inv [Build] {c c' : TcpConnection} {r : Buffer.ReadResult} {w : WriteResult} {t : Task}
    (hs : c.runTask r w t = .ok c') :
    (t = .channel .write ∧ c.handleWrite w = .ok c') ∨ c' = c.removed ∨
      ∃ b, c' = { c with inputBuffer := b } ∨ c' = closed { c with inputBuffer := b } ∨
        ∃ e : Event, e.isShutdown = false ∧ c' = log { c with inputBuffer := b } e := by
  cases t with
  | channel callback =>
    cases callback with
    | close => exact Or.inr (Or.inr ⟨c.inputBuffer, Or.inr (Or.inl (handleClose_eq hs))⟩)
    | error =>
      cases hs
      exact Or.inr (Or.inr ⟨c.inputBuffer, Or.inl rfl⟩)
    | read =>
      obtain ⟨b, ⟨-, hclose⟩ | ⟨-, rfl | ⟨n, rfl⟩⟩⟩ := handleRead_inv hs
      · exact Or.inr (Or.inr ⟨b, Or.inr (Or.inl (handleClose_eq hclose))⟩)
      · exact Or.inr (Or.inr ⟨b, Or.inl rfl⟩)
      · exact Or.inr (Or.inr ⟨b, Or.inr (Or.inr ⟨_, rfl, rfl⟩)⟩)
    | write => exact Or.inl ⟨rfl, hs⟩
  | closeCallback =>
    cases hs
    exact Or.inr (Or.inr ⟨c.inputBuffer, Or.inr (Or.inr ⟨_, rfl, rfl⟩)⟩)
  | remove => exact Or.inr (Or.inl (removeChannel_eq hs))

/-- A functor sends; or it shuts down, starts reading or destroys, or it closes, notifies or does nothing. -/
theorem runFunctor_inv [Build] {c c' : TcpConnection} {w : WriteResult} {f : Functor} (hs : c.runFunctor w f = .ok c') :
    (∃ s, f = .sendInLoop s ∧ c.sendPieceInLoop (.ofString s) w = .ok c') ∨
      (∀ s, f ≠ .sendInLoop s) ∧
        (f = .shutdownInLoop ∧ c' = c.shutdownInLoop ∨ c' = c.startReadInLoop ∨ c.connectDestroyed = .ok c' ∨
          (c' = c ∨ c' = closed c) ∨ ∃ e : Event, e.isShutdown = false ∧ c' = log c e) := by
  cases f with
  | sendInLoop message => exact Or.inl ⟨message, rfl, hs⟩
  | shutdownInLoop =>
    cases hs
    exact Or.inr ⟨by simp, Or.inl ⟨rfl, rfl⟩⟩
  | forceCloseInLoop =>
    simp only [runFunctor, forceCloseInLoop] at hs
    refine Or.inr ⟨by simp, Or.inr (Or.inr (Or.inr (Or.inl ?_)))⟩
    split_ifs at hs
    · exact Or.inr (handleClose_eq hs)
    · cases hs
      exact Or.inl rfl
  | startReadInLoop =>
    cases hs
    exact Or.inr ⟨by simp, Or.inr (Or.inl rfl)⟩
  | connectDestroyed => exact Or.inr ⟨by simp, Or.inr (Or.inr (Or.inl hs))⟩
  | writeCompleteCallback =>
    cases hs
    exact Or.inr ⟨by simp, Or.inr (Or.inr (Or.inr (Or.inr ⟨_, rfl, rfl⟩)))⟩
  | highWaterMarkCallback size =>
    cases hs
    exact Or.inr ⟨by simp, Or.inr (Or.inr (Or.inr (Or.inr ⟨_, rfl, rfl⟩)))⟩

namespace HalfClose

variable {c c' : TcpConnection}

theorem frame (h : HalfClose c) (hl : c'.live → c.live ∧ (c'.state = c.state ∨ c'.state = .kDisconnecting))
    (hb : c'.outputBuffer = c.outputBuffer) (hw : c'.live → c'.channel.isWriting = c.channel.isWriting)
    (ht : ∀ e : Event, e.isShutdown = true → (e ∈ c'.trace ↔ e ∈ c.trace))
    (hq : .shutdownInLoop ∈ c'.queue → .shutdownInLoop ∈ c.queue) : HalfClose c' where
  valid := hb ▸ h.valid
  interest := fun hl' => by
    rw [hw hl', hb]
    exact h.interest (hl hl').1
  drained := fun state queued accepted hm => h.drained state queued accepted ((ht _ rfl).mp hm)
  asked := fun hl' ha => by
    rcases hl hl' with ⟨hlive, hs | hs⟩
    · rw [hs]
      exact h.asked hlive (ha.imp (ht _ rfl).mp hq)
    · exact hs
  done := fun hl' hm hr => by
    obtain ⟨state, queued, accepted, hw'⟩ := h.done (hl hl').1 ((ht _ rfl).mp hm) (hb ▸ hr)
    exact ⟨state, queued, accepted, (ht _ rfl).mpr hw'⟩

theorem same (h : HalfClose c) (hs : c'.state = c.state) (hb : c'.outputBuffer = c.outputBuffer)
    (hw : c'.channel = c.channel) (ht : c'.trace = c.trace)
    (hq : .shutdownInLoop ∈ c'.queue → .shutdownInLoop ∈ c.queue) : HalfClose c' :=
  h.frame (fun hl => ⟨by rwa [live, ← hs], Or.inl hs⟩) hb (fun _ => by rw [hw]) (fun e _ => by rw [ht]) hq

theorem log (h : HalfClose c) {e : Event} (he : e.isShutdown = false) : HalfClose (c.log e) := by
  refine h.frame (fun hl => ⟨hl, Or.inl rfl⟩) rfl (fun _ => rfl) ?_ id
  intro e' he'
  have hne : e' ≠ e := by
    rintro rfl
    exact absurd (he'.symm.trans he) (by decide)
  simp [TcpConnection.log, hne]

/-- Once interest matches the buffer, `shutdownInLoop` either shuts down or leaves it to `handleWrite`. -/
theorem shutdownInLoop (hv : c.outputBuffer.Valid)
    (hi : c.live → (c.channel.isWriting = true ↔ c.outputBuffer.readable ≠ []))
    (hd : ∀ state queued accepted, .shutdownWrite state queued accepted ∈ c.trace →
      state = .kConnected ∨ state = .kDisconnecting → queued = [])
    (hs : c.live → c.state = .kDisconnecting) : HalfClose c.shutdownInLoop := by
  unfold TcpConnection.shutdownInLoop
  dsimp only
  split_ifs with hw
  · refine ⟨hv, hi, ?_, fun hl _ => hs hl, ?_⟩
    · simpa [TcpConnection.log] using hd
    · intro hl _ hr
      exact absurd hr ((hi hl).mp hw)
  · have hempty : c.live → c.outputBuffer.readable = [] := by
      intro hl
      by_contra hr
      exact hw ((hi hl).mpr hr)
    refine ⟨hv, hi, ?_, fun hl _ => hs hl,
      fun _ _ _ => ⟨_, _, _, List.mem_append_right _ (List.mem_singleton_self _)⟩⟩
    intro state queued accepted hm hstate
    simp only [TcpConnection.log, List.append_assoc, List.mem_append, List.mem_cons, List.not_mem_nil, or_false,
      reduceCtorEq, false_or] at hm
    rcases hm with hm | hm
    · exact hd state queued accepted hm hstate
    · cases hm
      exact hempty hstate

theorem keep (h : HalfClose c) {message : List UInt8} {n : ℕ} {b : Buffer} {ch : Channel} {extra : List Functor}
    (hk : c.Kept message n b ch extra) : HalfClose (c.keep message n b ch extra) where
  valid := hk.valid
  interest := fun hl => by
    have hi := h.interest hl
    simp only [TcpConnection.keep, hk.channel_eq, hk.readable_eq]
    have hdrop : n < message.length → message.drop n ≠ [] := by simp
    by_cases hn : n < message.length
    · by_cases hw : c.channel.isWriting = false
      · simp [hn, hw, hdrop hn]
      · simp_all
    · have hnil : message.drop n = [] := by simpa using hn
      simpa [hn, hnil] using hi
  drained := h.drained
  asked := fun hl ha => h.asked hl (ha.imp id fun hq => by
    have hx : .shutdownInLoop ∉ extra := fun hm => hk.notifies _ hm
    simpa [queue, TcpConnection.keep, hx] using hq)
  done := fun hl hm hr => by
    simp only [TcpConnection.keep, hk.readable_eq, List.append_eq_nil_iff] at hr
    exact h.done hl hm hr.1

theorem setDisconnecting (h : HalfClose c) (hl : c.live) : HalfClose { c with state := .kDisconnecting } :=
  h.frame (fun _ => ⟨hl, Or.inr rfl⟩) rfl (fun _ => rfl) (fun _ _ => Iff.rfl) id

theorem queueInLoop (h : HalfClose c) {f : Functor} (hf : f = .shutdownInLoop → c.live → c.state = .kDisconnecting) :
    HalfClose (c.queueInLoop f) where
  valid := h.valid
  interest := h.interest
  drained := h.drained
  asked := fun hl ha => by
    by_cases he : f = .shutdownInLoop
    · exact hf he hl
    · refine h.asked hl (ha.imp id fun hq => ?_)
      simpa [queue, TcpConnection.queueInLoop, Ne.symm he] using hq
  done := h.done

theorem shutdown (h : HalfClose c) (onLoop : Bool) : HalfClose (c.shutdown onLoop) := by
  unfold TcpConnection.shutdown
  split_ifs with hs hl
  · have hd := h.setDisconnecting (Or.inl hs)
    exact shutdownInLoop hd.valid hd.interest hd.drained fun _ => rfl
  · exact (h.setDisconnecting (Or.inl hs)).queueInLoop fun _ _ => rfl
  · exact h

theorem forceClose (h : HalfClose c) : HalfClose c.forceClose := by
  unfold TcpConnection.forceClose
  split_ifs with hl
  · exact (h.setDisconnecting hl).queueInLoop fun hf => by cases hf
  · exact h

theorem forceCloseWithDelay (h : HalfClose c) : HalfClose c.forceCloseWithDelay := by
  unfold TcpConnection.forceCloseWithDelay
  split_ifs with hl
  · exact (h.setDisconnecting hl).same rfl rfl rfl rfl id
  · exact h

theorem startReadInLoop (h : HalfClose c) : HalfClose c.startReadInLoop := by
  unfold TcpConnection.startReadInLoop
  split_ifs
  · exact h.frame (fun hl => ⟨hl, Or.inl rfl⟩) rfl (fun _ => c.channel.isWriting_enableReading) (fun _ _ => Iff.rfl) id
  · exact h

theorem closed (h : HalfClose c) : HalfClose c.closed := by
  refine h.frame (fun hl => ?_) rfl (fun hl => ?_) ?_ id
  · simp [live, TcpConnection.closed] at hl
  · simp [live, TcpConnection.closed] at hl
  · intro e he
    cases e <;> simp_all [TcpConnection.closed, Event.isShutdown]

theorem removed (h : HalfClose c) : HalfClose c.removed := by
  refine h.frame (fun hl => ⟨hl, Or.inl rfl⟩) rfl (fun _ => rfl) ?_ id
  intro e he
  cases e <;> simp_all [TcpConnection.removed, Event.isShutdown]

variable [Build]

theorem sendInLoop (h : HalfClose c) {data : List UInt8} {len : ℕ} {w : WriteResult}
    (hs : c.sendInLoop data len w = .ok c') : HalfClose c' := by
  obtain ⟨message, -, ⟨-, rfl⟩ | ⟨-, -, rfl⟩ | ⟨-, -, n, b, ch, extra, hk, rfl⟩⟩ := sendInLoop_inv h.valid hs
  · exact h.same rfl rfl rfl rfl id
  · exact h.same rfl rfl rfl rfl id
  · exact h.keep hk

/-- The last byte is written: interest is dropped, and with it a postponed half-close is carried out. -/
theorem handleWrite (h : HalfClose c) {w : WriteResult} (hs : c.handleWrite w = .ok c') : HalfClose c' := by
  rcases handleWrite_cases h.valid w with ⟨-, he⟩ | ⟨hw, -, b, hbv, hsplit, hc⟩
  · cases he.symm.trans hs
    exact h
  · rcases hc with ⟨hb, he⟩ | ⟨hb, extra, hx, he⟩
    · cases he.symm.trans hs
      refine ⟨hbv, fun _ => ⟨fun _ => hb, fun _ => hw⟩, h.drained, h.asked, ?_⟩
      intro hl hm hr
      exact absurd hr hb
    · have hx' : .shutdownInLoop ∉ extra := fun hm => hx _ hm
      have hq : .shutdownInLoop ∈ c.functors.getD [] ++ (c.pendingFunctors ++ extra) → .shutdownInLoop ∈ c.queue := by
        simp [queue, hx']
      cases he.symm.trans hs
      by_cases hd : c.state = .kDisconnecting
      · rw [if_pos hd]
        exact shutdownInLoop hbv (fun _ => by simp [hb]) h.drained fun _ => hd
      · rw [if_neg hd]
        refine ⟨hbv, fun _ => by simp [hb], h.drained, fun hl ha => h.asked hl (ha.imp id hq), ?_⟩
        intro hl hm
        exact absurd (h.asked hl (Or.inl hm)) hd

theorem connectDestroyed (h : HalfClose c) (hs : c.connectDestroyed = .ok c') : HalfClose c' := by
  unfold TcpConnection.connectDestroyed at hs
  split_ifs at hs
  · cases hs
    refine h.frame (fun hl => ?_) rfl (fun hl => ?_) ?_ id
    · simp [live, TcpConnection.log] at hl
    · simp [live, TcpConnection.log] at hl
    · intro e he
      cases e <;> simp_all [TcpConnection.log, Event.isShutdown]
  · rw [removeChannel_eq hs]
    exact h.removed

theorem call (h : HalfClose c) {onLoop : Bool} {call : Call} (hs : c.call onLoop call = .ok c') : HalfClose c' := by
  cases call with
  | send message w =>
    have hsent : HalfClose { c with sent := c.sent ++ [message.bytes] } := h.same rfl rfl rfl rfl id
    obtain ⟨-, rfl⟩ | ⟨-, ⟨-, data, len, he⟩ | ⟨-, s, rfl⟩⟩ := send_inv hs
    · exact h
    · exact hsent.sendInLoop he
    · exact hsent.queueInLoop fun hf => by cases hf
  | shutdown =>
    cases hs
    exact h.shutdown onLoop
  | forceClose =>
    cases hs
    exact h.forceClose
  | forceCloseWithDelay =>
    cases hs
    exact h.forceCloseWithDelay
  | startRead =>
    cases hs
    cases onLoop with
    | true => exact h.startReadInLoop
    | false => exact h.queueInLoop fun hf => by cases hf
  | retrieveInput len =>
    obtain ⟨b, -, hb⟩ := bind_eq_ok.mp hs
    cases hb
    exact h.same rfl rfl rfl rfl id

theorem runTask (h : HalfClose c) {r : Buffer.ReadResult} {w : WriteResult} {t : Task}
    (hs : c.runTask r w t = .ok c') : HalfClose c' := by
  have hin (b : Buffer) : HalfClose { c with inputBuffer := b } := h.same rfl rfl rfl rfl id
  obtain ⟨-, hwrite⟩ | rfl | ⟨b, rfl | rfl | ⟨e, he, rfl⟩⟩ := runTask_inv hs
  · exact h.handleWrite hwrite
  · exact h.removed
  · exact hin b
  · exact (hin b).closed
  · exact (hin b).log he

theorem runFunctor {f : Functor} {fs : List Functor} (hf : c.functors = some (f :: fs)) (h : HalfClose c) {w : WriteResult}
    (hs : runFunctor { c with functors := some fs } w f = .ok c') : HalfClose c' := by
  have hp : HalfClose { c with functors := some fs } :=
    h.same rfl rfl rfl rfl fun hm => by simp only [queue, hf] at hm ⊢; simp_all
  obtain ⟨message, rfl, hsend⟩ | ⟨-, ⟨rfl, rfl⟩ | rfl | hd | (rfl | rfl) | ⟨e, he, rfl⟩⟩ := runFunctor_inv hs
  · exact hp.sendInLoop hsend
  · exact shutdownInLoop hp.valid hp.interest hp.drained fun hl => h.asked hl (Or.inr (by simp [queue, hf]))
  · exact hp.startReadInLoop
  · exact hp.connectDestroyed hd
  · exact hp
  · exact hp.closed
  · exact hp.log he

theorem step (h : HalfClose c) {s : Step} (hs : c.step s = .ok c') : HalfClose c' := by
  cases s with
  | call onLoop call => exact h.call hs
  | event revents =>
    cases hs
    exact h.frame (fun hl => ⟨hl, Or.inl rfl⟩) rfl (fun _ => rfl) (fun _ _ => Iff.rfl) id
  | task r w =>
    obtain ⟨t, ts, -, hrun⟩ | ⟨-, rfl⟩ := task_inv hs
    · have hp : HalfClose { c with tasks := ts } := h.same rfl rfl rfl rfl id
      exact hp.runTask hrun
    · exact h
  | delayedClose =>
    cases hs
    have hd : HalfClose { c with delayedCloses := c.delayedCloses - 1 } := h.same rfl rfl rfl rfl id
    exact hd.forceClose
  | removeConnection =>
    cases hs
    exact (h.log rfl).queueInLoop fun hf => by cases hf
  | doPendingFunctors =>
    cases hs
    exact h.same rfl rfl rfl rfl fun hm => by simp only [queue] at hm ⊢; simp_all
  | functor w =>
    obtain ⟨f, fs, hf, hrun⟩ | ⟨hf, rfl⟩ := functor_inv hs
    · exact runFunctor hf h hrun
    · exact h.same rfl rfl rfl rfl fun hm => by simpa [queue, hf] using hm
  | destroy => exact h.connectDestroyed hs

end HalfClose

theorem established_halfClose (fd : ℤ) (writeComplete highWater : Bool) (highWaterMark : ℕ) :
    HalfClose (established fd writeComplete highWater highWaterMark) where
  valid := Buffer.initial_valid initialSize_le
  interest := fun _ => by
    have hw : (established fd writeComplete highWater highWaterMark).channel.isWriting = false :=
      (Channel.isWriting_enableReading { fd }).trans (by simp [Channel.isWriting, Channel.has])
    rw [hw]
    simp [established]
  drained := by simp [established]
  asked := by simp [established, queue]
  done := by simp [established]

theorem write_interest_and_half_close [Build] {fd : ℤ} {writeComplete highWater : Bool} {highWaterMark : ℕ}
    {c₀ c : TcpConnection}
    (h₀ : (create fd writeComplete highWater highWaterMark >>= connectEstablished) = .ok c₀) {steps : List Step}
    (h : Path step Enabled c₀ steps c) :
    (c.live → (c.channel.isWriting = true ↔ c.outputBuffer.readable ≠ [])) ∧
      (∀ state queued accepted, .shutdownWrite state queued accepted ∈ c.trace →
        state = .kConnected ∨ state = .kDisconnecting → queued = []) ∧
      (c.live → .shutdownInLoop ∈ c.trace → c.outputBuffer.readable = [] →
        ∃ state queued accepted, .shutdownWrite state queued accepted ∈ c.trace) := by
  cases h₀.symm.trans (create_connectEstablished fd writeComplete highWater highWaterMark)
  have hinv : HalfClose c := h.invariant (established_halfClose fd writeComplete highWater highWaterMark)
    fun t s u ht _ hs => ht.step hs
  exact ⟨hinv.interest, hinv.drained, hinv.done⟩

/-- A half-close that waits for a short write and is carried out when the rest drains. -/
theorem write_interest_and_half_close_drained :
    letI := Build.debug
    let steps : List Step := [.call true (.send (.memory [1, 2, 3] 3) (.wrote 1)), .call true .shutdown,
      .event POLLOUT, .task (.failed 0) (.wrote 2)]
    ∃ c, Path step Enabled (established 7 false false 67108864) steps c ∧
      c.state = .kDisconnecting ∧ c.outputBuffer.readable = [] ∧
      ∃ state queued accepted, .shutdownWrite state queued accepted ∈ c.trace := by
  intro steps
  let _ := Build.debug
  obtain ⟨c, hc, hp⟩ := Path.exists_of_any step Enabled (established 7 false false 67108864) steps
    (fun c => decide (c.state = .kDisconnecting ∧ c.outputBuffer.readable = [] ∧ .shutdownInLoop ∈ c.trace))
    (by decide +kernel)
  obtain ⟨hs, hr, ht⟩ := of_decide_eq_true hp
  exact ⟨c, hc, hs, hr, (write_interest_and_half_close (create_connectEstablished 7 false false 67108864) hc).2.2
    (Or.inr hs) ht hr⟩

end TcpConnection

end Networker
