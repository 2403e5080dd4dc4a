import Networker.OutputStream

/-!
What the handlers of a connection leave alone. Most steps are quiet: they send,
queue or change interest in a way that has no part in opening or closing the
connection.
-/

namespace Networker

open CheckedRuns

def Event.isLifecycle : Event → Bool
  | .connectionCallback _ | .handleClose _ | .closeCallback | .removeConnection => true
  | .messageCallback _ | .shutdownInLoop | .shutdownWrite _ _ _ | .remove _ _ | .writeCompleteCallback
  | .highWaterMarkCallback _ => false

namespace TcpConnection

open EPollPoller

def lifecycle (c : TcpConnection) : List Event := c.trace.filter Event.isLifecycle

/-- The functors the loop has still to run, in order. -/
def queue (c : TcpConnection) : List Functor := c.functors.getD [] ++ c.pendingFunctors

@[simp] theorem lifecycle_log (c : TcpConnection) (e : Event) :
    (c.log e).lifecycle = if e.isLifecycle then c.lifecycle ++ [e] else c.lifecycle := by
  cases h : e.isLifecycle <;> simp [log, lifecycle, h]

/-- The poller knows the channel unless it was taken out. -/
def Registered (c : TcpConnection) : Prop :=
  c.channel.index ≠ kNew ∨ ∃ noneEvent registered, .remove noneEvent registered ∈ c.trace

structure Quiet (c c' : TcpConnection) : Prop where
  state : c'.state = c.state ∨ (c.live ∧ c'.live)
  lifecycle : c'.lifecycle = c.lifecycle
  valid : c'.outputBuffer.Valid
  tasks : c'.tasks = c.tasks
  queue : .connectDestroyed ∈ c'.queue → .connectDestroyed ∈ c.queue
  revents : c'.channel.revents = c.channel.revents
  reading : c.channel.index = kAdded → c.channel.isReading = true →
    c'.channel.index = kAdded ∧ c'.channel.isReading = true
  none : ¬c.live → c.channel.isNoneEvent = true → c'.channel.isNoneEvent = true
  index : ¬c.live → c.channel.index ≠ kAdded → c'.channel.index ≠ kAdded
  registered : c.Registered → c'.Registered

theorem Registered.mono {c c' : TcpConnection} (h : c.Registered) (hi : c'.channel.index = c.channel.index)
    (ht : c.trace ⊆ c'.trace) : c'.Registered := by
  rcases h with h | ⟨noneEvent, registered, h⟩
  · exact Or.inl (hi ▸ h)
  · exact Or.inr ⟨noneEvent, registered, ht h⟩

namespace Quiet

variable {c c' d : TcpConnection}

theorem refl (hv : c.outputBuffer.Valid) : Quiet c c :=
  ⟨Or.inl rfl, rfl, hv, rfl, id, rfl, fun h h' => ⟨h, h'⟩, fun _ h => h, fun _ h => h, id⟩

theorem live_iff (h : Quiet c c') : c'.live ↔ c.live := by
  rcases h.state with hs | ⟨hc, hc'⟩
  · rw [live, live, hs]
  · exact iff_of_true hc' hc

theorem trans (h : Quiet c c') (h' : Quiet c' d) : Quiet c d where
  state := by
    rcases h.state, h'.state with ⟨hs | ⟨hc, hc'⟩, hs' | ⟨hd, hd'⟩⟩
    · exact Or.inl (hs'.trans hs)
    · exact Or.inr ⟨h.live_iff.mp hd, hd'⟩
    · exact Or.inr ⟨hc, h'.live_iff.mpr hc'⟩
    · exact Or.inr ⟨hc, hd'⟩
  lifecycle := h'.lifecycle.trans h.lifecycle
  valid := h'.valid
  tasks := h'.tasks.trans h.tasks
  queue := fun hq => h.queue (h'.queue hq)
  revents := h'.revents.trans h.revents
  reading := fun hi hr => (h.reading hi hr).elim h'.reading
  none := fun hl hn => h'.none (mt h.live_iff.mp hl) (h.none hl hn)
  index := fun hl hi => h'.index (mt h.live_iff.mp hl) (h.index hl hi)
  registered := fun hr => h'.registered (h.registered hr)

theorem records (h : Quiet c d) (extra : List Functor) (hx : .connectDestroyed ∉ extra)
    (inputBuffer : Buffer) (accepted : List UInt8) (sent : List (List UInt8))
    (handed : List (List UInt8 × Fate)) (delayedCloses : ℕ) :
    Quiet c { d with
      inputBuffer, accepted, sent, handed, delayedCloses, pendingFunctors := d.pendingFunctors ++ extra } where
  __ := h
  queue := fun hq => h.queue (by simpa [TcpConnection.queue, hx] using hq)

theorem log (h : Quiet c d) {e : Event} (he : e.isLifecycle = false) : Quiet c (d.log e) where
  __ := h
  lifecycle := by simpa [he] using h.lifecycle
  registered := fun hr => (h.registered hr).mono rfl (List.subset_append_left _ _)

theorem queueInLoop (h : Quiet c d) {f : Functor} (hf : f ≠ .connectDestroyed) : Quiet c (d.queueInLoop f) :=
  h.records [f] (by simpa using hf.symm) _ _ _ _ _

theorem setDisconnecting (hv : c.outputBuffer.Valid) (hl : c.live) : Quiet c { c with state := .kDisconnecting } where
  __ := refl hv
  state := Or.inr ⟨hl, Or.inr rfl⟩

/-- A live connection may change its channel's interest as long as it keeps reading. -/
theorem change (h : Quiet c d) (hl : c.live) (i : Channel.Interest)
    (hi : ∀ e, Channel.has e Channel.kReadEvent = true → Channel.has (i.mask e) Channel.kReadEvent = true) :
    Quiet c { d with channel := d.channel.change i } where
  __ := h
  revents := h.revents
  reading := fun hi' hr =>
    have hd := (h.reading hi' hr).2
    ⟨d.channel.change_index i (hi _ hd), hi _ hd⟩
  none := fun hn => absurd hl hn
  index := fun hn => absurd hl hn
  registered := fun _ => Or.inl (d.channel.change_ne_new i)

theorem shutdownInLoop (h : Quiet c d) : Quiet c d.shutdownInLoop := by
  unfold TcpConnection.shutdownInLoop
  dsimp only
  split_ifs
  · exact h.log rfl
  · exact (h.log rfl).log rfl

end Quiet

section Handlers

variable {c c' : TcpConnection}

theorem notMem_of_notifications {extra : List Functor} (h : ∀ f ∈ extra, Notification f) :
    .connectDestroyed ∉ extra :=
  fun hm => h _ hm

theorem live_of_ne (hk : c.state ≠ .kConnecting) (hs : c.state ≠ .kDisconnected) : c.live := by
  unfold live
  cases hc : c.state <;> simp_all

theorem Kept.quiet {message : List UInt8} {n : ℕ} {b : Buffer} {ch : Channel} {extra : List Functor}
    (hl : c.live) (h : c.Kept message n b ch extra) : Quiet c (c.keep message n b ch extra) := by
  have hb : Quiet c { c with outputBuffer := b } := { Quiet.refl (c := { c with outputBuffer := b }) h.valid with }
  have hch : Quiet c { c with outputBuffer := b, channel := ch } := by
    rw [h.channel_eq]
    split_ifs
    · exact hb.change hl .enableWriting fun e he => (Channel.has_or_other e _ _ (by decide)).trans he
    · exact hb
  exact hch.records _ (notMem_of_notifications h.notifies) c.inputBuffer _ c.sent _ c.delayedCloses

theorem shutdown_quiet (hv : c.outputBuffer.Valid) (onLoop : Bool) : Quiet c (c.shutdown onLoop) := by
  unfold shutdown
  split_ifs with hs hl
  · exact (Quiet.setDisconnecting hv (Or.inl hs)).shutdownInLoop
  · exact (Quiet.setDisconnecting hv (Or.inl hs)).queueInLoop (by simp)
  · exact Quiet.refl hv

theorem forceClose_quiet (hv : c.outputBuffer.Valid) : Quiet c c.forceClose := by
  unfold forceClose
  split_ifs with hl
  · exact (Quiet.setDisconnecting hv hl).queueInLoop (by simp)
  · exact Quiet.refl hv

theorem forceCloseWithDelay_quiet (hv : c.outputBuffer.Valid) : Quiet c c.forceCloseWithDelay := by
  unfold forceCloseWithDelay
  split_ifs with hl
  · exact { Quiet.setDisconnecting hv hl with }
  · exact Quiet.refl hv

theorem startReadInLoop_quiet (hv : c.outputBuffer.Valid) (hl : c.live) : Quiet c c.startReadInLoop := by
  unfold startReadInLoop
  split_ifs
  · exact { (Quiet.refl hv).change hl .enableReading fun e _ => Channel.has_or_self e _ (by decide) with }
  · exact Quiet.refl hv

variable [Build]

theorem task_inv {r : Buffer.ReadResult} {w : WriteResult} (h : c.step (.task r w) = .ok c') :
    (∃ t ts, c.tasks = t :: ts ∧ runTask { c with tasks := ts } r w t = .ok c') ∨ (c.tasks = [] ∧ c' = c) := by
  cases ht : c.tasks with
  | nil =>
    simp only [step, ht] at h
    cases h
    exact Or.inr ⟨rfl, rfl⟩
  | cons t ts =>
    simp only [step, ht] at h
    exact Or.inl ⟨t, ts, rfl, h⟩

theorem functor_inv {w : WriteResult} (h : c.step (.functor w) = .ok c') :
    (∃ f fs, c.functors = some (f :: fs) ∧ runFunctor { c with functors := some fs } w f = .ok c') ∨
      (c.functors.getD [] = [] ∧ c' = { c with functors := none }) := by
  cases hf : c.functors with
  | none =>
    simp only [step, hf] at h
    cases h
    exact Or.inr ⟨rfl, rfl⟩
  | some functors =>
    cases functors with
    | nil =>
      simp only [step, hf] at h
      cases h
      exact Or.inr ⟨rfl, rfl⟩
    | cons f fs =>
      simp only [step, hf] at h
      exact Or.inl ⟨f, fs, rfl, h⟩

theorem sendInLoop_inv (hv : c.outputBuffer.Valid) {data : List UInt8} {len : ℕ} {w : WriteResult}
    (h : c.sendInLoop data len w = .ok c') :
    ∃ message, bytesAt data len = .ok message ∧
      ((c.state = .kDisconnected ∧ c' = { c with handed := c.handed ++ [(message, .refused)] }) ∨
        (c.state ≠ .kDisconnected ∧ c.Faults w ∧ c' = { c with handed := c.handed ++ [(message, .dropped)] }) ∨
        (c.state ≠ .kDisconnected ∧ ¬c.Faults w ∧
          ∃ n b ch extra, c.Kept message n b ch extra ∧ c' = c.keep message n b ch extra)) := by
  obtain ⟨message, hm, -⟩ := bind_eq_ok.mp h
  refine ⟨message, hm, ?_⟩
  rcases sendInLoop_cases hv hm w with ⟨hs, he⟩ | ⟨hs, hf, he⟩ | ⟨hs, hf, ⟨-, he⟩ | ⟨n, b, ch, extra, hk, he⟩⟩
  · exact Or.inl ⟨hs, (Except.ok.inj (he.symm.trans h)).symm⟩
  · exact Or.inr (Or.inl ⟨hs, hf, (Except.ok.inj (he.symm.trans h)).symm⟩)
  · cases he.symm.trans h
  · exact Or.inr (Or.inr ⟨hs, hf, n, b, ch, extra, hk, (Except.ok.inj (he.symm.trans h)).symm⟩)

theorem sendInLoop_quiet (hv : c.outputBuffer.Valid) (hk : c.state ≠ .kConnecting) {data : List UInt8} {len : ℕ}
    {w : WriteResult} (h : c.sendInLoop data len w = .ok c') : Quiet c c' := by
  obtain ⟨message, -, ⟨-, rfl⟩ | ⟨-, -, rfl⟩ | ⟨hs, -, n, b, ch, extra, hkept, rfl⟩⟩ := sendInLoop_inv hv h
  · exact { Quiet.refl hv with }
  · exact { Quiet.refl hv with }
  · exact hkept.quiet (live_of_ne hk hs)

theorem handleWrite_quiet (hv : c.outputBuffer.Valid) (hl : c.channel.isWriting = true → c.live) {w : WriteResult}
    (h : c.handleWrite w = .ok c') : Quiet c c' := by
  rcases handleWrite_cases hv w with ⟨-, he⟩ | ⟨hw, -, b, hbv, -, hc⟩
  · cases he.symm.trans h
    exact Quiet.refl hv
  · have hb : Quiet c { c with
        accepted := c.accepted ++ writeAccepted c.outputBuffer.readable w
        outputBuffer := b } :=
      { Quiet.refl (c := { c with outputBuffer := b }) hbv with }
    rcases hc with ⟨-, he⟩ | ⟨-, extra, hx, he⟩
    · cases he.symm.trans h
      exact hb
    · have hch := hb.change (hl hw) .disableWriting fun e he => (Channel.has_and_not_other e _ _ (by decide)).trans he
      have hd := hch.records _ (notMem_of_notifications hx) c.inputBuffer
        (c.accepted ++ writeAccepted c.outputBuffer.readable w) c.sent c.handed c.delayedCloses
      cases he.symm.trans h
      split_ifs
      · exact hd.shutdownInLoop
      · exact hd

theorem send_inv {onLoop : Bool} {message : Message} {w : WriteResult} (h : c.send onLoop message w = .ok c') :
    (c.state ≠ .kConnected ∧ c' = c) ∨
      (c.state = .kConnected ∧
        ((onLoop = true ∧ ∃ data len,
            sendInLoop { c with sent := c.sent ++ [message.bytes] } data len w = .ok c') ∨
          (onLoop = false ∧ ∃ s,
            c' = queueInLoop { c with sent := c.sent ++ [message.bytes] } (.sendInLoop s)))) := by
  by_cases hs : c.state = .kConnected
  · right
    refine ⟨hs, ?_⟩
    simp only [send, if_pos hs] at h
    cases message with
    | string s =>
      simp only [sendPiece, if_pos hs] at h
      cases onLoop with
      | true => exact Or.inl ⟨rfl, _, _, h⟩
      | false =>
        obtain ⟨t, -, ht⟩ := bind_eq_ok.mp h
        exact Or.inr ⟨rfl, t, (Except.ok.inj ht).symm⟩
    | memory data len =>
      simp only [sendMemory, sendPiece, if_pos hs] at h
      cases onLoop with
      | true => exact Or.inl ⟨rfl, _, _, h⟩
      | false =>
        obtain ⟨t, -, ht⟩ := bind_eq_ok.mp h
        exact Or.inr ⟨rfl, t, (Except.ok.inj ht).symm⟩
    | buffer buf =>
      simp only [sendBuffer, if_pos hs] at h
      obtain ⟨r, hr, hc⟩ := bind_eq_ok.mp h
      cases onLoop with
      | true =>
        obtain ⟨d, hd, hr'⟩ := bind_eq_ok.mp hr
        cases hr'
        cases hc
        exact Or.inl ⟨rfl, _, _, hd⟩
      | false =>
        obtain ⟨t, -, ht⟩ := bind_eq_ok.mp hr
        cases ht
        exact Or.inr ⟨rfl, t.1, (Except.ok.inj hc).symm⟩
  · left
    refine ⟨hs, ?_⟩
    simp only [send, if_neg hs] at h
    cases message with
    | string s => simpa [sendPiece, hs] using h.symm
    | memory data len => simpa [sendMemory, sendPiece, hs] using h.symm
    | buffer buf => simpa [sendBuffer, hs] using h.symm

/-- What `handleClose` leaves, whether or not assertions are on. -/
def closed (c : TcpConnection) : TcpConnection :=
  { c with
    state := .kDisconnected
    channel := c.channel.disableAll
    tasks := .closeCallback :: c.tasks
    trace := c.trace ++ [.handleClose c.state, .connectionCallback false] }

theorem handleClose_eq (h : c.handleClose = .ok c') : c' = c.closed := by
  have h' := assert_bind_ok h
  rw [← Except.ok.inj h']
  simp [closed, log]

/-- What `removeChannel` leaves, whether or not assertions are on. -/
def removed (c : TcpConnection) : TcpConnection :=
  { c with
    channel := { c.channel with addedToLoop := false, index := kNew }
    trace := c.trace ++ [.remove c.channel.isNoneEvent (decide (c.channel.index ≠ kNew))] }

theorem removeChannel_eq (h : c.removeChannel = .ok c') : c' = c.removed := by
  have h' := assert_bind_ok (assert_bind_ok h)
  rw [← Except.ok.inj h']
  rfl

theorem readFd_result {b b' : Buffer} {r : Buffer.ReadResult} {n : ℤ} {e : Option ℕ}
    (h : b.readFd r = .ok (b', n, e)) : n = 0 ↔ r = .read [] := by
  cases r with
  | failed errno =>
    cases h
    simp
  | read bytes =>
    -- `readv` is always offered some room, so it returns 0 only at the end of the stream
    have hroom : 0 < b.writableBytes + if b.writableBytes < Buffer.extrabufSize then Buffer.extrabufSize else 0 := by
      by_cases hw : b.writableBytes < Buffer.extrabufSize
      · rw [if_pos hw, Buffer.extrabufSize]
        omega
      · rw [if_neg hw]
        rw [Buffer.extrabufSize] at hw
        omega
    simp only [Buffer.readFd] at h
    generalize (if b.writableBytes < Buffer.extrabufSize then Buffer.extrabufSize else 0) = extra at h hroom
    have hn : n = ((bytes.take (b.writableBytes + extra)).length : ℕ) := by
      obtain ⟨v, -, h'⟩ := bind_eq_ok.mp h
      split_ifs at h'
      · cases h'
        rfl
      · obtain ⟨b'', -, h''⟩ := bind_eq_ok.mp h'
        cases h''
        rfl
    rw [hn, List.length_take]
    cases bytes with
    | nil => simp
    | cons x xs =>
      simp only [List.length_cons, Buffer.ReadResult.read.injEq, reduceCtorEq, iff_false]
      omega

theorem handleRead_inv {r : Buffer.ReadResult} (h : c.handleRead r = .ok c') :
    ∃ b, (r = .read [] ∧ handleClose { c with inputBuffer := b } = .ok c') ∨
      (r ≠ .read [] ∧ (c' = { c with inputBuffer := b } ∨
        ∃ n, c' = log { c with inputBuffer := b } (.messageCallback n))) := by
  obtain ⟨⟨b, n, e⟩, hr, hc⟩ := bind_eq_ok.mp h
  have hz := readFd_result hr
  refine ⟨b, ?_⟩
  dsimp only at hc
  split_ifs at hc with hpos hzero
  · exact Or.inr ⟨fun hr => by have := hz.mpr hr; omega, Or.inr ⟨n, (Except.ok.inj hc).symm⟩⟩
  · exact Or.inl ⟨hz.mp hzero, hc⟩
  · exact Or.inr ⟨fun hr => hzero (hz.mpr hr), Or.inl (Except.ok.inj hc).symm⟩

theorem call_quiet (hv : c.outputBuffer.Valid) (hk : c.state ≠ .kConnecting) {onLoop : Bool} {call : Call}
    (hr : onLoop = true → call = .startRead → c.live) (h : c.call onLoop call = .ok c') : Quiet c c' := by
  cases call with
  | send message w =>
    obtain ⟨-, rfl⟩ | ⟨-, ⟨-, data, len, he⟩ | ⟨-, s, rfl⟩⟩ := send_inv h
    · exact Quiet.refl hv
    · exact { sendInLoop_quiet (c := { c with sent := c.sent ++ [message.bytes] }) hv hk he with }
    · have hsent : Quiet c { c with sent := c.sent ++ [message.bytes] } := { Quiet.refl hv with }
      exact hsent.queueInLoop (by simp)
  | shutdown =>
    cases h
    exact shutdown_quiet hv onLoop
  | forceClose =>
    cases h
    exact forceClose_quiet hv
  | forceCloseWithDelay =>
    cases h
    exact forceCloseWithDelay_quiet hv
  | startRead =>
    cases h
    cases onLoop with
    | true => exact startReadInLoop_quiet hv (hr rfl rfl)
    | false => exact (Quiet.refl hv).queueInLoop (by simp)
  | retrieveInput len =>
    obtain ⟨b, -, hb⟩ := bind_eq_ok.mp h
    cases hb
    exact { Quiet.refl hv with }

end Handlers

end TcpConnection

end Networker
