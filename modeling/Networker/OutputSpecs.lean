import Networker.BufferSpecs
import Networker.ConnectionModel

namespace Networker

open CheckedRuns

theorem bytesAt_ok {memory message : List UInt8} {len : ℕ} (h : bytesAt memory len = .ok message) :
    message = memory.take len ∧ message.length = len ∧ len ≤ maxSize := by
  unfold bytesAt at h
  split_ifs at h with hl
  cases h
  exact ⟨rfl, by simp [hl.1], hl.2⟩

namespace TcpConnection

def Notification : Functor → Prop
  | .writeCompleteCallback | .highWaterMarkCallback _ => True
  | .sendInLoop _ | .shutdownInLoop | .forceCloseInLoop | .startReadInLoop | .connectDestroyed => False

/-- `sendInLoop` tries to write directly only when nothing older is waiting. -/
def Direct (c : TcpConnection) : Prop := c.channel.isWriting = false ∧ c.outputBuffer.readable = []

/-- The direct write fails for good. -/
def Faults (c : TcpConnection) (w : WriteResult) : Prop :=
  c.Direct ∧ (w = .failed .EPIPE ∨ w = .failed .ECONNRESET)

instance (c : TcpConnection) : Decidable c.Direct := inferInstanceAs (Decidable (_ ∧ _))

instance (c : TcpConnection) (w : WriteResult) : Decidable (c.Faults w) :=
  inferInstanceAs (Decidable ((_ ∧ _) ∧ (_ ∨ _)))

/-- `sendInLoop` wrote `n` bytes of the message and put the rest into the output buffer. -/
structure Kept (c : TcpConnection) (message : List UInt8) (n : ℕ) (b : Buffer) (ch : Channel)
    (extra : List Functor) : Prop where
  le : n ≤ message.length
  direct : 0 < n → c.Direct
  valid : b.Valid
  readable_eq : b.readable = c.outputBuffer.readable ++ message.drop n
  channel_eq : ch =
    if n < message.length ∧ c.channel.isWriting = false then c.channel.enableWriting else c.channel
  notifies : ∀ f ∈ extra, Notification f

def keep (c : TcpConnection) (message : List UInt8) (n : ℕ) (b : Buffer) (ch : Channel)
    (extra : List Functor) : TcpConnection :=
  { c with
    accepted := c.accepted ++ message.take n
    outputBuffer := b
    channel := ch
    handed := c.handed ++ [(message, .kept)]
    pendingFunctors := c.pendingFunctors ++ extra }

theorem direct_iff {c : TcpConnection} (hv : c.outputBuffer.Valid) :
    (!c.channel.isWriting && c.outputBuffer.readableBytes == 0) = true ↔ c.Direct := by
  rw [hv.readableBytes_length]
  simp [Direct]

/-- The bytes that the direct write passes on. -/
def written (c : TcpConnection) (message : List UInt8) (w : WriteResult) : ℕ :=
  match w with
  | .wrote n => if c.Direct then min n message.length else 0
  | .failed _ => 0

/-- What the direct write queues. -/
def completion (c : TcpConnection) (message : List UInt8) (w : WriteResult) : List Functor :=
  match w with
  | .wrote n => if c.Direct ∧ message.length ≤ n ∧ c.writeComplete then [.writeCompleteCallback] else []
  | .failed _ => []

/-- What `sendInLoop` queues for `len` more bytes in the output buffer. -/
def overflow (c : TcpConnection) (len : ℕ) : List Functor :=
  if c.highWaterMark ≤ c.outputBuffer.readableBytes + len ∧ c.outputBuffer.readableBytes < c.highWaterMark ∧ c.highWater
  then [.highWaterMarkCallback (c.outputBuffer.readableBytes + len)] else []

def notices (c : TcpConnection) (message : List UInt8) (w : WriteResult) : List Functor :=
  c.completion message w ++
    if c.written message w < message.length then c.overflow (message.length - c.written message w) else []

/-- What `handleWrite` queues when the buffer has drained. -/
def drainedNotice (c : TcpConnection) : List Functor := if c.writeComplete then [.writeCompleteCallback] else []

theorem completion_notifies (c : TcpConnection) (message : List UInt8) (w : WriteResult) :
    ∀ f ∈ c.completion message w, Notification f := by
  unfold completion
  split
  · split_ifs <;> simp [Notification]
  · simp

theorem overflow_notifies (c : TcpConnection) (len : ℕ) : ∀ f ∈ c.overflow len, Notification f := by
  unfold overflow
  split_ifs <;> simp [Notification]

theorem notices_notify (c : TcpConnection) (message : List UInt8) (w : WriteResult) :
    ∀ f ∈ c.notices message w, Notification f := by
  intro f hf
  rcases List.mem_append.mp hf with hf | hf
  · exact c.completion_notifies message w f hf
  · split_ifs at hf
    · exact c.overflow_notifies _ f hf
    · cases hf

theorem drainedNotice_notifies (c : TcpConnection) : ∀ f ∈ c.drainedNotice, Notification f := by
  unfold drainedNotice
  split_ifs <;> simp [Notification]

theorem written_le (c : TcpConnection) (message : List UInt8) (w : WriteResult) :
    c.written message w ≤ message.length := by
  unfold written
  split
  · split_ifs <;> omega
  · omega

theorem direct_of_written_pos {c : TcpConnection} {message : List UInt8} {w : WriteResult}
    (h : 0 < c.written message w) : c.Direct := by
  unfold written at h
  split at h
  · split_ifs at h with hd
    · exact hd
    · omega
  · omega

theorem writeDirectly_eq {c : TcpConnection} (hv : c.outputBuffer.Valid) (message : List UInt8) (w : WriteResult) :
    c.writeDirectly message w =
      ({ c with
          accepted := c.accepted ++ message.take (c.written message w)
          pendingFunctors := c.pendingFunctors ++ c.completion message w },
        c.written message w, decide (c.Faults w)) := by
  by_cases hd : c.Direct
  · simp only [writeDirectly, (direct_iff hv).mpr hd, ↓reduceIte]
    cases w with
    | wrote n =>
      have hle : message.length - min n message.length = 0 ↔ message.length ≤ n := by omega
      by_cases hcb : message.length ≤ n ∧ c.writeComplete = true
      · simp [written, completion, hd, hcb, Faults, queueInLoop]
      · simp only [written, completion, hd, hle, true_and, if_neg hcb, if_true, List.append_nil]
        simp [Faults]
    | failed errno =>
      have hf : c.Faults (.failed errno) ↔ errno = .EPIPE ∨ errno = .ECONNRESET := by simp [Faults, hd]
      have hne : errno = .EPIPE ∨ errno = .ECONNRESET → errno ≠ .EWOULDBLOCK := by
        rintro (rfl | rfl) <;> decide
      have hiff : (errno ≠ .EWOULDBLOCK ∧ (errno = .EPIPE ∨ errno = .ECONNRESET)) ↔ c.Faults (.failed errno) := by
        rw [hf]
        exact ⟨fun h => h.2, fun h => ⟨hne h, h⟩⟩
      simp [written, completion, decide_eq_decide.mpr hiff]
  · have hn : ¬(!c.channel.isWriting && c.outputBuffer.readableBytes == 0) = true :=
      fun h => hd ((direct_iff hv).mp h)
    have hf : ¬c.Faults w := fun h => hd h.1
    simp only [writeDirectly, if_neg hn]
    cases w <;> simp [written, completion, hd, hf]

theorem initialSize_le : Buffer.kCheapPrepend + Buffer.kInitialSize ≤ maxSize := by
  simp [Buffer.kInitialSize, Buffer.kCheapPrepend, maxSize]

variable [Build]

theorem create_connectEstablished (fd : ℤ) (writeComplete highWater : Bool) (highWaterMark : ℕ) :
    (create fd writeComplete highWater highWaterMark >>= connectEstablished) =
      .ok (established fd writeComplete highWater highWaterMark) := by
  have hb := Buffer.create_eq Buffer.kInitialSize initialSize_le
  simp only [create, hb, ok_bind, connectEstablished]
  rw [assert_pos trivial]
  rfl

theorem queueOutput_spec {c : TcpConnection} (hv : c.outputBuffer.Valid) (remaining : List UInt8)
    (hlen : remaining.length ≤ maxSize) :
    (maxSize < c.outputBuffer.writerIndex + remaining.length ∧
        c.queueOutput remaining = .error .lengthError) ∨
      ∃ b, b.Valid ∧ b.readable = c.outputBuffer.readable ++ remaining ∧
        c.queueOutput remaining = .ok { c with
          outputBuffer := b
          pendingFunctors := c.pendingFunctors ++ c.overflow remaining.length
          channel := if c.channel.isWriting then c.channel else c.channel.enableWriting } := by
  have hq : c.queueOutput remaining = (do
      let b ← c.outputBuffer.append remaining
      .ok { c with
        outputBuffer := b
        pendingFunctors := c.pendingFunctors ++ c.overflow remaining.length
        channel := if c.channel.isWriting then c.channel else c.channel.enableWriting }) := by
    unfold queueOutput overflow
    by_cases hw : c.highWaterMark ≤ c.outputBuffer.readableBytes + remaining.length ∧
        c.outputBuffer.readableBytes < c.highWaterMark ∧ c.highWater
    · simp only [if_pos hw, queueInLoop]
      cases c.channel.isWriting <;> simp
    · simp only [if_neg hw]
      cases c.channel.isWriting <;> simp
  rw [hq]
  rcases Buffer.append_spec hv remaining hlen with ⟨b, he, hbv, hbr, _⟩ | ⟨hbig, he⟩
  · exact Or.inr ⟨b, hbv, hbr, by rw [he, ok_bind]⟩
  · exact Or.inl ⟨hbig, by rw [he, error_bind]⟩

/-- A message that is not dropped, with the functors it queues. -/
theorem sendInLoop_exact {c : TcpConnection} (hv : c.outputBuffer.Valid) {data message : List UInt8} {len : ℕ}
    (hm : bytesAt data len = .ok message) {w : WriteResult} (hs : c.state ≠ .kDisconnected) (hf : ¬c.Faults w) :
    (maxSize < c.outputBuffer.writerIndex + message.length ∧ c.sendInLoop data len w = .error .lengthError) ∨
      ∃ b ch, c.Kept message (c.written message w) b ch (c.notices message w) ∧
        c.sendInLoop data len w = .ok (c.keep message (c.written message w) b ch (c.notices message w)) := by
  obtain ⟨_, hlen, hmax⟩ := bytesAt_ok hm
  have hn := c.written_le message w
  have hsend : c.sendInLoop data len w =
      if len - c.written message w > 0 then
        queueOutput { c with
          accepted := c.accepted ++ message.take (c.written message w)
          pendingFunctors := c.pendingFunctors ++ c.completion message w
          handed := c.handed ++ [(message, .kept)] } (message.drop (c.written message w))
      else .ok { c with
        accepted := c.accepted ++ message.take (c.written message w)
        pendingFunctors := c.pendingFunctors ++ c.completion message w
        handed := c.handed ++ [(message, .kept)] } := by
    simp only [sendInLoop, hm, ok_bind, if_neg hs, writeDirectly_eq hv, assert_pos (Nat.sub_le len _)]
    simp [hf]
  rw [hsend]
  by_cases hrest : len - c.written message w > 0
  · rw [if_pos hrest]
    have hlt : c.written message w < message.length := by omega
    have hq := queueOutput_spec (c := { c with
        accepted := c.accepted ++ message.take (c.written message w)
        pendingFunctors := c.pendingFunctors ++ c.completion message w
        handed := c.handed ++ [(message, .kept)] }) hv (message.drop (c.written message w)) (by simp; omega)
    rcases hq with ⟨hbig, he⟩ | ⟨b, hbv, hbr, he⟩
    · left
      refine ⟨?_, he⟩
      simp only [List.length_drop] at hbig
      omega
    · right
      refine ⟨b, _, ⟨hn, direct_of_written_pos, hbv, hbr, rfl, c.notices_notify message w⟩, ?_⟩
      rw [he]
      cases c.channel.isWriting <;> simp [keep, notices, overflow, hlt, List.append_assoc]
  · rw [if_neg hrest]
    right
    have he : c.written message w = message.length := by omega
    refine ⟨c.outputBuffer, c.channel, ⟨hn, direct_of_written_pos, hv, ?_, ?_, c.notices_notify message w⟩, ?_⟩
    · simp [he]
    · simp [he]
    · simp [keep, notices, he]

theorem sendInLoop_cases {c : TcpConnection} (hv : c.outputBuffer.Valid) {data message : List UInt8}
    {len : ℕ} (hm : bytesAt data len = .ok message) (w : WriteResult) :
    (c.state = .kDisconnected ∧
        c.sendInLoop data len w = .ok { c with handed := c.handed ++ [(message, .refused)] }) ∨
      (c.state ≠ .kDisconnected ∧ c.Faults w ∧
        c.sendInLoop data len w = .ok { c with handed := c.handed ++ [(message, .dropped)] }) ∨
      (c.state ≠ .kDisconnected ∧ ¬c.Faults w ∧
        ((maxSize < c.outputBuffer.writerIndex + message.length ∧
            c.sendInLoop data len w = .error .lengthError) ∨
          ∃ n b ch extra, c.Kept message n b ch extra ∧
            c.sendInLoop data len w = .ok (c.keep message n b ch extra))) := by
  by_cases hs : c.state = .kDisconnected
  · exact Or.inl ⟨hs, by simp only [sendInLoop, hm, ok_bind, if_pos hs]⟩
  · right
    by_cases hf : c.Faults w
    · left
      refine ⟨hs, hf, ?_⟩
      have hnone : c.written message w = 0 ∧ c.completion message w = [] := by
        rcases hf.2 with rfl | rfl <;> exact ⟨rfl, rfl⟩
      simp only [sendInLoop, hm, ok_bind, if_neg hs, writeDirectly_eq hv, assert_pos (Nat.sub_le len _)]
      simp [hf, hnone]
    · right
      refine ⟨hs, hf, ?_⟩
      rcases sendInLoop_exact hv hm hs hf with hbig | ⟨b, ch, hk, he⟩
      · exact Or.inl hbig
      · exact Or.inr ⟨_, b, ch, _, hk, he⟩

theorem handleWrite_exact {c : TcpConnection} (hv : c.outputBuffer.Valid) (w : WriteResult) :
    (writeAccepted c.outputBuffer.readable w = [] ∨ c.channel.isWriting = false) ∧
        c.handleWrite w = .ok c ∨
      (c.channel.isWriting = true ∧ writeAccepted c.outputBuffer.readable w ≠ [] ∧
        ∃ b, b.Valid ∧
          writeAccepted c.outputBuffer.readable w ++ b.readable = c.outputBuffer.readable ∧
          let c' : TcpConnection := { c with
            accepted := c.accepted ++ writeAccepted c.outputBuffer.readable w
            outputBuffer := b }
          (b.readable ≠ [] ∧ c.handleWrite w = .ok c' ∨
            b.readable = [] ∧
              let c'' : TcpConnection := { c' with
                channel := c.channel.disableWriting
                pendingFunctors := c.pendingFunctors ++ c.drainedNotice }
              c.handleWrite w = .ok (if c.state = .kDisconnecting then c''.shutdownInLoop else c''))) := by
  have hpre : writeAccepted c.outputBuffer.readable w <+: c.outputBuffer.readable := by
    cases w with
    | wrote n => exact List.take_prefix _ _
    | failed errno => exact List.nil_prefix
  by_cases hw : c.channel.isWriting = true
  · by_cases hz : writeAccepted c.outputBuffer.readable w = []
    · left
      refine ⟨Or.inl hz, ?_⟩
      simp [handleWrite, hw, hz]
    · right
      refine ⟨hw, hz, ?_⟩
      obtain ⟨b, he, hbv, hbr, -, -, -⟩ := Buffer.retrieve_spec hv hpre.length_le
      have hsplit : writeAccepted c.outputBuffer.readable w ++ b.readable = c.outputBuffer.readable := by
        rw [hbr]
        exact List.prefix_iff_eq_append.mp hpre
      have hpos : (writeAccepted c.outputBuffer.readable w).length > 0 := List.length_pos_iff.mpr hz
      refine ⟨b, hbv, hsplit, ?_⟩
      simp only [handleWrite, hw, ↓reduceIte, if_pos hpos, he, ok_bind, hbv.readableBytes_length,
        List.length_eq_zero_iff]
      by_cases hb : b.readable = []
      · right
        refine ⟨hb, ?_⟩
        cases hcb : c.writeComplete with
        | true => simp [hb, queueInLoop, drainedNotice, hcb]
        | false => simp [hb, drainedNotice, hcb]
      · left
        exact ⟨hb, by simp [hb]⟩
  · left
    have hw' : c.channel.isWriting = false := by simpa using hw
    exact ⟨Or.inr hw', by simp [handleWrite, hw']⟩

theorem handleWrite_cases {c : TcpConnection} (hv : c.outputBuffer.Valid) (w : WriteResult) :
    (writeAccepted c.outputBuffer.readable w = [] ∨ c.channel.isWriting = false) ∧
        c.handleWrite w = .ok c ∨
      (c.channel.isWriting = true ∧ writeAccepted c.outputBuffer.readable w ≠ [] ∧
        ∃ b, b.Valid ∧
          writeAccepted c.outputBuffer.readable w ++ b.readable = c.outputBuffer.readable ∧
          let c' : TcpConnection := { c with
            accepted := c.accepted ++ writeAccepted c.outputBuffer.readable w
            outputBuffer := b }
          (b.readable ≠ [] ∧ c.handleWrite w = .ok c' ∨
            b.readable = [] ∧ ∃ extra, (∀ f ∈ extra, Notification f) ∧
              let c'' : TcpConnection := { c' with
                channel := c.channel.disableWriting
                pendingFunctors := c.pendingFunctors ++ extra }
              c.handleWrite w = .ok (if c.state = .kDisconnecting then c''.shutdownInLoop else c''))) := by
  rcases handleWrite_exact hv w with hsame | ⟨hw, hz, b, hbv, hsplit, hc⟩
  · exact Or.inl hsame
  · refine Or.inr ⟨hw, hz, b, hbv, hsplit, ?_⟩
    rcases hc with hc | ⟨hb, he⟩
    · exact Or.inl hc
    · exact Or.inr ⟨hb, c.drainedNotice, c.drainedNotice_notifies, he⟩

end TcpConnection

end Networker
