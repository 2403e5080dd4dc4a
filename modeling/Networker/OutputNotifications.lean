import Networker.HalfClose
import Networker.OutputStream

/-!
When a connection queues its two output callbacks. The high-water callback goes with the
step that takes the buffer over the mark, the write-complete callback with the write that
leaves nothing to send; that a writable channel has something to send is the invariant of
`HalfClose`.
-/

namespace Networker.TcpConnection

open CheckedRuns

/-- The step calls `write(2)` and the call succeeds. -/
def OutputStep.Wrote (c : TcpConnection) : OutputStep → Prop
  | .sendInLoop _ _ w => c.Direct ∧ ∃ n, w = .wrote n
  | .handleWrite w => c.channel.isWriting = true ∧ ∃ n, w = .wrote n
  | .shutdown _ => False

/-- What a step from `c` to `d` puts into the queue of the loop. -/
structure Notified (c : TcpConnection) (s : OutputStep) (d : TcpConnection) (extra : List Functor) : Prop where
  queued : d.pendingFunctors = c.pendingFunctors ++ extra
  highWater : ∀ size, .highWaterMarkCallback size ∈ extra ↔
    c.outputBuffer.readable.length < c.highWaterMark ∧ c.highWaterMark ≤ d.outputBuffer.readable.length ∧
      size = d.outputBuffer.readable.length
  -- nothing is left in the buffer, and the message of the step is among the bytes written
  writeComplete : .writeCompleteCallback ∈ extra ↔
    s.Wrote c ∧ d.outputBuffer.readable = [] ∧ d.accepted = c.stream ++ s.messages.flatten
  drained : c.outputBuffer.readable ≠ [] → d.outputBuffer.readable = [] → extra = [.writeCompleteCallback]
  one : extra.length ≤ 1

theorem Notified.idle {c d : TcpConnection} {s : OutputStep} (hq : d.pendingFunctors = c.pendingFunctors)
    (hb : d.outputBuffer.readable.length ≤ c.outputBuffer.readable.length)
    (hd : c.outputBuffer.readable ≠ [] → d.outputBuffer.readable ≠ [])
    (hw : s.Wrote c → d.outputBuffer.readable ≠ []) : Notified c s d [] := by
  constructor
  · simp [hq]
  · intro size
    constructor
    · intro h
      cases h
    · rintro ⟨h1, h2, -⟩
      omega
  · constructor
    · intro h
      cases h
    · rintro ⟨h1, h2, -⟩
      exact absurd h2 (hw h1)
  · intro h1 h2
    exact absurd h2 (hd h1)
  · simp

section Steps

variable {c d : TcpConnection}

theorem overflow_eq (hv : c.outputBuffer.Valid) (hh : c.highWater = true) (len : ℕ) :
    c.overflow len =
      if c.outputBuffer.readable.length < c.highWaterMark ∧ c.highWaterMark ≤ c.outputBuffer.readable.length + len
      then [.highWaterMarkCallback (c.outputBuffer.readable.length + len)] else [] := by
  unfold overflow
  rw [hv.readableBytes_length, hh]
  simp only [and_true]
  exact if_congr and_comm rfl rfl

theorem notices_cases (hc : c.writeComplete = true) (message : List UInt8) (w : WriteResult) :
    (c.written message w < message.length ∧ c.notices message w = c.overflow (message.length - c.written message w)) ∨
      (c.written message w = message.length ∧ c.Direct ∧ (∃ n, w = .wrote n) ∧
        c.notices message w = [.writeCompleteCallback]) ∨
      (c.written message w = message.length ∧ ¬(c.Direct ∧ ∃ n, w = .wrote n) ∧ c.notices message w = []) := by
  unfold notices written completion
  cases w with
  | failed errno =>
    by_cases hlt : 0 < message.length
    · simp [hlt]
    · right; right
      simp only [if_neg hlt, List.append_nil, reduceCtorEq, exists_false, and_false, not_false_eq_true, and_self, and_true]
      omega
  | wrote n =>
    by_cases hd : c.Direct
    · by_cases hle : message.length ≤ n
      · right; left
        simp [hd, hle, hc]
      · left
        have hlt : n < message.length := by omega
        simp [hd, hle, hlt, Nat.min_eq_left (le_of_lt hlt)]
    · by_cases hlt : 0 < message.length
      · simp [hd, hlt]
      · right; right
        simp only [hd, if_neg hlt, false_and, if_false, List.append_nil, not_false_eq_true, and_self, and_true]
        omega

-- a short write, or none: the rest goes into the buffer
theorem Kept.notified_rest {message : List UInt8} {data : List UInt8} {len n : ℕ} {w : WriteResult} {b : Buffer}
    {ch : Channel} (hv : c.outputBuffer.Valid) (hh : c.highWater = true)
    (h : c.Kept message n b ch (c.overflow (message.length - n))) (hlt : n < message.length) :
    Notified c (.sendInLoop data len w) (c.keep message n b ch (c.overflow (message.length - n)))
      (c.overflow (message.length - n)) := by
  have hlen : b.readable.length = c.outputBuffer.readable.length + (message.length - n) := by
    rw [h.readable_eq, List.length_append, List.length_drop]
  have hne : b.readable ≠ [] := by
    rw [← List.length_pos_iff, hlen]
    omega
  have ho := overflow_eq hv hh (message.length - n)
  rw [← hlen] at ho
  constructor
  · rfl
  · intro size
    change _ ↔ _ ∧ _ ≤ b.readable.length ∧ size = b.readable.length
    rw [ho]
    split_ifs with hc
    · simp [hc]
    · simp only [List.not_mem_nil, false_iff]
      rintro ⟨h1, h2, -⟩
      exact hc ⟨h1, h2⟩
  · constructor
    · intro hm
      rw [ho] at hm
      split_ifs at hm <;> simp at hm
    · rintro ⟨-, h2, -⟩
      exact absurd h2 hne
  · intro _ h2
    exact absurd h2 hne
  · rw [ho]
    split_ifs <;> simp

/-- The message leaves nothing for the buffer. -/
theorem Kept.notified_all {message data : List UInt8} {len n : ℕ} {b : Buffer} {ch : Channel}
    (hm : message = data.take len) (hd : c.Direct) (h : c.Kept message message.length b ch [.writeCompleteCallback]) :
    Notified c (.sendInLoop data len (.wrote n)) (c.keep message message.length b ch [.writeCompleteCallback])
      [.writeCompleteCallback] := by
  have hempty : b.readable = [] := by
    rw [h.readable_eq, hd.2]
    simp
  constructor
  · rfl
  · intro size
    change _ ↔ _ ∧ _ ≤ b.readable.length ∧ _
    rw [hempty]
    simp only [List.mem_singleton, reduceCtorEq, false_iff, List.length_nil]
    omega
  · simp only [List.mem_singleton, true_iff]
    refine ⟨⟨hd, n, rfl⟩, hempty, ?_⟩
    simp [keep, stream, hd.2, OutputStep.messages, ← hm]
  · exact fun _ _ => rfl
  · simp

theorem shutdown_notified (c : TcpConnection) (onLoop : Bool) :
    ∃ extra, Notified c (.shutdown onLoop) (c.shutdown onLoop) extra := by
  unfold shutdown
  split_ifs with hs hl
  · obtain ⟨trace, ht⟩ := shutdownInLoop_eq { c with state := .kDisconnecting }
    rw [ht]
    exact ⟨[], Notified.idle rfl le_rfl id False.elim⟩
  · refine ⟨[.shutdownInLoop], rfl, ?_, ?_, fun h1 h2 => absurd h2 h1, by simp⟩
    · intro size
      simp only [List.mem_singleton, reduceCtorEq, false_iff, queueInLoop]
      omega
    · simp [OutputStep.Wrote]
  · exact ⟨[], Notified.idle rfl le_rfl id False.elim⟩

end Steps

section Runs

variable [Build] {c d : TcpConnection}

theorem sendInLoop_notified (hv : c.outputBuffer.Valid) (hs : c.state ≠ .kDisconnected) (hc : c.writeComplete = true)
    (hh : c.highWater = true) {data : List UInt8} {len : ℕ} {w : WriteResult} (h : c.sendInLoop data len w = .ok d) :
    ∃ extra, Notified c (.sendInLoop data len w) d extra := by
  obtain ⟨message, hm, -⟩ := bind_eq_ok.mp h
  obtain ⟨htake, -, -⟩ := bytesAt_ok hm
  by_cases hf : c.Faults w
  · rcases sendInLoop_cases hv hm w with ⟨hd, -⟩ | ⟨-, -, he⟩ | ⟨-, hnf, -⟩
    · exact absurd hd hs
    · cases he.symm.trans h
      refine ⟨[], Notified.idle rfl le_rfl id ?_⟩
      rintro ⟨-, n, rfl⟩
      rcases hf.2 with hw | hw <;> cases hw
    · exact absurd hf hnf
  · rcases sendInLoop_exact hv hm hs hf with ⟨-, he⟩ | ⟨b, ch, hk, he⟩
    · cases he.symm.trans h
    · cases he.symm.trans h
      obtain ⟨hlt, hno⟩ | ⟨hall, hd, ⟨n, rfl⟩, hno⟩ | ⟨hall, hnot, hno⟩ := notices_cases hc message w
      · rw [hno] at hk ⊢
        exact ⟨_, hk.notified_rest hv hh hlt⟩
      · rw [hno, hall] at hk ⊢
        exact ⟨_, hk.notified_all htake hd⟩
      · have hsame : b.readable = c.outputBuffer.readable := by
          rw [hk.readable_eq, hall]
          simp
        refine ⟨[], Notified.idle ?_ (le_of_eq (congrArg List.length hsame)) ?_ fun hw => absurd hw hnot⟩
        · simp [keep, hno]
        · intro hne
          change b.readable ≠ []
          rwa [hsame]

theorem handleWrite_notified (hv : c.outputBuffer.Valid) (hi : c.channel.isWriting = true → c.outputBuffer.readable ≠ [])
    (hc : c.writeComplete = true) {w : WriteResult} (h : c.handleWrite w = .ok d) :
    ∃ extra, Notified c (.handleWrite w) d extra := by
  rcases handleWrite_exact hv w with ⟨-, he⟩ | ⟨hw, hz, b, hbv, hsplit, ⟨hb, he⟩ | ⟨hb, he⟩⟩
  · cases he.symm.trans h
    exact ⟨[], Notified.idle rfl le_rfl id fun hwrote => hi hwrote.1⟩
  · cases he.symm.trans h
    refine ⟨[], Notified.idle rfl ?_ (fun _ => hb) fun _ => hb⟩
    rw [← hsplit, List.length_append]
    exact Nat.le_add_left _ _
  · have hwrote : ∃ n, w = .wrote n := by
      cases w with
      | wrote n => exact ⟨n, rfl⟩
      | failed errno => exact absurd rfl hz
    rw [hb, List.append_nil] at hsplit
    obtain ⟨hq, hbuf, hacc⟩ : d.pendingFunctors = c.pendingFunctors ++ [.writeCompleteCallback] ∧
        d.outputBuffer = b ∧ d.accepted = c.stream := by
      rw [hsplit, drainedNotice, if_pos hc] at he
      obtain ⟨trace, ht⟩ := shutdownInLoop_eq { c with
        accepted := c.accepted ++ c.outputBuffer.readable
        outputBuffer := b
        channel := c.channel.disableWriting
        pendingFunctors := c.pendingFunctors ++ [.writeCompleteCallback] }
      dsimp only at he
      rw [ht] at he
      split_ifs at he
      · cases he.symm.trans h
        exact ⟨rfl, rfl, rfl⟩
      · cases he.symm.trans h
        exact ⟨rfl, rfl, rfl⟩
    refine ⟨[.writeCompleteCallback], hq, ?_, ?_, fun _ _ => rfl, by simp⟩
    · intro size
      rw [hbuf, hb]
      simp only [List.mem_singleton, reduceCtorEq, false_iff, List.length_nil]
      omega
    · simp [OutputStep.Wrote, OutputStep.messages, hw, hwrote, hbuf, hb, hacc]

/-- What the notifications rest on. -/
structure Notifying (mark : ℕ) (c : TcpConnection) : Prop where
  halfClose : HalfClose c
  live : c.live
  writeComplete : c.writeComplete = true
  highWater : c.highWater = true
  mark : c.highWaterMark = mark

variable {mark : ℕ}

theorem Notifying.notified (h : Notifying mark c) {s : OutputStep} (hs : c.outputStep s = .ok d) :
    ∃ extra, Notified c s d extra := by
  have hconn : c.state ≠ .kDisconnected := by rcases h.live with hl | hl <;> simp [hl]
  cases s with
  | sendInLoop data len w => exact sendInLoop_notified h.halfClose.valid hconn h.writeComplete h.highWater hs
  | handleWrite w =>
    exact handleWrite_notified h.halfClose.valid (h.halfClose.interest h.live).mp h.writeComplete hs
  | shutdown onLoop =>
    cases hs
    exact shutdown_notified c onLoop

theorem outputStep_settings (hv : c.outputBuffer.Valid) {s : OutputStep} (hs : c.outputStep s = .ok d) :
    d.writeComplete = c.writeComplete ∧ d.highWater = c.highWater ∧ d.highWaterMark = c.highWaterMark := by
  cases s with
  | sendInLoop data len w =>
    obtain ⟨message, -, ⟨-, rfl⟩ | ⟨-, -, rfl⟩ | ⟨-, -, n, b, ch, extra, -, rfl⟩⟩ := sendInLoop_inv hv hs
    · exact ⟨rfl, rfl, rfl⟩
    · exact ⟨rfl, rfl, rfl⟩
    · exact ⟨rfl, rfl, rfl⟩
  | handleWrite w =>
    rcases handleWrite_cases hv w with ⟨-, he⟩ | ⟨-, -, b, -, -, ⟨-, he⟩ | ⟨-, extra, -, he⟩⟩
    · cases he.symm.trans hs
      exact ⟨rfl, rfl, rfl⟩
    · cases he.symm.trans hs
      exact ⟨rfl, rfl, rfl⟩
    · obtain ⟨trace, ht⟩ := shutdownInLoop_eq { c with
        accepted := c.accepted ++ writeAccepted c.outputBuffer.readable w
        outputBuffer := b
        channel := c.channel.disableWriting
        pendingFunctors := c.pendingFunctors ++ extra }
      dsimp only at he
      rw [ht] at he
      split_ifs at he
      · cases he.symm.trans hs
        exact ⟨rfl, rfl, rfl⟩
      · cases he.symm.trans hs
        exact ⟨rfl, rfl, rfl⟩
  | shutdown onLoop =>
    cases hs
    obtain ⟨state, trace, pendingFunctors, he, -⟩ := shutdown_eq c onLoop
    rw [he]
    exact ⟨rfl, rfl, rfl⟩

theorem Notifying.step (h : Notifying mark c) {s : OutputStep} (hw : s.WellFormed) (hs : c.outputStep s = .ok d) :
    Notifying mark d := by
  obtain ⟨hwc, hhw, hm⟩ := outputStep_settings h.halfClose.valid hs
  have hlive : d.live := by
    rcases outputStep_spec h.live h.halfClose.valid hw with ⟨-, he⟩ | ⟨d', he, hl, -⟩
    · cases he.symm.trans hs
    · cases he.symm.trans hs
      exact hl
  refine ⟨?_, hlive, hwc.trans h.writeComplete, hhw.trans h.highWater, hm.trans h.mark⟩
  cases s with
  | sendInLoop data len w => exact h.halfClose.sendInLoop hs
  | handleWrite w => exact h.halfClose.handleWrite hs
  | shutdown onLoop =>
    cases hs
    exact h.halfClose.shutdown onLoop

end Runs

/-- In every reachable state of a connection that is up and has both callbacks, and along every run of its output
from there. -/
theorem output_notifications [Build] {fd : ℤ} {writeComplete highWater : Bool} {highWaterMark : ℕ}
    {c₀ c d e : TcpConnection}
    (h₀ : (create fd writeComplete highWater highWaterMark >>= connectEstablished) = .ok c₀) {steps : List Step}
    (h : Path step Enabled c₀ steps c) (hlive : c.live) (hc : c.writeComplete = true) (hh : c.highWater = true)
    {outputs : List OutputStep} (hd : Path outputStep (fun _ s => s.WellFormed) c outputs d) {s : OutputStep}
    (hs : d.outputStep s = .ok e) : d.highWaterMark = c.highWaterMark ∧ ∃ extra, Notified d s e extra := by
  cases h₀.symm.trans (create_connectEstablished fd writeComplete highWater highWaterMark)
  have hhalf : HalfClose c := h.invariant (established_halfClose fd writeComplete highWater highWaterMark)
    fun t i u ht _ hu => ht.step hu
  have hn : Notifying c.highWaterMark d := by
    apply hd.invariant
    · exact ⟨hhalf, hlive, hc, hh, rfl⟩
    · intro t i u ht hi hu
      exact ht.step hi hu
  exact ⟨hn.mark, hn.notified hs⟩

-- a message over the mark, then a drain
theorem output_notifications_over_mark :
    letI := Build.debug
    let outputs : List OutputStep := [.sendInLoop [1, 2, 3] 3 (.wrote 1), .sendInLoop [4, 5, 6] 3 (.wrote 0)]
    ∃ d e, Path outputStep (fun _ s => s.WellFormed) (established 7 true true 4) outputs d ∧
      d.pendingFunctors = [.highWaterMarkCallback 5] ∧ d.outputStep (.handleWrite (.wrote 9)) = .ok e ∧
      Notified d (.handleWrite (.wrote 9)) e [.writeCompleteCallback] := by
  intro outputs
  let _ := Build.debug
  obtain ⟨d, hd, hp⟩ := Path.exists_of_any outputStep (fun _ s => s.WellFormed) (established 7 true true 4) outputs
    (fun d : TcpConnection => d.pendingFunctors = [.highWaterMarkCallback 5] ∧ d.outputBuffer.readable ≠ [] ∧
      (d.outputStep (.handleWrite (.wrote 9))).toOption.any fun e => e.outputBuffer.readable = []) (by decide +kernel)
  obtain ⟨hq, hne, hany⟩ := of_decide_eq_true hp
  obtain ⟨e, he, hempty⟩ := exists_ok_of_any _ hany
  obtain ⟨-, extra, hx⟩ := output_notifications (create_connectEstablished 7 true true 4) .nil (Or.inl rfl) rfl rfl hd he
  cases hx.drained hne (of_decide_eq_true hempty)
  exact ⟨d, e, hd, hq, he, hx⟩

end Networker.TcpConnection
