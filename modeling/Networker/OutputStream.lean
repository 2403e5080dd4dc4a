import Networker.OutputSpecs

/-!
The bytes a connection has written, followed by those still waiting in its
output buffer, are the messages it was given.
-/

namespace Networker.TcpConnection

open CheckedRuns

inductive OutputStep
  | sendInLoop (data : List UInt8) (len : ℕ) (w : WriteResult)
  | handleWrite (w : WriteResult)
  | shutdown (onLoop : Bool)
deriving DecidableEq, Repr

namespace OutputStep

/-- The pointer given to `sendInLoop` has `len` bytes behind it. -/
def WellFormed : OutputStep → Prop
  | .sendInLoop data len _ => len ≤ data.length ∧ len ≤ maxSize
  | .handleWrite _ | .shutdown _ => True

instance : (s : OutputStep) → Decidable s.WellFormed
  | .sendInLoop _ _ _ => inferInstanceAs (Decidable (_ ∧ _))
  | .handleWrite _ | .shutdown _ => inferInstanceAs (Decidable True)

def messages : OutputStep → List (List UInt8)
  | .sendInLoop data len _ => [data.take len]
  | .handleWrite _ | .shutdown _ => []

def Broken : OutputStep → Prop
  | .sendInLoop _ _ w => w = .failed .EPIPE ∨ w = .failed .ECONNRESET
  | .handleWrite _ | .shutdown _ => False

def kept (c : TcpConnection) : OutputStep → List (List UInt8)
  | .sendInLoop data len w => if c.Faults w then [] else [data.take len]
  | .handleWrite _ | .shutdown _ => []

end OutputStep

def stream (c : TcpConnection) : List UInt8 := c.accepted ++ c.outputBuffer.readable

theorem shutdownInLoop_eq (c : TcpConnection) : ∃ trace, c.shutdownInLoop = { c with trace } := by
  unfold shutdownInLoop
  dsimp only
  split_ifs
  · exact ⟨_, rfl⟩
  · exact ⟨_, rfl⟩

theorem shutdown_eq (c : TcpConnection) (onLoop : Bool) :
    ∃ state trace pendingFunctors, c.shutdown onLoop = { c with state, trace, pendingFunctors } ∧
      (c.live → state = .kConnected ∨ state = .kDisconnecting) := by
  unfold shutdown
  split_ifs with hs hl
  · obtain ⟨trace, ht⟩ := shutdownInLoop_eq { c with state := .kDisconnecting }
    exact ⟨.kDisconnecting, trace, c.pendingFunctors, ht, fun _ => Or.inr rfl⟩
  · exact ⟨.kDisconnecting, c.trace, c.pendingFunctors ++ [.shutdownInLoop], rfl, fun _ => Or.inr rfl⟩
  · exact ⟨c.state, c.trace, c.pendingFunctors, rfl, fun h => h⟩

/-- A message is written directly only when nothing is queued, so no byte overtakes another. -/
theorem Kept.stream_eq {c : TcpConnection} {message : List UInt8} {n : ℕ} {b : Buffer} {ch : Channel}
    {extra : List Functor} (h : c.Kept message n b ch extra) :
    (c.keep message n b ch extra).stream = c.stream ++ message := by
  simp only [stream, keep, h.readable_eq]
  rcases Nat.eq_zero_or_pos n with rfl | hn
  · simp
  · rw [(h.direct hn).2]
    simp

theorem kept_of_not_broken {c : TcpConnection} {s : OutputStep} (h : ¬s.Broken) : s.kept c = s.messages := by
  cases s with
  | sendInLoop data len w =>
    have hf : ¬c.Faults w := fun hf => h hf.2
    simp [OutputStep.kept, OutputStep.messages, hf]
  | handleWrite w => rfl
  | shutdown onLoop => rfl

section Runs

variable [Build]

def outputStep (c : TcpConnection) : OutputStep → Exec TcpConnection
  | .sendInLoop data len w => c.sendInLoop data len w
  | .handleWrite w => c.handleWrite w
  | .shutdown onLoop => .ok (c.shutdown onLoop)

def survivors (c : TcpConnection) : List OutputStep → List (List UInt8)
  | [] => []
  | s :: steps =>
    match c.outputStep s with
    | .ok c' => s.kept c ++ c'.survivors steps
    | .error _ => []

theorem handleWrite_stream {c c' : TcpConnection} (hv : c.outputBuffer.Valid) {w : WriteResult}
    (h : c.handleWrite w = .ok c') :
    c'.outputBuffer.Valid ∧ c'.stream = c.stream ∧ c'.state = c.state := by
  rcases handleWrite_cases hv w with ⟨-, he⟩ | ⟨-, -, b, hbv, hsplit, hc⟩
  · cases he.symm.trans h
    exact ⟨hv, rfl, rfl⟩
  · have hstream : c.accepted ++ writeAccepted c.outputBuffer.readable w ++ b.readable = c.stream := by
      rw [List.append_assoc, hsplit, stream]
    rcases hc with ⟨-, he⟩ | ⟨-, extra, -, he⟩
    · cases he.symm.trans h
      exact ⟨hbv, hstream, rfl⟩
    · have hc' := Except.ok.inj (h.symm.trans he)
      obtain ⟨trace, ht⟩ := shutdownInLoop_eq { c with
        accepted := c.accepted ++ writeAccepted c.outputBuffer.readable w
        outputBuffer := b
        channel := c.channel.disableWriting
        pendingFunctors := c.pendingFunctors ++ extra }
      rw [ht] at hc'
      split_ifs at hc'
      · exact hc' ▸ ⟨hbv, hstream, rfl⟩
      · exact hc' ▸ ⟨hbv, hstream, rfl⟩

theorem handleWrite_ok {c : TcpConnection} (hv : c.outputBuffer.Valid) (w : WriteResult) :
    ∃ c', c.handleWrite w = .ok c' := by
  rcases handleWrite_cases hv w with ⟨-, he⟩ | ⟨-, -, b, -, -, ⟨-, he⟩ | ⟨-, extra, -, he⟩⟩
  · exact ⟨_, he⟩
  · exact ⟨_, he⟩
  · exact ⟨_, he⟩

theorem outputStep_spec {c : TcpConnection} (hlive : c.live) (hv : c.outputBuffer.Valid) {s : OutputStep}
    (hs : s.WellFormed) :
    (maxSize < c.outputBuffer.writerIndex + s.messages.flatten.length ∧
        c.outputStep s = .error .lengthError) ∨
      ∃ c', c.outputStep s = .ok c' ∧ c'.live ∧ c'.outputBuffer.Valid ∧
        c'.stream = c.stream ++ (s.kept c).flatten := by
  cases s with
  | sendInLoop data len w =>
    have hm : bytesAt data len = .ok (data.take len) := if_pos hs
    have hconn : c.state ≠ .kDisconnected := by rcases hlive with h | h <;> simp [h]
    simp only [outputStep, OutputStep.kept, OutputStep.messages]
    rcases sendInLoop_cases hv hm w with ⟨hd, -⟩ | ⟨-, hf, he⟩ | ⟨-, hf, ⟨hbig, he⟩ | ⟨n, b, ch, extra, hk, he⟩⟩
    · exact absurd hd hconn
    · exact Or.inr ⟨_, he, hlive, hv, by simp [hf, stream]⟩
    · exact Or.inl ⟨by simpa using hbig, he⟩
    · exact Or.inr ⟨_, he, hlive, hk.valid, by rw [hk.stream_eq]; simp [hf]⟩
  | handleWrite w =>
    obtain ⟨c', he⟩ := handleWrite_ok hv w
    obtain ⟨hv', hst, hstate⟩ := handleWrite_stream hv he
    refine Or.inr ⟨c', he, ?_, hv', by simp [hst, OutputStep.kept]⟩
    rwa [live, hstate]
  | shutdown onLoop =>
    obtain ⟨state, trace, pendingFunctors, he, hl⟩ := shutdown_eq c onLoop
    exact Or.inr ⟨_, congrArg Except.ok he, hl hlive, hv, by simp [stream, OutputStep.kept]⟩

structure Integrity (c : TcpConnection) (steps : List OutputStep) (c' : TcpConnection) : Prop where
  live : c'.live
  valid : c'.outputBuffer.Valid
  stream_eq : c'.accepted ++ c'.outputBuffer.readable =
    c.accepted ++ c.outputBuffer.readable ++ (c.survivors steps).flatten
  /-- absent `EPIPE` and `ECONNRESET` nothing is dropped -/
  nothing_lost : (∀ s ∈ steps, ¬s.Broken) → c.survivors steps = steps.flatMap OutputStep.messages

theorem run_integrity {c : TcpConnection} (hlive : c.live) (hv : c.outputBuffer.Valid)
    (steps : List OutputStep) (hsteps : ∀ s ∈ steps, s.WellFormed) :
    run outputStep c steps = .error .lengthError ∨
      ∃ c', run outputStep c steps = .ok c' ∧ Integrity c steps c' := by
  induction steps generalizing c with
  | nil => exact Or.inr ⟨c, rfl, hlive, hv, by simp [survivors], fun _ => rfl⟩
  | cons s steps ih =>
    simp only [run]
    rcases outputStep_spec hlive hv (hsteps s (by simp)) with ⟨-, he⟩ | ⟨d, he, hdl, hdv, hds⟩
    · left
      rw [he, error_bind]
    · rw [he, ok_bind]
      rcases ih hdl hdv (fun s' hs' => hsteps s' (by simp [hs'])) with hr | ⟨c', hr, hi⟩
      · exact Or.inl hr
      · have hsurv : c.survivors (s :: steps) = s.kept c ++ d.survivors steps := by simp [survivors, he]
        refine Or.inr ⟨c', hr, hi.live, hi.valid, ?_, ?_⟩
        · rw [hsurv, hi.stream_eq, List.flatten_append, ← List.append_assoc]
          exact congrArg (· ++ (d.survivors steps).flatten) hds
        · intro hb
          rw [hsurv, kept_of_not_broken (hb s (by simp)),
            hi.nothing_lost (fun s' hs' => hb s' (by simp [hs']))]
          rfl

/-- Every run of sends and writable events keeps the stream in order; a step fails only where the buffer
cannot hold the message, and a write that finds the peer gone drops its message and changes nothing else. -/
theorem output_stream_integrity {c : TcpConnection} (hlive : c.live) (hv : c.outputBuffer.Valid)
    (steps : List OutputStep) (hsteps : ∀ s ∈ steps, s.WellFormed) :
    run outputStep c steps = .error .lengthError ∨
      ∃ c', run outputStep c steps = .ok c' ∧ Integrity c steps c' ∧
        (∀ s : OutputStep, s.WellFormed →
          c'.outputBuffer.writerIndex + s.messages.flatten.length ≤ maxSize → ∃ d, c'.outputStep s = .ok d) ∧
        (∀ data len w, len ≤ data.length → len ≤ maxSize → c'.Faults w →
          ∃ d, c'.sendInLoop data len w = .ok d ∧
            d.accepted = c'.accepted ∧ d.outputBuffer = c'.outputBuffer ∧ d.channel = c'.channel) ∧
        ∀ errno, c'.handleWrite (.failed errno) = .ok c' := by
  rcases run_integrity hlive hv steps hsteps with h | ⟨c', hr, hi⟩
  · exact Or.inl h
  · refine Or.inr ⟨c', hr, hi, ?_, ?_, ?_⟩
    · intro s hs hfit
      rcases outputStep_spec hi.live hi.valid hs with ⟨hbig, -⟩ | ⟨d, he, -⟩
      · omega
      · exact ⟨d, he⟩
    · intro data len w hl hmax hf
      have hm : bytesAt data len = .ok (data.take len) := if_pos ⟨hl, hmax⟩
      have hconn : c'.state ≠ .kDisconnected := by rcases hi.live with h | h <;> simp [h]
      rcases sendInLoop_cases hi.valid hm w with ⟨hd, -⟩ | ⟨-, -, he⟩ | ⟨-, hnf, -⟩
      · exact absurd hd hconn
      · exact ⟨_, he, rfl, rfl, rfl⟩
      · exact absurd hf hnf
    · intro errno
      rcases handleWrite_cases hi.valid (.failed errno) with ⟨-, he⟩ | ⟨-, hne, -⟩
      · exact he
      · exact absurd rfl hne

end Runs

/-- A short direct write, a send behind queued bytes, a full drain and a lost peer, with assertions on. -/
theorem output_stream_integrity_short_write :
    letI := Build.debug
    let c := established 7 false false 67108864
    let steps : List OutputStep :=
      [.sendInLoop [1, 2, 3] 3 (.wrote 1), .sendInLoop [4, 5] 2 (.wrote 2), .handleWrite (.wrote 3), .shutdown true,
        .handleWrite (.failed .EWOULDBLOCK), .handleWrite (.wrote 9), .sendInLoop [6] 1 (.failed .EPIPE)]
    c.survivors steps = [[1, 2, 3], [4, 5]] ∧
      (run outputStep c steps = .error .lengthError ∨ ∃ c', run outputStep c steps = .ok c' ∧ Integrity c steps c') := by
  intro c steps
  let _ := Build.debug
  refine ⟨by decide +kernel, ?_⟩
  rcases output_stream_integrity (c := c) (Or.inl rfl) (Buffer.initial_valid initialSize_le) steps
    (by decide +kernel) with h | ⟨c', hr, hi, -⟩
  · exact Or.inl h
  · exact Or.inr ⟨c', hr, hi⟩

end Networker.TcpConnection
