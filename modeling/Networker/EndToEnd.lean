import Networker.SocketPair

/-!
Whatever the two loops, their threads and the kernel do between them, the bytes
an application takes out of one connection are those given to the other.
-/

namespace Networker

open CheckedRuns

namespace Buffer

variable [Build] {b b' : Buffer}

theorem retrieve_readable (hv : b.Valid) {len : ℕ} (h : b.retrieve len = .ok b') :
    b'.Valid ∧ b.readable = b.readable.take len ++ b'.readable := by
  have h' := assert_bind_ok h
  by_cases hlt : len < b.readableBytes
  · have hle : len ≤ b.readable.length := by
      rw [← hv.readableBytes_length]
      exact hlt.le
    obtain ⟨b₁, hb₁, hv₁, hread, -⟩ := retrieve_spec hv hle
    cases h.symm.trans hb₁
    exact ⟨hv₁, by rw [hread, List.take_append_drop]⟩
  · rw [if_neg hlt] at h'
    cases h'
    have hall : b.readable.length ≤ len := by
      rw [← hv.readableBytes_length]
      exact Nat.le_of_not_lt hlt
    exact ⟨hv.retrieveAll, by simp [List.take_of_length_le hall]⟩

theorem readFd_readable (hv : b.Valid) {r : ReadResult} {n : ℤ} {errno : Option ℕ}
    (h : b.readFd r = .ok (b', n, errno)) : b'.Valid ∧ b'.readable = b.readable ++ b.taken r := by
  cases r with
  | failed e =>
    cases h
    exact ⟨hv, by simp [taken, ReadResult.bytes]⟩
  | read bytes =>
    rw [readFd_take] at h
    rcases readFd_spec hv (List.length_take_le _ bytes) with ⟨b₁, hb₁, hv₁, hread, -⟩ | ⟨-, herr⟩
    · cases h.symm.trans hb₁
      exact ⟨hv₁, hread⟩
    · cases h.symm.trans herr

end Buffer

namespace TcpConnection

variable {c c' : TcpConnection}

theorem shutdownInLoop_inputBuffer (c : TcpConnection) : c.shutdownInLoop.inputBuffer = c.inputBuffer := by
  obtain ⟨trace, h⟩ := shutdownInLoop_eq c
  rw [h]

section Input

variable [Build]

theorem sendInLoop_inputBuffer (hv : c.outputBuffer.Valid) {data : List UInt8} {len : ℕ} {w : WriteResult}
    (h : c.sendInLoop data len w = .ok c') : c'.inputBuffer = c.inputBuffer := by
  obtain ⟨message, -, ⟨-, rfl⟩ | ⟨-, -, rfl⟩ | ⟨-, -, n, b, ch, extra, -, rfl⟩⟩ := sendInLoop_inv hv h
  · rfl
  · rfl
  · rfl

theorem handleWrite_inputBuffer (hv : c.outputBuffer.Valid) {w : WriteResult} (h : c.handleWrite w = .ok c') :
    c'.inputBuffer = c.inputBuffer := by
  rcases handleWrite_cases hv w with ⟨-, he⟩ | ⟨-, -, b, -, -, ⟨-, he⟩ | ⟨-, extra, -, he⟩⟩
  · cases he.symm.trans h
    rfl
  · cases he.symm.trans h
    rfl
  · cases he.symm.trans h
    split_ifs
    · exact shutdownInLoop_inputBuffer _
    · rfl

theorem connectDestroyed_inputBuffer (h : c.connectDestroyed = .ok c') : c'.inputBuffer = c.inputBuffer := by
  unfold connectDestroyed at h
  split_ifs at h
  · cases h
    rfl
  · rw [removeChannel_eq h]
    rfl

theorem handleRead_input (hv : c.inputBuffer.Valid) {r : Buffer.ReadResult} (h : c.handleRead r = .ok c') :
    c'.inputBuffer.Valid ∧ c'.inputBuffer.readable = c.inputBuffer.readable ++ c.inputBuffer.taken r := by
  obtain ⟨⟨b, n, errno⟩, hr, hc⟩ := bind_eq_ok.mp h
  have hb := Buffer.readFd_readable hv hr
  dsimp only at hc
  split_ifs at hc
  · cases hc
    exact hb
  · rw [handleClose_eq hc]
    exact hb
  · cases hc
    exact hb

/-- What was in the input buffer and what comes in goes to the application or stays, in order. -/
def Passes (c : TcpConnection) (arrived retrieved : List UInt8) (c' : TcpConnection) : Prop :=
  c'.inputBuffer.Valid ∧ c.inputBuffer.readable ++ arrived = retrieved ++ c'.inputBuffer.readable

omit [Build] in
theorem Passes.none (hv : c.inputBuffer.Valid) (h : c'.inputBuffer = c.inputBuffer) : Passes c [] [] c' := by
  rw [Passes, h]
  exact ⟨hv, by simp⟩

theorem call_passes (hv : c.outputBuffer.Valid) (hi : c.inputBuffer.Valid) {onLoop : Bool} {call : Call}
    (h : c.call onLoop call = .ok c') : Passes c [] (c.retrieved (.call onLoop call)) c' := by
  cases call with
  | send message w =>
    obtain ⟨-, rfl⟩ | ⟨-, ⟨-, data, len, he⟩ | ⟨-, s, rfl⟩⟩ := send_inv h
    · exact .none hi rfl
    · have hsend := sendInLoop_inputBuffer (c := { c with sent := c.sent ++ [message.bytes] }) hv he
      exact .none hi hsend
    · exact .none hi rfl
  | shutdown =>
    cases h
    obtain ⟨state, trace, pendingFunctors, he, -⟩ := shutdown_eq c onLoop
    exact .none hi (by rw [he])
  | forceClose =>
    cases h
    refine .none hi ?_
    unfold forceClose
    split_ifs <;> rfl
  | forceCloseWithDelay =>
    cases h
    refine .none hi ?_
    unfold forceCloseWithDelay
    split_ifs <;> rfl
  | startRead =>
    cases h
    refine .none hi ?_
    unfold startRead startReadInLoop
    split_ifs <;> rfl
  | retrieveInput len =>
    obtain ⟨b, hb, hc⟩ := bind_eq_ok.mp h
    cases hc
    obtain ⟨hv', hread⟩ := Buffer.retrieve_readable hi hb
    exact ⟨hv', by rw [List.append_nil]; exact hread⟩

theorem runTask_inputBuffer (hv : c.outputBuffer.Valid) {r : Buffer.ReadResult} {w : WriteResult} {t : Task}
    (ht : t ≠ .channel .read) (h : c.runTask r w t = .ok c') : c'.inputBuffer = c.inputBuffer := by
  cases t with
  | channel callback =>
    cases callback with
    | close =>
      rw [handleClose_eq h]
      rfl
    | error =>
      cases h
      rfl
    | read => exact absurd rfl ht
    | write => exact handleWrite_inputBuffer hv h
  | closeCallback =>
    cases h
    rfl
  | remove =>
    rw [removeChannel_eq h]
    rfl

theorem runFunctor_inputBuffer (hv : c.outputBuffer.Valid) {w : WriteResult} {f : Functor}
    (h : c.runFunctor w f = .ok c') : c'.inputBuffer = c.inputBuffer := by
  obtain ⟨message, rfl, hsend⟩ | ⟨-, ⟨-, rfl⟩ | rfl | hd | (rfl | rfl) | ⟨e, -, rfl⟩⟩ := runFunctor_inv h
  · exact sendInLoop_inputBuffer hv hsend
  · exact shutdownInLoop_inputBuffer c
  · unfold startReadInLoop
    split_ifs <;> rfl
  · exact connectDestroyed_inputBuffer hd
  · rfl
  · rfl
  · rfl

theorem step_passes (hv : c.outputBuffer.Valid) (hi : c.inputBuffer.Valid) {s : Step} (h : c.step s = .ok c') :
    Passes c (c.arrived s) (c.retrieved s) c' := by
  cases s with
  | call onLoop call => exact call_passes hv hi h
  | event revents =>
    cases h
    exact .none hi rfl
  | task r w =>
    obtain ⟨t, ts, ht, hrun⟩ | ⟨ht, rfl⟩ := task_inv h
    · by_cases hread : t = .channel .read
      · subst hread
        have harrived : c.arrived (.task r w) = c.inputBuffer.taken r := by simp [arrived, ht]
        obtain ⟨hv', hr⟩ := handleRead_input (c := { c with tasks := ts }) hi hrun
        rw [harrived]
        exact ⟨hv', hr.symm⟩
      · have harrived : c.arrived (.task r w) = [] := by simp [arrived, ht, hread]
        rw [harrived]
        exact .none hi (runTask_inputBuffer (c := { c with tasks := ts }) hv hread hrun)
    · have harrived : c'.arrived (.task r w) = [] := by simp [arrived, ht]
      rw [harrived]
      exact .none hi rfl
  | delayedClose =>
    cases h
    refine .none hi ?_
    unfold forceClose
    split_ifs <;> rfl
  | removeConnection =>
    cases h
    exact .none hi rfl
  | doPendingFunctors =>
    cases h
    exact .none hi rfl
  | functor w =>
    obtain ⟨f, fs, -, hrun⟩ | ⟨-, rfl⟩ := functor_inv h
    · exact .none hi (runFunctor_inputBuffer (c := { c with functors := some fs }) hv hrun)
    · exact .none hi rfl
  | destroy => exact .none hi (connectDestroyed_inputBuffer h)

end Input

/-- The socket has accepted the messages that were kept, up to the output buffer, and nothing since it was shut down.
`c₀` is where the connection stood before. -/
structure Outgoing (c₀ c : TcpConnection) : Prop where
  since : c₀.accepted <+: c.accepted
  recorded : ∀ state queued accepted, .shutdownWrite state queued accepted ∈ c₀.trace →
    .shutdownWrite state queued accepted ∈ c.trace
  started : c.state ≠ .kConnecting
  stream : c.stream = c.kept.flatten
  written : ∀ state queued accepted, .shutdownWrite state queued accepted ∈ c.trace → accepted = c.accepted
  drained : c.finished = true → c.live → c.outputBuffer.readable = []

theorem finished_iff (c : TcpConnection) :
    c.finished = true ↔ ∃ state queued accepted, .shutdownWrite state queued accepted ∈ c.trace := by
  rw [finished, List.any_eq_true]
  constructor
  · rintro ⟨e, he, hs⟩
    cases e with
    | shutdownWrite state queued accepted => exact ⟨state, queued, accepted, he⟩
    | _ => cases hs
  · rintro ⟨state, queued, accepted, he⟩
    exact ⟨_, he, rfl⟩

namespace Outgoing

variable {c₀ : TcpConnection}

theorem frame (h : Outgoing c₀ c) (hk : c'.state = .kConnecting → c.state = .kConnecting) (hl : c'.live → c.live)
    (ha : c'.accepted = c.accepted) (hb : c'.outputBuffer = c.outputBuffer) (hd : c'.handed = c.handed)
    (ht : ∀ e : Event, e.isShutdown = true → (e ∈ c'.trace ↔ e ∈ c.trace)) : Outgoing c₀ c' where
  since := ha ▸ h.since
  recorded := fun state queued accepted hm => (ht _ rfl).mpr (h.recorded state queued accepted hm)
  started := fun hs => h.started (hk hs)
  stream := by
    rw [TcpConnection.stream, ha, hb, kept, hd]
    exact h.stream
  written := fun state queued accepted hm => ha ▸ h.written state queued accepted ((ht _ rfl).mp hm)
  drained := fun hf hl' => by
    obtain ⟨state, queued, accepted, hm⟩ := c'.finished_iff.mp hf
    rw [hb]
    exact h.drained (c.finished_iff.mpr ⟨state, queued, accepted, (ht _ rfl).mp hm⟩) (hl hl')

theorem same (h : Outgoing c₀ c) (hs : c'.state = c.state) (ha : c'.accepted = c.accepted)
    (hb : c'.outputBuffer = c.outputBuffer) (hd : c'.handed = c.handed) (ht : c'.trace = c.trace) : Outgoing c₀ c' :=
  h.frame (fun hk => hs ▸ hk) (fun hl => by rwa [live, ← hs]) ha hb hd fun _ _ => by rw [ht]

theorem log (h : Outgoing c₀ c) {e : Event} (he : e.isShutdown = false) : Outgoing c₀ (c.log e) := by
  refine h.frame id id rfl rfl rfl ?_
  intro e' he'
  have hne : e' ≠ e := by
    rintro rfl
    exact absurd (he'.symm.trans he) (by decide)
  simp [TcpConnection.log, hne]

theorem setDisconnecting (h : Outgoing c₀ c) (hl : c.live) : Outgoing c₀ { c with state := .kDisconnecting } :=
  h.frame (fun hk => by cases hk) (fun _ => hl) rfl rfl rfl fun _ _ => Iff.rfl

theorem refl (h : Outgoing c₀ c) : Outgoing c c :=
  ⟨List.prefix_refl _, fun _ _ _ hm => hm, h.started, h.stream, h.written, h.drained⟩

/-- Before the write half is shut down the stream may grow. -/
theorem grow (h : Outgoing c₀ c) (hs : c'.state = c.state) (hst : c'.stream = c'.kept.flatten)
    (ha : c.accepted <+: c'.accepted) (ht : c'.trace = c.trace) (hf : c.finished = false) : Outgoing c₀ c' where
  since := h.since.trans ha
  recorded := ht ▸ h.recorded
  started := hs ▸ h.started
  stream := hst
  written := fun state queued accepted hm => by
    have hfin := c.finished_iff.mpr ⟨state, queued, accepted, ht ▸ hm⟩
    exact absurd (hfin.symm.trans hf) (by decide)
  drained := fun hfin => by
    rw [finished, ht] at hfin
    exact absurd (hfin.symm.trans hf) (by decide)

theorem shutdownInLoop (h : Outgoing c₀ c) (hi : c.live → (c.channel.isWriting = true ↔ c.outputBuffer.readable ≠ [])) :
    Outgoing c₀ c.shutdownInLoop := by
  unfold TcpConnection.shutdownInLoop
  dsimp only
  split_ifs with hw
  · refine ⟨h.since, fun state queued accepted hm => List.mem_append_left _ (h.recorded state queued accepted hm),
      h.started, h.stream, ?_, ?_⟩
    · intro state queued accepted hm
      exact h.written state queued accepted (by simpa [TcpConnection.log] using hm)
    · intro hf hl
      exact h.drained (by simpa [finished, TcpConnection.log, Event.isShutdownWrite] using hf) hl
  · refine ⟨h.since, fun state queued accepted hm =>
      List.mem_append_left _ (List.mem_append_left _ (h.recorded state queued accepted hm)), h.started, h.stream, ?_, ?_⟩
    · intro state queued accepted hm
      simp only [TcpConnection.log, List.append_assoc, List.mem_append, List.mem_cons, List.not_mem_nil, or_false,
        reduceCtorEq, false_or] at hm
      rcases hm with hm | hm
      · exact h.written state queued accepted hm
      · cases hm
        rfl
    · intro _ hl
      by_contra hr
      exact hw ((hi hl).mpr hr)

theorem closed (h : Outgoing c₀ c) : Outgoing c₀ c.closed := by
  refine h.frame (fun hk => by cases hk) (fun hl => ?_) rfl rfl rfl ?_
  · simp [live, TcpConnection.closed] at hl
  · intro e he
    cases e <;> simp_all [TcpConnection.closed, Event.isShutdown]

theorem removed (h : Outgoing c₀ c) : Outgoing c₀ c.removed := by
  refine h.frame id id rfl rfl rfl ?_
  intro e he
  cases e <;> simp_all [TcpConnection.removed, Event.isShutdown]

theorem shutdown (h : Outgoing c₀ c) (hh : HalfClose c) (onLoop : Bool) : Outgoing c₀ (c.shutdown onLoop) := by
  unfold TcpConnection.shutdown
  split_ifs with hs hl
  · have hd := hh.setDisconnecting (Or.inl hs)
    exact (h.setDisconnecting (Or.inl hs)).shutdownInLoop hd.interest
  · exact (h.setDisconnecting (Or.inl hs)).same rfl rfl rfl rfl rfl
  · exact h

theorem forceClose (h : Outgoing c₀ c) : Outgoing c₀ c.forceClose := by
  unfold TcpConnection.forceClose
  split_ifs with hl
  · exact (h.setDisconnecting hl).same rfl rfl rfl rfl rfl
  · exact h

theorem forceCloseWithDelay (h : Outgoing c₀ c) : Outgoing c₀ c.forceCloseWithDelay := by
  unfold TcpConnection.forceCloseWithDelay
  split_ifs with hl
  · exact (h.setDisconnecting hl).same rfl rfl rfl rfl rfl
  · exact h

theorem startReadInLoop (h : Outgoing c₀ c) : Outgoing c₀ c.startReadInLoop := by
  unfold TcpConnection.startReadInLoop
  split_ifs
  · exact h.same rfl rfl rfl rfl rfl
  · exact h

theorem refuse (h : Outgoing c₀ c) (message : List UInt8) {fate : Fate} (hf : fate ≠ .kept) :
    Outgoing c₀ { c with handed := c.handed ++ [(message, fate)] } where
  since := h.since
  recorded := h.recorded
  started := h.started
  stream := by
    have hkept : kept { c with handed := c.handed ++ [(message, fate)] } = c.kept := by simp [kept, hf]
    rw [hkept]
    exact h.stream
  written := h.written
  drained := h.drained

/-- A message is kept before the write half is shut down: from then on every write fails, and drops its message. -/
theorem keep (h : Outgoing c₀ c) (hf : c.finished = false) {message : List UInt8} {n : ℕ} {b : Buffer} {ch : Channel}
    {extra : List Functor} (hk : c.Kept message n b ch extra) : Outgoing c₀ (c.keep message n b ch extra) := by
  refine h.grow rfl ?_ (List.prefix_append _ _) rfl hf
  rw [hk.stream_eq, h.stream]
  simp [kept, TcpConnection.keep]

theorem finished (h : Outgoing c c') (hf : c.finished = true) : c'.finished = true := by
  obtain ⟨state, queued, accepted, hm⟩ := c.finished_iff.mp hf
  exact c'.finished_iff.mpr ⟨state, queued, accepted, h.recorded state queued accepted hm⟩

theorem accepted_eq (h₀ : Outgoing c₀ c) (h : Outgoing c c') (hf : c.finished = true) : c'.accepted = c.accepted := by
  obtain ⟨state, queued, accepted, hm⟩ := c.finished_iff.mp hf
  rw [← h.written state queued accepted (h.recorded state queued accepted hm), h₀.written state queued accepted hm]

variable [Build]

theorem sendInLoop (h : Outgoing c₀ c) (hh : HalfClose c) {data : List UInt8} {len : ℕ} {w : WriteResult}
    (hw : c.finished = true → w = .failed .EPIPE) (hs : c.sendInLoop data len w = .ok c') : Outgoing c₀ c' := by
  obtain ⟨message, -, ⟨-, rfl⟩ | ⟨-, -, rfl⟩ | ⟨hd, hf, n, b, ch, extra, hk, rfl⟩⟩ := sendInLoop_inv hh.valid hs
  · exact h.refuse message (by simp)
  · exact h.refuse message (by simp)
  · refine h.keep ?_ hk
    by_contra hfin
    rw [Bool.not_eq_false] at hfin
    have hl := live_of_ne h.started hd
    have hempty := h.drained hfin hl
    have hwriting : c.channel.isWriting = false := by
      rw [← Bool.not_eq_true]
      exact fun hwr => (hh.interest hl).mp hwr hempty
    exact hf ⟨⟨hwriting, hempty⟩, Or.inl (hw hfin)⟩

theorem handleWrite (h : Outgoing c₀ c) (hh : HalfClose c) {w : WriteResult} (hw : c.finished = true → w = .failed .EPIPE)
    (hs : c.handleWrite w = .ok c') : Outgoing c₀ c' := by
  have hstream := (handleWrite_stream hh.valid hs).2.1
  rcases handleWrite_cases hh.valid w with ⟨-, he⟩ | ⟨-, hne, b, hbv, hsplit, hc⟩
  · cases he.symm.trans hs
    exact h
  · have hfin : c.finished = false := by
      by_contra hfin
      rw [Bool.not_eq_false] at hfin
      exact hne (by rw [hw hfin]; rfl)
    rcases hc with ⟨-, he⟩ | ⟨hb, extra, -, he⟩
    · cases he.symm.trans hs
      exact h.grow rfl (hstream.trans h.stream) (List.prefix_append _ _) rfl hfin
    · let d : TcpConnection := { c with
        accepted := c.accepted ++ writeAccepted c.outputBuffer.readable w
        outputBuffer := b
        channel := c.channel.disableWriting
        pendingFunctors := c.pendingFunctors ++ extra }
      have hd : d.stream = c.stream := by simp [d, TcpConnection.stream, hsplit]
      have hout : Outgoing c₀ d := h.grow rfl (hd.trans h.stream) (List.prefix_append _ _) rfl hfin
      cases he.symm.trans hs
      split_ifs
      · exact hout.shutdownInLoop fun _ => by simp [d, hb]
      · exact hout

theorem connectDestroyed (h : Outgoing c₀ c) (hs : c.connectDestroyed = .ok c') : Outgoing c₀ c' := by
  unfold TcpConnection.connectDestroyed at hs
  split_ifs at hs
  · cases hs
    refine h.frame (fun hk => by cases hk) (fun hl => ?_) rfl rfl rfl ?_
    · simp [live, TcpConnection.log] at hl
    · intro e he
      cases e <;> simp_all [TcpConnection.log, Event.isShutdown]
  · rw [removeChannel_eq hs]
    exact h.removed

theorem call (h : Outgoing c₀ c) (hh : HalfClose c) {onLoop : Bool} {call : Call}
    (hw : ∀ w ∈ (Step.call onLoop call).write, c.finished = true → w = .failed .EPIPE)
    (hs : c.call onLoop call = .ok c') : Outgoing c₀ c' := by
  cases call with
  | send message w =>
    have hsent : Outgoing c₀ { c with sent := c.sent ++ [message.bytes] } := h.same rfl rfl rfl rfl rfl
    have hhsent : HalfClose { c with sent := c.sent ++ [message.bytes] } := hh.same rfl rfl rfl rfl id
    obtain ⟨-, rfl⟩ | ⟨-, ⟨-, data, len, he⟩ | ⟨-, s, rfl⟩⟩ := send_inv hs
    · exact h
    · exact hsent.sendInLoop hhsent (hw w rfl) he
    · exact hsent.same rfl rfl rfl rfl rfl
  | shutdown =>
    cases hs
    exact h.shutdown hh onLoop
  | forceClose =>
    cases hs
    exact h.forceClose
  | forceCloseWithDelay =>
    cases hs
    exact h.forceCloseWithDelay
  | startRead =>
    cases hs
    cases onLoop with
    | true => exact h.startReadInLoop
    | false => exact h.same rfl rfl rfl rfl rfl
  | retrieveInput len =>
    obtain ⟨b, -, hb⟩ := bind_eq_ok.mp hs
    cases hb
    exact h.same rfl rfl rfl rfl rfl

theorem runTask (h : Outgoing c₀ c) (hh : HalfClose c) {r : Buffer.ReadResult} {w : WriteResult} {t : Task}
    (hw : c.finished = true → w = .failed .EPIPE) (hs : c.runTask r w t = .ok c') : Outgoing c₀ c' := by
  have hin (b : Buffer) : Outgoing c₀ { c with inputBuffer := b } := h.same rfl rfl rfl rfl rfl
  obtain ⟨-, hwrite⟩ | rfl | ⟨b, rfl | rfl | ⟨e, he, rfl⟩⟩ := runTask_inv hs
  · exact h.handleWrite hh hw hwrite
  · exact h.removed
  · exact hin b
  · exact (hin b).closed
  · exact (hin b).log he

theorem runFunctor (h : Outgoing c₀ c) (hh : HalfClose c) {w : WriteResult} {f : Functor}
    (hw : c.finished = true → w = .failed .EPIPE) (hs : c.runFunctor w f = .ok c') : Outgoing c₀ c' := by
  obtain ⟨message, rfl, hsend⟩ | ⟨-, ⟨-, rfl⟩ | rfl | hd | (rfl | rfl) | ⟨e, he, rfl⟩⟩ := runFunctor_inv hs
  · exact h.sendInLoop hh hw hsend
  · exact h.shutdownInLoop hh.interest
  · exact h.startReadInLoop
  · exact h.connectDestroyed hd
  · exact h
  · exact h.closed
  · exact h.log he

theorem step (h : Outgoing c₀ c) (hh : HalfClose c) {s : Step}
    (hw : ∀ w ∈ s.write, c.finished = true → w = .failed .EPIPE) (hs : c.step s = .ok c') : Outgoing c₀ c' := by
  cases s with
  | call onLoop call => exact h.call hh hw hs
  | event revents =>
    cases hs
    exact h.same rfl rfl rfl rfl rfl
  | task r w =>
    obtain ⟨t, ts, -, hrun⟩ | ⟨-, rfl⟩ := task_inv hs
    · have hp : Outgoing c₀ { c with tasks := ts } := h.same rfl rfl rfl rfl rfl
      have hhp : HalfClose { c with tasks := ts } := hh.same rfl rfl rfl rfl id
      exact hp.runTask hhp (hw w rfl) hrun
    · exact h
  | delayedClose =>
    cases hs
    have hd : Outgoing c₀ { c with delayedCloses := c.delayedCloses - 1 } := h.same rfl rfl rfl rfl rfl
    exact hd.forceClose
  | removeConnection =>
    cases hs
    have hlog : Outgoing c₀ (c.log .removeConnection) := h.log rfl
    exact hlog.same rfl rfl rfl rfl rfl
  | doPendingFunctors =>
    cases hs
    exact h.same rfl rfl rfl rfl rfl
  | functor w =>
    obtain ⟨f, fs, hf, hrun⟩ | ⟨-, rfl⟩ := functor_inv hs
    · have hp : Outgoing c₀ { c with functors := some fs } := h.same rfl rfl rfl rfl rfl
      have hhp : HalfClose { c with functors := some fs } :=
        hh.same rfl rfl rfl rfl fun hm => by simp only [queue, hf] at hm ⊢; simp_all
      exact hp.runFunctor hhp (hw w rfl) hrun
    · exact h.same rfl rfl rfl rfl rfl
  | destroy => exact h.connectDestroyed hs

end Outgoing

theorem established_inOrder (fd : ℤ) (writeComplete highWater : Bool) (highWaterMark : ℕ) :
    InOrder (established fd writeComplete highWater highWaterMark) [] := by
  constructor <;> simp [established, queue, stream, messages, waiting, waitingOf]

theorem established_outgoing (fd : ℤ) (writeComplete highWater : Bool) (highWaterMark : ℕ) :
    Outgoing (established fd writeComplete highWater highWaterMark)
      (established fd writeComplete highWater highWaterMark) := by
  constructor <;> simp [established, stream, kept, finished, Event.isShutdownWrite]

end TcpConnection

namespace Endpoint

/-- What `readv` has returned is what the application took and what is still in the input buffer. -/
structure Sound (e : Endpoint) : Prop where
  half : TcpConnection.HalfClose e.conn
  outgoing : TcpConnection.Outgoing e.conn e.conn
  valid : e.conn.inputBuffer.Valid
  received : e.received = e.consumed ++ e.conn.inputBuffer.readable

/-- What has come in at `e` is the beginning of what its peer has written, and all of it once the end was seen. -/
structure Hears (e peer : Endpoint) : Prop where
  received : e.received <+: peer.conn.accepted
  eof : e.eof = true → e.received = peer.conn.accepted ∧ (peer.conn.finished = true ∨ peer.closed = true)

variable {e e' peer : Endpoint}

theorem Hears.split (h : e.Hears peer) : e.received ++ e.inFlight peer = peer.conn.accepted := by
  obtain ⟨rest, hrest⟩ := h.received
  rw [inFlight, ← hrest, List.drop_left]

theorem arrived_prefix {s : TcpConnection.Step} (ha : e.Answers peer s) : e.conn.arrived s <+: e.inFlight peer := by
  cases s with
  | task r w =>
    simp only [TcpConnection.arrived]
    split_ifs with ht
    · have hr := ha.2 ht
      cases r with
      | read bytes => exact (List.take_prefix _ _).trans hr.1
      | failed errno => simp [Buffer.taken, Buffer.ReadResult.bytes]
    · exact List.nil_prefix
  | _ => exact List.nil_prefix

theorem ends_input {s : TcpConnection.Step} (ha : e.Answers peer s) (h : e.conn.endsInput s = true) :
    e.inFlight peer = [] ∧ (peer.conn.finished = true ∨ peer.closed = true) := by
  cases s with
  | task r w =>
    obtain ⟨ht, rfl⟩ := of_decide_eq_true h
    exact (ha.2 ht).2 rfl
  | _ => cases h

variable [Build]

theorem step_sound (h : e.Sound) {s : TcpConnection.Step} (ha : e.Answers peer s) (hs : e.step s = .ok e') :
    e'.Sound ∧ TcpConnection.Outgoing e.conn e'.conn := by
  obtain ⟨c, hc, he⟩ := bind_eq_ok.mp hs
  cases he
  have hout := h.outgoing.step h.half ha.1 hc
  obtain ⟨hv, hpass⟩ := TcpConnection.step_passes h.half.valid h.valid hc
  refine ⟨⟨h.half.step hc, hout.refl, hv, ?_⟩, hout⟩
  dsimp only
  rw [h.received, List.append_assoc, hpass, List.append_assoc]

/-- `e` takes a step and reads what its peer has written. -/
theorem step_hears (h : e.Hears peer) {s : TcpConnection.Step} (ha : e.Answers peer s) (hs : e.step s = .ok e') :
    e'.Hears peer := by
  obtain ⟨c, -, he⟩ := bind_eq_ok.mp hs
  cases he
  have harrived := arrived_prefix ha
  refine ⟨?_, ?_⟩
  · rw [← h.split]
    exact (List.prefix_append_right_inj _).mpr harrived
  · intro heof
    have hend : e.inFlight peer = [] ∧ (peer.conn.finished = true ∨ peer.closed = true) := by
      rcases Bool.or_eq_true_iff.mp heof with hold | hnow
      · obtain ⟨hall, hdone⟩ := h.eof hold
        exact ⟨by rw [inFlight, hall, List.drop_length], hdone⟩
      · exact ends_input ha hnow
    have hsplit := h.split
    rw [hend.1] at harrived hsplit
    exact ⟨by rw [List.prefix_nil.mp harrived]; exact hsplit, hend.2⟩

omit [Build] in
/-- The peer takes a step: what it writes comes behind, and after its end it writes nothing. -/
theorem heard_step (h : peer.Hears e) (hsound : e.Sound) (hopen : e.closed = false)
    (hout : TcpConnection.Outgoing e.conn e'.conn) : peer.Hears e' where
  received := h.received.trans hout.since
  eof := fun heof => by
    obtain ⟨hall, hdone⟩ := h.eof heof
    have hfin : e.conn.finished = true := hdone.resolve_right (by simp [hopen])
    exact ⟨hall.trans (hsound.outgoing.accepted_eq hout hfin).symm, Or.inl (hout.finished hfin)⟩

end Endpoint

namespace SocketPair

structure Linked (p : SocketPair) : Prop where
  sound : ∀ side, (p side).Sound
  hears : ∀ side, (p side).Hears (p side.peer)

theorem Linked.update {p : SocketPair} (h : p.Linked) {side : Side} {e : Endpoint} (hs : e.Sound)
    (he : e.Hears (p side.peer)) (hp : (p side.peer).Hears e) : Linked (Function.update p side e) := by
  have hpeer : Function.update p side e side.peer = p side.peer := Function.update_of_ne side.peer_ne _ _
  refine ⟨fun t => ?_, fun t => ?_⟩
  · rcases t.eq_or side with rfl | rfl
    · rwa [Function.update_self]
    · rw [hpeer]
      exact h.sound _
  · rcases t.eq_or side with rfl | rfl
    · rwa [Function.update_self, hpeer]
    · rwa [Side.peer_peer, hpeer, Function.update_self]

/-- Every byte kept at one end is somewhere between it and the application at the other. -/
theorem Linked.accounted {p : SocketPair} (h : p.Linked) (side : Side) :
    (p side).consumed ++ (p side).conn.inputBuffer.readable ++ (p side).inFlight (p side.peer) ++
      (p side.peer).conn.outputBuffer.readable = (p side.peer).conn.kept.flatten := by
  rw [← (h.sound side).received, ← (h.sound side.peer).outgoing.stream, TcpConnection.stream, (h.hears side).split]

section Runs

variable [Build] {p p' : SocketPair}

theorem step_linked (h : p.Linked) {s : Step} (ha : p.Enabled s) (hs : p.step s = .ok p') : p'.Linked := by
  cases s with
  | conn side s =>
    obtain ⟨hopen, -, hanswers⟩ := ha
    obtain ⟨e, he, hp⟩ := bind_eq_ok.mp hs
    cases hp
    obtain ⟨hsound, hout⟩ := Endpoint.step_sound (h.sound side) hanswers he
    have hback : (p side.peer).Hears (p side) := by
      have hb := h.hears side.peer
      rwa [Side.peer_peer] at hb
    exact h.update hsound (Endpoint.step_hears (h.hears side) hanswers he)
      (Endpoint.heard_step hback (h.sound side) hopen hout)
  | close side =>
    obtain ⟨e, he, hp⟩ := bind_eq_ok.mp hs
    cases hp
    have hc := assert_bind_ok he
    cases hc
    have hback : (p side.peer).Hears (p side) := by
      have hb := h.hears side.peer
      rwa [Side.peer_peer] at hb
    have hs := h.sound side
    have hh := h.hears side
    exact h.update ⟨hs.half, hs.outgoing, hs.valid, hs.received⟩ ⟨hh.received, hh.eof⟩
      ⟨hback.received, fun heof => ⟨(hback.eof heof).1, Or.inr rfl⟩⟩

section Established

variable {fd : Side → ℤ} {writeComplete highWater : Side → Bool} {highWaterMark : Side → ℕ} {c₀ : Side → TcpConnection}
  (h₀ : ∀ side, (TcpConnection.create (fd side) (writeComplete side) (highWater side) (highWaterMark side) >>=
    TcpConnection.connectEstablished) = .ok (c₀ side))
include h₀

theorem established_linked : (established c₀).Linked := by
  have hc (side : Side) : c₀ side = TcpConnection.established (fd side) (writeComplete side) (highWater side)
      (highWaterMark side) :=
    Except.ok.inj ((h₀ side).symm.trans (TcpConnection.create_connectEstablished _ _ _ _))
  refine ⟨fun side => ⟨?_, ?_, ?_, ?_⟩, fun side => ⟨List.nil_prefix, fun h => by cases h⟩⟩
  · rw [established, hc side]
    exact TcpConnection.established_halfClose _ _ _ _
  · rw [established, hc side]
    exact TcpConnection.established_outgoing _ _ _ _
  · rw [established, hc side]
    exact Buffer.initial_valid TcpConnection.initialSize_le
  · simp [established, hc side, TcpConnection.established]

theorem run_linked {steps : List Step} (h : Path step Enabled (established c₀) steps p) : p.Linked :=
  h.invariant (established_linked h₀) fun _ _ _ ht ha hs => step_linked ht ha hs

/-- Where every byte given to one connection is, in order: with the application at the other end, in its input
buffer, on the way, or in the output buffer. Once the end of the stream is seen, all of it has arrived, unless the
sender is torn down. -/
theorem delivered {steps : List Step} (h : Path step Enabled (established c₀) steps p) (side : Side) :
    (p side).consumed ++ (p side).conn.inputBuffer.readable ++ (p side).inFlight (p side.peer) ++
        (p side.peer).conn.outputBuffer.readable = (p side.peer).conn.kept.flatten ∧
      ((p side).eof = true → (p side.peer).closed = false → (p side.peer).conn.live →
        (p side).consumed ++ (p side).conn.inputBuffer.readable = (p side.peer).conn.kept.flatten) := by
  have hl := run_linked h₀ h
  refine ⟨hl.accounted side, ?_⟩
  intro heof hopen hlive
  have hpeer := hl.sound side.peer
  obtain ⟨hall, hdone⟩ := (hl.hears side).eof heof
  have hfin : (p side.peer).conn.finished = true := hdone.resolve_right (by simp [hopen])
  rw [← (hl.sound side).received, ← hpeer.outgoing.stream, TcpConnection.stream, hpeer.outgoing.drained hfin hlive,
    List.append_nil, hall]

/-- The steps of one end let no message be overtaken. -/
def OrderedAt (p : SocketPair) (side : Side) : Step → Prop
  | .conn t s => t = side → (p t).conn.Ordered s
  | .close _ => True

instance (p : SocketPair) (side : Side) : (s : Step) → Decidable (p.OrderedAt side s)
  | .conn _ _ => inferInstanceAs (Decidable (_ → _))
  | .close _ => inferInstanceAs (Decidable True)

omit h₀ in
theorem step_inOrder {side : Side} (hl : p.Linked) (h : (p side).conn.InOrder []) {s : Step} (he : p.Enabled s)
    (ho : p.OrderedAt side s) (hs : p.step s = .ok p') : (p' side).conn.InOrder [] := by
  cases s with
  | conn t s =>
    obtain ⟨e, hstep, hp⟩ := bind_eq_ok.mp hs
    cases hp
    by_cases ht : t = side
    · subst ht
      obtain ⟨c, hc, he'⟩ := bind_eq_ok.mp hstep
      cases he'
      rw [Function.update_self]
      exact TcpConnection.step_inOrder (hl.sound t).half h he.2.1 (ho rfl) hc
    · rwa [Function.update_of_ne (Ne.symm ht)]
  | close t =>
    obtain ⟨e, hstep, hp⟩ := bind_eq_ok.mp hs
    cases hp
    cases assert_bind_ok hstep
    by_cases ht : t = side
    · subst ht
      rwa [Function.update_self]
    · rwa [Function.update_of_ne (Ne.symm ht)]

/-- The sender's messages arrive whole, each once and in one order, when it has shut its socket down and the end of
the stream is seen. -/
theorem everything_sent_arrives {steps : List Step} {side : Side}
    (h : Path step (fun p s => p.Enabled s ∧ p.OrderedAt side s) (established c₀) steps p)
    (heof : (p side.peer).eof = true) (hfin : (p side).conn.finished = true) :
    ∃ order : List (List UInt8), order.Perm (p side).conn.sent ∧
      (p side.peer).consumed ++ (p side.peer).conn.inputBuffer.readable = order.flatten := by
  have hstart : (established c₀ side).conn.InOrder [] := by
    have hc := (h₀ side).symm.trans (TcpConnection.create_connectEstablished _ _ _ _)
    rw [established, Except.ok.inj hc]
    exact TcpConnection.established_inOrder _ _ _ _
  have hinv : p.Linked ∧ (p side).conn.InOrder [] :=
    h.invariant (P := fun p => p.Linked ∧ (p side).conn.InOrder []) ⟨established_linked h₀, hstart⟩
      fun t s u ht ha hs => ⟨step_linked ht.1 ha.1 hs, step_inOrder ht.1 ht.2 ha.1 ha.2 hs⟩
  obtain ⟨hl, hin⟩ := hinv
  obtain ⟨state, queued, accepted, hm⟩ := (p side).conn.finished_iff.mp hfin
  obtain ⟨order, hperm, heq⟩ := hin.complete state queued accepted hm
  have hall := ((hl.hears side.peer).eof heof).1
  rw [Side.peer_peer] at hall
  refine ⟨order, hperm, ?_⟩
  rw [← (hl.sound side.peer).received, hall, ← (hl.sound side).outgoing.written state queued accepted hm, heq]

end Established

end Runs

/-- A short write, a shutdown that waits for the rest, and a reader that takes the bytes in two pieces. -/
theorem delivered_in_pieces :
    letI := Build.debug
    let c₀ := TcpConnection.established 7 false false 67108864
    let steps : List Step := [.conn .left (.call true (.send (.memory [1, 2, 3] 3) (.wrote 2))),
      .conn .left (.call true .shutdown), .conn .right (.event POLLIN),
      .conn .right (.task (.read [1, 2]) (.wrote 0)), .conn .right (.call true (.retrieveInput 1)),
      .conn .left (.event POLLOUT), .conn .left (.task (.failed 0) (.wrote 9)), .conn .right (.event POLLIN),
      .conn .right (.task (.read [3]) (.wrote 0)), .conn .right (.event POLLIN),
      .conn .right (.task (.read []) (.wrote 0))]
    ∃ p, Path step Enabled (established fun _ => c₀) steps p ∧ (p .right).eof = true ∧
      (p .right).consumed ++ (p .right).conn.inputBuffer.readable = (p .left).conn.kept.flatten := by
  intro c₀ steps
  let _ := Build.debug
  obtain ⟨p, hp, hd⟩ := Path.exists_of_any step Enabled (established fun _ => c₀) steps
    (fun p => decide ((p .right).eof = true ∧ (p .left).closed = false ∧ (p .left).conn.live)) (by decide +kernel)
  obtain ⟨heof, hopen, hlive⟩ := of_decide_eq_true hd
  exact ⟨p, hp, heof, (delivered (fun _ => TcpConnection.create_connectEstablished 7 false false 67108864) hp
    .right).2 heof hopen hlive⟩

/-- A thread and the loop of the left end send, a third call shuts down, and the right end reads to the end. -/
theorem everything_sent_arrives_queued :
    letI := Build.debug
    let c₀ := TcpConnection.established 7 false false 67108864
    let steps : List Step := [.conn .left (.call true (.send (.memory [1, 0] 2) (.wrote 1))),
      .conn .left (.call false (.send (.string [3]) (.wrote 0))), .conn .left (.call false .shutdown),
      .conn .left .doPendingFunctors, .conn .left (.functor (.wrote 0)), .conn .left (.functor (.wrote 0)),
      .conn .left (.functor (.wrote 0)), .conn .left (.event POLLOUT), .conn .left (.task (.failed 0) (.wrote 9)),
      .conn .right (.event POLLIN), .conn .right (.task (.read [1, 0, 3]) (.wrote 0)),
      .conn .right (.event POLLIN), .conn .right (.task (.read []) (.wrote 0))]
    ∃ p, Path step (fun p s => p.Enabled s ∧ p.OrderedAt .left s) (established fun _ => c₀) steps p ∧
      ∃ order : List (List UInt8), order.Perm (p .left).conn.sent ∧
        (p .right).consumed ++ (p .right).conn.inputBuffer.readable = order.flatten := by
  intro c₀ steps
  let _ := Build.debug
  obtain ⟨p, hp, hd⟩ := Path.exists_of_any step (fun p s => p.Enabled s ∧ p.OrderedAt .left s)
    (established fun _ => c₀) steps (fun p => decide ((p .right).eof = true ∧ (p .left).conn.finished = true))
    (by decide +kernel)
  obtain ⟨heof, hfin⟩ := of_decide_eq_true hd
  exact ⟨p, hp, everything_sent_arrives
    (fun _ => TcpConnection.create_connectEstablished 7 false false 67108864) hp heof hfin⟩

end SocketPair

end Networker
