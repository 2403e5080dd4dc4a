import Networker.ConnectionLifecycle

namespace Networker.TcpConnection

open CheckedRuns EPollPoller

/-- The calls user code makes from the down callback, or another thread meanwhile. -/
def Call.leavesDown : Call → Bool
  | .send _ _ | .shutdown | .forceClose | .forceCloseWithDelay => true
  | .startRead | .retrieveInput _ => false

section Teardown

variable [Build]

/-- `connectDestroyed` as a whole. In `kConnected` it invokes the connection callback, with `calls` made before it
returns, and then takes the channel out of the poller. -/
def teardown (c : TcpConnection) (calls : List (Bool × Call)) : Exec TcpConnection :=
  if c.state = .kConnected then
    c.connectDestroyed >>= fun c =>
      run step c (calls.map (fun x => .call x.1 x.2) ++ [.task (.failed 0) (.wrote 0)])
  else c.connectDestroyed

/-- The connection ends down, its channel was removed with no events and while the poller knew it, and the user was
told once. -/
def TornDown : Exec TcpConnection → Prop
  | .ok c => c.state = .kDisconnected ∧ c.trace.getLast? = some (.remove true true) ∧ c.channel.index = kNew ∧
      c.trace.count (.connectionCallback false) = 1
  | .error _ => False

instance : (r : Exec TcpConnection) → Decidable (TornDown r)
  | .ok _ => inferInstanceAs (Decidable (_ ∧ _ ∧ _ ∧ _))
  | .error _ => inferInstanceAs (Decidable False)

variable {c : TcpConnection}

theorem call_down (hd : c.state = .kDisconnected) (onLoop : Bool) {call : Call} (hc : call.leavesDown = true) :
    c.call onLoop call = .ok c := by
  have hn : c.state ≠ .kConnected := by simp [hd]
  have hl : ¬c.live := by simp [live, hd]
  cases call with
  | send message w =>
    simp only [TcpConnection.call, send, if_neg hn]
    cases message with
    | string s => simp only [sendPiece, if_neg hn]
    | memory data len => simp only [sendMemory, sendPiece, if_neg hn]
    | buffer buf => simp only [sendBuffer, if_neg hn, ok_bind]
  | shutdown => simp only [TcpConnection.call, shutdown, if_neg hn]
  | forceClose => simp only [TcpConnection.call, forceClose, if_neg hl]
  | forceCloseWithDelay => simp only [TcpConnection.call, forceCloseWithDelay, if_neg hl]
  | startRead => cases hc
  | retrieveInput len => cases hc

theorem run_calls_down (hd : c.state = .kDisconnected) {calls : List (Bool × Call)}
    (hcalls : ∀ x ∈ calls, x.2.leavesDown = true) (s : Step) :
    run step c (calls.map (fun x => .call x.1 x.2) ++ [s]) = c.step s := by
  induction calls with
  | nil =>
    simp only [List.map_nil, List.nil_append, run]
    cases c.step s <;> rfl
  | cons x calls ih =>
    simp only [List.map_cons, List.cons_append, run, step]
    rw [call_down hd x.1 (hcalls x (by simp)), ok_bind]
    exact ih fun y hy => hcalls y (by simp [hy])

theorem removeChannel_ok (hn : c.channel.isNoneEvent = true) (hi : c.channel.index ≠ kNew) :
    c.removeChannel = .ok c.removed := by
  unfold removeChannel
  dsimp only [log]
  rw [assert_pos hn, ok_bind, assert_pos hi, ok_bind]
  rfl

theorem removed_tornDown (hd : c.state = .kDisconnected) (hn : c.channel.isNoneEvent = true)
    (hi : c.channel.index ≠ kNew) (hc : c.trace.count (.connectionCallback false) = 1) :
    TornDown c.removeChannel := by
  rw [removeChannel_ok hn hi]
  exact ⟨hd, by simp [removed, hn, hi], rfl, by simp [removed, hc]⟩

theorem teardown_connected (h : Lifecycle c) (hs : c.state = .kConnected) {calls : List (Bool × Call)}
    (hcalls : ∀ x ∈ calls, x.2.leavesDown = true) : TornDown (c.teardown calls) := by
  have hu := h.up (Or.inl hs)
  have hi := c.channel.disableAll_index hu.index
  let d : TcpConnection := { c with
    state := .kDisconnected
    channel := c.channel.disableAll
    trace := c.trace ++ [.connectionCallback false]
    tasks := .remove :: c.tasks }
  have hd : c.connectDestroyed = .ok d := by
    simp only [connectDestroyed, if_pos hs]
    rfl
  rw [teardown, if_pos hs, hd, ok_bind, run_calls_down (c := d) rfl hcalls]
  apply removed_tornDown (c := { d with tasks := c.tasks }) rfl rfl
  · simp [d, hi, kDeleted, kNew]
  · simp [d, trace_count c (e := .connectionCallback false) rfl, hu.lifecycle]

theorem teardown_disconnected (h : Lifecycle c) (hs : c.state = .kDisconnected) (calls : List (Bool × Call))
    (hfirst : ∀ noneEvent registered, .remove noneEvent registered ∉ c.trace) : TornDown (c.teardown calls) := by
  have hn : c.state ≠ .kConnected := by simp [hs]
  have hd := h.down (by simp [live, hs])
  have hi : c.channel.index ≠ kNew := by
    apply h.registered.resolve_right
    rintro ⟨noneEvent, registered, hm⟩
    exact hfirst noneEvent registered hm
  rw [teardown, if_neg hn, connectDestroyed, if_neg hn]
  apply removed_tornDown hs hd.none hi
  rw [trace_count c (e := .connectionCallback false) rfl]
  obtain ⟨state, rest, -, hlc, rfl | ⟨-, rfl | rfl⟩⟩ := hd.lifecycle
  · simp [hlc]
  · simp [hlc]
  · simp [hlc]

/-- Half-closed connections are removed as they are: still registered for reading and still `kDisconnecting`. -/
theorem teardown_disconnecting (hs : c.state = .kDisconnecting) (calls : List (Bool × Call)) :
    ¬TornDown (c.teardown calls) := by
  have hn : c.state ≠ .kConnected := by simp [hs]
  rw [teardown, if_neg hn, connectDestroyed, if_neg hn]
  cases hr : c.removeChannel with
  | error e => exact id
  | ok c' =>
    rintro ⟨hd, -⟩
    rw [removeChannel_eq hr] at hd
    exact absurd (hs.symm.trans hd) (by decide)

theorem teardown_complete_iff {fd : ℤ} {writeComplete highWater : Bool} {highWaterMark : ℕ} {c₀ : TcpConnection}
    (h₀ : (create fd writeComplete highWater highWaterMark >>= connectEstablished) = .ok c₀) {steps : List Step}
    (h : Path step (fun c s => c.Enabled s ∧ c.ClosesOnce s) c₀ steps c)
    (hfirst : ∀ noneEvent registered, .remove noneEvent registered ∉ c.trace) {calls : List (Bool × Call)}
    (hcalls : ∀ x ∈ calls, x.2.leavesDown = true) :
    TornDown (c.teardown calls) ↔ c.state ≠ .kDisconnecting := by
  have hlc := run_lifecycle h₀ h
  cases hs : c.state with
  | kDisconnected => simpa using teardown_disconnected hlc hs calls hfirst
  | kConnecting => exact absurd hs hlc.state
  | kConnected => simpa using teardown_connected hlc hs hcalls
  | kDisconnecting => simpa using teardown_disconnecting hs calls

end Teardown

/-- The server goes away while bytes wait to be written; the callback tries to send and to close once more. -/
theorem teardown_complete_iff_connected :
    letI := Build.debug
    let steps : List Step := [.call true (.send (.memory [1, 2, 3] 3) (.wrote 1)), .call false .startRead]
    let calls : List (Bool × Call) := [(true, .send (.string [4]) (.wrote 1)), (false, .forceClose)]
    ∃ c, Path step (fun c s => c.Enabled s ∧ c.ClosesOnce s) (established 7 false false 67108864) steps c ∧
      TornDown (c.teardown calls) := by
  intro steps calls
  let _ := Build.debug
  obtain ⟨c, hc, hp⟩ := Path.exists_of_any step (fun c s => c.Enabled s ∧ c.ClosesOnce s)
    (established 7 false false 67108864) steps
    (fun c => decide (c.state = .kConnected ∧ c.trace = [.connectionCallback true])) (by decide +kernel)
  have ⟨hs, ht⟩ := of_decide_eq_true hp
  exact ⟨c, hc, (teardown_complete_iff (create_connectEstablished 7 false false 67108864) hc (by simp [ht])
    (by decide)).mpr (by simp [hs])⟩

/-- The server goes away while a connection it has shut down waits for the peer. -/
theorem teardown_after_shutdown :
    letI := Build.release
    ∃ c, Path step Enabled (established 7 false false 67108864) [.call true .shutdown] c ∧
      ¬TornDown (c.teardown []) := by
  let _ := Build.release
  obtain ⟨c, hc, hp⟩ := Path.exists_of_any step Enabled (established 7 false false 67108864) [.call true .shutdown]
    (fun c => decide (¬TornDown (c.teardown []))) (by decide +kernel)
  exact ⟨c, hc, of_decide_eq_true hp⟩

end Networker.TcpConnection
