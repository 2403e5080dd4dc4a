import Networker.ConnectorSockets
import Networker.TcpClientModel

/-!
`stop()` is final. Each of the two `connect_` flags is set again by one call only: the
client's by `connect()`, the connector's by `start()` and by the `restart()` that the
client's flag guards.
-/

namespace Networker

open CheckedRuns Descriptors

section Connector

namespace Connector

/-- It has been told to stop, and had created and handed out these sockets by then. -/
structure Dormant (created : ℕ) (handed : List ℕ) (s : Connector) : Prop where
  connect_ : s.connect_ = false
  created : s.files.created = created
  handed : s.files.handed = handed

variable {s t : Connector} {n : ℕ} {l : List ℕ}

theorem Dormant.stop (h : Dormant n l s) : Dormant n l s.stop := ⟨rfl, h.created, h.handed⟩

theorem Dormant.close (h : Dormant n l s) (sockfd : ℕ) : Dormant n l (s.close sockfd) := by
  constructor
  · exact h.connect_
  · exact (close_created _ _).trans h.created
  · exact (close_handed _ _).trans h.handed

theorem Dormant.retry (h : Dormant n l s) (sockfd : ℕ) : Dormant n l (s.retry sockfd) := by
  have hc := h.close sockfd
  have hoff : ¬(s.close sockfd).connect_ = true := by simp [hc.connect_]
  simp only [Connector.retry, if_neg hoff]
  exact ⟨hc.connect_, hc.created, hc.handed⟩

theorem Dormant.abandons (h : Dormant n l s) (ht : s.Abandons t) : Dormant n l t := by
  obtain ⟨c, sockfd, state, rfl⟩ := ht
  apply Dormant.retry
  exact ⟨h.connect_, h.created, h.handed⟩

variable [Build]

theorem Dormant.startInLoop (h : Dormant n l s) {r : Attempt} (he : s.startInLoop r = .ok t) : Dormant n l t := by
  have hoff : ¬(s.log (.startInLoop s.state_)).connect_ = true := by simp [log, h.connect_]
  have he := assert_bind_ok he
  rw [if_neg hoff] at he
  cases he
  exact ⟨h.connect_, h.created, h.handed⟩

theorem Dormant.stopInLoop (h : Dormant n l s) (he : s.stopInLoop = .ok t) : Dormant n l t := by
  obtain rfl | ⟨-, ht⟩ := stopInLoop_ok he
  · exact h
  · exact h.abandons ht

theorem Dormant.handleError (h : Dormant n l s) (he : s.handleError = .ok t) : Dormant n l t := by
  obtain rfl | ⟨-, ht⟩ := handleError_ok he
  · exact h
  · exact h.abandons ht

theorem Dormant.handleWrite (h : Dormant n l s) {o : Outcome} (he : s.handleWrite o = .ok t) : Dormant n l t := by
  obtain rfl | ⟨-, ht | ⟨c, sockfd, u, rfl, ⟨hon, -⟩ | ⟨-, rfl⟩⟩⟩ := handleWrite_ok he
  · exact h
  · exact h.abandons ht
  · rw [h.connect_] at hon
    cases hon
  · apply Dormant.close
    exact ⟨h.connect_, h.created, h.handed⟩

theorem Dormant.event (h : Dormant n l s) {revents : BitVec 32} {o : Outcome}
    (he : s.step (.event revents o) = .ok t) : Dormant n l t := by
  apply handleEvent_preserves _ _ he h
  · exact fun _ _ hd => hd.handleError
  · exact fun _ _ hd => hd.handleWrite

theorem Dormant.functor (h : Dormant n l s) {r : Attempt} (he : s.step (.functor r) = .ok t) : Dormant n l t := by
  unfold Connector.step at he
  cases hq : s.pending with
  | nil =>
    simp only [hq] at he
    cases he
    exact h
  | cons f pending =>
    simp only [hq] at he
    have hs : Dormant n l { s with pending } := ⟨h.connect_, h.created, h.handed⟩
    cases f with
    | startInLoop => exact hs.startInLoop he
    | stopInLoop => exact hs.stopInLoop he
    | resetChannel =>
      rw [resetChannel_ok he]
      exact ⟨hs.connect_, hs.created, hs.handed⟩

theorem Dormant.timer (h : Dormant n l s) {i : ℕ} {r : Attempt} (he : s.step (.timer i r) = .ok t) :
    Dormant n l t := by
  have hs : Dormant n l { s with timers := s.timers.eraseIdx i } := ⟨h.connect_, h.created, h.handed⟩
  exact hs.startInLoop he

theorem Dormant.startInLoop_congr (h : Dormant n l s) (r r' : Attempt) : s.startInLoop r = s.startInLoop r' := by
  simp [Connector.startInLoop, log, h.connect_]

theorem Dormant.functor_congr (h : Dormant n l s) (r r' : Attempt) : s.step (.functor r) = s.step (.functor r') := by
  unfold Connector.step
  cases s.pending with
  | nil => rfl
  | cons f pending =>
    have hs : Dormant n l { s with pending } := ⟨h.connect_, h.created, h.handed⟩
    cases f with
    | startInLoop => exact hs.startInLoop_congr r r'
    | stopInLoop => rfl
    | resetChannel => rfl

theorem Dormant.timer_congr (h : Dormant n l s) (i : ℕ) (r r' : Attempt) :
    s.step (.timer i r) = s.step (.timer i r') := by
  have hs : Dormant n l { s with timers := s.timers.eraseIdx i } := ⟨h.connect_, h.created, h.handed⟩
  exact hs.startInLoop_congr r r'

end Connector

end Connector

namespace TcpClient

open Connector (Attempt Outcome Dormant)

def Step.isConnect : Step → Bool
  | .connect _ _ => true
  | _ => false

/-- The same step with another answer of `socket(2)` and `connect(2)`. -/
def Step.withAttempt (r : Attempt) : Step → Step
  | .connect isInLoopThread _ => .connect isInLoopThread r
  | .functor _ => .functor r
  | .timer i _ => .timer i r
  | .removeConnection conn _ => .removeConnection conn r
  | i => i

/-- `stop()` has been called, and no `connect()` since. -/
structure Stopped (created : ℕ) (handed : List ℕ) (c : TcpClient) : Prop where
  connect_ : c.connect_ = false
  connector : Dormant created handed c.connector_

section Steps

variable [Build] {c t : TcpClient} {n : ℕ} {l : List ℕ}

theorem Stopped.removeConnection (h : Stopped n l c) {conn : Connection} {r : Attempt}
    (he : c.removeConnection conn r = .ok t) : Stopped n l t := by
  have he := assert_bind_ok he
  dsimp only at he
  rw [h.connect_, Bool.and_false, if_neg Bool.false_ne_true] at he
  cases he
  exact ⟨rfl, h.connector⟩

theorem Stopped.handleEvent (h : Stopped n l c) {revents : BitVec 32} {o : Outcome} {ipPort : List Char}
    (he : c.handleEvent revents o ipPort = .ok t) : Stopped n l t := by
  obtain ⟨connector, hu, ht⟩ := bind_eq_ok.mp he
  have hd := h.connector.event hu
  have hsame : connector.files.handed.length = c.connector_.files.handed.length := by
    rw [hd.handed, h.connector.handed]
  dsimp only at ht
  rw [if_pos hsame] at ht
  cases ht
  exact ⟨h.connect_, hd⟩

theorem Stopped.step (h : Stopped n l c) {i : Step} (hi : i.isConnect = false) (he : c.step i = .ok t) :
    Stopped n l t := by
  cases i with
  | connect => cases hi
  | disconnect =>
    cases he
    exact ⟨rfl, h.connector⟩
  | stop =>
    cases he
    exact ⟨rfl, h.connector.stop⟩
  | enableRetry =>
    cases he
    exact ⟨h.connect_, h.connector⟩
  | functor r =>
    obtain ⟨connector, hu, ht⟩ := bind_eq_ok.mp he
    cases ht
    exact ⟨h.connect_, h.connector.functor hu⟩
  | timer i r =>
    obtain ⟨connector, hu, ht⟩ := bind_eq_ok.mp he
    cases ht
    exact ⟨h.connect_, h.connector.timer hu⟩
  | event revents o ipPort => exact h.handleEvent he
  | removeConnection conn r => exact h.removeConnection he
  | destroyed conn =>
    cases he
    exact ⟨h.connect_, h.connector.connect_, h.connector.created, h.connector.handed⟩

/-- `Connector::connect` is not reached, whether or not the step goes through. -/
theorem Stopped.step_withAttempt (h : Stopped n l c) {i : Step} (hi : i.isConnect = false) (r : Attempt) :
    c.step (i.withAttempt r) = c.step i := by
  cases i with
  | connect => cases hi
  | functor r' => simp only [Step.withAttempt, TcpClient.step, h.connector.functor_congr r r']
  | timer i r' => simp only [Step.withAttempt, TcpClient.step, h.connector.timer_congr i r r']
  | removeConnection conn r' => simp [Step.withAttempt, TcpClient.step, TcpClient.removeConnection, h.connect_]
  | disconnect => rfl
  | stop => rfl
  | enableRetry => rfl
  | event revents o ipPort => rfl
  | destroyed conn => rfl

end Steps

/-- After `stop()`, and until `connect()` is called again, no step asks for a socket, succeeds in creating one, or
hands one out. -/
theorem stop_is_final [Build] {c t : TcpClient} {steps : List Step}
    (h : Path step (fun c i => c.Enabled i ∧ i.isConnect = false) c.stop steps t) :
    t.connector_.files.created = c.connector_.files.created ∧
      t.connector_.files.handed = c.connector_.files.handed ∧
      ∀ i r, i.isConnect = false → t.step (i.withAttempt r) = t.step i := by
  have ht : Stopped c.connector_.files.created c.connector_.files.handed t := by
    apply h.invariant
    · exact ⟨rfl, rfl, rfl, rfl⟩
    · intro u i v hu hi hv
      exact hu.step hi.2 hv
  exact ⟨ht.connector.created, ht.connector.handed, fun i r hi => ht.step_withAttempt hi r⟩

theorem stop_is_final_retrying :
    letI := Build.release
    let none : Attempt := ⟨none, .success⟩
    let conn : Connection := { id := 1, name := "echo:10.0.0.1:7#1".toList, sockfd := 3 }
    let before : List Step := [.enableRetry, .connect true ⟨some 3, .EINPROGRESS⟩,
      .event POLLOUT {} "10.0.0.1:7".toList, .functor none, .removeConnection conn ⟨some 4, .ECONNREFUSED⟩]
    let after : List Step := [.timer 0 ⟨some 5, .EINPROGRESS⟩, .functor none, .destroyed conn]
    ∃ c t : TcpClient, Path step Enabled { name_ := "echo".toList } before c ∧ c.connector_.files.created = 2 ∧
      Path step (fun c i => c.Enabled i ∧ i.isConnect = false) c.stop after t ∧
      t.connector_.files.created = 2 ∧ t.connector_.files.handed = [0] := by
  intro none conn before after
  let _ := Build.release
  obtain ⟨c, hc, hp⟩ := Path.exists_of_any step Enabled { name_ := "echo".toList } before
    (fun u : TcpClient => u.connector_.files.created = 2 ∧ u.connector_.files.handed = [0] ∧
      (guardedRun step (fun c i => c.Enabled i ∧ i.isConnect = false) u.stop after).isSome) (by decide +kernel)
  obtain ⟨hcreated, hhanded, hrun⟩ := of_decide_eq_true hp
  obtain ⟨t, ht⟩ := Option.isSome_iff_exists.mp hrun
  obtain ⟨hc', hh', -⟩ := stop_is_final (.of_guardedRun ht)
  exact ⟨c, t, hc, hcreated, .of_guardedRun ht, hc'.trans hcreated, hh'.trans hhanded⟩

end TcpClient

end Networker
