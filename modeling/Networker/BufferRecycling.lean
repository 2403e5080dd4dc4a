import Mathlib.Data.List.Nodup
import Networker.BufferRotation

/-!
The recycling of the buffers of `AsyncLogging` needs nothing of the lines: a line that
fits into no buffer is left out, but the buffers change hands as with any other.
-/

namespace Networker.AsyncLogging

open CheckedRuns

/-- `Enabled`, with lines of any length. -/
def Callable (s : AsyncLogging) : Step → Prop
  | .append _ => True
  | .threadFunc => s.Enabled .threadFunc
  | .stop => s.Enabled .stop
  | .join => s.Enabled .join

instance (s : AsyncLogging) : (i : Step) → Decidable (s.Callable i)
  | .append _ => inferInstanceAs (Decidable True)
  | .threadFunc => inferInstanceAs (Decidable (s.Enabled .threadFunc))
  | .stop => inferInstanceAs (Decidable (s.Enabled .stop))
  | .join => inferInstanceAs (Decidable (s.Enabled .join))

/-- The pointer is not null, and the buffer has no data. -/
def HoldsEmpty (s : AsyncLogging) (p : Option ℕ) : Prop := ∃ n, p = some n ∧ (s.heap n).length = 0

section Recycling

variable {s t : AsyncLogging}

theorem Recycling.spare_empty (h : Recycling s) {p : ℕ}
    (hp : p ∈ s.nextBuffer.toList ++ s.newBuffer1.toList ++ s.newBuffer2.toList) : (s.heap p).length = 0 := by
  simp [FixedBuffer.length, FixedBuffer.data, h.spare p hp]

theorem Recycling.holdsEmpty (h : Recycling s) {p : Option ℕ} (hsome : p.isSome = true)
    (hp : ∀ n ∈ p.toList, n ∈ s.nextBuffer.toList ++ s.newBuffer1.toList ++ s.newBuffer2.toList) : s.HoldsEmpty p := by
  obtain ⟨n, rfl⟩ := Option.isSome_iff_exists.mp hsome
  exact ⟨n, rfl, h.spare_empty (hp n (by simp))⟩

theorem Recycling.roles_nodup (h : Recycling s) : s.roles.Nodup :=
  List.nodup_iff_count_le_one.mpr h.distinct

-- the test of `running_` is made at the top of the loop, and the critical section follows it
theorem Recycling.top_of_loop (h : Recycling s) (hp : s.phase = .test ∨ s.phase = .enter) :
    s.HoldsEmpty s.newBuffer1 ∧ s.HoldsEmpty s.newBuffer2 ∧ s.buffersToWrite = [] := by
  have hstage : s.newBuffer1.isSome = true ∧ s.newBuffer2.isSome = true ∧ s.buffersToWrite = [] := by
    have hs := h.stage
    rcases hp with hp | hp <;> simpa only [Stage, hp] using hs
  obtain ⟨h₁, h₂, hw⟩ := hstage
  exact ⟨h.holdsEmpty h₁ (by simp +contextual), h.holdsEmpty h₂ (by simp +contextual), hw⟩

variable [Build]

theorem Recycling.step {i : Step} (h : Recycling s) (hc : s.Callable i) (hs : s.step i = .ok t) : Recycling t := by
  cases i with
  | append logline => exact h.append hs
  | threadFunc => exact h.threadFunc (threadFunc_inv hs hc)
  | stop =>
    cases hs
    exact { h with }
  | join =>
    cases hs
    exact { h with }

theorem run_recycling {steps : List Step} (h : Path step Callable {} steps s) : Recycling s :=
  h.invariant Recycling.initial fun _ _ _ hu hc hs => hu.step hc hs

/-- The overload branch goes on to the writes with a batch from which both spare buffers can be refilled. -/
theorem Recycling.overload_refills (h : Recycling s) (hp : s.phase = .swapped) :
    ∃ t, s.overload = .ok t ∧ t.phase = .write 0 ∧
      t.buffersToWrite.length = (if 25 < s.buffersToWrite.length then 2 else s.buffersToWrite.length) ∧ t.Refills := by
  obtain ⟨-, hne, -⟩ := h.after_swap (Or.inl hp)
  obtain ⟨t, ht⟩ : ∃ t, s.overload = .ok t := by
    simp only [AsyncLogging.overload, assert_pos hne, ok_bind]
    exact ⟨_, rfl⟩
  have hthread : s.threadFunc = .ok t := by
    simp only [AsyncLogging.threadFunc, hp]
    exact ht
  have hr := h.threadFunc (threadFunc_inv hthread (by simp [hp]))
  have hphase : t.phase = .write 0 ∧
      t.buffersToWrite.length = if 25 < s.buffersToWrite.length then 2 else s.buffersToWrite.length := by
    simp only [AsyncLogging.overload, assert_pos hne, ok_bind] at ht
    cases ht
    split_ifs with hmany
    · exact ⟨rfl, by simp only [List.length_take]; omega⟩
    · exact ⟨rfl, rfl⟩
  exact ⟨t, ht, hphase.1, hphase.2, hr.refills hphase.1⟩

/-- No buffer has two roles or is handed out with lines in it, and the back end gets its two spare buffers back. -/
theorem buffers_recycled {steps : List Step} (h : Path step Callable {} steps s) :
    ((s.phase = .test ∨ s.phase = .enter) →
        s.HoldsEmpty s.newBuffer1 ∧ s.HoldsEmpty s.newBuffer2 ∧ s.buffersToWrite = []) ∧
      (∃ p, s.currentBuffer = some p) ∧
      (s.nextBuffer = none → s.buffers ≠ []) ∧ (s.nextBuffer.isSome = true → s.HoldsEmpty s.nextBuffer) ∧
      s.roles.Nodup ∧
      (∀ i, s.phase = .write i → s.Refills) ∧
      (s.phase = .swapped → ∃ t, s.overload = .ok t ∧ t.phase = .write 0 ∧
        t.buffersToWrite.length = (if 25 < s.buffersToWrite.length then 2 else s.buffersToWrite.length) ∧ t.Refills) := by
  have hr := run_recycling h
  refine ⟨hr.top_of_loop, hr.current, hr.next, ?_, hr.roles_nodup, fun i hp => hr.refills hp, hr.overload_refills⟩
  exact fun hsome => hr.holdsEmpty hsome (by simp +contextual)

end Recycling

-- a line as long as a buffer makes the front end use up `nextBuffer_`, so that both refills are needed
theorem buffers_recycled_refilled :
    letI := Build.debug
    let steps : List Step := .append (List.replicate kLargeBuffer 0) :: List.replicate 7 .threadFunc
    ∃ s : AsyncLogging, Path step Callable {} steps s ∧ s.phase = .write 2 ∧ s.newBuffer1 = none ∧
      s.newBuffer2 = none ∧ s.buffersToWrite = [0, 1] ∧ s.Refills := by
  intro steps
  let _ := Build.debug
  let s₁ : AsyncLogging := {
    currentBuffer := some 1
    nextBuffer := none
    buffers := [0]
    appended := [List.replicate kLargeBuffer 0] }
  have hfull : ¬(List.replicate kLargeBuffer (0 : UInt8)).length < ({} : FixedBuffer kLargeBuffer).avail := by
    rw [List.length_replicate, FixedBuffer.avail_of_pieces rfl]
    exact Nat.lt_irrefl kLargeBuffer
  have hfirst : step {} (.append (List.replicate kLargeBuffer 0)) = .ok s₁ := by
    simp only [step, append, get, ok_bind, put, if_neg hfull, FixedBuffer.append, dif_neg hfull, Function.update_eq_self]
    rfl
  obtain ⟨s, hs, hp⟩ := Path.exists_of_any step Callable s₁ (List.replicate 7 .threadFunc)
    (fun s => decide (s.phase = .write 2 ∧ s.newBuffer1 = none ∧ s.newBuffer2 = none ∧ s.buffersToWrite = [0, 1]))
    (by decide +kernel)
  obtain ⟨hphase, h₁, h₂, hw⟩ := of_decide_eq_true hp
  have hrun := Path.cons trivial hfirst hs
  exact ⟨s, hrun, hphase, h₁, h₂, hw, (buffers_recycled hrun).2.2.2.2.2.1 2 hphase⟩

end Networker.AsyncLogging
