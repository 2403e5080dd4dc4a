import Networker.LogOrder

/-!
Which lines are in the log file when `AsyncLogging::stop` returns. The back end tests
`running_` before it looks at the buffers, so what was appended since its last swap goes
out only if it is past the test.
-/

namespace Networker.AsyncLogging

open CheckedRuns

/-- The lines that the back end has taken over, those it erases included. -/
def takenOver (s : AsyncLogging) : List Line :=
  s.taken.flatMap Prod.snd ++ linesIn s.heap (undecided s.buffersToWrite s.phase)

/-- What was appended before `stop` was passed to `output.append`, or erased with its buffer. -/
def Drained (s : AsyncLogging) : Prop :=
  (s.written = (s.taken.filter fun c => !c.1).flatMap fun c => c.2.flatten) ∧
    ∀ n, s.beforeStop = some n → (s.appended.take n).flatten <+: (s.taken.flatMap Prod.snd).flatten

def StopDrains [Build] (s : AsyncLogging) : Prop :=
  ∀ t later u, s.step .stop = .ok t → Path step Enabled t later u → u.joined = true → Drained u

-- how many steps of the back end are left once `running_` is false
def stepsLeft (s : AsyncLogging) : ℕ :=
  match s.phase with
  | .swapped => 3 + s.buffersToWrite.length
  | .write i => 2 + (s.buffersToWrite.length - i)
  | .started => 2
  | .test => 1
  | .finished | .starting | .enter | .waiting => 0

section Stop

variable {s t : AsyncLogging}

theorem InOrder.appended_eq (h : InOrder s) :
    s.appended = s.takenOver ++ (linesIn s.heap s.buffers ++ linesIn s.heap s.currentBuffer.toList) := by
  rw [h.lines, takenOver]
  simp only [List.append_assoc]

theorem append_takenOver (hr : Rotating s) {logline : Line} (hs : s.append logline = .ok t) :
    t.takenOver = s.takenOver := by
  have hcongr {p : ℕ} {b : FixedBuffer kLargeBuffer} (hp : p ∉ s.buffersToWrite) :
      linesIn (Function.update s.heap p b) (undecided s.buffersToWrite s.phase) =
        linesIn s.heap (undecided s.buffersToWrite s.phase) := by
    apply linesIn_congr
    intro r hin
    apply Function.update_of_ne
    rintro rfl
    exact hp (mem_of_undecided hin)
  obtain ⟨p, hp, ⟨-, rfl⟩ | ⟨-, next, b, allocated, hn, rfl⟩⟩ := append_inv hs
  · have hother : p ∉ s.buffersToWrite := fun hin => hr.current_elsewhere hp (List.mem_append_right _ hin)
    exact congrArg (s.taken.flatMap Prod.snd ++ ·) (hcongr hother)
  · have hother : next ∉ s.buffersToWrite := fun hin => (hr.spare_elsewhere hn).1 (List.mem_append_right _ hin)
    exact congrArg (s.taken.flatMap Prod.snd ++ ·) (hcongr hother)

theorem append_frame {logline : Line} (hs : s.append logline = .ok t) :
    t.joined = s.joined ∧ t.beforeStop = s.beforeStop ∧ t.phase = s.phase ∧ t.appended = s.appended ++ [logline] := by
  obtain ⟨p, hp, ⟨-, rfl⟩ | ⟨-, next, b, allocated, hn, rfl⟩⟩ := append_inv hs
  · exact ⟨rfl, rfl, rfl, rfl⟩
  · exact ⟨rfl, rfl, rfl, rfl⟩

theorem flatten_take_le {n : ℕ} (ls : List Line) : (ls.take n).flatten <+: ls.flatten := by
  refine ⟨(ls.drop n).flatten, ?_⟩
  rw [← List.flatten_append, List.take_append_drop]

/-- The invariant from `stop()` on, with `n` lines appended before it. -/
structure Draining (n : ℕ) (s : AsyncLogging) : Prop where
  rotating : Rotating s
  inOrder : InOrder s
  before : s.beforeStop = some n
  le : n ≤ s.appended.length
  joined : s.joined = true → s.phase = .finished
  covered : s.phase = .enter ∨ s.phase = .waiting ∨ (s.appended.take n).flatten <+: s.takenOver.flatten

theorem Draining.drained {n : ℕ} (h : Draining n s) (hj : s.joined = true) : Drained s := by
  have hp := h.joined hj
  have hkept := h.inOrder.kept
  rw [hp] at hkept
  constructor
  · simpa [remaining, bytesIn] using hkept
  · intro m hm
    cases h.before.symm.trans hm
    have hcov := h.covered
    rw [takenOver, hp] at hcov
    simpa [undecided, linesIn] using hcov

theorem Rotating.nothing_waits (h : Rotating s) :
    (s.buffers = [] ∧ bytesIn s.heap s.currentBuffer.toList = []) ↔
      (linesIn s.heap s.buffers ++ linesIn s.heap s.currentBuffer.toList).flatten = [] := by
  rw [List.flatten_append, ← bytesIn_eq, ← bytesIn_eq, List.append_eq_nil_iff]
  constructor
  · rintro ⟨hb, hc⟩
    exact ⟨by rw [hb]; rfl, hc⟩
  · rintro ⟨hb, hc⟩
    refine ⟨?_, hc⟩
    cases hbuf : s.buffers with
    | nil => rfl
    | cons p ps =>
      rw [hbuf, bytesIn, List.flatMap_cons, List.append_eq_nil_iff] at hb
      have hpos := h.full p (by simp [hbuf])
      rw [FixedBuffer.length, hb.1] at hpos
      exact absurd hpos (Nat.lt_irrefl 0)

variable [Build]

theorem thread_joined (hs : ThreadStep s t) : t.joined = s.joined := by
  cases hs with
  | swap hp hs =>
    obtain ⟨p, -, rfl⟩ := swap_inv hs
    rfl
  | recycle i hp hi hs =>
    obtain ⟨heap, n₁, n₂, rfl, -⟩ := recycle_frame hs
    rfl
  | _ => rfl

/-- A step of the back end takes lines over in the swap only, and then all there are. -/
theorem thread_takenOver (hr : Rotating s) (ho : InOrder s) (hs : ThreadStep s t) :
    t.running = s.running ∧ t.appended = s.appended ∧ t.beforeStop = s.beforeStop ∧
      ((t.takenOver = s.takenOver ∧ (s.phase = .enter → t.phase = .waiting) ∧ s.phase ≠ .waiting) ∨
        ((s.phase = .enter ∨ s.phase = .waiting) ∧ t.takenOver = t.appended)) := by
  have hthread := hs
  cases hs with
  | start hp => exact ⟨rfl, rfl, rfl, Or.inl ⟨by simp [takenOver, hp, undecided], by simp [hp], by simp [hp]⟩⟩
  | allocate hp =>
    exact ⟨rfl, rfl, rfl, Or.inl ⟨by simp [takenOver, hp, undecided, linesIn], by simp [hp], by simp [hp]⟩⟩
  | again hp => exact ⟨rfl, rfl, rfl, Or.inl ⟨by simp [takenOver, hp, undecided], by simp [hp], by simp [hp]⟩⟩
  | leave hp => exact ⟨rfl, rfl, rfl, Or.inl ⟨by simp [takenOver, hp, undecided], by simp [hp], by simp [hp]⟩⟩
  | wait hp => exact ⟨rfl, rfl, rfl, Or.inl ⟨by simp [takenOver, hp, undecided], by simp, by simp [hp]⟩⟩
  | swap hp hs =>
    have ho' := (ho.threadFunc hr hthread).appended_eq
    obtain ⟨p, hcur, rfl⟩ := swap_inv hs
    refine ⟨rfl, rfl, rfl, Or.inr ⟨hp, ?_⟩⟩
    obtain ⟨-, -, hw⟩ := hr.before_swap hp
    have hempty : linesIn s.heap s.buffersToWrite ++ linesIn s.heap s.newBuffer1.toList = [] := by
      rw [hr.newBuffer1_lines, hw]
      rfl
    dsimp only at ho' ⊢
    rw [hempty, List.append_nil] at ho'
    exact ho'.symm
  | overload hp keep hkeep =>
    refine ⟨rfl, rfl, rfl, Or.inl ⟨?_, by simp [hp], by simp [hp]⟩⟩
    rw [takenOver, takenOver, hp, undecided, undecided, linesIn_take_drop _ s.buffersToWrite keep]
    simp only [linesIn, List.flatMap_append, List.flatMap_map, List.flatMap_nil, List.append_nil, List.append_assoc]
  | write i p hp => exact ⟨rfl, rfl, rfl, Or.inl ⟨by simp [takenOver, hp, undecided], by simp [hp], by simp [hp]⟩⟩
  | recycle i hp hi hs =>
    obtain ⟨heap, n₁, n₂, rfl, -⟩ := recycle_frame hs
    exact ⟨rfl, rfl, rfl, Or.inl ⟨by simp [takenOver, hp, undecided, linesIn], by simp [hp], by simp [hp]⟩⟩

theorem Draining.threadFunc {n : ℕ} (h : Draining n s) (he : s.phase ≠ .finished) (hs : s.threadFunc = .ok t) :
    Draining n t := by
  have hstep := threadFunc_inv hs he
  obtain ⟨-, ha, hb, htaken⟩ := thread_takenOver h.rotating h.inOrder hstep
  have hj : t.joined = s.joined := thread_joined hstep
  refine ⟨h.rotating.threadFunc hstep, h.inOrder.threadFunc h.rotating hstep, hb.trans h.before, ha ▸ h.le, ?_, ?_⟩
  · intro hjoined
    exact absurd (h.joined (hj ▸ hjoined)) he
  · rcases htaken with ⟨hsame, hwait, hnot⟩ | ⟨-, hall⟩
    · rw [hsame, ha]
      rcases h.covered with hp | hp | hc
      · exact Or.inr (Or.inl (hwait hp))
      · exact absurd hp hnot
      · exact Or.inr (Or.inr hc)
    · rw [hall]
      exact Or.inr (Or.inr (flatten_take_le t.appended))

theorem Draining.step {n : ℕ} (h : Draining n s) {i : Step} (he : s.Enabled i) (hs : s.step i = .ok t) :
    Draining n t := by
  cases i with
  | append logline =>
    have htaken := append_takenOver h.rotating hs
    obtain ⟨hj, hb, hphase, ha⟩ := append_frame hs
    refine ⟨h.rotating.append he hs, h.inOrder.append h.rotating he hs, hb.trans h.before, ?_, ?_, ?_⟩
    · rw [ha, List.length_append]
      exact Nat.le_add_right_of_le h.le
    · rw [hj, hphase]
      exact h.joined
    · rw [htaken, hphase, ha, List.take_append_of_le_length h.le]
      exact h.covered
  | threadFunc => exact h.threadFunc he hs
  | stop =>
    have hnone := he.2
    rw [h.before] at hnone
    cases hnone
  | join =>
    cases hs
    exact ⟨{ h.rotating with }, { h.inOrder with }, h.before, h.le, fun _ => he, h.covered⟩

/-- With `running_` false the back end goes straight to its end. -/
theorem thread_stepsLeft (hrun : s.running = false) (hs : ThreadStep s t)
    (hp : s.phase ≠ .starting ∧ s.phase ≠ .enter ∧ s.phase ≠ .waiting) :
    t.stepsLeft < s.stepsLeft ∧ t.phase ≠ .starting ∧ t.phase ≠ .enter ∧ t.phase ≠ .waiting := by
  cases hs with
  | start h => exact absurd h hp.1
  | allocate h => simp [stepsLeft, h]
  | again h hr' =>
    rw [hrun] at hr'
    cases hr'
  | leave h => simp [stepsLeft, h]
  | wait h => exact absurd h hp.2.1
  | swap h =>
    rcases h with h | h
    · exact absurd h hp.2.1
    · exact absurd h hp.2.2
  | overload h keep =>
    simp only [stepsLeft, h, List.length_take]
    refine ⟨by omega, by simp, by simp, by simp⟩
  | write i p h hi =>
    obtain ⟨hlt, -⟩ := List.getElem?_eq_some_iff.mp hi
    simp only [stepsLeft, h]
    refine ⟨by omega, by simp, by simp, by simp⟩
  | recycle i h hi hs =>
    obtain ⟨heap, n₁, n₂, rfl, -⟩ := recycle_frame hs
    simp only [stepsLeft, h]
    refine ⟨by omega, by simp, by simp, by simp⟩

theorem winds_down (hr : Rotating s) (ho : InOrder s) (hrun : s.running = false)
    (hp : s.phase ≠ .starting ∧ s.phase ≠ .enter ∧ s.phase ≠ .waiting) :
    ∃ later u, Path step Enabled s later u ∧ u.joined = true ∧ u.appended = s.appended ∧
      u.beforeStop = s.beforeStop ∧ u.takenOver = s.takenOver ∧ u.phase = .finished := by
  induction hk : s.stepsLeft using Nat.strong_induction_on generalizing s with
  | h k ih =>
    by_cases hend : s.phase = .finished
    · exact ⟨[.join], _, .cons hend rfl .nil, rfl, rfl, rfl, rfl, hend⟩
    · obtain ⟨t, ht⟩ := hr.threadFunc_ok fun h => absurd h hp.1
      have hstep := threadFunc_inv ht hend
      obtain ⟨hlt, hp'⟩ := thread_stepsLeft hrun hstep hp
      obtain ⟨hrun', ha, hb, htaken⟩ := thread_takenOver hr ho hstep
      obtain ⟨later, u, hu, hj, ha', hb', htk, hfin⟩ :=
        ih _ (hk ▸ hlt) (hr.threadFunc hstep) (ho.threadFunc hr hstep) (hrun'.trans hrun) hp' rfl
      refine ⟨.threadFunc :: later, u, .cons hend ht hu, hj, ha'.trans ha, hb'.trans hb, ?_, hfin⟩
      rcases htaken with ⟨hsame, -⟩ | ⟨henter, -⟩
      · exact htk.trans hsame
      · exact absurd henter (not_or.mpr hp.2)

theorem run_joined {steps : List Step} (h : Path step Enabled {} steps s) : s.joined = true → s.phase = .finished := by
  apply h.invariant (P := fun u => u.joined = true → u.phase = .finished)
  · intro hj
    cases hj
  · intro u i v hu he hs
    cases i with
    | append logline =>
      obtain ⟨hj, -, hphase, -⟩ := append_frame hs
      rw [hj, hphase]
      exact hu
    | threadFunc =>
      intro hj
      rw [thread_joined (threadFunc_inv hs he)] at hj
      exact absurd (hu hj) he
    | stop =>
      cases hs
      exact hu
    | join =>
      cases hs
      exact fun _ => he

theorem stop_drains_iff {steps : List Step} (h : Path step Enabled {} steps s) (he : s.Enabled .stop) :
    s.StopDrains ↔ (s.phase = .enter ∨ s.phase = .waiting) ∨
      (s.buffers = [] ∧ bytesIn s.heap s.currentBuffer.toList = []) := by
  obtain ⟨hr, ho⟩ := run_sound h
  let t : AsyncLogging := { s with running := false, beforeStop := some s.appended.length }
  have hs : s.step .stop = .ok t := rfl
  have hr' : Rotating t := { hr with }
  have ho' : InOrder t := { ho with }
  have hall : (s.appended.take s.appended.length).flatten =
      s.takenOver.flatten ++ (linesIn s.heap s.buffers ++ linesIn s.heap s.currentBuffer.toList).flatten := by
    rw [List.take_length, ← List.flatten_append, ← ho.appended_eq]
  rw [hr.nothing_waits]
  constructor
  · intro hdrains
    by_contra hcond
    obtain ⟨hnot, hlost⟩ := not_or.mp hcond
    obtain ⟨later, u, hu, hj, ha, hb, htk, hfin⟩ := winds_down hr' ho' rfl ⟨he.1, not_or.mp hnot⟩
    obtain ⟨-, hkept⟩ := hdrains t later u hs hu hj
    have hlen := (hkept _ hb).length_le
    have htaken : u.taken.flatMap Prod.snd = s.takenOver := by
      have htk' : u.takenOver = s.takenOver := htk
      rw [← htk', takenOver, hfin]
      exact (List.append_nil _).symm
    have ha' : u.appended = s.appended := ha
    rw [htaken, ha', hall, List.length_append] at hlen
    exact hlost (List.length_eq_zero_iff.mp (by omega))
  · intro hcond t' later u hs' hu hj
    cases hs.symm.trans hs'
    have hjoined : s.joined = true → s.phase = .finished := run_joined h
    have hd : Draining s.appended.length t := by
      refine ⟨hr', ho', rfl, le_rfl, hjoined, ?_⟩
      rcases hcond with (hp | hp) | hempty
      · exact Or.inl hp
      · exact Or.inr (Or.inl hp)
      · refine Or.inr (Or.inr ?_)
        have heq : (s.appended.take s.appended.length).flatten = s.takenOver.flatten := by
          rw [hall, hempty, List.append_nil]
        exact ⟨[], (List.append_nil _).trans heq⟩
    have hu' : Draining s.appended.length u := hu.invariant hd fun _ _ _ hv hi hstep => hv.step hi hstep
    exact hu'.drained hj

end Stop

theorem stop_drains_waiting :
    letI := Build.debug
    let steps : List Step := [.threadFunc, .threadFunc, .threadFunc, .append [1], .threadFunc]
    ∃ s : AsyncLogging, Path step Enabled {} steps s ∧ s.phase = .waiting ∧ s.appended = [[1]] ∧ s.StopDrains := by
  intro steps
  let _ := Build.debug
  obtain ⟨s, hs, hp⟩ := Path.exists_of_any step Enabled {} steps
    (fun s => decide (s.phase = .waiting ∧ s.appended = [[1]] ∧ s.Enabled .stop)) (by decide +kernel)
  obtain ⟨hphase, ha, he⟩ := of_decide_eq_true hp
  exact ⟨s, hs, hphase, ha, (stop_drains_iff hs he).mpr (Or.inl (Or.inr hphase))⟩

-- a line is appended while the back end writes, and `stop` comes before it is back at the test of `running_`
theorem stop_loses_last_line :
    letI := Build.debug
    let steps : List Step := [.threadFunc, .threadFunc, .threadFunc, .threadFunc, .append [1], .threadFunc, .threadFunc,
      .append [2], .stop]
    let later : List Step := [.threadFunc, .threadFunc, .threadFunc, .join]
    ∃ s u : AsyncLogging, Path step Enabled {} steps s ∧ s.appended = [[1], [2]] ∧ s.beforeStop = some 2 ∧
      Path step Enabled s later u ∧ u.joined = true ∧ u.written = [1] ∧ u.taken = [(false, [[1]])] ∧ ¬Drained u := by
  intro steps later
  let _ := Build.debug
  obtain ⟨s, hs, hp⟩ := Path.exists_of_any step Enabled {} steps
    (fun s => decide (s.appended = [[1], [2]] ∧ s.beforeStop = some 2) && (guardedRun step Enabled s later).any fun u : AsyncLogging =>
      decide (u.joined = true ∧ u.written = [1] ∧ u.taken = [(false, [[1]])] ∧ u.appended = [[1], [2]] ∧
        u.beforeStop = some 2)) (by decide +kernel)
  obtain ⟨hstate, hrest⟩ := Bool.and_eq_true_iff.mp hp
  obtain ⟨ha, hb⟩ := of_decide_eq_true hstate
  obtain ⟨u, hu, hq⟩ := Path.exists_of_any step Enabled s later _ hrest
  obtain ⟨hj, hw, htk, ha', hb'⟩ := of_decide_eq_true hq
  refine ⟨s, u, hs, ha, hb, hu, hj, hw, htk, ?_⟩
  rintro ⟨-, hd⟩
  have hlen := (hd 2 hb').length_le
  rw [ha', htk] at hlen
  exact absurd hlen (by decide)

end Networker.AsyncLogging
