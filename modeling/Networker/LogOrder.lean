import Networker.BufferRotation

/-!
Every line goes through the buffers of `AsyncLogging` in the order of the `append`
calls, and leaves it only with a whole buffer that the overload branch erases.
-/

namespace Networker.AsyncLogging

open CheckedRuns

def written (s : AsyncLogging) : List UInt8 := s.output.flatMap fun
  | .notice _ => []
  | .data bytes => bytes

def linesIn (heap : BufferHeap) (ps : List ℕ) : List Line := ps.flatMap fun p => (heap p).pieces

def bytesIn (heap : BufferHeap) (ps : List ℕ) : List UInt8 := ps.flatMap fun p => (heap p).data

-- the part of a batch that is still to be written, once it is decided what to erase
def remaining (buffersToWrite : List ℕ) : BackEnd → List ℕ
  | .write i => buffersToWrite.drop i
  | .swapped | .starting | .started | .test | .enter | .waiting | .finished => []

def undecided (buffersToWrite : List ℕ) : BackEnd → List ℕ
  | .swapped => buffersToWrite
  | .write _ | .starting | .started | .test | .enter | .waiting | .finished => []

def unwritten (s : AsyncLogging) : List ℕ :=
  remaining s.buffersToWrite s.phase ++ undecided s.buffersToWrite s.phase

structure InOrder (s : AsyncLogging) : Prop where
  lines : s.appended = s.taken.flatMap Prod.snd ++ linesIn s.heap (undecided s.buffersToWrite s.phase) ++
    linesIn s.heap s.buffers ++ linesIn s.heap s.currentBuffer.toList
  kept : s.written ++ bytesIn s.heap (remaining s.buffersToWrite s.phase) =
    (s.taken.filter fun c => !c.1).flatMap fun c => c.2.flatten

section Lines

variable {s t : AsyncLogging}

theorem linesIn_congr {heap heap' : BufferHeap} {ps : List ℕ} (h : ∀ p ∈ ps, heap' p = heap p) :
    linesIn heap' ps = linesIn heap ps := by
  unfold linesIn
  exact List.flatMap_congr fun p hp => by rw [h p hp]

theorem bytesIn_eq (heap : BufferHeap) (ps : List ℕ) : bytesIn heap ps = (linesIn heap ps).flatten := by
  induction ps with
  | nil => rfl
  | cons p ps ih =>
    simp only [bytesIn, linesIn, List.flatMap_cons, List.flatten_append, FixedBuffer.data] at ih ⊢
    rw [ih]

theorem bytesIn_append (heap : BufferHeap) (ps qs : List ℕ) :
    bytesIn heap (ps ++ qs) = bytesIn heap ps ++ bytesIn heap qs := by
  simp [bytesIn]

theorem linesIn_append (heap : BufferHeap) (ps qs : List ℕ) :
    linesIn heap (ps ++ qs) = linesIn heap ps ++ linesIn heap qs := by
  simp [linesIn]

theorem linesIn_update_append {heap : BufferHeap} {p : ℕ} {b : FixedBuffer kLargeBuffer} {logline : Line}
    (h : logline.length < b.avail) :
    linesIn (Function.update heap p (b.append logline)) [p] = b.pieces ++ [logline] := by
  simp [linesIn, FixedBuffer.append_pieces h]

theorem mem_of_undecided {ps : List ℕ} {phase : BackEnd} {p : ℕ} (h : p ∈ undecided ps phase) : p ∈ ps := by
  cases phase with
  | swapped => exact h
  | _ => exact absurd h List.not_mem_nil

theorem mem_of_remaining {ps : List ℕ} {phase : BackEnd} {p : ℕ} (h : p ∈ remaining ps phase) : p ∈ ps := by
  cases phase with
  | write i => exact List.mem_of_mem_drop h
  | _ => exact absurd h List.not_mem_nil

/-- A change to buffers that neither the back end nor `buffers_` holds. -/
theorem InOrder.update (h : InOrder s) {heap : BufferHeap} (ps buffers current : List ℕ)
    (hheap : ∀ r ∈ s.buffers ++ s.buffersToWrite, heap r = s.heap r) {logline : Line}
    (hlines : linesIn s.heap buffers = linesIn s.heap s.buffers ++ linesIn s.heap ps)
    (hbuffers : ∀ r ∈ buffers, heap r = s.heap r)
    (hnew : linesIn s.heap ps ++ linesIn heap current = linesIn s.heap s.currentBuffer.toList ++ [logline]) :
    s.appended ++ [logline] = s.taken.flatMap Prod.snd ++ linesIn heap (undecided s.buffersToWrite s.phase) ++
        linesIn heap buffers ++ linesIn heap current ∧
      s.written ++ bytesIn heap (remaining s.buffersToWrite s.phase) =
        (s.taken.filter fun c => !c.1).flatMap fun c => c.2.flatten := by
  have hund : linesIn heap (undecided s.buffersToWrite s.phase) = linesIn s.heap (undecided s.buffersToWrite s.phase) :=
    linesIn_congr fun r hr => hheap r (List.mem_append_right _ (mem_of_undecided hr))
  have hrem : linesIn heap (remaining s.buffersToWrite s.phase) = linesIn s.heap (remaining s.buffersToWrite s.phase) :=
    linesIn_congr fun r hr => hheap r (List.mem_append_right _ (mem_of_remaining hr))
  constructor
  · rw [h.lines, hund, linesIn_congr hbuffers, hlines, List.append_assoc, ← hnew]
    simp only [List.append_assoc]
  · rw [bytesIn_eq, hrem, ← bytesIn_eq]
    exact h.kept

theorem InOrder.append (h : InOrder s) (hr : Rotating s) {logline : Line} (hlen : logline.length < kLargeBuffer)
    (hs : s.append logline = .ok t) : InOrder t := by
  obtain ⟨p, hp, ⟨hfits, rfl⟩ | ⟨-, next, b, allocated, hn, rfl⟩⟩ := append_inv hs
  · have hother := hr.current_elsewhere hp
    have hheap : ∀ r ∈ s.buffers ++ s.buffersToWrite,
        Function.update s.heap p ((s.heap p).append logline) r = s.heap r := by
      intro r hin
      apply Function.update_of_ne
      rintro rfl
      simp only [List.mem_append] at hother hin
      tauto
    have hnew : linesIn s.heap [] ++ linesIn (Function.update s.heap p ((s.heap p).append logline)) s.currentBuffer.toList =
        linesIn s.heap s.currentBuffer.toList ++ [logline] := by
      rw [hp, Option.toList_some, linesIn_update_append hfits]
      simp [linesIn]
    obtain ⟨hlines, hkept⟩ := h.update [] s.buffers s.currentBuffer.toList hheap (by simp [linesIn])
      (fun r hin => hheap r (List.mem_append_left _ hin)) hnew
    exact ⟨hlines, hkept⟩
  · obtain ⟨hother, hb, -⟩ := hr.spare_elsewhere hn
    have hheap : ∀ r ∈ s.currentBuffer.toList ++ s.buffers ++ s.buffersToWrite,
        Function.update s.heap next (b.append logline) r = s.heap r := by
      intro r hin
      apply Function.update_of_ne
      rintro rfl
      simp only [List.mem_append] at hother hin
      tauto
    have hfits : logline.length < b.avail := by rwa [FixedBuffer.avail_of_pieces hb]
    have hnew : linesIn s.heap [p] ++ linesIn (Function.update s.heap next (b.append logline)) [next] =
        linesIn s.heap s.currentBuffer.toList ++ [logline] := by
      rw [hp, linesIn_update_append hfits, hb]
      rfl
    obtain ⟨hlines, hkept⟩ := h.update [p] (s.buffers ++ [p]) [next]
      (fun r hin => hheap r (by simp only [List.mem_append] at hin ⊢; tauto)) (linesIn_append _ _ _)
      (fun r hin => hheap r (by
        simp only [hp, Option.toList_some, List.mem_append] at hin ⊢
        tauto)) hnew
    exact ⟨hlines, hkept⟩

/-- The buffers that hold lines keep them, and the back end holds none before and after. -/
theorem InOrder.idle (h : InOrder s) {phase : BackEnd} (hu : undecided s.buffersToWrite s.phase = [])
    (hr : remaining s.buffersToWrite s.phase = []) (ht : t.buffers = s.buffers ∧ t.currentBuffer = s.currentBuffer ∧
      t.appended = s.appended ∧ t.taken = s.taken ∧ t.output = s.output ∧ t.phase = phase)
    (hu' : undecided t.buffersToWrite phase = []) (hr' : remaining t.buffersToWrite phase = [])
    (hheap : ∀ p ∈ s.buffers ++ s.currentBuffer.toList, t.heap p = s.heap p) : InOrder t := by
  obtain ⟨hb, hc, ha, htk, ho, hp⟩ := ht
  constructor
  · rw [ha, htk, hp, hu', hb, hc, h.lines, hu, linesIn_congr fun p hp => hheap p (List.mem_append_left _ hp),
      linesIn_congr fun p hp => hheap p (List.mem_append_right _ hp)]
    rfl
  · have hk := h.kept
    rw [hr] at hk
    rw [written, ho, hp, hr', htk]
    exact hk

theorem Rotating.newBuffer1_lines (h : Rotating s) : linesIn s.heap s.newBuffer1.toList = [] := by
  cases hn : s.newBuffer1 with
  | none => rfl
  | some n =>
    have hspare := h.spare n (by simp [hn])
    simp [linesIn, hspare]

theorem linesIn_take_drop (heap : BufferHeap) (ps : List ℕ) (keep : ℕ) :
    linesIn heap ps = linesIn heap (ps.take keep) ++ linesIn heap (ps.drop keep) := by
  rw [← linesIn_append, List.take_append_drop]

theorem InOrder.swap (h : InOrder s) (hr : Rotating s) (hp : s.phase = .enter ∨ s.phase = .waiting)
    (hs : s.swap = .ok t) : InOrder t := by
  obtain ⟨p, hcur, rfl⟩ := swap_inv hs
  obtain ⟨-, -, hw⟩ := hr.before_swap hp
  have hl := h.lines
  have hk := h.kept
  constructor
  · show s.appended = s.taken.flatMap Prod.snd ++ linesIn s.heap (s.buffers ++ [p]) ++ linesIn s.heap s.buffersToWrite ++
      linesIn s.heap s.newBuffer1.toList
    rw [hr.newBuffer1_lines, hw, linesIn_append, hl, hcur, hw]
    rcases hp with hp | hp <;> simp [hp, undecided, linesIn]
  · have hrem : remaining s.buffersToWrite s.phase = [] := by rcases hp with hp | hp <;> rw [hp] <;> rfl
    rw [hrem] at hk
    exact hk

theorem InOrder.overload (h : InOrder s) (hp : s.phase = .swapped) (keep : ℕ) {output : List OutputCall}
    (hout : written { s with output } = s.written) :
    InOrder { s with
      taken := s.taken ++ (s.buffersToWrite.take keep).map (fun p => (false, (s.heap p).pieces)) ++
        (s.buffersToWrite.drop keep).map (fun p => (true, (s.heap p).pieces))
      output
      buffersToWrite := s.buffersToWrite.take keep
      phase := .write 0 } := by
  have hl := h.lines
  have hk := h.kept
  rw [hp] at hl hk
  constructor
  · show s.appended = (s.taken ++ _ ++ _).flatMap Prod.snd ++ [] ++ linesIn s.heap s.buffers ++
      linesIn s.heap s.currentBuffer.toList
    rw [hl, undecided, linesIn_take_drop _ _ keep]
    simp only [linesIn, List.flatMap_append, List.flatMap_map, List.append_nil, List.append_assoc]
  · show written { s with output } ++ bytesIn s.heap (s.buffersToWrite.take keep) = _
    have hkept : s.written = (s.taken.filter fun c => !c.1).flatMap fun c => c.2.flatten := by
      simpa [remaining, bytesIn] using hk
    have hfalse (ps : List ℕ) : (ps.map fun p => (false, (s.heap p).pieces)).filter (fun c => !c.1) =
        ps.map fun p => (false, (s.heap p).pieces) := List.filter_eq_self.mpr (by simp)
    have htrue (ps : List ℕ) : (ps.map fun p => (true, (s.heap p).pieces)).filter (fun c => !c.1) = [] :=
      List.filter_eq_nil_iff.mpr (by simp)
    rw [hout, hkept, List.filter_append, List.filter_append, hfalse, htrue, List.append_nil, List.flatMap_append,
      List.flatMap_map]
    rfl

theorem InOrder.write (h : InOrder s) {i p : ℕ} (hp : s.phase = .write i) (hi : s.buffersToWrite[i]? = some p) :
    InOrder { s with output := s.output ++ [.data (s.heap p).data], phase := .write (i + 1) } := by
  have hl := h.lines
  have hk := h.kept
  rw [hp] at hl hk
  obtain ⟨hlt, hget⟩ := List.getElem?_eq_some_iff.mp hi
  constructor
  · exact hl
  · rw [← hk]
    have hdrop : s.buffersToWrite.drop i = p :: s.buffersToWrite.drop (i + 1) := by
      rw [List.drop_eq_getElem_cons hlt, hget]
    simp only [written, remaining, hdrop, bytesIn, List.flatMap_append, List.flatMap_cons, List.flatMap_nil,
      List.append_nil, List.append_assoc]

theorem initial_sound : Rotating {} ∧ InOrder {} :=
  ⟨⟨Recycling.initial, by simp⟩, rfl, rfl⟩

variable [Build]

theorem InOrder.recycle (h : InOrder s) (hr : Rotating s) {i : ℕ} (hp : s.phase = .write i)
    (hi : s.buffersToWrite[i]? = none) (hs : s.recycle = .ok t) : InOrder t := by
  have hdone : remaining s.buffersToWrite s.phase = [] := by
    rw [hp, remaining, List.drop_eq_nil_iff]
    exact List.getElem?_eq_none_iff.mp hi
  obtain ⟨heap, n₁, n₂, rfl, hheap⟩ := recycle_frame hs
  refine h.idle (by rw [hp]; rfl) hdone ⟨rfl, rfl, rfl, rfl, rfl, rfl⟩ rfl rfl ?_
  intro r hr'
  apply hheap
  apply hr.front_elsewhere
  simp only [List.mem_append] at hr' ⊢
  tauto

theorem InOrder.threadFunc (h : InOrder s) (hr : Rotating s) (hs : ThreadStep s t) : InOrder t := by
  cases hs with
  | start hp =>
    exact h.idle (by rw [hp]; rfl) (by rw [hp]; rfl) ⟨rfl, rfl, rfl, rfl, rfl, rfl⟩ rfl rfl fun _ _ => rfl
  | allocate hp =>
    refine h.idle (by rw [hp]; rfl) (by rw [hp]; rfl) ⟨rfl, rfl, rfl, rfl, rfl, rfl⟩ rfl rfl ?_
    intro r hr'
    have hlt : r < s.allocated := hr.allocated r (by
      simp only [roles, List.mem_append] at hr' ⊢
      tauto)
    exact (Function.update_of_ne (by omega) ..).trans (Function.update_of_ne (by omega) ..)
  | again hp =>
    exact h.idle (by rw [hp]; rfl) (by rw [hp]; rfl) ⟨rfl, rfl, rfl, rfl, rfl, rfl⟩ rfl rfl fun _ _ => rfl
  | leave hp =>
    exact h.idle (by rw [hp]; rfl) (by rw [hp]; rfl) ⟨rfl, rfl, rfl, rfl, rfl, rfl⟩ rfl rfl fun _ _ => rfl
  | wait hp =>
    exact h.idle (by rw [hp]; rfl) (by rw [hp]; rfl) ⟨rfl, rfl, rfl, rfl, rfl, rfl⟩ rfl rfl fun _ _ => rfl
  | swap hp hs => exact h.swap hr hp hs
  | overload hp keep hkeep =>
    apply h.overload hp keep
    simp only [written]
    split_ifs <;> simp
  | write i p hp hi => exact h.write hp hi
  | recycle i hp hi hs => exact h.recycle hr hp hi hs

theorem step_sound {i : Step} (hr : Rotating s) (ho : InOrder s) (he : s.Enabled i) (hs : s.step i = .ok t) :
    Rotating t ∧ InOrder t := by
  cases i with
  | append logline => exact ⟨hr.append he hs, ho.append hr he hs⟩
  | threadFunc =>
    have hstep := threadFunc_inv hs he
    exact ⟨hr.threadFunc hstep, ho.threadFunc hr hstep⟩
  | stop =>
    cases hs
    exact ⟨{ hr with }, { ho with }⟩
  | join =>
    cases hs
    exact ⟨{ hr with }, { ho with }⟩

theorem run_sound {steps : List Step} (h : Path step Enabled {} steps s) : Rotating s ∧ InOrder s :=
  h.invariant (P := fun u => Rotating u ∧ InOrder u) initial_sound fun _ _ _ hu he hs => step_sound hu.1 hu.2 he hs

/-- The buffers that a step erases, with their lines. -/
def erasedBy (s : AsyncLogging) : Step → List (Bool × List Line)
  | .threadFunc =>
    if s.phase = .swapped ∧ 25 < s.buffersToWrite.length then
      (s.buffersToWrite.drop 2).map fun p => (true, (s.heap p).pieces)
    else []
  | .append _ | .stop | .join => []

theorem step_erased {i : Step} (he : s.Enabled i) (hs : s.step i = .ok t) :
    t.taken.filter Prod.fst = s.taken.filter Prod.fst ++ s.erasedBy i := by
  have hsame (hnot : s.phase ≠ .swapped) : s.taken.filter Prod.fst = s.taken.filter Prod.fst ++ s.erasedBy .threadFunc := by
    rw [erasedBy, if_neg (fun hc => hnot hc.1), List.append_nil]
  cases i with
  | append logline =>
    obtain ⟨p, hp, ⟨-, rfl⟩ | ⟨-, next, b, allocated, -, rfl⟩⟩ := append_inv hs
    · exact (List.append_nil _).symm
    · exact (List.append_nil _).symm
  | stop =>
    cases hs
    exact (List.append_nil _).symm
  | join =>
    cases hs
    exact (List.append_nil _).symm
  | threadFunc =>
    cases threadFunc_inv hs he with
    | overload hp keep hkeep =>
      have hfalse (ps : List ℕ) : (ps.map fun p => (false, (s.heap p).pieces)).filter Prod.fst = [] :=
        List.filter_eq_nil_iff.mpr (by simp)
      have htrue (ps : List ℕ) : (ps.map fun p => (true, (s.heap p).pieces)).filter Prod.fst =
          ps.map fun p => (true, (s.heap p).pieces) := List.filter_eq_self.mpr (by simp)
      dsimp only
      rw [List.filter_append, List.filter_append, hfalse, htrue, List.append_nil, erasedBy, hkeep]
      by_cases hmany : 25 < s.buffersToWrite.length
      · rw [if_pos hmany, if_pos ⟨hp, hmany⟩]
      · rw [if_neg hmany, if_neg (fun hc => hmany hc.2), List.drop_length]
        rfl
    | start hp => exact hsame (by simp [hp])
    | allocate hp => exact hsame (by simp [hp])
    | again hp => exact hsame (by simp [hp])
    | leave hp => exact hsame (by simp [hp])
    | wait hp => exact hsame (by simp [hp])
    | swap hp hs =>
      obtain ⟨p, -, rfl⟩ := swap_inv hs
      rcases hp with hp | hp <;> exact hsame (by simp [hp])
    | write i p hp => exact hsame (by simp [hp])
    | recycle i hp hi hs' =>
      obtain ⟨heap, n₁, n₂, rfl, -⟩ := recycle_frame hs'
      exact hsame (by simp [hp])

/-- The lines go out in the order of the `append` calls, but for those of the buffers that the overload branch erases. -/
theorem log_lines_in_order {steps : List Step} (h : Path step Enabled {} steps s) :
    (∃ chunks : List (Bool × List Line), s.appended = chunks.flatMap Prod.snd ∧
        chunks.filter Prod.fst = s.taken.filter Prod.fst ∧
        s.written ++ bytesIn s.heap s.unwritten ++ bytesIn s.heap s.buffers ++ bytesIn s.heap s.currentBuffer.toList =
          (chunks.filter fun c => !c.1).flatMap fun c => c.2.flatten) ∧
      ∀ i t, s.Enabled i → s.step i = .ok t → t.taken.filter Prod.fst = s.taken.filter Prod.fst ++ s.erasedBy i := by
  obtain ⟨-, ho⟩ := run_sound h
  refine ⟨?_, fun i t he hs => step_erased he hs⟩
  let rest := linesIn s.heap (undecided s.buffersToWrite s.phase) ++ linesIn s.heap s.buffers ++
    linesIn s.heap s.currentBuffer.toList
  refine ⟨s.taken ++ [(false, rest)], ?_, ?_, ?_⟩
  · rw [ho.lines]
    simp [rest]
  · simp [List.filter_append]
  · rw [unwritten, bytesIn_append, ← List.append_assoc, ho.kept]
    simp [List.filter_append, rest, bytesIn_eq]

end Lines

-- the front end appends while the back end is waiting and while it is writing
theorem log_lines_in_order_small :
    letI := Build.debug
    let steps : List Step := [.append [1], .threadFunc, .threadFunc, .threadFunc, .append [2, 3], .threadFunc,
      .append [4], .threadFunc, .append [5, 6], .threadFunc, .threadFunc]
    ∃ s, Path step Enabled {} steps s ∧ s.phase = .write 1 ∧ s.written = [1, 2, 3, 4] ∧
      bytesIn s.heap s.currentBuffer.toList = [5, 6] ∧
      ∃ chunks : List (Bool × List Line), s.appended = chunks.flatMap Prod.snd ∧
        chunks.filter Prod.fst = s.taken.filter Prod.fst ∧
        s.written ++ bytesIn s.heap s.unwritten ++ bytesIn s.heap s.buffers ++ bytesIn s.heap s.currentBuffer.toList =
          (chunks.filter fun c => !c.1).flatMap fun c => c.2.flatten := by
  intro steps
  let _ := Build.debug
  obtain ⟨s, hs, hp⟩ := Path.exists_of_any step Enabled {} steps
    (fun s => decide (s.phase = .write 1 ∧ s.written = [1, 2, 3, 4] ∧
      bytesIn s.heap s.currentBuffer.toList = [5, 6])) (by decide +kernel)
  obtain ⟨hphase, hw, hc⟩ := of_decide_eq_true hp
  exact ⟨s, hs, hphase, hw, hc, (log_lines_in_order hs).1⟩

end Networker.AsyncLogging