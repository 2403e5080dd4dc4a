import Mathlib.Data.List.Count
import Networker.AsyncLoggingModel

/-!
The buffers of `AsyncLogging` change hands between the front end and the back end. No
buffer is ever in two places, and the spare ones are empty.
-/

namespace Networker.AsyncLogging

open CheckedRuns

def roles (s : AsyncLogging) : List ℕ :=
  s.currentBuffer.toList ++ s.nextBuffer.toList ++ s.newBuffer1.toList ++ s.newBuffer2.toList ++ s.buffers ++
    s.buffersToWrite

-- what the back end holds, wherever it is
def Stage (s : AsyncLogging) : Prop :=
  match s.phase with
  | .starting | .started => s.newBuffer1 = none ∧ s.newBuffer2 = none ∧ s.buffersToWrite = []
  | .test | .enter | .waiting | .finished =>
    s.newBuffer1.isSome = true ∧ s.newBuffer2.isSome = true ∧ s.buffersToWrite = []
  | .swapped | .write _ =>
    s.newBuffer1 = none ∧ s.buffersToWrite ≠ [] ∧ (s.newBuffer2 = none → 2 ≤ s.buffersToWrite.length)

/-- No buffer has two roles, the spare ones are empty, and the back end has what it needs for the next swap. -/
structure Recycling (s : AsyncLogging) : Prop where
  current : ∃ p, s.currentBuffer = some p
  distinct : ∀ p, s.roles.count p ≤ 1
  allocated : ∀ p ∈ s.roles, p < s.allocated
  spare : ∀ p ∈ s.nextBuffer.toList ++ s.newBuffer1.toList ++ s.newBuffer2.toList, (s.heap p).pieces = []
  next : s.nextBuffer = none → s.buffers ≠ []
  stage : s.Stage

/-- With lines shorter than a buffer, none is put aside without lines in it. -/
structure Rotating (s : AsyncLogging) : Prop extends Recycling s where
  full : ∀ p ∈ s.buffers, 0 < (s.heap p).length

section Buffers

variable {s t : AsyncLogging}

theorem get_eq_ok {p : Option ℕ} {r : ℕ} (h : get p = .ok r) : p = some r := by
  cases p with
  | none => cases h
  | some q => exact congrArg some (Except.ok.inj h)

theorem append_inv {logline : Line} (h : s.append logline = .ok t) :
    ∃ p, s.currentBuffer = some p ∧
      ((logline.length < (s.heap p).avail ∧
          t = { s with
            heap := Function.update s.heap p ((s.heap p).append logline)
            appended := s.appended ++ [logline] }) ∨
        ((s.heap p).avail ≤ logline.length ∧ ∃ next b allocated,
          ((s.nextBuffer = some next ∧ b = s.heap next ∧ allocated = s.allocated) ∨
            (s.nextBuffer = none ∧ next = s.allocated ∧ b = {} ∧ allocated = s.allocated + 1)) ∧
          t = { s with
            heap := Function.update s.heap next (b.append logline)
            appended := s.appended ++ [logline]
            buffers := s.buffers ++ [p]
            currentBuffer := some next
            nextBuffer := none
            allocated })) := by
  obtain ⟨p, hp, h⟩ := bind_eq_ok.mp h
  refine ⟨p, get_eq_ok hp, ?_⟩
  dsimp only at h
  split_ifs at h with hfits
  · cases h
    exact Or.inl ⟨hfits, rfl⟩
  · refine Or.inr ⟨not_lt.mp hfits, ?_⟩
    cases hn : s.nextBuffer with
    | some next =>
      rw [hn] at h
      cases h
      exact ⟨next, _, _, Or.inl ⟨rfl, rfl, rfl⟩, rfl⟩
    | none =>
      rw [hn] at h
      cases h
      refine ⟨s.allocated, _, _, Or.inr ⟨rfl, rfl, rfl, rfl⟩, ?_⟩
      simp only [newBuffer, put, Function.update_self, Function.update_idem]

theorem swap_inv (h : s.swap = .ok t) :
    ∃ p, s.currentBuffer = some p ∧
      t = { s with
        buffersToWrite := s.buffers ++ [p]
        buffers := s.buffersToWrite
        currentBuffer := s.newBuffer1
        newBuffer1 := none
        nextBuffer := if s.nextBuffer.isNone then s.newBuffer2 else s.nextBuffer
        newBuffer2 := if s.nextBuffer.isNone then none else s.newBuffer2
        phase := .swapped } := by
  obtain ⟨p, hp, h⟩ := bind_eq_ok.mp h
  refine ⟨p, get_eq_ok hp, ?_⟩
  cases h
  dsimp only
  split_ifs <;> rfl

namespace Recycling

theorem counts (h : Recycling s) (p : ℕ) :
    s.currentBuffer.toList.count p + s.nextBuffer.toList.count p + s.newBuffer1.toList.count p +
      s.newBuffer2.toList.count p + s.buffers.count p + s.buffersToWrite.count p ≤ 1 := by
  have hc := h.distinct p
  simpa only [roles, List.count_append] using hc

theorem current_elsewhere (h : Recycling s) {p : ℕ} (hp : s.currentBuffer = some p) :
    p ∉ s.nextBuffer.toList ++ s.newBuffer1.toList ++ s.newBuffer2.toList ++ s.buffers ++ s.buffersToWrite := by
  have hc := h.counts p
  have hone : s.currentBuffer.toList.count p = 1 := by simp [hp]
  rw [← List.count_eq_zero]
  simp only [List.count_append]
  omega

theorem next_elsewhere (h : Recycling s) {p : ℕ} (hp : s.nextBuffer = some p) :
    p ∉ s.currentBuffer.toList ++ s.newBuffer1.toList ++ s.newBuffer2.toList ++ s.buffers ++ s.buffersToWrite := by
  have hc := h.counts p
  have hone : s.nextBuffer.toList.count p = 1 := by simp [hp]
  rw [← List.count_eq_zero]
  simp only [List.count_append]
  omega

theorem front_elsewhere (h : Recycling s) {p : ℕ}
    (hp : p ∈ s.currentBuffer.toList ++ s.nextBuffer.toList ++ s.buffers) : p ∉ s.buffersToWrite := by
  intro hin
  have hc := h.counts p
  have hpos := List.count_pos_iff.mpr hin
  have hpos' := List.count_pos_iff.mpr hp
  simp only [List.count_append] at hpos'
  omega

theorem fresh_elsewhere (h : Recycling s) : s.allocated ∉ s.roles :=
  fun hm => absurd (h.allocated _ hm) (lt_irrefl _)

theorem spare_elsewhere (h : Recycling s) {next allocated : ℕ} {b : FixedBuffer kLargeBuffer}
    (hn : (s.nextBuffer = some next ∧ b = s.heap next ∧ allocated = s.allocated) ∨
      (s.nextBuffer = none ∧ next = s.allocated ∧ b = {} ∧ allocated = s.allocated + 1)) :
    next ∉ s.currentBuffer.toList ++ s.newBuffer1.toList ++ s.newBuffer2.toList ++ s.buffers ++ s.buffersToWrite ∧
      b.pieces = [] ∧ next < allocated ∧ s.allocated ≤ allocated := by
  obtain ⟨hn, rfl, rfl⟩ | ⟨hn, rfl, rfl, rfl⟩ := hn
  · refine ⟨h.next_elsewhere hn, h.spare next (by simp [hn]), h.allocated next (by simp [roles, hn]), le_rfl⟩
  · refine ⟨?_, rfl, Nat.lt_succ_self _, Nat.le_succ _⟩
    have hf := h.fresh_elsewhere
    simp only [roles, hn] at hf
    simpa using hf

theorem append_current (h : Recycling s) {p : ℕ} (hp : s.currentBuffer = some p) (logline : Line) : Recycling { s with
    heap := Function.update s.heap p ((s.heap p).append logline)
    appended := s.appended ++ [logline] } := by
  have hother := h.current_elsewhere hp
  have hheap {r : ℕ} (hr : r ∈ s.nextBuffer.toList ++ s.newBuffer1.toList ++ s.newBuffer2.toList) :
      Function.update s.heap p ((s.heap p).append logline) r = s.heap r := by
    apply Function.update_of_ne
    rintro rfl
    exact hother (List.mem_append_left _ (List.mem_append_left _ hr))
  refine ⟨h.current, h.distinct, h.allocated, ?_, h.next, h.stage⟩
  intro r hr
  exact (congrArg FixedBuffer.pieces (hheap hr)).trans (h.spare r hr)

/-- The current buffer is put aside, and the next one takes the line. -/
theorem append_next (h : Recycling s) {p : ℕ} (hp : s.currentBuffer = some p) {logline : Line} {next allocated : ℕ} {b : FixedBuffer kLargeBuffer}
    (hn : (s.nextBuffer = some next ∧ b = s.heap next ∧ allocated = s.allocated) ∨
      (s.nextBuffer = none ∧ next = s.allocated ∧ b = {} ∧ allocated = s.allocated + 1)) : Recycling { s with
    heap := Function.update s.heap next (b.append logline)
    appended := s.appended ++ [logline]
    buffers := s.buffers ++ [p]
    currentBuffer := some next
    nextBuffer := none
    allocated } := by
  obtain ⟨hother, -, hlt, hle⟩ := h.spare_elsewhere hn
  have hheap {r : ℕ} (hr : r ∈ s.newBuffer1.toList ++ s.newBuffer2.toList) :
      Function.update s.heap next (b.append logline) r = s.heap r := by
    apply Function.update_of_ne
    rintro rfl
    simp only [List.mem_append] at hother hr
    tauto
  refine ⟨⟨next, rfl⟩, ?_, ?_, ?_, by simp, h.stage⟩
  · intro r
    have hc := h.counts r
    have hz := List.count_eq_zero.mpr hother
    simp only [roles, hp, Option.toList_some, Option.toList_none, List.count_append, List.count_nil] at hc hz ⊢
    by_cases hr : r = next
    · subst hr
      simp only [List.count_singleton_self]
      omega
    · have hne : List.count r [next] = 0 := List.count_eq_zero.mpr (by simpa using hr)
      omega
  · intro r hr
    have hmem : r = next ∨ r ∈ s.roles := by
      simp only [roles, hp, Option.toList_some, Option.toList_none, List.mem_append, List.mem_singleton,
        List.not_mem_nil] at hr ⊢
      tauto
    rcases hmem with rfl | hmem
    · exact hlt
    · exact lt_of_lt_of_le (h.allocated r hmem) hle
  · intro r hr
    have hr' : r ∈ s.newBuffer1.toList ++ s.newBuffer2.toList := by simpa using hr
    refine (congrArg FixedBuffer.pieces (hheap hr')).trans (h.spare r ?_)
    simp only [List.mem_append] at hr' ⊢
    tauto

theorem append (h : Recycling s) {logline : Line} (hs : s.append logline = .ok t) : Recycling t := by
  obtain ⟨p, hp, ⟨-, rfl⟩ | ⟨-, next, b, allocated, hn, rfl⟩⟩ := append_inv hs
  · exact h.append_current hp logline
  · exact h.append_next hp hn

end Recycling

theorem Recycling.before_swap (h : Recycling s) (hp : s.phase = .enter ∨ s.phase = .waiting) :
    s.newBuffer1.isSome = true ∧ s.newBuffer2.isSome = true ∧ s.buffersToWrite = [] := by
  have hstage := h.stage
  rcases hp with hp | hp <;> simpa only [Stage, hp] using hstage

theorem Recycling.after_swap (h : Recycling s) (hp : s.phase = .swapped ∨ ∃ i, s.phase = .write i) :
    s.newBuffer1 = none ∧ s.buffersToWrite ≠ [] ∧ (s.newBuffer2 = none → 2 ≤ s.buffersToWrite.length) := by
  have hstage := h.stage
  rcases hp with hp | ⟨i, hp⟩ <;> simpa only [Stage, hp] using hstage

-- the back end goes on without touching a buffer
theorem Recycling.move (h : Recycling s) {phase : BackEnd} {output : List OutputCall}
    (hstage : Stage { s with phase, output }) : Recycling { s with phase, output } :=
  ⟨h.current, h.distinct, h.allocated, h.spare, h.next, hstage⟩

theorem Recycling.allocate (h : Recycling s) (hp : s.phase = .started) : Recycling { s with
    heap := Function.update (Function.update s.heap s.allocated {}) (s.allocated + 1) {}
    allocated := s.allocated + 2
    newBuffer1 := some s.allocated
    newBuffer2 := some (s.allocated + 1)
    phase := .test } := by
  have hstage := h.stage
  simp only [Stage, hp] at hstage
  obtain ⟨h₁, h₂, hw⟩ := hstage
  have hheap {r : ℕ} (hr : r ∈ s.roles) :
      Function.update (Function.update s.heap s.allocated {}) (s.allocated + 1) {} r = s.heap r := by
    have hlt := h.allocated r hr
    rw [Function.update_of_ne (by omega), Function.update_of_ne (by omega)]
  refine ⟨h.current, ?_, ?_, ?_, h.next, ?_⟩
  · intro r
    have hc := h.counts r
    have hz : r ∈ s.roles → r < s.allocated := h.allocated r
    simp only [roles, h₁, h₂, hw, Option.toList_some, Option.toList_none, List.count_append, List.count_nil,
      List.count_singleton, beq_iff_eq] at hc ⊢
    have hnot : s.allocated ≤ r → s.currentBuffer.toList.count r + s.nextBuffer.toList.count r + s.buffers.count r = 0 := by
      intro hle
      have hmem : r ∉ s.roles := fun hm => absurd (hz hm) (not_lt.mpr hle)
      simp only [roles, List.mem_append, not_or] at hmem
      rw [List.count_eq_zero.mpr hmem.1.1.1.1.1, List.count_eq_zero.mpr hmem.1.1.1.1.2,
        List.count_eq_zero.mpr hmem.1.2]
    split_ifs <;> omega
  · intro r hr
    have hmem : r = s.allocated ∨ r = s.allocated + 1 ∨ r ∈ s.roles := by
      simp only [roles, Option.toList_some, List.mem_append, List.mem_singleton] at hr ⊢
      tauto
    show r < s.allocated + 2
    rcases hmem with rfl | rfl | hmem
    · omega
    · omega
    · have := h.allocated r hmem
      omega
  · intro r hr
    have hmem : r = s.allocated ∨ r = s.allocated + 1 ∨ r ∈ s.nextBuffer.toList := by
      simp only [Option.toList_some, List.mem_append, List.mem_singleton] at hr
      tauto
    rcases hmem with rfl | rfl | hmem
    · dsimp only
      rw [Function.update_of_ne (by omega), Function.update_self]
    · dsimp only
      rw [Function.update_self]
    · exact (congrArg FixedBuffer.pieces (hheap (by simp [roles, hmem]))).trans (h.spare r (by simp [hmem]))
  · exact ⟨rfl, rfl, hw⟩

theorem Recycling.swap (h : Recycling s) (hp : s.phase = .enter ∨ s.phase = .waiting) (hs : s.swap = .ok t) :
    Recycling t := by
  obtain ⟨p, hcur, rfl⟩ := swap_inv hs
  obtain ⟨h₁, h₂, hw⟩ := h.before_swap hp
  obtain ⟨n₁, hn₁⟩ := Option.isSome_iff_exists.mp h₁
  obtain ⟨n₂, hn₂⟩ := Option.isSome_iff_exists.mp h₂
  have hroles : ∀ r, s.roles.count r =
      (s.newBuffer1.toList ++ (if s.nextBuffer.isNone then s.newBuffer2 else s.nextBuffer).toList ++ [] ++
        (if s.nextBuffer.isNone then none else s.newBuffer2).toList ++ s.buffersToWrite ++ (s.buffers ++ [p])).count r := by
    intro r
    cases hnext : s.nextBuffer with
    | none =>
      simp only [roles, hcur, hnext, hw, Option.isNone_none, if_true, Option.toList_none, Option.toList_some,
        List.count_append, List.count_nil]
      omega
    | some n =>
      simp only [roles, hcur, hnext, hw, Option.isNone_some, Bool.false_eq_true, if_false, Option.toList_some,
        List.count_append, List.count_nil]
      omega
  have hmem {r : ℕ} (hr : r ∈ s.newBuffer1.toList ++
      (if s.nextBuffer.isNone then s.newBuffer2 else s.nextBuffer).toList ++ [] ++
        (if s.nextBuffer.isNone then none else s.newBuffer2).toList ++ s.buffersToWrite ++ (s.buffers ++ [p])) :
      r ∈ s.roles := by
    rw [← List.count_pos_iff, hroles r]
    exact List.count_pos_iff.mpr hr
  refine ⟨⟨n₁, hn₁⟩, fun r => (hroles r) ▸ h.distinct r, fun r hr => h.allocated r (hmem hr), ?_, ?_, rfl, ?_, ?_⟩
  · intro r hr
    apply h.spare r
    cases hnext : s.nextBuffer with
    | none =>
      rw [hnext] at hr
      simp only [Option.isNone_none, if_true, Option.toList_none, List.append_nil, List.nil_append,
        List.mem_append] at hr ⊢
      exact Or.inr hr
    | some n =>
      rw [hnext] at hr
      simp only [Option.isNone_some, Bool.false_eq_true, if_false, Option.toList_none, List.append_nil,
        List.mem_append] at hr ⊢
      tauto
  · cases hnext : s.nextBuffer <;> simp [hn₂]
  · simp
  · intro hnone
    cases hnext : s.nextBuffer with
    | none =>
      have hne := List.length_pos_iff.mpr (h.next hnext)
      simp only [List.length_append, List.length_singleton]
      omega
    | some n => simp [hnext, hn₂] at hnone

theorem Recycling.overload (h : Recycling s) (hp : s.phase = .swapped) {keep : ℕ}
    (hkeep : keep = if 25 < s.buffersToWrite.length then 2 else s.buffersToWrite.length)
    {taken : List (Bool × List Line)} {output : List OutputCall} :
    Recycling { s with taken, output, buffersToWrite := s.buffersToWrite.take keep, phase := .write 0 } := by
  obtain ⟨h₁, hne, h₂⟩ := h.after_swap (Or.inl hp)
  have hlen := List.length_pos_iff.mpr hne
  have hpos : 0 < (s.buffersToWrite.take keep).length := by
    rw [List.length_take]
    split_ifs at hkeep <;> omega
  refine ⟨h.current, ?_, ?_, h.spare, h.next, h₁, List.length_pos_iff.mp hpos, ?_⟩
  · intro r
    have hc := h.counts r
    have hle := (List.take_sublist keep s.buffersToWrite).count_le r
    simp only [roles, List.count_append] at hc ⊢
    omega
  · intro r hr
    apply h.allocated r
    rcases List.mem_append.mp hr with hr | hr
    · exact List.mem_append_left _ hr
    · exact List.mem_append_right _ (List.mem_of_mem_take hr)
  · intro hnone
    have hmin := h₂ hnone
    rw [List.length_take]
    split_ifs at hkeep <;> omega

/-- The buffers that become spare are buffers of the batch, emptied. -/
theorem Recycling.recycled (h : Recycling s) {heap : BufferHeap} {p : ℕ} {newBuffer2 : Option ℕ} (rest : List ℕ)
    (hw : ∀ r, List.count r (p :: (newBuffer2.toList ++ rest)) ≤
      List.count r s.newBuffer2.toList + List.count r s.buffersToWrite)
    (hsome : newBuffer2.isSome = true) (hheap : ∀ r, heap r = s.heap r ∨ (r ∈ s.buffersToWrite ∧ heap r = {}))
    (hempty : heap p = {}) (hempty₂ : ∀ r, newBuffer2 = some r → (heap r).pieces = []) (h₁ : s.newBuffer1 = none) :
    Recycling { s with heap, newBuffer1 := some p, newBuffer2, buffersToWrite := [], phase := .test } := by
  have hother {r : ℕ} (hr : r ∈ s.nextBuffer.toList) : heap r = s.heap r := by
    refine (hheap r).resolve_right ?_
    rintro ⟨hin, -⟩
    exact h.front_elsewhere (by simp [hr]) hin
  refine ⟨h.current, ?_, ?_, ?_, h.next, rfl, hsome, rfl⟩
  · intro r
    have hc := h.counts r
    have hle := hw r
    simp only [roles, h₁, Option.toList_some, Option.toList_none, List.count_append, List.count_cons, List.count_nil]
      at hc hle ⊢
    omega
  · intro r hr
    apply h.allocated r
    by_contra hnot
    have hzero := List.count_eq_zero.mpr hnot
    have hpos := List.count_pos_iff.mpr hr
    have hle := hw r
    simp only [roles, Option.toList_some, List.count_append, List.count_cons, List.count_nil] at hzero hpos hle
    omega
  · intro r hr
    simp only [Option.toList_some, List.mem_append, List.mem_singleton] at hr
    obtain (hr | rfl) | hr := hr
    · exact (congrArg FixedBuffer.pieces (hother hr)).trans (h.spare r (by simp [hr]))
    · exact congrArg FixedBuffer.pieces hempty
    · exact hempty₂ r (by simpa using hr)

theorem Recycling.swap_ok (h : Recycling s) : ∃ t, s.swap = .ok t := by
  obtain ⟨p, hp⟩ := h.current
  simp only [AsyncLogging.swap, hp, get, ok_bind]
  exact ⟨_, rfl⟩

theorem Recycling.initial : Recycling {} := by
  refine ⟨⟨0, rfl⟩, ?_, ?_, ?_, by simp, rfl, rfl, rfl⟩
  · intro r
    simp only [roles, Option.toList_some, Option.toList_none, List.count_append, List.count_singleton, List.count_nil,
      beq_iff_eq]
    split_ifs <;> omega
  · simp [roles]
  · simp

theorem Rotating.kept (h : Rotating s) (ht : Recycling t) (hb : ∀ p ∈ t.buffers, p ∈ s.buffers ∧ t.heap p = s.heap p) :
    Rotating t := by
  refine ⟨ht, ?_⟩
  intro p hp
  obtain ⟨hin, heq⟩ := hb p hp
  rw [heq]
  exact h.full p hin

theorem Rotating.append (h : Rotating s) {logline : Line} (hlen : logline.length < kLargeBuffer)
    (hs : s.append logline = .ok t) : Rotating t := by
  have ht := h.toRecycling.append hs
  obtain ⟨p, hp, ⟨-, rfl⟩ | ⟨hfull, next, b, allocated, hn, rfl⟩⟩ := append_inv hs
  · have hother := h.current_elsewhere hp
    refine h.kept ht fun r hr => ⟨hr, Function.update_of_ne ?_ ..⟩
    rintro rfl
    simp [show r ∈ s.buffers from hr] at hother
  · obtain ⟨hother, -⟩ := h.spare_elsewhere hn
    refine ⟨ht, ?_⟩
    intro r hr
    have hne : r ≠ next := by
      rintro rfl
      simp only [hp, Option.toList_some, List.mem_append] at hother hr
      tauto
    have heq : Function.update s.heap next (b.append logline) r = s.heap r := Function.update_of_ne hne ..
    refine (congrArg (0 < FixedBuffer.length ·) heq).mpr ?_
    rcases List.mem_append.mp hr with hr | hr
    · exact h.full r hr
    · cases List.mem_singleton.mp hr
      exact FixedBuffer.length_pos_of_avail_le hfull hlen

variable [Build]

/-- What a step of `threadFunc` can do, whether or not assertions are on. -/
inductive ThreadStep (s : AsyncLogging) : AsyncLogging → Prop
  | start (h : s.phase = .starting) : ThreadStep s { s with phase := .started }
  | allocate (h : s.phase = .started) : ThreadStep s { s with
      heap := Function.update (Function.update s.heap s.allocated {}) (s.allocated + 1) {}
      allocated := s.allocated + 2
      newBuffer1 := some s.allocated
      newBuffer2 := some (s.allocated + 1)
      phase := .test }
  | again (h : s.phase = .test) (hr : s.running = true) : ThreadStep s { s with phase := .enter }
  | leave (h : s.phase = .test) (hr : s.running = false) : ThreadStep s { s with phase := .finished }
  | wait (h : s.phase = .enter) (hb : s.buffers = []) : ThreadStep s { s with phase := .waiting }
  | swap {t : AsyncLogging} (h : s.phase = .enter ∨ s.phase = .waiting) (hs : s.swap = .ok t) : ThreadStep s t
  | overload (h : s.phase = .swapped) (keep : ℕ)
      (hkeep : keep = if 25 < s.buffersToWrite.length then 2 else s.buffersToWrite.length) : ThreadStep s { s with
      taken := s.taken ++ (s.buffersToWrite.take keep).map (fun p => (false, (s.heap p).pieces)) ++
        (s.buffersToWrite.drop keep).map (fun p => (true, (s.heap p).pieces))
      output := s.output ++
        if 25 < s.buffersToWrite.length then [.notice (s.buffersToWrite.length - 2)] else []
      buffersToWrite := s.buffersToWrite.take keep
      phase := .write 0 }
  | write (i p : ℕ) (h : s.phase = .write i) (hp : s.buffersToWrite[i]? = some p) : ThreadStep s { s with
      output := s.output ++ [.data (s.heap p).data]
      phase := .write (i + 1) }
  | recycle {t : AsyncLogging} (i : ℕ) (h : s.phase = .write i) (hp : s.buffersToWrite[i]? = none)
      (hs : s.recycle = .ok t) : ThreadStep s t

theorem threadFunc_inv (hs : s.threadFunc = .ok t) (he : s.phase ≠ .finished) : ThreadStep s t := by
  unfold threadFunc at hs
  split at hs
  · next h =>
    cases assert_bind_ok hs
    exact .start h
  · next h =>
    cases hs
    exact .allocate h
  · next h =>
    split_ifs at hs with hr
    · obtain ⟨_, -, hs⟩ := bind_eq_ok.mp hs
      obtain ⟨_, -, hs⟩ := bind_eq_ok.mp hs
      cases assert_bind_ok hs
      exact .again h hr
    · cases hs
      exact .leave h (by simpa using hr)
  · next h =>
    split_ifs at hs with hb
    · cases hs
      exact .wait h hb
    · exact .swap (Or.inl h) hs
  · next h => exact .swap (Or.inr h) hs
  · next h =>
    have hs := assert_bind_ok hs
    cases hs
    have hstep := ThreadStep.overload h _ rfl
    dsimp only at hstep ⊢
    split_ifs at hstep ⊢ with hmany
    · exact hstep
    · simpa only [List.take_length, List.append_nil] using hstep
  · next i h =>
    split at hs
    · next p hp =>
      cases hs
      exact .write i p h hp
    · next hp => exact .recycle i h hp hs
  · next h => exact absurd h he

theorem refill_inv {newBuffer newBuffer' : Option ℕ} (h : s.refill newBuffer = .ok (t, newBuffer')) :
    ((∃ n, newBuffer = some n) ∧ t = s ∧ newBuffer' = newBuffer) ∨
      (newBuffer = none ∧ ∃ p ps, s.buffersToWrite = ps ++ [p] ∧ newBuffer' = some p ∧
        t = { s with heap := Function.update s.heap p {}, buffersToWrite := ps }) := by
  cases newBuffer with
  | some n =>
    cases h
    exact Or.inl ⟨⟨n, rfl⟩, rfl, rfl⟩
  | none =>
    obtain ⟨p, hp, h⟩ := bind_eq_ok.mp (assert_bind_ok h)
    obtain ⟨ps, hps⟩ := List.getLast?_eq_some_iff.mp (get_eq_ok hp)
    cases h
    refine Or.inr ⟨rfl, p, ps, hps, rfl, ?_⟩
    simp only [put, hps, List.dropLast_concat]
    rfl

/-- The last two buffers of the batch, or the last one, become the new spare buffers. -/
theorem recycle_inv (h : s.recycle = .ok t) (hn : s.newBuffer1 = none) :
    ∃ p ps, s.buffersToWrite.take 2 = ps ++ [p] ∧
      (((∃ n, s.newBuffer2 = some n) ∧ t = { s with
          heap := Function.update s.heap p {}
          newBuffer1 := some p
          buffersToWrite := []
          phase := .test }) ∨
        (s.newBuffer2 = none ∧ ∃ p' ps', ps = ps' ++ [p'] ∧ t = { s with
          heap := Function.update (Function.update s.heap p {}) p' {}
          newBuffer1 := some p
          newBuffer2 := some p'
          buffersToWrite := []
          phase := .test })) := by
  obtain ⟨⟨s₁, n₁⟩, hs₁, h⟩ := bind_eq_ok.mp h
  obtain ⟨⟨s₂, n₂⟩, hs₂, h⟩ := bind_eq_ok.mp h
  cases h
  obtain ⟨⟨n, hsome⟩, -⟩ | ⟨-, p, ps, hps, rfl, rfl⟩ := refill_inv hs₁
  · rw [hn] at hsome
    cases hsome
  · refine ⟨p, ps, hps, ?_⟩
    obtain ⟨⟨n, hsome⟩, rfl, rfl⟩ | ⟨hnone, p', ps', hps', rfl, rfl⟩ := refill_inv hs₂
    · exact Or.inl ⟨⟨n, hsome⟩, rfl⟩
    · exact Or.inr ⟨hnone, p', ps', hps', rfl⟩

theorem refill_frame {newBuffer newBuffer' : Option ℕ} (h : s.refill newBuffer = .ok (t, newBuffer')) :
    ∃ heap ps, t = { s with heap, buffersToWrite := ps } ∧ ps ⊆ s.buffersToWrite ∧
      ∀ r ∉ s.buffersToWrite, heap r = s.heap r := by
  obtain ⟨-, rfl, -⟩ | ⟨-, p, ps, hps, -, rfl⟩ := refill_inv h
  · exact ⟨t.heap, t.buffersToWrite, rfl, List.Subset.refl _, fun _ _ => rfl⟩
  · refine ⟨_, ps, rfl, by simp [hps], fun r hr => Function.update_of_ne ?_ ..⟩
    rintro rfl
    exact hr (by simp [hps])

/-- Only buffers of the batch are emptied, and nothing but the batch and the spare buffers is replaced. -/
theorem recycle_frame (h : s.recycle = .ok t) :
    ∃ heap newBuffer1 newBuffer2, t = { s with heap, newBuffer1, newBuffer2, buffersToWrite := [], phase := .test } ∧
      ∀ r ∉ s.buffersToWrite, heap r = s.heap r := by
  obtain ⟨⟨s₁, n₁⟩, hs₁, h⟩ := bind_eq_ok.mp h
  obtain ⟨⟨s₂, n₂⟩, hs₂, h⟩ := bind_eq_ok.mp h
  obtain ⟨heap₁, ps₁, rfl, hsub, hheap₁⟩ := refill_frame hs₁
  obtain ⟨heap₂, ps₂, rfl, -, hheap₂⟩ := refill_frame hs₂
  cases h
  refine ⟨heap₂, n₁, n₂, rfl, fun r hr => ?_⟩
  have htake : r ∉ s.buffersToWrite.take 2 := fun hin => hr (List.mem_of_mem_take hin)
  exact (hheap₂ r fun hin => htake (hsub hin)).trans (hheap₁ r htake)

theorem Recycling.recycle {i : ℕ} (h : Recycling s) (hp : s.phase = .write i) (hs : s.recycle = .ok t) : Recycling t := by
  obtain ⟨h₁, -, -⟩ := h.after_swap (Or.inr ⟨i, hp⟩)
  obtain ⟨p, ps, hps, hcase⟩ := recycle_inv hs h₁
  have hsub (r : ℕ) : List.count r (ps ++ [p]) ≤ List.count r s.buffersToWrite :=
    hps ▸ (List.take_sublist 2 s.buffersToWrite).count_le r
  have hin : p ∈ s.buffersToWrite := List.mem_of_mem_take (i := 2) (hps ▸ by simp)
  obtain ⟨⟨n, hn⟩, rfl⟩ | ⟨hn, p', ps', rfl, rfl⟩ := hcase
  · refine h.recycled ps ?_ (by simp [hn]) ?_ (Function.update_self ..) ?_ h₁
    · intro r
      have hle := hsub r
      simp only [List.count_append, List.count_cons, List.count_nil] at hle ⊢
      omega
    · intro r
      by_cases hr : r = p
      · exact Or.inr ⟨hr ▸ hin, hr ▸ Function.update_self ..⟩
      · exact Or.inl (Function.update_of_ne hr ..)
    · intro r hr
      have hne : r ≠ p := by
        rintro rfl
        have hc := h.counts r
        have hpos := List.count_pos_iff.mpr hin
        rw [hr] at hc
        simp only [Option.toList_some, List.count_singleton_self] at hc
        omega
      rw [Function.update_of_ne hne]
      exact h.spare r (by simp [hr])
  · have hin' : p' ∈ s.buffersToWrite := List.mem_of_mem_take (i := 2) (hps ▸ by simp)
    refine h.recycled ps' ?_ rfl ?_ ?_ ?_ h₁
    · intro r
      have hle := hsub r
      simp only [Option.toList_some, List.count_append, List.count_cons, List.count_nil] at hle ⊢
      omega
    · intro r
      by_cases hr' : r = p'
      · exact Or.inr ⟨hr' ▸ hin', hr' ▸ Function.update_self ..⟩
      · rw [Function.update_of_ne hr']
        by_cases hr : r = p
        · exact Or.inr ⟨hr ▸ hin, hr ▸ Function.update_self ..⟩
        · exact Or.inl (Function.update_of_ne hr ..)
    · by_cases hr : p = p'
      · exact hr ▸ Function.update_self ..
      · rw [Function.update_of_ne hr, Function.update_self]
    · intro r hr
      cases hr
      rw [Function.update_self]

theorem Recycling.threadFunc (h : Recycling s) (hs : ThreadStep s t) : Recycling t := by
  have hstage := h.stage
  unfold Stage at hstage
  cases hs with
  | start hp =>
    rw [hp] at hstage
    exact h.move hstage
  | allocate hp => exact h.allocate hp
  | again hp =>
    rw [hp] at hstage
    exact h.move hstage
  | leave hp =>
    rw [hp] at hstage
    exact h.move hstage
  | wait hp =>
    rw [hp] at hstage
    exact h.move hstage
  | swap hp hs => exact h.swap hp hs
  | overload hp keep hkeep => exact h.overload hp hkeep
  | write i p hp =>
    rw [hp] at hstage
    exact h.move hstage
  | recycle i hp _ hs => exact h.recycle hp hs

theorem Rotating.threadFunc (h : Rotating s) (hs : ThreadStep s t) : Rotating t := by
  have ht := h.toRecycling.threadFunc hs
  cases hs with
  | allocate hp =>
    refine h.kept ht fun r hr => ⟨hr, ?_⟩
    have hlt := h.allocated r (by simp [roles, show r ∈ s.buffers from hr])
    exact (Function.update_of_ne (by omega) ..).trans (Function.update_of_ne (by omega) ..)
  | swap hp hs =>
    obtain ⟨p, -, rfl⟩ := swap_inv hs
    obtain ⟨-, -, hw⟩ := h.before_swap hp
    refine h.kept ht fun r hr => ?_
    rw [hw] at hr
    exact absurd hr List.not_mem_nil
  | recycle i hp hi hs =>
    obtain ⟨heap, n₁, n₂, rfl, hheap⟩ := recycle_frame hs
    exact h.kept ht fun r hr => ⟨hr, hheap r (h.front_elsewhere (List.mem_append_right _ hr))⟩
  | _ => exact h.kept ht fun r hr => ⟨hr, rfl⟩

theorem refill_ok (newBuffer : Option ℕ) (h : newBuffer = none → s.buffersToWrite ≠ []) :
    ∃ t p, s.refill newBuffer = .ok (t, some p) := by
  cases newBuffer with
  | some n => exact ⟨s, n, rfl⟩
  | none =>
    have hne := h rfl
    obtain ⟨ps, p, hps⟩ := (List.eq_nil_or_concat s.buffersToWrite).resolve_left hne
    have hlast : s.buffersToWrite.getLast? = some p := by simp [hps]
    simp only [refill, Option.isNone_none, if_true, assert_pos hne, ok_bind, hlast, get]
    exact ⟨_, p, rfl⟩

/-- After the writes both refill branches, if they are entered, find a buffer to take. -/
def Refills (s : AsyncLogging) : Prop :=
  ∃ one two p₁ p₂, (s.newBuffer1 = none → s.buffersToWrite.take 2 ≠ []) ∧
    refill { s with buffersToWrite := s.buffersToWrite.take 2 } s.newBuffer1 = .ok (one, some p₁) ∧
    (one.newBuffer2 = none → one.buffersToWrite ≠ []) ∧ one.refill one.newBuffer2 = .ok (two, some p₂)

theorem Recycling.refills (h : Recycling s) {i : ℕ} (hp : s.phase = .write i) : Refills s := by
  obtain ⟨h₁, hne, h₂⟩ := h.after_swap (Or.inr ⟨i, hp⟩)
  have hne' : s.buffersToWrite.take 2 ≠ [] := by
    rw [ne_eq, List.take_eq_nil_iff]
    simp [hne]
  obtain ⟨one, p₁, hone⟩ := refill_ok (s := { s with buffersToWrite := s.buffersToWrite.take 2 })
    s.newBuffer1 fun _ => hne'
  have hrest : one.newBuffer2 = none → one.buffersToWrite ≠ [] := by
    obtain ⟨⟨n, hn⟩, -⟩ | ⟨-, p, ps, hps, -, rfl⟩ := refill_inv hone
    · rw [h₁] at hn
      cases hn
    · intro hnone hempty
      have hlen := congrArg List.length hps
      have htwo := h₂ hnone
      have hps' : ps = [] := hempty
      subst hps'
      simp only [List.length_take, List.nil_append, List.length_singleton] at hlen
      omega
  obtain ⟨two, p₂, htwo⟩ := refill_ok (s := one) one.newBuffer2 hrest
  exact ⟨one, two, p₁, p₂, fun _ => hne', hone, hrest, htwo⟩

theorem Refills.recycle_ok (h : Refills s) : ∃ t, s.recycle = .ok t := by
  obtain ⟨one, two, p₁, p₂, -, hone, -, htwo⟩ := h
  simp only [AsyncLogging.recycle, hone, ok_bind, htwo]
  exact ⟨_, rfl⟩

theorem Recycling.checkEmpty_ok (h : Recycling s) {newBuffer : Option ℕ} (hsome : newBuffer.isSome = true)
    (hspare : ∀ p ∈ newBuffer.toList, p ∈ s.nextBuffer.toList ++ s.newBuffer1.toList ++ s.newBuffer2.toList) :
    s.checkEmpty newBuffer = .ok () := by
  obtain ⟨n, rfl⟩ := Option.isSome_iff_exists.mp hsome
  have hpieces := h.spare n (hspare n (by simp))
  apply assert_pos
  simp [FixedBuffer.length, FixedBuffer.data, hpieces]

/-- No assertion of `threadFunc` fails and no null pointer is used. -/
theorem Recycling.threadFunc_ok (h : Recycling s) (hrun : s.phase = .starting → s.running = true) :
    ∃ t, s.threadFunc = .ok t := by
  have hstage := h.stage
  unfold Stage at hstage
  unfold AsyncLogging.threadFunc
  cases hp : s.phase with
  | starting =>
    dsimp only
    rw [assert_pos (hrun hp), ok_bind]
    exact ⟨_, rfl⟩
  | started => exact ⟨_, rfl⟩
  | test =>
    rw [hp] at hstage
    obtain ⟨h₁, h₂, hw⟩ := hstage
    dsimp only
    split_ifs
    · rw [h.checkEmpty_ok h₁ (by simp +contextual), ok_bind, h.checkEmpty_ok h₂ (by simp +contextual), ok_bind,
        assert_pos hw, ok_bind]
      exact ⟨_, rfl⟩
    · exact ⟨_, rfl⟩
  | enter =>
    dsimp only
    split_ifs
    · exact ⟨_, rfl⟩
    · exact h.swap_ok
  | waiting => exact h.swap_ok
  | swapped =>
    rw [hp] at hstage
    dsimp only
    simp only [AsyncLogging.overload, assert_pos hstage.2.1, ok_bind]
    exact ⟨_, rfl⟩
  | write i =>
    dsimp only
    split
    · exact ⟨_, rfl⟩
    · exact (h.refills hp).recycle_ok
  | finished => exact ⟨_, rfl⟩

end Buffers

end Networker.AsyncLogging
