import Mathlib.Data.List.Perm.Basic
import Mathlib.Data.List.Range
import Mathlib.Data.List.Nodup
import Mathlib.Logic.Function.Basic

/-!
The descriptors a component creates. A number is free again once it is closed, so
each open file also has a serial number, and the component's own `close` calls and
hand-overs are recorded by it. Nothing here depends on the program that owns them.
-/

namespace Networker

structure OpenFile (τ : Type) where
  serial : ℕ
  attr : τ
deriving DecidableEq, Repr

structure Descriptors (τ : Type) where
  table : ℕ → Option (OpenFile τ) := fun _ => none
  created : ℕ := 0
  closed : List ℕ := []
  handed : List ℕ := []
  /-- numbers the component closed while they named none of its files -/
  stray : List ℕ := []

namespace Descriptors

variable {τ : Type}

def create (d : Descriptors τ) (fd : ℕ) (attr : τ) : Descriptors τ :=
  { d with table := Function.update d.table fd (some ⟨d.created, attr⟩), created := d.created + 1 }

def close (d : Descriptors τ) (fd : ℕ) : Descriptors τ :=
  match d.table fd with
  | some f => { d with table := Function.update d.table fd none, closed := d.closed ++ [f.serial] }
  | none => { d with stray := d.stray ++ [fd] }

def modify (d : Descriptors τ) (fd : ℕ) (g : τ → τ) : Descriptors τ :=
  { d with table := Function.update d.table fd ((d.table fd).map fun f => { f with attr := g f.attr }) }

/-- The component passes the file on and is done with it. -/
def hand (d : Descriptors τ) (fd : ℕ) : Descriptors τ :=
  { d with handed := d.handed ++ ((d.table fd).map OpenFile.serial).toList }

/-- The one it was passed to closes it. -/
def release (d : Descriptors τ) (fd : ℕ) : Descriptors τ :=
  { d with table := Function.update d.table fd none }

theorem close_handed (d : Descriptors τ) (fd : ℕ) : (d.close fd).handed = d.handed := by
  unfold close
  split <;> rfl

theorem close_created (d : Descriptors τ) (fd : ℕ) : (d.close fd).created = d.created := by
  unfold close
  split <;> rfl

theorem close_other (d : Descriptors τ) {fd fd' : ℕ} (h : fd' ≠ fd) : (d.close fd).table fd' = d.table fd' := by
  unfold close
  split
  · exact Function.update_of_ne h _ _
  · rfl

theorem create_other (d : Descriptors τ) {fd fd' : ℕ} (h : fd' ≠ fd) (attr : τ) :
    (d.create fd attr).table fd' = d.table fd' := Function.update_of_ne h _ _

/-- The files that have been passed on are open as before, and no other has been passed on. -/
structure KeepsHanded (d d' : Descriptors τ) : Prop where
  table : ∀ fd f, d.table fd = some f → f.serial ∈ d.handed → d'.table fd = some f
  handed : d'.handed = d.handed

theorem KeepsHanded.refl (d : Descriptors τ) : KeepsHanded d d := ⟨fun _ _ h _ => h, rfl⟩

theorem KeepsHanded.create (d : Descriptors τ) {fd : ℕ} (h : d.table fd = none) (attr : τ) :
    KeepsHanded d (d.create fd attr) := by
  refine ⟨fun fd' f hf _ => ?_, rfl⟩
  rw [create_other _ _ attr, hf]
  rintro rfl
  cases h.symm.trans hf

/-- Every file that was created was closed once, or passed on once, or is one of `held`, given as pairs of a number
and a serial. -/
structure Custody (d : Descriptors τ) (held : List (ℕ × ℕ)) : Prop where
  accounted : (held.map Prod.snd ++ (d.closed ++ d.handed)).Perm (List.range d.created)
  named : ∀ p ∈ held, (d.table p.1).map OpenFile.serial = some p.2
  stray : d.stray = []

theorem initial_custody : Custody ({} : Descriptors τ) [] := by
  constructor
  · exact .refl _
  · simp
  · rfl

section Custody

variable {d : Descriptors τ} {held : List (ℕ × ℕ)} {fd k : ℕ}

theorem Custody.nodup (h : Custody d held) : (held.map Prod.snd ++ (d.closed ++ d.handed)).Nodup :=
  h.accounted.nodup_iff.mpr List.nodup_range

-- two held numbers with one file behind them would be one serial twice
theorem Custody.ne_of_mem (h : Custody d ((fd, k) :: held)) {p : ℕ × ℕ} (hp : p ∈ held) : p.1 ≠ fd := by
  rintro rfl
  have hk : some p.2 = some k := by
    rw [← h.named p (List.mem_cons_of_mem _ hp), ← h.named (p.1, k) List.mem_cons_self]
  have hnd := (List.nodup_append.mp h.nodup).1
  rw [List.map_cons, List.nodup_cons] at hnd
  apply hnd.1
  rw [List.mem_map]
  exact ⟨p, hp, Option.some.inj hk⟩

theorem Custody.create (h : Custody d held) (hfd : d.table fd = none) (attr : τ) :
    Custody (d.create fd attr) ((fd, d.created) :: held) := by
  constructor
  · have hr : (List.range (d.created + 1)).Perm (d.created :: List.range d.created) := by
      rw [List.range_succ]
      exact List.perm_append_singleton _ _
    exact (h.accounted.cons d.created).trans hr.symm
  · intro p hp
    rcases List.mem_cons.mp hp with rfl | hp
    · simp [Descriptors.create]
    · have hne : p.1 ≠ fd := by
        intro he
        have hn := h.named p hp
        rw [he, hfd] at hn
        cases hn
      simpa [Descriptors.create, hne] using h.named p hp
  · exact h.stray

theorem Custody.file (h : Custody d ((fd, k) :: held)) : ∃ attr, d.table fd = some ⟨k, attr⟩ := by
  obtain ⟨f, hf, rfl⟩ := Option.map_eq_some_iff.mp (h.named (fd, k) List.mem_cons_self)
  exact ⟨f.attr, hf⟩

theorem Custody.close (h : Custody d ((fd, k) :: held)) : Custody (d.close fd) held := by
  obtain ⟨attr, hf⟩ := h.file
  simp only [Descriptors.close, hf]
  constructor
  · have hm : (held.map Prod.snd ++ ((d.closed ++ [k]) ++ d.handed)).Perm
        (((fd, k) :: held).map Prod.snd ++ (d.closed ++ d.handed)) := by
      rw [List.append_assoc d.closed, List.map_cons, List.cons_append]
      exact (List.perm_middle.append_left _).trans List.perm_middle
    exact hm.trans h.accounted
  · intro p hp
    simpa [h.ne_of_mem hp] using h.named p (List.mem_cons_of_mem _ hp)
  · exact h.stray

theorem Custody.hand (h : Custody d ((fd, k) :: held)) : Custody (d.hand fd) held := by
  obtain ⟨attr, hf⟩ := h.file
  simp only [Descriptors.hand, hf, Option.map_some, Option.toList_some]
  constructor
  · have hm : (held.map Prod.snd ++ (d.closed ++ (d.handed ++ [k]))).Perm
        (((fd, k) :: held).map Prod.snd ++ (d.closed ++ d.handed)) := by
      rw [← List.append_assoc d.closed, ← List.append_assoc, List.map_cons, List.cons_append]
      exact List.perm_append_singleton _ _
    exact hm.trans h.accounted
  · exact fun p hp => h.named p (List.mem_cons_of_mem _ hp)
  · exact h.stray

theorem Custody.modify (h : Custody d held) (fd : ℕ) (g : τ → τ) : Custody (d.modify fd g) held := by
  refine ⟨h.accounted, ?_, h.stray⟩
  intro p hp
  rw [← h.named p hp]
  by_cases he : p.1 = fd
  · simp [Descriptors.modify, he, Function.comp_def]
  · simp [Descriptors.modify, he]

theorem Custody.release (h : Custody d held) {f : OpenFile τ} (hf : d.table fd = some f)
    (hh : f.serial ∈ d.handed) : Custody (d.release fd) held := by
  refine ⟨h.accounted, ?_, h.stray⟩
  intro p hp
  have hn := h.named p hp
  have hne : p.1 ≠ fd := by
    rintro rfl
    rw [hf, Option.map_some, Option.some_inj] at hn
    -- the file would be both held and passed on
    have hdisj := (List.nodup_append.mp h.nodup).2.2
    exact hdisj p.2 (List.mem_map_of_mem hp) f.serial (List.mem_append_right _ hh) hn.symm
  simpa [Descriptors.release, hne] using hn

/-- What is held has not been passed on. -/
theorem Custody.keepsHanded_close (h : Custody d ((fd, k) :: held)) : KeepsHanded d (d.close fd) := by
  refine ⟨fun fd' f hf hm => ?_, close_handed d fd⟩
  rw [close_other, hf]
  rintro rfl
  obtain ⟨attr, hk⟩ := h.file
  cases hk.symm.trans hf
  have hdisj := (List.nodup_append.mp h.nodup).2.2
  exact hdisj k List.mem_cons_self k (List.mem_append_right _ hm) rfl

theorem Custody.owned_iff (h : Custody d held) :
    k < d.created ∧ k ∉ d.closed ∧ k ∉ d.handed ↔ k ∈ held.map Prod.snd := by
  have hdisj := (List.nodup_append.mp h.nodup).2.2
  rw [← List.mem_range, ← h.accounted.mem_iff, List.mem_append, List.mem_append]
  constructor
  · rintro ⟨hk | hk | hk, hc, hh⟩
    · exact hk
    · exact absurd hk hc
    · exact absurd hk hh
  · intro hk
    refine ⟨Or.inl hk, ?_, ?_⟩
    · exact fun hc => hdisj k hk k (List.mem_append_left _ hc) rfl
    · exact fun hh => hdisj k hk k (List.mem_append_right _ hh) rfl

theorem Custody.once (h : Custody d held) (hk : k < d.created) (hheld : k ∉ held.map Prod.snd) :
    d.closed.count k + d.handed.count k = 1 := by
  have hc := h.accounted.count_eq k
  rw [List.count_append, List.count_append, List.count_eq_zero_of_not_mem hheld, Nat.zero_add] at hc
  rw [hc]
  exact List.count_eq_one_of_mem List.nodup_range (List.mem_range.mpr hk)

end Custody

end Descriptors

end Networker
