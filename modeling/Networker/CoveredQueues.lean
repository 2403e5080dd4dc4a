import Mathlib.Data.List.Basic

/-!
First-in first-out queues in which an entry that only borrows something is
followed by one that keeps it.
-/

namespace Networker.CoveredQueues

variable {α : Type} {borrows keeps : α → Prop}

def Covered (borrows keeps : α → Prop) : List α → Prop
  | [] => True
  | x :: xs => (borrows x → ∃ y ∈ xs, keeps y) ∧ Covered borrows keeps xs

namespace Covered

variable {x : α} {xs ys : List α}

theorem tail (h : Covered borrows keeps (x :: xs)) : Covered borrows keeps xs := h.2

theorem append (h : Covered borrows keeps xs) (hys : ∀ y ∈ ys, ¬borrows y) : Covered borrows keeps (xs ++ ys) := by
  induction xs with
  | nil =>
    induction ys with
    | nil => trivial
    | cons y ys ih =>
      exact ⟨fun hy => absurd hy (hys y (by simp)), ih fun z hz => hys z (List.mem_cons_of_mem y hz)⟩
  | cons x xs ih =>
    refine ⟨fun hx => ?_, ih h.2⟩
    obtain ⟨y, hy, hk⟩ := h.1 hx
    exact ⟨y, List.mem_append_left _ hy, hk⟩

/-- An entry that keeps covers whatever is before it. -/
theorem concat {y : α} (hk : keeps y) (hb : ¬borrows y) : Covered borrows keeps (xs ++ [y]) := by
  induction xs with
  | nil => exact ⟨fun hy => absurd hy hb, trivial⟩
  | cons x xs ih => exact ⟨fun _ => ⟨y, by simp, hk⟩, ih⟩

theorem not_borrows (h : Covered borrows keeps xs) (hk : ∀ y ∈ xs, ¬keeps y) : ∀ y ∈ xs, ¬borrows y := by
  induction xs with
  | nil => simp
  | cons x xs ih =>
    intro y hy
    rcases List.mem_cons.mp hy with rfl | hy
    · intro hb
      obtain ⟨z, hz, hkz⟩ := h.1 hb
      exact hk z (List.mem_cons_of_mem _ hz) hkz
    · exact ih h.2 (fun z hz => hk z (List.mem_cons_of_mem x hz)) y hy

end Covered

end Networker.CoveredQueues
