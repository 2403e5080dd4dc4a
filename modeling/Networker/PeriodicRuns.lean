import Mathlib.Data.List.Basic
import Mathlib.Data.Int.Basic
import Mathlib.Tactic.Linarith

/-!
Jobs that run once, or again a period after each run. What happens late is not made up
for: the period counts from the time of the run, not from when it was due. Nothing here
depends on who runs the jobs.
-/

namespace Networker.PeriodicRuns

/-- When a job is due after its runs so far. Of a run there is the time it was due and the time it ran. -/
def nextDue (first : ℤ) (period : Option ℕ) (runs : List (ℤ × ℤ)) : Option ℤ :=
  match runs.getLast? with
  | none => some first
  | some (_, now) => period.map fun (delta : ℕ) => now + delta

/-- Every run was due, and is not early. -/
inductive Paced (first : ℤ) (period : Option ℕ) : List (ℤ × ℤ) → Prop
  | nil : Paced first period []
  | snoc {runs : List (ℤ × ℤ)} {due now : ℤ} :
      Paced first period runs → nextDue first period runs = some due → due ≤ now →
      Paced first period (runs ++ [(due, now)])

variable {first : ℤ} {period : Option ℕ} {runs : List (ℤ × ℤ)}

@[simp] theorem nextDue_nil : nextDue first period [] = some first := rfl

theorem nextDue_snoc (due now : ℤ) : nextDue first period (runs ++ [(due, now)]) = period.map fun (delta : ℕ) => now + delta := by
  simp [nextDue]

/-- A job that is due again has a period, and the last run is that long ago. -/
theorem nextDue_eq_some {due : ℤ} (h : nextDue first period runs = some due) :
    (runs = [] ∧ due = first) ∨ ∃ (earlier : List (ℤ × ℤ)) (last now : ℤ) (delta : ℕ), runs = earlier ++ [(last, now)] ∧
      period = some delta ∧ due = now + delta := by
  rcases List.eq_nil_or_concat' runs with rfl | ⟨earlier, ⟨last, now⟩, rfl⟩
  · exact Or.inl ⟨rfl, (Option.some.inj h).symm⟩
  · rw [nextDue_snoc] at h
    obtain ⟨delta, hdelta, rfl⟩ := Option.map_eq_some_iff.mp h
    exact Or.inr ⟨earlier, last, now, delta, rfl, hdelta, rfl⟩

/-- Any two runs are a period apart. -/
theorem Paced.apart (h : Paced first period runs) :
    (runs.map Prod.snd).Pairwise fun (a b : ℤ) => ∃ delta : ℕ, period = some delta ∧ a + delta ≤ b := by
  induction h with
  | nil => exact .nil
  | @snoc runs due now _ hdue hnow ih =>
    rw [List.map_append, List.map_singleton]
    refine List.pairwise_append.mpr ⟨ih, List.pairwise_singleton .., fun a ha b hb => ?_⟩
    cases List.mem_singleton.mp hb
    obtain ⟨rfl, -⟩ | ⟨earlier, last, before, delta, rfl, hperiod, rfl⟩ := nextDue_eq_some hdue
    · cases ha
    · refine ⟨delta, hperiod, ?_⟩
      rw [List.map_append, List.map_singleton] at ih ha
      rcases List.mem_append.mp ha with ha | ha
      · obtain ⟨delta', hperiod', hle⟩ := (List.pairwise_append.mp ih).2.2 a ha before (by simp)
        cases hperiod.symm.trans hperiod'
        omega
      · cases List.mem_singleton.mp ha
        exact hnow

theorem Paced.once (h : Paced first none runs) : runs.length ≤ 1 := by
  cases h with
  | nil => exact Nat.zero_le 1
  | snoc _ hdue _ =>
    obtain ⟨rfl, -⟩ | ⟨_, _, _, _, -, hperiod, -⟩ := nextDue_eq_some hdue
    · exact le_rfl
    · cases hperiod

/-- The run number `i`, from zero, comes no earlier than `i` periods after the first due time. -/
theorem Paced.not_before {delta : ℕ} (h : Paced first (some delta) runs) {i : ℕ} {run : ℤ × ℤ}
    (hi : runs[i]? = some run) : first + i * delta ≤ run.2 := by
  induction h generalizing i run with
  | nil => cases hi
  | @snoc runs due now _ hdue hnow ih =>
    rw [List.getElem?_append] at hi
    split_ifs at hi with hlt
    · exact ih hi
    · obtain ⟨hlen, rfl⟩ : i = runs.length ∧ (due, now) = run := by
        obtain ⟨hbound, hget⟩ := List.getElem?_eq_some_iff.mp hi
        rw [List.length_singleton] at hbound
        refine ⟨by omega, ?_⟩
        rw [← hget]
        simp
      obtain ⟨rfl, rfl⟩ | ⟨earlier, last, before, delta', rfl, hperiod, rfl⟩ := nextDue_eq_some hdue
      · simpa [hlen] using hnow
      · cases hperiod
        have hlast := @ih earlier.length (last, before) (by simp)
        rw [List.length_append, List.length_singleton] at hlen
        rw [hlen]
        push_cast
        dsimp only at hlast ⊢
        linarith

end Networker.PeriodicRuns
