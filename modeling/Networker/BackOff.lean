import Mathlib.Algebra.BigOperators.Intervals
import Networker.VectorSearch

/-!
Retries after delays that double up to a bound. Nothing here depends on what is retried.
-/

namespace Networker.BackOff

open VectorSearch

/-- The delay after the retry number `k`, from zero. -/
def delay (first most k : ℕ) : ℕ := min (first * 2 ^ k) most

/-- Of every retry there is the time it was asked for and its delay, and none is asked for before the last has been made. -/
inductive BackedOff (first most : ℕ) : List (ℕ × ℕ) → Prop
  | nil : BackedOff first most []
  | snoc {retries : List (ℕ × ℕ)} {now : ℕ} :
      BackedOff first most retries → (∀ last ∈ retries.getLast?, last.1 + last.2 ≤ now) →
      BackedOff first most (retries ++ [(now, delay first most retries.length)])

variable {first most : ℕ} {retries : List (ℕ × ℕ)}

theorem delay_zero (h : first ≤ most) : delay first most 0 = first := by
  rw [delay, pow_zero, mul_one, min_eq_left h]

theorem delay_succ (k : ℕ) : min (delay first most k * 2) most = delay first most (k + 1) := by
  unfold delay
  rw [pow_succ, ← mul_assoc]
  omega

theorem BackedOff.delays (h : BackedOff first most retries) {k : ℕ} {r : ℕ × ℕ} (hr : retries[k]? = some r) :
    r.2 = delay first most k := by
  induction h with
  | nil => cases hr
  | snoc _ _ ih =>
    obtain ⟨rfl, rfl⟩ | hr := getElem?_concat_iff.mp hr
    · rfl
    · exact ih hr

/-- The delays between two retries add up to a time that has passed. -/
theorem BackedOff.elapsed (h : BackedOff first most retries) {i j : ℕ} {a b : ℕ × ℕ} (hij : i ≤ j)
    (ha : retries[i]? = some a) (hb : retries[j]? = some b) : a.1 + ∑ k ∈ Finset.Ico i j, delay first most k ≤ b.1 := by
  induction h generalizing j b with
  | nil => cases ha
  | @snoc retries now h hlast ih =>
    obtain ⟨rfl, rfl⟩ | hb := getElem?_concat_iff.mp hb
    · obtain ⟨rfl, rfl⟩ | ha := getElem?_concat_iff.mp ha
      · rw [Finset.Ico_self, Finset.sum_empty]
        exact Nat.le_refl now
      · -- the last retry before this one has been made
        have hi := (List.getElem?_eq_some_iff.mp ha).1
        obtain ⟨c, hc⟩ : ∃ c, retries[retries.length - 1]? = some c := ⟨_, List.getElem?_eq_getElem (by omega)⟩
        have hsum := ih (by omega) ha hc
        have hmade := hlast c (by rwa [List.getLast?_eq_getElem?])
        rw [h.delays hc] at hmade
        have hsucc := Finset.sum_Ico_succ_top (show i ≤ retries.length - 1 by omega) (delay first most)
        rw [Nat.sub_add_cancel (by omega)] at hsucc
        rw [hsucc]
        dsimp only
        omega
    · have hj := (List.getElem?_eq_some_iff.mp hb).1
      obtain ⟨rfl, rfl⟩ | ha := getElem?_concat_iff.mp ha
      · exact absurd hij (by omega)
      · exact ih hij ha hb

end Networker.BackOff
