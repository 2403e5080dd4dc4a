import Mathlib.Data.List.Infix
import Mathlib.Order.Lattice

/-!
Searching a list for the first range equal to a pattern, as `std::search` does, and how
the result changes when the list grows at its end.
-/

namespace Networker.PatternSearch

/-- The least number from `start` on that satisfies `P`, or none of them does. -/
def Finds (P : ℕ → Prop) (start : ℕ) : Option ℕ → Prop
  | some p => start ≤ p ∧ P p ∧ ∀ q, start ≤ q → q < p → ¬P q
  | none => ∀ p, start ≤ p → ¬P p

namespace Finds

variable {P Q : ℕ → Prop} {start : ℕ} {r r' : Option ℕ}

theorem unique (h : Finds P start r) (h' : Finds P start r') : r = r' := by
  cases r with
  | none =>
    cases r' with
    | none => rfl
    | some p => exact absurd h'.2.1 (h p h'.1)
  | some p =>
    cases r' with
    | none => exact absurd h.2.1 (h' p h.1)
    | some p' =>
      obtain ⟨hs, hp, hmin⟩ := h
      obtain ⟨hs', hp', hmin'⟩ := h'
      rcases Nat.lt_trichotomy p p' with hlt | heq | hlt
      · exact absurd hp (hmin' p hs hlt)
      · rw [heq]
      · exact absurd hp' (hmin p' hs' hlt)

theorem congr (h : Finds P start r) (hPQ : ∀ p, start ≤ p → (P p ↔ Q p)) : Finds Q start r := by
  cases r with
  | none => exact fun p hp hq => h p hp ((hPQ p hp).mpr hq)
  | some p =>
    obtain ⟨hs, hp, hmin⟩ := h
    exact ⟨hs, (hPQ p hs).mp hp, fun q hq hlt hQ => hmin q hq hlt ((hPQ q hq).mpr hQ)⟩

theorem shift (k : ℕ) (h : Finds P start r) (hPQ : ∀ p, P p ↔ Q (k + p)) : Finds Q (k + start) (r.map (k + ·)) := by
  cases r with
  | none =>
    intro p hp hq
    obtain ⟨m, rfl⟩ := Nat.exists_eq_add_of_le (Nat.le_trans (Nat.le_add_right k start) hp)
    exact h m (by omega) ((hPQ m).mpr hq)
  | some p =>
    obtain ⟨hs, hp, hmin⟩ := h
    refine ⟨Nat.add_le_add_left hs k, (hPQ p).mp hp, ?_⟩
    intro q hq hlt hQ
    obtain ⟨m, rfl⟩ := Nat.exists_eq_add_of_le (Nat.le_trans (Nat.le_add_right k start) hq)
    exact hmin m (by omega) (by have := Nat.lt_of_add_lt_add_left hlt; exact this) ((hPQ m).mpr hQ)

/-- Where nothing is skipped, the search may start earlier. -/
theorem from_earlier {first : ℕ} (h : Finds P start r) (hle : first ≤ start) (hnone : ∀ p, first ≤ p → p < start → ¬P p) :
    Finds P first r := by
  cases r with
  | none =>
    intro p hp
    by_cases hlt : p < start
    · exact hnone p hp hlt
    · exact h p (by omega)
  | some p =>
    obtain ⟨hs, hp, hmin⟩ := h
    refine ⟨Nat.le_trans hle hs, hp, ?_⟩
    intro q hq hlt
    by_cases hqs : q < start
    · exact hnone q hq hqs
    · exact hmin q (by omega) hlt

end Finds

variable {α : Type} {pattern text more : List α}

def Occurs (pattern text : List α) (p : ℕ) : Prop := pattern <+: text.drop p ∧ p ≤ text.length

theorem Occurs.le (h : Occurs pattern text p) : p + pattern.length ≤ text.length := by
  have hlen := h.1.length_le
  have hp := h.2
  rw [List.length_drop] at hlen
  omega

/-- An occurrence depends on the text up to its end only. -/
theorem occurs_append_iff {p : ℕ} (h : p + pattern.length ≤ text.length) :
    Occurs pattern (text ++ more) p ↔ Occurs pattern text p := by
  have hp : p ≤ text.length := by omega
  have hlen : pattern.length ≤ (text.drop p).length := by
    rw [List.length_drop]
    omega
  simp only [Occurs, List.drop_append_of_le_length hp, List.length_append]
  constructor
  · rintro ⟨hpre, -⟩
    exact ⟨List.prefix_of_prefix_length_le hpre (List.prefix_append _ _) hlen, hp⟩
  · rintro ⟨hpre, -⟩
    exact ⟨hpre.trans (List.prefix_append _ _), by omega⟩

theorem occurs_drop_iff {k : ℕ} (hk : k ≤ text.length) (p : ℕ) :
    Occurs pattern (text.drop k) p ↔ Occurs pattern text (k + p) := by
  simp only [Occurs, List.drop_drop, List.length_drop]
  constructor
  · rintro ⟨hpre, hp⟩
    exact ⟨hpre, by omega⟩
  · rintro ⟨hpre, hp⟩
    exact ⟨hpre, by omega⟩

theorem Finds.append {start p : ℕ} (h : Finds (Occurs pattern text) start (some p)) :
    Finds (Occurs pattern (text ++ more)) start (some p) := by
  obtain ⟨hs, hp, hmin⟩ := h
  have hle := hp.le
  refine ⟨hs, (occurs_append_iff hle).mpr hp, ?_⟩
  intro q hq hlt hocc
  exact hmin q hq hlt ((occurs_append_iff (by omega)).mp hocc)

/-- A text without the pattern need not be searched again but for its end, where an occurrence may have begun. -/
theorem Finds.resume {r : Option ℕ} (hnone : Finds (Occurs pattern text) 0 none)
    (h : Finds (Occurs pattern (text ++ more)) (text.length + 1 - pattern.length) r) :
    Finds (Occurs pattern (text ++ more)) 0 r := by
  apply h.from_earlier (Nat.zero_le _)
  intro p _ hlt hocc
  exact hnone p (Nat.zero_le _) ((occurs_append_iff (by omega)).mp hocc)

section Search

variable [DecidableEq α]

/-- The offset of the first range equal to `pattern`. -/
def search (pattern : List α) : List α → Option ℕ
  | [] => if pattern = [] then some 0 else none
  | a :: text => if pattern <+: a :: text then some 0 else (search pattern text).map (1 + ·)

theorem search_finds (pattern text : List α) : Finds (Occurs pattern text) 0 (search pattern text) := by
  induction text with
  | nil =>
    unfold search
    split_ifs with h
    · exact ⟨Nat.le_refl _, ⟨by simp [h], Nat.le_refl _⟩, by simp⟩
    · rintro p - ⟨hpre, -⟩
      rw [List.drop_nil, List.prefix_nil] at hpre
      exact h hpre
  | cons a text ih =>
    unfold search
    split_ifs with h
    · exact ⟨Nat.le_refl _, ⟨h, Nat.zero_le _⟩, by simp⟩
    · have hiff : ∀ p, Occurs pattern ((a :: text).drop 1) p ↔ Occurs pattern (a :: text) (1 + p) :=
        occurs_drop_iff (by simp)
      apply (ih.shift 1 hiff).from_earlier (Nat.zero_le _)
      intro p _ hlt hocc
      obtain rfl : p = 0 := by omega
      exact h hocc.1

theorem search_drop_finds (pattern : List α) {text : List α} {k : ℕ} (hk : k ≤ text.length) :
    Finds (Occurs pattern text) k ((search pattern (text.drop k)).map (k + ·)) :=
  (search_finds pattern (text.drop k)).shift k (occurs_drop_iff hk)

end Search

end Networker.PatternSearch
