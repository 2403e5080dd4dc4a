import Mathlib.Data.Int.CardIntervalMod
import Mathlib.Data.List.Count

/-!
Handing out the members of a list in turn, from its front again after its back. Nothing here
depends on what the members are.
-/

namespace Networker.RoundRobin

variable {α : Type}

/-- The place after `next` in a list of length `n`. -/
def advance (n next : ℕ) : ℕ := if n ≤ next + 1 then 0 else next + 1

theorem advance_mod {n : ℕ} (hn : 0 < n) (k : ℕ) : advance n (k % n) = (k + 1) % n := by
  have hlt := Nat.mod_lt k hn
  unfold advance
  rw [← Nat.mod_add_mod k n 1]
  by_cases h : n ≤ k % n + 1
  · rw [if_pos h, show k % n + 1 = n by omega, Nat.mod_self]
  · rw [if_neg h, Nat.mod_eq_of_lt (Nat.lt_of_not_le h)]

/-- The members of `all` in turn, as far as `given` goes. -/
def InTurn (all given : List α) : Prop := ∀ i a, given[i]? = some a → all[i % all.length]? = some a

theorem InTurn.nil (all : List α) : InTurn all [] := fun _ _ h => by cases h

theorem InTurn.snoc {all given : List α} (h : InTurn all given) {a : α}
    (ha : all[given.length % all.length]? = some a) : InTurn all (given ++ [a]) := by
  intro i b hb
  rcases Nat.lt_trichotomy i given.length with hlt | rfl | hgt
  · rw [List.getElem?_append_left hlt] at hb
    exact h i b hb
  · rw [List.getElem?_concat_length] at hb
    rwa [← Option.some.inj hb]
  · rw [List.getElem?_eq_none (by rw [List.length_append, List.length_singleton]; omega)] at hb
    cases hb

theorem InTurn.of_snoc {all given : List α} {a : α} (h : InTurn all (given ++ [a])) :
    InTurn all given ∧ all[given.length % all.length]? = some a := by
  refine ⟨fun i b hb => ?_, h _ _ List.getElem?_concat_length⟩
  have hlt := (List.getElem?_eq_some_iff.mp hb).1
  exact h i b (by rwa [List.getElem?_append_left hlt])

section Shares

variable [DecidableEq α] {all given : List α}

/-- How often a member was given out. -/
theorem InTurn.count (hall : all.Nodup) {k : ℕ} {a : α} (hk : all[k]? = some a) :
    ∀ {given : List α}, InTurn all given → given.count a = given.length.count (· ≡ k [MOD all.length]) := by
  have hlt := (List.getElem?_eq_some_iff.mp hk).1
  intro given
  induction given using List.reverseRecOn with
  | nil =>
    intro _
    rfl
  | append_singleton given b ih =>
    intro h
    obtain ⟨hgiven, hb⟩ := h.of_snoc
    have hmod := Nat.mod_lt given.length (Nat.lt_of_le_of_lt (Nat.zero_le k) hlt)
    -- the member of this turn is `a` where the turn is at `k`
    have hturn : b = a ↔ given.length ≡ k [MOD all.length] := by
      unfold Nat.ModEq
      rw [Nat.mod_eq_of_lt hlt]
      constructor
      · rintro rfl
        exact (List.getElem?_inj hmod hall).mp (hb.trans hk.symm)
      · intro hmod
        rw [hmod, hk] at hb
        exact (Option.some.inj hb).symm
    rw [List.count_append, List.count_singleton, ih hgiven, List.length_append, List.length_singleton, Nat.count_succ]
    simp only [beq_iff_eq, hturn]

/-- No member is more than one turn ahead of another. -/
theorem InTurn.balanced (hall : all.Nodup) (h : InTurn all given) {a b : α} (ha : a ∈ all) (hb : b ∈ all) :
    given.count a ≤ given.count b + 1 := by
  obtain ⟨i, hi⟩ := List.mem_iff_getElem?.mp ha
  obtain ⟨j, hj⟩ := List.mem_iff_getElem?.mp hb
  have hpos : 0 < all.length := List.length_pos_of_mem ha
  rw [h.count hall hi, h.count hall hj, Nat.count_modEq_card _ hpos, Nat.count_modEq_card _ hpos]
  split_ifs <;> omega

end Shares

end Networker.RoundRobin
