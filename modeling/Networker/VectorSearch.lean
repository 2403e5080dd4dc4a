import Networker.CheckedRuns
import Mathlib.Data.List.Pairwise
import Mathlib.Order.Lattice

/-!
Elements of a vector that have to exist, and the binary search of `std::lower_bound`. What the
search finds is described first without the assumption that the vector is sorted.
-/

namespace Networker.VectorSearch

open CheckedRuns

variable {α : Type}

/-- `operator[]`, without a bounds check. -/
def element (l : List α) (i : ℕ) : Exec α :=
  match l[i]? with
  | some a => .ok a
  | none => .error .undefined

def front (l : List α) : Exec α := element l 0

def back (l : List α) : Exec α := element l (l.length - 1)

/-- The element before the one that an iterator points to. -/
def previous (l : List α) : ℕ → Exec α
  | 0 => .error .undefined
  | i + 1 => element l i

/-- The loop of the search, with the number of elements that are left as a bound on its rounds. -/
def lowerBoundFrom (before : α → Bool) (l : List α) : ℕ → ℕ → ℕ → ℕ
  | 0, first, _ => first
  | rounds + 1, first, len =>
    if len = 0 then first
    else
      let half := len / 2
      match l[first + half]? with
      | some a =>
        if before a then lowerBoundFrom before l rounds (first + half + 1) (len - half - 1)
        else lowerBoundFrom before l rounds first half
      | none => first

def lowerBound (before : α → Bool) (l : List α) : ℕ := lowerBoundFrom before l l.length 0 l.length

theorem element_eq {l : List α} {i : ℕ} {a : α} (h : l[i]? = some a) : element l i = .ok a := by
  unfold element
  rw [h]

theorem previous_eq {l : List α} {i : ℕ} {a : α} (h : l[i]? = some a) : previous l (i + 1) = .ok a := element_eq h

theorem element_ok {l : List α} {i : ℕ} {a : α} (h : element l i = .ok a) : l[i]? = some a := by
  unfold element at h
  split at h
  · rename_i hi
    rw [hi, Except.ok.inj h]
  · cases h

theorem element_lt {l : List α} {i : ℕ} (h : i < l.length) : ∃ a, element l i = .ok a :=
  ⟨l[i], element_eq (List.getElem?_eq_getElem h)⟩

theorem getElem?_concat_iff {l : List α} {i : ℕ} {a b : α} :
    (l ++ [a])[i]? = some b ↔ (i = l.length ∧ b = a) ∨ l[i]? = some b := by
  rcases Nat.lt_trichotomy i l.length with hlt | rfl | hgt
  · rw [List.getElem?_append_left hlt]
    exact ⟨Or.inr, fun h => h.resolve_left fun hi => absurd hi.1 (by omega)⟩
  · rw [List.getElem?_concat_length, List.getElem?_eq_none (Nat.le_refl _)]
    simp [eq_comm]
  · rw [List.getElem?_eq_none (by simp; omega), List.getElem?_eq_none (by omega)]
    simp
    omega

theorem getElem?_set_iff {l : List α} {i j : ℕ} {a b : α} (hi : i < l.length) :
    (l.set i a)[j]? = some b ↔ (j = i ∧ b = a) ∨ (j ≠ i ∧ l[j]? = some b) := by
  by_cases hj : j = i
  · subst hj
    rw [List.getElem?_set_self hi]
    simp [eq_comm]
  · rw [List.getElem?_set_ne (Ne.symm hj)]
    simp [hj]

/-- A place between an element that comes before the wanted one and an element that does not. -/
structure Boundary (before : α → Bool) (l : List α) (first last : ℕ) : Prop where
  first_le : first ≤ last
  last_le : last ≤ l.length
  below : ∀ a, 0 < first → l[first - 1]? = some a → before a = true
  above : ∀ a, l[last]? = some a → before a = false

variable {before : α → Bool} {l : List α}

theorem Boundary.search {rounds first len : ℕ} (h : Boundary before l first (first + len)) (hr : len ≤ rounds) :
    Boundary before l (lowerBoundFrom before l rounds first len) (lowerBoundFrom before l rounds first len) := by
  induction rounds generalizing first len with
  | zero =>
    have hlen : len = 0 := by omega
    subst hlen
    exact h
  | succ rounds ih =>
    have hle := h.last_le
    unfold lowerBoundFrom
    split
    case isTrue hlen =>
      subst hlen
      exact h
    case isFalse hlen =>
      have hmid : l[first + len / 2]? = some l[first + len / 2] := List.getElem?_eq_getElem (by omega)
      dsimp only
      rw [hmid]
      dsimp only
      split
      case isTrue hbefore =>
        apply ih
        · constructor
          case first_le => omega
          case last_le => omega
          case below =>
            intro a _ ha
            rw [Nat.add_sub_cancel, hmid] at ha
            rwa [← Option.some.inj ha]
          case above =>
            rw [show first + len / 2 + 1 + (len - len / 2 - 1) = first + len by omega]
            exact h.above
        · omega
      case isFalse hbefore =>
        apply ih
        · constructor
          case first_le => omega
          case last_le => omega
          case below => exact h.below
          case above =>
            intro a ha
            rw [hmid] at ha
            rwa [← Option.some.inj ha, Bool.eq_false_iff]
        · omega

theorem lowerBound_boundary (before : α → Bool) (l : List α) :
    Boundary before l (lowerBound before l) (lowerBound before l) := by
  apply Boundary.search
  · constructor
    case first_le => omega
    case last_le => omega
    case below => intro a h; omega
    case above =>
      intro a ha
      rw [List.getElem?_eq_none (by omega)] at ha
      cases ha
  · exact Nat.le_refl _

section Keys

variable {κ : Type} [LinearOrder κ] (key : α → κ)

def Ascending (l : List α) : Prop := l.Pairwise fun a b => key a < key b

/-- Exactly the first `n` elements have a key up to `k`. -/
structure UpTo (l : List α) (k : κ) (n : ℕ) : Prop where
  le_length : n ≤ l.length
  iff : ∀ i a, l[i]? = some a → (key a ≤ k ↔ i < n)

/-- The last element whose key is at most `k`, as far as its neighbour can tell. -/
def LastUpTo (l : List α) (k : κ) (i : ℕ) (a : α) : Prop :=
  l[i]? = some a ∧ key a ≤ k ∧ ∀ b, l[i + 1]? = some b → k < key b

variable {key} {k : κ}

theorem Ascending.lt (h : Ascending key l) {i j : ℕ} {a b : α} (ha : l[i]? = some a) (hb : l[j]? = some b)
    (hij : i < j) : key a < key b := by
  obtain ⟨hi, rfl⟩ := List.getElem?_eq_some_iff.mp ha
  obtain ⟨hj, rfl⟩ := List.getElem?_eq_some_iff.mp hb
  exact List.pairwise_iff_getElem.mp h i j hi hj hij

theorem Ascending.lt_of_first (h : Ascending key l) (hfirst : ∀ a, l[0]? = some a → k < key a) : ∀ a ∈ l, k < key a := by
  intro a ha
  obtain ⟨i, hi⟩ := List.getElem?_of_mem ha
  have hlen := (List.getElem?_eq_some_iff.mp hi).1
  have hzero : l[0]? = some l[0] := List.getElem?_eq_getElem (by omega)
  rcases Nat.eq_zero_or_pos i with rfl | hpos
  · exact hfirst a hi
  · exact (hfirst _ hzero).trans (h.lt hzero hi hpos)

theorem ascending_of_steps (h : ∀ i a b, l[i]? = some a → l[i + 1]? = some b → key a < key b) : Ascending key l := by
  apply List.isChain_iff_pairwise.mp
  apply List.isChain_iff_getElem.mpr
  intro i hi
  exact h i _ _ (List.getElem?_eq_getElem (by omega)) (List.getElem?_eq_getElem hi)

theorem LastUpTo.lt_after {i j : ℕ} {a b : α} (hl : Ascending key l) (h : LastUpTo key l k i a)
    (hb : l[j]? = some b) (hij : i < j) : k < key b := by
  obtain ⟨-, -, hnext⟩ := h
  have hi : i + 1 < l.length := by
    have := (List.getElem?_eq_some_iff.mp hb).1
    omega
  have hc := hnext _ (List.getElem?_eq_getElem hi)
  rcases Nat.eq_or_lt_of_le (show i + 1 ≤ j by omega) with rfl | hlt
  · rw [List.getElem?_eq_getElem hi] at hb
    rwa [← Option.some.inj hb]
  · exact hc.trans (hl.lt (List.getElem?_eq_getElem hi) hb hlt)

theorem LastUpTo.unique {i j : ℕ} {a b : α} (hl : Ascending key l) (ha : LastUpTo key l k i a)
    (hb : LastUpTo key l k j b) : a = b := by
  rcases Nat.lt_trichotomy i j with hlt | rfl | hlt
  · exact absurd hb.2.1 (not_le.mpr (ha.lt_after hl hb.1 hlt))
  · exact Option.some.inj (ha.1.symm.trans hb.1)
  · exact absurd ha.2.1 (not_le.mpr (hb.lt_after hl ha.1 hlt))

theorem UpTo.unique {m n : ℕ} (hm : UpTo key l k m) (hn : UpTo key l k n) : m = n := by
  have hle {a b : ℕ} (ha : UpTo key l k a) (hb : UpTo key l k b) : a ≤ b := by
    by_contra hlt
    have hlen := ha.le_length
    have hx : l[b]? = some l[b] := List.getElem?_eq_getElem (by omega)
    have hup := (ha.iff b _ hx).mpr (by omega)
    exact absurd ((hb.iff b _ hx).mp hup) (by omega)
  exact Nat.le_antisymm (hle hm hn) (hle hn hm)

theorem UpTo.last {n : ℕ} (h : UpTo key l k (n + 1)) : ∃ a, LastUpTo key l k n a := by
  have hlen := h.le_length
  have hn : l[n]? = some l[n] := List.getElem?_eq_getElem (by omega)
  refine ⟨_, hn, (h.iff n _ hn).mpr (by omega), fun b hb => ?_⟩
  exact not_le.mp fun hle => absurd ((h.iff (n + 1) b hb).mp hle) (by omega)

theorem UpTo.first (h : UpTo key l k 0) : ∀ a, l[0]? = some a → k < key a :=
  fun a ha => not_le.mp fun hle => absurd ((h.iff 0 a ha).mp hle) (by omega)

theorem LastUpTo.upTo (hl : Ascending key l) {i : ℕ} {a : α} (h : LastUpTo key l k i a) : UpTo key l k (i + 1) := by
  refine ⟨(List.getElem?_eq_some_iff.mp h.1).1, fun j b hb => ⟨fun hle => ?_, fun hlt => ?_⟩⟩
  · by_contra hge
    exact absurd hle (not_le.mpr (h.lt_after hl hb (by omega)))
  · rcases Nat.eq_or_lt_of_le (show j ≤ i by omega) with rfl | hj
    · rw [Option.some.inj (hb.symm.trans h.1)]
      exact h.2.1
    · exact (hl.lt hb h.1 hj).le.trans h.2.1

theorem upTo_zero (hl : Ascending key l) (h : ∀ a, l[0]? = some a → k < key a) : UpTo key l k 0 := by
  refine ⟨Nat.zero_le _, fun i a ha => iff_of_false (not_le.mpr ?_) (by omega)⟩
  exact hl.lt_of_first h a (List.mem_of_getElem? ha)

theorem exists_upTo (hl : Ascending key l) (k : κ) : ∃ n, UpTo key l k n := by
  have hb := lowerBound_boundary (fun a => decide (key a ≤ k)) l
  obtain ⟨n, hn⟩ : ∃ n, lowerBound (fun a => decide (key a ≤ k)) l = n := ⟨_, rfl⟩
  rw [hn] at hb
  have habove : ∀ a, l[n]? = some a → k < key a := fun a ha => not_le.mp (of_decide_eq_false (hb.above a ha))
  cases n with
  | zero => exact ⟨0, upTo_zero hl habove⟩
  | succ i =>
    have hlen := hb.last_le
    have hi : l[i]? = some l[i] := List.getElem?_eq_getElem (by omega)
    have hbelow := of_decide_eq_true (hb.below _ (Nat.succ_pos i) hi)
    exact ⟨i + 1, LastUpTo.upTo hl ⟨hi, hbelow, habove⟩⟩

end Keys

end Networker.VectorSearch
