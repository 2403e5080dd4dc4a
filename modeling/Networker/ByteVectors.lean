import Mathlib.Data.List.Basic

/-!
Contiguous ranges of a vector: reading one, overwriting one from elsewhere, and
moving one towards the front inside the same storage. A line is a vector of bytes.
-/

namespace Networker.ByteVectors

variable {α : Type}

def slice (l : List α) (i j : ℕ) : List α := (l.take j).drop i

def overwrite (l : List α) (i : ℕ) (src : List α) : List α :=
  l.take i ++ src ++ l.drop (i + src.length)

/-- Copies `n` elements one at a time in increasing order; the ranges may overlap. -/
def copyForward : ℕ → List α → ℕ → ℕ → List α
  | 0, l, _, _ => l
  | n + 1, l, src, dst =>
    copyForward n (match l[src]? with | some a => l.set dst a | none => l) (src + 1) (dst + 1)

theorem slice_getElem? (l : List α) (i j k : ℕ) :
    (slice l i j)[k]? = if i + k < j then l[i + k]? else none := by
  simp [slice, List.getElem?_take]

@[simp] theorem slice_length (l : List α) (i j : ℕ) : (slice l i j).length = min j l.length - i := by
  simp [slice]

@[simp] theorem slice_self (l : List α) (i : ℕ) : slice l i i = [] := by
  simp [slice]

theorem slice_drop (l : List α) (i j n : ℕ) : slice l (i + n) j = (slice l i j).drop n := by
  simp [slice]

theorem slice_take (l : List α) (i j n : ℕ) (hj : j ≤ l.length) :
    slice l i (j - n) = (slice l i j).take ((slice l i j).length - n) := by
  apply List.ext_getElem?
  intro k
  rw [slice_getElem?, List.getElem?_take, slice_getElem?, slice_length]
  by_cases h : i + k < j - n
  · rw [if_pos h, if_pos (by omega), if_pos (by omega)]
  · rw [if_neg h, if_neg (by omega)]

@[simp] theorem overwrite_length (l : List α) (i : ℕ) (src : List α) (h : i + src.length ≤ l.length) :
    (overwrite l i src).length = l.length := by
  simp only [overwrite, List.length_append, List.length_take, List.length_drop]
  omega

theorem slice_overwrite_back (l : List α) (i j : ℕ) (src : List α) (hij : i ≤ j)
    (hj : j + src.length ≤ l.length) :
    slice (overwrite l j src) i (j + src.length) = slice l i j ++ src := by
  have ht : (l.take j).length = j := by simp; omega
  have hs : (overwrite l j src).take (j + src.length) = l.take j ++ src := by
    rw [overwrite, List.take_append_of_le_length (by simp; omega)]
    exact List.take_of_length_le (by rw [List.length_append]; omega)
  rw [slice, hs, List.drop_append_of_le_length (by omega), slice]

theorem slice_overwrite_front (l : List α) (i j : ℕ) (src : List α) (hi : src.length ≤ i)
    (hij : i ≤ j) (hj : j ≤ l.length) :
    slice (overwrite l (i - src.length) src) (i - src.length) j = src ++ slice l i j := by
  have ht : (l.take (i - src.length)).length = i - src.length := by simp; omega
  have hd : i - src.length + src.length = i := by omega
  rw [slice, overwrite, hd, List.append_assoc, List.take_append, ht,
    List.drop_append_of_le_length (by simp; omega)]
  have h1 : ((l.take (i - src.length)).take j).drop (i - src.length) = [] := by
    apply List.drop_eq_nil_of_le
    simp only [List.length_take]
    omega
  have h2 : (src ++ l.drop i).take (j - (i - src.length)) = src ++ (l.drop i).take (j - i) := by
    rw [List.take_append, List.take_of_length_le (by omega)]
    congr 2
    omega
  rw [h1, h2, slice, List.drop_take, List.nil_append]

theorem copyForward_getElem? (n : ℕ) (l : List α) (src dst k : ℕ) (hd : dst ≤ src)
    (hs : src + n ≤ l.length) :
    (copyForward n l src dst)[k]? =
      if dst ≤ k ∧ k < dst + n then l[src + (k - dst)]? else l[k]? := by
  induction n generalizing l src dst with
  | zero => simp only [copyForward]; rw [if_neg (by omega)]
  | succ n ih =>
    have hget : l[src]? = some l[src] := List.getElem?_eq_getElem (by omega)
    simp only [copyForward, hget]
    rw [ih _ _ _ (by omega) (by rw [List.length_set]; omega)]
    -- the element written at `dst` is never read again, since the source runs ahead of it
    have hread : ∀ m, src < m → (l.set dst l[src])[m]? = l[m]? := by
      intro m hm; rw [List.getElem?_set_ne (by omega)]
    by_cases hk : k = dst
    · subst hk
      rw [if_neg (by omega), if_pos (by omega), List.getElem?_set_self (by omega)]
      simp [hget]
    · by_cases hin : dst ≤ k ∧ k < dst + (n + 1)
      · rw [if_pos (by omega), if_pos hin, hread _ (by omega)]
        congr 1
        omega
      · rw [if_neg (by omega), if_neg hin, List.getElem?_set_ne (by omega)]

@[simp] theorem copyForward_length (n : ℕ) (l : List α) (src dst : ℕ) :
    (copyForward n l src dst).length = l.length := by
  induction n generalizing l src dst with
  | zero => rfl
  | succ n ih =>
    rw [copyForward, ih]
    cases l[src]? <;> simp

theorem slice_copyForward (n : ℕ) (l : List α) (src dst : ℕ) (hd : dst ≤ src)
    (hs : src + n ≤ l.length) :
    slice (copyForward n l src dst) dst (dst + n) = slice l src (src + n) := by
  apply List.ext_getElem?
  intro k
  rw [slice_getElem?, slice_getElem?, copyForward_getElem? n l src dst _ hd hs]
  by_cases hk : k < n
  · rw [if_pos (by omega), if_pos (by omega), if_pos (by omega), Nat.add_sub_cancel_left]
  · rw [if_neg (by omega), if_neg (by omega)]

end Networker.ByteVectors

namespace Networker

abbrev Line := List UInt8

/-- The characters of a string literal. -/
def chars (s : String) : Line := s.toList.map Char.toUInt8

end Networker
