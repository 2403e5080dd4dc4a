import Networker.ByteVectors
import Networker.CheckedRuns
import Mathlib.Data.Int.Basic

/-!
Writes through a pointer into an array that ends somewhere: single elements, `memcpy` and
`std::reverse`. A write behind the end is undefined. What a sequence of writes leaves is
described by one `overwrite`.
-/

namespace Networker.ByteVectors

variable {α : Type}

theorem overwrite_getElem? {l : List α} {i : ℕ} {src : List α} (h : i + src.length ≤ l.length) (k : ℕ) :
    (overwrite l i src)[k]? = if i ≤ k ∧ k < i + src.length then src[k - i]? else l[k]? := by
  have ht : (l.take i).length = i := by rw [List.length_take]; omega
  have hts : (l.take i ++ src).length = i + src.length := by rw [List.length_append, ht]
  unfold overwrite
  rcases Nat.lt_or_ge k i with hlow | hlow
  · rw [if_neg (by omega), List.getElem?_append_left (by omega), List.getElem?_append_left (by omega),
      List.getElem?_take, if_pos hlow]
  · rcases Nat.lt_or_ge k (i + src.length) with hhigh | hhigh
    · rw [if_pos ⟨hlow, hhigh⟩, List.getElem?_append_left (by omega), List.getElem?_append_right (by omega), ht]
    · rw [if_neg (by omega), List.getElem?_append_right (by omega), hts, List.getElem?_drop]
      congr 1
      omega

theorem overwrite_nil (l : List α) (i : ℕ) : overwrite l i [] = l := by
  simp [overwrite]

theorem overwrite_append {l : List α} {i : ℕ} {s t : List α} (h : i + (s ++ t).length ≤ l.length) :
    overwrite (overwrite l i s) (i + s.length) t = overwrite l i (s ++ t) := by
  rw [List.length_append] at h
  apply List.ext_getElem?
  intro k
  have hs : i + s.length ≤ l.length := by omega
  rw [overwrite_getElem? (by rw [overwrite_length l i s hs]; omega), overwrite_getElem? hs,
    overwrite_getElem? (by rw [List.length_append]; omega), List.length_append]
  by_cases ht : i + s.length ≤ k ∧ k < i + s.length + t.length
  · rw [if_pos ht, if_pos (by omega), List.getElem?_append_right (by omega)]
    congr 1
    omega
  · rw [if_neg ht]
    by_cases hk : i ≤ k ∧ k < i + s.length
    · rw [if_pos hk, if_pos (by omega), List.getElem?_append_left (by omega)]
    · rw [if_neg hk, if_neg (by omega)]

theorem slice_overwrite {l : List α} {i : ℕ} {s t : List α} (h : i + (s ++ t).length ≤ l.length) :
    slice (overwrite l i (s ++ t)) i (i + s.length) = s := by
  have hlen : (s ++ t).length = s.length + t.length := List.length_append
  apply List.ext_getElem?
  intro k
  rw [slice_getElem?, overwrite_getElem? h]
  by_cases hk : k < s.length
  · rw [if_pos (by omega), if_pos (by omega), Nat.add_sub_cancel_left, List.getElem?_append_left hk]
  · rw [if_neg (by omega), List.getElem?_eq_none (by omega)]

theorem overwrite_replace {l : List α} {i : ℕ} {s s' t : List α} (h : i + (s ++ t).length ≤ l.length)
    (hs : s'.length = s.length) : overwrite (overwrite l i (s ++ t)) i s' = overwrite l i (s' ++ t) := by
  have hlen : (s ++ t).length = s.length + t.length := List.length_append
  have hlen' : (s' ++ t).length = s'.length + t.length := List.length_append
  apply List.ext_getElem?
  intro k
  rw [overwrite_getElem? (by rw [overwrite_length l i _ h]; omega), overwrite_getElem? h, overwrite_getElem? (by omega)]
  by_cases hk : i ≤ k ∧ k < i + s'.length
  · rw [if_pos hk, if_pos (by omega), List.getElem?_append_left (by omega)]
  · rw [if_neg hk]
    by_cases ht : i ≤ k ∧ k < i + (s ++ t).length
    · rw [if_pos ht, if_pos (by omega), List.getElem?_append_right (by omega), List.getElem?_append_right (by omega), hs]
    · rw [if_neg ht, if_neg (by omega)]

theorem slice_overwrite_before {l : List α} {i j : ℕ} {src : List α} (hj : j ≤ i) (h : i + src.length ≤ l.length) :
    slice (overwrite l i src) 0 j = slice l 0 j := by
  apply List.ext_getElem?
  intro k
  rw [slice_getElem?, slice_getElem?, overwrite_getElem? h]
  by_cases hk : 0 + k < j
  · rw [if_pos hk, if_pos hk, if_neg (by omega)]
  · rw [if_neg hk, if_neg hk]

/-- What lies behind the first part of a write does not count for it. -/
theorem slice_overwrite_part {l : List α} {i : ℕ} {s t : List α} (h : i + (s ++ t).length ≤ l.length) :
    slice (overwrite l i (s ++ t)) 0 (i + s.length) = slice l 0 i ++ s := by
  have hlen : (s ++ t).length = s.length + t.length := List.length_append
  have hs : (overwrite l i s).length = l.length := overwrite_length l i s (by omega)
  rw [← overwrite_append h, slice_overwrite_before (Nat.le_refl _) (by omega),
    slice_overwrite_back l 0 i s (Nat.zero_le i) (by omega)]

end Networker.ByteVectors

namespace Networker.CharArrays

open ByteVectors CheckedRuns

variable {α : Type}

/-- An element of a constant array, with the index as the code computes it. -/
def atIndex (l : List α) (i : ℤ) : Exec α :=
  if 0 ≤ i then
    match l[i.toNat]? with
    | some a => .ok a
    | none => .error .undefined
  else .error .undefined

def store (l : List α) (p : ℕ) (a : α) : Exec (List α) :=
  if p < l.length then .ok (l.set p a) else .error .undefined

def memcpy (l : List α) (p : ℕ) (src : List α) : Exec (List α) :=
  if p + src.length ≤ l.length then .ok (overwrite l p src) else .error .undefined

/-- `std::reverse` on the elements from `first` to `last`. -/
def reverse (l : List α) (first last : ℕ) : List α := overwrite l first (slice l first last).reverse

structure Writer (α : Type) where
  mem : List α
  p : ℕ

/-- `*p++ = a`. -/
def Writer.put (w : Writer α) (a : α) : Exec (Writer α) := do
  return { mem := ← store w.mem w.p a, p := w.p + 1 }

/-- After the elements of `s` have been written from `buf` on. -/
def Writer.after (mem : List α) (buf : ℕ) (s : List α) : Writer α where
  mem := overwrite mem buf s
  p := buf + s.length

theorem store_eq {l : List α} {p : ℕ} {a : α} (h : p < l.length) : store l p a = .ok (overwrite l p [a]) := by
  unfold store
  rw [if_pos h]
  congr 1
  apply List.ext_getElem?
  intro k
  rw [overwrite_getElem? (by simp; omega), List.length_singleton]
  by_cases hk : k = p
  · subst hk
    rw [if_pos (by omega), List.getElem?_set_self h, Nat.sub_self]
    rfl
  · rw [if_neg (by omega), List.getElem?_set_ne (Ne.symm hk)]

theorem memcpy_eq {l : List α} {p : ℕ} {src : List α} (h : p + src.length ≤ l.length) :
    memcpy l p src = .ok (overwrite l p src) := if_pos h

theorem store_after {mem : List α} {buf : ℕ} {s : List α} (a : α) (h : buf + s.length < mem.length) :
    store (overwrite mem buf s) (buf + s.length) a = .ok (overwrite mem buf (s ++ [a])) := by
  have hlen : (overwrite mem buf s).length = mem.length := overwrite_length _ _ _ (by omega)
  rw [store_eq (by omega), overwrite_append (by simp; omega)]

theorem put_after {mem : List α} {buf : ℕ} {s : List α} (a : α) (h : buf + s.length < mem.length) :
    (Writer.after mem buf s).put a = .ok (Writer.after mem buf (s ++ [a])) := by
  unfold Writer.put Writer.after
  rw [store_after a h, ok_bind, List.length_append, Nat.add_assoc]
  rfl

theorem reverse_overwrite {l : List α} {p : ℕ} {s t : List α} (h : p + (s ++ t).length ≤ l.length) :
    reverse (overwrite l p (s ++ t)) p (p + s.length) = overwrite l p (s.reverse ++ t) := by
  unfold reverse
  rw [slice_overwrite h, overwrite_replace h List.length_reverse]

end Networker.CharArrays
