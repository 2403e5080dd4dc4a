import Mathlib.Order.Lattice
import Mathlib.Data.List.Basic

/-!
Ordered sets without repetition, such as `std::set`, kept as strictly increasing
lists.
-/

namespace Networker

structure OrderedSet (α : Type) [LinearOrder α] where
  toList : List α
  sorted : toList.Pairwise (· < ·)
deriving DecidableEq

namespace OrderedSet

variable {α : Type} [LinearOrder α]

def empty : OrderedSet α := ⟨[], .nil⟩

instance : Membership α (OrderedSet α) := ⟨fun s a => a ∈ s.toList⟩

instance (a : α) (s : OrderedSet α) : Decidable (a ∈ s) := inferInstanceAs (Decidable (a ∈ s.toList))

theorem mem_toList {a : α} {s : OrderedSet α} : a ∈ s.toList ↔ a ∈ s := Iff.rfl

@[simp] theorem notMem_empty (a : α) : a ∉ (empty : OrderedSet α) := List.not_mem_nil

theorem nodup (s : OrderedSet α) : s.toList.Nodup := s.sorted.imp ne_of_lt

def size (s : OrderedSet α) : ℕ := s.toList.length

def insertList (a : α) : List α → List α
  | [] => [a]
  | b :: l => if a < b then a :: b :: l else if a = b then b :: l else b :: insertList a l

theorem mem_insertList {a b : α} {l : List α} : b ∈ insertList a l ↔ b = a ∨ b ∈ l := by
  induction l with
  | nil => simp [insertList]
  | cons c l ih =>
    simp only [insertList]
    split_ifs with hlt heq
    · simp
    · subst heq
      simp
    · simp [ih, or_left_comm]

theorem insertList_sorted {a : α} {l : List α} (h : l.Pairwise (· < ·)) :
    (insertList a l).Pairwise (· < ·) := by
  induction l with
  | nil => exact List.pairwise_singleton _ _
  | cons b l ih =>
    obtain ⟨hb, hl⟩ := List.pairwise_cons.mp h
    simp only [insertList]
    split_ifs with hlt heq
    · refine List.pairwise_cons.mpr ⟨?_, h⟩
      intro c hc
      rcases List.mem_cons.mp hc with rfl | hc
      · exact hlt
      · exact lt_trans hlt (hb c hc)
    · exact h
    · refine List.pairwise_cons.mpr ⟨?_, ih hl⟩
      intro c hc
      rcases mem_insertList.mp hc with rfl | hc
      · exact lt_of_le_of_ne (not_lt.mp hlt) (Ne.symm heq)
      · exact hb c hc

def insert (s : OrderedSet α) (a : α) : OrderedSet α := ⟨insertList a s.toList, insertList_sorted s.sorted⟩

def filter (s : OrderedSet α) (p : α → Bool) : OrderedSet α := ⟨s.toList.filter p, s.sorted.filter p⟩

def erase (s : OrderedSet α) (a : α) : OrderedSet α := s.filter (· ≠ a)

def first (s : OrderedSet α) : Option α := s.toList.head?

/-- The elements before `lower_bound(a)`. -/
def below (s : OrderedSet α) (a : α) : List α := s.toList.takeWhile (· < a)

/-- The set without them. -/
def notBelow (s : OrderedSet α) (a : α) : OrderedSet α :=
  ⟨s.toList.dropWhile (· < a), s.sorted.sublist (List.dropWhile_sublist _)⟩

@[simp] theorem first_empty : (empty : OrderedSet α).first = none := rfl

@[simp] theorem mem_insert {a b : α} {s : OrderedSet α} : b ∈ s.insert a ↔ b = a ∨ b ∈ s := mem_insertList

@[simp] theorem mem_filter {a : α} {p : α → Bool} {s : OrderedSet α} : a ∈ s.filter p ↔ a ∈ s ∧ p a = true :=
  List.mem_filter

@[simp] theorem mem_erase {a b : α} {s : OrderedSet α} : b ∈ s.erase a ↔ b ∈ s ∧ b ≠ a := by
  simp [erase]

theorem mem_of_first {a : α} {s : OrderedSet α} (h : s.first = some a) : a ∈ s := List.mem_of_head? h

theorem first_eq_none {s : OrderedSet α} (h : s.first = none) (a : α) : a ∉ s := by
  rw [← mem_toList, List.head?_eq_none_iff.mp h]
  exact List.not_mem_nil

theorem first_le {a b : α} {s : OrderedSet α} (h : s.first = some a) (hb : b ∈ s) : a ≤ b := by
  obtain ⟨l, hl⟩ := List.head?_eq_some_iff.mp h
  have hs := s.sorted
  rw [← mem_toList, hl] at hb
  rw [hl] at hs
  rcases List.mem_cons.mp hb with rfl | hb
  · exact le_rfl
  · exact le_of_lt ((List.pairwise_cons.mp hs).1 b hb)

theorem below_eq_filter (s : OrderedSet α) (a : α) : s.below a = (s.filter (· < a)).toList := by
  obtain ⟨l, hl⟩ := s
  show l.takeWhile (· < a) = l.filter (· < a)
  induction l with
  | nil => rfl
  | cons b l ih =>
    obtain ⟨hb, hl⟩ := List.pairwise_cons.mp hl
    by_cases hlt : b < a
    · simp [hlt, ih hl]
    · have hnone : l.filter (· < a) = [] := by
        rw [List.filter_eq_nil_iff]
        intro c hc
        simpa using le_trans (not_lt.mp hlt) (le_of_lt (hb c hc))
      simp [hlt, hnone]

theorem eq_of_toList {s s' : OrderedSet α} (h : s.toList = s'.toList) : s = s' := by
  cases s
  cases h
  rfl

theorem notBelow_eq_filter (s : OrderedSet α) (a : α) : s.notBelow a = s.filter (a ≤ ·) := by
  apply eq_of_toList
  obtain ⟨l, hl⟩ := s
  show l.dropWhile (· < a) = l.filter (a ≤ ·)
  induction l with
  | nil => rfl
  | cons b l ih =>
    obtain ⟨hb, hl⟩ := List.pairwise_cons.mp hl
    by_cases hlt : b < a
    · simp [hlt, ih hl]
    · have hle : a ≤ b := not_lt.mp hlt
      have hall : l.filter (a ≤ ·) = l := by
        rw [List.filter_eq_self]
        intro c hc
        simpa using le_trans hle (le_of_lt (hb c hc))
      rw [List.dropWhile_cons_of_neg (by simpa using hle), List.filter_cons_of_pos (by simpa using hle), hall]

end OrderedSet

end Networker
