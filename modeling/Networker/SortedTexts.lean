import Mathlib.Data.List.Lex
import Networker.DigitStrings

/-!
Texts whose order is that of the numbers they are made of: numerals that are filled up with
zeros, and several of them one after the other with the same text in between. Nothing here
depends on what the numbers mean.
-/

namespace Networker.SortedTexts

open DigitStrings

/-- Of two texts that begin with pieces of one length, these pieces are compared first. -/
theorem append_lt_append_iff {α : Type} [LT α] {a b : List α} (h : a.length = b.length) (x y : List α) :
    a ++ x < b ++ y ↔ a < b ∨ a = b ∧ x < y := by
  induction a generalizing b with
  | nil =>
    rw [List.length_nil, eq_comm, List.length_eq_zero_iff] at h
    subst h
    simp
  | cons c a ih =>
    cases b with
    | nil => cases h
    | cons d b =>
      rw [List.cons_append, List.cons_append, List.cons_lt_cons_iff, List.cons_lt_cons_iff, ih (Nat.succ.inj h)]
      simp only [List.cons.injEq]
      tauto

theorem text_irrefl (text : List UInt8) : ¬text < text := by
  have : Std.Irrefl (fun a b : UInt8 => a < b) := ⟨fun _ => UInt8.lt_irrefl _⟩
  exact List.lt_irrefl text

theorem append_left_lt_iff (before x y : List UInt8) : before ++ x < before ++ y ↔ x < y := by
  rw [append_lt_append_iff rfl]
  exact ⟨fun h => h.elim (fun h => absurd h (text_irrefl _)) And.right, fun h => Or.inr ⟨rfl, h⟩⟩

theorem append_right_lt_iff {x y : List UInt8} (h : x.length = y.length) (after : List UInt8) :
    x ++ after < y ++ after ↔ x < y := by
  rw [append_lt_append_iff h]
  exact ⟨fun h => h.elim id fun h => absurd h.2 (text_irrefl _), Or.inl⟩

/-- What compares as `a` and `b` do is equal only if they are. -/
theorem eq_iff_of_lt_iff {α β : Type} [LT α] [LinearOrder β] (irrefl : ∀ x : α, ¬x < x) {x y : α} {a b : β}
    (hab : x < y ↔ a < b) (hba : y < x ↔ b < a) (h : a = b → x = y) : x = y ↔ a = b := by
  constructor
  · rintro rfl
    rcases lt_trichotomy a b with hlt | heq | hlt
    · exact absurd (hab.mpr hlt) (irrefl _)
    · exact heq
    · exact absurd (hba.mpr hlt) (irrefl _)
  · exact h

/-- The numeral with `width` digits, from the left. -/
def padded : ℕ → ℕ → List UInt8
  | 0, _ => []
  | width + 1, n => padded width (n / 10) ++ [digitChar (n % 10)]

theorem padded_length (width n : ℕ) : (padded width n).length = width := by
  induction width generalizing n with
  | zero => rfl
  | succ width ih => rw [padded, List.length_append, ih, List.length_singleton]

theorem digitChar_lt_iff {c d : ℕ} (hc : c < 10) (hd : d < 10) : digitChar c < digitChar d ↔ c < d := by
  have hbytes : ∀ c < 10, ∀ d < 10, digitChar c < digitChar d ↔ c < d := by decide
  exact hbytes c hc d hd

theorem padded_lt_iff {width m n : ℕ} (hm : m < 10 ^ width) (hn : n < 10 ^ width) :
    padded width m < padded width n ↔ m < n := by
  induction width generalizing m n with
  | zero => simp at hm hn; simp [padded, hm, hn]
  | succ width ih =>
    rw [Nat.pow_succ] at hm hn
    have hlt {j k : ℕ} (hj : j < 10 ^ width * 10) (hk : k < 10 ^ width * 10) :
        padded width (j / 10) < padded width (k / 10) ↔ j / 10 < k / 10 := ih (by omega) (by omega)
    have heq : padded width (m / 10) = padded width (n / 10) ↔ m / 10 = n / 10 :=
      eq_iff_of_lt_iff text_irrefl (hlt hm hn) (hlt hn hm) (congrArg _)
    have hdigit : [digitChar (m % 10)] < [digitChar (n % 10)] ↔ m % 10 < n % 10 := by
      rw [List.cons_lt_cons_iff, digitChar_lt_iff (by omega) (by omega)]
      simp
    rw [padded, padded, append_lt_append_iff (by rw [padded_length, padded_length]), hlt hm hn, heq, hdigit]
    omega

/-- What filling a numeral up with zeros gives. -/
theorem padded_eq {width n : ℕ} (hw : 0 < width) (hn : n < 10 ^ width) :
    padded width n = List.replicate (width - (numeral 10 n).length) '0'.toUInt8 ++ numeral 10 n := by
  have hzeros : ∀ k, padded k 0 = List.replicate k '0'.toUInt8 := by
    intro k
    induction k with
    | zero => rfl
    | succ k ih =>
      rw [padded, Nat.zero_div, ih, List.replicate_succ']
      rfl
  induction width generalizing n with
  | zero => cases hw
  | succ width ih =>
    rw [numeral_eq (by decide), padded]
    split
    case isTrue hzero =>
      rw [hzero, hzeros]
      simp
    case isFalse hne =>
      have hwidth : 0 < width := by
        by_contra hzero
        obtain rfl : width = 0 := by omega
        exact hne (Nat.div_eq_of_lt hn)
      rw [ih hwidth (by rw [Nat.pow_succ] at hn; omega), List.append_assoc, List.length_append, List.length_singleton,
        Nat.add_sub_add_right]

/-- Numerals of fixed widths, each behind a text of its own. -/
def stamp : List (List UInt8 × ℕ) → List ℕ → List UInt8
  | (before, width) :: fields, n :: ns => before ++ padded width n ++ stamp fields ns
  | [], _ => []
  | _ :: _, [] => []

def Fits (fields : List (List UInt8 × ℕ)) (ns : List ℕ) : Prop := List.Forall₂ (fun f n => n < 10 ^ f.2) fields ns

/-- Stamps are compared as the lists of their numbers. -/
theorem stamp_lt_iff {fields : List (List UInt8 × ℕ)} {ms ns : List ℕ} (hm : Fits fields ms) (hn : Fits fields ns) :
    stamp fields ms < stamp fields ns ↔ ms < ns := by
  induction hm generalizing ns with
  | nil =>
    cases hn
    simp
  | @cons f m fields ms hm hms ih =>
    cases hn with
    | @cons _ n _ ns hn hns =>
      have heq : padded f.2 m = padded f.2 n ↔ m = n :=
        eq_iff_of_lt_iff text_irrefl (padded_lt_iff hm hn) (padded_lt_iff hn hm) (congrArg _)
      rw [stamp, stamp, List.append_assoc, List.append_assoc, append_lt_append_iff rfl,
        append_lt_append_iff (by rw [padded_length, padded_length]), padded_lt_iff hm hn, heq, ih hns, List.cons_lt_cons_iff]
      simp

end Networker.SortedTexts
