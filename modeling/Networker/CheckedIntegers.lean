import Networker.CheckedRuns
import Mathlib.Algebra.Group.Int.Defs
import Mathlib.Algebra.Group.Nat.Defs
import Mathlib.Data.Int.Basic

/-!
Arithmetic of fixed width. A signed result without a representation is undefined behaviour; `size_t`
wraps, and a conversion to a narrower type keeps the low bits. Nothing here depends on a program.
-/

namespace Networker

open CheckedRuns

/-- The value of an operation on signed integers of `w + 1` bits. -/
def signed (w : ℕ) (x : ℤ) : Exec ℤ := if -2 ^ w ≤ x ∧ x < 2 ^ w then .ok x else .error .undefined

def int32 (x : ℤ) : Exec ℤ := signed 31 x

def int64 (x : ℤ) : Exec ℤ := signed 63 x

/-- The values that 64 bits represent. -/
def InInt64 (x : ℤ) : Prop := -9223372036854775808 ≤ x ∧ x < 9223372036854775808

instance (x : ℤ) : Decidable (InInt64 x) := inferInstanceAs (Decidable (_ ∧ _))

def castInt32 (x : ℤ) : ℤ := (x + 2 ^ 31) % 2 ^ 32 - 2 ^ 31

def castUInt32 (x : ℤ) : ℕ := (x % 2 ^ 32).toNat

def castInt64 (x : ℤ) : ℤ := (x + 2 ^ 63) % 2 ^ 64 - 2 ^ 63

@[irreducible] def addSize (a b : ℕ) : ℕ := (a + b) % 2 ^ 64

@[irreducible] def subSize (a b : ℕ) : ℕ := (a + 2 ^ 64 - b) % 2 ^ 64

theorem int32_eq {x : ℤ} (h : -2147483648 ≤ x ∧ x < 2147483648) : int32 x = .ok x := by
  unfold int32 signed
  rw [if_pos (by omega)]

theorem int32_bind {α : Type} {x : ℤ} {f : ℤ → Exec α} (h : -2147483648 ≤ x ∧ x < 2147483648) : (int32 x >>= f) = f x := by
  rw [int32_eq h, ok_bind]

theorem int64_eq {x : ℤ} (h : -9223372036854775808 ≤ x ∧ x < 9223372036854775808) : int64 x = .ok x := by
  unfold int64 signed
  rw [if_pos (by omega)]

theorem castInt32_eq {x : ℤ} (h : -2147483648 ≤ x ∧ x < 2147483648) : castInt32 x = x := by
  unfold castInt32
  omega

theorem castUInt32_eq {x : ℤ} (h : 0 ≤ x ∧ x < 4294967296) : castUInt32 x = x.toNat := by
  have hx : x % 2 ^ 32 = x := by omega
  unfold castUInt32
  rw [hx]

theorem castInt64_eq {x : ℤ} (h : InInt64 x) : castInt64 x = x := by
  unfold InInt64 at h
  unfold castInt64
  omega

theorem castInt64_eq_iff {x y : ℤ} (h : x ≤ y) (hy : y < x + 18446744073709551616) : castInt64 x = castInt64 y ↔ x = y := by
  unfold castInt64
  omega

theorem addSize_eq {a b : ℕ} (h : a + b < 2 ^ 64) : addSize a b = a + b := by
  rw [addSize, Nat.mod_eq_of_lt h]

theorem subSize_eq {a b : ℕ} (h : b ≤ a) (ha : a < 2 ^ 64) : subSize a b = a - b := by
  rw [subSize, show a + 2 ^ 64 - b = a - b + 2 ^ 64 by omega, Nat.add_mod_right]
  exact Nat.mod_eq_of_lt (by omega)

end Networker
