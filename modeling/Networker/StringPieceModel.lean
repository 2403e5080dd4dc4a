import Mathlib.Algebra.Group.Int.Defs
import Mathlib.Data.Int.Basic
import Mathlib.Data.List.TakeWhile
import Networker.BufferModel

/-!
`base/StringPiece.h`: a pointer and an `int` length. A pointer is modelled by
the bytes of the object it points into, from the pointer on; the bytes of a
`std::string` are followed by a NUL.
-/

namespace Networker

open CheckedRuns

/-- `static_cast<int>` of a `size_t`. -/
def toInt (n : ℕ) : ℤ := (BitVec.ofNat 32 n).toInt

/-- The conversion of an `int` to `size_t`. -/
def toSize (i : ℤ) : ℕ := (i % 2 ^ 64).toNat

def strlen (memory : List UInt8) : ℕ := (memory.takeWhile (· != 0)).length

/-- The `len` bytes at a pointer, which must lie inside the object it points into. -/
def bytesAt (memory : List UInt8) (len : ℕ) : Exec (List UInt8) :=
  if len ≤ memory.length ∧ len ≤ maxSize then .ok (memory.take len) else .error .undefined

structure StringPiece where
  ptr : List UInt8
  length : ℤ
deriving DecidableEq, Repr

namespace StringPiece

/-- `StringPiece(const string&)`. -/
def ofString (s : List UInt8) : StringPiece :=
  ⟨s ++ [0], toInt (strlen (s ++ [0]))⟩

/-- `StringPiece(const char*, int)`. -/
def ofMemory (offset : List UInt8) (len : ℤ) : StringPiece := ⟨offset, len⟩

def data (p : StringPiece) : List UInt8 := p.ptr
def size (p : StringPiece) : ℤ := p.length

def asString (p : StringPiece) : Exec (List UInt8) := bytesAt p.data (toSize p.size)

end StringPiece

theorem toInt_eq {n : ℕ} (h : n < 2 ^ 31) : toInt n = n := by
  rw [toInt, BitVec.toInt_eq_toNat_of_lt] <;> simp <;> omega

theorem toSize_natCast {n : ℕ} (h : n < 2 ^ 64) : toSize n = n := by
  rw [toSize]
  omega

/-- The text before the first NUL. -/
def cString (s : List UInt8) : List UInt8 := s.takeWhile (· != 0)

theorem strlen_terminated (s : List UInt8) : strlen (s ++ [0]) = (cString s).length := by
  rw [strlen, cString, List.takeWhile_append]
  split_ifs with h
  · have hs : s.takeWhile (· != 0) = s := (List.takeWhile_prefix _).eq_of_length h
    simp [hs]
  · rfl

theorem cString_eq_self_iff (s : List UInt8) : cString s = s ↔ 0 ∉ s := by
  rw [cString, List.takeWhile_eq_self_iff]
  constructor
  · intro h hz; simpa using h 0 hz
  · intro h x hx
    have : x ≠ 0 := fun he => h (he ▸ hx)
    simpa using this

theorem zero_notMem_cString (s : List UInt8) : 0 ∉ cString s := by
  intro h
  simpa using List.mem_takeWhile_imp h

theorem cString_length_le (s : List UInt8) : (cString s).length ≤ s.length :=
  (List.takeWhile_prefix _).length_le

/-- The string constructor measures with `strlen`, so the piece stops at the first NUL. -/
theorem ofString_size {s : List UInt8} (h : s.length < 2 ^ 31) :
    toSize (StringPiece.ofString s).size = (cString s).length := by
  have hl := cString_length_le s
  simp only [StringPiece.ofString, StringPiece.size, strlen_terminated]
  rw [toInt_eq (by omega), toSize_natCast (by omega)]

end Networker
