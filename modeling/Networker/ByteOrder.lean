import Mathlib.Algebra.Group.Int.Defs
import Mathlib.Algebra.Group.Nat.Defs
import Mathlib.Data.Int.Basic
import Mathlib.Data.List.Basic

/-!
The bytes of a fixed-width integer in the memory of a little-endian machine, the
conversion to network byte order that reverses them, and the big-endian encoding of
signed integers in two's complement.
-/

namespace Networker.ByteOrder

def hostBytes : ℕ → ℕ → List UInt8
  | 0, _ => []
  | n + 1, v => UInt8.ofNat (v % 256) :: hostBytes n (v / 256)

def hostValue : List UInt8 → ℕ
  | [] => 0
  | b :: bs => b.toNat + 256 * hostValue bs

def byteSwap (n v : ℕ) : ℕ := hostValue (hostBytes n v).reverse

@[simp] theorem hostBytes_length (n v : ℕ) : (hostBytes n v).length = n := by
  induction n generalizing v with
  | zero => rfl
  | succ n ih => simp [hostBytes, ih]

theorem hostBytes_value (bs : List UInt8) : hostBytes bs.length (hostValue bs) = bs := by
  induction bs with
  | nil => rfl
  | cons b bs ih =>
    have hb : b.toNat < 256 := b.toNat_lt
    have hmod : (b.toNat + 256 * hostValue bs) % 256 = b.toNat := by omega
    have hdiv : (b.toNat + 256 * hostValue bs) / 256 = hostValue bs := by omega
    simp [hostBytes, hostValue, hmod, hdiv, ih]

/-- Storing a swapped integer writes its bytes most significant first. -/
theorem hostBytes_byteSwap (n v : ℕ) : hostBytes n (byteSwap n v) = (hostBytes n v).reverse := by
  have h := hostBytes_value (hostBytes n v).reverse
  rwa [List.length_reverse, hostBytes_length] at h

theorem hostValue_hostBytes (n v : ℕ) : hostValue (hostBytes n v) = v % 256 ^ n := by
  induction n generalizing v with
  | zero => simp [hostBytes, hostValue, Nat.mod_one]
  | succ n ih =>
    have hbyte : (UInt8.ofNat (v % 256)).toNat = v % 256 := by simp
    rw [hostBytes, hostValue, ih, hbyte, Nat.pow_succ', Nat.mod_mul]

theorem hostValue_lt (bs : List UInt8) : hostValue bs < 256 ^ bs.length := by
  have h := hostValue_hostBytes bs.length (hostValue bs)
  rw [hostBytes_value] at h
  rw [h]
  exact Nat.mod_lt _ (Nat.pow_pos (by decide))

theorem byteSwap_hostValue {n : ℕ} {bs : List UInt8} (h : bs.length = n) :
    byteSwap n (hostValue bs) = hostValue bs.reverse := by
  rw [byteSwap, ← h, hostBytes_value]

/-- The `n` bytes of an integer in two's complement, most significant first. -/
def bigEndian : ℕ → ℤ → List UInt8
  | 0, _ => []
  | n + 1, v => bigEndian n (v / 256) ++ [UInt8.ofNat (v % 256).toNat]

@[simp] theorem bigEndian_length (n : ℕ) (v : ℤ) : (bigEndian n v).length = n := by
  induction n generalizing v with
  | zero => rfl
  | succ n ih => simp [bigEndian, ih]

theorem emod_mul_split (v : ℤ) {k : ℤ} (hk : 0 < k) : v % (256 * k) = v % 256 + 256 * (v / 256 % k) := by
  have hq := Int.mul_ediv_add_emod (v / 256) k
  have hlow := Int.emod_nonneg (v / 256) (show k ≠ 0 by omega)
  have hhigh := Int.emod_lt_of_pos (v / 256) hk
  have hv : v = v % 256 + 256 * (v / 256 % k) + 256 * k * (v / 256 / k) := by
    rw [Int.mul_assoc]
    omega
  calc v % (256 * k) = (v % 256 + 256 * (v / 256 % k) + 256 * k * (v / 256 / k)) % (256 * k) := by rw [← hv]
    _ = (v % 256 + 256 * (v / 256 % k)) % (256 * k) := Int.add_mul_emod_self_left _ _ _
    _ = v % 256 + 256 * (v / 256 % k) := Int.emod_eq_of_lt (by omega) (by omega)

/-- The conversion to unsigned of the same width does not change the bytes. -/
theorem bigEndian_eq (n : ℕ) (v : ℤ) : bigEndian n v = (hostBytes n (v % 256 ^ n).toNat).reverse := by
  induction n generalizing v with
  | zero => rfl
  | succ n ih =>
    have hpos : (0 : ℤ) < 256 ^ n := Int.pow_pos (by decide)
    have hsplit : v % 256 ^ (n + 1) = v % 256 + 256 * (v / 256 % 256 ^ n) := by
      rw [Int.pow_succ', emod_mul_split v hpos]
    have hhigh := Int.emod_nonneg (v / 256) (show (256 : ℤ) ^ n ≠ 0 by omega)
    have hdiv : (v % 256 ^ (n + 1)).toNat / 256 = (v / 256 % 256 ^ n).toNat := by
      rw [hsplit]
      omega
    have hmod : (v % 256 ^ (n + 1)).toNat % 256 = (v % 256).toNat := by
      rw [hsplit]
      omega
    rw [bigEndian, hostBytes, hmod, hdiv, List.reverse_cons, ih]

end Networker.ByteOrder
