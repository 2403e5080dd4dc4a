import Networker.CharArrays
import Networker.CheckedIntegers
import Networker.DigitStrings

/-!
`convert` and `convertHex` of `base/LogStream.cpp`. Negative numbers keep their sign through the
whole division, so that the least number of a type needs no counterpart.
-/

namespace Networker

open ByteVectors CharArrays CheckedRuns DigitStrings

structure IntegerType where
  width : ℕ
  isSigned : Bool
deriving DecidableEq, Repr

namespace IntegerType

def Holds (T : IntegerType) (x : ℤ) : Prop :=
  if T.isSigned then -2 ^ (T.width - 1) ≤ x ∧ x < 2 ^ (T.width - 1) else 0 ≤ x ∧ x < 2 ^ T.width

instance (T : IntegerType) (x : ℤ) : Decidable (T.Holds x) := by
  unfold Holds
  split <;> infer_instance

/-- The value of an operation on `T`. An unsigned result that would wrap is refused as well. -/
def value (T : IntegerType) (x : ℤ) : Exec ℤ := if T.Holds x then .ok x else .error .undefined

theorem value_eq {T : IntegerType} {x : ℤ} (h : T.Holds x) : T.value x = .ok x := if_pos h

theorem Holds.toward_zero {T : IntegerType} {v x : ℤ} (h : T.Holds v) (hx : 0 ≤ x ∧ x ≤ v ∨ v ≤ x ∧ x ≤ 0) : T.Holds x := by
  unfold Holds at h ⊢
  split at h
  case isTrue hs =>
    have hpos : (0 : ℤ) < 2 ^ (T.width - 1) := Int.pow_pos (by decide)
    rw [if_pos hs]
    omega
  case isFalse hs =>
    rw [if_neg hs]
    omega

end IntegerType

def uintptr : IntegerType := ⟨64, false⟩

def digits : Line := chars "9876543210123456789"

/-- `zero[lsd]`, where `zero` points into the middle of `digits`. -/
def zero (lsd : ℤ) : Exec UInt8 := atIndex digits (9 + lsd)

def digitsHex : Line := chars "0123456789ABCDEF"

/-- The loop of `convert` and `convertHex`. Each round writes a character, so that the room in the
array bounds the rounds. -/
def convertDigits (T : IntegerType) (base : ℤ) (digit : ℤ → Exec UInt8) : ℕ → Writer UInt8 → ℤ → Exec (Writer UInt8)
  | 0, _, _ => .error .undefined
  | room + 1, w, i => do
    let lsd := castInt32 (← T.value (i.tmod base))
    let i ← T.value (i.tdiv base)
    let w ← w.put (← digit lsd)
    if i ≠ 0 then convertDigits T base digit room w i else return w

def convertSign (w : Writer UInt8) (value : ℤ) : Exec (Writer UInt8) :=
  if value < 0 then w.put '-'.toUInt8 else .ok w

/-- The last lines of both functions, which leave the memory and the length. -/
def terminate (w : Writer UInt8) (buf : ℕ) : Exec (List UInt8 × ℕ) := do
  let mem ← store w.mem w.p 0
  return (reverse mem buf w.p, w.p - buf)

def convert (T : IntegerType) (mem : List UInt8) (buf : ℕ) (value : ℤ) : Exec (List UInt8 × ℕ) := do
  let w ← convertDigits T 10 zero (mem.length - buf) { mem := mem, p := buf } value
  let w ← convertSign w value
  terminate w buf

def convertHex (mem : List UInt8) (buf : ℕ) (value : ℤ) : Exec (List UInt8 × ℕ) := do
  let w ← convertDigits uintptr 16 (fun lsd => atIndex digitsHex lsd) (mem.length - buf) { mem := mem, p := buf } value
  terminate w buf

def sign (v : ℤ) : Line := if v < 0 then ['-'.toUInt8] else []

def decimalText (v : ℤ) : Line := sign v ++ numeral 10 v.natAbs

def hexText (v : ℤ) : Line := numeral 16 v.natAbs

def readDecimal (s : Line) : Option ℤ :=
  if s.head? = some '-'.toUInt8 then (readNumeral 10 s.tail).map fun n : ℕ => -(n : ℤ)
  else (readNumeral 10 s).map fun n : ℕ => (n : ℤ)

/-- Canonical digits of `|v|` behind a sign that is there only for a negative number. -/
structure CanonicalDecimal (v : ℤ) (s : Line) : Prop where
  digits : ∃ ds, s = sign v ++ ds ∧ Canonical 10 v.natAbs ds
  sign : s.head? = some '-'.toUInt8 ↔ v < 0
  value : readDecimal s = some v

theorem zero_digits : ∀ n < 10, zero (n : ℕ) = .ok (digitChar n) ∧ zero (-(n : ℕ)) = .ok (digitChar n) := by
  decide

theorem digitsHex_digits : ∀ n < 16, atIndex digitsHex (n : ℕ) = .ok (digitChar n) := by
  decide

theorem zero_eq {x : ℤ} (h : x.natAbs < 10) : zero (castInt32 x) = .ok (digitChar x.natAbs) := by
  rw [castInt32_eq (by omega)]
  obtain ⟨n, rfl | rfl⟩ := x.eq_nat_or_neg
  · exact (zero_digits n h).1
  · rw [Int.natAbs_neg] at h ⊢
    exact (zero_digits n h).2

theorem digitsHex_eq {x : ℤ} (hx : 0 ≤ x) (h : x.natAbs < 16) : atIndex digitsHex (castInt32 x) = .ok (digitChar x.natAbs) := by
  rw [castInt32_eq (by omega)]
  obtain ⟨n, rfl⟩ := Int.eq_ofNat_of_zero_le hx
  exact digitsHex_digits n h

theorem tmod_toward_zero (v : ℤ) (base : ℕ) : 0 ≤ v.tmod base ∧ v.tmod base ≤ v ∨ v ≤ v.tmod base ∧ v.tmod base ≤ 0 := by
  obtain ⟨n, rfl | rfl⟩ := v.eq_nat_or_neg
  · have := Nat.mod_le n base
    rw [← Int.ofNat_tmod]
    omega
  · have := Nat.mod_le n base
    rw [Int.neg_tmod, ← Int.ofNat_tmod]
    omega

theorem tdiv_toward_zero (v : ℤ) (base : ℕ) : 0 ≤ v.tdiv base ∧ v.tdiv base ≤ v ∨ v ≤ v.tdiv base ∧ v.tdiv base ≤ 0 := by
  obtain ⟨n, rfl | rfl⟩ := v.eq_nat_or_neg
  · have := Nat.div_le_self n base
    rw [← Int.ofNat_tdiv]
    exact Or.inl ⟨Int.natCast_nonneg _, Int.ofNat_le.mpr this⟩
  · have := Nat.div_le_self n base
    rw [Int.neg_tdiv, ← Int.ofNat_tdiv]
    exact Or.inr ⟨Int.neg_le_neg (Int.ofNat_le.mpr this), Int.neg_nonpos_of_nonneg (Int.natCast_nonneg _)⟩

section Loop

variable {T : IntegerType} {base : ℕ} {digit : ℤ → Exec UInt8} {mem : List UInt8} {buf : ℕ}

theorem convertDigits_after (hb : 1 < base)
    (hdigit : ∀ x, T.Holds x → x.natAbs < base → digit (castInt32 x) = .ok (digitChar x.natAbs)) (room : ℕ)
    (s : Line) (v : ℤ) (hv : T.Holds v) (hroom : buf + s.length + room = mem.length)
    (hlen : (littleDigits base v.natAbs).length ≤ room) :
    convertDigits T base digit room (Writer.after mem buf s) v =
      .ok (Writer.after mem buf (s ++ (littleDigits base v.natAbs).map digitChar)) := by
  induction room generalizing s v with
  | zero =>
    rw [littleDigits_eq hb, List.length_cons] at hlen
    omega
  | succ room ih =>
    have hmod : T.Holds (v.tmod base) := hv.toward_zero (tmod_toward_zero v base)
    have hdiv : T.Holds (v.tdiv base) := hv.toward_zero (tdiv_toward_zero v base)
    have hlsd : (v.tmod base).natAbs = v.natAbs % base := Int.natAbs_tmod v base
    have hrest : (v.tdiv base).natAbs = v.natAbs / base := Int.natAbs_tdiv v base
    have hput := put_after (s := s) (digitChar (v.natAbs % base)) (show buf + s.length < mem.length by omega)
    rw [convertDigits, IntegerType.value_eq hmod, ok_bind, IntegerType.value_eq hdiv, ok_bind,
      hdigit _ hmod (by rw [hlsd]; exact Nat.mod_lt _ (by omega)), ok_bind, hlsd, hput, ok_bind]
    rw [littleDigits_eq hb, List.length_cons] at hlen
    rw [littleDigits_eq hb]
    by_cases hzero : v.natAbs / base = 0
    · rw [if_neg (by omega), if_pos hzero]
      rfl
    · rw [if_neg hzero] at hlen
      rw [if_pos (by omega), if_neg hzero,
        ih (s ++ [digitChar (v.natAbs % base)]) (v.tdiv base) hdiv (by simp; omega) (by rw [hrest]; omega), hrest,
        List.append_assoc, List.map_cons, List.singleton_append]

theorem convertDigits_eq (hb : 1 < base)
    (hdigit : ∀ x, T.Holds x → x.natAbs < base → digit (castInt32 x) = .ok (digitChar x.natAbs)) {v : ℤ}
    (hv : T.Holds v) (hlen : buf + (littleDigits base v.natAbs).length ≤ mem.length) :
    convertDigits T base digit (mem.length - buf) { mem := mem, p := buf } v =
      .ok (Writer.after mem buf ((littleDigits base v.natAbs).map digitChar)) := by
  have hstart : ({ mem := mem, p := buf } : Writer UInt8) = Writer.after mem buf [] := by
    rw [Writer.after, overwrite_nil]
    rfl
  rw [hstart, convertDigits_after hb hdigit _ [] v hv (by simp; omega) (by omega), List.nil_append]

end Loop

section Texts

variable {T : IntegerType} {v : ℤ} {mem : List UInt8} {buf : ℕ}

theorem convertSign_after {s : Line} (h : buf + (s ++ sign v).length < mem.length) :
    convertSign (Writer.after mem buf s) v = .ok (Writer.after mem buf (s ++ sign v)) := by
  rw [List.length_append] at h
  unfold convertSign sign
  unfold sign at h
  split
  case isTrue hneg =>
    rw [if_pos hneg, List.length_singleton] at h
    exact put_after _ (by omega)
  case isFalse hpos => rw [List.append_nil]

/-- The text is turned around in place, in front of its NUL. -/
theorem terminate_after {s : Line} (h : buf + s.length < mem.length) :
    terminate (Writer.after mem buf s) buf = .ok (overwrite mem buf (s.reverse ++ [0]), s.length) := by
  unfold terminate Writer.after
  rw [store_after 0 h, ok_bind, reverse_overwrite (by simp; omega), Nat.add_sub_cancel_left]
  rfl

theorem convert_eq (hv : T.Holds v) (hroom : buf + (decimalText v).length < mem.length) :
    convert T mem buf v = .ok (overwrite mem buf (decimalText v ++ [0]), (decimalText v).length) := by
  have hrev : decimalText v = ((littleDigits 10 v.natAbs).map digitChar ++ sign v).reverse := by
    unfold decimalText numeral sign
    split <;> simp
  have hlen : (decimalText v).length = (littleDigits 10 v.natAbs).length + (sign v).length := by
    rw [hrev, List.length_reverse, List.length_append, List.length_map]
  have hloop : convertDigits T 10 zero (mem.length - buf) { mem := mem, p := buf } v =
      .ok (Writer.after mem buf ((littleDigits 10 v.natAbs).map digitChar)) :=
    convertDigits_eq (by decide) (fun x _ hx => zero_eq hx) hv (by omega)
  have hroom' : buf + ((littleDigits 10 v.natAbs).map digitChar ++ sign v).length < mem.length := by
    rwa [List.length_append, List.length_map, ← hlen]
  unfold convert
  rw [hloop, ok_bind, convertSign_after hroom', ok_bind, terminate_after hroom', hrev, List.length_reverse]

theorem uintptr_holds : uintptr.Holds v ↔ 0 ≤ v ∧ v < 2 ^ 64 := Iff.rfl

theorem convertHex_eq (hv : uintptr.Holds v) (hroom : buf + (hexText v).length < mem.length) :
    convertHex mem buf v = .ok (overwrite mem buf (hexText v ++ [0]), (hexText v).length) := by
  have hlen : (hexText v).length = ((littleDigits 16 v.natAbs).map digitChar).length := by
    rw [hexText, numeral, List.length_reverse]
  have hloop : convertDigits uintptr 16 (fun lsd => atIndex digitsHex lsd) (mem.length - buf) { mem := mem, p := buf } v =
      .ok (Writer.after mem buf ((littleDigits 16 v.natAbs).map digitChar)) :=
    convertDigits_eq (by decide) (fun x hx h => digitsHex_eq (uintptr_holds.mp hx).1 h) hv (by
      rw [hlen, List.length_map] at hroom
      omega)
  unfold convertHex
  rw [hloop, ok_bind, terminate_after (by rwa [← hlen]), hexText, numeral, List.length_reverse]

end Texts

theorem sign_length (v : ℤ) : (sign v).length = if v < 0 then 1 else 0 := by
  unfold sign
  split <;> rfl

theorem IntegerType.Holds.bounds {T : IntegerType} {v : ℤ} (h : T.Holds v) (hw : T.width ≤ 64) :
    v.natAbs < 10 ^ 20 ∧ (v < 0 → v.natAbs < 10 ^ 19) := by
  unfold IntegerType.Holds at h
  split at h
  · have hpow : (2 : ℤ) ^ (T.width - 1) ≤ 2 ^ 63 := pow_le_pow_right₀ (by decide) (by omega)
    omega
  · have hpow : (2 : ℤ) ^ T.width ≤ 2 ^ 64 := pow_le_pow_right₀ (by decide) hw
    omega

theorem decimalText_length {T : IntegerType} {v : ℤ} (hv : T.Holds v) (hw : T.width ≤ 64) : (decimalText v).length ≤ 20 := by
  obtain ⟨hall, hneg⟩ := hv.bounds hw
  unfold decimalText
  rw [List.length_append, sign_length]
  by_cases h : v < 0
  · have hdigits : (numeral 10 v.natAbs).length ≤ 19 := numeral_length (by decide) (by decide) (hneg h)
    rw [if_pos h]
    omega
  · have hdigits : (numeral 10 v.natAbs).length ≤ 20 := numeral_length (by decide) (by decide) hall
    rw [if_neg h]
    omega

theorem hexText_length {v : ℤ} (hv : uintptr.Holds v) : (hexText v).length ≤ 16 := by
  have hbounds := uintptr_holds.mp hv
  exact numeral_length (by decide) (by decide) (by omega)

theorem digitValue_minus : digitValue '-'.toUInt8 = none := by decide

theorem numeral_head_ne_minus (n : ℕ) : (numeral 10 n).head? ≠ some '-'.toUInt8 := by
  intro hhead
  obtain ⟨ds, hds⟩ := List.head?_eq_some_iff.mp hhead
  have hread : readNumeral 10 (numeral 10 n) = some n := readNumeral_numeral (by decide) (by decide) n
  rw [hds, readNumeral, List.foldlM_cons, readDigit, digitValue_minus] at hread
  cases hread

theorem decimalText_canonical (v : ℤ) : CanonicalDecimal v (decimalText v) := by
  have hread : readNumeral 10 (numeral 10 v.natAbs) = some v.natAbs := readNumeral_numeral (by decide) (by decide) v.natAbs
  have hsign : (decimalText v).head? = some '-'.toUInt8 ↔ v < 0 := by
    unfold decimalText sign
    split
    case isTrue hneg => exact ⟨fun _ => hneg, fun _ => rfl⟩
    case isFalse hpos => exact ⟨fun h => absurd h (numeral_head_ne_minus _), fun h => absurd h hpos⟩
  constructor
  case digits => exact ⟨_, rfl, numeral_canonical (by decide) (by decide) _⟩
  case sign => exact hsign
  case value =>
    unfold readDecimal
    by_cases hneg : v < 0
    · rw [if_pos (hsign.mpr hneg), decimalText, sign, if_pos hneg, List.singleton_append, List.tail_cons, hread,
        Option.map_some]
      congr 1
      omega
    · rw [if_neg (fun h => hneg (hsign.mp h)), decimalText, sign, if_neg hneg, List.nil_append, hread,
        Option.map_some]
      congr 1
      omega

/-- `convert` leaves the canonical decimal form with its NUL at `buf` and nothing else, for every integer
type of at most 64 bits; `convertHex` the same in upper-case hexadecimal for every `uintptr_t`. -/
theorem integers_format (mem : List UInt8) (buf : ℕ) :
    (∀ (T : IntegerType) (v : ℤ), T.width ≤ 64 → T.Holds v → buf + 21 ≤ mem.length →
      ∃ s, convert T mem buf v = .ok (overwrite mem buf (s ++ [0]), s.length) ∧ CanonicalDecimal v s ∧ s.length ≤ 20) ∧
    (∀ v : ℤ, uintptr.Holds v → buf + 17 ≤ mem.length →
      ∃ s, convertHex mem buf v = .ok (overwrite mem buf (s ++ [0]), s.length) ∧ Canonical 16 v.toNat s ∧ s.length ≤ 16) := by
  constructor
  · intro T v hw hv hroom
    have hlen := decimalText_length hv hw
    exact ⟨decimalText v, convert_eq hv (by omega), decimalText_canonical v, hlen⟩
  · intro v hv hroom
    have hlen := hexText_length hv
    have hnat : v.toNat = v.natAbs := by
      have hbounds := uintptr_holds.mp hv
      omega
    refine ⟨hexText v, convertHex_eq hv (by omega), ?_, hlen⟩
    rw [hnat]
    exact numeral_canonical (by decide) (by decide) _

-- The least `long long`, and an address with letters in it.
theorem integers_format_extremes :
    (∃ s, convert ⟨64, true⟩ (List.replicate 32 7) 3 (-9223372036854775808) =
        .ok (overwrite (List.replicate 32 7) 3 (s ++ [0]), s.length) ∧
      CanonicalDecimal (-9223372036854775808) s ∧ s.length ≤ 20) ∧
    ∃ s, convertHex (List.replicate 32 7) 3 0xdeadbeef = .ok (overwrite (List.replicate 32 7) 3 (s ++ [0]), s.length) ∧
      Canonical 16 0xdeadbeef s ∧ s.length ≤ 16 :=
  ⟨(integers_format (List.replicate 32 7) 3).1 ⟨64, true⟩ (-9223372036854775808) (by decide) (by decide) (by decide),
    (integers_format (List.replicate 32 7) 3).2 0xdeadbeef (by decide) (by decide)⟩

end Networker
