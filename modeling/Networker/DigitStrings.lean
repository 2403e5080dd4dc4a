import Mathlib.Data.Nat.Digits.Lemmas

/-!
Numerals in a base of at most sixteen, most significant digit first, with upper-case letters.
Reading one back is defined apart from writing it. At the end the decimal ones that `snprintf`
puts into a buffer of fixed size. Nothing here depends on a program.
-/

namespace Networker.DigitStrings

/-- The digits as repeated division yields them. -/
def littleDigits (base n : ℕ) : List ℕ := if n = 0 then [0] else Nat.digits base n

def digitChar (d : ℕ) : UInt8 := if d < 10 then UInt8.ofNat (48 + d) else UInt8.ofNat (55 + d)

def numeral (base n : ℕ) : List UInt8 := ((littleDigits base n).map digitChar).reverse

def digitValue (c : UInt8) : Option ℕ :=
  if 48 ≤ c.toNat ∧ c.toNat ≤ 57 then some (c.toNat - 48)
  else if 65 ≤ c.toNat ∧ c.toNat ≤ 70 then some (c.toNat - 55)
  else none

/-- One more character of a numeral whose value so far is `v`. -/
def readDigit (base v : ℕ) (c : UInt8) : Option ℕ :=
  (digitValue c).bind fun d => if d < base then some (v * base + d) else none

def readNumeral (base : ℕ) (s : List UInt8) : Option ℕ := s.foldlM (readDigit base) 0

/-- The shortest way to write `n`. -/
structure Canonical (base n : ℕ) (s : List UInt8) : Prop where
  nonempty : s ≠ []
  value : readNumeral base s = some n
  no_leading_zero : s.head? = some (digitChar 0) → n = 0 ∧ s.length = 1

variable {base : ℕ}

theorem littleDigits_eq (hb : 1 < base) (n : ℕ) :
    littleDigits base n = n % base :: if n / base = 0 then [] else littleDigits base (n / base) := by
  unfold littleDigits
  rcases Nat.eq_zero_or_pos n with rfl | hn
  · simp
  · rw [if_neg (by omega), Nat.digits_def' hb hn]
    split
    case isTrue hzero => rw [hzero, Nat.digits_zero]
    case isFalse => rfl

theorem numeral_eq (hb : 1 < base) (n : ℕ) :
    numeral base n = (if n / base = 0 then [] else numeral base (n / base)) ++ [digitChar (n % base)] := by
  unfold numeral
  rw [littleDigits_eq hb n, List.map_cons, List.reverse_cons]
  split <;> rfl

theorem littleDigits_length (hb : 1 < base) {n k : ℕ} (hk : 0 < k) (hn : n < base ^ k) :
    (littleDigits base n).length ≤ k := by
  unfold littleDigits
  split
  case isTrue => exact hk
  case isFalse => exact (Nat.digits_length_le_iff hb n).mpr hn

theorem numeral_length (hb : 1 < base) {n k : ℕ} (hk : 0 < k) (hn : n < base ^ k) : (numeral base n).length ≤ k := by
  unfold numeral
  rw [List.length_reverse, List.length_map]
  exact littleDigits_length hb hk hn

theorem numeral_ne_nil (hb : 1 < base) (n : ℕ) : numeral base n ≠ [] := by
  rw [numeral_eq hb]
  exact List.append_ne_nil_of_right_ne_nil _ (List.cons_ne_nil _ _)

theorem digitValue_digitChar {d : ℕ} (h : d < 16) : digitValue (digitChar d) = some d := by
  revert d
  decide

theorem readDigit_digitChar (hb : base ≤ 16) {v d : ℕ} (hd : d < base) :
    readDigit base v (digitChar d) = some (v * base + d) := by
  unfold readDigit
  rw [digitValue_digitChar (by omega), Option.bind_some, if_pos hd]

theorem readNumeral_numeral (hb : 1 < base) (hb' : base ≤ 16) (n : ℕ) : readNumeral base (numeral base n) = some n := by
  induction n using Nat.strong_induction_on with
  | _ n ih =>
    have hmod : n % base < base := Nat.mod_lt _ (by omega)
    have hdiv := Nat.div_add_mod n base
    rw [numeral_eq hb]
    split
    case isTrue hzero =>
      have hn : n % base = n := Nat.mod_eq_of_lt ((Nat.div_eq_zero_iff_lt (by omega)).mp hzero)
      rw [hn] at hmod ⊢
      simp [readNumeral, readDigit_digitChar hb' hmod]
    case isFalse hne =>
      have hlt : n / base < n := Nat.div_lt_self (Nat.pos_of_ne_zero fun h => hne (by simp [h])) hb
      have hread := ih (n / base) hlt
      unfold readNumeral at hread ⊢
      rw [List.foldlM_append, hread]
      simp [readDigit_digitChar hb' hmod, Nat.mul_comm, hdiv]

theorem numeral_head (hb : 1 < base) (hb' : base ≤ 16) {n : ℕ} (hn : n ≠ 0) :
    (numeral base n).head? ≠ some (digitChar 0) := by
  induction n using Nat.strong_induction_on with
  | _ n ih =>
    rw [numeral_eq hb]
    split
    case isTrue hzero =>
      have hlt : n < base := (Nat.div_eq_zero_iff_lt (by omega)).mp hzero
      rw [Nat.mod_eq_of_lt hlt]
      intro hhead
      have hchar : digitChar n = digitChar 0 := Option.some.inj hhead
      have hvalue := digitValue_digitChar (show n < 16 by omega)
      rw [hchar, digitValue_digitChar (by omega)] at hvalue
      exact hn (Option.some.inj hvalue).symm
    case isFalse hne =>
      rw [List.head?_append_of_ne_nil _ (numeral_ne_nil hb _)]
      exact ih (n / base) (Nat.div_lt_self (Nat.pos_of_ne_zero hn) hb) hne

theorem numeral_canonical (hb : 1 < base) (hb' : base ≤ 16) (n : ℕ) : Canonical base n (numeral base n) := by
  constructor
  case nonempty => exact numeral_ne_nil hb n
  case value => exact readNumeral_numeral hb hb' n
  case no_leading_zero =>
    intro hhead
    rcases eq_or_ne n 0 with rfl | hn
    · exact ⟨rfl, rfl⟩
    · exact absurd hhead (numeral_head hb hb' hn)

end Networker.DigitStrings

namespace Networker

/-- What stands in a buffer of `size` bytes afterwards, without the terminating NUL. -/
def snprintf (size : ℕ) (text : List Char) : List Char := text.take (size - 1)

/-- The conversion `%d` of a number that is not negative. -/
def decimal (n : ℕ) : List Char := Nat.toDigits 10 n

theorem snprintf_eq {size : ℕ} {text : List Char} (h : text.length < size) : snprintf size text = text :=
  List.take_of_length_le (by omega)

theorem decimal_injective {m n : ℕ} (h : decimal m = decimal n) : m = n := by
  have hvalue := congrArg (fun cs => Nat.ofDigitChars 10 cs 0) h
  simpa only [decimal, Nat.ofDigitChars_ten_toDigits] using hvalue

/-- The digits of a positive `int`. -/
theorem decimal_length {n : ℕ} (h : n < 2 ^ 31) : (decimal n).length ≤ 10 :=
  (Nat.length_toDigits_le_iff (by decide) (by decide)).mpr (by omega)

end Networker
