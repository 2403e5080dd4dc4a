import Networker.IntegerFormat

/-!
`base/LogStream.h`: the fixed-size buffer, first as the pieces that were appended since the last
`reset`, then with its memory, and every insertion as it writes into `data_`.
-/

namespace Networker

open ByteVectors CharArrays CheckedRuns DigitStrings

def kSmallBuffer : ℕ := 4000
def kLargeBuffer : ℕ := 4000 * 1000

structure FixedBuffer (SIZE : ℕ) where
  pieces : List Line := []
  fits : pieces.flatten.length ≤ SIZE := by exact Nat.zero_le _
deriving DecidableEq

namespace FixedBuffer

variable {SIZE : ℕ}

def data (b : FixedBuffer SIZE) : List UInt8 := b.pieces.flatten

def length (b : FixedBuffer SIZE) : ℕ := b.data.length

def avail (b : FixedBuffer SIZE) : ℕ := SIZE - b.length

/-- A piece that does not fit is left out without a word. -/
def append (b : FixedBuffer SIZE) (buf : Line) : FixedBuffer SIZE :=
  if h : buf.length < b.avail then
    { pieces := b.pieces ++ [buf]
      fits := by
        have hlen : b.pieces.flatten.length = b.length := rfl
        simp only [avail] at h
        simp only [List.flatten_append, List.flatten_singleton, List.length_append]
        omega }
  else b

def reset (_ : FixedBuffer SIZE) : FixedBuffer SIZE := {}

@[simp] theorem append_pieces {b : FixedBuffer SIZE} {buf : Line} (h : buf.length < b.avail) :
    (b.append buf).pieces = b.pieces ++ [buf] := by
  rw [append, dif_pos h]

theorem avail_of_pieces {b : FixedBuffer SIZE} (h : b.pieces = []) : b.avail = SIZE := by
  simp [avail, length, data, h]

theorem length_pos_of_avail_le {b : FixedBuffer SIZE} {n : ℕ} (h : b.avail ≤ n) (hn : n < SIZE) : 0 < b.length := by
  simp only [avail] at h
  omega

end FixedBuffer

/-- `FixedBuffer`, as an array and the index that `cur_` points to. -/
structure CharBuffer (SIZE : ℕ) where
  data_ : List UInt8
  cur_ : ℕ := 0
deriving DecidableEq

namespace CharBuffer

variable {SIZE : ℕ}

def length (b : CharBuffer SIZE) : ℤ := castInt32 b.cur_

def avail (b : CharBuffer SIZE) : ℤ := castInt32 (SIZE - b.cur_)

def append (b : CharBuffer SIZE) (buf : Line) : Exec (CharBuffer SIZE) :=
  if castInt32 buf.length < b.avail then do
    return { data_ := ← memcpy b.data_ b.cur_ buf, cur_ := b.cur_ + buf.length }
  else .ok b

/-- What lies between `data_` and `cur_`. -/
def content (b : CharBuffer SIZE) : Line := slice b.data_ 0 b.cur_

end CharBuffer

inductive IntegerKind
  | short | unsignedShort | int | unsignedInt | long | unsignedLong | longLong | unsignedLongLong
deriving DecidableEq, Repr

def IntegerKind.type : IntegerKind → IntegerType
  | short => ⟨16, true⟩
  | unsignedShort => ⟨16, false⟩
  | int => ⟨32, true⟩
  | unsignedInt => ⟨32, false⟩
  | long => ⟨64, true⟩
  | unsignedLong => ⟨64, false⟩
  | longLong => ⟨64, true⟩
  | unsignedLongLong => ⟨64, false⟩

/-- Where the overload does not format the number itself but casts it for another one. -/
def IntegerKind.formattedAs : IntegerKind → IntegerKind
  | short => int
  | unsignedShort => unsignedInt
  | kind => kind

/-- The only member of a `LogStream` is its buffer. -/
abbrev LogStream := CharBuffer kSmallBuffer

def kMaxNumericSize : ℕ := 32

namespace LogStream

variable (s : LogStream)

def insertBool (v : Bool) : Exec LogStream := s.append (if v then chars "1" else chars "0")

def insertChar (v : UInt8) : Exec LogStream := s.append [v]

/-- A C string is given by its characters in front of the NUL. -/
def insertCString : Option Line → Exec LogStream
  | some str => s.append str
  | none => s.append (chars "(null)")

def insertString (v : Line) : Exec LogStream := s.append v

def appendData (data : Line) : Exec LogStream := s.append data

def formatInteger (T : IntegerType) (v : ℤ) : Exec LogStream :=
  if kMaxNumericSize ≤ s.avail then do
    let out ← convert T s.data_ s.cur_ v
    return { data_ := out.1, cur_ := s.cur_ + out.2 }
  else .ok s

def insertInteger (kind : IntegerKind) (v : ℤ) : Exec LogStream := s.formatInteger kind.formattedAs.type v

def insertPointer (v : ℤ) : Exec LogStream :=
  if kMaxNumericSize ≤ s.avail then do
    let data ← store s.data_ s.cur_ '0'.toUInt8
    let data ← store data (s.cur_ + 1) 'x'.toUInt8
    let out ← convertHex data (s.cur_ + 2) v
    return { data_ := out.1, cur_ := s.cur_ + (out.2 + 2) }
  else .ok s

/-- The overloads for `float`, `double` and `long double`, with the text that `%.12g` stands for. -/
def insertFloating (text : Line) : Exec LogStream :=
  if kMaxNumericSize ≤ s.avail then do
    return { data_ := ← memcpy s.data_ s.cur_ (text.take (kMaxNumericSize - 1) ++ [0]), cur_ := s.cur_ + text.length }
  else .ok s

end LogStream

inductive Insertion
  | bool (v : Bool)
  | char (v : UInt8)
  | cString (str : Option Line)
  | string (v : Line)
  | append (data : Line)
  | integer (kind : IntegerKind) (v : ℤ)
  | pointer (v : ℤ)
  | floating (text : Line)
deriving DecidableEq

def LogStream.insert (s : LogStream) : Insertion → Exec LogStream
  | .bool v => s.insertBool v
  | .char v => s.insertChar v
  | .cString str => s.insertCString str
  | .string v => s.insertString v
  | .append data => s.appendData data
  | .integer kind v => s.insertInteger kind v
  | .pointer v => s.insertPointer v
  | .floating text => s.insertFloating text

def LogStream.insertAll (s : LogStream) (is : List Insertion) : Exec LogStream := is.foldlM LogStream.insert s

namespace Insertion

def text : Insertion → Line
  | bool v => if v then chars "1" else chars "0"
  | char v => [v]
  | cString str => str.getD (chars "(null)")
  | string v => v
  | append data => data
  | integer _ v => decimalText v
  | pointer v => chars "0x" ++ hexText v
  | floating text => text

def numeric : Insertion → Bool
  | integer _ _ => true
  | pointer _ => true
  | floating _ => true
  | _ => false

def Passes (i : Insertion) (avail : ℤ) : Prop :=
  if i.numeric then (kMaxNumericSize : ℤ) ≤ avail else i.text.length < avail

instance (i : Insertion) (avail : ℤ) : Decidable (i.Passes avail) := by
  unfold Passes
  split <;> infer_instance

/-- Numbers are values of their types and texts have less than 2^31 characters. `%.12g` needs at most
20 characters, a sign, twelve digits, a point and an exponent. -/
def Valid : Insertion → Prop
  | integer kind v => kind.type.Holds v
  | pointer v => uintptr.Holds v
  | floating text => text.length ≤ 20
  | i => i.text.length < 2 ^ 31

instance (i : Insertion) : Decidable i.Valid := by
  cases i <;> unfold Valid <;> infer_instance

/-- `Valid` without the bound on the lengths of texts. -/
def Typed : Insertion → Prop
  | integer kind v => kind.type.Holds v
  | pointer v => uintptr.Holds v
  | floating text => text.length ≤ 20
  | _ => True

instance (i : Insertion) : Decidable i.Typed := by
  cases i <;> unfold Typed <;> infer_instance

/-- The insertions of a sequence that find space, if `used` bytes are taken at its beginning. -/
def accepted : ℕ → List Insertion → List Insertion
  | _, [] => []
  | used, i :: is =>
    if i.Passes (kSmallBuffer - used) then i :: accepted (used + i.text.length) is else accepted used is

def AllPass : ℕ → List Insertion → Prop
  | _, [] => True
  | used, i :: is => i.Passes (kSmallBuffer - used) ∧ AllPass (used + i.text.length) is

theorem accepted_length (used : ℕ) (is : List Insertion) :
    ((accepted used is).flatMap text).length ≤ (is.flatMap text).length := by
  induction is generalizing used with
  | nil => exact Nat.le_refl _
  | cons i is ih =>
    rw [accepted, List.flatMap_cons, List.length_append]
    split
    case isTrue =>
      rw [List.flatMap_cons, List.length_append]
      exact Nat.add_le_add_left (ih _) _
    case isFalse => exact (ih used).trans (Nat.le_add_left _ _)

theorem Passes.room {i : Insertion} {used : ℕ} (h : i.Passes (kSmallBuffer - used)) (hlen : i.numeric → i.text.length < kMaxNumericSize) :
    used + i.text.length < kSmallBuffer := by
  unfold Passes at h
  split at h
  case isTrue hnum =>
    have := hlen hnum
    omega
  case isFalse => omega

theorem text_pos_of_not_passes {i : Insertion} {used : ℕ} (h : ¬i.Passes (kSmallBuffer - used)) (hused : used < kSmallBuffer)
    (hne : i.numeric → i.text ≠ []) : 0 < i.text.length := by
  unfold Passes at h
  split at h
  case isTrue hnum => exact List.length_pos_of_ne_nil (hne hnum)
  case isFalse => omega

/-- A piece that is left out is missed, since a text without characters always finds space. -/
theorem accepted_eq_iff {used : ℕ} {is : List Insertion} (hused : used < kSmallBuffer)
    (hnum : ∀ i ∈ is, i.numeric → i.text ≠ [] ∧ i.text.length < kMaxNumericSize) :
    (accepted used is).flatMap text = is.flatMap text ↔ AllPass used is := by
  induction is generalizing used with
  | nil => exact iff_of_true rfl trivial
  | cons i is ih =>
    have hi := hnum i List.mem_cons_self
    rw [accepted, AllPass]
    by_cases hpass : i.Passes (kSmallBuffer - used)
    · rw [if_pos hpass, List.flatMap_cons, List.flatMap_cons, List.append_cancel_left_eq,
        ih (hpass.room fun h => (hi h).2) fun j hj => hnum j (List.mem_cons_of_mem _ hj)]
      exact (and_iff_right hpass).symm
    · rw [if_neg hpass]
      refine iff_of_false (fun heq => ?_) fun h => hpass h.1
      have hshort := accepted_length used is
      have hpos := text_pos_of_not_passes hpass hused fun h => (hi h).1
      rw [heq, List.flatMap_cons, List.length_append] at hshort
      omega

end Insertion

/-- The array is whole, `cur_` lies in front of its last byte, and `c` was written so far. -/
structure CharBuffer.Contains {SIZE : ℕ} (b : CharBuffer SIZE) (c : Line) : Prop where
  size : b.data_.length = SIZE
  cur : b.cur_ = c.length
  room : c.length < SIZE
  content : b.content = c

namespace CharBuffer.Contains

variable {SIZE : ℕ} {b : CharBuffer SIZE} {c : Line}

theorem avail_eq (h : b.Contains c) (hS : SIZE < 2 ^ 31) : b.avail = SIZE - c.length := by
  have := h.room
  unfold CharBuffer.avail
  rw [h.cur, castInt32_eq (by omega)]

theorem length_eq (h : b.Contains c) (hS : SIZE < 2 ^ 31) : b.length = c.length := by
  have := h.room
  unfold CharBuffer.length
  rw [h.cur, castInt32_eq (by omega)]

/-- A write from `cur_` on, of which the last part is left outside the content. -/
theorem write (h : b.Contains c) (text rest : Line) (hroom : c.length + (text ++ rest).length ≤ SIZE)
    (hlt : c.length + text.length < SIZE) :
    ({ data_ := overwrite b.data_ b.cur_ (text ++ rest), cur_ := b.cur_ + text.length } : CharBuffer SIZE).Contains
      (c ++ text) := by
  have hfits : b.cur_ + (text ++ rest).length ≤ b.data_.length := by rwa [h.cur, h.size]
  constructor
  case size => rw [overwrite_length _ _ _ hfits, h.size]
  case cur => rw [List.length_append, h.cur]
  case room => rwa [List.length_append]
  case content =>
    have hcontent := h.content
    unfold CharBuffer.content at hcontent ⊢
    rw [slice_overwrite_part hfits, hcontent]

theorem append (h : b.Contains c) (hS : SIZE < 2 ^ 31) {buf : Line} (hbuf : buf.length < 2 ^ 31) :
    ∃ b', b.append buf = .ok b' ∧ b'.Contains (c ++ if (buf.length : ℤ) < b.avail then buf else []) := by
  have hlen : castInt32 buf.length = buf.length := castInt32_eq (by omega)
  unfold CharBuffer.append
  rw [hlen]
  by_cases hfits : (buf.length : ℤ) < b.avail
  · rw [h.avail_eq hS] at hfits
    rw [if_pos (by rwa [h.avail_eq hS]), memcpy_eq (by rw [h.cur, h.size]; omega), ok_bind,
      if_pos (by rwa [h.avail_eq hS])]
    have hwrite := h.write buf [] (by rw [List.append_nil]; omega) (by omega)
    rw [List.append_nil] at hwrite
    exact ⟨_, rfl, hwrite⟩
  · rw [if_neg hfits, if_neg hfits, List.append_nil]
    exact ⟨b, rfl, h⟩

/-- A text whose length does not fit an `int` is written outside the array or left out. -/
theorem append_ok (h : b.Contains c) (hS : SIZE < 2 ^ 31) {buf : Line} {b' : CharBuffer SIZE}
    (hok : b.append buf = .ok b') : ∃ c', b'.Contains c' := by
  by_cases hbuf : buf.length < 2 ^ 31
  · obtain ⟨t, ht, hc⟩ := h.append hS hbuf
    cases ht.symm.trans hok
    exact ⟨_, hc⟩
  · unfold CharBuffer.append memcpy at hok
    rw [if_neg (show ¬b.cur_ + buf.length ≤ b.data_.length by rw [h.size]; omega)] at hok
    split at hok
    · cases hok
    · cases hok
      exact ⟨c, h⟩

end CharBuffer.Contains

/-- The buffer of pieces that the logging back end works with is the content of the array. -/
theorem CharBuffer.append_refines {SIZE : ℕ} {b : CharBuffer SIZE} {pieces : FixedBuffer SIZE} (h : b.Contains pieces.data)
    (hS : SIZE < 2 ^ 31) {buf : Line} (hbuf : buf.length < 2 ^ 31) :
    ∃ b', b.append buf = .ok b' ∧ b'.Contains (pieces.append buf).data := by
  obtain ⟨b', hb', hc⟩ := h.append hS hbuf
  refine ⟨b', hb', ?_⟩
  have havail : b.avail = pieces.avail := by
    have := h.room
    rw [h.avail_eq hS, FixedBuffer.avail, FixedBuffer.length]
    omega
  rw [havail] at hc
  by_cases hfits : buf.length < pieces.avail
  · rw [if_pos (by omega)] at hc
    rwa [FixedBuffer.data, FixedBuffer.append_pieces hfits, List.flatten_append, List.flatten_singleton]
  · rw [if_neg (by omega), List.append_nil] at hc
    rwa [FixedBuffer.append, dif_neg hfits]

theorem IntegerKind.formattedAs_holds {kind : IntegerKind} {v : ℤ} (h : kind.type.Holds v) : kind.formattedAs.type.Holds v := by
  cases kind
  case short =>
    have hbounds : -2 ^ 15 ≤ v ∧ v < 2 ^ 15 := h
    exact show -2 ^ 31 ≤ v ∧ v < 2 ^ 31 by omega
  case unsignedShort =>
    have hbounds : 0 ≤ v ∧ v < 2 ^ 16 := h
    exact show 0 ≤ v ∧ v < 2 ^ 32 by omega
  all_goals exact h

theorem IntegerKind.type_width (kind : IntegerKind) : kind.type.width ≤ 64 := by
  cases kind <;> decide

namespace LogStream

variable {s : LogStream} {c : Line}

theorem kSmallBuffer_int : kSmallBuffer < 2 ^ 31 := by decide

/-- A number that is written, with a NUL behind it, if there is room for 32 bytes. -/
theorem number (h : s.Contains c) {text : Line} (hlen : text.length < kMaxNumericSize) {x : Exec LogStream}
    (hx : (kMaxNumericSize : ℤ) ≤ s.avail →
      x = .ok { data_ := overwrite s.data_ s.cur_ (text ++ [0]), cur_ := s.cur_ + text.length })
    (hskip : ¬(kMaxNumericSize : ℤ) ≤ s.avail → x = .ok s) :
    ∃ s', x = .ok s' ∧ s'.Contains (c ++ if (kMaxNumericSize : ℤ) ≤ s.avail then text else []) := by
  by_cases hfits : (kMaxNumericSize : ℤ) ≤ s.avail
  · have hroom := h.avail_eq kSmallBuffer_int
    rw [if_pos hfits]
    exact ⟨_, hx hfits, h.write text [0] (by rw [List.length_append, List.length_singleton]; omega) (by omega)⟩
  · rw [if_neg hfits, List.append_nil]
    exact ⟨s, hskip hfits, h⟩

theorem formatInteger_contains (h : s.Contains c) {T : IntegerType} {v : ℤ} (hv : T.Holds v) (hw : T.width ≤ 64) :
    ∃ s', s.formatInteger T v = .ok s' ∧ s'.Contains (c ++ if (kMaxNumericSize : ℤ) ≤ s.avail then decimalText v else []) := by
  have hlen := decimalText_length hv hw
  have hroom := h.avail_eq kSmallBuffer_int
  refine number h (by rw [kMaxNumericSize]; omega) (fun hfits => ?_) fun hfits => if_neg hfits
  have hmem : s.cur_ + (decimalText v).length < s.data_.length := by
    rw [kMaxNumericSize] at hfits
    rw [h.cur, h.size]
    omega
  unfold formatInteger
  rw [if_pos hfits, convert_eq hv hmem, ok_bind]
  rfl

theorem insertPointer_contains (h : s.Contains c) {v : ℤ} (hv : uintptr.Holds v) :
    ∃ s', s.insertPointer v = .ok s' ∧
      s'.Contains (c ++ if (kMaxNumericSize : ℤ) ≤ s.avail then chars "0x" ++ hexText v else []) := by
  have hlen := hexText_length hv
  have hroom := h.avail_eq kSmallBuffer_int
  have hmark : chars "0x" = ['0'.toUInt8] ++ ['x'.toUInt8] := by decide
  have htext : (chars "0x" ++ hexText v).length = 2 + (hexText v).length := by rw [List.length_append, hmark]; rfl
  have hall : ((chars "0x" ++ hexText v) ++ [0]).length = 2 + (hexText v).length + 1 := by
    rw [List.length_append, htext, List.length_singleton]
  refine number h (by rw [htext, kMaxNumericSize]; omega) (fun hfits => ?_) fun hfits => if_neg hfits
  have hmem : s.cur_ + (2 + (hexText v).length + 1) ≤ s.data_.length := by
    rw [kMaxNumericSize] at hfits
    rw [h.cur, h.size]
    omega
  have hzero : store s.data_ s.cur_ '0'.toUInt8 = .ok (overwrite s.data_ s.cur_ ['0'.toUInt8]) := store_eq (by omega)
  have hx : store (overwrite s.data_ s.cur_ ['0'.toUInt8]) (s.cur_ + 1) 'x'.toUInt8 =
      .ok (overwrite s.data_ s.cur_ (chars "0x")) := by
    rw [hmark]
    exact store_after (s := ['0'.toUInt8]) _ (by simp; omega)
  have hwritten : (overwrite s.data_ s.cur_ (chars "0x")).length = s.data_.length :=
    overwrite_length _ _ _ (by rw [hmark]; simp; omega)
  have hhex : convertHex (overwrite s.data_ s.cur_ (chars "0x")) (s.cur_ + 2) v =
      .ok (overwrite s.data_ s.cur_ ((chars "0x" ++ hexText v) ++ [0]), (hexText v).length) := by
    rw [convertHex_eq hv (by omega), List.append_assoc, ← overwrite_append (s := chars "0x")]
    · rfl
    · rw [← List.append_assoc, hall]
      exact hmem
  unfold insertPointer
  rw [if_pos hfits, hzero, ok_bind, hx, ok_bind, hhex, ok_bind, htext, Nat.add_comm 2]
  rfl

theorem insertFloating_contains (h : s.Contains c) {text : Line} (ht : text.length ≤ 20) :
    ∃ s', s.insertFloating text = .ok s' ∧ s'.Contains (c ++ if (kMaxNumericSize : ℤ) ≤ s.avail then text else []) := by
  have hroom := h.avail_eq kSmallBuffer_int
  refine number h (by rw [kMaxNumericSize]; omega) (fun hfits => ?_) fun hfits => if_neg hfits
  have htake : text.take (kMaxNumericSize - 1) = text := List.take_of_length_le (by rw [kMaxNumericSize]; omega)
  have hmem : s.cur_ + (text ++ [0]).length ≤ s.data_.length := by
    rw [kMaxNumericSize] at hfits
    rw [h.cur, h.size, List.length_append, List.length_singleton]
    omega
  unfold insertFloating
  rw [if_pos hfits, htake, memcpy_eq hmem, ok_bind]
  rfl

/-- Characters and strings of all kinds are appended as a text. -/
theorem insert_text (s : LogStream) {i : Insertion} (hi : i.numeric = false) : s.insert i = s.append i.text := by
  cases i with
  | cString str => cases str <;> rfl
  | bool v => rfl
  | char v => rfl
  | string v => rfl
  | append data => rfl
  | integer kind v => cases hi
  | pointer v => cases hi
  | floating text => cases hi

theorem insert_contains (h : s.Contains c) {i : Insertion} (hi : i.Valid) :
    ∃ s', s.insert i = .ok s' ∧ s'.Contains (c ++ if i.Passes s.avail then i.text else []) := by
  cases i with
  | integer kind v =>
    exact formatInteger_contains h (IntegerKind.formattedAs_holds hi) (IntegerKind.type_width _)
  | pointer v => exact insertPointer_contains h hi
  | floating text => exact insertFloating_contains h hi
  | _ =>
    rw [insert_text s rfl]
    exact h.append kSmallBuffer_int hi

theorem insert_ok (h : s.Contains c) {i : Insertion} (hi : i.Typed) {s' : LogStream} (hok : s.insert i = .ok s') :
    ∃ c', s'.Contains c' := by
  have hnumber (hv : i.Valid) : ∃ c', s'.Contains c' := by
    obtain ⟨t, ht, hc⟩ := insert_contains h hv
    cases ht.symm.trans hok
    exact ⟨_, hc⟩
  cases i with
  | integer kind v => exact hnumber hi
  | pointer v => exact hnumber hi
  | floating text => exact hnumber hi
  | _ =>
    rw [insert_text s rfl] at hok
    exact h.append_ok kSmallBuffer_int hok

theorem insertAll_ok (h : s.Contains c) {is : List Insertion} (hi : ∀ i ∈ is, i.Typed) {s' : LogStream}
    (hok : s.insertAll is = .ok s') : ∃ c', s'.Contains c' := by
  induction is generalizing s c with
  | nil =>
    cases hok
    exact ⟨c, h⟩
  | cons i is ih =>
    rw [insertAll, List.foldlM_cons] at hok
    obtain ⟨t, ht, hlater⟩ := bind_eq_ok.mp hok
    obtain ⟨c', hc⟩ := insert_ok h (hi i List.mem_cons_self) ht
    exact ih hc (fun j hj => hi j (List.mem_cons_of_mem _ hj)) hlater

theorem insertAll_contains (h : s.Contains c) {is : List Insertion} (hv : ∀ i ∈ is, i.Valid) :
    ∃ s', s.insertAll is = .ok s' ∧ s'.Contains (c ++ (Insertion.accepted c.length is).flatMap Insertion.text) := by
  induction is generalizing s c with
  | nil =>
    rw [Insertion.accepted, List.flatMap_nil, List.append_nil]
    exact ⟨s, rfl, h⟩
  | cons i is ih =>
    obtain ⟨t, ht, hc⟩ := insert_contains h (hv i List.mem_cons_self)
    obtain ⟨u, hu, hlast⟩ := ih hc fun j hj => hv j (List.mem_cons_of_mem _ hj)
    refine ⟨u, by rw [insertAll, List.foldlM_cons, ht, ok_bind]; exact hu, ?_⟩
    rw [h.avail_eq kSmallBuffer_int] at hlast
    rw [Insertion.accepted]
    by_cases hfits : i.Passes (kSmallBuffer - c.length)
    · rw [if_pos hfits, List.length_append] at hlast
      rw [if_pos hfits, List.flatMap_cons, ← List.append_assoc]
      exact hlast
    · rw [if_neg hfits, List.append_nil] at hlast
      rw [if_neg hfits]
      exact hlast

theorem new_contains {memory : List UInt8} (hm : memory.length = kSmallBuffer) :
    ({ data_ := memory } : LogStream).Contains [] :=
  ⟨hm, rfl, by decide, slice_self memory 0⟩

/-- Whatever is inserted into a new stream, nothing is written outside `data_`, and the content is made
of the full texts of the insertions that passed their test, in order; another one only appends. -/
theorem insertions_kept (memory : List UInt8) (hm : memory.length = kSmallBuffer) (is : List Insertion)
    (hv : ∀ i ∈ is, i.Valid) :
    ∃ s : LogStream, insertAll { data_ := memory } is = .ok s ∧ s.data_.length = kSmallBuffer ∧
      s.length ≤ kSmallBuffer - 1 ∧ s.content = (Insertion.accepted 0 is).flatMap Insertion.text ∧
      ∀ i : Insertion, i.Valid →
        ∃ s', s.insert i = .ok s' ∧ s'.content = s.content ++ if i.Passes s.avail then i.text else [] := by
  obtain ⟨s, hs, hc⟩ := insertAll_contains (new_contains hm) hv
  refine ⟨s, hs, hc.size, ?_, hc.content, fun i hi => ?_⟩
  · have hroom := hc.room
    rw [hc.length_eq kSmallBuffer_int]
    omega
  · obtain ⟨t, ht, hnext⟩ := insert_contains hc hi
    exact ⟨t, ht, by rw [hnext.content, hc.content]⟩

-- A null pointer, the least `long` and an address.
theorem insertions_kept_three :
    ∃ s : LogStream, insertAll { data_ := List.replicate kSmallBuffer 0 }
        [.cString none, .integer .long (-9223372036854775808), .pointer 0xff] = .ok s ∧
      s.data_.length = kSmallBuffer ∧ s.length ≤ kSmallBuffer - 1 ∧
      s.content = (Insertion.accepted 0 [.cString none, .integer .long (-9223372036854775808), .pointer 0xff]).flatMap
        Insertion.text ∧
      ∀ i : Insertion, i.Valid →
        ∃ s', s.insert i = .ok s' ∧ s'.content = s.content ++ if i.Passes s.avail then i.text else [] :=
  insertions_kept _ List.length_replicate _ (by decide)

end LogStream

end Networker
