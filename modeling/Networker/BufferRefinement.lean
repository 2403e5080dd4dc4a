import Networker.BufferSpecs

namespace Networker.Buffer

open CheckedRuns ByteVectors ByteOrder

/-- The byte sequence a buffer stands for, and whether anything was prepended since it was created or
last reset by `retrieveAll`. -/
structure Contents where
  bytes : List UInt8
  prepended : Bool

/-- `retrieveUntil n` is called with the pointer `peek() + n`; `hasWritten` follows the storing of `data`
from `beginWrite()` on. -/
inductive Op
  | append (data : List UInt8)
  | appendInt64 (x : BitVec 64)
  | appendInt32 (x : BitVec 32)
  | appendInt16 (x : BitVec 16)
  | appendInt8 (x : BitVec 8)
  | prepend (data : List UInt8)
  | retrieve (n : ℕ)
  | retrieveUntil (n : ℕ)
  | retrieveAll
  | retrieveAsString (n : ℕ)
  | ensureWritableBytes (n : ℕ)
  | hasWritten (data : List UInt8)
  | unwrite (n : ℕ)

namespace Contents

def append (c : Contents) (data : List UInt8) : Contents := { c with bytes := c.bytes ++ data }

def retrieve (c : Contents) (n : ℕ) : Contents :=
  if n < c.bytes.length then { c with bytes := c.bytes.drop n } else ⟨[], false⟩

def step (c : Contents) : Op → Contents
  | .append data => c.append data
  | .appendInt64 x => c.append (hostBytes 8 x.toNat).reverse
  | .appendInt32 x => c.append (hostBytes 4 x.toNat).reverse
  | .appendInt16 x => c.append (hostBytes 2 x.toNat).reverse
  | .appendInt8 x => c.append (hostBytes 1 x.toNat).reverse
  | .prepend data => ⟨data ++ c.bytes, true⟩
  | .retrieve n => c.retrieve n
  | .retrieveUntil n => c.retrieve n
  | .retrieveAll => ⟨[], false⟩
  | .retrieveAsString n => c.retrieve n
  | .ensureWritableBytes _ => c
  | .hasWritten data => c.append data
  | .unwrite n => { c with bytes := c.bytes.take (c.bytes.length - n) }

end Contents

namespace Op

def size : Op → ℕ
  | .append data => data.length
  | .appendInt64 _ => 8
  | .appendInt32 _ => 4
  | .appendInt16 _ => 2
  | .appendInt8 _ => 1
  | .prepend data => data.length
  | .ensureWritableBytes n => n
  | .hasWritten data => data.length
  | .retrieve _ | .retrieveUntil _ | .retrieveAll | .retrieveAsString _ | .unwrite _ => 0

/-- The preconditions the code asserts on entry. -/
def Asserted (b : Buffer) : Op → Prop
  | .prepend data => data.length ≤ b.prependableBytes
  | .retrieve n => n ≤ b.readableBytes
  | .retrieveUntil n => b.peek + n ≤ b.beginWrite
  | .retrieveAsString n => n ≤ b.readableBytes
  | .hasWritten data => data.length ≤ b.writableBytes
  | .unwrite n => n ≤ b.readableBytes
  | .append _ | .appendInt64 _ | .appendInt32 _ | .appendInt16 _ | .appendInt8 _ | .retrieveAll
  | .ensureWritableBytes _ => True

instance (b : Buffer) : (op : Op) → Decidable (op.Asserted b)
  | .prepend data => inferInstanceAs (Decidable (data.length ≤ b.prependableBytes))
  | .retrieve n | .retrieveAsString n | .unwrite n => inferInstanceAs (Decidable (n ≤ b.readableBytes))
  | .retrieveUntil n => inferInstanceAs (Decidable (b.peek + n ≤ b.beginWrite))
  | .hasWritten data => inferInstanceAs (Decidable (data.length ≤ b.writableBytes))
  | .append _ | .appendInt64 _ | .appendInt32 _ | .appendInt16 _ | .appendInt8 _ | .retrieveAll
  | .ensureWritableBytes _ => inferInstanceAs (Decidable True)

variable [Build]

def apply (b : Buffer) : Op → Exec Buffer
  | .append data => b.append data
  | .appendInt64 x => b.appendInt64 x
  | .appendInt32 x => b.appendInt32 x
  | .appendInt16 x => b.appendInt16 x
  | .appendInt8 x => b.appendInt8 x
  | .prepend data => b.prepend data
  | .retrieve n => b.retrieve n
  | .retrieveUntil n => b.retrieveUntil (b.peek + n)
  | .retrieveAll => .ok b.retrieveAll
  | .retrieveAsString n => b.retrieveAsString n >>= fun r => .ok r.2
  | .ensureWritableBytes n => b.ensureWritableBytes n
  | .hasWritten data => b.writeAtEnd data >>= fun b => b.hasWritten data.length
  | .unwrite n => b.unwrite n

end Op

section Refinement

variable [Build]

/-- Every call meets its asserted precondition and leaves the total size below `2 ^ 31`. -/
def Admissible : Exec Buffer → List Op → Prop
  | _, [] => True
  | .error _, _ :: _ => True
  | .ok b, op :: ops =>
    op.Asserted b ∧ b.buffer.length + op.size < 2 ^ 31 ∧ Admissible (op.apply b) ops

instance decidableAdmissible : (x : Exec Buffer) → (ops : List Op) → Decidable (Admissible x ops)
  | _, [] => inferInstanceAs (Decidable True)
  | .error _, _ :: _ => inferInstanceAs (Decidable True)
  | .ok b, op :: ops =>
    have := decidableAdmissible (op.apply b) ops
    inferInstanceAs (Decidable (_ ∧ _ ∧ _))

omit [Build] in
structure Represents (b : Buffer) (c : Contents) : Prop where
  valid : b.Valid
  bytes_eq : b.readable = c.bytes
  prepend_room : c.prepended = false → kCheapPrepend ≤ b.readerIndex

section Simulation

variable {b : Buffer} {c : Contents} (hr : Represents b c)

include hr

theorem append_represents (data : List UInt8) (hs : data.length ≤ maxSize) :
    (∃ b', b.append data = .ok b' ∧ Represents b' (c.append data)) ∨
      (maxSize < b.buffer.length + data.length ∧ b.append data = .error .lengthError) := by
  have hw := hr.valid.writer_le
  rcases append_spec hr.valid data hs with ⟨b', he, hv, hb, hmin⟩ | ⟨hbig, he⟩
  · refine Or.inl ⟨b', he, hv, by rw [hb, hr.bytes_eq]; rfl, fun hp => ?_⟩
    have := hr.prepend_room hp
    omega
  · exact Or.inr ⟨by omega, he⟩

theorem appendInt_represents (n v : ℕ) (hs : n ≤ maxSize) :
    (∃ b', b.append (hostBytes n (byteSwap n v)) = .ok b' ∧ Represents b' (c.append (hostBytes n v).reverse)) ∨
      (maxSize < b.buffer.length + n ∧ b.append (hostBytes n (byteSwap n v)) = .error .lengthError) := by
  have h := append_represents hr (hostBytes n v).reverse
  rw [List.length_reverse, hostBytes_length] at h
  rw [hostBytes_byteSwap]
  exact h hs

theorem retrieve_represents {n : ℕ} (hn : n ≤ b.readableBytes) :
    ∃ b', b.retrieve n = .ok b' ∧ Represents b' (c.retrieve n) := by
  rw [hr.valid.readableBytes_length] at hn
  obtain ⟨b', he, hv, hb, _, hmin, hall⟩ := retrieve_spec hr.valid hn
  refine ⟨b', he, ?_⟩
  rw [hr.bytes_eq] at hb hn hall
  by_cases hlt : n < c.bytes.length
  · simp only [Contents.retrieve, if_pos hlt]
    refine ⟨hv, hb, fun hp => ?_⟩
    have := hr.prepend_room hp
    omega
  · simp only [Contents.retrieve, if_neg hlt]
    exact ⟨hv, by rw [hb, List.drop_eq_nil_of_le (by omega)], fun _ => hall (by omega)⟩

theorem retrieveUntil_represents {n : ℕ} (hn : b.peek + n ≤ b.beginWrite) :
    ∃ b', b.retrieveUntil (b.peek + n) = .ok b' ∧ Represents b' (c.retrieve n) := by
  have hm := maxSize_lt
  have hw := hr.valid.writer_le
  have hs := hr.valid.size_le
  have hle : b.readerIndex + n ≤ b.writerIndex := hn
  have hsub : subSize (b.peek + n) b.peek = n := by
    rw [subSize_eq (by omega) (by simp only [peek]; omega)]; omega
  obtain ⟨b', he, hrep⟩ := retrieve_represents hr (n := n) (by rw [hr.valid.readableBytes_eq]; omega)
  refine ⟨b', ?_, hrep⟩
  simp only [retrieveUntil, assert_pos (Nat.le_add_right b.peek n), assert_pos hn, ok_bind, hsub, he]

theorem retrieveAsString_represents {n : ℕ} (hn : n ≤ b.readableBytes) :
    ∃ b', b.retrieveAsString n = .ok (c.bytes.take n, b') ∧ Represents b' (c.retrieve n) := by
  obtain ⟨b', he, hrep⟩ := retrieve_represents hr hn
  refine ⟨b', ?_, hrep⟩
  have hlen := hr.valid.readableBytes_eq
  have hrl := hr.valid.reader_le
  have htake : slice b.buffer b.peek (b.peek + n) = c.bytes.take n := by
    rw [← hr.bytes_eq, readable, slice, slice, List.take_drop, List.take_take, peek,
      Nat.min_eq_left (by omega)]
  simp only [retrieveAsString, assert_pos hn, ok_bind, he, htake]

end Simulation

/-- Every call does what it should to the bytes, or the storage would exceed what a vector can hold. -/
theorem apply_represents {b : Buffer} {c : Contents} (hr : Represents b c) (op : Op)
    (ha : op.Asserted b) (hs : op.size ≤ maxSize) :
    (∃ b', op.apply b = .ok b' ∧ Represents b' (c.step op)) ∨
      (maxSize < b.buffer.length + op.size ∧ op.apply b = .error .lengthError) := by
  have hw := hr.valid.writer_le
  cases op with
  | append data => exact append_represents hr data hs
  | appendInt64 x => exact appendInt_represents hr 8 x.toNat hs
  | appendInt32 x => exact appendInt_represents hr 4 x.toNat hs
  | appendInt16 x => exact appendInt_represents hr 2 x.toNat hs
  | appendInt8 x =>
    have h := append_represents hr (hostBytes 1 x.toNat) (by rwa [hostBytes_length])
    rwa [hostBytes_length] at h
  | prepend data =>
    obtain ⟨b', he, hv, hb⟩ := prepend_spec hr.valid data ha
    exact Or.inl ⟨b', he, hv, by rw [hb, hr.bytes_eq]; rfl, by simp [Contents.step]⟩
  | retrieve n => exact Or.inl (retrieve_represents hr ha)
  | retrieveUntil n => exact Or.inl (retrieveUntil_represents hr ha)
  | retrieveAll =>
    exact Or.inl ⟨_, rfl, hr.valid.retrieveAll, retrieveAll_readable b, fun _ => Nat.le_refl _⟩
  | retrieveAsString n =>
    obtain ⟨b', he, hrep⟩ := retrieveAsString_represents hr ha
    exact Or.inl ⟨b', by simp only [Op.apply, he, ok_bind], hrep⟩
  | ensureWritableBytes n =>
    rcases ensureWritableBytes_spec hr.valid n (hr.valid.sumsFit hs) with ⟨b', he, hp⟩ | ⟨hbig, he⟩
    · refine Or.inl ⟨b', he, hp.valid, hp.readable_eq.trans hr.bytes_eq, fun hc => ?_⟩
      have := hr.prepend_room hc
      have := hp.reader_min
      omega
    · exact Or.inr ⟨lt_of_lt_of_le hbig (Nat.add_le_add_right hw n), he⟩
  | hasWritten data =>
    have ha' : data.length ≤ b.writableBytes := ha
    rw [hr.valid.writableBytes_eq] at ha'
    obtain ⟨b', he, hv, hb, hri, _⟩ := writeAtEnd_hasWritten hr.valid data (by omega)
    exact Or.inl ⟨b', he, hv, by rw [hb, hr.bytes_eq]; rfl, fun hc => hri ▸ hr.prepend_room hc⟩
  | unwrite n =>
    have ha' : n ≤ b.readableBytes := ha
    rw [hr.valid.readableBytes_length] at ha'
    obtain ⟨b', he, hv, hb, hri⟩ := unwrite_spec hr.valid ha'
    exact Or.inl ⟨b', he, hv, by rw [hb, hr.bytes_eq]; rfl, fun hc => hri ▸ hr.prepend_room hc⟩

theorem run_represents {b : Buffer} {c : Contents} (hr : Represents b c) (ops : List Op)
    (h : Admissible (.ok b) ops) :
    ∃ b', run Op.apply b ops = .ok b' ∧ Represents b' (ops.foldl Contents.step c) := by
  induction ops generalizing b c with
  | nil => exact ⟨b, rfl, hr⟩
  | cons op ops ih =>
    obtain ⟨ha, hs, hrest⟩ := h
    have hm : (2 : ℕ) ^ 31 ≤ maxSize := by simp [maxSize]
    rcases apply_represents hr op ha (by omega) with ⟨b1, he, hr1⟩ | ⟨hbig, -⟩
    · obtain ⟨b', hrun, hrep⟩ := ih hr1 (he ▸ hrest)
      exact ⟨b', by simp only [run, he, ok_bind, hrun], hrep⟩
    · omega

/-- With assertions on, an execution that ends in `.ok` has passed every one of them. -/
theorem buffer_refines_sequence (initialSize : ℕ) (ops : List Op)
    (hi : kCheapPrepend + initialSize < 2 ^ 31)
    (h : Admissible (create initialSize) ops) :
    ∃ b₀ b, create initialSize = .ok b₀ ∧ run Op.apply b₀ ops = .ok b ∧
      b.readerIndex ≤ b.writerIndex ∧ b.writerIndex ≤ b.buffer.length ∧
      kCheapPrepend ≤ b.buffer.length ∧
      b.readable = (ops.foldl Contents.step ⟨[], false⟩).bytes ∧
      ((ops.foldl Contents.step ⟨[], false⟩).prepended = false → kCheapPrepend ≤ b.prependableBytes) := by
  have hm : (2 : ℕ) ^ 31 ≤ maxSize := by simp [maxSize]
  have he := create_eq initialSize (by omega)
  have hr : Represents (initial initialSize) ⟨[], false⟩ :=
    ⟨initial_valid (by omega), initial_readable initialSize, fun _ => Nat.le_refl _⟩
  obtain ⟨b, hrun, hrep⟩ := run_represents hr ops (he ▸ h)
  exact ⟨initial initialSize, b, he, hrun, hrep.valid.reader_le, hrep.valid.writer_le, hrep.valid.prepend_le, hrep.bytes_eq,
    hrep.prepend_room⟩

end Refinement

/-- A run through the in-place move of `makeSpace`, a prepend and a reset, with assertions on. -/
theorem buffer_refines_sequence_move :
    let ops := [.append [1, 2, 3, 4, 5, 6], .retrieve 5, .append [7, 8, 9, 10], .prepend [0], .unwrite 1,
      .retrieve 5, .append [11]]
    @Admissible Build.debug (@create Build.debug 8) ops ∧
      ∃ b₀ b, @create Build.debug 8 = .ok b₀ ∧ @run _ _ (@Op.apply Build.debug) b₀ ops = .ok b ∧
        b.readerIndex ≤ b.writerIndex ∧ b.writerIndex ≤ b.buffer.length ∧
        kCheapPrepend ≤ b.buffer.length ∧ b.readable = [11] ∧
        (false = false → kCheapPrepend ≤ b.prependableBytes) :=
  ⟨by decide +kernel, @buffer_refines_sequence Build.debug 8 _ (by decide) (by decide +kernel)⟩

end Networker.Buffer
