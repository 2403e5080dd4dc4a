import Networker.BufferModel

namespace Networker.Buffer

open CheckedRuns ByteVectors ByteOrder

structure Valid (b : Buffer) : Prop where
  reader_le : b.readerIndex ≤ b.writerIndex
  writer_le : b.writerIndex ≤ b.buffer.length
  prepend_le : kCheapPrepend ≤ b.buffer.length
  size_le : b.buffer.length ≤ maxSize

instance (b : Buffer) : Decidable b.Valid :=
  decidable_of_iff (b.readerIndex ≤ b.writerIndex ∧ b.writerIndex ≤ b.buffer.length ∧
      kCheapPrepend ≤ b.buffer.length ∧ b.buffer.length ≤ maxSize)
    ⟨fun ⟨h₁, h₂, h₃, h₄⟩ => ⟨h₁, h₂, h₃, h₄⟩, fun h => ⟨h.reader_le, h.writer_le, h.prepend_le, h.size_le⟩⟩

section Sizes

theorem maxSize_lt : maxSize < 2 ^ 63 := by simp [maxSize]

variable {b : Buffer} (hv : b.Valid)

include hv

theorem Valid.readableBytes_eq : b.readableBytes = b.writerIndex - b.readerIndex := by
  have := hv.writer_le; have := hv.size_le; have := maxSize_lt
  exact subSize_eq hv.reader_le (by omega)

theorem Valid.writableBytes_eq : b.writableBytes = b.buffer.length - b.writerIndex := by
  have := hv.size_le; have := maxSize_lt
  exact subSize_eq hv.writer_le (by omega)

theorem Valid.readable_length : b.readable.length = b.writerIndex - b.readerIndex := by
  rw [readable, slice_length, Nat.min_eq_left hv.writer_le]

theorem Valid.readableBytes_length : b.readableBytes = b.readable.length := by
  rw [hv.readableBytes_eq, hv.readable_length]

theorem Valid.retrieveAll : b.retrieveAll.Valid :=
  ⟨Nat.le_refl _, hv.prepend_le, hv.prepend_le, hv.size_le⟩

end Sizes

@[simp] theorem retrieveAll_readable (b : Buffer) : b.retrieveAll.readable = [] := by
  simp [Buffer.retrieveAll, readable]

theorem initial_valid {initialSize : ℕ} (h : kCheapPrepend + initialSize ≤ maxSize) :
    (initial initialSize).Valid :=
  ⟨Nat.le_refl _, by simp [initial], by simp [initial], by simpa [initial] using h⟩

@[simp] theorem initial_readable (initialSize : ℕ) : (initial initialSize).readable = [] := by
  simp [initial, readable]

theorem create_eq [Build] (initialSize : ℕ) (h : kCheapPrepend + initialSize ≤ maxSize) :
    create initialSize = .ok (initial initialSize) := by
  have hm := maxSize_lt
  have ha : addSize kCheapPrepend initialSize = kCheapPrepend + initialSize := addSize_eq (by omega)
  have hv := initial_valid h
  have hr : resize [] (addSize kCheapPrepend initialSize) = .ok (initial initialSize).buffer := by
    simp [resize, ha, h, initial]
  have h1 : (initial initialSize).readableBytes = 0 := by rw [hv.readableBytes_eq]; simp [initial]
  have h2 : (initial initialSize).writableBytes = initialSize := by rw [hv.writableBytes_eq]; simp [initial]
  simp only [create, hr, ok_bind]
  change (assert ((initial initialSize).readableBytes = 0) >>= fun _ =>
    assert ((initial initialSize).writableBytes = initialSize) >>= fun _ =>
      assert ((initial initialSize).prependableBytes = kCheapPrepend) >>= fun _ => _) = _
  rw [assert_pos h1, assert_pos h2,
    assert_pos (show (initial initialSize).prependableBytes = kCheapPrepend from rfl)]
  rfl

variable [Build]

theorem retrieve_spec {b : Buffer} (hv : b.Valid) {len : ℕ} (h : len ≤ b.readable.length) :
    ∃ b', b.retrieve len = .ok b' ∧ b'.Valid ∧ b'.readable = b.readable.drop len ∧
      b'.buffer.length = b.buffer.length ∧ min kCheapPrepend b.readerIndex ≤ b'.readerIndex ∧
      (len = b.readable.length → kCheapPrepend ≤ b'.readerIndex) := by
  have hlen := hv.readable_length
  have hm := maxSize_lt
  have hw := hv.writer_le
  have hs := hv.size_le
  have hrl := hv.reader_le
  simp only [retrieve, assert_pos (show len ≤ b.readableBytes from hv.readableBytes_length ▸ h), ok_bind]
  by_cases hlt : len < b.readableBytes
  · rw [if_pos hlt]
    rw [hv.readableBytes_length] at hlt
    have ha : addSize b.readerIndex len = b.readerIndex + len := addSize_eq (by omega)
    refine ⟨_, rfl, ⟨?_, hw, hv.prepend_le, hs⟩, ?_, rfl, ?_, ?_⟩
    · simp only [ha]; omega
    · simp only [ha, readable, slice_drop]
    · simp only [ha]; omega
    · intro he; omega
  · rw [if_neg hlt]
    rw [hv.readableBytes_length] at hlt
    refine ⟨_, rfl, hv.retrieveAll, ?_, rfl, Nat.min_le_left _ _, fun _ => Nat.le_refl _⟩
    rw [retrieveAll_readable, List.drop_eq_nil_of_le (by omega)]

/-- What `ensureWritableBytes` and `makeSpace` may change: the storage and the indices, not the content. -/
structure Prepared (b b' : Buffer) (len : ℕ) : Prop where
  valid : b'.Valid
  readable_eq : b'.readable = b.readable
  room : b'.writerIndex + len ≤ b'.buffer.length
  reader_min : min kCheapPrepend b.readerIndex ≤ b'.readerIndex

/-- No sum that `makeSpace` forms with `len` wraps. -/
def SumsFit (b : Buffer) (len : ℕ) : Prop := b.writerIndex + len < 2 ^ 64 ∧ len + kCheapPrepend < 2 ^ 64

instance (b : Buffer) (len : ℕ) : Decidable (b.SumsFit len) := inferInstanceAs (Decidable (_ ∧ _))

omit [Build] in
theorem Valid.sumsFit {b : Buffer} (hv : b.Valid) {len : ℕ} (h : len ≤ maxSize) : b.SumsFit len := by
  have hm := maxSize_lt
  have hw := hv.writer_le
  have hs := hv.size_le
  have hk : kCheapPrepend = 8 := rfl
  constructor <;> omega

omit [Build] in
theorem Valid.resized {b : Buffer} (hv : b.Valid) {len : ℕ} (hroom : b.buffer.length ≤ b.writerIndex + len)
    (hsize : b.writerIndex + len ≤ maxSize) :
    ∃ v, resize b.buffer (b.writerIndex + len) = .ok v ∧ Prepared b { b with buffer := v } len := by
  let v := b.buffer.take (b.writerIndex + len) ++ List.replicate (b.writerIndex + len - b.buffer.length) (0 : UInt8)
  have hw := hv.writer_le
  have hp := hv.prepend_le
  have hvl : v.length = b.writerIndex + len := by
    simp only [v, List.length_append, List.length_take, List.length_replicate]
    omega
  refine ⟨v, by simp [resize, hsize, v], ⟨hv.reader_le, ?_, ?_, ?_⟩, ?_, ?_, Nat.min_le_right _ _⟩
  · simp only [hvl]
    omega
  · simp only [hvl]
    omega
  · simp only [hvl]
    omega
  · simp only [readable, slice, v]
    rw [List.take_append_of_le_length (by simp; omega), List.take_take, Nat.min_eq_left (by omega)]
  · exact Nat.le_of_eq hvl.symm

omit [Build] in
/-- The content moves to the front, where the free space of both ends is behind it. -/
theorem Valid.moved {b : Buffer} (hv : b.Valid) {len : ℕ} (hreader : kCheapPrepend ≤ b.readerIndex)
    (hroom : len + kCheapPrepend ≤ b.buffer.length - b.writerIndex + b.readerIndex) :
    ∃ v, copyWithin b.buffer b.readerIndex b.writerIndex kCheapPrepend = .ok v ∧
      Prepared b ⟨v, kCheapPrepend, kCheapPrepend + (b.writerIndex - b.readerIndex)⟩ len := by
  let n := b.writerIndex - b.readerIndex
  let v := copyForward n b.buffer b.readerIndex kCheapPrepend
  have hr := hv.reader_le
  have hw := hv.writer_le
  have hvl : v.length = b.buffer.length := copyForward_length ..
  have hn : b.readerIndex + n = b.writerIndex := by omega
  refine ⟨v, ?_, ⟨?_, ?_, ?_, ?_⟩, ?_, ?_, Nat.min_le_left _ _⟩
  · rw [copyWithin, if_pos (by omega)]
  · exact Nat.le_add_right _ _
  · simp only [hvl]
    omega
  · simp only [hvl]
    exact hv.prepend_le
  · simp only [hvl]
    exact hv.size_le
  · simp only [readable, v]
    rw [slice_copyForward n b.buffer b.readerIndex kCheapPrepend hreader (by omega), hn]
  · simp only [hvl]
    omega

theorem makeSpace_spec {b : Buffer} (hv : b.Valid) (len : ℕ) (hfit : b.SumsFit len)
    (hroom : b.buffer.length < b.writerIndex + len) :
    (∃ b', b.makeSpace len = .ok b' ∧ Prepared b b' len) ∨
      (maxSize < b.writerIndex + len ∧ b.makeSpace len = .error .lengthError) := by
  have hm := maxSize_lt
  have hrl := hv.reader_le
  have hw := hv.writer_le
  have hs := hv.size_le
  have hk : kCheapPrepend = 8 := rfl
  have h1 : addSize b.writableBytes b.prependableBytes = b.buffer.length - b.writerIndex + b.readerIndex := by
    rw [hv.writableBytes_eq]
    exact addSize_eq (by simp only [prependableBytes]; omega)
  have h2 : addSize len kCheapPrepend = len + kCheapPrepend := addSize_eq hfit.2
  have h3 : addSize b.writerIndex len = b.writerIndex + len := addSize_eq hfit.1
  simp only [makeSpace, h1, h2, h3]
  by_cases hgrow : b.buffer.length - b.writerIndex + b.readerIndex < len + kCheapPrepend
  · rw [if_pos hgrow]
    by_cases hsize : b.writerIndex + len ≤ maxSize
    · obtain ⟨v, hr, hp⟩ := hv.resized (Nat.le_of_lt hroom) hsize
      exact Or.inl ⟨_, by rw [hr, ok_bind], hp⟩
    · refine Or.inr ⟨by omega, ?_⟩
      simp [resize, hsize]
  · -- the free space at both ends suffices, so the reader stands past the cheap prepend area
    rw [if_neg hgrow]
    have hreader : kCheapPrepend < b.readerIndex := by omega
    obtain ⟨v, hcopy, hp⟩ := hv.moved (Nat.le_of_lt hreader) (Nat.not_lt.mp hgrow)
    have ha : addSize kCheapPrepend b.readableBytes = kCheapPrepend + (b.writerIndex - b.readerIndex) := by
      rw [hv.readableBytes_eq]
      exact addSize_eq (by omega)
    have hsame : b.readableBytes =
        readableBytes ⟨v, kCheapPrepend, kCheapPrepend + (b.writerIndex - b.readerIndex)⟩ := by
      rw [hv.readableBytes_eq, hp.valid.readableBytes_eq, Nat.add_sub_cancel_left]
    exact Or.inl ⟨_, by rw [assert_pos hreader, ok_bind, hcopy, ok_bind, ha, assert_pos hsame, ok_bind], hp⟩

theorem makeSpace_inv {b b' : Buffer} {len : ℕ} (h : b.makeSpace len = .ok b') :
    (addSize b.writableBytes b.prependableBytes < addSize len kCheapPrepend ∧
        ∃ v, resize b.buffer (addSize b.writerIndex len) = .ok v ∧ b' = { b with buffer := v }) ∨
      (addSize len kCheapPrepend ≤ addSize b.writableBytes b.prependableBytes ∧
        ∃ v, copyWithin b.buffer b.readerIndex b.writerIndex kCheapPrepend = .ok v ∧
          b' = ⟨v, kCheapPrepend, addSize kCheapPrepend b.readableBytes⟩) := by
  simp only [makeSpace] at h
  split_ifs at h with hgrow
  · obtain ⟨v, hr, h⟩ := bind_eq_ok.mp h
    cases h
    exact Or.inl ⟨hgrow, v, hr, rfl⟩
  · obtain ⟨v, hc, h⟩ := bind_eq_ok.mp (assert_bind_ok h)
    cases assert_bind_ok h
    exact Or.inr ⟨Nat.not_lt.mp hgrow, v, hc, rfl⟩

theorem ensureWritableBytes_inv {b b' : Buffer} {len : ℕ} (h : b.ensureWritableBytes len = .ok b') :
    b' = b ∨ (b.writableBytes < len ∧ b.makeSpace len = .ok b') := by
  simp only [ensureWritableBytes] at h
  split_ifs at h with hlt
  · obtain ⟨b₁, h₁, h⟩ := bind_eq_ok.mp h
    cases assert_bind_ok h
    exact Or.inr ⟨hlt, h₁⟩
  · rw [ok_bind] at h
    cases assert_bind_ok h
    exact Or.inl rfl

theorem ensureWritableBytes_spec {b : Buffer} (hv : b.Valid) (len : ℕ) (hfit : b.SumsFit len) :
    (∃ b', b.ensureWritableBytes len = .ok b' ∧ Prepared b b' len) ∨
      (maxSize < b.writerIndex + len ∧ b.ensureWritableBytes len = .error .lengthError) := by
  have hw := hv.writableBytes_eq
  have hwl := hv.writer_le
  have hroom {b' : Buffer} (hp : Prepared b b' len) : len ≤ b'.writableBytes := by
    have := hp.room
    rw [hp.valid.writableBytes_eq]; omega
  by_cases h : b.writableBytes < len
  · rcases makeSpace_spec hv len hfit (by omega) with ⟨b', he, hp⟩ | ⟨hbig, he⟩
    · left
      refine ⟨b', ?_, hp⟩
      simp only [ensureWritableBytes, if_pos h, he, ok_bind]
      rw [assert_pos (hroom hp), ok_bind]
    · right
      refine ⟨hbig, ?_⟩
      simp only [ensureWritableBytes, if_pos h, he, error_bind]
  · left
    have hp : Prepared b b len := ⟨hv, rfl, by omega, Nat.min_le_right _ _⟩
    refine ⟨b, ?_, hp⟩
    simp only [ensureWritableBytes, if_neg h, ok_bind]
    rw [assert_pos (hroom hp), ok_bind]

omit [Build] in
/-- What is stored from the write index on is content once the index is behind it. -/
theorem copyInto_writer {b : Buffer} (hv : b.Valid) (data : List UInt8)
    (hroom : b.writerIndex + data.length ≤ b.buffer.length) :
    ∃ v, copyInto b.buffer data b.writerIndex = .ok v ∧ v.length = b.buffer.length ∧
      Valid ⟨v, b.readerIndex, b.writerIndex + data.length⟩ ∧
      readable ⟨v, b.readerIndex, b.writerIndex + data.length⟩ = b.readable ++ data := by
  have hrl := hv.reader_le
  have hvl : (overwrite b.buffer b.writerIndex data).length = b.buffer.length := overwrite_length _ _ _ hroom
  refine ⟨overwrite b.buffer b.writerIndex data, ?_, hvl, ⟨?_, ?_, hvl ▸ hv.prepend_le, hvl ▸ hv.size_le⟩, ?_⟩
  · rw [copyInto, if_pos hroom]
  · simp only
    omega
  · simp only [hvl]
    omega
  · simp only [readable]
    exact slice_overwrite_back _ _ _ _ hrl hroom

theorem writeAtEnd_hasWritten {b : Buffer} (hv : b.Valid) (data : List UInt8)
    (hroom : b.writerIndex + data.length ≤ b.buffer.length) :
    ∃ b', (b.writeAtEnd data >>= fun b => b.hasWritten data.length) = .ok b' ∧ b'.Valid ∧
      b'.readable = b.readable ++ data ∧ b'.readerIndex = b.readerIndex ∧
      b'.buffer.length = b.buffer.length := by
  have hm := maxSize_lt
  have hs := hv.size_le
  obtain ⟨v, hcopy, hvl, hv', hread⟩ := copyInto_writer hv data hroom
  have hv₁ : Valid ⟨v, b.readerIndex, b.writerIndex⟩ :=
    ⟨hv.reader_le, by simp only [hvl]; omega, hvl ▸ hv.prepend_le, hvl ▸ hs⟩
  have ha : addSize b.writerIndex data.length = b.writerIndex + data.length := addSize_eq (by omega)
  have hle : data.length ≤ writableBytes ⟨v, b.readerIndex, b.writerIndex⟩ := by
    rw [hv₁.writableBytes_eq]
    simp only [hvl]
    omega
  refine ⟨_, ?_, hv', hread, rfl, hvl⟩
  simp only [writeAtEnd, beginWrite, hcopy, ok_bind, hasWritten]
  rw [assert_pos hle, ok_bind, ha]

theorem append_spec {b : Buffer} (hv : b.Valid) (data : List UInt8) (hlen : data.length ≤ maxSize) :
    (∃ b', b.append data = .ok b' ∧ b'.Valid ∧ b'.readable = b.readable ++ data ∧
        min kCheapPrepend b.readerIndex ≤ b'.readerIndex) ∨
      (maxSize < b.writerIndex + data.length ∧ b.append data = .error .lengthError) := by
  rcases ensureWritableBytes_spec hv data.length (hv.sumsFit hlen) with ⟨b1, he, hp⟩ | ⟨hbig, he⟩
  · left
    obtain ⟨b', hb', hv', hr', hri, _⟩ := writeAtEnd_hasWritten hp.valid data hp.room
    refine ⟨b', ?_, hv', by rw [hr', hp.readable_eq], hri ▸ hp.reader_min⟩
    simp only [append, he, ok_bind, hb']
  · right
    refine ⟨hbig, ?_⟩
    simp only [append, he, error_bind]

theorem unwrite_spec {b : Buffer} (hv : b.Valid) {len : ℕ} (h : len ≤ b.readable.length) :
    ∃ b', b.unwrite len = .ok b' ∧ b'.Valid ∧
      b'.readable = b.readable.take (b.readable.length - len) ∧ b'.readerIndex = b.readerIndex := by
  have hlen := hv.readable_length
  have hw := hv.writer_le
  have hs := hv.size_le
  have hm := maxSize_lt
  have hrl := hv.reader_le
  have ha : subSize b.writerIndex len = b.writerIndex - len := subSize_eq (by omega) (by omega)
  refine ⟨{ b with writerIndex := b.writerIndex - len }, ?_,
    ⟨by simp only; omega, by simp only; omega, hv.prepend_le, hs⟩, ?_, rfl⟩
  · simp only [unwrite, ha, assert_pos (show len ≤ b.readableBytes from hv.readableBytes_length ▸ h), ok_bind]
  · simp only [readable]
    exact slice_take _ _ _ _ hw

theorem prepend_spec {b : Buffer} (hv : b.Valid) (data : List UInt8) (h : data.length ≤ b.readerIndex) :
    ∃ b', b.prepend data = .ok b' ∧ b'.Valid ∧ b'.readable = data ++ b.readable := by
  have hw := hv.writer_le
  have hs := hv.size_le
  have hm := maxSize_lt
  have hrl := hv.reader_le
  have ha : subSize b.readerIndex data.length = b.readerIndex - data.length := subSize_eq h (by omega)
  let v := overwrite b.buffer (b.readerIndex - data.length) data
  have hvl : v.length = b.buffer.length := overwrite_length _ _ _ (by omega)
  have hcopy : copyInto b.buffer data (b.readerIndex - data.length) = .ok v := by
    rw [copyInto, if_pos (by omega)]
  refine ⟨⟨v, b.readerIndex - data.length, b.writerIndex⟩, ?_,
    ⟨by simp only; omega, by simp only [hvl]; omega, hvl ▸ hv.prepend_le, hvl ▸ hs⟩, ?_⟩
  · simp only [prepend, ha, hcopy, ok_bind]
    rw [assert_pos (show data.length ≤ b.prependableBytes from h), ok_bind]
  · simp only [readable, v]
    exact slice_overwrite_front _ _ _ _ h hrl hw

end Networker.Buffer
