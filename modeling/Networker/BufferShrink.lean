import Networker.BufferSpecs
import Networker.StringPieceModel

/-!
`Buffer::shrink`, which carries the content over in a `StringPiece`.
-/

namespace Networker.Buffer

open CheckedRuns ByteVectors

section Model

def toStringPiece (b : Buffer) : StringPiece := .ofMemory (b.buffer.drop b.peek) (toInt b.readableBytes)

variable [Build]

/-- `append(const StringPiece&)`. -/
def appendPiece (b : Buffer) (str : StringPiece) : Exec Buffer := do
  let len := toSize str.size
  let b ← b.ensureWritableBytes len
  let data ← bytesAt str.data len
  let b ← b.writeAtEnd data
  b.hasWritten len

/-- The result is `other`, which is swapped with this buffer. -/
def shrink (b : Buffer) (reserve : ℕ) : Exec Buffer := do
  let other ← create kInitialSize
  let other ← other.ensureWritableBytes (addSize b.readableBytes reserve)
  other.appendPiece b.toStringPiece

end Model

section Specs

variable [Build] {b b' : Buffer}

theorem ensureWritableBytes_enough (hv : b.Valid) {len : ℕ} (h : b.writerIndex + len ≤ b.buffer.length) :
    b.ensureWritableBytes len = .ok b := by
  have hlen : len ≤ b.writableBytes := by rw [hv.writableBytes_eq]; omega
  simp only [ensureWritableBytes, if_neg (Nat.not_lt.mpr hlen), ok_bind, assert_pos hlen]

theorem ensureWritableBytes_reader {len : ℕ} (h : b.ensureWritableBytes len = .ok b') :
    b'.readerIndex = b.readerIndex ∨ b'.readerIndex = kCheapPrepend := by
  obtain rfl | ⟨-, h⟩ := ensureWritableBytes_inv h
  · exact Or.inl rfl
  · obtain ⟨-, v, -, rfl⟩ | ⟨-, v, -, rfl⟩ := makeSpace_inv h
    · exact Or.inl rfl
    · exact Or.inr rfl

omit [Build] in
theorem toSize_toInt {n : ℕ} (h : n ≤ maxSize) : toSize (toInt n) = n ↔ n < 2 ^ 31 := by
  have hm := maxSize_lt
  constructor
  · intro heq
    have hlt : toInt n < 2 ^ 31 := BitVec.toInt_lt
    have hle : -2 ^ 31 ≤ toInt n := BitVec.le_toInt _
    rw [toSize] at heq
    omega
  · intro hlt
    rw [toInt_eq hlt, toSize_natCast (by omega)]

/-- As many bytes are carried over as the `int` length, read back as a `size_t`, says. -/
theorem appendPiece_inv {str : StringPiece} (hv : b.Valid) (h : b.appendPiece str = .ok b') :
    b'.Valid ∧ toSize str.size ≤ str.data.length ∧ b'.readable = b.readable ++ str.data.take (toSize str.size) := by
  obtain ⟨b₁, h₁, h⟩ := bind_eq_ok.mp h
  obtain ⟨data, hdata, h⟩ := bind_eq_ok.mp h
  simp only [bytesAt] at hdata
  split_ifs at hdata with hin
  cases hdata
  have hlen : (str.data.take (toSize str.size)).length = toSize str.size := by
    rw [List.length_take, Nat.min_eq_left hin.1]
  rcases ensureWritableBytes_spec hv _ (hv.sumsFit hin.2) with ⟨b₂, h₂, hp⟩ | ⟨-, herr⟩
  · cases h₁.symm.trans h₂
    obtain ⟨b₃, h₃, hv₃, hread, -⟩ := writeAtEnd_hasWritten hp.valid (str.data.take (toSize str.size)) (hlen.symm ▸ hp.room)
    rw [hlen] at h₃
    cases h.symm.trans h₃
    exact ⟨hv₃, hin.1, hread.trans (by rw [hp.readable_eq])⟩
  · cases h₁.symm.trans herr

/-- An empty buffer whose indices stand at the start of its room stays so, even where the length wraps. -/
theorem ensureWritableBytes_empty (hv : b.Valid) (hr : b.readerIndex = kCheapPrepend) (hw : b.writerIndex = kCheapPrepend)
    {len : ℕ} (hlen : len < 2 ^ 64) (h : b.ensureWritableBytes len = .ok b') : b'.Valid ∧ b'.readable = [] := by
  have hempty : b.readable = [] := by rw [readable, hr, hw, slice_self]
  by_cases hfit : b.SumsFit len
  · rcases ensureWritableBytes_spec hv len hfit with ⟨b₁, h₁, hp⟩ | ⟨-, herr⟩
    · cases h.symm.trans h₁
      exact ⟨hp.valid, hp.readable_eq.trans hempty⟩
    · cases h.symm.trans herr
  · have hm := maxSize_lt
    have hs := hv.size_le
    have hl := hv.writer_le
    have hk : kCheapPrepend = 8 := rfl
    obtain rfl | ⟨-, h⟩ := ensureWritableBytes_inv h
    · exact ⟨hv, hempty⟩
    · have hwrap : 2 ^ 64 ≤ len + kCheapPrepend := by
        simp only [SumsFit, hw] at hfit
        omega
      obtain ⟨hgrow, -⟩ | ⟨-, v, hcopy, rfl⟩ := makeSpace_inv h
      · -- the sum wrapped to less than `kCheapPrepend`
        rw [hv.writableBytes_eq, prependableBytes, addSize_eq (by omega), addSize] at hgrow
        omega
      · have hread : addSize kCheapPrepend b.readableBytes = kCheapPrepend := by
          rw [hv.readableBytes_eq, hr, hw, Nat.sub_self, addSize_eq (by omega), Nat.add_zero]
        simp only [copyWithin, hr, hw, Nat.sub_self, copyForward] at hcopy
        split_ifs at hcopy
        cases hcopy
        rw [hread]
        exact ⟨⟨Nat.le_refl _, hv.prepend_le, hv.prepend_le, hs⟩, slice_self _ _⟩

theorem shrink_inv {reserve : ℕ} (h : b.shrink reserve = .ok b') :
    ∃ other : Buffer, other.Valid ∧ other.readable = [] ∧ other.appendPiece b.toStringPiece = .ok b' := by
  have hfit : kCheapPrepend + kInitialSize ≤ maxSize := by simp [maxSize, kCheapPrepend, kInitialSize]
  obtain ⟨fresh, hfresh, hrest⟩ := bind_eq_ok.mp h
  obtain ⟨other, hother, happend⟩ := bind_eq_ok.mp hrest
  cases (create_eq kInitialSize hfit).symm.trans hfresh
  have hlen : addSize b.readableBytes reserve < 2 ^ 64 := by
    rw [addSize]
    exact Nat.mod_lt _ (by decide)
  obtain ⟨hv, hempty⟩ := ensureWritableBytes_empty (initial_valid hfit) rfl rfl hlen hother
  exact ⟨other, hv, hempty, happend⟩

omit [Build] in
theorem Valid.take_piece (hv : b.Valid) {len : ℕ} (h : len ≤ b.readable.length) :
    b.toStringPiece.data.take len = b.readable.take len := by
  rw [hv.readable_length] at h
  rw [readable, slice, List.drop_take, List.take_take, Nat.min_eq_left h]
  rfl

/-- The content that a buffer must keep, the room it must have and where it must stand after `shrink`. -/
structure Shrunk (b : Buffer) (reserve : ℕ) (b' : Buffer) : Prop where
  readable_eq : b'.readable = b.readable
  room : b'.writerIndex + reserve ≤ b'.buffer.length
  reader_eq : b'.readerIndex = kCheapPrepend

/-- `len` is what is left of the length of the content. -/
theorem shrink_carries {reserve len : ℕ} (hv : b.Valid)
    (hsize : b.readable.length + reserve + kCheapPrepend ≤ maxSize)
    (hlen : toSize (toInt b.readable.length) = len) (hle : len ≤ b.readable.length) :
    ∃ b', b.shrink reserve = .ok b' ∧ b'.readable = b.readable.take len ∧
      b'.writerIndex + reserve ≤ b'.buffer.length ∧ b'.readerIndex = kCheapPrepend := by
  have hm := maxSize_lt
  have hfit : kCheapPrepend + kInitialSize ≤ maxSize := by simp [maxSize, kCheapPrepend, kInitialSize]
  have hsum : addSize b.readableBytes reserve = b.readable.length + reserve := by
    rw [hv.readableBytes_length, addSize_eq (by omega)]
  have hv₀ := initial_valid hfit
  obtain ⟨other, hother, hp⟩ | ⟨hbig, -⟩ :=
    ensureWritableBytes_spec hv₀ (b.readable.length + reserve) (hv₀.sumsFit (by omega))
  · have hroom := hp.room
    have hempty : other.readable = [] := hp.readable_eq.trans (initial_readable kInitialSize)
    have hreader : other.readerIndex = kCheapPrepend := by
      rcases ensureWritableBytes_reader hother with heq | heq
      · exact heq
      · exact heq
    have hwriter : other.writerIndex = kCheapPrepend := by
      have hl := hp.valid.readable_length
      have := hp.valid.reader_le
      rw [hempty, List.length_nil] at hl
      omega
    have hcopied : toSize b.toStringPiece.size = len := by
      rw [toStringPiece, StringPiece.ofMemory, StringPiece.size, hv.readableBytes_length, hlen]
    have hin : len ≤ b.toStringPiece.data.length := by
      have := hv.writer_le
      rw [hv.readable_length] at hle
      simp only [toStringPiece, StringPiece.ofMemory, StringPiece.data, List.length_drop, peek]
      omega
    have hbytes : bytesAt b.toStringPiece.data len = .ok (b.readable.take len) := by
      rw [bytesAt, if_pos ⟨hin, by omega⟩, hv.take_piece hle]
    have htake : (b.readable.take len).length = len := by rw [List.length_take, Nat.min_eq_left hle]
    obtain ⟨b', hb', hv', hread, hreader', hlength⟩ := writeAtEnd_hasWritten hp.valid (b.readable.take len) (by omega)
    rw [hempty, List.nil_append] at hread
    rw [htake] at hb'
    refine ⟨b', ?_, hread, ?_, hreader'.trans hreader⟩
    · have henough := ensureWritableBytes_enough hp.valid (show other.writerIndex + len ≤ _ by omega)
      simp only [shrink, create_eq kInitialSize hfit, ok_bind, hsum, hother, appendPiece, hcopied, henough, hbytes, hb']
    · have hl := hv'.readable_length
      have := hv'.reader_le
      rw [hread, htake] at hl
      omega
  · simp only [initial] at hbig
    omega

/-- The length of the content goes through an `int`: from `2 ^ 31` bytes on, `shrink` loses content or fails. -/
theorem shrink_preserves_iff {reserve : ℕ} (hv : b.Valid)
    (hsize : b.readable.length + reserve + kCheapPrepend ≤ maxSize) :
    (∃ b', b.shrink reserve = .ok b' ∧ Shrunk b reserve b') ↔ b.readable.length < 2 ^ 31 := by
  constructor
  · rintro ⟨b', h, hs⟩
    obtain ⟨other, hvo, hempty, happend⟩ := shrink_inv h
    obtain ⟨-, hin, hread⟩ := appendPiece_inv hvo happend
    rw [hempty, List.nil_append] at hread
    have hlen : b.readable.length = toSize b.toStringPiece.size := by
      rw [← hs.readable_eq, hread, List.length_take, Nat.min_eq_left hin]
    rw [toStringPiece, StringPiece.ofMemory, StringPiece.size, hv.readableBytes_length] at hlen
    exact (toSize_toInt (by omega)).mp hlen.symm
  · intro hint
    have hlen : toSize (toInt b.readable.length) = b.readable.length := (toSize_toInt (by omega)).mpr hint
    obtain ⟨b', h, hread, hroom, hreader⟩ := shrink_carries hv hsize hlen (Nat.le_refl _)
    exact ⟨b', h, by rw [hread, List.take_length], hroom, hreader⟩

theorem create_append (data : List UInt8) (h : kCheapPrepend + data.length ≤ maxSize) :
    ∃ b, (create data.length >>= fun b => b.append data) = .ok b ∧ b.Valid ∧ b.readable = data := by
  obtain ⟨b, hb, hv, hread, -⟩ | ⟨hbig, -⟩ := append_spec (initial_valid h) data (by omega)
  · refine ⟨b, ?_, hv, by rw [hread, initial_readable, List.nil_append]⟩
    rw [create_eq _ h, ok_bind, hb]
  · simp only [initial] at hbig
    omega

theorem shrink_loses {data : List UInt8} {n : ℕ} (hn : data.length = n) (h : kCheapPrepend + n ≤ maxSize)
    (hzero : toSize (toInt n) = 0) (hne : 0 < n) :
    ∃ b, (create n >>= fun b => b.append data) = .ok b ∧ b.readable.length + 0 + kCheapPrepend ≤ maxSize ∧
      (∃ b', b.shrink 0 = .ok b' ∧ b'.readable = []) ∧ ¬∃ b', b.shrink 0 = .ok b' ∧ Shrunk b 0 b' := by
  subst hn
  obtain ⟨b, hb, hv, hread⟩ := create_append data h
  have hsize : b.readable.length + 0 + kCheapPrepend ≤ maxSize := by
    rw [hread]
    omega
  obtain ⟨b', hb', hread', -⟩ := shrink_carries hv hsize (by rw [hread, hzero]) (Nat.zero_le _)
  rw [List.take_zero] at hread'
  refine ⟨b, hb, hsize, ⟨b', hb', hread'⟩, ?_⟩
  rintro ⟨b'', hb'', hs⟩
  cases hb'.symm.trans hb''
  rw [hs.readable_eq, hread] at hread'
  rw [hread', List.length_nil] at hne
  exact Nat.lt_irrefl 0 hne

end Specs

theorem shrink_preserves_iff_short :
    letI := Build.debug
    let b : Buffer := ⟨[0, 0, 0, 0, 0, 0, 0, 0, 0, 0, 1, 2], 10, 12⟩
    (∃ b', b.shrink 5 = .ok b' ∧ Shrunk b 5 b') ↔ b.readable.length < 2 ^ 31 :=
  @shrink_preserves_iff Build.debug _ 5 (by decide +kernel) (by decide +kernel)

-- of `2 ^ 32` bytes nothing is left
theorem shrink_loses_content :
    letI := Build.debug
    ∃ b, (create (2 ^ 32) >>= fun b => b.append (List.replicate (2 ^ 32) 0)) = .ok b ∧
      b.readable.length + 0 + kCheapPrepend ≤ maxSize ∧
      (∃ b', b.shrink 0 = .ok b' ∧ b'.readable = []) ∧ ¬∃ b', b.shrink 0 = .ok b' ∧ Shrunk b 0 b' := by
  let _ := Build.debug
  have hlen : (List.replicate (2 ^ 32) (0 : UInt8)).length = 2 ^ 32 := List.length_replicate
  exact shrink_loses hlen (by simp [maxSize, kCheapPrepend]) (by decide) (by decide)

end Networker.Buffer
