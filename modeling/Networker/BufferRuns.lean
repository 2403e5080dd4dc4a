import Networker.BufferRefinement
import Networker.BufferShrink

/-!
What a `Buffer` can be after any calls, what `readFd` makes of it, and which lengths
`ensureWritableBytes` can be given.
-/

namespace Networker.Buffer

open CheckedRuns ByteVectors

inductive Call
  | op (op : Op)
  | appendPiece (str : StringPiece)
  | readFd (result : ReadResult)
  | shrink (reserve : ℕ)

namespace Call

/-- The asserted preconditions hold, a length does not make the sums of `makeSpace` wrap, and data is an object in memory. -/
def Permitted (b : Buffer) : Call → Prop
  | .op (.ensureWritableBytes n) => b.SumsFit n
  | .op o => o.Asserted b ∧ o.size ≤ maxSize
  | .appendPiece _ | .readFd _ | .shrink _ => True

variable [Build]

def apply (b : Buffer) : Call → Exec Buffer
  | .op o => o.apply b
  | .appendPiece str => b.appendPiece str
  | .readFd result => b.readFd result >>= fun r => .ok r.1
  | .shrink reserve => b.shrink reserve

end Call

section Runs

variable [Build]

inductive Reachable : Buffer → Prop
  | create {initialSize : ℕ} {b : Buffer} (h : kCheapPrepend + initialSize < 2 ^ 64) (hb : create initialSize = .ok b) :
      Reachable b
  | call {b b' : Buffer} (c : Call) (hr : Reachable b) (hc : c.Permitted b) (hb : c.apply b = .ok b') : Reachable b'

section Reading

variable {b : Buffer}

/-- What fits into the writable area is stored there; what does not is appended from the stack buffer. -/
theorem readFd_spec (hv : b.Valid) {bytes : List UInt8}
    (hn : bytes.length ≤ b.writableBytes + if b.writableBytes < extrabufSize then extrabufSize else 0) :
    (∃ b', b.readFd (.read bytes) = .ok (b', bytes.length, none) ∧ b'.Valid ∧ b'.readable = b.readable ++ bytes ∧
        (bytes.length ≤ b.writableBytes → b'.buffer.length = b.buffer.length ∧ b'.readerIndex = b.readerIndex)) ∨
      (maxSize < b.buffer.length + (bytes.length - b.writableBytes) ∧ b.readFd (.read bytes) = .error .lengthError) := by
  have hm := maxSize_lt
  have hs := hv.size_le
  have hw := hv.writer_le
  have hwritable := hv.writableBytes_eq
  have htake : bytes.take (b.writableBytes + if b.writableBytes < extrabufSize then extrabufSize else 0) = bytes :=
    List.take_of_length_le hn
  by_cases hle : bytes.length ≤ b.writableBytes
  · left
    have ha : addSize b.writerIndex bytes.length = b.writerIndex + bytes.length := addSize_eq (by omega)
    obtain ⟨v, hcopy, hvl, hv', hread⟩ := copyInto_writer hv bytes (by omega)
    refine ⟨_, ?_, hv', hread, fun _ => ⟨hvl, rfl⟩⟩
    simp only [readFd, htake]
    rw [List.take_of_length_le hle, hcopy, ok_bind, if_pos hle, ha]
  · have hfirst : (bytes.take b.writableBytes).length = b.buffer.length - b.writerIndex := by
      rw [List.length_take, Nat.min_eq_left (Nat.le_of_not_le hle), hwritable]
    obtain ⟨v, hcopy, hvl, hv₁, hread₁⟩ := copyInto_writer hv (bytes.take b.writableBytes) (by omega)
    rw [hfirst, Nat.add_sub_cancel' hw, ← hvl] at hv₁ hread₁
    have hrest : (bytes.drop b.writableBytes).length = bytes.length - b.writableBytes := List.length_drop
    have hextra : (if b.writableBytes < extrabufSize then extrabufSize else 0) ≤ maxSize := by
      have hle : extrabufSize ≤ maxSize := by simp [extrabufSize, maxSize]
      split_ifs
      · exact hle
      · exact Nat.zero_le _
    have hstep : b.readFd (.read bytes) =
        (append ⟨v, b.readerIndex, v.length⟩ (bytes.drop b.writableBytes) >>= fun b' =>
          .ok (b', (bytes.length : ℤ), none)) := by
      simp only [readFd, htake]
      rw [hcopy, ok_bind, if_neg hle]
    rcases append_spec hv₁ (bytes.drop b.writableBytes) (by omega) with ⟨b', hb', hv', hread', -⟩ | ⟨hbig, herr⟩
    · left
      refine ⟨b', by rw [hstep, hb', ok_bind], hv', ?_, fun h => absurd h hle⟩
      rw [hread', hread₁, List.append_assoc, List.take_append_drop]
    · right
      refine ⟨?_, by rw [hstep, herr, error_bind]⟩
      rwa [hrest, hvl] at hbig

theorem readFd_take (b : Buffer) (bytes : List UInt8) :
    b.readFd (.read bytes) =
      b.readFd (.read (bytes.take (b.writableBytes + if b.writableBytes < extrabufSize then extrabufSize else 0))) := by
  simp only [readFd, List.take_take, Nat.min_self]

end Reading

section Invariant

variable {b b' : Buffer}

theorem create_valid {initialSize : ℕ} (h : kCheapPrepend + initialSize < 2 ^ 64) (hb : create initialSize = .ok b) :
    b.Valid := by
  by_cases hle : kCheapPrepend + initialSize ≤ maxSize
  · cases (create_eq initialSize hle).symm.trans hb
    exact initial_valid hle
  · obtain ⟨v, hv, -⟩ := bind_eq_ok.mp hb
    rw [addSize_eq h, resize, if_neg hle] at hv
    cases hv

omit [Build] in
theorem Valid.represents (hv : b.Valid) : Represents b ⟨b.readable, true⟩ := ⟨hv, rfl, by simp⟩

theorem Valid.apply (hv : b.Valid) {o : Op} (ha : o.Asserted b) (hs : o.size ≤ maxSize) (h : o.apply b = .ok b') :
    b'.Valid := by
  rcases apply_represents hv.represents o ha hs with ⟨b₁, h₁, hr⟩ | ⟨-, herr⟩
  · cases h.symm.trans h₁
    exact hr.valid
  · cases h.symm.trans herr

theorem Valid.readFd (hv : b.Valid) {result : ReadResult} {n : ℤ} {errno : Option ℕ}
    (h : b.readFd result = .ok (b', n, errno)) : b'.Valid := by
  cases result with
  | failed e =>
    cases h
    exact hv
  | read bytes =>
    rw [readFd_take] at h
    rcases readFd_spec hv (List.length_take_le _ bytes) with ⟨b₁, h₁, hv₁, -⟩ | ⟨-, herr⟩
    · cases h.symm.trans h₁
      exact hv₁
    · cases h.symm.trans herr

theorem Valid.call (hv : b.Valid) {c : Call} (hc : c.Permitted b) (h : c.apply b = .ok b') : b'.Valid := by
  cases c with
  | op o =>
    cases o with
    | ensureWritableBytes n =>
      rcases ensureWritableBytes_spec hv n hc with ⟨b₁, h₁, hp⟩ | ⟨-, herr⟩
      · cases h.symm.trans h₁
        exact hp.valid
      · cases h.symm.trans herr
    | _ => exact hv.apply hc.1 hc.2 h
  | appendPiece str => exact (appendPiece_inv hv h).1
  | readFd result =>
    obtain ⟨⟨b₁, n, errno⟩, hr, heq⟩ := bind_eq_ok.mp h
    cases heq
    exact hv.readFd hr
  | shrink reserve =>
    obtain ⟨other, hvo, -, happend⟩ := shrink_inv h
    exact (appendPiece_inv hvo happend).1

theorem Reachable.valid (h : Reachable b) : b.Valid := by
  induction h with
  | create hn hb => exact create_valid hn hb
  | call c _ hc hb ih => exact ih.call hc hb

end Invariant

theorem initial_reachable {initialSize : ℕ} (h : kCheapPrepend + initialSize ≤ maxSize) :
    Reachable (initial initialSize) :=
  .create (lt_of_le_of_lt h (lt_trans maxSize_lt (by decide))) (create_eq initialSize h)

/-- Whatever `readv` delivers is appended, in place where it fits, and a failed one changes nothing. Growth can throw
only beyond what a vector can hold. -/
theorem readFd_appends {b : Buffer} (h : Reachable b) :
    (∀ bytes : List UInt8,
        bytes.length ≤ b.writableBytes + (if b.writableBytes < extrabufSize then extrabufSize else 0) →
          (∃ b', b.readFd (.read bytes) = .ok (b', bytes.length, none) ∧ b'.Valid ∧
            b'.readable = b.readable ++ bytes ∧
            (bytes.length ≤ b.writableBytes → b'.buffer.length = b.buffer.length ∧ b'.readerIndex = b.readerIndex)) ∨
          (maxSize < b.buffer.length + (bytes.length - b.writableBytes) ∧
            b.readFd (.read bytes) = .error .lengthError)) ∧
      ∀ errno, b.readFd (.failed errno) = .ok (b, -1, some errno) :=
  ⟨fun _ hn => readFd_spec h.valid hn, fun _ => rfl⟩

section Growth

variable {b b' : Buffer} {len : ℕ}

theorem ensureWritableBytes_length (hv : b.Valid) (h : b.ensureWritableBytes len = .ok b') :
    b'.buffer.length ≤ maxSize := by
  obtain rfl | ⟨-, h⟩ := ensureWritableBytes_inv h
  · exact hv.size_le
  · obtain ⟨-, v, hr, rfl⟩ | ⟨-, v, hc, rfl⟩ := makeSpace_inv h
    · unfold resize at hr
      split_ifs at hr with hle
      cases hr
      simp only [List.length_append, List.length_take, List.length_replicate]
      omega
    · unfold copyWithin at hc
      split_ifs at hc
      cases hc
      rw [copyForward_length]
      exact hv.size_le

theorem assert_bind_lengthError {p : Prop} [Decidable p] {α : Type} {f : Unit → Exec α}
    (h : (assert p >>= f) = .error .lengthError) : f () = .error .lengthError := by
  rcases bind_eq_error.mp h with he | ⟨⟨⟩, -, he⟩
  · cases assert_eq_error he
  · exact he

/-- Only `resize` throws. -/
theorem ensureWritableBytes_throws (h : b.ensureWritableBytes len = .error .lengthError) :
    addSize b.writableBytes b.prependableBytes < addSize len kCheapPrepend ∧ maxSize < addSize b.writerIndex len := by
  have hspace : b.makeSpace len = .error .lengthError := by
    simp only [ensureWritableBytes] at h
    split_ifs at h
    · rcases bind_eq_error.mp h with he | ⟨b₁, -, he⟩
      · exact he
      · cases assert_bind_lengthError he
    · cases assert_bind_lengthError h
  simp only [makeSpace] at hspace
  split_ifs at hspace with hgrow
  · rcases bind_eq_error.mp hspace with he | ⟨v, -, he⟩
    · refine ⟨hgrow, ?_⟩
      by_contra hle
      rw [resize, if_pos (Nat.not_lt.mp hle)] at he
      cases he
    · cases he
  · rcases bind_eq_error.mp (assert_bind_lengthError hspace) with he | ⟨v, -, he⟩
    · unfold copyWithin at he
      split_ifs at he
      cases he
    · cases assert_bind_lengthError he

/-- There is room for `len` bytes afterwards and the content is the same, or the exception of `resize` says that there
cannot be. -/
def Grows (b : Buffer) (len : ℕ) : Prop :=
  (∃ b', b.ensureWritableBytes len = .ok b' ∧ b'.writerIndex + len ≤ b'.buffer.length ∧ b'.readable = b.readable) ∨
    (b.ensureWritableBytes len = .error .lengthError ∧ maxSize < b.writerIndex + len)

/-- One wrapped sum is enough for a wrong branch or a smaller size. -/
theorem ensureWritableBytes_grows_iff (h : Reachable b) (hlen : len < 2 ^ 64) : b.Grows len ↔ b.SumsFit len := by
  have hv := h.valid
  have hm := maxSize_lt
  have hs := hv.size_le
  have hw := hv.writer_le
  have hp := hv.prepend_le
  have hrl := hv.reader_le
  have hk : kCheapPrepend = 8 := rfl
  constructor
  · intro hg
    by_contra hwrap
    have hbig : maxSize < len := by
      unfold SumsFit at hwrap
      omega
    rcases hg with ⟨b', hb', hroom, -⟩ | ⟨herr, -⟩
    · have := ensureWritableBytes_length hv hb'
      omega
    · obtain ⟨hgrow, hthrow⟩ := ensureWritableBytes_throws herr
      rw [hv.writableBytes_eq, prependableBytes, addSize_eq (by omega), addSize] at hgrow
      rw [addSize] at hthrow
      unfold SumsFit at hwrap
      omega
  · intro hfit
    rcases ensureWritableBytes_spec hv len hfit with ⟨b', hb', hprep⟩ | ⟨hbig, herr⟩
    · exact Or.inl ⟨b', hb', hprep.room, hprep.readable_eq⟩
    · exact Or.inr ⟨herr, hbig⟩

end Growth

end Runs

-- eight of the ten bytes fit, the others grow the storage
theorem readFd_appends_spill :
    letI := Build.debug
    let bytes : List UInt8 := [1, 2, 3, 4, 5, 6, 7, 8, 9, 10]
    ∃ b', (initial 8).readFd (.read bytes) = .ok (b', 10, none) ∧ b'.Valid ∧ b'.readable = bytes := by
  intro bytes
  let _ := Build.debug
  have h : Reachable (initial 8) := initial_reachable (by decide +kernel)
  rcases (readFd_appends h).1 bytes (by decide +kernel) with ⟨b', hb', hv, hread, -⟩ | ⟨hbig, -⟩
  · exact ⟨b', hb', hv, hread⟩
  · exact absurd hbig (by decide +kernel)

theorem ensureWritableBytes_grows_iff_initial :
    letI := Build.debug
    Grows (initial 8) 100 ↔ SumsFit (initial 8) 100 := by
  let _ := Build.debug
  exact ensureWritableBytes_grows_iff (initial_reachable (by decide +kernel)) (by decide)

/-- The sum of the indices wraps to 18, and `resize` cuts the storage below the write index 28; the closing assertion
compares with a difference that wrapped too. -/
theorem ensureWritableBytes_wraps :
    letI := Build.debug
    ∃ b b', Reachable b ∧ b.ensureWritableBytes (2 ^ 64 - 10) = .ok b' ∧ b'.writerIndex = 28 ∧ b'.buffer.length = 18 ∧
      ¬b.Grows (2 ^ 64 - 10) := by
  let _ := Build.debug
  let data : List UInt8 := List.replicate 20 1
  let b : Buffer := ⟨List.replicate 8 0 ++ data ++ List.replicate 4 0, 8, 28⟩
  have hb : Call.apply (initial 24) (.op (.append data)) = .ok b := by decide +kernel
  have hp : Call.Permitted (initial 24) (.op (.append data)) := ⟨trivial, by decide +kernel⟩
  have hr : Reachable b := .call _ (initial_reachable (by decide +kernel)) hp hb
  let b' : Buffer := ⟨List.replicate 8 0 ++ List.replicate 10 1, 8, 28⟩
  have hb' : b.ensureWritableBytes (2 ^ 64 - 10) = .ok b' := by decide +kernel
  refine ⟨b, b', hr, hb', rfl, rfl, ?_⟩
  rintro (⟨b'', hb'', hroom, -⟩ | ⟨herr, -⟩)
  · cases hb'.symm.trans hb''
    exact absurd hroom (by decide)
  · cases hb'.symm.trans herr

end Networker.Buffer
