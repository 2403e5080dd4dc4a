import Networker.ByteVectors
import Networker.CheckedRuns
import Mathlib.Order.Lattice.Nat

/-!
`ReadSmallFile` of `base/FileUtil.cpp` and `readFile`. The kernel decides how many bytes each `read(2)` returns
and whether it fails.
-/

namespace Networker

open ByteVectors CheckedRuns

inductive ReadReply
  /-- At most so many bytes and one more; none at the end of the file. -/
  | bytes (atMost : ℕ)
  | fails (errno : ℤ)
deriving DecidableEq

structure FileStat where
  st_size : ℤ
  st_mtime : ℤ
  st_ctime : ℤ
deriving DecidableEq

structure NamedFile where
  openErrno : Option ℤ
  fstat : Option FileStat
  data : Line
  reply : ℕ → ReadReply

/-- Which of the optional pointers are not null. -/
structure Pointers where
  fileSize : Bool := false
  modifyTime : Bool := false
  createTime : Bool := false
deriving DecidableEq

structure ReadSmallFile where
  isOpen : Bool
  err_ : ℤ
deriving DecidableEq

/-- The return value and what has been written through the pointers. -/
structure FileRead where
  err : ℤ
  content : Line
  fileSize : Option ℤ := none
  modifyTime : Option ℤ := none
  createTime : Option ℤ := none
deriving DecidableEq

def kBufferSize : ℕ := 64 * 1024

def NamedFile.read (f : NamedFile) (call offset toRead : ℕ) : Except ℤ Line :=
  match f.reply call with
  | .bytes atMost => .ok (slice f.data offset (offset + min (atMost + 1) toRead))
  | .fails errno => .error errno

namespace ReadSmallFile

variable (f : NamedFile)

def ofName : ReadSmallFile :=
  match f.openErrno with
  | some errno => { isOpen := false, err_ := errno }
  | none => { isOpen := true, err_ := 0 }

/-- The part of `readToString` in front of the loop. After a failed `fstat` it looks at a buffer that
nothing has been written to. -/
def stat (want : Pointers) (errno : ℤ) (err : ℤ) : Exec FileRead :=
  if want.fileSize then
    match f.fstat with
    | some statbuf =>
      .ok
        { err := err, content := [], fileSize := some statbuf.st_size
          modifyTime := if want.modifyTime then some statbuf.st_mtime else none
          createTime := if want.createTime then some statbuf.st_ctime else none }
    | none => .error .undefined
  else .ok { err := errno, content := [] }

def toRead (maxSize size : ℕ) : ℕ := min (maxSize - size) kBufferSize

/-- Every round but the last adds a byte, so that `maxSize` bounds the rounds. -/
def readLoop (maxSize : ℕ) : ℕ → ℕ → Line → ℤ → ℤ × Line
  | 0, _, content, err => (err, content)
  | rounds + 1, call, content, err =>
    if content.length < maxSize then
      match f.read call content.length (toRead maxSize content.length) with
      | .ok [] => (err, content)
      | .ok (byte :: chunk) => readLoop maxSize rounds (call + 1) (content ++ byte :: chunk) err
      | .error errno => (errno, content)
    else (err, content)

/-- `errno` is the value before the call. -/
def readToString (file : ReadSmallFile) (maxSize : ℕ) (content : Line) (want : Pointers) (errno : ℤ) : Exec FileRead :=
  if file.isOpen then do
    let out ← stat f want errno file.err_
    let loop := readLoop f maxSize maxSize 0 out.content out.err
    return { out with err := loop.1, content := loop.2 }
  else .ok { err := file.err_, content := content }

end ReadSmallFile

def readFile (f : NamedFile) (maxSize : ℕ) (content : Line) (want : Pointers) (errno : ℤ) : Exec FileRead :=
  (ReadSmallFile.ofName f).readToString f maxSize content want errno

namespace NamedFile

/-- The number of bytes before the `read` with number `call`, if all earlier ones have returned some. -/
def progress (f : NamedFile) (maxSize : ℕ) : ℕ → Option ℕ
  | 0 => some 0
  | call + 1 =>
    (f.progress maxSize call).bind fun got =>
      if got < maxSize then
        match f.read call got (ReadSmallFile.toRead maxSize got) with
        | .ok [] => none
        | .ok (byte :: chunk) => some (got + (byte :: chunk).length)
        | .error _ => none
      else none

/-- The `read` with number `call` is made after `got` bytes and fails. -/
def FailsAt (f : NamedFile) (maxSize call got : ℕ) (errno : ℤ) : Prop :=
  f.progress maxSize call = some got ∧ got < maxSize ∧ f.reply call = .fails errno

/-- What `readFile` is for. -/
structure ReadRight (f : NamedFile) (maxSize : ℕ) (content : Line) (out : FileRead) : Prop where
  closed : ∀ errno, f.openErrno = some errno → out.err = errno ∧ out.content = content
  failed : f.openErrno = none → ∀ call got errno, f.FailsAt maxSize call got errno →
    out.err = errno ∧ out.content = f.data.take got
  whole : f.openErrno = none → (∀ call got errno, ¬f.FailsAt maxSize call got errno) →
    out.err = 0 ∧ out.content = f.data.take maxSize

variable {f : NamedFile} {maxSize : ℕ}

theorem progress_stops {c d : ℕ} (h : f.progress maxSize c = none) (hcd : c ≤ d) : f.progress maxSize d = none := by
  induction d, hcd using Nat.le_induction with
  | base => exact h
  | succ d _ ih => rw [progress, ih, Option.bind_none]

theorem read_fails {call offset toRead : ℕ} {errno : ℤ} (h : f.read call offset toRead = .error errno) :
    f.reply call = .fails errno := by
  unfold read at h
  split at h
  case h_1 => cases h
  case h_2 e he => rw [he, Except.error.inj h]

theorem not_fails {call offset toRead : ℕ} {chunk : Line} {errno : ℤ} (h : f.read call offset toRead = .ok chunk) :
    f.reply call ≠ .fails errno := by
  intro hfails
  rw [read, hfails] at h
  cases h

theorem progress_after_failure {call got : ℕ} {errno : ℤ} (h : f.FailsAt maxSize call got errno) :
    f.progress maxSize (call + 1) = none := by
  obtain ⟨hgot, hroom, hreply⟩ := h
  rw [progress, hgot, Option.bind_some, if_pos hroom, read, hreply]

theorem FailsAt.unique {c d got got' : ℕ} {e e' : ℤ} (h : f.FailsAt maxSize c got e) (h' : f.FailsAt maxSize d got' e') :
    got = got' ∧ e = e' := by
  rcases Nat.lt_trichotomy c d with hlt | rfl | hlt
  · have hnone := progress_stops (progress_after_failure h) hlt
    rw [h'.1] at hnone
    cases hnone
  · exact ⟨Option.some.inj (h.1.symm.trans h'.1), ReadReply.fails.inj (h.2.2.symm.trans h'.2.2)⟩
  · have hnone := progress_stops (progress_after_failure h') hlt
    rw [h.1] at hnone
    cases hnone

/-- What has been read continues the file where the last `read` ended. -/
theorem read_continues {call offset toRead : ℕ} {chunk : Line} (h : f.read call offset toRead = .ok chunk) :
    chunk.length ≤ toRead ∧ f.data.take offset ++ chunk = f.data.take (offset + chunk.length) ∧
      (offset ≤ f.data.length → offset + chunk.length ≤ f.data.length) ∧
      (chunk = [] → 0 < toRead → f.data.length ≤ offset) := by
  unfold read at h
  split at h
  case h_2 => cases h
  case h_1 atMost _ =>
    have hlen : chunk.length = min (offset + min (atMost + 1) toRead) f.data.length - offset := by
      rw [← Except.ok.inj h, slice_length]
    refine ⟨by omega, ?_, by omega, fun hnil hpos => ?_⟩
    · rw [List.take_add, List.append_cancel_left_eq, ← Except.ok.inj h, slice, List.drop_take, Nat.add_sub_cancel_left]
      rw [List.length_take, List.take_eq_take_min, List.length_drop]
    · rw [hnil, List.length_nil] at hlen
      omega

end NamedFile

namespace ReadSmallFile

open NamedFile

variable {f : NamedFile} {maxSize : ℕ}

theorem toRead_pos {got : ℕ} (h : got < maxSize) : 0 < toRead maxSize got := by
  unfold toRead kBufferSize
  omega

/-- Where the loop ends without a failure, no further `read` is made. -/
theorem no_failure {call got : ℕ} (hgot : f.progress maxSize call = some got)
    (hlast : f.progress maxSize (call + 1) = none) (hthis : ∀ e, ¬f.FailsAt maxSize call got e) {c g : ℕ} {e : ℤ}
    (hc : call ≤ c) : ¬f.FailsAt maxSize c g e := by
  intro hfails
  rcases Nat.eq_or_lt_of_le hc with rfl | hlt
  · cases hgot.symm.trans hfails.1
    exact hthis e hfails
  · have hnone := progress_stops hlast hlt
    rw [hfails.1] at hnone
    cases hnone

theorem no_failure_full {call got : ℕ} (hgot : f.progress maxSize call = some got) (hfull : ¬got < maxSize) {c g : ℕ} {e : ℤ}
    (hc : call ≤ c) : ¬f.FailsAt maxSize c g e :=
  no_failure hgot (by rw [progress, hgot, Option.bind_some, if_neg hfull]) (fun _ h => hfull h.2.1) hc

/-- From `read` number `call` on, either one fails and the loop ends with its `errno` and the bytes so far, or
none does and the loop ends at `maxSize` or at the end of the file. -/
theorem readLoop_spec (rounds call got : ℕ) (err : ℤ) (hgot : f.progress maxSize call = some got)
    (hlen : got ≤ f.data.length) (hmax : got ≤ maxSize) (hrounds : maxSize ≤ got + rounds) :
    (∃ c g e, f.FailsAt maxSize c g e ∧ readLoop f maxSize rounds call (f.data.take got) err = (e, f.data.take g)) ∨
      (∀ c g e, call ≤ c → ¬f.FailsAt maxSize c g e) ∧
        readLoop f maxSize rounds call (f.data.take got) err = (err, f.data.take maxSize) := by
  induction rounds generalizing call got with
  | zero =>
    obtain rfl : got = maxSize := by omega
    exact Or.inr ⟨fun c g e hc => no_failure_full hgot (Nat.lt_irrefl _) hc, rfl⟩
  | succ rounds ih =>
    have hsize : (f.data.take got).length = got := by rw [List.length_take]; omega
    rw [readLoop, hsize]
    by_cases hroom : got < maxSize
    · rw [if_pos hroom]
      cases hread : f.read call got (toRead maxSize got) with
      | error e => exact Or.inl ⟨call, got, e, ⟨hgot, hroom, read_fails hread⟩, rfl⟩
      | ok chunk =>
        obtain ⟨hle, htake, hin, hend⟩ := read_continues hread
        cases chunk with
        | nil =>
          have hall : f.data.length ≤ got := hend rfl (toRead_pos hroom)
          have hnext : f.progress maxSize (call + 1) = none := by
            rw [progress, hgot, Option.bind_some, if_pos hroom, hread]
          refine Or.inr ⟨fun c g e hc => no_failure hgot hnext (fun e h => not_fails hread h.2.2) hc, ?_⟩
          rw [List.take_of_length_le hall, List.take_of_length_le (by omega)]
        | cons byte chunk =>
          have hnext : f.progress maxSize (call + 1) = some (got + (byte :: chunk).length) := by
            rw [progress, hgot, Option.bind_some, if_pos hroom, hread]
          have hbound : toRead maxSize got ≤ maxSize - got := Nat.min_le_left _ _
          have hpos : 0 < (byte :: chunk).length := Nat.succ_pos _
          dsimp only
          rw [htake]
          obtain hfails | ⟨hnone, hloop⟩ := ih (call + 1) (got + (byte :: chunk).length) hnext (hin hlen) (by omega) (by omega)
          · exact Or.inl hfails
          · refine Or.inr ⟨fun c g e hc hfails => ?_, hloop⟩
            rcases Nat.eq_or_lt_of_le hc with rfl | hlt
            · exact not_fails hread hfails.2.2
            · exact hnone c g e hlt hfails
    · obtain rfl : got = maxSize := by omega
      rw [if_neg hroom]
      exact Or.inr ⟨fun c g e hc => no_failure_full hgot hroom hc, rfl⟩

end ReadSmallFile

section Result

variable (f : NamedFile) (maxSize : ℕ) (content : Line) (want : Pointers) (errno : ℤ)

theorem readFile_closed {e : ℤ} (h : f.openErrno = some e) :
    readFile f maxSize content want errno = .ok { err := e, content := content } := by
  unfold readFile ReadSmallFile.ofName
  rw [h]
  rfl

theorem readFile_open (h : f.openErrno = none) :
    readFile f maxSize content want errno = (do
      let out ← ReadSmallFile.stat f want errno 0
      let loop := ReadSmallFile.readLoop f maxSize maxSize 0 out.content out.err
      return { out with err := loop.1, content := loop.2 }) := by
  unfold readFile ReadSmallFile.ofName
  rw [h]
  rfl

/-- The loop ends with the failure of a `read`, or it leaves the error that it was entered with. -/
theorem readFile_outcome (h : f.openErrno = none) {out : FileRead} (hstat : ReadSmallFile.stat f want errno 0 = .ok out)
    (hnew : out.content = []) :
    ∃ res, readFile f maxSize content want errno = .ok res ∧
      ((∃ c g e, f.FailsAt maxSize c g e ∧ res.err = e ∧ res.content = f.data.take g) ∨
        (∀ c g e, ¬f.FailsAt maxSize c g e) ∧ res.err = out.err ∧ res.content = f.data.take maxSize) := by
  have hstart : f.progress maxSize 0 = some 0 := rfl
  have hloop := ReadSmallFile.readLoop_spec maxSize 0 0 out.err hstart (Nat.zero_le _) (Nat.zero_le _) (by omega)
  rw [readFile_open f maxSize content want errno h, hstat, ok_bind, hnew]
  refine ⟨_, rfl, ?_⟩
  rw [List.take_zero] at hloop
  obtain ⟨c, g, e, hfails, hres⟩ | ⟨hnone, hres⟩ := hloop
  · exact Or.inl ⟨c, g, e, hfails, by rw [hres], by rw [hres]⟩
  · exact Or.inr ⟨fun c g e => hnone c g e (Nat.zero_le _), by rw [hres], by rw [hres]⟩

variable {f maxSize content want errno}

theorem NamedFile.ReadRight.iff_of_outcome (h : f.openErrno = none) {res : FileRead} {err : ℤ}
    (hres : (∃ c g e, f.FailsAt maxSize c g e ∧ res.err = e ∧ res.content = f.data.take g) ∨
      (∀ c g e, ¬f.FailsAt maxSize c g e) ∧ res.err = err ∧ res.content = f.data.take maxSize) :
    f.ReadRight maxSize content res ↔ err = 0 ∨ ∃ c g e, f.FailsAt maxSize c g e := by
  have hopen : ∀ e, f.openErrno = some e → res.err = e ∧ res.content = content := by
    intro e he
    rw [h] at he
    cases he
  obtain ⟨c, g, e, hfails, herr, hcontent⟩ | ⟨hnone, herr, hcontent⟩ := hres
  · refine iff_of_true ⟨hopen, fun _ c' g' e' hfails' => ?_, fun _ hnone => absurd hfails (hnone c g e)⟩
      (Or.inr ⟨c, g, e, hfails⟩)
    obtain ⟨hg, he⟩ := hfails.unique hfails'
    rw [← hg, ← he]
    exact ⟨herr, hcontent⟩
  · constructor
    · intro hright
      exact Or.inl (herr.symm.trans (hright.whole h hnone).1)
    · rintro (rfl | ⟨c, g, e, hfails⟩)
      · exact ⟨hopen, fun _ c g e hfails => absurd hfails (hnone c g e), fun _ _ => ⟨herr, hcontent⟩⟩
      · exact absurd hfails (hnone c g e)

theorem readFile_closed_right (f : NamedFile) (maxSize : ℕ) (content : Line) (want : Pointers) (errno : ℤ)
    {e : ℤ} (hopen : f.openErrno = some e) :
    ∃ out, readFile f maxSize content want errno = .ok out ∧ f.ReadRight maxSize content out := by
  have hclosed : f.openErrno ≠ none := by simp [hopen]
  refine ⟨_, readFile_closed f maxSize content want errno hopen, ?_, fun h => absurd h hclosed, fun h => absurd h hclosed⟩
  intro e' he'
  rw [hopen] at he'
  exact ⟨Option.some.inj he', rfl⟩

/-- The error that is there after the `stat` branch stays, unless a `read` fails. -/
theorem readFile_right_of_stat (f : NamedFile) (maxSize : ℕ) (content : Line) (want : Pointers) (errno : ℤ)
    (hopen : f.openErrno = none) {out : FileRead} (hstat : ReadSmallFile.stat f want errno 0 = .ok out)
    (hnew : out.content = []) :
    (∃ res, readFile f maxSize content want errno = .ok res ∧ f.ReadRight maxSize content res) ↔
      out.err = 0 ∨ ∃ c g e, f.FailsAt maxSize c g e := by
  obtain ⟨res, hres, hcases⟩ := readFile_outcome f maxSize content want errno hopen hstat hnew
  have hright : f.ReadRight maxSize content res ↔ out.err = 0 ∨ ∃ c g e, f.FailsAt maxSize c g e :=
    NamedFile.ReadRight.iff_of_outcome hopen hcases
  rw [← hright, hres]
  constructor
  · rintro ⟨out, hout, hright⟩
    rwa [Except.ok.inj hout]
  · exact fun hright => ⟨res, rfl, hright⟩

/-- Without a place for the size the function returns the `errno` of some earlier call, unless a `read` fails. -/
theorem readFile_right_iff (f : NamedFile) (maxSize : ℕ) (content : Line) (want : Pointers) (errno : ℤ) :
    (∃ out, readFile f maxSize content want errno = .ok out ∧ f.ReadRight maxSize content out) ↔
      f.openErrno ≠ none ∨ (want.fileSize = true ∧ f.fstat ≠ none) ∨
        (want.fileSize = false ∧ (errno = 0 ∨ ∃ c g e, f.FailsAt maxSize c g e)) := by
  cases hopen : f.openErrno with
  | some e =>
    have hright := readFile_closed_right f maxSize content want errno hopen
    exact iff_of_true hright (Or.inl (by simp))
  | none =>
    cases hsize : want.fileSize with
    | false =>
      have hstat : ReadSmallFile.stat f want errno 0 = .ok { err := errno, content := [] } := by
        rw [ReadSmallFile.stat, hsize]
        rfl
      rw [readFile_right_of_stat f maxSize content want errno hopen hstat rfl]
      simp
    | true =>
      cases hfstat : f.fstat with
      | none =>
        have hstat : ReadSmallFile.stat f want errno 0 = .error .undefined := by
          rw [ReadSmallFile.stat, hsize, if_pos rfl, hfstat]
        rw [readFile_open f maxSize content want errno hopen, hstat]
        simp
      | some statbuf =>
        obtain ⟨out, hstat, herr, hnew⟩ : ∃ out, ReadSmallFile.stat f want errno 0 = .ok out ∧ out.err = 0 ∧ out.content = [] := by
          rw [ReadSmallFile.stat, hsize, if_pos rfl, hfstat]
          exact ⟨_, rfl, rfl, rfl⟩
        rw [readFile_right_of_stat f maxSize content want errno hopen hstat hnew, herr]
        simp

end Result

-- All of a short file is read, but the result is an `ENOENT` from some time before.
theorem readFile_stale_errno :
    ¬∀ (f : NamedFile) (maxSize : ℕ) (content : Line) (want : Pointers) (errno : ℤ), f.fstat ≠ none →
      ∃ out, readFile f maxSize content want errno = .ok out ∧ f.ReadRight maxSize content out := by
  intro h
  obtain ⟨out, hout, hright⟩ := h
    { openErrno := none, fstat := some ⟨3, 0, 0⟩, data := [1, 2, 3], reply := fun _ => .bytes 100 } 10 [] {} 2 (by simp)
  have hread : out.err = 2 := by
    rw [← Except.ok.inj hout]
    rfl
  have hzero := (hright.whole rfl fun call got e hfails => by cases hfails.2.2).1
  omega

end Networker
