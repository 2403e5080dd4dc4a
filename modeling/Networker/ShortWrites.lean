import Mathlib.Algebra.BigOperators.Group.Finset.Basic
import Mathlib.Data.List.TakeDrop
import Networker.ByteVectors
import Networker.CheckedIntegers
import Networker.LogFileModel

/-!
`AppendFile::append` when `fwrite_unlocked` takes less than it is given, on the offsets and the
counters of `size_t` that the loop computes with. `writtenBytes_` is an `off_t`.
-/

namespace Networker.AppendFile

open ByteVectors CheckedRuns

variable {α : Type}

/-- A call in the loop, and whether `ferror` finds an error after it. -/
structure Retry extends Fwrite where
  err : Bool
deriving DecidableEq, Repr

/-- What goes to `stderr` when the call has taken nothing. -/
def Retry.report (w : Retry) : Line := if w.err then chars "AppendFile::append() failed ! \n" else []

/-- What a call leaves, with its output on `stderr`. -/
structure Appended (α : Type) where
  disk : LogDisk α
  file : AppendFile α
  message : Line := []

/-- Every byte the stream has accepted: those in the file and those in the buffer. -/
def stream (f : AppendFile α) (disk : LogDisk α) : List α := disk.content f.inode ++ f.buffer

/-- The file of `fp_` exists, under whatever name. -/
def Opened (f : AppendFile α) (disk : LogDisk α) : Prop := f.inode < disk.inodes.length

/-- `this->write(logline + n, remain)`, which must not read beyond the line. -/
def writeAt (f : AppendFile α) (disk : LogDisk α) (logline : List α) (n remain : ℕ) (w : Fwrite) :
    Exec (LogDisk α × AppendFile α × ℕ) :=
  if n + remain ≤ logline.length then .ok (f.write disk (slice logline n (n + remain)) w)
  else .error .undefined

/-- The loop of `append`; none if it is not over when its condition has been looked at `rounds` times. -/
def appendLoop (logline : List α) (len : ℕ) :
    ℕ → (ℕ → Retry) → LogDisk α → AppendFile α → ℕ → ℕ → Exec (Option (Appended α))
  | 0, _, _, _, _, _ => .ok none
  | rounds + 1, retries, disk, f, n, remain =>
    if 0 < remain then do
      let (disk, f, x) ← f.writeAt disk logline n remain (retries 0).toFwrite
      if x = 0 then .ok (some { disk, file := f, message := (retries 0).report })
      else
        let n := addSize n x
        let remain := subSize len n
        appendLoop logline len rounds (fun i => retries (i + 1)) disk f n remain
    else .ok (some { disk, file := f })

/-- `writtenBytes_ += len`. -/
def Appended.addWritten (r : Appended α) (len : ℕ) : Appended α :=
  { r with file := { r.file with writtenBytes := castInt64 (r.file.writtenBytes + len) } }

def appendWithin (rounds : ℕ) (f : AppendFile α) (disk : LogDisk α) (logline : List α) (w : Fwrite)
    (retries : ℕ → Retry) : Exec (Option (Appended α)) := do
  let len := logline.length
  let (disk, f, n) ← f.writeAt disk logline 0 len w
  let remain := subSize len n
  let result ← appendLoop logline len rounds retries disk f n remain
  .ok (result.map (·.addWritten len))

def Returns (f : AppendFile α) (disk : LogDisk α) (logline : List α) (w : Fwrite) (retries : ℕ → Retry)
    (r : Appended α) : Prop :=
  ∀ rounds, logline.length < rounds → f.appendWithin rounds disk logline w retries = .ok (some r)

/-- After a call that takes `n` bytes, a retry takes none although bytes of the line remain. -/
def Starves (retries : ℕ → Retry) (n len : ℕ) : Prop :=
  ∃ i, n + ∑ j ∈ Finset.range i, (retries j).accepted < len ∧ (retries i).accepted = 0

/-- The call returns, the stream takes a prefix of the line, which is all of it unless a retry takes
nothing, and `writtenBytes` grows by the length of the prefix. -/
def AppendsRight (f : AppendFile α) (disk : LogDisk α) (logline : List α) (w : Fwrite) (retries : ℕ → Retry) : Prop :=
  ∃ r k, f.Returns disk logline w retries r ∧ k ≤ logline.length ∧
    r.file.stream r.disk = f.stream disk ++ logline.take k ∧
    (¬ Starves retries w.accepted logline.length → k = logline.length) ∧
    r.file.writtenBytes = castInt64 (f.writtenBytes + k)

section Loop

variable {f₀ : AppendFile α} {disk₀ : LogDisk α} {logline : List α}

/-- Between two calls the stream has taken the first `n` bytes of the line, and nothing has been counted. -/
structure Took (f₀ : AppendFile α) (disk₀ : LogDisk α) (logline : List α) (n : ℕ) (f : AppendFile α)
    (disk : LogDisk α) : Prop where
  le : n ≤ logline.length
  opened : f.Opened disk
  writtenBytes : f.writtenBytes = f₀.writtenBytes
  stream : f.stream disk = f₀.stream disk₀ ++ logline.take n

theorem create_opened (disk : LogDisk α) (filename : FileName) : (create disk filename).2.Opened (create disk filename).1 := by
  obtain ⟨n, hn⟩ := disk.named_opened filename
  exact Disk.allocated _ n _ hn

theorem Took.start (f : AppendFile α) (disk : LogDisk α) (logline : List α) (h : f.Opened disk) :
    Took f disk logline 0 f disk :=
  ⟨Nat.zero_le _, h, rfl, by simp⟩

variable {f f' : AppendFile α} {disk disk' : LogDisk α} {n k x : ℕ}

theorem write_count {w : Fwrite} (hw : f.write disk (logline.drop n) w = (disk', f', x)) :
    x = min w.accepted (logline.length - n) := by
  cases hw
  rw [List.length_drop]

theorem Took.write (h : Took f₀ disk₀ logline n f disk) {w : Fwrite}
    (hw : f.write disk (logline.drop n) w = (disk', f', x)) : Took f₀ disk₀ logline (n + x) f' disk' := by
  have hx := write_count hw
  have hle : n + x ≤ logline.length := by
    have := h.le
    omega
  have htake : logline.take (n + x) = logline.take n ++ (logline.drop n).take w.accepted := by
    rw [hx, List.take_add, ← List.length_drop, ← List.take_eq_take_min]
  cases hw
  refine ⟨hle, by simpa [Opened] using h.opened, h.writtenBytes, ?_⟩
  rw [htake, ← List.append_assoc, ← h.stream]
  simp only [AppendFile.stream, disk.content_write_self f.inode _ h.opened, List.append_assoc, List.take_append_drop]

theorem writeAt_eq (hn : n ≤ logline.length) (w : Fwrite) :
    f.writeAt disk logline n (logline.length - n) w = .ok (f.write disk (logline.drop n) w) := by
  have he : n + (logline.length - n) = logline.length := by omega
  rw [writeAt, if_pos (by omega), he, slice, List.take_length]

theorem starves_zero {retries : ℕ → Retry} {n len : ℕ} (hn : n < len) (h : (retries 0).accepted = 0) :
    Starves retries n len := by
  refine ⟨0, ?_, h⟩
  simpa using hn

theorem starves_succ {retries : ℕ → Retry} {n len : ℕ} (h : (retries 0).accepted ≠ 0) :
    Starves retries n len ↔ Starves (fun i => retries (i + 1)) (n + (retries 0).accepted) len := by
  constructor
  · rintro ⟨i, hi, hz⟩
    cases i with
    | zero => exact absurd hz h
    | succ i =>
      refine ⟨i, ?_, hz⟩
      simp only [Finset.sum_range_succ'] at hi ⊢
      omega
  · rintro ⟨i, hi, hz⟩
    refine ⟨i + 1, ?_, hz⟩
    simp only [Finset.sum_range_succ'] at hi ⊢
    omega

theorem not_starves {retries : ℕ → Retry} {n len : ℕ} (h : len ≤ n) : ¬ Starves retries n len := by
  rintro ⟨i, hi, -⟩
  omega

theorem starves_min {retries : ℕ → Retry} {n len : ℕ} : Starves retries (min n len) len ↔ Starves retries n len := by
  rcases Nat.le_total len n with h | h
  · rw [Nat.min_eq_right h]
    exact iff_of_false (not_starves (Nat.le_refl _)) (not_starves h)
  · rw [Nat.min_eq_left h]

theorem appendLoop_done (logline : List α) (len rounds : ℕ) (retries : ℕ → Retry) (disk : LogDisk α)
    (f : AppendFile α) (n : ℕ) :
    appendLoop logline len (rounds + 1) retries disk f n 0 = .ok (some { disk, file := f }) := rfl

theorem appendLoop_round (hn : n < logline.length) (hlen : logline.length < 2 ^ 64) (rounds : ℕ)
    {retries : ℕ → Retry} (hw : f.write disk (logline.drop n) (retries 0).toFwrite = (disk', f', x)) :
    appendLoop logline logline.length (rounds + 1) retries disk f n (logline.length - n) =
      if x = 0 then .ok (some { disk := disk', file := f', message := (retries 0).report })
      else
        appendLoop logline logline.length rounds (fun i => retries (i + 1)) disk' f' (n + x) (logline.length - (n + x)) := by
  have hx := write_count hw
  rw [appendLoop, if_pos (by omega), writeAt_eq (Nat.le_of_lt hn), ok_bind, hw]
  simp only
  rw [addSize_eq (by omega), subSize_eq (by omega) hlen]

/-- When the loop is over, having begun after `n` bytes. -/
structure Ended (f₀ : AppendFile α) (disk₀ : LogDisk α) (logline : List α) (retries : ℕ → Retry) (n k : ℕ)
    (r : Appended α) : Prop extends Took f₀ disk₀ logline k r.file r.disk where
  whole : k = logline.length ↔ ¬ Starves retries n logline.length
  failed : r.message ≠ [] → k < logline.length

variable {retries : ℕ → Retry} {r : Appended α}

theorem Took.ended (h : Took f₀ disk₀ logline n f disk) (hn : logline.length ≤ n) (retries : ℕ → Retry) :
    Ended f₀ disk₀ logline retries n n { disk, file := f } where
  toTook := h
  whole := iff_of_true (Nat.le_antisymm h.le hn) (not_starves hn)
  failed hm := absurd rfl hm

theorem Took.ended_starved (h : Took f₀ disk₀ logline n f disk) (hn : n < logline.length)
    (hz : (retries 0).accepted = 0) (message : Line) :
    Ended f₀ disk₀ logline retries n n { disk, file := f, message } where
  toTook := h
  whole := iff_of_false (Nat.ne_of_lt hn) (not_not_intro (starves_zero hn hz))
  failed _ := hn

theorem Ended.round (hn : n ≤ logline.length) (ha : (retries 0).accepted ≠ 0)
    (hx : x = min (retries 0).accepted (logline.length - n))
    (h : Ended f₀ disk₀ logline (fun i => retries (i + 1)) (n + x) k r) : Ended f₀ disk₀ logline retries n k r where
  toTook := h.toTook
  whole := by
    have he : n + x = min (n + (retries 0).accepted) logline.length := by omega
    rw [h.whole, he, starves_min, ← starves_succ ha]
  failed := h.failed

theorem Took.loop_over (h : Took f₀ disk₀ logline n f disk) (hn : logline.length ≤ n) (retries : ℕ → Retry) (m : ℕ) :
    ∃ r k, (∀ rounds, m < rounds →
        appendLoop logline logline.length rounds retries disk f n (logline.length - n) = .ok (some r)) ∧
      Ended f₀ disk₀ logline retries n k r := by
  refine ⟨{ disk, file := f }, n, ?_, h.ended hn retries⟩
  intro rounds hr
  obtain ⟨rounds, rfl⟩ := Nat.exists_eq_add_one_of_ne_zero (Nat.ne_zero_of_lt hr)
  rw [Nat.sub_eq_zero_of_le hn, appendLoop_done]

/-- The induction is on a bound `m` for the bytes that remain, which every round but the last makes smaller. -/
theorem appendLoop_ended {m : ℕ} (hm : logline.length ≤ n + m) (hlen : logline.length < 2 ^ 64)
    (h : Took f₀ disk₀ logline n f disk) (retries : ℕ → Retry) :
    ∃ r k, (∀ rounds, m < rounds →
        appendLoop logline logline.length rounds retries disk f n (logline.length - n) = .ok (some r)) ∧
      Ended f₀ disk₀ logline retries n k r := by
  induction m generalizing n retries f disk with
  | zero => exact h.loop_over hm retries 0
  | succ m ih =>
    rcases Nat.lt_or_ge n logline.length with hn | hn
    · rcases hw : f.write disk (logline.drop n) (retries 0).toFwrite with ⟨disk', f', x⟩
      have hx := write_count hw
      have ht := h.write hw
      by_cases ha : (retries 0).accepted = 0
      · have hz : x = 0 := by omega
        rw [hz, Nat.add_zero] at ht
        refine ⟨_, n, ?_, ht.ended_starved hn ha (retries 0).report⟩
        intro rounds hr
        obtain ⟨rounds, rfl⟩ := Nat.exists_eq_add_one_of_ne_zero (Nat.ne_zero_of_lt hr)
        rw [appendLoop_round hn hlen rounds hw, if_pos hz]
      · obtain ⟨r, k, hr, he⟩ := ih (by omega) ht (fun i => retries (i + 1))
        refine ⟨r, k, ?_, he.round h.le ha hx⟩
        intro rounds hrounds
        obtain ⟨rounds, rfl⟩ := Nat.exists_eq_add_one_of_ne_zero (Nat.ne_zero_of_lt hrounds)
        rw [appendLoop_round hn hlen rounds hw, if_neg (by omega)]
        exact hr rounds (by omega)
    · exact h.loop_over hn retries (m + 1)

theorem appendWithin_eq (hlen : logline.length < 2 ^ 64) (rounds : ℕ) {w : Fwrite} (retries : ℕ → Retry)
    (hw : f.write disk logline w = (disk', f', n)) :
    f.appendWithin rounds disk logline w retries =
      (appendLoop logline logline.length rounds retries disk' f' n (logline.length - n) >>= fun result =>
        .ok (result.map (·.addWritten logline.length))) := by
  have hn : n ≤ logline.length := by
    cases hw
    exact Nat.min_le_right _ _
  have h0 : f.writeAt disk logline 0 logline.length w = .ok (disk', f', n) := by
    rw [← hw]
    exact writeAt_eq (Nat.zero_le _) w
  simp only [appendWithin, h0, ok_bind]
  rw [subSize_eq hn hlen]

/-- Whatever `fwrite_unlocked` takes, the call returns, and what the stream has taken is a prefix of the
line; but all of the line is counted. -/
theorem append_ended (hopen : f.Opened disk) (hlen : logline.length < 2 ^ 64) (w : Fwrite)
    (retries : ℕ → Retry) :
    ∃ r k, f.Returns disk logline w retries (r.addWritten logline.length) ∧
      Ended f disk logline retries (min w.accepted logline.length) k r := by
  rcases hw : f.write disk logline w with ⟨disk', f', n⟩
  have ht : Took f disk logline n f' disk' := by
    have h := (Took.start f disk logline hopen).write hw
    rwa [Nat.zero_add] at h
  obtain ⟨r, k, hr, he⟩ := appendLoop_ended (Nat.le_add_left _ _) hlen ht retries
  have hn : n = min w.accepted logline.length := by
    cases hw
    rfl
  refine ⟨r, k, ?_, hn ▸ he⟩
  intro rounds hrounds
  rw [appendWithin_eq hlen rounds retries hw, hr rounds hrounds, ok_bind]
  rfl

theorem appendRest_nil (more : List Fwrite) : f.appendRest disk [] more = (disk, f) := by
  rw [appendRest]

theorem appendRest_round (hn : n < logline.length) (w : Fwrite) (more : List Fwrite)
    (hw : f.write disk (logline.drop n) w = (disk', f', x)) :
    f.appendRest disk (logline.drop n) (w :: more) =
      if x = 0 then (disk', f') else f'.appendRest disk' (logline.drop (n + x)) more := by
  have hd := List.drop_eq_getElem_cons hn
  rw [← List.drop_drop]
  rw [hd] at hw ⊢
  simp only [appendRest, hw]

/-- Up to its offsets the loop is the one on the bytes that remain. -/
theorem appendLoop_rest {rounds : ℕ} (hlen : logline.length < 2 ^ 64)
    (h : appendLoop logline logline.length rounds retries disk f n (logline.length - n) = .ok (some r)) :
    f.appendRest disk (logline.drop n) ((List.range rounds).map fun i => (retries i).toFwrite) = (r.disk, r.file) := by
  induction rounds generalizing n retries f disk with
  | zero => cases h
  | succ rounds ih =>
    rcases Nat.lt_or_ge n logline.length with hn | hn
    · rcases hw : f.write disk (logline.drop n) (retries 0).toFwrite with ⟨disk', f', x⟩
      rw [appendLoop_round hn hlen rounds hw] at h
      rw [List.range_succ_eq_map, List.map_cons, List.map_map, appendRest_round hn _ _ hw]
      by_cases hx : x = 0
      · rw [if_pos hx] at h ⊢
        cases h
        rfl
      · rw [if_neg hx] at h ⊢
        exact ih h
    · rw [Nat.sub_eq_zero_of_le hn, appendLoop_done] at h
      cases h
      rw [List.drop_eq_nil_of_le hn, appendRest_nil]

/-- The model with a list of retries is this one, when the list is long enough, but for an overflow of
`writtenBytes_`. -/
theorem append_refines (hlen : logline.length < 2 ^ 64) {w : Fwrite} (h : f.Returns disk logline w retries r) :
    let result := f.append disk logline w ((List.range (logline.length + 1)).map fun i => (retries i).toFwrite)
    r.disk = result.1 ∧ r.file = { result.2 with writtenBytes := castInt64 result.2.writtenBytes } := by
  rcases hw : f.write disk logline w with ⟨disk', f', n⟩
  have hr := h _ (Nat.lt_succ_self _)
  rw [appendWithin_eq hlen _ retries hw] at hr
  obtain ⟨result, hl, ho⟩ := bind_eq_ok.mp hr
  obtain ⟨q, rfl, rfl⟩ := Option.map_eq_some_iff.mp (Except.ok.inj ho)
  simp only [AppendFile.append, hw, appendLoop_rest hlen hl, Appended.addWritten, true_and]

theorem Returns.unique {w : Fwrite} {r₁ r₂ : Appended α} (h₁ : f.Returns disk logline w retries r₁)
    (h₂ : f.Returns disk logline w retries r₂) : r₁ = r₂ := by
  have h := (h₁ _ (Nat.lt_succ_self _)).symm.trans (h₂ _ (Nat.lt_succ_self _))
  exact Option.some.inj (Except.ok.inj h)

end Loop

variable {f : AppendFile α} {disk : LogDisk α} {logline : List α} {w : Fwrite} {retries : ℕ → Retry}

/-- The bytes that no call has taken are counted all the same. -/
theorem starves_wrong (hopen : f.Opened disk) (hlen : logline.length < 2 ^ 64)
    (h : Starves retries w.accepted logline.length) : ¬ f.AppendsRight disk logline w retries := by
  obtain ⟨r, k, hr, he⟩ := append_ended hopen hlen w retries
  rintro ⟨r', k', hr', hk', hs, -, hc⟩
  cases hr.unique hr'
  rw [Appended.addWritten, he.writtenBytes, eq_comm, castInt64_eq_iff (by omega) (by omega)] at hc
  have hall : k' = logline.length := by omega
  rw [hall, List.take_length] at hs
  have hsame : logline.take k = logline := List.append_cancel_left (he.stream.symm.trans hs)
  have hk : k = logline.length := Nat.le_antisymm he.le ((List.take_eq_self_iff logline).mp hsame)
  exact he.whole.mp hk (starves_min.mpr h)

/-- The second part says what a call does in every case. -/
theorem append_right_iff (hopen : f.Opened disk) (hlen : logline.length < 2 ^ 64) :
    (f.AppendsRight disk logline w retries ↔ ¬ Starves retries w.accepted logline.length) ∧
      ∃ r k, f.Returns disk logline w retries r ∧ k ≤ logline.length ∧
        r.file.stream r.disk = f.stream disk ++ logline.take k ∧
        (k = logline.length ↔ ¬ Starves retries w.accepted logline.length) ∧
        r.file.writtenBytes = castInt64 (f.writtenBytes + logline.length) := by
  obtain ⟨r, k, hr, he⟩ := append_ended hopen hlen w retries
  have hwhole := he.whole
  rw [starves_min] at hwhole
  have hcounted : (r.addWritten logline.length).file.writtenBytes = castInt64 (f.writtenBytes + logline.length) := by
    rw [Appended.addWritten, he.writtenBytes]
  refine ⟨⟨?_, ?_⟩, _, k, hr, he.le, he.stream, hwhole, hcounted⟩
  · intro h hs
    exact starves_wrong hopen hlen hs h
  · intro hs
    have hk := hwhole.mpr hs
    exact ⟨_, k, hr, he.le, he.stream, fun _ => hk, by rw [hcounted, hk]⟩

theorem append_right_resumed :
    (create (Disk.empty : LogDisk ℕ) (.log 0)).2.AppendsRight (create Disk.empty (.log 0)).1 [10, 20, 30] ⟨2, 0⟩
      (fun _ => ⟨⟨1, 3⟩, false⟩) := by
  refine (append_right_iff (create_opened _ _) (by decide)).1.mpr ?_
  rintro ⟨i, -, h⟩
  exact absurd h Nat.one_ne_zero

/-- The first call takes two bytes of three and the retry fails. -/
theorem append_counts_untaken :
    let disk := (create (Disk.empty : LogDisk ℕ) (.log 0)).1
    let f := (create (Disk.empty : LogDisk ℕ) (.log 0)).2
    let retries : ℕ → Retry := fun _ => ⟨⟨0, 0⟩, true⟩
    ∃ r, f.Returns disk [10, 20, 30] ⟨2, 0⟩ retries r ∧ r.file.stream r.disk = [10, 20] ∧ r.file.writtenBytes = 3 ∧
      ¬ f.AppendsRight disk [10, 20, 30] ⟨2, 0⟩ retries := by
  intro disk f retries
  refine ⟨{ disk := disk.write 0 [], file := ⟨0, [10, 20], 3⟩, message := (retries 0).report }, ?_, by decide, rfl, ?_⟩
  · intro rounds hr
    obtain ⟨rounds, rfl⟩ := Nat.exists_eq_add_one_of_ne_zero (Nat.ne_zero_of_lt hr)
    rw [appendWithin_eq (by decide) _ _ rfl, appendLoop_round (by decide) (by decide) _ rfl]
    rfl
  · exact starves_wrong (create_opened _ _) (by decide) ⟨0, by decide, rfl⟩

end Networker.AppendFile
