import Mathlib.Algebra.Order.Group.Int
import Networker.LogRotation

/-!
Putting a rotated log together again. A roll ends the `.log` file of its day, so that the
names alone say in which order the files were written: day by day, on a day by the second
of the roll, and what is still called `.log` at the end.
-/

namespace Networker

open CheckedRuns

namespace FileName

def Before : FileName → FileName → Prop
  | .log d, .log e => d < e
  | .log d, .roll t => d < LogFile.day t
  | .roll s, .log e => LogFile.day s ≤ e
  | .roll s, .roll t => s < t

instance : (m n : FileName) → Decidable (m.Before n)
  | .log d, .log e => inferInstanceAs (Decidable (d < e))
  | .log d, .roll t => inferInstanceAs (Decidable (d < LogFile.day t))
  | .roll s, .log e => inferInstanceAs (Decidable (LogFile.day s ≤ e))
  | .roll s, .roll t => inferInstanceAs (Decidable (s < t))

/-- The name can be given at the second `now` or before. -/
def NotAfter (now : ℤ) : FileName → Prop
  | .log d => d ≤ LogFile.day now
  | .roll t => t ≤ now

theorem day_mono {s t : ℤ} (h : s ≤ t) : LogFile.day s ≤ LogFile.day t :=
  Int.ediv_le_ediv (by decide) h

theorem NotAfter.mono {now later : ℤ} (h : now ≤ later) {n : FileName} (hn : n.NotAfter now) : n.NotAfter later := by
  cases n with
  | log d => exact le_trans hn (day_mono h)
  | roll t => exact le_trans hn h

theorem Before.ne {m n : FileName} (h : m.Before n) : m ≠ n := by
  rintro rfl
  cases m with
  | log d => exact lt_irrefl d h
  | roll t => exact lt_irrefl t h

/-- Nothing that exists comes after the `.log` file of today. -/
theorem NotAfter.not_before_log {now : ℤ} {n : FileName} (hn : n.NotAfter now) :
    ¬(FileName.log (LogFile.day now)).Before n := by
  intro h
  cases n with
  | log d => exact absurd (lt_of_lt_of_le h hn) (lt_irrefl _)
  | roll t => exact absurd (lt_of_lt_of_le h (day_mono hn)) (lt_irrefl _)

theorem NotAfter.before_log {now : ℤ} {n : FileName} (hn : n.NotAfter now) (hne : n ≠ .log (LogFile.day now)) :
    n.Before (.log (LogFile.day now)) := by
  cases n with
  | log d => exact lt_of_le_of_ne hn fun hd => hne (congrArg FileName.log hd)
  | roll t => exact day_mono hn

theorem Before.roll {now : ℤ} {n : FileName} (h : n.Before (.log (LogFile.day now))) (hn : n.NotAfter now)
    (hne : n ≠ .roll now) : n.Before (.roll now) := by
  cases n with
  | log d => exact h
  | roll t => exact lt_of_le_of_ne hn fun ht => hne (congrArg FileName.roll ht)

end FileName

namespace LogFile

variable {α : Type}

/-- The directory, file after file as they were written. -/
structure Listing (disk : LogDisk α) (now : ℤ) (entries : List (FileName × ℕ)) : Prop where
  sorted : entries.Pairwise fun a b => a.1.Before b.1
  dir : ∀ n i, disk.dir n = some i ↔ (n, i) ∈ entries
  past : ∀ e ∈ entries, e.1.NotAfter now

def contents (disk : LogDisk α) (entries : List (FileName × ℕ)) : List α :=
  (entries.map fun e => disk.content e.2).flatten

section Listings

variable {disk : LogDisk α} {now : ℤ} {entries : List (FileName × ℕ)} {n : FileName} {i : ℕ}

theorem Listing.mono (h : Listing disk now entries) {later : ℤ} (hlater : now ≤ later) : Listing disk later entries :=
  { h with past := fun e he => (h.past e he).mono hlater }

theorem Listing.inode_ne (h : Listing disk now entries) {a b : FileName × ℕ} (ha : a ∈ entries) (hb : b ∈ entries)
    (hne : a.1 ≠ b.1) : a.2 ≠ b.2 := by
  intro hi
  have hdir : disk.dir a.1 = some a.2 := (h.dir a.1 a.2).mpr ha
  rw [hi] at hdir
  exact hne (disk.unlinked a.1 b.1 b.2 hdir ((h.dir b.1 b.2).mpr hb))

theorem Listing.before_last (h : Listing disk now (entries ++ [(n, i)])) {e : FileName × ℕ} (he : e ∈ entries) :
    e.1.Before n :=
  (List.pairwise_append.mp h.sorted).2.2 e he (n, i) (List.mem_singleton_self _)

theorem Listing.write (h : Listing disk now entries) (i : ℕ) (bytes : List α) : Listing (disk.write i bytes) now entries :=
  ⟨h.sorted, h.dir, h.past⟩

theorem contents_append (l m : List (FileName × ℕ)) : contents disk (l ++ m) = contents disk l ++ contents disk m := by
  rw [contents, List.map_append, List.flatten_append]
  rfl

theorem contents_singleton (e : FileName × ℕ) : contents disk [e] = disk.content e.2 := List.append_nil _

theorem contents_write_other {l : List (FileName × ℕ)} (hl : ∀ e ∈ l, e.2 ≠ i) (bytes : List α) :
    contents (disk.write i bytes) l = contents disk l := by
  unfold contents
  congr 1
  exact List.map_congr_left fun e he => disk.content_write_other i bytes (hl e he)

/-- What is written to one file of the directory stands behind what this file held. -/
theorem Listing.contents_write {after : List (FileName × ℕ)} (h : Listing disk now (entries ++ [(n, i)] ++ after))
    (bytes : List α) : contents (disk.write i bytes) (entries ++ [(n, i)] ++ after) =
      contents disk (entries ++ [(n, i)]) ++ bytes ++ contents disk after := by
  have hmem : (n, i) ∈ entries ++ [(n, i)] ++ after := by simp
  have hi : i < disk.inodes.length := disk.allocated n i ((h.dir n i).mpr hmem)
  obtain ⟨hleft, -, hright⟩ := List.pairwise_append.mp h.sorted
  have hentries : ∀ e ∈ entries, e.2 ≠ i := by
    intro e he
    have hbefore := (List.pairwise_append.mp hleft).2.2 e he (n, i) (List.mem_singleton_self _)
    exact h.inode_ne (by simp [he]) hmem hbefore.ne
  have hafter : ∀ e ∈ after, e.2 ≠ i := by
    intro e he
    exact (h.inode_ne hmem (by simp [he]) (hright (n, i) (by simp) e he).ne).symm
  rw [contents_append, contents_append, contents_write_other hentries, contents_write_other hafter, contents_singleton,
    contents_append, contents_singleton, disk.content_write_self i bytes hi, List.append_assoc, List.append_assoc,
    List.append_assoc, List.append_assoc]

/-- Only the last file of the list can be the `.log` file of today. -/
theorem Listing.log_last (h : Listing disk now (entries ++ [(n, i)])) {j : ℕ} (hj : disk.dir (.log (day now)) = some j) :
    n = .log (day now) ∧ j = i := by
  have hmem := (h.dir _ j).mp hj
  rcases List.mem_append.mp hmem with hmem | hmem
  · have hlast : n.NotAfter now := h.past (n, i) (by simp)
    exact absurd (h.before_last hmem) hlast.not_before_log
  · obtain ⟨hn, hi⟩ := Prod.mk.inj (List.mem_singleton.mp hmem)
    exact ⟨hn.symm, hi⟩

theorem contents_rename (old new : FileName) (l : List (FileName × ℕ)) :
    contents (disk.rename old new) l = contents disk l := by
  unfold contents
  congr 1
  exact List.map_congr_left fun e _ => disk.content_rename old new e.2

/-- A roll gives the last file the name of the second, if it is the file of the day. -/
theorem Listing.rename (h : Listing disk now (entries ++ [(n, i)]))
    (hfree : disk.dir (.log (day now)) = none ∨ disk.dir (.roll now) = none) :
    ∃ m, Listing (disk.rename (.log (day now)) (.roll now)) now (entries ++ [(m, i)]) := by
  cases hlog : disk.dir (.log (day now)) with
  | none =>
    rw [disk.rename_missing _ _ hlog]
    exact ⟨n, h⟩
  | some j =>
    obtain ⟨rfl, rfl⟩ := h.log_last hlog
    have hroll : disk.dir (.roll now) = none := hfree.resolve_left (by simp [hlog])
    have hnew : ∀ e ∈ entries, e.1 ≠ .roll now := by
      intro e he heq
      have hin := (h.dir e.1 e.2).mpr (List.mem_append_left _ he)
      rw [heq, hroll] at hin
      cases hin
    refine ⟨.roll now, ?_, ?_, ?_⟩
    · refine List.pairwise_append.mpr ⟨(List.pairwise_append.mp h.sorted).1, List.pairwise_singleton _ _, ?_⟩
      intro e he b hb
      rw [List.mem_singleton.mp hb]
      exact (h.before_last he).roll (h.past e (List.mem_append_left _ he)) (hnew e he)
    · intro m k
      rw [disk.rename_dir _ _ hlog, List.mem_append, List.mem_singleton, Prod.mk.injEq]
      by_cases hm : m = .roll now
      · subst hm
        rw [if_pos rfl, Option.some.injEq]
        constructor
        · rintro rfl
          exact Or.inr ⟨rfl, rfl⟩
        · rintro (hmem | ⟨-, rfl⟩)
          · exact absurd rfl (hnew _ hmem)
          · rfl
      · rw [if_neg hm]
        by_cases hm' : m = .log (day now)
        · subst hm'
          rw [if_pos rfl]
          refine iff_of_false (by simp) ?_
          rintro (hmem | ⟨hm'', -⟩)
          · exact (h.before_last hmem).ne rfl
          · exact hm hm''
        · rw [if_neg hm', h.dir, List.mem_append, List.mem_singleton, Prod.mk.injEq]
          exact or_congr_right (iff_of_false (fun hmk => hm' hmk.1) fun hmk => hm hmk.1)
    · intro e he
      rcases List.mem_append.mp he with he | he
      · exact h.past e (List.mem_append_left _ he)
      · rw [List.mem_singleton.mp he]
        exact le_refl now

/-- The file of the day is made anew and comes last. -/
theorem Listing.opened (h : Listing disk now entries) (hlog : disk.dir (.log (day now)) = none) :
    Listing (disk.openAppend (.log (day now))).1 now (entries ++ [(.log (day now), (disk.openAppend (.log (day now))).2)]) := by
  have hnew : ∀ e ∈ entries, e.1 ≠ .log (day now) := by
    intro e he heq
    have hin := (h.dir e.1 e.2).mpr he
    rw [heq, hlog] at hin
    cases hin
  refine ⟨?_, ?_, ?_⟩
  · refine List.pairwise_append.mpr ⟨h.sorted, List.pairwise_singleton _ _, ?_⟩
    intro e he b hb
    rw [List.mem_singleton.mp hb]
    exact (h.past e he).before_log (hnew e he)
  · intro m k
    rw [disk.openAppend_dir, List.mem_append, List.mem_singleton, Prod.mk.injEq]
    by_cases hm : m = .log (day now)
    · rw [if_pos hm, Option.some.injEq]
      constructor
      · rintro rfl
        exact Or.inr ⟨hm, rfl⟩
      · rintro (hmem | ⟨-, rfl⟩)
        · exact absurd hm (hnew _ hmem)
        · rfl
    · rw [if_neg hm, h.dir]
      exact ⟨Or.inl, fun hmk => hmk.resolve_right fun hmk => hm hmk.1⟩
  · intro e he
    rcases List.mem_append.mp he with he | he
    · exact h.past e he
    · rw [List.mem_singleton.mp he]
      exact le_refl (day now)

theorem contents_openAppend (name : FileName) (l : List (FileName × ℕ)) :
    contents (disk.openAppend name).1 l = contents disk l := by
  unfold contents
  congr 1
  exact List.map_congr_left fun e _ => disk.content_openAppend name e.2

theorem content_opened {name : FileName} (h : disk.dir name = none) : disk.content (disk.openAppend name).2 = [] := by
  rw [disk.openAppend_new _ h, Disk.content, List.getD, List.getElem?_eq_none (Nat.le_refl _)]
  rfl

end Listings

/-- The files as they were written, and then the buffer of the one that is open, hold the log. -/
def InOrder (now : ℤ) (bytes : List α) (disk : LogDisk α) (f : AppendFile α) : Prop :=
  ∃ entries n, Listing disk now (entries ++ [(n, f.inode)]) ∧
    contents disk (entries ++ [(n, f.inode)]) ++ f.buffer = bytes

namespace InOrder

variable {disk : LogDisk α} {now : ℤ} {bytes : List α} {f : AppendFile α}

theorem mono (h : InOrder now bytes disk f) {later : ℤ} (hlater : now ≤ later) : InOrder later bytes disk f := by
  obtain ⟨entries, n, hl, hbytes⟩ := h
  exact ⟨entries, n, hl.mono hlater, hbytes⟩

theorem push (h : InOrder now bytes disk f) (line : List α) (k : ℕ) (f' : AppendFile α)
    (hi : f'.inode = f.inode) (hb : f'.buffer = (f.buffer ++ line).drop k) :
    InOrder now (bytes ++ line) (disk.write f.inode ((f.buffer ++ line).take k)) f' := by
  obtain ⟨entries, n, hl, hbytes⟩ := h
  refine ⟨entries, n, ?_, ?_⟩
  · rw [hi]
    exact hl.write _ _
  · rw [← List.append_nil (entries ++ _)] at hl
    have hwrite := hl.contents_write ((f.buffer ++ line).take k)
    rw [List.append_nil, show contents disk [] = [] from rfl, List.append_nil] at hwrite
    rw [hi, hwrite, hb, List.append_assoc, List.take_append_drop, ← List.append_assoc, hbytes]

theorem flush (h : InOrder now bytes disk f) : InOrder now bytes (f.flush disk).1 (f.flush disk).2 := by
  have hp := h.push [] f.buffer.length (f.flush disk).2 rfl (by simp [AppendFile.flush])
  simpa [AppendFile.flush] using hp

theorem append (h : InOrder now bytes disk f) {line : List α} {w : Fwrite} (hw : line.length ≤ w.accepted)
    (retries : List Fwrite) :
    InOrder now (bytes ++ line) (f.append disk line w retries).1 (f.append disk line w retries).2 := by
  rw [AppendFile.append_eq f disk hw retries]
  exact h.push line w.spill _ rfl rfl

theorem getLogFileName (h : InOrder now bytes disk f) {isRoll : Bool}
    (hfree : isRoll = true → disk.dir (.log (day now)) = none ∨ disk.dir (.roll now) = none) :
    InOrder now bytes (LogFile.getLogFileName disk now isRoll).1 f := by
  obtain ⟨entries, n, hl, hbytes⟩ := h
  cases isRoll with
  | false => exact ⟨entries, n, hl, hbytes⟩
  | true =>
    obtain ⟨m, hl'⟩ := hl.rename (hfree rfl)
    refine ⟨entries, m, hl', ?_⟩
    change contents (disk.rename (.log (day now)) (.roll now)) (entries ++ [(m, f.inode)]) ++ f.buffer = bytes
    rw [contents_rename, ← hbytes]
    simp [contents]

/-- The file of the day is new, and then the rest of the old one is written behind its back; or it is the old one. -/
theorem reset (h : InOrder now bytes disk f) :
    InOrder now bytes (LogFile.reset (some f) disk (.log (day now))).1 (LogFile.reset (some f) disk (.log (day now))).2 := by
  cases hlog : disk.dir (.log (day now)) with
  | none =>
    obtain ⟨entries, n, hl, hbytes⟩ := h
    have hopen := hl.opened hlog
    have hwrite := hopen.contents_write f.buffer
    rw [contents_openAppend, contents_openAppend, contents_singleton, content_opened hlog, List.append_nil, hbytes]
      at hwrite
    exact ⟨entries ++ [(n, f.inode)], .log (day now), hopen.write _ _, (List.append_nil _).trans hwrite⟩
  | some j =>
    obtain ⟨entries, n, hl, -⟩ := id h
    obtain ⟨-, rfl⟩ := hl.log_last hlog
    have hp := h.push [] f.buffer.length ⟨f.inode, [], 0⟩ rfl (by simp)
    rw [reset_open hlog]
    simpa using hp

end InOrder

/-- The invariant. -/
def Chronicle (now : ℤ) (bytes : List α) (s : LogFile α) : Prop := ∃ f, s.file = some f ∧ InOrder now bytes s.disk f

section Steps

variable {now : ℤ} {bytes : List α} {s t : LogFile α}

theorem create_chronicle (rollSize flushInterval checkEveryN : ℤ) (h : 0 < now) :
    Chronicle now ([] : List α) (create Disk.empty rollSize flushInterval checkEveryN now) := by
  have hnone : Listing (Disk.empty : LogDisk α) now [] := ⟨.nil, by simp [Disk.empty], by simp⟩
  have hl := hnone.opened rfl
  obtain ⟨hf, hd⟩ := rollFile_opens (s := { rollSize, flushInterval, checkEveryN, disk := Disk.empty (α := α) }) h false
  refine ⟨_, hf, [], .log (day now), ?_, ?_⟩
  · rw [create, hd]
    exact hl
  · rw [create, hd]
    obtain ⟨disk, hdisk⟩ : ∃ disk, disk = (Disk.empty : LogDisk α) := ⟨_, rfl⟩
    rw [← hdisk]
    change contents (disk.openAppend (.log (day now))).1 [(.log (day now), (disk.openAppend (.log (day now))).2)] ++ [] = []
    rw [List.append_nil, contents_openAppend, contents_singleton]
    exact content_opened (by rw [hdisk]; rfl)

theorem rollFile_chronicle (h : Chronicle now bytes s) {isRoll : Bool} (hr : s.RollsFree (.rollFile now isRoll)) :
    Chronicle now bytes (s.rollFile now isRoll) := by
  obtain ⟨f, hf, hs⟩ := h
  have hname := hs.getLogFileName hr.free
  by_cases hnow : s.lastRoll < now
  · obtain ⟨hf', hd⟩ := rollFile_opens hnow isRoll
    refine ⟨_, hf', ?_⟩
    rw [hd, hf]
    exact hname.reset
  · obtain ⟨hf', hd⟩ := rollFile_stays hnow isRoll
    refine ⟨f, hf'.trans hf, ?_⟩
    rw [hd]
    exact hname

theorem append_chronicle (h : Chronicle now bytes s) {line : List α} {w : Fwrite} {retries : List Fwrite}
    {first second : ℤ} (hfirst : now ≤ first) (hsecond : first ≤ second)
    (ha : s.RollsFree (.append line w retries first second)) (hs : s.append line w retries first second = .ok t) :
    Chronicle second (bytes ++ line) t := by
  obtain ⟨f, hf, hin⟩ := h
  obtain ⟨hw, hroll⟩ := ha
  have hin' := (hin.mono hfirst).append hw retries
  rw [AppendFile.append_eq f s.disk hw retries] at hin'
  simp only [rollTime, hf] at hroll
  have hlater : ∀ {u : LogFile α}, Chronicle first (bytes ++ line) u → Chronicle second (bytes ++ line) u := by
    rintro u ⟨g, hg, hu⟩
    exact ⟨g, hg, hu.mono hsecond⟩
  unfold LogFile.append at hs
  rw [hf] at hs
  dsimp only at hs
  rw [AppendFile.append_eq f s.disk hw retries] at hs
  by_cases h1 : s.rollSize < f.writtenBytes + line.length
  · rw [if_pos h1] at hroll hs
    obtain rfl := Except.ok.inj hs
    exact hlater (rollFile_chronicle ⟨_, rfl, hin'⟩ (.of_roll (hroll first rfl)))
  rw [if_neg h1] at hroll hs
  by_cases h2 : s.checkEveryN ≤ s.count + 1
  · rw [if_pos h2] at hs
    by_cases h3 : period first ≠ s.startOfPeriod
    · rw [if_pos ⟨h2, h3⟩] at hroll
      rw [if_pos h3] at hs
      obtain rfl := Except.ok.inj hs
      exact rollFile_chronicle ⟨_, rfl, hin'.mono hsecond⟩ (.of_roll (hroll second rfl))
    · rw [if_neg h3] at hs
      by_cases h4 : s.flushInterval < first - s.lastFlush
      · rw [if_pos h4] at hs
        obtain rfl := Except.ok.inj hs
        exact hlater ⟨_, rfl, hin'.flush⟩
      · rw [if_neg h4] at hs
        obtain rfl := Except.ok.inj hs
        exact hlater ⟨_, rfl, hin'⟩
  · rw [if_neg h2] at hs
    obtain rfl := Except.ok.inj hs
    exact hlater ⟨_, rfl, hin'⟩

theorem step_chronicle (h : Chronicle now bytes s) {i : Step α} (hclock : (now :: readings [i]).Pairwise (· ≤ ·))
    (ha : s.RollsFree i) (hs : s.step i = .ok t) :
    ∃ later ∈ now :: readings [i], Chronicle later (bytes ++ appended [i]) t := by
  cases i with
  | append line w retries first second =>
    simp only [readings, List.pairwise_cons, List.mem_cons, List.not_mem_nil, or_false, forall_eq_or_imp, forall_eq] at hclock
    simp only [readings, appended, List.append_nil]
    exact ⟨second, by simp, append_chronicle h hclock.1.1 hclock.2.1 ha hs⟩
  | flush =>
    obtain ⟨f, hf, hin⟩ := h
    simp only [LogFile.step, flush, hf] at hs
    obtain rfl := Except.ok.inj hs
    simp only [readings, appended, List.append_nil]
    exact ⟨now, by simp, _, rfl, hin.flush⟩
  | rollFile later isRoll =>
    obtain ⟨f, hf, hin⟩ := h
    simp only [readings, List.pairwise_cons, List.mem_cons, List.not_mem_nil, or_false, forall_eq] at hclock
    obtain rfl := Except.ok.inj hs
    simp only [readings, appended, List.append_nil]
    exact ⟨later, by simp, rollFile_chronicle ⟨f, hf, hin.mono hclock.1⟩ ha⟩

end Steps

/-- If the clock never goes back, the log is what the files of the directory hold, taken in the order of their names,
and after them what the open file still has in its buffer. -/
theorem reassembled (rollSize flushInterval checkEveryN : ℤ) {start : ℤ} (hstart : 0 < start) {is : List (Step α)}
    (hclock : (start :: readings is).Pairwise (· ≤ ·)) {s : LogFile α}
    (h : Path step RollsFree (create Disk.empty rollSize flushInterval checkEveryN start) is s) :
    ∃ names : List FileName, names.Pairwise FileName.Before ∧ (∀ n, n ∈ names ↔ (s.disk.dir n).isSome = true) ∧
      (names.map fun n => ((s.disk.dir n).map s.disk.content).getD []).flatten ++ s.buffered = appended is := by
  have hchronicle : ∃ now ∈ start :: readings is, Chronicle now (appended is) s := by
    induction h with
    | nil => exact ⟨start, List.mem_singleton_self _, create_chronicle rollSize flushInterval checkEveryN hstart⟩
    | @snoc is t u i hp ha hs ih =>
      rw [readings_append, ← List.cons_append] at hclock ⊢
      obtain ⟨hbefore, hafter, hcross⟩ := List.pairwise_append.mp hclock
      obtain ⟨now, hnow, hin⟩ := ih hbefore
      obtain ⟨later, hlater, hstep⟩ := step_chronicle hin (List.pairwise_cons.mpr ⟨hcross now hnow, hafter⟩) ha hs
      rw [appended_append]
      refine ⟨later, ?_, hstep⟩
      rcases List.mem_cons.mp hlater with rfl | hlater
      · exact List.mem_append_left _ hnow
      · exact List.mem_append_right _ hlater
  obtain ⟨now, -, f, hf, entries, n, hl, hbytes⟩ := hchronicle
  refine ⟨(entries ++ [(n, f.inode)]).map Prod.fst, ?_, fun m => ?_, ?_⟩
  · rw [List.pairwise_map]
    exact hl.sorted
  · rw [List.mem_map, Option.isSome_iff_exists]
    constructor
    · rintro ⟨e, he, rfl⟩
      exact ⟨e.2, (hl.dir e.1 e.2).mpr he⟩
    · rintro ⟨i, hi⟩
      exact ⟨(m, i), (hl.dir m i).mp hi, rfl⟩
  · have hbuffered : s.buffered = f.buffer := by rw [buffered, hf]
    rw [hbuffered, ← hbytes, contents, List.map_map]
    congr 2
    refine List.map_congr_left fun e he => ?_
    dsimp only [Function.comp]
    rw [(hl.dir e.1 e.2).mpr he]
    rfl

/-- Two rolls by size, one of them when the day is over, between them the open file opened again, and the rest
in the buffer. -/
theorem reassembled_two_days :
    let is : List (Step ℕ) := [.append [1, 2, 3, 4] ⟨4, 4⟩ [] 10 10, .append [5] ⟨1, 0⟩ [] 11 11,
      .rollFile 12 false, .append [6, 7, 8, 8] ⟨4, 2⟩ [] 86400 86400, .append [9] ⟨1, 0⟩ [] 86401 86401]
    ∃ s, Path step RollsFree (create (Disk.empty : LogDisk ℕ) 3 3 100 5) is s ∧
      (s.disk.dir (.roll 10)).isSome = true ∧ (s.disk.dir (.log 0)).isSome = true ∧ (s.disk.dir (.log 1)).isSome = true ∧
      ∃ names : List FileName, names.Pairwise FileName.Before ∧ (∀ n, n ∈ names ↔ (s.disk.dir n).isSome = true) ∧
        (names.map fun n => ((s.disk.dir n).map s.disk.content).getD []).flatten ++ s.buffered =
          [1, 2, 3, 4, 5, 6, 7, 8, 8, 9] := by
  intro is
  obtain ⟨s, hs, hp⟩ := Path.exists_of_any step RollsFree (create (Disk.empty : LogDisk ℕ) 3 3 100 5) is
    (fun s => (s.disk.dir (.roll 10)).isSome && (s.disk.dir (.log 0)).isSome && (s.disk.dir (.log 1)).isSome)
    (by decide +kernel)
  obtain ⟨hp, hlater⟩ := Bool.and_eq_true_iff.mp hp
  obtain ⟨hroll, hlog⟩ := Bool.and_eq_true_iff.mp hp
  exact ⟨s, hs, hroll, hlog, hlater, reassembled 3 3 100 (by decide) (by decide) hs⟩

end LogFile

end Networker
