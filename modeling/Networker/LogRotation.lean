import Networker.LogFileModel

/-!
What rotation keeps. The bytes appended lie in order in the files that `file_` has
been opened on, and the rest in the buffer of `file_`. A `.roll` name has only the
second in it, so a second roll within one second renames onto the first.
-/

namespace Networker

open CheckedRuns

/-- When `fwrite` takes the whole line, the loop of `append` has nothing to do. -/
theorem AppendFile.append_eq {α : Type} (f : AppendFile α) (disk : LogDisk α) {line : List α} {w : Fwrite}
    (h : line.length ≤ w.accepted) (retries : List Fwrite) :
    f.append disk line w retries = (disk.write f.inode ((f.buffer ++ line).take w.spill),
      ⟨f.inode, (f.buffer ++ line).drop w.spill, f.writtenBytes + line.length⟩) := by
  simp only [append, write, List.take_of_length_le h, Nat.min_eq_right h, List.drop_length, appendRest]

namespace LogFile

variable {α : Type}

/-- The second at which an operation rolls the file, if it does. -/
def rollTime (s : LogFile α) : Step α → Option ℤ
  | .append logline _ _ now now' =>
    match s.file with
    | none => none
    | some f =>
      if s.rollSize < f.writtenBytes + logline.length then some now
      else if s.checkEveryN ≤ s.count + 1 ∧ period now ≠ s.startOfPeriod then some now'
      else none
  | .flush => none
  | .rollFile now isRoll => if isRoll then some now else none

/-- Every write succeeds: `fwrite` takes the whole line. -/
def Succeeds : Step α → Prop
  | .append logline w _ _ _ => logline.length ≤ w.accepted
  | .flush => True
  | .rollFile _ _ => True

instance : (i : Step α) → Decidable (Succeeds i)
  | .append _ _ _ _ _ => inferInstanceAs (Decidable (_ ≤ _))
  | .flush => inferInstanceAs (Decidable True)
  | .rollFile _ _ => inferInstanceAs (Decidable True)

/-- A roll finds no `.roll` file in the place where it moves the `.log` file of the day. -/
def RollsFree (s : LogFile α) (i : Step α) : Prop :=
  Succeeds i ∧ ∀ now ∈ s.rollTime i, s.disk.dir (.log (day now)) = none ∨ s.disk.dir (.roll now) = none

instance (s : LogFile α) (i : Step α) : Decidable (s.RollsFree i) := inferInstanceAs (Decidable (_ ∧ _))

/-- Where `rollFile` opens the `.log` file of the day without a roll, there is no such file or it is the one
already open. -/
def Opens (s : LogFile α) : Step α → Prop
  | .rollFile now false =>
    s.lastRoll < now →
      s.disk.dir (.log (day now)) = none ∨ s.disk.dir (.log (day now)) = s.file.map AppendFile.inode
  | _ => True

instance (s : LogFile α) : (i : Step α) → Decidable (s.Opens i)
  | .append _ _ _ _ _ => inferInstanceAs (Decidable True)
  | .flush => inferInstanceAs (Decidable True)
  | .rollFile _ true => inferInstanceAs (Decidable True)
  | .rollFile _ false => inferInstanceAs (Decidable (_ → _))

def appended : List (Step α) → List α
  | [] => []
  | .append logline _ _ _ _ :: is => logline ++ appended is
  | .flush :: is => appended is
  | .rollFile _ _ :: is => appended is

def readings : List (Step α) → List ℤ
  | [] => []
  | .append _ _ _ now now' :: is => now :: now' :: readings is
  | .flush :: is => readings is
  | .rollFile now _ :: is => now :: readings is

theorem appended_append (is js : List (Step α)) : appended (is ++ js) = appended is ++ appended js := by
  induction is with
  | nil => rfl
  | cons i is ih => cases i <;> simp [appended, ih]

theorem readings_append (is js : List (Step α)) : readings (is ++ js) = readings is ++ readings js := by
  induction is with
  | nil => rfl
  | cons i is ih => cases i <;> simp [readings, ih]

/-- The file that is open is opened again: its buffer goes out, and the count of bytes starts anew. -/
theorem reset_open {f : AppendFile α} {disk : LogDisk α} {filename : FileName} (h : disk.dir filename = some f.inode) :
    reset (some f) disk filename = (disk.write f.inode f.buffer, ⟨f.inode, [], 0⟩) := by
  simp only [reset, AppendFile.create, disk.openAppend_existing filename h, AppendFile.flush]

def buffered (s : LogFile α) : List α :=
  match s.file with
  | none => []
  | some f => f.buffer

/-- The bytes appended since the disk was `disk₀` are in the files listed, each after what the file held
then, and at the end in the buffer; the last of these files is the one `file_` writes to, and those that
are no `.roll` files are `.log` files of the days the clock has shown. Earlier files are all there, and
what is not listed is as it was. -/
def Kept (disk₀ : LogDisk α) (clock : List ℤ) (bytes : List α) (s : LogFile α) : Prop :=
  ∃ files : List (FileName × List α),
    (files.map Prod.fst).Nodup ∧
    (∀ x ∈ files, ∃ i, s.disk.dir x.1 = some i ∧ s.disk.content i = disk₀.content i ++ x.2) ∧
    (files.map Prod.snd).flatten ++ s.buffered = bytes ∧
    (∃ x f, files.getLast? = some x ∧ s.file = some f ∧ s.disk.dir x.1 = some f.inode) ∧
    (∀ x ∈ files, ∀ d, x.1 = .log d → d ∈ clock.map day) ∧
    (∀ i, disk₀.Named i → s.disk.Named i ∧ disk₀.content i <+: s.disk.content i) ∧
    (∀ i, (∀ x ∈ files, s.disk.dir x.1 ≠ some i) → s.disk.content i = disk₀.content i)

theorem Kept.mem_named {disk₀ : LogDisk α} {clock : List ℤ} {bytes : List α} {s : LogFile α}
    (h : Kept disk₀ clock bytes s) {b : α} (hb : b ∈ bytes) :
    b ∈ s.buffered ∨ ∃ i, s.disk.Named i ∧ b ∈ s.disk.content i := by
  obtain ⟨files, -, hfiles, hbytes, -⟩ := h
  rw [← hbytes, List.mem_append] at hb
  rcases hb with hb | hb
  · obtain ⟨text, htext, hb⟩ := List.mem_flatten.mp hb
    obtain ⟨x, hx, rfl⟩ := List.mem_map.mp htext
    obtain ⟨i, hi, hc⟩ := hfiles x hx
    refine Or.inr ⟨i, ⟨x.1, hi⟩, ?_⟩
    rw [hc]
    exact List.mem_append_right _ hb
  · exact Or.inl hb

/-- The names the files of the log may have. -/
def NameOn (clock : List ℤ) : FileName → Prop
  | .log d => d ∈ clock.map day
  | .roll _ => True

/-- The same with inodes for names: what the steps preserve. -/
def Spread (disk₀ : LogDisk α) (clock : List ℤ) (bytes : List α) (disk : LogDisk α) (f : AppendFile α) : Prop :=
  ∃ closed text, Disk.Layout (NameOn clock) disk₀ disk (closed ++ [(f.inode, text)]) ∧
    (closed.map Prod.snd).flatten ++ text ++ f.buffer = bytes

namespace Spread

variable {disk₀ disk : LogDisk α} {clock : List ℤ} {bytes : List α} {f : AppendFile α}

theorem mono (h : Spread disk₀ clock bytes disk f) (later : List ℤ) :
    Spread disk₀ (clock ++ later) bytes disk f := by
  obtain ⟨closed, text, hl, hb⟩ := h
  refine ⟨closed, text, hl.mono ?_, hb⟩
  intro n hn
  cases n with
  | log d =>
    rw [NameOn, List.map_append]
    exact List.mem_append_left _ hn
  | roll t => trivial

theorem push (h : Spread disk₀ clock bytes disk f) (line : List α) (k : ℕ) (f' : AppendFile α)
    (hi : f'.inode = f.inode) (hb : f'.buffer = (f.buffer ++ line).drop k) :
    Spread disk₀ clock (bytes ++ line) (disk.write f.inode ((f.buffer ++ line).take k)) f' := by
  obtain ⟨closed, text, hl, hbytes⟩ := h
  refine ⟨closed, text ++ (f.buffer ++ line).take k, ?_, ?_⟩
  · rw [hi]
    exact hl.write _
  · rw [hb, ← hbytes]
    simp only [List.append_assoc, List.take_append_drop]

theorem flush (h : Spread disk₀ clock bytes disk f) :
    Spread disk₀ clock bytes (f.flush disk).1 (f.flush disk).2 := by
  have hp := h.push [] f.buffer.length (f.flush disk).2 rfl (by simp [AppendFile.flush])
  simpa [AppendFile.flush] using hp

theorem append (h : Spread disk₀ clock bytes disk f) {line : List α} {w : Fwrite} (hw : line.length ≤ w.accepted)
    (retries : List Fwrite) :
    Spread disk₀ clock (bytes ++ line) (f.append disk line w retries).1 (f.append disk line w retries).2 := by
  rw [AppendFile.append_eq f disk hw retries]
  exact h.push line w.spill _ rfl rfl

theorem getLogFileName (h : Spread disk₀ clock bytes disk f) {now : ℤ} {isRoll : Bool}
    (hr : isRoll = true → disk.dir (.log (day now)) = none ∨ disk.dir (.roll now) = none) :
    Spread disk₀ clock bytes (getLogFileName disk now isRoll).1 f := by
  obtain ⟨closed, text, hl, hb⟩ := h
  cases isRoll with
  | false => exact ⟨closed, text, hl, hb⟩
  | true => exact ⟨closed, text, hl.rename (hr rfl) trivial, hb⟩

theorem reset (h : Spread disk₀ clock bytes disk f) {d : ℤ}
    (hn : disk.dir (.log d) = none ∨ disk.dir (.log d) = some f.inode) (hd : d ∈ clock.map day) :
    Spread disk₀ clock bytes (reset (some f) disk (.log d)).1 (reset (some f) disk (.log d)).2 := by
  rcases hn with hn | hn
  · obtain ⟨closed, text, hl, hb⟩ := h
    have ho := hl.opened hn hd
    rw [List.append_assoc] at ho
    refine ⟨closed ++ [(f.inode, text ++ f.buffer)], [], ?_, ?_⟩
    · rw [List.append_assoc]
      exact ho.write f.buffer
    · simp [LogFile.reset, AppendFile.create, ← hb]
  · have hp := h.push [] f.buffer.length ⟨f.inode, [], 0⟩ rfl (by simp)
    rw [reset_open hn]
    simpa using hp

theorem kept {s : LogFile α} (h : Spread disk₀ clock bytes s.disk f) (hf : s.file = some f) :
    Kept disk₀ clock bytes s := by
  obtain ⟨closed, text, hl, hb⟩ := h
  have hname : ∀ x : ℕ × List α, ∃ n, x ∈ closed ++ [(f.inode, text)] → s.disk.dir n = some x.1 := by
    intro x
    by_cases hx : x ∈ closed ++ [(f.inode, text)]
    · obtain ⟨n, hn⟩ := hl.named x hx
      exact ⟨n, fun _ => hn⟩
    · exact ⟨.roll 0, fun h => absurd h hx⟩
  choose name hname using hname
  refine ⟨(closed ++ [(f.inode, text)]).map fun x => (name x, x.2), ?_, ?_, ?_, ?_, ?_, ?_, ?_⟩
  · rw [List.map_map]
    refine List.Nodup.map_on ?_ (List.Nodup.of_map Prod.fst hl.nodup)
    intro x hx y hy hxy
    have hfst : x.1 = y.1 := by
      have hd := (hname x hx).symm.trans ((congrArg s.disk.dir hxy).trans (hname y hy))
      exact Option.some.inj hd
    exact List.inj_on_of_nodup_map hl.nodup hx hy hfst
  · intro y hy
    obtain ⟨x, hx, rfl⟩ := List.mem_map.mp hy
    exact ⟨x.1, hname x hx, hl.holds x hx⟩
  · simp [buffered, hf, ← hb, Function.comp_def]
  · refine ⟨(name (f.inode, text), text), f, by simp, hf, ?_⟩
    exact hname (f.inode, text) (by simp)
  · intro y hy d hd
    obtain ⟨x, hx, rfl⟩ := List.mem_map.mp hy
    have hok := hl.names x hx _ (hname x hx)
    rw [show name x = .log d from hd] at hok
    exact hok
  · exact fun i hi => ⟨hl.kept i hi, hl.content_isPrefix i⟩
  · intro i hi
    refine hl.others i fun hmem => ?_
    obtain ⟨x, hx, rfl⟩ := List.mem_map.mp hmem
    exact hi (name x, x.2) (List.mem_map_of_mem (f := fun x => (name x, x.2)) hx) (hname x hx)

end Spread

/-- The invariant: there is a file, and the log is spread over the files opened so far. -/
def Logging (disk₀ : LogDisk α) (clock : List ℤ) (bytes : List α) (s : LogFile α) : Prop :=
  ∃ f, s.file = some f ∧ Spread disk₀ clock bytes s.disk f

section Steps

variable {disk₀ : LogDisk α} {clock : List ℤ} {bytes : List α} {s t : LogFile α}

theorem rollFile_opens {now : ℤ} (h : s.lastRoll < now) (isRoll : Bool) :
    (s.rollFile now isRoll).file = some (reset s.file (getLogFileName s.disk now isRoll).1 (.log (day now))).2 ∧
      (s.rollFile now isRoll).disk = (reset s.file (getLogFileName s.disk now isRoll).1 (.log (day now))).1 := by
  simp only [rollFile, if_pos h, getLogFileName, and_self]

theorem rollFile_stays {now : ℤ} (h : ¬s.lastRoll < now) (isRoll : Bool) :
    (s.rollFile now isRoll).file = s.file ∧
      (s.rollFile now isRoll).disk = (getLogFileName s.disk now isRoll).1 := by
  simp only [rollFile, if_neg h, and_self]

theorem RollsFree.free {now : ℤ} {isRoll : Bool} (h : s.RollsFree (.rollFile now isRoll)) (hr : isRoll = true) :
    s.disk.dir (.log (day now)) = none ∨ s.disk.dir (.roll now) = none :=
  h.2 now (by rw [rollTime, if_pos hr]; rfl)

/-- A roll that `append` makes. -/
theorem RollsFree.of_roll {now : ℤ} (h : s.disk.dir (.log (day now)) = none ∨ s.disk.dir (.roll now) = none) :
    s.RollsFree (.rollFile now true) := by
  refine ⟨trivial, fun t ht => ?_⟩
  cases ht
  exact h

theorem create_logging (disk₀ : LogDisk α) (rollSize flushInterval checkEveryN : ℤ) {now : ℤ} (h : 0 < now) :
    Logging disk₀ [now] [] (create disk₀ rollSize flushInterval checkEveryN now) := by
  have hl := Disk.Layout.first (NameOn [now]) disk₀ (.log (day now)) (List.mem_singleton.mpr rfl)
  obtain ⟨hf, hd⟩ := rollFile_opens (s := { rollSize, flushInterval, checkEveryN, disk := disk₀ }) h false
  refine ⟨_, hf, [], [], ?_, rfl⟩
  rw [create, hd]
  exact hl

theorem rollFile_logging (h : Logging disk₀ clock bytes s) {now : ℤ} {isRoll : Bool}
    (hr : s.RollsFree (.rollFile now isRoll)) (ho : s.Opens (.rollFile now isRoll)) (hc : now ∈ clock) :
    Logging disk₀ clock bytes (s.rollFile now isRoll) := by
  obtain ⟨f, hf, hs⟩ := h
  have hname := hs.getLogFileName hr.free
  by_cases hnow : s.lastRoll < now
  · obtain ⟨hf', hd⟩ := rollFile_opens hnow isRoll
    refine ⟨_, hf', ?_⟩
    rw [hd, hf]
    refine hname.reset ?_ (List.mem_map_of_mem hc)
    cases isRoll with
    | false =>
      rw [Opens, hf] at ho
      exact ho hnow
    | true => exact Or.inl (Disk.rename_source _ _ _ (by simp))
  · -- the file may have been renamed but stays open
    obtain ⟨hf', hd⟩ := rollFile_stays hnow isRoll
    refine ⟨f, hf'.trans hf, ?_⟩
    rw [hd]
    exact hname

theorem flush_logging (h : Logging disk₀ clock bytes s) : ∃ t, s.flush = .ok t ∧ Logging disk₀ clock bytes t := by
  obtain ⟨f, hf, hs⟩ := h
  refine ⟨_, by rw [flush, hf], _, rfl, hs.flush⟩

theorem append_logging (h : Logging disk₀ clock bytes s) {line : List α} {w : Fwrite} {retries : List Fwrite}
    {now now' : ℤ} (ha : s.RollsFree (.append line w retries now now')) :
    ∃ t, s.append line w retries now now' = .ok t ∧
      Logging disk₀ (clock ++ [now, now']) (bytes ++ line) t := by
  obtain ⟨f, hf, hs⟩ := h
  obtain ⟨hw, hroll⟩ := ha
  have hs' := (hs.mono [now, now']).append hw retries
  rw [AppendFile.append_eq f s.disk hw retries] at hs'
  simp only [rollTime, hf] at hroll
  unfold append
  rw [hf]
  dsimp only
  rw [AppendFile.append_eq f s.disk hw retries]
  by_cases h1 : s.rollSize < f.writtenBytes + line.length
  · rw [if_pos h1] at hroll ⊢
    exact ⟨_, rfl, rollFile_logging ⟨_, rfl, hs'⟩ (.of_roll (hroll now rfl)) trivial (by simp)⟩
  rw [if_neg h1] at hroll ⊢
  by_cases h2 : s.checkEveryN ≤ s.count + 1
  · rw [if_pos h2]
    by_cases h3 : period now ≠ s.startOfPeriod
    · rw [if_pos ⟨h2, h3⟩] at hroll
      rw [if_pos h3]
      exact ⟨_, rfl, rollFile_logging ⟨_, rfl, hs'⟩ (.of_roll (hroll now' rfl)) trivial (by simp)⟩
    · rw [if_neg h3]
      by_cases h4 : s.flushInterval < now - s.lastFlush
      · rw [if_pos h4]
        exact ⟨_, rfl, _, rfl, hs'.flush⟩
      · rw [if_neg h4]
        exact ⟨_, rfl, _, rfl, hs'⟩
  · rw [if_neg h2]
    exact ⟨_, rfl, _, rfl, hs'⟩

theorem step_logging (h : Logging disk₀ clock bytes s) {i : Step α} (ha : s.RollsFree i) (ho : s.Opens i) :
    ∃ t, s.step i = .ok t ∧ Logging disk₀ (clock ++ readings [i]) (bytes ++ appended [i]) t := by
  cases i with
  | append line w retries now now' =>
    simp only [readings, appended, List.append_nil]
    exact append_logging h ha
  | flush =>
    simp only [readings, appended, List.append_nil]
    exact flush_logging h
  | rollFile now isRoll =>
    simp only [readings, appended, List.append_nil]
    obtain ⟨f, hf, hs⟩ := h
    exact ⟨_, rfl, rollFile_logging ⟨f, hf, hs.mono [now]⟩ ha ho (by simp)⟩

theorem path_logging {is : List (Step α)} (h : Path step (fun s i => s.RollsFree i ∧ s.Opens i) s is t)
    (h0 : Logging disk₀ clock bytes s) :
    Logging disk₀ (clock ++ readings is) (bytes ++ appended is) t := by
  induction h with
  | nil => simpa [readings, appended] using h0
  | snoc i _ ha hs ih =>
    obtain ⟨u, hu, hl⟩ := step_logging ih ha.1 ha.2
    cases hu.symm.trans hs
    rwa [readings_append, appended_append, ← List.append_assoc, ← List.append_assoc]

end Steps

theorem rotation_keeps_log (disk₀ : LogDisk α) (rollSize flushInterval checkEveryN : ℤ) {start : ℤ}
    (hstart : 0 < start) {is : List (Step α)} {s : LogFile α}
    (h : Path step (fun s i => s.RollsFree i ∧ s.Opens i)
      (create disk₀ rollSize flushInterval checkEveryN start) is s) :
    Kept disk₀ (start :: readings is) (appended is) s ∧ ∀ i, s.RollsFree i → s.Opens i → ∃ t, s.step i = .ok t := by
  have hl := path_logging h (create_logging disk₀ rollSize flushInterval checkEveryN hstart)
  refine ⟨?_, fun i hi ho => ?_⟩
  · obtain ⟨f, hf, hs⟩ := hl
    exact hs.kept hf
  · obtain ⟨t, ht, -⟩ := step_logging hl hi ho
    exact ⟨t, ht⟩

theorem rotation_keeps_log_two_days : ∃ s,
    Path step (fun s i => s.RollsFree i ∧ s.Opens i) (create (Disk.empty : LogDisk ℕ) 3 3 1 86399)
      [.append [1, 2, 3, 4] ⟨4, 3⟩ [] 86399 86399, .append [5] ⟨1, 0⟩ [] 86399 86399, .flush,
        .append [6] ⟨1, 0⟩ [] 86400 86400, .rollFile 86401 false, .append [7, 8, 9, 10] ⟨4, 0⟩ [] 86402 86402] s ∧
    Kept Disk.empty [86399, 86399, 86399, 86399, 86399, 86400, 86400, 86401, 86402, 86402]
      [1, 2, 3, 4, 5, 6, 7, 8, 9, 10] s := by
  obtain ⟨s, hs, -⟩ := Path.exists_of_any step (fun s i => s.RollsFree i ∧ s.Opens i)
    (create (Disk.empty : LogDisk ℕ) 3 3 1 86399)
    [.append [1, 2, 3, 4] ⟨4, 3⟩ [] 86399 86399, .append [5] ⟨1, 0⟩ [] 86399 86399, .flush,
      .append [6] ⟨1, 0⟩ [] 86400 86400, .rollFile 86401 false, .append [7, 8, 9, 10] ⟨4, 0⟩ [] 86402 86402]
    (fun _ => true) (by decide +kernel)
  exact ⟨s, hs, (rotation_keeps_log Disk.empty 3 3 1 (by decide) hs).1⟩

/-- A roll that finds a `.roll` file for its second takes that file off the disk. -/
theorem rollFile_replaces {s : LogFile α} (now : ℤ) {i j : ℕ} (hlog : s.disk.dir (.log (day now)) = some i)
    (hroll : s.disk.dir (.roll now) = some j) : ¬(s.rollFile now true).disk.Named j := by
  have hren : ¬(s.disk.rename (.log (day now)) (.roll now)).Named j :=
    Disk.not_named_rename _ _ _ hlog hroll (by simp)
  by_cases hnow : s.lastRoll < now
  · intro hn
    rw [(rollFile_opens hnow true).2] at hn
    apply hren
    have hgone := s.disk.rename_source (.log (day now)) (.roll now) (by simp)
    refine Disk.named_of_openAppend _ _ hgone ?_ ?_
    · rw [Disk.rename_inodes]
      exact s.disk.allocated _ j hroll
    · cases hf : s.file <;> rw [hf] at hn <;> exact hn
  · rw [(rollFile_stays hnow true).2]
    exact hren

theorem second_roll_loses_first : ∃ s,
    Path step (fun _ i => Succeeds i) (create (Disk.empty : LogDisk ℕ) 3 3 1024 100000)
      [.append [1, 1, 1, 1] ⟨4, 0⟩ [] 100001 100001, .append [2, 2, 2, 2] ⟨4, 0⟩ [] 100001 100001] s ∧
    ([100000, 100001, 100001, 100001, 100001] : List ℤ).Pairwise (· ≤ ·) ∧
    (1 ∉ s.buffered ∧ ∀ i, s.disk.Named i → 1 ∉ s.disk.content i) ∧
    ¬Kept Disk.empty [100000, 100001, 100001, 100001, 100001] [1, 1, 1, 1, 2, 2, 2, 2] s := by
  obtain ⟨u, hu, hp⟩ := Path.exists_of_any step (fun _ i => Succeeds i)
    (create (Disk.empty : LogDisk ℕ) 3 3 1024 100000) [.append [1, 1, 1, 1] ⟨4, 0⟩ [] 100001 100001]
    (fun u => decide (u.file = some ⟨1, [], 0⟩ ∧ u.rollSize = 3 ∧ u.lastRoll = 100001 ∧
      u.disk.inodes = [[1, 1, 1, 1], []] ∧ u.disk.dir (.log 1) = some 1 ∧ u.disk.dir (.roll 100001) = some 0))
    (by decide +kernel)
  obtain ⟨hf, hsize, hlast, hinodes, hlog, hroll⟩ := of_decide_eq_true hp
  have hstep : u.step (.append [2, 2, 2, 2] ⟨4, 0⟩ [] 100001 100001) =
      .ok (rollFile { u with disk := u.disk.write 1 [], file := some ⟨1, [2, 2, 2, 2], 4⟩ } 100001 true) := by
    simp [step, append, hf, hsize, AppendFile.append_eq]
  refine ⟨_, hu.snoc _ (by decide) hstep, by decide, ?_⟩
  generalize hv : ({ u with disk := u.disk.write 1 [], file := some ⟨1, [2, 2, 2, 2], 4⟩ } : LogFile ℕ) = v
  have hgone : ¬(v.rollFile 100001 true).disk.Named 0 := by
    rw [← hv]
    exact rollFile_replaces 100001 hlog hroll
  have hstays : ¬v.lastRoll < 100001 := by
    rw [← hv]
    simp [hlast]
  obtain ⟨hf', hd⟩ := rollFile_stays hstays true
  have hinodes' : (v.rollFile 100001 true).disk.inodes = [[1, 1, 1, 1], []] := by
    rw [hd, ← hv]
    simp [getLogFileName, Disk.write, hinodes, List.modify]
  have hbuffer : 1 ∉ (v.rollFile 100001 true).buffered := by
    rw [buffered, hf', ← hv]
    exact (by decide : 1 ∉ [2, 2, 2, 2])
  have hfiles : ∀ i, (v.rollFile 100001 true).disk.Named i → 1 ∉ (v.rollFile 100001 true).disk.content i := by
    intro i hn h1
    rw [Disk.content, hinodes'] at h1
    rcases i with _ | _ | i
    · exact hgone hn
    · cases h1
    · cases h1
  refine ⟨⟨hbuffer, hfiles⟩, fun hk => ?_⟩
  rcases hk.mem_named (b := 1) (by decide) with h1 | ⟨i, hn, h1⟩
  · exact hbuffer h1
  · exact hfiles i hn h1

end LogFile

end Networker
