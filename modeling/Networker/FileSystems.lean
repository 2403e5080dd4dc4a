import Mathlib.Data.List.Nodup

/-!
A directory without hard links over append-only files: opening for appending,
appending, and `rename(2)`. Nothing here depends on the program using it.
-/

namespace Networker

structure Disk (ν α : Type) where
  dir : ν → Option ℕ
  inodes : List (List α)
  allocated : ∀ n i, dir n = some i → i < inodes.length
  unlinked : ∀ m n i, dir m = some i → dir n = some i → m = n

namespace Disk

variable {ν α : Type}

def empty : Disk ν α := ⟨fun _ => none, [], by simp, by simp⟩

def content (d : Disk ν α) (i : ℕ) : List α := d.inodes.getD i []

/-- The inode can be reached under some name. -/
def Named (d : Disk ν α) (i : ℕ) : Prop := ∃ n, d.dir n = some i

def write (d : Disk ν α) (i : ℕ) (bytes : List α) : Disk ν α :=
  ⟨d.dir, d.inodes.modify i (· ++ bytes), by simpa using d.allocated, d.unlinked⟩

section Write

variable (d : Disk ν α) (i : ℕ) (bytes : List α)

@[simp] theorem write_length : (d.write i bytes).inodes.length = d.inodes.length := by simp [write]

theorem content_write_self (h : i < d.inodes.length) : (d.write i bytes).content i = d.content i ++ bytes := by
  simp [content, write, List.getD, h]

theorem content_write_other {j : ℕ} (h : j ≠ i) : (d.write i bytes).content j = d.content j := by
  simp [content, write, List.getD, h.symm]

end Write

section Directories

variable [DecidableEq ν] (d : Disk ν α)

theorem create_allocated (name n : ν) (i : ℕ) (h : (if n = name then some d.inodes.length else d.dir n) = some i) :
    i < (d.inodes ++ [[]]).length := by
  simp only [List.length_append, List.length_singleton]
  split_ifs at h with hn
  · cases h
    omega
  · have := d.allocated n i h
    omega

theorem create_unlinked (name m n : ν) (i : ℕ)
    (hm : (if m = name then some d.inodes.length else d.dir m) = some i)
    (hn : (if n = name then some d.inodes.length else d.dir n) = some i) : m = n := by
  split_ifs at hm hn with h1 h2 h2
  · rw [h1, h2]
  · cases hm
    exact absurd (d.allocated n _ hn) (Nat.lt_irrefl _)
  · cases hn
    exact absurd (d.allocated m _ hm) (Nat.lt_irrefl _)
  · exact d.unlinked m n i hm hn

theorem move_allocated {old : ν} {i : ℕ} (h : d.dir old = some i) (new n : ν) (j : ℕ)
    (hn : (if n = new then some i else if n = old then none else d.dir n) = some j) : j < d.inodes.length := by
  split_ifs at hn
  · cases hn
    exact d.allocated old i h
  · exact d.allocated n j hn

theorem move_unlinked {old : ν} {i : ℕ} (h : d.dir old = some i) (new m n : ν) (j : ℕ)
    (hm : (if m = new then some i else if m = old then none else d.dir m) = some j)
    (hn : (if n = new then some i else if n = old then none else d.dir n) = some j) : m = n := by
  split_ifs at hm hn with h1 h2 h3 h4 h5 h6
  · rw [h1, h2]
  · cases hm
    exact absurd (d.unlinked n old i hn h) h3
  · cases hn
    exact absurd (d.unlinked m old i hm h) h4
  · exact d.unlinked m n j hm hn

end Directories

/-- `open(2)` with `O_APPEND | O_CREAT`. -/
def openAppend [DecidableEq ν] (d : Disk ν α) (name : ν) : Disk ν α × ℕ :=
  match d.dir name with
  | some i => (d, i)
  | none =>
    (⟨fun n => if n = name then some d.inodes.length else d.dir n, d.inodes ++ [[]],
      d.create_allocated name, d.create_unlinked name⟩, d.inodes.length)

/-- A target that exists is replaced; without a source nothing happens. -/
def rename [DecidableEq ν] (d : Disk ν α) (old new : ν) : Disk ν α :=
  match h : d.dir old with
  | none => d
  | some i =>
    ⟨fun n => if n = new then some i else if n = old then none else d.dir n, d.inodes,
      d.move_allocated h new, d.move_unlinked h new⟩

section Rename

variable [DecidableEq ν] (d : Disk ν α) (old new : ν)

@[simp] theorem rename_inodes : (d.rename old new).inodes = d.inodes := by
  unfold rename
  split <;> rfl

@[simp] theorem content_rename (i : ℕ) : (d.rename old new).content i = d.content i := by
  simp [content]

theorem rename_missing (h : d.dir old = none) : d.rename old new = d := by
  unfold rename
  split
  · rfl
  · simp_all

theorem rename_dir {i : ℕ} (h : d.dir old = some i) (n : ν) :
    (d.rename old new).dir n = if n = new then some i else if n = old then none else d.dir n := by
  unfold rename
  split
  · simp_all
  next j hj =>
    rw [h] at hj
    cases hj
    rfl

theorem rename_source (h : old ≠ new) : (d.rename old new).dir old = none := by
  cases hold : d.dir old with
  | none => rw [rename_missing d old new hold, hold]
  | some i => rw [rename_dir d old new hold, if_neg h, if_pos rfl]

/-- Unless it replaces a file, a rename keeps every inode within reach. -/
theorem named_rename {i : ℕ} (h : d.dir old = none ∨ d.dir new = none) (hi : d.Named i) :
    (d.rename old new).Named i := by
  cases hold : d.dir old with
  | none => rwa [rename_missing d old new hold]
  | some j =>
    obtain ⟨n, hn⟩ := hi
    have hnew : d.dir new = none := h.resolve_left (by simp [hold])
    by_cases hno : n = old
    · subst hno
      refine ⟨new, ?_⟩
      rw [rename_dir d n new hold, if_pos rfl, ← hold, hn]
    · have hnn : n ≠ new := by
        rintro rfl
        simp [hnew] at hn
      exact ⟨n, by rw [rename_dir d old new hold, if_neg hnn, if_neg hno, hn]⟩

theorem not_named_rename {i j : ℕ} (hold : d.dir old = some i) (hnew : d.dir new = some j) (h : old ≠ new) :
    ¬(d.rename old new).Named j := by
  rintro ⟨n, hn⟩
  rw [rename_dir d old new hold] at hn
  split_ifs at hn with h1 h2
  · cases hn
    exact h (d.unlinked old new _ hold hnew)
  · exact h1 (d.unlinked n new j hn hnew)

end Rename

section Open

variable [DecidableEq ν] (d : Disk ν α) (name : ν)

theorem openAppend_existing {i : ℕ} (h : d.dir name = some i) : d.openAppend name = (d, i) := by
  unfold openAppend
  split
  · simp_all
  · simp_all

theorem openAppend_dir (n : ν) :
    (d.openAppend name).1.dir n = if n = name then some (d.openAppend name).2 else d.dir n := by
  unfold openAppend
  split
  next i hi =>
    by_cases hn : n = name
    · rw [if_pos hn, hn, hi]
    · rw [if_neg hn]
  · rfl

theorem openAppend_new (h : d.dir name = none) : (d.openAppend name).2 = d.inodes.length := by
  unfold openAppend
  split
  · simp_all
  · rfl

theorem content_openAppend (i : ℕ) : (d.openAppend name).1.content i = d.content i := by
  unfold openAppend
  split
  · rfl
  · simp only [content, List.getD]
    by_cases hi : i < d.inodes.length
    · rw [List.getElem?_append_left hi]
    · have hnone : d.inodes[i]? = none := List.getElem?_eq_none (by omega)
      rw [List.getElem?_append_right (by omega), hnone]
      cases i - d.inodes.length <;> simp

theorem named_openAppend {i : ℕ} (hi : d.Named i) : (d.openAppend name).1.Named i := by
  obtain ⟨n, hn⟩ := hi
  by_cases hname : n = name
  · subst hname
    rw [openAppend_existing d n hn]
    exact ⟨n, hn⟩
  · exact ⟨n, by rw [openAppend_dir, if_neg hname, hn]⟩

theorem named_opened : (d.openAppend name).1.Named (d.openAppend name).2 :=
  ⟨name, by rw [openAppend_dir, if_pos rfl]⟩

theorem named_of_openAppend (h : d.dir name = none) {i : ℕ} (hi : i < d.inodes.length)
    (hd : (d.openAppend name).1.Named i) : d.Named i := by
  obtain ⟨n, hn⟩ := hd
  rw [openAppend_dir, d.openAppend_new name h] at hn
  split_ifs at hn
  · cases hn
    omega
  · exact ⟨n, hn⟩

theorem openAppend_le : d.inodes.length ≤ (d.openAppend name).1.inodes.length := by
  unfold openAppend
  split <;> simp

end Open

/-- A text spread over files: each of the `segments` was appended to the file at its inode after what
the file held on `d₀`, and these files have names that satisfy `ok`. No file of `d₀` is lost. -/
structure Layout (ok : ν → Prop) (d₀ d : Disk ν α) (segments : List (ℕ × List α)) : Prop where
  nodup : (segments.map Prod.fst).Nodup
  named : ∀ x ∈ segments, d.Named x.1
  holds : ∀ x ∈ segments, d.content x.1 = d₀.content x.1 ++ x.2
  names : ∀ x ∈ segments, ∀ n, d.dir n = some x.1 → ok n
  others : ∀ i, i ∉ segments.map Prod.fst → d.content i = d₀.content i
  kept : ∀ i, d₀.Named i → d.Named i
  grown : d₀.inodes.length ≤ d.inodes.length

namespace Layout

variable {ok : ν → Prop} {d₀ d : Disk ν α} {segments : List (ℕ × List α)}

theorem mono {ok' : ν → Prop} (h : Layout ok d₀ d segments) (hok : ∀ n, ok n → ok' n) :
    Layout ok' d₀ d segments :=
  { h with names := fun x hx n hn => hok n (h.names x hx n hn) }

theorem lt_length (h : Layout ok d₀ d segments) {x : ℕ × List α} (hx : x ∈ segments) : x.1 < d.inodes.length := by
  obtain ⟨n, hn⟩ := h.named x hx
  exact d.allocated n _ hn

theorem content_isPrefix (h : Layout ok d₀ d segments) (i : ℕ) : d₀.content i <+: d.content i := by
  by_cases hi : i ∈ segments.map Prod.fst
  · obtain ⟨x, hx, rfl⟩ := List.mem_map.mp hi
    exact ⟨x.2, (h.holds x hx).symm⟩
  · exact ⟨[], by rw [h.others i hi, List.append_nil]⟩

theorem write {before after : List (ℕ × List α)} {i : ℕ} {text : List α}
    (h : Layout ok d₀ d (before ++ (i, text) :: after)) (bytes : List α) :
    Layout ok d₀ (d.write i bytes) (before ++ (i, text ++ bytes) :: after) := by
  have hi : i < d.inodes.length := h.lt_length (x := (i, text)) (by simp)
  have hfst : (before ++ (i, text ++ bytes) :: after).map Prod.fst =
      (before ++ (i, text) :: after).map Prod.fst := by simp
  have hne : i ∉ (before ++ after).map Prod.fst := by
    have hn := h.nodup
    rw [List.map_append, List.map_cons, List.nodup_middle, List.nodup_cons, ← List.map_append] at hn
    exact hn.1
  -- apart from the segment written to, the segments and their files are as before
  have hmem : ∀ x ∈ before ++ (i, text ++ bytes) :: after,
      x = (i, text ++ bytes) ∨ (x ∈ before ++ (i, text) :: after ∧ x.1 ≠ i) := by
    intro x hx
    rw [List.mem_append, List.mem_cons] at hx
    by_cases hxe : x = (i, text ++ bytes)
    · exact Or.inl hxe
    · have hba : x ∈ before ++ after := List.mem_append.mpr (hx.imp_right fun h => h.resolve_left hxe)
      refine Or.inr ⟨?_, ?_⟩
      · rw [List.mem_append] at hba ⊢
        exact hba.imp_right (List.mem_cons_of_mem _)
      · rintro rfl
        exact hne (List.mem_map_of_mem hba)
  have hmid : (i, text) ∈ before ++ (i, text) :: after := by simp
  constructor
  · rw [hfst]
    exact h.nodup
  · intro x hx
    rcases hmem x hx with rfl | ⟨hx, -⟩
    · exact h.named (i, text) hmid
    · exact h.named x hx
  · intro x hx
    rcases hmem x hx with rfl | ⟨hx, hxi⟩
    · rw [content_write_self d i bytes hi, h.holds _ hmid, List.append_assoc]
    · rw [content_write_other d i bytes hxi, h.holds x hx]
  · intro x hx
    rcases hmem x hx with rfl | ⟨hx, -⟩
    · exact h.names (i, text) hmid
    · exact h.names x hx
  · intro j hj
    rw [hfst] at hj
    have hji : j ≠ i := by
      rintro rfl
      exact hj (List.mem_map_of_mem hmid)
    rw [content_write_other d i bytes hji, h.others j hj]
  · exact h.kept
  · rw [write_length]
    exact h.grown

variable [DecidableEq ν]

theorem rename {old new : ν} (h : Layout ok d₀ d segments) (hr : d.dir old = none ∨ d.dir new = none)
    (hok : ok new) : Layout ok d₀ (d.rename old new) segments where
  nodup := h.nodup
  named x hx := d.named_rename old new hr (h.named x hx)
  holds x hx := by rw [content_rename, h.holds x hx]
  names x hx n hn := by
    cases hold : d.dir old with
    | none =>
      rw [d.rename_missing old new hold] at hn
      exact h.names x hx n hn
    | some i =>
      rw [d.rename_dir old new hold] at hn
      split_ifs at hn with h1 h2
      · rwa [h1]
      · exact h.names x hx n hn
  others i hi := by rw [content_rename, h.others i hi]
  kept i hi := d.named_rename old new hr (h.kept i hi)
  grown := by simpa using h.grown

theorem opened (h : Layout ok d₀ d segments) {name : ν} (hn : d.dir name = none) (hok : ok name) :
    Layout ok d₀ (d.openAppend name).1 (segments ++ [((d.openAppend name).2, [])]) := by
  have hnew : (d.openAppend name).2 = d.inodes.length := d.openAppend_new name hn
  have hzero : d₀.content (d.openAppend name).2 = [] := by
    rw [hnew, content, List.getD, List.getElem?_eq_none h.grown]
    rfl
  have hempty : d.content (d.openAppend name).2 = [] := by
    rw [hnew, content, List.getD, List.getElem?_eq_none (Nat.le_refl _)]
    rfl
  have hlt : ∀ x ∈ segments, x.1 ≠ (d.openAppend name).2 := by
    intro x hx
    have := h.lt_length hx
    omega
  constructor
  · rw [List.map_append, List.nodup_append]
    refine ⟨h.nodup, List.nodup_singleton _, ?_⟩
    intro a ha b hb
    obtain ⟨x, hx, rfl⟩ := List.mem_map.mp ha
    rw [List.mem_singleton.mp hb]
    exact hlt x hx
  · intro x hx
    rcases List.mem_append.mp hx with hx | hx
    · exact d.named_openAppend name (h.named x hx)
    · rw [List.mem_singleton.mp hx]
      exact d.named_opened name
  · intro x hx
    rcases List.mem_append.mp hx with hx | hx
    · rw [content_openAppend, h.holds x hx]
    · rw [List.mem_singleton.mp hx, content_openAppend, hempty, hzero]
      rfl
  · intro x hx n hdir
    rw [openAppend_dir] at hdir
    split_ifs at hdir with hname
    · rwa [hname]
    · rcases List.mem_append.mp hx with hx | hx
      · exact h.names x hx n hdir
      · rw [List.mem_singleton.mp hx] at hdir
        have := d.allocated n _ hdir
        omega
  · intro i hi
    rw [List.map_append, List.mem_append, not_or] at hi
    rw [content_openAppend, h.others i hi.1]
  · exact fun i hi => d.named_openAppend name (h.kept i hi)
  · exact Nat.le_trans h.grown (d.openAppend_le name)

theorem first (ok : ν → Prop) (d₀ : Disk ν α) (name : ν) (hok : ok name) :
    Layout ok d₀ (d₀.openAppend name).1 [((d₀.openAppend name).2, [])] where
  nodup := List.nodup_singleton _
  named x hx := by
    rw [List.mem_singleton.mp hx]
    exact d₀.named_opened name
  holds x hx := by
    rw [List.mem_singleton.mp hx, content_openAppend]
    simp
  names x hx n hn := by
    rw [List.mem_singleton.mp hx] at hn
    have hname : (d₀.openAppend name).1.dir name = some (d₀.openAppend name).2 := by
      rw [openAppend_dir, if_pos rfl]
    rwa [(d₀.openAppend name).1.unlinked n name _ hn hname]
  others i _ := d₀.content_openAppend name i
  kept i hi := d₀.named_openAppend name hi
  grown := d₀.openAppend_le name

end Layout

end Disk

end Networker
