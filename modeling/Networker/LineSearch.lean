import Networker.BufferArrivals
import Networker.PatternSearch

/-!
`findCRLF` and `findEOL`. A pointer into the buffer is an offset from `begin()`, and NULL
is `none`.
-/

namespace Networker.Buffer

open CheckedRuns ByteVectors PatternSearch

section Model

def kCRLF : List UInt8 := [13, 10]

/-- The bytes a search from `first` to `last` reads. -/
def range (b : Buffer) (first last : ℕ) : Exec (List UInt8) :=
  if first ≤ last ∧ last ≤ b.buffer.length then .ok (slice b.buffer first last) else .error .undefined

/-- `std::search` returns `last` if it finds nothing. -/
def stdSearch (b : Buffer) (first last : ℕ) (pattern : List UInt8) : Exec ℕ := do
  let text ← b.range first last
  .ok (((search pattern text).map (first + ·)).getD last)

def memchr (b : Buffer) (first : ℕ) (c : UInt8) (n : ℕ) : Exec (Option ℕ) := do
  let text ← b.range first (first + n)
  .ok ((text.idxOf? c).map (first + ·))

def findCRLF (b : Buffer) : Exec (Option ℕ) := do
  let crlf ← b.stdSearch b.peek b.beginWrite kCRLF
  .ok (if crlf = b.beginWrite then none else some crlf)

def findEOL (b : Buffer) : Exec (Option ℕ) := b.memchr b.peek 10 b.readableBytes

variable [Build]

/-- `findCRLF(const char* start)`. -/
def findCRLFFrom (b : Buffer) (start : ℕ) : Exec (Option ℕ) := do
  assert (b.peek ≤ start)
  assert (start ≤ b.beginWrite)
  let crlf ← b.stdSearch start b.beginWrite kCRLF
  .ok (if crlf = b.beginWrite then none else some crlf)

/-- `findEOL(const char* start)`. -/
def findEOLFrom (b : Buffer) (start : ℕ) : Exec (Option ℕ) := do
  assert (b.peek ≤ start)
  assert (start ≤ b.beginWrite)
  b.memchr start 10 (subSize b.beginWrite start)

end Model

section Searches

theorem idxOf?_eq_search (c : UInt8) (text : List UInt8) : text.idxOf? c = search [c] text := by
  induction text with
  | nil => rfl
  | cons a text ih =>
    rw [List.idxOf?_cons, search, ih]
    by_cases h : a = c
    · simp [h]
    · have hne : ¬[c] <+: a :: text := by
        rintro ⟨t, ht⟩
        exact h (List.cons.inj ht).1.symm
      simp only [beq_iff_eq, h, hne, ↓reduceIte, Nat.add_comm]

/-- CR LF at an offset from `peek()`. -/
def CRLFAt (b : Buffer) (k : ℕ) : Prop := b.readable[k]? = some 13 ∧ b.readable[k + 1]? = some 10

def LFAt (b : Buffer) (k : ℕ) : Prop := b.readable[k]? = some 10

variable {b b' : Buffer}

theorem occurs_iff_getElem? (pattern text : List UInt8) (k : ℕ) (hne : pattern ≠ []) :
    Occurs pattern text k ↔ ∀ i, (h : i < pattern.length) → text[k + i]? = some pattern[i] := by
  have hpre : pattern <+: text.drop k ↔ ∀ i, (h : i < pattern.length) → text[k + i]? = some pattern[i] := by
    simp only [List.prefix_iff_getElem?, List.getElem?_drop]
  rw [Occurs, hpre]
  constructor
  · exact fun h => h.1
  · intro h
    refine ⟨h, ?_⟩
    have hpos := List.length_pos_iff.mpr hne
    obtain ⟨hlt, -⟩ := List.getElem?_eq_some_iff.mp (h 0 hpos)
    omega

theorem crlfAt_iff (b : Buffer) (k : ℕ) : Occurs kCRLF b.readable k ↔ CRLFAt b k := by
  rw [occurs_iff_getElem? _ _ _ (by decide)]
  constructor
  · exact fun h => ⟨h 0 (by decide), h 1 (by decide)⟩
  · rintro ⟨h0, h1⟩ i hi
    have hcases : i = 0 ∨ i = 1 := by
      simp only [kCRLF, List.length_cons, List.length_nil] at hi
      omega
    rcases hcases with rfl | rfl
    · exact h0
    · exact h1

theorem lfAt_iff (b : Buffer) (k : ℕ) : Occurs [10] b.readable k ↔ LFAt b k := by
  rw [occurs_iff_getElem? _ _ _ (by decide)]
  constructor
  · exact fun h => h 0 (by decide)
  · intro h i hi
    obtain rfl : i = 0 := by simpa using hi
    exact h

theorem range_eq (hv : b.Valid) {k : ℕ} (hk : k ≤ b.readable.length) :
    b.range (b.peek + k) b.beginWrite = .ok (b.readable.drop k) := by
  have hl := hv.readable_length
  have hrl := hv.reader_le
  have hwl := hv.writer_le
  rw [range, if_pos (by simp only [peek, beginWrite]; omega), peek, beginWrite, slice_drop, readable]

/-- Both searches for the line end start at an offset `k` from `peek()`, and so does their result. -/
theorem stdSearch_eq (hv : b.Valid) {k : ℕ} (hk : k ≤ b.readable.length) :
    (b.stdSearch (b.peek + k) b.beginWrite kCRLF >>= fun crlf =>
        .ok (if crlf = b.beginWrite then none else some crlf)) =
      .ok (((search kCRLF (b.readable.drop k)).map (k + ·)).map (b.peek + ·)) := by
  have hl := hv.readable_length
  have hrl := hv.reader_le
  rw [stdSearch, range_eq hv hk]
  simp only [ok_bind]
  cases hsearch : search kCRLF (b.readable.drop k) with
  | none => simp
  | some p =>
    have hocc : Occurs kCRLF (b.readable.drop k) p := by
      have h := search_finds kCRLF (b.readable.drop k)
      rw [hsearch] at h
      exact h.2.1
    have hle := hocc.le
    have hne : b.peek + k + p ≠ b.beginWrite := by
      simp only [List.length_drop, kCRLF, List.length_cons, List.length_nil] at hle
      simp only [peek, beginWrite]
      omega
    rw [Nat.add_assoc] at hne
    simp [hne, Nat.add_assoc]

theorem crlf_finds (hv : b.Valid) {k : ℕ} (hk : k ≤ b.readable.length) :
    ∃ r, (b.stdSearch (b.peek + k) b.beginWrite kCRLF >>= fun crlf =>
        .ok (if crlf = b.beginWrite then none else some crlf)) = .ok (r.map (b.peek + ·)) ∧ Finds (CRLFAt b) k r :=
  ⟨_, stdSearch_eq hv hk, (search_drop_finds kCRLF hk).congr fun p _ => crlfAt_iff b p⟩

theorem memchr_finds (hv : b.Valid) {k : ℕ} (hk : k ≤ b.readable.length) :
    ∃ r, b.memchr (b.peek + k) 10 (b.readable.length - k) = .ok (r.map (b.peek + ·)) ∧ Finds (LFAt b) k r := by
  have hl := hv.readable_length
  have hrl := hv.reader_le
  have hend : b.peek + k + (b.readable.length - k) = b.beginWrite := by
    simp only [peek, beginWrite]
    omega
  refine ⟨_, ?_, (search_drop_finds [10] hk).congr fun p _ => lfAt_iff b p⟩
  rw [memchr, hend, range_eq hv hk, ok_bind, idxOf?_eq_search, Option.map_map]
  congr 2
  funext p
  exact Nat.add_assoc _ _ _

/-- What the four searches return, as an offset from `peek()`. -/
structure LinesFound [Build] (b : Buffer) : Prop where
  crlf : ∃ r, b.findCRLF = .ok (r.map (b.peek + ·)) ∧ Finds (CRLFAt b) 0 r
  crlfFrom : ∀ k ≤ b.readable.length, ∃ r, b.findCRLFFrom (b.peek + k) = .ok (r.map (b.peek + ·)) ∧ Finds (CRLFAt b) k r
  eol : ∃ r, b.findEOL = .ok (r.map (b.peek + ·)) ∧ Finds (LFAt b) 0 r
  eolFrom : ∀ k ≤ b.readable.length, ∃ r, b.findEOLFrom (b.peek + k) = .ok (r.map (b.peek + ·)) ∧ Finds (LFAt b) k r

variable [Build]

theorem Valid.linesFound (hv : b.Valid) : LinesFound b := by
  have hl := hv.readable_length
  have hrl := hv.reader_le
  have hwl := hv.writer_le
  have hs := hv.size_le
  have hm := maxSize_lt
  constructor
  · exact crlf_finds hv (Nat.zero_le _)
  · intro k hk
    have hstart : b.peek + k ≤ b.beginWrite := by
      simp only [peek, beginWrite]
      omega
    obtain ⟨r, hr, hfinds⟩ := crlf_finds hv hk
    refine ⟨r, ?_, hfinds⟩
    rw [findCRLFFrom, assert_pos (Nat.le_add_right _ _), ok_bind, assert_pos hstart, ok_bind, hr]
  · obtain ⟨r, hr, hfinds⟩ := memchr_finds hv (Nat.zero_le _)
    exact ⟨r, by rw [findEOL, hv.readableBytes_length]; exact hr, hfinds⟩
  · intro k hk
    have hstart : b.peek + k ≤ b.beginWrite := by
      simp only [peek, beginWrite]
      omega
    have hlen : subSize b.beginWrite (b.peek + k) = b.readable.length - k := by
      rw [subSize_eq hstart (by simp only [beginWrite]; omega)]
      simp only [peek, beginWrite]
      omega
    obtain ⟨r, hr, hfinds⟩ := memchr_finds hv hk
    refine ⟨r, ?_, hfinds⟩
    rw [findEOLFrom, assert_pos (Nat.le_add_right _ _), ok_bind, assert_pos hstart, ok_bind, hlen, hr]

/-- What was found stays where it was, and a search that found nothing can be resumed. -/
structure LinesKept (b b' : Buffer) : Prop where
  crlf : ∀ p, b.findCRLF = .ok (some (b.peek + p)) → b'.findCRLF = .ok (some (b'.peek + p))
  crlfFrom : ∀ k ≤ b.readable.length, ∀ p, b.findCRLFFrom (b.peek + k) = .ok (some (b.peek + p)) →
    b'.findCRLFFrom (b'.peek + k) = .ok (some (b'.peek + p))
  eol : ∀ p, b.findEOL = .ok (some (b.peek + p)) → b'.findEOL = .ok (some (b'.peek + p))
  eolFrom : ∀ k ≤ b.readable.length, ∀ p, b.findEOLFrom (b.peek + k) = .ok (some (b.peek + p)) →
    b'.findEOLFrom (b'.peek + k) = .ok (some (b'.peek + p))
  resumed : b.findCRLF = .ok none → b'.findCRLF = b'.findCRLFFrom (b'.peek + (b.readable.length - 1))

omit [Build] in
theorem found_kept {P P' : ℕ → Prop} {find find' : Exec (Option ℕ)} {k p : ℕ}
    (h : ∃ r, find = .ok (r.map (b.peek + ·)) ∧ Finds P k r) (h' : ∃ r, find' = .ok (r.map (b'.peek + ·)) ∧ Finds P' k r)
    (hkept : Finds P k (some p) → Finds P' k (some p)) (hfind : find = .ok (some (b.peek + p))) :
    find' = .ok (some (b'.peek + p)) := by
  obtain ⟨r, hr, hfinds⟩ := h
  obtain ⟨r', hr', hfinds'⟩ := h'
  have hrp : r = some p := by
    obtain ⟨p', rfl, hp⟩ := Option.map_eq_some_iff.mp (Except.ok.inj (hr.symm.trans hfind))
    rw [Nat.add_left_cancel hp]
  subst hrp
  rw [hr', hfinds'.unique (hkept hfinds)]
  rfl

theorem linesKept (hv : b.Valid) (hv' : b'.Valid) {more : List UInt8} (hread : b'.readable = b.readable ++ more) :
    LinesKept b b' := by
  have hf := hv.linesFound
  have hf' := hv'.linesFound
  have hcrlf (k p : ℕ) (h : Finds (CRLFAt b) k (some p)) : Finds (CRLFAt b') k (some p) := by
    have hocc : Finds (Occurs kCRLF b.readable) k (some p) := h.congr fun q _ => (crlfAt_iff b q).symm
    exact (hread ▸ hocc.append).congr fun q _ => crlfAt_iff b' q
  have hlf (k p : ℕ) (h : Finds (LFAt b) k (some p)) : Finds (LFAt b') k (some p) := by
    have hocc : Finds (Occurs [10] b.readable) k (some p) := h.congr fun q _ => (lfAt_iff b q).symm
    exact (hread ▸ hocc.append).congr fun q _ => lfAt_iff b' q
  have hlen : b.readable.length ≤ b'.readable.length := by simp [hread]
  constructor
  · exact fun p hp => found_kept hf.crlf hf'.crlf (hcrlf 0 p) hp
  · exact fun k hk p hp => found_kept (hf.crlfFrom k hk) (hf'.crlfFrom k (hk.trans hlen)) (hcrlf k p) hp
  · exact fun p hp => found_kept hf.eol hf'.eol (hlf 0 p) hp
  · exact fun k hk p hp => found_kept (hf.eolFrom k hk) (hf'.eolFrom k (hk.trans hlen)) (hlf k p) hp
  · intro hnone
    obtain ⟨r, hr, hfinds⟩ := hf.crlf
    obtain rfl : r = none := Option.map_eq_none_iff.mp (Except.ok.inj (hr.symm.trans hnone))
    obtain ⟨whole, hwhole, hfirst⟩ := hf'.crlf
    obtain ⟨rest, hrest, hlast⟩ := hf'.crlfFrom (b.readable.length - 1) (by omega)
    have hocc : Finds (Occurs kCRLF b.readable) 0 none := hfinds.congr fun q _ => (crlfAt_iff b q).symm
    have hlast' : Finds (Occurs kCRLF (b.readable ++ more)) (b.readable.length + 1 - kCRLF.length) rest :=
      hread ▸ hlast.congr fun q _ => (crlfAt_iff b' q).symm
    have hresume := hocc.resume hlast'
    rw [← hread] at hresume
    rw [hwhole, hrest, hfirst.unique (hresume.congr fun q _ => crlfAt_iff b' q)]

end Searches

section Lines

/-- The lines that a text starts with, each up to the first CR LF, and what is left of it. -/
inductive Cut : List UInt8 → List (List UInt8) → List UInt8 → Prop
  | nil (rest : List UInt8) : Cut rest [] rest
  | cons {text rest : List UInt8} {lines : List (List UInt8)} {p : ℕ} (hp : Finds (Occurs kCRLF text) 0 (some p))
      (h : Cut (text.drop (p + 2)) lines rest) : Cut text (text.take p :: lines) rest

namespace Cut

variable {text rest rest' : List UInt8} {lines lines' : List (List UInt8)}

theorem append (h : Cut text lines rest) (more : List UInt8) : Cut (text ++ more) lines (rest ++ more) := by
  induction h with
  | nil rest => exact .nil _
  | @cons text rest lines p hp _ ih =>
    have hle : p + 2 ≤ text.length := hp.2.1.le
    have htake : (text ++ more).take p = text.take p := List.take_append_of_le_length (by omega)
    rw [← htake]
    refine .cons hp.append ?_
    rwa [List.drop_append_of_le_length hle]

theorem snoc (h : Cut text lines rest) {p : ℕ} (hp : Finds (Occurs kCRLF rest) 0 (some p)) :
    Cut text (lines ++ [rest.take p]) (rest.drop (p + 2)) := by
  induction h with
  | nil rest => exact .cons hp (.nil _)
  | cons hq _ ih => exact .cons hq (ih hp)

theorem unique (h : Cut text lines rest) (h' : Cut text lines' rest') (hr : Finds (Occurs kCRLF rest) 0 none)
    (hr' : Finds (Occurs kCRLF rest') 0 none) : lines = lines' ∧ rest = rest' := by
  induction h generalizing lines' with
  | nil text =>
    cases h' with
    | nil => exact ⟨rfl, rfl⟩
    | cons hp _ => cases hr.unique hp
  | cons hp _ ih =>
    cases h' with
    | nil => cases hr'.unique hp
    | cons hp' h' =>
      cases hp.unique hp'
      obtain ⟨rfl, rfl⟩ := ih h' hr
      exact ⟨rfl, rfl⟩

end Cut

structure LineReader where
  buffer : Buffer
  lines : List (List UInt8)

inductive ReaderStep
  | arrive (a : Arrival)
  | takeLine

namespace LineReader

def Enabled (s : LineReader) : ReaderStep → Prop
  | .arrive a => a.Permitted s.buffer
  | .takeLine => True

instance (s : LineReader) : (i : ReaderStep) → Decidable (s.Enabled i)
  | .arrive a => inferInstanceAs (Decidable (a.Permitted s.buffer))
  | .takeLine => inferInstanceAs (Decidable True)

def received : ReaderStep → List UInt8
  | .arrive a => a.bytes
  | .takeLine => []

variable [Build]

def takeLine (s : LineReader) : Exec LineReader := do
  let crlf ← s.buffer.findCRLF
  match crlf with
  | none => .ok s
  | some p => do
    let line ← s.buffer.range s.buffer.peek p
    let b ← s.buffer.retrieveUntil (p + 2)
    .ok ⟨b, s.lines ++ [line]⟩

def step (s : LineReader) : ReaderStep → Exec LineReader
  | .arrive a => a.apply s.buffer >>= fun b => .ok { s with buffer := b }
  | .takeLine => s.takeLine

omit [Build] in
/-- The lines taken and the content are a cutting of all that was received. -/
structure Cutting (s : LineReader) (text : List UInt8) : Prop where
  valid : s.buffer.Valid
  cut : Cut text s.lines s.buffer.readable

variable {s s' : LineReader} {text : List UInt8}

theorem Cutting.takeLine (h : Cutting s text) : ∃ s', s.takeLine = .ok s' ∧ Cutting s' text := by
  obtain ⟨r, hr, hfinds⟩ := h.valid.linesFound.crlf
  have hocc : Finds (Occurs kCRLF s.buffer.readable) 0 r := hfinds.congr fun q _ => (crlfAt_iff s.buffer q).symm
  cases r with
  | none => exact ⟨s, by simp only [LineReader.takeLine, hr, ok_bind, Option.map_none], h⟩
  | some p =>
    have hle : p + 2 ≤ s.buffer.readable.length := hocc.2.1.le
    have hl := h.valid.readable_length
    have hrl := h.valid.reader_le
    have hwl := h.valid.writer_le
    have hline : s.buffer.range s.buffer.peek (s.buffer.peek + p) = .ok (s.buffer.readable.take p) := by
      rw [range, if_pos (by simp only [peek]; omega), readable, slice, slice, List.take_drop, List.take_take,
        Nat.min_eq_left (by omega)]
      rfl
    obtain ⟨b', hb', hrep⟩ := retrieveUntil_represents h.valid.represents
      (show s.buffer.peek + (p + 2) ≤ s.buffer.beginWrite by simp only [peek, beginWrite]; omega)
    refine ⟨⟨b', s.lines ++ [s.buffer.readable.take p]⟩, ?_, hrep.valid, ?_⟩
    · simp only [LineReader.takeLine, hr, ok_bind, Option.map_some, hline]
      rw [Nat.add_assoc, hb', ok_bind]
    · have hread : b'.readable = s.buffer.readable.drop (p + 2) := by
        rw [hrep.bytes_eq, Contents.retrieve]
        split_ifs with hlt
        · rfl
        · exact (List.drop_eq_nil_of_le (by simpa using hlt)).symm
      show Cut text _ b'.readable
      rw [hread]
      exact h.cut.snoc hocc

theorem Cutting.run {b : Buffer} (hv : b.Valid) {steps : List ReaderStep}
    (hr : Path LineReader.step Enabled ⟨b, []⟩ steps s) : Cutting s (b.readable ++ steps.flatMap received) := by
  induction hr with
  | nil => exact ⟨hv, by simpa using .nil _⟩
  | @snoc is t u i _ he hs ih =>
    rw [List.flatMap_append, ← List.append_assoc, List.flatMap_singleton]
    cases i with
    | arrive a =>
      obtain ⟨b', hb', heq⟩ := bind_eq_ok.mp hs
      cases heq
      rcases arrival_spec ih.valid he with ⟨b₁, hb₁, hv₁, hread⟩ | ⟨-, herr⟩
      · cases hb'.symm.trans hb₁
        exact ⟨hv₁, hread ▸ ih.cut.append a.bytes⟩
      · cases hb'.symm.trans herr
    | takeLine =>
      obtain ⟨s₁, hs₁, h₁⟩ := ih.takeLine
      cases hs.symm.trans hs₁
      rwa [show received .takeLine = [] from rfl, List.append_nil]

end LineReader

end Lines

/-- The searches are exact and stable under arrivals, and the lines that are taken out of a stream do not depend on how
it was cut into arrivals or on when the reader looked. -/
theorem line_search [Build] {b : Buffer} (h : Reachable b) :
    LinesFound b ∧
      (∀ arrivals b', Path Arrival.apply (fun b a => a.Permitted b) b arrivals b' → LinesFound b' ∧ LinesKept b b') ∧
      ∀ steps s steps' s', Path LineReader.step LineReader.Enabled ⟨b, []⟩ steps s →
        Path LineReader.step LineReader.Enabled ⟨b, []⟩ steps' s' →
        steps.flatMap LineReader.received = steps'.flatMap LineReader.received →
        s.buffer.findCRLF = .ok none → s'.buffer.findCRLF = .ok none →
          s.lines = s'.lines ∧ s.buffer.readable = s'.buffer.readable := by
  have hv := h.valid
  refine ⟨hv.linesFound, ?_, ?_⟩
  · intro arrivals b' hr
    obtain ⟨hv', hread⟩ := arrivals_run hv hr
    exact ⟨hv'.linesFound, linesKept hv hv' hread⟩
  · intro steps s steps' s' hr hr' hsame hnone hnone'
    have hdone {t : LineReader} (ht : t.buffer.Valid) (hn : t.buffer.findCRLF = .ok none) :
        Finds (Occurs kCRLF t.buffer.readable) 0 none := by
      obtain ⟨r, hr, hfinds⟩ := ht.linesFound.crlf
      obtain rfl : r = none := Option.map_eq_none_iff.mp (Except.ok.inj (hr.symm.trans hn))
      exact hfinds.congr fun q _ => (crlfAt_iff t.buffer q).symm
    have hc := LineReader.Cutting.run hv hr
    have hc' := LineReader.Cutting.run hv hr'
    rw [← hsame] at hc'
    exact hc.cut.unique hc'.cut (hdone hc.valid hnone) (hdone hc'.valid hnone')

-- CR is there, LF arrives with the next bytes
theorem line_search_straddling :
    letI := Build.debug
    ∃ b b', Reachable b ∧ Path Arrival.apply (fun b a => a.Permitted b) b [.append [10, 98]] b' ∧
      b.findCRLF = .ok none ∧ b'.findCRLFFrom (b'.peek + 1) = .ok (some (b'.peek + 1)) ∧ LinesFound b' ∧ LinesKept b b' := by
  let _ := Build.debug
  let b : Buffer := ⟨List.replicate 8 0 ++ [97, 13, 0, 0], 8, 10⟩
  have hp : Call.Permitted (initial 4) (.op (.append [97, 13])) := ⟨trivial, by decide +kernel⟩
  have hb : Reachable b := .call _ (initial_reachable (by decide +kernel)) hp (by decide +kernel)
  obtain ⟨b', hr, hfind⟩ := Path.exists_of_any Arrival.apply (fun b a => a.Permitted b) b [.append [10, 98]]
    (fun b' => decide (b'.findCRLFFrom (b'.peek + 1) = .ok (some (b'.peek + 1)))) (by decide +kernel)
  obtain ⟨hfound, hkept⟩ := (line_search hb).2.1 _ b' hr
  exact ⟨b, b', hb, hr, by decide +kernel, of_decide_eq_true hfind, hfound, hkept⟩

end Networker.Buffer
