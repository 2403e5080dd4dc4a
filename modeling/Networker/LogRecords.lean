import Networker.LogTimes

/-!
`Logger`: the parts of a record from the constructor to the call of `g_output`.
-/

namespace Networker

open ByteVectors CheckedRuns DigitStrings

/-- The index that `strrchr` points to. -/
def strrchr (s : Line) (ch : UInt8) : Option ℕ :=
  if ch ∈ s then some (s.length - 1 - s.reverse.idxOf ch) else none

structure SourceFile where
  data_ : Line
  size_ : ℤ
deriving DecidableEq

namespace SourceFile

/-- From a string literal. Behind a slash the size is the one of the part in front of the name. -/
def ofLiteral (arr : Line) : SourceFile :=
  match strrchr arr '/'.toUInt8 with
  | some slash => { data_ := arr.drop (slash + 1), size_ := castInt32 (slash + 1) }
  | none => { data_ := arr, size_ := castInt32 arr.length }

end SourceFile

inductive LogLevel
  | TRACE | DEBUG | INFO | WARN | ERROR | FATAL
deriving DecidableEq, Repr

def LogLevelName : LogLevel → Line
  | .TRACE => chars "TRACE "
  | .DEBUG => chars "DEBUG "
  | .INFO => chars "INFO  "
  | .WARN => chars "WARN  "
  | .ERROR => chars "ERROR "
  | .FATAL => chars "FATAL "

/-- What a record takes from its thread and from the C library. -/
structure LogThread where
  clock : LogClock
  tidString : Line
  tidStringLength : ℕ
  strerror_tl : ℤ → Line

/-- `Logger` with the members of its `RecordBlock` that are read again. -/
structure Logger where
  stream_ : LogStream
  level_ : LogLevel
  line_ : ℤ
  basename_ : SourceFile
deriving DecidableEq

namespace Logger

section Construction

variable [Build] (c : TimeLibrary) (thread : LogThread) (now : ℤ)

/-- What `RecordBlock::RecordBlock` inserts. -/
def header (level : LogLevel) (savedErrno : ℤ) : Exec (List Insertion) := do
  let date ← formatTime c thread.clock now
  let tid ← T.piece thread.tidString thread.tidStringLength
  let name ← T.piece (LogLevelName level) 6
  let error := if savedErrno ≠ 0 then
      [.cString (some (thread.strerror_tl savedErrno)), .cString (some (chars " (errno=")), .integer .int savedErrno,
        .cString (some (chars ") "))]
    else []
  return date.2 ++ [tid, .char ' '.toUInt8, name] ++ error

/-- `memory` is what the array of the stream holds before anything is written. -/
def recordBlock (memory : List UInt8) (level : LogLevel) (savedErrno : ℤ) (file : SourceFile) (line : ℤ) : Exec Logger := do
  let pieces ← header c thread now level savedErrno
  return { stream_ := ← LogStream.insertAll { data_ := memory } pieces, level_ := level, line_ := line, basename_ := file }

def ofLine (memory : List UInt8) (file : SourceFile) (line : ℤ) : Exec Logger := recordBlock c thread now memory .INFO 0 file line

def ofLevel (memory : List UInt8) (file : SourceFile) (line : ℤ) (level : LogLevel) : Exec Logger :=
  recordBlock c thread now memory level 0 file line

def ofFunction (memory : List UInt8) (file : SourceFile) (line : ℤ) (level : LogLevel) (func : Line) : Exec Logger := do
  let r ← recordBlock c thread now memory level 0 file line
  return { r with stream_ := ← r.stream_.insertAll [.cString (some func), .char ' '.toUInt8] }

def ofErrno (memory : List UInt8) (file : SourceFile) (line : ℤ) (toAbort : Bool) (errno : ℤ) : Exec Logger :=
  recordBlock c thread now memory (if toAbort then .FATAL else .ERROR) errno file line

/-- The four constructors, after the file and the line. -/
inductive Call
  | line
  | level (level : LogLevel)
  | function (level : LogLevel) (func : Line)
  | errno (toAbort : Bool) (errno : ℤ)

def construct (memory : List UInt8) (file : SourceFile) (line : ℤ) : Call → Exec Logger
  | .line => ofLine c thread now memory file line
  | .level level => ofLevel c thread now memory file line level
  | .function level func => ofFunction c thread now memory file line level func
  | .errno toAbort errno => ofErrno c thread now memory file line toAbort errno

end Construction

def log (r : Logger) (is : List Insertion) : Exec Logger := do
  return { r with stream_ := ← r.stream_.insertAll is }

/-- The five insertions of `RecordBlock::finish`. -/
def tailPieces (r : Logger) : List Insertion :=
  [.cString (some (chars " - ")), .cString (some r.basename_.data_), .char ':'.toUInt8, .integer .int r.line_,
    .char '\n'.toUInt8]

def finish (r : Logger) : Exec Logger := r.log r.tailPieces

/-- The text that the destructor passes to `g_output`, and whether it aborts the program afterwards. -/
def destroy (r : Logger) : Exec (Line × Bool) := do
  let r ← r.finish
  return (slice r.stream_.data_ 0 r.stream_.length.toNat, r.level_ = .FATAL)

def sourceTail (file : SourceFile) (line : ℤ) : Line :=
  chars " - " ++ file.data_ ++ chars ":" ++ decimalText line ++ chars "\n"

/-- `errno` is an `int`. -/
def Call.Typed : Call → Prop
  | .errno _ saved => IntegerKind.int.type.Holds saved
  | _ => True

instance (call : Call) : Decidable call.Typed := by
  cases call <;> unfold Call.Typed <;> infer_instance

theorem T_piece_typed [Build] {str : Line} {len : ℕ} {i : Insertion} (h : T.piece str len = .ok i) : i.Typed := by
  have hpiece := assert_bind_ok h
  split at hpiece
  · cases hpiece
    trivial
  · cases hpiece

theorem formatTime_typed [Build] {c : TimeLibrary} {s : LogClock} {now : ℤ} {out : LogClock × List Insertion}
    (h : formatTime c s now = .ok out) : ∀ i ∈ out.2, i.Typed := by
  obtain ⟨s', -, h⟩ := bind_eq_ok.mp h
  obtain ⟨us, -, h⟩ := bind_eq_ok.mp h
  obtain ⟨date, hdate, h⟩ := bind_eq_ok.mp (assert_bind_ok h)
  obtain ⟨micro, hmicro, h⟩ := bind_eq_ok.mp h
  cases h
  simp [T_piece_typed hdate, T_piece_typed hmicro]

section Lifetime

variable [Build] {c : TimeLibrary} {thread : LogThread} {now : ℤ} {memory : List UInt8} {file : SourceFile} {line : ℤ}
  {r : Logger}

theorem header_typed {level : LogLevel} {savedErrno : ℤ} {pieces : List Insertion} (he : IntegerKind.int.type.Holds savedErrno)
    (h : header c thread now level savedErrno = .ok pieces) : ∀ i ∈ pieces, i.Typed := by
  obtain ⟨date, hdate, h⟩ := bind_eq_ok.mp h
  obtain ⟨tid, htid, h⟩ := bind_eq_ok.mp h
  obtain ⟨name, hname, h⟩ := bind_eq_ok.mp h
  have hdates := formatTime_typed hdate
  cases h
  intro i hi
  rcases List.mem_append.mp hi with hi | hi
  · rcases List.mem_append.mp hi with hi | hi
    · exact hdates i hi
    · simp only [List.mem_cons, List.not_mem_nil, or_false] at hi
      rcases hi with rfl | rfl | rfl
      · exact T_piece_typed htid
      · trivial
      · exact T_piece_typed hname
  · split at hi
    · simp only [List.mem_cons, List.not_mem_nil, or_false] at hi
      rcases hi with rfl | rfl | rfl | rfl
      · trivial
      · trivial
      · exact he
      · trivial
    · cases hi

/-- A logger as the constructors leave it. -/
structure Started (file : SourceFile) (line : ℤ) (r : Logger) : Prop where
  stream : ∃ c, r.stream_.Contains c
  line : r.line_ = line
  basename : r.basename_ = file

theorem recordBlock_started (hm : memory.length = kSmallBuffer) {level : LogLevel} {savedErrno : ℤ}
    (he : IntegerKind.int.type.Holds savedErrno) (h : recordBlock c thread now memory level savedErrno file line = .ok r) :
    Started file line r := by
  obtain ⟨pieces, hpieces, h⟩ := bind_eq_ok.mp h
  obtain ⟨s, hs, h⟩ := bind_eq_ok.mp h
  cases h
  exact ⟨LogStream.insertAll_ok (LogStream.new_contains hm) (header_typed he hpieces) hs, rfl, rfl⟩

omit [Build] in
theorem Started.log {is : List Insertion} {r' : Logger} (h : Started file line r) (hi : ∀ i ∈ is, i.Typed)
    (hok : r.log is = .ok r') : Started file line r' := by
  obtain ⟨content, hc⟩ := h.stream
  obtain ⟨s, hs, hok⟩ := bind_eq_ok.mp hok
  cases hok
  exact ⟨LogStream.insertAll_ok hc hi hs, h.line, h.basename⟩

theorem construct_started (hm : memory.length = kSmallBuffer) {call : Call} (hcall : call.Typed)
    (h : construct c thread now memory file line call = .ok r) : Started file line r := by
  cases call with
  | line => exact recordBlock_started hm (by decide) h
  | level level => exact recordBlock_started hm (by decide) h
  | function level func =>
    obtain ⟨r₀, hr₀, hfunc⟩ := bind_eq_ok.mp h
    exact (recordBlock_started hm (by decide) hr₀).log (by simp [Insertion.Typed]) hfunc
  | errno toAbort errno => exact recordBlock_started hm hcall h

end Lifetime

section Tail

variable {file : SourceFile} {line : ℤ} {r : Logger}

theorem tailPieces_typed (h : Started file line r) (hline : IntegerKind.int.type.Holds line) : ∀ i ∈ r.tailPieces, i.Typed := by
  simp [tailPieces, Insertion.Typed, h.line, hline]

theorem tailPieces_valid (h : Started file line r) (hline : IntegerKind.int.type.Holds line)
    (hname : file.data_.length < 2 ^ 31) : ∀ i ∈ r.tailPieces, i.Valid := by
  intro i hi
  simp only [tailPieces, List.mem_cons, List.not_mem_nil, or_false] at hi
  rcases hi with rfl | rfl | rfl | rfl | rfl
  · decide
  · rw [h.basename]
    exact hname
  · decide
  · rw [h.line]
    exact hline
  · decide

theorem decimalText_ne_nil (v : ℤ) : decimalText v ≠ [] :=
  List.append_ne_nil_of_right_ne_nil _ (numeral_ne_nil (by decide) _)

theorem tailPieces_text (h : Started file line r) : r.tailPieces.flatMap Insertion.text = sourceTail file line := by
  simp only [tailPieces, sourceTail, Insertion.text, h.basename, h.line, List.flatMap_cons, List.flatMap_nil, List.append_nil,
    Option.getD_some, List.append_assoc]
  rfl

/-- Four pieces of text and a number with its 32 bytes. -/
theorem tail_accepted (h : Started file line r) (hline : IntegerKind.int.type.Holds line) {used : ℕ} (hused : used < kSmallBuffer) :
    (Insertion.accepted used r.tailPieces).flatMap Insertion.text = sourceTail file line ↔
      used + file.data_.length + 36 ≤ kSmallBuffer := by
  have hdigits := decimalText_length hline (by decide)
  have hdash : (chars " - ").length = 3 := by decide
  rw [← tailPieces_text h, Insertion.accepted_eq_iff hused]
  · simp only [tailPieces, Insertion.AllPass, Insertion.Passes, Insertion.numeric, Insertion.text, Option.getD_some,
      List.length_singleton, Bool.false_eq_true, if_false, if_true, hdash, h.basename, h.line, kMaxNumericSize, and_true]
    omega
  · intro i hi hnum
    simp only [tailPieces, List.mem_cons, List.not_mem_nil, or_false] at hi
    rcases hi with rfl | rfl | rfl | rfl | rfl
    case inr.inr.inr.inl =>
      rw [Insertion.text, h.line, kMaxNumericSize]
      exact ⟨decimalText_ne_nil _, by omega⟩
    all_goals cases hnum

theorem output_eq {s : LogStream} {content : Line} (h : s.Contains content) : slice s.data_ 0 s.length.toNat = content := by
  have hcontent := h.content
  rw [h.length_eq LogStream.kSmallBuffer_int, Int.toNat_natCast, ← h.cur]
  exact hcontent

theorem destroy_short (h : Started file line r) (hline : IntegerKind.int.type.Holds line) {out : Line × Bool}
    (hout : r.destroy = .ok out) : out.1.length < kSmallBuffer := by
  obtain ⟨content, hc⟩ := h.stream
  obtain ⟨r', hr', hout⟩ := bind_eq_ok.mp hout
  obtain ⟨s, hs, hr'⟩ := bind_eq_ok.mp hr'
  obtain ⟨final, hfinal⟩ := LogStream.insertAll_ok hc (tailPieces_typed h hline) hs
  rw [← Except.ok.inj hr'] at hout
  rw [← Except.ok.inj hout]
  dsimp only
  rw [output_eq hfinal]
  exact hfinal.room

theorem destroy_appends (h : Started file line r) (hline : IntegerKind.int.type.Holds line) (hname : file.data_.length < 2 ^ 31)
    {content : Line} (hc : r.stream_.Contains content) :
    ∃ out, r.destroy = .ok out ∧
      out.1 = content ++ (Insertion.accepted content.length r.tailPieces).flatMap Insertion.text := by
  obtain ⟨s, hs, hfinal⟩ := LogStream.insertAll_contains hc (tailPieces_valid h hline hname)
  unfold destroy finish log
  rw [hs, ok_bind, pure_bind]
  exact ⟨_, rfl, by dsimp only; rw [output_eq hfinal]⟩

theorem Started.tail_iff (h : Started file line r) (hline : IntegerKind.int.type.Holds line) :
    (∃ out, r.destroy = .ok out ∧ out.1 = r.stream_.content ++ sourceTail file line) ↔
      (file.data_.length : ℤ) + 36 ≤ r.stream_.avail := by
  obtain ⟨content, hc⟩ := h.stream
  have hroom := hc.room
  have havail := hc.avail_eq LogStream.kSmallBuffer_int
  have hwhole : (∃ out, r.destroy = .ok out ∧ out.1 = r.stream_.content ++ sourceTail file line) →
      file.data_.length < 2 ^ 31 := by
    rintro ⟨out, hout, htext⟩
    have hshort := destroy_short h hline hout
    have hsmall := LogStream.kSmallBuffer_int
    rw [htext, sourceTail] at hshort
    simp only [List.length_append] at hshort
    omega
  constructor
  · intro hex
    obtain ⟨out, hout, htext⟩ := hex
    obtain ⟨out', hout', htext'⟩ := destroy_appends h hline (hwhole ⟨out, hout, htext⟩) hc
    cases hout.symm.trans hout'
    rw [hc.content, htext', List.append_cancel_left_eq, tail_accepted h hline hroom] at htext
    omega
  · intro hspace
    have hsmall := LogStream.kSmallBuffer_int
    obtain ⟨out, hout, htext⟩ := destroy_appends h hline (by omega) hc
    refine ⟨out, hout, ?_⟩
    rw [htext, hc.content, (tail_accepted h hline hroom).mpr (by omega)]

variable [Build] {c : TimeLibrary} {thread : LogThread} {now : ℤ} {memory : List UInt8}

/-- The text that a logger passes to `g_output` is what was inserted before, followed by the whole tail, exactly
if the insertions have left space for the name and 36 bytes. Otherwise the pieces that find no space are missing. -/
theorem tail_complete_iff (c : TimeLibrary) (thread : LogThread) (now : ℤ) (hm : memory.length = kSmallBuffer)
    (file : SourceFile) {call : Call} {is : List Insertion} (hline : IntegerKind.int.type.Holds line) (hcall : call.Typed)
    (hi : ∀ i ∈ is, i.Typed) :
    ((∃ r out, (construct c thread now memory file line call >>= fun r => r.log is) = .ok r ∧ r.destroy = .ok out ∧
        out.1 = r.stream_.content ++ sourceTail file line) ↔
      ∃ r, (construct c thread now memory file line call >>= fun r => r.log is) = .ok r ∧
        (file.data_.length : ℤ) + 36 ≤ r.stream_.avail) ∧
      ∀ r, (construct c thread now memory file line call >>= fun r => r.log is) = .ok r → file.data_.length < 2 ^ 31 →
        ∃ out, r.destroy = .ok out ∧ out.1 = r.stream_.content ++
          (Insertion.accepted r.stream_.content.length r.tailPieces).flatMap Insertion.text := by
  have hstarted {r : Logger} (hr : (construct c thread now memory file line call >>= fun r => r.log is) = .ok r) :
      Started file line r := by
    obtain ⟨r₀, hr₀, hlog⟩ := bind_eq_ok.mp hr
    exact (construct_started hm hcall hr₀).log hi hlog
  refine ⟨⟨?_, ?_⟩, ?_⟩
  · rintro ⟨r, out, hr, hout, htext⟩
    exact ⟨r, hr, ((hstarted hr).tail_iff hline).mp ⟨out, hout, htext⟩⟩
  · rintro ⟨r, hr, hspace⟩
    obtain ⟨out, hout, htext⟩ := ((hstarted hr).tail_iff hline).mpr hspace
    exact ⟨r, out, hr, hout, htext⟩
  · intro r hr hname
    obtain ⟨content, hc⟩ := (hstarted hr).stream
    rw [hc.content]
    exact destroy_appends (hstarted hr) hline hname hc

end Tail

/-- A record of `net/main.cc`, line 12, in a thread that has not logged before. -/
def mainRecord : Exec Logger :=
  @construct Build.debug .gregorian { clock := {}, tidString := chars " 4711 ", tidStringLength := 6, strerror_tl := fun _ => [] }
    1700000000000000 (List.replicate kSmallBuffer 0) (.ofLiteral (chars "net/main.cc")) 12 .line

-- A short message leaves enough space.
theorem tail_complete_iff_main :
    ((∃ r out, (mainRecord >>= fun r => r.log [.string (chars "started")]) = .ok r ∧ r.destroy = .ok out ∧
        out.1 = r.stream_.content ++ sourceTail (.ofLiteral (chars "net/main.cc")) 12) ↔
      ∃ r, (mainRecord >>= fun r => r.log [.string (chars "started")]) = .ok r ∧
        (((SourceFile.ofLiteral (chars "net/main.cc")).data_.length : ℕ) : ℤ) + 36 ≤ r.stream_.avail) ∧
      ∀ r, (mainRecord >>= fun r => r.log [.string (chars "started")]) = .ok r →
        (SourceFile.ofLiteral (chars "net/main.cc")).data_.length < 2 ^ 31 →
        ∃ out, r.destroy = .ok out ∧ out.1 = r.stream_.content ++
          (Insertion.accepted r.stream_.content.length r.tailPieces).flatMap Insertion.text :=
  @tail_complete_iff 12 Build.debug (List.replicate kSmallBuffer 0) .gregorian _ 1700000000000000 List.length_replicate
    (.ofLiteral (chars "net/main.cc")) .line _ (by decide) (by decide) (by decide)

-- A message of 3960 characters just fits, and then the record has no tail and no end of line.
theorem tail_cut :
    ¬∀ is : List Insertion, (∀ i ∈ is, i.Typed) →
      ∃ r out, (mainRecord >>= fun r => r.log is) = .ok r ∧ r.destroy = .ok out ∧
        sourceTail (.ofLiteral (chars "net/main.cc")) 12 <:+ out.1 := by
  intro h
  obtain ⟨r, out, hr, hout, htail⟩ := h [.string (List.replicate 3960 'x'.toUInt8)] (by decide)
  have hcut : ((mainRecord >>= fun r => r.log [.string (List.replicate 3960 'x'.toUInt8)]) >>= fun r => r.destroy).toOption.any
      (fun out => !decide (sourceTail (.ofLiteral (chars "net/main.cc")) 12 <:+ out.1)) = true := by
    decide +kernel
  rw [hr, ok_bind, hout] at hcut
  simp [Except.toOption, htail] at hcut

end Logger

end Networker
