import Networker.LogFileNames
import Networker.LogRecords

/-!
The time in front of every log line. Sorted as texts, the lines of all threads are in the order
of their times, to the microsecond, as long as the time zone keeps one offset.
-/

namespace Networker

open ByteVectors CharArrays CheckedRuns CivilCalendar DigitStrings SortedTexts

/-- In the time zone the clock shows the civil time `offset` seconds later, of a year with four digits. -/
structure ShownAt [Build] (c : TimeLibrary) (zone : TimeZone) (offset t : ℤ) : Prop where
  fields : ∃ tm, (if zone.valid then zone.toLocalTime c t else utcFields c t) = .ok tm ∧ tm.civilTime = ofSeconds (t + offset)
  year : 1000 ≤ (ofSeconds (t + offset)).date.year ∧ (ofSeconds (t + offset)).date.year < 10000

def timeFields : List (Line × ℕ) := [([], 4), ([], 2), ([], 2), (chars " ", 2), (chars ":", 2), (chars ":", 2)]

def stampFields : List (Line × ℕ) := timeFields ++ [(chars ".", 6)]

def microOf (time : ℤ) : ℕ := (time.tmod kMicroSecondsPerSecond).toNat

def stampNumbers (offset time : ℤ) : List ℕ := (ofSeconds (secondOf time + offset)).numbers ++ [microOf time]

section Zones

variable [Build] {c : TimeLibrary} {t offset : ℤ}

theorem Shows.unset (h : Shows c t) : ShownAt c {} 0 t where
  fields := by
    obtain ⟨tm, htm, hciv⟩ := h.fields
    exact ⟨tm, by rw [if_neg (by decide), utcFields, htm], by rw [hciv, Int.add_zero]⟩
  year := by
    rw [Int.add_zero]
    exact h.year

theorem Shows.ofOffset (h : Shows c (t + offset)) (hrange : InInt64 (t + offset)) (name : Line) :
    ShownAt c (.ofOffset offset name) offset t where
  fields := by
    obtain ⟨tm, htm, hciv⟩ := h.fields
    have hlocal : int64 (t + offset) = .ok (t + offset) := if_pos hrange
    have hfront : findLocaltime { localtimes := [⟨offset, false, 0⟩], abbreviation := name } ⟨t, 0, 0⟩ ⟨true⟩ =
        .ok ⟨offset, false, 0⟩ := rfl
    refine ⟨{ tm with isdst := 0, gmtoff := offset, zone := some { base := name } }, ?_, hciv⟩
    rw [if_pos (show (TimeZone.ofOffset offset name).valid = true from rfl), TimeZone.toLocalTime, TimeZone.access, assert_pos (by simp [TimeZone.ofOffset]), ok_bind]
    dsimp only [TimeZone.ofOffset]
    rw [ok_bind, hfront, ok_bind, hlocal, ok_bind, htm]
    rfl
  year := h.year

/-- No time zone is set, or one of a fixed offset. -/
def FixedOffset (zone : TimeZone) (offset : ℤ) : Prop := zone = {} ∧ offset = 0 ∨ ∃ name, zone = .ofOffset offset name

theorem FixedOffset.shownAt {zone : TimeZone} (hz : FixedOffset zone offset) (h : Shows c (t + offset))
    (hrange : InInt64 (t + offset)) : ShownAt c zone offset t := by
  rcases hz with ⟨rfl, rfl⟩ | ⟨name, rfl⟩
  · rw [Int.add_zero] at h
    exact h.unset
  · exact h.ofOffset hrange name

end Zones

section Texts

variable {x : CivilTime} {offset s t : ℤ}

theorem spacePadded_eq {v : ℤ} (hv : 1000 ≤ v ∧ v < 10000) : spacePadded 4 v = padded 4 v.toNat := by
  rw [spacePadded, decimalText_eq hv, padded_length, Nat.sub_self]
  rfl

theorem timeFields_fits (hx : x.Valid) (hy : 1000 ≤ x.date.year ∧ x.date.year < 10000) : Fits timeFields x.numbers := by
  have hm := hx.date.month
  have hd := hx.date.day
  have hle := daysInMonth_le x.date.year x.date.month
  obtain ⟨-, hh, hmin, hs⟩ := hx
  exact .cons (by dsimp only; omega) (.cons (by dsimp only; omega) (.cons (by dsimp only; omega)
    (.cons (by dsimp only; omega) (.cons (by dsimp only; omega) (.cons (by dsimp only; omega) .nil)))))

theorem micro_lt (t : ℤ) : microOf t < 10 ^ 6 := by
  unfold microOf kMicroSecondsPerSecond
  have hlt : t.tmod (1000 * 1000) < 1000 * 1000 := Int.tmod_lt_of_pos _ (by decide)
  omega

/-- The seconds and the microseconds make up the time. -/
theorem time_eq (ht : 0 ≤ t) : t = secondOf t * 1000000 + microOf t := by
  unfold secondOf microOf kMicroSecondsPerSecond
  rw [Int.tdiv_eq_ediv_of_nonneg ht, Int.tmod_eq_emod_of_nonneg ht]
  omega

theorem stampFields_fits
    (hy : 1000 ≤ (ofSeconds (secondOf s + offset)).date.year ∧ (ofSeconds (secondOf s + offset)).date.year < 10000) :
    Fits stampFields (stampNumbers offset s) :=
  List.rel_append (timeFields_fits (ofSeconds_valid _) hy) (.cons (micro_lt s) .nil)

variable [Build] {c : TimeLibrary} {zone : TimeZone}

theorem stampNumbers_lt_iff (hs : 0 ≤ s) (ht : 0 ≤ t) (hss : ShownAt c zone offset (secondOf s))
    (hst : ShownAt c zone offset (secondOf t)) : stampNumbers offset s < stampNumbers offset t ↔ s < t := by
  have hsy := hss.year
  have hty := hst.year
  have hse := time_eq hs
  have hte := time_eq ht
  have hsm := micro_lt s
  have htm := micro_lt t
  have hlength : (ofSeconds (secondOf s + offset)).numbers.length = (ofSeconds (secondOf t + offset)).numbers.length := rfl
  rw [stampNumbers, stampNumbers, append_lt_append_iff hlength, ofSeconds_numbers_lt_iff (by omega) (by omega),
    ofSeconds_numbers_inj (by omega) (by omega), List.cons_lt_cons_iff]
  simp only [List.lt_irrefl, and_false, or_false]
  omega

theorem stamp_times_lt_iff (hs : 0 ≤ s) (ht : 0 ≤ t) (hss : ShownAt c zone offset (secondOf s))
    (hst : ShownAt c zone offset (secondOf t)) :
    stamp stampFields (stampNumbers offset s) < stamp stampFields (stampNumbers offset t) ↔ s < t := by
  rw [stamp_lt_iff (stampFields_fits hss.year) (stampFields_fits hst.year), stampNumbers_lt_iff hs ht hss hst]

theorem stamp_times_inj (hs : 0 ≤ s) (ht : 0 ≤ t) (hss : ShownAt c zone offset (secondOf s))
    (hst : ShownAt c zone offset (secondOf t)) :
    stamp stampFields (stampNumbers offset s) = stamp stampFields (stampNumbers offset t) ↔ s = t :=
  eq_iff_of_lt_iff text_irrefl (stamp_times_lt_iff hs ht hss hst) (stamp_times_lt_iff ht hs hst hss) fun h => by rw [h]

omit [Build] in
theorem timeText_length (x : CivilTime) : (stamp timeFields x.numbers).length = 17 := by
  simp [stamp, timeFields, CivilTime.numbers, CivilDate.numbers, padded_length, chars]

/-- The assertion on the length of the text holds. -/
theorem dateTime_eq (h : ShownAt c zone offset t) :
    dateTime c zone t = .ok (stamp timeFields (ofSeconds (t + offset)).numbers) := by
  obtain ⟨⟨tm, htm, hciv⟩, hyear⟩ := h
  have hvalid := ofSeconds_valid (t + offset)
  rw [← hciv] at hvalid hyear ⊢
  have hm : 1 ≤ tm.mon + 1 ∧ tm.mon + 1 ≤ 12 := hvalid.date.month
  have hd : 1 ≤ tm.mday ∧ tm.mday ≤ daysInMonth (tm.year + 1900) (tm.mon + 1) := hvalid.date.day
  have hle := daysInMonth_le (tm.year + 1900) (tm.mon + 1)
  have hh : 0 ≤ tm.hour ∧ tm.hour < 24 := hvalid.hour
  have hmin : 0 ≤ tm.min ∧ tm.min < 60 := hvalid.minute
  have hs : 0 ≤ tm.sec ∧ tm.sec < 60 := hvalid.second
  have hy : 1000 ≤ tm.year + 1900 ∧ tm.year + 1900 < 10000 := hyear
  have hyint : int32 (tm.year + 1900) = .ok (tm.year + 1900) := if_pos (by constructor <;> omega)
  have hmint : int32 (tm.mon + 1) = .ok (tm.mon + 1) := if_pos (by constructor <;> omega)
  have htext : spacePadded 4 (tm.year + 1900) ++ zeroPadded 2 (tm.mon + 1) ++ zeroPadded 2 tm.mday ++ chars " " ++
      zeroPadded 2 tm.hour ++ chars ":" ++ zeroPadded 2 tm.min ++ chars ":" ++ zeroPadded 2 tm.sec =
        stamp timeFields tm.civilTime.numbers := by
    rw [spacePadded_eq hy, zeroPadded_eq (by decide) (by omega), zeroPadded_eq (by decide) (by omega),
      zeroPadded_eq (by decide) (by omega), zeroPadded_eq (by decide) (by omega), zeroPadded_eq (by decide) (by omega)]
    simp [stamp, timeFields, CivilTime.numbers, CivilDate.numbers, Tm.civilTime]
  have hlength := timeText_length tm.civilTime
  have htake : (stamp timeFields tm.civilTime.numbers).take 63 = stamp timeFields tm.civilTime.numbers :=
    List.take_of_length_le (by omega)
  unfold dateTime
  by_cases hzone : zone.valid = true
  · rw [if_pos hzone] at htm
    simp only [hzone, if_true, htm, ok_bind, hyint, hmint, htext, assert_pos hlength, htake]
    rfl
  · rw [if_neg hzone] at htm
    rw [Bool.not_eq_true] at hzone
    simp only [hzone, Bool.false_eq_true, if_false, htm, ok_bind, hyint, hmint, htext, assert_pos hlength, htake]
    rfl

end Texts

/-- Records only, so that the time zone is never set again. -/
def RecordsOnly (_ : LogClock) : LogEvent → Prop
  | .record microSecondsSinceEpoch => 1000000 ≤ microSecondsSinceEpoch
  | .setTimeZone _ => False

instance (s : LogClock) : (e : LogEvent) → Decidable (RecordsOnly s e)
  | .record microSecondsSinceEpoch => Int.decLe 1000000 microSecondsSinceEpoch
  | .setTimeZone _ => inferInstanceAs (Decidable False)

/-- The text that is kept belongs to the second and the time zone. -/
structure Steady [Build] (c : TimeLibrary) (zone : TimeZone) (s : LogClock) : Prop where
  fixed : s.g_logTimeZone = zone
  shown : s.t_lastSecond = 0 ∨ dateTime c zone s.t_lastSecond = .ok s.t_time

section Clocks

variable [Build] {c : TimeLibrary} {zone : TimeZone} {offset time : ℤ} {s t : LogClock}

theorem T_piece_eq {text : Line} {len : ℕ} (h : text.length = len) : T.piece text len = .ok (.append text) := by
  rw [T.piece, assert_pos h, ok_bind, if_pos (Nat.le_of_eq h.symm), List.take_of_length_le (Nat.le_of_eq h)]
  rfl

theorem Steady.step (h : Steady c zone s) (ht : 1000000 ≤ time) (hs : s.step c (.record time) = .ok t) : Steady c zone t := by
  rw [LogClock.step, formatTime_eq c s (by omega), LogClock.refresh] at hs
  split_ifs at hs with hnew
  · obtain ⟨out, hout, hlater⟩ := bind_eq_ok.mp hs
    obtain ⟨s₁, hrefresh, hpiece⟩ := bind_eq_ok.mp hout
    obtain ⟨text, htext, hnext⟩ := bind_eq_ok.mp hrefresh
    obtain ⟨date, -, hpair⟩ := bind_eq_ok.mp hpiece
    rw [← Except.ok.inj hlater, ← Except.ok.inj hpair, ← Except.ok.inj hnext]
    rw [h.fixed] at htext
    exact ⟨h.fixed, Or.inr htext⟩
  · obtain ⟨out, hout, hlater⟩ := bind_eq_ok.mp hs
    rw [ok_bind] at hout
    obtain ⟨date, -, hpair⟩ := bind_eq_ok.mp hout
    rw [← Except.ok.inj hlater, ← Except.ok.inj hpair]
    exact h

theorem records_steady {es : List LogEvent}
    (h : Path (LogClock.step c) RecordsOnly { g_logTimeZone := zone } es s) : Steady c zone s := by
  refine h.invariant ⟨rfl, Or.inl rfl⟩ fun t e u ht ha hs => ?_
  cases e with
  | record time => exact ht.step ha hs
  | setTimeZone tz => exact ha.elim

/-- Kept or new, the text of the record is the one of its time. -/
theorem Steady.formatTime (h : Steady c zone s) (ht : 1000000 ≤ time) (hshown : ShownAt c zone offset (secondOf time)) :
    ∃ s', formatTime c s time =
      .ok (s', [.append (stamp timeFields (ofSeconds (secondOf time + offset)).numbers), microPiece zone time]) := by
  have hdate := dateTime_eq hshown
  have hpiece := T_piece_eq (timeText_length (ofSeconds (secondOf time + offset)))
  have hpos := secondOf_pos ht
  rw [formatTime_eq c s (by omega), LogClock.refresh]
  split_ifs with hnew
  · rw [h.fixed, hdate, ok_bind]
    refine ⟨{ s with
      t_lastSecond := secondOf time
      t_time := stamp timeFields (ofSeconds (secondOf time + offset)).numbers }, ?_⟩
    simp only [pure_bind, hpiece, ok_bind, h.fixed]
    rfl
  · rw [not_not] at hnew
    have hkept : s.t_time = stamp timeFields (ofSeconds (secondOf time + offset)).numbers := by
      rcases h.shown with hzero | hkept
      · omega
      · rw [← hnew, hdate] at hkept
        exact (Except.ok.inj hkept).symm
    rw [ok_bind, hkept, hpiece, ok_bind, h.fixed]
    exact ⟨s, rfl⟩

end Clocks

namespace LogStream

section Prefixes

variable {s t : LogStream} {c : Line}

/-- Whatever is inserted, what is there already stays. -/
theorem insert_extends (h : s.Contains c) {i : Insertion} (hi : i.Typed) (hok : s.insert i = .ok t) :
    ∃ more, t.Contains (c ++ more) := by
  have hvalid (hv : i.Valid) : ∃ more, t.Contains (c ++ more) := by
    obtain ⟨u, hu, hc⟩ := insert_contains h hv
    cases hu.symm.trans hok
    exact ⟨_, hc⟩
  cases hnum : i.numeric with
  | true =>
    cases i with
    | integer kind v => exact hvalid hi
    | pointer v => exact hvalid hi
    | floating text => exact hvalid hi
    | _ => cases hnum
  | false =>
    rw [insert_text s hnum] at hok
    by_cases hlong : i.text.length < 2 ^ 31
    · obtain ⟨u, hu, hc⟩ := h.append kSmallBuffer_int hlong
      cases hu.symm.trans hok
      exact ⟨_, hc⟩
    · have hsize := h.size
      have hsmall := kSmallBuffer_int
      unfold CharBuffer.append memcpy at hok
      rw [if_neg (show ¬s.cur_ + i.text.length ≤ s.data_.length by omega)] at hok
      split at hok
      · cases hok
      · cases hok
        exact ⟨[], by rwa [List.append_nil]⟩

theorem insertAll_extends (h : s.Contains c) {is : List Insertion} (hi : ∀ i ∈ is, i.Typed) (hok : s.insertAll is = .ok t) :
    ∃ more, t.Contains (c ++ more) := by
  induction is generalizing s c with
  | nil =>
    cases hok
    exact ⟨[], by rwa [List.append_nil]⟩
  | cons i is ih =>
    rw [insertAll, List.foldlM_cons] at hok
    obtain ⟨u, hu, hlater⟩ := bind_eq_ok.mp hok
    obtain ⟨more, hc⟩ := insert_extends h (hi i List.mem_cons_self) hu
    obtain ⟨rest, hrest⟩ := ih hc (fun j hj => hi j (List.mem_cons_of_mem _ hj)) hlater
    exact ⟨more ++ rest, by rwa [← List.append_assoc]⟩

theorem insert_short (h : s.Contains c) (text : Line) (hroom : c.length + text.length < kSmallBuffer) :
    ∃ t : LogStream, s.insert (.append text) = .ok t ∧ t.Contains (c ++ text) := by
  have hsmall := kSmallBuffer_int
  have hvalid : (Insertion.append text).Valid := show text.length < 2 ^ 31 by omega
  have hpasses : (Insertion.append text).Passes s.avail := by
    rw [h.avail_eq kSmallBuffer_int]
    exact show (text.length : ℤ) < kSmallBuffer - c.length by omega
  obtain ⟨t, ht, hc⟩ := insert_contains h hvalid
  rw [if_pos hpasses] at hc
  exact ⟨t, ht, hc⟩

end Prefixes

end LogStream

/-- One statement that logs: the constructor, what is inserted, and the destructor. -/
structure LogLine where
  thread : LogThread
  time : ℤ
  memory : List UInt8
  file : SourceFile
  line : ℤ
  call : Logger.Call
  inserted : List Insertion

namespace LogLine

section Lines

variable [Build] (c : TimeLibrary) (x : LogLine)

def write : Exec (Line × Bool) := do
  let r ← Logger.construct c x.thread x.time x.memory x.file x.line x.call
  let r ← r.log x.inserted
  r.destroy

/-- The time zone shows a year with four digits, and since it was set the thread has logged records only. -/
structure Sound (zone : TimeZone) (offset : ℤ) : Prop where
  memory : x.memory.length = kSmallBuffer
  line : IntegerKind.int.type.Holds x.line
  call : x.call.Typed
  inserted : ∀ i ∈ x.inserted, i.Typed
  time : 1000000 ≤ x.time
  clock : ∃ es, Path (LogClock.step c) RecordsOnly { g_logTimeZone := zone } es x.thread.clock
  zone : FixedOffset zone offset
  shown : Shows c (secondOf x.time + offset)
  range : InInt64 (secondOf x.time + offset)

def stamp (offset : ℤ) : Line := SortedTexts.stamp stampFields (stampNumbers offset x.time)

variable {c : TimeLibrary} {x : LogLine} {zone : TimeZone} {offset : ℤ}

omit [Build] in
theorem stamp_eq (x : LogLine) (offset : ℤ) (ht : 0 ≤ x.time) : x.stamp offset =
    SortedTexts.stamp timeFields (ofSeconds (secondOf x.time + offset)).numbers ++ chars "." ++
      zeroPadded 6 (x.time.tmod kMicroSecondsPerSecond) := by
  have hmod : 0 ≤ x.time.tmod kMicroSecondsPerSecond := Int.tmod_nonneg _ ht
  have hlt : x.time.tmod kMicroSecondsPerSecond < 10 ^ 6 := Int.tmod_lt_of_pos _ (by decide)
  rw [zeroPadded_eq (by decide) ⟨hmod, hlt⟩]
  simp [stamp, SortedTexts.stamp, stampFields, timeFields, stampNumbers, microOf, CivilTime.numbers, CivilDate.numbers]

omit [Build] in
theorem stamp_length (x : LogLine) (offset : ℤ) : (x.stamp offset).length = 24 := by
  simp [stamp, SortedTexts.stamp, stampFields, timeFields, stampNumbers, CivilTime.numbers, CivilDate.numbers, padded_length,
    chars]

theorem Sound.shownAt (h : x.Sound c zone offset) : ShownAt c zone offset (secondOf x.time) := h.zone.shownAt h.shown h.range

/-- A stream that has taken in the date and the microseconds first. -/
theorem Sound.stamped_extends (h : x.Sound c zone offset) {pieces : List Insertion} {s : LogStream}
    (hpieces : ∃ level savedErrno, Logger.header c x.thread x.time level savedErrno = .ok pieces)
    (htyped : ∀ i ∈ pieces, i.Typed) (hs : LogStream.insertAll { data_ := x.memory } pieces = .ok s) :
    ∃ more, s.Contains (x.stamp offset ++ more) := by
  have htime : 0 ≤ x.time := le_trans (by decide) h.time
  obtain ⟨es, hclock⟩ := h.clock
  obtain ⟨clock, hformat⟩ := (records_steady hclock).formatTime h.time h.shownAt
  obtain ⟨level, savedErrno, hheader⟩ := hpieces
  rw [Logger.header, hformat, ok_bind] at hheader
  obtain ⟨tid, -, hheader⟩ := bind_eq_ok.mp hheader
  obtain ⟨name, -, hheader⟩ := bind_eq_ok.mp hheader
  obtain ⟨rest, rfl⟩ : ∃ rest, pieces = .append (SortedTexts.stamp timeFields (ofSeconds (secondOf x.time + offset)).numbers) ::
      microPiece zone x.time :: rest := by
    rw [← Except.ok.inj hheader]
    exact ⟨_, rfl⟩
  have hdate := timeText_length (ofSeconds (secondOf x.time + offset))
  have hzeros : (zeroPadded 6 (x.time.tmod kMicroSecondsPerSecond)).length = 6 :=
    zeroPadded_length (by decide) ⟨Int.tmod_nonneg _ htime, Int.tmod_lt_of_pos _ (by decide)⟩
  have hmicro : (microText zone (x.time.tmod kMicroSecondsPerSecond)).length ≤ 9 := by
    unfold microText
    split <;> rw [List.length_append, List.length_append, hzeros] <;> decide
  have hsize : 26 < kSmallBuffer := by decide
  obtain ⟨s₁, hs₁, hc₁⟩ := LogStream.insert_short (LogStream.new_contains h.memory)
    (SortedTexts.stamp timeFields (ofSeconds (secondOf x.time + offset)).numbers)
    (by rw [hdate, List.length_nil]; omega)
  rw [List.nil_append] at hc₁
  obtain ⟨s₂, hs₂, hc₂⟩ := LogStream.insert_short hc₁ (microText zone (x.time.tmod kMicroSecondsPerSecond))
    (by rw [hdate]; omega)
  rw [LogStream.insertAll, List.foldlM_cons, hs₁, ok_bind, List.foldlM_cons, microPiece, hs₂, ok_bind] at hs
  obtain ⟨more, hmore⟩ := LogStream.insertAll_extends hc₂
    (fun i hi => htyped i (List.mem_cons_of_mem _ (List.mem_cons_of_mem _ hi))) hs
  refine ⟨chars (if zone.valid then " " else "Z ") ++ more, ?_⟩
  have hcontent : x.stamp offset ++ (chars (if zone.valid then " " else "Z ") ++ more) =
      SortedTexts.stamp timeFields (ofSeconds (secondOf x.time + offset)).numbers ++
        microText zone (x.time.tmod kMicroSecondsPerSecond) ++ more := by
    rw [stamp_eq x offset htime, microText]
    simp only [List.append_assoc]
  rw [hcontent]
  exact hmore

theorem Sound.construct_stamped (h : x.Sound c zone offset) {r : Logger}
    (hr : Logger.construct c x.thread x.time x.memory x.file x.line x.call = .ok r) :
    ∃ more, r.stream_.Contains (x.stamp offset ++ more) := by
  have hblock {level : LogLevel} {savedErrno : ℤ} (he : IntegerKind.int.type.Holds savedErrno) {r : Logger}
      (hr : Logger.recordBlock c x.thread x.time x.memory level savedErrno x.file x.line = .ok r) :
      ∃ more, r.stream_.Contains (x.stamp offset ++ more) := by
    obtain ⟨pieces, hpieces, hr⟩ := bind_eq_ok.mp hr
    obtain ⟨s, hs, hr⟩ := bind_eq_ok.mp hr
    cases hr
    exact h.stamped_extends ⟨level, savedErrno, hpieces⟩ (Logger.header_typed he hpieces) hs
  have hcall := h.call
  cases hx : x.call with
  | line =>
    rw [hx] at hr
    exact hblock (by decide) hr
  | level level =>
    rw [hx] at hr
    exact hblock (by decide) hr
  | function level func =>
    rw [hx] at hr
    obtain ⟨r₀, hr₀, hr⟩ := bind_eq_ok.mp hr
    obtain ⟨s, hs, hr⟩ := bind_eq_ok.mp hr
    cases hr
    obtain ⟨more, hmore⟩ := hblock (by decide) hr₀
    obtain ⟨rest, hrest⟩ := LogStream.insertAll_extends hmore (by simp [Insertion.Typed]) hs
    exact ⟨more ++ rest, by rwa [← List.append_assoc]⟩
  | errno toAbort errno =>
    rw [hx] at hr hcall
    exact hblock hcall hr

/-- The line begins with the stamp of its time. -/
theorem Sound.write_stamped (h : x.Sound c zone offset) {out : Line × Bool} (hout : x.write c = .ok out) :
    ∃ more, out.1 = x.stamp offset ++ more := by
  obtain ⟨r, hr, hout⟩ := bind_eq_ok.mp hout
  obtain ⟨r', hr', hout⟩ := bind_eq_ok.mp hout
  have hstarted := (Logger.construct_started h.memory h.call hr).log h.inserted hr'
  obtain ⟨more, hmore⟩ := h.construct_stamped hr
  obtain ⟨s, hs, hr'⟩ := bind_eq_ok.mp hr'
  cases hr'
  obtain ⟨message, hmessage⟩ := LogStream.insertAll_extends hmore h.inserted hs
  obtain ⟨final, hfinal, hout⟩ := bind_eq_ok.mp hout
  obtain ⟨s', hs', hfinal⟩ := bind_eq_ok.mp hfinal
  cases hfinal
  obtain ⟨tail, htail⟩ := LogStream.insertAll_extends hmessage (Logger.tailPieces_typed hstarted h.line) hs'
  refine ⟨more ++ message ++ tail, ?_⟩
  rw [← Except.ok.inj hout]
  dsimp only
  rw [Logger.output_eq htail]
  simp only [List.append_assoc]

/-- Every line begins with a stamp of 24 characters. The stamps are in the order of the times, and so are the lines. -/
theorem lines_sorted {y : LogLine} (hx : x.Sound c zone offset) (hy : y.Sound c zone offset) {out out' : Line × Bool}
    (hout : x.write c = .ok out) (hout' : y.write c = .ok out') :
    x.stamp offset <+: out.1 ∧ y.stamp offset <+: out'.1 ∧ (x.stamp offset).length = 24 ∧
      (x.stamp offset < y.stamp offset ↔ x.time < y.time) ∧ (x.stamp offset = y.stamp offset ↔ x.time = y.time) ∧
      (x.time < y.time → out.1 < out'.1) := by
  have hxt : 0 ≤ x.time := le_trans (by decide) hx.time
  have hyt : 0 ≤ y.time := le_trans (by decide) hy.time
  have hlt : x.stamp offset < y.stamp offset ↔ x.time < y.time := stamp_times_lt_iff hxt hyt hx.shownAt hy.shownAt
  have hinj : x.stamp offset = y.stamp offset ↔ x.time = y.time := stamp_times_inj hxt hyt hx.shownAt hy.shownAt
  obtain ⟨more, hmore⟩ := hx.write_stamped hout
  obtain ⟨more', hmore'⟩ := hy.write_stamped hout'
  refine ⟨⟨more, hmore.symm⟩, ⟨more', hmore'.symm⟩, stamp_length x offset, hlt, hinj, fun h => ?_⟩
  rw [hmore, hmore', append_lt_append_iff (by rw [stamp_length, stamp_length])]
  exact Or.inl (hlt.mpr h)

end Lines

/-- A line of a thread that has remembered the second, eight hours east of UTC. -/
def remembered : LogLine where
  thread :=
    { clock := { t_time := chars "20231115 06:13:20", t_lastSecond := 1700000000, g_logTimeZone := .ofOffset 28800 (chars "CST") }
      tidString := chars " 4711 ", tidStringLength := 6, strerror_tl := fun _ => [] }
  time := 1700000000999999
  memory := List.replicate kSmallBuffer 0
  file := .ofLiteral (chars "net/main.cc")
  line := 12
  call := .level .WARN
  inserted := [.string (chars "zzz")]

/-- One microsecond later in another thread, which has not logged before. -/
def newThread : LogLine :=
  { remembered with
    thread :=
      { clock := { g_logTimeZone := .ofOffset 28800 (chars "CST") }
        tidString := chars " 4712 ", tidStringLength := 6, strerror_tl := fun _ => [] }
    time := 1700000001000000, call := .line, inserted := [] }

theorem lines_sorted_threads :
    letI := Build.debug
    ∃ out out', remembered.write .gregorian = .ok out ∧ newThread.write .gregorian = .ok out' ∧
      remembered.stamp 28800 = chars "20231115 06:13:20.999999" ∧ remembered.stamp 28800 <+: out.1 ∧ out.1 < out'.1 := by
  let _ := Build.debug
  have hx : remembered.Sound .gregorian (.ofOffset 28800 (chars "CST")) 28800 :=
    { memory := List.length_replicate, line := by decide, call := trivial, inserted := by decide, time := by decide
      clock := ⟨[.record 1700000000000000], .snoc (LogEvent.record 1700000000000000) .nil (by decide) (by decide +kernel)⟩
      zone := Or.inr ⟨_, rfl⟩, shown := gregorian_shows (by decide), range := by decide }
  have hy : newThread.Sound .gregorian (.ofOffset 28800 (chars "CST")) 28800 :=
    { memory := List.length_replicate, line := by decide, call := trivial, inserted := by decide, time := by decide
      clock := ⟨[], .nil⟩
      zone := Or.inr ⟨_, rfl⟩, shown := gregorian_shows (by decide), range := by decide }
  obtain ⟨out, hout, -⟩ := exists_ok_of_any (x := remembered.write .gregorian) (fun _ => true) (by decide +kernel)
  obtain ⟨out', hout', -⟩ := exists_ok_of_any (x := newThread.write .gregorian) (fun _ => true) (by decide +kernel)
  obtain ⟨hpre, -, -, -, -, hlines⟩ := lines_sorted hx hy hout hout'
  exact ⟨out, out', hout, hout', by decide +kernel, hpre, hlines (by decide)⟩

end LogLine

end Networker
