import Networker.CivilStamps
import Networker.LogReassembly
import Networker.LogTimes

/-!
The names that `LogFile::getLogFileName` prints. Sorted as texts the `.log` files are in the
order of their days and the `.roll` files in the order of their seconds.
-/

namespace Networker

open CheckedRuns CivilCalendar DigitStrings SortedTexts

/-- Into the 32 bytes of `timebuf`; of a longer text it leaves the buffer undefined. -/
def strftime (text : Line) : Exec Line := if text.length < 32 then .ok text else .error .undefined

namespace LogFile

/-- The name of the file to open, and if `isRoll` is set the name that the old file gets. -/
def getLogFileNames (c : TimeLibrary) (basename hostname : Line) (now : ℤ) (isRoll : Bool) : Exec (Line × Option Line) := do
  let tm ← utcFields c now
  -- `%Y%m%d.`
  let timebuf ← strftime (decimalText (tm.year + 1900) ++ zeroPadded 2 (tm.mon + 1) ++ zeroPadded 2 tm.mday ++ chars ".")
  let filename := basename ++ timebuf ++ hostname ++ chars ".log"
  if isRoll then do
    -- `-%Y%m%d_%H%M%S`
    let timebuf ← strftime (chars "-" ++ decimalText (tm.year + 1900) ++ zeroPadded 2 (tm.mon + 1) ++ zeroPadded 2 tm.mday ++
      chars "_" ++ zeroPadded 2 tm.hour ++ zeroPadded 2 tm.min ++ zeroPadded 2 tm.sec)
    return (filename, some (filename ++ timebuf ++ chars ".roll"))
  else return (filename, none)

end LogFile

/-- What `gmtime_r` makes of the time is the civil time, of a year with four digits. -/
structure Shows (c : TimeLibrary) (t : ℤ) : Prop where
  fields : ∃ tm, c.gmtime_r t = some tm ∧ tm.civilTime = ofSeconds t
  year : 1000 ≤ (ofSeconds t).date.year ∧ (ofSeconds t).date.year < 10000

section Fields

theorem zeroPadded_eq {width : ℕ} {v : ℤ} (hw : 0 < width) (hv : 0 ≤ v ∧ v < 10 ^ width) :
    zeroPadded width v = padded width v.toNat := by
  have hsign : sign v = [] := if_neg (by omega)
  have habs : v.natAbs = v.toNat := by omega
  have hpow : ((10 ^ width : ℕ) : ℤ) = 10 ^ width := Int.natCast_pow 10 width
  rw [zeroPadded, decimalText, hsign, habs, padded_eq hw (by omega)]
  rfl

theorem decimalText_eq {v : ℤ} (hv : 1000 ≤ v ∧ v < 10000) : decimalText v = padded 4 v.toNat := by
  have hsign : sign v = [] := if_neg (by omega)
  have habs : v.natAbs = v.toNat := by omega
  have hlong : 4 ≤ (numeral 10 v.toNat).length := by
    have hdigits : 3 < (Nat.digits 10 v.toNat).length := (Nat.lt_digits_length_iff (by decide) _).mpr (by omega)
    rw [numeral, List.length_reverse, List.length_map, littleDigits, if_neg (by omega)]
    exact hdigits
  rw [decimalText, hsign, habs, padded_eq (by decide) (by omega), Nat.sub_eq_zero_of_le hlong]
  rfl

def dateFields : List (Line × ℕ) := [([], 4), ([], 2), ([], 2)]

def rollFields : List (Line × ℕ) := [(chars "-", 4), ([], 2), ([], 2), (chars "_", 2), ([], 2), ([], 2)]

variable {x : CivilTime}

theorem dateFields_fits (hx : x.Valid) (hy : 1000 ≤ x.date.year ∧ x.date.year < 10000) :
    Fits dateFields x.date.numbers := by
  have hm := hx.date.month
  have hd := hx.date.day
  have hle := daysInMonth_le x.date.year x.date.month
  exact .cons (by dsimp only; omega) (.cons (by dsimp only; omega) (.cons (by dsimp only; omega) .nil))

theorem rollFields_fits (hx : x.Valid) (hy : 1000 ≤ x.date.year ∧ x.date.year < 10000) : Fits rollFields x.numbers := by
  have hm := hx.date.month
  have hd := hx.date.day
  have hle := daysInMonth_le x.date.year x.date.month
  obtain ⟨-, hh, hmin, hs⟩ := hx
  exact .cons (by dsimp only; omega) (.cons (by dsimp only; omega) (.cons (by dsimp only; omega)
    (.cons (by dsimp only; omega) (.cons (by dsimp only; omega) (.cons (by dsimp only; omega) .nil)))))

variable {tm : Tm}

theorem dateText_eq (hx : tm.civilTime.Valid) (hy : 1000 ≤ tm.year + 1900 ∧ tm.year + 1900 < 10000) :
    decimalText (tm.year + 1900) ++ zeroPadded 2 (tm.mon + 1) ++ zeroPadded 2 tm.mday =
      stamp dateFields tm.civilTime.date.numbers := by
  have hm : 1 ≤ tm.mon + 1 ∧ tm.mon + 1 ≤ 12 := hx.date.month
  have hd : 1 ≤ tm.mday ∧ tm.mday ≤ daysInMonth (tm.year + 1900) (tm.mon + 1) := hx.date.day
  have hle := daysInMonth_le (tm.year + 1900) (tm.mon + 1)
  rw [decimalText_eq hy, zeroPadded_eq (by decide) (by omega), zeroPadded_eq (by decide) (by omega)]
  simp [stamp, dateFields, CivilDate.numbers, Tm.civilTime]

theorem rollText_eq (hx : tm.civilTime.Valid) (hy : 1000 ≤ tm.year + 1900 ∧ tm.year + 1900 < 10000) :
    chars "-" ++ decimalText (tm.year + 1900) ++ zeroPadded 2 (tm.mon + 1) ++ zeroPadded 2 tm.mday ++
      chars "_" ++ zeroPadded 2 tm.hour ++ zeroPadded 2 tm.min ++ zeroPadded 2 tm.sec =
        stamp rollFields tm.civilTime.numbers := by
  have hm : 1 ≤ tm.mon + 1 ∧ tm.mon + 1 ≤ 12 := hx.date.month
  have hd : 1 ≤ tm.mday ∧ tm.mday ≤ daysInMonth (tm.year + 1900) (tm.mon + 1) := hx.date.day
  have hle := daysInMonth_le (tm.year + 1900) (tm.mon + 1)
  have hh : 0 ≤ tm.hour ∧ tm.hour < 24 := hx.hour
  have hmin : 0 ≤ tm.min ∧ tm.min < 60 := hx.minute
  have hs : 0 ≤ tm.sec ∧ tm.sec < 60 := hx.second
  rw [decimalText_eq hy, zeroPadded_eq (by decide) (by omega), zeroPadded_eq (by decide) (by omega),
    zeroPadded_eq (by decide) (by omega), zeroPadded_eq (by decide) (by omega), zeroPadded_eq (by decide) (by omega)]
  simp [stamp, rollFields, CivilTime.numbers, CivilDate.numbers, Tm.civilTime]

end Fields

section Names

variable {c : TimeLibrary} {t : ℤ}

theorem strftime_eq {text : Line} (h : text.length < 32) : strftime text = .ok text := if_pos h

theorem getLogFileNames_eq (h : Shows c t) (basename hostname : Line) :
    let filename := basename ++ (stamp dateFields (ofSeconds t).date.numbers ++ chars ".") ++ hostname ++ chars ".log"
    LogFile.getLogFileNames c basename hostname t true =
      .ok (filename, some (filename ++ stamp rollFields (ofSeconds t).numbers ++ chars ".roll")) := by
  intro filename
  obtain ⟨⟨tm, htm, hciv⟩, hyear⟩ := h
  have hvalid := ofSeconds_valid t
  rw [← hciv] at hvalid hyear
  have hlong : (stamp dateFields tm.civilTime.date.numbers ++ chars ".").length < 32 := by
    simp [stamp, dateFields, CivilDate.numbers, padded_length, chars]
  have hlonger : (stamp rollFields tm.civilTime.numbers).length < 32 := by
    simp [stamp, rollFields, CivilTime.numbers, CivilDate.numbers, padded_length, chars]
  have hfields : utcFields c t = .ok tm := by rw [utcFields, htm]
  unfold LogFile.getLogFileNames
  rw [hfields, ok_bind, dateText_eq hvalid hyear, strftime_eq hlong, ok_bind, if_pos rfl, rollText_eq hvalid hyear,
    strftime_eq hlonger, ok_bind, hciv]
  rfl

theorem dateFields_lt_iff {s : ℤ} (hs : Shows c s) (ht : Shows c t) :
    stamp dateFields (ofSeconds s).date.numbers < stamp dateFields (ofSeconds t).date.numbers ↔
      LogFile.day s < LogFile.day t := by
  have hsvalid := ofSeconds_valid s
  have htvalid := ofSeconds_valid t
  have hsyear := hs.year
  have htyear := ht.year
  have hsday : dayNumber (ofSeconds s).date = s / 86400 + epochDay := dayNumber_ofDayNumber _
  have htday : dayNumber (ofSeconds t).date = t / 86400 + epochDay := dayNumber_ofDayNumber _
  rw [stamp_lt_iff (dateFields_fits hsvalid hsyear) (dateFields_fits htvalid htyear),
    CivilDate.numbers_lt_iff hsvalid.date htvalid.date (by omega) (by omega), hsday, htday, Int.add_lt_add_iff_right]
  rfl

theorem dateFields_inj {s : ℤ} (hs : Shows c s) (ht : Shows c t) :
    stamp dateFields (ofSeconds s).date.numbers = stamp dateFields (ofSeconds t).date.numbers ↔
      LogFile.day s = LogFile.day t := by
  refine eq_iff_of_lt_iff text_irrefl (dateFields_lt_iff hs ht) (dateFields_lt_iff ht hs) fun h => ?_
  have hdate : (ofSeconds s).date = (ofSeconds t).date := by
    unfold ofSeconds
    change s / 86400 = t / 86400 at h
    rw [h]
  rw [hdate]

theorem rollFields_lt_iff {s : ℤ} (hs : Shows c s) (ht : Shows c t) :
    stamp rollFields (ofSeconds s).numbers < stamp rollFields (ofSeconds t).numbers ↔ s < t := by
  have hsyear := hs.year
  have htyear := ht.year
  rw [stamp_lt_iff (rollFields_fits (ofSeconds_valid s) hsyear) (rollFields_fits (ofSeconds_valid t) htyear)]
  exact ofSeconds_numbers_lt_iff (by omega) (by omega)

/-- The texts of the names are in the order of what the names stand for, and no two names have the same text. -/
theorem file_names_sorted {s : ℤ} (hs : Shows c s) (ht : Shows c t) (basename hostname : Line) :
    ∃ log log' roll roll', LogFile.getLogFileNames c basename hostname s true = .ok (log, some roll) ∧
      LogFile.getLogFileNames c basename hostname t true = .ok (log', some roll') ∧
      (log < log' ↔ (FileName.log (LogFile.day s)).Before (.log (LogFile.day t))) ∧
      (log = log' ↔ FileName.log (LogFile.day s) = .log (LogFile.day t)) ∧
      (roll < roll' ↔ (FileName.roll s).Before (.roll t)) ∧
      (roll = roll' ↔ FileName.roll s = .roll t) ∧ log ≠ roll' := by
  let name : ℤ → Line := fun u =>
    basename ++ (stamp dateFields (ofSeconds u).date.numbers ++ chars ".") ++ hostname ++ chars ".log"
  let rolled : ℤ → Line := fun u => name u ++ stamp rollFields (ofSeconds u).numbers ++ chars ".roll"
  have hlength : ∀ u, (name u).length = basename.length + 9 + hostname.length + 4 := by
    intro u
    simp [name, stamp, dateFields, CivilDate.numbers, padded_length, chars]
    omega
  have hrlength : ∀ u, (stamp rollFields (ofSeconds u).numbers).length = 16 := by
    intro u
    simp [stamp, rollFields, CivilTime.numbers, CivilDate.numbers, padded_length, chars]
  have hlog {u v : ℤ} (hu : Shows c u) (hv : Shows c v) : name u < name v ↔ LogFile.day u < LogFile.day v := by
    simp only [name, List.append_assoc]
    rw [append_left_lt_iff, append_right_lt_iff, dateFields_lt_iff hu hv]
    simp [stamp, dateFields, CivilDate.numbers, padded_length]
  have hloginj : name s = name t ↔ LogFile.day s = LogFile.day t := by
    refine eq_iff_of_lt_iff text_irrefl (hlog hs ht) (hlog ht hs) fun h => ?_
    simp only [name, (dateFields_inj hs ht).mpr h]
  have hroll {u v : ℤ} (hu : Shows c u) (hv : Shows c v)
      (hinj : name u = name v ↔ LogFile.day u = LogFile.day v) : rolled u < rolled v ↔ u < v := by
    simp only [rolled]
    rw [append_right_lt_iff (by simp [hlength, hrlength]), append_lt_append_iff (by rw [hlength, hlength]), hlog hu hv,
      hinj, rollFields_lt_iff hu hv]
    unfold LogFile.day LogFile.kRollPerSeconds
    omega
  have hrollinj : rolled s = rolled t ↔ s = t :=
    eq_iff_of_lt_iff text_irrefl (hroll hs ht hloginj) (hroll ht hs (eq_comm.trans (hloginj.trans eq_comm))) fun h => by
      rw [h]
  refine ⟨name s, name t, rolled s, rolled t, getLogFileNames_eq hs _ _, getLogFileNames_eq ht _ _, hlog hs ht, ?_,
    hroll hs ht hloginj, ?_, fun h => ?_⟩
  · rw [hloginj, FileName.log.injEq]
  · rw [hrollinj, FileName.roll.injEq]
  · have hlen := congrArg List.length h
    simp only [rolled, List.length_append, hlength, hrlength] at hlen
    omega

theorem gregorian_shows {t : ℤ} (h : 1000 ≤ (ofSeconds t).date.year ∧ (ofSeconds t).date.year < 10000) :
    Shows .gregorian t := by
  refine ⟨⟨_, rfl, ?_⟩, h⟩
  unfold Tm.civilTime
  dsimp only
  rw [Int.sub_add_cancel, Int.sub_add_cancel]

/-- The last second of 2023 and the first one of 2024. -/
theorem file_names_sorted_new_year :
    ∃ log log' roll roll', LogFile.getLogFileNames .gregorian (chars "run.") (chars "host") 1704067199 true =
        .ok (log, some roll) ∧
      LogFile.getLogFileNames .gregorian (chars "run.") (chars "host") 1704067200 true = .ok (log', some roll') ∧
      log = chars "run.20231231.host.log" ∧ roll' = chars "run.20240101.host.log-20240101_000000.roll" ∧
      log < log' ∧ roll < roll' := by
  obtain ⟨log, log', roll, roll', h, h', hlog, -, hroll, -, -⟩ :=
    file_names_sorted (c := .gregorian) (s := 1704067199) (t := 1704067200)
      (gregorian_shows (by decide)) (gregorian_shows (by decide)) (chars "run.") (chars "host")
  have hnames : LogFile.getLogFileNames .gregorian (chars "run.") (chars "host") 1704067199 true =
      .ok (chars "run.20231231.host.log", some (chars "run.20231231.host.log-20231231_235959.roll")) := by decide +kernel
  have hnames' : LogFile.getLogFileNames .gregorian (chars "run.") (chars "host") 1704067200 true =
      .ok (chars "run.20240101.host.log", some (chars "run.20240101.host.log-20240101_000000.roll")) := by decide +kernel
  obtain ⟨rfl, -⟩ := Prod.mk.inj (Except.ok.inj (h.symm.trans hnames))
  obtain ⟨-, hr⟩ := Prod.mk.inj (Except.ok.inj (h'.symm.trans hnames'))
  exact ⟨_, log', roll, roll', h, h', rfl, Option.some.inj hr, hlog.mpr (by decide), hroll.mpr (by decide)⟩

end Names

end Networker
