import Networker.DateModel
import Networker.CalendarDays

/-!
The conversions between `time_t` and UTC of `TimeZone`. They are meant as `gmtime(3)` and
`timegm(3)`.
-/

namespace Networker

open CheckedRuns CivilCalendar

/-- A `const char*`: the bytes it points into, up to the NUL, and the place in them. -/
structure CharPointer where
  base : List UInt8
  offset : ℕ := 0
deriving DecidableEq, Repr

def literal (s : String) : CharPointer := { base := s.toList.map fun c => UInt8.ofNat c.toNat }

/-- `struct tm`, with `none` for the null pointer. -/
structure Tm where
  sec : ℤ := 0
  min : ℤ := 0
  hour : ℤ := 0
  mday : ℤ := 0
  mon : ℤ := 0
  year : ℤ := 0
  wday : ℤ := 0
  yday : ℤ := 0
  isdst : ℤ := 0
  gmtoff : ℤ := 0
  zone : Option CharPointer := none
deriving DecidableEq, Repr

def fillHMS (seconds : ℕ) (utc : Tm) : Tm :=
  let minutes := seconds / 60
  { utc with sec := seconds % 60, min := (minutes % 60 : ℕ), hour := (minutes / 60 : ℕ) }

def kSecondsPerDay : ℤ := 24 * 60 * 60

/-- `getJulianDayNumber(1970, 1, 1)`. -/
def kJulianDayOf1970 : ℤ := 2440588

example : getJulianDayNumber 1970 1 1 = .ok kJulianDayOf1970 := by decide

namespace TimeZone

/-- The first lines of `toUtcTime`, up to the correction of a negative rest. -/
def secondsAndDays (secondsSinceEpoch : ℤ) : Exec (ℤ × ℤ) := do
  let seconds := castInt32 (secondsSinceEpoch.tmod kSecondsPerDay)
  let days := castInt32 (secondsSinceEpoch.tdiv kSecondsPerDay)
  if seconds < 0 then
    return (← int32 (seconds + kSecondsPerDay), ← int32 (days - 1))
  else return (seconds, days)

def toUtcTime (secondsSinceEpoch : ℤ) (yday : Bool) : Exec Tm := do
  let utc : Tm := { zone := some (literal "GMT") }
  let (seconds, days) ← secondsAndDays secondsSinceEpoch
  let utc := fillHMS (castUInt32 seconds) utc
  let date : Date := { julianDayNumber := ← int32 (days + kJulianDayOf1970) }
  let ymd ← date.yearMonthDay
  let utc := { utc with year := ← int32 (ymd.year - 1900), mon := ← int32 (ymd.month - 1), mday := ymd.day }
  let utc := { utc with wday := ← date.weekDay }
  if yday then
    let startOfYear ← Date.ofYearMonthDay ymd.year 1 1
    return { utc with yday := ← int32 (date.julianDayNumber - startOfYear.julianDayNumber) }
  else return utc

/-- The overload that takes the fields of a civil time. -/
def fromCivilTime (year month day hour minute seconds : ℤ) : Exec ℤ := do
  let date ← Date.ofYearMonthDay year month day
  let secondsInDay ← int32 ((← int32 ((← int32 (hour * 3600)) + (← int32 (minute * 50)))) + seconds)
  let days ← int32 (date.julianDayNumber - kJulianDayOf1970)
  int64 ((← int64 (days * kSecondsPerDay)) + secondsInDay)

def fromUtcTime (utc : Tm) : Exec ℤ := do
  fromCivilTime (← int32 (utc.year + 1900)) (← int32 (utc.mon + 1)) utc.mday utc.hour utc.min utc.sec

end TimeZone

/-- The civil time that a `struct tm` shows. -/
def Tm.civilTime (utc : Tm) : CivilTime where
  date := ⟨utc.year + 1900, utc.mon + 1, utc.mday⟩
  hour := utc.hour
  minute := utc.min
  second := utc.sec

/-- The years for which `TimeZone.h` promises the conversions. -/
def InRange (x : CivilTime) : Prop := 1900 ≤ x.date.year ∧ x.date.year ≤ 2500

instance (x : CivilTime) : Decidable (InRange x) := inferInstanceAs (Decidable (_ ∧ _))

section Specs

variable {t : ℤ}

theorem days_bounds (h : InRange (ofSeconds t)) : -25873 ≤ t / 86400 ∧ t / 86400 ≤ 194003 := by
  have hn := dayNumber_bounds h
  have hfirst : yearStart (1900 - 1) = 693595 := by decide
  have hlast : yearStart 2500 = 913106 := by decide
  rw [epochDay_eq] at hn
  omega

/-- Truncating division leaves a negative rest before 1970, which the day before makes up for. -/
theorem truncated_days (t : ℤ) :
    (t.tmod 86400 = t % 86400 ∧ t.tdiv 86400 = t / 86400) ∨
      (t.tmod 86400 < 0 ∧ t.tmod 86400 + 86400 = t % 86400 ∧ t.tdiv 86400 - 1 = t / 86400) := by
  have hadd := Int.tmod_add_mul_tdiv t 86400
  have hneg := Int.lt_tmod_of_pos t (show (0 : ℤ) < 86400 by decide)
  have hlt := Int.tmod_lt_of_pos t (show (0 : ℤ) < 86400 by decide)
  omega

theorem fillHMS_eq (utc : Tm) :
    fillHMS (t % 86400).toNat utc = { utc with sec := t % 60, min := t % 3600 / 60, hour := t % 86400 / 3600 } := by
  have hsec : ((t % 86400).toNat : ℤ) % 60 = t % 60 := by omega
  have hmin : (((t % 86400).toNat / 60 % 60 : ℕ) : ℤ) = t % 3600 / 60 := by omega
  have hhour : (((t % 86400).toNat / 60 / 60 : ℕ) : ℤ) = t % 86400 / 3600 := by omega
  unfold fillHMS
  dsimp only
  rw [hsec, hmin, hhour]

theorem secondsAndDays_eq (h : -25873 ≤ t / 86400 ∧ t / 86400 ≤ 194003) :
    TimeZone.secondsAndDays t = .ok (t % 86400, t / 86400) := by
  have hk : kSecondsPerDay = 86400 := rfl
  unfold TimeZone.secondsAndDays
  rw [hk]
  obtain ⟨hmod, hdiv⟩ | ⟨hneg, hmod, hdiv⟩ := truncated_days t
  · rw [castInt32_eq (by omega), castInt32_eq (by omega), hmod, hdiv, if_neg (by omega)]
    rfl
  · rw [castInt32_eq (by omega), castInt32_eq (by omega), if_pos hneg]
    rw [int32_bind (by omega), int32_bind (by omega), hmod, hdiv]
    rfl

theorem ofDayNumber_days (t : ℤ) :
    ofDayNumber (t / 86400 + kJulianDayOf1970 - julianDayOfMarch0) = (ofSeconds t).date := by
  unfold ofSeconds
  rw [epochDay_eq]
  unfold kJulianDayOf1970 julianDayOfMarch0
  congr 1
  omega

theorem weekDay_eq (h : -25873 ≤ t / 86400 ∧ t / 86400 ≤ 194003) :
    Date.weekDay { julianDayNumber := t / 86400 + kJulianDayOf1970 } = .ok ((t / 86400 + 4) % 7) := by
  unfold Date.weekDay Date.kDaysPerWeek kJulianDayOf1970
  dsimp only
  rw [int32_bind (by omega), Int.tmod_eq_emod_of_nonneg (by omega)]
  congr 1
  omega

/-- The days since 1 January, as the difference of two Julian day numbers. -/
theorem dayOfYear_eq (h : InRange (ofSeconds t)) :
    int32 (t / 86400 + kJulianDayOf1970 - (dayNumber ⟨(ofSeconds t).date.year, 1, 1⟩ + julianDayOfMarch0)) =
      .ok (t / 86400 + epochDay - dayNumber ⟨(ofSeconds t).date.year, 1, 1⟩) := by
  have hd := days_bounds h
  obtain ⟨hlow, hhigh⟩ := h
  have hfirst : yearStart 1899 ≤ yearStart ((ofSeconds t).date.year - 1) := yearStart_mono (by omega)
  have hlast : yearStart ((ofSeconds t).date.year - 1) ≤ yearStart 2500 := yearStart_mono (by omega)
  rw [show yearStart 1899 = 693595 by decide] at hfirst
  rw [show yearStart 2500 = 913106 by decide] at hlast
  rw [dayNumber_newYear, epochDay_eq]
  unfold kJulianDayOf1970 julianDayOfMarch0
  rw [int32_eq (by omega)]
  congr 1
  omega

/-- `toUtcTime` shows the civil time of its argument, with the days since Sunday and since 1 January. -/
theorem toUtcTime_eq (h : InRange (ofSeconds t)) (yday : Bool) :
    TimeZone.toUtcTime t yday = .ok
      { sec := (ofSeconds t).second, min := (ofSeconds t).minute, hour := (ofSeconds t).hour
        mday := (ofSeconds t).date.day, mon := (ofSeconds t).date.month - 1, year := (ofSeconds t).date.year - 1900
        wday := (t / 86400 + 4) % 7
        yday := if yday then t / 86400 + epochDay - dayNumber ⟨(ofSeconds t).date.year, 1, 1⟩ else 0
        zone := some (literal "GMT") } := by
  have hd := days_bounds h
  have hyday := dayOfYear_eq h
  have hmonth := (ofSeconds_valid t).date.month
  have hj : -32044 ≤ t / 86400 + kJulianDayOf1970 ∧ t / 86400 + kJulianDayOf1970 ≤ 536838867 := by
    unfold kJulianDayOf1970
    omega
  obtain ⟨hlow, hhigh⟩ := h
  have hstart := getJulianDayNumber_eq (CivilDate.newYear_valid (ofSeconds t).date.year) (by dsimp only; omega) (by dsimp only; omega)
  dsimp only at hstart
  unfold TimeZone.toUtcTime Date.yearMonthDay Date.ofYearMonthDay
  rw [secondsAndDays_eq hd, ok_bind]
  dsimp only
  rw [castUInt32_eq (by omega), fillHMS_eq, int32_bind (by omega)]
  rw [getYearMonthDay_eq hj, ok_bind, ofDayNumber_days]
  rw [int32_bind (by omega), int32_bind (by omega), weekDay_eq hd, ok_bind, hstart]
  cases yday with
  | false => rfl
  | true =>
    simp only [if_true, ok_bind, pure_bind, hyday]
    rfl

variable {x : CivilTime}

theorem toUtcTime_civilTime (h : InRange (ofSeconds t)) (yday : Bool) :
    (do return (← TimeZone.toUtcTime t yday).civilTime) = (.ok (ofSeconds t) : Exec CivilTime) := by
  rw [toUtcTime_eq h yday, ok_bind]
  unfold Tm.civilTime
  dsimp only
  rw [Int.sub_add_cancel, Int.sub_add_cancel]
  rfl

/-- A minute counts as 50 seconds. -/
theorem fromCivilTime_eq (h : x.Valid) (hr : InRange x) :
    TimeZone.fromCivilTime x.date.year x.date.month x.date.day x.hour x.minute x.second =
      .ok (secondsSinceEpoch x - 10 * x.minute) := by
  obtain ⟨hdate, hhour, hminute, hsecond⟩ := h
  have hn : yearStart (1900 - 1) ≤ dayNumber x.date ∧ dayNumber x.date ≤ yearStart 2500 + 365 := by
    apply dayNumber_bounds
    rw [ofDayNumber_dayNumber hdate]
    exact hr
  rw [show yearStart (1900 - 1) = 693595 by decide, show yearStart 2500 = 913106 by decide] at hn
  obtain ⟨hlow, hhigh⟩ := hr
  have hmonth := hdate.month
  have hdays : dayNumber x.date + julianDayOfMarch0 - kJulianDayOf1970 = dayNumber x.date - epochDay := by
    rw [epochDay_eq]
    unfold julianDayOfMarch0 kJulianDayOf1970
    omega
  unfold TimeZone.fromCivilTime Date.ofYearMonthDay secondsSinceEpoch
  rw [getJulianDayNumber_eq hdate (by omega) (by omega)]
  simp only [ok_bind, pure_bind]
  rw [int32_bind (by omega), int32_bind (by omega), int32_bind (by omega), int32_bind (by omega)]
  rw [hdays, epochDay_eq]
  unfold kSecondsPerDay
  rw [int32_bind (by omega), int64_eq (by omega), ok_bind, int64_eq (by omega)]
  congr 1
  omega

theorem fromUtcTime_eq {utc : Tm} (h : utc.civilTime.Valid) (hr : InRange utc.civilTime) :
    TimeZone.fromUtcTime utc = .ok (secondsSinceEpoch utc.civilTime - 10 * utc.min) := by
  have hmonth := h.date.month
  have hyear := hr
  have hsec := fromCivilTime_eq h hr
  unfold InRange at hyear
  simp only [Tm.civilTime] at hmonth hyear hsec ⊢
  unfold TimeZone.fromUtcTime
  rw [int32_bind (by omega), int32_bind (by omega), hsec]

/-- The lost seconds do not change the date. -/
theorem ofSeconds_date (h : x.Valid) : (ofSeconds (secondsSinceEpoch x - 10 * x.minute)).date = x.date := by
  obtain ⟨hdate, hhour, hminute, hsecond⟩ := h
  have hn : (secondsSinceEpoch x - 10 * x.minute) / 86400 + epochDay = dayNumber x.date := by
    unfold secondsSinceEpoch
    omega
  simp only [ofSeconds]
  rw [hn, ofDayNumber_dayNumber hdate]

end Specs

namespace TimeZone

theorem utc_round_trip (t : ℤ) (x : CivilTime) (yday : Bool) :
    (InRange (ofSeconds t) → ((toUtcTime t yday >>= fromUtcTime) = .ok t ↔ t % 3600 < 60)) ∧
    (x.Valid → InRange x →
      ((do
        let t ← fromCivilTime x.date.year x.date.month x.date.day x.hour x.minute x.second
        return (← toUtcTime t yday).civilTime) = .ok x ↔ x.minute = 0)) := by
  constructor
  · intro hr
    have htm := toUtcTime_civilTime hr yday
    obtain ⟨utc, hutc, hciv⟩ := bind_eq_ok.mp htm
    have hciv : utc.civilTime = ofSeconds t := Except.ok.inj hciv
    have hmin : utc.min = t % 3600 / 60 := congrArg CivilTime.minute hciv
    rw [hutc, ok_bind, fromUtcTime_eq (by rw [hciv]; exact ofSeconds_valid t) (by rw [hciv]; exact hr), hciv, hmin]
    rw [secondsSinceEpoch_ofSeconds, Except.ok.injEq]
    omega
  · intro h hr
    have hdate := ofSeconds_date h
    rw [fromCivilTime_eq h hr, ok_bind, toUtcTime_civilTime (by unfold InRange; rw [hdate]; exact hr) yday]
    rw [Except.ok.injEq]
    constructor
    · intro heq
      have hsec := congrArg secondsSinceEpoch heq
      rw [secondsSinceEpoch_ofSeconds] at hsec
      omega
    · intro hzero
      rw [hzero, Int.mul_zero, Int.sub_zero]
      exact ofSeconds_secondsSinceEpoch h

theorem utc_round_trip_before_1970 :
    (toUtcTime (-3599) true >>= fromUtcTime) = .ok (-3599) ∧
    (do
      let t ← fromCivilTime 1969 12 31 23 0 1
      return (← toUtcTime t true).civilTime) = .ok ⟨⟨1969, 12, 31⟩, 23, 0, 1⟩ := by
  obtain ⟨hseconds, hcivil⟩ := utc_round_trip (-3599) ⟨⟨1969, 12, 31⟩, 23, 0, 1⟩ true
  constructor
  · exact (hseconds (by decide)).mpr (by decide)
  · exact (hcivil ⟨⟨by decide, by decide⟩, by decide, by decide, by decide⟩ (by decide)).mpr rfl

/-- One minute past the epoch comes back as 50 seconds past it. -/
theorem minute_loses_ten_seconds :
    InRange (ofSeconds 60) ∧ (toUtcTime 60 false >>= fromUtcTime) = .ok 50 ∧
    (do
      let t ← fromCivilTime 1970 1 1 0 1 0
      return (← toUtcTime t false).civilTime) = .ok ⟨⟨1970, 1, 1⟩, 0, 0, 50⟩ := by
  refine ⟨by decide, by decide, by decide⟩

section Gmtime

/-- The fields of the broken-down time of `t` in UTC; 1970-01-01 was a Thursday. -/
structure Gmtime (t : ℤ) (utc : Tm) : Prop where
  fields : utc.civilTime.Valid
  days : ∃ k, CivilDate.DaysTo ⟨1970, 1, 1⟩ utc.civilTime.date k ∧
    86400 * k + 3600 * utc.hour + 60 * utc.min + utc.sec = t ∧ utc.wday = (4 + k) % 7
  yday : CivilDate.DaysTo ⟨utc.year + 1900, 1, 1⟩ utc.civilTime.date utc.yday

theorem toUtcTime_gmtime {t : ℤ} (h : InRange (ofSeconds t)) : ∃ utc, toUtcTime t true = .ok utc ∧ Gmtime t utc := by
  obtain ⟨utc, hutc, hciv⟩ := bind_eq_ok.mp (toUtcTime_civilTime h true)
  have hciv : utc.civilTime = ofSeconds t := Except.ok.inj hciv
  have htm := Except.ok.inj (hutc.symm.trans (toUtcTime_eq h true))
  have hwday : utc.wday = (t / 86400 + 4) % 7 := congrArg Tm.wday htm
  have hyday : utc.yday = t / 86400 + epochDay - dayNumber ⟨(ofSeconds t).date.year, 1, 1⟩ := congrArg Tm.yday htm
  have hyear : utc.year + 1900 = (ofSeconds t).date.year := congrArg (fun x => x.date.year) hciv
  have hvalid := ofSeconds_valid t
  have hn : dayNumber (ofSeconds t).date = t / 86400 + epochDay := dayNumber_ofDayNumber _
  refine ⟨utc, hutc, ?_⟩
  constructor
  case fields =>
    rw [hciv]
    exact hvalid
  case days =>
    have hsec : secondsSinceEpoch utc.civilTime = t := by rw [hciv, secondsSinceEpoch_ofSeconds]
    unfold secondsSinceEpoch at hsec
    rw [hciv, hn, Int.add_sub_cancel, ← hciv] at hsec
    refine ⟨t / 86400, ?_, hsec, by rw [hwday, Int.add_comm]⟩
    rw [hciv, daysTo_iff (CivilDate.newYear_valid 1970) hvalid.date, hn, epochDay, Int.add_sub_cancel]
  case yday => rw [hciv, hyear, daysTo_iff (CivilDate.newYear_valid _) hvalid.date, hn, hyday]

-- `%` and `/` leave a negative rest
theorem toUtcTime_gmtime_before_1970 :
    InRange (ofSeconds (-1)) ∧ ∃ utc, toUtcTime (-1) true = .ok utc ∧ Gmtime (-1) utc :=
  ⟨by decide, toUtcTime_gmtime (by decide)⟩

end Gmtime

end TimeZone

end Networker
