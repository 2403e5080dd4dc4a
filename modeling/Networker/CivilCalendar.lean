import Mathlib.Data.Int.Basic
import Mathlib.Tactic.Linarith

/-!
Day numbers of the proleptic Gregorian calendar. Years are counted from March, so that
the leap day comes last, and days from 1 March of year 0. Nothing here depends on a
program that keeps time.
-/

namespace Networker.CivilCalendar

def IsLeap (y : ℤ) : Prop := y % 4 = 0 ∧ (y % 100 ≠ 0 ∨ y % 400 = 0)

instance (y : ℤ) : Decidable (IsLeap y) := inferInstanceAs (Decidable (_ ∧ (_ ∨ _)))

def daysInMonth (y m : ℤ) : ℤ :=
  if m = 2 then if IsLeap y then 29 else 28
  else if m = 4 ∨ m = 6 ∨ m = 9 ∨ m = 11 then 30 else 31

theorem daysInMonth_le (y m : ℤ) : daysInMonth y m ≤ 31 := by
  unfold daysInMonth
  split_ifs <;> omega

@[ext] structure CivilDate where
  year : ℤ
  month : ℤ
  day : ℤ
deriving DecidableEq, Repr

structure CivilDate.Valid (x : CivilDate) : Prop where
  month : 1 ≤ x.month ∧ x.month ≤ 12
  day : 1 ≤ x.day ∧ x.day ≤ daysInMonth x.year x.month

theorem CivilDate.newYear_valid (y : ℤ) : (⟨y, 1, 1⟩ : CivilDate).Valid :=
  ⟨by simp, by simp, by simp [daysInMonth]⟩

/-- The days before 1 March of the year. -/
def yearStart (y : ℤ) : ℤ := 365 * y + y / 4 - y / 100 + y / 400

/-- The days before the month, with 0 for March and 11 for February. -/
def monthStart (m : ℤ) : ℤ := (153 * m + 2) / 5

def century (n : ℤ) : ℤ := (4 * n + 3) / 146097

def dayOfCentury (n : ℤ) : ℤ := n - 146097 * century n / 4

def yearOfCentury (n : ℤ) : ℤ := (4 * dayOfCentury n + 3) / 1461

def dayOfYear (n : ℤ) : ℤ := dayOfCentury n - 1461 * yearOfCentury n / 4

def monthOfYear (n : ℤ) : ℤ := (5 * dayOfYear n + 2) / 153

def marchYear (n : ℤ) : ℤ := 100 * century n + yearOfCentury n

/-- Days from 0000-03-01 on. -/
def dayNumber (x : CivilDate) : ℤ :=
  let a := (14 - x.month) / 12
  yearStart (x.year - a) + monthStart (x.month + 12 * a - 3) + x.day - 1

theorem dayNumber_newYear (y : ℤ) : dayNumber ⟨y, 1, 1⟩ = yearStart (y - 1) + 306 := by
  have ha : ((14 : ℤ) - 1) / 12 = 1 := rfl
  unfold dayNumber monthStart
  dsimp only
  rw [ha]
  omega

def ofDayNumber (n : ℤ) : CivilDate where
  year := marchYear n + monthOfYear n / 10
  month := monthOfYear n + 3 - 12 * (monthOfYear n / 10)
  day := dayOfYear n - monthStart (monthOfYear n) + 1

section Years

variable (n : ℤ)

theorem dayOfCentury_bounds : 0 ≤ dayOfCentury n ∧ dayOfCentury n ≤ 36524 := by
  unfold dayOfCentury century
  omega

theorem yearOfCentury_bounds : 0 ≤ yearOfCentury n ∧ yearOfCentury n ≤ 99 := by
  have h := dayOfCentury_bounds n
  unfold yearOfCentury
  omega

theorem dayOfYear_bounds : 0 ≤ dayOfYear n ∧ dayOfYear n ≤ 365 := by
  have h := dayOfCentury_bounds n
  unfold dayOfYear yearOfCentury
  omega

theorem dayOfYear_add : 146097 * century n / 4 + (1461 * yearOfCentury n / 4 + dayOfYear n) = n := by
  unfold dayOfYear dayOfCentury
  omega

theorem centuryStart_eq (b : ℤ) : 146097 * b / 4 = 36524 * b + b / 4 := by omega

/-- Of the years of a century every fourth has a leap day, and of four centuries the last ends with one. -/
theorem yearStart_eq {b r : ℤ} (hr : 0 ≤ r ∧ r ≤ 99) : yearStart (100 * b + r) = 146097 * b / 4 + 1461 * r / 4 := by
  have h4 : (100 * b + r) / 4 = 25 * b + r / 4 := by omega
  have h100 : (100 * b + r) / 100 = b := by omega
  have h400 : (100 * b + r) / 400 = b / 4 := by omega
  have hy : 1461 * r / 4 = 365 * r + r / 4 := by omega
  unfold yearStart
  rw [h4, h100, h400, centuryStart_eq, hy]
  omega

theorem yearStart_marchYear : yearStart (marchYear n) + dayOfYear n = n := by
  have hn := dayOfYear_add n
  unfold marchYear
  rw [yearStart_eq (yearOfCentury_bounds n)]
  omega

theorem isLeap_iff {b r : ℤ} (hr : 0 ≤ r ∧ r ≤ 99) : IsLeap (100 * b + r + 1) ↔ r % 4 = 3 ∧ (r = 99 → b % 4 = 3) := by
  unfold IsLeap
  omega

theorem fourth_century {b : ℤ} (hn : 146097 * b / 4 + 36524 = n) (hb : 4 * n + 3 < 146097 * (b + 1)) : b % 4 = 3 := by
  rw [centuryStart_eq] at hn
  have hlt : 4 * (b / 4) + 2 < b := by linarith
  clear hn hb
  omega

/-- The last day of a year of 366 days is 29 February. -/
theorem isLeap_of_dayOfYear (h : dayOfYear n = 365) : IsLeap (marchYear n + 1) := by
  unfold marchYear
  rw [isLeap_iff (yearOfCentury_bounds n)]
  constructor
  · unfold dayOfYear at h
    unfold yearOfCentury at h ⊢
    omega
  · intro hlast
    have hn := dayOfYear_add n
    rw [hlast, h] at hn
    apply fourth_century n hn
    unfold century
    omega

variable {n}

theorem marchYear_unique {y e : ℤ} (he : 0 ≤ e ∧ e ≤ 365) (hl : e = 365 → IsLeap (y + 1))
    (hn : n = yearStart y + e) : marchYear n = y ∧ dayOfYear n = e := by
  obtain ⟨b, r, hr, rfl⟩ : ∃ b r, (0 ≤ r ∧ r ≤ 99) ∧ y = 100 * b + r := ⟨y / 100, y % 100, by omega, by omega⟩
  rw [yearStart_eq hr] at hn
  rw [isLeap_iff hr] at hl
  have hc : century n = b := by
    unfold century
    omega
  have hd : dayOfCentury n = 1461 * r / 4 + e := by
    unfold dayOfCentury
    rw [hc]
    omega
  have hy : yearOfCentury n = r := by
    unfold yearOfCentury
    rw [hd]
    omega
  unfold marchYear dayOfYear
  rw [hc, hy, hd]
  exact ⟨rfl, by omega⟩

end Years

section Months

/-- The length of a month counted from March; February has its leap day. -/
def monthLength (m : ℤ) : ℤ := monthStart (m + 1) - monthStart m

variable {m : ℤ}

theorem monthOfYear_bounds (n : ℤ) : 0 ≤ monthOfYear n ∧ monthOfYear n ≤ 11 := by
  have h := dayOfYear_bounds n
  unfold monthOfYear
  omega

theorem dayOfMonth_bounds (n : ℤ) : 0 ≤ dayOfYear n - monthStart (monthOfYear n) := by
  have h := dayOfYear_bounds n
  unfold monthStart monthOfYear
  omega

theorem dayOfMonth_le (n : ℤ) : dayOfYear n - monthStart (monthOfYear n) < monthLength (monthOfYear n) := by
  have h := dayOfYear_bounds n
  unfold monthLength monthStart monthOfYear
  omega

/-- The lengths of the calendar; February has 29 days here. -/
theorem monthLength_eq {y : ℤ} (hm : 0 ≤ m ∧ m ≤ 11) :
    daysInMonth (y + m / 10) (m + 3 - 12 * (m / 10)) =
      if m = 11 then if IsLeap (y + 1) then 29 else 28 else monthLength m := by
  obtain ⟨h0, h11⟩ := hm
  have h : m = 0 ∨ m = 1 ∨ m = 2 ∨ m = 3 ∨ m = 4 ∨ m = 5 ∨ m = 6 ∨ m = 7 ∨ m = 8 ∨ m = 9 ∨ m = 10 ∨ m = 11 := by omega
  rcases h with rfl | rfl | rfl | rfl | rfl | rfl | rfl | rfl | rfl | rfl | rfl | rfl <;> rfl

theorem month_unique {n k : ℤ} (hk : 0 ≤ k ∧ k < monthLength m)
    (he : dayOfYear n = monthStart m + k) : monthOfYear n = m := by
  unfold monthLength monthStart at hk
  unfold monthStart at he
  unfold monthOfYear
  omega

/-- A day of a month is a day of the year, the 366th only if it is 29 February. -/
theorem dayOfYear_le {k : ℤ} (hm : 0 ≤ m ∧ m ≤ 11) (hk : 0 ≤ k ∧ k < monthLength m) (hfeb : m = 11 → k ≤ 28) :
    (0 ≤ monthStart m + k ∧ monthStart m + k ≤ 365) ∧ (monthStart m + k = 365 → m = 11 ∧ k = 28) := by
  unfold monthLength monthStart at hk
  unfold monthStart
  omega

end Months

section Cycles

/-! The calendar repeats itself every 400 years, which are 146097 days. -/

theorem yearStart_add (y k : ℤ) : yearStart (y + 400 * k) = yearStart y + 146097 * k := by
  unfold yearStart
  omega

theorem yearStart_mono {y z : ℤ} (h : y ≤ z) : yearStart y ≤ yearStart z := by
  unfold yearStart
  omega

theorem century_add (n k : ℤ) : century (n + 146097 * k) = century n + 4 * k := by
  unfold century
  omega

theorem dayOfCentury_cycle (n k : ℤ) : dayOfCentury (n + 146097 * k) = dayOfCentury n := by
  unfold dayOfCentury
  rw [century_add]
  omega

theorem marchYear_add (n k : ℤ) : marchYear (n + 146097 * k) = marchYear n + 400 * k := by
  unfold marchYear yearOfCentury
  rw [dayOfCentury_cycle, century_add]
  omega

theorem dayOfYear_cycle (n k : ℤ) : dayOfYear (n + 146097 * k) = dayOfYear n := by
  unfold dayOfYear yearOfCentury
  rw [dayOfCentury_cycle]

end Cycles

theorem dayNumber_ofDayNumber (n : ℤ) : dayNumber (ofDayNumber n) = n := by
  have hm := monthOfYear_bounds n
  have hy := yearStart_marchYear n
  have ha : (14 - (monthOfYear n + 3 - 12 * (monthOfYear n / 10))) / 12 = monthOfYear n / 10 := by omega
  have hmonth : monthOfYear n + 3 - 12 * (monthOfYear n / 10) + 12 * (monthOfYear n / 10) - 3 = monthOfYear n := by omega
  unfold dayNumber ofDayNumber
  dsimp only
  rw [ha, hmonth, Int.add_sub_cancel]
  omega

theorem ofDayNumber_valid (n : ℤ) : (ofDayNumber n).Valid := by
  have hm := monthOfYear_bounds n
  have hd := dayOfMonth_bounds n
  constructor
  · simp only [ofDayNumber]
    omega
  · simp only [ofDayNumber]
    refine ⟨by omega, ?_⟩
    rw [monthLength_eq hm]
    have hle := dayOfMonth_le n
    split
    · rename_i hfeb
      have hday := dayOfYear_bounds n
      have hstart : monthStart (monthOfYear n) = 337 := by rw [hfeb]; rfl
      split
      · omega
      · rename_i hleap
        have hlast : dayOfYear n ≠ 365 := fun h => hleap (isLeap_of_dayOfYear n h)
        omega
    · omega

theorem ofDayNumber_dayNumber {x : CivilDate} (h : x.Valid) : ofDayNumber (dayNumber x) = x := by
  obtain ⟨hmonth, hday, hlen⟩ := h
  -- the month and the year counted from March
  obtain ⟨m, hm, hm11⟩ : ∃ m, m = x.month + 12 * ((14 - x.month) / 12) - 3 ∧ 0 ≤ m ∧ m ≤ 11 := ⟨_, rfl, by omega⟩
  have ha : (14 - x.month) / 12 = m / 10 := by omega
  obtain ⟨y, hy⟩ : ∃ y, y = x.year - m / 10 := ⟨_, rfl⟩
  have hn : dayNumber x = yearStart y + (monthStart m + (x.day - 1)) := by
    unfold dayNumber
    dsimp only
    rw [← hm, ha, ← hy]
    omega
  rw [show x.year = y + m / 10 by omega, show x.month = m + 3 - 12 * (m / 10) by omega, monthLength_eq hm11] at hlen
  have hk : x.day - 1 < monthLength m ∧ (m = 11 → x.day ≤ 29 ∧ (x.day = 29 → IsLeap (y + 1))) := by
    split at hlen
    · rename_i hfeb
      subst hfeb
      have hl : monthLength 11 = 30 := rfl
      split at hlen
      · rename_i hleap
        exact ⟨by omega, fun _ => ⟨hlen, fun _ => hleap⟩⟩
      · exact ⟨by omega, fun _ => ⟨by omega, fun h29 => by omega⟩⟩
    · exact ⟨by omega, fun hfeb => absurd hfeb (by assumption)⟩
  obtain ⟨hk, hleap⟩ := hk
  have he := dayOfYear_le hm11 ⟨by omega, hk⟩ fun hfeb => by have := (hleap hfeb).1; omega
  obtain ⟨hyear, he⟩ := marchYear_unique he.1 (fun h => (hleap (he.2 h).1).2 (by have := (he.2 h).2; omega)) hn
  have hmon := month_unique ⟨by omega, hk⟩ he
  unfold ofDayNumber
  rw [hyear, he, hmon]
  ext <;> simp only <;> omega

/-- The first of the years may have begun in January, before its 1 March. -/
theorem dayNumber_bounds {n : ℤ} {first last : ℤ} (h : first ≤ (ofDayNumber n).year ∧ (ofDayNumber n).year ≤ last) :
    yearStart (first - 1) ≤ n ∧ n ≤ yearStart last + 365 := by
  have hy := yearStart_marchYear n
  have hd := dayOfYear_bounds n
  have hm := monthOfYear_bounds n
  simp only [ofDayNumber] at h
  have hmono : yearStart (first - 1) ≤ yearStart (marchYear n) := yearStart_mono (by omega)
  have hmono' : yearStart (marchYear n) ≤ yearStart last := yearStart_mono (by omega)
  omega

section TimeOfDay

/-! Times in days of 86400 seconds, counted from 1970-01-01. -/

@[ext] structure CivilTime where
  date : CivilDate
  hour : ℤ
  minute : ℤ
  second : ℤ
deriving DecidableEq, Repr

structure CivilTime.Valid (x : CivilTime) : Prop where
  date : x.date.Valid
  hour : 0 ≤ x.hour ∧ x.hour < 24
  minute : 0 ≤ x.minute ∧ x.minute < 60
  second : 0 ≤ x.second ∧ x.second < 60

def epochDay : ℤ := dayNumber ⟨1970, 1, 1⟩

theorem epochDay_eq : epochDay = 719468 := by decide

def secondsSinceEpoch (x : CivilTime) : ℤ :=
  86400 * (dayNumber x.date - epochDay) + 3600 * x.hour + 60 * x.minute + x.second

def ofSeconds (t : ℤ) : CivilTime where
  date := ofDayNumber (t / 86400 + epochDay)
  hour := t % 86400 / 3600
  minute := t % 3600 / 60
  second := t % 60

theorem ofSeconds_valid (t : ℤ) : (ofSeconds t).Valid := by
  unfold ofSeconds
  constructor
  case date => exact ofDayNumber_valid _
  all_goals
    dsimp only
    omega

theorem secondsSinceEpoch_ofSeconds (t : ℤ) : secondsSinceEpoch (ofSeconds t) = t := by
  unfold secondsSinceEpoch ofSeconds
  dsimp only
  rw [dayNumber_ofDayNumber]
  omega

theorem ofSeconds_secondsSinceEpoch {x : CivilTime} (h : x.Valid) : ofSeconds (secondsSinceEpoch x) = x := by
  obtain ⟨hdate, hh, hm, hs⟩ := h
  have hn : secondsSinceEpoch x / 86400 + epochDay = dayNumber x.date := by
    unfold secondsSinceEpoch
    omega
  ext1
  case date =>
    simp only [ofSeconds]
    rw [hn, ofDayNumber_dayNumber hdate]
  all_goals
    simp only [ofSeconds, secondsSinceEpoch]
    omega

end TimeOfDay

end Networker.CivilCalendar
