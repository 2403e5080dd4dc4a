import Networker.CheckedIntegers
import Networker.CivilCalendar

/-!
Days as `Date.cpp` counts them. `int` division truncates, and every intermediate result of
the two conversions is checked for overflow.
-/

namespace Networker

open CheckedRuns CivilCalendar

abbrev YearMonthDay := CivilDate

def getJulianDayNumber (year month day : ℤ) : Exec ℤ := do
  let a := (← int32 (14 - month)).tdiv 12
  let y ← int32 ((← int32 (year + 4800)) - a)
  let m ← int32 ((← int32 (month + (← int32 (12 * a)))) - 3)
  let sum ← int32 (day + (← int32 ((← int32 (153 * m)) + 2)).tdiv 5)
  let sum ← int32 (sum + (← int32 (y * 365)))
  let sum ← int32 (sum + y.tdiv 4)
  let sum ← int32 (sum - y.tdiv 100)
  let sum ← int32 (sum + y.tdiv 400)
  int32 (sum - 32045)

def getYearMonthDay (julianDayNumber : ℤ) : Exec YearMonthDay := do
  let a ← int32 (julianDayNumber + 32044)
  let b := (← int32 ((← int32 (4 * a)) + 3)).tdiv 146097
  let c ← int32 (a - (← int32 (b * 146097)).tdiv 4)
  let d := (← int32 ((← int32 (4 * c)) + 3)).tdiv 1461
  let e ← int32 (c - (← int32 (1461 * d)).tdiv 4)
  let m := (← int32 ((← int32 (5 * e)) + 2)).tdiv 153
  let day ← int32 ((← int32 (e - (← int32 ((← int32 (153 * m)) + 2)).tdiv 5)) + 1)
  let month ← int32 ((← int32 (m + 3)) - (← int32 (12 * m.tdiv 10)))
  let year ← int32 ((← int32 ((← int32 ((← int32 (b * 100)) + d)) - 4800)) + m.tdiv 10)
  return { year, month, day }

structure Date where
  julianDayNumber : ℤ := 0
deriving DecidableEq, Repr

namespace Date

def kDaysPerWeek : ℤ := 7

def ofYearMonthDay (y m d : ℤ) : Exec Date := do
  return { julianDayNumber := ← getJulianDayNumber y m d }

def yearMonthDay (date : Date) : Exec YearMonthDay := getYearMonthDay date.julianDayNumber

/-- From 0 for Sunday on. -/
def weekDay (date : Date) : Exec ℤ := do
  return (← int32 (date.julianDayNumber + 1)).tmod kDaysPerWeek

end Date

/-- The Julian day number of 0000-03-01. -/
def julianDayOfMarch0 : ℤ := 1721120

section Specs

theorem getJulianDayNumber_eq {x : CivilDate} (h : x.Valid) (hlow : -4800 ≤ x.year - (14 - x.month) / 12)
    (hhigh : x.year ≤ 5000000) :
    getJulianDayNumber x.year x.month x.day = .ok (dayNumber x + julianDayOfMarch0) := by
  obtain ⟨⟨hm1, hm12⟩, hday, hlen⟩ := h
  have hday31 := hlen.trans (daysInMonth_le x.year x.month)
  obtain ⟨a, ha⟩ : ∃ a, a = (14 - x.month) / 12 := ⟨_, rfl⟩
  obtain ⟨m, hm⟩ : ∃ m, m = x.month + 12 * a - 3 := ⟨_, rfl⟩
  obtain ⟨y, hy⟩ : ∃ y, y = x.year - a := ⟨_, rfl⟩
  have hy0 : 0 ≤ y + 400 * 12 := by omega
  have hsum := yearStart_add y 12
  unfold yearStart at hsum
  unfold getJulianDayNumber dayNumber monthStart yearStart julianDayOfMarch0
  rw [int32_bind (by omega), Int.tdiv_eq_ediv_of_nonneg (by omega), ← ha]
  rw [int32_bind (by omega), show x.year + 4800 - a = y + 400 * 12 by omega, int32_bind (by omega)]
  rw [int32_bind (by omega), int32_bind (by omega), int32_bind (by omega), ← hm]
  rw [int32_bind (by omega), int32_bind (by omega), Int.tdiv_eq_ediv_of_nonneg (by omega)]
  rw [int32_bind (by omega), int32_bind (by omega), int32_bind (by omega)]
  rw [Int.tdiv_eq_ediv_of_nonneg hy0, Int.tdiv_eq_ediv_of_nonneg hy0, Int.tdiv_eq_ediv_of_nonneg hy0]
  rw [int32_bind (by omega), int32_bind (by omega), int32_bind (by omega), int32_eq (by omega)]
  congr 1
  dsimp only
  rw [← hm, ← hy]
  omega

theorem getYearMonthDay_eq {j : ℤ} (h : -32044 ≤ j ∧ j ≤ 536838867) :
    getYearMonthDay j = .ok (ofDayNumber (j - julianDayOfMarch0)) := by
  obtain ⟨n, hn⟩ : ∃ n, n = j - julianDayOfMarch0 := ⟨_, rfl⟩
  unfold julianDayOfMarch0 at hn
  -- the code counts from 4800 years before, which are twelve cycles, to keep its dividends positive
  obtain ⟨a, ha⟩ : ∃ a, a = n + 146097 * 12 := ⟨_, rfl⟩
  have hb : century a = (4 * a + 3) / 146097 := rfl
  have hc : dayOfCentury a = a - 146097 * century a / 4 := rfl
  have hd : yearOfCentury a = (4 * dayOfCentury a + 3) / 1461 := rfl
  have he : dayOfYear a = dayOfCentury a - 1461 * yearOfCentury a / 4 := rfl
  have hm : monthOfYear a = (5 * dayOfYear a + 2) / 153 := rfl
  have hc' := dayOfCentury_bounds a
  have hd' := yearOfCentury_bounds a
  have he' := dayOfYear_bounds a
  have hm' := monthOfYear_bounds a
  have hyear : marchYear a = marchYear n + 400 * 12 := ha ▸ marchYear_add n 12
  have hday : dayOfYear a = dayOfYear n := ha ▸ dayOfYear_cycle n 12
  have hmonth : monthOfYear a = monthOfYear n := by
    unfold monthOfYear
    rw [hday]
  have hb' : 0 ≤ century a ∧ century a ≤ 14699 := by omega
  unfold marchYear at hyear
  unfold getYearMonthDay
  -- each quotient is folded into the calendar's word for it before the next line of the code
  rw [int32_bind (by omega), show j + 32044 = a by omega]
  rw [int32_bind (by omega), int32_bind (by omega), Int.tdiv_eq_ediv_of_nonneg (by omega), ← hb]
  dsimp only
  rw [Int.mul_comm (century a), int32_bind (by omega), Int.tdiv_eq_ediv_of_nonneg (by omega), ← hc, int32_bind (by omega)]
  rw [int32_bind (by omega), int32_bind (by omega), Int.tdiv_eq_ediv_of_nonneg (by omega), ← hd]
  rw [int32_bind (by omega), Int.tdiv_eq_ediv_of_nonneg (by omega), ← he, int32_bind (by omega)]
  rw [int32_bind (by omega), int32_bind (by omega), Int.tdiv_eq_ediv_of_nonneg (by omega), ← hm]
  clear hb hc hd he hm
  rw [int32_bind (by omega), int32_bind (by omega), Int.tdiv_eq_ediv_of_nonneg (by omega)]
  rw [int32_bind (by omega), int32_bind (by omega)]
  rw [int32_bind (by omega), Int.tdiv_eq_ediv_of_nonneg (by omega), int32_bind (by omega), int32_bind (by omega)]
  rw [int32_bind (by omega), int32_bind (by omega), int32_bind (by omega), int32_bind (by omega)]
  unfold ofDayNumber marchYear
  rw [show j - julianDayOfMarch0 = n from hn.symm, ← hmonth, ← hday]
  congr 2
  omega

end Specs

end Networker
