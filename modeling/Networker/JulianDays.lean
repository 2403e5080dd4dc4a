import Networker.DateModel
import Networker.CalendarDays

/-!
The two conversions of `Date.cpp` as a bijection between the Julian day numbers that it can
convert without overflow and the dates of the calendar.
-/

namespace Networker

open CheckedRuns CivilCalendar

/-- Above the last number the multiplication by 4 overflows, below the first the dividends are negative. -/
def firstJulianDay : ℤ := -32044

def lastJulianDay : ℤ := 536838867

def firstDate : CivilDate := ⟨-4800, 3, 1⟩

def lastDate : CivilDate := ⟨1465102, 10, 18⟩

/-- A date whose Julian day number can be converted back. -/
structure Convertible (x : CivilDate) : Prop where
  valid : x.Valid
  first : firstDate ≤ x
  last : x ≤ lastDate

section Specs

theorem firstDate_valid : firstDate.Valid := ⟨by decide, by decide⟩

theorem lastDate_valid : lastDate.Valid := ⟨by decide, by decide⟩

theorem dayNumber_firstDate : dayNumber firstDate + julianDayOfMarch0 = firstJulianDay := by decide

theorem dayNumber_lastDate : dayNumber lastDate + julianDayOfMarch0 = lastJulianDay := by decide

example : getYearMonthDay firstJulianDay = .ok firstDate ∧ getYearMonthDay lastJulianDay = .ok lastDate := by decide

variable {x : CivilDate}

/-- The day number of a date from 1 March of -4800 on, up to years whose days still fit an `int`. -/
theorem getJulianDayNumber_ok (h : x.Valid) (hfirst : firstDate ≤ x) (hyear : x.year ≤ 5000000) :
    getJulianDayNumber x.year x.month x.day = .ok (dayNumber x + julianDayOfMarch0) := by
  have hmonth := h.month
  apply getJulianDayNumber_eq h _ hyear
  change -4800 < x.year ∨ -4800 = x.year ∧ (3 < x.month ∨ 3 = x.month ∧ 1 ≤ x.day) at hfirst
  omega

theorem Convertible.year_le (h : Convertible x) : x.year ≤ 1465102 := by
  have hlast := h.last
  change x.year < 1465102 ∨ x.year = 1465102 ∧ _ at hlast
  omega

theorem Convertible.getJulianDayNumber (h : Convertible x) :
    getJulianDayNumber x.year x.month x.day = .ok (dayNumber x + julianDayOfMarch0) := by
  have hyear := h.year_le
  exact getJulianDayNumber_ok h.valid h.first (by omega)

/-- The dates that can be converted back are those of the day numbers that can be converted. -/
theorem convertible_iff (h : x.Valid) :
    Convertible x ↔ firstJulianDay ≤ dayNumber x + julianDayOfMarch0 ∧ dayNumber x + julianDayOfMarch0 ≤ lastJulianDay := by
  have hfirst := dayNumber_le_iff firstDate_valid h
  have hlast := dayNumber_le_iff h lastDate_valid
  rw [← dayNumber_firstDate, ← dayNumber_lastDate]
  constructor
  · intro hx
    have hlow := hfirst.mpr hx.first
    have hhigh := hlast.mpr hx.last
    omega
  · rintro ⟨hlow, hhigh⟩
    exact ⟨h, hfirst.mp (by omega), hlast.mp (by omega)⟩

/-- The following day can still be counted, also after the last date that can be converted back. -/
theorem Convertible.next (h : Convertible x) :
    Networker.getJulianDayNumber x.next.year x.next.month x.next.day = .ok (dayNumber x + julianDayOfMarch0 + 1) := by
  have hvalid := CivilDate.next_valid h.valid
  have hnext := dayNumber_next h.valid
  have hfirst := (dayNumber_le_iff firstDate_valid h.valid).mpr h.first
  have hyear := h.year_le
  have hyear' := x.next_year_le
  have hlater := (dayNumber_le_iff firstDate_valid hvalid).mp (by omega)
  rw [getJulianDayNumber_ok hvalid hlater (by omega), hnext]
  congr 1
  omega

end Specs

namespace Date

/-- The two conversions are inverse to each other, and the days are numbered in order. -/
theorem julianDays :
    (∀ j, firstJulianDay ≤ j → j ≤ lastJulianDay → ∃ x, getYearMonthDay j = .ok x ∧ Convertible x ∧
      getJulianDayNumber x.year x.month x.day = .ok j) ∧
    (∀ x, Convertible x → ∃ j, getJulianDayNumber x.year x.month x.day = .ok j ∧
      firstJulianDay ≤ j ∧ j ≤ lastJulianDay ∧ getYearMonthDay j = .ok x ∧
      getJulianDayNumber x.next.year x.next.month x.next.day = .ok (j + 1)) := by
  constructor
  · intro j hlow hhigh
    obtain ⟨x, hx⟩ : ∃ x, x = ofDayNumber (j - julianDayOfMarch0) := ⟨_, rfl⟩
    have hvalid : x.Valid := hx ▸ ofDayNumber_valid _
    have hn : dayNumber x + julianDayOfMarch0 = j := by
      rw [hx, dayNumber_ofDayNumber]
      omega
    have hconv : Convertible x := (convertible_iff hvalid).mpr (by omega)
    refine ⟨x, ?_, hconv, ?_⟩
    · rw [hx]
      exact getYearMonthDay_eq ⟨hlow, hhigh⟩
    · rw [hconv.getJulianDayNumber, hn]
  · intro x hconv
    have hj := (convertible_iff hconv.valid).mp hconv
    refine ⟨_, hconv.getJulianDayNumber, hj.1, hj.2, ?_, hconv.next⟩
    rw [getYearMonthDay_eq hj, Int.add_sub_cancel, ofDayNumber_dayNumber hconv.valid]

-- the leap day of 2000 and the day after it
theorem julianDays_leap :
    (∃ x, getYearMonthDay 2451604 = .ok x ∧ Convertible x ∧ getJulianDayNumber x.year x.month x.day = .ok 2451604) ∧
    ∃ j, getJulianDayNumber 2000 2 29 = .ok j ∧ firstJulianDay ≤ j ∧ j ≤ lastJulianDay ∧
      getYearMonthDay j = .ok ⟨2000, 2, 29⟩ ∧ getJulianDayNumber 2000 3 1 = .ok (j + 1) := by
  obtain ⟨hnumbers, hdates⟩ := julianDays
  constructor
  · exact hnumbers 2451604 (by decide) (by decide)
  · exact hdates ⟨2000, 2, 29⟩ ⟨⟨by decide, by decide⟩, by decide, by decide⟩

end Date

end Networker
