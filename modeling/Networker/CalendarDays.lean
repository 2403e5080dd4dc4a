import Networker.CivilCalendar
import Mathlib.Logic.Function.Iterate

/-!
The days of the calendar one after the other: the day that follows a date, the order of
dates, and the number of days from one date to another. Day numbers count all three.
-/

namespace Networker.CivilCalendar

namespace CivilDate

def next (x : CivilDate) : CivilDate :=
  if x.day < daysInMonth x.year x.month then { x with day := x.day + 1 }
  else if x.month < 12 then { x with month := x.month + 1, day := 1 }
  else ⟨x.year + 1, 1, 1⟩

/-- Dates are compared by their years, then by their months, then by their days. -/
def le (x y : CivilDate) : Prop :=
  x.year < y.year ∨ x.year = y.year ∧ (x.month < y.month ∨ x.month = y.month ∧ x.day ≤ y.day)

instance : LE CivilDate := ⟨le⟩

instance (x y : CivilDate) : Decidable (x ≤ y) := inferInstanceAs (Decidable (_ ∨ _ ∧ (_ ∨ _ ∧ _)))

theorem le_total (x y : CivilDate) : x ≤ y ∨ y ≤ x := by
  change x.le y ∨ y.le x
  unfold le
  omega

theorem next_year_le (x : CivilDate) : x.next.year ≤ x.year + 1 := by
  unfold next
  split_ifs <;> dsimp only <;> omega

theorem next_valid {x : CivilDate} (h : x.Valid) : x.next.Valid := by
  obtain ⟨hmonth, hday⟩ := h
  unfold next
  split_ifs
  · exact ⟨hmonth, by dsimp only; omega⟩
  · refine ⟨by dsimp only; omega, le_rfl, ?_⟩
    dsimp only
    unfold daysInMonth
    split_ifs <;> omega
  · exact newYear_valid _

/-- From `x` to `y` it is `k` days, backwards if `k` is negative. -/
def DaysTo (x y : CivilDate) (k : ℤ) : Prop := next^[k.toNat] x = next^[(-k).toNat] y

end CivilDate

section Months

theorem dayNumber_day (x : CivilDate) : dayNumber x = dayNumber ⟨x.year, x.month, 1⟩ + (x.day - 1) := by
  unfold dayNumber
  dsimp only
  omega

theorem yearStart_pred (y : ℤ) : yearStart y = yearStart (y - 1) + if IsLeap y then 366 else 365 := by
  unfold yearStart IsLeap
  split_ifs <;> omega

/-- Up to February the year is counted from the March before. -/
theorem dayNumber_firstOfMonth {y m : ℤ} (h : 1 ≤ m ∧ m ≤ 12) :
    dayNumber ⟨y, m, 1⟩ =
      if m ≤ 2 then yearStart (y - 1) + monthStart (m + 9) else yearStart y + monthStart (m - 3) := by
  have ha : (14 - m) / 12 = if m ≤ 2 then 1 else 0 := by split_ifs <;> omega
  unfold dayNumber
  dsimp only
  rw [ha]
  split_ifs
  · rw [show m + 12 * 1 - 3 = m + 9 by omega]
    omega
  · rw [show m + 12 * 0 - 3 = m - 3 by omega, show y - 0 = y by omega]
    omega

/-- The length of a month is the distance to the next one, but in February. -/
theorem daysInMonth_eq {y m : ℤ} (h : 1 ≤ m ∧ m ≤ 12) :
    daysInMonth y m =
      if m = 2 then if IsLeap y then 29 else 28
      else if m ≤ 2 then monthLength (m + 9) else monthLength (m - 3) := by
  by_cases hm : m ≤ 2
  · have hlen := monthLength_eq (y := y - 1) (m := m + 9) (by omega)
    rw [show (m + 9) / 10 = 1 by omega, show y - 1 + 1 = y by omega, show m + 9 + 3 - 12 * 1 = m by omega] at hlen
    rw [hlen]
    split_ifs <;> first | rfl | omega
  · have hlen := monthLength_eq (y := y) (m := m - 3) (by omega)
    rw [show (m - 3) / 10 = 0 by omega, show y + 0 = y by omega, show m - 3 + 3 - 12 * 0 = m by omega] at hlen
    rw [hlen]
    split_ifs <;> first | rfl | omega

theorem dayNumber_nextMonth {y m : ℤ} (h : 1 ≤ m ∧ m < 12) :
    dayNumber ⟨y, m + 1, 1⟩ = dayNumber ⟨y, m, 1⟩ + daysInMonth y m := by
  have hleap := yearStart_pred y
  rw [dayNumber_firstOfMonth (by omega), dayNumber_firstOfMonth (by omega), daysInMonth_eq (by omega)]
  unfold monthLength monthStart
  split_ifs at hleap ⊢ <;> omega

theorem dayNumber_nextYear (y : ℤ) : dayNumber ⟨y + 1, 1, 1⟩ = dayNumber ⟨y, 12, 1⟩ + daysInMonth y 12 := by
  have hlast : monthStart (12 - 3) = 275 := by decide
  have hlen : daysInMonth y 12 = 31 := rfl
  rw [dayNumber_newYear, dayNumber_firstOfMonth (by decide), if_neg (by decide), hlast, hlen, Int.add_sub_cancel]
  omega

theorem dayNumber_laterMonth {y m n : ℤ} (hm : 1 ≤ m) (hmn : m < n) (hn : n ≤ 12) :
    dayNumber ⟨y, m, 1⟩ + daysInMonth y m ≤ dayNumber ⟨y, n, 1⟩ := by
  have hleap := yearStart_pred y
  rw [← dayNumber_nextMonth (by omega), dayNumber_firstOfMonth (by omega), dayNumber_firstOfMonth (by omega)]
  unfold monthStart
  split_ifs at hleap ⊢ <;> omega

theorem dayNumber_ofYear {x : CivilDate} (h : x.Valid) :
    dayNumber ⟨x.year, 1, 1⟩ ≤ dayNumber x ∧ dayNumber x < dayNumber ⟨x.year + 1, 1, 1⟩ := by
  obtain ⟨⟨hm1, hm12⟩, hday⟩ := h
  have hx := dayNumber_day x
  have hyear := dayNumber_nextYear x.year
  have hlen : daysInMonth x.year 12 = 31 := rfl
  constructor
  · obtain hfirst | hlater := eq_or_lt_of_le hm1
    · rw [← hfirst] at hx
      omega
    · have hmonth := dayNumber_laterMonth (y := x.year) le_rfl hlater hm12
      have hjan : daysInMonth x.year 1 = 31 := rfl
      omega
  · obtain hlast | hearlier := eq_or_lt_of_le hm12
    · rw [hlast] at hx hday
      omega
    · have hmonth := dayNumber_laterMonth (y := x.year) hm1 hearlier le_rfl
      omega

end Months

section Days

variable {x y : CivilDate}

theorem dayNumber_next (h : x.Valid) : dayNumber x.next = dayNumber x + 1 := by
  obtain ⟨⟨hm1, hm12⟩, hday⟩ := h
  have hx := dayNumber_day x
  unfold CivilDate.next
  split_ifs with hsame hmonth
  · rw [dayNumber_day]
    dsimp only
    omega
  · rw [dayNumber_nextMonth ⟨hm1, hmonth⟩]
    omega
  · have hlast : x.month = 12 := by omega
    rw [dayNumber_nextYear, ← hlast]
    omega

theorem dayNumber_mono (hx : x.Valid) (hy : y.Valid) (h : x ≤ y) : dayNumber x ≤ dayNumber y := by
  have hxday := dayNumber_day x
  have hyday := dayNumber_day y
  obtain hyear | ⟨hyear, hmonth | ⟨hmonth, hday⟩⟩ := h
  · have hnext : dayNumber ⟨x.year + 1, 1, 1⟩ ≤ dayNumber ⟨y.year, 1, 1⟩ := by
      rw [dayNumber_newYear, dayNumber_newYear]
      have hstart := yearStart_mono (show x.year + 1 - 1 ≤ y.year - 1 by omega)
      omega
    have hlast := (dayNumber_ofYear hx).2
    have hfirst := (dayNumber_ofYear hy).1
    omega
  · have hlater := dayNumber_laterMonth (y := x.year) hx.month.1 hmonth hy.month.2
    have hxlen := hx.day
    have hylen := hy.day
    rw [hyear] at hlater hxday hxlen
    omega
  · rw [hyear, hmonth] at hxday
    omega

theorem dayNumber_inj (hx : x.Valid) (hy : y.Valid) (h : dayNumber x = dayNumber y) : x = y := by
  rw [← ofDayNumber_dayNumber hx, h, ofDayNumber_dayNumber hy]

theorem dayNumber_le_iff (hx : x.Valid) (hy : y.Valid) : dayNumber x ≤ dayNumber y ↔ x ≤ y := by
  constructor
  · intro h
    obtain hle | hge := x.le_total y
    · exact hle
    · have hsame := dayNumber_inj hx hy (h.antisymm (dayNumber_mono hy hx hge))
      rwa [hsame] at hge ⊢
  · exact dayNumber_mono hx hy

theorem iterate_next (h : x.Valid) (n : ℕ) :
    (CivilDate.next^[n] x).Valid ∧ dayNumber (CivilDate.next^[n] x) = dayNumber x + n := by
  induction n with
  | zero => exact ⟨h, by simp⟩
  | succ n ih =>
    obtain ⟨hvalid, hn⟩ := ih
    rw [Function.iterate_succ_apply']
    refine ⟨CivilDate.next_valid hvalid, ?_⟩
    rw [dayNumber_next hvalid, hn]
    omega

/-- Day numbers count the days between two dates. -/
theorem daysTo_iff (hx : x.Valid) (hy : y.Valid) (k : ℤ) :
    CivilDate.DaysTo x y k ↔ k = dayNumber y - dayNumber x := by
  obtain ⟨hfrom, hk⟩ := iterate_next hx k.toNat
  obtain ⟨hto, hk'⟩ := iterate_next hy (-k).toNat
  unfold CivilDate.DaysTo
  constructor
  · intro h
    rw [h] at hk
    omega
  · intro h
    apply dayNumber_inj hfrom hto
    omega

end Days

end Networker.CivilCalendar
