import Networker.CalendarDays
import Networker.SortedTexts

/-!
The numbers of a civil time, from the year to the second, are compared as the times are.
-/

namespace Networker.CivilCalendar

open SortedTexts

def CivilDate.numbers (x : CivilDate) : List ℕ := [x.year.toNat, x.month.toNat, x.day.toNat]

def CivilTime.numbers (x : CivilTime) : List ℕ := x.date.numbers ++ [x.hour.toNat, x.minute.toNat, x.second.toNat]

section Order

theorem CivilDate.numbers_lt_iff {x y : CivilDate} (hx : x.Valid) (hy : y.Valid) (hxy : 0 ≤ x.year) (hyy : 0 ≤ y.year) :
    x.numbers < y.numbers ↔ dayNumber x < dayNumber y := by
  have hle := dayNumber_le_iff hy hx
  change _ ↔ y.le x at hle
  unfold CivilDate.le at hle
  have hxm := hx.month
  have hym := hy.month
  have hxd := hx.day
  have hyd := hy.day
  unfold CivilDate.numbers
  rw [List.cons_lt_cons_iff, List.cons_lt_cons_iff, List.cons_lt_cons_iff]
  simp only [List.lt_irrefl, and_false, or_false]
  omega

theorem CivilDate.numbers_inj {x y : CivilDate} (hx : x.Valid) (hy : y.Valid) (hxy : 0 ≤ x.year) (hyy : 0 ≤ y.year) :
    x.numbers = y.numbers ↔ dayNumber x = dayNumber y := by
  refine eq_iff_of_lt_iff (fun _ => lt_irrefl _) (CivilDate.numbers_lt_iff hx hy hxy hyy)
    (CivilDate.numbers_lt_iff hy hx hyy hxy) fun h => ?_
  rw [dayNumber_inj hx hy h]

variable {s t : ℤ}

theorem ofSeconds_numbers_lt_iff (hs : 0 ≤ (ofSeconds s).date.year) (ht : 0 ≤ (ofSeconds t).date.year) :
    (ofSeconds s).numbers < (ofSeconds t).numbers ↔ s < t := by
  obtain ⟨hsdate, hsh, hsm, hss⟩ := ofSeconds_valid s
  obtain ⟨htdate, hth, htm, hts⟩ := ofSeconds_valid t
  have hlt := CivilDate.numbers_lt_iff hsdate htdate hs ht
  have heq := CivilDate.numbers_inj hsdate htdate hs ht
  have hsday : dayNumber (ofSeconds s).date = s / 86400 + epochDay := dayNumber_ofDayNumber _
  have htday : dayNumber (ofSeconds t).date = t / 86400 + epochDay := dayNumber_ofDayNumber _
  have hsec := secondsSinceEpoch_ofSeconds s
  have htec := secondsSinceEpoch_ofSeconds t
  unfold secondsSinceEpoch at hsec htec
  have hlength : (ofSeconds s).date.numbers.length = (ofSeconds t).date.numbers.length := rfl
  unfold CivilTime.numbers
  rw [append_lt_append_iff hlength, hlt, heq, List.cons_lt_cons_iff, List.cons_lt_cons_iff, List.cons_lt_cons_iff]
  simp only [List.lt_irrefl, and_false, or_false]
  omega

theorem ofSeconds_numbers_inj (hs : 0 ≤ (ofSeconds s).date.year) (ht : 0 ≤ (ofSeconds t).date.year) :
    (ofSeconds s).numbers = (ofSeconds t).numbers ↔ s = t :=
  eq_iff_of_lt_iff (fun _ => lt_irrefl _) (ofSeconds_numbers_lt_iff hs ht) (ofSeconds_numbers_lt_iff ht hs) fun h => by
    rw [h]

end Order

end Networker.CivilCalendar
