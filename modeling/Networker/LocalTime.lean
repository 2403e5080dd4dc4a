import Networker.ZoneModel

/-!
Local time and back in a zone with daylight saving. The hour that is repeated when daylight
time ends belongs to the standard type when it is looked up by local time; the trial conversion
of `fromLocalTime` tells the two apart.
-/

namespace Networker

open CheckedRuns VectorSearch CivilCalendar

/-- `timegm` inverts `gmtime_r`; it does not look at the fields that describe the zone. -/
def TimeLibrary.Inverse (c : TimeLibrary) : Prop :=
  ∀ x tm, c.gmtime_r x = some tm → ∀ isdst gmtoff zone,
    c.timegm { tm with isdst := isdst, gmtoff := gmtoff, zone := zone } = x

/-- One standard and one daylight type, which take turns. -/
structure DaylightZone (s : ℤ) (data : ZoneData) : Prop where
  types : ∃ a b, data.localtimes = [⟨s, false, a⟩, ⟨s + 3600, true, b⟩]
  alternate : ∀ i x, data.transitions[i]? = some x → x.localtimeIdx = if i % 2 = 0 then 1 else 0
  /-- The local times that `readTimeZoneFile` computes. -/
  localtime : ∀ x l, x ∈ data.transitions → data.localtimes[x.localtimeIdx]? = some l →
    x.localtime = x.gmttime + l.gmtOffset
  apart : ∀ i x y, data.transitions[i]? = some x → data.transitions[i + 1]? = some y →
    x.gmttime + 7200 < y.gmttime

/-- Neither `time_t` nor the year of a `struct tm` overflows. -/
structure NoOverflow (c : TimeLibrary) (s t : ℤ) : Prop where
  time : InInt64 t ∧ InInt64 (t + 3600)
  standard : InInt64 (t + s) ∧ c.gmtime_r (t + s) ≠ none
  daylight : InInt64 (t + s + 3600) ∧ c.gmtime_r (t + s + 3600) ≠ none

abbrev byGmt : Comp := ⟨true⟩
abbrev byLocal : Comp := ⟨false⟩

namespace DaylightZone

variable {s : ℤ} {data : ZoneData} (h : DaylightZone s data)

include h

theorem localtime_eq {i : ℕ} {x : Transition} (hx : data.transitions[i]? = some x) :
    x.localtime = x.gmttime + if i % 2 = 0 then s + 3600 else s := by
  obtain ⟨a, b, htypes⟩ := h.types
  have hidx := h.alternate i x hx
  split at hidx
  case isTrue heven =>
    rw [if_pos heven]
    exact h.localtime x ⟨s + 3600, true, b⟩ (List.mem_of_getElem? hx) (by rw [hidx, htypes]; rfl)
  case isFalse hodd =>
    rw [if_neg hodd]
    exact h.localtime x ⟨s, false, a⟩ (List.mem_of_getElem? hx) (by rw [hidx, htypes]; rfl)

theorem ascending (comp : Comp) : Ascending comp.key data.transitions := by
  apply ascending_of_steps
  intro i x y hx hy
  have hapart := h.apart i x y hx hy
  have hlx := h.localtime_eq hx
  have hly := h.localtime_eq hy
  unfold Comp.key
  split
  · omega
  · split at hlx <;> split at hly <;> omega

theorem type_of_index {i : ℕ} {x : Transition} (hx : data.transitions[i]? = some x) :
    ∃ l, element data.localtimes x.localtimeIdx = .ok l ∧ l.isDst = decide (i % 2 = 0) ∧
      l.gmtOffset = if i % 2 = 0 then s + 3600 else s := by
  obtain ⟨a, b, htypes⟩ := h.types
  rw [h.alternate i x hx, htypes]
  split
  case isTrue heven => exact ⟨⟨s + 3600, true, b⟩, rfl, by simp [heven], rfl⟩
  case isFalse hodd => exact ⟨⟨s, false, a⟩, rfl, by simp [hodd], rfl⟩

theorem type_of_front :
    ∃ l, front data.localtimes = .ok l ∧ l.isDst = false ∧ l.gmtOffset = s := by
  obtain ⟨a, b, htypes⟩ := h.types
  rw [htypes]
  exact ⟨⟨s, false, a⟩, rfl, rfl, rfl⟩

end DaylightZone

/-- Which of the two types applies at a time, and since which transition. -/
inductive Season (data : ZoneData) (t : ℤ) : Bool → Prop
  | beforeAll (h : ∀ x, data.transitions[0]? = some x → t < x.gmttime) : Season data t false
  | standard (i : ℕ) (x : Transition) (hodd : i % 2 = 1) (h : LastUpTo byGmt.key data.transitions t i x) :
      Season data t false
  | daylight (i : ℕ) (x : Transition) (heven : i % 2 = 0) (h : LastUpTo byGmt.key data.transitions t i x) :
      Season data t true

namespace DaylightZone

variable [Build] {s : ℤ} {data : ZoneData} {t : ℤ}

theorem exists_season (h : DaylightZone s data) (t : ℤ) : ∃ dst, Season data t dst := by
  obtain ⟨-, hfirst⟩ | ⟨i, x, -, hlast, -⟩ := findLocaltime_cases data ⟨t, 0, 0⟩ byGmt
  · exact ⟨false, .beforeAll hfirst⟩
  · have hlast := hlast (h.ascending byGmt)
    rcases Nat.mod_two_eq_zero_or_one i with heven | hodd
    · exact ⟨true, .daylight i x heven hlast⟩
    · exact ⟨false, .standard i x hodd hlast⟩

theorem find_by_gmt (h : DaylightZone s data) {dst : Bool} (hs : Season data t dst) :
    ∃ l, findLocaltime data ⟨t, 0, 0⟩ byGmt = .ok l ∧ l.isDst = dst ∧
      l.gmtOffset = if dst = true then s + 3600 else s := by
  cases hs with
  | beforeAll hfirst =>
    rw [findLocaltime_front hfirst]
    exact h.type_of_front
  | standard i x hodd hlast =>
    rw [findLocaltime_of_lastUpTo ⟨t, 0, 0⟩ (h.ascending byGmt) hlast]
    obtain ⟨l, hl, hdst, hoff⟩ := h.type_of_index hlast.1
    exact ⟨l, hl, by rw [hdst]; simp [hodd], by rw [hoff]; simp [hodd]⟩
  | daylight i x heven hlast =>
    rw [findLocaltime_of_lastUpTo ⟨t, 0, 0⟩ (h.ascending byGmt) hlast]
    obtain ⟨l, hl, hdst, hoff⟩ := h.type_of_index hlast.1
    exact ⟨l, hl, by rw [hdst]; simp [heven], by rw [hoff]; simp [heven]⟩

theorem find_standard (h : DaylightZone s data) (hs : Season data t false) :
    ∃ l, findLocaltime data ⟨0, t + s, 0⟩ byLocal = .ok l ∧ l.gmtOffset = s := by
  cases hs with
  | beforeAll hfirst =>
    have hlocal : ∀ x, data.transitions[0]? = some x → t + s < x.localtime := by
      intro x hx
      have hlt := hfirst x hx
      have heq := h.localtime_eq hx
      rw [if_pos rfl] at heq
      omega
    rw [findLocaltime_front hlocal]
    obtain ⟨l, hl, -, hoff⟩ := h.type_of_front
    exact ⟨l, hl, hoff⟩
  | standard i x hodd hlast =>
    obtain ⟨hx, hle, hnext⟩ := hlast
    have hlocal : LastUpTo byLocal.key data.transitions (t + s) i x := by
      refine ⟨hx, ?_, ?_⟩
      · have heq := h.localtime_eq hx
        rw [if_neg (by omega)] at heq
        change x.gmttime ≤ t at hle
        change x.localtime ≤ t + s
        omega
      · intro y hy
        have heq := h.localtime_eq hy
        rw [if_pos (by omega)] at heq
        have hlt : t < y.gmttime := hnext y hy
        change t + s < y.localtime
        omega
    rw [findLocaltime_of_lastUpTo ⟨0, t + s, 0⟩ (h.ascending byLocal) hlocal]
    obtain ⟨l, hl, -, hoff⟩ := h.type_of_index hx
    exact ⟨l, hl, by rw [hoff, if_neg (by omega)]⟩

/-- In the last hour of daylight time the search finds standard time, and so does the conversion
of a time one hour later. -/
theorem find_repeated (h : DaylightZone s data) {i : ℕ} {y : Transition} (heven : i % 2 = 0)
    (hy : data.transitions[i + 1]? = some y) (hlt : t < y.gmttime) (hle : y.gmttime ≤ t + 3600) :
    ∃ l, findLocaltime data ⟨0, t + s + 3600, 0⟩ byLocal = .ok l ∧ l.gmtOffset = s ∧ Season data (t + 3600) false := by
  have hyl := h.localtime_eq hy
  rw [if_neg (by omega)] at hyl
  have hlocal : LastUpTo byLocal.key data.transitions (t + s + 3600) (i + 1) y := by
    refine ⟨hy, ?_, ?_⟩
    · change y.localtime ≤ t + s + 3600
      omega
    · intro z hz
      have hzl := h.localtime_eq hz
      rw [if_pos (by omega)] at hzl
      have hapart := h.apart (i + 1) y z hy hz
      change t + s + 3600 < z.localtime
      omega
  rw [findLocaltime_of_lastUpTo ⟨0, t + s + 3600, 0⟩ (h.ascending byLocal) hlocal]
  obtain ⟨l, hl, -, hoff⟩ := h.type_of_index hy
  refine ⟨l, hl, by rw [hoff, if_neg (by omega)], ?_⟩
  refine .standard (i + 1) y (by omega) ⟨hy, hle, ?_⟩
  intro z hz
  have hapart := h.apart (i + 1) y z hy hz
  change t + 3600 < z.gmttime
  omega

theorem find_unrepeated (h : DaylightZone s data) {i : ℕ} {x : Transition} (heven : i % 2 = 0)
    (hx : data.transitions[i]? = some x) (hle : x.gmttime ≤ t)
    (hnext : ∀ y, data.transitions[i + 1]? = some y → t + 3600 < y.gmttime) :
    ∃ l, findLocaltime data ⟨0, t + s + 3600, 0⟩ byLocal = .ok l ∧ l.gmtOffset = s + 3600 := by
  have hxl := h.localtime_eq hx
  rw [if_pos heven] at hxl
  have hlocal : LastUpTo byLocal.key data.transitions (t + s + 3600) i x := by
    refine ⟨hx, ?_, ?_⟩
    · change x.localtime ≤ t + s + 3600
      omega
    · intro y hy
      have hyl := h.localtime_eq hy
      rw [if_neg (by omega)] at hyl
      have hlt := hnext y hy
      change t + s + 3600 < y.localtime
      omega
  rw [findLocaltime_of_lastUpTo ⟨0, t + s + 3600, 0⟩ (h.ascending byLocal) hlocal]
  obtain ⟨l, hl, -, hoff⟩ := h.type_of_index hx
  exact ⟨l, hl, by rw [hoff, if_pos heven]⟩

theorem find_daylight (h : DaylightZone s data) (hs : Season data t true) :
    ∃ l, findLocaltime data ⟨0, t + s + 3600, 0⟩ byLocal = .ok l ∧
      (l.gmtOffset = s + 3600 ∧ Season data (t + 3600) true ∨ l.gmtOffset = s ∧ Season data (t + 3600) false) := by
  cases hs with
  | daylight i x heven hlast =>
    obtain ⟨hx, hle, hnext⟩ := hlast
    have hlater : x.gmttime ≤ t + 3600 := Int.le_trans hle (by omega)
    by_cases hrepeated : ∃ y, data.transitions[i + 1]? = some y ∧ y.gmttime ≤ t + 3600
    · obtain ⟨y, hy, hyle⟩ := hrepeated
      obtain ⟨l, hl, hoff⟩ := h.find_repeated heven hy (hnext y hy) hyle
      exact ⟨l, hl, Or.inr hoff⟩
    · have hnext : ∀ y, data.transitions[i + 1]? = some y → t + 3600 < y.gmttime := fun y hy =>
        lt_of_not_ge fun hyle => hrepeated ⟨y, hy, hyle⟩
      obtain ⟨l, hl, hoff⟩ := h.find_unrepeated heven hx hle hnext
      exact ⟨l, hl, Or.inl ⟨hoff, .daylight i x heven ⟨hx, hlater, hnext⟩⟩⟩

end DaylightZone

section Conversions

variable [Build] {c : TimeLibrary} {data : ZoneData} {t : ℤ} {l : Localtime} {tm : Tm}

/-- What `toLocalTime` adds to the fields of `gmtime_r`. -/
def Tm.inZone (tm : Tm) (data : ZoneData) (l : Localtime) : Tm :=
  { tm with
    isdst := if l.isDst then 1 else 0
    gmtoff := l.gmtOffset
    zone := some { base := data.abbreviation, offset := l.arrbIdx } }

theorem toLocalTime_eq (hl : findLocaltime data ⟨t, 0, 0⟩ byGmt = .ok l) (hin : InInt64 (t + l.gmtOffset))
    (htm : c.gmtime_r (t + l.gmtOffset) = some tm) (hname : l.arrbIdx ≤ data.abbreviation.length) :
    TimeZone.toLocalTime c ⟨some data⟩ t = .ok (tm.inZone data l) := by
  unfold TimeZone.toLocalTime TimeZone.access TimeZone.addressOf
  rw [assert_pos (by simp), ok_bind, ok_bind, hl, ok_bind, int64_eq hin, ok_bind, htm, if_pos hname]
  rfl

theorem toLocalTime_faults (hl : findLocaltime data ⟨t, 0, 0⟩ byGmt = .ok l) (hin : InInt64 (t + l.gmtOffset))
    (hname : ¬l.arrbIdx ≤ data.abbreviation.length) : TimeZone.toLocalTime c ⟨some data⟩ t = .error .undefined := by
  unfold TimeZone.toLocalTime TimeZone.access TimeZone.addressOf
  rw [assert_pos (by simp), ok_bind, ok_bind, hl, ok_bind, int64_eq hin, ok_bind, if_neg hname]
  rfl

theorem fromLocalTime_eq {x : ℤ} (hx : c.timegm tm = x) (hl : findLocaltime data ⟨0, x, 0⟩ byLocal = .ok l) :
    TimeZone.fromLocalTime c ⟨some data⟩ tm = (do
      if tm.isdst ≠ 0 then
        let tryTm ← TimeZone.toLocalTime c ⟨some data⟩ (← int64 (x - l.gmtOffset))
        if tryTm.isdst = 0 ∧ tryTm.hour = tm.hour ∧ tryTm.min = tm.min then
          int64 ((← int64 (x - 3600)) - l.gmtOffset)
        else int64 (x - l.gmtOffset)
      else int64 (x - l.gmtOffset)) := by
  unfold TimeZone.fromLocalTime TimeZone.access
  rw [assert_pos (by simp), ok_bind, ok_bind, hx]
  dsimp only
  rw [hl, ok_bind]

/-- The abbreviation of the type in force is within the characters, and so is that of standard time in the last hour
of daylight time. -/
def ZoneData.NamedAt (data : ZoneData) (t : ℤ) : Prop :=
  ∀ l, findLocaltime data ⟨t, 0, 0⟩ byGmt = .ok l → l.arrbIdx ≤ data.abbreviation.length ∧
    (l.isDst = true → ∀ m, findLocaltime data ⟨t + 3600, 0, 0⟩ byGmt = .ok m → m.isDst = false →
      m.arrbIdx ≤ data.abbreviation.length)

theorem ZoneData.namedAt_of_types (h : ∀ l ∈ data.localtimes, l.arrbIdx ≤ data.abbreviation.length) (t : ℤ) :
    data.NamedAt t :=
  fun l hl => ⟨h l (findLocaltime_mem hl), fun _ m hm _ => h m (findLocaltime_mem hm)⟩

theorem Season.round_trip_standard (hc : c.Inverse) {s : ℤ} (hz : DaylightZone s data) (hs : Season data t false)
    (hno : NoOverflow c s t) (hname : data.NamedAt t) :
    (do TimeZone.fromLocalTime c ⟨some data⟩ (← TimeZone.toLocalTime c ⟨some data⟩ t)) = .ok t := by
  obtain ⟨l, hl, hdst, hoff⟩ := hz.find_by_gmt hs
  obtain ⟨hin, hgm⟩ := hno.standard
  obtain ⟨tm, htm⟩ := Option.ne_none_iff_exists'.mp hgm
  rw [if_neg (by simp)] at hoff
  have hx : c.timegm (tm.inZone data l) = t + s := hc _ _ htm _ _ _
  obtain ⟨m, hm, hmoff⟩ := hz.find_standard hs
  rw [toLocalTime_eq hl (by rwa [hoff]) (by rwa [hoff]) (hname l hl).1, ok_bind, fromLocalTime_eq hx hm, hmoff]
  have hisdst : (tm.inZone data l).isdst = 0 := by simp [Tm.inZone, hdst]
  rw [if_neg (by rw [hisdst]; simp), Int.add_sub_cancel]
  exact int64_eq hno.time.1

/-- What is left of the round trip in daylight time is the trial conversion and what it decides. -/
theorem Season.trial (hc : c.Inverse) {s : ℤ} (hz : DaylightZone s data) (hs : Season data t true)
    (hno : NoOverflow c s t) (hl : findLocaltime data ⟨t, 0, 0⟩ byGmt = .ok l)
    (hname : l.arrbIdx ≤ data.abbreviation.length) :
    ∃ tm m, c.gmtime_r (t + s + 3600) = some tm ∧ (tm.inZone data l).isdst = 1 ∧ l.gmtOffset = s + 3600 ∧
      (m = t ∧ Season data (t + 3600) true ∨ m = t + 3600 ∧ Season data (t + 3600) false) ∧
      (do TimeZone.fromLocalTime c ⟨some data⟩ (← TimeZone.toLocalTime c ⟨some data⟩ t)) = (do
        let tryTm ← TimeZone.toLocalTime c ⟨some data⟩ m
        if tryTm.isdst = 0 ∧ tryTm.hour = tm.hour ∧ tryTm.min = tm.min then
          int64 ((← int64 (t + s)) - (t + s + 3600 - m))
        else int64 m) := by
  obtain ⟨l', hl', hdst, hoff⟩ := hz.find_by_gmt hs
  obtain rfl := Except.ok.inj (hl.symm.trans hl')
  obtain ⟨hin, hgm⟩ := hno.daylight
  obtain ⟨tm, htm⟩ := Option.ne_none_iff_exists'.mp hgm
  rw [if_pos rfl] at hoff
  have hsum : t + l.gmtOffset = t + s + 3600 := by omega
  have hlocal := toLocalTime_eq hl (by rwa [hsum]) (by rwa [hsum]) hname
  have hx : c.timegm (tm.inZone data l) = t + s + 3600 := hc _ _ htm _ _ _
  have hisdst : (tm.inZone data l).isdst = 1 := by simp [Tm.inZone, hdst]
  obtain ⟨n, hn, hcases⟩ := hz.find_daylight hs
  refine ⟨tm, t + s + 3600 - n.gmtOffset, htm, hisdst, hoff, ?_, ?_⟩
  · rcases hcases with ⟨hnoff, hlater⟩ | ⟨hnoff, hlater⟩
    · exact Or.inl ⟨by omega, hlater⟩
    · exact Or.inr ⟨by omega, hlater⟩
  · have htime : InInt64 (t + s + 3600 - n.gmtOffset) := by
      rcases hcases with ⟨hnoff, -⟩ | ⟨hnoff, -⟩
      · rw [show t + s + 3600 - n.gmtOffset = t by omega]
        exact hno.time.1
      · rw [show t + s + 3600 - n.gmtOffset = t + 3600 by omega]
        exact hno.time.2
    rw [hlocal, ok_bind, fromLocalTime_eq hx hn, if_pos (by rw [hisdst]; decide), int64_eq htime, ok_bind,
      show t + s + 3600 - 3600 = t + s by omega,
      show t + s + 3600 - (t + s + 3600 - n.gmtOffset) = n.gmtOffset by omega]
    rfl

theorem Season.round_trip_daylight (hc : c.Inverse) {s : ℤ} (hz : DaylightZone s data) (hs : Season data t true)
    (hno : NoOverflow c s t) (hname : data.NamedAt t) :
    (do TimeZone.fromLocalTime c ⟨some data⟩ (← TimeZone.toLocalTime c ⟨some data⟩ t)) = .ok t := by
  obtain ⟨l, hl, hdst, -⟩ := hz.find_by_gmt hs
  obtain ⟨hfirst, hsecond⟩ := hname l hl
  obtain ⟨tm, m, htm, hisdst, hoff, hcases, heq⟩ := hs.trial hc hz hno hl hfirst
  rw [heq]
  have hin := hno.daylight.1
  rcases hcases with ⟨rfl, -⟩ | ⟨rfl, hlater⟩
  · -- the trial conversion finds daylight time again
    have hsum : m + l.gmtOffset = m + s + 3600 := by omega
    rw [toLocalTime_eq hl (by rwa [hsum]) (by rwa [hsum]) hfirst, ok_bind, if_neg (by rw [hisdst]; simp)]
    exact int64_eq hno.time.1
  · -- the trial conversion shows the same hour and minute in standard time
    obtain ⟨n, hn, hndst, hnoff⟩ := hz.find_by_gmt hlater
    rw [if_neg (by simp)] at hnoff
    have hsame : t + 3600 + n.gmtOffset = t + s + 3600 := by omega
    have htry := toLocalTime_eq hn (by rwa [hsame]) (by rwa [hsame]) (hsecond hdst n hn hndst)
    have htrydst : (tm.inZone data n).isdst = 0 := by simp [Tm.inZone, hndst]
    rw [htry, ok_bind, if_pos ⟨htrydst, rfl, rfl⟩, int64_eq hno.standard.1, ok_bind,
      show t + s - (t + s + 3600 - (t + 3600)) = t by omega]
    exact int64_eq hno.time.1

/-- An abbreviation that starts behind the characters makes one of the conversions undefined. -/
theorem DaylightZone.named (hc : c.Inverse) {s : ℤ} (hz : DaylightZone s data) (hno : NoOverflow c s t)
    (hback : (do TimeZone.fromLocalTime c ⟨some data⟩ (← TimeZone.toLocalTime c ⟨some data⟩ t)) = .ok t) :
    data.NamedAt t := by
  obtain ⟨dst, hs⟩ := hz.exists_season t
  intro l hl
  obtain ⟨l', hl', hdst, hoff⟩ := hz.find_by_gmt hs
  obtain rfl := Except.ok.inj (hl.symm.trans hl')
  have hin : InInt64 (t + l.gmtOffset) := by
    cases dst with
    | false => rw [hoff]; exact hno.standard.1
    | true => rw [hoff, if_pos rfl, ← Int.add_assoc]; exact hno.daylight.1
  have hfirst : l.arrbIdx ≤ data.abbreviation.length := by
    by_contra hname
    rw [toLocalTime_faults hl hin hname] at hback
    cases hback
  refine ⟨hfirst, fun htrue m hm hmdst => ?_⟩
  obtain rfl := hdst.symm.trans htrue
  obtain ⟨tm, m', -, -, -, hcases, heq⟩ := hs.trial hc hz hno hl hfirst
  rcases hcases with ⟨-, hlater⟩ | ⟨rfl, hlater⟩
  · obtain ⟨n, hn, hndst, -⟩ := hz.find_by_gmt hlater
    obtain rfl := Except.ok.inj (hn.symm.trans hm)
    exact absurd (hndst.symm.trans hmdst) (by decide)
  · obtain ⟨n, hn, -, hnoff⟩ := hz.find_by_gmt hlater
    obtain rfl := Except.ok.inj (hn.symm.trans hm)
    rw [if_neg (by simp)] at hnoff
    by_contra hname
    have hsame : t + 3600 + n.gmtOffset = t + s + 3600 := by omega
    rw [heq, toLocalTime_faults hn (by rw [hsame]; exact hno.daylight.1) hname] at hback
    cases hback

/-- A time comes back exactly if the conversions find the abbreviations they point to. -/
theorem TimeZone.local_round_trip_iff (hc : c.Inverse) {s : ℤ} (hz : DaylightZone s data) (t : ℤ)
    (hno : NoOverflow c s t) :
    (do TimeZone.fromLocalTime c ⟨some data⟩ (← TimeZone.toLocalTime c ⟨some data⟩ t)) = .ok t ↔ data.NamedAt t := by
  refine ⟨hz.named hc hno, fun hname => ?_⟩
  obtain ⟨dst, hs⟩ := hz.exists_season t
  cases dst with
  | false => exact hs.round_trip_standard hc hz hno hname
  | true => exact hs.round_trip_daylight hc hz hno hname

end Conversions

/-- The functions of the C library on years that fit an `int`. -/
def TimeLibrary.gregorian : TimeLibrary where
  gmtime_r x :=
    let civil := ofSeconds x
    some
      { sec := civil.second, min := civil.minute, hour := civil.hour
        mday := civil.date.day, mon := civil.date.month - 1, year := civil.date.year - 1900
        wday := (x / 86400 + 4) % 7
        yday := x / 86400 + epochDay - dayNumber ⟨civil.date.year, 1, 1⟩
        zone := some (literal "GMT") }
  timegm tm := secondsSinceEpoch tm.civilTime

theorem TimeLibrary.gregorian_inverse : TimeLibrary.gregorian.Inverse := by
  intro x tm htm isdst gmtoff zone
  obtain rfl := Option.some.inj htm
  have hx := secondsSinceEpoch_ofSeconds x
  unfold gregorian Tm.civilTime
  dsimp only
  rw [Int.sub_add_cancel, Int.sub_add_cancel]
  exact hx

/-- Eastern time of the year 2024, with the place where the abbreviation of daylight time begins. -/
def newYork2024 (abbrind : ℕ) : ZoneData where
  transitions := [⟨1710054000, 1710039600, 1⟩, ⟨1730613600, 1730595600, 0⟩]
  localtimes := [⟨-18000, false, 0⟩, ⟨-14400, true, abbrind⟩]
  abbreviation := [69, 83, 84, 0, 69, 68, 84, 0]

theorem newYork2024_daylight (abbrind : ℕ) : DaylightZone (-18000) (newYork2024 abbrind) where
  types := ⟨0, abbrind, rfl⟩
  alternate i x hx := by
    rcases i with _ | _ | i
    · rw [← Option.some.inj hx]
      rfl
    · rw [← Option.some.inj hx]
      rfl
    · cases hx
  localtime x l hx hl := by
    simp only [newYork2024, List.mem_cons, List.not_mem_nil, or_false] at hx
    obtain rfl | rfl := hx <;> rw [← Option.some.inj hl] <;> rfl
  apart i x y hx hy := by
    rcases i with _ | i
    · rw [← Option.some.inj hx, ← Option.some.inj hy]
      decide
    · cases hy

-- 01:30 daylight time on the day on which the hour from one to two comes twice
theorem repeatedHour_noOverflow : NoOverflow .gregorian (-18000) 1730611800 :=
  ⟨⟨by decide, by decide⟩, ⟨by decide, by simp [TimeLibrary.gregorian]⟩, ⟨by decide, by simp [TimeLibrary.gregorian]⟩⟩

theorem TimeZone.local_round_trip_repeated :
    letI := Build.debug
    (do
      let zone : TimeZone := ⟨some (newYork2024 4)⟩
      zone.fromLocalTime .gregorian (← zone.toLocalTime .gregorian 1730611800)) = .ok 1730611800 :=
  let _ := Build.debug
  (TimeZone.local_round_trip_iff TimeLibrary.gregorian_inverse (newYork2024_daylight 4) 1730611800
    repeatedHour_noOverflow).mpr (ZoneData.namedAt_of_types (by decide) _)

/-- The abbreviation of daylight time begins behind the eight characters and their NUL. -/
theorem TimeZone.misnamed_zone_faults :
    letI := Build.release
    DaylightZone (-18000) (newYork2024 9) ∧ NoOverflow .gregorian (-18000) 1730611800 ∧
      (do
        let zone : TimeZone := ⟨some (newYork2024 9)⟩
        zone.fromLocalTime .gregorian (← zone.toLocalTime .gregorian 1730611800)) = .error .undefined :=
  let _ := Build.release
  ⟨newYork2024_daylight 9, repeatedHour_noOverflow, by decide⟩

end Networker
