import Networker.LocalTime
import Networker.ZoneDecoding
import Networker.ZoneValidation

/-!
Local time in the zone of a file. The tables of the block alone decide what `toLocalTime` shows and, in
a zone without daylight types, which times `fromLocalTime` gives back.
-/

namespace Networker

open CheckedRuns VectorSearch

namespace ZoneBlock

abbrev time (x : Int32 × UInt8) : ℤ := x.1.toInt

/-- The type that is in force after the first transitions. -/
def typeAfter (z : ZoneBlock) : ℕ → Option TtInfo
  | 0 => z.types.head?
  | i + 1 => z.transitions[i]?.bind fun x => z.types[x.2.toNat]?

/-- Every abbreviation begins within the characters. -/
abbrev Named (z : ZoneBlock) : Prop := ∀ info ∈ z.types, info.abbrind.toNat ≤ z.chars.length

/-- All types are standard time, and the transitions are further apart than their offsets differ. -/
structure Standard (z : ZoneBlock) (spread : ℤ) : Prop where
  standard : ∀ info ∈ z.types, info.isdst = 0
  offsets : ∀ info ∈ z.types, ∀ info' ∈ z.types, info.gmtoff.toInt - info'.gmtoff.toInt ≤ spread
  apart : ∀ i x y, z.transitions[i]? = some x → z.transitions[i + 1]? = some y → time x + spread < time y

/-- Within `d` seconds after `t` a transition puts the clocks back by `d` seconds. -/
def Repeats (z : ZoneBlock) (t d : ℤ) : Prop :=
  ∃ n info x info', UpTo time z.transitions t n ∧ z.typeAfter n = some info ∧ x ∈ z.transitions ∧
    z.types[x.2.toNat]? = some info' ∧ d = info.gmtoff.toInt - info'.gmtoff.toInt ∧ t < time x ∧ time x ≤ t + d

section Search

variable {z : ZoneBlock} {t : ℤ} {n : ℕ} {info : TtInfo}

theorem typeAfter_succ (z : ZoneBlock) (i : ℕ) :
    z.typeAfter (i + 1) = z.transitions[i]?.bind fun x => z.types[x.2.toNat]? := rfl

theorem typeAfter_isSome (hn : n ≤ z.transitions.length) : ∃ info, z.typeAfter n = some info ∧ info ∈ z.types := by
  cases n with
  | zero =>
    obtain ⟨info, hinfo⟩ := Option.ne_none_iff_exists'.mp (mt List.head?_eq_none_iff.mp z.types_length.1)
    exact ⟨info, hinfo, List.mem_of_head? hinfo⟩
  | succ i =>
    have hx : z.transitions[i]? = some z.transitions[i] := List.getElem?_eq_getElem (by omega)
    have hidx := z.indices _ (List.mem_of_getElem? hx)
    have hinfo : z.types[z.transitions[i].2.toNat]? = some z.types[z.transitions[i].2.toNat] :=
      List.getElem?_eq_getElem hidx
    refine ⟨_, ?_, List.mem_of_getElem? hinfo⟩
    rw [typeAfter_succ, hx, Option.bind_some, hinfo]

theorem data_length (z : ZoneBlock) : z.data.transitions.length = z.transitions.length := List.length_map _

theorem data_transition {i : ℕ} {x : Transition} (hx : z.data.transitions[i]? = some x) :
    ∃ y info, z.transitions[i]? = some y ∧ z.typeAfter (i + 1) = some info ∧ info ∈ z.types ∧ x.gmttime = time y ∧
      x.localtime = time y + info.gmtoff.toInt ∧ z.types[y.2.toNat]? = some info ∧ x.localtimeIdx = y.2.toNat := by
  unfold data at hx
  dsimp only at hx
  rw [List.getElem?_map, Option.map_eq_some_iff] at hx
  obtain ⟨y, hy, rfl⟩ := hx
  have hidx := z.indices y (List.mem_of_getElem? hy)
  have hinfo : z.types[y.2.toNat]? = some z.types[y.2.toNat] := List.getElem?_eq_getElem hidx
  refine ⟨y, _, hy, ?_, List.mem_of_getElem? hinfo, rfl, ?_, hinfo, rfl⟩
  · rw [typeAfter_succ, hy, Option.bind_some, hinfo]
  · unfold File.transitionOf
    dsimp only
    rw [List.getElem?_map, hinfo]
    rfl

theorem Standard.spread_nonneg {spread : ℤ} (hz : z.Standard spread) : 0 ≤ spread := by
  obtain ⟨info, -, hmem⟩ := typeAfter_isSome (Nat.zero_le z.transitions.length)
  have hle := hz.offsets info hmem info hmem
  omega

theorem Standard.ascending {spread : ℤ} (hz : z.Standard spread) : Ascending time z.transitions := by
  apply ascending_of_steps
  intro i x y hx hy
  have hapart := hz.apart i x y hx hy
  have hspread := hz.spread_nonneg
  omega

theorem Standard.ascending_local {spread : ℤ} (hz : z.Standard spread) : Ascending byLocal.key z.data.transitions := by
  apply ascending_of_steps
  intro i a b ha hb
  obtain ⟨x, info, hx, -, hinfo, -, ha, -⟩ := data_transition ha
  obtain ⟨y, info', hy, -, hinfo', -, hb, -⟩ := data_transition hb
  have hapart := hz.apart i x y hx hy
  have hspread := hz.offsets info hinfo info' hinfo'
  change a.localtime < b.localtime
  omega

/-- The clocks that are in force at `t` have passed the local times of the transitions up to `t`, and of at most
the next one. -/
theorem Standard.upTo_local {spread : ℤ} (hz : z.Standard spread) (hn : UpTo time z.transitions t n)
    (hinfo : z.typeAfter n = some info) :
    ((∀ x, z.data.transitions[n]? = some x → t + info.gmtoff.toInt < x.localtime) ∧
      UpTo byLocal.key z.data.transitions (t + info.gmtoff.toInt) n) ∨
    ∃ x, z.data.transitions[n]? = some x ∧ x.localtime ≤ t + info.gmtoff.toInt ∧
      UpTo byLocal.key z.data.transitions (t + info.gmtoff.toInt) (n + 1) := by
  by_cases hnext : ∀ x, z.data.transitions[n]? = some x → t + info.gmtoff.toInt < x.localtime
  · refine Or.inl ⟨hnext, ?_⟩
    cases n with
    | zero => exact upTo_zero hz.ascending_local hnext
    | succ i =>
      obtain ⟨y, hy, hle, -⟩ := hn.last
      have hlen := hn.le_length
      obtain ⟨x, hx⟩ : ∃ x, z.data.transitions[i]? = some x :=
        ⟨_, List.getElem?_eq_getElem (by rw [data_length]; omega)⟩
      obtain ⟨y', info', hy', hafter, -, -, hlocal, -⟩ := data_transition hx
      cases hy.symm.trans hy'
      cases hafter.symm.trans hinfo
      refine LastUpTo.upTo hz.ascending_local ⟨hx, ?_, hnext⟩
      change x.localtime ≤ _
      omega
  · push Not at hnext
    obtain ⟨x, hx, hle⟩ := hnext
    refine Or.inr ⟨x, hx, hle, LastUpTo.upTo hz.ascending_local ⟨hx, hle, fun x' hx' => ?_⟩⟩
    obtain ⟨y, info', hy, -, hmem, -, hlocal, -⟩ := data_transition hx
    obtain ⟨y', info'', hy', -, hmem', -, hlocal', -⟩ := data_transition hx'
    obtain ⟨first, hfirst, hmem₀⟩ := typeAfter_isSome hn.le_length
    cases hfirst.symm.trans hinfo
    have hlater : t < time y := not_le.mp fun hle => absurd ((hn.iff n y hy).mp hle) (by omega)
    have hapart := hz.apart n y y' hy hy'
    have hspread := hz.offsets info hmem₀ info'' hmem'
    change t + info.gmtoff.toInt < x'.localtime
    omega

/-- The transition that repeats a time is the next one. -/
theorem Standard.repeats_next {spread d : ℤ} (hz : z.Standard spread) (h : z.Repeats t d)
    (hn : UpTo time z.transitions t n) (hinfo : z.typeAfter n = some info) :
    ∃ x info', z.transitions[n]? = some x ∧ z.types[x.2.toNat]? = some info' ∧
      d = info.gmtoff.toInt - info'.gmtoff.toInt ∧ t < time x ∧ time x ≤ t + d := by
  obtain ⟨m, first, x, info', hm, hfirst, hx, hinfo', hd, hlt, hle⟩ := h
  obtain rfl := hm.unique hn
  cases hfirst.symm.trans hinfo
  obtain ⟨first, hfirst', hmem⟩ := typeAfter_isSome hn.le_length
  cases hfirst'.symm.trans hinfo
  obtain ⟨i, hi⟩ := List.getElem?_of_mem hx
  have hspread := hz.offsets info hmem info' (List.mem_of_getElem? hinfo')
  have hge : m ≤ i := not_lt.mp fun hlti => absurd ((hn.iff i x hi).mpr hlti) (not_le.mpr hlt)
  rcases Nat.eq_or_lt_of_le hge with rfl | hgt
  · exact ⟨x, info', hi, hinfo', hd, hlt, hle⟩
  · have hlen := (List.getElem?_eq_some_iff.mp hi).1
    have hnext : z.transitions[m]? = some z.transitions[m] := List.getElem?_eq_getElem (by omega)
    have hsecond : z.transitions[m + 1]? = some z.transitions[m + 1] := List.getElem?_eq_getElem (by omega)
    have hlater : t < time z.transitions[m] := not_le.mp fun hle => absurd ((hn.iff m _ hnext).mp hle) (by omega)
    have hapart := hz.apart m _ _ hnext hsecond
    have hmono : time z.transitions[m + 1] ≤ time x := by
      rcases Nat.eq_or_lt_of_le (show m + 1 ≤ i by omega) with rfl | hlt'
      · rw [Option.some.inj (hsecond.symm.trans hi)]
      · exact (hz.ascending.lt hsecond hi hlt').le
    omega

theorem upTo_gmt (hn : UpTo time z.transitions t n) : UpTo byGmt.key z.data.transitions t n := by
  refine ⟨?_, fun i x hx => ?_⟩
  · rw [data_length]
    exact hn.le_length
  · obtain ⟨y, info, hy, -, -, htime, -⟩ := data_transition hx
    change x.gmttime ≤ t ↔ _
    rw [htime]
    exact hn.iff i y hy

theorem ascending_gmt (hasc : Ascending time z.transitions) : Ascending byGmt.key z.data.transitions := by
  apply ascending_of_steps
  intro i a b ha hb
  obtain ⟨x, info, hx, -, -, ha, -⟩ := data_transition ha
  obtain ⟨y, info', hy, -, -, hb, -⟩ := data_transition hb
  change a.gmttime < b.gmttime
  rw [ha, hb]
  exact hasc.lt hx hy (Nat.lt_succ_self i)

theorem findLocaltime_of_upTo [Build] {sentry : Transition} {comp : Comp} (hasc : Ascending comp.key z.data.transitions)
    (hn : UpTo comp.key z.data.transitions (comp.key sentry) n) (hinfo : z.typeAfter n = some info) :
    findLocaltime z.data sentry comp = .ok info.localtime := by
  cases n with
  | zero =>
    rw [findLocaltime_front hn.first]
    apply element_eq
    change (z.types.map _)[0]? = _
    rw [List.getElem?_map, ← List.head?_eq_getElem?]
    exact congrArg _ hinfo
  | succ i =>
    obtain ⟨x, hlast⟩ := hn.last
    rw [findLocaltime_of_lastUpTo sentry hasc hlast]
    obtain ⟨y, info', -, hafter, -, -, -, hinfo', hidx⟩ := data_transition hlast.1
    cases hafter.symm.trans hinfo
    apply element_eq
    change (z.types.map _)[x.localtimeIdx]? = _
    rw [hidx, List.getElem?_map, hinfo']
    rfl

theorem ofFile_eq (z : ZoneBlock) (rest : List UInt8) {stack : ℕ} (hstack : 15 ≤ stack ∧ z.chars.length ≤ stack) :
    TimeZone.ofFile (some { content := z.bytes ++ rest, stack }) = .ok { data := some z.data } := by
  unfold TimeZone.ofFile
  rw [readTimeZoneFile_block z rest stack hstack]
  rfl

end Search

section Conversions

variable [Build] {c : TimeLibrary} {z : ZoneBlock} {t : ℤ} {n : ℕ} {info : TtInfo}

/-- What `toLocalTime` adds to the fields of `gmtime_r`. -/
def shown (z : ZoneBlock) (info : TtInfo) (tm : Tm) : Tm :=
  { tm with
    isdst := if info.isdst = 0 then 0 else 1
    gmtoff := info.gmtoff.toInt
    zone := some { base := z.chars, offset := info.abbrind.toNat } }

theorem toLocalTime_of_upTo (hasc : Ascending time z.transitions) (hname : z.Named) (hn : UpTo time z.transitions t n)
    (hinfo : z.typeAfter n = some info) {tm : Tm} (hin : InInt64 (t + info.gmtoff.toInt))
    (htm : c.gmtime_r (t + info.gmtoff.toInt) = some tm) :
    TimeZone.toLocalTime c { data := some z.data } t = .ok (z.shown info tm) := by
  have hfind : findLocaltime z.data ⟨t, 0, 0⟩ byGmt = .ok info.localtime :=
    findLocaltime_of_upTo (ascending_gmt hasc) (upTo_gmt hn) hinfo
  obtain ⟨first, hfirst, hmem⟩ := typeAfter_isSome hn.le_length
  cases hfirst.symm.trans hinfo
  rw [toLocalTime_eq hfind hin htm (hname info hmem)]
  unfold shown Tm.inZone TtInfo.localtime
  by_cases hdst : info.isdst = 0
  · simp [hdst, data]
  · simp [hdst, data]

/-- A time that is shown in standard time comes back with the offset that its local time has. -/
theorem Standard.round_trip {spread : ℤ} (hz : z.Standard spread) (hname : z.Named) (hc : c.Inverse)
    (hn : UpTo time z.transitions t n) (hinfo : z.typeAfter n = some info) (hin : InInt64 (t + info.gmtoff.toInt))
    (hgm : c.gmtime_r (t + info.gmtoff.toInt) ≠ none) {m : ℕ} {info' : TtInfo}
    (hm : UpTo byLocal.key z.data.transitions (t + info.gmtoff.toInt) m) (hinfo' : z.typeAfter m = some info') :
    (do
      let zone : TimeZone := { data := some z.data }
      zone.fromLocalTime c (← zone.toLocalTime c t)) = int64 (t + info.gmtoff.toInt - info'.gmtoff.toInt) := by
  obtain ⟨tm, htm⟩ := Option.ne_none_iff_exists'.mp hgm
  obtain ⟨first, hfirst, hmem⟩ := typeAfter_isSome hn.le_length
  cases hfirst.symm.trans hinfo
  have hback : c.timegm (z.shown info tm) = t + info.gmtoff.toInt := hc _ _ htm _ _ _
  have hfind : findLocaltime z.data ⟨0, t + info.gmtoff.toInt, 0⟩ byLocal = .ok info'.localtime :=
    findLocaltime_of_upTo hz.ascending_local hm hinfo'
  have hdst : (z.shown info tm).isdst = 0 := if_pos (hz.standard info hmem)
  dsimp only
  rw [toLocalTime_of_upTo hz.ascending hname hn hinfo hin htm, ok_bind, fromLocalTime_eq hback hfind,
    if_neg (not_not.mpr hdst)]
  rfl

/-- In the zone of a file, `toLocalTime` shows the type that the block has in force. -/
theorem local_times (z : ZoneBlock) (hasc : Ascending time z.transitions) (hname : z.Named) (rest : List UInt8)
    (stack : ℕ) (hstack : 15 ≤ stack ∧ z.chars.length ≤ stack) (c : TimeLibrary) :
    ∃ zone, TimeZone.ofFile (some { content := z.bytes ++ rest, stack }) = .ok zone ∧ zone.valid = true ∧
      ∀ t, ∃ n info, UpTo time z.transitions t n ∧ z.typeAfter n = some info ∧
        ∀ tm, InInt64 (t + info.gmtoff.toInt) → c.gmtime_r (t + info.gmtoff.toInt) = some tm →
          zone.toLocalTime c t = .ok (z.shown info tm) := by
  refine ⟨_, z.ofFile_eq rest hstack, rfl, fun t => ?_⟩
  obtain ⟨n, hn⟩ := exists_upTo hasc t
  obtain ⟨info, hinfo, -⟩ := typeAfter_isSome hn.le_length
  exact ⟨n, info, hn, hinfo, fun tm hin htm => toLocalTime_of_upTo hasc hname hn hinfo hin htm⟩

/-- In a zone without daylight types a time comes back from its local time, unless the clocks show it twice: then the
later of the two comes back. -/
theorem standard_round_trip (z : ZoneBlock) {spread : ℤ} (hz : z.Standard spread) (hname : z.Named)
    (rest : List UInt8) (stack : ℕ) (hstack : 15 ≤ stack ∧ z.chars.length ≤ stack) (hc : c.Inverse)
    (hn : UpTo time z.transitions t n) (hinfo : z.typeAfter n = some info)
    (hin : InInt64 t ∧ InInt64 (t + info.gmtoff.toInt)) (hgm : c.gmtime_r (t + info.gmtoff.toInt) ≠ none) :
    ∃ zone, TimeZone.ofFile (some { content := z.bytes ++ rest, stack }) = .ok zone ∧
      (∀ d, z.Repeats t d → (do zone.fromLocalTime c (← zone.toLocalTime c t)) = .ok (t + d)) ∧
      ((¬∃ d, z.Repeats t d) → (do zone.fromLocalTime c (← zone.toLocalTime c t)) = .ok t) := by
  refine ⟨_, z.ofFile_eq rest hstack, ?_⟩
  obtain ⟨hnext, hm⟩ | ⟨x, hx, hle, hm⟩ := hz.upTo_local hn hinfo
  · have hsame := hz.round_trip hname hc hn hinfo hin.2 hgm hm hinfo
    constructor
    · intro d hd
      obtain ⟨y, info', hy, hinfo', hd, -, hle⟩ := hz.repeats_next hd hn hinfo
      have hlen := (List.getElem?_eq_some_iff.mp hy).1
      obtain ⟨x, hx⟩ : ∃ x, z.data.transitions[n]? = some x :=
        ⟨_, List.getElem?_eq_getElem (by rw [data_length]; omega)⟩
      obtain ⟨y', first, hy', -, -, -, hlocal, hfirst, -⟩ := data_transition hx
      cases hy.symm.trans hy'
      cases hfirst.symm.trans hinfo'
      have hlater := hnext x hx
      omega
    · intro _
      rw [hsame, Int.add_sub_cancel]
      exact int64_eq hin.1
  · obtain ⟨y, info', hy, hafter, -, -, hlocal, hinfo', -⟩ := data_transition hx
    have hshifted := hz.round_trip hname hc hn hinfo hin.2 hgm hm hafter
    have hlater : t < time y := not_le.mp fun hle => absurd ((hn.iff n y hy).mp hle) (by omega)
    have hrepeats : z.Repeats t (info.gmtoff.toInt - info'.gmtoff.toInt) :=
      ⟨n, info, y, info', hn, hinfo, List.mem_of_getElem? hy, hinfo', rfl, hlater, by omega⟩
    constructor
    · intro d hd
      obtain ⟨y', first, hy', hfirst, rfl, -, -⟩ := hz.repeats_next hd hn hinfo
      cases hy.symm.trans hy'
      cases hfirst.symm.trans hinfo'
      have htime : time y < 2147483648 := y.1.toInt_lt
      have hoff : info.gmtoff.toInt < 2147483648 := info.gmtoff.toInt_lt
      have hoff' : -2147483648 ≤ info'.gmtoff.toInt := info'.gmtoff.le_toInt
      have hlow := hin.1.1
      rw [hshifted, int64_eq (by omega), Int.add_sub_assoc]
    · intro hnone
      exact absurd ⟨_, hrepeats⟩ hnone

end Conversions

-- west of Greenwich, with transitions before 1970 and a leap second count that nothing follows
def westernBlock : ZoneBlock where
  version := 0
  reserved := List.replicate 15 0
  isgmtcnt := 0
  isstdcnt := 0
  leapcnt := -1
  transitions := [(-1633280400, 0), (-1615140000, 1)]
  types := [⟨-14400, 1, 4⟩, ⟨-18000, 0, 0⟩]
  chars := (literal "EST").base ++ [0] ++ (literal "EDT").base ++ [0]
  reserved_length := reserved_zeros
  indices := by simp
  types_length := ⟨List.cons_ne_nil _ _, by decide⟩
  chars_pos := List.append_ne_nil_of_right_ne_nil _ (List.cons_ne_nil _ _)
  counts := ⟨by decide, by decide⟩

theorem westernBlock_upTo : UpTo time westernBlock.transitions (-1615140001) 1 := by
  refine ⟨by decide, fun i x hx => ?_⟩
  rcases i with _ | _ | i
  · rw [← Option.some.inj hx]
    decide
  · rw [← Option.some.inj hx]
    decide
  · cases hx

/-- The last second of daylight time. -/
theorem local_times_western :
    letI := Build.debug
    ∃ zone tm, TimeZone.ofFile (some { content := westernBlock.bytes ++ [7], stack := 4096 }) = .ok zone ∧
      zone.toLocalTime .gregorian (-1615140001) = .ok tm ∧ tm.isdst = 1 ∧ tm.hour = 1 ∧ tm.min = 59 ∧ tm.sec = 59 := by
  let _ := Build.debug
  obtain ⟨zone, hzone, -, htimes⟩ :=
    local_times westernBlock (by unfold Ascending; decide) (by decide) [7] 4096 (by decide) .gregorian
  obtain ⟨n, info, hn, hinfo, hshow⟩ := htimes (-1615140001)
  obtain rfl := westernBlock_upTo.unique hn
  obtain rfl := Option.some.inj hinfo
  exact ⟨zone, _, hzone, hshow _ (by decide) rfl, by decide⟩

/-- The clocks go back by an hour, from one standard time to another. -/
def setBackBlock : ZoneBlock where
  version := 0
  reserved := List.replicate 15 0
  isgmtcnt := 0
  isstdcnt := 0
  leapcnt := 0
  transitions := [(1000000, 1)]
  types := [⟨3600, 0, 0⟩, ⟨0, 0, 4⟩]
  chars := (literal "CET").base ++ [0] ++ (literal "GMT").base ++ [0]
  reserved_length := reserved_zeros
  indices := by
    intro x hx
    obtain rfl := List.mem_singleton.mp hx
    decide
  types_length := ⟨List.cons_ne_nil _ _, by decide⟩
  chars_pos := List.append_ne_nil_of_right_ne_nil _ (List.cons_ne_nil _ _)
  counts := ⟨by decide, by decide⟩

theorem setBackBlock_standard : setBackBlock.Standard 3600 where
  standard := by decide
  offsets := by decide
  apart i x y _ hy := by cases hy

theorem setBackBlock_upTo : UpTo time setBackBlock.transitions 998000 0 := by
  refine ⟨by decide, fun i x hx => ?_⟩
  rcases i with _ | i
  · rw [← Option.some.inj hx]
    decide
  · cases hx

/-- A time in the first pass of the repeated hour comes back one hour later. -/
theorem standard_round_trip_repeated :
    letI := Build.debug
    setBackBlock.Repeats 998000 3600 ∧
      ∃ zone, TimeZone.ofFile (some { content := setBackBlock.bytes ++ [], stack := 4096 }) = .ok zone ∧
        (do zone.fromLocalTime .gregorian (← zone.toLocalTime .gregorian 998000)) = .ok 1001600 := by
  let _ := Build.debug
  have hrepeats : setBackBlock.Repeats 998000 3600 :=
    ⟨0, _, (1000000, 1), _, setBackBlock_upTo, rfl, List.mem_singleton_self _, rfl, by decide⟩
  obtain ⟨zone, hzone, hback, -⟩ := standard_round_trip setBackBlock setBackBlock_standard (by decide) [] 4096
    (by decide) TimeLibrary.gregorian_inverse setBackBlock_upTo rfl ⟨by decide, by decide⟩ (by simp [TimeLibrary.gregorian])
  exact ⟨hrepeats, zone, hzone, hback 3600 hrepeats⟩

end ZoneBlock

end Networker
