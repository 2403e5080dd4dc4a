import Networker.UtcTime
import Networker.VectorSearch
import Mathlib.Tactic.Push

/-!
Local time of `TimeZone`: the tables of a zone, the search for the type of local time that
applies, and the two conversions built on it.
-/

namespace Networker

open CheckedRuns VectorSearch

structure Transition where
  gmttime : ℤ
  localtime : ℤ
  localtimeIdx : ℕ
deriving DecidableEq, Repr

structure Localtime where
  gmtOffset : ℤ
  isDst : Bool
  arrbIdx : ℕ
deriving DecidableEq, Repr

structure Comp where
  compareGmt : Bool

namespace Comp

def key (comp : Comp) (x : Transition) : ℤ := if comp.compareGmt then x.gmttime else x.localtime

/-- The call operator. -/
def less (comp : Comp) (lhs rhs : Transition) : Bool :=
  if comp.compareGmt then lhs.gmttime < rhs.gmttime else lhs.localtime < rhs.localtime

def equal (comp : Comp) (lhs rhs : Transition) : Bool :=
  if comp.compareGmt then lhs.gmttime == rhs.gmttime else lhs.localtime == rhs.localtime

theorem less_iff (comp : Comp) (x y : Transition) : comp.less x y = true ↔ comp.key x < comp.key y := by
  unfold less key
  split <;> simp

theorem equal_iff (comp : Comp) (x y : Transition) : comp.equal x y = true ↔ comp.key x = comp.key y := by
  unfold equal key
  split <;> simp

end Comp

/-- `TimeZone::Data`; nothing reads or writes its `names`. -/
structure ZoneData where
  transitions : List Transition := []
  localtimes : List Localtime := []
  abbreviation : List UInt8 := []
deriving DecidableEq, Repr

/-- The functions of the C library that convert between seconds and fields. -/
structure TimeLibrary where
  /-- `none` for a null pointer, when the year does not fit an `int`. -/
  gmtime_r : ℤ → Option Tm
  timegm : Tm → ℤ

structure TimeZone where
  data : Option ZoneData := none
deriving DecidableEq, Repr

namespace TimeZone

def valid (zone : TimeZone) : Bool := zone.data.isSome

/-- The constructor for a fixed offset. -/
def ofOffset (eastOfUtc : ℤ) (name : List UInt8) : TimeZone where
  data := some { localtimes := [⟨eastOfUtc, false, 0⟩], abbreviation := name }

end TimeZone

section Conversions

variable [Build]

/-- The pointer that is returned is never null. -/
def findLocaltime (data : ZoneData) (sentry : Transition) (comp : Comp) : Exec Localtime := do
  let beforeAll ← if data.transitions = [] then pure true else comp.less sentry <$> front data.transitions
  if beforeAll then front data.localtimes
  else
    let transI := lowerBound (fun x => comp.less x sentry) data.transitions
    if transI < data.transitions.length then
      let found ← element data.transitions transI
      if comp.equal sentry found then element data.localtimes found.localtimeIdx
      else
        assert (transI ≠ 0)
        let before ← previous data.transitions transI
        element data.localtimes before.localtimeIdx
    else
      let last ← back data.transitions
      element data.localtimes last.localtimeIdx

namespace TimeZone

variable (c : TimeLibrary) (zone : TimeZone)

/-- `assert(data_ != NULL)` and the dereference after it. -/
def access : Exec ZoneData := do
  assert (zone.data ≠ none)
  match zone.data with
  | some data => .ok data
  | none => .error .undefined

/-- `&s[i]`. The operator goes as far as the NUL behind the characters. -/
def addressOf (s : List UInt8) (i : ℕ) : Exec CharPointer :=
  if i ≤ s.length then .ok { base := s, offset := i } else .error .undefined

def toLocalTime (seconds : ℤ) : Exec Tm := do
  let data ← zone.access
  let loc ← findLocaltime data { gmttime := seconds, localtime := 0, localtimeIdx := 0 } ⟨true⟩
  let localSeconds ← int64 (seconds + loc.gmtOffset)
  let localTime := (c.gmtime_r localSeconds).getD {}
  let zone ← addressOf data.abbreviation loc.arrbIdx
  return { localTime with
    isdst := if loc.isDst then 1 else 0
    gmtoff := loc.gmtOffset
    zone := some zone }

def fromLocalTime (localTm : Tm) : Exec ℤ := do
  let data ← zone.access
  let seconds := c.timegm localTm
  let loc ← findLocaltime data { gmttime := 0, localtime := seconds, localtimeIdx := 0 } ⟨false⟩
  if localTm.isdst ≠ 0 then
    let tryTm ← zone.toLocalTime c (← int64 (seconds - loc.gmtOffset))
    if tryTm.isdst = 0 ∧ tryTm.hour = localTm.hour ∧ tryTm.min = localTm.min then
      int64 ((← int64 (seconds - 3600)) - loc.gmtOffset)
    else int64 (seconds - loc.gmtOffset)
  else int64 (seconds - loc.gmtOffset)

end TimeZone

section Search

variable {data : ZoneData} {sentry : Transition} {comp : Comp}

theorem findLocaltime_front (h : ∀ x, data.transitions[0]? = some x → comp.key sentry < comp.key x) :
    findLocaltime data sentry comp = front data.localtimes := by
  unfold findLocaltime
  cases hl : data.transitions with
  | nil =>
    rw [if_pos rfl]
    rfl
  | cons first rest =>
    have hless : comp.less sentry first = true := (comp.less_iff _ _).mpr (h first (by rw [hl]; rfl))
    have hfront : front (first :: rest) = .ok first := rfl
    rw [if_neg (List.cons_ne_nil _ _), hfront]
    simp only [Except.map_ok, ok_bind, hless, if_true]

theorem findLocaltime_search {first : Transition} {r : ℕ} (hl : data.transitions[0]? = some first)
    (hless : comp.key first ≤ comp.key sentry)
    (hr : lowerBound (fun x => comp.less x sentry) data.transitions = r) :
    findLocaltime data sentry comp = (do
      if r < data.transitions.length then
        let found ← element data.transitions r
        if comp.equal sentry found then element data.localtimes found.localtimeIdx
        else
          assert (r ≠ 0)
          let before ← previous data.transitions r
          element data.localtimes before.localtimeIdx
      else
        let last ← back data.transitions
        element data.localtimes last.localtimeIdx) := by
  have hne : data.transitions ≠ [] := by
    intro h
    rw [h] at hl
    cases hl
  have hfalse : comp.less sentry first = false := by
    rw [Bool.eq_false_iff, Ne, comp.less_iff]
    omega
  subst hr
  unfold findLocaltime front
  rw [if_neg hne, element_eq hl]
  simp only [Except.map_ok, ok_bind, hfalse, Bool.false_eq_true, if_false]

theorem findLocaltime_found {first : Transition} (hl : data.transitions[0]? = some first)
    (hless : comp.key first ≤ comp.key sentry) :
    ∃ i x, data.transitions[i]? = some x ∧
      (Ascending comp.key data.transitions → LastUpTo comp.key data.transitions (comp.key sentry) i x) ∧
      findLocaltime data sentry comp = element data.localtimes x.localtimeIdx := by
  have hb := lowerBound_boundary (fun x => comp.less x sentry) data.transitions
  obtain ⟨r, hr⟩ : ∃ r, lowerBound (fun x => comp.less x sentry) data.transitions = r := ⟨_, rfl⟩
  rw [findLocaltime_search hl hless hr]
  rw [hr] at hb
  by_cases hend : r < data.transitions.length
  · obtain ⟨found, hfound⟩ : ∃ found, data.transitions[r]? = some found := ⟨_, List.getElem?_eq_getElem hend⟩
    have hnot : ¬comp.key found < comp.key sentry := by
      rw [← comp.less_iff, hb.above found hfound]
      exact Bool.false_ne_true
    rw [if_pos hend, element_eq hfound, ok_bind]
    by_cases heq : comp.key sentry = comp.key found
    · refine ⟨r, found, hfound, fun hasc => ⟨hfound, by omega, fun y hy => ?_⟩, ?_⟩
      · rw [heq]
        exact hasc.lt hfound hy (Nat.lt_succ_self r)
      · rw [if_pos ((comp.equal_iff _ _).mpr heq)]
    · -- the first element would have been equal
      have hr0 : r ≠ 0 := by
        rintro rfl
        have hsame := Option.some.inj (hl.symm.trans hfound)
        rw [hsame] at hless
        omega
      obtain ⟨j, rfl⟩ := Nat.exists_eq_succ_of_ne_zero hr0
      have hbefore : data.transitions[j]? = some data.transitions[j] := List.getElem?_eq_getElem (by omega)
      have hlow := (comp.less_iff _ _).mp (hb.below _ (Nat.succ_pos j) hbefore)
      refine ⟨j, _, hbefore, fun _ => ⟨hbefore, by omega, fun y hy => ?_⟩, ?_⟩
      · rw [hfound] at hy
        rw [← Option.some.inj hy]
        omega
      · rw [if_neg (fun h => heq ((comp.equal_iff _ _).mp h)), assert_pos hr0, ok_bind, previous_eq hbefore, ok_bind]
  · have hlen : 0 < data.transitions.length := (List.getElem?_eq_some_iff.mp hl).1
    obtain rfl : r = data.transitions.length := by
      have := hb.last_le
      omega
    have hlast : data.transitions[data.transitions.length - 1]? = some data.transitions[data.transitions.length - 1] :=
      List.getElem?_eq_getElem (by omega)
    have hlow := (comp.less_iff _ _).mp (hb.below _ hlen hlast)
    refine ⟨_, _, hlast, fun _ => ⟨hlast, by omega, fun y hy => ?_⟩, ?_⟩
    · rw [List.getElem?_eq_none (by omega)] at hy
      cases hy
    · unfold back
      rw [if_neg hend, element_eq hlast, ok_bind]

/-- The search ends at the type of a transition; if the transitions are in order, of the last one
that is not after the wanted time. -/
theorem findLocaltime_cases (data : ZoneData) (sentry : Transition) (comp : Comp) :
    (findLocaltime data sentry comp = front data.localtimes ∧
      ∀ x, data.transitions[0]? = some x → comp.key sentry < comp.key x) ∨
    ∃ i x, data.transitions[i]? = some x ∧
      (Ascending comp.key data.transitions → LastUpTo comp.key data.transitions (comp.key sentry) i x) ∧
      findLocaltime data sentry comp = element data.localtimes x.localtimeIdx := by
  by_cases h : ∀ x, data.transitions[0]? = some x → comp.key sentry < comp.key x
  · exact Or.inl ⟨findLocaltime_front h, h⟩
  · push Not at h
    obtain ⟨first, hl, hless⟩ := h
    exact Or.inr (findLocaltime_found hl hless)

theorem findLocaltime_mem {l : Localtime} (h : findLocaltime data sentry comp = .ok l) : l ∈ data.localtimes := by
  obtain ⟨hfind, -⟩ | ⟨i, x, -, -, hfind⟩ := findLocaltime_cases data sentry comp
  · exact List.mem_of_getElem? (element_ok (hfind.symm.trans h))
  · exact List.mem_of_getElem? (element_ok (hfind.symm.trans h))

/-- The transition that applies decides, wherever the search has passed. -/
theorem findLocaltime_of_lastUpTo (sentry : Transition) {i : ℕ} {x : Transition} (hasc : Ascending comp.key data.transitions)
    (h : LastUpTo comp.key data.transitions (comp.key sentry) i x) :
    findLocaltime data sentry comp = element data.localtimes x.localtimeIdx := by
  obtain ⟨-, hfirst⟩ | ⟨j, y, -, hlast, hfind⟩ := findLocaltime_cases data sentry comp
  · have hlen := (List.getElem?_eq_some_iff.mp h.1).1
    have hzero : data.transitions[0]? = some data.transitions[0] := List.getElem?_eq_getElem (by omega)
    have hlt := hfirst _ hzero
    have hle : comp.key data.transitions[0] ≤ comp.key x := by
      rcases Nat.eq_zero_or_pos i with rfl | hpos
      · rw [Option.some.inj (hzero.symm.trans h.1)]
      · exact (hasc.lt hzero h.1 hpos).le
    have := h.2.1
    omega
  · rw [hfind, (hlast hasc).unique hasc h]

/-- The search answers with the last transition that is not after the wanted time, and with the first
type only for a time before all transitions. -/
theorem findLocaltime_last (data : ZoneData) (sentry : Transition) (comp : Comp) (hne : data.localtimes ≠ [])
    (hasc : Ascending comp.key data.transitions)
    (hidx : ∀ x ∈ data.transitions, x.localtimeIdx < data.localtimes.length) :
    ((∃ x ∈ data.transitions, comp.key x ≤ comp.key sentry) →
      ∃ (i : ℕ) (x : Transition) (l : Localtime), data.transitions[i]? = some x ∧ comp.key x ≤ comp.key sentry ∧
        (∀ j y, i < j → data.transitions[j]? = some y → comp.key sentry < comp.key y) ∧
        data.localtimes[x.localtimeIdx]? = some l ∧ findLocaltime data sentry comp = .ok l) ∧
    ((¬∃ x ∈ data.transitions, comp.key x ≤ comp.key sentry) →
      ∃ l, data.localtimes.head? = some l ∧ findLocaltime data sentry comp = .ok l) := by
  obtain ⟨hfind, hfirst⟩ | ⟨i, x, hx, hlast, hfind⟩ := findLocaltime_cases data sentry comp
  · constructor
    · rintro ⟨x, hmem, hle⟩
      have hlt := hasc.lt_of_first hfirst x hmem
      omega
    · intro _
      obtain ⟨l, hl⟩ := element_lt (List.length_pos_of_ne_nil hne)
      exact ⟨l, List.head?_eq_getElem?.trans (element_ok hl), hfind.trans hl⟩
  · have hat := hlast hasc
    have hmem := List.mem_of_getElem? hx
    constructor
    · intro _
      obtain ⟨l, hl⟩ := element_lt (hidx x hmem)
      exact ⟨i, x, l, hx, hat.2.1, fun j y hij hy => hat.lt_after hasc hy hij, element_ok hl, hfind.trans hl⟩
    · intro hnone
      exact absurd ⟨x, hmem, hat.2.1⟩ hnone

end Search

def threeTransitions : ZoneData where
  transitions := [⟨10, 3610, 1⟩, ⟨20, 20, 0⟩, ⟨30, 3630, 1⟩]
  localtimes := [⟨0, false, 0⟩, ⟨3600, true, 4⟩]

omit [Build] in
-- Exactly at the second transition, with the assertion compiled in.
theorem findLocaltime_last_three :
    ∃ (i : ℕ) (x : Transition) (l : Localtime), threeTransitions.transitions[i]? = some x ∧ x.gmttime ≤ 20 ∧
      (∀ j y, i < j → threeTransitions.transitions[j]? = some y → 20 < y.gmttime) ∧
      threeTransitions.localtimes[x.localtimeIdx]? = some l ∧
      @findLocaltime Build.debug threeTransitions ⟨20, 0, 0⟩ ⟨true⟩ = .ok l :=
  (@findLocaltime_last Build.debug threeTransitions ⟨20, 0, 0⟩ ⟨true⟩ (by decide) (by unfold Ascending; decide)
    (by decide)).1 (by decide)

end Conversions

end Networker
