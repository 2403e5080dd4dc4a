import Networker.ZoneFile

/-!
Which zone files leave a zone whose tables can be indexed. `readTimeZoneFile` returns true
whatever it met, and no index of a file is compared with the table it points into.
-/

namespace Networker

open CheckedRuns VectorSearch

/-- Every index of the tables points to something. -/
structure ZoneData.Indexed (data : ZoneData) : Prop where
  types : data.localtimes ≠ []
  transitions : ∀ x ∈ data.transitions, x.localtimeIdx < data.localtimes.length
  abbreviations : ∀ l ∈ data.localtimes, l.arrbIdx ≤ data.abbreviation.length

theorem ZoneData.Indexed.findLocaltime [Build] {data : ZoneData} (h : data.Indexed) (sentry : Transition) (comp : Comp) :
    ∃ l ∈ data.localtimes, Networker.findLocaltime data sentry comp = .ok l := by
  obtain ⟨hfind, -⟩ | ⟨i, x, hx, -, hfind⟩ := findLocaltime_cases data sentry comp
  · have hpos : 0 < data.localtimes.length := List.length_pos_iff.mpr h.types
    obtain ⟨l, hl⟩ := element_lt hpos
    exact ⟨l, List.mem_of_getElem? (element_ok hl), hfind.trans hl⟩
  · obtain ⟨l, hl⟩ := element_lt (h.transitions x (List.mem_of_getElem? hx))
    exact ⟨l, List.mem_of_getElem? (element_ok hl), hfind.trans hl⟩

/-- The file could be opened and no exception ended its reading. -/
def ReadToEnd (zonefile : Option File) : Prop := ∃ f, zonefile = some f ∧ ∃ s, f.readZone.run {} = .ok () s

/-- The constructor indexes nothing out of range, and so will the conversions of a valid zone. -/
def Validated [Build] (zonefile : Option File) : Prop :=
  ∃ zone, TimeZone.ofFile zonefile = .ok zone ∧ ∀ data, zone.data = some data →
    data.Indexed ∧ ReadToEnd zonefile ∧
      ∀ sentry comp, ∃ l ∈ data.localtimes, findLocaltime data sentry comp = .ok l

/-- A complete file with at least one type, whose abbreviations start inside the characters. -/
structure File.WellFormed (f : File) : Prop extends f.Complete where
  types : 1 ≤ f.typecnt
  abbreviations : ∀ i < f.types, f.byteAt (44 + 5 * f.times + 6 * i + 5) ≤ f.charcnt.toNat

section Files

variable {f : File}

theorem File.Complete.ofFile (h : f.Complete) :
    ∃ s, f.readZone.run {} = .ok () s ∧
      TimeZone.ofFile (some f) = .ok { data := some (f.tables f.times f.types f.charcnt.toNat) } := by
  have hread := (f.reads_readZone (u := ())).mpr ⟨h, rfl⟩
  refine ⟨_, hread, ?_⟩
  unfold File.Reads at hread
  unfold TimeZone.ofFile readTimeZoneFile
  dsimp only
  rw [hread]
  rfl

theorem File.Complete.indexed_iff (h : f.Complete) :
    (f.tables f.times f.types f.charcnt.toNat).Indexed ↔
      1 ≤ f.typecnt ∧ ∀ i < f.types, f.byteAt (44 + 5 * f.times + 6 * i + 5) ≤ f.charcnt.toNat := by
  have hlength := h.length
  have hpos : 1 ≤ f.typecnt ↔ 0 < f.types := by
    unfold File.types
    omega
  have habbr : (f.tables f.times f.types f.charcnt.toNat).abbreviation.length = f.charcnt.toNat := by
    rw [File.tables_abbreviation, List.length_take, List.length_drop]
    omega
  have htypes : (f.tables f.times f.types f.charcnt.toNat).localtimes.length = f.types := by
    rw [File.tables_localtimes, List.length_map, List.length_range]
  constructor
  · intro hd
    constructor
    · rw [hpos, ← htypes]
      exact List.length_pos_iff.mpr hd.types
    · intro i hi
      rw [← habbr]
      apply hd.abbreviations (f.localtimeAt (44 + 5 * f.times + 6 * i))
      rw [File.tables_localtimes]
      exact List.mem_map_of_mem (List.mem_range.mpr hi)
  · rintro ⟨hone, hchars⟩
    constructor
    case types =>
      apply List.length_pos_iff.mp
      rwa [htypes, ← hpos]
    case transitions =>
      intro x hx
      rw [File.tables_transitions] at hx
      obtain ⟨i, hi, rfl⟩ := List.mem_map.mp hx
      rw [htypes]
      exact h.indices i (List.mem_range.mp hi)
    case abbreviations =>
      intro l hl
      rw [File.tables_localtimes] at hl
      obtain ⟨i, hi, rfl⟩ := List.mem_map.mp hl
      rw [habbr]
      exact hchars i (List.mem_range.mp hi)

end Files

/-- `readTimeZoneFile` never returns false. -/
theorem TimeZone.ofFile_valid {zonefile : Option File} {zone : TimeZone} (h : TimeZone.ofFile zonefile = .ok zone) :
    ∃ data, zone.data = some data := by
  unfold TimeZone.ofFile at h
  obtain ⟨⟨read, data⟩, hread, hzone⟩ := bind_eq_ok.mp h
  have htrue : read = true := by
    unfold readTimeZoneFile at hread
    split at hread
    · exact (congrArg Prod.fst (Except.ok.inj hread)).symm
    · split at hread
      · exact (congrArg Prod.fst (Except.ok.inj hread)).symm
      · exact (congrArg Prod.fst (Except.ok.inj hread)).symm
      · cases hread
  subst htrue
  exact ⟨data, by rw [← Except.ok.inj hzone]; rfl⟩

theorem TimeZone.ofFile_validated_iff [Build] (zonefile : Option File) :
    Validated zonefile ↔ ∃ f, zonefile = some f ∧ f.WellFormed := by
  constructor
  · rintro ⟨zone, hzone, hdata⟩
    obtain ⟨data, hd⟩ := TimeZone.ofFile_valid hzone
    obtain ⟨hindexed, ⟨f, rfl, s, hread⟩, -⟩ := hdata data hd
    obtain ⟨hcomplete, -⟩ := f.reads_readZone.mp hread
    obtain ⟨-, -, hof⟩ := hcomplete.ofFile
    rw [hof] at hzone
    obtain rfl := Except.ok.inj hzone
    obtain rfl := Option.some.inj hd
    obtain ⟨htypes, habbr⟩ := hcomplete.indexed_iff.mp hindexed
    exact ⟨f, rfl, hcomplete, htypes, habbr⟩
  · rintro ⟨f, rfl, h⟩
    obtain ⟨s, hread, hof⟩ := h.toComplete.ofFile
    refine ⟨_, hof, fun data hd => ?_⟩
    obtain rfl := Option.some.inj hd
    have hindexed := h.toComplete.indexed_iff.mpr ⟨h.types, h.abbreviations⟩
    exact ⟨hindexed, ⟨f, rfl, s, hread⟩, hindexed.findLocaltime⟩

/-- A header with one transition, one type and four characters, one transition of the given type, and the type. -/
def oneTransition (localIdx : UInt8) : List UInt8 :=
  [84, 90, 105, 102] ++ List.replicate 28 0 ++ [0, 0, 0, 1] ++ [0, 0, 0, 1] ++ [0, 0, 0, 4] ++
    [0, 0, 0, 0] ++ [localIdx] ++ [0, 0, 0, 0, 0, 0]

/-- A file that is missing leaves a valid zone without types, one that is cut off a valid zone without
abbreviations, and a type that does not exist is looked up. -/
theorem TimeZone.bad_files_accepted :
    letI := Build.release
    ¬Validated none ∧ TimeZone.ofFile none = .ok { data := some {} } ∧
      findLocaltime {} ⟨0, 0, 0⟩ ⟨true⟩ = .error .undefined ∧
    TimeZone.ofFile (some ⟨oneTransition 0, 8388608⟩) =
      .ok { data := some { transitions := [⟨0, 0, 0⟩], localtimes := [⟨0, false, 0⟩], abbreviation := [] } } ∧
    TimeZone.ofFile (some ⟨oneTransition 7 ++ [85, 84, 67, 0], 8388608⟩) = .error .undefined := by
  refine ⟨?_, rfl, rfl, ?_, ?_⟩
  · rintro ⟨zone, hzone, hdata⟩
    obtain rfl := Except.ok.inj hzone
    exact (hdata {} rfl).1.types rfl
  · decide +kernel
  · decide +kernel

end Networker
