import Networker.ZoneFile

/-!
The version 1 block of a zone file as it is written, and that `readTimeZoneFile` reads back
what the block says.
-/

namespace Networker

open CheckedRuns VectorSearch ByteOrder

/-- A `struct ttinfo`. -/
structure TtInfo where
  gmtoff : Int32
  isdst : UInt8
  abbrind : UInt8
deriving DecidableEq

namespace TtInfo

def bytes (info : TtInfo) : List UInt8 := bigEndian 4 info.gmtoff.toInt ++ [info.isdst] ++ [info.abbrind]

def localtime (info : TtInfo) : Localtime where
  gmtOffset := info.gmtoff.toInt
  isDst := info.isdst ≠ 0
  arrbIdx := info.abbrind.toNat

end TtInfo

/-- The tables of a zone, with what the header says beside their lengths. -/
structure ZoneBlock where
  version : UInt8
  reserved : List UInt8
  isgmtcnt : Int32
  isstdcnt : Int32
  leapcnt : Int32
  transitions : List (Int32 × UInt8)
  types : List TtInfo
  chars : List UInt8
  reserved_length : reserved.length = 15
  indices : ∀ x ∈ transitions, x.2.toNat < types.length
  types_length : types ≠ [] ∧ types.length ≤ 256
  chars_pos : chars ≠ []
  /-- The counts are of four bytes. -/
  counts : transitions.length < 2 ^ 31 ∧ chars.length < 2 ^ 31

namespace ZoneBlock

variable (z : ZoneBlock)

def header : List UInt8 :=
  (literal "TZif").base ++ [z.version] ++ z.reserved ++ bigEndian 4 z.isgmtcnt.toInt ++ bigEndian 4 z.isstdcnt.toInt ++
    bigEndian 4 z.leapcnt.toInt ++ bigEndian 4 z.transitions.length ++ bigEndian 4 z.types.length ++
    bigEndian 4 z.chars.length

def bytes : List UInt8 :=
  z.header ++ z.transitions.flatMap (fun x => bigEndian 4 x.1.toInt) ++ z.transitions.flatMap (fun x => [x.2]) ++
    z.types.flatMap TtInfo.bytes ++ z.chars

structure Decoded (data : ZoneData) : Prop where
  transitions : data.transitions.map (fun x => (x.gmttime, x.localtimeIdx)) =
    z.transitions.map fun x => (x.1.toInt, x.2.toNat)
  localtimes : data.localtimes = z.types.map TtInfo.localtime
  abbreviation : data.abbreviation = z.chars
  offsets : ∀ x ∈ data.transitions, ∃ info, z.types[x.localtimeIdx]? = some info ∧
    int64 (x.gmttime + info.gmtoff.toInt) = .ok x.localtime

end ZoneBlock

namespace File

section Specs

variable (f : File) {p : ℕ}

/-- The bytes are in the file from the position on. -/
def Stored (p : ℕ) (bytes : List UInt8) : Prop := bytes <+: f.content.drop p

variable {f}

theorem stored_append {as bs : List UInt8} : f.Stored p (as ++ bs) ↔ f.Stored p as ∧ f.Stored (p + as.length) bs := by
  unfold Stored
  rw [← List.drop_drop]
  constructor
  · rintro ⟨rest, h⟩
    rw [← h, List.append_assoc, List.drop_left]
    exact ⟨List.prefix_append _ _, List.prefix_append _ _⟩
  · rintro ⟨⟨rest, h⟩, hbs⟩
    rw [← h, List.drop_left] at hbs
    obtain ⟨rest', rfl⟩ := hbs
    exact ⟨rest', by rw [← h, List.append_assoc]⟩

theorem Stored.take {bytes : List UInt8} (h : f.Stored p bytes) : (f.content.drop p).take bytes.length = bytes :=
  (List.prefix_iff_eq_take.mp h).symm

theorem Stored.length {bytes : List UInt8} (h : f.Stored p bytes) (hpos : bytes ≠ []) :
    p + bytes.length ≤ f.content.length := by
  have hle := h.length_le
  rw [List.length_drop] at hle
  have hlen := List.length_pos_iff.mpr hpos
  omega

theorem be32toh_bigEndian {v : ℤ} (h : -2147483648 ≤ v ∧ v < 2147483648) : be32toh (bigEndian 4 v) = v := by
  unfold be32toh castInt32
  rw [byteSwap_hostValue (bigEndian_length 4 v), bigEndian_eq, List.reverse_reverse, hostValue_hostBytes]
  omega

theorem Stored.int32At {v : ℤ} (h : f.Stored p (bigEndian 4 v)) (hv : -2147483648 ≤ v ∧ v < 2147483648) :
    f.int32At p = v := by
  have hbytes := h.take
  rw [bigEndian_length] at hbytes
  unfold File.int32At
  rw [hbytes, be32toh_bigEndian hv]

theorem Stored.int32At_toInt {x : Int32} (h : f.Stored p (bigEndian 4 x.toInt)) : f.int32At p = x.toInt :=
  h.int32At ⟨x.le_toInt, x.toInt_lt⟩

theorem Stored.byteAt {b : UInt8} (h : f.Stored p [b]) : f.byteAt p = b.toNat := by
  obtain ⟨rest, h⟩ := h
  have hb : f.content[p]? = some b := by
    rw [← Nat.add_zero p, ← List.getElem?_drop, ← h]
    rfl
  unfold File.byteAt
  rw [hb]
  rfl

theorem Stored.localtimeAt {info : TtInfo} (h : f.Stored p info.bytes) : f.localtimeAt p = info.localtime := by
  unfold TtInfo.bytes at h
  simp only [stored_append, List.length_append, bigEndian_length, List.length_singleton] at h
  obtain ⟨⟨hgmtoff, hisdst⟩, habbrind⟩ := h
  have hdst : f.byteAt (p + 4) ≠ 0 ↔ info.isdst ≠ 0 := by
    rw [hisdst.byteAt, Ne, Ne, ← UInt8.toNat_inj]
    rfl
  unfold File.localtimeAt TtInfo.localtime
  rw [hgmtoff.int32At_toInt, habbrind.byteAt]
  simp only [hdst]

/-- Records of `w` bytes one after the other, each of which the function `g` of its position reads. -/
theorem Stored.records {α β : Type} {w : ℕ} {bytes : α → List UInt8} {g : ℕ → β} {value : α → β} {as : List α}
    (hw : ∀ a, (bytes a).length = w) (hg : ∀ q a, f.Stored q (bytes a) → g q = value a)
    (h : f.Stored p (as.flatMap bytes)) : (List.range as.length).map (fun i => g (p + w * i)) = as.map value := by
  induction as generalizing p with
  | nil => rfl
  | cons a as ih =>
    rw [List.flatMap_cons, stored_append, hw] at h
    rw [List.length_cons, map_positions, hg p a h.1, ih h.2, List.map_cons]

end Specs

end File

namespace ZoneBlock

section Specs

variable {z : ZoneBlock} {f : File}

theorem header_length : z.header.length = 44 := by
  unfold header
  simp only [List.length_append, bigEndian_length, List.length_singleton, z.reserved_length]
  rfl

theorem header_counts (h : f.Stored 0 z.header) :
    f.content.take 4 = (literal "TZif").base ∧ f.timecnt = z.transitions.length ∧ f.typecnt = z.types.length ∧
      f.charcnt = z.chars.length := by
  have hlen : (literal "TZif").base.length = 4 := rfl
  have htypes := z.types_length.2
  obtain ⟨htrans, hchars⟩ := z.counts
  unfold header at h
  simp only [File.stored_append, List.length_append, bigEndian_length, List.length_singleton, z.reserved_length, hlen] at h
  obtain ⟨⟨⟨⟨⟨⟨⟨⟨hmagic, -⟩, -⟩, -⟩, -⟩, -⟩, htime⟩, htype⟩, hchar⟩ := h
  refine ⟨hmagic.take, htime.int32At (by omega), htype.int32At (by omega), hchar.int32At (by omega)⟩

@[simp] theorem ttInfo_bytes_length (info : TtInfo) : info.bytes.length = 6 := by simp [TtInfo.bytes]

theorem records_length {α : Type} {w : ℕ} {bytes : α → List UInt8} (hw : ∀ a, (bytes a).length = w) (as : List α) :
    (as.flatMap bytes).length = w * as.length := by
  induction as with
  | nil => rfl
  | cons a as ih => rw [List.flatMap_cons, List.length_append, hw, ih, List.length_cons, Nat.mul_succ, Nat.add_comm]

theorem stored_tables (h : f.Stored 0 z.bytes) :
    f.Stored 0 z.header ∧
      f.Stored 44 (z.transitions.flatMap fun x => bigEndian 4 x.1.toInt) ∧
      f.Stored (44 + 4 * z.transitions.length) (z.transitions.flatMap fun x => [x.2]) ∧
      f.Stored (44 + 5 * z.transitions.length) (z.types.flatMap TtInfo.bytes) ∧
      f.Stored (44 + 5 * z.transitions.length + 6 * z.types.length) z.chars := by
  have htimes := records_length (fun x : Int32 × UInt8 => bigEndian_length 4 x.1.toInt) z.transitions
  have hindices := records_length (fun x : Int32 × UInt8 => List.length_singleton (a := x.2)) z.transitions
  have htypes := records_length ttInfo_bytes_length z.types
  have hstart : 44 + 4 * z.transitions.length + z.transitions.length = 44 + 5 * z.transitions.length := by omega
  unfold bytes at h
  simp only [File.stored_append, List.length_append, header_length, htimes, hindices, htypes, Nat.zero_add, Nat.one_mul,
    ← Nat.add_assoc, hstart] at h
  obtain ⟨⟨⟨⟨hheader, htimes⟩, hindices⟩, htypes⟩, hchars⟩ := h
  exact ⟨hheader, htimes, hindices, htypes, hchars⟩

def data (z : ZoneBlock) : ZoneData where
  transitions := z.transitions.map fun x => File.transitionOf (z.types.map TtInfo.localtime) (x.1.toInt, x.2.toNat)
  localtimes := z.types.map TtInfo.localtime
  abbreviation := z.chars

theorem stored_indices (h : f.Stored 0 z.bytes) :
    (List.range z.transitions.length).map (fun i => f.byteAt (44 + 4 * z.transitions.length + i)) =
      z.transitions.map fun x => x.2.toNat := by
  obtain ⟨-, -, hindices, -⟩ := stored_tables h
  have hread : (List.range z.transitions.length).map (fun i => f.byteAt (44 + 4 * z.transitions.length + 1 * i)) =
      z.transitions.map fun x => x.2.toNat := hindices.records (fun _ => rfl) fun _ _ hbyte => hbyte.byteAt
  simpa only [Nat.one_mul] using hread

theorem stored_index_lt (h : f.Stored 0 z.bytes) {i : ℕ} (hi : i < z.transitions.length) :
    f.byteAt (44 + 4 * z.transitions.length + i) < z.types.length := by
  have hmem : f.byteAt (44 + 4 * z.transitions.length + i) ∈ z.transitions.map fun x => x.2.toNat := by
    rw [← stored_indices h]
    exact List.mem_map_of_mem (List.mem_range.mpr hi)
  obtain ⟨x, hx, hidx⟩ := List.mem_map.mp hmem
  rw [← hidx]
  exact z.indices x hx

theorem stored_data (h : f.Stored 0 z.bytes) :
    f.tables z.transitions.length z.types.length z.chars.length = z.data := by
  obtain ⟨-, htimes, -, htypes, hchars⟩ := stored_tables h
  have htimes := htimes.records (g := f.int32At) (fun _ => bigEndian_length 4 _) fun _ _ hx => hx.int32At_toInt
  have htypes := htypes.records (g := f.localtimeAt) ttInfo_bytes_length fun _ _ hinfo => hinfo.localtimeAt
  have hpairs := congrArg₂ List.zip htimes (stored_indices h)
  rw [List.zip_map', List.zip_map'] at hpairs
  have htransitions := congrArg (List.map (File.transitionOf (z.types.map TtInfo.localtime))) hpairs
  rw [List.map_map, List.map_map] at htransitions
  unfold File.tables data
  dsimp only
  rw [htypes, hchars.take]
  congr 1

theorem stored_complete (h : f.Stored 0 z.bytes) (hstack : 15 ≤ f.stack ∧ z.chars.length ≤ f.stack) : f.Complete := by
  obtain ⟨hheader, -, -, -, hchars⟩ := stored_tables h
  obtain ⟨hmagic, htime, htype, hchar⟩ := header_counts hheader
  have htimes : f.times = z.transitions.length := by rw [File.times, htime, Int.toNat_natCast]
  have htypes : f.types = z.types.length := by rw [File.types, htype, Int.toNat_natCast]
  constructor
  case stack => omega
  case magic => exact hmagic
  case counts => omega
  case length =>
    rw [htimes, htypes, hchar, Int.toNat_natCast]
    exact hchars.length z.chars_pos
  case indices =>
    intro i hi
    rw [htimes] at hi ⊢
    rw [htypes]
    exact stored_index_lt h hi

theorem transitionOf_offset {x : Int32 × UInt8} (hx : x.2.toNat < z.types.length) :
    ∃ info, z.types[x.2.toNat]? = some info ∧
      int64 (x.1.toInt + info.gmtoff.toInt) =
        .ok (File.transitionOf (z.types.map TtInfo.localtime) (x.1.toInt, x.2.toNat)).localtime := by
  obtain ⟨info, hinfo⟩ : ∃ info, z.types[x.2.toNat]? = some info := ⟨_, List.getElem?_eq_getElem hx⟩
  have htime := x.1.le_toInt
  have htime' := x.1.toInt_lt
  have hoff := info.gmtoff.le_toInt
  have hoff' := info.gmtoff.toInt_lt
  refine ⟨info, hinfo, ?_⟩
  rw [int64_eq (by omega)]
  unfold File.transitionOf
  dsimp only
  rw [List.getElem?_map, hinfo]
  rfl

theorem data_decoded (z : ZoneBlock) : z.Decoded z.data := by
  constructor
  case transitions =>
    unfold data
    dsimp only
    rw [List.map_map]
    rfl
  case localtimes => rfl
  case abbreviation => rfl
  case offsets =>
    intro x hx
    obtain ⟨y, hy, rfl⟩ := List.mem_map.mp hx
    exact transitionOf_offset (z.indices y hy)

end Specs

end ZoneBlock

section Decoding

variable {f : File}

theorem faults_readHeader (hmagic : f.content.take 4 = (literal "TZif").base) (hlen : 5 ≤ f.content.length)
    (hstack : f.stack < 15) : File.Faults f.readHeader {} := by
  unfold File.readHeader
  by_cases hfirst : 4 ≤ f.stack
  · have hhead : File.Reads (f.readBytes 4) {} ((literal "TZif").base) { position := 4 } :=
      f.reads_readBytes.mpr ⟨by omega, by omega, by unfold File.left; dsimp only; omega, hmagic.symm, rfl⟩
    have hversion : File.Reads (f.readBytes 1) { position := 4 } ((f.content.drop 4).take 1) { position := 5 } :=
      f.reads_readBytes.mpr ⟨by omega, by omega, by unfold File.left; dsimp only; omega, rfl, rfl⟩
    refine hhead.faults ?_
    rw [if_neg (not_not.mpr rfl)]
    exact hversion.faults (File.faults_bind (f.faults_readBytes (by omega)))
  · exact File.faults_bind (f.faults_readBytes (by omega))

theorem faults_readTables {z : ZoneBlock} (h : f.Stored 0 z.bytes) (hstack : f.stack < z.chars.length) :
    File.Faults (f.readTables z.transitions.length z.types.length z.chars.length) { position := 44 } := by
  obtain ⟨-, -, -, -, hchars⟩ := ZoneBlock.stored_tables h
  have hlength := hchars.length z.chars_pos
  have hpos := List.length_pos_iff.mpr z.chars_pos
  unfold File.readTables
  rw [if_neg (by omega), Int.toNat_natCast, Int.toNat_natCast]
  refine (f.reads_transitionTimes.mpr ⟨?_, rfl, rfl⟩).faults ?_
  · unfold File.left
    dsimp only
    omega
  refine (f.reads_transitionTypes.mpr ⟨?_, rfl, rfl⟩).faults ?_
  · unfold File.left
    dsimp only
    omega
  refine ((f.reads_readLocaltimes (u := ())).mpr ⟨?_, rfl⟩).faults ?_
  · unfold File.left
    dsimp only
    omega
  refine ((File.reads_addTransitions (u := ())).mpr ⟨?_, rfl⟩).faults ?_
  · rw [List.zip_map', List.forall_mem_map]
    intro i hi
    have hlt := ZoneBlock.stored_index_lt h (List.mem_range.mp hi)
    dsimp only
    rwa [List.nil_append, List.length_map, List.length_range]
  exact File.faults_bind (f.faults_readBytes (by omega))

/-- Without the room `readBytes` declares an array that the stack cannot hold. -/
theorem faults_readZone {z : ZoneBlock} (h : f.Stored 0 z.bytes)
    (hroom : ¬(15 ≤ f.stack ∧ z.chars.length ≤ f.stack)) : File.Faults f.readZone {} := by
  obtain ⟨hheader, -, -, -, hchars⟩ := ZoneBlock.stored_tables h
  obtain ⟨hmagic, htime, htype, hchar⟩ := ZoneBlock.header_counts hheader
  have hlength := hchars.length z.chars_pos
  unfold File.readZone
  by_cases hstack : 15 ≤ f.stack
  · refine (f.reads_readHeader.mpr ⟨hstack, by omega, hmagic, rfl, rfl⟩).faults ?_
    dsimp only
    rw [htime, htype, hchar]
    exact faults_readTables h (by omega)
  · exact File.faults_bind (faults_readHeader hmagic (by omega) (by omega))

variable (z : ZoneBlock) (rest : List UInt8) (stack : ℕ)

theorem stored_block : ({ content := z.bytes ++ rest, stack } : File).Stored 0 z.bytes := List.prefix_append _ _

theorem readTimeZoneFile_block (hroom : 15 ≤ stack ∧ z.chars.length ≤ stack) :
    readTimeZoneFile (some { content := z.bytes ++ rest, stack }) = .ok (true, z.data) := by
  have hstored := stored_block z rest stack
  obtain ⟨f, hf⟩ : ∃ f : File, f = { content := z.bytes ++ rest, stack } := ⟨_, rfl⟩
  have hfroom : 15 ≤ f.stack ∧ z.chars.length ≤ f.stack := by rwa [hf]
  rw [← hf] at hstored ⊢
  obtain ⟨-, htime, htype, hchar⟩ := ZoneBlock.header_counts (ZoneBlock.stored_tables hstored).1
  have hread := (f.reads_readZone (u := ())).mpr ⟨ZoneBlock.stored_complete hstored hfroom, rfl⟩
  rw [File.times, File.types, htime, htype, hchar, Int.toNat_natCast, Int.toNat_natCast, Int.toNat_natCast,
    ZoneBlock.stored_data hstored] at hread
  unfold File.Reads at hread
  unfold readTimeZoneFile
  dsimp only
  rw [hread]

theorem readTimeZoneFile_overruns (hroom : ¬(15 ≤ stack ∧ z.chars.length ≤ stack)) :
    readTimeZoneFile (some { content := z.bytes ++ rest, stack }) = .error .undefined := by
  obtain ⟨s, hs⟩ := faults_readZone (stored_block z rest stack) hroom
  unfold readTimeZoneFile
  dsimp only
  rw [hs]

/-- Reading the block gives its tables back exactly if the stack has room for the arrays of `readBytes`. -/
theorem readTimeZoneFile_decodes_iff :
    (∃ data, readTimeZoneFile (some { content := z.bytes ++ rest, stack }) = .ok (true, data) ∧ z.Decoded data) ↔
      15 ≤ stack ∧ z.chars.length ≤ stack := by
  constructor
  · rintro ⟨data, hread, -⟩
    by_contra hroom
    rw [readTimeZoneFile_overruns z rest stack hroom] at hread
    cases hread
  · intro hroom
    exact ⟨z.data, readTimeZoneFile_block z rest stack hroom, z.data_decoded⟩

theorem reserved_zeros : (List.replicate 15 (0 : UInt8)).length = 15 := List.length_replicate

-- one character more than a stack of eight megabytes has bytes
def longBlock : ZoneBlock where
  version := 0
  reserved := List.replicate 15 0
  isgmtcnt := 0
  isstdcnt := 0
  leapcnt := 0
  transitions := []
  types := [⟨0, 0, 0⟩]
  chars := List.replicate 8388609 65
  reserved_length := reserved_zeros
  indices x hx := absurd hx List.not_mem_nil
  types_length := ⟨List.cons_ne_nil _ _, by decide⟩
  chars_pos := List.ne_nil_of_length_pos (by rw [List.length_replicate]; decide)
  counts := ⟨by decide, by rw [List.length_replicate]; decide⟩

theorem long_block_overruns :
    readTimeZoneFile (some { content := longBlock.bytes ++ [], stack := 8388608 }) = .error .undefined ∧
      ¬∃ data, readTimeZoneFile (some { content := longBlock.bytes ++ [], stack := 8388608 }) = .ok (true, data) ∧
        longBlock.Decoded data := by
  have hchars : longBlock.chars.length = 8388609 := List.length_replicate
  have hover := readTimeZoneFile_overruns longBlock [] 8388608 (by omega)
  refine ⟨hover, ?_⟩
  rintro ⟨data, hread, -⟩
  rw [hover] at hread
  cases hread

end Decoding

end Networker
