import Networker.ZoneModel
import Networker.ByteOrder

/-!
`readTimeZoneFile` and the constructor of `TimeZone` that calls it. What was stored before an
exception stays stored, so the reader keeps its state when it throws.
-/

namespace Networker

open CheckedRuns VectorSearch ByteOrder

inductive Thrown
  | logicError
  | fault (f : Fault)
deriving DecidableEq, Repr

/-- The position in the file and what the reader has stored so far. -/
structure Reading where
  position : ℕ := 0
  data : ZoneData := {}
deriving DecidableEq, Repr

abbrev Reader := EStateM Thrown Reading

/-- An open file, and the bytes that the stack has left for an array of variable length. -/
structure File where
  content : List UInt8
  stack : ℕ

namespace File

variable (f : File)

/-- `fread` of `n` bytes; the position moves to the end when there are fewer. -/
def fread (n : ℕ) : Reader (List UInt8) := do
  let s ← get
  let bytes := (f.content.drop s.position).take n
  set { s with position := s.position + bytes.length }
  return bytes

def readBytes (n : ℤ) : Reader (List UInt8) := do
  if n < 0 ∨ f.stack < n then throw (.fault .undefined)
  let bytes ← f.fread n.toNat
  if bytes.length ≠ n then throw .logicError
  return bytes

def be32toh (bytes : List UInt8) : ℤ := castInt32 (byteSwap 4 (hostValue bytes))

def readInt32 : Reader ℤ := do
  let x ← f.fread 4
  if x.length ≠ 4 then throw .logicError
  return be32toh x

def readUInt8 : Reader ℕ := do
  let x ← f.fread 1
  match x with
  | [b] => return b.toNat
  | _ => throw .logicError

/-- A loop that pushes back what it reads. -/
def readMany {α : Type} (read : Reader α) : ℕ → Reader (List α)
  | 0 => return []
  | n + 1 => do
    let x ← read
    let xs ← readMany read n
    return x :: xs

def readLocaltimes : ℕ → Reader Unit
  | 0 => return
  | n + 1 => do
    let gmtoff ← f.readInt32
    let isdst ← f.readUInt8
    let abbrind ← f.readUInt8
    let l : Localtime := { gmtOffset := gmtoff, isDst := isdst ≠ 0, arrbIdx := abbrind }
    modify fun s => { s with data.localtimes := s.data.localtimes ++ [l] }
    readLocaltimes n

/-- The local types come from the file without a check. -/
def addTransitions : List (ℤ × ℕ) → Reader Unit
  | [] => return
  | (time, localIdx) :: rest => do
    let s ← get
    match s.data.localtimes[localIdx]? with
    | none => throw (.fault .undefined)
    | some l =>
      let x : Transition := { gmttime := time, localtime := time + l.gmtOffset, localtimeIdx := localIdx }
      set { s with data.transitions := s.data.transitions ++ [x] }
      addTransitions rest

/-- The first 44 bytes, of which the last counts are used. -/
def readHeader : Reader (ℤ × ℤ × ℤ) := do
  let head ← f.readBytes 4
  if head ≠ (literal "TZif").base then throw .logicError
  let _version ← f.readBytes 1
  let _reserved ← f.readBytes 15
  let _isgmtcnt ← f.readInt32
  let _isstdcnt ← f.readInt32
  let _leapcnt ← f.readInt32
  let timecnt ← f.readInt32
  let typecnt ← f.readInt32
  let charcnt ← f.readInt32
  return (timecnt, typecnt, charcnt)

def readTables (timecnt typecnt charcnt : ℤ) : Reader Unit := do
  -- `trans.reserve(timecnt)` throws a `length_error`
  if timecnt < 0 then throw .logicError
  let trans ← readMany f.readInt32 timecnt.toNat
  let localtimes ← readMany f.readUInt8 timecnt.toNat
  f.readLocaltimes typecnt.toNat
  addTransitions (trans.zip localtimes)
  let abbreviation ← f.readBytes charcnt
  modify fun s => { s with data.abbreviation := abbreviation }

/-- The body of the `try` block of `readTimeZoneFile`. -/
def readZone : Reader Unit := do
  let (timecnt, typecnt, charcnt) ← f.readHeader
  f.readTables timecnt typecnt charcnt

section Specs

/-- A run that ends without an exception. -/
def Reads {α : Type} (r : Reader α) (s : Reading) (a : α) (s' : Reading) : Prop := r.run s = .ok a s'

variable {α β : Type} {s s' : Reading}

theorem reads_pure {a b : α} : Reads (pure a) s b s' ↔ b = a ∧ s' = s := by
  unfold Reads
  constructor
  · intro h
    cases h
    exact ⟨rfl, rfl⟩
  · rintro ⟨rfl, rfl⟩
    rfl

theorem reads_throw {e : Thrown} {a : α} : ¬Reads (throw e) s a s' := by
  unfold Reads
  intro h
  cases h

theorem reads_bind {r : Reader α} {g : α → Reader β} {b : β} :
    Reads (r >>= g) s b s' ↔ ∃ a t, Reads r s a t ∧ Reads (g a) t b s' := by
  unfold Reads
  constructor
  · intro h
    change EStateM.bind r g s = _ at h
    unfold EStateM.bind at h
    cases hr : r s with
    | ok a t =>
      rw [hr] at h
      exact ⟨a, t, hr, h⟩
    | error e t =>
      rw [hr] at h
      cases h
  · rintro ⟨a, t, hr, hg⟩
    change EStateM.bind r g s = _
    unfold EStateM.bind
    change r s = _ at hr
    rw [hr]
    exact hg

theorem reads_ite {p : Prop} [Decidable p] {r q : Reader α} {a : α} :
    Reads (if p then r else q) s a s' ↔ (p ∧ Reads r s a s') ∨ (¬p ∧ Reads q s a s') := by
  split <;> simp [*]

theorem reads_get {t : Reading} : Reads get s t s' ↔ t = s ∧ s' = s := by
  unfold Reads
  constructor
  · intro h
    cases h
    exact ⟨rfl, rfl⟩
  · rintro ⟨rfl, rfl⟩
    rfl

theorem reads_set {t : Reading} {u : PUnit} : Reads (set t) s u s' ↔ s' = t := by
  unfold Reads
  constructor
  · intro h
    cases h
    rfl
  · rintro rfl
    rfl

theorem reads_modify {g : Reading → Reading} {u : PUnit} : Reads (modify g) s u s' ↔ s' = g s := by
  unfold Reads
  constructor
  · intro h
    cases h
    rfl
  · rintro rfl
    rfl

variable (f : File)

def left (s : Reading) : ℕ := f.content.length - s.position

theorem reads_fread {n : ℕ} {bytes : List UInt8} :
    Reads (f.fread n) s bytes s' ↔
      bytes = (f.content.drop s.position).take n ∧ s' = { s with position := s.position + bytes.length } := by
  unfold fread
  simp only [reads_bind, reads_get, reads_set, reads_pure]
  constructor
  · rintro ⟨_, _, ⟨rfl, rfl⟩, _, _, rfl, rfl, rfl⟩
    exact ⟨rfl, rfl⟩
  · rintro ⟨rfl, rfl⟩
    exact ⟨_, _, ⟨rfl, rfl⟩, ⟨⟩, _, rfl, rfl, rfl⟩

/-- A read that insists on all its bytes. -/
theorem reads_fread_all {n : ℕ} {bytes : List UInt8} :
    Reads (f.fread n) s bytes s' ∧ bytes.length = n ↔
      n ≤ f.left s ∧ bytes = (f.content.drop s.position).take n ∧ s' = { s with position := s.position + n } := by
  rw [reads_fread]
  have hlen : ((f.content.drop s.position).take n).length = min n (f.left s) := by
    rw [List.length_take, List.length_drop]
    rfl
  constructor
  · rintro ⟨⟨rfl, rfl⟩, hn⟩
    rw [hn]
    exact ⟨by omega, rfl, rfl⟩
  · rintro ⟨hn, rfl, rfl⟩
    rw [hlen, Nat.min_eq_left hn]
    exact ⟨⟨rfl, rfl⟩, rfl⟩

theorem reads_readBytes {n : ℤ} {bytes : List UInt8} :
    Reads (f.readBytes n) s bytes s' ↔
      0 ≤ n ∧ n ≤ f.stack ∧ n.toNat ≤ f.left s ∧ bytes = (f.content.drop s.position).take n.toNat ∧
        s' = { s with position := s.position + n.toNat } := by
  rw [← reads_fread_all]
  unfold readBytes
  simp only [reads_bind, reads_ite, reads_pure, reads_throw, false_and, exists_false, and_false, false_or]
  constructor
  · rintro ⟨hn, bytes', t, hread, hlen, rfl, rfl⟩
    exact ⟨by omega, by omega, hread, by omega⟩
  · rintro ⟨h0, hstack, hread, hlen⟩
    exact ⟨by omega, _, _, hread, by omega, rfl, rfl⟩

/-- A run that the language gives no meaning to. -/
def Faults (r : Reader α) (s : Reading) : Prop := ∃ s', r.run s = .error (.fault .undefined) s'

theorem faults_bind {r : Reader α} {g : α → Reader β} (h : Faults r s) : Faults (r >>= g) s := by
  obtain ⟨s', hr⟩ := h
  refine ⟨s', ?_⟩
  change r s = _ at hr
  change EStateM.bind r g s = _
  unfold EStateM.bind
  rw [hr]

theorem Reads.faults {r : Reader α} {g : α → Reader β} {a : α} (hr : Reads r s a s') (hg : Faults (g a) s') :
    Faults (r >>= g) s := by
  obtain ⟨t, hg⟩ := hg
  refine ⟨t, ?_⟩
  change r s = _ at hr
  change EStateM.bind r g s = _
  unfold EStateM.bind
  rw [hr]
  exact hg

/-- The array does not fit on the stack. -/
theorem faults_readBytes {n : ℤ} (hn : f.stack < n) : Faults (f.readBytes n) s := by
  unfold readBytes
  rw [if_pos (Or.inr hn)]
  exact faults_bind ⟨s, rfl⟩

def int32At (p : ℕ) : ℤ := be32toh ((f.content.drop p).take 4)

def byteAt (p : ℕ) : ℕ := (f.content[p]?.getD 0).toNat

theorem reads_readInt32 {x : ℤ} :
    Reads f.readInt32 s x s' ↔
      4 ≤ f.left s ∧ x = f.int32At s.position ∧ s' = { s with position := s.position + 4 } := by
  unfold readInt32
  simp only [reads_bind, reads_ite, reads_pure, reads_throw, false_and, exists_false, and_false, false_or]
  constructor
  · rintro ⟨bytes, t, hread, hlen, hx, rfl⟩
    have hlen : bytes.length = 4 := by omega
    obtain ⟨hleft, hbytes, hs⟩ := f.reads_fread_all.mp ⟨hread, hlen⟩
    exact ⟨hleft, by rw [hx, hbytes]; rfl, hs⟩
  · rintro ⟨hleft, hx, hs⟩
    obtain ⟨hread, hlen⟩ := f.reads_fread_all.mpr ⟨hleft, rfl, hs⟩
    exact ⟨_, _, hread, by omega, hx, rfl⟩

theorem reads_readUInt8 {x : ℕ} :
    Reads f.readUInt8 s x s' ↔
      1 ≤ f.left s ∧ x = f.byteAt s.position ∧ s' = { s with position := s.position + 1 } := by
  have hbyte : 1 ≤ f.left s → (f.content.drop s.position).take 1 = [f.content[s.position]?.getD 0] := by
    intro hleft
    have hp : s.position < f.content.length := by
      unfold left at hleft
      omega
    rw [List.drop_eq_getElem_cons hp, List.getElem?_eq_getElem hp]
    rfl
  unfold readUInt8
  rw [reads_bind]
  constructor
  · rintro ⟨bytes, t, hread, hmatch⟩
    split at hmatch
    · obtain ⟨hleft, hbytes, rfl⟩ := f.reads_fread_all.mp ⟨hread, rfl⟩
      obtain ⟨rfl, rfl⟩ := reads_pure.mp hmatch
      rw [hbyte hleft] at hbytes
      exact ⟨hleft, by rw [List.head_eq_of_cons_eq hbytes]; rfl, rfl⟩
    · exact absurd hmatch reads_throw
  · rintro ⟨hleft, rfl, rfl⟩
    obtain ⟨hread, hlen⟩ := f.reads_fread_all.mpr ⟨hleft, rfl, rfl⟩
    refine ⟨_, _, hread, ?_⟩
    rw [hbyte hleft]
    exact reads_pure.mpr ⟨rfl, rfl⟩

theorem map_positions (g : ℕ → α) (p w n : ℕ) :
    (List.range (n + 1)).map (fun i => g (p + w * i)) = g p :: (List.range n).map (fun i => g (p + w + w * i)) := by
  rw [List.range_succ_eq_map, List.map_cons, List.map_map, Nat.mul_zero, Nat.add_zero]
  congr 1
  apply List.map_congr_left
  intro i _
  change g (p + w * (i + 1)) = _
  rw [Nat.mul_succ, Nat.add_assoc, Nat.add_comm (w * i)]

/-- A loop over reads of `w` bytes that have the value `g` of their position. -/
theorem reads_readMany {read : Reader α} {w : ℕ} {g : ℕ → α}
    (hread : ∀ t a t', Reads read t a t' ↔ w ≤ f.left t ∧ a = g t.position ∧ t' = { t with position := t.position + w })
    {n : ℕ} {as : List α} :
    Reads (readMany read n) s as s' ↔
      w * n ≤ f.left s ∧ as = (List.range n).map (fun i => g (s.position + w * i)) ∧
        s' = { s with position := s.position + w * n } := by
  induction n generalizing s s' as with
  | zero =>
    unfold readMany
    rw [reads_pure]
    simp
  | succ n ih =>
    unfold readMany
    simp only [reads_bind, reads_pure, hread, ih]
    have hw : w * (n + 1) = w + w * n := by rw [Nat.mul_succ, Nat.add_comm]
    rw [map_positions, hw, ← Nat.add_assoc]
    unfold left
    constructor
    · rintro ⟨a, t, ⟨hleft, rfl, rfl⟩, as', t', ⟨hrest, rfl, rfl⟩, rfl, rfl⟩
      dsimp only at hrest
      exact ⟨by omega, rfl, rfl⟩
    · rintro ⟨hleft, rfl, rfl⟩
      exact ⟨_, _, ⟨by omega, rfl, rfl⟩, _, _, ⟨by dsimp only; omega, rfl, rfl⟩, rfl, rfl⟩

/-- The six bytes of a `ttinfo`. -/
def localtimeAt (p : ℕ) : Localtime where
  gmtOffset := f.int32At p
  isDst := f.byteAt (p + 4) ≠ 0
  arrbIdx := f.byteAt (p + 5)

theorem reads_readLocaltimes {n : ℕ} {u : Unit} :
    Reads (f.readLocaltimes n) s u s' ↔
      6 * n ≤ f.left s ∧
        s' = { position := s.position + 6 * n
               data := { s.data with
                 localtimes := s.data.localtimes ++ (List.range n).map fun i => f.localtimeAt (s.position + 6 * i) } } := by
  induction n generalizing s with
  | zero =>
    unfold readLocaltimes
    rw [reads_pure]
    simp
  | succ n ih =>
    unfold readLocaltimes
    simp only [reads_bind, reads_modify, reads_readInt32, reads_readUInt8, ih]
    rw [map_positions]
    unfold left
    constructor
    · rintro ⟨a, t, ⟨hleft, ha, rfl⟩, b, t, ⟨hleft', hb, rfl⟩, c, t, ⟨hleft'', hc, rfl⟩, _, t, rfl, hrest, hs⟩
      dsimp only at hleft' hleft'' hb hc hrest hs
      refine ⟨by omega, ?_⟩
      rw [hs, ha, hb, hc, List.append_assoc]
      congr 1
      omega
    · rintro ⟨hleft, hs⟩
      refine ⟨_, _, ⟨by omega, rfl, rfl⟩, _, _, ⟨by dsimp only; omega, rfl, rfl⟩, _, _,
        ⟨by dsimp only; omega, rfl, rfl⟩, ⟨⟩, _, rfl, by dsimp only; omega, ?_⟩
      rw [hs]
      dsimp only
      rw [List.append_assoc]
      congr 1
      omega

/-- A transition as the file describes it, with the local time at which it happens. -/
def transitionOf (localtimes : List Localtime) (x : ℤ × ℕ) : Transition where
  gmttime := x.1
  localtime := x.1 + (localtimes[x.2]?.map Localtime.gmtOffset).getD 0
  localtimeIdx := x.2

theorem reads_addTransitions {xs : List (ℤ × ℕ)} {u : Unit} :
    Reads (addTransitions xs) s u s' ↔
      (∀ x ∈ xs, x.2 < s.data.localtimes.length) ∧
        s' = { s with data.transitions := s.data.transitions ++ xs.map (transitionOf s.data.localtimes) } := by
  induction xs generalizing s with
  | nil =>
    unfold addTransitions
    rw [reads_pure]
    simp
  | cons x xs ih =>
    obtain ⟨time, localIdx⟩ := x
    unfold addTransitions
    rw [reads_bind, List.forall_mem_cons, List.map_cons]
    constructor
    · rintro ⟨t, t', hget, hrest⟩
      obtain ⟨rfl, rfl⟩ := reads_get.mp hget
      split at hrest
      · exact absurd hrest reads_throw
      · rename_i l hl
        obtain ⟨_, t, hset, hxs⟩ := reads_bind.mp hrest
        rw [reads_set.mp hset, ih] at hxs
        obtain ⟨hlt, rfl⟩ := hxs
        refine ⟨⟨(List.getElem?_eq_some_iff.mp hl).1, hlt⟩, ?_⟩
        dsimp only
        rw [List.append_assoc]
        unfold transitionOf
        dsimp only
        rw [hl]
        rfl
    · rintro ⟨⟨hlt, hxs⟩, rfl⟩
      have hl : s.data.localtimes[localIdx]? = some s.data.localtimes[localIdx] := List.getElem?_eq_getElem hlt
      refine ⟨_, _, reads_get.mpr ⟨rfl, rfl⟩, ?_⟩
      rw [hl]
      dsimp only
      rw [reads_bind]
      refine ⟨⟨⟩, _, reads_set.mpr rfl, ih.mpr ⟨hxs, ?_⟩⟩
      dsimp only
      rw [List.append_assoc]
      unfold transitionOf
      dsimp only
      rw [hl]
      rfl

def timecnt : ℤ := f.int32At 32

def typecnt : ℤ := f.int32At 36

def charcnt : ℤ := f.int32At 40

/-- The number of transitions and of types that are read. -/
abbrev times : ℕ := f.timecnt.toNat

abbrev types : ℕ := f.typecnt.toNat

/-- The tables that the bytes describe, for given counts. -/
def tables (times types chars : ℕ) : ZoneData :=
  let localtimes := (List.range types).map fun i => f.localtimeAt (44 + 5 * times + 6 * i)
  { transitions := (List.range times).map fun i =>
      transitionOf localtimes (f.int32At (44 + 4 * i), f.byteAt (44 + 4 * times + i))
    localtimes
    abbreviation := (f.content.drop (44 + 5 * times + 6 * types)).take chars }

theorem tables_localtimes (t k c : ℕ) :
    (f.tables t k c).localtimes = (List.range k).map fun i => f.localtimeAt (44 + 5 * t + 6 * i) := rfl

theorem tables_transitions (t k c : ℕ) :
    (f.tables t k c).transitions = (List.range t).map fun i =>
      transitionOf (f.tables t k c).localtimes (f.int32At (44 + 4 * i), f.byteAt (44 + 4 * t + i)) := rfl

theorem tables_abbreviation (t k c : ℕ) :
    (f.tables t k c).abbreviation = (f.content.drop (44 + 5 * t + 6 * k)).take c := rfl

/-- The file can be read to the end of its abbreviations. -/
structure Complete : Prop where
  stack : 15 ≤ f.stack ∧ f.charcnt ≤ f.stack
  magic : f.content.take 4 = (literal "TZif").base
  counts : 0 ≤ f.timecnt ∧ 0 ≤ f.charcnt
  length : 44 + 5 * f.times + 6 * f.types + f.charcnt.toNat ≤ f.content.length
  indices : ∀ i < f.times, f.byteAt (44 + 4 * f.times + i) < f.types

theorem reads_readHeader {counts : ℤ × ℤ × ℤ} :
    Reads f.readHeader {} counts s' ↔
      15 ≤ f.stack ∧ 44 ≤ f.content.length ∧ f.content.take 4 = (literal "TZif").base ∧
        counts = (f.timecnt, f.typecnt, f.charcnt) ∧ s' = { position := 44 } := by
  unfold readHeader
  simp only [reads_bind, reads_ite, reads_throw, reads_pure, reads_readBytes, reads_readInt32, false_and,
    exists_false, and_false, false_or, and_assoc, exists_and_left, exists_eq_left, left]
  constructor
  · rintro ⟨-, -, -, hmagic, -, -, -, -, hstack, -, -, -, -, -, -, hleft, hcounts, hs⟩
    exact ⟨by omega, by omega, not_not.mp hmagic, hcounts, hs⟩
  · rintro ⟨hstack, hlen, hmagic, hcounts, hs⟩
    refine ⟨?_, ?_, ?_, not_not.mpr hmagic, ?_, ?_, ?_, ?_, ?_, ?_, ?_, ?_, ?_, ?_, ?_, ?_, hcounts, hs⟩
    all_goals omega

theorem reads_transitionTimes {n : ℕ} {xs : List ℤ} :
    Reads (readMany f.readInt32 n) s xs s' ↔
      4 * n ≤ f.left s ∧ xs = (List.range n).map (fun i => f.int32At (s.position + 4 * i)) ∧
        s' = { s with position := s.position + 4 * n } :=
  f.reads_readMany fun _ _ _ => f.reads_readInt32

theorem reads_transitionTypes {n : ℕ} {xs : List ℕ} :
    Reads (readMany f.readUInt8 n) s xs s' ↔
      n ≤ f.left s ∧ xs = (List.range n).map (fun i => f.byteAt (s.position + i)) ∧
        s' = { s with position := s.position + n } := by
  rw [f.reads_readMany fun _ _ _ => f.reads_readUInt8]
  simp only [Nat.one_mul]

theorem reads_readTables {timecnt typecnt charcnt : ℤ} {u : Unit} (hlen : 44 ≤ f.content.length) :
    Reads (f.readTables timecnt typecnt charcnt) { position := 44 } u s' ↔
      0 ≤ timecnt ∧ 0 ≤ charcnt ∧ charcnt ≤ f.stack ∧
        44 + 5 * timecnt.toNat + 6 * typecnt.toNat + charcnt.toNat ≤ f.content.length ∧
        (∀ i < timecnt.toNat, f.byteAt (44 + 4 * timecnt.toNat + i) < typecnt.toNat) ∧
        s' = { position := 44 + 5 * timecnt.toNat + 6 * typecnt.toNat + charcnt.toNat
               data := f.tables timecnt.toNat typecnt.toNat charcnt.toNat } := by
  obtain ⟨t, ht⟩ : ∃ t, timecnt.toNat = t := ⟨_, rfl⟩
  obtain ⟨k, hk⟩ : ∃ k, typecnt.toNat = k := ⟨_, rfl⟩
  have hstart : 44 + 4 * t + t = 44 + 5 * t := by omega
  unfold readTables tables
  simp only [reads_bind, reads_ite, reads_throw, reads_modify, reads_readBytes, reads_transitionTimes,
    reads_transitionTypes, reads_readLocaltimes, reads_addTransitions, false_and, exists_false, and_false, false_or,
    ht, hk, and_assoc, exists_and_left, exists_eq_left, exists_const, List.zip_map', List.forall_mem_map,
    List.mem_range, List.map_map, Function.comp_def, List.nil_append, List.length_map, List.length_range, left, hstart,
    not_lt]
  constructor
  · rintro ⟨htime, htimes, htypes, hinfos, hidx, hchar, hstack, hchars, hs⟩
    exact ⟨htime, hchar, hstack, by omega, hidx, hs⟩
  · rintro ⟨htime, hchar, hstack, hlength, hidx, hs⟩
    exact ⟨htime, by omega, by omega, by omega, hidx, hchar, hstack, by omega, hs⟩

theorem reads_readZone {u : Unit} :
    Reads f.readZone {} u s' ↔
      f.Complete ∧ s' = { position := 44 + 5 * f.times + 6 * f.types + f.charcnt.toNat
                          data := f.tables f.times f.types f.charcnt.toNat } := by
  unfold readZone
  rw [reads_bind]
  constructor
  · rintro ⟨counts, t, hheader, htables⟩
    obtain ⟨hstack, hlen, hmagic, rfl, rfl⟩ := f.reads_readHeader.mp hheader
    obtain ⟨htime, hchar, hroom, hlength, hidx, hs⟩ := (f.reads_readTables hlen).mp htables
    exact ⟨⟨⟨hstack, hroom⟩, hmagic, ⟨htime, hchar⟩, hlength, hidx⟩, hs⟩
  · rintro ⟨⟨⟨hstack, hroom⟩, hmagic, ⟨htime, hchar⟩, hlength, hidx⟩, hs⟩
    have hlen : 44 ≤ f.content.length := by omega
    exact ⟨_, _, f.reads_readHeader.mpr ⟨hstack, hlen, hmagic, rfl, rfl⟩,
      (f.reads_readTables hlen).mpr ⟨htime, hchar, hroom, hlength, hidx, hs⟩⟩

end Specs

end File

/-- `none` is a file that cannot be opened. -/
def readTimeZoneFile (zonefile : Option File) : Exec (Bool × ZoneData) :=
  match zonefile with
  | none => .ok (true, {})
  | some f =>
    match f.readZone.run {} with
    | .ok _ s => .ok (true, s.data)
    | .error .logicError s => .ok (true, s.data)
    | .error (.fault e) _ => .error e

def TimeZone.ofFile (zonefile : Option File) : Exec TimeZone := do
  let (read, data) ← readTimeZoneFile zonefile
  return { data := if read then some data else none }

end Networker
