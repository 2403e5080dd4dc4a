import Networker.BufferArrivals

/-!
The integers that `Buffer` writes and reads in network byte order. A `BitVec` is the
bit pattern that the signed and the unsigned type of one width share.
-/

namespace Networker

open CheckedRuns ByteVectors ByteOrder

namespace Buffer

section Model

def networkToHost64 (x : BitVec 64) : BitVec 64 := .ofNat 64 (byteSwap 8 x.toNat)
def networkToHost32 (x : BitVec 32) : BitVec 32 := .ofNat 32 (byteSwap 4 x.toNat)
def networkToHost16 (x : BitVec 16) : BitVec 16 := .ofNat 16 (byteSwap 2 x.toNat)

/-- `memcpy` of `n` bytes from `peek()`. -/
def load (b : Buffer) (n : ℕ) : Exec (List UInt8) :=
  if b.peek + n ≤ b.buffer.length then .ok (slice b.buffer b.peek (b.peek + n)) else .error .undefined

variable [Build]

/-- What the `peekIntN` have in common: the value of an integer of `n` bytes that was copied from `peek()`. -/
def peekInt (b : Buffer) (n : ℕ) : Exec ℕ := do
  assert (n ≤ b.readableBytes)
  let bytes ← b.load n
  .ok (hostValue bytes)

def peekInt64 (b : Buffer) : Exec (BitVec 64) := do
  let be64 ← b.peekInt 8
  .ok (networkToHost64 (.ofNat 64 be64))

def peekInt32 (b : Buffer) : Exec (BitVec 32) := do
  let be32 ← b.peekInt 4
  .ok (networkToHost32 (.ofNat 32 be32))

def peekInt16 (b : Buffer) : Exec (BitVec 16) := do
  let be16 ← b.peekInt 2
  .ok (networkToHost16 (.ofNat 16 be16))

def peekInt8 (b : Buffer) : Exec (BitVec 8) := do
  let x ← b.peekInt 1
  .ok (.ofNat 8 x)

def retrieveInt64 (b : Buffer) : Exec Buffer := b.retrieve 8
def retrieveInt32 (b : Buffer) : Exec Buffer := b.retrieve 4
def retrieveInt16 (b : Buffer) : Exec Buffer := b.retrieve 2
def retrieveInt8 (b : Buffer) : Exec Buffer := b.retrieve 1

def readInt32 (b : Buffer) : Exec (BitVec 32 × Buffer) := do
  let result ← b.peekInt32
  let b ← b.retrieveInt32
  .ok (result, b)

def readInt16 (b : Buffer) : Exec (BitVec 16 × Buffer) := do
  let result ← b.peekInt16
  let b ← b.retrieveInt16
  .ok (result, b)

def readInt8 (b : Buffer) : Exec (BitVec 8 × Buffer) := do
  let result ← b.peekInt8
  let b ← b.retrieveInt8
  .ok (result, b)

def prependInt64 (b : Buffer) (x : BitVec 64) : Exec Buffer := b.prepend (hostBytes 8 (hostToNetwork64 x))
def prependInt32 (b : Buffer) (x : BitVec 32) : Exec Buffer := b.prepend (hostBytes 4 (hostToNetwork32 x))
def prependInt16 (b : Buffer) (x : BitVec 16) : Exec Buffer := b.prepend (hostBytes 2 (hostToNetwork16 x))
def prependInt8 (b : Buffer) (x : BitVec 8) : Exec Buffer := b.prepend (hostBytes 1 x.toNat)

end Model

end Buffer

inductive IntType
  | int64
  | int32
  | int16
  | int8
deriving DecidableEq, Repr

namespace IntType

def size : IntType → ℕ
  | int64 => 8
  | int32 => 4
  | int16 => 2
  | int8 => 1

def Fits (type : IntType) (v : ℤ) : Prop := -2 ^ (8 * type.size - 1) ≤ v ∧ v < 2 ^ (8 * type.size - 1)

instance (type : IntType) (v : ℤ) : Decidable (type.Fits v) := inferInstanceAs (Decidable (_ ∧ _))

end IntType

structure TypedInt where
  type : IntType
  value : ℤ
  fits : type.Fits value

namespace TypedInt

def encoding (t : TypedInt) : List UInt8 := bigEndian t.type.size t.value

def pair (t : TypedInt) : IntType × ℤ := (t.type, t.value)

@[simp] theorem encoding_length (t : TypedInt) : t.encoding.length = t.type.size := bigEndian_length _ _

end TypedInt

namespace Buffer

section Calls

variable [Build]

def appendAs (b : Buffer) (t : TypedInt) : Exec Buffer :=
  match t.type with
  | .int64 => b.appendInt64 (.ofInt 64 t.value)
  | .int32 => b.appendInt32 (.ofInt 32 t.value)
  | .int16 => b.appendInt16 (.ofInt 16 t.value)
  | .int8 => b.appendInt8 (.ofInt 8 t.value)

def prependAs (b : Buffer) (t : TypedInt) : Exec Buffer :=
  match t.type with
  | .int64 => b.prependInt64 (.ofInt 64 t.value)
  | .int32 => b.prependInt32 (.ofInt 32 t.value)
  | .int16 => b.prependInt16 (.ofInt 16 t.value)
  | .int8 => b.prependInt8 (.ofInt 8 t.value)

def peekAs (b : Buffer) : IntType → Exec ℤ
  | .int64 => b.peekInt64 >>= fun x => .ok x.toInt
  | .int32 => b.peekInt32 >>= fun x => .ok x.toInt
  | .int16 => b.peekInt16 >>= fun x => .ok x.toInt
  | .int8 => b.peekInt8 >>= fun x => .ok x.toInt

def retrieveAs (b : Buffer) : IntType → Exec Buffer
  | .int64 => b.retrieveInt64
  | .int32 => b.retrieveInt32
  | .int16 => b.retrieveInt16
  | .int8 => b.retrieveInt8

/-- There is no `readInt64`; its callers peek and retrieve. -/
def readAs (b : Buffer) : IntType → Exec (ℤ × Buffer)
  | .int64 => b.peekInt64 >>= fun x => b.retrieveInt64 >>= fun b => .ok (x.toInt, b)
  | .int32 => b.readInt32 >>= fun r => .ok (r.1.toInt, r.2)
  | .int16 => b.readInt16 >>= fun r => .ok (r.1.toInt, r.2)
  | .int8 => b.readInt8 >>= fun r => .ok (r.1.toInt, r.2)

end Calls

section Encodings

theorem hostBytes_ofInt {n w : ℕ} (hw : 2 ^ w = 256 ^ n) (v : ℤ) :
    (hostBytes n (BitVec.ofInt w v).toNat).reverse = bigEndian n v := by
  have hcast : ((2 ^ w : ℕ) : ℤ) = 256 ^ n := by rw [hw, Int.natCast_pow]; rfl
  rw [bigEndian_eq, BitVec.toNat_ofInt, hcast]

/-- Swapped, the host's bytes are those of the encoding. -/
theorem hostBytes_network {n w : ℕ} (hw : 2 ^ w = 256 ^ n) (v : ℤ) :
    hostBytes n (byteSwap n (BitVec.ofInt w v).toNat) = bigEndian n v := by
  rw [hostBytes_byteSwap, hostBytes_ofInt hw]

theorem hostValue_encoding {n w : ℕ} (hw : 2 ^ w = 256 ^ n) (v : ℤ) :
    hostValue (bigEndian n v).reverse = (BitVec.ofInt w v).toNat := by
  rw [← hostBytes_ofInt hw, List.reverse_reverse, hostValue_hostBytes, ← hw]
  exact Nat.mod_eq_of_lt (BitVec.isLt _)

/-- An integer loaded from its encoding and swapped is the integer. -/
theorem ofNat_byteSwap_encoding {n w : ℕ} (hw : 2 ^ w = 256 ^ n) (v : ℤ) :
    BitVec.ofNat w (byteSwap n (BitVec.ofNat w (hostValue (bigEndian n v))).toNat) = .ofInt w v := by
  have hlt : hostValue (bigEndian n v) < 2 ^ w := by
    have h := hostValue_lt (bigEndian n v)
    rwa [bigEndian_length, ← hw] at h
  rw [BitVec.toNat_ofNat, Nat.mod_eq_of_lt hlt, byteSwap_hostValue (bigEndian_length n v), hostValue_encoding hw,
    BitVec.ofNat_toNat, BitVec.setWidth_eq]

/-- One byte needs no swapping. -/
theorem ofNat_encoding_byte (v : ℤ) : BitVec.ofNat 8 (hostValue (bigEndian 1 v)) = .ofInt 8 v := by
  rw [show bigEndian 1 v = (bigEndian 1 v).reverse from rfl, hostValue_encoding (by decide : 2 ^ 8 = 256 ^ 1),
    BitVec.ofNat_toNat, BitVec.setWidth_eq]

theorem toInt_ofInt_fits {type : IntType} {v : ℤ} (h : type.Fits v) :
    (BitVec.ofInt (8 * type.size) v).toInt = v := by
  have hpos : 0 < 8 * type.size := by cases type <;> decide
  exact BitVec.toInt_ofInt_eq_self hpos h.1 h.2

end Encodings

section Specs

variable [Build] {b : Buffer}

theorem appendAs_eq (b : Buffer) (t : TypedInt) : b.appendAs t = b.append t.encoding := by
  obtain ⟨type, v, -⟩ := t
  cases type with
  | int64 => exact congrArg b.append (hostBytes_network (by decide : 2 ^ 64 = 256 ^ 8) v)
  | int32 => exact congrArg b.append (hostBytes_network (by decide : 2 ^ 32 = 256 ^ 4) v)
  | int16 => exact congrArg b.append (hostBytes_network (by decide : 2 ^ 16 = 256 ^ 2) v)
  | int8 => exact congrArg b.append (hostBytes_ofInt (by decide : 2 ^ 8 = 256 ^ 1) v)

theorem prependAs_eq (b : Buffer) (t : TypedInt) : b.prependAs t = b.prepend t.encoding := by
  obtain ⟨type, v, -⟩ := t
  cases type with
  | int64 => exact congrArg b.prepend (hostBytes_network (by decide : 2 ^ 64 = 256 ^ 8) v)
  | int32 => exact congrArg b.prepend (hostBytes_network (by decide : 2 ^ 32 = 256 ^ 4) v)
  | int16 => exact congrArg b.prepend (hostBytes_network (by decide : 2 ^ 16 = 256 ^ 2) v)
  | int8 => exact congrArg b.prepend (hostBytes_ofInt (by decide : 2 ^ 8 = 256 ^ 1) v)

theorem retrieveAs_eq (b : Buffer) (type : IntType) : b.retrieveAs type = b.retrieve type.size := by
  cases type <;> rfl

theorem readAs_eq (b : Buffer) (type : IntType) :
    b.readAs type = b.peekAs type >>= fun v => b.retrieveAs type >>= fun b => .ok (v, b) := by
  cases type with
  | int64 => simp only [readAs, peekAs, retrieveAs, bind_assoc, ok_bind]
  | int32 => simp only [readAs, readInt32, peekAs, retrieveAs, bind_assoc, ok_bind]
  | int16 => simp only [readAs, readInt16, peekAs, retrieveAs, bind_assoc, ok_bind]
  | int8 => simp only [readAs, readInt8, peekAs, retrieveAs, bind_assoc, ok_bind]

theorem peekInt_encoding (hv : b.Valid) {n : ℕ} {v : ℤ} {rest : List UInt8}
    (h : b.readable = bigEndian n v ++ rest) : b.peekInt n = .ok (hostValue (bigEndian n v)) := by
  have hlen : n ≤ b.readable.length := by simp [h]
  have hrl := hv.reader_le
  have hwl := hv.writer_le
  have hl := hv.readable_length
  have hload : slice b.buffer b.peek (b.peek + n) = bigEndian n v := by
    have htake : b.readable.take n = bigEndian n v := by simp [h]
    rw [← htake, readable, slice, slice, List.take_drop, List.take_take, peek, Nat.min_eq_left (by omega)]
  simp only [peekInt, load]
  rw [assert_pos (show n ≤ b.readableBytes from hv.readableBytes_length ▸ hlen), ok_bind,
    if_pos (by simp only [peek]; omega), ok_bind, hload]

/-- What the wider `peekIntN` have in common: the integer is loaded and swapped. -/
theorem peekInt_swapped (hv : b.Valid) {n w : ℕ} (hw : 2 ^ w = 256 ^ n) {v : ℤ} {rest : List UInt8}
    (h : b.readable = bigEndian n v ++ rest) :
    (b.peekInt n >>= fun x => .ok (BitVec.ofNat w (byteSwap n (BitVec.ofNat w x).toNat))) = .ok (BitVec.ofInt w v) := by
  rw [peekInt_encoding hv h, ok_bind, ofNat_byteSwap_encoding hw]

theorem peekAs_encoding (hv : b.Valid) {t : TypedInt} {rest : List UInt8} (h : b.readable = t.encoding ++ rest) :
    b.peekAs t.type = .ok t.value := by
  obtain ⟨type, v, hfits⟩ := t
  have htoInt := toInt_ofInt_fits hfits
  cases type with
  | int64 =>
    have hpeek : b.peekInt64 = .ok (.ofInt 64 v) := peekInt_swapped hv (by decide : 2 ^ 64 = 256 ^ 8) h
    rw [peekAs, hpeek, ok_bind]
    exact congrArg Except.ok htoInt
  | int32 =>
    have hpeek : b.peekInt32 = .ok (.ofInt 32 v) := peekInt_swapped hv (by decide : 2 ^ 32 = 256 ^ 4) h
    rw [peekAs, hpeek, ok_bind]
    exact congrArg Except.ok htoInt
  | int16 =>
    have hpeek : b.peekInt16 = .ok (.ofInt 16 v) := peekInt_swapped hv (by decide : 2 ^ 16 = 256 ^ 2) h
    rw [peekAs, hpeek, ok_bind]
    exact congrArg Except.ok htoInt
  | int8 =>
    have hpeek : b.peekInt 1 = .ok (hostValue (bigEndian 1 v)) := peekInt_encoding hv h
    rw [peekAs, peekInt8, hpeek, ok_bind, ok_bind, ofNat_encoding_byte]
    exact congrArg Except.ok htoInt

theorem retrieveAs_encoding (hv : b.Valid) {t : TypedInt} {rest : List UInt8} (h : b.readable = t.encoding ++ rest) :
    ∃ b', b.retrieveAs t.type = .ok b' ∧ b'.Valid ∧ b'.readable = rest := by
  have hlen : t.type.size ≤ b.readable.length := by simp [h]
  obtain ⟨b', hb', hv', hread, -⟩ := retrieve_spec hv hlen
  refine ⟨b', (retrieveAs_eq b t.type).trans hb', hv', ?_⟩
  rw [hread, h, ← t.encoding_length, List.drop_left]

theorem readAs_encoding (hv : b.Valid) {t : TypedInt} {rest : List UInt8} (h : b.readable = t.encoding ++ rest) :
    ∃ b', b.readAs t.type = .ok (t.value, b') ∧ b'.Valid ∧ b'.readable = rest := by
  obtain ⟨b', hb', hv', hread⟩ := retrieveAs_encoding hv h
  refine ⟨b', ?_, hv', hread⟩
  rw [readAs_eq, peekAs_encoding hv h, ok_bind, hb', ok_bind]

theorem appendAs_spec (hv : b.Valid) (t : TypedInt) :
    (∃ b', b.appendAs t = .ok b' ∧ b'.Valid ∧ b'.readable = b.readable ++ t.encoding) ∨
      (maxSize < b.buffer.length + t.type.size ∧ b.appendAs t = .error .lengthError) := by
  have hw := hv.writer_le
  have hsize : t.type.size ≤ maxSize := by
    have hle : 8 ≤ maxSize := by simp [maxSize]
    cases t.type <;> simp only [IntType.size] <;> omega
  rw [appendAs_eq]
  rcases append_spec hv t.encoding (by rwa [TypedInt.encoding_length]) with ⟨b', hb', hv', hread, -⟩ | ⟨hbig, herr⟩
  · exact Or.inl ⟨b', hb', hv', hread⟩
  · rw [TypedInt.encoding_length] at hbig
    exact Or.inr ⟨by omega, herr⟩

end Specs

inductive Item
  | raw (bytes : List UInt8)
  | int (t : TypedInt)

namespace Item

def bytes : Item → List UInt8
  | raw bytes => bytes
  | int t => t.encoding

def raw? : Item → Option (List UInt8)
  | raw bytes => some bytes
  | int _ => none

def int? : Item → Option TypedInt
  | raw _ => none
  | int t => some t

def ofBytes (bytes : List UInt8) : List Item := if bytes = [] then [] else [raw bytes]

theorem flatMap_ofBytes (data : List UInt8) : (ofBytes data).flatMap bytes = data := by
  unfold ofBytes
  split_ifs with h
  · exact h.symm
  · simp [bytes]

theorem filterMap_ofBytes (data : List UInt8) : (ofBytes data).filterMap int? = [] := by
  unfold ofBytes
  split_ifs <;> rfl

end Item

/-- A buffer, what its content stands for, and a record of what was read as integers. -/
structure Stream where
  buffer : Buffer
  queue : List Item
  read : List (IntType × ℤ) := []

inductive Action
  | arrive (a : Arrival)
  | appendInt (t : TypedInt)
  | retrieve (len : ℕ)
  | readInt (type : IntType)

namespace Action

def int? : Action → Option TypedInt
  | .appendInt t => some t
  | .arrive _ | .retrieve _ | .readInt _ => none

/-- The room that is asked for. -/
def size : Action → ℕ
  | .arrive a => a.size
  | .appendInt t => t.type.size
  | .retrieve _ | .readInt _ => 0

end Action

namespace Stream

def ofBuffer (b : Buffer) : Stream := ⟨b, Item.ofBytes b.readable, []⟩

/-- The raw bytes at the front, and the items behind them. -/
def dropRaw (len : ℕ) : List Item → List Item
  | .raw bytes :: queue => Item.ofBytes (bytes.drop len) ++ queue
  | queue => queue

/-- A reader takes no more than the raw bytes that come first, and an integer by the call of its type. -/
def Enabled (s : Stream) : Action → Prop
  | .arrive a => a.Permitted s.buffer
  | .appendInt _ => True
  | .retrieve len => (s.queue.head?.bind Item.raw?).any (fun bytes => len ≤ bytes.length) = true
  | .readInt type => (s.queue.head?.bind Item.int?).any (fun t => t.type = type) = true

instance (s : Stream) : (i : Action) → Decidable (s.Enabled i)
  | .arrive a => inferInstanceAs (Decidable (a.Permitted s.buffer))
  | .appendInt _ => inferInstanceAs (Decidable True)
  | .retrieve _ | .readInt _ => inferInstanceAs (Decidable (_ = _))

variable [Build]

def step (s : Stream) : Action → Exec Stream
  | .arrive a => a.apply s.buffer >>= fun b => .ok { s with buffer := b, queue := s.queue ++ Item.ofBytes a.bytes }
  | .appendInt t => s.buffer.appendAs t >>= fun b => .ok { s with buffer := b, queue := s.queue ++ [.int t] }
  | .retrieve len => s.buffer.retrieve len >>= fun b => .ok { s with buffer := b, queue := dropRaw len s.queue }
  | .readInt type => s.buffer.readAs type >>= fun r => .ok ⟨r.2, s.queue.tail, s.read ++ [(type, r.1)]⟩

omit [Build] in
/-- The content is what the queue says, and the integers written are those that were read and those still queued. -/
structure Faithful (s : Stream) (written : List TypedInt) : Prop where
  valid : s.buffer.Valid
  content : s.buffer.readable = s.queue.flatMap Item.bytes
  order : s.read ++ (s.queue.filterMap Item.int?).map TypedInt.pair = written.map TypedInt.pair

variable {s s' : Stream} {written : List TypedInt}

omit [Build] in
theorem enabled_retrieve {len : ℕ} (h : s.Enabled (.retrieve len)) :
    ∃ bytes queue, s.queue = .raw bytes :: queue ∧ len ≤ bytes.length := by
  obtain ⟨bytes, hb, hle⟩ := (Option.any_eq_true _ _).mp h
  obtain ⟨item, hitem, hraw⟩ := Option.bind_eq_some_iff.mp hb
  obtain ⟨queue, hq⟩ := List.head?_eq_some_iff.mp hitem
  cases item with
  | raw data =>
    cases hraw
    exact ⟨bytes, queue, hq, of_decide_eq_true hle⟩
  | int t => cases hraw

omit [Build] in
theorem enabled_readInt {type : IntType} (h : s.Enabled (.readInt type)) :
    ∃ t queue, s.queue = .int t :: queue ∧ t.type = type := by
  obtain ⟨t, ht, htype⟩ := (Option.any_eq_true _ _).mp h
  obtain ⟨item, hitem, hint⟩ := Option.bind_eq_some_iff.mp ht
  obtain ⟨queue, hq⟩ := List.head?_eq_some_iff.mp hitem
  cases item with
  | raw data => cases hint
  | int t' =>
    cases hint
    exact ⟨t, queue, hq, of_decide_eq_true htype⟩

theorem Faithful.step (h : Faithful s written) {i : Action} (he : s.Enabled i) :
    (∃ s', s.step i = .ok s' ∧ Faithful s' (written ++ i.int?.toList)) ∨
      (maxSize < s.buffer.buffer.length + i.size ∧ s.step i = .error .lengthError) := by
  cases i with
  | arrive a =>
    rcases arrival_spec h.valid he with ⟨b', hb', hv', hread⟩ | ⟨hbig, herr⟩
    · refine Or.inl ⟨{ s with buffer := b', queue := s.queue ++ Item.ofBytes a.bytes },
      by simp only [Stream.step, hb', ok_bind], hv', ?_, ?_⟩
      · rw [hread, h.content, List.flatMap_append, Item.flatMap_ofBytes]
      · rw [List.filterMap_append, Item.filterMap_ofBytes, List.append_nil]
        simpa [Action.int?] using h.order
    · exact Or.inr ⟨hbig, by simp only [Stream.step, herr, error_bind]⟩
  | appendInt t =>
    rcases appendAs_spec h.valid t with ⟨b', hb', hv', hread⟩ | ⟨hbig, herr⟩
    · refine Or.inl ⟨{ s with buffer := b', queue := s.queue ++ [.int t] },
      by simp only [Stream.step, hb', ok_bind], hv', ?_, ?_⟩
      · rw [hread, h.content, List.flatMap_append, List.flatMap_singleton]
        rfl
      · simp only [List.filterMap_append, List.map_append, ← List.append_assoc, h.order]
        rfl
    · exact Or.inr ⟨hbig, by simp only [Stream.step, herr, error_bind]⟩
  | retrieve len =>
    obtain ⟨bytes, queue, hq, hle⟩ := enabled_retrieve he
    have hcontent : s.buffer.readable = bytes ++ queue.flatMap Item.bytes := by
      rw [h.content, hq, List.flatMap_cons]
      rfl
    obtain ⟨b', hb', hv', hread, -⟩ := retrieve_spec h.valid (show len ≤ s.buffer.readable.length by simp [hcontent]; omega)
    refine Or.inl ⟨{ s with buffer := b', queue := dropRaw len s.queue },
      by simp only [Stream.step, hb', ok_bind], hv', ?_, ?_⟩
    · rw [hread, hcontent, hq, List.drop_append_of_le_length hle]
      simp only [dropRaw, List.flatMap_append, Item.flatMap_ofBytes]
    · have horder := h.order
      rw [hq] at horder ⊢
      simpa [dropRaw, List.filterMap_append, List.filterMap_cons, Item.filterMap_ofBytes, Item.int?, Action.int?] using horder
  | readInt type =>
    obtain ⟨t, queue, hq, rfl⟩ := enabled_readInt he
    have hcontent : s.buffer.readable = t.encoding ++ queue.flatMap Item.bytes := by
      rw [h.content, hq, List.flatMap_cons]
      rfl
    obtain ⟨b', hb', hv', hread⟩ := readAs_encoding h.valid hcontent
    refine Or.inl ⟨⟨b', s.queue.tail, s.read ++ [(t.type, t.value)]⟩,
      by simp only [Stream.step, hb', ok_bind], hv', ?_, ?_⟩
    · rw [hread, hq, List.tail_cons]
    · have horder := h.order
      rw [hq] at horder ⊢
      simpa [List.filterMap_cons, Item.int?, Action.int?, TypedInt.pair] using horder

theorem Faithful.run {s₀ : Stream} (h : Faithful s₀ written) {actions : List Action}
    (hr : Path Stream.step Enabled s₀ actions s) : Faithful s (written ++ actions.filterMap Action.int?) := by
  induction hr with
  | nil => simpa using h
  | snoc i _ he hs ih =>
    rcases ih.step he with ⟨s₁, hs₁, h₁⟩ | ⟨-, herr⟩
    · cases hs.symm.trans hs₁
      rw [List.filterMap_append, ← List.append_assoc]
      cases i <;> exact h₁
    · cases hs.symm.trans herr

omit [Build] in
theorem ofBuffer_faithful {b : Buffer} (hv : b.Valid) : Faithful (ofBuffer b) [] :=
  ⟨hv, (Item.flatMap_ofBytes _).symm, by simp [ofBuffer, Item.filterMap_ofBytes]⟩

end Stream

section Results

variable [Build]

/-- Integers are read back as they were written, in order, whatever else arrives or is moved in between; one that is
prepended is read back next and leaves what was there. -/
theorem typed_integers {b : Buffer} (h : Reachable b) {actions : List Action} {s : Stream}
    (hr : Path Stream.step Stream.Enabled (.ofBuffer b) actions s) :
    s.buffer.readable = s.queue.flatMap Item.bytes ∧
      s.read ++ (s.queue.filterMap Item.int?).map TypedInt.pair =
        (actions.filterMap Action.int?).map TypedInt.pair ∧
      (∀ i, s.Enabled i → (∃ s', s.step i = .ok s') ∨
        (maxSize < s.buffer.buffer.length + i.size ∧ s.step i = .error .lengthError)) ∧
      (∀ t rest, s.queue = .int t :: rest → s.buffer.peekAs t.type = .ok t.value ∧
        ∃ b', s.buffer.retrieveAs t.type = .ok b' ∧ s.buffer.readAs t.type = .ok (t.value, b') ∧
          b'.readable = rest.flatMap Item.bytes) ∧
      ∀ t : TypedInt, t.type.size ≤ s.buffer.prependableBytes →
        ∃ b₁ b₂, s.buffer.prependAs t = .ok b₁ ∧ b₁.readable = t.encoding ++ s.buffer.readable ∧
          b₁.peekAs t.type = .ok t.value ∧ b₁.retrieveAs t.type = .ok b₂ ∧ b₂.readable = s.buffer.readable := by
  have hf := (Stream.ofBuffer_faithful h.valid).run hr
  refine ⟨hf.content, hf.order, ?_, ?_, ?_⟩
  · intro i he
    rcases hf.step he with ⟨s', hs', -⟩ | herr
    · exact Or.inl ⟨s', hs'⟩
    · exact Or.inr herr
  · intro t rest hq
    have hcontent : s.buffer.readable = t.encoding ++ rest.flatMap Item.bytes := by
      rw [hf.content, hq, List.flatMap_cons]
      rfl
    have hpeek := peekAs_encoding hf.valid hcontent
    obtain ⟨b', hb', -, hread⟩ := retrieveAs_encoding hf.valid hcontent
    refine ⟨hpeek, b', hb', ?_, hread⟩
    rw [readAs_eq, hpeek, ok_bind, hb', ok_bind]
  · intro t hroom
    obtain ⟨b₁, hb₁, hv₁, hread₁⟩ := prepend_spec hf.valid t.encoding (by rwa [TypedInt.encoding_length])
    obtain ⟨b₂, hb₂, -, hread₂⟩ := retrieveAs_encoding hv₁ hread₁
    exact ⟨b₁, b₂, (prependAs_eq _ t).trans hb₁, hread₁, peekAs_encoding hv₁ hread₁, hb₂, hread₂⟩

end Results

-- negative values of three widths, with bytes between them and a move of the content
theorem typed_integers_mixed :
    letI := Build.debug
    let actions : List Action := [.appendInt ⟨.int16, -2, by decide⟩, .arrive (.append [7]), .retrieve 1,
      .appendInt ⟨.int64, -3, by decide⟩, .readInt .int16, .arrive (.readFd (.read [8, 9])), .retrieve 1,
      .appendInt ⟨.int8, -128, by decide⟩]
    ∃ b s, Reachable b ∧ Path Stream.step Stream.Enabled (.ofBuffer b) actions s ∧ s.read = [(.int16, -2)] ∧
      s.read ++ (s.queue.filterMap Item.int?).map TypedInt.pair = [(.int16, -2), (.int64, -3), (.int8, -128)] := by
  intro actions
  let _ := Build.debug
  let b : Buffer := ⟨List.replicate 8 0 ++ [5, 0, 0, 0], 8, 9⟩
  have hp : Call.Permitted (initial 4) (.op (.append [5])) := ⟨trivial, by decide +kernel⟩
  have hb : Reachable b := .call _ (initial_reachable (by decide +kernel)) hp (by decide +kernel)
  obtain ⟨s, hs, hread⟩ := Path.exists_of_any Stream.step Stream.Enabled (.ofBuffer b) actions
    (fun s => decide (s.read = [(.int16, -2)])) (by decide +kernel)
  exact ⟨b, s, hb, hs, of_decide_eq_true hread, (typed_integers hb hs).2.1⟩

end Buffer

end Networker
