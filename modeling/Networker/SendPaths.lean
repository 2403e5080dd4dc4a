import Networker.OutputSpecs

/-!
What `sendInLoop(const void*, size_t)` receives when a message goes through
one of the three `send` functions, on the loop thread or on another one.
-/

namespace Networker.TcpConnection

open CheckedRuns

def Message.Holds (m : List UInt8) : Message → Prop
  | .string s => s = m
  | .memory data len => len = m.length ∧ m <+: data
  | .buffer buf => buf.Valid ∧ buf.readable = m

instance (m : List UInt8) : (message : Message) → Decidable (message.Holds m)
  | .string _ => inferInstanceAs (Decidable (_ = _))
  | .memory _ _ | .buffer _ => inferInstanceAs (Decidable (_ ∧ _))

def Message.isString : Message → Bool
  | .string _ => true
  | .memory _ _ | .buffer _ => false

/-- With `before` handed over so far, the execution calls `sendInLoop(const void*, size_t)` once, with the bytes `m`;
the output buffer may then refuse to grow. -/
def Receives (before : List (List UInt8 × Fate)) (m : List UInt8) : Exec TcpConnection → Prop
  | .ok c => c.handed.map Prod.fst = before.map Prod.fst ++ [m]
  | .error e => e = .lengthError

instance (before : List (List UInt8 × Fate)) (m : List UInt8) :
    (r : Exec TcpConnection) → Decidable (Receives before m r)
  | .ok _ => inferInstanceAs (Decidable (_ = _))
  | .error _ => inferInstanceAs (Decidable (_ = _))

theorem Receives.unique {before : List (List UInt8 × Fate)} {m m' : List UInt8} {r : Exec TcpConnection}
    (h : Receives before m r) (h' : Receives before m' r) (hr : r ≠ .error .lengthError) : m = m' := by
  cases r with
  | error e => exact absurd (congrArg Except.error h) hr
  | ok c' => simpa using h.symm.trans h'

theorem bytesAt_prefix {m data : List UInt8} (h : m <+: data) (hlen : m.length < 2 ^ 31) :
    bytesAt data m.length = .ok m := by
  have hmax : m.length ≤ maxSize := by simp only [maxSize]; omega
  rw [bytesAt, if_pos ⟨h.length_le, hmax⟩, ← List.prefix_iff_eq_take.mp h]

theorem ofString_bytes {s : List UInt8} (h : s.length < 2 ^ 31) :
    bytesAt (StringPiece.ofString s).data (toSize (StringPiece.ofString s).size) = .ok (cString s) := by
  have hl := cString_length_le s
  rw [ofString_size h]
  apply bytesAt_prefix _ (by omega)
  exact (List.takeWhile_prefix _).trans (List.prefix_append s [0])

theorem ofMemory_bytes {m data : List UInt8} (h : m <+: data) (hlen : m.length < 2 ^ 31) :
    bytesAt (StringPiece.ofMemory data m.length).data (toSize (StringPiece.ofMemory data m.length).size) =
      .ok m := by
  simp only [StringPiece.ofMemory, StringPiece.data, StringPiece.size]
  rw [toSize_natCast (by omega)]
  exact bytesAt_prefix h hlen

theorem peek_bytes {buf : Buffer} (hv : buf.Valid) :
    bytesAt (buf.buffer.drop buf.peek) buf.readableBytes = .ok buf.readable := by
  have hw := hv.writer_le
  have hr := hv.reader_le
  have hs := hv.size_le
  rw [bytesAt, hv.readableBytes_eq, if_pos ⟨by simp [Buffer.peek]; omega, by omega⟩, Buffer.peek, ← List.drop_take]
  rfl

section Sending

variable [Build]

/-- `send` makes `sendInLoop` receive `m`: before it returns on the loop thread, and when the functor it queues is run
on any other. -/
def Hands (c : TcpConnection) (onLoop : Bool) (message : Message) (w : WriteResult) (m : List UInt8) : Prop :=
  if onLoop then Receives c.handed m (c.send true message w)
  else ∃ c' f, c.send false message w = .ok c' ∧ c'.pendingFunctors = c.pendingFunctors ++ [f] ∧
    ∀ d : TcpConnection, d.outputBuffer.Valid → ∀ w', Receives d.handed m (d.runFunctor w' f)

theorem sendInLoop_receives {c : TcpConnection} (hv : c.outputBuffer.Valid) {data m : List UInt8} {len : ℕ}
    (hm : bytesAt data len = .ok m) (w : WriteResult) : Receives c.handed m (c.sendInLoop data len w) := by
  rcases sendInLoop_cases hv hm w with ⟨-, he⟩ | ⟨-, -, he⟩ | ⟨-, -, ⟨-, he⟩ | ⟨n, b, ch, extra, -, he⟩⟩
  · simp [he, Receives]
  · simp [he, Receives]
  · simp [he, Receives]
  · simp [he, Receives, keep]

theorem retrieveAllAsString_eq {buf : Buffer} (hv : buf.Valid) :
    buf.retrieveAllAsString = .ok (buf.readable, buf.retrieveAll) := by
  have hr := hv.reader_le
  have hslice : buf.peek + buf.readableBytes = buf.writerIndex := by
    rw [hv.readableBytes_eq, Buffer.peek]
    omega
  simp only [Buffer.retrieveAllAsString, Buffer.retrieveAsString, Buffer.retrieve,
    assert_pos (Nat.le_refl buf.readableBytes), ok_bind, if_neg (Nat.lt_irrefl buf.readableBytes), hslice]
  rfl

/-- The functor a foreign thread binds converts its `std::string` back to a `StringPiece` when it runs. -/
theorem sendInLoop_functor_receives {s : List UInt8} (h : s.length < 2 ^ 31) {d : TcpConnection}
    (hv : d.outputBuffer.Valid) (w : WriteResult) : Receives d.handed (cString s) (d.runFunctor w (.sendInLoop s)) :=
  sendInLoop_receives hv (ofString_bytes h) w

section Connected

variable {c : TcpConnection} (hc : c.state = .kConnected) {message : Message} {m : List UInt8}
  (hm : message.Holds m) (hlen : m.length < 2 ^ 31) (w : WriteResult)

include hc hm hlen

theorem send_onLoop_hands (hv : c.outputBuffer.Valid) :
    c.Hands true message w (if message.isString then cString m else m) := by
  let c₁ : TcpConnection := { c with sent := c.sent ++ [message.bytes] }
  have hv₁ : c₁.outputBuffer.Valid := hv
  simp only [Hands, ↓reduceIte, send, if_pos hc]
  cases message with
  | string s =>
    cases hm
    simp only [sendPiece, if_pos hc, Message.isString, ↓reduceIte]
    exact sendInLoop_receives hv₁ (ofString_bytes hlen) w
  | memory data len =>
    obtain ⟨rfl, hp⟩ := hm
    simp only [sendMemory, sendPiece, if_pos hc, Message.isString, Bool.false_eq_true, ↓reduceIte]
    exact sendInLoop_receives hv₁ (ofMemory_bytes hp hlen) w
  | buffer buf =>
    obtain ⟨hb, rfl⟩ := hm
    have h : Receives c.handed buf.readable (c₁.sendInLoop (buf.buffer.drop buf.peek) buf.readableBytes w) :=
      sendInLoop_receives hv₁ (peek_bytes hb) w
    simp only [sendBuffer, if_pos hc, Message.isString, Bool.false_eq_true, ↓reduceIte]
    change Receives c.handed _ ((c₁.sendInLoop _ _ w >>= _) >>= _)
    cases hr : c₁.sendInLoop (buf.buffer.drop buf.peek) buf.readableBytes w with
    | error e => simpa [hr] using h
    | ok c' => simpa [hr] using h

/-- Whatever the entry point, the functor is bound to a string with the same text before its first NUL. -/
theorem send_foreign_binds : ∃ s, s.length < 2 ^ 31 ∧ cString s = cString m ∧
    c.send false message w = .ok (queueInLoop { c with sent := c.sent ++ [message.bytes] } (.sendInLoop s)) := by
  simp only [send, if_pos hc]
  cases message with
  | string s =>
    cases hm
    have hl := cString_length_le m
    refine ⟨cString m, by omega, (cString_eq_self_iff _).mpr (zero_notMem_cString m), ?_⟩
    simp only [sendPiece, if_pos hc, StringPiece.asString, ofString_bytes hlen, ok_bind, Bool.false_eq_true, ↓reduceIte]
  | memory data len =>
    obtain ⟨rfl, hp⟩ := hm
    refine ⟨m, hlen, rfl, ?_⟩
    simp only [sendMemory, sendPiece, if_pos hc, StringPiece.asString, ofMemory_bytes hp hlen, ok_bind,
      Bool.false_eq_true, ↓reduceIte]
  | buffer buf =>
    obtain ⟨hb, rfl⟩ := hm
    refine ⟨buf.readable, hlen, rfl, ?_⟩
    simp only [sendBuffer, if_pos hc, retrieveAllAsString_eq hb, ok_bind, Bool.false_eq_true, ↓reduceIte]

theorem send_foreign_hands : c.Hands false message w (cString m) := by
  obtain ⟨s, hs, hcs, he⟩ := send_foreign_binds hc hm hlen w
  refine ⟨_, .sendInLoop s, he, rfl, ?_⟩
  intro d hd w'
  exact hcs ▸ sendInLoop_functor_receives hs hd w'

end Connected

/-- The bytes that reach `sendInLoop`: two of the six ways never go through a `StringPiece` made from a string. -/
def handedBytes (onLoop : Bool) (message : Message) (m : List UInt8) : List UInt8 :=
  if onLoop = true ∧ message.isString = false then m else cString m

theorem send_hands {c : TcpConnection} (hc : c.state = .kConnected) (hv : c.outputBuffer.Valid) (onLoop : Bool)
    {message : Message} {m : List UInt8} (hm : message.Holds m) (hlen : m.length < 2 ^ 31) (w : WriteResult) :
    c.Hands onLoop message w (handedBytes onLoop message m) := by
  cases onLoop with
  | true =>
    have h := send_onLoop_hands hc hm hlen w hv
    cases hs : message.isString <;> simpa [handedBytes, hs] using h
  | false => simpa [handedBytes] using send_foreign_hands hc hm hlen w

theorem sendInLoop_fits {c : TcpConnection} (hv : c.outputBuffer.Valid) {data m : List UInt8} {len : ℕ}
    (hm : bytesAt data len = .ok m) (hfit : c.outputBuffer.writerIndex + m.length ≤ maxSize) (w : WriteResult) :
    c.sendInLoop data len w ≠ .error .lengthError := by
  rcases sendInLoop_cases hv hm w with ⟨-, he⟩ | ⟨-, -, he⟩ | ⟨-, -, ⟨hbig, -⟩ | ⟨n, b, ch, extra, -, he⟩⟩
  · simp [he]
  · simp [he]
  · omega
  · simp [he]

/-- A connection with room for the message is handed the message only if it has no NUL to stop at. -/
theorem Hands.cString_eq {c : TcpConnection} (hc : c.state = .kConnected) (hv : c.outputBuffer.Valid)
    (hfit : c.outputBuffer.writerIndex + 2 ^ 31 ≤ maxSize) {onLoop : Bool} {message : Message} {m : List UInt8}
    (hm : message.Holds m) (hlen : m.length < 2 ^ 31) (hway : ¬(onLoop = true ∧ message.isString = false))
    {w : WriteResult} (h : c.Hands onLoop message w m) : cString m = m := by
  have hl := cString_length_le m
  cases onLoop with
  | true =>
    cases message with
    | string s =>
      cases hm
      have hm : (Message.string m).Holds m := rfl
      have h' := send_onLoop_hands hc hm hlen w hv
      simp only [Hands, ↓reduceIte] at h h'
      apply h'.unique h
      simp only [send, if_pos hc, sendPiece, ↓reduceIte]
      exact sendInLoop_fits (c := { c with sent := c.sent ++ [_] }) hv (ofString_bytes hlen) (by simp only; omega) w
    | memory data len => exact absurd ⟨rfl, rfl⟩ hway
    | buffer buf => exact absurd ⟨rfl, rfl⟩ hway
  | false =>
    obtain ⟨s, hs, hcs, he⟩ := send_foreign_binds hc hm hlen w
    obtain ⟨c₁, f, he', hp, hd⟩ := h
    cases he.symm.trans he'
    have hf : f = .sendInLoop s := by simpa [queueInLoop] using hp.symm
    subst hf
    have hsl := cString_length_le s
    have h' := (sendInLoop_functor_receives hs hv w).unique (hd c hv w)
      (sendInLoop_fits hv (ofString_bytes hs) (by omega) w)
    rw [← hcs, h']

/-- A way of sending delivers `m` on every connection that is up exactly when `m` has no NUL or the way does not
measure a string with `strlen`. Either way what arrives is `handedBytes`. -/
theorem send_delivers_iff (onLoop : Bool) {message : Message} {m : List UInt8} (hm : message.Holds m)
    (hlen : m.length < 2 ^ 31) :
    ((∀ c : TcpConnection, c.state = .kConnected → c.outputBuffer.Valid → ∀ w, c.Hands onLoop message w m) ↔
        0 ∉ m ∨ (onLoop = true ∧ message.isString = false)) ∧
      ∀ c : TcpConnection, c.state = .kConnected → c.outputBuffer.Valid → ∀ w,
        c.Hands onLoop message w (handedBytes onLoop message m) := by
  refine ⟨⟨?_, ?_⟩, fun c hc hv w => send_hands hc hv onLoop hm hlen w⟩
  · intro h
    by_cases hway : onLoop = true ∧ message.isString = false
    · exact Or.inr hway
    · left
      have hv : (established 0 false false 67108864).outputBuffer.Valid := Buffer.initial_valid initialSize_le
      have hfit : (established 0 false false 67108864).outputBuffer.writerIndex + 2 ^ 31 ≤ maxSize := by
        simp [established, Buffer.initial, Buffer.kCheapPrepend, maxSize]
      exact (cString_eq_self_iff m).mp (Hands.cString_eq rfl hv hfit hm hlen hway (h _ rfl hv (.wrote 0)))
  · intro h c hc hv w
    have hb : handedBytes onLoop message m = m := by
      rcases h with h | h
      · rw [handedBytes, (cString_eq_self_iff m).mpr h, ite_self]
      · rw [handedBytes, if_pos h]
    exact hb ▸ send_hands hc hv onLoop hm hlen w

end Sending

theorem send_delivers_iff_binary :
    letI := Build.release
    (Message.memory [97, 0, 98, 99] 3).Holds [97, 0, 98] ∧
      (established 7 false false 67108864).Hands true (.memory [97, 0, 98, 99] 3) (.wrote 1) [97, 0, 98] := by
  let _ := Build.release
  have hm : (Message.memory [97, 0, 98, 99] 3).Holds [97, 0, 98] := ⟨rfl, by decide⟩
  have hd := (send_delivers_iff true hm (by decide)).1.mpr (Or.inr ⟨rfl, rfl⟩)
  exact ⟨hm, hd _ rfl (Buffer.initial_valid initialSize_le) _⟩

/-- The echo server sends a received `a\0b` back as a `std::string`: only `a` goes out. -/
theorem send_string_stops_at_nul :
    letI := Build.release
    ¬(established 7 false false 67108864).Hands true (.string [97, 0, 98]) (.wrote 3) [97, 0, 98] := by
  simp only [Hands, ↓reduceIte]
  decide +kernel

end Networker.TcpConnection
