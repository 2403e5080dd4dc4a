import Networker.BufferRuns

/-!
The calls that bring bytes into a buffer or make room for them: the content grows at
its end, wherever it is moved in between.
-/

namespace Networker.Buffer

open CheckedRuns ByteVectors

/-- `hasWritten` follows the storing of `data` from `beginWrite()` on. -/
inductive Arrival
  | append (data : List UInt8)
  | readFd (result : ReadResult)
  | ensureWritableBytes (len : ℕ)
  | hasWritten (data : List UInt8)
deriving DecidableEq

def ReadResult.bytes : ReadResult → List UInt8
  | .read bytes => bytes
  | .failed _ => []

namespace Arrival

def bytes : Arrival → List UInt8
  | .append data => data
  | .readFd result => result.bytes
  | .ensureWritableBytes _ => []
  | .hasWritten data => data

/-- The room that is asked for. -/
def size : Arrival → ℕ
  | .append data => data.length
  | .readFd result => result.bytes.length
  | .ensureWritableBytes len => len
  | .hasWritten data => data.length

/-- What callers and `readv` keep to. -/
def Permitted (b : Buffer) : Arrival → Prop
  | .append data => data.length ≤ maxSize
  | .readFd result =>
    result.bytes.length ≤ b.writableBytes + (if b.writableBytes < extrabufSize then extrabufSize else 0)
  | .ensureWritableBytes len => b.SumsFit len
  | .hasWritten data => data.length ≤ b.writableBytes

instance (b : Buffer) : (a : Arrival) → Decidable (a.Permitted b)
  | .append _ | .readFd _ | .hasWritten _ => inferInstanceAs (Decidable (_ ≤ _))
  | .ensureWritableBytes len => inferInstanceAs (Decidable (b.SumsFit len))

variable [Build]

def apply (b : Buffer) : Arrival → Exec Buffer
  | .append data => b.append data
  | .readFd result => b.readFd result >>= fun r => .ok r.1
  | .ensureWritableBytes len => b.ensureWritableBytes len
  | .hasWritten data => b.writeAtEnd data >>= fun b => b.hasWritten data.length

end Arrival

section Arrivals

variable [Build] {b b' : Buffer}

/-- The bytes are at the end of the content afterwards, or the storage would exceed what a vector can hold. -/
theorem arrival_spec (hv : b.Valid) {a : Arrival} (ha : a.Permitted b) :
    (∃ b', a.apply b = .ok b' ∧ b'.Valid ∧ b'.readable = b.readable ++ a.bytes) ∨
      (maxSize < b.buffer.length + a.size ∧ a.apply b = .error .lengthError) := by
  have hw := hv.writer_le
  cases a with
  | append data =>
    rcases append_spec hv data ha with ⟨b', hb', hv', hread, -⟩ | ⟨hbig, herr⟩
    · exact Or.inl ⟨b', hb', hv', hread⟩
    · exact Or.inr ⟨lt_of_lt_of_le hbig (Nat.add_le_add_right hw _), herr⟩
  | readFd result =>
    cases result with
    | failed errno => exact Or.inl ⟨b, rfl, hv, (List.append_nil _).symm⟩
    | read bytes =>
      rcases readFd_spec hv (show bytes.length ≤ _ from ha) with ⟨b', hb', hv', hread, -⟩ | ⟨hbig, herr⟩
      · exact Or.inl ⟨b', by simp only [Arrival.apply, hb', ok_bind], hv', hread⟩
      · refine Or.inr ⟨lt_of_lt_of_le hbig ?_, by simp only [Arrival.apply, herr, error_bind]⟩
        exact Nat.add_le_add_left (Nat.sub_le _ _) _
  | ensureWritableBytes len =>
    rcases ensureWritableBytes_spec hv len ha with ⟨b', hb', hp⟩ | ⟨hbig, herr⟩
    · exact Or.inl ⟨b', hb', hp.valid, hp.readable_eq.trans (List.append_nil _).symm⟩
    · exact Or.inr ⟨lt_of_lt_of_le hbig (Nat.add_le_add_right hw _), herr⟩
  | hasWritten data =>
    have hroom : data.length ≤ b.writableBytes := ha
    rw [hv.writableBytes_eq] at hroom
    obtain ⟨b', hb', hv', hread, -⟩ := writeAtEnd_hasWritten hv data (by omega)
    exact Or.inl ⟨b', hb', hv', hread⟩

theorem arrivals_run (hv : b.Valid) {as : List Arrival} (h : Path Arrival.apply (fun b a => a.Permitted b) b as b') :
    b'.Valid ∧ b'.readable = b.readable ++ as.flatMap Arrival.bytes := by
  induction h with
  | nil => exact ⟨hv, by simp⟩
  | snoc a _ ha hs ih =>
    obtain ⟨hvt, hread⟩ := ih
    rcases arrival_spec hvt ha with ⟨b₁, hb₁, hv₁, hread₁⟩ | ⟨-, herr⟩
    · cases hs.symm.trans hb₁
      refine ⟨hv₁, ?_⟩
      rw [hread₁, hread, List.flatMap_append, List.append_assoc, List.flatMap_singleton]
    · cases hs.symm.trans herr

end Arrivals

end Networker.Buffer
