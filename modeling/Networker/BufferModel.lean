import Mathlib.Algebra.Group.Nat.Defs
import Mathlib.Data.Int.Basic
import Networker.CheckedRuns
import Networker.CheckedIntegers
import Networker.ByteVectors
import Networker.ByteOrder

/-!
`net/Buffer.h` and `net/Buffer.cpp`: a `std::vector<char>` with a read and a
write index. `size_t` arithmetic wraps at `2 ^ 64`; positions are offsets from
`begin()`.
-/

namespace Networker

open CheckedRuns ByteVectors ByteOrder

/-- `std::vector<char>::max_size()`, which is also the size limit of any array object. -/
@[irreducible] def maxSize : ℕ := 2 ^ 63 - 1

/-- `std::vector<char>::resize`; new elements are zero. -/
def resize (v : List UInt8) (n : ℕ) : Exec (List UInt8) :=
  if n ≤ maxSize then .ok (v.take n ++ List.replicate (n - v.length) 0) else .error .lengthError

/-- `std::copy` from other storage to offset `dst` of `v`. -/
def copyInto (v : List UInt8) (src : List UInt8) (dst : ℕ) : Exec (List UInt8) :=
  if dst + src.length ≤ v.length then .ok (overwrite v dst src) else .error .undefined

/-- `std::copy` of the range `[first, last)` of `v` to offset `dst` of `v`, which must not lie inside it. -/
def copyWithin (v : List UInt8) (first last dst : ℕ) : Exec (List UInt8) :=
  if first ≤ last ∧ last ≤ v.length ∧ dst + (last - first) ≤ v.length ∧ (dst ≤ first ∨ last ≤ dst) then
    .ok (copyForward (last - first) v first dst)
  else .error .undefined

structure Buffer where
  buffer : List UInt8
  readerIndex : ℕ
  writerIndex : ℕ
deriving DecidableEq, Repr

namespace Buffer

def kCheapPrepend : ℕ := 8
def kInitialSize : ℕ := 1024

def readableBytes (b : Buffer) : ℕ := subSize b.writerIndex b.readerIndex

def writableBytes (b : Buffer) : ℕ := subSize b.buffer.length b.writerIndex

def prependableBytes (b : Buffer) : ℕ := b.readerIndex

def peek (b : Buffer) : ℕ := b.readerIndex

def beginWrite (b : Buffer) : ℕ := b.writerIndex

/-- The bytes between `peek()` and `beginWrite()`. -/
def readable (b : Buffer) : List UInt8 := slice b.buffer b.readerIndex b.writerIndex

def retrieveAll (b : Buffer) : Buffer :=
  { b with readerIndex := kCheapPrepend, writerIndex := kCheapPrepend }

/-- What the constructor leaves. -/
def initial (initialSize : ℕ) : Buffer :=
  ⟨List.replicate (kCheapPrepend + initialSize) 0, kCheapPrepend, kCheapPrepend⟩

variable [Build]

def create (initialSize : ℕ) : Exec Buffer := do
  let v ← resize [] (addSize kCheapPrepend initialSize)
  let b : Buffer := ⟨v, kCheapPrepend, kCheapPrepend⟩
  assert (b.readableBytes = 0)
  assert (b.writableBytes = initialSize)
  assert (b.prependableBytes = kCheapPrepend)
  .ok b

def retrieve (b : Buffer) (len : ℕ) : Exec Buffer := do
  assert (len ≤ b.readableBytes)
  if len < b.readableBytes then .ok { b with readerIndex := addSize b.readerIndex len }
  else .ok b.retrieveAll

/-- The argument is the offset of the pointer `end`. -/
def retrieveUntil (b : Buffer) (stop : ℕ) : Exec Buffer := do
  assert (b.peek ≤ stop)
  assert (stop ≤ b.beginWrite)
  b.retrieve (subSize stop b.peek)

def retrieveAsString (b : Buffer) (len : ℕ) : Exec (List UInt8 × Buffer) := do
  assert (len ≤ b.readableBytes)
  let result := slice b.buffer b.peek (b.peek + len)
  let b ← b.retrieve len
  .ok (result, b)

def retrieveAllAsString (b : Buffer) : Exec (List UInt8 × Buffer) :=
  b.retrieveAsString b.readableBytes

def hasWritten (b : Buffer) (len : ℕ) : Exec Buffer := do
  assert (len ≤ b.writableBytes)
  .ok { b with writerIndex := addSize b.writerIndex len }

def unwrite (b : Buffer) (len : ℕ) : Exec Buffer := do
  assert (len ≤ b.readableBytes)
  .ok { b with writerIndex := subSize b.writerIndex len }

def makeSpace (b : Buffer) (len : ℕ) : Exec Buffer :=
  if addSize b.writableBytes b.prependableBytes < addSize len kCheapPrepend then do
    let v ← resize b.buffer (addSize b.writerIndex len)
    .ok { b with buffer := v }
  else do
    assert (kCheapPrepend < b.readerIndex)
    let readable := b.readableBytes
    let v ← copyWithin b.buffer b.readerIndex b.writerIndex kCheapPrepend
    let b' : Buffer := ⟨v, kCheapPrepend, addSize kCheapPrepend readable⟩
    assert (readable = b'.readableBytes)
    .ok b'

def ensureWritableBytes (b : Buffer) (len : ℕ) : Exec Buffer := do
  let b ← if b.writableBytes < len then b.makeSpace len else .ok b
  assert (len ≤ b.writableBytes)
  .ok b

/-- What a caller does before `hasWritten`: store `data` from `beginWrite()` on. -/
def writeAtEnd (b : Buffer) (data : List UInt8) : Exec Buffer := do
  let v ← copyInto b.buffer data b.beginWrite
  .ok { b with buffer := v }

def append (b : Buffer) (data : List UInt8) : Exec Buffer := do
  let b ← b.ensureWritableBytes data.length
  let b ← b.writeAtEnd data
  b.hasWritten data.length

def hostToNetwork64 (x : BitVec 64) : ℕ := byteSwap 8 x.toNat
def hostToNetwork32 (x : BitVec 32) : ℕ := byteSwap 4 x.toNat
def hostToNetwork16 (x : BitVec 16) : ℕ := byteSwap 2 x.toNat

def appendInt64 (b : Buffer) (x : BitVec 64) : Exec Buffer := b.append (hostBytes 8 (hostToNetwork64 x))
def appendInt32 (b : Buffer) (x : BitVec 32) : Exec Buffer := b.append (hostBytes 4 (hostToNetwork32 x))
def appendInt16 (b : Buffer) (x : BitVec 16) : Exec Buffer := b.append (hostBytes 2 (hostToNetwork16 x))
def appendInt8 (b : Buffer) (x : BitVec 8) : Exec Buffer := b.append (hostBytes 1 x.toNat)

def prepend (b : Buffer) (data : List UInt8) : Exec Buffer := do
  assert (data.length ≤ b.prependableBytes)
  let reader := subSize b.readerIndex data.length
  let v ← copyInto b.buffer data reader
  .ok { b with buffer := v, readerIndex := reader }

/-- The size of the stack buffer `readFd` offers to `readv` besides the writable area. -/
def extrabufSize : ℕ := 65536

/-- `readv(2)` delivers some bytes, no more than the vectors hold, or fails with an `errno`. -/
inductive ReadResult
  | read (bytes : List UInt8)
  | failed (errno : ℕ)
deriving DecidableEq, Repr

/-- Returns the buffer, the result of `readv` and, where it failed, the saved `errno`. -/
def readFd (b : Buffer) : ReadResult → Exec (Buffer × ℤ × Option ℕ)
  | .failed errno => .ok (b, -1, some errno)
  | .read bytes => do
    let writable := b.writableBytes
    let bytes := bytes.take (writable + if writable < extrabufSize then extrabufSize else 0)
    let v ← copyInto b.buffer (bytes.take writable) b.writerIndex
    if bytes.length ≤ writable then
      .ok ({ b with buffer := v, writerIndex := addSize b.writerIndex bytes.length }, bytes.length, none)
    else do
      let b' : Buffer := { b with buffer := v, writerIndex := v.length }
      let b' ← b'.append (bytes.drop writable)
      .ok (b', bytes.length, none)

end Buffer

end Networker
