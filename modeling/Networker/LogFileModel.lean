import Mathlib.Data.Int.Basic
import Networker.CheckedRuns
import Networker.FileSystems

/-!
`base/LogFile.cpp` and `AppendFile` of `base/FileUtil.cpp`. Times are seconds since
the epoch. The base name and the host name do not change, so that a `.log` file is
known by its UTC day and a `.roll` file by the second of the roll. The directory
may hold files of an earlier process.
-/

namespace Networker

open CheckedRuns

inductive FileName
  | log (day : ℤ)
  | roll (second : ℤ)
deriving DecidableEq, Repr

abbrev LogDisk (α : Type) := Disk FileName α

/-- One call of `fwrite_unlocked`: how many bytes it takes at most, and how many of the stream's
bytes it passes on to the file. -/
structure Fwrite where
  accepted : ℕ
  spill : ℕ
deriving DecidableEq, Repr

/-- `buffer` is what the stream holds back in `buffer_`. -/
structure AppendFile (α : Type) where
  inode : ℕ
  buffer : List α := []
  writtenBytes : ℤ := 0
deriving DecidableEq, Repr

namespace AppendFile

variable {α : Type}

/-- `fopen` in mode `"ae"`. -/
def create (disk : LogDisk α) (filename : FileName) : LogDisk α × AppendFile α :=
  let (disk, inode) := disk.openAppend filename
  (disk, { inode })

def write (f : AppendFile α) (disk : LogDisk α) (logline : List α) (w : Fwrite) :
    LogDisk α × AppendFile α × ℕ :=
  let stream := f.buffer ++ logline.take w.accepted
  (disk.write f.inode (stream.take w.spill), { f with buffer := stream.drop w.spill },
    min w.accepted logline.length)

/-- The loop of `append` on the bytes that remain. A call beyond `retries` takes nothing. -/
def appendRest (f : AppendFile α) (disk : LogDisk α) : List α → List Fwrite → LogDisk α × AppendFile α
  | [], _ => (disk, f)
  | _, [] => (disk, f)
  | remain, w :: retries =>
    let (disk, f, x) := f.write disk remain w
    if x = 0 then (disk, f) else f.appendRest disk (remain.drop x) retries

def append (f : AppendFile α) (disk : LogDisk α) (logline : List α) (w : Fwrite) (retries : List Fwrite) :
    LogDisk α × AppendFile α :=
  let (disk, f, n) := f.write disk logline w
  let (disk, f) := f.appendRest disk (logline.drop n) retries
  (disk, { f with writtenBytes := f.writtenBytes + logline.length })

/-- `fflush`, and what `fclose` does before it closes. -/
def flush (f : AppendFile α) (disk : LogDisk α) : LogDisk α × AppendFile α :=
  (disk.write f.inode f.buffer, { f with buffer := [] })

end AppendFile

structure LogFile (α : Type) where
  rollSize : ℤ
  flushInterval : ℤ
  checkEveryN : ℤ
  count : ℤ := 0
  /-- `file_` is null until `rollFile` has opened a file -/
  file : Option (AppendFile α) := none
  startOfPeriod : ℤ := 0
  lastRoll : ℤ := 0
  lastFlush : ℤ := 0
  disk : LogDisk α

namespace LogFile

variable {α : Type}

def kRollPerSeconds : ℤ := 60 * 60 * 24

/-- The day `gmtime_r` finds. -/
def day (now : ℤ) : ℤ := now / kRollPerSeconds

def period (now : ℤ) : ℤ := now.tdiv kRollPerSeconds * kRollPerSeconds

def getLogFileName (disk : LogDisk α) (now : ℤ) (isRoll : Bool) : LogDisk α × FileName :=
  let filename := .log (day now)
  (if isRoll then disk.rename filename (.roll now) else disk, filename)

/-- `file_.reset(new AppendFile(filename))`: the new file is opened before the old one is closed. -/
def reset (file : Option (AppendFile α)) (disk : LogDisk α) (filename : FileName) : LogDisk α × AppendFile α :=
  let (disk, f) := AppendFile.create disk filename
  match file with
  | none => (disk, f)
  | some old => ((old.flush disk).1, f)

def rollFile (s : LogFile α) (now : ℤ) (isRoll : Bool) : LogFile α :=
  let (disk, filename) := getLogFileName s.disk now isRoll
  if s.lastRoll < now then
    let (disk, f) := reset s.file disk filename
    { s with lastRoll := now, lastFlush := now, startOfPeriod := period now, file := some f, disk }
  else { s with disk }

/-- The constructor, at the second `now`. -/
def create (disk : LogDisk α) (rollSize flushInterval checkEveryN now : ℤ) : LogFile α :=
  let s : LogFile α := { rollSize, flushInterval, checkEveryN, disk }
  s.rollFile now false

/-- `now` is the first reading of the clock, `now'` the one `rollFile` makes after the check of the period. -/
def append (s : LogFile α) (logline : List α) (w : Fwrite) (retries : List Fwrite) (now now' : ℤ) :
    Exec (LogFile α) :=
  match s.file with
  | none => .error .undefined
  | some f =>
    let (disk, f) := f.append s.disk logline w retries
    let s := { s with disk, file := some f }
    if s.rollSize < f.writtenBytes then .ok (s.rollFile now true)
    else
      let s := { s with count := s.count + 1 }
      if s.checkEveryN ≤ s.count then
        let s := { s with count := 0 }
        if period now ≠ s.startOfPeriod then .ok (s.rollFile now' true)
        else if s.flushInterval < now - s.lastFlush then
          let (disk, f) := f.flush s.disk
          .ok { s with lastFlush := now, disk, file := some f }
        else .ok s
      else .ok s

def flush (s : LogFile α) : Exec (LogFile α) :=
  match s.file with
  | none => .error .undefined
  | some f =>
    let (disk, f) := f.flush s.disk
    .ok { s with disk, file := some f }

inductive Step (α : Type)
  | append (logline : List α) (w : Fwrite) (retries : List Fwrite) (now now' : ℤ)
  | flush
  | rollFile (now : ℤ) (isRoll : Bool)
deriving DecidableEq, Repr

def step (s : LogFile α) : Step α → Exec (LogFile α)
  | .append logline w retries now now' => s.append logline w retries now now'
  | .flush => s.flush
  | .rollFile now isRoll => .ok (s.rollFile now isRoll)

end LogFile

end Networker
