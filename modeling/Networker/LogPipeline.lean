import Networker.LogRotation
import Networker.LogStop
import Networker.LogTimes

/-!
The back end of `AsyncLogging` with the log file it writes to. `output` is a local
variable of `threadFunc`: no other thread uses it, and the front end may append
between two of its calls.
-/

namespace Networker

open CheckedRuns DigitStrings

/-- The time that `gettimeofday` answers, and the fields that `localtime_r` finds for its second. -/
structure WallClock where
  microSecondsSinceEpoch : ℤ
  tm_time : Tm
  year : int32 (tm_time.year + 1900) = .ok (tm_time.year + 1900)
  mon : int32 (tm_time.mon + 1) = .ok (tm_time.mon + 1)

/-- `Timestamp::toFormattedString`, printed into 64 bytes. -/
def WallClock.toFormattedString (c : WallClock) : Line :=
  let microseconds := castInt32 (c.microSecondsSinceEpoch.tmod kMicroSecondsPerSecond)
  (spacePadded 4 (c.tm_time.year + 1900) ++ zeroPadded 2 (c.tm_time.mon + 1) ++ zeroPadded 2 c.tm_time.mday ++
    chars " " ++ zeroPadded 2 c.tm_time.hour ++ chars ":" ++ zeroPadded 2 c.tm_time.min ++ chars ":" ++
    zeroPadded 2 c.tm_time.sec ++ chars "." ++ zeroPadded 6 microseconds).take 63

/-- What a step of the back end gets from outside: the clock and the calls of `fwrite`. -/
structure Turn where
  now : ℤ
  now' : ℤ
  clock : WallClock
  w : Fwrite
  retries : List Fwrite

namespace AsyncLogging

/-- The text that `snprintf` leaves in the 256 bytes of `buf`. -/
def droppedMessage (clock : WallClock) (larger : ℕ) : Line :=
  (chars "Drooped log message at " ++ clock.toFormattedString ++ chars ", " ++ numeral 10 larger ++
    chars " larger buffer\n").take 255

/-- The call on `output` that the next step of `threadFunc` makes. -/
def outputCall (s : AsyncLogging) (turn : Turn) : Option (LogFile.Step UInt8) :=
  match s.phase with
  | .swapped =>
    if 25 < s.buffersToWrite.length then
      some (.append (droppedMessage turn.clock (s.buffersToWrite.length - 2)) turn.w turn.retries turn.now turn.now')
    else none
  | .write i =>
    match s.buffersToWrite[i]? with
    | some p => some (.append (s.heap p).data turn.w turn.retries turn.now turn.now')
    | none => some .flush
  | .test => if s.running then none else some .flush
  | .starting | .started | .enter | .waiting | .finished => none

/-- The back end does not roll the file itself. -/
theorem outputCall_opens {s : AsyncLogging} {turn : Turn} {call : LogFile.Step UInt8} (h : call ∈ s.outputCall turn)
    (output : LogFile UInt8) : output.Opens call := by
  cases call with
  | append line w retries now now' => trivial
  | flush => trivial
  | rollFile now isRoll =>
    unfold outputCall at h
    cases hp : s.phase with
    | swapped => simp [hp] at h
    | write i => cases hi : s.buffersToWrite[i]? <;> simp [hp, hi] at h
    | test => simp [hp] at h
    | starting => simp [hp] at h
    | started => simp [hp] at h
    | enter => simp [hp] at h
    | waiting => simp [hp] at h
    | finished => simp [hp] at h

end AsyncLogging

structure LogPipeline where
  async : AsyncLogging := {}
  rollSize : ℤ
  -- the disk before `output` is built
  disk : LogDisk UInt8
  output : Option (LogFile UInt8) := none
  -- record: what the clock has shown to `output`
  clock : List ℤ := []

namespace LogPipeline

section Model

variable [Build]

def threadFunc (s : LogPipeline) (turn : Turn) : Exec LogPipeline := do
  let async ← s.async.threadFunc
  if s.async.phase = .started then
    -- `LogFile output(basename_, rollSize_, false)`
    .ok { s with async, output := some (.create s.disk s.rollSize 3 1024 turn.now), clock := [turn.now] }
  else
    match s.async.outputCall turn with
    | none => .ok { s with async }
    | some call =>
      match s.output with
      | none => .error .undefined
      | some output => do
        let output ← output.step call
        .ok { s with async, output, clock := s.clock ++ LogFile.readings [call] }

inductive Step
  | append (logline : Line)
  | threadFunc (turn : Turn)
  | stop
  | join

def step (s : LogPipeline) : Step → Exec LogPipeline
  | .append logline => do .ok { s with async := ← s.async.append logline }
  | .threadFunc turn => s.threadFunc turn
  | .stop => do .ok { s with async := ← s.async.step .stop }
  | .join => do .ok { s with async := ← s.async.step .join }

end Model

/-- The clock is past the epoch when the file is opened; no write fails, and no roll finds the name it needs taken. -/
def Enabled (s : LogPipeline) : Step → Prop
  | .append logline => s.async.Enabled (.append logline)
  | .threadFunc turn =>
    s.async.Enabled .threadFunc ∧ (s.async.phase = .started → 0 < turn.now) ∧
      ∀ output ∈ s.output, ∀ call ∈ s.async.outputCall turn, output.RollsFree call
  | .stop => s.async.Enabled .stop
  | .join => s.async.Enabled .join

instance (s : LogPipeline) : (i : Step) → Decidable (s.Enabled i)
  | .append logline => inferInstanceAs (Decidable (s.async.Enabled (.append logline)))
  | .threadFunc _ => inferInstanceAs (Decidable (_ ∧ _ ∧ _))
  | .stop => inferInstanceAs (Decidable (s.async.Enabled .stop))
  | .join => inferInstanceAs (Decidable (s.async.Enabled .join))

end LogPipeline

namespace AsyncLogging

/-- What the back end is to write of the buffers that one swap hands over, each with its lines. -/
def plan (batch : List (List Line)) : List OutputCall :=
  if 25 < batch.length then .notice (batch.length - 2) :: (batch.take 2).map fun b => .data b.flatten
  else batch.map fun b => .data b.flatten

def contents (heap : BufferHeap) (ps : List ℕ) : List (List Line) := ps.map fun p => (heap p).pieces

/-- The part of the plan that is still ahead. -/
def owed (s : AsyncLogging) : List OutputCall :=
  match s.phase with
  | .swapped => plan (contents s.heap s.buffersToWrite)
  | .write i => (s.buffersToWrite.drop i).map fun p => .data (s.heap p).data
  | .starting | .started | .test | .enter | .waiting | .finished => []

/-- The batches hold the lines taken over, and `output` is called as they are planned. -/
structure Batched (batches : List (List (List Line))) (s : AsyncLogging) : Prop where
  lines : batches.flatten.flatten = s.takenOver
  calls : s.output ++ s.owed = batches.flatMap plan

section Batches

variable {s t : AsyncLogging} {batches : List (List (List Line))}

theorem flatten_contents (heap : BufferHeap) (ps : List ℕ) : (contents heap ps).flatten = linesIn heap ps := by
  simp [contents, linesIn, List.flatMap_def]

/-- The front end leaves alone what the back end has taken over. -/
theorem append_backEnd (hr : Rotating s) {logline : Line} (hs : s.append logline = .ok t) :
    t.phase = s.phase ∧ t.running = s.running ∧ t.output = s.output ∧ t.buffersToWrite = s.buffersToWrite ∧
      ∀ p ∈ s.buffersToWrite, t.heap p = s.heap p := by
  obtain ⟨p, hp, ⟨-, rfl⟩ | ⟨-, next, b, allocated, hn, rfl⟩⟩ := append_inv hs
  · refine ⟨rfl, rfl, rfl, rfl, fun r hin => Function.update_of_ne ?_ ..⟩
    rintro rfl
    exact hr.current_elsewhere hp (List.mem_append_right _ hin)
  · refine ⟨rfl, rfl, rfl, rfl, fun r hin => Function.update_of_ne ?_ ..⟩
    rintro rfl
    exact (hr.spare_elsewhere hn).1 (List.mem_append_right _ hin)

theorem append_ok {p : ℕ} (hp : s.currentBuffer = some p) (logline : Line) : ∃ t, s.append logline = .ok t := by
  unfold AsyncLogging.append
  rw [hp, get, ok_bind]
  dsimp only
  split_ifs
  · exact ⟨_, rfl⟩
  · cases s.nextBuffer with
    | none => exact ⟨_, rfl⟩
    | some next => exact ⟨_, rfl⟩

theorem owed_congr (hp : t.phase = s.phase) (hw : t.buffersToWrite = s.buffersToWrite)
    (hheap : ∀ p ∈ s.buffersToWrite, t.heap p = s.heap p) : t.owed = s.owed := by
  unfold owed
  rw [hp, hw]
  cases s.phase with
  | swapped =>
    dsimp only [contents]
    congr 1
    exact List.map_congr_left fun p hin => by rw [hheap p hin]
  | write i => exact List.map_congr_left fun p hin => by rw [hheap p (List.mem_of_mem_drop hin)]
  | _ => rfl

theorem Batched.append (h : Batched batches s) (hr : Rotating s) {logline : Line} (hs : s.append logline = .ok t) :
    Batched batches t := by
  obtain ⟨hp, -, ho, hw, hheap⟩ := append_backEnd hr hs
  refine ⟨h.lines.trans (append_takenOver hr hs).symm, ?_⟩
  rw [ho, owed_congr hp hw hheap, h.calls]

theorem plan_overload (heap : BufferHeap) (ps : List ℕ) {keep : ℕ} (hkeep : keep = if 25 < ps.length then 2 else ps.length) :
    plan (contents heap ps) = (if 25 < ps.length then [.notice (ps.length - 2)] else []) ++
      (ps.take keep).map fun p => .data (heap p).data := by
  simp only [plan, contents, List.length_map, hkeep]
  split_ifs with hmany
  · simp [List.map_take, FixedBuffer.data, Function.comp_def]
  · simp [FixedBuffer.data, Function.comp_def]

variable [Build]

/-- A swap makes a new batch; every other step only goes on with the plan. -/
theorem Batched.threadFunc (h : Batched batches s) (hr : Rotating s) (ho : InOrder s) (hs : ThreadStep s t) :
    ∃ batches', Batched batches' t := by
  obtain ⟨-, -, -, htaken⟩ := thread_takenOver hr ho hs
  have hc := h.calls
  unfold owed at hc
  have hsame (hnot : ¬(s.phase = .enter ∨ s.phase = .waiting)) : batches.flatten.flatten = t.takenOver := by
    rcases htaken with ⟨hsame, -⟩ | ⟨hp, -⟩
    · exact h.lines.trans hsame.symm
    · exact absurd hp hnot
  cases hs with
  | start hp =>
    rw [hp] at hc
    exact ⟨batches, hsame (by simp [hp]), hc⟩
  | allocate hp =>
    rw [hp] at hc
    exact ⟨batches, hsame (by simp [hp]), hc⟩
  | again hp =>
    rw [hp] at hc
    exact ⟨batches, hsame (by simp [hp]), hc⟩
  | leave hp =>
    rw [hp] at hc
    exact ⟨batches, hsame (by simp [hp]), hc⟩
  | wait hp hb =>
    rw [hp] at hc
    refine ⟨batches, ?_, hc⟩
    rw [h.lines, takenOver, takenOver, hp]
    rfl
  | swap hp hs =>
    obtain ⟨p, hcur, rfl⟩ := swap_inv hs
    have howed : s.output = batches.flatMap plan := by
      rcases hp with hp | hp <;> simpa [hp] using hc
    have hall : s.appended = s.takenOver ++ linesIn s.heap (s.buffers ++ [p]) := by
      rw [ho.appended_eq, hcur, linesIn_append]
      rfl
    refine ⟨batches ++ [contents s.heap (s.buffers ++ [p])], ?_, ?_⟩
    · rw [List.flatten_append, List.flatten_append, List.flatten_singleton, flatten_contents, h.lines, ← hall]
      rcases htaken with ⟨-, hwait, hnot⟩ | ⟨-, hall'⟩
      · rcases hp with hp | hp
        · exact absurd (hwait hp) (by simp)
        · exact absurd hp hnot
      · exact hall'.symm
    · rw [List.flatMap_append, ← howed]
      simp [owed]
  | overload hp keep hkeep =>
    rw [hp] at hc
    dsimp only at hc
    rw [plan_overload _ _ hkeep] at hc
    refine ⟨batches, hsame (by simp [hp]), ?_⟩
    simpa only [owed, List.drop_zero, List.append_assoc] using hc
  | write i p hp hi =>
    rw [hp] at hc
    dsimp only at hc
    obtain ⟨hlt, hget⟩ := List.getElem?_eq_some_iff.mp hi
    have hdrop : s.buffersToWrite.drop i = p :: s.buffersToWrite.drop (i + 1) := by
      rw [List.drop_eq_getElem_cons hlt, hget]
    rw [hdrop] at hc
    refine ⟨batches, hsame (by simp [hp]), ?_⟩
    simpa only [owed, List.map_cons, List.append_assoc, List.singleton_append] using hc
  | recycle i hp hi hs =>
    rw [hp] at hc
    dsimp only at hc
    have hdrop : s.buffersToWrite.drop i = [] := List.drop_eq_nil_iff.mpr (List.getElem?_eq_none_iff.mp hi)
    rw [hdrop] at hc
    have hlines := hsame (by simp [hp])
    obtain ⟨heap, n₁, n₂, rfl, -⟩ := recycle_frame hs
    exact ⟨batches, hlines, hc⟩

end Batches

/-- The text passed to `output` in a call. -/
def Says : OutputCall → Line → Prop
  | .notice larger, text => ∃ clock, text = droppedMessage clock larger
  | .data bytes, text => text = bytes

/-- The back end is not between a swap and the flush after it. -/
def Resting (s : AsyncLogging) : Prop :=
  s.phase = .test ∨ s.phase = .enter ∨ s.phase = .waiting ∨ s.phase = .finished

theorem Resting.owed {s : AsyncLogging} (h : s.Resting) : s.owed = [] := by
  unfold AsyncLogging.owed
  rcases h with h | h | h | h <;> rw [h]

/-- `output` has been built. -/
def Opened (s : AsyncLogging) : Prop := s.phase ≠ .starting ∧ s.phase ≠ .started

/-- What every run of `AsyncLogging` keeps. -/
structure Ordered (s : AsyncLogging) : Prop where
  rotating : Rotating s
  inOrder : InOrder s
  running : s.phase = .starting → s.running = true
  batched : ∃ batches, Batched batches s

theorem Ordered.append {s t : AsyncLogging} (h : Ordered s) {logline : Line} (hlen : logline.length < kLargeBuffer)
    (hs : s.append logline = .ok t) : Ordered t := by
  obtain ⟨batches, hb⟩ := h.batched
  obtain ⟨hp, hr, -⟩ := append_backEnd h.rotating hs
  exact ⟨h.rotating.append hlen hs, h.inOrder.append h.rotating hlen hs, hp.symm ▸ hr.symm ▸ h.running, batches,
    hb.append h.rotating hs⟩

variable [Build]

theorem ThreadStep.opened {s t : AsyncLogging} (hs : ThreadStep s t) :
    (s.Opened ∧ t.Opened) ∨ (s.phase = .starting ∧ t.phase = .started ∧ t.output = s.output) ∨
      (s.phase = .started ∧ t.phase = .test ∧ t.output = s.output) := by
  unfold Opened
  cases hs with
  | swap hp hs =>
    obtain ⟨p, -, rfl⟩ := swap_inv hs
    rcases hp with hp | hp <;> simp [hp]
  | recycle i hp hi hs =>
    obtain ⟨heap, n₁, n₂, rfl, -⟩ := recycle_frame hs
    simp [hp]
  | start hp => simp [hp]
  | allocate hp => simp [hp]
  | again hp => simp [hp]
  | leave hp => simp [hp]
  | wait hp => simp [hp]
  | overload hp => simp [hp]
  | write i p hp => simp [hp]

theorem Ordered.threadFunc {s t : AsyncLogging} (h : Ordered s) (hs : ThreadStep s t) : Ordered t := by
  obtain ⟨batches, hb⟩ := h.batched
  refine ⟨h.rotating.threadFunc hs, h.inOrder.threadFunc h.rotating hs, fun hp => ?_,
    hb.threadFunc h.rotating h.inOrder hs⟩
  rcases hs.opened with ⟨-, ht⟩ | ⟨-, ht, -⟩ | ⟨-, ht, -⟩
  · exact absurd hp ht.1
  · exact absurd (ht.symm.trans hp) (by decide)
  · exact absurd (ht.symm.trans hp) (by decide)

/-- The call on `output` that is made is the one that is recorded, and one before every rest is a flush. -/
theorem ThreadStep.outputCall {s t : AsyncLogging} (hs : ThreadStep s t) (hne : s.phase ≠ .started) (turn : Turn) :
    (∃ calls texts, t.output = s.output ++ calls ∧ List.Forall₂ Says calls texts ∧
      LogFile.appended (s.outputCall turn).toList = texts.flatten) ∧
      (t.Resting → s.Resting ∧ s.outputCall turn = none ∨ s.outputCall turn = some .flush) := by
  have hquiet (ht : t.output = s.output) (hcall : LogFile.appended (s.outputCall turn).toList = []) :
      ∃ calls texts, t.output = s.output ++ calls ∧ List.Forall₂ Says calls texts ∧
        LogFile.appended (s.outputCall turn).toList = texts.flatten :=
    ⟨[], [], by rw [ht, List.append_nil], .nil, hcall⟩
  cases hs with
  | start hp => exact ⟨hquiet rfl (by simp [AsyncLogging.outputCall, hp, LogFile.appended]), by simp [Resting]⟩
  | allocate hp => exact absurd hp hne
  | again hp hr =>
    have hnone : s.outputCall turn = none := by simp [AsyncLogging.outputCall, hp, hr]
    exact ⟨hquiet rfl (by rw [hnone]; rfl), fun _ => Or.inl ⟨Or.inl hp, hnone⟩⟩
  | leave hp hr =>
    have hflush : s.outputCall turn = some .flush := by simp [AsyncLogging.outputCall, hp, hr]
    exact ⟨hquiet rfl (by rw [hflush]; rfl), fun _ => Or.inr hflush⟩
  | wait hp =>
    have hnone : s.outputCall turn = none := by simp [AsyncLogging.outputCall, hp]
    exact ⟨hquiet rfl (by rw [hnone]; rfl), fun _ => Or.inl ⟨Or.inr (Or.inl hp), hnone⟩⟩
  | swap hp hs =>
    obtain ⟨p, -, rfl⟩ := swap_inv hs
    refine ⟨hquiet rfl ?_, by simp [Resting]⟩
    rcases hp with hp | hp <;> simp [AsyncLogging.outputCall, hp, LogFile.appended]
  | overload hp keep =>
    refine ⟨?_, by simp [Resting]⟩
    by_cases hmany : 25 < s.buffersToWrite.length
    · refine ⟨[.notice (s.buffersToWrite.length - 2)], [droppedMessage turn.clock (s.buffersToWrite.length - 2)], ?_,
        .cons ⟨_, rfl⟩ .nil, ?_⟩
      · rw [if_pos hmany]
      · simp [AsyncLogging.outputCall, hp, hmany, LogFile.appended]
    · refine ⟨[], [], ?_, .nil, ?_⟩
      · rw [if_neg hmany]
      · simp [AsyncLogging.outputCall, hp, hmany, LogFile.appended]
  | write i p hp hi =>
    refine ⟨⟨[.data (s.heap p).data], [(s.heap p).data], rfl, .cons rfl .nil, ?_⟩, by simp [Resting]⟩
    simp [AsyncLogging.outputCall, hp, hi, LogFile.appended]
  | recycle i hp hi hs =>
    have hflush : s.outputCall turn = some .flush := by simp [AsyncLogging.outputCall, hp, hi]
    obtain ⟨heap, n₁, n₂, rfl, -⟩ := recycle_frame hs
    exact ⟨hquiet rfl (by rw [hflush]; rfl), fun _ => Or.inr hflush⟩

end AsyncLogging

namespace LogFile

theorem flush_buffered {α : Type} {s t : LogFile α} (h : s.flush = .ok t) : t.buffered = [] := by
  unfold flush at h
  split at h
  · cases h
  · cases h
    rfl

theorem create_buffered {α : Type} (disk : LogDisk α) (rollSize flushInterval checkEveryN : ℤ) {now : ℤ} (h : 0 < now) :
    (create disk rollSize flushInterval checkEveryN now).buffered = [] := by
  obtain ⟨hf, -⟩ := rollFile_opens (s := { rollSize, flushInterval, checkEveryN, disk }) h false
  rw [buffered, create, hf]
  rfl

end LogFile

namespace LogPipeline

open AsyncLogging

/-- What was passed to `output` is in the log file, and while the back end rests nothing waits in its buffer. -/
def Writes (s : LogPipeline) : Prop :=
  ∃ output texts, s.output = some output ∧ List.Forall₂ Says s.async.output texts ∧
    LogFile.Logging s.disk s.clock texts.flatten output ∧ (s.async.Resting → output.buffered = [])

/-- The invariant: the file takes what the back end has passed on, once there is a file. -/
structure Carried (s : LogPipeline) : Prop where
  ordered : Ordered s.async
  unopened : ¬s.async.Opened → s.async.output = []
  opened : s.async.Opened → s.Writes

section Runs

variable {s : LogPipeline}

theorem Carried.initial (rollSize : ℤ) (disk : LogDisk UInt8) : Carried { rollSize, disk } :=
  ⟨⟨initial_sound.1, initial_sound.2, fun _ => rfl, [], rfl, rfl⟩, fun _ => rfl, fun h => absurd rfl h.1⟩

/-- The front end leaves the file alone. -/
theorem Carried.front (h : Carried s) {async : AsyncLogging} (ho : Ordered async) (hp : async.phase = s.async.phase)
    (hout : async.output = s.async.output) : Carried { s with async } := by
  refine ⟨ho, fun hn => ?_, fun hn => ?_⟩
  · have hnot : ¬s.async.Opened := by
      unfold Opened at hn ⊢
      rwa [hp] at hn
    exact hout.trans (h.unopened hnot)
  · have hopen : s.async.Opened := by
      unfold Opened at hn ⊢
      rwa [hp] at hn
    obtain ⟨output, texts, hs, hsays, hlog, hrest⟩ := h.opened hopen
    refine ⟨output, texts, hs, hout ▸ hsays, hlog, fun hr => hrest ?_⟩
    unfold Resting at hr ⊢
    rwa [hp] at hr

variable [Build]

/-- The file side of a step of the back end once the file is open. -/
theorem Writes.threadFunc (h : s.Writes) {turn : Turn} {async : AsyncLogging}
    (hfree : ∀ output ∈ s.output, ∀ call ∈ s.async.outputCall turn, output.RollsFree call)
    (hne : s.async.phase ≠ .started) (hok : s.async.threadFunc = .ok async) (hs : ThreadStep s.async async) :
    ∃ t, s.threadFunc turn = .ok t ∧ t.async = async ∧ t.disk = s.disk ∧ t.Writes := by
  obtain ⟨output, texts, ho, hsays, hlog, hrest⟩ := h
  obtain ⟨⟨calls, more, hcalls, hmore, hbytes⟩, hflush⟩ := hs.outputCall hne turn
  have hsays' : List.Forall₂ Says async.output (texts ++ more) := by
    rw [hcalls]
    exact List.rel_append hsays hmore
  unfold LogPipeline.threadFunc
  rw [hok, ok_bind, if_neg hne]
  cases hcall : s.async.outputCall turn with
  | none =>
    rw [hcall] at hbytes hflush
    refine ⟨_, rfl, rfl, rfl, output, texts ++ more, ho, hsays', ?_, fun hr => hrest ?_⟩
    · rw [List.flatten_append, ← hbytes]
      simpa [LogFile.appended] using hlog
    · exact ((hflush hr).resolve_right (by simp)).1
  | some call =>
    rw [hcall] at hbytes hflush
    obtain ⟨output', hout', hlog'⟩ := LogFile.step_logging hlog (hfree output ho call hcall)
      (AsyncLogging.outputCall_opens hcall output)
    refine ⟨{ s with async, output := output', clock := s.clock ++ LogFile.readings [call] }, ?_, rfl, rfl, output',
      texts ++ more, rfl, hsays', ?_, fun hr => ?_⟩
    · rw [ho]
      dsimp only
      rw [hout', ok_bind]
    · rw [List.flatten_append, ← hbytes]
      exact hlog'
    · rcases hflush hr with ⟨-, hnone⟩ | hcall'
      · cases hnone
      · cases hcall'
        exact LogFile.flush_buffered hout'

theorem Carried.threadFunc (h : Carried s) {turn : Turn} (he : s.Enabled (.threadFunc turn)) :
    ∃ t, s.threadFunc turn = .ok t ∧ Carried t ∧ t.disk = s.disk := by
  obtain ⟨hphase, hnow, hfree⟩ := he
  obtain ⟨async, hok⟩ := h.ordered.rotating.threadFunc_ok h.ordered.running
  have hs := threadFunc_inv hok hphase
  have hordered := h.ordered.threadFunc hs
  rcases hs.opened with ⟨hopen, hopen'⟩ | ⟨hp, hp', ho⟩ | ⟨hp, hp', ho⟩
  · obtain ⟨t, ht, rfl, hd, hw⟩ := (h.opened hopen).threadFunc hfree hopen.2 hok hs
    exact ⟨t, ht, ⟨hordered, fun hn => absurd hopen' hn, fun _ => hw⟩, hd⟩
  · have hquiet : s.async.outputCall turn = none := by simp [outputCall, hp]
    have hnot : ¬s.async.Opened := fun hn => hn.1 hp
    refine ⟨{ s with async }, ?_, ⟨hordered, fun _ => ho.trans (h.unopened hnot), fun hn => absurd hp' hn.2⟩, rfl⟩
    rw [LogPipeline.threadFunc, hok, ok_bind, if_neg (by simp [hp]), hquiet]
  · have hlog := LogFile.create_logging s.disk s.rollSize 3 1024 (hnow hp)
    have hnot : ¬s.async.Opened := fun hn => hn.2 hp
    refine ⟨{ s with
        async
        output := some (.create s.disk s.rollSize 3 1024 turn.now)
        clock := [turn.now] }, ?_,
      ⟨hordered, fun hn => absurd ⟨by simp [hp'], by simp [hp']⟩ hn, fun _ => ?_⟩, rfl⟩
    · rw [LogPipeline.threadFunc, hok, ok_bind, if_pos hp]
    · refine ⟨_, [], rfl, ?_, hlog, fun _ => ?_⟩
      · rw [ho, h.unopened hnot]
        exact .nil
      · exact LogFile.create_buffered s.disk s.rollSize 3 1024 (hnow hp)

theorem Carried.step (h : Carried s) {i : Step} (he : s.Enabled i) : ∃ t, s.step i = .ok t ∧ Carried t ∧ t.disk = s.disk := by
  cases i with
  | append logline =>
    obtain ⟨p, hcur⟩ := h.ordered.rotating.current
    obtain ⟨async, hok⟩ := append_ok hcur logline
    obtain ⟨hp, -, hout, -⟩ := append_backEnd h.ordered.rotating hok
    refine ⟨{ s with async }, ?_, h.front (h.ordered.append he hok) hp hout, rfl⟩
    rw [LogPipeline.step, hok, ok_bind]
  | threadFunc turn => exact h.threadFunc he
  | stop =>
    obtain ⟨batches, hb⟩ := h.ordered.batched
    exact ⟨_, rfl, h.front ⟨{ h.ordered.rotating with }, { h.ordered.inOrder with }, fun hp => absurd hp he.1, batches,
      { hb with }⟩ rfl rfl, rfl⟩
  | join =>
    obtain ⟨batches, hb⟩ := h.ordered.batched
    exact ⟨_, rfl, h.front ⟨{ h.ordered.rotating with }, { h.ordered.inOrder with }, h.ordered.running, batches,
      { hb with }⟩ rfl rfl, rfl⟩

/-- Every line goes to disk with its batch. In an overloaded batch a notice with the number of
buffers dropped stands before the two that are kept. -/
theorem log_reaches_disk (rollSize : ℤ) (disk : LogDisk UInt8) {steps : List Step}
    (h : Path step Enabled { rollSize, disk } steps s) :
    (∃ batches : List (List (List Line)),
      s.async.appended = batches.flatten.flatten ++
        (linesIn s.async.heap s.async.buffers ++ linesIn s.async.heap s.async.currentBuffer.toList) ∧
      s.async.output ++ s.async.owed = batches.flatMap plan ∧
      (s.async.Opened → ∃ output texts, s.output = some output ∧ List.Forall₂ Says s.async.output texts ∧
        LogFile.Kept disk s.clock texts.flatten output ∧ (s.async.Resting → s.async.owed = [] ∧ output.buffered = []))) ∧
      ∀ i, s.Enabled i → ∃ t, s.step i = .ok t := by
  obtain ⟨hc, hdisk⟩ : Carried s ∧ s.disk = disk := by
    refine h.invariant (P := fun u => Carried u ∧ u.disk = disk) ⟨.initial rollSize disk, rfl⟩ ?_
    intro u i v hu he hv
    obtain ⟨w, hw, hcarried, hd⟩ := hu.1.step he
    cases hw.symm.trans hv
    exact ⟨hcarried, hd.trans hu.2⟩
  obtain ⟨batches, hb⟩ := hc.ordered.batched
  refine ⟨⟨batches, ?_, hb.calls, fun hopen => ?_⟩, fun i hi => ?_⟩
  · rw [hc.ordered.inOrder.appended_eq, hb.lines]
  · obtain ⟨output, texts, ho, hsays, ⟨f, hf, hspread⟩, hrest⟩ := hc.opened hopen
    exact ⟨output, texts, ho, hsays, hdisk ▸ hspread.kept hf, fun hr => ⟨hr.owed, hrest hr⟩⟩
  · obtain ⟨t, ht, -⟩ := hc.step hi
    exact ⟨t, ht⟩

end Runs

def firstTurn : Turn where
  now := 86400
  now' := 86400
  clock := ⟨86400000000, { mday := 2, year := 70 }, by decide, by decide⟩
  w := ⟨3, 1⟩
  retries := []

-- `fwrite` holds back two of the three bytes until the flush; the last line stays in `currentBuffer_`
theorem log_reaches_disk_flushed :
    letI := Build.debug
    ∃ s output, Path step Enabled { rollSize := 100, disk := Disk.empty }
        ([.append [1]] ++ List.replicate 4 (.threadFunc firstTurn) ++ [.append [2, 3]] ++
          List.replicate 2 (.threadFunc firstTurn) ++ [.append [4]] ++ List.replicate 2 (.threadFunc firstTurn)) s ∧
      s.async.phase = .test ∧ s.output = some output ∧ LogFile.Kept Disk.empty s.clock [1, 2, 3] output ∧
      output.buffered = [] := by
  let _ := Build.debug
  obtain ⟨s, hs, hp⟩ := Path.exists_of_any step Enabled { rollSize := 100, disk := Disk.empty }
    ([.append [1]] ++ List.replicate 4 (.threadFunc firstTurn) ++ [.append [2, 3]] ++
      List.replicate 2 (.threadFunc firstTurn) ++ [.append [4]] ++ List.replicate 2 (.threadFunc firstTurn))
    (fun s => decide (s.async.phase = .test ∧ s.async.output = [.data [1, 2, 3]])) (by decide +kernel)
  obtain ⟨hphase, hout⟩ := of_decide_eq_true hp
  have hopen : s.async.Opened := ⟨by simp [hphase], by simp [hphase]⟩
  obtain ⟨⟨batches, -, -, hwritten⟩, -⟩ := log_reaches_disk 100 Disk.empty hs
  obtain ⟨output, texts, ho, hsays, hkept, hrest⟩ := hwritten hopen
  have htexts : texts = [[1, 2, 3]] := by
    rw [hout] at hsays
    obtain ⟨text, rest, htext, hnil, rfl⟩ := List.forall₂_cons_left_iff.mp hsays
    cases List.forall₂_nil_left_iff.mp hnil
    rw [show text = [1, 2, 3] from htext]
  rw [htexts] at hkept
  exact ⟨s, output, hs, hphase, ho, hkept, (hrest (Or.inl hphase)).2⟩

end LogPipeline

end Networker
