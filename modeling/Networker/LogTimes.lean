import Networker.LocalTime
import Networker.LogStreamInsertions

/-!
The date and time in front of every log record, in `base/Logging.cpp`. A thread keeps the text of
the second it has formatted last; the time zone is shared and can be set at any time.
-/

namespace Networker

open CheckedRuns DigitStrings

/-- The conversion `%4d`, and other widths. -/
def spacePadded (width : ℕ) (v : ℤ) : Line :=
  List.replicate (width - (decimalText v).length) ' '.toUInt8 ++ decimalText v

/-- The conversion `%02d`, and other widths. -/
def zeroPadded (width : ℕ) (v : ℤ) : Line :=
  sign v ++ List.replicate (width - (decimalText v).length) '0'.toUInt8 ++ numeral 10 v.natAbs

def kMicroSecondsPerSecond : ℤ := 1000 * 1000

def secondOf (microSecondsSinceEpoch : ℤ) : ℤ := microSecondsSinceEpoch.tdiv kMicroSecondsPerSecond

/-- `t_time` and `t_lastSecond` of one thread, and the time zone that all threads share. -/
structure LogClock where
  t_time : Line := []
  t_lastSecond : ℤ := 0
  g_logTimeZone : TimeZone := {}
deriving DecidableEq

section Formatting

variable [Build]

/-- The helper class `T`, as it is inserted into a stream. Behind the NUL of `str` anything may stand. -/
def T.piece (str : Line) (len : ℕ) : Exec Insertion := do
  assert (str.length = len)
  if len ≤ str.length then return .append (str.take len) else .error .undefined

/-- The constructor of `Fmt`, whose buffer has 32 bytes. -/
def Fmt.format (text : Line) : Exec Line := do
  assert (text.length < 32)
  return text.take 31

/-- `gmtime_r` writes nothing if it fails. -/
def utcFields (c : TimeLibrary) (seconds : ℤ) : Exec Tm :=
  match c.gmtime_r seconds with
  | some tm => .ok tm
  | none => .error .undefined

/-- `%4d%02d%02d %02d:%02d:%02d`, printed into the 64 bytes of `t_time`. -/
def dateTime (c : TimeLibrary) (zone : TimeZone) (seconds : ℤ) : Exec Line := do
  let tm_time ← if zone.valid then zone.toLocalTime c seconds else utcFields c seconds
  let year ← int32 (tm_time.year + 1900)
  let mon ← int32 (tm_time.mon + 1)
  let text := spacePadded 4 year ++ zeroPadded 2 mon ++ zeroPadded 2 tm_time.mday ++ chars " " ++
    zeroPadded 2 tm_time.hour ++ chars ":" ++ zeroPadded 2 tm_time.min ++ chars ":" ++ zeroPadded 2 tm_time.sec
  assert (text.length = 17)
  return text.take 63

def LogClock.refresh (c : TimeLibrary) (s : LogClock) (seconds : ℤ) : Exec LogClock :=
  if seconds ≠ s.t_lastSecond then do
    return { s with t_lastSecond := seconds, t_time := ← dateTime c s.g_logTimeZone seconds }
  else .ok s

/-- The text of the microseconds ends with a `Z` for UTC. -/
def microText (zone : TimeZone) (microseconds : ℤ) : Line :=
  chars "." ++ zeroPadded 6 microseconds ++ chars (if zone.valid then " " else "Z ")

def microLength (zone : TimeZone) : ℕ := if zone.valid then 8 else 9

/-- Leaves what the thread remembers and what it inserts in front of the record. -/
def formatTime (c : TimeLibrary) (s : LogClock) (microSecondsSinceEpoch : ℤ) : Exec (LogClock × List Insertion) := do
  let seconds := microSecondsSinceEpoch.tdiv kMicroSecondsPerSecond
  let microseconds := castInt32 (microSecondsSinceEpoch.tmod kMicroSecondsPerSecond)
  let s ← s.refresh c seconds
  let us ← Fmt.format (microText s.g_logTimeZone microseconds)
  assert (us.length = microLength s.g_logTimeZone)
  let date ← T.piece s.t_time 17
  let micro ← T.piece us (microLength s.g_logTimeZone)
  return (s, [date, micro])

inductive LogEvent
  | record (microSecondsSinceEpoch : ℤ)
  | setTimeZone (tz : TimeZone)

def LogClock.step (c : TimeLibrary) (s : LogClock) : LogEvent → Exec LogClock
  | .record microSecondsSinceEpoch => do
    let out ← formatTime c s microSecondsSinceEpoch
    return out.1
  | .setTimeZone tz => .ok { s with g_logTimeZone := tz }

def shownDate (c : TimeLibrary) (zone : TimeZone) (seconds : ℤ) : Exec Insertion := do
  T.piece (← dateTime c zone seconds) 17

end Formatting

/-- What a run has done so far: the time zone that is set, and the second of the last record with the
time zone at that moment. -/
structure LogHistory where
  zone : TimeZone := {}
  last : Option (ℤ × TimeZone) := none

def LogHistory.next (h : LogHistory) : LogEvent → LogHistory
  | .record microSecondsSinceEpoch =>
    { h with last := some (secondOf microSecondsSinceEpoch, h.zone) }
  | .setTimeZone tz => { h with zone := tz }

def LogHistory.of (es : List LogEvent) : LogHistory := es.foldl LogHistory.next {}

theorem LogHistory.of_concat (es : List LogEvent) (e : LogEvent) : LogHistory.of (es ++ [e]) = (LogHistory.of es).next e := by
  rw [LogHistory.of, List.foldl_append]
  rfl

theorem zeroPadded_length {width : ℕ} {v : ℤ} (hw : 0 < width) (hv : 0 ≤ v ∧ v < 10 ^ width) :
    (zeroPadded width v).length = width := by
  have hdigits : (numeral 10 v.natAbs).length ≤ width := by
    apply numeral_length (by decide) hw
    have hpow : ((10 ^ width : ℕ) : ℤ) = 10 ^ width := Int.natCast_pow 10 width
    omega
  have hsign : sign v = [] := if_neg (by omega)
  unfold zeroPadded decimalText
  rw [hsign, List.nil_append, List.nil_append, List.length_append, List.length_replicate]
  omega

section Coherence

variable [Build] {c : TimeLibrary} {s : LogClock} {time : ℤ}

def microPiece (zone : TimeZone) (time : ℤ) : Insertion := .append (microText zone (time.tmod kMicroSecondsPerSecond))

/-- Only the date can go wrong. -/
theorem formatTime_eq (c : TimeLibrary) (s : LogClock) (h : 0 ≤ time) :
    formatTime c s time = (do
      let s ← s.refresh c (secondOf time)
      let date ← T.piece s.t_time 17
      return (s, [date, microPiece s.g_logTimeZone time])) := by
  have hmod : 0 ≤ time.tmod kMicroSecondsPerSecond ∧ time.tmod kMicroSecondsPerSecond < 10 ^ 6 := by
    unfold kMicroSecondsPerSecond
    exact ⟨Int.tmod_nonneg _ h, Int.tmod_lt_of_pos _ (by decide)⟩
  have hlen (zone : TimeZone) :
      (microText zone (time.tmod kMicroSecondsPerSecond)).length = microLength zone := by
    have hpad : (zeroPadded 6 (time.tmod kMicroSecondsPerSecond)).length = 6 := zeroPadded_length (by decide) hmod
    unfold microText microLength
    split <;> rw [List.length_append, List.length_append, hpad] <;> rfl
  have hsmall (zone : TimeZone) : microLength zone ≤ 9 := by
    unfold microLength
    split <;> decide
  have hfmt (zone : TimeZone) : Fmt.format (microText zone (time.tmod kMicroSecondsPerSecond)) =
      .ok (microText zone (time.tmod kMicroSecondsPerSecond)) := by
    have hle := hsmall zone
    unfold Fmt.format
    rw [assert_pos (by rw [hlen]; omega), ok_bind, List.take_of_length_le (by rw [hlen]; omega)]
    rfl
  have hpiece (zone : TimeZone) : T.piece (microText zone (time.tmod kMicroSecondsPerSecond)) (microLength zone) =
      .ok (microPiece zone time) := by
    unfold T.piece microPiece
    rw [assert_pos (hlen zone), ok_bind, if_pos (by rw [hlen]), List.take_of_length_le (by rw [hlen])]
    rfl
  have hcast : castInt32 (time.tmod kMicroSecondsPerSecond) = time.tmod kMicroSecondsPerSecond := castInt32_eq (by omega)
  unfold formatTime secondOf
  rw [hcast]
  dsimp only
  cases s.refresh c (time.tdiv kMicroSecondsPerSecond) with
  | error e => rfl
  | ok s' =>
    rw [ok_bind, ok_bind, hfmt, ok_bind, assert_pos (hlen _), ok_bind, hpiece]
    rfl

theorem formatTime_hit (h : 0 ≤ time) (hs : secondOf time = s.t_lastSecond) :
    Prod.snd <$> formatTime c s time = (fun date => [date, microPiece s.g_logTimeZone time]) <$> T.piece s.t_time 17 := by
  rw [formatTime_eq c s h, LogClock.refresh, if_neg (fun hne => hne hs), ok_bind]
  cases T.piece s.t_time 17 <;> rfl

theorem formatTime_miss (h : 0 ≤ time) (hs : secondOf time ≠ s.t_lastSecond) :
    Prod.snd <$> formatTime c s time =
      (fun date => [date, microPiece s.g_logTimeZone time]) <$> shownDate c s.g_logTimeZone (secondOf time) := by
  rw [formatTime_eq c s h, LogClock.refresh, if_pos hs, shownDate]
  cases dateTime c s.g_logTimeZone (secondOf time) with
  | error e => rfl
  | ok text =>
    simp only [ok_bind, pure_bind]
    cases T.piece text 17 <;> rfl

omit [Build] in
theorem map_pair_injective {x y : Exec Insertion} {micro : Insertion}
    (h : (fun date => [date, micro]) <$> x = (fun date => [date, micro]) <$> y) : x = y := by
  cases x with
  | error e =>
    cases y with
    | error e' => rw [Except.error.inj h]
    | ok d' => cases h
  | ok d =>
    cases y with
    | error e' => cases h
    | ok d' => rw [(List.cons.inj (Except.ok.inj h)).1]

/-- What is remembered is the last record's second as its time zone shows it. -/
structure Cached (c : TimeLibrary) (h : LogHistory) (s : LogClock) : Prop where
  zone : s.g_logTimeZone = h.zone
  unused : h.last = none → s.t_lastSecond = 0
  shown : ∀ t zone, h.last = some (t, zone) → s.t_lastSecond = t ∧ T.piece s.t_time 17 = shownDate c zone t

/-- The record is written as if nothing had been remembered. -/
def Coherent (c : TimeLibrary) (s : LogClock) (time : ℤ) : Prop :=
  Prod.snd <$> formatTime c s time = Prod.snd <$> formatTime c { g_logTimeZone := s.g_logTimeZone } time

/-- If the record falls into the second of the one before, then the time zones of the two show that second alike. -/
def Agree (c : TimeLibrary) (h : LogHistory) (time : ℤ) : Prop :=
  ∀ t zone, h.last = some (t, zone) → secondOf time = t → shownDate c zone t = shownDate c h.zone t

omit [Build] in
theorem secondOf_pos (h : 1000000 ≤ time) : 0 < secondOf time := by
  unfold secondOf kMicroSecondsPerSecond
  rw [Int.tdiv_eq_ediv_of_nonneg (by omega)]
  omega

theorem Cached.coherent_iff {h : LogHistory} (hc : Cached c h s) (ht : 1000000 ≤ time) : Coherent c s time ↔ Agree c h time := by
  have hpos := secondOf_pos ht
  have hnew : Prod.snd <$> formatTime c { g_logTimeZone := s.g_logTimeZone } time =
      (fun date => [date, microPiece s.g_logTimeZone time]) <$> shownDate c s.g_logTimeZone (secondOf time) :=
    formatTime_miss (s := { g_logTimeZone := s.g_logTimeZone }) (by omega) (Int.ne_of_gt hpos)
  unfold Coherent Agree
  rw [hnew, ← hc.zone]
  by_cases hs : secondOf time = s.t_lastSecond
  · rw [formatTime_hit (by omega) hs]
    cases hlast : h.last with
    | none =>
      have := hc.unused hlast
      omega
    | some last =>
      obtain ⟨hsecond, hshown⟩ := hc.shown last.1 last.2 hlast
      rw [hshown, hs, hsecond]
      constructor
      · rintro heq t zone ⟨⟩ -
        exact map_pair_injective heq
      · intro hagree
        rw [hagree _ _ rfl rfl]
  · rw [formatTime_miss (by omega) hs]
    refine iff_of_true rfl fun t zone hlast heq => ?_
    have := (hc.shown t zone hlast).1
    omega

theorem Cached.setTimeZone {h : LogHistory} (hc : Cached c h s) (tz : TimeZone) :
    Cached c (h.next (.setTimeZone tz)) { s with g_logTimeZone := tz } :=
  ⟨rfl, hc.unused, hc.shown⟩

theorem Cached.record {h : LogHistory} {s' : LogClock} (hc : Cached c h s) (ht : 1000000 ≤ time) (hagree : Agree c h time)
    (hs' : s.step c (.record time) = .ok s') : Cached c (h.next (.record time)) s' := by
  have hpos := secondOf_pos ht
  rw [LogClock.step, formatTime_eq c s (by omega), LogClock.refresh] at hs'
  by_cases hs : secondOf time = s.t_lastSecond
  · rw [if_neg (fun hne => hne hs), ok_bind] at hs'
    obtain ⟨out, hout, hlater⟩ := bind_eq_ok.mp hs'
    obtain ⟨date, -, hpair⟩ := bind_eq_ok.mp hout
    obtain rfl : s = s' := by rw [← Except.ok.inj hlater, ← Except.ok.inj hpair]
    constructor
    case zone => exact hc.zone
    case unused => intro h; cases h
    case shown =>
      rintro t zone ⟨⟩
      cases hprev : h.last with
      | none =>
        have := hc.unused hprev
        omega
      | some last =>
        obtain ⟨hsecond, hshown⟩ := hc.shown last.1 last.2 hprev
        have hsame := hagree last.1 last.2 hprev (by omega)
        rw [hshown, hsame, hs, hsecond]
        exact ⟨rfl, rfl⟩
  · rw [if_pos hs] at hs'
    obtain ⟨out, hout, hlater⟩ := bind_eq_ok.mp hs'
    obtain ⟨s₁, hrefresh, hpiece⟩ := bind_eq_ok.mp hout
    obtain ⟨text, htext, hnew⟩ := bind_eq_ok.mp hrefresh
    obtain ⟨date, -, hpair⟩ := bind_eq_ok.mp hpiece
    obtain rfl : s' = { s with t_lastSecond := secondOf time, t_time := text } := by
      rw [← Except.ok.inj hlater, ← Except.ok.inj hpair, ← Except.ok.inj hnew]
    constructor
    case zone => exact hc.zone
    case unused => intro h; cases h
    case shown =>
      rintro t zone ⟨⟩
      rw [← hc.zone, shownDate, htext, ok_bind]
      exact ⟨rfl, rfl⟩

def AfterEpoch (_ : LogClock) : LogEvent → Prop
  | .record microSecondsSinceEpoch => 1000000 ≤ microSecondsSinceEpoch
  | .setTimeZone _ => True

instance (s : LogClock) (e : LogEvent) : Decidable (AfterEpoch s e) := by
  cases e <;> unfold AfterEpoch <;> infer_instance

theorem run_cached {es : List LogEvent} (h : Path (LogClock.step c) AfterEpoch {} es s)
    (hagree : ∀ pre time post t, es = pre ++ .record time :: post → Path (LogClock.step c) AfterEpoch {} pre t →
      Agree c (LogHistory.of pre) time) : Cached c (LogHistory.of es) s := by
  induction h with
  | nil => exact ⟨rfl, fun _ => rfl, fun t zone h => by cases h⟩
  | @snoc es t u e hp ha hs ih =>
    have hbefore := ih fun pre time post v heq hv =>
      hagree pre time (post ++ [e]) v (by rw [heq, List.append_assoc, List.cons_append]) hv
    rw [LogHistory.of_concat]
    cases e with
    | record time => exact hbefore.record ha (hagree es time [] t rfl hp) hs
    | setTimeZone tz =>
      rw [← Except.ok.inj hs]
      exact hbefore.setTimeZone tz

/-- The remembered text is as good as a new one exactly in the runs in which no record falls into the second
of the one before it while the time zone that was set in between shows that second differently. -/
theorem formatTime_coherent_iff (c : TimeLibrary) (es : List LogEvent) (hes : ∀ time, .record time ∈ es → 1000000 ≤ time) :
    (∀ pre time post s, es = pre ++ .record time :: post → Path (LogClock.step c) AfterEpoch {} pre s → Coherent c s time) ↔
      ∀ pre time post s, es = pre ++ .record time :: post → Path (LogClock.step c) AfterEpoch {} pre s →
        Agree c (LogHistory.of pre) time := by
  have htime {pre : List LogEvent} {time : ℤ} {post : List LogEvent} (heq : es = pre ++ .record time :: post) :
      1000000 ≤ time := hes time (by rw [heq]; simp)
  constructor
  · intro hcoherent
    -- by induction on the records before this one, since they have filled the cache
    suffices h : ∀ n pre time post s, pre.length = n → es = pre ++ .record time :: post →
        Path (LogClock.step c) AfterEpoch {} pre s → Agree c (LogHistory.of pre) time from
      fun pre time post s heq hs => h pre.length pre time post s rfl heq hs
    intro n
    induction n using Nat.strong_induction_on with
    | _ n ih =>
      intro pre time post s hn heq hs
      have hcached := run_cached hs fun p t q v hp hv =>
        ih p.length (by rw [hp, List.length_append, List.length_cons] at hn; omega) p t (q ++ .record time :: post) v rfl
          (by rw [heq, hp, List.append_assoc, List.cons_append]) hv
      exact (hcached.coherent_iff (htime heq)).mp (hcoherent pre time post s heq hs)
  · intro hagree pre time post s heq hs
    have hcached := run_cached hs fun p t q v hp hv =>
      hagree p t (q ++ .record time :: post) v (by rw [heq, hp, List.append_assoc, List.cons_append]) hv
    exact (hcached.coherent_iff (htime heq)).mpr (hagree pre time post s heq hs)

end Coherence

/-- A record in UTC, a change to Central European time, and a record one microsecond later. -/
def zoneChange : List LogEvent :=
  [.record 1700000000000000, .setTimeZone (.ofOffset 3600 (chars "CET")), .record 1700000000000001]

theorem zoneChange_afterEpoch : ∀ time, .record time ∈ zoneChange → 1000000 ≤ time := by
  intro time h
  simp only [zoneChange, List.mem_cons, LogEvent.record.injEq, reduceCtorEq, List.not_mem_nil, or_false, false_or] at h
  omega

-- The condition fails in this run.
theorem formatTime_coherent_iff_zoneChange :
    (∀ pre time post s, zoneChange = pre ++ .record time :: post →
        Path (@LogClock.step Build.debug .gregorian) AfterEpoch {} pre s → @Coherent Build.debug .gregorian s time) ↔
      ∀ pre time post s, zoneChange = pre ++ .record time :: post →
        Path (@LogClock.step Build.debug .gregorian) AfterEpoch {} pre s →
        @Agree Build.debug .gregorian (LogHistory.of pre) time :=
  @formatTime_coherent_iff Build.debug .gregorian zoneChange zoneChange_afterEpoch

-- The second record shows the hour of UTC without the `Z`.
theorem formatTime_stale :
    ¬∀ pre time post s, zoneChange = pre ++ .record time :: post →
      Path (@LogClock.step Build.debug .gregorian) AfterEpoch {} pre s → @Coherent Build.debug .gregorian s time := by
  intro h
  obtain ⟨s, hs, hstale⟩ := Path.exists_of_any (@LogClock.step Build.debug .gregorian) AfterEpoch {} (zoneChange.take 2)
    (fun s => decide (Prod.snd <$> @formatTime Build.debug .gregorian s 1700000000000001 ≠
      Prod.snd <$> @formatTime Build.debug .gregorian { g_logTimeZone := s.g_logTimeZone } 1700000000000001))
    (by decide +kernel)
  exact of_decide_eq_true hstale (h (zoneChange.take 2) 1700000000000001 [] s rfl hs)

end Networker
