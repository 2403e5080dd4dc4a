import Networker.PendingFunctors
import Networker.TimerCancellation

/-!
`TimerQueue::addTimer` and `TimerQueue::cancel` on top of `EventLoop::runInLoop`: on the
loop thread they act at once, on other threads through the functor queue. An id is known
from the moment `addTimer` returns it, which is after the push of its functor.
-/

namespace Networker

open CheckedRuns

inductive TimerFunctor
  | addTimerInLoop (p : ℕ)
  | cancelInLoop (p sequence : ℕ)
  | other
deriving DecidableEq, Repr

structure TimerLoop where
  queue : TimerQueue := {}
  loop : EventLoop TimerFunctor := {}
  /-- calls of `addTimer` between `runInLoop` and the return -/
  adding : List (ℕ × ℕ) := []
  /-- what `addTimer` has returned -/
  ids : List (ℕ × ℕ) := []
  /-- record: the numbers of the timers that `getExpired` has taken -/
  taken : List ℕ := []

namespace TimerLoop

def waiting (s : TimerLoop) : List TimerFunctor := s.loop.remaining ++ s.loop.pendingFunctors

section Operations

variable [Build]

def call (s : TimerLoop) (now : ℤ) : TimerFunctor → Exec TimerLoop
  | .addTimerInLoop p => do
    let queue ← s.queue.addTimerInLoop p now
    .ok { s with queue }
  | .cancelInLoop p sequence => do
    let queue ← s.queue.cancelInLoop p sequence
    .ok { s with queue }
  | .other => .ok s

def runInLoop (s : TimerLoop) (isInLoopThread : Bool) (now : ℤ) (f : TimerFunctor) : Exec TimerLoop :=
  if isInLoopThread then s.call now f
  else .ok { s with loop := s.loop.queueInLoop false f }

/-- `addTimer` after `new Timer`, up to the return. -/
def addTimer (s : TimerLoop) (isInLoopThread : Bool) (p : ℕ) (now : ℤ) : Exec TimerLoop := do
  let t ← s.queue.deref p
  let s ← s.runInLoop isInLoopThread now (.addTimerInLoop p)
  .ok { s with adding := (p, t.sequence) :: s.adding }

/-- The return of `addTimer` reads the number of its timer, which must still be there. -/
def addTimerReturn (s : TimerLoop) (p sequence : ℕ) : Exec TimerLoop := do
  let t ← s.queue.deref p
  if t.sequence = sequence then
    .ok { s with adding := s.adding.erase (p, sequence), ids := (p, sequence) :: s.ids }
  else .error .undefined

def cancel (s : TimerLoop) (isInLoopThread : Bool) (p sequence : ℕ) (now : ℤ) : Exec TimerLoop :=
  s.runInLoop isInLoopThread now (.cancelInLoop p sequence)

def sequences (queue : TimerQueue) : List ℕ :=
  queue.running.filterMap fun e => (queue.heap e.timer).map Timer.sequence

def handleRead (s : TimerLoop) (now : ℤ) : Exec TimerLoop := do
  let queue ← s.queue.handleRead now
  .ok { s with queue, taken := s.taken ++ sequences queue }

def proceed (s : TimerLoop) (active : List ActiveChannel) (now : ℤ) : Exec TimerLoop := do
  let loop ← s.loop.proceed active
  match s.loop.phase with
  | .call (f :: _) => call { s with loop } now f
  | _ => .ok { s with loop }

end Operations

inductive Step
  | newTimer (p : ℕ) (when : ℤ) (interval : Option ℕ)
  | addTimer (isInLoopThread : Bool) (p : ℕ) (now : ℤ)
  | addTimerReturn (p sequence : ℕ)
  | cancel (isInLoopThread : Bool) (p sequence : ℕ) (now : ℤ)
  | handleRead (now : ℤ)
  | runNext
  | finish (clock : ℤ)
  | proceed (active : List ActiveChannel) (now : ℤ)
  | loop (i : EventLoop.Step TimerFunctor)
deriving DecidableEq, Repr

def step [Build] (s : TimerLoop) : Step → Exec TimerLoop
  | .newTimer p when interval => .ok { s with queue := s.queue.newTimer p when interval }
  | .addTimer isInLoopThread p now => s.addTimer isInLoopThread p now
  | .addTimerReturn p sequence => s.addTimerReturn p sequence
  | .cancel isInLoopThread p sequence now => s.cancel isInLoopThread p sequence now
  | .handleRead now => s.handleRead now
  | .runNext => do
    let queue ← s.queue.runNext
    .ok { s with queue }
  | .finish clock => do
    let queue ← s.queue.finish clock
    .ok { s with queue }
  | .proceed active now => s.proceed active now
  | .loop i => do
    let loop ← s.loop.step i
    .ok { s with loop }

/-- Other threads may also push functors that have nothing to do with timers, and wake the loop or quit it. -/
def elsewhere : EventLoop.Step TimerFunctor → Bool
  | .queueInLoop _ f => f = .other
  | .wakeup _ | .quit _ | .quitWakeup => true
  | .proceed _ => false

/-- `addTimer` follows `new Timer` on the same thread and is called once. The loop thread calls it, and `cancel`, from
its callbacks, and it goes on only when `handleRead` has ended. -/
def Enabled (s : TimerLoop) : Step → Prop
  | .newTimer p when interval => s.queue.Enabled (.newTimer p when interval)
  | .addTimer isInLoopThread p _ => p ∈ s.queue.created ∧ .addTimerInLoop p ∉ s.waiting ∧
      (isInLoopThread = true → s.loop.inUserCode = true)
  | .addTimerReturn p sequence => (p, sequence) ∈ s.adding
  | .cancel isInLoopThread p sequence _ =>
      (p, sequence) ∈ s.ids ∧ (isInLoopThread = true → s.loop.inUserCode = true)
  | .handleRead now => s.queue.Enabled (.handleRead now) ∧ (s.loop.phase matches .handler _)
  | .runNext => s.queue.Enabled .runNext
  | .finish clock => s.queue.Enabled (.finish clock)
  | .proceed active _ => s.loop.Enabled (.proceed active) ∧ s.queue.batch.isNone = true
  | .loop i => elsewhere i = true ∧ s.loop.Enabled i

instance (s : TimerLoop) : (i : Step) → Decidable (s.Enabled i)
  | .newTimer p when interval => inferInstanceAs (Decidable (s.queue.Enabled (.newTimer p when interval)))
  | .addTimer _ _ _ => inferInstanceAs (Decidable (_ ∧ _ ∧ (_ → _)))
  | .addTimerReturn _ _ => inferInstanceAs (Decidable (_ ∈ _))
  | .cancel _ _ _ _ => inferInstanceAs (Decidable (_ ∧ (_ → _)))
  | .handleRead now => inferInstanceAs (Decidable (s.queue.Enabled (.handleRead now) ∧ _))
  | .runNext => inferInstanceAs (Decidable (s.queue.Enabled .runNext))
  | .finish clock => inferInstanceAs (Decidable (s.queue.Enabled (.finish clock)))
  | .proceed active _ => inferInstanceAs (Decidable (s.loop.Enabled (.proceed active) ∧ _))
  | .loop i => inferInstanceAs (Decidable (_ ∧ s.loop.Enabled i))

def Cancels (s : TimerLoop) (i : Step) (p sequence : ℕ) : Prop :=
  (∃ now, i = .cancel true p sequence now) ∨
    ∃ active now rest, i = .proceed active now ∧ s.loop.phase = .call (.cancelInLoop p sequence :: rest)

def uninserted (queue : TimerQueue) (p sequence : ℕ) : Bool :=
  p ∈ queue.created ∧ (queue.heap p).any (fun t => t.sequence = sequence)

/-- The loop thread does not cancel a timer whose `addTimerInLoop` still waits in the functor queue. -/
def CancelsInserted (s : TimerLoop) : Step → Prop
  | .cancel true p sequence _ => uninserted s.queue p sequence = false
  | .cancel false _ _ _ | .newTimer _ _ _ | .addTimer _ _ _ | .addTimerReturn _ _ | .handleRead _ | .runNext
  | .finish _ | .proceed _ _ | .loop _ => True

section Queue

variable {q q' : TimerQueue}

theorem uninserted_iff {p n : ℕ} :
    uninserted q p n = true ↔ p ∈ q.created ∧ ∃ t, q.heap p = some t ∧ t.sequence = n := by
  simp [uninserted, Option.any_eq_true]

variable [Build]

theorem step_created {i : TimerQueue.Step} (ho : TimerQueue.Owned q q.running) (he : q.Enabled i)
    (hs : q.step i = .ok q') :
    (∃ p when interval, i = .newTimer p when interval ∧ q'.created = p :: q.created) ∨
      (∃ p now, i = .addTimerInLoop p now ∧ q'.created = q.created.erase p) ∨
      ((∀ p now, i ≠ .addTimerInLoop p now) ∧ q'.created = q.created) := by
  cases i with
  | newTimer p when interval =>
    cases hs
    exact Or.inl ⟨p, when, interval, rfl, rfl⟩
  | addTimerInLoop p now =>
    obtain ⟨t, _, _, _, -, rfl⟩ := TimerQueue.addTimerInLoop_shape hs
    exact Or.inr (Or.inl ⟨p, now, rfl, rfl⟩)
  | cancelInLoop p n =>
    refine Or.inr (Or.inr ⟨by simp, ?_⟩)
    obtain ⟨-, t, -, rfl⟩ | ⟨-, rfl⟩ := TimerQueue.cancelInLoop_inv hs <;> rfl
  | handleRead now =>
    obtain ⟨_, _, rfl⟩ := TimerQueue.handleRead_shape ho hs
    exact Or.inr (Or.inr ⟨by simp, rfl⟩)
  | runNext =>
    refine Or.inr (Or.inr ⟨by simp, ?_⟩)
    obtain rfl | ⟨_, _, _, _, _, -, -, rfl⟩ := TimerQueue.runNext_inv hs <;> rfl
  | finish clock =>
    obtain ⟨b, q₁, _, _, _, hb, ho, hreq, rfl⟩ := TimerQueue.finish_shape ho he hs
    obtain ⟨heap, timers, activeTimers, rfl⟩ := hreq.shape
    exact Or.inr (Or.inr ⟨by simp, rfl⟩)

theorem step_uninserted {i : TimerQueue.Step} (hm : q.Managed) (he : q.Enabled i) (hs : q.step i = .ok q') {p n : ℕ}
    (hn : n ≤ q.numCreated) (h : uninserted q' p n = true) :
    uninserted q p n = true ∧ ∀ now, i ≠ .addTimerInLoop p now := by
  obtain ⟨hc, t', ht', hseq'⟩ := uninserted_iff.mp h
  obtain ⟨r, when, interval, rfl⟩ | ⟨-, hold⟩ := TimerQueue.step_heap hm.owned he hs
  · cases hs
    by_cases hr : p = r
    · subst hr
      cases (TimerQueue.put_heap_same q p _).symm.trans ht'
      have hnew : q.numCreated + 1 = n := hseq'
      omega
    · have ht := (TimerQueue.put_heap_other q _ hr).symm.trans ht'
      exact ⟨uninserted_iff.mpr ⟨(List.mem_cons.mp hc).resolve_left hr, t', ht, hseq'⟩, by simp⟩
  · obtain ⟨t, ht, hseq⟩ := hold p t' ht'
    obtain ⟨r, when, interval, rfl, -⟩ | ⟨r, now, rfl, hcreated⟩ | ⟨hnot, hcreated⟩ := step_created hm.owned he hs
    · cases hs
      obtain ⟨t₀, ht₀, -⟩ := hold r _ (TimerQueue.put_heap_same q r _)
      cases he.1.symm.trans ht₀
    · rw [hcreated] at hc
      refine ⟨uninserted_iff.mpr ⟨List.mem_of_mem_erase hc, t, ht, hseq.trans hseq'⟩, ?_⟩
      rintro now' heq
      cases heq
      exact hm.owned.created_nodup.not_mem_erase hc
    · exact ⟨uninserted_iff.mpr ⟨hcreated ▸ hc, t, ht, hseq.trans hseq'⟩, hnot p⟩

theorem step_running {i : TimerQueue.Step} (hm : q.Managed) (he : q.Enabled i) (hs : q.step i = .ok q')
    (hi : ∀ now, i ≠ .handleRead now) {e : Entry} (h : e ∈ q'.running) : e ∈ q.running := by
  cases i with
  | newTimer p when interval =>
    cases hs
    exact h
  | addTimerInLoop p now =>
    obtain ⟨t, _, _, _, -, rfl⟩ := TimerQueue.addTimerInLoop_shape hs
    exact h
  | cancelInLoop p n =>
    obtain ⟨-, t, -, rfl⟩ | ⟨-, rfl⟩ := TimerQueue.cancelInLoop_inv hs
    · exact h
    · exact h
  | handleRead now => exact absurd rfl (hi now)
  | runNext =>
    obtain rfl | ⟨now, expired, e', remaining, t, hb, -, rfl⟩ := TimerQueue.runNext_inv hs
    · exact h
    · rw [TimerQueue.running, hb]
      exact h
  | finish clock =>
    obtain ⟨b, q₁, _, _, _, hb, ho, hreq, rfl⟩ := TimerQueue.finish_shape hm.owned he hs
    obtain ⟨heap, timers, activeTimers, rfl⟩ := hreq.shape
    simp [TimerQueue.running] at h

end Queue

def addition : TimerFunctor → Option ℕ
  | .addTimerInLoop p => some p
  | .cancelInLoop _ _ | .other => none

theorem addition_eq_some {f : TimerFunctor} {p : ℕ} (h : addition f = some p) : f = .addTimerInLoop p := by
  cases f with
  | addTimerInLoop r => exact congrArg TimerFunctor.addTimerInLoop (Option.some.inj h)
  | cancelInLoop r n => cases h
  | other => cases h

-- a timer that is not inserted is known only when its insertion waits, and its cancellations wait behind that
structure Pending (s : TimerLoop) : Prop where
  managed : s.queue.Managed
  nodup : (s.waiting.filterMap addition).Nodup
  created : ∀ p, .addTimerInLoop p ∈ s.waiting → p ∈ s.queue.created
  known : ∀ p n, (p, n) ∈ s.adding ∨ (p, n) ∈ s.ids →
    s.queue.Confined n (· = p) ∧ (uninserted s.queue p n = true → .addTimerInLoop p ∈ s.waiting)
  cancels : ∀ p n before after, s.waiting = before ++ .cancelInLoop p n :: after →
    (p, n) ∈ s.ids ∧ (uninserted s.queue p n = true → .addTimerInLoop p ∈ before)
  taken : ∀ e ∈ s.queue.running, ∀ t, s.queue.heap e.timer = some t → t.sequence ∈ s.taken
  ran : ∀ n ∈ s.queue.ran, n ∈ s.taken

section Steps

variable {s t : TimerLoop}

theorem Pending.pass (h : Pending s) {loop : EventLoop TimerFunctor} (called : List TimerFunctor)
    (hw : s.waiting = called ++ waiting { s with loop }) (hcalled : ∀ p, .addTimerInLoop p ∉ called) :
    Pending { s with loop } := by
  refine ⟨h.managed, ?_, ?_, ?_, ?_, h.taken, h.ran⟩
  · have hnodup := h.nodup
    rw [hw, List.filterMap_append] at hnodup
    exact hnodup.of_append_right
  · exact fun p hm => h.created p (hw ▸ List.mem_append_right _ hm)
  · intro p n hk
    obtain ⟨hconf, hwait⟩ := h.known p n hk
    refine ⟨hconf, ?_⟩
    intro hu
    have hm := hwait hu
    rw [hw, List.mem_append] at hm
    exact hm.resolve_left (hcalled p)
  · intro p n before after heq
    obtain ⟨hid, hbefore⟩ := h.cancels p n (called ++ before) after (by rw [hw, heq, List.append_assoc])
    exact ⟨hid, fun hu => (List.mem_append.mp (hbefore hu)).resolve_left (hcalled p)⟩

theorem Pending.hand (h : Pending s) {adding ids : List (ℕ × ℕ)}
    (hk : ∀ p n, (p, n) ∈ adding ∨ (p, n) ∈ ids → ((p, n) ∈ s.adding ∨ (p, n) ∈ s.ids) ∨
      (s.queue.Confined n (· = p) ∧ (uninserted s.queue p n = true → .addTimerInLoop p ∈ s.waiting)))
    (hids : ∀ id ∈ s.ids, id ∈ ids) : Pending { s with adding, ids } := by
  refine ⟨h.managed, h.nodup, h.created, ?_, ?_, h.taken, h.ran⟩
  · intro p n hp
    rcases hk p n hp with hold | hnew
    · exact h.known p n hold
    · exact hnew
  · intro p n before after heq
    obtain ⟨hid, hbefore⟩ := h.cancels p n before after heq
    exact ⟨hids _ hid, hbefore⟩

theorem Pending.push (h : Pending s) {loop : EventLoop TimerFunctor} {f : TimerFunctor}
    (hw : waiting { s with loop } = s.waiting ++ [f])
    (hadd : ∀ p, f = .addTimerInLoop p → p ∈ s.queue.created ∧ .addTimerInLoop p ∉ s.waiting)
    (hcancel : ∀ p n, f = .cancelInLoop p n → (p, n) ∈ s.ids) : Pending { s with loop } := by
  have hsub {g : TimerFunctor} (hg : g ∈ s.waiting) : g ∈ waiting { s with loop } := hw ▸ List.mem_append_left _ hg
  refine ⟨h.managed, ?_, ?_, ?_, ?_, h.taken, h.ran⟩
  · rw [hw, List.filterMap_append, List.nodup_append]
    refine ⟨h.nodup, ?_, ?_⟩
    · cases f with
      | addTimerInLoop p => exact List.nodup_singleton p
      | cancelInLoop p n => exact List.nodup_nil
      | other => exact List.nodup_nil
    · intro a ha b hb
      rintro rfl
      obtain ⟨g, hg, hga⟩ := List.mem_filterMap.mp ha
      obtain ⟨g', hg', hga'⟩ := List.mem_filterMap.mp hb
      cases List.mem_singleton.mp hg'
      exact (hadd a (addition_eq_some hga')).2 (addition_eq_some hga ▸ hg)
  · intro p hm
    rw [hw, List.mem_append, List.mem_singleton] at hm
    rcases hm with hm | hm
    · exact h.created p hm
    · exact (hadd p hm.symm).1
  · intro p n hk
    obtain ⟨hconf, hwait⟩ := h.known p n hk
    exact ⟨hconf, fun hu => hsub (hwait hu)⟩
  · intro p n before after heq
    rw [hw] at heq
    rcases List.eq_nil_or_concat after with rfl | ⟨after', g, rfl⟩
    · -- the functor just pushed: its timer's insertion is already in the queue
      obtain ⟨rfl, hf⟩ := List.append_inj' heq rfl
      have hid := hcancel p n (List.singleton_inj.mp hf)
      exact ⟨hid, (h.known p n (Or.inr hid)).2⟩
    · have hlast : before ++ .cancelInLoop p n :: after'.concat g = (before ++ .cancelInLoop p n :: after') ++ [g] := by
        simp
      obtain ⟨heq, -⟩ := List.append_inj' (heq.trans hlast) rfl
      exact h.cancels p n before after' heq

theorem Pending.addTimerReturn (h : Pending s) {p n : ℕ} (he : (p, n) ∈ s.adding)
    (hs : s.addTimerReturn p n = .ok t) : Pending t ∧ t.queue = s.queue := by
  obtain ⟨t₀, -, hs⟩ := bind_eq_ok.mp hs
  split_ifs at hs
  cases hs
  refine ⟨h.hand ?_ (fun _ hid => List.mem_cons_of_mem _ hid), rfl⟩
  rintro r m (hk | hk)
  · exact Or.inl (Or.inl (List.mem_of_mem_erase hk))
  · rcases List.mem_cons.mp hk with heq | hk
    · cases heq
      exact Or.inl (Or.inl he)
    · exact Or.inl (Or.inr hk)

theorem initial_pending : Pending {} := by
  refine ⟨TimerQueue.initial_managed, ?_, ?_, ?_, ?_, ?_, ?_⟩
  all_goals simp [waiting, EventLoop.remaining, TimerQueue.running]

/-- When `cancelInLoop` is executed, the timer has been inserted: a cancellation that comes through the queue comes
after the insertion. -/
theorem Pending.cancels_inserted (h : Pending s) {i : Step} {p n : ℕ} (he : s.Enabled i) (hi : s.CancelsInserted i)
    (hc : s.Cancels i p n) : (p, n) ∈ s.ids ∧ uninserted s.queue p n = false := by
  obtain ⟨now, rfl⟩ | ⟨active, now, rest, rfl, hp⟩ := hc
  · exact ⟨he.1, hi⟩
  · have hw : s.waiting = [] ++ .cancelInLoop p n :: (rest ++ s.loop.pendingFunctors) := by
      simp [waiting, EventLoop.remaining, hp]
    obtain ⟨hid, hbefore⟩ := h.cancels p n _ _ hw
    refine ⟨hid, ?_⟩
    by_contra hu
    exact absurd (hbefore (by simpa using hu)) List.not_mem_nil

variable [Build]

/-- The loop thread takes a step on the timer queue, called as the next functor or at once. -/
theorem Pending.advance (h : Pending s) (loop : EventLoop TimerFunctor) (called : List TimerFunctor)
    {i : TimerQueue.Step} {queue : TimerQueue} (he : s.queue.Enabled i) (hs : s.queue.step i = .ok queue)
    (hw : s.waiting = called ++ waiting { s with loop })
    (hcalled : ∀ p, .addTimerInLoop p ∈ called → ∃ now, i = .addTimerInLoop p now)
    (hadd : ∀ p now, i = .addTimerInLoop p now → .addTimerInLoop p ∉ waiting { s with loop }) {taken : List ℕ}
    (htaken : ∀ n ∈ s.taken, n ∈ taken)
    (hrun : ∀ e ∈ queue.running, ∀ t, queue.heap e.timer = some t → t.sequence ∈ taken) :
    Pending { s with queue, loop, taken } := by
  have hstill {p n : ℕ} (hk : (p, n) ∈ s.adding ∨ (p, n) ∈ s.ids) (hu : uninserted queue p n = true) :
      uninserted s.queue p n = true ∧ .addTimerInLoop p ∉ called := by
    obtain ⟨hu', hnot⟩ := step_uninserted h.managed he hs (h.known p n hk).1.1 hu
    refine ⟨hu', ?_⟩
    intro hm
    obtain ⟨now, heq⟩ := hcalled p hm
    exact hnot now heq
  refine ⟨h.managed.step he hs, ?_, ?_, ?_, ?_, hrun, ?_⟩
  · have hnodup := h.nodup
    rw [hw, List.filterMap_append] at hnodup
    exact hnodup.of_append_right
  · intro p hm
    have hold := h.created p (hw ▸ List.mem_append_right _ hm)
    obtain ⟨r, when, interval, rfl, hc⟩ | ⟨r, now, rfl, hc⟩ | ⟨-, hc⟩ := step_created h.managed.owned he hs
    · exact hc ▸ List.mem_cons_of_mem r hold
    · have hne : p ≠ r := by
        rintro rfl
        exact hadd p now rfl hm
      exact hc ▸ (List.mem_erase_of_ne hne).mpr hold
    · exact hc ▸ hold
  · intro p n hk
    obtain ⟨hconf, hwait⟩ := h.known p n hk
    refine ⟨hconf.step h.managed.owned he hs, ?_⟩
    intro hu
    obtain ⟨hu', hnot⟩ := hstill hk hu
    have hm := hwait hu'
    rw [hw, List.mem_append] at hm
    exact hm.resolve_left hnot
  · intro p n before after heq
    have heq' : waiting { s with loop } = before ++ .cancelInLoop p n :: after := heq
    obtain ⟨hid, hbefore⟩ := h.cancels p n (called ++ before) after (by rw [hw, heq', List.append_assoc])
    refine ⟨hid, ?_⟩
    intro hu
    obtain ⟨hu', hnot⟩ := hstill (Or.inr hid) hu
    exact (List.mem_append.mp (hbefore hu')).resolve_left hnot
  · intro n hn
    have hn' : n ∈ queue.ran := hn
    rcases TimerQueue.step_ran h.managed he hs with hr | ⟨e, hin, t, ht, hr⟩
    · exact htaken n (h.ran n (hr ▸ hn'))
    · rw [hr, List.mem_append, List.mem_singleton] at hn'
      rcases hn' with hold | rfl
      · exact htaken n (h.ran n hold)
      · exact htaken _ (h.taken e hin t ht)

theorem Pending.still_taken (h : Pending s) {i : TimerQueue.Step} {queue : TimerQueue} (he : s.queue.Enabled i)
    (hs : s.queue.step i = .ok queue) (hi : ∀ now, i ≠ .handleRead now) :
    ∀ e ∈ queue.running, ∀ t, queue.heap e.timer = some t → t.sequence ∈ s.taken := by
  intro e hin t' ht'
  have hin' := step_running h.managed he hs hi hin
  obtain ⟨t₀, ht₀⟩ := (h.managed.owned.out_owned e hin').1
  obtain ⟨p, when, interval, rfl⟩ | ⟨-, hold⟩ := TimerQueue.step_heap h.managed.owned he hs
  · cases hs
    have hne : e.timer ≠ p := by
      rintro rfl
      cases he.1.symm.trans ht₀
    exact h.taken e hin' t' ((TimerQueue.put_heap_other s.queue _ hne).symm.trans ht')
  · obtain ⟨t, ht, hseq⟩ := hold e.timer t' ht'
    exact hseq ▸ h.taken e hin' t ht

theorem Pending.atOnce (h : Pending s) {i : TimerQueue.Step} {queue : TimerQueue} (he : s.queue.Enabled i)
    (hs : s.queue.step i = .ok queue) (hi : ∀ now, i ≠ .handleRead now)
    (hadd : ∀ p now, i = .addTimerInLoop p now → .addTimerInLoop p ∉ s.waiting) : Pending { s with queue } :=
  h.advance _ [] he hs rfl (by simp) hadd (fun _ hn => hn) (h.still_taken he hs hi)

theorem Pending.call (h : Pending s) {loop : EventLoop TimerFunctor} {f : TimerFunctor} {now : ℤ}
    (hw : s.waiting = f :: waiting { s with loop }) (hs : TimerLoop.call { s with loop } now f = .ok t) :
    Pending t ∧ (t.queue = s.queue ∨ ∃ i, s.queue.Enabled i ∧ s.queue.step i = .ok t.queue) := by
  have hnodup := h.nodup
  rw [hw] at hnodup
  cases f with
  | addTimerInLoop p =>
    obtain ⟨queue, hq, ht⟩ := bind_eq_ok.mp hs
    cases ht
    have he : s.queue.Enabled (.addTimerInLoop p now) := h.created p (hw ▸ List.mem_cons_self)
    refine ⟨h.advance _ [.addTimerInLoop p] he hq hw ?_ ?_ (fun _ hn => hn) ?_, Or.inr ⟨_, he, hq⟩⟩
    · intro r hr
      cases List.mem_singleton.mp hr
      exact ⟨now, rfl⟩
    · intro r now' heq hm
      cases heq
      exact (List.nodup_cons.mp hnodup).1 (List.mem_filterMap.mpr ⟨_, hm, rfl⟩)
    · exact h.still_taken he hq (by simp)
  | cancelInLoop p n =>
    obtain ⟨queue, hq, ht⟩ := bind_eq_ok.mp hs
    cases ht
    have he : s.queue.Enabled (.cancelInLoop p n) := trivial
    refine ⟨h.advance _ [.cancelInLoop p n] he hq hw ?_ ?_ (fun _ hn => hn) ?_, Or.inr ⟨_, he, hq⟩⟩
    · simp
    · simp
    · exact h.still_taken he hq (by simp)
  | other =>
    cases hs
    exact ⟨h.pass [.other] hw (by simp), Or.inl rfl⟩

theorem Pending.addTimer (h : Pending s) {isInLoopThread : Bool} {p : ℕ} {now : ℤ}
    (he : s.Enabled (.addTimer isInLoopThread p now)) (hs : s.addTimer isInLoopThread p now = .ok t) :
    Pending t ∧ (t.queue = s.queue ∨ ∃ i, s.queue.Enabled i ∧ s.queue.step i = .ok t.queue) := by
  obtain ⟨hc, hnot, -⟩ := he
  obtain ⟨t₀, ht₀, hs⟩ := bind_eq_ok.mp hs
  have ht₀ := TimerQueue.deref_ok ht₀
  have hconf : s.queue.Confined t₀.sequence (· = p) :=
    ⟨h.managed.numbered.bounded p t₀ ht₀, fun r u hu hseq => h.managed.numbered.distinct r p u t₀ hu ht₀ hseq⟩
  obtain ⟨u, hu, ht⟩ := bind_eq_ok.mp hs
  cases ht
  cases isInLoopThread with
  | true =>
    obtain ⟨queue, hq, hu⟩ := bind_eq_ok.mp hu
    cases hu
    have he : s.queue.Enabled (.addTimerInLoop p now) := hc
    have hadd : Pending { s with queue } := h.atOnce he hq (by simp) (by rintro r now' heq; cases heq; exact hnot)
    refine ⟨hadd.hand ?_ (fun _ hid => hid), Or.inr ⟨_, he, hq⟩⟩
    intro r n hk
    rw [List.mem_cons, or_assoc] at hk
    rcases hk with heq | hold
    · cases heq
      refine Or.inr ⟨hconf.step h.managed.owned he hq, ?_⟩
      intro hun
      exact absurd rfl ((step_uninserted h.managed he hq hconf.1 hun).2 now)
    · exact Or.inl hold
  | false =>
    cases hu
    have hw := s.loop.queueInLoop_waiting false (.addTimerInLoop p)
    have hpush : Pending { s with loop := s.loop.queueInLoop false (.addTimerInLoop p) } :=
      h.push hw (by rintro r heq; cases heq; exact ⟨hc, hnot⟩) (by simp)
    refine ⟨hpush.hand ?_ (fun _ hid => hid), Or.inl rfl⟩
    intro r n hk
    rw [List.mem_cons, or_assoc] at hk
    rcases hk with heq | hold
    · cases heq
      refine Or.inr ⟨hconf, fun _ => ?_⟩
      show .addTimerInLoop p ∈ (s.loop.queueInLoop false (.addTimerInLoop p)).remaining ++ _
      rw [hw]
      exact List.mem_append_right _ List.mem_cons_self
    · exact Or.inl hold

theorem Pending.cancel (h : Pending s) {isInLoopThread : Bool} {p n : ℕ} {now : ℤ}
    (he : s.Enabled (.cancel isInLoopThread p n now)) (hs : s.cancel isInLoopThread p n now = .ok t) :
    Pending t ∧ (t.queue = s.queue ∨ ∃ i, s.queue.Enabled i ∧ s.queue.step i = .ok t.queue) := by
  cases isInLoopThread with
  | true =>
    obtain ⟨queue, hq, ht⟩ := bind_eq_ok.mp hs
    cases ht
    have he : s.queue.Enabled (.cancelInLoop p n) := trivial
    exact ⟨h.atOnce he hq (by simp) (by simp), Or.inr ⟨_, he, hq⟩⟩
  | false =>
    cases hs
    refine ⟨h.push (s.loop.queueInLoop_waiting false (.cancelInLoop p n)) (by simp) ?_, Or.inl rfl⟩
    rintro r m heq
    cases heq
    exact he.1

theorem Pending.handleRead (h : Pending s) {now : ℤ} (he : s.queue.Enabled (.handleRead now))
    (hs : s.handleRead now = .ok t) : Pending t ∧ s.queue.step (.handleRead now) = .ok t.queue := by
  obtain ⟨queue, hq, ht⟩ := bind_eq_ok.mp hs
  cases ht
  refine ⟨h.advance s.loop [] he hq rfl (by simp) (by simp) ?_ ?_, hq⟩
  · exact fun n hn => List.mem_append_left _ hn
  · intro e hin u hu
    refine List.mem_append_right _ (List.mem_filterMap.mpr ⟨e, hin, ?_⟩)
    rw [hu, Option.map_some]

theorem Pending.proceed (h : Pending s) {active : List ActiveChannel} {now : ℤ}
    (hs : s.proceed active now = .ok t) :
    Pending t ∧ (t.queue = s.queue ∨ ∃ i, s.queue.Enabled i ∧ s.queue.step i = .ok t.queue) := by
  obtain ⟨loop, hl, hs⟩ := bind_eq_ok.mp hs
  split at hs
  · next f rest hp => exact h.call (EventLoop.proceed_call hl hp) hs
  · next hp =>
    cases hs
    have hw := EventLoop.proceed_waiting hl fun f rest heq => hp f rest heq
    exact ⟨h.pass [] hw (by simp), Or.inl rfl⟩

theorem Pending.loop (h : Pending s) {i : EventLoop.Step TimerFunctor} (he : elsewhere i = true)
    {l : EventLoop TimerFunctor} (hs : s.loop.step i = .ok l) : Pending { s with loop := l } := by
  cases i with
  | queueInLoop isInLoopThread f =>
    cases hs
    have hf : f = .other := by simpa [elsewhere] using he
    subst hf
    exact h.push (s.loop.queueInLoop_waiting isInLoopThread .other) (by simp) (by simp)
  | wakeup isInLoopThread =>
    cases isInLoopThread <;> cases hs <;> exact h.pass [] rfl (by simp)
  | quit isInLoopThread =>
    cases isInLoopThread <;> cases hs <;> exact h.pass [] rfl (by simp)
  | quitWakeup =>
    cases hs
    exact h.pass [] rfl (by simp)
  | proceed active => cases he

/-- Every step keeps the invariant and is a step of the timer queue, or leaves that alone. -/
theorem Pending.step {i : Step} (h : Pending s) (he : s.Enabled i) (hs : s.step i = .ok t) :
    Pending t ∧ (t.queue = s.queue ∨ ∃ i, s.queue.Enabled i ∧ s.queue.step i = .ok t.queue) := by
  cases i with
  | newTimer p when interval =>
    cases hs
    have he : s.queue.Enabled (.newTimer p when interval) := he
    exact ⟨h.atOnce he rfl (by simp) (by simp), Or.inr ⟨_, he, rfl⟩⟩
  | addTimer isInLoopThread p now => exact h.addTimer he hs
  | addTimerReturn p n =>
    obtain ⟨hp, hq⟩ := h.addTimerReturn he hs
    exact ⟨hp, Or.inl hq⟩
  | cancel isInLoopThread p n now => exact h.cancel he hs
  | handleRead now =>
    obtain ⟨hp, hq⟩ := h.handleRead he.1 hs
    exact ⟨hp, Or.inr ⟨_, he.1, hq⟩⟩
  | runNext =>
    obtain ⟨queue, hq, ht⟩ := bind_eq_ok.mp hs
    cases ht
    have he : s.queue.Enabled .runNext := he
    exact ⟨h.atOnce he hq (by simp) (by simp), Or.inr ⟨_, he, hq⟩⟩
  | finish clock =>
    obtain ⟨queue, hq, ht⟩ := bind_eq_ok.mp hs
    cases ht
    have he : s.queue.Enabled (.finish clock) := he
    exact ⟨h.atOnce he hq (by simp) (by simp), Or.inr ⟨_, he, hq⟩⟩
  | proceed active now => exact h.proceed hs
  | loop i =>
    obtain ⟨l, hl, ht⟩ := bind_eq_ok.mp hs
    cases ht
    exact ⟨h.loop he.1 hl, Or.inl rfl⟩

/-- A run of the loop thread and the other threads is a run of the timer queue. -/
theorem Pending.run {steps : List Step} (h : Pending s) (hr : Path TimerLoop.step Enabled s steps t) :
    Pending t ∧ ∃ is, Path TimerQueue.step TimerQueue.Enabled s.queue is t.queue := by
  induction hr with
  | nil => exact ⟨h, [], .nil⟩
  | snoc i _ he hs ih =>
    obtain ⟨hp, is, hpath⟩ := ih
    obtain ⟨hp', hq | ⟨j, hj, hq⟩⟩ := hp.step he hs
    · exact ⟨hp', is, hq ▸ hpath⟩
    · exact ⟨hp', is ++ [j], .snoc j hpath hj hq⟩

theorem Cancels.step {i : Step} {p n : ℕ} (h : s.Cancels i p n) (hs : s.step i = .ok t) :
    s.queue.step (.cancelInLoop p n) = .ok t.queue := by
  obtain ⟨now, rfl⟩ | ⟨active, now, rest, rfl, hp⟩ := h
  · obtain ⟨queue, hq, ht⟩ := bind_eq_ok.mp hs
    cases ht
    exact hq
  · obtain ⟨loop, hl, hs⟩ := bind_eq_ok.mp hs
    simp only [hp] at hs
    obtain ⟨queue, hq, ht⟩ := bind_eq_ok.mp hs
    cases ht
    exact hq

/-- A timer that is inserted and was never taken is in the sets or deleted; `cancelInLoop` leaves it deleted. -/
theorem Pending.never_runs (h : Pending s) {p n : ℕ} {queue : TimerQueue} (hid : (p, n) ∈ s.ids)
    (hu : uninserted s.queue p n = false) (hn : n ∉ s.taken) (hs : s.queue.step (.cancelInLoop p n) = .ok queue) :
    queue.NeverRuns n := by
  have hm := h.managed
  have he : s.queue.Enabled (.cancelInLoop p n) := trivial
  have hconf := (h.known p n (Or.inr hid)).1
  by_cases hlive : ∃ t, s.queue.heap p = some t ∧ t.sequence = n
  · obtain ⟨t, ht, rfl⟩ := hlive
    have hc : p ∉ s.queue.created := by
      intro hc
      rw [uninserted_iff.mpr ⟨hc, t, ht, rfl⟩] at hu
      cases hu
    rcases hm.consistent.inserted p t ht hc with ha | ⟨e, hin, rfl⟩
    · exact ((TimerQueue.cancelInLoop_stopped hm hs).queued ha).2.2
    · exact absurd (h.taken e hin t ht) hn
  · have hgone : s.queue.Gone n := by
      refine ⟨hconf.1, ?_⟩
      intro r t ht hseq
      exact hlive ⟨t, hconf.2 r t ht hseq ▸ ht, hseq⟩
    have hgone' : queue.Gone n := hgone.step hm.owned he hs
    exact hgone'.neverRuns (hm.step he hs)

/-- Once `cancelInLoop` has been executed for a timer that was never taken into a batch, the timer never runs. -/
theorem cancel_wins {steps later : List Step} {u : TimerLoop} {i : Step} {p n : ℕ}
    (h : Path step Enabled {} steps s) (he : s.Enabled i) (hi : s.CancelsInserted i) (hs : s.step i = .ok t)
    (hc : s.Cancels i p n) (hn : n ∉ s.taken) (hl : Path step Enabled t later u) : n ∉ u.queue.ran := by
  have hp : Pending s := (initial_pending.run h).1
  obtain ⟨hid, hu⟩ := hp.cancels_inserted he hi hc
  have hq := hc.step hs
  obtain ⟨is, hpath⟩ := ((hp.step he hs).1.run hl).2
  obtain ⟨more, hran, hnot⟩ := hp.never_runs hid hu hn hq is u.queue hpath
  have hsame : t.queue.ran = s.queue.ran := by
    obtain ⟨-, t₀, -, hq⟩ | ⟨-, hq⟩ := TimerQueue.cancelInLoop_inv hq <;> rw [hq]
    rfl
  rw [hran, hsame, List.mem_append]
  rintro (hm | hm)
  · exact hn (hp.ran n hm)
  · exact hnot hm

end Steps

-- the loop thread is polling; another thread adds a timer and cancels it at once
theorem cancel_wins_queued :
    letI := Build.debug
    let steps : List Step := [.proceed [] 1, .proceed [] 1, .proceed [] 1, .newTimer 1 100 (some 10),
      .addTimer false 1 1, .loop (.wakeup false), .addTimerReturn 1 1, .cancel false 1 1 1, .proceed [.wakeup] 2,
      .proceed [] 2, .proceed [] 2, .proceed [] 2, .proceed [] 2, .proceed [] 2]
    let later : List Step := [.proceed [] 3, .proceed [] 3, .proceed [] 3, .proceed [.other] 4, .proceed [] 4,
      .handleRead 200, .finish 200]
    ∃ s t u : TimerLoop, Path step Enabled {} steps s ∧ s.queue.activeTimers = {(1, 1)} ∧
      s.Cancels (.proceed [] 3) 1 1 ∧ s.step (.proceed [] 3) = .ok t ∧ Path step Enabled t later u ∧
      u.queue.clock = 200 ∧ 1 ∉ u.queue.ran := by
  intro steps later
  let _ := Build.debug
  obtain ⟨s, hs, hp⟩ := Path.exists_of_any step Enabled {} steps
    (fun s => decide (s.queue.activeTimers = {(1, 1)} ∧ s.loop.phase = .call [.cancelInLoop 1 1] ∧ s.taken = [] ∧
      s.Enabled (.proceed [] 3)) && (s.step (.proceed [] 3)).toOption.any fun t =>
        (guardedRun step Enabled t later).any fun u => u.queue.clock = 200) (by decide +kernel)
  obtain ⟨hstate, hnext⟩ := Bool.and_eq_true_iff.mp hp
  obtain ⟨ha, hphase, htaken, he⟩ := of_decide_eq_true hstate
  obtain ⟨t, ht, hrest⟩ := exists_ok_of_any _ hnext
  obtain ⟨u, hu, hclock⟩ := Path.exists_of_any step Enabled t later _ hrest
  have hc : s.Cancels (.proceed [] 3) 1 1 := Or.inr ⟨_, _, _, rfl, hphase⟩
  exact ⟨s, t, u, hs, ha, hc, ht, hu, of_decide_eq_true hclock,
    cancel_wins hs he trivial ht hc (by simp [htaken]) hu⟩

-- another thread adds a timer, and a callback of the loop thread cancels it before the loop gets to the functor
theorem cancel_lost_before_insertion :
    letI := Build.debug
    let steps : List Step := [.proceed [] 1, .proceed [] 1, .proceed [] 1, .newTimer 1 100 none, .addTimer false 1 1,
      .loop (.wakeup false), .addTimerReturn 1 1, .proceed [.other, .wakeup] 2, .proceed [] 2]
    let later : List Step := [.proceed [] 3, .proceed [] 3, .proceed [] 3, .proceed [] 3, .proceed [] 3, .proceed [] 3,
      .proceed [] 3, .proceed [] 3, .proceed [.other] 4, .proceed [] 4, .handleRead 200, .runNext]
    ∃ s t u : TimerLoop, Path step Enabled {} steps s ∧ (1, 1) ∈ s.ids ∧ s.taken = [] ∧
      s.Enabled (.cancel true 1 1 2) ∧ s.Cancels (.cancel true 1 1 2) 1 1 ∧ s.step (.cancel true 1 1 2) = .ok t ∧
      Path step Enabled t later u ∧ 1 ∈ u.queue.ran := by
  intro steps later
  let _ := Build.debug
  obtain ⟨s, hs, hp⟩ := Path.exists_of_any step Enabled {} steps
    (fun s => decide ((1, 1) ∈ s.ids ∧ s.taken = [] ∧ s.Enabled (.cancel true 1 1 2)) &&
      (s.step (.cancel true 1 1 2)).toOption.any fun t =>
        (guardedRun step Enabled t later).any fun u => 1 ∈ u.queue.ran) (by decide +kernel)
  obtain ⟨hstate, hnext⟩ := Bool.and_eq_true_iff.mp hp
  obtain ⟨hid, htaken, he⟩ := of_decide_eq_true hstate
  obtain ⟨t, ht, hrest⟩ := exists_ok_of_any _ hnext
  obtain ⟨u, hu, hran⟩ := Path.exists_of_any step Enabled t later _ hrest
  exact ⟨s, t, u, hs, hid, htaken, he, Or.inl ⟨2, rfl⟩, ht, hu, of_decide_eq_true hran⟩

end TimerLoop

end Networker
