import Networker.CountDownLatch

/-!
`Thread::start` and `ThreadData::runInThread` of `base/Thread.cpp`: the new
thread is given pointers to `tid_` and `latch_` of the `Thread`, which may be
gone once `start` has returned.
-/

namespace Networker

open CheckedRuns

inductive StartPosition
  | outside
  | waiting
  | returned
deriving DecidableEq, Repr

inductive RunPosition
  | absent
  | assignTid
  | countDown
  | counting
  | func
deriving DecidableEq, Repr

/-- A `Thread`, where `start` is, and where the thread it creates is in `runInThread`. -/
structure Thread where
  started_ : Bool := false
  tid_ : ℤ := 0
  latch_ : CountDownLatch := { count_ := 1 }
  start : StartPosition := .outside
  run : RunPosition := .absent

/-- The thread that calls `start` and the one that `pthread_create` makes. -/
class Threads where
  caller : ℕ
  created : ℕ
  caller_pos : 0 < caller
  created_pos : 0 < created
  ne : caller ≠ created

namespace Thread

variable [Threads]

open Threads

inductive Step
  /-- `start`, up to the wait; `pthread_create` may fail -/
  | start (ok : Bool)
  | latch (s : CountDownLatch.Step)
  | assignTid
  | countDown
  | counted
  /-- `start` after the wait -/
  | startReturns
deriving DecidableEq, Repr

def step [Build] (t : Thread) : Step → Exec Thread
  | .start ok => do
    assert (t.started_ = false)
    if ok then do
      let latch_ ← t.latch_.step (.wait caller)
      .ok { t with started_ := true, latch_, start := .waiting, run := .assignTid }
    else .ok { t with started_ := false, start := .returned }
  | .latch s => do
    let latch_ ← t.latch_.step s
    .ok { t with latch_ }
  | .assignTid => .ok { t with tid_ := created, run := .countDown }
  | .countDown => do
    let latch_ ← t.latch_.step (.countDown created)
    .ok { t with latch_, run := .counting }
  | .counted => .ok { t with run := .func }
  | .startReturns => do
    assert (0 < t.tid_)
    .ok { t with start := .returned }

def Enabled (t : Thread) : Step → Prop
  | .start _ => t.start = .outside
  | .latch (.proceed tid) => (tid = caller ∨ tid = created) ∧ t.latch_.Enabled (.proceed tid)
  | .latch (.spurious tid) => t.latch_.Enabled (.spurious tid)
  | .latch (.wait _) | .latch (.countDown _) => False
  | .assignTid => t.run = .assignTid
  | .countDown => t.run = .countDown
  | .counted => t.run = .counting ∧ t.latch_.position created = .outside
  | .startReturns => t.start = .waiting ∧ t.latch_.position caller = .outside

instance (t : Thread) : (s : Step) → Decidable (t.Enabled s)
  | .start _ | .assignTid | .countDown => inferInstanceAs (Decidable (_ = _))
  | .latch (.proceed _) => inferInstanceAs (Decidable ((_ ∨ _) ∧ _))
  | .latch (.spurious tid) => inferInstanceAs (Decidable (CountDownLatch.Enabled _ (.spurious tid)))
  | .latch (.wait _) | .latch (.countDown _) => inferInstanceAs (Decidable False)
  | .counted | .startReturns => inferInstanceAs (Decidable (_ ∧ _))

/-- The step follows the pointers of the new thread into the `Thread`. -/
def Follows : Step → Prop
  | .latch (.proceed tid) => tid = created
  | .assignTid | .countDown => True
  | .start _ | .latch (.wait _) | .latch (.countDown _) | .latch (.spurious _) | .counted | .startReturns => False

/-- A wakeup that nobody has sent. -/
def Step.isSpurious : Step → Bool
  | .latch (.spurious _) => true
  | .latch (.proceed _) | .latch (.wait _) | .latch (.countDown _) | .start _ | .assignTid | .countDown | .counted
  | .startReturns => false

/-- Once the waiting thread has seen `count_` at zero, the new thread is out of `countDown`. -/
structure Handshake (t : Thread) : Prop where
  latched : t.latch_.Latched
  others : ∀ u, u ≠ caller → u ≠ created → t.latch_.position u = .outside
  waits : (t.latch_.position caller).inCount = false
  fresh : t.start = .outside → t.started_ = false ∧ t.run = .absent ∧ t.latch_.position caller = .outside
  absent : t.run = .absent → t.start ≠ .waiting ∧ t.latch_.released = [] ∧ t.latch_.position caller = .outside
  before : t.run = .absent ∨ t.run = .assignTid ∨ t.run = .countDown →
    t.latch_.position created = .outside ∧ t.latch_.count_ = 1
  counting : t.run = .counting →
    t.latch_.position created ∈ [LatchPosition.lockCount, .decrement] ∧ t.latch_.count_ = 1 ∨
      t.latch_.position created ∈ [LatchPosition.notify, .unlockCount, .outside] ∧ t.latch_.count_ = 0
  func : t.run = .func → t.latch_.position created = .outside ∧ t.latch_.count_ = 0
  tid : t.run = .countDown ∨ t.run = .counting ∨ t.run = .func → t.tid_ = created
  seen : t.latch_.position caller = .unlockWait ∨ t.latch_.released ≠ [] → t.latch_.position created = .outside
  waiting : t.start = .waiting → t.latch_.position caller ≠ .outside ∨ t.latch_.released ≠ []
  returned : t.start = .returned → t.run = .absent ∨ t.latch_.released ≠ []

section Steps

variable {t t' : Thread}

/-- The latch lets a thread go only when the count is zero. -/
theorem Handshake.counted (h : Handshake t)
    (hs : t.latch_.position caller = .unlockWait ∨ t.latch_.released ≠ []) :
    t.latch_.position created = .outside ∧ (t.run = .counting ∨ t.run = .func) := by
  have hc : t.latch_.count_ ≤ 0 := hs.elim (h.latched.leaves _) h.latched.released
  refine ⟨h.seen hs, ?_⟩
  cases hr : t.run with
  | absent =>
    have := (h.before (Or.inl hr)).2
    omega
  | assignTid =>
    have := (h.before (Or.inr (Or.inl hr))).2
    omega
  | countDown =>
    have := (h.before (Or.inr (Or.inr hr))).2
    omega
  | counting => exact Or.inl rfl
  | func => exact Or.inr rfl

/-- The caller takes a step of `latch_.wait()`. -/
theorem Handshake.proceed_caller (h : Handshake t) {l : CountDownLatch} (he : t.latch_.Enabled (.proceed caller))
    (hs : t.latch_.proceed caller (t.latch_.position caller) = .ok l) : Handshake { t with latch_ := l } := by
  have hl : l.Latched := h.latched.step he hs
  obtain ⟨hpos, hcount, hrel⟩ := CountDownLatch.proceed_effect hs
  have hcaller : l.position caller = t.latch_.next (t.latch_.position caller) := by rw [hpos, Function.update_self]
  have hcreated : l.position created = t.latch_.position created := by
    rw [hpos, Function.update_of_ne ne.symm]
  have hmem := h.waits
  have hcount' : l.count_ = t.latch_.count_ := by
    rw [hcount, if_neg]
    intro hp
    rw [hp] at hmem
    cases hmem
  have hin : t.latch_.position caller ≠ .outside := he.1
  have hseen : l.position caller = .unlockWait ∨ l.released ≠ [] → l.position created = .outside := by
    intro hs'
    by_cases hold : t.latch_.position caller = .unlockWait ∨ t.latch_.released ≠ []
    · exact hcreated.trans (h.seen hold)
    · obtain ⟨hnot, hnil⟩ := not_or.mp hold
      rw [if_neg hnot] at hrel
      have hnow : l.position caller = .unlockWait := hs'.resolve_right (by rw [hrel]; exact hnil)
      have htest : t.latch_.position caller = .test := t.latch_.next_eq_unlockWait (hcaller ▸ hnow)
      -- the caller has the mutex, so the new thread is not between `--count_` and its end
      have hfree : (t.latch_.position created).holds = false := by
        rw [← Bool.not_eq_true]
        exact fun hc => ne (h.latched.unique (by rw [htest]; rfl) hc)
      have hzero : t.latch_.count_ ≤ 0 := hcount' ▸ hl.leaves caller hnow
      rw [hcreated]
      cases hr : t.run with
      | absent => exact (h.before (Or.inl hr)).1
      | assignTid => exact (h.before (Or.inr (Or.inl hr))).1
      | countDown => exact (h.before (Or.inr (Or.inr hr))).1
      | counting =>
        rcases h.counting hr with ⟨-, hone⟩ | ⟨hpast, -⟩
        · omega
        · simp only [List.mem_cons, List.not_mem_nil, or_false] at hpast
          rcases hpast with hp | hp | hp
          · rw [hp] at hfree
            cases hfree
          · rw [hp] at hfree
            cases hfree
          · exact hp
      | func => exact (h.func hr).1
  have hothers (u : ℕ) (hu : u ≠ caller) (hu' : u ≠ created) : l.position u = .outside := by
    rw [hpos, Function.update_of_ne hu]
    exact h.others u hu hu'
  constructor
  case latched => exact hl
  case others => exact hothers
  case waits =>
    change (l.position caller).inCount = false
    rw [hcaller]
    exact t.latch_.next_inCount hmem
  case fresh => exact fun hst => absurd (h.fresh hst).2.2 hin
  case absent => exact fun hr => absurd (h.absent hr).2.2 hin
  case before =>
    change _ → l.position created = .outside ∧ l.count_ = 1
    rw [hcreated, hcount']
    exact h.before
  case counting =>
    change _ → l.position created ∈ _ ∧ l.count_ = 1 ∨ l.position created ∈ _ ∧ l.count_ = 0
    rw [hcreated, hcount']
    exact h.counting
  case func =>
    change _ → l.position created = .outside ∧ l.count_ = 0
    rw [hcreated, hcount']
    exact h.func
  case tid => exact h.tid
  case seen => exact hseen
  case waiting =>
    intro _
    change l.position caller ≠ .outside ∨ l.released ≠ []
    by_cases hp : t.latch_.position caller = .unlockWait
    · refine Or.inr ?_
      rw [hrel, if_pos hp]
      simp
    · refine Or.inl ?_
      rw [hcaller]
      exact t.latch_.next_ne_outside hmem hin hp
  case returned =>
    intro hst
    change t.run = .absent ∨ l.released ≠ []
    refine (h.returned hst).imp id fun hne => ?_
    rw [hrel]
    split_ifs
    · simp
    · exact hne

/-- The new thread takes a step of `latch_.countDown()`. -/
theorem Handshake.proceed_created (h : Handshake t) {l : CountDownLatch} (he : t.latch_.Enabled (.proceed created))
    (hs : t.latch_.proceed created (t.latch_.position created) = .ok l) : Handshake { t with latch_ := l } := by
  have hl : l.Latched := h.latched.step he hs
  obtain ⟨hpos, hcount, hrel⟩ := CountDownLatch.proceed_effect hs
  have hcreated : l.position created = t.latch_.next (t.latch_.position created) := by rw [hpos, Function.update_self]
  have hcaller : l.position caller = t.latch_.position caller := by rw [hpos, Function.update_of_ne ne]
  have hin : t.latch_.position created ≠ .outside := he.1
  have hrun : t.run = .counting := by
    cases hr : t.run with
    | absent => exact absurd (h.before (Or.inl hr)).1 hin
    | assignTid => exact absurd (h.before (Or.inr (Or.inl hr))).1 hin
    | countDown => exact absurd (h.before (Or.inr (Or.inr hr))).1 hin
    | counting => rfl
    | func => exact absurd (h.func hr).1 hin
  have hunseen : ¬(t.latch_.position caller = .unlockWait ∨ t.latch_.released ≠ []) := fun hs' => hin (h.seen hs')
  have hcounting : l.position created ∈ [LatchPosition.lockCount, .decrement] ∧ l.count_ = 1 ∨
      l.position created ∈ [LatchPosition.notify, .unlockCount, .outside] ∧ l.count_ = 0 := by
    rw [hcreated, hcount]
    rcases h.counting hrun with ⟨hp, hc⟩ | ⟨hp, hc⟩
    · simp only [List.mem_cons, List.not_mem_nil, or_false] at hp
      rcases hp with hp | hp
      · exact Or.inl (by simp [hp, CountDownLatch.next, hc])
      · exact Or.inr (by simp [hp, CountDownLatch.next, hc])
    · simp only [List.mem_cons, List.not_mem_nil, or_false] at hp
      rcases hp with hp | hp | hp
      · exact Or.inr (by simp [hp, CountDownLatch.next, hc])
      · exact Or.inr (by simp [hp, CountDownLatch.next, hc])
      · exact absurd hp hin
  have hrel' : l.released = t.latch_.released := by
    rw [hrel, if_neg]
    intro hp
    rcases h.counting hrun with ⟨hmem, -⟩ | ⟨hmem, -⟩ <;> rw [hp] at hmem <;> exact absurd hmem (by decide)
  have hnot {r : RunPosition} (hr : r ≠ .counting) : t.run ≠ r := fun he => hr (he.symm.trans hrun)
  have hothers (u : ℕ) (hu : u ≠ caller) (hu' : u ≠ created) : l.position u = .outside := by
    rw [hpos, Function.update_of_ne hu']
    exact h.others u hu hu'
  constructor
  case latched => exact hl
  case others => exact hothers
  case waits =>
    change (l.position caller).inCount = false
    rw [hcaller]
    exact h.waits
  case fresh => exact fun hst => absurd (h.fresh hst).2.1 (hnot (by decide))
  case absent => exact fun hr => absurd hr (hnot (by decide))
  case before =>
    rintro (hr | hr | hr) <;> exact absurd hr (hnot (by decide))
  case counting => exact fun _ => hcounting
  case func => exact fun hr => absurd hr (hnot (by decide))
  case tid => exact h.tid
  case seen =>
    intro hs'
    change l.position caller = .unlockWait ∨ l.released ≠ [] at hs'
    rw [hcaller, hrel'] at hs'
    exact absurd hs' hunseen
  case waiting =>
    intro hst
    change l.position caller ≠ .outside ∨ l.released ≠ []
    rw [hcaller, hrel']
    exact h.waiting hst
  case returned =>
    intro hst
    change t.run = .absent ∨ l.released ≠ []
    rw [hrel']
    exact h.returned hst

variable [Build]

theorem Handshake.step (h : Handshake t) {s : Step} (he : t.Enabled s) (hs : t.step s = .ok t') : Handshake t' := by
  cases s with
  | start ok =>
    have hs := assert_bind_ok hs
    obtain ⟨-, habsent, hout⟩ := h.fresh he
    obtain ⟨-, hrel, -⟩ := h.absent habsent
    obtain ⟨hcreated, hc⟩ := h.before (Or.inl habsent)
    cases ok with
    | true =>
      obtain ⟨l, hl, heq⟩ := bind_eq_ok.mp hs
      cases heq
      have hlatched := h.latched.step (s := .wait caller) ⟨caller_pos, hout⟩ hl
      cases hl
      have hmoved : (t.latch_.move caller .lockWait).position caller = .lockWait := by simp [CountDownLatch.move]
      have hkept : (t.latch_.move caller .lockWait).position created = .outside := by
        simp [CountDownLatch.move, ne.symm, hcreated]
      have hothers (u : ℕ) (hu : u ≠ caller) (hu' : u ≠ created) : (t.latch_.move caller .lockWait).position u = .outside := by
        simp [CountDownLatch.move, hu, h.others u hu hu']
      constructor
      case latched => exact hlatched
      case others => exact hothers
      case waits =>
        rw [hmoved]
        rfl
      case before => exact fun _ => ⟨hkept, hc⟩
      case seen => exact fun _ => hkept
      case waiting =>
        intro _
        rw [hmoved]
        exact Or.inl (by decide)
      case fresh | absent | counting | func | tid | returned => simp
    | false =>
      cases hs
      exact { h with
        fresh := by simp
        absent := fun _ => ⟨by simp, hrel, hout⟩
        waiting := by simp
        returned := fun _ => Or.inl habsent }
  | latch s =>
    obtain ⟨l, hl, heq⟩ := bind_eq_ok.mp hs
    cases heq
    cases s with
    | wait tid => exact absurd he id
    | countDown tid => exact absurd he id
    | proceed tid =>
      obtain ⟨rfl | rfl, he⟩ := he
      · exact h.proceed_caller he hl
      · exact h.proceed_created he hl
    | spurious tid =>
      have hlatched := h.latched.step (s := .spurious tid) he hl
      cases hl
      exact { h with latched := hlatched }
  | assignTid =>
    cases hs
    have he : t.run = .assignTid := he
    have hnot : t.run ≠ .absent := by simp [he]
    exact { h with
      fresh := fun hst => absurd (h.fresh hst).2.1 hnot
      absent := by simp
      before := fun _ => h.before (Or.inr (Or.inl he))
      counting := by simp
      func := by simp
      tid := fun _ => rfl
      returned := fun hst => Or.inr ((h.returned hst).resolve_left hnot) }
  | countDown =>
    obtain ⟨l, hl, heq⟩ := bind_eq_ok.mp hs
    cases heq
    have he : t.run = .countDown := he
    have hnot : t.run ≠ .absent := by simp [he]
    obtain ⟨hout, hc⟩ := h.before (Or.inr (Or.inr he))
    have hlatched := h.latched.step (s := .countDown created) ⟨created_pos, hout⟩ hl
    cases hl
    have hmoved : (t.latch_.move created .lockCount).position created = .lockCount := by simp [CountDownLatch.move]
    have hkept : (t.latch_.move created .lockCount).position caller = t.latch_.position caller := by
      simp [CountDownLatch.move, ne]
    have hunseen : ¬(t.latch_.position caller = .unlockWait ∨ t.latch_.released ≠ []) := by
      intro hs'
      rcases (h.counted hs').2 with hr | hr <;> simp [he] at hr
    have hothers (u : ℕ) (hu : u ≠ caller) (hu' : u ≠ created) : (t.latch_.move created .lockCount).position u = .outside := by
      simp [CountDownLatch.move, hu', h.others u hu hu']
    constructor
    case latched => exact hlatched
    case others => exact hothers
    case waits =>
      rw [hkept]
      exact h.waits
    case fresh => exact fun hst => absurd (h.fresh hst).2.1 hnot
    case absent | before | func => simp
    case counting => exact fun _ => Or.inl ⟨by simp [hmoved], hc⟩
    case tid => exact fun _ => h.tid (Or.inl he)
    case seen =>
      intro hs'
      rw [hkept] at hs'
      exact absurd hs' hunseen
    case waiting =>
      intro hst
      rw [hkept]
      exact h.waiting hst
    case returned => exact fun hst => Or.inr ((h.returned hst).resolve_left hnot)
  | counted =>
    cases hs
    obtain ⟨hr, hout⟩ := he
    have hnot : t.run ≠ .absent := by simp [hr]
    have hc : t.latch_.count_ = 0 := by
      rcases h.counting hr with ⟨hp, -⟩ | ⟨-, hc⟩
      · rw [hout] at hp
        exact absurd hp (by decide)
      · exact hc
    exact { h with
      fresh := fun hst => absurd (h.fresh hst).2.1 hnot
      absent := by simp
      before := by simp
      counting := by simp
      func := fun _ => ⟨hout, hc⟩
      tid := fun _ => h.tid (Or.inr (Or.inl hr))
      returned := fun hst => Or.inr ((h.returned hst).resolve_left hnot) }
  | startReturns =>
    cases assert_bind_ok hs
    have hrel := (h.waiting he.1).resolve_left fun hne => hne he.2
    exact { h with
      fresh := by simp
      absent := fun hr => absurd (h.absent hr).2.1 hrel
      waiting := by simp
      returned := fun _ => Or.inr hrel }

omit [Build] in
theorem initial_handshake : Handshake {} where
  latched := CountDownLatch.initial_latched 1
  others := fun _ _ _ => rfl
  waits := rfl
  fresh := fun _ => ⟨rfl, rfl, rfl⟩
  absent := fun _ => ⟨by simp, rfl, rfl⟩
  before := fun _ => ⟨rfl, rfl⟩
  counting := by simp
  func := by simp
  tid := by simp
  seen := by simp
  waiting := by simp
  returned := by simp

omit [Build] in
/-- The pointers into the `Thread` are not followed once `start` has returned. -/
theorem Handshake.unfollowed (h : Handshake t) (hst : t.start = .returned) (hrun : t.run ≠ .absent) {s : Step}
    (he : t.Enabled s) : ¬Follows s := by
  have hrel := (h.returned hst).resolve_left hrun
  obtain ⟨hout, hr⟩ := h.counted (Or.inr hrel)
  have hnot {r : RunPosition} (hc : r ≠ .counting) (hf : r ≠ .func) : t.run ≠ r := fun he =>
    hr.elim (fun h' => hc (he.symm.trans h')) fun h' => hf (he.symm.trans h')
  cases s with
  | latch s =>
    cases s with
    | proceed tid =>
      rintro rfl
      exact he.2.1 hout
    | _ => exact id
  | assignTid => exact absurd he (hnot (by decide) (by decide))
  | countDown => exact absurd he (hnot (by decide) (by decide))
  | _ => exact id

/-- The count stays between 0 and 1, and `start` finds what it asserts. -/
theorem Handshake.step_ok (h : Handshake t) {s : Step} (he : t.Enabled s) : ∃ t', t.step s = .ok t' := by
  cases s with
  | start ok =>
    have hf := (h.fresh he).1
    cases ok with
    | true => exact ⟨_, bind_eq_ok.mpr ⟨(), assert_pos hf, rfl⟩⟩
    | false => exact ⟨_, bind_eq_ok.mpr ⟨(), assert_pos hf, rfl⟩⟩
  | latch s =>
    cases s with
    | wait tid => exact absurd he id
    | countDown tid => exact absurd he id
    | proceed tid =>
      have hcount : 0 ≤ t.latch_.count_ ∧ t.latch_.count_ ≤ 1 := by
        have hone (hc : t.latch_.count_ = 1) : 0 ≤ t.latch_.count_ ∧ t.latch_.count_ ≤ 1 := by omega
        cases hr : t.run with
        | absent => exact hone (h.before (Or.inl hr)).2
        | assignTid => exact hone (h.before (Or.inr (Or.inl hr))).2
        | countDown => exact hone (h.before (Or.inr (Or.inr hr))).2
        | counting => rcases h.counting hr with ⟨-, hc⟩ | ⟨-, hc⟩ <;> omega
        | func =>
          have hc := (h.func hr).2
          omega
      obtain ⟨l, hl⟩ := t.latch_.proceed_ok tid (t.latch_.position tid) fun _ => by omega
      exact ⟨_, bind_eq_ok.mpr ⟨l, hl, rfl⟩⟩
    | spurious tid => exact ⟨_, rfl⟩
  | assignTid => exact ⟨_, rfl⟩
  | countDown => exact ⟨_, rfl⟩
  | counted => exact ⟨_, rfl⟩
  | startReturns =>
    have hrel := (h.waiting he.1).resolve_left fun hne => hne he.2
    have htid : t.tid_ = created := h.tid (Or.inr (h.counted (Or.inr hrel)).2)
    have hpos : 0 < t.tid_ := by
      rw [htid]
      exact_mod_cast created_pos
    exact ⟨_, bind_eq_ok.mpr ⟨(), assert_pos hpos, rfl⟩⟩

omit [Build] in
/-- Somebody can go on, without a spurious wakeup. -/
theorem Handshake.progress (h : Handshake t) (hst : t.start = .waiting) : ∃ s, t.Enabled s ∧ s.isSpurious = false := by
  by_cases hout : t.latch_.position caller = .outside
  · exact ⟨.startReturns, ⟨hst, hout⟩, rfl⟩
  · have hinside {u : ℕ} (hu : t.latch_.Enabled (.proceed u)) : ∃ s, t.Enabled s ∧ s.isSpurious = false := by
      refine ⟨.latch (.proceed u), ⟨?_, hu⟩, rfl⟩
      by_contra hne
      obtain ⟨hc, hc'⟩ := not_or.mp hne
      exact hu.1 (h.others u hc hc')
    have hzero (hc : t.latch_.count_ ≤ 0) : ∃ s, t.Enabled s ∧ s.isSpurious = false := by
      obtain ⟨u, hu⟩ := h.latched.progress hc hout
      exact hinside hu
    cases hr : t.run with
    | absent => exact absurd hst (h.absent hr).1
    | assignTid => exact ⟨.assignTid, hr, rfl⟩
    | countDown => exact ⟨.countDown, hr, rfl⟩
    | counting =>
      rcases h.counting hr with ⟨hp, -⟩ | ⟨-, hc⟩
      · cases hown : t.latch_.mutex_.owner with
        | some u => exact hinside (h.latched.owner_enabled hown)
        | none =>
          refine hinside (u := created) ⟨?_, fun _ => hown, ?_⟩
          · intro ho
            rw [ho] at hp
            exact absurd hp (by decide)
          · intro hb
            rw [hb] at hp
            exact absurd hp (by decide)
      · exact hzero (Int.le_of_eq hc)
    | func => exact hzero (Int.le_of_eq (h.func hr).2)

end Steps

/-- `start` returns with `tid_` set and the `Thread` left alone by the thread it has made, whatever the order in which
the two run and however often the wait wakes up; none of its assertions fails, and while it waits the two are never
both stuck. -/
theorem start_handshake [Build] {t : Thread} {steps : List Step} (h : Path step Enabled {} steps t) :
    (t.start = .returned → t.run ≠ .absent → t.tid_ = created ∧ ∀ s, t.Enabled s → ¬Follows s) ∧
      (∀ s, t.Enabled s → ∃ t', t.step s = .ok t') ∧
        (t.start = .waiting → ∃ s, t.Enabled s ∧ s.isSpurious = false) := by
  have hinv : Handshake t := h.invariant initial_handshake fun _ _ _ ht ha hs => ht.step ha hs
  refine ⟨fun hst hrun => ⟨?_, fun s he => hinv.unfollowed hst hrun he⟩, fun s he => hinv.step_ok he, hinv.progress⟩
  have hrel := (hinv.returned hst).resolve_left hrun
  exact hinv.tid (Or.inr (hinv.counted (Or.inr hrel)).2)

end Thread

/-- The new thread counts down while the caller is blocked. -/
theorem Thread.start_handshake_blocked :
    letI := Build.debug
    letI : Threads := ⟨1, 2, by decide, by decide, by decide⟩
    let steps : List Thread.Step := [.start true, .latch (.proceed 1), .latch (.proceed 1), .latch (.proceed 1), .assignTid,
      .countDown, .latch (.proceed 2), .latch (.proceed 2), .latch (.proceed 2), .latch (.proceed 2), .latch (.proceed 1),
      .latch (.proceed 1), .latch (.proceed 1), .startReturns]
    ∃ t, Path Thread.step Thread.Enabled {} steps t ∧ t.tid_ = 2 ∧ ∀ s, t.Enabled s → ¬Thread.Follows s := by
  let _ := Build.debug
  let _ : Threads := ⟨1, 2, by decide, by decide, by decide⟩
  intro steps
  obtain ⟨t, ht, hr⟩ := Path.exists_of_any Thread.step Thread.Enabled {} steps
    (fun t => decide (t.start = .returned ∧ t.run ≠ .absent)) (by decide +kernel)
  have hr := of_decide_eq_true hr
  exact ⟨t, ht, (Thread.start_handshake ht).1 hr.1 hr.2⟩

end Networker
