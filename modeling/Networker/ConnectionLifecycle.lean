import Mathlib.Data.List.Nodup
import Networker.ConnectionSteps

/-!
From `connectEstablished` to the close: what holds of a connection in every
state its loop can bring it to.
-/

namespace Networker.TcpConnection

open CheckedRuns EPollPoller

/-- The events of one `poll` that make `handleEventWithGuard` call the close callback first. -/
def HungUp (revents : BitVec 32) : Prop :=
  Channel.has revents POLLHUP = true ∧ Channel.has revents POLLIN = false

instance (revents : BitVec 32) : Decidable (HungUp revents) := inferInstanceAs (Decidable (_ ∧ _))

theorem handleEventWithGuard_shape (revents : BitVec 32) :
    (Channel.handleEventWithGuard revents).Nodup ∧
      (.close ∈ Channel.handleEventWithGuard revents → HungUp revents) ∧
      .close ∉ (Channel.handleEventWithGuard revents).tail := by
  simp only [Channel.handleEventWithGuard, HungUp]
  cases Channel.has revents POLLHUP <;> cases Channel.has revents POLLIN <;>
    cases Channel.has revents (POLLERR ||| POLLNVAL) <;>
    cases Channel.has revents (POLLIN ||| POLLPRI ||| POLLRDHUP) <;>
    cases Channel.has revents POLLOUT <;> decide

structure Up (c : TcpConnection) : Prop where
  lifecycle : c.lifecycle = [.connectionCallback true]
  index : c.channel.index = kAdded
  reading : c.channel.isReading = true
  closeCallback : .closeCallback ∉ c.tasks
  destroyed : .connectDestroyed ∉ c.queue

structure Down (c : TcpConnection) : Prop where
  lifecycle : ∃ state rest, (state = .kConnected ∨ state = .kDisconnecting) ∧
    c.lifecycle = [.connectionCallback true, .handleClose state, .connectionCallback false] ++ rest ∧
    (rest = [] ∨ (.closeCallback ∉ c.tasks ∧ (rest = [.closeCallback] ∨ rest = [.closeCallback, .removeConnection])))
  none : c.channel.isNoneEvent = true
  index : c.channel.index ≠ kAdded

structure Lifecycle (c : TcpConnection) : Prop where
  valid : c.outputBuffer.Valid
  state : c.state ≠ .kConnecting
  registered : c.Registered
  nodup : c.tasks.Nodup
  remove : .remove ∉ c.tasks
  closing : .channel .close ∈ c.tasks → c.live ∧ HungUp c.channel.revents
  closing_first : .channel .close ∉ c.tasks.tail
  reading : .channel .read ∈ c.tasks → c.live ∨ HungUp c.channel.revents
  up : c.live → Up c
  down : ¬c.live → Down c

theorem trace_count (c : TcpConnection) {e : Event} (he : e.isLifecycle = true) :
    c.trace.count e = c.lifecycle.count e := (List.count_filter he).symm

namespace Lifecycle

variable {c c' : TcpConnection}

theorem quiet (h : Lifecycle c) (hq : Quiet c c') : Lifecycle c' where
  valid := hq.valid
  state := by
    rcases hq.state with hs | ⟨-, hl⟩
    · exact hs ▸ h.state
    · rcases hl with hl | hl <;> simp [hl]
  registered := hq.registered h.registered
  nodup := hq.tasks ▸ h.nodup
  remove := hq.tasks ▸ h.remove
  closing := by
    rw [hq.tasks, hq.live_iff, hq.revents]
    exact h.closing
  closing_first := hq.tasks ▸ h.closing_first
  reading := by
    rw [hq.tasks, hq.live_iff, hq.revents]
    exact h.reading
  up := fun hl =>
    have hu := h.up (hq.live_iff.mp hl)
    ⟨hq.lifecycle.trans hu.lifecycle, (hq.reading hu.index hu.reading).1, (hq.reading hu.index hu.reading).2,
      hq.tasks ▸ hu.closeCallback, fun hd => hu.destroyed (hq.queue hd)⟩
  down := fun hl =>
    have hc : ¬c.live := fun h' => hl (hq.live_iff.mpr h')
    have hd := h.down hc
    ⟨by rw [hq.lifecycle, hq.tasks]; exact hd.lifecycle, hq.none hc hd.none, hq.index hc hd.index⟩

theorem pop (h : Lifecycle c) {t : Task} {ts : List Task} (ht : c.tasks = t :: ts) :
    Lifecycle { c with tasks := ts } where
  valid := h.valid
  state := h.state
  registered := h.registered
  nodup := (List.nodup_cons.mp (ht ▸ h.nodup)).2
  remove := fun hm => h.remove (ht ▸ List.mem_cons_of_mem t hm)
  closing := fun hm => h.closing (ht ▸ List.mem_cons_of_mem t hm)
  closing_first := fun hm => h.closing_first (by rw [ht]; exact List.mem_of_mem_tail hm)
  reading := fun hm => h.reading (ht ▸ List.mem_cons_of_mem t hm)
  up := fun hl =>
    have hu := h.up hl
    ⟨hu.lifecycle, hu.index, hu.reading, fun hm => hu.closeCallback (ht ▸ List.mem_cons_of_mem t hm), hu.destroyed⟩
  down := fun hl =>
    have hd := h.down hl
    have ⟨state, rest, hs, hlc, hr⟩ := hd.lifecycle
    ⟨⟨state, rest, hs, hlc, hr.imp id fun hr => ⟨fun hm => hr.1 (ht ▸ List.mem_cons_of_mem t hm), hr.2⟩⟩,
      hd.none, hd.index⟩

theorem event (h : Lifecycle c) {revents : BitVec 32} (he : c.Enabled (.event revents)) :
    Lifecycle { c with
      channel := { c.channel with revents }
      tasks := (Channel.handleEventWithGuard revents).map .channel } := by
  obtain ⟨-, hi, -⟩ := he
  have hl : c.live := by
    by_contra hl
    exact (h.down hl).index hi
  have hu := h.up hl
  have hshape := handleEventWithGuard_shape revents
  refine ⟨h.valid, h.state, h.registered, ?_, by simp, ?_, ?_, fun _ => Or.inl hl, fun _ => ?_, fun hn => absurd hl hn⟩
  · exact List.Nodup.map (fun _ _ he => Task.channel.inj he) hshape.1
  · intro hm
    exact ⟨hl, hshape.2.1 (by simpa using hm)⟩
  · simpa [← List.map_tail] using hshape.2.2
  · exact ⟨hu.lifecycle, hu.index, hu.reading, by simp, hu.destroyed⟩

theorem closeCallback (h : Lifecycle c) {ts : List Task} (ht : c.tasks = .closeCallback :: ts) :
    Lifecycle (log { c with tasks := ts } .closeCallback) := by
  have hp := h.pop ht
  have hl : ¬c.live := fun hl => (h.up hl).closeCallback (by simp [ht])
  have hn : .closeCallback ∉ ts := (List.nodup_cons.mp (ht ▸ h.nodup)).1
  refine ⟨hp.valid, hp.state, hp.registered.mono rfl (List.subset_append_left _ _), hp.nodup, hp.remove, hp.closing, hp.closing_first, hp.reading,
    fun hl' => absurd hl' hl, fun _ => ?_⟩
  obtain ⟨state, rest, hs, hlc, hr⟩ := (h.down hl).lifecycle
  have hrest : rest = [] := hr.resolve_right fun hr => hr.1 (by simp [ht])
  subst hrest
  refine ⟨⟨state, [.closeCallback], hs, ?_, Or.inr ⟨hn, Or.inl rfl⟩⟩, (h.down hl).none, (h.down hl).index⟩
  have hlc' : lifecycle { c with tasks := ts } = _ := hlc
  simp [Event.isLifecycle, hlc']

theorem removeConnection (h : Lifecycle c) (he : c.Enabled .removeConnection) :
    Lifecycle ((c.log .removeConnection).queueInLoop .connectDestroyed) := by
  simp only [Enabled, trace_count c (e := .removeConnection) rfl, trace_count c (e := .closeCallback) rfl] at he
  have hl : ¬c.live := by
    intro hl
    rw [(h.up hl).lifecycle] at he
    exact absurd he (by decide)
  obtain ⟨state, rest, hs, hlc, hr⟩ := (h.down hl).lifecycle
  have hrest : .closeCallback ∉ c.tasks ∧ rest = [.closeCallback] := by
    rw [hlc] at he
    rcases hr with rfl | ⟨hn, rfl | rfl⟩
    · exact absurd he (by simp)
    · exact ⟨hn, rfl⟩
    · exact absurd he (by simp)
  refine ⟨h.valid, h.state, h.registered.mono rfl (List.subset_append_left _ _), h.nodup, h.remove, h.closing,
    h.closing_first, h.reading, fun hl' => absurd hl' hl, fun _ => ⟨⟨state, [.closeCallback, .removeConnection], hs, ?_, Or.inr ⟨hrest.1, Or.inr rfl⟩⟩, (h.down hl).none,
      (h.down hl).index⟩⟩
  change (c.log .removeConnection).lifecycle = _
  simp [Event.isLifecycle, hlc, hrest.2]

theorem isWriting_live (h : Lifecycle c) (hw : c.channel.isWriting = true) : c.live := by
  by_contra hl
  have hn := (h.down hl).none
  rw [Channel.isNoneEvent, beq_iff_eq] at hn
  rw [Channel.isWriting, hn] at hw
  exact absurd hw (by decide)

variable [Build]

theorem handleClose (h : Lifecycle c) (hl : c.live) (hclose : .channel .close ∉ c.tasks)
    (hread : .channel .read ∈ c.tasks → HungUp c.channel.revents) (hc : c.handleClose = .ok c') : Lifecycle c' := by
  have hu := h.up hl
  rw [handleClose_eq hc]
  refine ⟨h.valid, by simp [closed], Or.inl (c.channel.change_ne_new _), ?_, ?_, ?_, ?_, ?_, ?_, ?_⟩
  · exact List.nodup_cons.mpr ⟨hu.closeCallback, h.nodup⟩
  · simpa [closed] using h.remove
  · intro hm
    simp [closed, hclose] at hm
  · simpa [closed] using hclose
  · intro hm
    exact Or.inr (hread (by simpa [closed] using hm))
  · intro hl'
    simp [live, closed] at hl'
  · intro _
    refine ⟨⟨c.state, [], hl, ?_, Or.inl rfl⟩, rfl, ?_⟩
    · have hlc := hu.lifecycle
      simp only [lifecycle] at hlc
      simp [lifecycle, closed, hlc, Event.isLifecycle]
    · simp [closed, c.channel.disableAll_index hu.index, kDeleted, kAdded]

theorem removeChannel (h : Lifecycle c) (hl : ¬c.live) (hc : c.removeChannel = .ok c') : Lifecycle c' := by
  rw [removeChannel_eq hc]
  refine h.quiet { Quiet.refl h.valid with
    lifecycle := by simp [lifecycle, removed, Event.isLifecycle]
    reading := fun hi => absurd hi (h.down hl).index
    index := fun _ _ => by simp [removed, kNew, kAdded]
    registered := fun _ => Or.inr ⟨_, _, List.mem_append_right _ (List.mem_singleton_self _)⟩ }

end Lifecycle

/-- The steps of a run that keep the connection to a single close. `connectDestroyed` comes from the owner's
`removeConnection` alone; nobody starts reading on a connection that is down; and an event that reports a hang-up
without `POLLIN`, so that the close callback is called first, does not also find the end of the stream. -/
def ClosesOnce (c : TcpConnection) : Step → Prop
  | .call onLoop call => onLoop = true → call = .startRead → c.state ≠ .kDisconnected
  | .task r _ => c.tasks.head? = some (.channel .read) → r = .read [] → ¬HungUp c.channel.revents
  | .functor _ => (c.functors.getD []).head? = some .startReadInLoop → c.state ≠ .kDisconnected
  | .destroy => False
  | .event _ | .delayedClose | .removeConnection | .doPendingFunctors => True

instance (c : TcpConnection) : (s : Step) → Decidable (c.ClosesOnce s)
  | .call _ _ | .task _ _ => inferInstanceAs (Decidable (_ → _ → _))
  | .functor _ => inferInstanceAs (Decidable (_ → _))
  | .destroy => inferInstanceAs (Decidable False)
  | .event _ | .delayedClose | .removeConnection | .doPendingFunctors => inferInstanceAs (Decidable True)

structure SingleClose (c : TcpConnection) : Prop where
  handleClose : (c.trace.filter fun e => e matches .handleClose _).length ≤ 1
  never_down : .handleClose .kDisconnected ∉ c.trace
  up : c.trace.count (.connectionCallback true) = 1
  down : c.trace.count (.connectionCallback false) ≤ 1
  closeCallback : c.trace.count .closeCallback ≤ 1
  noneEvent : .connectionCallback false ∈ c.trace → c.channel.events = Channel.kNoneEvent

/-- The part of the record that opens and closes a connection has one of five forms. -/
theorem Lifecycle.record {c : TcpConnection} (h : Lifecycle c) :
    (c.live ∧ c.lifecycle = [.connectionCallback true]) ∨
      (c.channel.events = Channel.kNoneEvent ∧ ∃ state rest, (state = .kConnected ∨ state = .kDisconnecting) ∧
        c.lifecycle = [.connectionCallback true, .handleClose state, .connectionCallback false] ++ rest ∧
        (rest = [] ∨ rest = [.closeCallback] ∨ rest = [.closeCallback, .removeConnection])) := by
  by_cases hl : c.live
  · exact Or.inl ⟨hl, (h.up hl).lifecycle⟩
  · obtain ⟨state, rest, hs, hlc, hr⟩ := (h.down hl).lifecycle
    have hn := (h.down hl).none
    rw [Channel.isNoneEvent, beq_iff_eq] at hn
    exact Or.inr ⟨hn, state, rest, hs, hlc, hr.imp id And.right⟩

theorem Lifecycle.singleClose {c : TcpConnection} (h : Lifecycle c) : SingleClose c := by
  have hmem {e : Event} (he : e.isLifecycle = true) : e ∈ c.trace ↔ e ∈ c.lifecycle := by simp [lifecycle, he]
  have hfilter : (c.trace.filter fun e => e matches .handleClose _) =
      c.lifecycle.filter fun e => e matches .handleClose _ := by
    rw [lifecycle, List.filter_filter]
    congr 1
    funext e
    cases e <;> rfl
  rcases h.record with ⟨-, hlc⟩ | ⟨hn, state, rest, hs, hlc, hr⟩
  · refine ⟨?_, ?_, ?_, ?_, ?_, ?_⟩
    · simp [hfilter, hlc]
    · simp [hmem (e := .handleClose _) rfl, hlc]
    · simp [trace_count c (e := .connectionCallback true) rfl, hlc]
    · simp [trace_count c (e := .connectionCallback false) rfl, hlc]
    · simp [trace_count c (e := .closeCallback) rfl, hlc]
    · simp [hmem (e := .connectionCallback false) rfl, hlc]
  · refine ⟨?_, ?_, ?_, ?_, ?_, fun _ => hn⟩
    · rcases hr with rfl | rfl | rfl <;> simp [hfilter, hlc]
    · rcases hr with rfl | rfl | rfl <;> rcases hs with rfl | rfl <;>
        simp [hmem (e := .handleClose _) rfl, hlc]
    · rcases hr with rfl | rfl | rfl <;> simp [trace_count c (e := .connectionCallback true) rfl, hlc]
    · rcases hr with rfl | rfl | rfl <;> simp [trace_count c (e := .connectionCallback false) rfl, hlc]
    · rcases hr with rfl | rfl | rfl <;> simp [trace_count c (e := .closeCallback) rfl, hlc]

theorem established_lifecycle (fd : ℤ) (writeComplete highWater : Bool) (highWaterMark : ℕ) :
    Lifecycle (established fd writeComplete highWater highWaterMark) where
  valid := Buffer.initial_valid initialSize_le
  state := by simp [established]
  registered := Or.inl (Channel.change_ne_new _ _)
  nodup := List.nodup_nil
  remove := by simp [established]
  closing := by simp [established]
  closing_first := by simp [established]
  reading := by simp [established]
  up := fun _ => ⟨rfl, rfl, Channel.isReading_enableReading _, by simp [established],
    by simp [established, queue]⟩
  down := fun h => absurd (Or.inl rfl) h

section Runs

variable [Build] {c c' : TcpConnection}

theorem runTask_lifecycle {t : Task} {ts : List Task} (ht : c.tasks = t :: ts) (h : Lifecycle c)
    {r : Buffer.ReadResult} {w : WriteResult} (ha : c.ClosesOnce (.task r w))
    (hs : runTask { c with tasks := ts } r w t = .ok c') : Lifecycle c' := by
  have hp := h.pop ht
  have hnd := List.nodup_cons.mp (ht ▸ h.nodup)
  cases t with
  | channel callback =>
    cases callback with
    | close =>
      have hc := h.closing (by simp [ht])
      exact hp.handleClose hc.1 hnd.1 (fun _ => hc.2) hs
    | error =>
      cases hs
      exact hp
    | read =>
      obtain ⟨b, ⟨rfl, hclose⟩ | ⟨-, rfl | ⟨n, rfl⟩⟩⟩ := handleRead_inv hs
      · have hq : Quiet { c with tasks := ts } { c with tasks := ts, inputBuffer := b } :=
          { Quiet.refl hp.valid with }
        have hl : c.live := (h.reading (by simp [ht])).resolve_right (ha (by simp [ht]) rfl)
        refine (hp.quiet hq).handleClose hl ?_ (fun hm => absurd hm hnd.1) hclose
        simpa [ht] using h.closing_first
      · exact hp.quiet { Quiet.refl hp.valid with }
      · have hq : Quiet { c with tasks := ts } { c with tasks := ts, inputBuffer := b } :=
          { Quiet.refl hp.valid with }
        exact hp.quiet (hq.log rfl)
    | write => exact hp.quiet (handleWrite_quiet hp.valid hp.isWriting_live hs)
  | closeCallback =>
    cases hs
    exact h.closeCallback ht
  | remove => exact absurd (by simp [ht]) h.remove

theorem runFunctor_lifecycle {f : Functor} {fs : List Functor} (hf : c.functors = some (f :: fs)) (h : Lifecycle c)
    {w : WriteResult} (he : c.Enabled (.functor w)) (ha : c.ClosesOnce (.functor w))
    (hs : runFunctor { c with functors := some fs } w f = .ok c') : Lifecycle c' := by
  have hq : Quiet c { c with functors := some fs } :=
    { Quiet.refl h.valid with queue := fun hm => by simp only [queue, hf] at hm ⊢; simp_all }
  have hp := h.quiet hq
  cases f with
  | sendInLoop message => exact hp.quiet (sendInLoop_quiet hp.valid hp.state hs)
  | shutdownInLoop =>
    cases hs
    exact hp.quiet (Quiet.refl hp.valid).shutdownInLoop
  | forceCloseInLoop =>
    simp only [runFunctor, forceCloseInLoop] at hs
    split_ifs at hs with hl
    · have ht : c.tasks = [] := he.1
      exact hp.handleClose hl (by simp [ht]) (by simp [ht]) hs
    · cases hs
      exact hp
  | startReadInLoop =>
    cases hs
    exact hp.quiet (startReadInLoop_quiet hp.valid (live_of_ne h.state (ha (by simp [hf]))))
  | connectDestroyed =>
    have hl : ¬c.live := fun hl => (h.up hl).destroyed (by simp [queue, hf])
    have hd : c.state ≠ .kConnected := fun hd => hl (Or.inl hd)
    simp only [runFunctor, connectDestroyed, if_neg hd] at hs
    exact hp.removeChannel hl hs
  | writeCompleteCallback =>
    cases hs
    exact hp.quiet ((Quiet.refl hp.valid).log rfl)
  | highWaterMarkCallback size =>
    cases hs
    exact hp.quiet ((Quiet.refl hp.valid).log rfl)

theorem step_lifecycle {s : Step} (h : Lifecycle c) (he : c.Enabled s) (ha : c.ClosesOnce s)
    (hs : c.step s = .ok c') : Lifecycle c' := by
  cases s with
  | call onLoop call =>
    exact h.quiet (call_quiet h.valid h.state (fun ho hc => live_of_ne h.state (ha ho hc)) hs)
  | event revents =>
    cases hs
    exact h.event he
  | task r w =>
    obtain ⟨t, ts, ht, hrun⟩ | ⟨ht, -⟩ := task_inv hs
    · exact runTask_lifecycle ht h ha hrun
    · exact absurd ht he
  | delayedClose =>
    cases hs
    have hq : Quiet c { c with delayedCloses := c.delayedCloses - 1 } := { Quiet.refl h.valid with }
    exact h.quiet (hq.trans (forceClose_quiet hq.valid))
  | removeConnection =>
    cases hs
    exact h.removeConnection he
  | doPendingFunctors =>
    cases hs
    exact h.quiet { Quiet.refl h.valid with queue := fun hm => by simp only [queue] at hm ⊢; simp_all }
  | functor w =>
    obtain ⟨f, fs, hf, hrun⟩ | ⟨hf, rfl⟩ := functor_inv hs
    · exact runFunctor_lifecycle hf h he ha hrun
    · exact h.quiet { Quiet.refl h.valid with queue := fun hm => by simpa [queue, hf] using hm }
  | destroy => exact absurd ha id

/-- The step calls `handleClose`. -/
def Closes (c : TcpConnection) : Step → Prop
  | .task r _ => c.tasks.head? = some (.channel .close) ∨ (c.tasks.head? = some (.channel .read) ∧ r = .read [])
  | .functor _ => (c.functors.getD []).head? = some .forceCloseInLoop ∧ c.live
  | .call _ _ | .event _ | .delayedClose | .removeConnection | .doPendingFunctors | .destroy => False

theorem run_lifecycle {fd : ℤ} {writeComplete highWater : Bool} {highWaterMark : ℕ} {c₀ : TcpConnection}
    (h₀ : (create fd writeComplete highWater highWaterMark >>= connectEstablished) = .ok c₀) {steps : List Step}
    (h : Path step (fun c s => c.Enabled s ∧ c.ClosesOnce s) c₀ steps c) : Lifecycle c := by
  cases h₀.symm.trans (create_connectEstablished fd writeComplete highWater highWaterMark)
  exact h.invariant (established_lifecycle fd writeComplete highWater highWaterMark)
    fun t s u ht ha hs => step_lifecycle ht ha.1 ha.2 hs

theorem closes_at_most_once {fd : ℤ} {writeComplete highWater : Bool} {highWaterMark : ℕ} {c₀ : TcpConnection}
    (h₀ : (create fd writeComplete highWater highWaterMark >>= connectEstablished) = .ok c₀) {steps : List Step}
    (h : Path step (fun c s => c.Enabled s ∧ c.ClosesOnce s) c₀ steps c) :
    SingleClose c ∧ ∀ s, c.Enabled s → c.ClosesOnce s → c.Closes s → c.live := by
  have hlc := run_lifecycle h₀ h
  refine ⟨hlc.singleClose, ?_⟩
  intro s he ha hc
  cases s with
  | task r w =>
    rcases hc with hc | ⟨hc, hr⟩
    · exact (hlc.closing (List.mem_of_head? hc)).1
    · exact (hlc.reading (List.mem_of_head? hc)).resolve_right (ha hc hr)
  | functor w => exact hc.2
  | call onLoop call => exact absurd hc id
  | event revents => exact absurd hc id
  | delayedClose => exact absurd hc id
  | removeConnection => exact absurd hc id
  | doPendingFunctors => exact absurd hc id
  | destroy => exact absurd hc id

end Runs

/-- The peer hangs up while a functor and a timer to close by force are still waiting. -/
theorem closes_at_most_once_hangup :
    letI := Build.debug
    let steps : List Step :=
      [.call false .forceClose, .call true .forceCloseWithDelay, .event (POLLHUP ||| POLLPRI),
        .task (.failed 0) (.wrote 0), .task (.failed 0) (.wrote 0), .task (.read [97]) (.wrote 0), .delayedClose,
        .removeConnection, .doPendingFunctors, .functor (.wrote 0), .functor (.wrote 0)]
    ∃ c, Path step (fun c s => c.Enabled s ∧ c.ClosesOnce s) (established 7 false false 67108864) steps c ∧
      SingleClose c := by
  intro steps
  let _ := Build.debug
  obtain ⟨c, hc, -⟩ := Path.exists_of_any step (fun c s => c.Enabled s ∧ c.ClosesOnce s)
    (established 7 false false 67108864) steps (fun _ => true) (by decide +kernel)
  exact ⟨c, hc, (closes_at_most_once (create_connectEstablished 7 false false 67108864) hc).1⟩

/-- Reading started again from the down callback leaves events registered, and a hang-up reported with `POLLPRI` but
without `POLLIN` closes twice when the read finds the end of the stream. -/
theorem closes_twice :
    letI := Build.release
    let restarted : List Step := [.event POLLHUP, .task (.failed 0) (.wrote 0), .call true .startRead]
    let hungUp : List Step := [.event (POLLHUP ||| POLLPRI), .task (.failed 0) (.wrote 0), .task (.failed 0) (.wrote 0),
      .task (.read []) (.wrote 0)]
    (∃ c, Path step Enabled (established 7 false false 67108864) restarted c ∧ ¬SingleClose c) ∧
      ∃ c, Path step Enabled (established 7 false false 67108864) hungUp c ∧ ¬SingleClose c := by
  intro restarted hungUp
  let _ := Build.release
  constructor
  · obtain ⟨c, hc, hp⟩ := Path.exists_of_any step Enabled (established 7 false false 67108864) restarted
      (fun c => decide (.connectionCallback false ∈ c.trace ∧ c.channel.events ≠ Channel.kNoneEvent))
      (by decide +kernel)
    have ⟨hdown, hevents⟩ := of_decide_eq_true hp
    exact ⟨c, hc, fun h => hevents (h.noneEvent hdown)⟩
  · obtain ⟨c, hc, hp⟩ := Path.exists_of_any step Enabled (established 7 false false 67108864) hungUp
      (fun c => decide (.handleClose .kDisconnected ∈ c.trace)) (by decide +kernel)
    exact ⟨c, hc, fun h => h.never_down (of_decide_eq_true hp)⟩

end Networker.TcpConnection
