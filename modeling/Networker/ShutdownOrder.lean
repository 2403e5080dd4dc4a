import Networker.HalfClose
import Networker.SendPaths

/-!
Threads that send and one that shuts down: when the write half of the socket is
shut down, everything sent before has been written.
-/

namespace Networker.TcpConnection

open CheckedRuns

def waitingOf : List Functor → List (List UInt8)
  | [] => []
  | .sendInLoop s :: q => cString s :: waitingOf q
  | .shutdownInLoop :: q | .forceCloseInLoop :: q | .startReadInLoop :: q | .connectDestroyed :: q
  | .writeCompleteCallback :: q | .highWaterMarkCallback _ :: q => waitingOf q

def waiting (c : TcpConnection) : List (List UInt8) := waitingOf c.queue

def messages (c : TcpConnection) : List (List UInt8) := c.handed.map Prod.fst

theorem waitingOf_append (p q : List Functor) : waitingOf (p ++ q) = waitingOf p ++ waitingOf q := by
  induction p with
  | nil => rfl
  | cons f p ih => cases f <;> simp [waitingOf, ih]

theorem waitingOf_eq_nil {q : List Functor} (h : ∀ f ∈ q, ∀ s, f ≠ .sendInLoop s) : waitingOf q = [] := by
  induction q with
  | nil => rfl
  | cons f q ih =>
    have hq := ih fun g hg => h g (List.mem_cons_of_mem f hg)
    cases f with
    | sendInLoop s => exact absurd rfl (h _ (by simp) s)
    | _ => exact hq

theorem notification_ne_send {extra : List Functor} (h : ∀ f ∈ extra, Notification f) :
    ∀ f ∈ extra, ∀ s, f ≠ .sendInLoop s := by
  rintro f hf s rfl
  exact h _ hf

/-- Every byte of the connection is accounted for. `inFlight` are messages taken from the queue, or from a caller,
that `sendInLoop` has not yet been given. -/
structure InOrder (c : TcpConnection) (inFlight : List (List UInt8)) : Prop where
  small : ∀ s, .sendInLoop s ∈ c.queue → s.length < 2 ^ 31
  fifo : c.queue.Pairwise fun f g => f = .shutdownInLoop → ∀ s, g ≠ .sendInLoop s
  stream : c.live → c.stream = c.messages.flatten
  sent : c.live → (c.messages ++ inFlight ++ c.waiting).Perm c.sent
  silent : ∀ state queued accepted, .shutdownWrite state queued accepted ∈ c.trace → c.state ≠ .kConnected
  complete : ∀ state queued accepted, .shutdownWrite state queued accepted ∈ c.trace →
    ∃ order : List (List UInt8), order.Perm c.sent ∧ accepted = order.flatten

namespace InOrder

variable {c c' : TcpConnection} {inFlight : List (List UInt8)}

theorem frame (h : InOrder c inFlight) (hl : c'.live → c.live) (hk : c'.state = .kConnected → c.state = .kConnected)
    (hstream : c'.stream = c.stream) (hsent : c'.sent = c.sent) (hhanded : c'.handed = c.handed)
    (ht : ∀ e : Event, e.isShutdown = true → (e ∈ c'.trace ↔ e ∈ c.trace)) (hq : c'.queue = c.queue) :
    InOrder c' inFlight where
  small := hq ▸ h.small
  fifo := hq ▸ h.fifo
  stream := fun hl' => by
    rw [hstream, messages, hhanded]
    exact h.stream (hl hl')
  sent := fun hl' => by
    rw [messages, hhanded, waiting, hq, hsent]
    exact h.sent (hl hl')
  silent := fun state queued accepted hm hs => h.silent state queued accepted ((ht _ rfl).mp hm) (hk hs)
  complete := fun state queued accepted hm => hsent ▸ h.complete state queued accepted ((ht _ rfl).mp hm)

theorem push (h : InOrder c inFlight) {extra : List Functor} (hx : ∀ f ∈ extra, ∀ s, f ≠ .sendInLoop s) :
    InOrder { c with pendingFunctors := c.pendingFunctors ++ extra } inFlight := by
  have hq : queue { c with pendingFunctors := c.pendingFunctors ++ extra } = c.queue ++ extra := by
    simp [queue]
  refine ⟨?_, ?_, h.stream, ?_, h.silent, h.complete⟩
  · intro s hs
    rw [hq] at hs
    rcases List.mem_append.mp hs with hs | hs
    · exact h.small s hs
    · exact absurd rfl (hx _ hs s)
  · rw [hq, List.pairwise_append]
    refine ⟨h.fifo, ?_, fun f _ g hg _ => hx g hg⟩
    exact List.Pairwise.imp_of_mem (fun _ hg _ _ => hx _ hg) (List.pairwise_of_forall (R := fun _ _ => True) fun _ _ => trivial)
  · intro hl
    rw [waiting, hq, waitingOf_append, waitingOf_eq_nil hx, List.append_nil]
    exact h.sent hl

theorem log (h : InOrder c inFlight) {e : Event} (he : e.isShutdown = false) : InOrder (c.log e) inFlight := by
  refine h.frame id id rfl rfl rfl ?_ rfl
  intro e' he'
  have hne : e' ≠ e := by
    rintro rfl
    exact absurd (he'.symm.trans he) (by decide)
  simp [TcpConnection.log, hne]

theorem pop (h : InOrder c []) {f : Functor} {fs : List Functor} (hf : c.functors = some (f :: fs)) :
    InOrder { c with functors := some fs } (waitingOf [f]) := by
  have hq : c.queue = f :: queue { c with functors := some fs } := by simp [queue, hf]
  refine ⟨?_, ?_, h.stream, ?_, h.silent, h.complete⟩
  · intro s hs
    exact h.small s (hq ▸ List.mem_cons_of_mem f hs)
  · exact (List.pairwise_cons.mp (hq ▸ h.fifo)).2
  · intro hl
    have hs := h.sent hl
    rw [waiting, hq, ← List.singleton_append, waitingOf_append, List.append_nil, ← List.append_assoc] at hs
    exact hs

/-- `sendInLoop` puts the message in flight behind everything it was given before. -/
theorem keep {message : List UInt8} (h : InOrder c [message]) {n : ℕ} {b : Buffer} {ch : Channel}
    {extra : List Functor} (hk : c.Kept message n b ch extra) : InOrder (c.keep message n b ch extra) [] := by
  have hp := h.push (notification_ne_send hk.notifies)
  have hm : (c.keep message n b ch extra).messages = c.messages ++ [message] := by
    simp [messages, TcpConnection.keep]
  refine ⟨hp.small, hp.fifo, ?_, ?_, hp.silent, hp.complete⟩
  · intro hl
    rw [hk.stream_eq, h.stream hl, hm]
    simp
  · intro hl
    rw [hm, List.append_nil]
    exact hp.sent hl

theorem take (h : InOrder c []) (hc : c.state = .kConnected) (message : List UInt8) :
    InOrder { c with sent := c.sent ++ [message] } [message] := by
  refine ⟨h.small, h.fifo, h.stream, ?_, h.silent, ?_⟩
  · intro hl
    have hs : (c.messages ++ c.waiting).Perm c.sent := by simpa using h.sent hl
    calc c.messages ++ [message] ++ c.waiting
      _ = c.messages ++ message :: c.waiting := by simp
      _ |>.Perm (message :: (c.messages ++ c.waiting)) := List.perm_middle
      _ |>.Perm (message :: c.sent) := hs.cons message
      _ |>.Perm (c.sent ++ [message]) := (List.perm_append_singleton message c.sent).symm
  · intro state queued accepted hm
    exact absurd hc (h.silent state queued accepted hm)

theorem pushSend {message s : List UInt8} (h : InOrder c [message]) (hs : s.length < 2 ^ 31)
    (hm : cString s = message) (hq : .shutdownInLoop ∉ c.queue) : InOrder (c.queueInLoop (.sendInLoop s)) [] := by
  have hqueue : (c.queueInLoop (.sendInLoop s)).queue = c.queue ++ [.sendInLoop s] := by
    simp [queue, TcpConnection.queueInLoop]
  refine ⟨?_, ?_, h.stream, ?_, h.silent, h.complete⟩
  · intro t ht
    rw [hqueue] at ht
    rcases List.mem_append.mp ht with ht | ht
    · exact h.small t ht
    · cases List.mem_singleton.mp ht
      exact hs
  · rw [hqueue, List.pairwise_append]
    refine ⟨h.fifo, List.pairwise_singleton _ _, ?_⟩
    rintro f hf g - rfl
    exact absurd hf hq
  · intro hl
    have hp : (c.messages ++ [message] ++ c.waiting).Perm c.sent := h.sent hl
    rw [waiting, hqueue, waitingOf_append, List.append_nil, ← waiting]
    refine List.Perm.trans ?_ hp
    simp only [waitingOf, hm, List.append_assoc]
    exact (List.perm_append_comm).append_left _

theorem refuse (h : InOrder c inFlight) (hd : ¬c.live) (handed : List (List UInt8 × Fate)) :
    InOrder { c with handed } [] :=
  ⟨h.small, h.fifo, fun hl => absurd hl hd, fun hl => absurd hl hd, h.silent, h.complete⟩

/-- `shutdownInLoop` shuts down only when the buffer is empty, so nothing may be waiting behind it. -/
theorem shutdownInLoop (h : InOrder c []) (hl : c.live) (hs : c.state ≠ .kConnected)
    (hi : c.channel.isWriting = true ↔ c.outputBuffer.readable ≠ [])
    (hw : c.channel.isWriting = false → c.waiting.flatten = []) : InOrder c.shutdownInLoop [] := by
  unfold TcpConnection.shutdownInLoop
  dsimp only
  split_ifs with hwriting
  · refine ⟨h.small, h.fifo, h.stream, h.sent, fun _ _ _ _ => hs, ?_⟩
    simpa [TcpConnection.log] using h.complete
  · have hw' : c.channel.isWriting = false := by simpa [TcpConnection.log] using hwriting
    have hempty : c.outputBuffer.readable = [] := by
      by_contra hr
      exact hwriting (hi.mpr hr)
    refine ⟨h.small, h.fifo, h.stream, h.sent, fun _ _ _ _ => hs, ?_⟩
    intro state queued accepted hm
    simp only [TcpConnection.log, List.append_assoc, List.mem_append, List.mem_cons, List.not_mem_nil, or_false,
      reduceCtorEq, false_or] at hm
    rcases hm with hm | hm
    · exact h.complete state queued accepted hm
    · cases hm
      have hsent : (c.messages ++ c.waiting).Perm c.sent := by simpa using h.sent hl
      have hst := h.stream hl
      rw [TcpConnection.stream, hempty, List.append_nil] at hst
      exact ⟨c.messages ++ c.waiting, hsent, by rw [List.flatten_append, hw hw', List.append_nil, ← hst]⟩

theorem setDisconnecting (h : InOrder c inFlight) (hl : c.live) :
    InOrder { c with state := .kDisconnecting } inFlight :=
  h.frame (fun _ => hl) (fun hk => by cases hk) rfl rfl rfl (fun _ _ => Iff.rfl) rfl

theorem forceClose (h : InOrder c []) : InOrder c.forceClose [] := by
  unfold TcpConnection.forceClose
  split_ifs with hl
  · exact (h.setDisconnecting hl).push (by simp)
  · exact h

theorem forceCloseWithDelay (h : InOrder c []) : InOrder c.forceCloseWithDelay [] := by
  unfold TcpConnection.forceCloseWithDelay
  split_ifs with hl
  · exact { h.setDisconnecting hl with }
  · exact h

theorem startReadInLoop (h : InOrder c []) : InOrder c.startReadInLoop [] := by
  unfold TcpConnection.startReadInLoop
  split_ifs
  · exact { h with }
  · exact h

theorem closed (h : InOrder c []) : InOrder c.closed [] := by
  refine h.frame (fun hl => ?_) (fun hk => by cases hk) rfl rfl rfl ?_ rfl
  · simp [live, TcpConnection.closed] at hl
  · intro e he
    cases e <;> simp_all [TcpConnection.closed, Event.isShutdown]

theorem removed (h : InOrder c []) : InOrder c.removed [] := by
  refine h.frame id id rfl rfl rfl ?_ rfl
  intro e he
  cases e <;> simp_all [TcpConnection.removed, Event.isShutdown]

variable [Build]

theorem connectDestroyed (h : InOrder c []) (hs : c.connectDestroyed = .ok c') : InOrder c' [] := by
  unfold TcpConnection.connectDestroyed at hs
  split_ifs at hs
  · cases hs
    refine h.frame (fun hl => ?_) (fun hk => by cases hk) rfl rfl rfl ?_ rfl
    · simp [live, TcpConnection.log] at hl
    · intro e he
      cases e <;> simp_all [TcpConnection.log, Event.isShutdown]
  · rw [removeChannel_eq hs]
    exact h.removed

theorem sendInLoop {message : List UInt8} (h : InOrder c [message]) (hv : c.outputBuffer.Valid)
    {data : List UInt8} {len : ℕ} {w : WriteResult} (hm : bytesAt data len = .ok message)
    (hf : c.state ≠ .kDisconnected → ¬c.Faults w) (hs : c.sendInLoop data len w = .ok c') : InOrder c' [] := by
  obtain ⟨message', hm', ⟨hd, rfl⟩ | ⟨hd, hf', -⟩ | ⟨-, -, n, b, ch, extra, hkept, rfl⟩⟩ := sendInLoop_inv hv hs
  · exact h.refuse (by simp [live, hd]) _
  · exact absurd hf' (hf hd)
  · cases hm.symm.trans hm'
    exact h.keep hkept

theorem handleWrite (h : InOrder c []) (hh : HalfClose c) {w : WriteResult}
    (hw : c.state = .kDisconnecting → c.channel.isWriting = true →
      writeAccepted c.outputBuffer.readable w = c.outputBuffer.readable → c.waiting.flatten = [])
    (hs : c.handleWrite w = .ok c') : InOrder c' [] := by
  have hstream := (handleWrite_stream hh.valid hs).2.1
  rcases handleWrite_cases hh.valid w with ⟨-, he⟩ | ⟨hwriting, -, b, hbv, hsplit, hc⟩
  · cases he.symm.trans hs
    exact h
  · rcases hc with ⟨-, he⟩ | ⟨hb, extra, hx, he⟩
    · cases he.symm.trans hs
      exact h.frame id id hstream rfl rfl (fun _ _ => Iff.rfl) rfl
    · have hall : writeAccepted c.outputBuffer.readable w = c.outputBuffer.readable := by
        simpa [hb] using hsplit
      let d : TcpConnection := { c with
        accepted := c.accepted ++ writeAccepted c.outputBuffer.readable w
        outputBuffer := b
        channel := c.channel.disableWriting
        pendingFunctors := c.pendingFunctors ++ extra }
      have hx' := notification_ne_send hx
      have hd : InOrder d [] :=
        (h.push hx').frame id id (by simp [TcpConnection.stream, d, hb, hall]) rfl rfl (fun _ _ => Iff.rfl) rfl
      have hwait : d.waiting = c.waiting := by
        simp [waiting, queue, d, waitingOf_append, waitingOf_eq_nil hx']
      cases he.symm.trans hs
      split_ifs with hdis
      · exact hd.shutdownInLoop (Or.inr hdis) (by simp [d, hdis]) (by simp [d, hb])
          fun _ => (congrArg List.flatten hwait).trans (hw hdis hwriting hall)
      · exact hd

/-- A caller's message reaches `sendInLoop`, or a functor, with all its bytes. -/
theorem send (hh : HalfClose c) (h : InOrder c []) {onLoop : Bool} {message : Message} {w : WriteResult}
    (ha : c.state = .kConnected → message.Holds message.bytes ∧ message.bytes.length < 2 ^ 31 ∧
      (0 ∉ message.bytes ∨ (onLoop = true ∧ message.isString = false)) ∧ (onLoop = true → ¬c.Faults w))
    (hs : c.send onLoop message w = .ok c') : InOrder c' [] := by
  obtain ⟨-, rfl⟩ | ⟨hc, ⟨rfl, data, len, he⟩ | ⟨rfl, s, rfl⟩⟩ := send_inv hs
  · exact h
  · obtain ⟨hm, hlen, hway, hf⟩ := ha hc
    have hbytes : (if message.isString then cString message.bytes else message.bytes) = message.bytes := by
      rcases hway with hn | ⟨-, hn⟩
      · rw [(cString_eq_self_iff _).mpr hn, ite_self]
      · simp [hn]
    have hgiven := send_onLoop_hands hc hm hlen w hh.valid
    rw [hbytes, Hands, if_pos rfl, hs] at hgiven
    have hsent := h.take hc message.bytes
    obtain ⟨message', hm', hcases⟩ := sendInLoop_inv (c := { c with sent := c.sent ++ [message.bytes] }) hh.valid he
    have hsame : message' = message.bytes := by
      rcases hcases with ⟨-, rfl⟩ | ⟨-, -, rfl⟩ | ⟨-, -, n, b, ch, extra, -, rfl⟩
      · simpa [Receives] using hgiven
      · simpa [Receives] using hgiven
      · simpa [Receives, TcpConnection.keep] using hgiven
    exact hsent.sendInLoop hh.valid (hsame ▸ hm') (fun _ => hf rfl) he
  · obtain ⟨hm, hlen, hway, -⟩ := ha hc
    have hn : 0 ∉ message.bytes := hway.resolve_right fun hway => absurd hway.1 (by decide)
    obtain ⟨s', hs', hcs, he'⟩ := send_foreign_binds hc hm hlen w
    have hss : s = s' := by
      have hcc := Except.ok.inj (hs.symm.trans he')
      simpa [TcpConnection.queueInLoop] using congrArg pendingFunctors hcc
    subst hss
    rw [(cString_eq_self_iff _).mpr hn] at hcs
    refine (h.take hc message.bytes).pushSend hs' hcs ?_
    intro hq
    exact absurd (hc.symm.trans (hh.asked (Or.inl hc) (Or.inr hq))) (by decide)

end InOrder

/-- The steps of a run that let no message be overtaken. What is sent is well formed, short enough for an `int` and
not cut at a NUL; no direct write finds the peer gone; and where a step shuts the socket down (in `shutdown` on the
loop thread, when the output buffer drains, or from the queue) no message is left in the queue and the connection is
still up. -/
def Ordered (c : TcpConnection) : Step → Prop
  | .call onLoop (.send message w) => c.state = .kConnected →
      message.Holds message.bytes ∧ message.bytes.length < 2 ^ 31 ∧
        (0 ∉ message.bytes ∨ (onLoop = true ∧ message.isString = false)) ∧ (onLoop = true → ¬c.Faults w)
  | .call onLoop .shutdown => onLoop = true → c.state = .kConnected → c.channel.isWriting = false →
      c.waiting.flatten = []
  | .call _ _ => True
  | .task _ w => c.tasks.head? = some (.channel .write) → c.state = .kDisconnecting → c.channel.isWriting = true →
      writeAccepted c.outputBuffer.readable w = c.outputBuffer.readable → c.waiting.flatten = []
  | .functor w =>
    match (c.functors.getD []).head? with
    | some (.sendInLoop _) => c.state ≠ .kDisconnected → ¬c.Faults w
    | some .shutdownInLoop => c.live
    | _ => True
  | .event _ | .delayedClose | .removeConnection | .doPendingFunctors | .destroy => True

instance (c : TcpConnection) : (s : Step) → Decidable (c.Ordered s)
  | .call _ (.send _ _) => inferInstanceAs (Decidable (_ → _ ∧ _ ∧ _ ∧ _))
  | .call _ .shutdown => inferInstanceAs (Decidable (_ → _ → _ → _))
  | .call _ .forceClose | .call _ .forceCloseWithDelay | .call _ .startRead | .call _ (.retrieveInput _) =>
    inferInstanceAs (Decidable True)
  | .task _ _ => inferInstanceAs (Decidable (_ → _ → _ → _ → _))
  | .functor w =>
    match h : (c.functors.getD []).head? with
    | some (.sendInLoop _) =>
      decidable_of_iff (c.state ≠ .kDisconnected → ¬c.Faults w) (by simp [Ordered, h])
    | some .shutdownInLoop => decidable_of_iff c.live (by simp [Ordered, h])
    | some .forceCloseInLoop | some .startReadInLoop | some .connectDestroyed | some .writeCompleteCallback
    | some (.highWaterMarkCallback _) | none => isTrue (by simp [Ordered, h])
  | .event _ | .delayedClose | .removeConnection | .doPendingFunctors | .destroy => inferInstanceAs (Decidable True)

/-- Behind a queued `shutdownInLoop` there is no message. -/
theorem waiting_behind_shutdown {c : TcpConnection} {fs : List Functor} (h : InOrder c []) (hf : c.functors = some (.shutdownInLoop :: fs)) :
    waiting { c with functors := some fs } = [] := by
  have hq : c.queue = .shutdownInLoop :: queue { c with functors := some fs } := by simp [queue, hf]
  have hp := (List.pairwise_cons.mp (hq ▸ h.fifo)).1
  exact waitingOf_eq_nil fun g hg => hp g hg rfl

section Runs

variable [Build] {c c' : TcpConnection}

theorem call_inOrder (hh : HalfClose c) (h : InOrder c []) {onLoop : Bool} {call : Call}
    (ha : c.Ordered (.call onLoop call)) (hs : c.call onLoop call = .ok c') : InOrder c' [] := by
  cases call with
  | send message w => exact h.send hh ha hs
  | shutdown =>
    cases hs
    unfold TcpConnection.shutdown
    split_ifs with hc hl
    · have hd := h.setDisconnecting (Or.inl hc)
      exact hd.shutdownInLoop (Or.inr rfl) (by simp) (hh.interest (Or.inl hc)) (ha hl hc)
    · exact (h.setDisconnecting (Or.inl hc)).push (by simp)
    · exact h
  | forceClose =>
    cases hs
    exact h.forceClose
  | forceCloseWithDelay =>
    cases hs
    exact h.forceCloseWithDelay
  | startRead =>
    cases hs
    cases onLoop with
    | true => exact h.startReadInLoop
    | false => exact h.push (by simp)
  | retrieveInput len =>
    obtain ⟨b, -, hb⟩ := bind_eq_ok.mp hs
    cases hb
    exact { h with }

theorem runTask_inOrder (hh : HalfClose c) (h : InOrder c []) {r : Buffer.ReadResult} {w : WriteResult} {t : Task}
    (ha : t = .channel .write → c.state = .kDisconnecting → c.channel.isWriting = true →
      writeAccepted c.outputBuffer.readable w = c.outputBuffer.readable → c.waiting.flatten = [])
    (hs : c.runTask r w t = .ok c') : InOrder c' [] := by
  have hin (b : Buffer) : InOrder { c with inputBuffer := b } [] := { h with }
  obtain ⟨rfl, hwrite⟩ | rfl | ⟨b, rfl | rfl | ⟨e, he, rfl⟩⟩ := runTask_inv hs
  · exact h.handleWrite hh (ha rfl) hwrite
  · exact h.removed
  · exact hin b
  · exact (hin b).closed
  · exact (hin b).log he

theorem runFunctor_inOrder {f : Functor} {fs : List Functor} (hf : c.functors = some (f :: fs)) (hh : HalfClose c)
    (h : InOrder c []) {w : WriteResult} (ha : c.Ordered (.functor w))
    (hs : runFunctor { c with functors := some fs } w f = .ok c') : InOrder c' [] := by
  have hp := h.pop hf
  simp only [Ordered, hf, Option.getD_some, List.head?_cons] at ha
  obtain ⟨s, rfl, hsend⟩ | ⟨hnot, hrest⟩ := runFunctor_inv hs
  · have hsmall := h.small s (by simp [queue, hf])
    exact hp.sendInLoop hh.valid (ofString_bytes hsmall) ha hsend
  · rw [waitingOf_eq_nil (by simpa using hnot)] at hp
    obtain ⟨rfl, rfl⟩ | rfl | hd | (rfl | rfl) | ⟨e, he, rfl⟩ := hrest
    · have hd : c.state = .kDisconnecting := hh.asked ha (Or.inr (by simp [queue, hf]))
      exact hp.shutdownInLoop ha (by simp [hd]) (hh.interest ha)
        fun _ => by rw [waiting_behind_shutdown h hf, List.flatten_nil]
    · exact hp.startReadInLoop
    · exact hp.connectDestroyed hd
    · exact hp
    · exact hp.closed
    · exact hp.log he

theorem step_inOrder (hh : HalfClose c) (h : InOrder c []) {s : Step}
    (he : c.Enabled s) (ha : c.Ordered s) (hs : c.step s = .ok c') : InOrder c' [] := by
  cases s with
  | call onLoop call => exact call_inOrder hh h ha hs
  | event revents =>
    cases hs
    exact { h with }
  | task r w =>
    obtain ⟨t, ts, ht, hrun⟩ | ⟨-, rfl⟩ := task_inv hs
    · have hp : InOrder { c with tasks := ts } [] := { h with }
      have hhp : HalfClose { c with tasks := ts } := hh.same rfl rfl rfl rfl id
      refine runTask_inOrder hhp hp ?_ hrun
      rintro rfl
      exact ha (by simp [ht])
    · exact h
  | delayedClose =>
    cases hs
    have hd : InOrder { c with delayedCloses := c.delayedCloses - 1 } [] := { h with }
    exact hd.forceClose
  | removeConnection =>
    cases hs
    exact (h.log rfl).push (by simp)
  | doPendingFunctors =>
    cases hs
    have hf : c.functors = none := he.2
    exact h.frame id id rfl rfl rfl (fun _ _ => Iff.rfl) (by simp [queue, hf])
  | functor w =>
    obtain ⟨f, fs, hf, hrun⟩ | ⟨hf, rfl⟩ := functor_inv hs
    · exact runFunctor_inOrder hf hh h ha hrun
    · exact h.frame id id rfl rfl rfl (fun _ _ => Iff.rfl) (by simp [queue, hf])
  | destroy => exact h.connectDestroyed hs

/-- When the socket is shut down, the bytes written are those of every message sent, each in one piece. -/
theorem no_message_overtaken {fd : ℤ} {writeComplete highWater : Bool} {highWaterMark : ℕ} {c₀ : TcpConnection}
    (h₀ : (create fd writeComplete highWater highWaterMark >>= connectEstablished) = .ok c₀) {steps : List Step}
    (h : Path step (fun c s => c.Enabled s ∧ c.Ordered s) c₀ steps c) {state : StateE} {queued accepted : List UInt8}
    (hm : .shutdownWrite state queued accepted ∈ c.trace) :
    ∃ order : List (List UInt8), order.Perm c.sent ∧ accepted = order.flatten := by
  cases h₀.symm.trans (create_connectEstablished fd writeComplete highWater highWaterMark)
  have h0 : InOrder (established fd writeComplete highWater highWaterMark) [] := by
    constructor <;> simp [established, queue, stream, messages, waiting, waitingOf]
  have hinv : HalfClose c ∧ InOrder c [] :=
    h.invariant (P := fun c => HalfClose c ∧ InOrder c [])
      ⟨established_halfClose fd writeComplete highWater highWaterMark, h0⟩
      fun t s u ht ha hs => ⟨ht.1.step hs, step_inOrder ht.1 ht.2 ha.1 ha.2 hs⟩
  exact hinv.2.complete state queued accepted hm

end Runs

/-- Two threads send, one of them shuts down, and the queue is run before the buffer drains. -/
theorem no_message_overtaken_queued :
    letI := Build.debug
    let steps : List Step := [.call true (.send (.memory [1, 0] 2) (.wrote 1)),
      .call false (.send (.string [3]) (.wrote 0)), .call false .shutdown, .doPendingFunctors, .functor (.wrote 0),
      .functor (.wrote 0), .functor (.wrote 0), .event POLLOUT, .task (.failed 0) (.wrote 9)]
    ∃ c, Path step (fun c s => c.Enabled s ∧ c.Ordered s) (established 7 false false 67108864) steps c ∧
      .shutdownWrite .kDisconnecting [] [1, 0, 3] ∈ c.trace ∧
      ∃ order : List (List UInt8), order.Perm c.sent ∧ [1, 0, 3] = order.flatten := by
  intro steps
  let _ := Build.debug
  obtain ⟨c, hc, hp⟩ := Path.exists_of_any step (fun c s => c.Enabled s ∧ c.Ordered s)
    (established 7 false false 67108864) steps
    (fun c => decide (.shutdownWrite .kDisconnecting [] [1, 0, 3] ∈ c.trace)) (by decide +kernel)
  have hm := of_decide_eq_true hp
  exact ⟨c, hc, hm, no_message_overtaken (create_connectEstablished 7 false false 67108864) hc hm⟩

/-- Another thread's message waits in the queue when the loop thread shuts down, or when the output buffer drains
after a `shutdown` that came later than the message. -/
theorem message_overtaken :
    letI := Build.release
    let onLoop : List Step := [.call false (.send (.string [1]) (.wrote 0)), .call true .shutdown]
    let drained : List Step := [.call true (.send (.memory [1, 2] 2) (.wrote 1)),
      .call false (.send (.string [3]) (.wrote 0)), .call false .shutdown, .event POLLOUT, .task (.failed 0) (.wrote 1)]
    (∃ c, Path step Enabled (established 7 false false 67108864) onLoop c ∧
        ∃ state queued accepted, .shutdownWrite state queued accepted ∈ c.trace ∧
          ∀ order : List (List UInt8), order.Perm c.sent → accepted ≠ order.flatten) ∧
      ∃ c, Path step Enabled (established 7 false false 67108864) drained c ∧
        ∃ state queued accepted, .shutdownWrite state queued accepted ∈ c.trace ∧
          ∀ order : List (List UInt8), order.Perm c.sent → accepted ≠ order.flatten := by
  intro onLoop drained
  let _ := Build.release
  -- what is written and what was sent have different lengths
  have hlength {sent order : List (List UInt8)} {accepted : List UInt8} (hl : accepted.length ≠ sent.flatten.length)
      (hp : order.Perm sent) : accepted ≠ order.flatten := by
    rintro rfl
    exact hl hp.flatten.length_eq
  constructor
  · obtain ⟨c, hc, hp⟩ := Path.exists_of_any step Enabled (established 7 false false 67108864) onLoop
      (fun c => decide (c.sent = [[1]] ∧ .shutdownWrite .kDisconnecting [] [] ∈ c.trace)) (by decide +kernel)
    have ⟨hs, hm⟩ := of_decide_eq_true hp
    exact ⟨c, hc, _, _, _, hm, fun order => hlength (by simp [hs])⟩
  · obtain ⟨c, hc, hp⟩ := Path.exists_of_any step Enabled (established 7 false false 67108864) drained
      (fun c => decide (c.sent = [[1, 2], [3]] ∧ .shutdownWrite .kDisconnecting [] [1, 2] ∈ c.trace))
      (by decide +kernel)
    have ⟨hs, hm⟩ := of_decide_eq_true hp
    exact ⟨c, hc, _, _, _, hm, fun order => hlength (by simp [hs])⟩

end Networker.TcpConnection
