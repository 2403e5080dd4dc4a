import Networker.ChannelCalls
import Networker.PollDelivery

/-!
Many connections on one `EventLoop` with an `EPollPoller`. Connections come and go and their
descriptors are used again; a wait hands out what the kernel reports for its interest list.
Alone, the model of a connection has to suppose what the kernel reports; here it is shown.
-/

namespace Networker

open CheckedRuns EPollPoller

/-- A connection that has been deleted leaves `none`. -/
structure SharedLoop where
  connections : List (Option TcpConnection) := []
  poller : EPollPoller := {}
  /-- what the poller has stored in the channels -/
  revents : ℕ → BitVec 32 := fun _ => 0
  activeChannels : List ℕ := []
  /-- the rest of `activeChannels` that the loop has still to handle -/
  toHandle : List ℕ := []
  currentActiveChannel : Option ℕ := none
  eventHandling : Bool := false

/-- The events that are reported without being asked for. -/
def unasked : BitVec 32 := POLLERR ||| POLLHUP ||| POLLNVAL

namespace SharedLoop

def connection (s : SharedLoop) (k : ℕ) : Option TcpConnection := s.connections[k]?.join

/-- The channels as the poller finds them. -/
def heap (s : SharedLoop) : ChannelHeap := fun k =>
  match s.connection k with
  | some c => { c.channel with revents := s.revents k }
  | none => { fd := -1 }

/-- What `EventLoop::removeChannel` asserts. -/
def Removable (s : SharedLoop) (k : ℕ) : Prop :=
  s.eventHandling = true → s.currentActiveChannel = some k ∨ k ∉ s.activeChannels

instance (s : SharedLoop) (k : ℕ) : Decidable (s.Removable k) := inferInstanceAs (Decidable (_ → _))

inductive Step
  | establish (fd : ℤ) (writeComplete highWater : Bool) (highWaterMark : ℕ)
  | connection (k : ℕ) (i : TcpConnection.Step)
  | poll (ready : List (ℤ × BitVec 32))
  /-- the loop over `activeChannels_` goes on to the next channel or is done -/
  | handleEvent
  | delete (k : ℕ)
deriving DecidableEq

section Machine

variable [Build]

/-- A handler that leaves the channel as `after` has called `Channel::update`, `Channel::remove` or neither. -/
def callPoller (s : SharedLoop) (k : ℕ) (after : Channel) : Exec (EPollPoller × ChannelHeap) :=
  let before := s.heap k
  if { after with revents := before.revents } = before then .ok (s.poller, s.heap)
  else if after.index = kNew then do
    assert (s.Removable k)
    s.poller.removeChannel (s.heap.set k { before with addedToLoop := false }) k
  else s.poller.updateChannel (s.heap.set k { before with events := after.events, addedToLoop := true }) k

/-- The poller's `index_` is the one that counts. -/
def handled (s : SharedLoop) (k : ℕ) (c : TcpConnection) : Exec SharedLoop := do
  let (p, heap) ← s.callPoller k c.channel
  .ok { s with
    connections := s.connections.set k (some { c with channel := { c.channel with index := (heap k).index } })
    poller := p }

def step (s : SharedLoop) : Step → Exec SharedLoop
  | .establish fd writeComplete highWater highWaterMark => do
    let c ← TcpConnection.create fd writeComplete highWater highWaterMark
    let opened := { s with connections := s.connections ++ [some c] }
    let c ← c.connectEstablished
    opened.handled s.connections.length c
  | .connection k i =>
    match s.connection k with
    | none => .error .undefined
    | some c => do
      let c ← c.step i
      s.handled k c
  | .poll ready => do
    let (p, heap, active) ← s.poller.poll s.heap ready
    .ok { s with
      poller := p
      revents := fun k => (heap k).revents
      activeChannels := active
      toHandle := active
      eventHandling := true }
  | .handleEvent =>
    match s.toHandle with
    | [] => .ok { s with currentActiveChannel := none, eventHandling := false }
    | k :: rest =>
      match s.connection k with
      | none => .error .undefined
      | some c => do
        let c ← c.step (.event (s.revents k))
        .ok { s with connections := s.connections.set k (some c), toHandle := rest, currentActiveChannel := some k }
  | .delete k =>
    match s.connection k with
    | none => .error .undefined
    | some c => do
      assert (c.state = .kDisconnected)
      assert (c.channel.addedToLoop = false)
      .ok { s with connections := s.connections.set k none }

end Machine

/-- The owner does not destroy a connection that is shutting down. -/
def Solo (c : TcpConnection) (i : TcpConnection.Step) : Prop :=
  c.Enabled i ∧ (i = .destroy → c.state ≠ .kDisconnecting)

instance (c : TcpConnection) (i : TcpConnection.Step) : Decidable (Solo c i) := inferInstanceAs (Decidable (_ ∧ _))

/-- A new descriptor is none of an open connection. What `epoll_wait(2)` reports is in the interest list and was asked
for. The functors run when all events are handled. The owner destroys a connection where the loop lets its channel be
removed, and a connection is deleted when it has been removed and nothing refers to it any more. -/
def Enabled (s : SharedLoop) : Step → Prop
  | .establish fd _ _ _ => ∀ e ∈ s.connections, ∀ c ∈ e, c.channel.fd ≠ fd
  | .connection k i => i.isEvent = false ∧ (i = .doPendingFunctors → s.eventHandling = false) ∧
      (i = .destroy → s.Removable k) ∧ ∃ c ∈ s.connection k, Solo c i
  | .poll ready => s.eventHandling = false ∧ (∀ e ∈ s.connections, ∀ c ∈ e, c.polling) ∧ (ready.map Prod.fst).Nodup ∧
      ready.length ≤ s.poller.events ∧
      ∀ x ∈ ready, ∃ entry ∈ s.poller.interest x.1, x.2 ≠ 0 ∧ x.2 &&& ~~~(entry.2 ||| unasked) = 0
  | .handleEvent => s.eventHandling = true ∧ ∀ e ∈ s.connections, ∀ c ∈ e, c.tasks = []
  | .delete k => ∃ c ∈ s.connection k, c.state = .kDisconnected ∧ c.channel.index = kNew ∧ c.channel.addedToLoop = false ∧
      c.polling ∧ c.pendingFunctors = [] ∧ (s.eventHandling = true → k ∉ s.activeChannels)

instance (s : SharedLoop) : (i : Step) → Decidable (s.Enabled i)
  | .establish _ _ _ _ => inferInstanceAs (Decidable (∀ e ∈ s.connections, ∀ c ∈ e, _))
  | .connection k _ => inferInstanceAs (Decidable (_ ∧ _ ∧ _ ∧ ∃ c ∈ s.connection k, _))
  | .poll ready => inferInstanceAs (Decidable (_ ∧ (∀ e ∈ s.connections, ∀ c ∈ e, _) ∧ _ ∧ _ ∧
      ∀ x ∈ ready, ∃ entry ∈ s.poller.interest x.1, _))
  | .handleEvent => inferInstanceAs (Decidable (_ ∧ ∀ e ∈ s.connections, ∀ c ∈ e, _))
  | .delete k => inferInstanceAs (Decidable (∃ c ∈ s.connection k, _))

/-- Every connection has a run of its own, and the poller knows their channels. Those it has reported are still
interested in what was reported, until they are handled. -/
structure Consistent [Build] (s : SharedLoop) : Prop where
  mirrors : s.poller.Mirrors s.heap
  distinct : ∀ j k c d, s.connection j = some c → s.connection k = some d → c.channel.fd = d.channel.fd → j = k
  alone : ∀ k c, s.connection k = some c → ∃ writeComplete highWater highWaterMark is,
    Path TcpConnection.step Solo (.established c.channel.fd writeComplete highWater highWaterMark) is c
  nodup : s.toHandle.Nodup
  subset : s.toHandle ⊆ s.activeChannels
  resting : s.eventHandling = false → s.toHandle = [] ∧ s.currentActiveChannel = none
  current : ∀ k ∈ s.currentActiveChannel, k ∉ s.toHandle
  removable : ∀ k c, s.connection k = some c → .remove ∈ c.tasks → s.Removable k
  functors : ∀ k c, s.connection k = some c → c.functors ≠ none → s.eventHandling = false
  active : ∀ k ∈ s.toHandle, ∃ c, s.connection k = some c ∧ c.polling ∧ c.channel.index = kAdded ∧
    s.revents k &&& ~~~(c.channel.events ||| unasked) = 0

section Poller

variable {p : EPollPoller} {heap : ChannelHeap} {ch : ℕ}

/-- A channel that the poller does not know may be any other that it does not know. -/
theorem mirrors_renew (h : p.Mirrors heap) (hold : (heap ch).index = kNew) {c : Channel} (hnew : c.index = kNew) :
    p.Mirrors (heap.set ch c) := by
  have hne {fd : ℤ} {r : ℕ} (hr : p.channels fd = some r) : r ≠ ch := by
    rintro rfl
    exact (h.owner fd r hr).2 hold
  constructor
  case status =>
    intro r
    by_cases hr : r = ch
    · rw [hr, ChannelHeap.set_same]
      exact Or.inl hnew
    · rw [ChannelHeap.set_other _ _ _ hr]
      exact h.status r
  case registered =>
    intro r hr
    by_cases hrc : r = ch
    · rw [hrc, ChannelHeap.set_same] at hr
      exact absurd hnew hr
    · rw [ChannelHeap.set_other _ _ _ hrc] at hr ⊢
      exact h.registered r hr
  case owner =>
    intro fd r hr
    rw [ChannelHeap.set_other _ _ _ (hne hr)]
    exact h.owner fd r hr
  case watched =>
    intro fd
    rw [h.watched fd]
    cases hr : p.channels fd with
    | none => rfl
    | some r => simp only [Option.bind_some, ChannelHeap.set_other _ _ _ (hne hr)]

theorem unregister_mirrors (h : p.Mirrors heap) (hc : p.channels (heap ch).fd = none ∨ p.channels (heap ch).fd = some ch)
    {c : Channel} (hfd : c.fd = (heap ch).fd) (hnew : c.index = kNew) : (p.unregister c.fd).Mirrors (heap.set ch c) := by
  refine h.set hc hfd (Or.inl hnew) ?_ ?_ fun _ hk => ⟨ChannelMap.set_other _ _ _ hk, if_neg hk⟩
  · rw [if_pos hnew]
    exact ChannelMap.set_same _ _ _
  · rw [if_neg (by rw [hnew]; decide)]
    exact if_pos rfl

variable [Build]

theorem assert_of_ndebug (h : Build.ndebug = true) (P : Prop) [Decidable P] : assert P = .ok () := if_pos (Or.inr h)

theorem of_assert (h : ¬Build.ndebug = true) {P : Prop} [Decidable P] (ha : assert P = .ok ()) : P := by
  by_contra hP
  rw [assert, if_neg (not_or.mpr ⟨hP, h⟩)] at ha
  cases ha

/-- `EPollPoller::removeChannel` asserts no more than `Channel::remove` and what its map tells. -/
theorem removeChannel_asserted (h : p.Mirrors heap)
    (hc : p.channels (heap ch).fd = none ∨ p.channels (heap ch).fd = some ch) {c : Channel} (hfd : c.fd = (heap ch).fd)
    (hi : c.index = (heap ch).index) (hnone : assert (c.isNoneEvent = true) = .ok ())
    (hnew : assert (c.index ≠ kNew) = .ok ()) :
    p.removeChannel (heap.set ch c) ch = .ok (p.unregister c.fd, heap.set ch { c with index := kNew }) := by
  by_cases hd : Build.ndebug = true
  · have hall (P : Prop) [Decidable P] : assert P = .ok () := assert_of_ndebug hd P
    unfold removeChannel
    rw [ChannelHeap.set_same]
    dsimp only
    rw [hall, ok_bind, hall, ok_bind, hall, ok_bind, hall, ok_bind]
    by_cases hs : c.index = kAdded
    · rw [if_pos hs]
      simp only [update, ok_bind, ChannelHeap.set_set, unregister]
    · have hint : p.interest c.fd = none := by
        rw [hfd]
        rcases h.status ch with hk | hk | hk
        · exact h.interest_none (hc.resolve_right (h.new_iff.mp hk))
        · exact absurd (hi.trans hk) hs
        · exact h.interest_of_deleted hk
      have hsame : p.interest = fun k => if k = c.fd then none else p.interest k := by
        funext k
        by_cases hk : k = c.fd
        · rw [if_pos hk, hk, hint]
        · rw [if_neg hk]
      rw [if_neg hs, ok_bind, ChannelHeap.set_set, unregister, ← hsame]
  · have hindex : (heap ch).index ≠ kNew := by
      rw [← hi]
      exact of_assert hd hnew
    exact removeChannel_eq h (h.registered ch hindex) c hfd hi (of_assert hd hnone)

end Poller

section Calls

variable {s : SharedLoop} {k : ℕ} {c c' : TcpConnection}

theorem connection_lt (h : s.connection k = some c) : k < s.connections.length := by
  by_contra hk
  rw [connection, List.getElem?_eq_none (by omega)] at h
  cases h

theorem mem_of_connection (h : s.connection k = some c) : some c ∈ s.connections :=
  List.mem_of_getElem? (Option.join_eq_some_iff.mp h)

theorem heap_eq (h : s.connection k = some c) : s.heap k = { c.channel with revents := s.revents k } := by
  rw [heap, h]

theorem heap_none (h : s.connection k = none) : s.heap k = { fd := -1 } := by
  rw [heap, h]

theorem connection_of_registered (h : (s.heap k).index ≠ kNew) : ∃ c, s.connection k = some c := by
  cases hk : s.connection k with
  | none =>
    rw [heap_none hk] at h
    exact absurd rfl h
  | some c => exact ⟨c, rfl⟩

theorem connection_set {e : Option TcpConnection} (hk : k < s.connections.length) {t : SharedLoop}
    (ht : t.connections = s.connections.set k e) (j : ℕ) : t.connection j = if j = k then e else s.connection j := by
  rw [connection, ht]
  by_cases hj : j = k
  · rw [if_pos hj, hj, List.getElem?_set_self hk]
    rfl
  · rw [if_neg hj, List.getElem?_set_ne (Ne.symm hj)]
    rfl

theorem connection_concat {e : Option TcpConnection} {t : SharedLoop} (ht : t.connections = s.connections ++ [e]) (j : ℕ) :
    t.connection j = if j = s.connections.length then e else s.connection j := by
  rw [connection, ht]
  rcases Nat.lt_trichotomy j s.connections.length with hlt | rfl | hgt
  · rw [List.getElem?_append_left hlt, if_neg (by omega)]
    rfl
  · rw [List.getElem?_concat_length, if_pos rfl]
    rfl
  · rw [List.getElem?_eq_none (by rw [List.length_append, List.length_singleton]; omega), if_neg (by omega), connection,
      List.getElem?_eq_none (by omega)]

theorem heap_set (hk : s.connection k = some c) {t : SharedLoop} (ht : t.connections = s.connections.set k (some c'))
    (hr : t.revents = s.revents) : t.heap = s.heap.set k { c'.channel with revents := s.revents k } := by
  funext j
  unfold heap
  rw [connection_set (connection_lt hk) ht, hr]
  by_cases hj : j = k
  · rw [if_pos hj, hj, ChannelHeap.set_same]
  · rw [if_neg hj, ChannelHeap.set_other _ _ _ hj]

/-- The descriptor belongs to no other channel. -/
theorem Consistent.unique [Build] (h : s.Consistent) (hk : s.connection k = some c) :
    s.poller.channels (s.heap k).fd = none ∨ s.poller.channels (s.heap k).fd = some k := by
  cases hr : s.poller.channels (s.heap k).fd with
  | none => exact Or.inl rfl
  | some r =>
    obtain ⟨hfd, hindex⟩ := h.mirrors.owner _ r hr
    obtain ⟨d, hd⟩ := connection_of_registered hindex
    rw [heap_eq hk, heap_eq hd] at hfd
    rw [h.distinct r k d c hd hk hfd]
    exact Or.inr rfl

variable [Build]

theorem handled_eq (hm : s.poller.Mirrors s.heap)
    (hc : s.poller.channels (s.heap k).fd = none ∨ s.poller.channels (s.heap k).fd = some k) (hk : s.connection k = some c)
    {removes : Prop} (ht : TcpConnection.Touches removes c.channel c'.channel) (hr : removes → s.Removable k) :
    ∃ p, s.handled k c' = .ok { s with connections := s.connections.set k (some c'), poller := p } ∧
      p.Mirrors (s.heap.set k { c'.channel with revents := s.revents k }) := by
  have hbefore := heap_eq hk
  have hrevents : s.revents k = (s.heap k).revents := by rw [hbefore]
  suffices hcall : ∃ p, s.callPoller k c'.channel = .ok (p, s.heap.set k { c'.channel with revents := s.revents k }) ∧
      p.Mirrors (s.heap.set k { c'.channel with revents := s.revents k }) by
    obtain ⟨p, hp, hmirrors⟩ := hcall
    refine ⟨p, ?_, hmirrors⟩
    rw [handled, hp, ok_bind]
    dsimp only
    rw [ChannelHeap.set_same]
  by_cases hsame : { c'.channel with revents := (s.heap k).revents } = s.heap k
  · rw [callPoller, if_pos hsame, hrevents, hsame, ChannelHeap.set_self]
    exact ⟨s.poller, rfl, hm⟩
  · rw [callPoller, if_neg hsame]
    generalize c'.channel = after at ht hsame ⊢
    cases ht with
    | same => exact absurd (by rw [hbefore]) hsame
    | update events =>
      have hreg := updatedIndex_cases { c.channel with events, addedToLoop := true }
      have hne : updatedIndex { c.channel with events, addedToLoop := true } ≠ kNew := by
        rcases hreg with h | h <;> rw [h] <;> decide
      have hupdate := updateChannel_eq hm hc { s.heap k with events, addedToLoop := true } rfl rfl
      have hregister := registerAs_mirrors hm hc
        (c := { s.heap k with events, addedToLoop := true, index := updatedIndex { s.heap k with events, addedToLoop := true } })
        rfl (updatedIndex_cases _)
      rw [if_neg hne]
      rw [hbefore] at hupdate hregister ⊢
      exact ⟨_, hupdate, hregister⟩
    | remove hremoves hnone hnew =>
      have hremove := removeChannel_asserted (c := { s.heap k with addedToLoop := false }) hm hc rfl rfl
        (by rw [hbefore]; exact hnone) (by rw [hbefore]; exact hnew)
      have hunregister := unregister_mirrors (c := { s.heap k with addedToLoop := false, index := kNew }) hm hc rfl rfl
      rw [if_pos rfl, assert_pos (hr hremoves), ok_bind]
      rw [hbefore] at hremove hunregister ⊢
      exact ⟨_, hremove, hunregister⟩

end Calls

section Masks

theorem asked_of_or {r e m x : BitVec 32} (h : r &&& ~~~(e ||| x) = 0) : r &&& ~~~(e ||| m ||| x) = 0 := by
  ext i hi
  have hb := congrArg (fun v : BitVec 32 => v[i]) h
  simp only [BitVec.getElem_and, BitVec.getElem_not, BitVec.getElem_or] at hb ⊢
  revert hb
  cases r[i] <;> cases e[i] <;> cases m[i] <;> cases x[i] <;> simp

theorem added_of_not_none {ch : Channel} {i : Channel.Interest} (ha : ch.index = kAdded)
    (hn : (ch.change i).isNoneEvent = false) : (ch.change i).index = kAdded := by
  change updatedIndex { ch with events := i.mask ch.events, addedToLoop := true } = kAdded
  have hold : ¬(ch.index = kNew ∨ ch.index = kDeleted) := by
    rw [ha]
    decide
  rw [updatedIndex, if_neg hold]
  exact if_neg (by rw [Bool.not_eq_true]; exact hn)

theorem not_none_of_has {ch : Channel} {m : BitVec 32} (h : Channel.has ch.events m = true) : ch.isNoneEvent = false := by
  by_contra hn
  have he : ch.events = 0#32 := by simpa [Channel.isNoneEvent, Channel.kNoneEvent] using hn
  rw [he] at h
  simp [Channel.has] at h

/-- What was reported is still asked for. -/
theorem waiting_asked {c c' : TcpConnection} (h : TcpConnection.Waiting c c') (ha : c.channel.index = kAdded)
    {r : BitVec 32} (hr : r &&& ~~~(c.channel.events ||| unasked) = 0) :
    c'.channel.index = kAdded ∧ r &&& ~~~(c'.channel.events ||| unasked) = 0 := by
  rcases h.channel with hch | hch | hch
  · rw [hch]
    exact ⟨ha, hr⟩
  · rw [hch]
    exact ⟨added_of_not_none ha (not_none_of_has (Channel.isWriting_enableWriting c.channel)), asked_of_or hr⟩
  · rw [hch]
    exact ⟨added_of_not_none ha (not_none_of_has (Channel.isReading_enableReading c.channel)), asked_of_or hr⟩

end Masks

section Steps

variable [Build] {s t : SharedLoop} {k : ℕ} {c c' : TcpConnection}

theorem solo_halfClose {fd : ℤ} {writeComplete highWater : Bool} {highWaterMark : ℕ} {is : List TcpConnection.Step}
    (h : Path TcpConnection.step Solo (.established fd writeComplete highWater highWaterMark) is c) : c.HalfClose :=
  h.invariant (TcpConnection.established_halfClose fd writeComplete highWater highWaterMark) fun _ _ _ hc _ hs => hc.step hs

theorem Consistent.valid (h : s.Consistent) (hk : s.connection k = some c) : c.outputBuffer.Valid := by
  obtain ⟨writeComplete, highWater, highWaterMark, is, hp⟩ := h.alone k c hk
  exact (solo_halfClose hp).valid

/-- One more step of a connection's own run. -/
theorem Consistent.alone_snoc (h : s.Consistent) (hk : s.connection k = some c) {i : TcpConnection.Step} (hi : Solo c i)
    (hs : c.step i = .ok c') (hfd : c'.channel.fd = c.channel.fd) : ∃ writeComplete highWater highWaterMark is,
      Path TcpConnection.step Solo (.established c'.channel.fd writeComplete highWater highWaterMark) is c' := by
  obtain ⟨writeComplete, highWater, highWaterMark, is, hp⟩ := h.alone k c hk
  rw [hfd]
  exact ⟨writeComplete, highWater, highWaterMark, is ++ [i], hp.snoc i hi hs⟩

/-- The connection `k` goes on alone, with a channel that the poller knows. -/
theorem Consistent.replace (h : s.Consistent) (hk : s.connection k = some c) {p : EPollPoller}
    (hm : p.Mirrors (s.heap.set k { c'.channel with revents := s.revents k }))
    (hfd : c'.channel.fd = c.channel.fd)
    (halone : ∃ writeComplete highWater highWaterMark is,
      Path TcpConnection.step Solo (.established c'.channel.fd writeComplete highWater highWaterMark) is c')
    (hremove : .remove ∈ c'.tasks → s.Removable k) (hfunctors : c'.functors ≠ none → s.eventHandling = false)
    (hwaits : k ∈ s.toHandle → c'.polling ∧ c'.channel.index = kAdded ∧
      s.revents k &&& ~~~(c'.channel.events ||| unasked) = 0) :
    Consistent { s with connections := s.connections.set k (some c'), poller := p } := by
  obtain ⟨t, ht⟩ : ∃ t : SharedLoop, t = { s with connections := s.connections.set k (some c'), poller := p } :=
    ⟨_, rfl⟩
  have hconn : ∀ j, t.connection j = if j = k then some c' else s.connection j :=
    connection_set (connection_lt hk) (by rw [ht])
  rw [← ht]
  have hdescriptor {j : ℕ} {d : TcpConnection} (hj : t.connection j = some d) :
      ∃ d', s.connection j = some d' ∧ d'.channel.fd = d.channel.fd := by
    rw [hconn] at hj
    split_ifs at hj with hjk
    · cases hj
      exact ⟨c, by rw [hjk, hk], hfd.symm⟩
    · exact ⟨d, hj, rfl⟩
  constructor
  case mirrors =>
    have hheap : t.heap = s.heap.set k { c'.channel with revents := s.revents k } :=
      heap_set hk (by rw [ht]) (by rw [ht])
    rw [hheap, ht]
    exact hm
  case distinct =>
    intro i j d e hd he hde
    obtain ⟨d', hd', hdfd⟩ := hdescriptor hd
    obtain ⟨e', he', hefd⟩ := hdescriptor he
    exact h.distinct i j d' e' hd' he' (by rw [hdfd, hefd, hde])
  case alone =>
    intro j d hd
    rw [hconn] at hd
    split_ifs at hd with hj
    · cases hd
      exact halone
    · exact h.alone j d hd
  case nodup => rw [ht]; exact h.nodup
  case subset => rw [ht]; exact h.subset
  case resting => rw [ht]; exact h.resting
  case current => rw [ht]; exact h.current
  case removable =>
    intro j d hd hm
    rw [hconn] at hd
    rw [ht]
    split_ifs at hd with hj
    · cases hd
      rw [hj]
      exact hremove hm
    · exact h.removable j d hd hm
  case functors =>
    intro j d hd hf
    rw [hconn] at hd
    rw [ht]
    split_ifs at hd
    · cases hd
      exact hfunctors hf
    · exact h.functors j d hd hf
  case active =>
    intro j hj
    rw [hconn]
    rw [ht] at hj ⊢
    by_cases hjk : j = k
    · subst hjk
      rw [if_pos rfl]
      exact ⟨c', rfl, hwaits hj⟩
    · rw [if_neg hjk]
      exact h.active j hj

/-- The owner destroys no connection whose channel has still to be handled. -/
theorem Consistent.handled_of_removable (h : s.Consistent) (hr : s.Removable k) : k ∉ s.toHandle := by
  cases hev : s.eventHandling with
  | false =>
    rw [(h.resting hev).1]
    exact List.not_mem_nil
  | true =>
    rcases hr hev with hcurrent | hactive
    · exact h.current k hcurrent
    · exact fun hm => hactive (h.subset hm)

/-- Whenever a handler removes its channel, the loop agrees. -/
theorem Consistent.removes (h : s.Consistent) {i : TcpConnection.Step} (he : s.Enabled (.connection k i))
    (hk : s.connection k = some c) (hr : c.MayRemove i) : s.Removable k := by
  obtain ⟨-, -, hdestroy, d, hd, hsolo⟩ := he
  obtain rfl : c = d := Option.some.inj (hk.symm.trans hd)
  cases i with
  | destroy => exact hdestroy rfl
  | functor w =>
    intro hev
    rw [h.functors k c hk hsolo.1.2] at hev
    cases hev
  | call | event | task | delayedClose | removeConnection | doPendingFunctors => exact h.removable k c hk hr

theorem connection_step (h : s.Consistent) {i : TcpConnection.Step} (he : s.Enabled (.connection k i))
    (hk : s.connection k = some c) (hs : c.step i = .ok c') : ∃ t, s.step (.connection k i) = .ok t ∧ t.Consistent := by
  have hremoves : c.MayRemove i → s.Removable k := h.removes he hk
  obtain ⟨hevent, hcalls, hdestroy, d, hd, hsolo⟩ := he
  obtain rfl : c = d := Option.some.inj (hk.symm.trans hd)
  have htouches := TcpConnection.step_touches (h.valid hk) hevent hs
  obtain ⟨p, hp, hmirrors⟩ := handled_eq h.mirrors (h.unique hk) hk htouches hremoves
  refine ⟨_, by rw [step, hk]; dsimp only; rw [hs, ok_bind, hp], ?_⟩
  refine h.replace hk hmirrors htouches.fd (h.alone_snoc hk hsolo hs htouches.fd)
    (fun hm => hremoves (TcpConnection.step_remove (h.valid hk) hs hm)) (fun hf => ?_) fun hactive => ?_
  · exact (TcpConnection.step_functors (h.valid hk) hs hf).elim (h.functors k c hk) hcalls
  · obtain ⟨d, hd, hpolling, hadded, hasked⟩ := h.active k hactive
    obtain rfl : c = d := Option.some.inj (hk.symm.trans hd)
    have hwaiting := TcpConnection.step_waiting (h.valid hk) hpolling hsolo.1 hevent
      (fun hi => by rw [(h.resting (hcalls hi)).1] at hactive; cases hactive)
      (fun hi => h.handled_of_removable (hdestroy hi) hactive) hs
    exact ⟨hwaiting.polling, waiting_asked hwaiting hadded hasked⟩

/-- The loop turns to the next channel. -/
theorem Consistent.next (h : s.Consistent) (hev : s.eventHandling = true) {rest : List ℕ} (hh : s.toHandle = k :: rest)
    (hidle : ∀ e ∈ s.connections, ∀ c ∈ e, c.tasks = []) :
    Consistent { s with toHandle := rest, currentActiveChannel := some k } := by
  have hnodup := h.nodup
  rw [hh] at hnodup
  have hrest : ∀ j ∈ rest, j ∈ s.toHandle := fun j hj => by
    rw [hh]
    exact List.mem_cons_of_mem k hj
  constructor
  case mirrors => exact h.mirrors
  case distinct => exact h.distinct
  case alone => exact h.alone
  case nodup => exact (List.nodup_cons.mp hnodup).2
  case subset => exact fun j hj => h.subset (hrest j hj)
  case resting =>
    intro hrests
    rw [hev] at hrests
    cases hrests
  case current =>
    intro j hj
    cases hj
    exact (List.nodup_cons.mp hnodup).1
  case removable =>
    intro j d hd hm
    rw [hidle _ (mem_of_connection hd) d rfl] at hm
    cases hm
  case functors => exact h.functors
  case active => exact fun j hj => h.active j (hrest j hj)

/-- All channels of the last wait are handled. -/
theorem Consistent.rest (h : s.Consistent) (hh : s.toHandle = []) :
    Consistent { s with currentActiveChannel := none, eventHandling := false } where
  mirrors := h.mirrors
  distinct := h.distinct
  alone := h.alone
  nodup := h.nodup
  subset := h.subset
  resting _ := ⟨hh, rfl⟩
  current _ hj := by cases hj
  removable _ _ _ _ hev := by cases hev
  functors _ _ _ _ := rfl
  active := h.active

theorem handleEvent_step (h : s.Consistent) (he : s.Enabled .handleEvent) :
    ∃ t, s.step .handleEvent = .ok t ∧ t.Consistent := by
  obtain ⟨hev, hidle⟩ := he
  cases hh : s.toHandle with
  | nil => exact ⟨_, by rw [step, hh], h.rest hh⟩
  | cons k rest =>
    obtain ⟨c, hk, hpolling, hadded, hasked⟩ := h.active k (by rw [hh]; exact List.mem_cons_self)
    have hnext := h.next hev hh hidle
    have hsolo : Solo c (.event (s.revents k)) := by
      refine ⟨⟨hpolling, hadded, ?_⟩, fun hi => by cases hi⟩
      rw [BitVec.or_assoc, BitVec.or_assoc, ← BitVec.or_assoc POLLERR]
      exact hasked
    refine ⟨_, by rw [step, hh]; dsimp only; rw [hk]; rfl, ?_⟩
    refine hnext.replace hk ?_ rfl (h.alone_snoc hk hsolo rfl rfl) ?_ ?_ fun hin => ?_
    · have hsame : { c.channel with revents := s.revents k } = s.heap k := (heap_eq hk).symm
      change s.poller.Mirrors (s.heap.set k { c.channel with revents := s.revents k })
      rw [hsame, ChannelHeap.set_self]
      exact h.mirrors
    · intro hm
      simp at hm
    · exact h.functors k c hk
    · exact absurd hin (hnext.current k rfl)

theorem poll_step (h : s.Consistent) {ready : List (ℤ × BitVec 32)} (he : s.Enabled (.poll ready)) :
    ∃ t, s.step (.poll ready) = .ok t ∧ t.Consistent := by
  obtain ⟨hrest, hpolling, hready, hlength, hasked⟩ := he
  have hwatched : ∀ x ∈ ready, s.poller.interest x.1 ≠ none := by
    intro x hx
    obtain ⟨entry, hentry, -⟩ := hasked x hx
    rw [hentry]
    exact Option.some_ne_none entry
  obtain ⟨p, hp, hchannels, hinterest⟩ := poll_eq h.mirrors hlength
  have hnodup : ((s.poller.eventsOf ready).map Prod.fst).Nodup := by
    rw [← Polling.eventsOf_fds h.mirrors hwatched, List.map_map] at hready
    exact List.Nodup.of_map (fun ch => (s.heap ch).fd) (by simpa [Function.comp_def] using hready)
  refine ⟨_, by rw [step, hp]; rfl, ?_⟩
  have hheap (r : ℕ) : SharedLoop.heap { s with
      poller := p
      revents := fun k => (s.heap.setRevents (s.poller.eventsOf ready) k).revents
      activeChannels := (s.poller.eventsOf ready).map Prod.fst
      toHandle := (s.poller.eventsOf ready).map Prod.fst
      eventHandling := true } r =
        match s.connection r with
        | some c => { c.channel with revents := (s.heap.setRevents (s.poller.eventsOf ready) r).revents }
        | none => { fd := -1 } := rfl
  constructor
  case mirrors =>
    refine h.mirrors.congr (fun r => ?_) hchannels hinterest
    rw [hheap]
    cases hr : s.connection r with
    | none => rw [heap_none hr]; exact ⟨rfl, rfl, rfl⟩
    | some c => rw [heap_eq hr]; exact ⟨rfl, rfl, rfl⟩
  case distinct => exact h.distinct
  case alone => exact h.alone
  case nodup => exact hnodup
  case subset => exact fun _ hk => hk
  case resting => exact fun hrests => by cases hrests
  case current =>
    intro k hk
    dsimp only at hk
    rw [(h.resting hrest).2] at hk
    cases hk
  case removable =>
    intro k c hc hm
    rw [(hpolling _ (mem_of_connection hc) c rfl).1] at hm
    cases hm
  case functors => exact fun k c hc hf => absurd (hpolling _ (mem_of_connection hc) c rfl).2 hf
  case active =>
    intro k hk
    obtain ⟨e, he, rfl⟩ := List.mem_map.mp hk
    obtain ⟨x, hx, hentry⟩ := List.mem_filterMap.mp he
    obtain ⟨entry, hi, rfl⟩ := Option.map_eq_some_iff.mp hentry
    obtain ⟨entry', hi', -, hmask⟩ := hasked x hx
    obtain rfl : entry = entry' := Option.some.inj (hi.symm.trans hi')
    obtain ⟨hreg, hfd⟩ := h.mirrors.channel_of_interest hi
    have hindex := (h.mirrors.owner _ _ hreg).2
    obtain ⟨c, hc⟩ := connection_of_registered hindex
    rw [h.mirrors.watched, hreg] at hi
    simp only [Option.bind_some] at hi
    split_ifs at hi with hadded
    have hevents := congrArg Prod.snd (Option.some.inj hi)
    have hheld := heap_eq hc
    refine ⟨c, hc, hpolling _ (mem_of_connection hc) c rfl, ?_, ?_⟩
    · rw [hheld] at hadded
      exact hadded
    · dsimp only
      rw [s.heap.setRevents_mem hnodup he]
      rw [hheld] at hevents
      change c.channel.events = entry.2 at hevents
      rw [hevents]
      exact hmask

/-- A connection whose descriptor is none of the others. -/
theorem Consistent.concat (h : s.Consistent) (hfresh : ∀ j d, s.connection j = some d → d.channel.fd ≠ c.channel.fd)
    (halone : ∃ writeComplete highWater highWaterMark is,
      Path TcpConnection.step Solo (.established c.channel.fd writeComplete highWater highWaterMark) is c)
    (hidle : c.polling) {p : EPollPoller}
    (hm : p.Mirrors (SharedLoop.heap { s with connections := s.connections ++ [some c], poller := p })) :
    Consistent { s with connections := s.connections ++ [some c], poller := p } := by
  have hconn := connection_concat (t := { s with connections := s.connections ++ [some c], poller := p }) rfl
  constructor
  case mirrors => exact hm
  case distinct =>
    intro i j d e hd he hde
    rw [hconn] at hd he
    split_ifs at hd he with hi hj hj
    · rw [hi, hj]
    · cases hd
      exact absurd hde.symm (hfresh j e he)
    · cases he
      exact absurd hde (hfresh i d hd)
    · exact h.distinct i j d e hd he hde
  case alone =>
    intro j d hd
    rw [hconn] at hd
    split_ifs at hd
    · cases hd
      exact halone
    · exact h.alone j d hd
  case nodup => exact h.nodup
  case subset => exact h.subset
  case resting => exact h.resting
  case current => exact h.current
  case removable =>
    intro j d hd hm
    rw [hconn] at hd
    split_ifs at hd
    · cases hd
      rw [hidle.1] at hm
      cases hm
    · exact h.removable j d hd hm
  case functors =>
    intro j d hd hf
    rw [hconn] at hd
    split_ifs at hd
    · cases hd
      exact absurd hidle.2 hf
    · exact h.functors j d hd hf
  case active =>
    intro k hk
    obtain ⟨d, hd, hwaits⟩ := h.active k hk
    have hlt := connection_lt hd
    exact ⟨d, by rw [hconn, if_neg (by omega), hd], hwaits⟩

theorem establish_step (h : s.Consistent) {fd : ℤ} {writeComplete highWater : Bool} {highWaterMark : ℕ}
    (he : s.Enabled (.establish fd writeComplete highWater highWaterMark)) :
    ∃ t, s.step (.establish fd writeComplete highWater highWaterMark) = .ok t ∧ t.Consistent := by
  have hfresh (j : ℕ) (d : TcpConnection) (hj : s.connection j = some d) : d.channel.fd ≠ fd :=
    he _ (mem_of_connection hj) d rfl
  obtain ⟨c, hcreate, hestablished⟩ :=
    bind_eq_ok.mp (TcpConnection.create_connectEstablished fd writeComplete highWater highWaterMark)
  have hchannel : c.channel = { fd } := by
    obtain ⟨inputBuffer, -, hcreate⟩ := bind_eq_ok.mp hcreate
    obtain ⟨outputBuffer, -, hcreate⟩ := bind_eq_ok.mp hcreate
    cases hcreate
    rfl
  let n := s.connections.length
  let opened : SharedLoop := { s with connections := s.connections ++ [some c] }
  have hopened (j : ℕ) : opened.connection j = if j = n then some c else s.connection j := connection_concat rfl j
  have hn : opened.connection n = some c := by rw [hopened, if_pos rfl]
  have hnone : s.connection n = none := by rw [connection, List.getElem?_eq_none (Nat.le_refl _)]; rfl
  -- the new channel is not registered, and no other one has its descriptor
  have hheap : opened.heap = s.heap.set n { fd, revents := s.revents n } := by
    funext j
    by_cases hj : j = n
    · rw [hj, heap_eq hn, hchannel, ChannelHeap.set_same]
    · unfold heap
      rw [hopened, if_neg hj, ChannelHeap.set_other _ _ _ hj]
  have hmirrors : opened.poller.Mirrors opened.heap := by
    rw [hheap]
    exact mirrors_renew h.mirrors (by rw [heap_none hnone]; rfl) rfl
  have hunregistered : s.poller.channels fd = none := by
    rw [Option.eq_none_iff_forall_ne_some]
    intro r hr
    obtain ⟨hfd, hindex⟩ := h.mirrors.owner fd r hr
    obtain ⟨d, hd⟩ := connection_of_registered hindex
    rw [heap_eq hd] at hfd
    exact hfresh r d hd hfd
  have htouches : TcpConnection.Touches False c.channel
      (TcpConnection.established fd writeComplete highWater highWaterMark).channel := by
    rw [hchannel]
    exact .change _ .enableReading
  obtain ⟨p, hp, hafter⟩ := handled_eq hmirrors (Or.inl (by rw [heap_eq hn, hchannel]; exact hunregistered)) hn htouches
    False.elim
  have hset : SharedLoop.heap { opened with
      connections := opened.connections.set n (some (.established fd writeComplete highWater highWaterMark))
      poller := p } = _ := heap_set (s := opened) hn rfl rfl
  have hlast : opened.connections.set n (some (.established fd writeComplete highWater highWaterMark)) =
      s.connections ++ [some (.established fd writeComplete highWater highWaterMark)] := by simp [opened, n]
  rw [← hset, hlast] at hafter
  rw [hlast] at hp
  refine ⟨_, by rw [step, hcreate, ok_bind]; dsimp only; rw [hestablished, ok_bind]; exact hp, ?_⟩
  exact h.concat (c := .established fd writeComplete highWater highWaterMark) hfresh
    ⟨writeComplete, highWater, highWaterMark, [], .nil⟩ ⟨rfl, rfl⟩ hafter

theorem delete_step (h : s.Consistent) (he : s.Enabled (.delete k)) : ∃ t, s.step (.delete k) = .ok t ∧ t.Consistent := by
  obtain ⟨c, hk, hstate, hindex, hadded, -⟩ := he
  have hk : s.connection k = some c := hk
  refine ⟨_, by rw [step, hk]; dsimp only; rw [assert_pos hstate, ok_bind, assert_pos hadded, ok_bind], ?_⟩
  have hconn := connection_set (e := none) (connection_lt hk) (t := { s with connections := s.connections.set k none }) rfl
  have hheap : SharedLoop.heap { s with connections := s.connections.set k none } = s.heap.set k { fd := -1 } := by
    funext j
    unfold heap
    rw [hconn]
    by_cases hj : j = k
    · rw [if_pos hj, hj, ChannelHeap.set_same]
    · rw [if_neg hj, ChannelHeap.set_other _ _ _ hj]
  have hold {j : ℕ} {d : TcpConnection}
      (hd : SharedLoop.connection { s with connections := s.connections.set k none } j = some d) : s.connection j = some d := by
    rw [hconn] at hd
    split_ifs at hd
    exact hd
  constructor
  case mirrors =>
    rw [hheap]
    exact mirrors_renew h.mirrors (by rw [heap_eq hk]; exact hindex) rfl
  case distinct =>
    intro i j d e hd he hde
    exact h.distinct i j d e (hold hd) (hold he) hde
  case alone =>
    intro j d hd
    exact h.alone j d (hold hd)
  case nodup => exact h.nodup
  case subset => exact h.subset
  case resting => exact h.resting
  case current => exact h.current
  case removable => exact fun j d hd => h.removable j d (hold hd)
  case functors => exact fun j d hd => h.functors j d (hold hd)
  case active =>
    intro j hj
    obtain ⟨d, hd, hpoll, hin, hasked⟩ := h.active j hj
    have hjk : j ≠ k := by
      rintro rfl
      obtain rfl : c = d := Option.some.inj (hk.symm.trans hd)
      rw [hindex] at hin
      cases hin
    exact ⟨d, by rw [hconn, if_neg hjk, hd], hpoll, hin, hasked⟩

theorem empty_consistent : Consistent {} where
  mirrors := ⟨fun _ => Or.inl rfl, fun _ h => absurd rfl h, fun _ _ h => (by cases h), fun _ => rfl⟩
  distinct _ _ _ _ h := by cases h
  alone _ _ h := by cases h
  nodup := List.nodup_nil
  subset := fun _ h => h
  resting _ := ⟨rfl, rfl⟩
  current _ h := by cases h
  removable _ _ h := by cases h
  functors _ _ h := by cases h
  active _ h := by cases h

theorem Consistent.step (h : s.Consistent) {i : Step} (he : s.Enabled i) (hs : s.step i = .ok t) : t.Consistent := by
  have hstep : ∃ u, s.step i = .ok u ∧ u.Consistent := by
    cases i with
    | establish fd writeComplete highWater highWaterMark => exact establish_step h he
    | connection k i =>
      obtain ⟨-, -, -, c, hk, -⟩ := id he
      have hk : s.connection k = some c := hk
      rw [SharedLoop.step, hk] at hs
      obtain ⟨c', hc', -⟩ := bind_eq_ok.mp hs
      exact connection_step h he hk hc'
    | poll ready => exact poll_step h he
    | handleEvent => exact handleEvent_step h he
    | delete k => exact delete_step h he
  obtain ⟨u, hu, hconsistent⟩ := hstep
  cases hu.symm.trans hs
  exact hconsistent

/-- The kernel watches the channels that are added, for what they ask. -/
theorem Consistent.interest_iff (h : s.Consistent) (fd : ℤ) (k : ℕ) (events : BitVec 32) :
    s.poller.interest fd = some (k, events) ↔
      ∃ c, s.connection k = some c ∧ c.channel.fd = fd ∧ c.channel.index = kAdded ∧ c.channel.events = events := by
  constructor
  · intro hi
    obtain ⟨hreg, hfd⟩ := h.mirrors.channel_of_interest hi
    obtain ⟨c, hc⟩ := connection_of_registered (h.mirrors.owner _ _ hreg).2
    rw [h.mirrors.watched, hreg] at hi
    simp only [Option.bind_some] at hi
    split_ifs at hi with hadded
    have hevents := congrArg Prod.snd (Option.some.inj hi)
    rw [heap_eq hc] at hfd hadded hevents
    exact ⟨c, hc, hfd, hadded, hevents⟩
  · rintro ⟨c, hc, rfl, hadded, rfl⟩
    have hindex : (s.heap k).index = kAdded := by
      rw [heap_eq hc]
      exact hadded
    have hinterest := h.mirrors.interest_of_added hindex
    rw [heap_eq hc] at hinterest
    exact hinterest

theorem solo_attached {fd : ℤ} {writeComplete highWater : Bool} {highWaterMark : ℕ} {is : List TcpConnection.Step}
    (h : Path TcpConnection.step Solo (.established fd writeComplete highWater highWaterMark) is c) :
    c.state = .kDisconnected ∨ c.Attached := by
  induction h with
  | nil => exact Or.inr (TcpConnection.established_attached fd writeComplete highWater highWaterMark)
  | snoc i hp ha hs ih =>
    have hv := (solo_halfClose hp).valid
    rcases ih with hd | hattached
    · exact Or.inl (TcpConnection.step_stays_down hv hd hs)
    · exact hattached.step hv ha.1 ha.2 hs

/-- On the shared loop every connection does what it could do alone. The interest list of the kernel holds the channels
that are added, among them that of every live connection, which waits for input and, exactly if it has output left, for
room. Neither the poller nor the loop makes a step fail. -/
theorem connections_alone {is : List Step} (h : Path SharedLoop.step Enabled {} is s) :
    (∀ k c, s.connection k = some c → ∃ writeComplete highWater highWaterMark js,
      Path TcpConnection.step Solo (.established c.channel.fd writeComplete highWater highWaterMark) js c) ∧
    (∀ fd k events, s.poller.interest fd = some (k, events) ↔
      ∃ c, s.connection k = some c ∧ c.channel.fd = fd ∧ c.channel.index = kAdded ∧ c.channel.events = events) ∧
    (∀ k c, s.connection k = some c → c.live → ∃ events, s.poller.interest c.channel.fd = some (k, events) ∧
      Channel.has events Channel.kReadEvent = true ∧
      (Channel.has events Channel.kWriteEvent = true ↔ c.outputBuffer.readable ≠ [])) ∧
    ∀ i, s.Enabled i → (∀ k j c, i = .connection k j → s.connection k = some c → ∃ c', c.step j = .ok c') →
      ∃ t, s.step i = .ok t := by
  have hs : s.Consistent := h.invariant empty_consistent fun _ _ _ ht he hu => ht.step he hu
  refine ⟨hs.alone, hs.interest_iff, fun k c hc hl => ?_, fun i he hok => ?_⟩
  · obtain ⟨writeComplete, highWater, highWaterMark, js, hp⟩ := hs.alone k c hc
    have hattached : c.Attached := (solo_attached hp).resolve_left fun hd => by
      rcases hl with hl | hl <;> rw [hd] at hl <;> cases hl
    exact ⟨c.channel.events, (hs.interest_iff _ _ _).mpr ⟨c, hc, rfl, hattached.index, rfl⟩, hattached.reading,
      (solo_halfClose hp).interest hl⟩
  · cases i with
    | establish fd writeComplete highWater highWaterMark =>
      obtain ⟨t, ht, -⟩ := establish_step hs he
      exact ⟨t, ht⟩
    | connection k j =>
      obtain ⟨-, -, -, c, hk, -⟩ := id he
      obtain ⟨c', hc'⟩ := hok k j c rfl hk
      obtain ⟨t, ht, -⟩ := connection_step hs he hk hc'
      exact ⟨t, ht⟩
    | poll ready =>
      obtain ⟨t, ht, -⟩ := poll_step hs he
      exact ⟨t, ht⟩
    | handleEvent =>
      obtain ⟨t, ht, -⟩ := handleEvent_step hs he
      exact ⟨t, ht⟩
    | delete k =>
      obtain ⟨t, ht, -⟩ := delete_step hs he
      exact ⟨t, ht⟩

end Steps

/-- Of two connections one finds the end of its input and is deleted, and a third gets its descriptor; the other has output
left after a short write. -/
theorem connections_alone_reused :
    letI := Build.debug
    let is : List Step := [.establish 5 false false 100, .establish 6 false false 100, .poll [(6, POLLIN), (5, POLLIN)],
      .handleEvent, .connection 1 (.task (.read [104]) (.wrote 0)),
      .connection 1 (.call true (.send (.memory [7, 8] 2) (.wrote 1))), .handleEvent,
      .connection 0 (.task (.read []) (.wrote 0)), .connection 0 (.task (.read []) (.wrote 0)),
      .connection 0 .removeConnection, .handleEvent, .connection 0 .doPendingFunctors,
      .connection 0 (.functor (.wrote 0)), .connection 0 (.functor (.wrote 0)), .delete 0, .establish 5 false false 100]
    ∃ s, Path step Enabled {} is s ∧ s.connection 0 = none ∧
      ∃ c d events, s.connection 1 = some c ∧ c.outputBuffer.readable = [8] ∧ s.connection 2 = some d ∧ d.channel.fd = 5 ∧
        s.poller.interest c.channel.fd = some (1, events) ∧ Channel.has events Channel.kWriteEvent = true ∧
        (s.poller.interest 5).map Prod.fst = some 2 := by
  intro is
  let _ := Build.debug
  obtain ⟨s, hs, hp⟩ := Path.exists_of_any step Enabled {} is
    (fun s : SharedLoop => decide (s.connection 0 = none) &&
      (s.connection 1).any (fun c : TcpConnection => decide (c.live ∧ c.outputBuffer.readable = [8])) &&
      (s.connection 2).any (fun d : TcpConnection => decide (d.live ∧ d.channel.fd = 5)))
    (by decide +kernel)
  obtain ⟨hp, hthird⟩ := Bool.and_eq_true_iff.mp hp
  obtain ⟨hfirst, hsecond⟩ := Bool.and_eq_true_iff.mp hp
  obtain ⟨c, hc, hlive⟩ := Option.any_eq_true _ _ |>.mp hsecond
  obtain ⟨d, hd, hreused⟩ := Option.any_eq_true _ _ |>.mp hthird
  obtain ⟨hl, hleft⟩ := of_decide_eq_true hlive
  obtain ⟨hdl, hfd⟩ := of_decide_eq_true hreused
  obtain ⟨-, -, hwatched, -⟩ := connections_alone hs
  obtain ⟨events, hinterest, -, hwriting⟩ := hwatched 1 c hc hl
  obtain ⟨_, hinterest', -⟩ := hwatched 2 d hd hdl
  rw [hfd] at hinterest'
  exact ⟨s, hs, of_decide_eq_true hfirst, c, d, events, hc, hleft, hd, hfd, hinterest,
    hwriting.mpr (by rw [hleft]; decide), by rw [hinterest']; rfl⟩

end SharedLoop

end Networker
