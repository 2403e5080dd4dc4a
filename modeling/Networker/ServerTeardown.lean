import Networker.ServerLoops
import Networker.ServerRuns
import Mathlib.Data.Char
import Mathlib.Data.List.Lex
import Mathlib.Data.List.Sort

/-!
`~TcpServer`: every connection that is left in the table is to be destroyed on its own loop,
while the loops go on running and connections are shut down. The functor that still has to
establish a connection is called before the one that destroys it. `connectDestroyed` leaves
the channel of a half-closed connection as it is, and `Channel::remove` asks for one without events.
-/

namespace Networker

open CheckedRuns VectorSearch

/-- A server whose destructor has begun, and the connections that its loop over the table has still to visit. -/
structure DyingServer where
  server : TcpServer
  items : List ℕ

namespace TcpServer

/-- The connections in the order of their names. -/
def items (s : TcpServer) : List ℕ := (s.connections.entries.insertionSort fun a b => a.1 ≤ b.1).map Sigma.snd

def dying (s : TcpServer) : DyingServer := ⟨s, s.items⟩

end TcpServer

namespace DyingServer

inductive Step
  /-- the loop of the destructor goes on to the next connection -/
  | item
  /-- `shutdown`, `forceClose` or `forceCloseWithDelay` from any thread -/
  | disconnecting (id : ℕ)
  | update (id : ℕ) (noneEvent : Bool)
  | loop (l : ℕ) (i : EventLoop.Step (Option ServerFunctor))
deriving DecidableEq, Repr

def step [Build] (s : DyingServer) : Step → Exec DyingServer
  | .item =>
    match s.items with
    | [] => .ok s
    | id :: items => do
      let c ← s.server.conn id
      let server ← s.server.runInLoop 0 c.loop (.connectDestroyed id)
      return { server, items }
  | .disconnecting id => do
    let server ← s.server.step (.disconnecting id)
    return { s with server }
  | .update id noneEvent => do
    let server ← s.server.step (.update id noneEvent)
    return { s with server }
  | .loop l i => do
    let server ← s.server.step (.loop l i)
    return { s with server }

def ofLoopThread : EventLoop.Step (Option ServerFunctor) → Bool
  | .proceed _ | .wakeup true | .quit true | .queueInLoop true _ => true
  | .wakeup false | .quit false | .queueInLoop false _ | .quitWakeup => false

/-- The loop of the base thread does not go on before the destructor is through. No connection closes: its close
callback would be called on the server that is gone. -/
def Enabled (s : DyingServer) : Step → Prop
  | .item => s.items ≠ [] ∧ (s.server.loops 0).inUserCode = true
  | .disconnecting id => s.server.Enabled (.disconnecting id)
  | .update id noneEvent => s.server.Enabled (.update id noneEvent)
  | .loop l i => s.server.Enabled (.loop l i) ∧ (l = 0 → ofLoopThread i = true → s.items = [])

instance (s : DyingServer) : (i : Step) → Decidable (s.Enabled i)
  | .item => inferInstanceAs (Decidable (_ ∧ _))
  | .disconnecting id => inferInstanceAs (Decidable (s.server.Enabled (.disconnecting id)))
  | .update id noneEvent => inferInstanceAs (Decidable (s.server.Enabled (.update id noneEvent)))
  | .loop _ _ => inferInstanceAs (Decidable (_ ∧ (_ → _ → _)))

/-- The connection that the step calls `connectDestroyed` on. -/
def destroys (s : DyingServer) : Step → Option ℕ
  | .item => s.items.head?.filter fun id => s.server.conns[id]?.any fun c => c.loop = 0
  | .loop l (.proceed _) =>
    match s.server.nextFunctor l with
    | some (.connectDestroyed id) => some id
    | _ => none
  | _ => none

end DyingServer

def LifeCall.functor (id : ℕ) : LifeCall → ServerFunctor
  | .connectEstablished => .connectEstablished id
  | .connectDestroyed => .connectDestroyed id

namespace TcpServer

/-- The connection is shut down, and its channel still waits for events. -/
def HalfClosed (s : TcpServer) (id : ℕ) : Prop :=
  ∃ c ∈ s.conns[id]?, c.state = .kDisconnecting ∧ c.noneEvent = false

/-- A connection was shut down before the destructor began or since then. -/
def ShutDown (s : TcpServer) (later : List DyingServer.Step) (id : ℕ) : Prop :=
  (∃ c ∈ s.conns[id]?, c.state = .kDisconnecting) ∨ .disconnecting id ∈ later

/-- The state of a connection that nobody closes or shuts down, by the calls made on it. -/
def stateOf : List LifeCall → StateE
  | [] => .kConnecting
  | [_] => .kConnected
  | _ :: _ :: _ => .kDisconnected

/-- The calls that were made and those that still wait on the loop of the connection make up the whole life. -/
structure Life (c : ServerConnection) (shut : Prop) (called waiting whole : List LifeCall) : Prop where
  whole : called ++ waiting = whole
  calls : c.calls = called.map fun call => (call, c.loop)
  state : c.closing = false → c.state = stateOf called ∨ (c.state = .kDisconnecting ∧ called ≠ [] ∧ shut)
  down : c.closing = true → c.state = .kDisconnected ∧ c.noneEvent = true
  begun : c.closing = true ∨ c.loop = 0 → called ≠ []

/-- How far the calls on a connection go once the destructor has begun. -/
def wholeLife (due : List ℕ) (id : ℕ) : List LifeCall :=
  if id ∈ due then [.connectEstablished] else [.connectEstablished, .connectDestroyed]

/-- The connections of a dying server that has still to visit those of `due`. -/
structure Dying (s : TcpServer) (due : List ℕ) (shut : ℕ → Prop) (pending : ℕ → ℕ → List ServerFunctor) : Prop where
  lives : ∀ id c, s.conns[id]? = some c → ∃ called waiting,
    Life c (shut id) called waiting (wholeLife due id) ∧
      ∀ l, pending l id = if l = c.loop then waiting.map (LifeCall.functor id) else []
  due : due.Nodup ∧ ∀ id ∈ due, id < s.conns.length
  absent : ∀ id, s.conns.length ≤ id → ∀ l, pending l id = []
  phased : ∀ l, (s.loops l).Phased

theorem wholeLife_cases {due : List ℕ} {id : ℕ} {called rest : List LifeCall} {call : LifeCall}
    (h : called ++ call :: rest = wholeLife due id) :
    (call = .connectEstablished ∧ called = []) ∨ (call = .connectDestroyed ∧ called = [.connectEstablished]) := by
  have hpre : called ++ [call] <+: [.connectEstablished, .connectDestroyed] := by
    have hwhole : wholeLife due id <+: [.connectEstablished, .connectDestroyed] := by
      unfold wholeLife
      split
      · exact ⟨[_], rfl⟩
      · exact List.prefix_rfl
    exact List.IsPrefix.trans ⟨rest, by rw [List.append_assoc]; exact h⟩ hwhole
  rcases called with _ | ⟨first, _ | ⟨second, more⟩⟩
  · exact Or.inl ⟨(List.cons_prefix_cons.mp hpre).1, rfl⟩
  · obtain ⟨hfirst, hrest⟩ := List.cons_prefix_cons.mp hpre
    exact Or.inr ⟨(List.cons_prefix_cons.mp hrest).1, by rw [hfirst]⟩
  · have hlength := hpre.length_le
    simp at hlength

section Life

variable {c c' : ServerConnection} {shut : Prop} {called rest whole : List LifeCall} {call : LifeCall} {due : List ℕ}
  {id : ℕ}

theorem Life.established (h : Life c shut called (.connectEstablished :: rest) (wholeLife due id)) : called = [] := by
  obtain ⟨-, hcalled⟩ | ⟨hcall, -⟩ := wholeLife_cases h.whole
  · exact hcalled
  · cases hcall

theorem Life.destroyed (h : Life c shut called (.connectDestroyed :: rest) (wholeLife due id)) :
    called = [.connectEstablished] := by
  obtain ⟨hcall, -⟩ | ⟨-, hcalled⟩ := wholeLife_cases h.whole
  · cases hcall
  · exact hcalled

theorem Life.next (h : Life c shut called (call :: rest) whole) (hloop : c'.loop = c.loop)
    (hclosing : c'.closing = c.closing) (hcalls : c'.calls = c.calls ++ [(call, c.loop)])
    (hstate : c.closing = false → c'.state = stateOf (called ++ [call]) ∨ (c'.state = .kDisconnecting ∧ shut))
    (hdown : c.closing = true → c'.state = .kDisconnected ∧ c'.noneEvent = true) :
    Life c' shut (called ++ [call]) rest whole where
  whole := by rw [List.append_assoc]; exact h.whole
  calls := by rw [hcalls, h.calls, List.map_append, hloop]; rfl
  state hopen := by
    rw [hclosing] at hopen
    exact (hstate hopen).imp_right fun h => ⟨h.1, by simp, h.2⟩
  down := by rw [hclosing]; exact hdown
  begun _ := by simp

theorem Life.disconnect (h : Life c shut [.connectEstablished] rest whole) (hclosing : c.closing = false) :
    c.disconnect.state = .kDisconnected ∨ (c.disconnect.state = .kDisconnecting ∧ shut) := by
  unfold ServerConnection.disconnect
  split
  · exact Or.inl rfl
  · next hstate =>
    have hhalf := (h.state hclosing).resolve_left hstate
    exact Or.inr ⟨hhalf.1, hhalf.2.2⟩

/-- If `Channel::remove` finds events, the connection is half closed. -/
theorem Life.half (h : Life c shut [.connectEstablished] rest whole) (hne : c.disconnect.noneEvent ≠ true) :
    c.closing = false ∧ c.state = .kDisconnecting ∧ c.noneEvent = false := by
  unfold ServerConnection.disconnect at hne
  split at hne
  · exact absurd rfl hne
  · next hstate =>
    have hnoneEvent : c.noneEvent = false := by simpa using hne
    have hclosing : c.closing = false := by simpa using fun hclosing => hne (h.down hclosing).2
    exact ⟨hclosing, ((h.state hclosing).resolve_left hstate).1, hnoneEvent⟩

end Life

theorem phased_update {s : TcpServer} (h : ∀ l, (s.loops l).Phased) {l : ℕ} {t : EventLoop (Option ServerFunctor)}
    (ht : t.Phased) (k : ℕ) : (Function.update s.loops l t k).Phased :=
  (Function.forall_update_iff s.loops fun _ t => t.Phased).mpr ⟨ht, fun k _ => h k⟩ k

/-- A step of a loop that calls no functor of the server. -/
theorem pendingOf_update {s : TcpServer} {l : ℕ} {t : EventLoop (Option ServerFunctor)}
    (hw : s.waiting l = (t.remaining ++ t.pendingFunctors).reduceOption) (k id : ℕ) :
    TcpServer.pendingOf { s with loops := Function.update s.loops l t } k id = s.pendingOf k id := by
  unfold pendingOf
  rw [waiting_update]
  by_cases hk : k = l
  · rw [if_pos hk, ← hw, hk]
  · rw [if_neg hk]

namespace Dying

variable {s : TcpServer} {due : List ℕ} {shut : ℕ → Prop} {pending pending' : ℕ → ℕ → List ServerFunctor}

theorem mono (h : Dying s due shut pending) {shut' : ℕ → Prop} (hshut : ∀ id, shut id → shut' id) :
    Dying s due shut' pending := by
  refine { h with lives := fun id c hc => ?_ }
  obtain ⟨called, waiting, hlife, hp⟩ := h.lives id c hc
  exact ⟨called, waiting, { hlife with state := fun hopen => (hlife.state hopen).imp_right fun h =>
    ⟨h.1, h.2.1, hshut id h.2.2⟩ }, hp⟩

theorem congr (h : Dying s due shut pending) (hp : ∀ l id, pending' l id = pending l id)
    {loops : ℕ → EventLoop (Option ServerFunctor)} (hph : ∀ l, (loops l).Phased) :
    Dying { s with loops } due shut pending' := by
  have : pending' = pending := by
    funext l id
    exact hp l id
  subst this
  exact { h with phased := hph }

theorem setConn (h : Dying s due shut pending) {id : ℕ} {c c' : ServerConnection} (hc : s.conns[id]? = some c)
    {called waiting : List LifeCall}
    (hlife : Life c' (shut id) called waiting (wholeLife due id))
    (hp : ∀ l, pending' l id = if l = c'.loop then waiting.map (LifeCall.functor id) else [])
    (hother : ∀ j, j ≠ id → ∀ l, pending' l j = pending l j) : Dying (s.setConn id c') due shut pending' := by
  have hlt : id < s.conns.length := (List.getElem?_eq_some_iff.mp hc).1
  have hlen : (s.setConn id c').conns.length = s.conns.length := List.length_set
  constructor
  case lives =>
    intro j d hd
    obtain ⟨rfl, rfl⟩ | ⟨hj, hd⟩ := (getElem?_set_iff hlt).mp hd
    · exact ⟨called, waiting, hlife, hp⟩
    · obtain ⟨called', waiting', hlife', hp'⟩ := h.lives j d hd
      exact ⟨called', waiting', hlife', fun l => (hother j hj l).trans (hp' l)⟩
  case due => rw [hlen]; exact h.due
  case absent =>
    intro j hj l
    rw [hlen] at hj
    rw [hother j (by omega) l]
    exact h.absent j hj l
  case phased => exact h.phased

variable [Build]

/-- The functor in hand is the next call that its connection waits for. -/
theorem call {l : ℕ} {f : ServerFunctor} (h : Dying s due shut (s.holding l f)) :
    (∃ t, s.callFunctor l f = .ok t ∧ Dying t due shut t.pendingOf) ∨
      ∃ id e, f = .connectDestroyed id ∧ s.HalfClosed id ∧ s.callFunctor l f = .error e := by
  obtain ⟨id, hid⟩ : ∃ id, f.conn = id := ⟨_, rfl⟩
  have hself : ∀ k, s.holding l f k id = if k = l then f :: s.pendingOf k id else s.pendingOf k id := by
    intro k
    unfold holding
    rw [hid]
    simp
  have hlt : id < s.conns.length := by
    by_contra hge
    have habs := h.absent id (by omega) l
    rw [hself, if_pos rfl] at habs
    cases habs
  obtain ⟨c, hc⟩ : ∃ c, s.conns[id]? = some c := ⟨_, List.getElem?_eq_getElem hlt⟩
  obtain ⟨called, waiting, hlife, hpend⟩ := h.lives id c hc
  have hother : ∀ j, j ≠ id → ∀ k, s.pendingOf k j = s.holding l f k j := by
    intro j hj k
    rw [holding_other (by rwa [hid])]
  have hl := hpend l
  rw [hself, if_pos rfl] at hl
  have hloop : l = c.loop := by
    by_contra hne
    rw [if_neg hne] at hl
    cases hl
  rw [if_pos hloop] at hl
  obtain ⟨call, rest, rfl⟩ : ∃ call rest, waiting = call :: rest := by
    cases waiting with
    | nil => cases hl
    | cons call rest => exact ⟨call, rest, rfl⟩
  obtain ⟨hf, hrest⟩ := List.cons.inj hl
  have hafter : ∀ k, s.pendingOf k id = if k = c.loop then rest.map (LifeCall.functor id) else [] := by
    intro k
    by_cases hk : k = c.loop
    · rw [if_pos hk, hk, ← hloop]
      exact hrest
    · have hk' := hpend k
      rw [hself, if_neg (by rwa [hloop]), if_neg hk] at hk'
      rw [hk', if_neg hk]
  cases call with
  | connectEstablished =>
    have hcalled : called = [] := hlife.established
    have hclosing : c.closing = false := by simpa using fun hclosing => hlife.begun (Or.inl hclosing) hcalled
    have hstate : c.state = .kConnecting := by
      rw [(hlife.state hclosing).resolve_right fun h => h.2.1 hcalled, hcalled]
      rfl
    rw [hf]
    refine Or.inl ⟨_, connectEstablished_ok hc hloop hstate,
      h.setConn hc (hlife.next rfl rfl (by rw [hloop]) ?_ ?_) hafter hother⟩
    · intro _
      rw [hcalled]
      exact Or.inl rfl
    · simp [hclosing]
  | connectDestroyed =>
    have hcalled : called = [.connectEstablished] := hlife.destroyed
    rw [hf]
    cases hassert : assert (c.disconnect.noneEvent = true) with
    | error e =>
      have hhalf : c.closing = false ∧ c.state = .kDisconnecting ∧ c.noneEvent = false := by
        rw [hcalled] at hlife
        refine hlife.half fun hne => ?_
        rw [assert_pos hne] at hassert
        cases hassert
      refine Or.inr ⟨id, e, rfl, ⟨c, hc, hhalf.2⟩, ?_⟩
      unfold callFunctor LifeCall.functor connectDestroyed TcpServer.conn assertInLoopThread
      dsimp only
      rw [element_eq hc, ok_bind, if_pos hloop, ok_bind, hassert, error_bind]
    | ok =>
      refine Or.inl ⟨_, connectDestroyed_ok hc hloop hassert,
        h.setConn hc (hlife.next c.disconnect_loop c.disconnect_closing ?_ ?_ ?_) ?_ hother⟩
      · dsimp only
        rw [c.disconnect_calls, hloop]
      · intro hclosing
        rw [hcalled] at hlife ⊢
        exact hlife.disconnect hclosing
      · intro hclosing
        rw [c.disconnect_disconnected (hlife.down hclosing).1]
        exact hlife.down hclosing
      · dsimp only
        rw [c.disconnect_loop]
        exact hafter

theorem proceed (h : Dying s due shut s.pendingOf) {l : ℕ} {active : List ActiveChannel}
    (he : (s.loops l).Enabled (.proceed active)) :
    (∃ t, s.proceed l active = .ok t ∧ Dying t due shut t.pendingOf) ∨
      ∃ id e, s.nextFunctor l = some (.connectDestroyed id) ∧ s.HalfClosed id ∧ s.proceed l active = .error e := by
  obtain ⟨t, ht⟩ := Table.proceed_ok (h.phased l) active
  have hphased : t.Phased := (h.phased l).step he ht
  unfold TcpServer.proceed
  rw [ht, ok_bind]
  dsimp only
  have hnone : s.waiting l = (t.remaining ++ t.pendingFunctors).reduceOption →
      ∃ u, (.ok { s with loops := Function.update s.loops l t } : Exec TcpServer) = .ok u ∧
        Dying u due shut u.pendingOf :=
    fun hw => ⟨_, rfl, h.congr (pendingOf_update hw) (phased_update h.phased hphased)⟩
  by_cases hcall : ∃ f rest, (s.loops l).phase = .call (f :: rest)
  · obtain ⟨f, rest, hphase⟩ := hcall
    have hw := EventLoop.proceed_call ht hphase
    have hnext : s.nextFunctor l = f := by
      unfold nextFunctor
      rw [hphase]
      cases f <;> rfl
    cases f with
    | none =>
      rw [hnext]
      apply Or.inl
      apply hnone
      unfold waiting
      rw [hw, List.reduceOption_cons_of_none]
    | some f =>
      rw [hnext]
      have hholding : Dying { s with loops := Function.update s.loops l t } due shut
          (TcpServer.holding { s with loops := Function.update s.loops l t } l f) := by
        refine h.congr (fun k id => s.holding_of_call ?_ k id) (phased_update h.phased hphased)
        unfold waiting
        rw [hw, List.reduceOption_cons_of_some]
      refine hholding.call.imp_right ?_
      rintro ⟨id, e, rfl, hhalf, herror⟩
      exact ⟨id, e, rfl, hhalf, herror⟩
  · have hne : ∀ f rest, (s.loops l).phase ≠ .call (f :: rest) := fun f rest hp => hcall ⟨f, rest, hp⟩
    have hnext : s.nextFunctor l = none := by
      unfold nextFunctor
      split
      · exact absurd (by assumption) (hne _ _)
      · rfl
    rw [hnext]
    apply Or.inl
    apply hnone
    unfold waiting
    rw [EventLoop.proceed_waiting ht hne]

theorem loop (h : Dying s due shut s.pendingOf) {l : ℕ} {i : EventLoop.Step (Option ServerFunctor)}
    (he : s.Enabled (.loop l i)) :
    (∃ t, s.step (.loop l i) = .ok t ∧ Dying t due shut t.pendingOf) ∨
      ∃ id e active, i = .proceed active ∧ s.nextFunctor l = some (.connectDestroyed id) ∧ s.HalfClosed id ∧
        s.step (.loop l i) = .error e := by
  have hphased : ∀ t, (s.loops l).step i = .ok t → t.Phased := fun t ht => (h.phased l).step (enabled_loop he) ht
  have hother : ∀ t, (s.loops l).step i = .ok t → s.waiting l = (t.remaining ++ t.pendingFunctors).reduceOption →
      ∃ u, (.ok { s with loops := Function.update s.loops l t } : Exec TcpServer) = .ok u ∧
        Dying u due shut u.pendingOf :=
    fun t ht hw => ⟨_, rfl, h.congr (pendingOf_update hw) (phased_update h.phased (hphased t ht))⟩
  cases i with
  | proceed active =>
    refine (h.proceed he).imp_right ?_
    rintro ⟨id, e, hnext, hhalf, herror⟩
    exact ⟨id, e, active, rfl, hnext, hhalf, herror⟩
  | queueInLoop isInLoopThread f =>
    obtain ⟨rfl, -⟩ := he
    refine Or.inl (hother _ rfl ?_)
    unfold waiting
    rw [EventLoop.queueInLoop_waiting, List.reduceOption_append _ [none]]
    exact (List.append_nil _).symm
  | wakeup isInLoopThread => cases isInLoopThread <;> exact Or.inl (hother _ rfl rfl)
  | quit isInLoopThread => cases isInLoopThread <;> exact Or.inl (hother _ rfl rfl)
  | quitWakeup => exact Or.inl (hother _ rfl rfl)

theorem disconnecting (h : Dying s due shut s.pendingOf) {id : ℕ} (he : s.Enabled (.disconnecting id)) :
    ∃ t, s.step (.disconnecting id) = .ok t ∧ Dying t due (fun j => shut j ∨ j = id) t.pendingOf := by
  obtain ⟨c, hc⟩ : ∃ c, s.conns[id]? = some c := ⟨_, List.getElem?_eq_getElem he⟩
  have hmono : Dying s due (fun j => shut j ∨ j = id) s.pendingOf := h.mono fun _ => Or.inl
  unfold step TcpServer.conn
  dsimp only
  rw [element_eq hc, ok_bind]
  refine ⟨_, rfl, ?_⟩
  by_cases hstate : c.state = .kConnected
  · rw [if_pos hstate]
    obtain ⟨called, waiting, hlife, hp⟩ := hmono.lives id c hc
    refine hmono.setConn hc ⟨hlife.whole, hlife.calls, fun hclosing => Or.inr ⟨rfl, ?_, Or.inr rfl⟩, fun hclosing => ?_,
      hlife.begun⟩ hp fun _ _ _ => rfl
    · rintro rfl
      rcases hlife.state hclosing with hstate' | ⟨-, hne, -⟩
      · exact absurd (hstate.symm.trans hstate') (by simp [stateOf])
      · exact hne rfl
    · exact absurd (hstate.symm.trans (hlife.down hclosing).1) (by simp)
  · rw [if_neg hstate]
    exact hmono

theorem update (h : Dying s due shut s.pendingOf) {id : ℕ} {noneEvent : Bool} (he : s.Enabled (.update id noneEvent)) :
    ∃ t, s.step (.update id noneEvent) = .ok t ∧ Dying t due shut t.pendingOf := by
  obtain ⟨c, hc, -, -, hclosing⟩ := he
  obtain ⟨called, waiting, hlife, hp⟩ := h.lives id c hc
  unfold step TcpServer.conn
  dsimp only
  rw [element_eq hc, ok_bind]
  refine ⟨_, rfl, h.setConn hc ⟨hlife.whole, hlife.calls, hlife.state, ?_, hlife.begun⟩ hp fun _ _ _ => rfl⟩
  exact fun hclosing' => absurd hclosing' (by simp [hclosing])

omit [Build] in
/-- The destructor comes to the connection `id`: one more functor waits for it behind those that already wait. -/
theorem visit {id : ℕ} {c : ServerConnection} (h : Dying s (id :: due) shut s.pendingOf) (hc : s.conns[id]? = some c) :
    Dying s due shut fun l j => s.pendingOf l j ++ if l = c.loop ∧ id = j then [.connectDestroyed id] else [] := by
  have hid : id ∉ due := (List.nodup_cons.mp h.due.1).1
  constructor
  case lives =>
    intro j d hd
    obtain ⟨called, waiting, hlife, hpend⟩ := h.lives j d hd
    by_cases hj : j = id
    · subst hj
      rw [hc] at hd
      obtain rfl := Option.some.inj hd
      refine ⟨called, waiting ++ [.connectDestroyed], ⟨?_, hlife.calls, hlife.state, hlife.down, hlife.begun⟩,
        fun l => ?_⟩
      · rw [← List.append_assoc, hlife.whole, wholeLife, wholeLife, if_pos List.mem_cons_self, if_neg hid]
        rfl
      · rw [hpend]
        by_cases hl : l = c.loop
        · rw [if_pos hl, if_pos hl, if_pos ⟨hl, rfl⟩, List.map_append]
          rfl
        · rw [if_neg hl, if_neg hl, if_neg (fun h => hl h.1)]
          rfl
    · refine ⟨called, waiting, ?_, fun l => ?_⟩
      · have hwhole : wholeLife due j = wholeLife (id :: due) j := by
          unfold wholeLife
          simp [hj]
        rw [hwhole]
        exact hlife
      · rw [if_neg (fun h => hj h.2.symm), List.append_nil]
        exact hpend l
  case due => exact ⟨(List.nodup_cons.mp h.due.1).2, fun j hj => h.due.2 j (List.mem_cons_of_mem _ hj)⟩
  case absent =>
    intro j hj l
    have hlt := h.due.2 id List.mem_cons_self
    rw [h.absent j hj, if_neg (fun h => by omega)]
    rfl
  case phased => exact h.phased

/-- A connection of the base loop is destroyed on the spot, another one when its loop comes to it. -/
theorem item {id : ℕ} {c : ServerConnection} (h : Dying s (id :: due) shut s.pendingOf) (hc : s.conns[id]? = some c)
    (hu : (s.loops 0).inUserCode = true) :
    (∃ t, s.runInLoop 0 c.loop (.connectDestroyed id) = .ok t ∧ Dying t due shut t.pendingOf) ∨
      ∃ e, c.loop = 0 ∧ s.HalfClosed id ∧ s.runInLoop 0 c.loop (.connectDestroyed id) = .error e := by
  have hvisit := h.visit hc
  unfold TcpServer.runInLoop
  by_cases hl : 0 = c.loop
  · obtain ⟨called, waiting, hlife, hpend⟩ := h.lives id c hc
    have hwaiting : waiting = [] := by
      have hwhole := hlife.whole
      rw [wholeLife, if_pos List.mem_cons_self, List.append_eq_singleton_iff] at hwhole
      obtain ⟨hcalled, -⟩ | ⟨-, hwaiting⟩ := hwhole
      · exact absurd hcalled (hlife.begun (Or.inr hl.symm))
      · exact hwaiting
    rw [if_pos hl]
    have hholding : Dying s due shut (s.holding 0 (.connectDestroyed id)) := by
      refine hvisit.congr (fun k j => ?_) h.phased
      unfold holding
      change (if k = 0 ∧ id = j then _ else _) = _
      by_cases hkj : k = 0 ∧ id = j
      · have hnone : s.pendingOf k j = [] := by
          rw [← hkj.2, hpend, hwaiting]
          simp
        rw [if_pos hkj, if_pos ⟨hkj.1.trans hl, hkj.2⟩, hnone]
        rfl
      · rw [if_neg hkj, if_neg (by rwa [← hl]), List.append_nil]
    refine hholding.call.imp_right ?_
    rintro ⟨j, e, hj, hhalf, herror⟩
    cases hj
    exact ⟨e, hl.symm, hhalf, herror⟩
  · rw [if_neg hl]
    refine Or.inl ⟨_, rfl, hvisit.congr (fun k j => ?_) (phased_queueInLoop h.phased hu _ _)⟩
    exact pendingOf_queueInLoop s 0 c.loop (.connectDestroyed id) k j

end Dying

theorem mem_items {s : TcpServer} {id : ℕ} : id ∈ s.items ↔ ∃ nm, s.connections.lookup nm = some id := by
  unfold items
  rw [List.mem_map]
  constructor
  · rintro ⟨e, he, rfl⟩
    exact ⟨e.1, AList.mem_lookup_iff.mpr ((List.mem_insertionSort _).mp he)⟩
  · rintro ⟨nm, hnm⟩
    exact ⟨⟨nm, id⟩, (List.mem_insertionSort _).mpr (AList.mem_lookup_iff.mp hnm), rfl⟩

theorem Table.mem_items {s : TcpServer} {pending : ℕ → ℕ → List ServerFunctor} (h : Table s pending) {id : ℕ} :
    id ∈ s.items ↔ id < s.conns.length ∧ id ∉ s.removed := by
  rw [TcpServer.mem_items]
  constructor
  · rintro ⟨nm, hnm⟩
    obtain ⟨c, hc, -, hnot⟩ := (h.holds nm id).mp hnm
    exact ⟨(List.getElem?_eq_some_iff.mp hc).1, hnot⟩
  · rintro ⟨hlt, hnot⟩
    exact ⟨_, (h.holds _ id).mpr ⟨_, List.getElem?_eq_getElem hlt, rfl, hnot⟩⟩

theorem Table.items_nodup {s : TcpServer} {pending : ℕ → ℕ → List ServerFunctor} (h : Table s pending) :
    s.items.Nodup := by
  have hentries : s.connections.entries.Nodup := s.connections.nodupKeys.nodup
  refine List.Nodup.map_on ?_ (hentries.perm (List.perm_insertionSort _ _).symm)
  intro e he e' he' heq
  obtain ⟨c, hc, hname, -⟩ := (h.holds e.1 e.2).mp (AList.mem_lookup_iff.mpr ((List.mem_insertionSort _).mp he))
  obtain ⟨c', hc', hname', -⟩ := (h.holds e'.1 e'.2).mp (AList.mem_lookup_iff.mpr ((List.mem_insertionSort _).mp he'))
  rw [heq, hc'] at hc
  obtain rfl := Option.some.inj hc
  exact Sigma.ext (hname.symm.trans hname') (heq_of_eq heq)

/-- No connection that is in the table has begun to close. -/
def Undisturbed (s : TcpServer) : Prop :=
  ∀ (id : ℕ) (c : ServerConnection), s.conns[id]? = some c → id ∉ s.removed → c.closing = false

theorem Table.dying {s : TcpServer} (h : Table s s.pendingOf) (hopen : s.Undisturbed)
    (hbase : ∀ c ∈ s.conns, c.loop = 0 → c.state ≠ .kConnecting) : Dying s s.items (s.ShutDown []) s.pendingOf := by
  constructor
  case lives =>
    intro id c hc
    obtain ⟨st, hfit, hrem, hpend⟩ := h.stages id c hc
    have hlt := (List.getElem?_eq_some_iff.mp hc).1
    have hdue : id ∈ s.items ↔ ¬st.isRemoved := by rw [h.mem_items, hrem]; exact and_iff_right hlt
    unfold wholeLife
    cases st with
    | connecting =>
      obtain ⟨hstate, hclosing, -, hcalls⟩ := hfit
      rw [if_pos (hdue.mpr not_false)]
      refine ⟨[], [.connectEstablished], ⟨rfl, hcalls, fun _ => Or.inl hstate, by simp [hclosing], ?_⟩, hpend⟩
      rintro (hc' | hc')
      · rw [hclosing] at hc'
        cases hc'
      · exact absurd hstate (hbase c (List.mem_of_getElem? hc) hc')
    | established =>
      obtain ⟨hop, hcalls⟩ := hfit
      rw [if_pos (hdue.mpr not_false)]
      refine ⟨[.connectEstablished], [], ⟨rfl, hcalls, fun hclosing => ?_, hop.down, fun _ => by simp⟩,
        fun l => ?_⟩
      · exact (hop.live hclosing).imp_right fun hstate => ⟨hstate, by simp, Or.inl ⟨c, hc, hstate⟩⟩
      · rw [hpend]
        simp [pendingAt, Stage.due]
    | closed =>
      have hnot : id ∉ s.removed := fun hmem => hrem.mp hmem
      exact absurd hfit.1.closing (by simp [hopen id c hc hnot])
    | removed =>
      rw [if_neg (fun hmem => hdue.mp hmem trivial)]
      refine ⟨[.connectEstablished], [.connectDestroyed],
        ⟨rfl, hfit.2, fun hclosing => ?_, fun _ => ⟨hfit.1.state, hfit.1.noneEvent⟩, fun _ => by simp⟩, hpend⟩
      rw [hfit.1.closing] at hclosing
      cases hclosing
    | destroyed =>
      rw [if_neg (fun hmem => hdue.mp hmem trivial)]
      refine ⟨[.connectEstablished, .connectDestroyed], [],
        ⟨rfl, hfit.2, fun hclosing => ?_, fun _ => ⟨hfit.1.state, hfit.1.noneEvent⟩, fun _ => by simp⟩, fun l => ?_⟩
      · rw [hfit.1.closing] at hclosing
        cases hclosing
      · rw [hpend]
        simp [pendingAt, Stage.due]
  case due => exact ⟨h.items_nodup, fun id hid => (h.mem_items.mp hid).1⟩
  case absent => exact h.absent
  case phased => exact h.phased

end TcpServer

namespace DyingServer

open TcpServer

variable [Build]

theorem of_server {s : DyingServer} {i : TcpServer.Step} {t : TcpServer} (ht : s.server.step i = .ok t) :
    (do let server ← s.server.step i; return { s with server }) = Except.ok { s with server := t } := by
  rw [ht]
  rfl

theorem step_ok {s : DyingServer} {shut : ℕ → Prop} {i : Step} (h : Dying s.server s.items shut s.server.pendingOf)
    (he : s.Enabled i) :
    (∃ t, s.step i = .ok t ∧ Dying t.server t.items (fun id => shut id ∨ i = .disconnecting id) t.server.pendingOf ∧
      t.server.conns.length = s.server.conns.length) ∨
      ∃ id ∈ s.destroys i, s.server.HalfClosed id ∧ ∃ e, s.step i = .error e := by
  cases i with
  | disconnecting id =>
    obtain ⟨t, ht, hdying⟩ := h.disconnecting he
    refine Or.inl ⟨_, of_server ht, hdying.mono ?_, (step_advances (by simp) ht).length⟩
    rintro j (hj | rfl)
    · exact Or.inl hj
    · exact Or.inr rfl
  | update id noneEvent =>
    obtain ⟨t, ht, hdying⟩ := h.update he
    exact Or.inl ⟨_, of_server ht, hdying.mono fun _ => Or.inl, (step_advances (by simp) ht).length⟩
  | loop l i =>
    obtain ⟨t, ht, hdying⟩ | ⟨id, e, active, rfl, hnext, hhalf, herror⟩ := h.loop he.1
    · exact Or.inl ⟨_, of_server ht, hdying.mono fun _ => Or.inl, (step_advances (by simp) ht).length⟩
    · refine Or.inr ⟨id, ?_, hhalf, e, ?_⟩
      · simp [destroys, hnext]
      · change (s.server.step (.loop l (.proceed active)) >>= _) = _
        rw [herror, error_bind]
  | item =>
    obtain ⟨server, items⟩ := s
    obtain ⟨hne, hu⟩ := he
    obtain ⟨id, rest, rfl⟩ := List.exists_cons_of_ne_nil hne
    have hlt : id < server.conns.length := h.due.2 id List.mem_cons_self
    have hc := List.getElem?_eq_getElem hlt
    have hstep : ∀ r, server.runInLoop 0 server.conns[id].loop (.connectDestroyed id) = r →
        DyingServer.step ⟨server, id :: rest⟩ .item = r >>= fun server => return ⟨server, rest⟩ := by
      intro r hr
      unfold DyingServer.step TcpServer.conn
      dsimp only
      rw [element_eq hc, ok_bind, hr]
    obtain ⟨t, ht, hdying⟩ | ⟨e, hbase, hhalf, herror⟩ := h.item hc hu
    · exact Or.inl ⟨⟨t, rest⟩, hstep _ ht, hdying.mono fun _ => Or.inl, (runInLoop_advances ht).length⟩
    · refine Or.inr ⟨id, ?_, hhalf, e, (hstep _ herror).trans (error_bind e _)⟩
      simp [destroys, hc, hbase]

/-- Of the life of every connection, at any time after the destructor has begun, what was not called yet waits on the
loop of the connection in the right order, and nothing waits elsewhere. Only `connectDestroyed` on a connection that
is half closed can fail. -/
theorem teardown {name ipPort : List Char} (hip : ipPort.length ≤ 51) {n : ℕ} {s₀ s : TcpServer}
    (h₀ : started name ipPort n = .ok s₀) {steps : List TcpServer.Step}
    (h : Path TcpServer.step TcpServer.Enabled s₀ steps s) (hopen : s.Undisturbed) {later : List Step} {d : DyingServer}
    (hd : Path step Enabled s.dying later d) :
    d.server.conns.length = s.conns.length ∧
      (∀ (id : ℕ) (c : ServerConnection), d.server.conns[id]? = some c → ∃ called waiting,
        Life c (s.ShutDown later id) called waiting (wholeLife d.items id) ∧
          ∀ l, d.server.pendingOf l id = if l = c.loop then waiting.map (LifeCall.functor id) else []) ∧
      ∀ i, d.Enabled i → (∃ e, d.step i = .ok e) ∨ ∃ id ∈ d.destroys i, d.server.HalfClosed id := by
  have hbegin : Dying s s.items (s.ShutDown []) s.pendingOf := by
    have htable : Table s s.pendingOf := by
      apply h.invariant (started_table hip h₀)
      intro t i u ht he hs
      obtain ⟨u', hu, hu'⟩ := ht.step_ok he
      rw [hs] at hu
      rwa [Except.ok.inj hu]
    have hr : Rotates s _ :=
      h.invariant (P := fun t => Rotates t _) (started_rotates h₀) fun _ _ _ ht _ hs => ht.step hs
    exact htable.dying hopen hr.base
  have hinv : Dying d.server d.items (s.ShutDown later) d.server.pendingOf ∧
      d.server.conns.length = s.conns.length := by
    induction hd with
    | nil => exact ⟨hbegin, rfl⟩
    | snoc i _ he hs ih =>
      obtain ⟨u', hu, hdying, hlength⟩ | ⟨id, -, -, e, herror⟩ := step_ok ih.1 he
      · obtain rfl := Except.ok.inj (hs.symm.trans hu)
        refine ⟨hdying.mono ?_, hlength.trans ih.2⟩
        rintro id ((hshut | hmem) | rfl)
        · exact Or.inl hshut
        · exact Or.inr (List.mem_append_left _ hmem)
        · exact Or.inr (by simp)
      · cases hs.symm.trans herror
  refine ⟨hinv.2, hinv.1.lives, fun i he => ?_⟩
  obtain ⟨e, hstep, -⟩ | ⟨id, hid, hhalf, -⟩ := step_ok hinv.1 he
  · exact Or.inl ⟨e, hstep⟩
  · exact Or.inr ⟨id, hid, hhalf⟩

omit [Build] in
/-- Three connections on two loops. The last is not yet established when the destructor begins; the first is shut
down before its loop destroys it, with no events left to wait for. -/
theorem teardown_two_threads :
    letI := Build.debug
    let proceed : ℕ → ℕ → List TcpServer.Step := fun l n => List.replicate n (.loop l (.proceed []))
    let woken : ℕ → List TcpServer.Step := fun l => [.loop l (.wakeup false), .loop l (.proceed [.wakeup])] ++ proceed l 7
    let wokenLater : ℕ → List Step := fun l =>
      [.loop l (.wakeup false), .loop l (.proceed [.wakeup])] ++ List.replicate 7 (.loop l (.proceed []))
    let steps := proceed 0 3 ++ proceed 1 3 ++ proceed 2 3 ++ [.loop 0 (.proceed [.other]), .loop 0 (.proceed [])] ++
      [.newConnection, .newConnection] ++ woken 1 ++ woken 2 ++ [.newConnection]
    let later : List Step := [.item, .item, .loop 1 (.wakeup false), .loop 1 (.proceed [.other, .wakeup]),
      .loop 1 (.proceed []), .update 0 true, .disconnecting 0] ++ List.replicate 7 (.loop 1 (.proceed [])) ++
      [.item] ++ wokenLater 2
    ∃ s₀ s d, started ['s'] ['h'] 2 = .ok s₀ ∧ Path TcpServer.step TcpServer.Enabled s₀ steps s ∧ s.Undisturbed ∧
      s.conns.map (fun c => (c.loop, c.calls.length)) = [(1, 1), (2, 1), (1, 0)] ∧
      Path step Enabled s.dying later d ∧ d.server.conns.map (fun c => (c.loop, c.calls.length)) = [(1, 2), (2, 2), (1, 1)] ∧
      d.server.conns.map ServerConnection.state = [.kDisconnecting, .kDisconnected, .kConnected] ∧
      ∀ (id : ℕ) (c : ServerConnection), d.server.conns[id]? = some c → ∃ called waiting,
        Life c (s.ShutDown later id) called waiting (wholeLife d.items id) := by
  intro proceed woken wokenLater steps later
  let _ := Build.debug
  obtain ⟨s₀, h₀⟩ : ∃ s₀, started ['s'] ['h'] 2 = .ok s₀ := ⟨_, rfl⟩
  let late : TcpServer → Option DyingServer := fun s => guardedRun step Enabled s.dying later
  let open' : TcpServer → Bool := fun s => s.conns.all fun c => !c.closing
  obtain ⟨s, hs, hp⟩ := Path.exists_of_any TcpServer.step TcpServer.Enabled s₀ steps
    (fun s => s.conns.map (fun c => (c.loop, c.calls.length)) = [(1, 1), (2, 1), (1, 0)] && open' s &&
      (late s).any fun d => d.server.conns.map (fun c => (c.loop, c.calls.length)) = [(1, 2), (2, 2), (1, 1)] ∧
        d.server.conns.map ServerConnection.state = [.kDisconnecting, .kDisconnected, .kConnected]) (by
    rw [← Except.ok.inj h₀]
    decide +kernel)
  obtain ⟨hp, hlate⟩ := Bool.and_eq_true_iff.mp hp
  obtain ⟨hconns, hopen⟩ := Bool.and_eq_true_iff.mp hp
  obtain ⟨d, hd, hdone⟩ := (Option.any_eq_true _ _).mp hlate
  have hpath := Path.of_guardedRun hd
  have hundisturbed : s.Undisturbed := by
    intro id c hc _
    simpa using List.all_eq_true.mp hopen c (List.mem_of_getElem? hc)
  obtain ⟨hcalls, hstates⟩ := of_decide_eq_true hdone
  refine ⟨s₀, s, d, h₀, hs, hundisturbed, of_decide_eq_true hconns, hpath, hcalls, hstates, fun id c hc => ?_⟩
  obtain ⟨called, waiting, hlife, -⟩ := (teardown (by decide) h₀ hs hundisturbed hpath).2.1 id c hc
  exact ⟨called, waiting, hlife⟩

end DyingServer

end Networker
