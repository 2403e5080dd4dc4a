import Networker.ConnectionLifetime
import Networker.EndToEnd

/-!
`test/src/echo.cpp`: the server at the right end of a socket pair, with a client of any
kind at the left end. `onMessage` runs inside `handleRead`, so that no other step of the
server's loop comes between its two calls, but steps of the client do.
-/

namespace Networker

open CheckedRuns

/-- Where `onMessage` is: not called, before `buf->retrieveAllAsString()`, or before `conn->send(msg)`. -/
inductive OnMessage
  | idle
  | entered
  | received (msg : List UInt8)
deriving DecidableEq, Repr

/-- What was taken from the connection and not yet given back. -/
def OnMessage.pending : OnMessage → List UInt8
  | .idle | .entered => []
  | .received msg => msg

def TcpConnection.Step.isCall : TcpConnection.Step → Bool
  | .call _ _ => true
  | .event _ | .task _ _ | .delayedClose | .removeConnection | .doPendingFunctors | .functor _ | .destroy => false

/-- How much `readv` returns in a step that may read. -/
def TcpConnection.Step.readLength : TcpConnection.Step → ℕ
  | .task r _ => r.bytes.length
  | .call _ _ | .event _ | .delayedClose | .removeConnection | .doPendingFunctors | .functor _ | .destroy => 0

structure EchoServer where
  pair : SocketPair
  onMessage : OnMessage := .idle

namespace EchoServer

def client (e : EchoServer) : Endpoint := e.pair .left

def server (e : EchoServer) : Endpoint := e.pair .right

inductive Step
  | pair (s : SocketPair.Step)
  | onMessage (w : WriteResult)
deriving DecidableEq, Repr

/-- A step of the server in which `handleRead` invokes the callback. -/
def calls (e : EchoServer) : SocketPair.Step → Bool
  | .conn .right s => decide (e.server.conn.arrived s ≠ [])
  | .conn .left _ | .close _ => false

/-- The next call `onMessage` makes. -/
def nextCall (e : EchoServer) (w : WriteResult) : Option TcpConnection.Call :=
  match e.onMessage with
  | .idle => none
  | .entered => some (.retrieveInput e.server.conn.inputBuffer.readableBytes)
  | .received msg => some (.send (.string msg) w)

def afterCall (e : EchoServer) : OnMessage :=
  match e.onMessage with
  | .entered => .received e.server.conn.inputBuffer.readable
  | .idle | .received _ => .idle

def step [Build] (e : EchoServer) : Step → Exec EchoServer
  | .pair s => do
    let pair ← e.pair.step s
    .ok { pair, onMessage := if e.calls s then .entered else e.onMessage }
  | .onMessage w =>
    match e.nextCall w with
    | none => .ok e
    | some call => do
      let pair ← e.pair.step (.conn .right (.call true call))
      .ok { pair, onMessage := e.afterCall }

/-- The server's loop steps on only after `onMessage`, and no thread of its own calls the connection. One `readv`
transfers at most `0x7ffff000` bytes. -/
def Enabled (e : EchoServer) : Step → Prop
  | .pair (.conn .left s) => e.pair.Enabled (.conn .left s)
  | .pair (.close .left) => e.pair.Enabled (.close .left)
  | .pair (.conn .right s) =>
    e.onMessage = .idle ∧ s.isCall = false ∧ s.readLength ≤ 0x7ffff000 ∧ e.pair.Enabled (.conn .right s)
  | .pair (.close .right) => e.onMessage = .idle ∧ e.pair.Enabled (.close .right)
  | .onMessage w => e.onMessage ≠ .idle ∧ ∀ call ∈ e.nextCall w, e.pair.Enabled (.conn .right (.call true call))

instance (e : EchoServer) : (i : Step) → Decidable (e.Enabled i)
  | .pair (.conn .left s) => inferInstanceAs (Decidable (e.pair.Enabled (.conn .left s)))
  | .pair (.close .left) => inferInstanceAs (Decidable (e.pair.Enabled (.close .left)))
  | .pair (.conn .right _) => inferInstanceAs (Decidable (_ ∧ _ ∧ _ ∧ _))
  | .pair (.close .right) => inferInstanceAs (Decidable (_ ∧ _))
  | .onMessage _ => inferInstanceAs (Decidable (_ ∧ _))

end EchoServer

namespace TcpConnection

variable {c c' : TcpConnection}

/-- The step hands no message to `sendInLoop` and does not bring the connection up. -/
def Silent (c c' : TcpConnection) : Prop :=
  c'.handed = c.handed ∧ (c'.state = .kConnected → c.state = .kConnected)

theorem Silent.refl (c : TcpConnection) : Silent c c := ⟨rfl, id⟩

theorem shutdownInLoop_silent (c : TcpConnection) : Silent c c.shutdownInLoop := by
  obtain ⟨trace, ht⟩ := shutdownInLoop_eq c
  rw [ht]
  exact ⟨rfl, id⟩

/-- No functor in the queue was queued by a call of another thread. -/
def Unshared (c : TcpConnection) : Prop := ∀ f ∈ c.queue, f.isRaw = false

theorem Unshared.queues (h : c.Unshared) {p : Functor → Prop} (hp : ∀ f, p f → f.isRaw = false)
    (hc : Queues p c c') : c'.Unshared := by
  obtain ⟨extra, he, hx⟩ := hc.queue
  intro f hf
  rw [he] at hf
  rcases List.mem_append.mp hf with hf | hf
  · exact h f hf
  · exact hp f (hx f hf)

theorem Unshared.subset (h : c.Unshared) (hsub : ∀ f ∈ c'.queue, f ∈ c.queue) : c'.Unshared :=
  fun f hf => h f (hsub f hf)

variable [Build]

theorem handleWrite_silent (hv : c.outputBuffer.Valid) {w : WriteResult} (h : c.handleWrite w = .ok c') : Silent c c' := by
  rcases handleWrite_cases hv w with ⟨-, he⟩ | ⟨-, -, b, -, -, ⟨-, he⟩ | ⟨-, extra, -, he⟩⟩
  · cases he.symm.trans h
    exact .refl c
  · cases he.symm.trans h
    exact ⟨rfl, id⟩
  · cases he.symm.trans h
    split_ifs
    · obtain ⟨hhanded, hstate⟩ := shutdownInLoop_silent { c with
        accepted := c.accepted ++ writeAccepted c.outputBuffer.readable w
        outputBuffer := b
        channel := c.channel.disableWriting
        pendingFunctors := c.pendingFunctors ++ extra }
      exact ⟨hhanded, hstate⟩
    · exact ⟨rfl, id⟩

theorem connectDestroyed_silent (h : c.connectDestroyed = .ok c') : Silent c c' := by
  unfold connectDestroyed at h
  split_ifs at h
  · cases h
    exact ⟨rfl, fun hc => by cases hc⟩
  · rw [removeChannel_eq h]
    exact ⟨rfl, id⟩

/-- What the loop does by itself. -/
theorem step_silent (hv : c.outputBuffer.Valid) (hq : c.Unshared) {s : Step} (hs : s.isCall = false)
    (h : c.step s = .ok c') : Silent c c' := by
  cases s with
  | call onLoop call => cases hs
  | event revents =>
    cases h
    exact ⟨rfl, id⟩
  | task r w =>
    obtain ⟨t, ts, -, hrun⟩ | ⟨-, rfl⟩ := task_inv h
    · obtain ⟨-, hwrite⟩ | rfl | ⟨b, rfl | rfl | ⟨e, -, rfl⟩⟩ := runTask_inv hrun
      · exact handleWrite_silent (c := { c with tasks := ts }) hv hwrite
      · exact ⟨rfl, id⟩
      · exact ⟨rfl, id⟩
      · exact ⟨rfl, fun hc => by cases hc⟩
      · exact ⟨rfl, id⟩
    · exact .refl _
  | delayedClose =>
    cases h
    unfold forceClose
    split_ifs
    · exact ⟨rfl, fun hc => by cases hc⟩
    · exact ⟨rfl, id⟩
  | removeConnection =>
    cases h
    exact ⟨rfl, id⟩
  | doPendingFunctors =>
    cases h
    exact ⟨rfl, id⟩
  | functor w =>
    obtain ⟨f, fs, hf, hrun⟩ | ⟨-, rfl⟩ := functor_inv h
    · obtain ⟨m, rfl, -⟩ | ⟨-, ⟨-, rfl⟩ | rfl | hd | (rfl | rfl) | ⟨e, -, rfl⟩⟩ := runFunctor_inv hrun
      · cases hq (.sendInLoop m) (by simp [queue, hf])
      · exact shutdownInLoop_silent { c with functors := some fs }
      · unfold startReadInLoop
        split_ifs
        · exact ⟨rfl, id⟩
        · exact ⟨rfl, id⟩
      · exact connectDestroyed_silent (c := { c with functors := some fs }) hd
      · exact ⟨rfl, id⟩
      · exact ⟨rfl, fun hc => by cases hc⟩
      · exact ⟨rfl, id⟩
    · exact ⟨rfl, id⟩
  | destroy => exact connectDestroyed_silent h

theorem step_unshared (hv : c.outputBuffer.Valid) (hq : c.Unshared) {s : Step} (hs : s.isCall = false)
    (h : c.step s = .ok c') : c'.Unshared := by
  have hbinds (f : Functor) (hf : Binds f) : f.isRaw = false := hf.1
  cases s with
  | call onLoop call => cases hs
  | event revents =>
    cases h
    exact hq.subset fun f hf => hf
  | task r w =>
    obtain ⟨t, ts, -, hrun⟩ | ⟨-, rfl⟩ := task_inv h
    · exact Unshared.queues (c := { c with tasks := ts }) hq hbinds (runTask_queues hv hrun)
    · exact hq
  | delayedClose =>
    cases h
    exact Unshared.queues (c := { c with delayedCloses := c.delayedCloses - 1 }) hq hbinds (forceClose_queues _)
  | removeConnection =>
    cases h
    intro f hf
    rcases List.mem_append.mp hf with hf | hf
    · exact hq f (List.mem_append_left _ hf)
    · rcases List.mem_append.mp hf with hf | hf
      · exact hq f (List.mem_append_right _ hf)
      · cases List.mem_singleton.mp hf
        rfl
  | doPendingFunctors =>
    cases h
    exact hq.subset fun f hf => by simp_all [queue]
  | functor w =>
    obtain ⟨f, fs, hf, hrun⟩ | ⟨-, rfl⟩ := functor_inv h
    · have hrest : Unshared { c with functors := some fs } := hq.subset fun g hg => by simp_all [queue]
      exact hrest.queues hbinds (runFunctor_queues hv hrun)
    · exact hq.subset fun f hf => by simp_all [queue]
  | destroy => exact hq.queues hbinds (connectDestroyed_queues h)

/-- `conn->send(msg)` on the loop thread: the message goes to `sendInLoop` up to its first NUL. -/
theorem send_string_hands (hv : c.outputBuffer.Valid) {msg : List UInt8} (hlen : msg.length < 2 ^ 31) {w : WriteResult}
    (h : c.call true (.send (.string msg) w) = .ok c') :
    (c.state ≠ .kConnected ∧ c' = c) ∨
      (c.state = .kConnected ∧ ∃ fate, c'.handed = c.handed ++ [(cString msg, fate)]) := by
  by_cases hs : c.state = .kConnected
  · simp only [call, send, sendPiece, sendPieceInLoop, if_pos hs, if_true] at h
    obtain ⟨message, hm, hc⟩ := sendInLoop_inv (c := { c with sent := c.sent ++ [(Message.string msg).bytes] }) hv h
    cases (ofString_bytes hlen).symm.trans hm
    right
    rcases hc with ⟨-, rfl⟩ | ⟨-, -, rfl⟩ | ⟨-, -, n, b, ch, extra, -, rfl⟩
    · exact ⟨hs, .refused, rfl⟩
    · exact ⟨hs, .dropped, rfl⟩
    · exact ⟨hs, .kept, rfl⟩
  · have hsend : c.send true (.string msg) w = .ok c' := h
    obtain ⟨-, rfl⟩ | ⟨hc, -⟩ := send_inv hsend
    · exact Or.inl ⟨hs, rfl⟩
    · exact absurd hc hs

end TcpConnection

namespace SocketPair

/-- A step of one end is a step of its connection, with the records. -/
theorem step_conn_inv [Build] {p p' : SocketPair} {side : Side} {s : TcpConnection.Step}
    (h : p.step (.conn side s) = .ok p') : ∃ e, (p side).step s = .ok e ∧ p' = Function.update p side e := by
  obtain ⟨e, he, hp⟩ := bind_eq_ok.mp h
  exact ⟨e, he, (Except.ok.inj hp).symm⟩

end SocketPair

namespace EchoServer

open TcpConnection

/-- The string that `onMessage` has, or will take, fits into an `int`, and otherwise the input buffer is empty. -/
def Handling (input : List UInt8) : OnMessage → Prop
  | .idle => input = []
  | .entered => input.length < 2 ^ 31
  | .received msg => input = [] ∧ msg.length < 2 ^ 31

/-- The messages handed to `sendInLoop` are the strings taken from the buffer, each up to its first NUL. While the
connection is up none is left out. -/
def Answered (e : Endpoint) (pending : List UInt8) : Prop :=
  ∃ chunks : List (List UInt8), e.conn.messages = chunks.map cString ∧ chunks.flatten <+: e.consumed ∧
    (e.conn.state = .kConnected → e.consumed = chunks.flatten ++ pending)

structure Serves (server : Endpoint) (m : OnMessage) : Prop where
  unshared : server.conn.Unshared
  handling : Handling server.conn.inputBuffer.readable m
  answered : Answered server m.pending

structure Echoing (e : EchoServer) : Prop where
  linked : e.pair.Linked
  serves : Serves e.server e.onMessage

theorem Echoing.of {pair : SocketPair} {server : Endpoint} {m : OnMessage} (hl : pair.Linked)
    (hserver : pair .right = server) (h : Serves server m) : Echoing ⟨pair, m⟩ := by
  subst hserver
  exact ⟨hl, h⟩

section Runs

variable [Build] {e e' : EchoServer} {server' : Endpoint}

/-- A step of the server's own loop. -/
theorem loop_step (h : e.Echoing) {s : TcpConnection.Step} (hidle : e.onMessage = .idle) (hs : s.isCall = false)
    (hlen : s.readLength ≤ 0x7ffff000) (hstep : e.server.step s = .ok server') :
    Serves server' (if e.server.conn.arrived s ≠ [] then .entered else .idle) := by
  have hsound := h.linked.sound .right
  obtain ⟨c, hc, he⟩ := bind_eq_ok.mp hstep
  cases he
  have hv := hsound.half.valid
  obtain ⟨-, hpass⟩ := step_passes hv hsound.valid hc
  have hretrieved : e.server.conn.retrieved s = [] := by
    cases s with
    | call onLoop call => cases hs
    | _ => rfl
  have hempty : e.server.conn.inputBuffer.readable = [] := by
    have hh := h.serves.handling
    rwa [hidle] at hh
  have hinput : c.inputBuffer.readable = e.server.conn.arrived s := by
    rw [show (e.pair .right).conn = e.server.conn from rfl, hretrieved, hempty] at hpass
    exact hpass.symm
  obtain ⟨hhanded, hstate⟩ := step_silent hv h.serves.unshared hs hc
  refine ⟨step_unshared hv h.serves.unshared hs hc, ?_, ?_⟩
  · dsimp only
    rw [hinput]
    split_ifs with harrived
    · have hle : (e.server.conn.arrived s).length ≤ s.readLength := by
        cases s with
        | task r w =>
          simp only [arrived]
          split_ifs
          · exact List.length_take_le' _ _
          · exact Nat.zero_le _
        | _ => exact Nat.zero_le _
      exact (hle.trans hlen).trans_lt (by decide)
    · exact not_not.mp harrived
  · obtain ⟨chunks, hchunks, hpre, hall⟩ := h.serves.answered
    rw [hidle] at hall
    have hpending : (if e.server.conn.arrived s ≠ [] then OnMessage.entered else .idle).pending = [] := by
      split_ifs <;> rfl
    rw [hpending]
    refine ⟨chunks, ?_, ?_, fun hup => ?_⟩
    · rw [messages, hhanded]
      exact hchunks
    · rw [hretrieved, List.append_nil]
      exact hpre
    · rw [hretrieved, List.append_nil]
      exact hall (hstate hup)

/-- A call of `onMessage`. -/
theorem onMessage_step (h : e.Echoing) {w : WriteResult} {call : Call} (hcall : e.nextCall w = some call)
    (hstep : e.server.step (.call true call) = .ok server') :
    Serves server' e.afterCall := by
  have hsound := h.linked.sound .right
  obtain ⟨c, hc, he⟩ := bind_eq_ok.mp hstep
  cases he
  have hv := hsound.half.valid
  obtain ⟨-, hpass⟩ := step_passes hv hsound.valid hc
  have hqueues := h.serves.unshared.queues (fun f hf => hf.2 rfl) (call_queues hv hc)
  obtain ⟨chunks, hchunks, hpre, hall⟩ := h.serves.answered
  have hh := h.serves.handling
  rw [show (e.pair .right).conn = e.server.conn from rfl] at hpass
  unfold nextCall at hcall
  cases hm : e.onMessage with
  | idle => simp [hm] at hcall
  | entered =>
    rw [hm] at hcall hh hall
    cases hcall
    have hlength : e.server.conn.inputBuffer.readableBytes = e.server.conn.inputBuffer.readable.length :=
      hsound.valid.readableBytes_length
    have htaken : e.server.conn.retrieved (.call true (.retrieveInput e.server.conn.inputBuffer.readableBytes)) =
        e.server.conn.inputBuffer.readable := by
      simp [retrieved, hlength]
    rw [htaken] at hpass ⊢
    have hrest : c.inputBuffer.readable = [] := by simpa [arrived] using hpass
    obtain ⟨b, -, hb⟩ := bind_eq_ok.mp hc
    cases hb
    simp only [afterCall, hm]
    refine ⟨hqueues, ⟨hrest, hh⟩, chunks, hchunks, hpre.trans (List.prefix_append _ _), fun hup => ?_⟩
    have hbefore := hall hup
    rw [OnMessage.pending, List.append_nil] at hbefore
    exact congrArg (· ++ e.server.conn.inputBuffer.readable) hbefore
  | received msg =>
    rw [hm] at hcall hh hall
    cases hcall
    obtain ⟨hempty, hlen⟩ := hh
    have hrest : c.inputBuffer.readable = [] := by simpa [retrieved, arrived, hempty] using hpass.symm
    have hconsumed : e.server.consumed ++ e.server.conn.retrieved (.call true (.send (.string msg) w)) =
        e.server.consumed := List.append_nil _
    simp only [afterCall, hm]
    refine ⟨hqueues, hrest, ?_⟩
    rw [Answered, hconsumed]
    obtain ⟨hdown, rfl⟩ | ⟨hup, fate, hhanded⟩ := send_string_hands hv hlen hc
    · exact ⟨chunks, hchunks, hpre, fun hup => absurd hup hdown⟩
    · have hsame : e.server.consumed = (chunks ++ [msg]).flatten := by
        rw [hall hup, List.flatten_append, List.flatten_singleton]
        rfl
      have hmessages : (e.pair .right).conn.messages = chunks.map cString := hchunks
      refine ⟨chunks ++ [msg], ?_, hsame ▸ List.prefix_refl _, fun _ => ?_⟩
      · rw [messages, hhanded, List.map_append, ← messages, hmessages, List.map_append]
        rfl
      · rw [hsame, OnMessage.pending, List.append_nil]

theorem step_echoing (h : e.Echoing) {i : Step} (he : e.Enabled i) (hs : e.step i = .ok e') : e'.Echoing := by
  cases i with
  | pair s =>
    obtain ⟨p, hp, he'⟩ := bind_eq_ok.mp hs
    cases he'
    cases s with
    | conn side s =>
      obtain ⟨end', hend, rfl⟩ := SocketPair.step_conn_inv hp
      cases side with
      | left =>
        have hpair : e.pair.Enabled (.conn .left s) := he
        have hlinked := SocketPair.step_linked h.linked hpair hp
        exact .of hlinked (Function.update_of_ne (by decide) ..) h.serves
      | right =>
        obtain ⟨hidle, hcall, hlen, hpair⟩ := he
        have hlinked := SocketPair.step_linked h.linked hpair hp
        have hserves := loop_step h hidle hcall hlen hend
        have hwhere : (if e.calls (.conn .right s) = true then OnMessage.entered else e.onMessage) =
            if e.server.conn.arrived s ≠ [] then .entered else .idle := by
          simp [calls, hidle]
        rw [hwhere]
        exact .of hlinked (Function.update_self ..) hserves
    | close side =>
      obtain ⟨end', hend, hp'⟩ := bind_eq_ok.mp hp
      cases hp'
      cases assert_bind_ok hend
      cases side with
      | left =>
        have hpair : e.pair.Enabled (.close .left) := he
        have hlinked := SocketPair.step_linked h.linked hpair hp
        exact .of hlinked (Function.update_of_ne (by decide) ..) h.serves
      | right =>
        have hlinked := SocketPair.step_linked h.linked he.2 hp
        exact .of hlinked (Function.update_self ..) { h.serves with }
  | onMessage w =>
    simp only [step] at hs
    cases hcall : e.nextCall w with
    | none =>
      rw [hcall] at hs
      cases hs
      exact h
    | some call =>
      rw [hcall] at hs
      obtain ⟨p, hp, he'⟩ := bind_eq_ok.mp hs
      cases he'
      have hlinked := SocketPair.step_linked h.linked (he.2 call hcall) hp
      obtain ⟨end', hend, rfl⟩ := SocketPair.step_conn_inv hp
      exact .of hlinked (Function.update_self ..) (onMessage_step h hcall hend)

section Established

variable {fd : Side → ℤ} {writeComplete highWater : Side → Bool} {highWaterMark : Side → ℕ} {c₀ : Side → TcpConnection}
  (h₀ : ∀ side, (create (fd side) (writeComplete side) (highWater side) (highWaterMark side) >>= connectEstablished) =
    .ok (c₀ side))
include h₀

theorem established_echoing : Echoing { pair := .established c₀ } := by
  have hc : c₀ .right = TcpConnection.established (fd .right) (writeComplete .right) (highWater .right)
      (highWaterMark .right) :=
    Except.ok.inj ((h₀ .right).symm.trans (create_connectEstablished _ _ _ _))
  refine .of (SocketPair.established_linked h₀) rfl ⟨?_, ?_, [], ?_, List.nil_prefix, fun _ => rfl⟩
  · simp [SocketPair.established, hc, TcpConnection.established, Unshared, queue]
  · simp [SocketPair.established, hc, TcpConnection.established, Handling]
  · simp [SocketPair.established, hc, TcpConnection.established, messages]

/-- The server hands back what it has taken from the client, each string up to its first NUL. As long as no write
to the client was refused, a client that sends no NUL hears its own bytes, in order; and while the connection is up,
all of them are with the client or on the way round. -/
theorem echoes {steps : List Step} (h : Path step Enabled { pair := .established c₀ } steps e) :
    (∃ chunks : List (List UInt8), e.server.conn.messages = chunks.map cString ∧
        chunks.flatten <+: e.server.consumed ∧
        (e.server.conn.state = .kConnected → e.server.consumed = chunks.flatten ++ e.onMessage.pending)) ∧
      ((∀ m ∈ e.server.conn.handed, m.2 = .kept) → 0 ∉ e.client.conn.kept.flatten →
        e.client.received <+: e.client.conn.kept.flatten ∧
        (e.server.conn.state = .kConnected →
          e.client.consumed ++ e.client.conn.inputBuffer.readable ++ e.client.inFlight e.server ++
              e.server.conn.outputBuffer.readable ++ e.onMessage.pending ++ e.server.conn.inputBuffer.readable ++
              e.server.inFlight e.client ++ e.client.conn.outputBuffer.readable =
            e.client.conn.kept.flatten)) := by
  have hecho : e.Echoing := h.invariant (established_echoing h₀) fun _ _ _ hu he hs => step_echoing hu he hs
  obtain ⟨chunks, hchunks, hpre, hall⟩ := hecho.serves.answered
  refine ⟨⟨chunks, hchunks, hpre, hall⟩, fun hkept hnul => ?_⟩
  have hup : e.server.consumed ++ e.server.conn.inputBuffer.readable ++ e.server.inFlight e.client ++
      e.client.conn.outputBuffer.readable = e.client.conn.kept.flatten := hecho.linked.accounted .right
  have hdown : e.client.consumed ++ e.client.conn.inputBuffer.readable ++ e.client.inFlight e.server ++
      e.server.conn.outputBuffer.readable = e.server.conn.kept.flatten := hecho.linked.accounted .left
  have htaken : e.server.consumed <+: e.client.conn.kept.flatten := by
    rw [← hup, List.append_assoc, List.append_assoc]
    exact List.prefix_append _ _
  have hwhole : chunks.map cString = chunks := by
    have hself : ∀ chunk ∈ chunks, cString chunk = chunk := fun chunk hin =>
      (cString_eq_self_iff chunk).mpr fun hz => hnul (htaken.subset (hpre.subset (List.mem_flatten.mpr ⟨chunk, hin, hz⟩)))
    exact (List.map_congr_left hself).trans (List.map_id' chunks)
  have hback : e.server.conn.kept.flatten = chunks.flatten := by
    rw [kept, List.filter_eq_self.mpr (by simpa using hkept), ← messages, hchunks, hwhole]
  refine ⟨?_, fun hstate => ?_⟩
  · have hreceived : e.client.received <+: chunks.flatten := by
      have hhas : e.client.received = e.client.consumed ++ e.client.conn.inputBuffer.readable :=
        (hecho.linked.sound .left).received
      rw [← hback, ← hdown, hhas, List.append_assoc _ _ e.server.conn.outputBuffer.readable]
      exact List.prefix_append _ _
    exact hreceived.trans (hpre.trans htaken)
  · rw [hdown, hback, ← hall hstate, hup]

end Established

end Runs

-- the answer is written in two pieces, and two bytes are still on their way to the server
theorem echoes_in_pieces :
    letI := Build.debug
    let c₀ := TcpConnection.established 7 false false 67108864
    let steps : List Step := [.pair (.conn .left (.call true (.send (.memory [1, 2, 3] 3) (.wrote 3)))),
      .pair (.conn .right (.event POLLIN)), .pair (.conn .right (.task (.read [1, 2, 3]) (.wrote 0))),
      .pair (.conn .left (.call true (.send (.memory [4, 5] 2) (.wrote 2)))), .onMessage (.wrote 0),
      .onMessage (.wrote 2), .pair (.conn .left (.event POLLIN)), .pair (.conn .left (.task (.read [1, 2]) (.wrote 0))),
      .pair (.conn .right (.event POLLOUT)), .pair (.conn .right (.task (.failed 0) (.wrote 9)))]
    ∃ e, Path step Enabled { pair := .established fun _ => c₀ } steps e ∧ e.client.received = [1, 2] ∧
      e.client.received <+: e.client.conn.kept.flatten ∧
      e.client.consumed ++ e.client.conn.inputBuffer.readable ++ e.client.inFlight e.server ++
          e.server.conn.outputBuffer.readable ++ e.onMessage.pending ++ e.server.conn.inputBuffer.readable ++
          e.server.inFlight e.client ++ e.client.conn.outputBuffer.readable =
        e.client.conn.kept.flatten := by
  intro c₀ steps
  let _ := Build.debug
  obtain ⟨e, he, hd⟩ := Path.exists_of_any step Enabled { pair := .established fun _ => c₀ } steps
    (fun e => decide (e.client.received = [1, 2] ∧ e.server.conn.state = .kConnected ∧
      (∀ m ∈ e.server.conn.handed, m.2 = .kept) ∧ 0 ∉ e.client.conn.kept.flatten)) (by decide +kernel)
  obtain ⟨hreceived, hup, hkept, hnul⟩ := of_decide_eq_true hd
  have hall := (echoes (fun _ => create_connectEstablished 7 false false 67108864) he).2 hkept hnul
  exact ⟨e, he, hreceived, hall.1, hall.2 hup⟩

end EchoServer

end Networker
