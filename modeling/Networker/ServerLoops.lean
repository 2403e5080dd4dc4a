import Networker.RoundRobin
import Networker.ServerTable

/-!
On which loop a connection lives: the loops of the pool take the connections in turn,
and no step moves a connection to another loop.
-/

namespace Networker

open CheckedRuns VectorSearch RoundRobin

namespace EventLoopThreadPool

variable [Build]

def getLoopForHash (p : EventLoopThreadPool) (hashCode : ℕ) : Exec ℕ :=
  if p.loops = [] then return 0 else element p.loops (hashCode % p.loops.length)

def getAllLoops (p : EventLoopThreadPool) : Exec (List ℕ) := do
  assert (p.started = true)
  return if p.loops = [] then [0] else p.loops

end EventLoopThreadPool

namespace TcpServer

/-- A connection stays on its loop, and never waits for `connectEstablished` again. -/
def Keeps (c d : ServerConnection) : Prop := d.loop = c.loop ∧ (c.state ≠ .kConnecting → d.state ≠ .kConnecting)

/-- No connection is accepted, and none leaves its loop. -/
structure Advances (s t : TcpServer) : Prop where
  threadPool : t.threadPool = s.threadPool
  length : t.conns.length = s.conns.length
  conns : ∀ (id : ℕ) (d : ServerConnection), t.conns[id]? = some d → ∃ c, s.conns[id]? = some c ∧ Keeps c d

section Steps

variable {s t u : TcpServer}

theorem Keeps.refl (c : ServerConnection) : Keeps c c := ⟨rfl, id⟩

theorem Advances.of_eq (hpool : t.threadPool = s.threadPool) (hconns : t.conns = s.conns) : Advances s t := by
  refine ⟨hpool, by rw [hconns], fun id d hd => ?_⟩
  rw [hconns] at hd
  exact ⟨d, hd, .refl d⟩

theorem Advances.trans (h : Advances s t) (h' : Advances t u) : Advances s u := by
  refine ⟨h'.threadPool.trans h.threadPool, h'.length.trans h.length, fun id e he => ?_⟩
  obtain ⟨d, hd, hde⟩ := h'.conns id e he
  obtain ⟨c, hc, hcd⟩ := h.conns id d hd
  exact ⟨c, hc, hde.1.trans hcd.1, fun hne => hde.2 (hcd.2 hne)⟩

theorem Advances.setConn {id : ℕ} {c d : ServerConnection} (hc : s.conns[id]? = some c) (hd : Keeps c d) :
    Advances s (s.setConn id d) := by
  refine ⟨rfl, List.length_set, fun j e he => ?_⟩
  obtain ⟨rfl, rfl⟩ | ⟨-, he⟩ := (getElem?_set_iff (List.getElem?_eq_some_iff.mp hc).1).mp he
  · exact ⟨c, hc, hd⟩
  · exact ⟨e, he, .refl e⟩

theorem Advances.loops (h : Advances s t) : t.conns.map ServerConnection.loop = s.conns.map ServerConnection.loop := by
  refine List.ext_getElem (by simp [h.length]) fun i hi _ => ?_
  obtain ⟨c, hc, hk⟩ := h.conns i _ (List.getElem?_eq_getElem (by simpa using hi))
  obtain ⟨hlt, rfl⟩ := List.getElem?_eq_some_iff.mp hc
  rw [List.getElem_map, List.getElem_map]
  exact hk.1

variable [Build]

theorem connectEstablished_advances {thread id : ℕ} (h : s.connectEstablished thread id = .ok t) :
    Advances s t ∧ ∃ d, t.conns[id]? = some d ∧ d.state = .kConnected := by
  obtain ⟨c, hc, h⟩ := bind_eq_ok.mp h
  obtain ⟨-, -, h⟩ := bind_eq_ok.mp h
  obtain ⟨-, -, h⟩ := bind_eq_ok.mp h
  obtain rfl := Except.ok.inj h
  have hget := element_ok hc
  refine ⟨.setConn hget ⟨rfl, by simp⟩, _, List.getElem?_set_self ?_, rfl⟩
  exact (List.getElem?_eq_some_iff.mp hget).1

theorem callFunctor_advances {thread : ℕ} {f : ServerFunctor} (h : s.callFunctor thread f = .ok t) : Advances s t := by
  cases f with
  | connectEstablished id => exact (connectEstablished_advances h).1
  | removeConnectionInLoop id =>
    obtain ⟨-, -, h⟩ := bind_eq_ok.mp h
    obtain ⟨c, hc, h⟩ := bind_eq_ok.mp h
    obtain ⟨-, -, h⟩ := bind_eq_ok.mp h
    obtain rfl := Except.ok.inj h
    exact .of_eq rfl rfl
  | connectDestroyed id =>
    obtain ⟨c, hc, h⟩ := bind_eq_ok.mp h
    obtain ⟨-, -, h⟩ := bind_eq_ok.mp h
    obtain ⟨-, -, h⟩ := bind_eq_ok.mp h
    obtain rfl := Except.ok.inj h
    exact .setConn (element_ok hc) ⟨c.disconnect_loop, c.disconnect_state⟩

theorem runInLoop_advances {thread l : ℕ} {f : ServerFunctor} (h : s.runInLoop thread l f = .ok t) : Advances s t := by
  unfold TcpServer.runInLoop at h
  split at h
  · exact callFunctor_advances h
  · obtain rfl := Except.ok.inj h
    exact .of_eq rfl rfl

theorem proceed_advances {l : ℕ} {active : List ActiveChannel} (h : s.proceed l active = .ok t) : Advances s t := by
  obtain ⟨u, -, h⟩ := bind_eq_ok.mp h
  dsimp only at h
  split at h
  · obtain ⟨hpool, hlength, hconns⟩ := callFunctor_advances h
    exact ⟨hpool, hlength, hconns⟩
  · obtain rfl := Except.ok.inj h
    exact .of_eq rfl rfl

/-- A connection that is accepted goes to the next loop, and is established at once if that is the base loop. -/
theorem newConnection_inv (h : s.newConnection = .ok t) :
    ∃ l threadPool c, s.threadPool.getNextLoop = .ok (l, threadPool) ∧ c.loop = l ∧
      Advances { s with threadPool, conns := s.conns ++ [c] } t ∧
      (l = 0 → ∀ d, t.conns[s.conns.length]? = some d → d.state ≠ .kConnecting) := by
  obtain ⟨⟨l, threadPool⟩, hnext, h⟩ := bind_eq_ok.mp h
  obtain ⟨-, -, h⟩ := bind_eq_ok.mp h
  obtain ⟨hpool, hlength, hconns⟩ := runInLoop_advances h
  refine ⟨l, threadPool, _, hnext, rfl, ⟨hpool, hlength, hconns⟩, fun hl d hd => ?_⟩
  rw [TcpServer.runInLoop, if_pos hl.symm] at h
  obtain ⟨-, d', hd', hstate⟩ := connectEstablished_advances h
  rw [hd'] at hd
  rw [← Option.some.inj hd, hstate]
  simp

theorem step_advances {i : Step} (hi : i ≠ .newConnection) (h : s.step i = .ok t) : Advances s t := by
  cases i with
  | newConnection => exact absurd rfl hi
  | disconnecting id =>
    obtain ⟨c, hc, h⟩ := bind_eq_ok.mp h
    obtain rfl := Except.ok.inj h
    split
    · exact .setConn (element_ok hc) ⟨rfl, by simp⟩
    · exact .of_eq rfl rfl
  | update id noneEvent =>
    obtain ⟨c, hc, h⟩ := bind_eq_ok.mp h
    obtain rfl := Except.ok.inj h
    exact .setConn (element_ok hc) ⟨rfl, fun hne => hne⟩
  | handleClose id =>
    obtain ⟨c, hc, h⟩ := bind_eq_ok.mp h
    obtain ⟨-, -, h⟩ := bind_eq_ok.mp h
    obtain rfl := Except.ok.inj h
    exact .setConn (element_ok hc) ⟨rfl, by simp⟩
  | closeCallback id =>
    obtain ⟨c, hc, h⟩ := bind_eq_ok.mp h
    have hset : Advances s (s.setConn id { c with closed := true }) := .setConn (element_ok hc) ⟨rfl, fun h => h⟩
    exact hset.trans (runInLoop_advances h)
  | loop l i =>
    cases i with
    | proceed active => exact proceed_advances h
    | queueInLoop isInLoopThread f =>
      obtain ⟨u, -, h⟩ := bind_eq_ok.mp h
      obtain rfl := Except.ok.inj h
      exact .of_eq rfl rfl
    | wakeup isInLoopThread =>
      obtain ⟨u, -, h⟩ := bind_eq_ok.mp h
      obtain rfl := Except.ok.inj h
      exact .of_eq rfl rfl
    | quit isInLoopThread =>
      obtain ⟨u, -, h⟩ := bind_eq_ok.mp h
      obtain rfl := Except.ok.inj h
      exact .of_eq rfl rfl
    | quitWakeup =>
      obtain ⟨u, -, h⟩ := bind_eq_ok.mp h
      obtain rfl := Except.ok.inj h
      exact .of_eq rfl rfl

end Steps

/-- How many connections a loop was given. -/
def assigned (s : TcpServer) (l : ℕ) : ℕ := s.conns.countP fun c => c.loop = l

/-- The invariant of the pool and the connections, when `all` are the loops that take connections. -/
structure Rotates (s : TcpServer) (all : List ℕ) : Prop where
  started : s.threadPool.started = true
  members : all = if s.threadPool.loops = [] then [0] else s.threadPool.loops
  nodup : s.threadPool.loops.Nodup
  next : s.threadPool.loops ≠ [] → s.threadPool.next = s.conns.length % s.threadPool.loops.length
  turns : InTurn all (s.conns.map ServerConnection.loop)
  /-- a connection of the base loop is established where it is accepted -/
  base : ∀ c ∈ s.conns, c.loop = 0 → c.state ≠ .kConnecting

section Runs

variable {s t : TcpServer} {all : List ℕ}

theorem Rotates.advances (h : Rotates s all) (ha : Advances s t) : Rotates t all := by
  constructor
  case started => rw [ha.threadPool]; exact h.started
  case members => rw [ha.threadPool]; exact h.members
  case nodup => rw [ha.threadPool]; exact h.nodup
  case next => rw [ha.threadPool, ha.length]; exact h.next
  case turns => rw [ha.loops]; exact h.turns
  case base =>
    intro d hd hbase
    obtain ⟨id, hid⟩ := List.mem_iff_getElem?.mp hd
    obtain ⟨c, hc, hloop, hstate⟩ := ha.conns id d hid
    exact hstate (h.base c (List.mem_of_getElem? hc) (hloop ▸ hbase))

variable [Build]

theorem getNextLoop_inv {p q : EventLoopThreadPool} {l : ℕ} (h : p.getNextLoop = .ok (l, q)) :
    (p.loops = [] ∧ l = 0 ∧ q = p) ∨
      (p.loops ≠ [] ∧ p.loops[p.next]? = some l ∧ q = { p with next := advance p.loops.length p.next }) := by
  obtain ⟨-, -, h⟩ := bind_eq_ok.mp h
  split at h
  · next hempty =>
    obtain ⟨rfl, rfl⟩ := Prod.mk.inj (Except.ok.inj h)
    exact Or.inl ⟨hempty, rfl, rfl⟩
  · next hne =>
    obtain ⟨loop, hloop, h⟩ := bind_eq_ok.mp h
    obtain ⟨rfl, rfl⟩ := Prod.mk.inj (Except.ok.inj h)
    exact Or.inr ⟨hne, element_ok hloop, rfl⟩

theorem Rotates.newConnection (h : Rotates s all) (hs : s.newConnection = .ok t) : Rotates t all := by
  obtain ⟨l, threadPool, c, hnext, hcl, ha, hbase⟩ := newConnection_inv hs
  have hlen : (s.conns.map ServerConnection.loop).length = s.conns.length := List.length_map _
  have hturn : all[s.conns.length % all.length]? = some l ∧ threadPool.loops = s.threadPool.loops ∧
      threadPool.started = s.threadPool.started ∧
      (s.threadPool.loops ≠ [] → threadPool.next = (s.conns.length + 1) % s.threadPool.loops.length) := by
    obtain ⟨hempty, rfl, rfl⟩ | ⟨hne, hl, rfl⟩ := getNextLoop_inv hnext
    · rw [h.members, if_pos hempty, List.length_singleton, Nat.mod_one]
      exact ⟨rfl, rfl, rfl, fun hne => absurd hempty hne⟩
    · rw [h.members, if_neg hne, ← h.next hne]
      refine ⟨hl, rfl, rfl, fun _ => ?_⟩
      dsimp only
      rw [h.next hne, advance_mod (List.length_pos_iff.mpr hne)]
  obtain ⟨hat, hloops, hstarted, hpnext⟩ := hturn
  constructor
  case started => rw [ha.threadPool]; exact hstarted.trans h.started
  case members => rw [ha.threadPool]; dsimp only; rw [hloops]; exact h.members
  case nodup => rw [ha.threadPool]; dsimp only; rw [hloops]; exact h.nodup
  case next =>
    rw [ha.threadPool, ha.length]
    dsimp only
    rw [hloops, List.length_append, List.length_singleton]
    exact hpnext
  case turns =>
    rw [ha.loops]
    dsimp only
    rw [List.map_append, List.map_singleton, hcl]
    exact h.turns.snoc (by rwa [hlen])
  case base =>
    intro d hd hd0
    obtain ⟨id, hid⟩ := List.mem_iff_getElem?.mp hd
    obtain ⟨e, he, hloop, hstate⟩ := ha.conns id d hid
    obtain ⟨rfl, rfl⟩ | he := getElem?_concat_iff.mp he
    · exact hbase (hcl.symm.trans (hloop.symm.trans hd0)) d hid
    · exact hstate (h.base e (List.mem_of_getElem? he) (hloop ▸ hd0))

theorem Rotates.step (h : Rotates s all) {i : Step} (hs : s.step i = .ok t) : Rotates t all := by
  by_cases hi : i = .newConnection
  · subst hi
    exact h.newConnection hs
  · exact h.advances (step_advances hi hs)

theorem started_rotates {name ipPort : List Char} {n : ℕ} (h : started name ipPort n = .ok s) :
    Rotates s (if n = 0 then [0] else (List.range n).map (· + 1)) := by
  unfold TcpServer.started EventLoopThreadPool.start at h
  rw [assert_pos rfl] at h
  obtain rfl := Except.ok.inj h
  constructor
  case started => rfl
  case members =>
    cases n with
    | zero => rfl
    | succ n => simp
  case nodup => exact (List.nodup_range).map fun _ _ h => Nat.succ.inj h
  case next =>
    intro _
    exact (Nat.zero_mod _).symm
  case turns => exact .nil _
  case base =>
    intro c hc
    cases hc

/-- Connections are handed out in turn. Every loop of the pool, or the base loop of a pool without threads, has its
share of them to within one, and a hash picks one of the same loops. -/
theorem round_robin {name ipPort : List Char} {n : ℕ} {s₀ s : TcpServer} {steps : List Step}
    (h₀ : started name ipPort n = .ok s₀) (h : Path step Enabled s₀ steps s) :
    ∃ all, s.threadPool.getAllLoops = .ok all ∧ all.length = max n 1 ∧ all.Nodup ∧
      (∀ (id : ℕ) (c : ServerConnection), s.conns[id]? = some c → all[id % all.length]? = some c.loop) ∧
      (∀ k ∈ all, ∀ l ∈ all, s.assigned k ≤ s.assigned l + 1) ∧
      ∀ hashCode, ∃ l ∈ all, s.threadPool.getLoopForHash hashCode = .ok l := by
  obtain ⟨all, hall⟩ : ∃ all, all = if n = 0 then [0] else (List.range n).map (· + 1) := ⟨_, rfl⟩
  have hr : Rotates s all :=
    h.invariant (P := fun t => Rotates t all) (hall ▸ started_rotates h₀) fun _ _ _ ht _ hs => ht.step hs
  have hnodup : all.Nodup := by
    rw [hr.members]
    split
    · exact List.nodup_singleton 0
    · exact hr.nodup
  have hassigned : ∀ l, s.assigned l = (s.conns.map ServerConnection.loop).count l := by
    intro l
    rw [assigned, List.count, List.countP_map]
    congr 1
  refine ⟨all, ?_, ?_, hnodup, ?_, ?_, ?_⟩
  · unfold EventLoopThreadPool.getAllLoops
    rw [assert_pos hr.started, hr.members]
    rfl
  · rw [hall]
    split
    · next hn => simp [hn]
    · simp
      omega
  · intro id c hc
    apply hr.turns
    rw [List.getElem?_map, hc]
    rfl
  · intro k hk l hl
    rw [hassigned, hassigned]
    exact hr.turns.balanced hnodup hk hl
  · intro hashCode
    unfold EventLoopThreadPool.getLoopForHash
    rw [hr.members]
    by_cases hempty : s.threadPool.loops = []
    · rw [if_pos hempty, if_pos hempty]
      exact ⟨0, List.mem_singleton_self 0, rfl⟩
    · rw [if_neg hempty, if_neg hempty]
      obtain ⟨l, hl⟩ := element_lt (Nat.mod_lt hashCode (List.length_pos_iff.mpr hempty))
      exact ⟨l, List.mem_of_getElem? (element_ok hl), hl⟩

end Runs

/-- Two threads and three connections, of which the first and the last are on one loop. -/
theorem round_robin_two_threads :
    letI := Build.debug
    let steps : List Step := List.replicate 3 (.loop 0 (.proceed [])) ++
      [.loop 0 (.proceed [.other]), .loop 0 (.proceed []), .newConnection, .newConnection, .newConnection]
    ∃ s₀ s, started ['s'] ['h'] 2 = .ok s₀ ∧ Path step Enabled s₀ steps s ∧ s.conns.map (·.loop) = [1, 2, 1] ∧
      ∃ all, s.threadPool.getAllLoops = .ok all ∧ ∀ k ∈ all, ∀ l ∈ all, s.assigned k ≤ s.assigned l + 1 := by
  intro steps
  let _ := Build.debug
  obtain ⟨s₀, h₀⟩ : ∃ s₀, started ['s'] ['h'] 2 = .ok s₀ := ⟨_, rfl⟩
  obtain ⟨s, hs, hp⟩ := Path.exists_of_any step Enabled s₀ steps (fun s => s.conns.map (·.loop) = [1, 2, 1]) (by
    rw [← Except.ok.inj h₀]
    decide +kernel)
  obtain ⟨all, hall, -, -, -, hbalanced, -⟩ := round_robin h₀ hs
  exact ⟨s₀, s, h₀, hs, of_decide_eq_true hp, all, hall, hbalanced⟩

end TcpServer

end Networker
