import Networker.TcpServerModel
import Mathlib.Data.List.ReduceOption

/-!
The connection table of `TcpServer`. What still has to happen to a connection is one functor
that waits on one loop; together with the calls made so far it is the stage of its life.
-/

namespace Networker

open CheckedRuns VectorSearch

namespace ServerConnection

variable (c : ServerConnection)

@[simp] theorem disconnect_loop : c.disconnect.loop = c.loop := by
  unfold disconnect
  split <;> rfl

@[simp] theorem disconnect_calls : c.disconnect.calls = c.calls := by
  unfold disconnect
  split <;> rfl

@[simp] theorem disconnect_closing : c.disconnect.closing = c.closing := by
  unfold disconnect
  split <;> rfl

theorem disconnect_state (h : c.state ≠ .kConnecting) : c.disconnect.state ≠ .kConnecting := by
  unfold disconnect
  split
  · simp
  · exact h

theorem disconnect_disconnected (h : c.state = .kDisconnected) : c.disconnect = c := by
  unfold disconnect
  rw [if_neg (by simp [h])]

end ServerConnection

def ServerFunctor.conn : ServerFunctor → ℕ
  | .connectEstablished id | .removeConnectionInLoop id | .connectDestroyed id => id

namespace TcpServer

section Pending

variable (s : TcpServer)

/-- The functors of the server that a loop has still to call, in order. -/
def waiting (l : ℕ) : List ServerFunctor := ((s.loops l).remaining ++ (s.loops l).pendingFunctors).reduceOption

/-- Those of one connection. -/
def pendingOf (l id : ℕ) : List ServerFunctor := (s.waiting l).filter fun f => f.conn = id

/-- The same with a functor in hand that is called next. -/
def holding (l : ℕ) (f : ServerFunctor) (k id : ℕ) : List ServerFunctor :=
  if k = l ∧ f.conn = id then f :: s.pendingOf k id else s.pendingOf k id

theorem waiting_queueInLoop (thread l : ℕ) (f : ServerFunctor) (k : ℕ) :
    (s.queueInLoop thread l f).waiting k = s.waiting k ++ if k = l then [f] else [] := by
  unfold waiting queueInLoop
  dsimp only
  by_cases hk : k = l
  · subst hk
    rw [Function.update_self, EventLoop.queueInLoop_waiting, List.reduceOption_append, if_pos rfl]
    rfl
  · rw [Function.update_of_ne hk, if_neg hk, List.append_nil]

theorem waiting_update (l : ℕ) (t : EventLoop (Option ServerFunctor)) (k : ℕ) :
    ({ s with loops := Function.update s.loops l t } : TcpServer).waiting k =
      if k = l then (t.remaining ++ t.pendingFunctors).reduceOption else s.waiting k := by
  unfold waiting
  dsimp only
  by_cases hk : k = l
  · rw [if_pos hk, hk, Function.update_self]
  · rw [if_neg hk, Function.update_of_ne hk]

theorem pendingOf_queueInLoop (thread l : ℕ) (f : ServerFunctor) (k id : ℕ) :
    (s.queueInLoop thread l f).pendingOf k id = s.pendingOf k id ++ if k = l ∧ f.conn = id then [f] else [] := by
  unfold pendingOf
  rw [waiting_queueInLoop, List.filter_append]
  congr 1
  by_cases hk : k = l
  · by_cases hf : f.conn = id
    · simp [hk, hf]
    · simp [hk, hf]
  · simp [hk]

/-- A loop that calls a functor takes it into its hand. -/
theorem holding_of_call {l : ℕ} {t : EventLoop (Option ServerFunctor)} {f : ServerFunctor}
    (h : s.waiting l = f :: (t.remaining ++ t.pendingFunctors).reduceOption) (k id : ℕ) :
    ({ s with loops := Function.update s.loops l t } : TcpServer).holding l f k id = s.pendingOf k id := by
  unfold holding pendingOf
  rw [waiting_update]
  by_cases hk : k = l
  · subst hk
    rw [if_pos rfl, h]
    by_cases hf : f.conn = id
    · simp [hf]
    · simp [hf]
  · rw [if_neg hk, if_neg (fun h => hk h.1)]

end Pending

/-- How far a connection has come. -/
inductive Stage
  | connecting
  | established
  | closed
  | removed
  | destroyed

namespace Stage

/-- The functor that takes it further, and the loop that has to call it. -/
def due (id loop : ℕ) : Stage → Option (ℕ × ServerFunctor)
  | .connecting => some (loop, .connectEstablished id)
  | .closed => some (0, .removeConnectionInLoop id)
  | .removed => some (loop, .connectDestroyed id)
  | .established | .destroyed => none

def isRemoved : Stage → Prop
  | .removed | .destroyed => True
  | .connecting | .established | .closed => False

structure Closed (c : ServerConnection) : Prop where
  state : c.state = .kDisconnected
  noneEvent : c.noneEvent = true
  closing : c.closing = true
  closed : c.closed = true

structure Open (c : ServerConnection) : Prop where
  state : c.state ≠ .kConnecting
  live : c.closing = false → c.state = .kConnected ∨ c.state = .kDisconnecting
  down : c.closing = true → c.state = .kDisconnected ∧ c.noneEvent = true
  closed : c.closed = false

def Fits (c : ServerConnection) : Stage → Prop
  | .connecting => c.state = .kConnecting ∧ c.closing = false ∧ c.closed = false ∧ c.calls = []
  | .established => Open c ∧ c.calls = [(.connectEstablished, c.loop)]
  | .closed | .removed => Closed c ∧ c.calls = [(.connectEstablished, c.loop)]
  | .destroyed => Closed c ∧ c.calls = [(.connectEstablished, c.loop), (.connectDestroyed, c.loop)]

end Stage

/-- What waits on a loop when at most one functor waits anywhere. -/
def pendingAt (l : ℕ) : Option (ℕ × ServerFunctor) → List ServerFunctor
  | some (k, f) => if l = k then [f] else []
  | none => []

/-- A functor in hand is the one that was due, and no other waits. -/
theorem due_of_holding {due : Option (ℕ × ServerFunctor)} {l : ℕ} {f : ServerFunctor} {p : ℕ → List ServerFunctor}
    (h : ∀ k, (if k = l then f :: p k else p k) = pendingAt k due) : due = some (l, f) ∧ ∀ k, p k = [] := by
  have hl := h l
  rw [if_pos rfl] at hl
  cases due with
  | none => cases hl
  | some d =>
    obtain ⟨m, g⟩ := d
    dsimp only [pendingAt] at hl
    split at hl
    · rename_i hm
      subst hm
      obtain ⟨rfl, hnil⟩ := List.cons.inj hl
      refine ⟨rfl, fun k => ?_⟩
      by_cases hk : k = l
      · rw [hk, hnil]
      · have hother := h k
        dsimp only [pendingAt] at hother
        rwa [if_neg hk, if_neg hk] at hother
    · cases hl

/-- The table, when `pending` lists what still has to be called for each connection on each loop. -/
structure Table (s : TcpServer) (pending : ℕ → ℕ → List ServerFunctor) : Prop where
  pool : s.threadPool.started = true ∧ (s.threadPool.loops ≠ [] → s.threadPool.next < s.threadPool.loops.length)
  ids : s.nextConnId = s.conns.length + 1
  room : s.conns.length < 2 ^ 31 - 1
  ipPort : s.ipPort.length ≤ 51
  names : ∀ id c, s.conns[id]? = some c → c.name = s.name ++ '-' :: (s.ipPort ++ '#' :: decimal (id + 1))
  holds : ∀ nm id, s.connections.lookup nm = some id ↔ ∃ c, s.conns[id]? = some c ∧ c.name = nm ∧ id ∉ s.removed
  removed : s.removed.Nodup ∧ ∀ id ∈ s.removed, id < s.conns.length
  erased : s.erased = List.replicate s.removed.length 1
  stages : ∀ id c, s.conns[id]? = some c → ∃ st : Stage, st.Fits c ∧ (id ∈ s.removed ↔ st.isRemoved) ∧
    ∀ l, pending l id = pendingAt l (st.due id c.loop)
  absent : ∀ id, s.conns.length ≤ id → ∀ l, pending l id = []
  phased : ∀ l, (s.loops l).Phased

namespace Table

variable {s : TcpServer} {pending pending' : ℕ → ℕ → List ServerFunctor}

/-- Only what waits, and the steps of the loops themselves, may change. -/
theorem congr (h : Table s pending) (hp : ∀ l id, pending' l id = pending l id)
    {loops : ℕ → EventLoop (Option ServerFunctor)} (hph : ∀ l, (loops l).Phased) :
    Table { s with loops } pending' :=
  { h with
    stages := by
      intro id c hc
      obtain ⟨st, hfit, hrem, hpend⟩ := h.stages id c hc
      exact ⟨st, hfit, hrem, fun l => (hp l id).trans (hpend l)⟩
    absent := fun id hid l => (hp l id).trans (h.absent id hid l)
    phased := hph }

theorem holds_set (h : Table s pending) {id : ℕ} {c c' : ServerConnection} (hc : s.conns[id]? = some c)
    (hname : c'.name = c.name) (nm : List Char) (j : ℕ) :
    s.connections.lookup nm = some j ↔ ∃ d, (s.conns.set id c')[j]? = some d ∧ d.name = nm ∧ j ∉ s.removed := by
  rw [h.holds]
  by_cases hj : j = id
  · subst hj
    rw [List.getElem?_set_self (List.getElem?_eq_some_iff.mp hc).1, hc]
    simp only [Option.some.injEq, exists_eq_left', hname]
  · rw [List.getElem?_set_ne (Ne.symm hj)]

theorem setConn (h : Table s pending) {id : ℕ} {c c' : ServerConnection} (hc : s.conns[id]? = some c)
    (hname : c'.name = c.name) (st : Stage) (hfit : st.Fits c') (hrem : id ∈ s.removed ↔ st.isRemoved)
    (hp : ∀ l, pending' l id = pendingAt l (st.due id c'.loop))
    (hother : ∀ j, j ≠ id → ∀ l, pending' l j = pending l j) : Table (s.setConn id c') pending' := by
  have hlt : id < s.conns.length := (List.getElem?_eq_some_iff.mp hc).1
  have hlen : (s.setConn id c').conns.length = s.conns.length := List.length_set
  have hget : ∀ j d, (s.setConn id c').conns[j]? = some d → (j = id ∧ d = c') ∨ (j ≠ id ∧ s.conns[j]? = some d) :=
    fun j d => (getElem?_set_iff hlt).mp
  constructor
  case pool => exact h.pool
  case ids => rw [hlen]; exact h.ids
  case room => rw [hlen]; exact h.room
  case ipPort => exact h.ipPort
  case names =>
    intro j d hd
    obtain ⟨rfl, rfl⟩ | ⟨-, hd⟩ := hget j d hd
    · rw [hname]
      exact h.names _ _ hc
    · exact h.names _ _ hd
  case holds => exact h.holds_set hc hname
  case removed =>
    rw [hlen]
    exact h.removed
  case erased => exact h.erased
  case stages =>
    intro j d hd
    obtain ⟨rfl, rfl⟩ | ⟨hj, hd⟩ := hget j d hd
    · exact ⟨st, hfit, hrem, hp⟩
    · obtain ⟨st', hfit', hrem', hpend⟩ := h.stages j d hd
      exact ⟨st', hfit', hrem', fun l => (hother j hj l).trans (hpend l)⟩
  case absent =>
    intro j hj l
    rw [hlen] at hj
    rw [hother j (by omega) l]
    exact h.absent j hj l
  case phased => exact h.phased

/-- The name that is not cut off is new. -/
theorem connName_eq (h : Table s pending) :
    s.connName = s.name ++ '-' :: (s.ipPort ++ '#' :: decimal (s.conns.length + 1)) := by
  have hroom := h.room
  have hip := h.ipPort
  have hdigits : (decimal (s.conns.length + 1)).length ≤ 10 := decimal_length (by omega)
  unfold connName
  rw [h.ids, snprintf_eq]
  · rfl
  · simp only [List.cons_append, List.length_cons, List.length_append]
    omega

theorem name_injective {name ipPort : List Char} {i j : ℕ}
    (h : name ++ '-' :: (ipPort ++ '#' :: decimal (i + 1)) = name ++ '-' :: (ipPort ++ '#' :: decimal (j + 1))) : i = j := by
  have hsuffix := List.append_cancel_left (List.cons.inj (List.append_cancel_left h)).2
  have hid := decimal_injective (List.cons.inj hsuffix).2
  omega

theorem connName_fresh (h : Table s pending) : s.connections.lookup s.connName = none := by
  cases hlookup : s.connections.lookup s.connName with
  | none => rfl
  | some id =>
    obtain ⟨c, hc, hname, -⟩ := (h.holds _ id).mp hlookup
    have hlt := (List.getElem?_eq_some_iff.mp hc).1
    rw [h.names id c hc, h.connName_eq] at hname
    exact absurd (name_injective hname) (by omega)

theorem holds_insert (h : Table s pending) {c : ServerConnection} (hname : c.name = s.connName) (nm : List Char) (j : ℕ) :
    (s.connections.insert s.connName s.conns.length).lookup nm = some j ↔
      ∃ d, (s.conns ++ [c])[j]? = some d ∧ d.name = nm ∧ j ∉ s.removed := by
  by_cases hnm : nm = s.connName
  · subst hnm
    rw [AList.lookup_insert]
    constructor
    · intro hj
      have hnew : s.conns.length ∉ s.removed := fun hmem => absurd (h.removed.2 _ hmem) (Nat.lt_irrefl _)
      rw [← Option.some.inj hj]
      exact ⟨c, getElem?_concat_iff.mpr (Or.inl ⟨rfl, rfl⟩), hname, hnew⟩
    · rintro ⟨d, hd, hdname, hj⟩
      obtain ⟨rfl, rfl⟩ | hd := getElem?_concat_iff.mp hd
      · rfl
      · -- an older connection of this name would be in the table
        have hin := (h.holds _ j).mpr ⟨d, hd, hdname, hj⟩
        rw [h.connName_fresh] at hin
        cases hin
  · rw [AList.lookup_insert_ne hnm, h.holds]
    constructor
    · rintro ⟨d, hd, hdname, hj⟩
      exact ⟨d, getElem?_concat_iff.mpr (Or.inr hd), hdname, hj⟩
    · rintro ⟨d, hd, hdname, hj⟩
      obtain ⟨rfl, rfl⟩ | hd := getElem?_concat_iff.mp hd
      · exact absurd (hdname.symm.trans hname) hnm
      · exact ⟨d, hd, hdname, hj⟩

theorem accept (h : Table s pending) (pending' : ℕ → ℕ → List ServerFunctor) {c : ServerConnection}
    {threadPool : EventLoopThreadPool} (hroom : s.conns.length + 1 < 2 ^ 31 - 1)
    (hpool : threadPool.started = true ∧ (threadPool.loops ≠ [] → threadPool.next < threadPool.loops.length))
    (hname : c.name = s.connName) (hfit : Stage.connecting.Fits c)
    (hp : ∀ l, pending' l s.conns.length = pendingAt l (Stage.connecting.due s.conns.length c.loop))
    (hother : ∀ j, j ≠ s.conns.length → ∀ l, pending' l j = pending l j) :
    Table { s with
      threadPool
      nextConnId := s.nextConnId + 1
      conns := s.conns ++ [c]
      connections := s.connections.insert s.connName s.conns.length } pending' := by
  have hlen : (s.conns ++ [c]).length = s.conns.length + 1 := List.length_append
  constructor
  case pool => exact hpool
  case ids =>
    dsimp only
    rw [h.ids, hlen]
  case room =>
    dsimp only
    rw [hlen]
    exact hroom
  case ipPort => exact h.ipPort
  case names =>
    intro j d hd
    obtain ⟨rfl, rfl⟩ | hd := getElem?_concat_iff.mp hd
    · rw [hname, h.connName_eq]
    · exact h.names j d hd
  case holds => exact h.holds_insert hname
  case removed =>
    refine ⟨h.removed.1, fun j hj => ?_⟩
    have := h.removed.2 j hj
    dsimp only
    omega
  case erased => exact h.erased
  case stages =>
    intro j d hd
    obtain ⟨rfl, rfl⟩ | hd := getElem?_concat_iff.mp hd
    · have hnew : s.conns.length ∉ s.removed := fun hmem => absurd (h.removed.2 _ hmem) (Nat.lt_irrefl _)
      exact ⟨.connecting, hfit, iff_of_false hnew not_false, hp⟩
    · have hlt := (List.getElem?_eq_some_iff.mp hd).1
      obtain ⟨st, hfit', hrem, hpend⟩ := h.stages j d hd
      exact ⟨st, hfit', hrem, fun l => (hother j (by omega) l).trans (hpend l)⟩
  case absent =>
    intro j hj l
    dsimp only at hj
    rw [hother j (by omega) l]
    exact h.absent j (by omega) l
  case phased => exact h.phased

theorem holds_erase (h : Table s pending) {id : ℕ} {c : ServerConnection} (hc : s.conns[id]? = some c)
    (hnot : id ∉ s.removed) (nm : List Char) (j : ℕ) :
    (s.connections.erase c.name).lookup nm = some j ↔
      ∃ d, s.conns[j]? = some d ∧ d.name = nm ∧ j ∉ s.removed ++ [id] := by
  simp only [List.mem_append, List.mem_singleton, not_or]
  by_cases hnm : nm = c.name
  · subst hnm
    rw [AList.lookup_erase]
    constructor
    · intro hnone
      cases hnone
    · rintro ⟨d, hd, hname, hj, hne⟩
      -- two entries of one name would be one connection
      have hid := (h.holds c.name id).mpr ⟨c, hc, rfl, hnot⟩
      have hj' := (h.holds c.name j).mpr ⟨d, hd, hname, hj⟩
      rw [hid] at hj'
      exact absurd (Option.some.inj hj').symm hne
  · rw [AList.lookup_erase_ne hnm, h.holds]
    constructor
    · rintro ⟨d, hd, hname, hj⟩
      refine ⟨d, hd, hname, hj, ?_⟩
      rintro rfl
      rw [hc] at hd
      rw [← Option.some.inj hd] at hname
      exact hnm hname.symm
    · rintro ⟨d, hd, hname, hj, -⟩
      exact ⟨d, hd, hname, hj⟩

theorem remove (h : Table s pending) (pending' : ℕ → ℕ → List ServerFunctor) {id : ℕ} {c : ServerConnection}
    (hc : s.conns[id]? = some c) (hnot : id ∉ s.removed) (hfit : Stage.removed.Fits c)
    (hp : ∀ l, pending' l id = pendingAt l (Stage.removed.due id c.loop))
    (hother : ∀ j, j ≠ id → ∀ l, pending' l j = pending l j) :
    Table { s with
      connections := s.connections.erase c.name
      removed := s.removed ++ [id]
      erased := s.erased ++ [1] } pending' := by
  have hlt : id < s.conns.length := (List.getElem?_eq_some_iff.mp hc).1
  have hmem : ∀ j, j ∈ s.removed ++ [id] ↔ j ∈ s.removed ∨ j = id := by simp
  constructor
  case pool => exact h.pool
  case ids => exact h.ids
  case room => exact h.room
  case ipPort => exact h.ipPort
  case names => exact h.names
  case holds => exact h.holds_erase hc hnot
  case removed =>
    refine ⟨List.nodup_append.mpr ⟨h.removed.1, List.nodup_singleton _, ?_⟩, ?_⟩
    · intro a ha b hb
      rw [List.mem_singleton.mp hb]
      rintro rfl
      exact hnot ha
    · intro j hj
      obtain hj | rfl := (hmem j).mp hj
      · exact h.removed.2 j hj
      · exact hlt
  case erased =>
    dsimp only
    rw [h.erased, List.length_append, List.length_singleton, List.replicate_succ']
  case stages =>
    intro j d hd
    dsimp only at hd ⊢
    by_cases hj : j = id
    · subst hj
      rw [hc] at hd
      rw [← Option.some.inj hd]
      exact ⟨.removed, hfit, by simp [Stage.isRemoved], hp⟩
    · obtain ⟨st, hfit', hrem, hpend⟩ := h.stages j d hd
      refine ⟨st, hfit', ?_, fun l => (hother j hj l).trans (hpend l)⟩
      rw [hmem, ← hrem]
      simp [hj]
  case absent =>
    intro j hj l
    rw [hother j (by dsimp only at hj; omega) l]
    exact h.absent j hj l
  case phased => exact h.phased

end Table

end TcpServer

end Networker
