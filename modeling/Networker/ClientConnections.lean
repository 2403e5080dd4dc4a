import Networker.ClientStop

/-!
The connections of a `TcpClient` over whole runs. `connect()` begins once; `stop()`, `disconnect()` and
`enableRetry()` are called at any time, and a connection that closes may bring about the next one.
-/

namespace Networker

open CheckedRuns Descriptors

namespace Connector

section Files

variable {s t : Connector}

theorem retry_files (s : Connector) (sockfd : ℕ) : (s.retry sockfd).files = s.files.close sockfd := by
  unfold retry
  dsimp only
  split_ifs <;> rfl

/-- The socket of the attempt under way. -/
theorem Single.attempt (h : Single s) (hs : s.state_ = .kConnecting) :
    ∃ c k, s.channel_ = some c ∧ Custody s.files [(c.fd.toNat, k)] := by
  obtain ⟨held, hshape, hc⟩ := h.custody
  cases hshape with
  | vacated hne => exact absurd hs hne
  | @connecting c fd k _ hchan hfd _ =>
    refine ⟨c, k, hchan, ?_⟩
    have hnat : c.fd.toNat = fd := by simp [hfd]
    rwa [hnat]

/-- What an event does to the sockets: nothing that is seen outside, or it hands out the one of the attempt. -/
inductive Delivers (s : Connector) : Connector → Prop
  | nothing {t : Connector} (kept : KeepsHanded s.files t.files) : Delivers s t
  | socket {t : Connector} {c : Channel} {k : ℕ} (channel : s.channel_ = some c) (before : s.state_ = .kConnecting)
      (table : t.files.table = s.files.table) (handed : t.files.handed = s.files.handed ++ [k])
      (file : s.files.table c.fd.toNat = some ⟨k, ()⟩) : Delivers s t

variable [Build]

theorem Single.handleError_delivers (h : Single s) (hs : s.state_ = .kConnecting) (he : s.handleError = .ok t) :
    t.state_ ≠ .kConnecting ∧ Delivers s t := by
  obtain ⟨c, k, hchan, hc⟩ := h.attempt hs
  unfold Connector.handleError at he
  rw [if_pos hs, removeAndResetChannel_eq hchan, ok_bind] at he
  cases he
  refine ⟨by rw [retry_state]; simp, .nothing ?_⟩
  rw [retry_files]
  exact hc.keepsHanded_close

theorem Single.handleWrite_delivers (h : Single s) (hs : s.state_ = .kConnecting) {o : Outcome}
    (he : s.handleWrite o = .ok t) : t.state_ ≠ .kConnecting ∧ Delivers s t := by
  obtain ⟨c, k, hchan, hc⟩ := h.attempt hs
  unfold Connector.handleWrite at he
  rw [if_pos hs, removeAndResetChannel_eq hchan, ok_bind] at he
  dsimp only at he
  split_ifs at he with _ _ hon
  · cases he
    refine ⟨by rw [retry_state]; simp, .nothing ?_⟩
    rw [retry_files]
    exact hc.keepsHanded_close
  · cases he
    refine ⟨by rw [retry_state]; simp, .nothing ?_⟩
    rw [retry_files]
    exact hc.keepsHanded_close
  · cases he
    obtain ⟨attr, hfile⟩ := hc.file
    refine ⟨by simp, .socket hchan hs rfl ?_ hfile⟩
    change (s.files.hand c.fd.toNat).handed = _
    unfold Descriptors.hand
    rw [hfile]
    rfl
  · cases he
    exact ⟨by simp [close, log], .nothing hc.keepsHanded_close⟩

/-- Of the callbacks of one event one at most does anything. -/
theorem Single.event_delivers (h : Single s) {revents : BitVec 32} {o : Outcome}
    (he : s.step (.event revents o) = .ok t) : Delivers s t := by
  let Once : Connector → Prop := fun u => u = s ∨ u.state_ ≠ .kConnecting ∧ Delivers s u
  have honce : Once t := by
    refine handleEvent_preserves ?_ ?_ he (Or.inl rfl)
    · intro u v hu hv
      by_cases hs : u.state_ = .kConnecting
      · obtain rfl | ⟨hne, -⟩ := hu
        · exact Or.inr (h.handleError_delivers hs hv)
        · exact absurd hs hne
      · obtain rfl | ⟨hs', -⟩ := handleError_ok hv
        · exact hu
        · exact absurd hs' hs
    · intro u v hu hv
      by_cases hs : u.state_ = .kConnecting
      · obtain rfl | ⟨hne, -⟩ := hu
        · exact Or.inr (h.handleWrite_delivers hs hv)
        · exact absurd hs hne
      · obtain rfl | ⟨hs', -⟩ := handleWrite_ok hv
        · exact hu
        · exact absurd hs' hs
  obtain rfl | ⟨-, hd⟩ := honce
  · exact .nothing (.refl _)
  · exact hd

theorem startInLoop_keeps {r : Attempt} (hfresh : s.Fresh r) (he : s.startInLoop r = .ok t) :
    KeepsHanded s.files t.files := by
  have he := assert_bind_ok he
  split_ifs at he
  · obtain ⟨-, hc⟩ | ⟨sockfd, u, hfd, rfl, hcase⟩ := connect_cases (s.log (.startInLoop s.state_)) r
    · cases hc.symm.trans he
      exact .refl _
    · have hnone : s.files.table sockfd = none := hfresh sockfd hfd
      have hclosed : KeepsHanded s.files ((s.files.create sockfd ()).close sockfd) := by
        refine ⟨fun fd f hf _ => ?_, close_handed _ _⟩
        have hne : fd ≠ sockfd := by
          rintro rfl
          cases hnone.symm.trans hf
        rw [close_other _ hne, create_other _ hne, hf]
      obtain ⟨-, hc⟩ | hc | hc := hcase
      · cases assert_bind_ok (hc.symm.trans he)
        exact .create _ hnone ()
      · cases hc.symm.trans he
        rw [retry_files]
        exact hclosed
      · cases hc.symm.trans he
        exact hclosed
  · cases he
    exact .refl _

theorem start_keeps {isInLoopThread : Bool} {r : Attempt} (hfresh : s.Fresh r) (he : s.start isInLoopThread r = .ok t) :
    KeepsHanded s.files t.files := by
  unfold Connector.start at he
  dsimp only at he
  split_ifs at he
  · have hk := startInLoop_keeps (s := { s with connect_ := true }) hfresh he
    exact hk
  · cases he
    exact .refl _

theorem restart_keeps {r : Attempt} (hfresh : s.Fresh r) (he : s.restart r = .ok t) : KeepsHanded s.files t.files := by
  have hk := startInLoop_keeps (s := { s with
    state_ := .kDisconnected, retryDelayMs_ := kInitRetryDelayMs, connect_ := true }) hfresh he
  exact hk

theorem timer_keeps {i : ℕ} {r : Attempt} (hen : s.Enabled (.timer i r)) (he : s.step (.timer i r) = .ok t) :
    KeepsHanded s.files t.files := by
  have hk := startInLoop_keeps (s := { s with timers := s.timers.eraseIdx i }) hen.2 he
  exact hk

theorem Single.stopInLoop_keeps (h : Single s) (he : s.stopInLoop = .ok t) : KeepsHanded s.files t.files := by
  unfold Connector.stopInLoop at he
  split_ifs at he with hs
  · obtain ⟨c, k, hchan, hc⟩ := h.attempt hs
    rw [removeAndResetChannel_eq (s := { s with state_ := .kDisconnected }) hchan, ok_bind] at he
    cases he
    rw [retry_files]
    exact hc.keepsHanded_close
  · cases he
    exact .refl _

theorem Single.functor_keeps (h : Single s) {r : Attempt} (hen : s.Enabled (.functor r))
    (he : s.step (.functor r) = .ok t) : KeepsHanded s.files t.files := by
  unfold Connector.step at he
  cases hq : s.pending with
  | nil => exact absurd hq hen.1
  | cons f pending =>
    simp only [hq] at he
    cases f with
    | startInLoop => exact startInLoop_keeps (s := { s with pending }) hen.2 he
    | stopInLoop => exact (h.pop hq (by simp)).stopInLoop_keeps he
    | resetChannel =>
      rw [resetChannel_ok he]
      exact .refl _

end Files

end Connector

/-- A client with the calls its owner has made and the connections that have not been closed. -/
structure ClientRun where
  client : TcpClient
  connected : Bool := false
  alive : List TcpClient.Connection := []

namespace ClientRun

open TcpClient

/-- A connection calls its close callback once. -/
def kept (s : ClientRun) : Step → List Connection
  | .removeConnection conn _ => s.alive.erase conn
  | .connect _ _ | .disconnect | .stop | .enableRetry | .functor _ | .timer _ _ | .event _ _ _ | .destroyed _ => s.alive

def step [Build] (s : ClientRun) (i : Step) : Exec ClientRun := do
  let client ← s.client.step i
  let made := if client.nextConnId_ = s.client.nextConnId_ then [] else client.connection_.toList
  return { client, connected := s.connected || i.isConnect, alive := s.kept i ++ made }

/-- `connect()` is called once, and no attempt begins while `resetChannel` is queued. -/
def Enabled (s : ClientRun) : Step → Prop
  | .connect _ r => s.connected = false ∧ s.client.connector_.Fresh r
  | .disconnect | .stop | .enableRetry => True
  | .functor r => s.client.connector_.Enabled (.functor r)
  | .timer i r => s.client.connector_.Enabled (.timer i r) ∧ s.client.connector_.Clear (.timer i r)
  | .event revents o _ => s.client.connector_.Enabled (.event revents o)
  | .removeConnection conn r => conn ∈ s.alive ∧ s.client.connector_.Fresh r ∧ s.client.connector_.Clear (.restart r)
  | .destroyed conn => conn ∈ s.client.destroying

instance (s : ClientRun) : (i : Step) → Decidable (s.Enabled i)
  | .connect _ _ => inferInstanceAs (Decidable (_ = _ ∧ _))
  | .disconnect | .stop | .enableRetry => inferInstanceAs (Decidable True)
  | .functor r => inferInstanceAs (Decidable (s.client.connector_.Enabled (.functor r)))
  | .timer _ _ => inferInstanceAs (Decidable (_ ∧ _))
  | .event revents o _ => inferInstanceAs (Decidable (s.client.connector_.Enabled (.event revents o)))
  | .removeConnection _ _ => inferInstanceAs (Decidable (_ ∈ _ ∧ _ ∧ _))
  | .destroyed _ => inferInstanceAs (Decidable (_ ∈ _))

/-- The connections whose sockets are still open. -/
def connections (s : ClientRun) : List Connection := s.alive ++ s.client.destroying

/-- The connection number `j`, from zero, has the socket that was handed out as number `j`. -/
def HasSocket (files : Descriptors Unit) (conn : Connection) : Prop :=
  ∃ j k, conn.id = j + 1 ∧ files.handed[j]? = some k ∧ files.table conn.sockfd = some ⟨k, ()⟩

/-- The invariant, after `n` calls of `restart()`. -/
structure Sole (s : ClientRun) (n : ℕ) : Prop where
  session : Connector.Session.Tracked { connector := s.client.connector_, started := s.connected, restarts := n }
  alive : s.alive = s.client.connection_.toList
  next : s.alive ≠ [] → s.client.connector_.files.handed.length = n + 1
  ids : s.client.nextConnId_ = s.client.connector_.files.handed.length + 1
  sockets : ∀ conn ∈ s.connections, HasSocket s.client.connector_.files conn
  distinct : (s.connections.map Connection.id).Nodup

section Steps

variable {s t : ClientRun} {n : ℕ}

theorem HasSocket.keeps {files files' : Descriptors Unit} {conn : Connection} (h : HasSocket files conn)
    (hk : Descriptors.KeepsHanded files files') : HasSocket files' conn := by
  obtain ⟨j, k, hid, hj, hfile⟩ := h
  exact ⟨j, k, hid, by rw [hk.handed, hj], hk.table _ _ hfile (List.mem_of_getElem? hj)⟩

/-- The connector does something, and the connections are as before. -/
theorem Sole.quiet (h : Sole s n) {client : TcpClient} {connected : Bool}
    (hsession : Connector.Session.Tracked { connector := client.connector_, started := connected, restarts := n })
    (hk : Descriptors.KeepsHanded s.client.connector_.files client.connector_.files)
    (hc : client.connection_ = s.client.connection_) (hid : client.nextConnId_ = s.client.nextConnId_)
    (hd : client.destroying = s.client.destroying) : Sole { client, connected, alive := s.alive } n := by
  have hsame : connections { client, connected, alive := s.alive } = s.connections := by
    unfold connections
    rw [hd]
  constructor
  case session => exact hsession
  case alive => rw [h.alive, hc]
  case next =>
    intro hne
    rw [hk.handed]
    exact h.next hne
  case ids => rw [hid, h.ids, hk.handed]
  case sockets =>
    rw [hsame]
    exact fun conn hconn => (h.sockets conn hconn).keeps hk
  case distinct =>
    rw [hsame]
    exact h.distinct

theorem Sole.connected (h : Sole s n) (hne : s.alive ≠ []) : s.client.connector_.state_ = .kConnected := by
  have hlt : n < s.client.connector_.files.handed.length := by
    rw [h.next hne]
    exact Nat.lt_succ_self n
  exact h.session.balanced.connected hlt

/-- While a connection is alive nothing is under way that could make another. -/
theorem Sole.no_attempt (h : Sole s n) (hne : s.alive ≠ []) :
    s.client.connector_.connectingSockets = [] ∧ s.client.connector_.timers = [] := by
  have hstate := h.connected hne
  obtain ⟨-, hc⟩ := h.session.single.vacated (by rw [hstate]; simp)
  constructor
  · apply List.filter_eq_nil_iff.mpr
    intro k hk hopen
    obtain ⟨hclosed, hhanded⟩ := of_decide_eq_true hopen
    exact absurd (hc.owned_iff.mp ⟨List.mem_range.mp hk, hclosed, hhanded⟩) List.not_mem_nil
  · have hone := h.session.single.one
    simp only [Connector.outstanding, hstate, reduceCtorEq, if_false] at hone
    exact List.length_eq_zero_iff.mp (by omega)

theorem Sole.connection (h : Sole s n) {conn : Connection} (hconn : conn ∈ s.alive) :
    s.client.connection_ = some conn ∧ s.alive = [conn] := by
  rw [h.alive, Option.mem_toList] at hconn
  exact ⟨hconn, by rw [h.alive, hconn]; rfl⟩

theorem Sole.handed_nodup (h : Sole s n) : s.client.connector_.files.handed.Nodup := by
  obtain ⟨held, -, hc⟩ := h.session.single.custody
  exact (List.nodup_append.mp (List.nodup_append.mp hc.nodup).2.1).2.1

theorem Sole.none_alive (h : Sole s n) (hstate : s.client.connector_.state_ ≠ .kConnected) : s.alive = [] := by
  by_contra hne
  exact hstate (h.connected hne)

theorem Sole.sockfd_ne (h : Sole s n) {conn conn' : Connection} (hm : conn ∈ s.connections) (hm' : conn' ∈ s.connections)
    (hne : conn' ≠ conn) : conn'.sockfd ≠ conn.sockfd := by
  obtain ⟨j, k, hid, hj, hfile⟩ := h.sockets conn hm
  obtain ⟨j', k', hid', hj', hfile'⟩ := h.sockets conn' hm'
  intro hsame
  rw [hsame, hfile] at hfile'
  cases hfile'
  have hjj : j' = j :=
    (List.getElem?_inj (List.getElem?_eq_some_iff.mp hj').1 h.handed_nodup).mp (hj'.trans hj.symm)
  exact hne (List.inj_on_of_nodup_map h.distinct hm' hm (by rw [hid, hid', hjj]))

/-- The socket that is handed out becomes that of the new connection. -/
theorem Sole.made (h : Sole s n) (hstate : s.client.connector_.state_ ≠ .kConnected) {connector : Connector}
    {conn : Connection} {k : ℕ}
    (hsession : Connector.Session.Tracked { connector, started := s.connected, restarts := n })
    (htable : connector.files.table = s.client.connector_.files.table)
    (hhanded : connector.files.handed = s.client.connector_.files.handed ++ [k])
    (hid : conn.id = s.client.nextConnId_) (hfile : s.client.connector_.files.table conn.sockfd = some ⟨k, ()⟩) :
    Sole { s with
      client := { s.client with
        connector_ := connector
        nextConnId_ := s.client.nextConnId_ + 1
        connection_ := some conn }
      alive := [conn] } n := by
  have hlen : connector.files.handed.length = s.client.connector_.files.handed.length + 1 := by
    rw [hhanded, List.length_append, List.length_singleton]
  have hdestroying : s.connections = s.client.destroying := by
    unfold connections
    rw [h.none_alive hstate]
    rfl
  have hnew : HasSocket connector.files conn := by
    refine ⟨s.client.connector_.files.handed.length, k, by rw [hid, h.ids], ?_, ?_⟩
    · rw [hhanded, List.getElem?_concat_length]
    · rw [htable, hfile]
  have hold : ∀ conn' ∈ s.client.destroying, HasSocket connector.files conn' ∧ conn'.id < conn.id := by
    intro conn' hconn'
    obtain ⟨j, k', hid', hj, hfile'⟩ := h.sockets conn' (hdestroying ▸ hconn')
    have hlt := (List.getElem?_eq_some_iff.mp hj).1
    refine ⟨⟨j, k', hid', ?_, by rw [htable, hfile']⟩, by rw [hid, hid', h.ids]; omega⟩
    rw [hhanded, List.getElem?_append_left hlt, hj]
  constructor
  case session => exact hsession
  case alive => rfl
  case next =>
    intro _
    change connector.files.handed.length = n + 1
    rw [hlen, h.session.balanced.handed hstate]
  case ids =>
    change s.client.nextConnId_ + 1 = connector.files.handed.length + 1
    rw [h.ids, hlen]
  case sockets =>
    intro conn' hconn'
    rcases List.mem_cons.mp hconn' with rfl | hconn'
    · exact hnew
    · exact (hold conn' hconn').1
  case distinct =>
    refine List.nodup_cons.mpr ⟨fun hm => ?_, hdestroying ▸ h.distinct⟩
    obtain ⟨conn', hconn', heq⟩ := List.mem_map.mp hm
    have hlt := (hold conn' hconn').2
    omega

variable [Build]

theorem Sole.session_step (h : Sole s n) {i : Connector.Step} (hstart : i.isStart = true → s.connected = false)
    (hrestart : i.isRestart = true → s.alive ≠ []) (hen : s.client.connector_.Enabled i)
    (hc : s.client.connector_.Clear i) :
    ∃ connector, s.client.connector_.step i = .ok connector ∧ Connector.Session.Tracked
      { connector, started := s.connected || i.isStart, restarts := n + i.isRestart.toNat } := by
  have henabled : Connector.Session.Enabled { connector := s.client.connector_, started := s.connected, restarts := n } i := by
    refine ⟨hen, hstart, fun hr => ?_⟩
    have hnext := h.next (hrestart hr)
    dsimp only
    omega
  obtain ⟨u, hu, htracked⟩ := h.session.step henabled hc
  obtain ⟨connector, hconnector, heq⟩ := bind_eq_ok.mp hu
  cases heq
  exact ⟨connector, hconnector, htracked⟩

theorem Sole.session_other (h : Sole s n) {i : Connector.Step} (hi : i.isStart = false)
    (hrestart : i.isRestart = true → s.alive ≠ []) (hen : s.client.connector_.Enabled i)
    (hc : s.client.connector_.Clear i) :
    ∃ connector, s.client.connector_.step i = .ok connector ∧ Connector.Session.Tracked
      { connector, started := s.connected, restarts := n + i.isRestart.toNat } := by
  obtain ⟨connector, hconnector, htracked⟩ := h.session_step (fun hs => by simp [hi] at hs) hrestart hen hc
  rw [hi, Bool.or_false] at htracked
  exact ⟨connector, hconnector, htracked⟩

theorem step_eq {i : Step} {client : TcpClient} (hs : s.client.step i = .ok client)
    (hid : client.nextConnId_ = s.client.nextConnId_) :
    s.step i = .ok { client, connected := s.connected || i.isConnect, alive := s.kept i } := by
  unfold step
  rw [hs, ok_bind]
  dsimp only
  rw [if_pos hid, List.append_nil]
  rfl

/-- A step other than `connect()` that makes no connection. -/
theorem step_other {i : Step} {client : TcpClient} (hi : i.isConnect = false) (hs : s.client.step i = .ok client)
    (hid : client.nextConnId_ = s.client.nextConnId_) :
    s.step i = .ok { client, connected := s.connected, alive := s.kept i } := by
  rw [step_eq hs hid, hi, Bool.or_false]

/-- A step other than `connect()` that makes one. -/
theorem step_made {i : Step} {client : TcpClient} (hi : i.isConnect = false) (hs : s.client.step i = .ok client)
    (hid : client.nextConnId_ = s.client.nextConnId_ + 1) :
    s.step i = .ok { client, connected := s.connected, alive := s.kept i ++ client.connection_.toList } := by
  unfold step
  rw [hs, ok_bind]
  dsimp only
  rw [if_neg (by omega), hi, Bool.or_false]
  rfl

/-- A step that the connector takes by itself. -/
theorem Sole.passes (h : Sole s n) (i : Step) (i' : Connector.Step) {connect_ : Bool}
    (hi : s.client.step i = (do
      let connector_ ← s.client.connector_.step i'
      .ok { s.client with connect_, connector_ }))
    (hkept : s.kept i = s.alive) (hconnect : i.isConnect = i'.isStart) (hrestart : i'.isRestart = false)
    (hstart : i'.isStart = true → s.connected = false) (hen : s.client.connector_.Enabled i')
    (hc : s.client.connector_.Clear i')
    (hk : ∀ connector, s.client.connector_.step i' = .ok connector →
      Descriptors.KeepsHanded s.client.connector_.files connector.files) : ∃ t, s.step i = .ok t ∧ Sole t n := by
  obtain ⟨connector, hconnector, htracked⟩ := h.session_step hstart (fun hr => by simp [hrestart] at hr) hen hc
  rw [hconnector, ok_bind] at hi
  rw [hrestart] at htracked
  refine ⟨_, step_eq hi rfl, ?_⟩
  rw [hkept, hconnect]
  exact h.quiet htracked (hk _ hconnector) rfl rfl rfl

theorem Sole.event (h : Sole s n) {revents : BitVec 32} {o : Connector.Outcome} {ipPort : List Char}
    (hen : s.Enabled (.event revents o ipPort)) : ∃ t, s.step (.event revents o ipPort) = .ok t ∧ Sole t n := by
  obtain ⟨connector, hconnector, htracked⟩ := h.session_other (i := .event revents o) rfl
    (by simp [Connector.Step.isRestart]) hen trivial
  have hevent : s.client.step (.event revents o ipPort) =
      if connector.files.handed.length = s.client.connector_.files.handed.length then
        .ok { s.client with connector_ := connector }
      else .ok (newConnection { s.client with connector_ := connector }
        ((s.client.connector_.channel_.map fun ch => ch.fd.toNat).getD 0) ipPort) := by
    change s.client.handleEvent revents o ipPort = _
    unfold handleEvent
    rw [hconnector, ok_bind]
  cases h.session.single.event_delivers hconnector with
  | nothing hk =>
    rw [if_pos (congrArg List.length hk.handed)] at hevent
    exact ⟨_, step_other rfl hevent rfl, h.quiet htracked hk rfl rfl rfl⟩
  | @socket c k hchan hstate htable hhanded hfile =>
    have hlen : connector.files.handed.length = s.client.connector_.files.handed.length + 1 := by
      rw [hhanded, List.length_append, List.length_singleton]
    rw [if_neg (by omega), hchan] at hevent
    obtain ⟨conn, hconn, hid, hsockfd⟩ : ∃ conn : Connection,
        newConnection { s.client with connector_ := connector } c.fd.toNat ipPort =
          { s.client with
            connector_ := connector
            nextConnId_ := s.client.nextConnId_ + 1
            connection_ := some conn } ∧
        conn.id = s.client.nextConnId_ ∧ conn.sockfd = c.fd.toNat := ⟨_, rfl, rfl, rfl⟩
    rw [Option.map_some, Option.getD_some, hconn] at hevent
    refine ⟨_, step_made rfl hevent rfl, ?_⟩
    rw [show s.kept (.event revents o ipPort) = s.alive from rfl, h.none_alive (by rw [hstate]; simp), List.nil_append]
    exact h.made (by rw [hstate]; simp) htracked htable hhanded hid (by rw [hsockfd, hfile])

omit [Build] in
/-- The connection that is removed waits to be destroyed. -/
theorem Sole.moved (h : Sole s n) {conn : Connection} (hconn : conn ∈ s.alive) {connector : Connector} {m : ℕ}
    (hsession : Connector.Session.Tracked { connector, started := s.connected, restarts := m })
    (hk : Descriptors.KeepsHanded s.client.connector_.files connector.files) :
    Sole { s with
      client := { s.client with
        connector_ := connector
        connection_ := none
        destroying := s.client.destroying ++ [conn] }
      alive := s.alive.erase conn } m := by
  obtain ⟨-, hone⟩ := h.connection hconn
  have herase : s.alive.erase conn = [] := by
    rw [hone]
    exact List.erase_cons_head conn []
  have hperm : (s.client.destroying ++ [conn]).Perm s.connections := by
    unfold connections
    rw [hone]
    exact List.perm_append_comm
  rw [herase]
  constructor
  case session => exact hsession
  case alive => rfl
  case next => exact fun hne => absurd rfl hne
  case ids =>
    change s.client.nextConnId_ = connector.files.handed.length + 1
    rw [h.ids, hk.handed]
  case sockets =>
    intro conn' hconn'
    exact (h.sockets conn' (hperm.mem_iff.mp hconn')).keeps hk
  case distinct => exact (hperm.map _).nodup_iff.mpr h.distinct

theorem Sole.removed (h : Sole s n) {conn : Connection} {r : Connector.Attempt}
    (hen : s.Enabled (.removeConnection conn r)) :
    ∃ t m, s.step (.removeConnection conn r) = .ok t ∧ Sole t m := by
  obtain ⟨hconn, hfresh, hclear⟩ := hen
  obtain ⟨hconnection, -⟩ := h.connection hconn
  have hremove : s.client.step (.removeConnection conn r) = (do
      let c : TcpClient := { s.client with connection_ := none, destroying := s.client.destroying ++ [conn] }
      if c.retry_ && c.connect_ then
        let connector_ ← c.connector_.restart r
        .ok { c with connector_ }
      else .ok c) := by
    change s.client.removeConnection conn r = _
    unfold removeConnection
    rw [assert_pos hconnection, ok_bind]
  by_cases hretry : (s.client.retry_ && s.client.connect_) = true
  · obtain ⟨connector, hconnector, htracked⟩ := h.session_other (i := .restart r) rfl
      (fun _ => List.ne_nil_of_mem hconn) hfresh hclear
    change s.client.connector_.restart r = .ok connector at hconnector
    have hk := Connector.restart_keeps hfresh hconnector
    dsimp only at hremove
    rw [if_pos hretry, hconnector, ok_bind] at hremove
    exact ⟨_, n + 1, step_other rfl hremove rfl, h.moved hconn htracked hk⟩
  · dsimp only at hremove
    rw [if_neg hretry] at hremove
    exact ⟨_, n, step_other rfl hremove rfl, h.moved hconn h.session (.refl _)⟩

theorem Sole.destroyed (h : Sole s n) {conn : Connection} (hen : s.Enabled (.destroyed conn)) :
    ∃ t, s.step (.destroyed conn) = .ok t ∧ Sole t n := by
  have hmem : conn ∈ s.connections := List.mem_append_right _ hen
  obtain ⟨j, k, hid, hj, hfile⟩ := h.sockets conn hmem
  obtain ⟨connector, hconnector, htracked⟩ := h.session_other (i := .release conn.sockfd) rfl
    (by simp [Connector.Step.isRestart]) ⟨_, hfile, List.mem_of_getElem? hj⟩ trivial
  cases hconnector
  refine ⟨_, step_other rfl rfl rfl, ?_⟩
  have hnodup : s.connections.Nodup := h.distinct.of_map _
  have hnotin : conn ∉ s.alive := fun ha => (List.nodup_append.mp hnodup).2.2 conn ha conn hen rfl
  have hsub : (s.alive ++ s.client.destroying.erase conn) = s.connections.erase conn := by
    unfold connections
    rw [List.erase_append_right _ hnotin]
  constructor
  case session => exact htracked
  case alive => exact h.alive
  case next => exact h.next
  case ids => exact h.ids
  case sockets =>
    intro conn' hconn'
    change conn' ∈ s.alive ++ s.client.destroying.erase conn at hconn'
    rw [hsub, hnodup.mem_erase_iff] at hconn'
    obtain ⟨j', k', hid', hj', hfile'⟩ := h.sockets conn' hconn'.2
    refine ⟨j', k', hid', hj', ?_⟩
    change Function.update _ _ _ _ = _
    rw [Function.update_of_ne (h.sockfd_ne hmem hconn'.2 hconn'.1), hfile']
  case distinct =>
    change ((s.alive ++ s.client.destroying.erase conn).map Connection.id).Nodup
    rw [hsub]
    exact h.distinct.sublist (List.erase_sublist.map _)

theorem Sole.step (h : Sole s n) {i : Step} (hen : s.Enabled i) : ∃ t m, s.step i = .ok t ∧ Sole t m := by
  cases i with
  | connect isInLoopThread r =>
    obtain ⟨hnot, hfresh⟩ := hen
    obtain ⟨t, ht, hsole⟩ := h.passes (.connect isInLoopThread r) (.start isInLoopThread r) rfl rfl rfl rfl
      (fun _ => hnot) hfresh trivial fun connector hc => Connector.start_keeps hfresh hc
    exact ⟨t, n, ht, hsole⟩
  | disconnect => exact ⟨_, n, step_other rfl rfl rfl, h.quiet h.session (.refl _) rfl rfl rfl⟩
  | enableRetry => exact ⟨_, n, step_other rfl rfl rfl, h.quiet h.session (.refl _) rfl rfl rfl⟩
  | stop =>
    obtain ⟨t, ht, hsole⟩ := h.passes .stop .stop rfl rfl rfl rfl (by simp [Connector.Step.isStart])
      trivial trivial fun connector hc => by cases hc; exact .refl _
    exact ⟨t, n, ht, hsole⟩
  | functor r =>
    obtain ⟨t, ht, hsole⟩ := h.passes (.functor r) (.functor r) rfl rfl rfl rfl (by simp [Connector.Step.isStart])
      hen trivial fun connector hc => h.session.single.functor_keeps hen hc
    exact ⟨t, n, ht, hsole⟩
  | timer j r =>
    obtain ⟨t, ht, hsole⟩ := h.passes (.timer j r) (.timer j r) rfl rfl rfl rfl (by simp [Connector.Step.isStart])
      hen.1 hen.2 fun connector hc => Connector.timer_keeps hen.1 hc
    exact ⟨t, n, ht, hsole⟩
  | event revents o ipPort =>
    obtain ⟨t, ht, hsole⟩ := h.event hen
    exact ⟨t, n, ht, hsole⟩
  | removeConnection conn r => exact h.removed hen
  | destroyed conn =>
    obtain ⟨t, ht, hsole⟩ := h.destroyed hen
    exact ⟨t, n, ht, hsole⟩

end Steps

/-- A client whose `connect()` is called once has one connection at a time, whenever `stop()`, `disconnect()` and
`enableRetry()` are called, and each of its connections keeps its own socket until it is destroyed. -/
theorem one_connection [Build] {name_ : List Char} {steps : List Step} {s : ClientRun}
    (h : Path step Enabled { client := { name_ } } steps s) :
    s.alive = s.client.connection_.toList ∧
      (s.alive ≠ [] → s.client.connector_.state_ = .kConnected ∧ s.client.connector_.connectingSockets = [] ∧
        s.client.connector_.timers = []) ∧
      s.client.nextConnId_ = s.client.connector_.files.handed.length + 1 ∧
      (∀ conn ∈ s.connections, HasSocket s.client.connector_.files conn) ∧
      (s.connections.map Connection.id).Nodup ∧ (s.connections.map Connection.sockfd).Nodup ∧
      ∀ i, s.Enabled i → ∃ t, s.step i = .ok t := by
  obtain ⟨n, hs⟩ : ∃ n, Sole s n := by
    apply h.invariant
    · refine ⟨0, Connector.Session.initial_tracked, rfl, fun hne => absurd rfl hne, rfl, ?_, List.nodup_nil⟩
      intro conn hconn
      cases hconn
    · rintro u i v ⟨n, hu⟩ hi hv
      obtain ⟨t, m, ht, hsole⟩ := hu.step hi
      cases ht.symm.trans hv
      exact ⟨m, hsole⟩
  refine ⟨hs.alive, fun hne => ⟨hs.connected hne, hs.no_attempt hne⟩, hs.ids, hs.sockets, hs.distinct, ?_, ?_⟩
  · apply List.Nodup.map_on
    · intro conn hconn conn' hconn' hsame
      by_contra hne
      exact hs.sockfd_ne hconn' hconn hne hsame
    · exact hs.distinct.of_map _
  · intro i hi
    obtain ⟨t, m, ht, -⟩ := hs.step hi
    exact ⟨t, ht⟩

/-- The second connection is made while the first waits to be destroyed, and has another socket. -/
theorem one_connection_again :
    letI := Build.debug
    let none : Connector.Attempt := ⟨none, .success⟩
    let first : Connection := { id := 1, name := "echo:10.0.0.1:7#1".toList, sockfd := 3 }
    let second : Connection := { id := 2, name := "echo:10.0.0.1:7#2".toList, sockfd := 4 }
    let steps : List Step := [.enableRetry, .connect true ⟨some 3, .EINPROGRESS⟩,
      .event POLLOUT {} "10.0.0.1:7".toList, .functor none, .removeConnection first ⟨some 4, .EINPROGRESS⟩,
      .event POLLOUT {} "10.0.0.1:7".toList]
    ∃ s, Path step Enabled { client := { name_ := "echo".toList } } steps s ∧ s.alive = [second] ∧
      s.client.destroying = [first] ∧ s.client.connector_.timers = [] ∧ ∃ t, s.step (.destroyed first) = .ok t := by
  intro none first second steps
  let _ := Build.debug
  obtain ⟨s, hs, hp⟩ := Path.exists_of_any step Enabled { client := { name_ := "echo".toList } } steps
    (fun s : ClientRun => decide (s.alive = [second] ∧ s.client.destroying = [first])) (by decide +kernel)
  obtain ⟨halive, hdestroying⟩ := of_decide_eq_true hp
  obtain ⟨-, hquiet, -, -, -, -, hnext⟩ := one_connection hs
  have hen : s.Enabled (.destroyed first) := by
    change first ∈ s.client.destroying
    rw [hdestroying]
    exact List.mem_singleton_self _
  exact ⟨s, hs, halive, hdestroying, (hquiet (by rw [halive]; exact List.cons_ne_nil _ _)).2.2, hnext _ hen⟩

end ClientRun

end Networker
