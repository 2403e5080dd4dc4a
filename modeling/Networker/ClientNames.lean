import Networker.TcpClientModel

/-!
The names that a `TcpClient` gives to its connections, from the address of the peer and a number.
-/

namespace Networker

/-- An address with the text that `inet_ntop` makes of it. -/
structure InetAddress where
  ip : List Char
  ip_length : ip.length ≤ 45 := by decide
  ip_chars : '#' ∉ ip := by decide
  port : ℕ
  port_lt : port < 65536 := by decide

/-- Into a buffer of 64 bytes. -/
def InetAddress.toIpPort (addr : InetAddress) : List Char :=
  addr.ip ++ snprintf (64 - addr.ip.length) (':' :: decimal addr.port)

theorem decimal_no_hash (n : ℕ) : '#' ∉ decimal n := by
  intro h
  have hdigit := Nat.isDigit_of_mem_toDigits (by decide) (by decide) h
  cases hdigit

theorem InetAddress.toIpPort_eq (addr : InetAddress) : addr.toIpPort = addr.ip ++ ':' :: decimal addr.port := by
  have hlen := addr.ip_length
  have hport : (decimal addr.port).length ≤ 10 := decimal_length (addr.port_lt.trans (by decide))
  unfold toIpPort
  rw [snprintf_eq (by rw [List.length_cons]; omega)]

theorem InetAddress.toIpPort_no_hash (addr : InetAddress) : '#' ∉ addr.toIpPort := by
  rw [addr.toIpPort_eq, List.mem_append, List.mem_cons]
  rintro (h | h | h)
  · exact addr.ip_chars h
  · cases h
  · exact decimal_no_hash _ h

/-- What is printed if the buffer is large enough. -/
def connectionText (ipPort : List Char) (id : ℕ) : List Char := ':' :: ipPort ++ '#' :: decimal id

theorem connectionText_injective {a b : List Char} {m n : ℕ} (h : connectionText a m = connectionText b n)
    (ha : '#' ∉ ':' :: a) : m = n :=
  decimal_injective ((List.append_cons_inj_of_notMem ha (decimal_no_hash m)).mp h).2.2

/-- The part from the only `#` on survives only in the whole text. -/
theorem hash_suffix_iff {x d : List Char} (hx : '#' ∉ x) (hd : '#' ∉ d) (k : ℕ) :
    ('#' :: d) <:+ (x ++ '#' :: d).take k ↔ (x ++ '#' :: d).length ≤ k := by
  constructor
  · rintro ⟨front, hfront⟩
    have hsplit : x ++ '#' :: d = front ++ '#' :: (d ++ (x ++ '#' :: d).drop k) := by
      rw [← List.cons_append, ← List.append_assoc, hfront, List.take_append_drop]
    obtain ⟨-, -, hrest⟩ := (List.append_cons_inj_of_notMem hx hd).mp hsplit
    exact List.drop_eq_nil_iff.mp (List.self_eq_append_right.mp hrest)
  · intro hlen
    rw [List.take_of_length_le hlen]
    exact List.suffix_append _ _

namespace TcpClient

def connections (c : TcpClient) : List (ℕ × InetAddress) → List Connection
  | [] => []
  | peer :: peers =>
    let c := c.newConnection peer.1 peer.2.toIpPort
    c.connection_.toList ++ c.connections peers

/-- The connection with index `k` has the number `nextConnId_ + k`. -/
theorem connections_getElem? (c : TcpClient) (peers : List (ℕ × InetAddress)) (k : ℕ) :
    (c.connections peers)[k]? = peers[k]?.map fun peer =>
      { id := c.nextConnId_ + k
        name := c.name_ ++ snprintf 32 (connectionText peer.2.toIpPort (c.nextConnId_ + k))
        sockfd := peer.1 } := by
  induction peers generalizing c k with
  | nil => rfl
  | cons peer peers ih =>
    have hfirst : (c.newConnection peer.1 peer.2.toIpPort).connection_.toList =
        [{ id := c.nextConnId_
           name := c.name_ ++ snprintf 32 (connectionText peer.2.toIpPort c.nextConnId_)
           sockfd := peer.1 }] := rfl
    rw [connections, hfirst, List.singleton_append]
    cases k with
    | zero => rfl
    | succ k =>
      rw [List.getElem?_cons_succ, List.getElem?_cons_succ, ih]
      have hid : (c.newConnection peer.1 peer.2.toIpPort).nextConnId_ + k = c.nextConnId_ + (k + 1) :=
        Nat.succ_add_eq_add_succ c.nextConnId_ k
      rw [hid]
      rfl

theorem peer_no_hash (addr : InetAddress) : '#' ∉ ':' :: addr.toIpPort := by
  rw [List.mem_cons]
  rintro (h | h)
  · cases h
  · exact addr.toIpPort_no_hash h

theorem name_suffix_iff (name : List Char) (addr : InetAddress) {id : ℕ} (hid : id < 2 ^ 31) :
    ('#' :: decimal id) <:+ name ++ snprintf 32 (connectionText addr.toIpPort id) ↔
      (connectionText addr.toIpPort id).length ≤ 31 := by
  have hcut := hash_suffix_iff (peer_no_hash addr) (decimal_no_hash id) 31
  refine Iff.trans ⟨fun h => ?_, fun h => h.trans (List.suffix_append _ _)⟩ hcut
  by_cases hfits : (connectionText addr.toIpPort id).length ≤ 31
  · exact hcut.mpr hfits
  · have hdigits := decimal_length hid
    apply List.suffix_of_suffix_length_le h (List.suffix_append _ _)
    rw [snprintf, List.length_take, List.length_cons]
    omega

theorem connectionText_length (ipPort : List Char) (id : ℕ) :
    (connectionText ipPort id).length = ipPort.length + (decimal id).length + 2 := by
  unfold connectionText
  rw [List.length_append, List.length_cons, List.length_cons]
  omega

theorem connections_mem {c : TcpClient} {peers : List (ℕ × InetAddress)} {conn : Connection} (h : conn ∈ c.connections peers) :
    ∃ k peer, peers[k]? = some peer ∧ conn.id = c.nextConnId_ + k ∧
      conn.name = c.name_ ++ snprintf 32 (connectionText peer.2.toIpPort (c.nextConnId_ + k)) := by
  obtain ⟨k, hk⟩ := List.getElem?_of_mem h
  rw [connections_getElem?] at hk
  obtain ⟨peer, hpeer, hconn⟩ := Option.map_eq_some_iff.mp hk
  exact ⟨k, peer, hpeer, by rw [← hconn], by rw [← hconn]⟩

theorem names_pairwise {c : TcpClient} {peers : List (ℕ × InetAddress)}
    (hfits : ∀ k peer, peers[k]? = some peer → (connectionText peer.2.toIpPort (c.nextConnId_ + k)).length ≤ 31) :
    (c.connections peers).Pairwise fun x y => x.name ≠ y.name := by
  have hname {k : ℕ} {conn : Connection} (hk : (c.connections peers)[k]? = some conn) :
      ∃ addr : InetAddress, conn.name = c.name_ ++ connectionText addr.toIpPort (c.nextConnId_ + k) := by
    rw [connections_getElem?] at hk
    obtain ⟨peer, hpeer, hconn⟩ := Option.map_eq_some_iff.mp hk
    have hlen := hfits k peer hpeer
    exact ⟨peer.2, by rw [← hconn, snprintf_eq (by omega)]⟩
  apply List.pairwise_iff_getElem.mpr
  intro i j hi hj hij heq
  obtain ⟨a, ha⟩ := hname (List.getElem?_eq_getElem hi)
  obtain ⟨b, hb⟩ := hname (List.getElem?_eq_getElem hj)
  rw [ha, hb, List.append_cancel_left_eq] at heq
  have hid := connectionText_injective heq (peer_no_hash a)
  omega

/-- The names of a client's connections are distinct and end with their numbers exactly if every peer's
address and every number fit into the buffer. -/
theorem names_distinct_iff (name : List Char) (peers : List (ℕ × InetAddress)) (hlen : peers.length < 2 ^ 31 - 1) :
    ((({ name_ := name } : TcpClient).connections peers).Pairwise (fun x y => x.name ≠ y.name) ∧
        ∀ conn ∈ ({ name_ := name } : TcpClient).connections peers, ('#' :: decimal conn.id) <:+ conn.name) ↔
      ∀ k peer, peers[k]? = some peer → peer.2.toIpPort.length + (decimal (k + 1)).length + 2 ≤ 31 := by
  have hbound {k : ℕ} {peer : ℕ × InetAddress} (hpeer : peers[k]? = some peer) : 1 + k < 2 ^ 31 := by
    have := (List.getElem?_eq_some_iff.mp hpeer).1
    omega
  constructor
  · rintro ⟨-, hwhole⟩ k peer hpeer
    have hget := connections_getElem? { name_ := name } peers k
    rw [hpeer, Option.map_some] at hget
    have hsuffix := (name_suffix_iff name peer.2 (hbound hpeer)).mp (hwhole _ (List.mem_of_getElem? hget))
    rwa [connectionText_length, Nat.add_comm 1 k] at hsuffix
  · intro hfits
    have hshort : ∀ k peer, peers[k]? = some peer → (connectionText peer.2.toIpPort (1 + k)).length ≤ 31 := by
      intro k peer hpeer
      rw [connectionText_length, Nat.add_comm 1 k]
      exact hfits k peer hpeer
    refine ⟨names_pairwise hshort, fun conn hconn => ?_⟩
    obtain ⟨k, peer, hpeer, hid, hname⟩ := connections_mem hconn
    rw [hid, hname]
    exact (name_suffix_iff name peer.2 (hbound hpeer)).mpr (hshort k peer hpeer)

def longAddress : InetAddress where
  ip := "2001:db8:1234:5678:9abc:def0:1234:5678".toList
  port := 8080

-- The condition fails for two connections to this address.
theorem names_distinct_iff_long :
    ((({ name_ := ['c'] } : TcpClient).connections [(3, longAddress), (4, longAddress)]).Pairwise (fun x y => x.name ≠ y.name) ∧
        ∀ conn ∈ ({ name_ := ['c'] } : TcpClient).connections [(3, longAddress), (4, longAddress)],
          ('#' :: decimal conn.id) <:+ conn.name) ↔
      ∀ k peer, [(3, longAddress), (4, longAddress)][k]? = some peer →
        peer.2.toIpPort.length + (decimal (k + 1)).length + 2 ≤ 31 :=
  names_distinct_iff ['c'] [(3, longAddress), (4, longAddress)] (by decide)

-- The buffer ends within the address, and both connections get the same name.
theorem names_collide :
    ¬∀ (name : List Char) (peers : List (ℕ × InetAddress)), peers.length < 2 ^ 31 - 1 →
      (({ name_ := name } : TcpClient).connections peers).Pairwise fun x y => x.name ≠ y.name := by
  intro h
  have hpair := h ['c'] [(3, longAddress), (4, longAddress)] (by decide)
  exact absurd hpair (by decide)

end TcpClient

end Networker
