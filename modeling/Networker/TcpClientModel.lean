import Networker.ConnectorModel
import Networker.DigitStrings

/-!
`net/TcpClient.cpp` over the model of its `Connector`. The functors the client queues
itself (`connectDestroyed`) touch neither of the two, so they may run at any time.
-/

namespace Networker

open CheckedRuns

namespace TcpClient

/-- A `TcpConnection` as far as the client sees it. -/
structure Connection where
  id : ℕ
  name : List Char
  sockfd : ℕ
deriving DecidableEq, Repr

end TcpClient

structure TcpClient where
  name_ : List Char
  connector_ : Connector := {}
  retry_ : Bool := false
  connect_ : Bool := true
  nextConnId_ : ℕ := 1
  connection_ : Option TcpClient.Connection := none
  /-- the connections whose `connectDestroyed` is queued -/
  destroying : List TcpClient.Connection := []

namespace TcpClient

def enableRetry (c : TcpClient) : TcpClient := { c with retry_ := true }

/-- It also shuts the connection down. -/
def disconnect (c : TcpClient) : TcpClient := { c with connect_ := false }

def stop (c : TcpClient) : TcpClient := { c with connect_ := false, connector_ := c.connector_.stop }

def newConnection (c : TcpClient) (sockfd : ℕ) (ipPort : List Char) : TcpClient :=
  let buf := snprintf 32 (':' :: ipPort ++ '#' :: decimal c.nextConnId_)
  { c with
    nextConnId_ := c.nextConnId_ + 1
    connection_ := some { id := c.nextConnId_, name := c.name_ ++ buf, sockfd } }

variable [Build]

def connect (c : TcpClient) (isInLoopThread : Bool) (r : Connector.Attempt) : Exec TcpClient := do
  let connector_ ← c.connector_.start isInLoopThread r
  .ok { c with connect_ := true, connector_ }

def removeConnection (c : TcpClient) (conn : Connection) (r : Connector.Attempt) : Exec TcpClient := do
  assert (c.connection_ = some conn)
  let c := { c with connection_ := none, destroying := c.destroying ++ [conn] }
  if c.retry_ && c.connect_ then
    let connector_ ← c.connector_.restart r
    .ok { c with connector_ }
  else .ok c

/-- `newConnectionCallback_` is the last thing that the handlers of the connecting socket call. -/
def handleEvent (c : TcpClient) (revents : BitVec 32) (o : Connector.Outcome) (ipPort : List Char) :
    Exec TcpClient := do
  let connector_ ← c.connector_.step (.event revents o)
  let t := { c with connector_ }
  if connector_.files.handed.length = c.connector_.files.handed.length then .ok t
  else .ok (t.newConnection ((c.connector_.channel_.map fun ch => ch.fd.toNat).getD 0) ipPort)

inductive Step
  | connect (isInLoopThread : Bool) (r : Connector.Attempt)
  | disconnect
  | stop
  | enableRetry
  | functor (r : Connector.Attempt)
  | timer (i : ℕ) (r : Connector.Attempt)
  | event (revents : BitVec 32) (o : Connector.Outcome) (ipPort : List Char)
  /-- a connection calls its close callback -/
  | removeConnection (conn : Connection) (r : Connector.Attempt)
  /-- `connectDestroyed` runs, and the connection closes its socket -/
  | destroyed (conn : Connection)
deriving DecidableEq, Repr

def step (c : TcpClient) : Step → Exec TcpClient
  | .connect isInLoopThread r => c.connect isInLoopThread r
  | .disconnect => .ok c.disconnect
  | .stop => .ok c.stop
  | .enableRetry => .ok c.enableRetry
  | .functor r => do
    let connector_ ← c.connector_.step (.functor r)
    .ok { c with connector_ }
  | .timer i r => do
    let connector_ ← c.connector_.step (.timer i r)
    .ok { c with connector_ }
  | .event revents o ipPort => c.handleEvent revents o ipPort
  | .removeConnection conn r => c.removeConnection conn r
  | .destroyed conn => do
    let connector_ ← c.connector_.step (.release conn.sockfd)
    .ok { c with connector_, destroying := c.destroying.erase conn }

def Enabled (c : TcpClient) : Step → Prop
  | .connect isInLoopThread r => c.connector_.Enabled (.start isInLoopThread r)
  | .disconnect | .stop | .enableRetry => True
  | .functor r => c.connector_.Enabled (.functor r)
  | .timer i r => c.connector_.Enabled (.timer i r)
  | .event revents o _ => c.connector_.Enabled (.event revents o)
  | .removeConnection _ r => c.connector_.Enabled (.restart r)
  | .destroyed conn => conn ∈ c.destroying ∧ c.connector_.Enabled (.release conn.sockfd)

instance (c : TcpClient) : (i : Step) → Decidable (c.Enabled i)
  | .connect isInLoopThread r => inferInstanceAs (Decidable (c.connector_.Enabled (.start isInLoopThread r)))
  | .disconnect | .stop | .enableRetry => inferInstanceAs (Decidable True)
  | .functor r => inferInstanceAs (Decidable (c.connector_.Enabled (.functor r)))
  | .timer i r => inferInstanceAs (Decidable (c.connector_.Enabled (.timer i r)))
  | .event revents o _ => inferInstanceAs (Decidable (c.connector_.Enabled (.event revents o)))
  | .removeConnection _ r => inferInstanceAs (Decidable (c.connector_.Enabled (.restart r)))
  | .destroyed conn => inferInstanceAs (Decidable (conn ∈ c.destroying ∧ c.connector_.Enabled (.release conn.sockfd)))

end TcpClient

end Networker
