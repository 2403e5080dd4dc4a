import Networker.ChannelModel

/-!
`net/poller/PollPoller.cpp` and `net/poller/EPollPoller.cpp` behind the interface
of `net/Poller.h`. Channels live at addresses. A wait is given the answer of the
kernel: `poll(2)` fills in the `revents` of every entry, `epoll_wait(2)` reports
descriptors of its interest list with the pointer they were registered with.
-/

namespace Networker

open CheckedRuns

abbrev ChannelHeap := ℕ → Channel

def ChannelHeap.set (heap : ChannelHeap) (ch : ℕ) (c : Channel) : ChannelHeap :=
  fun r => if r = ch then c else heap r

abbrev ChannelMap := ℤ → Option ℕ

def ChannelMap.set (m : ChannelMap) (fd : ℤ) (ch : Option ℕ) : ChannelMap :=
  fun k => if k = fd then ch else m k

structure PollFd where
  fd : ℤ
  events : BitVec 16
  revents : BitVec 16 := 0
deriving DecidableEq, Repr

structure PollPoller where
  channels : ChannelMap := fun _ => none
  pollfds : List PollFd := []

structure EPollPoller where
  channels : ChannelMap := fun _ => none
  /-- the interest list of `epollfd_`: `data.ptr` and `events` -/
  interest : ℤ → Option (ℕ × BitVec 32) := fun _ => none
  /-- `events_.size()`, at first `kInitEventListSize` -/
  events : ℕ := 26

namespace PollPoller

variable [Build]

def updateChannel (p : PollPoller) (heap : ChannelHeap) (ch : ℕ) : Exec (PollPoller × ChannelHeap) := do
  let c := heap ch
  if c.index < 0 then
    assert (p.channels c.fd = none)
    let pollfds := p.pollfds ++ [⟨c.fd, c.events.truncate 16, 0⟩]
    .ok (⟨p.channels.set c.fd (some ch), pollfds⟩, heap.set ch { c with index := pollfds.length - 1 })
  else
    assert (p.channels c.fd ≠ none)
    assert (p.channels c.fd = some ch)
    assert (c.index < p.pollfds.length)
    match p.pollfds[c.index.toNat]? with
    | none => .error .undefined
    | some pfd =>
      assert (pfd.fd = c.fd ∨ pfd.fd = -c.fd - 1)
      let fd := if c.isNoneEvent then -c.fd - 1 else c.fd
      .ok ({ p with pollfds := p.pollfds.set c.index.toNat ⟨fd, c.events.truncate 16, 0⟩ }, heap)

def removeChannel (p : PollPoller) (heap : ChannelHeap) (ch : ℕ) : Exec (PollPoller × ChannelHeap) := do
  let c := heap ch
  assert (p.channels c.fd ≠ none)
  assert (p.channels c.fd = some ch)
  assert (c.isNoneEvent = true)
  assert (0 ≤ c.index ∧ c.index < p.pollfds.length)
  if c.index < 0 then .error .undefined
  else
    let idx := c.index.toNat
    match p.pollfds[idx]?, p.pollfds.getLast? with
    | some pfd, some back =>
      assert (pfd.fd = -c.fd - 1 ∧ pfd.events.signExtend 32 = c.events)
      let channels := p.channels.set c.fd none
      if idx = p.pollfds.length - 1 then .ok (⟨channels, p.pollfds.dropLast⟩, heap)
      else
        let channelAtEnd := if back.fd < 0 then -back.fd - 1 else back.fd
        match channels channelAtEnd with
        | none => .error .undefined
        | some last =>
          .ok (⟨channels, (p.pollfds.set idx back).dropLast⟩, heap.set last { heap last with index := idx })
    | _, _ => .error .undefined

def fillActiveChannels (p : PollPoller) (heap : ChannelHeap) : List PollFd → ℕ → Exec (List ℕ)
  | [], _ => .ok []
  | pfd :: pfds, numEvents =>
    if numEvents = 0 then .ok []
    else if 0 < pfd.revents.toInt then do
      assert (p.channels pfd.fd ≠ none)
      match p.channels pfd.fd with
      | none => .error .undefined
      | some ch =>
        assert ((heap ch).fd = pfd.fd)
        let rest ← fillActiveChannels p heap pfds (numEvents - 1)
        .ok (ch :: rest)
    else fillActiveChannels p heap pfds numEvents

/-- `revents` has the kernel's answer for each entry. -/
def poll (p : PollPoller) (heap : ChannelHeap) (revents : List (BitVec 16)) : Exec (PollPoller × List ℕ) := do
  let pollfds := p.pollfds.zipWith (fun pfd r => { pfd with revents := r }) revents
  let numEvents := pollfds.countP (fun pfd => pfd.revents ≠ 0)
  let p := { p with pollfds }
  if 0 < numEvents then
    let active ← p.fillActiveChannels heap pollfds numEvents
    .ok (p, active)
  else .ok (p, [])

end PollPoller

namespace EPollPoller

inductive Operation
  | add
  | mod
  | del
deriving DecidableEq, Repr

/-- `epoll_ctl(2)` fails for a descriptor that is there already, or is not; a failed `DEL` is only logged. -/
def update (p : EPollPoller) (operation : Operation) (ch : ℕ) (c : Channel) : Exec EPollPoller :=
  match operation, p.interest c.fd with
  | .add, none | .mod, some _ =>
    .ok { p with interest := fun fd => if fd = c.fd then some (ch, c.events) else p.interest fd }
  | .add, some _ | .mod, none => .error .abort
  | .del, _ => .ok { p with interest := fun fd => if fd = c.fd then none else p.interest fd }

variable [Build]

def updateChannel (p : EPollPoller) (heap : ChannelHeap) (ch : ℕ) : Exec (EPollPoller × ChannelHeap) := do
  let c := heap ch
  if c.index = kNew then
    assert (p.channels c.fd = none)
    let p := { p with channels := p.channels.set c.fd (some ch) }
    let c := { c with index := kAdded }
    let p ← p.update .add ch c
    .ok (p, heap.set ch c)
  else if c.index = kDeleted then
    assert (p.channels c.fd ≠ none)
    assert (p.channels c.fd = some ch)
    let c := { c with index := kAdded }
    let p ← p.update .add ch c
    .ok (p, heap.set ch c)
  else
    assert (p.channels c.fd ≠ none)
    assert (p.channels c.fd = some ch)
    assert (c.index = kAdded)
    if c.isNoneEvent then
      let p ← p.update .del ch c
      .ok (p, heap.set ch { c with index := kDeleted })
    else
      let p ← p.update .mod ch c
      .ok (p, heap)

def removeChannel (p : EPollPoller) (heap : ChannelHeap) (ch : ℕ) : Exec (EPollPoller × ChannelHeap) := do
  let c := heap ch
  assert (p.channels c.fd ≠ none)
  assert (p.channels c.fd = some ch)
  assert (c.isNoneEvent = true)
  assert (c.index = kAdded ∨ c.index = kDeleted)
  let p := { p with channels := p.channels.set c.fd none }
  let p ← if c.index = kAdded then p.update .del ch c else .ok p
  .ok (p, heap.set ch { c with index := kNew })

def fillActiveChannels (p : EPollPoller) (heap : ChannelHeap) :
    List (ℕ × BitVec 32) → Exec (ChannelHeap × List ℕ)
  | [] => .ok (heap, [])
  | (ch, events) :: rest => do
    assert (p.channels (heap ch).fd ≠ none)
    assert (p.channels (heap ch).fd = some ch)
    let (heap, active) ← fillActiveChannels p (heap.set ch { heap ch with revents := events }) rest
    .ok (heap, ch :: active)

/-- The entries of `events_` that the kernel fills in for the descriptors it reports. -/
def eventsOf (p : EPollPoller) (ready : List (ℤ × BitVec 32)) : List (ℕ × BitVec 32) :=
  ready.filterMap fun x => (p.interest x.1).map fun entry => (entry.1, x.2)

def poll (p : EPollPoller) (heap : ChannelHeap) (ready : List (ℤ × BitVec 32)) :
    Exec (EPollPoller × ChannelHeap × List ℕ) := do
  let events := p.eventsOf ready
  if 0 < events.length then
    assert (events.length ≤ p.events)
    let (heap, active) ← p.fillActiveChannels heap events
    .ok (if events.length = p.events then { p with events := p.events * 2 } else p, heap, active)
  else .ok (p, heap, [])

end EPollPoller

inductive Poller
  | poll (p : PollPoller)
  | epoll (p : EPollPoller)

inductive Wait
  | poll (revents : List (BitVec 16))
  | epoll (ready : List (ℤ × BitVec 32))
  | failed
deriving DecidableEq, Repr

structure Polling where
  heap : ChannelHeap
  poller : Poller

namespace Polling

/-- No channel is registered yet; `fd` gives every channel its descriptor. -/
def newPollPoller (fd : ℕ → ℤ) : Polling := ⟨fun ch => { fd := fd ch }, .poll {}⟩

def newEPollPoller (fd : ℕ → ℤ) : Polling := ⟨fun ch => { fd := fd ch }, .epoll {}⟩

def channels (s : Polling) : ChannelMap :=
  match s.poller with
  | .poll p => p.channels
  | .epoll p => p.channels

inductive Step
  | change (ch : ℕ) (interest : Channel.Interest)
  | remove (ch : ℕ)
  | wait (answer : Wait)
deriving DecidableEq, Repr

variable [Build]

def updateChannel (s : Polling) (ch : ℕ) : Exec Polling :=
  match s.poller with
  | .poll p => do
    let (p, heap) ← p.updateChannel s.heap ch
    .ok ⟨heap, .poll p⟩
  | .epoll p => do
    let (p, heap) ← p.updateChannel s.heap ch
    .ok ⟨heap, .epoll p⟩

def removeChannel (s : Polling) (ch : ℕ) : Exec Polling :=
  match s.poller with
  | .poll p => do
    let (p, heap) ← p.removeChannel s.heap ch
    .ok ⟨heap, .poll p⟩
  | .epoll p => do
    let (p, heap) ← p.removeChannel s.heap ch
    .ok ⟨heap, .epoll p⟩

/-- `enableReading()` and its siblings, with `Channel::update`. -/
def change (s : Polling) (ch : ℕ) (interest : Channel.Interest) : Exec Polling :=
  let c := s.heap ch
  let heap := s.heap.set ch { c with events := interest.mask c.events, addedToLoop := true }
  updateChannel { s with heap } ch

def remove (s : Polling) (ch : ℕ) : Exec Polling := do
  let c := s.heap ch
  assert (c.isNoneEvent = true)
  removeChannel { s with heap := s.heap.set ch { c with addedToLoop := false } } ch

/-- `poll()` and the list of active channels. -/
def wait (s : Polling) : Wait → Exec (Polling × List ℕ)
  | .failed => .ok (s, [])
  | .poll revents =>
    match s.poller with
    | .poll p => do
      let (p, active) ← p.poll s.heap revents
      .ok (⟨s.heap, .poll p⟩, active)
    | .epoll _ => .ok (s, [])
  | .epoll ready =>
    match s.poller with
    | .epoll p => do
      let (p, heap, active) ← p.poll s.heap ready
      .ok (⟨heap, .epoll p⟩, active)
    | .poll _ => .ok (s, [])

def step (s : Polling) : Step → Exec Polling
  | .change ch interest => s.change ch interest
  | .remove ch => s.remove ch
  | .wait answer => do
    let (s, _) ← s.wait answer
    .ok s

end Polling

end Networker
