import Networker.ConnectionLifecycle

/-!
Who holds a `TcpConnectionPtr`, and what is bound to the raw `this` instead: the
owner's `connections_`, the functors of the two loops, the guard of
`Channel::handleEvent` and user code. A call from another thread checks
`state_` first and reaches `queueInLoop` later; other steps come in between.
-/

namespace Networker

open CheckedRuns

/-- Bound to `this`. The other functors hold a `TcpConnectionPtr`. -/
def Functor.isRaw : Functor → Bool
  | .sendInLoop _ | .shutdownInLoop | .startReadInLoop => true
  | .forceCloseInLoop | .connectDestroyed | .writeCompleteCallback | .highWaterMarkCallback _ => false

structure Owned where
  conn : TcpConnection
  /-- the `TcpConnectionPtr`s of user code, one of them for each call another thread is in -/
  users : ℕ := 0
  /-- the functors of calls that have checked `state_` and not yet reached `queueInLoop` -/
  held : List Functor := []
  /-- the functors of the batch that were run; they live as long as the vector -/
  executed : List Functor := []
  /-- `Channel::handleEvent` holds the `guard` it locked -/
  guarded : Bool := false

namespace Owned

/-- `connections_` holds the connection until `removeConnectionInLoop`. -/
def inMap (o : Owned) : Bool := !decide (.removeConnection ∈ o.conn.trace)

/-- The functors `removeConnectionInLoop` that wait in the owner's loop. -/
def removals (o : Owned) : ℕ := o.conn.trace.count .closeCallback - o.conn.trace.count .removeConnection

/-- The `use_count` of the connection. -/
def references (o : Owned) : ℕ :=
  o.inMap.toNat + o.removals + o.users + o.guarded.toNat +
    (o.conn.queue ++ o.executed ++ o.held).countP (!·.isRaw)

inductive Step
  /-- a step of the loop thread, or the owner's `removeConnection` -/
  | loop (s : TcpConnection.Step)
  /-- another thread's call, up to its `queueInLoop` -/
  | call (call : TcpConnection.Call)
  | queueInLoop (i : ℕ)
  | handleEventReturns
  | acquire
  | release
deriving DecidableEq, Repr

/-- The functor that is being run. -/
def current (o : Owned) : Option Functor := if o.conn.functors.isSome then o.executed.getLast? else none

section Machine

variable [Build]

def step (o : Owned) : Step → Exec Owned
  | .loop (.event revents) => do
    let conn ← o.conn.step (.event revents)
    .ok { o with conn, guarded := true }
  | .loop (.functor w) => do
    let conn ← o.conn.step (.functor w)
    match (o.conn.functors.getD []).head? with
    | some f => .ok { o with conn, executed := o.executed ++ [f] }
    | none => .ok { o with conn, executed := [] }
  | .loop .delayedClose =>
    -- `WeakCallback`: where the connection is gone, the timer does nothing
    if o.references = 0 then
      .ok { o with conn := { o.conn with delayedCloses := o.conn.delayedCloses - 1 } }
    else do
      let conn ← o.conn.step .delayedClose
      .ok { o with conn }
  | .loop s => do
    let conn ← o.conn.step s
    .ok { o with conn }
  | .call call => do
    let conn ← o.conn.call false call
    .ok { o with
      conn := { conn with pendingFunctors := o.conn.pendingFunctors }
      held := o.held ++ conn.pendingFunctors.drop o.conn.pendingFunctors.length }
  | .queueInLoop i =>
    .ok ((o.held[i]?.map fun f => { o with conn := o.conn.queueInLoop f, held := o.held.eraseIdx i }).getD o)
  | .handleEventReturns => .ok { o with guarded := false }
  | .acquire => .ok { o with users := o.users + 1 }
  | .release => .ok { o with users := o.users - 1 }

end Machine

/-- User code on the loop thread is in a callback or has a pointer of its own; another thread's call has a pointer
for as long as it lasts, and pointers are copied from pointers. -/
def Enabled (o : Owned) : Step → Prop
  | .loop s => o.conn.Enabled s ∧
    match s with
    | .call onLoop _ => onLoop = true ∧
        (o.held.length < o.users ∨ o.guarded = true ∨ ∃ f ∈ o.current, f.isRaw = false)
    | .event _ | .delayedClose | .doPendingFunctors => o.guarded = false
    | .task _ _ | .removeConnection | .functor _ => True
    | .destroy => False
  | .call _ => o.held.length < o.users
  | .queueInLoop i => i < o.held.length
  | .handleEventReturns => o.guarded = true ∧ o.conn.tasks = []
  | .acquire => 0 < o.references
  | .release => o.held.length < o.users

instance (o : Owned) : (s : Step) → Decidable (o.Enabled s)
  | .loop (.call _ _) => inferInstanceAs (Decidable (_ ∧ _ ∧ (_ ∨ _ ∨ ∃ f ∈ o.current, _)))
  | .loop (.event _) | .loop .delayedClose | .loop .doPendingFunctors => inferInstanceAs (Decidable (_ ∧ _))
  | .loop (.task _ _) | .loop .removeConnection | .loop (.functor _) => inferInstanceAs (Decidable (_ ∧ True))
  | .loop .destroy => inferInstanceAs (Decidable (_ ∧ False))
  | .call _ | .queueInLoop _ | .acquire | .release => inferInstanceAs (Decidable (_ < _))
  | .handleEventReturns => inferInstanceAs (Decidable (_ ∧ _))

/-- The step reads or writes the connection or its channel. -/
def Touches (o : Owned) : Step → Prop
  | .loop (.functor _) => o.conn.functors.getD [] ≠ []
  | .loop .delayedClose | .loop .doPendingFunctors | .acquire | .release => False
  | .loop (.call _ _) | .loop (.event _) | .loop (.task _ _) | .loop .removeConnection | .loop .destroy
  | .call _ | .queueInLoop _ | .handleEventReturns => True

instance (o : Owned) : (s : Step) → Decidable (o.Touches s)
  | .loop (.functor _) => inferInstanceAs (Decidable (_ ≠ _))
  | .loop .delayedClose | .loop .doPendingFunctors | .acquire | .release => inferInstanceAs (Decidable False)
  | .loop (.call _ _) | .loop (.event _) | .loop (.task _ _) | .loop .removeConnection | .loop .destroy
  | .call _ | .queueInLoop _ | .handleEventReturns => inferInstanceAs (Decidable True)

/-- The steps of a run in which a call's functor reaches the queue before the owner lets the connection go, where it
is bound to `this`. -/
def InTime (o : Owned) : Step → Prop
  | .loop s => o.conn.ClosesOnce s
  | .queueInLoop i => (∃ f ∈ o.held[i]?, f.isRaw = true) → o.inMap = true
  | .call _ | .handleEventReturns | .acquire | .release => True

instance (o : Owned) : (s : Step) → Decidable (o.InTime s)
  | .loop s => inferInstanceAs (Decidable (o.conn.ClosesOnce s))
  | .queueInLoop i => inferInstanceAs (Decidable ((∃ f ∈ o.held[i]?, _) → _))
  | .call _ | .handleEventReturns | .acquire | .release => inferInstanceAs (Decidable True)

end Owned

end Networker
