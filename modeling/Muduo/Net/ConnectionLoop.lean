import Muduo.Net.TcpConnection

/-!
# `Muduo.Net.ConnectionLoop`: a connection in the rounds of its loop

`EventLoop::loop` polls, handles the active channels, and runs the pending
functors. This module follows one connection through these rounds, from
its construction on.

Poll reports the connection's channel only when the descriptor is in the
kernel's epoll set, with any `revents`. `Channel::handleEvent` comes later
in the round, after handlers of other channels, and does not look at the
interest set again. It calls the close, the error, the read and the write
handler in this order, each when its bits are set.

The public functions of the connection are called by the loop thread,
from code that belongs to other channels and functors or from the
connection's own callbacks, and by other threads at any moment. Another
thread tests and sets `state_` in one step and pushes its functor in a
later one. Until then the functor is in `inflight`.

The close callback leads through the server to a queued
`connectDestroyed`, once.
-/

set_option autoImplicit false

namespace Muduo.Net

open Muduo.Lib

/-- The handler that `handleEventWithGuard` comes to next. -/
inductive Stage where
  | close
  | error
  | read
  | write
  deriving DecidableEq, Repr

/-- Where the loop is. -/
inductive Phase where
  /-- In `poll`. -/
  | poll
  /-- Handling channels, with this one still to come. -/
  | active (revents : EventMask)
  /-- In `handleEventWithGuard` of this channel. -/
  | dispatch (revents : EventMask) (stage : Stage)
  /-- Handling channels, this one is done or was not reported. -/
  | handlers
  /-- In `doPendingFunctors`, with these functors still to run. -/
  | functors (fs : List TcpConnection.Functor)
  deriving DecidableEq

/-- The loop thread runs code that is not a handler of this channel. -/
def Phase.runsOthers : Phase → Bool
  | .active _ | .handlers | .functors _ => true
  | .poll | .dispatch _ _ => false

open TcpConnection in
/-- A connection and its loop. -/
structure ConnectionLoop where
  conn : TcpConnection
  phase : Phase
  inflight : List Functor
  destroyQueued : Bool

namespace ConnectionLoop

open TcpConnection

inductive Event where
  | connectEstablished (cb : List Call)
  /-- Poll returns, with the `revents` of this channel if it is reported. -/
  | pollReturn (report : Option EventMask)
  | handleEvent
  /-- The next handler of `handleEventWithGuard`: the result of a read,
  what the message callback takes, the outcome of a write, and what the
  user's callback does. -/
  | dispatch (r : Buffer.ReadResult) (taken : Nat) (w : WriteOutcome) (cb : List Call)
  | swap
  | runFunctor (w : WriteOutcome) (cb : List Call)
  | finish
  | call (inLoop : Bool) (k : Call)
  | push (i : Nat)
  | timer
  | queueDestroyed
  deriving DecidableEq

def enabled (s : ConnectionLoop) : Event → Bool
  | .connectEstablished _ => s.phase.runsOthers && s.conn.state_ == .kConnecting
  -- poll reports what is in the epoll set, also with an empty mask
  | .pollReturn report => s.phase == .poll && (report.isNone || s.conn.channel_.epoll.isSome)
  | .handleEvent =>
      match s.phase with
      | .active _ => true
      | _ => false
  | .dispatch _ _ _ _ =>
      match s.phase with
      | .dispatch _ _ => true
      | _ => false
  | .swap => s.phase == .handlers
  | .runFunctor _ _ =>
      match s.phase with
      | .functors (_ :: _) => true
      | _ => false
  | .finish => s.phase == .functors []
  -- user code gets the connection with the first connection callback
  | .call inLoop _ => s.conn.state_ != .kConnecting && (!inLoop || s.phase.runsOthers)
  | .push i => decide (i < s.inflight.length)
  | .timer => s.phase.runsOthers && decide (0 < s.conn.delayed)
  -- `removeConnectionInLoop` comes after the close callback
  | .queueDestroyed => s.conn.log.contains .closeCallback && !s.destroyQueued

/-- What the loop does next, in the words of the connection. -/
def actOf (s : ConnectionLoop) : Event → Option Act
  | .connectEstablished cb => some (.connectEstablished cb)
  | .dispatch r taken w cb =>
      match s.phase with
      | .dispatch revents .close =>
          if Channel.wantsClose revents then some (.handleClose cb) else none
      -- handleError() only reads and logs SO_ERROR
      | .dispatch _ .error => none
      | .dispatch revents .read =>
          if Channel.wantsRead revents then some (.handleRead r taken cb) else none
      | .dispatch revents .write =>
          if Channel.wantsWrite revents then some (.handleWrite w) else none
      | _ => none
  | .runFunctor w cb =>
      match s.phase with
      | .functors (f :: _) => some (.runFunctor f w cb)
      | _ => none
  | .call inLoop k => some (.call inLoop k)
  | .timer => some .delayedForceClose
  | _ => none

/-- Where the loop is after the event. -/
def nextPhase (phase : Phase) (pending : List Functor) : Event → Phase
  | .pollReturn (some revents) => .active revents
  | .pollReturn none => .handlers
  | .handleEvent =>
      match phase with
      | .active revents => .dispatch revents .close
      | p => p
  | .dispatch _ _ _ _ =>
      match phase with
      | .dispatch revents .close => .dispatch revents .error
      | .dispatch revents .error => .dispatch revents .read
      | .dispatch revents .read => .dispatch revents .write
      | .dispatch _ .write => .handlers
      | p => p
  | .swap => .functors pending
  | .runFunctor _ _ =>
      match phase with
      | .functors (_ :: fs) => .functors fs
      | p => p
  | .finish => .poll
  | _ => phase

/-- What an event does to the queue of the loop besides the functions of
the connection. A call of another thread leaves its functor in `inflight`. -/
def requeue (s : ConnectionLoop) (c : TcpConnection) : Event → ConnectionLoop
  | .swap => { s with conn := { c with pendingFunctors_ := [] } }
  | .call false _ =>
      { s with
        conn := { c with pendingFunctors_ := s.conn.pendingFunctors_ }
        inflight := s.inflight ++ c.pendingFunctors_.drop s.conn.pendingFunctors_.length }
  | .push i =>
      match s.inflight[i]? with
      | some f => { s with conn := c.queueInLoop f, inflight := s.inflight.eraseIdx i }
      | none => { s with conn := c }
  | .queueDestroyed => { s with conn := c.queueInLoop .connectDestroyed, destroyQueued := true }
  | _ => { s with conn := c }

def step (s : ConnectionLoop) (e : Event) : Except Fault ConnectionLoop := do
  let c ← match actOf s e with
    | some a => s.conn.act a
    | none => pure s.conn
  return { requeue s c e with phase := nextPhase s.phase s.conn.pendingFunctors_ e }

/-- The connection in its loop as a machine. -/
def machine : Machine ConnectionLoop Event Fault where
  enabled s e := enabled s e = true
  step := step

instance (s : ConnectionLoop) (e : Event) : Decidable (machine.enabled s e) :=
  inferInstanceAs (Decidable (enabled s e = true))

/-- A connection that is constructed and not yet established. -/
def init (writeComplete highWater : Bool) (mark : Nat) : ConnectionLoop :=
  ⟨TcpConnection.ctor writeComplete highWater mark, .handlers, [], false⟩

/-! ### Conditions on the steps -/

/-- The act runs `handleClose` on a connection that is up. -/
def closesBy (c : TcpConnection) : Act → Bool
  | .handleClose _ => c.isUp
  | .handleRead (.delivered bytes) _ _ => c.isUp && bytes.isEmpty
  | .runFunctor .forceCloseInLoop _ _ => c.isUp
  | _ => false

/-- The act is the functor that destroys the connection. -/
def destroysBy : Act → Bool
  | .runFunctor .connectDestroyed _ _ => true
  | _ => false

/-- The calls that the act makes itself or that its callback makes. -/
def callsOf : Act → List Call
  | .call true k => [k]
  | .call false _ => []
  | .connectEstablished cb => cb
  | .handleRead _ _ cb => cb
  | .handleWrite _ => []
  | .handleClose cb => cb
  | .runFunctor f _ cb =>
      match f with
      | .startReadInLoop => [.startRead]
      | .stopReadInLoop => [.stopRead]
      | .sendInLoop _ | .shutdownInLoop => []
      | .forceCloseInLoop | .connectDestroyed | .writeCompleteCallback
      | .highWaterMarkCallback _ => cb
  | .delayedForceClose => []

/-- A call of `startRead` or `stopRead`. -/
def togglesReading : Call → Bool
  | .startRead | .stopRead => true
  | _ => false

/-- A call that changes the poller's entry of a closed connection:
`startRead`, and `stopRead` while `reading_` is set. -/
def wakes (c : TcpConnection) : Call → Bool
  | .startRead => true
  | .stopRead => c.reading_
  | _ => false

/-- What the step executes with the connection down: everything after the
connection is closed, and the callback of the step that closes it. -/
def callsWhenDown (s : ConnectionLoop) (e : Event) : List Call :=
  match actOf s e with
  | some a => if s.conn.state_ = .kDisconnected ∨ closesBy s.conn a = true then callsOf a else []
  | none => []

/-- The step runs `handleClose`. -/
def closes (s : ConnectionLoop) (e : Event) : Bool :=
  match actOf s e with
  | some a => closesBy s.conn a
  | none => false

/-- The kernel never reports `POLLHUP` without `POLLIN` together with
`POLLPRI` or `POLLRDHUP`. -/
def KernelHup (_ : ConnectionLoop) : Event → Prop
  | .pollReturn (some revents) =>
      revents &&& POLLHUP ≠ 0#32 → revents &&& POLLIN = 0#32 →
        revents &&& (POLLPRI ||| POLLRDHUP) = 0#32
  | _ => True

/-- No `startRead` or `stopRead` is executed with the connection down. -/
def NoReadToggleWhenDown (s : ConnectionLoop) (e : Event) : Prop :=
  ∀ k ∈ callsWhenDown s e, togglesReading k = false

/-- Nothing executed with the connection down touches the poller's
entry. -/
def NoWakeWhenDown (s : ConnectionLoop) (e : Event) : Prop :=
  ∀ k ∈ callsWhenDown s e, wakes s.conn k = false

/-- `handleClose` does not run while the channel is out of the epoll
set. -/
def ClosedInSet (s : ConnectionLoop) (e : Event) : Prop :=
  closes s e = true → s.conn.channel_.epoll.isSome = true

/-- No `startRead` or `stopRead` is executed. -/
def NoReadToggle (s : ConnectionLoop) (e : Event) : Prop :=
  ∀ k ∈ (actOf s e).elim [] callsOf, togglesReading k = false

/-- The server keeps the connection: it has not queued
`connectDestroyed`. -/
def KeptByServer (_ : ConnectionLoop) (e : Event) : Prop := e ≠ .queueDestroyed

instance (s : ConnectionLoop) (e : Event) : Decidable (KernelHup s e) :=
  match e with
  | .pollReturn (some revents) => inferInstanceAs (Decidable (revents &&& POLLHUP ≠ 0#32 →
      revents &&& POLLIN = 0#32 → revents &&& (POLLPRI ||| POLLRDHUP) = 0#32))
  | .pollReturn none | .connectEstablished _ | .handleEvent | .dispatch _ _ _ _ | .swap
  | .runFunctor _ _ | .finish | .call _ _ | .push _ | .timer | .queueDestroyed => isTrue trivial

instance (s : ConnectionLoop) (e : Event) : Decidable (NoReadToggleWhenDown s e) :=
  inferInstanceAs (Decidable (∀ k ∈ callsWhenDown s e, togglesReading k = false))

instance (s : ConnectionLoop) (e : Event) : Decidable (NoWakeWhenDown s e) :=
  inferInstanceAs (Decidable (∀ k ∈ callsWhenDown s e, wakes s.conn k = false))

instance (s : ConnectionLoop) (e : Event) : Decidable (ClosedInSet s e) :=
  inferInstanceAs (Decidable (closes s e = true → s.conn.channel_.epoll.isSome = true))

instance (s : ConnectionLoop) (e : Event) : Decidable (NoReadToggle s e) :=
  inferInstanceAs (Decidable (∀ k ∈ (actOf s e).elim [] callsOf, togglesReading k = false))

instance (s : ConnectionLoop) (e : Event) : Decidable (KeptByServer s e) :=
  inferInstanceAs (Decidable (e ≠ .queueDestroyed))

end ConnectionLoop

end Muduo.Net
