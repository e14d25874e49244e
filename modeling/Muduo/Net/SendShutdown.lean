import Muduo.Net.TcpConnection

/-!
# `Muduo.Net.SendShutdown`: a thread that sends and then shuts down

One established connection, its loop thread, and one other thread. The
other thread calls `send` any number of times and then `shutdown`. Each
call reads `state_` first and acts on what it read in later steps, so the
loop thread can run between any two of them:

- `send` reads `state_`, then pushes a `sendInLoop` functor;
- `shutdown` reads `state_`, then sets it, then pushes a `shutdownInLoop`
  functor.

The loop thread handles write events and sends of its own. From time to
time it swaps `pendingFunctors_` into a local vector and runs the functors
in it, one after the other. A callback functor runs user code that sends.

There is no socket error and no close: a `::write` accepts some bytes or
would block.
-/

set_option autoImplicit false

namespace Muduo.Net.SendShutdown

open Muduo.Base
open Muduo.Lib
open TcpConnection

/-- Where the other thread is. -/
inductive Thread where
  /-- Between two calls. -/
  | idle
  /-- In `send`, which found `kConnected`. -/
  | sending (message : StdString)
  /-- In `shutdown`, which found `kConnected`. -/
  | shutting
  /-- In `shutdown`, after `setState(kDisconnecting)`. -/
  | shut
  /-- `shutdown` has returned. -/
  | done
  deriving DecidableEq

/-- The two threads and the connection. `functors` is the local vector of
`doPendingFunctors` while it runs. `posted` and `executed` record the
messages of the other thread's functors, at the push and at the
execution. -/
structure System where
  conn : TcpConnection
  functors : Option (List Functor)
  thread : Thread
  posted : List StdString
  executed : List StdString

/-- The outcome of a `::write` without a socket error. -/
def isQuiet : WriteOutcome → Bool
  | .accept _ => true
  | .fail e => e == .EWOULDBLOCK

/-- A callback that only sends. -/
def onlySends (cb : List Call) : Bool :=
  cb.all fun
    | .send _ w => isQuiet w
    | _ => false

inductive Event where
  -- the other thread
  | sendCheck (message : StdString)
  | sendPush
  | shutdownCheck
  | shutdownSet
  | shutdownPush
  -- the loop thread
  | handleWrite (w : WriteOutcome)
  | loopSend (message : StdString) (w : WriteOutcome)
  | swap
  | runFunctor (w : WriteOutcome) (cb : List Call)
  | finish
  deriving DecidableEq

def enabled (s : System) : Event → Bool
  | .sendCheck _ => s.thread == .idle
  | .sendPush =>
      match s.thread with
      | .sending _ => true
      | _ => false
  | .shutdownCheck => s.thread == .idle
  | .shutdownSet => s.thread == .shutting
  | .shutdownPush => s.thread == .shut
  | .handleWrite w => s.functors == none && isQuiet w
  | .loopSend _ w => isQuiet w
  | .swap => s.functors == none
  | .runFunctor w cb =>
      match s.functors with
      | some (_ :: _) => isQuiet w && onlySends cb
      | _ => false
  | .finish => s.functors == some []

/-- The message of a `sendInLoop` functor. -/
def message? : Functor → Option StdString
  | .sendInLoop message => some message
  | _ => none

/-- The messages of the queued `sendInLoop` functors. -/
def messages (fs : List Functor) : List StdString := fs.filterMap message?

/-- The functors that are still to run, in order. -/
def System.queue (s : System) : List Functor := s.functors.getD [] ++ s.conn.pendingFunctors_

def step (s : System) : Event → Except Fault System
  | .sendCheck message =>
      return if s.conn.state_ = .kConnected then { s with thread := .sending message } else s
  | .sendPush =>
      match s.thread with
      | .sending message =>
          return { s with conn := s.conn.queueInLoop (.sendInLoop message), thread := .idle,
                          posted := s.posted ++ [message] }
      | _ => return s
  | .shutdownCheck =>
      return { s with thread := if s.conn.state_ = .kConnected then .shutting else .done }
  | .shutdownSet =>
      return { s with conn := { s.conn with state_ := .kDisconnecting }, thread := .shut }
  | .shutdownPush => return { s with conn := s.conn.queueInLoop .shutdownInLoop, thread := .done }
  | .handleWrite w => do
      let c ← s.conn.handleWrite w
      return { s with conn := c }
  | .loopSend message w => do
      let c ← s.conn.send true message w
      return { s with conn := c }
  | .swap =>
      return { s with conn := { s.conn with pendingFunctors_ := [] },
                      functors := some s.conn.pendingFunctors_ }
  | .runFunctor w cb =>
      match s.functors with
      | some (f :: fs) => do
          let c ← s.conn.runFunctor f w cb
          return { s with conn := c, functors := some fs,
                          executed := s.executed ++ (message? f).toList }
      | _ => return s
  | .finish => return { s with functors := none }

/-- The system as a machine. -/
def system : Machine System Event Fault where
  enabled s e := enabled s e = true
  step := step

instance (s : System) (e : Event) : Decidable (system.enabled s e) :=
  inferInstanceAs (Decidable (enabled s e = true))

/-- The loop polls, the other thread has called nothing yet. -/
def init (c : TcpConnection) : System := ⟨c, none, .idle, [], []⟩

/-- The write event empties the output buffer. -/
def drains (w : WriteOutcome) (c : TcpConnection) : Bool :=
  match w with
  | .accept n => c.channel_.isWriting && decide (c.outputBuffer_.readable.length ≤ n)
  | .fail _ => false

/-- No write event drains the output buffer of a connection in
`kDisconnecting` while a `sendInLoop` functor waits in the queue. -/
def NoEarlyDrain (s : System) : Event → Prop
  | .handleWrite w =>
      s.conn.state_ = .kDisconnecting → drains w s.conn = true → messages s.queue = []
  | _ => True

instance (s : System) (e : Event) : Decidable (NoEarlyDrain s e) :=
  match e with
  | .handleWrite w => inferInstanceAs (Decidable
      (s.conn.state_ = .kDisconnecting → drains w s.conn = true → messages s.queue = []))
  | .sendCheck _ | .sendPush | .shutdownCheck | .shutdownSet | .shutdownPush | .loopSend _ _
  | .swap | .runFunctor _ _ | .finish => isTrue trivial

end Muduo.Net.SendShutdown
