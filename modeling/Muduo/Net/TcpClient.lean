import Muduo.Net.Connector

/-!
# `Muduo.Net.TcpClient`: a connector and its one connection

`muduo/net/TcpClient.cc`, with its functions called in the loop thread. There
`Connector::start` runs `startInLoop` at once.

`connection_` is the `connection` of the connector. It closes in a handler of
its own channel, in a queued `forceClose`, or after a `shutdown()` of
`disconnect` that the peer has answered. In each case `removeConnection` runs
as the close callback, in the same step. The `connectDestroyed` that it queues
does not touch the connector.

A callback of the user can call these functions, too. `connectionCallback_`
runs at the end of `handleWrite`, and before `removeConnection` on the way
down. So a call in it is a call between two steps.
-/

set_option autoImplicit false

namespace Muduo.Net

open Muduo.Lib

/-- The members of `TcpClient` that decide about connecting. -/
structure TcpClient where
  connector : Connector
  retry_ : Bool
  connect_ : Bool
  deriving DecidableEq

namespace TcpClient

open Muduo.Net.Connector (Errno Fault LoopEvent)

/-- `TcpClient(loop, serverAddr, nameArg)`. -/
def ctor : TcpClient := ⟨Connector.ctor, false, true⟩

/-- `connect`. -/
def connect (s : TcpClient) (savedErrno : Errno) : TcpClient :=
  { s with connect_ := true, connector := s.connector.start savedErrno }

/-- `disconnect`. What becomes of the `shutdown()` is up to the peer. -/
def disconnect (s : TcpClient) : TcpClient := { s with connect_ := false }

def stop (s : TcpClient) : TcpClient :=
  { s with connect_ := false, connector := s.connector.stop }

def enableRetry (s : TcpClient) : TcpClient := { s with retry_ := true }

/-- `removeConnection`, after `connection_.reset()`. -/
def removeConnection (s : TcpClient) (savedErrno : Errno) : TcpClient :=
  if s.retry_ && s.connect_ then
    { s with connector := s.connector.restart savedErrno }
  else s

/-! ### The client in its loop -/

/-- `savedErrno` of `inLoop` is for the `restart()` of `removeConnection`. -/
inductive Event where
  | connect (savedErrno : Errno)
  | disconnect
  | stop
  | enableRetry
  | forceClose
  | inLoop (e : LoopEvent) (savedErrno : Errno)
  deriving DecidableEq

def enabled (s : TcpClient) : Event → Bool
  | .connect _ | .disconnect | .stop | .enableRetry => true
  | .forceClose => s.connector.connection.isSome
  | .inLoop e _ => s.connector.enabledLoop e

def step (s : TcpClient) : Event → Except Fault TcpClient
  | .connect savedErrno => return s.connect savedErrno
  | .disconnect => return s.disconnect
  | .stop => return s.stop
  | .enableRetry => return s.enableRetry
  | .forceClose => return { s with connector := s.connector.forceClose }
  | .inLoop e savedErrno => do
      let connector ← s.connector.stepLoop e
      let s' := { s with connector := connector }
      if Connector.hasClosed s.connector connector then return s'.removeConnection savedErrno
      else return s'

/-- The client as a machine. -/
def machine : Machine TcpClient Event Fault where
  enabled s e := enabled s e = true
  step := step

instance (s : TcpClient) (e : Event) : Decidable (machine.enabled s e) :=
  inferInstanceAs (Decidable (enabled s e = true))

/-- `connect()` is called when the connector is in the state `kDisconnected`,
with no channel left of an attempt and no retry timer. A retry timer fires when
no `resetChannel` is outstanding. -/
def InTurn (s : TcpClient) : Event → Prop
  | .connect _ =>
      s.connector.state_ = .kDisconnected ∧ s.connector.channel_ = none ∧ s.connector.timers = []
  | .inLoop e _ => s.connector.FiresAfterReset e
  | _ => True

instance (s : TcpClient) (e : Event) : Decidable (InTurn s e) :=
  match e with
  | .connect _ => inferInstanceAs (Decidable (s.connector.state_ = .kDisconnected ∧
      s.connector.channel_ = none ∧ s.connector.timers = []))
  | .inLoop e _ => inferInstanceAs (Decidable (s.connector.FiresAfterReset e))
  | .disconnect | .stop | .enableRetry | .forceClose => isTrue trivial

end TcpClient

end Muduo.Net
