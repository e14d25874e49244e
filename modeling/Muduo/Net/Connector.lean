import Muduo.Net.Channel

/-!
# `Muduo.Net.Connector`: attempts to connect

`muduo/net/Connector.cc`, in the rounds of its loop. A round handles the active
channels and the expired timers, and runs the functors that were queued up to
then. `queueInLoop` appends to the queue. What a functor queues is for the next
round.

An `assert` that fails is recorded in `failed`, and the code goes on, as it
does in a release build. In a debug build the process ends there. So what holds
in all runs of the model without a failed `assert` holds in both.

A socket is the number of its `socket()` call. `closed` and `handed` record the
calls of `sockets::close` and of `newConnectionCallback_`, and `overlapping`
counts the calls of `connect()` during another attempt. A `resetChannel` in the
queue has the socket of the channel that it is meant for. No function reads
these.

The connection behind `newConnectionCallback_` is `connection`, with the round
in which it was handed over, until it closes. Its own channel is reported in a
later round only. `forceClose` queues a functor.
-/

set_option autoImplicit false

namespace Muduo.Net

open Muduo.Lib

namespace Connector

/-- `enum States`. -/
inductive States where
  | kDisconnected
  | kConnecting
  | kConnected
  deriving DecidableEq, Repr

/-- `savedErrno` after `connect(2)`. -/
inductive Errno where
  | zero
  | EINPROGRESS
  | EINTR
  | EISCONN
  | EAGAIN
  | EADDRINUSE
  | EADDRNOTAVAIL
  | ECONNREFUSED
  | ENETUNREACH
  | EACCES
  | EPERM
  | EAFNOSUPPORT
  | EALREADY
  | EBADF
  | EFAULT
  | ENOTSOCK
  | other
  deriving DecidableEq, Repr

/-- The channel of an attempt. It is registered until `disableAll` and
`remove`. -/
structure Chan where
  fd : Nat
  registered : Bool
  deriving DecidableEq, Repr

/-- The functors that the connector and the connection queue. -/
inductive Functor where
  | startInLoop
  | stopInLoop
  | resetChannel (fd : Nat)
  | forceCloseInLoop (fd : Nat)
  deriving DecidableEq, Repr

/-- Where the loop is in a round. -/
inductive Phase where
  /-- Before `doPendingFunctors`. -/
  | handling
  /-- In `doPendingFunctors`. -/
  | calling
  deriving DecidableEq, Repr

/-- The `assert`s, by their functions. -/
inductive Assert where
  | startInLoop
  | connecting
  | handleWrite
  deriving DecidableEq, Repr

/-- A null pointer is used. -/
inductive Fault where
  | nullChannel
  deriving DecidableEq, Repr

end Connector

/-- The connector, its loop, and what happened. `functors` is what
`doPendingFunctors` has still to run, and `timers` has the rounds in which the
pending retry timers were set. -/
structure Connector where
  connect_ : Bool
  state_ : Connector.States
  channel_ : Option Connector.Chan
  retryDelayMs_ : Nat
  phase : Connector.Phase
  iteration : Nat
  pendingFunctors_ : List Connector.Functor
  functors : List Connector.Functor
  timers : List Nat
  connection : Option (Nat × Nat)
  created : Nat
  closed : List Nat
  handed : List Nat
  failed : List Connector.Assert
  overlapping : Nat
  deriving DecidableEq

namespace Connector

def kMaxRetryDelayMs : Nat := 30 * 1000

def kInitRetryDelayMs : Nat := 500

/-- `Connector(loop, serverAddr)`. -/
def ctor : Connector where
  connect_ := false
  state_ := .kDisconnected
  channel_ := none
  retryDelayMs_ := kInitRetryDelayMs
  phase := .handling
  iteration := 0
  pendingFunctors_ := []
  functors := []
  timers := []
  connection := none
  created := 0
  closed := []
  handed := []
  failed := []
  overlapping := 0

/-! ### The loop and the system -/

/-- An `assert`. -/
def check (s : Connector) (c : Bool) (a : Assert) : Connector :=
  if c then s else { s with failed := s.failed ++ [a] }

def queueInLoop (s : Connector) (f : Functor) : Connector :=
  { s with pendingFunctors_ := s.pendingFunctors_ ++ [f] }

/-- `sockets::close`. -/
def close (s : Connector) (sockfd : Nat) : Connector :=
  { s with closed := s.closed ++ [sockfd] }

/-- An attempt is in progress: its channel waits for the socket. -/
def inProgress (s : Connector) : Bool :=
  match s.channel_ with
  | some ch => ch.registered
  | none => false

/-! ### The functions of the connector -/

def setState (s : Connector) (state : States) : Connector := { s with state_ := state }

def retry (s : Connector) (sockfd : Nat) : Connector :=
  let s := (s.close sockfd).setState .kDisconnected
  if s.connect_ then
    -- runAfter
    { s with
      timers := s.timers ++ [s.iteration]
      retryDelayMs_ := min (s.retryDelayMs_ * 2) kMaxRetryDelayMs }
  else s

def connecting (s : Connector) (sockfd : Nat) : Connector :=
  let s := s.setState .kConnecting
  let s := s.check s.channel_.isNone .connecting
  -- the callbacks are set, and enableWriting registers the channel
  { s with channel_ := some ⟨sockfd, true⟩ }

def connect (s : Connector) (savedErrno : Errno) : Connector :=
  let sockfd := s.created
  let s := { s with
    created := s.created + 1
    overlapping := if s.inProgress then s.overlapping + 1 else s.overlapping }
  match savedErrno with
  | .zero | .EINPROGRESS | .EINTR | .EISCONN => s.connecting sockfd
  | .EAGAIN | .EADDRINUSE | .EADDRNOTAVAIL | .ECONNREFUSED | .ENETUNREACH => s.retry sockfd
  | .EACCES | .EPERM | .EAFNOSUPPORT | .EALREADY | .EBADF | .EFAULT | .ENOTSOCK => s.close sockfd
  | .other => s.close sockfd

def startInLoop (s : Connector) (savedErrno : Errno) : Connector :=
  let s := s.check (s.state_ == .kDisconnected) .startInLoop
  if s.connect_ then s.connect savedErrno else s

/-- `start`, in the loop thread. -/
def start (s : Connector) (savedErrno : Errno) : Connector :=
  startInLoop { s with connect_ := true } savedErrno

/-- `start`, in another thread. -/
def startElsewhere (s : Connector) : Connector :=
  queueInLoop { s with connect_ := true } .startInLoop

def stop (s : Connector) : Connector :=
  queueInLoop { s with connect_ := false } .stopInLoop

def restart (s : Connector) (savedErrno : Errno) : Connector :=
  startInLoop
    { s.setState .kDisconnected with retryDelayMs_ := kInitRetryDelayMs, connect_ := true }
    savedErrno

def removeAndResetChannel (s : Connector) : Except Fault (Connector × Nat) :=
  match s.channel_ with
  | some ch =>
      .ok (queueInLoop { s with channel_ := some { ch with registered := false } }
        (.resetChannel ch.fd), ch.fd)
  | none => .error .nullChannel

def resetChannel (s : Connector) : Connector := { s with channel_ := none }

def stopInLoop (s : Connector) : Except Fault Connector := do
  if s.state_ = .kConnecting then
    let (s, sockfd) ← (s.setState .kDisconnected).removeAndResetChannel
    return s.retry sockfd
  else return s

/-- `newConnectionCallback_(sockfd)`. -/
def newConnectionCallback (s : Connector) (sockfd : Nat) : Connector :=
  { s with handed := s.handed ++ [sockfd], connection := some (sockfd, s.iteration) }

/-- `handleWrite`, with the results of `getSocketError` and
`isSelfConnect`. -/
def handleWrite (s : Connector) (err : Int) (isSelfConnect : Bool) : Except Fault Connector := do
  if s.state_ = .kConnecting then
    let (s, sockfd) ← s.removeAndResetChannel
    if err ≠ 0 then return s.retry sockfd
    else if isSelfConnect then return s.retry sockfd
    else
      let s := s.setState .kConnected
      if s.connect_ then return s.newConnectionCallback sockfd
      else return s.close sockfd
  else return s.check (s.state_ == .kDisconnected) .handleWrite

/-- `handleError`. It reads the error of the socket only to log it. -/
def handleError (s : Connector) : Except Fault Connector := do
  if s.state_ = .kConnecting then
    let (s, sockfd) ← s.removeAndResetChannel
    return s.retry sockfd
  else return s

/-- `Channel::handleEventWithGuard`, for a channel with an error and a write
callback. -/
def handleEvent (s : Connector) (revents : EventMask) (err : Int) (isSelfConnect : Bool) :
    Except Fault Connector := do
  let s ← if Channel.wantsError revents then s.handleError else pure s
  if Channel.wantsWrite revents then s.handleWrite err isSelfConnect else return s

/-! ### The rounds of the loop -/

/-- The connection closes. -/
def closeConnection (s : Connector) : Connector := { s with connection := none }

/-- `forceClose` of the connection that was handed over. -/
def forceClose (s : Connector) : Connector :=
  match s.connection with
  | some c => s.queueInLoop (.forceCloseInLoop c.1)
  | none => s

inductive LoopEvent where
  | handleEvent (revents : EventMask) (err : Int) (isSelfConnect : Bool)
  /-- A retry timer that was set in this round fires. -/
  | timer (round : Nat) (savedErrno : Errno)
  /-- A handler of the connection closes it. -/
  | closeConnection
  | runFunctor (savedErrno : Errno)
  | endHandling
  | endRound
  deriving DecidableEq

def enabledLoop (s : Connector) : LoopEvent → Bool
  | .handleEvent _ _ _ => s.phase == .handling && s.inProgress
  | .timer round _ => s.phase == .handling && decide (round ∈ s.timers ∧ round < s.iteration)
  | .closeConnection =>
      match s.connection with
      | some c => s.phase == .handling && decide (c.2 < s.iteration)
      | none => false
  | .runFunctor _ => s.phase == .calling && s.functors != []
  | .endHandling => s.phase == .handling
  | .endRound => s.phase == .calling && s.functors == []

/-- The next functor of `doPendingFunctors`. -/
def runFunctor (s : Connector) (savedErrno : Errno) : Except Fault Connector :=
  match s.functors with
  | [] => .ok s
  | f :: rest =>
      let s := { s with functors := rest }
      match f with
      | .startInLoop => .ok (s.startInLoop savedErrno)
      | .stopInLoop => s.stopInLoop
      | .resetChannel _ => .ok s.resetChannel
      | .forceCloseInLoop fd =>
          -- the connection may be closed already
          if s.connection.map Prod.fst = some fd then .ok s.closeConnection else .ok s

def stepLoop (s : Connector) : LoopEvent → Except Fault Connector
  | .handleEvent revents err isSelfConnect => s.handleEvent revents err isSelfConnect
  | .timer round savedErrno =>
      .ok (startInLoop { s with timers := s.timers.erase round } savedErrno)
  | .closeConnection => .ok s.closeConnection
  | .runFunctor savedErrno => s.runFunctor savedErrno
  | .endHandling =>
      .ok { s with phase := .calling, functors := s.pendingFunctors_, pendingFunctors_ := [] }
  | .endRound => .ok { s with phase := .handling, iteration := s.iteration + 1 }

/-- A retry timer fires when no `resetChannel` is outstanding. -/
def FiresAfterReset (s : Connector) : LoopEvent → Prop
  | .timer _ _ => s.channel_ = none
  | _ => True

instance (s : Connector) (e : LoopEvent) : Decidable (FiresAfterReset s e) :=
  match e with
  | .timer _ _ => inferInstanceAs (Decidable (s.channel_ = none))
  | .handleEvent _ _ _ | .closeConnection | .runFunctor _ | .endHandling | .endRound =>
      isTrue trivial

/-! ### A connector in use -/

/-- The connector with what its user has done: `started` after `start()`,
`stopped` after `stop()`, and `restartable` when the connection has closed and
`restart()` has not been called for it. -/
structure Use where
  connector : Connector
  started : Bool
  stopped : Bool
  restartable : Bool
  deriving DecidableEq

inductive Event where
  | start (savedErrno : Errno)
  | startElsewhere
  | stop
  | restart (savedErrno : Errno)
  | forceClose
  | inLoop (e : LoopEvent)
  deriving DecidableEq

/-- `start()` is called once, and `restart()` only when the connection has
closed and never after a `stop()`. -/
def enabled (s : Use) : Event → Bool
  | .start _ => !s.started
  | .startElsewhere => !s.started
  | .stop => true
  | .restart _ => s.restartable && !s.stopped
  | .forceClose => s.connector.connection.isSome
  | .inLoop e => s.connector.enabledLoop e

/-- The connection was there before and is not any more. -/
def hasClosed (s s' : Connector) : Bool := s.connection.isSome && s'.connection.isNone

def step (s : Use) : Event → Except Fault Use
  | .start savedErrno =>
      return { s with connector := s.connector.start savedErrno, started := true }
  | .startElsewhere => return { s with connector := s.connector.startElsewhere, started := true }
  | .stop => return { s with connector := s.connector.stop, stopped := true }
  | .restart savedErrno =>
      return { s with connector := s.connector.restart savedErrno, restartable := false }
  | .forceClose => return { s with connector := s.connector.forceClose }
  | .inLoop e => do
      let connector ← s.connector.stepLoop e
      return { s with
        connector := connector
        restartable := s.restartable || hasClosed s.connector connector }

/-- The connector and its user as a machine. -/
def machine : Machine Use Event Fault where
  enabled s e := enabled s e = true
  step := step

instance (s : Use) (e : Event) : Decidable (machine.enabled s e) :=
  inferInstanceAs (Decidable (enabled s e = true))

/-- A new connector. -/
def init : Use := ⟨ctor, false, false, false⟩

/-- A retry timer fires when no `resetChannel` is outstanding. -/
def TimersInTime (s : Use) : Event → Prop
  | .inLoop e => s.connector.FiresAfterReset e
  | _ => True

instance (s : Use) (e : Event) : Decidable (TimersInTime s e) :=
  match e with
  | .inLoop e => inferInstanceAs (Decidable (s.connector.FiresAfterReset e))
  | .start _ | .startElsewhere | .stop | .restart _ | .forceClose => isTrue trivial

/-- The places that have this socket: `closed` and `handed` as often as they
have it, and the channel of an attempt in progress. -/
def places (s : Connector) (fd : Nat) : Nat :=
  s.closed.count fd + s.handed.count fd
    + (if s.state_ = .kConnecting ∧ s.channel_ = some ⟨fd, true⟩ then 1 else 0)

end Connector

end Muduo.Net
