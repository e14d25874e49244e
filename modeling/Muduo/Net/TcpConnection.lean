import Muduo.Net.Buffer
import Muduo.Net.Channel

/-!
# `Muduo.Net.TcpConnection`: one connection in its event loop

The functions of `muduo/net/TcpConnection.cc`, on a record of the members
they use. Three members stand for the surroundings of the object:

- `pendingFunctors_` is the loop's queue, restricted to this connection's
  functors, and `delayed` counts the timers `forceCloseWithDelay` set;
- `log` is the sequence of observable effects so far, which no function
  reads.

The kernel decides the outcome of a system call, so a function that makes
one takes the outcome as an argument. `::write` accepts at most the bytes
it is offered.

A callback of the user runs in the loop thread in the middle of a handler
and can call back into the connection. The handler takes the list of the
calls it makes (`List Call`). User code does not touch `outputBuffer()`;
from the input buffer it takes some number of bytes.

`state_` is a plain member that other threads also test and set. A call
such as `shutdown()` is one step here, its test and its set together.
-/

set_option autoImplicit false

namespace Muduo.Net

open Muduo.Base
open Muduo.Lib

/-- The values of `errno` the sources tell apart. -/
inductive Errno where
  | EWOULDBLOCK
  | EPIPE
  | ECONNRESET
  | other
  deriving DecidableEq, Repr

/-- What the kernel does with a `::write`: it is ready to take `n` bytes,
or it fails. -/
inductive WriteOutcome where
  | accept (n : Nat)
  | fail (e : Errno)
  deriving DecidableEq, Repr

/-- `sockets::write`: the number of bytes taken, or `-1` with `errno`. -/
def sockets.write (w : WriteOutcome) (data : List UInt8) : Except Errno Nat :=
  match w with
  | .accept n => .ok (min n data.length)
  | .fail e => .error e

namespace TcpConnection

inductive StateE where
  | kDisconnected
  | kConnecting
  | kConnected
  | kDisconnecting
  deriving DecidableEq, Repr

/-- What a connection puts into the queue of its loop. -/
inductive Functor where
  | sendInLoop (message : StdString)
  | shutdownInLoop
  | forceCloseInLoop
  | startReadInLoop
  | stopReadInLoop
  | connectDestroyed
  | writeCompleteCallback
  | highWaterMarkCallback (len : Nat)
  deriving DecidableEq

/-- The observable effects of a connection. `sent` marks a `sendInLoop`
that found the connection not disconnected. `wrote` holds the bytes the
kernel accepted. `directFault` is a direct write in `sendInLoop` that
failed with `EPIPE` or `ECONNRESET`. `shutdownWrite` comes with the state
and the unsent bytes at the moment of the call. -/
inductive Effect where
  | sent (message : StdString)
  | wrote (bytes : List UInt8)
  | directFault
  | shutdownWrite (state : StateE) (unsent : List UInt8)
  | connectionCallback (state : StateE)
  | messageCallback
  | closeCallback
  deriving DecidableEq

/-- What stops a function: a failed `assert`, named by its function, or a
fault of a buffer or of the channel. -/
inductive Fault where
  | sendInLoop
  | connectEstablished
  | handleClose
  | dtor
  | buffer (f : Buffer.Fault)
  | channel (f : Channel.Fault)
  deriving DecidableEq, Repr

end TcpConnection

open TcpConnection in
/-- `TcpConnection`. A callback member is `true` when it is set. -/
structure TcpConnection where
  state_ : StateE
  reading_ : Bool
  channel_ : Channel
  inputBuffer_ : Buffer
  outputBuffer_ : Buffer
  writeCompleteCallback_ : Bool
  highWaterMarkCallback_ : Bool
  highWaterMark_ : Nat
  pendingFunctors_ : List Functor
  delayed : Nat
  log : List Effect
  deriving DecidableEq

namespace TcpConnection

/-- `TcpConnection(loop, name, sockfd, ...)`, with the callbacks that
`newConnection` sets. -/
def ctor (writeCompleteCallback highWaterMarkCallback : Bool) (highWaterMark : Nat) :
    TcpConnection where
  state_ := .kConnecting
  reading_ := true
  channel_ := Channel.ctor
  inputBuffer_ := Buffer.default
  outputBuffer_ := Buffer.default
  writeCompleteCallback_ := writeCompleteCallback
  highWaterMarkCallback_ := highWaterMarkCallback
  highWaterMark_ := highWaterMark
  pendingFunctors_ := []
  delayed := 0
  log := []

/-- `~TcpConnection`. -/
def dtor (c : TcpConnection) : Except Fault Unit :=
  assertThat (c.state_ = .kDisconnected) .dtor

/-- The connection is in one of the two states in which it is up. -/
def isUp (c : TcpConnection) : Bool := c.state_ == .kConnected || c.state_ == .kDisconnecting

/-- Records an effect. -/
def emit (c : TcpConnection) (e : Effect) : TcpConnection := { c with log := c.log ++ [e] }

/-- `loop_->queueInLoop(f)`. -/
def queueInLoop (c : TcpConnection) (f : Functor) : TcpConnection :=
  { c with pendingFunctors_ := c.pendingFunctors_ ++ [f] }

/-- An operation on `channel_`. -/
def onChannel (c : TcpConnection) (f : Channel → Except Channel.Fault Channel) :
    Except Fault TcpConnection := do
  let ch ← (f c.channel_).mapError .channel
  return { c with channel_ := ch }

/-- An operation on `outputBuffer_`. -/
def onOutput (c : TcpConnection) (f : Buffer → Except Buffer.Fault Buffer) :
    Except Fault TcpConnection := do
  let b ← (f c.outputBuffer_).mapError .buffer
  return { c with outputBuffer_ := b }

/-! ### Sending -/

/-- The locals of `sendInLoop` after the attempt to write directly. -/
structure DirectWrite where
  conn : TcpConnection
  nwrote : Nat
  remaining : Nat
  faultError : Bool

/-- The first half of `sendInLoop`: the direct write, tried when nothing
is queued for writing. -/
def writeDirectly (c : TcpConnection) (data : List UInt8) (w : WriteOutcome) : DirectWrite :=
  -- if nothing in output queue, try writing directly
  if !c.channel_.isWriting && c.outputBuffer_.readableBytes == 0 then
    match sockets.write w data with
    | .ok nwrote =>
        let remaining := subSize data.length nwrote
        let c := c.emit (.wrote (data.take nwrote))
        if remaining == 0 && c.writeCompleteCallback_ then
          ⟨c.queueInLoop .writeCompleteCallback, nwrote, remaining, false⟩
        else ⟨c, nwrote, remaining, false⟩
    | .error e =>
        -- other errors are logged, and the message is buffered as a whole
        if e != .EWOULDBLOCK && (e == .EPIPE || e == .ECONNRESET) then
          ⟨c.emit .directFault, 0, data.length, true⟩
        else ⟨c, 0, data.length, false⟩
  else ⟨c, 0, data.length, false⟩

/-- The high water mark test of `sendInLoop`. -/
def checkHighWaterMark (c : TcpConnection) (remaining : Nat) : TcpConnection :=
  let oldLen := c.outputBuffer_.readableBytes
  if c.highWaterMark_ ≤ addSize oldLen remaining ∧ oldLen < c.highWaterMark_ ∧
      c.highWaterMarkCallback_ then
    c.queueInLoop (.highWaterMarkCallback (addSize oldLen remaining))
  else c

/-- The second half of `sendInLoop`: what was not written goes to the
output buffer. -/
def bufferRest (d : DirectWrite) (data : List UInt8) : Except Fault TcpConnection := do
  if !d.faultError && 0 < d.remaining then
    let c := d.conn.checkHighWaterMark d.remaining
    let c ← c.onOutput (·.append (slice data d.nwrote d.remaining))
    if !c.channel_.isWriting then c.onChannel Channel.enableWriting else return c
  else return d.conn

def sendInLoop (message : StdString) (w : WriteOutcome) (c : TcpConnection) :
    Except Fault TcpConnection := do
  if c.state_ = .kDisconnected then
    -- disconnected, give up writing
    return c
  else
    let d := writeDirectly (c.emit (.sent message)) message.bytes w
    assertThat (d.remaining ≤ message.bytes.length) .sendInLoop
    bufferRest d message.bytes

/-! ### Closing the write side -/

def shutdownInLoop (c : TcpConnection) : TcpConnection :=
  if !c.channel_.isWriting then
    -- we are not writing
    c.emit (.shutdownWrite c.state_ c.outputBuffer_.readable)
  else c

def shutdown (inLoop : Bool) (c : TcpConnection) : TcpConnection :=
  if c.state_ = .kConnected then
    -- `state_` changes here, ahead of the functor
    let c := { c with state_ := .kDisconnecting }
    if inLoop then c.shutdownInLoop else c.queueInLoop .shutdownInLoop
  else c

def forceClose (c : TcpConnection) : TcpConnection :=
  if c.isUp then { c with state_ := .kDisconnecting }.queueInLoop .forceCloseInLoop else c

/-- `forceCloseWithDelay`: a timer will call `forceClose`. -/
def forceCloseWithDelay (c : TcpConnection) : TcpConnection :=
  if c.isUp then { c with state_ := .kDisconnecting, delayed := c.delayed + 1 } else c

/-! ### Reading or not -/

def startReadInLoop (c : TcpConnection) : Except Fault TcpConnection := do
  if !c.reading_ || !c.channel_.isReading then
    let c ← c.onChannel Channel.enableReading
    return { c with reading_ := true }
  else return c

def stopReadInLoop (c : TcpConnection) : Except Fault TcpConnection := do
  if c.reading_ || c.channel_.isReading then
    let c ← c.onChannel Channel.disableReading
    return { c with reading_ := false }
  else return c

def startRead (inLoop : Bool) (c : TcpConnection) : Except Fault TcpConnection :=
  if inLoop then c.startReadInLoop else return c.queueInLoop .startReadInLoop

def stopRead (inLoop : Bool) (c : TcpConnection) : Except Fault TcpConnection :=
  if inLoop then c.stopReadInLoop else return c.queueInLoop .stopReadInLoop

/-! ### The public interface -/

/-- A call of user code. `send` comes with the outcome of the direct
write it may lead to. -/
inductive Call where
  | send (message : StdString) (w : WriteOutcome)
  | shutdown
  | forceClose
  | forceCloseWithDelay
  | startRead
  | stopRead
  deriving DecidableEq

def send (inLoop : Bool) (message : StdString) (w : WriteOutcome) (c : TcpConnection) :
    Except Fault TcpConnection :=
  if c.state_ = .kConnected then
    if inLoop then c.sendInLoop message w else return c.queueInLoop (.sendInLoop message)
  else return c

/-- A call, from the loop thread or from another one. -/
def call (inLoop : Bool) (c : TcpConnection) : Call → Except Fault TcpConnection
  | .send message w => c.send inLoop message w
  | .shutdown => return c.shutdown inLoop
  | .forceClose => return c.forceClose
  | .forceCloseWithDelay => return c.forceCloseWithDelay
  | .startRead => c.startRead inLoop
  | .stopRead => c.stopRead inLoop

/-- A callback of the user, as the calls it makes in the loop thread. -/
def runCallback (cb : List Call) (c : TcpConnection) : Except Fault TcpConnection :=
  cb.foldlM (call true) c

/-! ### The life of the connection -/

def connectEstablished (cb : List Call) (c : TcpConnection) : Except Fault TcpConnection := do
  assertThat (c.state_ = .kConnecting) .connectEstablished
  let c ← onChannel { c with state_ := .kConnected } Channel.enableReading
  runCallback cb (c.emit (.connectionCallback c.state_))

def connectDestroyed (cb : List Call) (c : TcpConnection) : Except Fault TcpConnection := do
  -- `kDisconnecting` does not pass this test
  if c.state_ = .kConnected then
    let c ← onChannel { c with state_ := .kDisconnected } Channel.disableAll
    let c ← runCallback cb (c.emit (.connectionCallback c.state_))
    c.onChannel Channel.remove
  else
    c.onChannel Channel.remove

def handleClose (cb : List Call) (c : TcpConnection) : Except Fault TcpConnection := do
  assertThat (c.state_ = .kConnected ∨ c.state_ = .kDisconnecting) .handleClose
  let c ← onChannel { c with state_ := .kDisconnected } Channel.disableAll
  let c ← runCallback cb (c.emit (.connectionCallback c.state_))
  -- must be the last line
  return c.emit .closeCallback

def forceCloseInLoop (cb : List Call) (c : TcpConnection) : Except Fault TcpConnection :=
  if c.state_ = .kConnected ∨ c.state_ = .kDisconnecting then c.handleClose cb else return c

/-! ### The handlers of the channel -/

/-- `handleRead`. The message callback takes at most `taken` bytes from
the input buffer and makes the calls `cb`. On end of file `cb` is what the
connection callback does. -/
def handleRead (r : Buffer.ReadResult) (taken : Nat) (cb : List Call) (c : TcpConnection) :
    Except Fault TcpConnection := do
  let (input, n) ← (c.inputBuffer_.readFd r).mapError .buffer
  let c := { c with inputBuffer_ := input }
  if 0 < n then
    let input ← (input.retrieve (min taken input.readableBytes)).mapError .buffer
    runCallback cb ({ c with inputBuffer_ := input }.emit .messageCallback)
  else if n = 0 then
    c.handleClose cb
  else
    -- handleError() only reads and logs SO_ERROR
    return c

/-- The end of `handleWrite`, when everything buffered is written. -/
def outputDrained (c : TcpConnection) : Except Fault TcpConnection := do
  let c ← c.onChannel Channel.disableWriting
  let c := if c.writeCompleteCallback_ then c.queueInLoop .writeCompleteCallback else c
  if c.state_ = .kDisconnecting then return c.shutdownInLoop else return c

def handleWrite (w : WriteOutcome) (c : TcpConnection) : Except Fault TcpConnection := do
  if c.channel_.isWriting then
    match sockets.write w c.outputBuffer_.readable with
    | .ok n =>
        if 0 < n then
          let c := c.emit (.wrote (c.outputBuffer_.readable.take n))
          let c ← c.onOutput (·.retrieve n)
          if c.outputBuffer_.readableBytes = 0 then c.outputDrained else return c
        else return c
    -- an error is only logged, the bytes stay in the buffer
    | .error _ => return c
  else return c

/-- A functor of the loop's queue. The two callback functors run user code
only. -/
def runFunctor (f : Functor) (w : WriteOutcome) (cb : List Call) (c : TcpConnection) :
    Except Fault TcpConnection :=
  match f with
  | .sendInLoop message => c.sendInLoop message w
  | .shutdownInLoop => return c.shutdownInLoop
  | .forceCloseInLoop => c.forceCloseInLoop cb
  | .startReadInLoop => c.startReadInLoop
  | .stopReadInLoop => c.stopReadInLoop
  | .connectDestroyed => c.connectDestroyed cb
  | .writeCompleteCallback | .highWaterMarkCallback _ => c.runCallback cb

/-- A timer of `forceCloseWithDelay` fires. -/
def delayedForceClose (c : TcpConnection) : TcpConnection :=
  forceClose { c with delayed := c.delayed - 1 }

/-- What can happen to a connection: a call of user code, a handler of its
channel, a functor or a timer. -/
inductive Act where
  | call (inLoop : Bool) (k : Call)
  | connectEstablished (cb : List Call)
  | handleRead (r : Buffer.ReadResult) (taken : Nat) (cb : List Call)
  | handleWrite (w : WriteOutcome)
  | handleClose (cb : List Call)
  | runFunctor (f : Functor) (w : WriteOutcome) (cb : List Call)
  | delayedForceClose
  deriving DecidableEq

def act (c : TcpConnection) : Act → Except Fault TcpConnection
  | .call inLoop k => c.call inLoop k
  | .connectEstablished cb => c.connectEstablished cb
  | .handleRead r taken cb => c.handleRead r taken cb
  | .handleWrite w => c.handleWrite w
  | .handleClose cb => c.handleClose cb
  | .runFunctor f w cb => c.runFunctor f w cb
  | .delayedForceClose => return c.delayedForceClose

end TcpConnection

end Muduo.Net
