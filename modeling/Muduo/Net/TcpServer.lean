import Muduo.Net.TcpConnection

/-!
# `Muduo.Net.TcpServer`: connections between the loops

`muduo/net/TcpServer.cc`, with `EventLoopThreadPool::getNextLoop` and the
functions of `TcpConnection` that it calls. The server lives in the base
loop. Each connection lives in an I/O loop, which is the base loop when the
pool has no threads.

A connection is made in the base loop, established and closed in its I/O
loop, taken out of `connections_` in the base loop again and destroyed in
its I/O loop. Every change of loop goes through a functor. `runInLoop` calls
it at once when the loops coincide, and `queueInLoop` never does.

Of a connection the model keeps its name, its loop and `state_`. The close
callback is called by `handleClose`, which the environment runs in the loop
of the connection while `state_` is `kConnected` or `kDisconnecting`.

A `TcpConnectionPtr` is the number of the connection, in the order of the
calls of `newConnection`. `connections_` is a partial map, so `erase` of a
key removes one entry or none. `log` records what happened to the
connections, and no function reads it.
-/

set_option autoImplicit false

namespace Muduo.Net

open Muduo.Lib

/-! ### Names -/

/-- `snprintf(buf, size, …)`: what a reader of the buffer finds. -/
def snprintf (size : Nat) (text : List Char) : List Char := text.take (size - 1)

/-- `%d`. -/
def decimal (n : Int) : List Char :=
  if n < 0 then '-' :: Nat.toDigits 10 n.natAbs else Nat.toDigits 10 n.natAbs

/-- The listening address: the text that `inet_ntop` gives for it, which
fits into `INET6_ADDRSTRLEN` bytes with its terminator, and the port. -/
structure InetAddress where
  ip : List Char
  port : UInt16
  ip_length : ip.length < 46

/-- `InetAddress::toIpPort`. -/
def InetAddress.toIpPort (addr : InetAddress) : List Char :=
  addr.ip ++ snprintf (64 - addr.ip.length) (':' :: Nat.toDigits 10 addr.port.toNat)

/-- `++` on an `int`. -/
def incrementInt (n : Int) : Int := (n + 1 + 2 ^ 31) % 2 ^ 32 - 2 ^ 31

namespace TcpServer

abbrev LoopId := Nat
abbrev ConnPtr := Nat

/-- `loop_` of the server. The I/O loops are `1, 2, …`. -/
def baseLoop : LoopId := 0

/-- A `TcpConnection`, as the server sees it. -/
structure Conn where
  name_ : List Char
  loop_ : LoopId
  state_ : TcpConnection.StateE
  deriving DecidableEq, Repr

inductive Functor where
  | connectEstablished (conn : ConnPtr)
  | removeConnectionInLoop (conn : ConnPtr)
  | connectDestroyed (conn : ConnPtr)
  deriving DecidableEq, Repr

/-- The connection that a functor is bound to. -/
def Functor.conn : Functor → ConnPtr
  | .connectEstablished c => c
  | .removeConnectionInLoop c => c
  | .connectDestroyed c => c

/-- The stages of a connection. -/
inductive Stage where
  | created
  | established
  | closed
  | erased
  | destroyed
  deriving DecidableEq, Repr

/-- A failed `assert`. `connection` is a `TcpConnectionPtr` to nothing. -/
inductive Fault where
  | notInLoopThread
  | connection
  | connectEstablished
  | handleClose
  | eraseCount
  deriving DecidableEq, Repr

end TcpServer

/-- `TcpServer`, with the connections it has made and the functor queues of
the loops. -/
structure TcpServer where
  name_ : List Char
  ipPort_ : List Char
  numThreads_ : Nat
  next_ : Nat
  nextConnId_ : Int
  connections_ : List Char → Option TcpServer.ConnPtr
  created : Nat
  heap : TcpServer.ConnPtr → Option TcpServer.Conn
  pendingFunctors_ : TcpServer.LoopId → List TcpServer.Functor
  log : List (TcpServer.ConnPtr × TcpServer.Stage)

namespace TcpServer

/-- `TcpServer(loop, listenAddr, name)` and `setThreadNum(numThreads)`. -/
def ctor (name : List Char) (addr : InetAddress) (numThreads : Nat) : TcpServer where
  name_ := name
  ipPort_ := addr.toIpPort
  numThreads_ := numThreads
  next_ := 0
  nextConnId_ := 1
  connections_ := fun _ => none
  created := 0
  heap := fun _ => none
  pendingFunctors_ := fun _ => []
  log := []

/-- What happened to a connection so far. -/
def history (s : TcpServer) (c : ConnPtr) : List Stage :=
  (s.log.filter fun p => p.1 == c).map Prod.snd

def emit (s : TcpServer) (c : ConnPtr) (stage : Stage) : TcpServer :=
  { s with log := s.log ++ [(c, stage)] }

/-- `*conn`. -/
def deref (s : TcpServer) (c : ConnPtr) : Except Fault Conn :=
  match s.heap c with
  | some k => .ok k
  | none => .error .connection

def setConn (s : TcpServer) (c : ConnPtr) (k : Conn) : TcpServer :=
  { s with heap := Function.update s.heap c (some k) }

/-- `EventLoop::queueInLoop`. -/
def queueInLoop (s : TcpServer) (l : LoopId) (f : Functor) : TcpServer :=
  { s with pendingFunctors_ := Function.update s.pendingFunctors_ l (s.pendingFunctors_ l ++ [f]) }

/-- `EventLoopThreadPool::getNextLoop`, and the new `next_`. -/
def getNextLoop (s : TcpServer) : LoopId × Nat :=
  if s.numThreads_ = 0 then (baseLoop, s.next_)
  else (s.next_ + 1, if s.next_ + 1 ≥ s.numThreads_ then 0 else s.next_ + 1)

/-! ### The functions, in the loop `cur` -/

/-- `TcpConnection::connectEstablished`. -/
def connectEstablished (s : TcpServer) (cur : LoopId) (c : ConnPtr) :
    Except Fault TcpServer := do
  let k ← s.deref c
  assertThat (cur = k.loop_) .notInLoopThread
  assertThat (k.state_ = .kConnecting) .connectEstablished
  return (s.setConn c { k with state_ := .kConnected }).emit c .established

/-- `TcpConnection::connectDestroyed`. -/
def connectDestroyed (s : TcpServer) (cur : LoopId) (c : ConnPtr) : Except Fault TcpServer := do
  let k ← s.deref c
  assertThat (cur = k.loop_) .notInLoopThread
  -- `~TcpServer` comes here with an open connection, `removeConnectionInLoop` does not
  let state := if k.state_ = .kConnected then .kDisconnected else k.state_
  return (s.setConn c { k with state_ := state }).emit c .destroyed

/-- `removeConnectionInLoop`. -/
def removeConnectionInLoop (s : TcpServer) (cur : LoopId) (c : ConnPtr) :
    Except Fault TcpServer := do
  assertThat (cur = baseLoop) .notInLoopThread
  let k ← s.deref c
  let n := if (s.connections_ k.name_).isSome then 1 else 0
  let s := { s with connections_ := Function.update s.connections_ k.name_ none }
  -- the functor holds the connection from here on
  assertThat (n = 1) .eraseCount
  return (s.emit c .erased).queueInLoop k.loop_ (.connectDestroyed c)

/-- A call of a functor. -/
def call (s : TcpServer) (cur : LoopId) : Functor → Except Fault TcpServer
  | .connectEstablished c => s.connectEstablished cur c
  | .removeConnectionInLoop c => s.removeConnectionInLoop cur c
  | .connectDestroyed c => s.connectDestroyed cur c

/-- `EventLoop::runInLoop` of the loop `l`. -/
def runInLoop (s : TcpServer) (cur l : LoopId) (f : Functor) : Except Fault TcpServer :=
  if cur = l then s.call cur f else .ok (s.queueInLoop l f)

/-- `removeConnection`, the close callback. -/
def removeConnection (s : TcpServer) (cur : LoopId) (c : ConnPtr) : Except Fault TcpServer :=
  s.runInLoop cur baseLoop (.removeConnectionInLoop c)

/-- `TcpConnection::handleClose`. -/
def handleClose (s : TcpServer) (cur : LoopId) (c : ConnPtr) : Except Fault TcpServer := do
  let k ← s.deref c
  assertThat (cur = k.loop_) .notInLoopThread
  assertThat (k.state_ = .kConnected ∨ k.state_ = .kDisconnecting) .handleClose
  removeConnection ((s.setConn c { k with state_ := .kDisconnected }).emit c .closed) cur c

/-- The name of a connection. -/
def connName (name ipPort : List Char) (id : Int) : List Char :=
  name ++ snprintf 64 ('-' :: ipPort ++ '#' :: decimal id)

/-- The part of `newConnection` before its `runInLoop`. -/
def addConnection (s : TcpServer) : TcpServer :=
  let name := connName s.name_ s.ipPort_ s.nextConnId_
  { s with
    next_ := s.getNextLoop.2
    nextConnId_ := incrementInt s.nextConnId_
    -- an entry of the same name would be replaced
    connections_ := Function.update s.connections_ name (some s.created)
    created := s.created + 1
    heap := Function.update s.heap s.created (some ⟨name, s.getNextLoop.1, .kConnecting⟩)
    log := s.log ++ [(s.created, .created)] }

/-- `newConnection`. -/
def newConnection (s : TcpServer) : Except Fault TcpServer :=
  s.addConnection.runInLoop baseLoop s.getNextLoop.1 (.connectEstablished s.created)

/-! ### The machine -/

inductive Event where
  /-- The acceptor has a new socket. -/
  | newConnection
  /-- User code calls `shutdown` or `forceClose`. -/
  | disconnect (conn : ConnPtr)
  /-- The loop of the connection closes it. -/
  | handleClose (conn : ConnPtr)
  /-- A loop runs the first functor of its queue. -/
  | runFunctor (loop : LoopId)
  deriving DecidableEq, Repr

/-- `state_` is one in which a connection can be closed. -/
def isUp (s : TcpServer) (c : ConnPtr) : Bool :=
  match s.heap c with
  | some k => k.state_ == .kConnected || k.state_ == .kDisconnecting
  | none => false

/-- There are fewer than `2 ^ 31` connections. -/
def enabled (s : TcpServer) : Event → Bool
  | .newConnection => s.created + 1 < 2 ^ 31
  | .disconnect c => s.isUp c
  | .handleClose c => s.isUp c
  | .runFunctor l => s.pendingFunctors_ l != []

def step (s : TcpServer) : Event → Except Fault TcpServer
  | .newConnection => s.newConnection
  | .disconnect c => do
      let k ← s.deref c
      return s.setConn c { k with state_ := .kDisconnecting }
  | .handleClose c => do
      let k ← s.deref c
      s.handleClose k.loop_ c
  | .runFunctor l =>
      match s.pendingFunctors_ l with
      | [] => return s
      | f :: fs =>
          call { s with pendingFunctors_ := Function.update s.pendingFunctors_ l fs } l f

/-- The loops as a machine. -/
def machine : Machine TcpServer Event Fault where
  enabled s e := enabled s e = true
  step := step

instance (s : TcpServer) (e : Event) : Decidable (machine.enabled s e) :=
  inferInstanceAs (Decidable (enabled s e = true))

end TcpServer

end Muduo.Net
