import Mathlib.Algebra.Group.Int.Defs
import Mathlib.Algebra.Group.Nat.Defs
import Mathlib.Data.List.Basic
import Muduo.Lib.Transition

/-!
# `Muduo.Net.RpcChannel`: calls and responses of `muduo/net/protorpc/RpcChannel.cc`

One `RpcChannel` in its two roles. Client threads call `CallMethod`, which
takes an id from an atomic counter, registers the call in `outstandings_`
under the lock, and sends the request. Each of these is a step of its own,
so the calls of any number of threads interleave. `calls` has all calls,
and `stage` the positions of their threads.

The loop thread runs `onRpcMessage` for what the peer sends. A `RESPONSE`
takes its call out of `outstandings_` under the lock. Behind that it fills
the response object, runs the `done` closure, which may be user code that
makes further calls, and deletes the response object. `handling` says how
far it is. A `REQUEST` is answered with an error at once, or it is handed
to a service with a closure for `doneCallback`. `pending` has the closures
that the services have not run yet. They run each one exactly once, in any
order and at any time. The closures are bound to the channel as a raw
pointer, and `RpcServer::onConnection` drops the channel when its connection
closes, whatever the services still hold. A closure that runs behind the
destructor uses an object that is gone, which is the fault `dangling`.

Response objects and closures are addresses. A caller hands over new ones
with every call. `received` has the messages of the peer, and `log` what
the channel has done. A message on the wire carries its id as `fixed64`,
the map has it as `int64_t`.
-/

set_option autoImplicit false

namespace Muduo.Net

open Muduo.Lib
open Std (ExtTreeMap)

namespace RpcChannel

inductive MessageType where
  | REQUEST
  | RESPONSE
  | ERROR
  deriving DecidableEq, Repr

inductive ErrorCode where
  | NO_ERROR
  | WRONG_PROTO
  | NO_SERVICE
  | NO_METHOD
  | INVALID_REQUEST
  | INVALID_RESPONSE
  | TIMEOUT
  deriving DecidableEq, Repr

structure RpcMessage where
  type : MessageType
  id : BitVec 64
  service : Option String
  method : Option String
  request : Option (List UInt8)
  response : Option (List UInt8)
  error : Option ErrorCode
  deriving DecidableEq, Repr

/-- What stops a thread: an `int64_t` that overflows, a failed `assert`, or
the use of a channel that has been destroyed. -/
inductive Fault where
  | overflow
  | emptyResponse
  | nullService
  | dangling
  deriving DecidableEq, Repr

/-- `AtomicInt64::incrementAndGet()`. The sum is computed once more outside
the atomic operation, in `int64_t`. -/
def incrementAndGet (value : Int) : Except Fault Int :=
  if value + 1 < 2 ^ 63 then .ok (value + 1) else .error .overflow

/-- A method of a service, by what `ParseFromString` says of a request. -/
structure Method where
  parses : List UInt8 → Bool

/-- A service, by its descriptor. -/
structure Service where
  findMethodByName : String → Option Method

/-- `std::map<std::string, Service*>`. -/
abbrev ServiceMap := String → Option (Option Service)

structure OutstandingCall where
  response : Option Nat
  done : Option Nat
  deriving DecidableEq, Repr

/-- Where a thread is in `CallMethod`. -/
inductive Stage where
  /-- It has its id. -/
  | numbered
  /-- It has put the call into `outstandings_`. -/
  | registered
  /-- It has sent the request and returned. -/
  | returned
  deriving DecidableEq, Repr

/-- A call of `CallMethod`. -/
structure Call where
  id : Int
  response : Nat
  done : Option Nat
  message : RpcMessage
  deriving DecidableEq, Repr

/-- How far the loop thread is with a `RESPONSE`. -/
inductive Progress where
  | found
  | filled
  | ran
  deriving DecidableEq, Repr

/-- The `RESPONSE` that the loop thread handles: its number and text, and
what was found for it. -/
structure Handling where
  number : Nat
  message : RpcMessage
  response : Nat
  done : Option Nat
  progress : Progress
  deriving DecidableEq, Repr

/-- A closure for `doneCallback`: the number of the `REQUEST`, and the bound
id. -/
structure Pending where
  number : Nat
  id : Int
  deriving DecidableEq, Repr

/-- What the channel does. -/
inductive Effect where
  /-- `outstandings_[id] = out`. -/
  | registered (id : Int)
  | sent (message : RpcMessage)
  /-- `ParseFromString` into a response object, from message `number`. -/
  | filled (response : Nat) (bytes : List UInt8) (number : Nat)
  /-- `done->Run()`, for message `number`. -/
  | ran (done : Nat) (number : Nat)
  | released (response : Nat)
  /-- `delete out.done` in the destructor. -/
  | deleted (done : Nat)
  /-- A `RESPONSE` for the `REQUEST` with this number. -/
  | answered (number : Nat) (message : RpcMessage)
  deriving DecidableEq, Repr

end RpcChannel

open RpcChannel in
/-- `RpcChannel`, with its threads and with what has happened. -/
structure RpcChannel where
  id_ : Int
  outstandings_ : ExtTreeMap Int OutstandingCall
  services_ : Option ServiceMap
  calls : List Call
  stage : Nat → Stage
  handling : Option Handling
  pending : List Pending
  received : List RpcMessage
  log : List Effect
  destroyed : Bool

namespace RpcChannel

/-- The constructor, and `setServices`. -/
def init (services : Option ServiceMap) : RpcChannel where
  id_ := 0
  outstandings_ := ∅
  services_ := services
  calls := []
  stage := fun _ => .numbered
  handling := none
  pending := []
  received := []
  log := []
  destroyed := false

def emit (s : RpcChannel) (es : List Effect) : RpcChannel := { s with log := s.log ++ es }

/-! ### `CallMethod` -/

/-- The message of a call. -/
def requestMessage (id : Int) (service method : String) (request : List UInt8) : RpcMessage :=
  { type := .REQUEST, id := BitVec.ofInt 64 id, service := some service, method := some method
    request := some request, response := none, error := none }

/-- Up to `incrementAndGet`. -/
def callMethod (s : RpcChannel) (response : Nat) (done : Option Nat) (service method : String)
    (request : List UInt8) : Except Fault RpcChannel := do
  let id ← incrementAndGet s.id_
  let call : Call := ⟨id, response, done, requestMessage id service method request⟩
  return { s with id_ := id, calls := s.calls ++ [call] }

/-- The critical section. -/
def register (s : RpcChannel) (i : Nat) (c : Call) : RpcChannel :=
  let out : OutstandingCall := ⟨some c.response, c.done⟩
  { s with
    outstandings_ := s.outstandings_.insert c.id out
    stage := Function.update s.stage i .registered
    log := s.log ++ [.registered c.id] }

/-- `codec_.send(conn_, message)`. -/
def send (s : RpcChannel) (i : Nat) (c : Call) : RpcChannel :=
  { s with
    stage := Function.update s.stage i .returned
    log := s.log ++ [.sent c.message] }

/-! ### `onRpcMessage` -/

/-- A `RESPONSE`, up to the end of the critical section. -/
def onResponse (s : RpcChannel) (message : RpcMessage) : Except Fault RpcChannel := do
  let number := s.received.length
  let s := { s with received := s.received ++ [message] }
  let id := message.id.toInt
  assertThat (message.response.isSome = true ∨ message.error.isSome = true) .emptyResponse
  match s.outstandings_[id]? with
  | none => return s
  | some out =>
      let s := { s with outstandings_ := s.outstandings_.erase id }
      match out.response with
      | none => return s
      | some response =>
          return { s with handling := some ⟨number, message, response, out.done, .found⟩ }

def fill (s : RpcChannel) (h : Handling) : RpcChannel :=
  let s := { s with handling := some { h with progress := .filled } }
  match h.message.response with
  | some bytes => s.emit [.filled h.response bytes h.number]
  | none => s

def run (s : RpcChannel) (h : Handling) : RpcChannel :=
  let s := { s with handling := some { h with progress := .ran } }
  match h.done with
  | some done => s.emit [.ran done h.number]
  | none => s

/-- The destructor of `d`. -/
def release (s : RpcChannel) (h : Handling) : RpcChannel :=
  { s with handling := none, log := s.log ++ [.released h.response] }

/-- The error that a `REQUEST` ends with. -/
def requestError (s : RpcChannel) (message : RpcMessage) : Except Fault ErrorCode :=
  match s.services_ with
  | none => return .NO_SERVICE
  | some services =>
      match services (message.service.getD "") with
      | none => return .NO_SERVICE
      | some none => .error .nullService
      | some (some service) =>
          match service.findMethodByName (message.method.getD "") with
          | none => return .NO_METHOD
          | some method =>
              if method.parses (message.request.getD []) then return .NO_ERROR
              else return .INVALID_REQUEST

def errorMessage (id : BitVec 64) (error : ErrorCode) : RpcMessage :=
  { type := .RESPONSE, id, service := none, method := none, request := none, response := none
    error := some error }

/-- A `REQUEST`. Without an error the service has got the closure. -/
def onRequest (s : RpcChannel) (message : RpcMessage) : Except Fault RpcChannel := do
  let number := s.received.length
  let s := { s with received := s.received ++ [message] }
  let error ← s.requestError message
  if error = .NO_ERROR then
    return { s with pending := s.pending ++ [⟨number, message.id.toInt⟩] }
  else return s.emit [.answered number (errorMessage message.id error)]

def onRpcMessage (s : RpcChannel) (message : RpcMessage) : Except Fault RpcChannel :=
  match message.type with
  | .RESPONSE => s.onResponse message
  | .REQUEST => s.onRequest message
  | .ERROR => return { s with received := s.received ++ [message] }

/-- `doneCallback`, with the bytes of the response that the service has
made. -/
def doneCallback (s : RpcChannel) (i : Nat) (p : Pending) (bytes : List UInt8) : RpcChannel :=
  let message : RpcMessage :=
    { type := .RESPONSE, id := BitVec.ofInt 64 p.id, service := none, method := none
      request := none, response := some bytes, error := none }
  { s with
    pending := s.pending.eraseIdx i
    log := s.log ++ [.answered p.number message] }

/-! ### The destructor -/

/-- The body of its loop. -/
def OutstandingCall.delete (out : OutstandingCall) : List Effect :=
  (out.response.map Effect.released).toList ++ (out.done.map Effect.deleted).toList

def destroy (s : RpcChannel) : RpcChannel :=
  { s with
    outstandings_ := ∅
    log := s.log ++ s.outstandings_.toList.flatMap fun entry => entry.2.delete
    destroyed := true }

/-! ### The machine -/

inductive Event where
  | call (response : Nat) (done : Option Nat) (service method : String) (request : List UInt8)
  | register (i : Nat)
  | send (i : Nat)
  -- the loop thread
  | receive (message : RpcMessage)
  | fill
  | run
  | release
  -- a service
  | complete (i : Nat) (bytes : List UInt8)
  | destroy
  deriving DecidableEq

/-- The thread of the call `i` is at this stage. -/
def isAt (s : RpcChannel) (stage : Stage) (i : Nat) : Bool :=
  decide (i < s.calls.length) && s.stage i == stage

/-- The loop thread is at this point of a `RESPONSE`. -/
def isHandling (s : RpcChannel) (progress : Progress) : Bool :=
  (s.handling.map (·.progress)) == some progress

/-- A call brings its own response object and its own closure. The callers
and the loop thread do not use the channel once its destructor runs, the
services may. -/
def enabled (s : RpcChannel) : Event → Bool
  | .call response done _ _ _ =>
      !s.destroyed && !(s.calls.map (·.response)).contains response &&
        !(s.calls.any fun c => c.done.isSome && c.done == done)
  | .register i => s.isAt .numbered i
  | .send i => s.isAt .registered i
  | .receive _ => !s.destroyed && s.handling.isNone
  | .fill => s.isHandling .found
  | .run => s.isHandling .filled
  | .release => s.isHandling .ran
  | .complete i _ => (s.pending[i]?).isSome
  | .destroy =>
      !s.destroyed && s.handling.isNone && (List.range s.calls.length).all (s.isAt .returned)

def step (s : RpcChannel) : Event → Except Fault RpcChannel
  | .call response done service method request =>
      s.callMethod response done service method request
  | .register i => return (s.calls[i]?.map (s.register i)).getD s
  | .send i => return (s.calls[i]?.map (s.send i)).getD s
  | .receive message => s.onRpcMessage message
  | .fill => return (s.handling.map s.fill).getD s
  | .run => return (s.handling.map s.run).getD s
  | .release => return (s.handling.map s.release).getD s
  | .complete i bytes => do
      assertThat (s.destroyed = false) .dangling
      return (s.pending[i]?.map fun p => s.doneCallback i p bytes).getD s
  | .destroy => return s.destroy

/-- The channel as a machine. -/
def machine : Machine RpcChannel Event Fault where
  enabled s e := enabled s e = true
  step := step

instance (s : RpcChannel) (e : Event) : Decidable (machine.enabled s e) :=
  inferInstanceAs (Decidable (enabled s e = true))

end RpcChannel

end Muduo.Net
