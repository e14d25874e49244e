import Muduo.Lib.Adler32
import Muduo.Net.ProtobufCodecLite
import Muduo.Net.RpcChannel

/-!
# `Muduo.Net.RpcSession`: two `RpcChannel`s on one connection

`muduo/net/protorpc/RpcServer.cc` puts an `RpcChannel` on every connection,
and a client does the same at its end. The two channels talk through
`RpcCodec` (`RpcCodec.h`), the `ProtobufCodecLite` with the tag `RPC0`.
Each of them can be the caller and the server, so the two sides of a
session are alike.

A channel sends with `codec_.send`, which makes the frame of the message
and hands it to the connection. `Wire` is what is between the channels in
one direction: the bytes that have been sent and not read, the
`inputBuffer_` of the receiver, and the messages that the codec has found
in it and not yet handed to `onRpcMessage`. The network delivers the bytes
in order, in chunks of any size and at any time.

When the codec rejects a frame its `errorCallback_` shuts the connection
down. The session ends there, with the fault `rejected`.
-/

set_option autoImplicit false

namespace Muduo.Net

open Muduo.Base
open Muduo.Lib
open RpcChannel (RpcMessage ServiceMap)

namespace RpcSession

/-- `rpctag`, the characters `RPC0`. -/
def rpctag : List UInt8 := [82, 80, 67, 48]

theorem rpctag_lt :
    rpctag.length + ProtobufCodecLite.kChecksumLen + ProtobufCodecLite.kHeaderLen < 2 ^ 31 := by
  decide

/-- `RpcCodec`, over the protobuf functions of `RpcMessage`. -/
def rpcCodec (protobuf : Protobuf RpcMessage) : ProtobufCodecLite RpcMessage where
  protobuf := protobuf
  adler32 := Adler32.adler32
  tag_ := rpctag
  rawCb_ := none
  tag_lt := rpctag_lt

inductive Side where
  | left
  | right
  deriving DecidableEq, Repr

def Side.peer : Side → Side
  | .left => .right
  | .right => .left

/-- What is on the way to one side. -/
structure Wire where
  inFlight : List UInt8
  inputBuffer_ : Buffer
  queue : List RpcMessage

inductive Fault where
  | channel (f : RpcChannel.Fault)
  | codec (f : ProtobufCodecLite.Fault)
  | rejected (errorCode : ProtobufCodecLite.ErrorCode)
  deriving DecidableEq, Repr

/-- The message that an effect puts on the wire. -/
def outgoingOf : RpcChannel.Effect → Option RpcMessage
  | .sent message => some message
  | .answered _ message => some message
  | _ => none

/-- The messages that a channel has sent. -/
def outgoing (log : List RpcChannel.Effect) : List RpcMessage := log.filterMap outgoingOf

end RpcSession

open RpcSession in
structure RpcSession where
  channel : Side → RpcChannel
  /-- What is on the way to a side. -/
  wire : Side → Wire

namespace RpcSession

/-- A new connection, with the services that each side offers. -/
def init (services : Side → Option ServiceMap) : RpcSession where
  channel x := RpcChannel.init (services x)
  wire _ := ⟨[], Buffer.default, []⟩

/-- The channel of the side `x` has become `channel`. What it has sent is
on the way to the peer. -/
def transmit (codec : ProtobufCodecLite RpcMessage) (s : RpcSession) (x : Side)
    (channel : RpcChannel) : Except Fault RpcSession := do
  let messages := outgoing (channel.log.drop (s.channel x).log.length)
  let bufs ← (messages.mapM (codec.fillEmptyBuffer Buffer.default)).mapError .codec
  let wire := s.wire x.peer
  return {
    channel := Function.update s.channel x channel
    wire := Function.update s.wire x.peer
      { wire with inFlight := wire.inFlight ++ (bufs.map Buffer.readable).flatten } }

/-- A step of a channel. -/
def act (codec : ProtobufCodecLite RpcMessage) (s : RpcSession) (x : Side)
    (e : RpcChannel.Event) : Except Fault RpcSession := do
  let channel ← ((s.channel x).step e).mapError .channel
  transmit codec s x channel

/-- `RpcChannel::onMessage`, up to the callbacks. -/
def arrive (codec : ProtobufCodecLite RpcMessage) (s : RpcSession) (x : Side) (chunk : Chunk) :
    Except Fault RpcSession := do
  let wire := s.wire x
  let (b, calls) ← (codec.receiveChunk (wire.inputBuffer_, []) chunk).mapError .codec
  match ProtobufCodecLite.errors calls with
  | errorCode :: _ => .error (.rejected errorCode)
  | [] =>
      return { s with
        wire := Function.update s.wire x
          ⟨wire.inFlight.drop chunk.1.bytes.length, b,
            wire.queue ++ ProtobufCodecLite.delivered calls⟩ }

def setQueue (s : RpcSession) (x : Side) (queue : List RpcMessage) : RpcSession :=
  let wire := s.wire x
  { s with wire := Function.update s.wire x ⟨wire.inFlight, wire.inputBuffer_, queue⟩ }

/-- The callback for the next message. -/
def dispatch (codec : ProtobufCodecLite RpcMessage) (s : RpcSession) (x : Side) :
    Except Fault RpcSession :=
  match (s.wire x).queue with
  | [] => return s
  | message :: rest => act codec (s.setQueue x rest) x (.receive message)

inductive Event where
  /-- A thread of a side, with any step but the arrival of a message. -/
  | act (x : Side) (e : RpcChannel.Event)
  | arrive (x : Side) (chunk : Chunk)
  | dispatch (x : Side)
  deriving DecidableEq

/-- The loop thread of the side is in no callback of the channel. -/
def isIdle (s : RpcSession) (x : Side) : Bool :=
  !(s.channel x).destroyed && (s.channel x).handling.isNone && (s.wire x).queue.isEmpty

def enabled (s : RpcSession) : Event → Bool
  | .act _ (.receive _) => false
  | .act x .destroy => s.isIdle x && (s.channel x).enabled .destroy
  | .act x e => (s.channel x).enabled e
  | .arrive x chunk => s.isIdle x && decide (chunk.1.bytes <+: (s.wire x).inFlight)
  | .dispatch x =>
      match (s.wire x).queue with
      | [] => false
      | message :: _ => (s.channel x).enabled (.receive message)

def step (codec : ProtobufCodecLite RpcMessage) (s : RpcSession) : Event → Except Fault RpcSession
  | .act x e => act codec s x e
  | .arrive x chunk => arrive codec s x chunk
  | .dispatch x => dispatch codec s x

def machine (codec : ProtobufCodecLite RpcMessage) : Machine RpcSession Event Fault where
  enabled s e := enabled s e = true
  step := step codec

instance (codec : ProtobufCodecLite RpcMessage) (s : RpcSession) (e : Event) :
    Decidable ((machine codec).enabled s e) :=
  inferInstanceAs (Decidable (enabled s e = true))

end RpcSession

end Muduo.Net
