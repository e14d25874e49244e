import Muduo.Lib.Decoder
import Muduo.Net.Buffer
import Mathlib.Algebra.Group.Int.Defs

/-!
# `Muduo.Net.ProtobufCodecLite`: length-prefixed messages on a stream

`muduo/net/protobuf/ProtobufCodecLite.cc`. The wire format is

    size      4-byte  M+N+4
    tag       M-byte
    payload   N-byte
    checksum  4-byte  adler32 of tag+payload

What the codec takes from protobuf and zlib is a parameter. The callbacks
are effects: `onMessage` returns the calls it makes, in order. The raw
callback answers, so it is a function.

The decoding functions get a `char*` into the buffer and a length that the
peer has sent. Here they get the index in the vector, and every read they
make goes through `readAt`, which faults when a byte of it is not a
readable one. Lengths of the source's type `int` are integers.
-/

set_option autoImplicit false

namespace Muduo.Net

open Muduo.Base
open Muduo.Lib

/-- The functions of a protobuf message type that the codec calls. -/
structure Protobuf (M : Type) where
  byteSize : M → Nat
  /-- The bytes that `SerializeWithCachedSizesToArray` writes. -/
  serializeWithCachedSizesToArray : M → List UInt8
  parseFromArray : List UInt8 → Option M

namespace ProtobufCodecLite

def kHeaderLen : Nat := 4
def kChecksumLen : Nat := 4
def kMaxMessageLen : Nat := 64 * 1024 * 1024

inductive ErrorCode where
  | kNoError
  | kInvalidLength
  | kCheckSumError
  | kInvalidNameLen
  | kUnknownMessageType
  | kParseError
  deriving DecidableEq, Repr

/-- A call that `onMessage` makes. -/
inductive Call (M : Type) where
  | rawCb (frame : List UInt8) (receiveTime : Timestamp)
  | messageCallback (message : M) (receiveTime : Timestamp)
  | errorCallback (errorCode : ErrorCode) (receiveTime : Timestamp)
  deriving DecidableEq, Repr

/-- The messages that calls deliver, in order. -/
def delivered {M : Type} (calls : List (Call M)) : List M :=
  calls.filterMap fun
    | .messageCallback message _ => some message
    | _ => none

/-- The errors that calls report, in order. -/
def errors {M : Type} (calls : List (Call M)) : List ErrorCode :=
  calls.filterMap fun
    | .errorCallback e _ => some e
    | _ => none

/-- What stops the codec: a fault of the buffer, an `assert` of
`fillEmptyBuffer`, a read of a byte that is not readable, a loop that does
not end, or protobuf's check of the size it has announced. -/
inductive Fault where
  | buffer (f : Buffer.Fault)
  | fillEmptyBuffer
  | outsideReadable
  | diverges
  | byteSizeConsistencyError
  deriving DecidableEq, Repr

end ProtobufCodecLite

open ProtobufCodecLite in
/-- `ProtobufCodecLite`. `kMinMessageLen` and the sum with `kHeaderLen` are
`int`s, which bounds the tag. -/
structure ProtobufCodecLite (M : Type) where
  protobuf : Protobuf M
  adler32 : Nat → List UInt8 → Nat
  tag_ : List UInt8
  rawCb_ : Option (List UInt8 → Timestamp → Bool)
  tag_lt : tag_.length + kChecksumLen + kHeaderLen < 2 ^ 31

namespace ProtobufCodecLite

variable {M : Type}

def kMinMessageLen (c : ProtobufCodecLite M) : Nat := c.tag_.length + kChecksumLen

/-! ### Reading -/

/-- The `len` bytes of the vector at index `p`, all of which must be
readable. -/
def readAt (b : Buffer) (p len : Int) : Except Fault (List UInt8) :=
  if 0 ≤ len ∧ b.peek ≤ p ∧ p + len ≤ b.beginWrite then
    .ok (slice b.buffer_ p.toNat len.toNat)
  else .error .outsideReadable

def asInt32 (b : Buffer) (buf : Int) : Except Fault (BitVec 32) := do
  let be32 ← readAt b buf 4
  return BitVec.ofNat 32 (BigEndian.ofBytes be32)

/-- `checksum`. `adler32` takes the length as a `uInt`. -/
def checksum (c : ProtobufCodecLite M) (b : Buffer) (buf len : Int) :
    Except Fault (BitVec 32) := do
  let bytes ← readAt b buf (len % 2 ^ 32)
  return BitVec.ofNat 32 (c.adler32 1 bytes)

def validateChecksum (c : ProtobufCodecLite M) (b : Buffer) (buf len : Int) :
    Except Fault Bool := do
  let expectedCheckSum ← asInt32 b (buf + len - kChecksumLen)
  let checkSum ← c.checksum b buf (len - kChecksumLen)
  return checkSum = expectedCheckSum

def parseFromBuffer (c : ProtobufCodecLite M) (b : Buffer) (data dataLen : Int) :
    Except Fault (Option M) := do
  let bytes ← readAt b data dataLen
  return c.protobuf.parseFromArray bytes

/-- `parse`: the message where the source returns `kNoError`. -/
def parse (c : ProtobufCodecLite M) (b : Buffer) (buf len : Int) :
    Except Fault (Except ErrorCode M) := do
  if ← c.validateChecksum b buf len then
    let head ← readAt b buf c.tag_.length
    if head = c.tag_ then
      let data := buf + c.tag_.length
      let dataLen := len - kChecksumLen - c.tag_.length
      match ← c.parseFromBuffer b data dataLen with
      | some message => return .ok message
      | none => return .error .kParseError
    else return .error .kUnknownMessageType
  else return .error .kCheckSumError

/-! ### `onMessage` -/

/-- The state of the loop: the buffer and the calls made so far. -/
abbrev Progress (M : Type) := Buffer × List (Call M)

def retrieve (b : Buffer) (len : Int) : Except Fault Buffer :=
  (b.retrieve (intToSize len)).mapError .buffer

/-- The part of a round that `rawCb_` does not skip. -/
def deliver (c : ProtobufCodecLite M) (receiveTime : Timestamp) (p : Progress M) (len : Int) :
    Except Fault (Next (Progress M) (Progress M)) := do
  match ← c.parse p.1 (p.1.peek + kHeaderLen) len with
  | .ok message =>
      let b ← retrieve p.1 (kHeaderLen + len)
      return .again (b, p.2 ++ [.messageCallback message receiveTime])
  | .error errorCode => return .stop (p.1, p.2 ++ [.errorCallback errorCode receiveTime])

/-- One round of the `while` loop. `break` is `stop`. -/
def round (c : ProtobufCodecLite M) (receiveTime : Timestamp) (p : Progress M) :
    Except Fault (Next (Progress M) (Progress M)) := do
  if p.1.readableBytes < c.kMinMessageLen + kHeaderLen then
    return .stop p
  else
    let len ← (p.1.peekInt32.map BitVec.toInt).mapError .buffer
    if len > kMaxMessageLen ∨ len < c.kMinMessageLen then
      return .stop (p.1, p.2 ++ [.errorCallback .kInvalidLength receiveTime])
    else if intToSize (kHeaderLen + len) ≤ p.1.readableBytes then
      match c.rawCb_ with
      | none => c.deliver receiveTime p len
      | some rawCb =>
          let frame ← readAt p.1 p.1.peek (kHeaderLen + len)
          let p' := (p.1, p.2 ++ [.rawCb frame receiveTime])
          if rawCb frame receiveTime then
            c.deliver receiveTime p' len
          else
            let b ← retrieve p.1 (kHeaderLen + len)
            return .again (b, p'.2)
    else
      return .stop p

/-- `onMessage`. Every further round comes after a `retrieve` of at least
one byte, so the loop has no more rounds than there are bytes. -/
def onMessage (c : ProtobufCodecLite M) (b : Buffer) (receiveTime : Timestamp) :
    Except Fault (Progress M) :=
  loop (c.round receiveTime) .diverges (b.readableBytes + 1) (b, [])

/-- What a connection does with each chunk that arrives: `append`, then
`onMessage`. -/
def receiveChunk (c : ProtobufCodecLite M) (p : Progress M) (chunk : Chunk) :
    Except Fault (Progress M) := do
  let b ← (p.1.append chunk.1.bytes).mapError .buffer
  let r ← c.onMessage b chunk.2
  return (r.1, p.2 ++ r.2)

def receive (c : ProtobufCodecLite M) (b : Buffer) (chunks : List Chunk) :
    Except Fault (Progress M) :=
  chunks.foldlM c.receiveChunk (b, [])

/-! ### Encoding -/

/-- `serializeToBuffer`: `byte_size` and the buffer after the call. -/
def serializeToBuffer (c : ProtobufCodecLite M) (message : M) (b : Buffer) :
    Except Fault (Nat × Buffer) := do
  let byte_size := c.protobuf.byteSize message
  let b ← (b.ensureWritableBytes (byte_size + kChecksumLen)).mapError .buffer
  let written := c.protobuf.serializeWithCachedSizesToArray message
  let v ← (Buffer.copyInto b.buffer_ b.beginWrite written).mapError .buffer
  assertThat (written.length = byte_size) .byteSizeConsistencyError
  let b ← (Buffer.hasWritten { b with buffer_ := v } byte_size).mapError .buffer
  return (byte_size, b)

def fillEmptyBuffer (c : ProtobufCodecLite M) (b : Buffer) (message : M) :
    Except Fault Buffer := do
  assertThat (b.readableBytes = 0) .fillEmptyBuffer
  let b ← (b.append c.tag_).mapError .buffer
  let (byte_size, b) ← c.serializeToBuffer message b
  let checkSum ← c.checksum b b.peek (BitVec.ofNat 32 b.readableBytes).toInt
  let b ← (b.appendInt32 checkSum).mapError .buffer
  assertThat (b.readableBytes = c.tag_.length + byte_size + kChecksumLen) .fillEmptyBuffer
  let len := BitVec.ofNat 32 b.readableBytes
  (b.prepend (BigEndian.toBytes 4 len.toNat)).mapError .buffer

end ProtobufCodecLite

end Muduo.Net
