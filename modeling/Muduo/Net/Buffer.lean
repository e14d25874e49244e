import Muduo.Base.Types
import Muduo.Lib.BigEndian
import Muduo.Lib.Search
import Muduo.Lib.Slice
import Muduo.Lib.Transition

/-!
# `Muduo.Net.Buffer`: the byte buffer of `muduo/net/Buffer.h`

    +-------------------+------------------+------------------+
    | prependable bytes |  readable bytes  |  writable bytes  |
    +-------------------+------------------+------------------+
    0      <=      readerIndex   <=   writerIndex    <=     size

`buffer_` is the `std::vector<char>`, as the list of its bytes, and a
`char*` into it is an index. Every `assert` of the source is an
`assertThat` with a fault of its own, and a `std::copy` that leaves the
vector is the fault `outOfBounds`. `resize` throws `lengthError` above
`maxSize`. All index arithmetic is `size_t` arithmetic.
-/

set_option autoImplicit false

namespace Muduo.Net

open Muduo.Base
open Muduo.Lib

/-- `Buffer`. -/
structure Buffer where
  buffer_ : List UInt8
  readerIndex_ : Nat
  writerIndex_ : Nat
  deriving DecidableEq, Repr

namespace Buffer

/-- What stops an operation: a failed `assert`, named by the function it
stands in, an access outside the vector, or `std::length_error`. -/
inductive Fault where
  | ctor
  | retrieve
  | retrieveUntil
  | retrieveAsString
  | ensureWritableBytes
  | hasWritten
  | unwrite
  | prepend
  | makeSpaceReader
  | makeSpaceReadable
  | peekInt (bytes : Nat)
  | outOfBounds
  | lengthError
  deriving DecidableEq, Repr

def kCheapPrepend : Nat := 8
def kInitialSize : Nat := 1024

def readableBytes (b : Buffer) : Nat := subSize b.writerIndex_ b.readerIndex_
def writableBytes (b : Buffer) : Nat := subSize b.buffer_.length b.writerIndex_
def prependableBytes (b : Buffer) : Nat := b.readerIndex_

/-- `peek()`, as an index. -/
def peek (b : Buffer) : Nat := b.readerIndex_

/-- `beginWrite()`, as an index. -/
def beginWrite (b : Buffer) : Nat := b.writerIndex_

/-- The bytes between `peek()` and `beginWrite()`. -/
def readable (b : Buffer) : List UInt8 := slice b.buffer_ b.peek b.readableBytes

/-! ### The vector -/

/-- `buffer_.resize(n)`. New bytes are zero. -/
def resizeVector (v : List UInt8) (n : Nat) : Except Fault (List UInt8) :=
  if n ≤ maxSize then .ok (resize v n 0) else .error .lengthError

/-- `std::copy(d, d+len, begin()+dst)` from memory outside the vector. -/
def copyInto (v : List UInt8) (dst : Nat) (data : List UInt8) : Except Fault (List UInt8) :=
  if dst + data.length ≤ v.length then .ok (overwrite v dst data) else .error .outOfBounds

/-- `std::copy(begin()+first, begin()+last, begin()+dst)`: the elements
move one by one, the first one first. -/
def copyWithin (v : List UInt8) (first last dst : Nat) : Except Fault (List UInt8) :=
  if first ≤ last ∧ last ≤ v.length ∧ dst + (last - first) ≤ v.length then
    .ok (copyForward (last - first) v first dst)
  else .error .outOfBounds

/-! ### The operations -/

/-- `Buffer(initialSize)`. -/
def ctor (initialSize : Nat) : Except Fault Buffer := do
  let v ← resizeVector [] (addSize kCheapPrepend initialSize)
  let b : Buffer := ⟨v, kCheapPrepend, kCheapPrepend⟩
  assertThat (b.readableBytes = 0) .ctor
  assertThat (b.writableBytes = initialSize) .ctor
  assertThat (b.prependableBytes = kCheapPrepend) .ctor
  return b

/-- A `Buffer` with the default initial size, as the members of
`TcpConnection` are built. -/
def default : Buffer :=
  ⟨List.replicate (kCheapPrepend + kInitialSize) 0, kCheapPrepend, kCheapPrepend⟩

def retrieveAll (b : Buffer) : Buffer :=
  { b with readerIndex_ := kCheapPrepend, writerIndex_ := kCheapPrepend }

def retrieve (b : Buffer) (len : Nat) : Except Fault Buffer := do
  assertThat (len ≤ b.readableBytes) .retrieve
  if len < b.readableBytes then
    return { b with readerIndex_ := addSize b.readerIndex_ len }
  else
    return b.retrieveAll

/-- `retrieveUntil(end)`, with `stop` the index of `end`. -/
def retrieveUntil (b : Buffer) (stop : Nat) : Except Fault Buffer := do
  assertThat (b.peek ≤ stop) .retrieveUntil
  assertThat (stop ≤ b.beginWrite) .retrieveUntil
  b.retrieve (stop - b.peek)

/-- `retrieveAsString(len)`: the string and the buffer after it. -/
def retrieveAsString (b : Buffer) (len : Nat) : Except Fault (List UInt8 × Buffer) := do
  assertThat (len ≤ b.readableBytes) .retrieveAsString
  let result := slice b.buffer_ b.peek len
  let b' ← b.retrieve len
  return (result, b')

def retrieveAllAsString (b : Buffer) : Except Fault (List UInt8 × Buffer) :=
  b.retrieveAsString b.readableBytes

def makeSpace (b : Buffer) (len : Nat) : Except Fault Buffer := do
  if addSize b.writableBytes b.prependableBytes < addSize len kCheapPrepend then
    -- the vector grows behind the readable bytes, which stay where they are
    let v ← resizeVector b.buffer_ (addSize b.writerIndex_ len)
    return { b with buffer_ := v }
  else
    -- move readable data to the front, make space inside buffer
    assertThat (kCheapPrepend < b.readerIndex_) .makeSpaceReader
    let readable := b.readableBytes
    let v ← copyWithin b.buffer_ b.readerIndex_ b.writerIndex_ kCheapPrepend
    let b' : Buffer := ⟨v, kCheapPrepend, addSize kCheapPrepend readable⟩
    assertThat (readable = b'.readableBytes) .makeSpaceReadable
    return b'

def ensureWritableBytes (b : Buffer) (len : Nat) : Except Fault Buffer := do
  let b' ← if b.writableBytes < len then b.makeSpace len else pure b
  assertThat (len ≤ b'.writableBytes) .ensureWritableBytes
  return b'

def hasWritten (b : Buffer) (len : Nat) : Except Fault Buffer := do
  assertThat (len ≤ b.writableBytes) .hasWritten
  return { b with writerIndex_ := addSize b.writerIndex_ len }

/-- `append(data, len)`. -/
def append (b : Buffer) (data : List UInt8) : Except Fault Buffer := do
  let b' ← b.ensureWritableBytes data.length
  let v ← copyInto b'.buffer_ b'.beginWrite data
  hasWritten { b' with buffer_ := v } data.length

def unwrite (b : Buffer) (len : Nat) : Except Fault Buffer := do
  assertThat (len ≤ b.readableBytes) .unwrite
  return { b with writerIndex_ := subSize b.writerIndex_ len }

/-- `prepend(data, len)`. -/
def prepend (b : Buffer) (data : List UInt8) : Except Fault Buffer := do
  assertThat (data.length ≤ b.prependableBytes) .prepend
  let readerIndex := subSize b.readerIndex_ data.length
  let v ← copyInto b.buffer_ readerIndex data
  return { b with buffer_ := v, readerIndex_ := readerIndex }

/-- What a caller does around `hasWritten`: write `data` at
`beginWrite()`, then report its length. -/
def writeThenHasWritten (b : Buffer) (data : List UInt8) : Except Fault Buffer := do
  assertThat (data.length ≤ b.writableBytes) .hasWritten
  let v ← copyInto b.buffer_ b.beginWrite data
  hasWritten { b with buffer_ := v } data.length

/-! ### Lines -/

/-- `Buffer::kCRLF`. -/
def kCRLF : List UInt8 := [13, 10]

/-- `findCRLF()`: the index of the first CRLF among the readable bytes. -/
def findCRLF (b : Buffer) : Option Nat := (search kCRLF b.readable).map (b.peek + ·)

/-! ### Integers in network byte order -/

/-- `appendInt64` and its narrower siblings, for an integer of `n` bytes. -/
def appendInt {n : Nat} (b : Buffer) (x : BitVec (8 * n)) : Except Fault Buffer :=
  b.append (BigEndian.toBytes n x.toNat)

def appendInt64 (b : Buffer) (x : BitVec 64) : Except Fault Buffer := appendInt (n := 8) b x
def appendInt32 (b : Buffer) (x : BitVec 32) : Except Fault Buffer := appendInt (n := 4) b x
def appendInt16 (b : Buffer) (x : BitVec 16) : Except Fault Buffer := appendInt (n := 2) b x

/-- `appendInt8`: one byte has no byte order. -/
def appendInt8 (b : Buffer) (x : BitVec 8) : Except Fault Buffer := b.append [UInt8.ofBitVec x]

/-- `peekInt64` and its narrower siblings, for an integer of `n` bytes. -/
def peekInt (b : Buffer) (n : Nat) : Except Fault (BitVec (8 * n)) := do
  assertThat (n ≤ b.readableBytes) (.peekInt n)
  return BitVec.ofNat (8 * n) (BigEndian.ofBytes (slice b.buffer_ b.peek n))

def peekInt64 (b : Buffer) : Except Fault (BitVec 64) := b.peekInt 8
def peekInt32 (b : Buffer) : Except Fault (BitVec 32) := b.peekInt 4
def peekInt16 (b : Buffer) : Except Fault (BitVec 16) := b.peekInt 2

/-- `peekInt8`: the byte at `peek()`. -/
def peekInt8 (b : Buffer) : Except Fault (BitVec 8) := do
  assertThat (1 ≤ b.readableBytes) (.peekInt 1)
  match b.buffer_[b.peek]? with
  | some x => return x.toBitVec
  | none => .error .outOfBounds

def retrieveInt64 (b : Buffer) : Except Fault Buffer := b.retrieve 8
def retrieveInt32 (b : Buffer) : Except Fault Buffer := b.retrieve 4
def retrieveInt16 (b : Buffer) : Except Fault Buffer := b.retrieve 2
def retrieveInt8 (b : Buffer) : Except Fault Buffer := b.retrieve 1

/-- `readInt64` and its narrower siblings: what `peek` returns, and the
buffer after `retrieve`. -/
def readWith {α : Type} (peek : Except Fault α) (retrieve : Except Fault Buffer) :
    Except Fault (α × Buffer) := do
  let result ← peek
  let b' ← retrieve
  return (result, b')

def readInt64 (b : Buffer) : Except Fault (BitVec 64 × Buffer) := readWith b.peekInt64 b.retrieveInt64
def readInt32 (b : Buffer) : Except Fault (BitVec 32 × Buffer) := readWith b.peekInt32 b.retrieveInt32
def readInt16 (b : Buffer) : Except Fault (BitVec 16 × Buffer) := readWith b.peekInt16 b.retrieveInt16
def readInt8 (b : Buffer) : Except Fault (BitVec 8 × Buffer) := readWith b.peekInt8 b.retrieveInt8

/-- `prependInt64` and its narrower siblings, for an integer of `n` bytes. -/
def prependInt {n : Nat} (b : Buffer) (x : BitVec (8 * n)) : Except Fault Buffer :=
  b.prepend (BigEndian.toBytes n x.toNat)

def prependInt64 (b : Buffer) (x : BitVec 64) : Except Fault Buffer := prependInt (n := 8) b x
def prependInt32 (b : Buffer) (x : BitVec 32) : Except Fault Buffer := prependInt (n := 4) b x
def prependInt16 (b : Buffer) (x : BitVec 16) : Except Fault Buffer := prependInt (n := 2) b x

/-- `prependInt8`: one byte has no byte order. -/
def prependInt8 (b : Buffer) (x : BitVec 8) : Except Fault Buffer := b.prepend [UInt8.ofBitVec x]

/-! ### A smaller vector -/

/-- `toStringPiece()`. The number of readable bytes becomes an `int`. -/
def toStringPiece (b : Buffer) : StringPiece :=
  ⟨b.buffer_.drop b.peek, (BitVec.ofNat 32 b.readableBytes).toInt⟩

/-- `append(data, len)`, with `data` the bytes that can be read from the
pointer on. -/
def appendFrom (b : Buffer) (data : List UInt8) (len : Nat) : Except Fault Buffer := do
  let b' ← b.ensureWritableBytes len
  assertThat (len ≤ data.length) .outOfBounds
  let v ← copyInto b'.buffer_ b'.beginWrite (data.take len)
  hasWritten { b' with buffer_ := v } len

/-- `append(str)`. The length goes from `int` to `size_t`. -/
def appendStringPiece (b : Buffer) (str : StringPiece) : Except Fault Buffer :=
  b.appendFrom str.ptr_ (intToSize str.length_)

/-- `shrink(reserve)`. After `swap(other)` the buffer is `other`. -/
def shrink (b : Buffer) (reserve : Nat) : Except Fault Buffer := do
  let other ← default.ensureWritableBytes (addSize b.readableBytes reserve)
  other.appendStringPiece b.toStringPiece

/-! ### Reading from a socket -/

/-- What `readv` reports: the bytes it delivered, or `-1` with `errno`. -/
inductive ReadResult where
  | delivered (bytes : List UInt8)
  | failed
  deriving DecidableEq, Repr

/-- `sizeof extrabuf`. -/
def extrabufSize : Nat := 65536

/-- `readFd`: the buffer after the call and the result of `readv`, which
delivers no more than the buffers it is offered hold. -/
def readFd (b : Buffer) (r : ReadResult) : Except Fault (Buffer × Int) := do
  let writable := b.writableBytes
  -- when there is enough space in this buffer, don't read into extrabuf
  let offered := if writable < extrabufSize then writable + extrabufSize else writable
  match r with
  | .failed => return (b, -1)
  | .delivered bytes =>
      let data := bytes.take offered
      if data.length ≤ writable then
        let v ← copyInto b.buffer_ b.writerIndex_ data
        return ({ b with buffer_ := v, writerIndex_ := addSize b.writerIndex_ data.length },
          data.length)
      else
        -- `vec[0]` is full and the rest is in `extrabuf`
        let v ← copyInto b.buffer_ b.writerIndex_ (data.take writable)
        let b' ← append { b with buffer_ := v, writerIndex_ := v.length } (data.drop writable)
        return (b', data.length)

end Buffer

end Muduo.Net
