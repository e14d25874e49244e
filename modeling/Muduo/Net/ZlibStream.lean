import Mathlib.Algebra.Group.Int.Defs
import Muduo.Net.Buffer

/-!
# `Muduo.Net.ZlibStream`: the compressing stream of `muduo/net/ZlibStream.h`

`ZlibOutputStream` gives its input to `deflate` through `next_in` and
`avail_in`, and appends what comes out to `output_`. Both overloads of `write`
set the two members. They are not the same in what they leave behind:
`write(StringPiece)` gives `deflate` everything and sets `next_in` back to
`NULL`, `write(Buffer*)` calls `deflate` once and takes what was consumed out of
the buffer.

`deflate` is not modelled. Each call of it is an `Answer`: how much it
consumes, what it produces and what it returns. A call of the stream comes with
the answers to the calls of `deflate` that it makes. An answer that `deflate`
cannot give is the fault `illegal`, and one that is missing is `starved`.
Neither is a fault of the program.

`fed` records the bytes that `deflate` has consumed. The session at the end
adds what the callers have given away, in `taken`.
-/

set_option autoImplicit false

namespace Muduo.Net

open Muduo.Base
open Muduo.Lib

namespace Zlib

/-- The return values that matter here. -/
inductive Code where
  | Z_OK
  | Z_STREAM_END
  | Z_MEM_ERROR
  deriving DecidableEq, Repr

inductive Flush where
  | Z_NO_FLUSH
  | Z_FINISH
  deriving DecidableEq, Repr

/-- What one call of `deflate` does. -/
structure Answer where
  consumed : Nat
  produced : List UInt8
  code : Code
  deriving DecidableEq, Repr

/-- The return values without an error. The stream ends when it is told to and has no input left. -/
def Answer.LegalCode (a : Answer) (availIn : Nat) : Flush → Prop
  | .Z_NO_FLUSH => a.code = .Z_OK
  | .Z_FINISH => a.code = .Z_OK ∨ (a.code = .Z_STREAM_END ∧ a.consumed = availIn)

instance (a : Answer) (availIn : Nat) (flush : Flush) : Decidable (a.LegalCode availIn flush) :=
  match flush with
  | .Z_NO_FLUSH => inferInstanceAs (Decidable (a.code = .Z_OK))
  | .Z_FINISH =>
      inferInstanceAs (Decidable (a.code = .Z_OK ∨ (a.code = .Z_STREAM_END ∧ a.consumed = availIn)))

/-- What `deflate` can answer: it consumes a part of the input from its start, and produces no
more than there is room for. -/
def Answer.Legal (a : Answer) (flush : Flush) (availIn availOut : Nat) : Prop :=
  a.consumed ≤ availIn ∧ a.produced.length ≤ availOut ∧ a.LegalCode availIn flush

instance (a : Answer) (flush : Flush) (availIn availOut : Nat) :
    Decidable (a.Legal flush availIn availOut) := inferInstanceAs (Decidable (_ ∧ _ ∧ _))

/-- A pointer to input: the memory it points into, and where. -/
structure Input where
  mem : List UInt8
  pos : Nat
  deriving DecidableEq, Repr

/-- The two `assert`s of `write`, a fault of one of the buffers, or an answer of `deflate` that
cannot be or is missing. -/
inductive Fault where
  | nextIn
  | atEnd
  | output (f : Buffer.Fault)
  | input (f : Buffer.Fault)
  | illegal
  | starved
  deriving DecidableEq, Repr

/-- The faults that are not the program's. -/
def Fault.Environment (f : Fault) : Prop := f = .illegal ∨ f = .starved

instance (f : Fault) : Decidable f.Environment := inferInstanceAs (Decidable (_ ∨ _))

end Zlib

/-- `ZlibOutputStream`, with the members of `zstream_` that it uses. -/
structure ZlibOutputStream where
  output_ : Buffer
  next_in : Option Zlib.Input := none
  avail_in : Nat := 0
  zerror_ : Zlib.Code := .Z_OK
  bufferSize_ : Nat := 1024
  fed : List UInt8 := []
  deriving DecidableEq, Repr

namespace ZlibOutputStream

open Zlib

/-- `ZlibOutputStream(output)`, with what `deflateInit` returns. -/
def new (output : Buffer) (init : Code) : ZlibOutputStream := { output_ := output, zerror_ := init }

/-- The input that `deflate` has not consumed. -/
def pending (z : ZlibOutputStream) : List UInt8 :=
  match z.next_in with
  | some i => slice i.mem i.pos z.avail_in
  | none => []

/-- The part of `deflate` that concerns the input. -/
def consume (z : ZlibOutputStream) (n : Nat) : ZlibOutputStream :=
  { z with
    next_in := z.next_in.map fun i => ⟨i.mem, i.pos + n⟩
    avail_in := z.avail_in - n
    fed := z.fed ++ z.pending.take n }

/-- `bufferSize_` after a call of `deflate`. -/
def nextBufferSize (output : Buffer) (bufferSize : Nat) : Nat :=
  if output.writableBytes = 0 ∧ bufferSize < 65536 then bufferSize * 2 else bufferSize

/-- `compress(flush)`. The caller assigns the result to `zerror_`, which is done here. -/
def compress (z : ZlibOutputStream) (flush : Flush) (a : Answer) :
    Except Fault ZlibOutputStream := do
  let out ← (z.output_.ensureWritableBytes z.bufferSize_).mapError .output
  -- `avail_out` has 32 bits.
  let availOut := out.writableBytes % 2 ^ 32
  assertThat (a.Legal flush z.avail_in availOut) .illegal
  let v ← (Buffer.copyInto out.buffer_ out.beginWrite a.produced).mapError .output
  let out : Buffer := { out with buffer_ := v }
  let out ← (out.hasWritten
    (subSize out.writableBytes (availOut - a.produced.length))).mapError .output
  return { z.consume a.consumed with
    output_ := out
    bufferSize_ := nextBufferSize out z.bufferSize_
    zerror_ := a.code }

/-- The loop of `write(StringPiece)`. -/
def writeLoop : List Answer → ZlibOutputStream → Except Fault ZlibOutputStream
  | [], z => if 0 < z.avail_in ∧ z.zerror_ = .Z_OK then .error .starved else .ok z
  | a :: answers, z =>
      if 0 < z.avail_in ∧ z.zerror_ = .Z_OK then do
        let z ← z.compress .Z_NO_FLUSH a
        writeLoop answers z
      else .ok z

/-- The end of `write(StringPiece)`: `next_in` is set back when everything is consumed. -/
def release (z : ZlibOutputStream) (buf : StringPiece) : Except Fault ZlibOutputStream :=
  if z.avail_in = 0 then do
    assertThat (z.next_in = some ⟨buf.ptr_, buf.length_.toNat⟩) .atEnd
    return { z with next_in := none }
  else .ok z

/-- `write(buf)`. The stream after it. -/
def write (z : ZlibOutputStream) (buf : StringPiece) (answers : List Answer) :
    Except Fault ZlibOutputStream :=
  if z.zerror_ ≠ .Z_OK then .ok z
  else do
    assertThat (z.next_in = none ∧ z.avail_in = 0) .nextIn
    let z ← writeLoop answers
      { z with next_in := some ⟨buf.ptr_, 0⟩, avail_in := (buf.length_ % 2 ^ 32).toNat }
    z.release buf

/-- The call of `compress` in `write(Buffer*)`. -/
def compressOnce (z : ZlibOutputStream) (answers : List Answer) : Except Fault ZlibOutputStream :=
  if 0 < z.avail_in ∧ z.zerror_ = .Z_OK then
    match answers with
    | [] => .error .starved
    | a :: _ => z.compress .Z_NO_FLUSH a
  else .ok z

/-- `write(input)`. The stream and the buffer after it. -/
def writeBuffer (z : ZlibOutputStream) (input : Buffer) (answers : List Answer) :
    Except Fault (ZlibOutputStream × Buffer) :=
  if z.zerror_ ≠ .Z_OK then .ok (z, input)
  else do
    -- The cast to `int` and the assignment keep the low 32 bits.
    let z ← compressOnce
      { z with
        next_in := some ⟨input.buffer_, input.peek⟩
        avail_in := input.readableBytes % 2 ^ 32 } answers
    let input ← (input.retrieve (subSize input.readableBytes z.avail_in)).mapError .input
    return (z, input)

/-- The loop of `finish`. -/
def finishLoop : List Answer → ZlibOutputStream → Except Fault ZlibOutputStream
  | [], z => if z.zerror_ = .Z_OK then .error .starved else .ok z
  | a :: answers, z =>
      if z.zerror_ = .Z_OK then do
        let z ← z.compress .Z_FINISH a
        finishLoop answers z
      else .ok z

/-- `finish()`. The stream after it, which `deflateEnd` does not change. -/
def finish (z : ZlibOutputStream) (answers : List Answer) : Except Fault ZlibOutputStream :=
  if z.zerror_ ≠ .Z_OK then .ok z
  else do
    let z ← finishLoop answers z
    return { z with zerror_ := .Z_STREAM_END }

end ZlibOutputStream

/-! ### A session -/

namespace Zlib

/-- A stream in use. `taken` records the bytes of the pieces that were written and those that were
removed from input buffers, in this order. `buffered` says whether `write(Buffer*)` was called. -/
structure Session where
  stream : ZlibOutputStream
  taken : List UInt8 := []
  buffered : Bool := false
  deriving DecidableEq, Repr

inductive Event where
  | write (buf : StringPiece) (answers : List Answer)
  | writeBuffer (input : Buffer) (answers : List Answer)
  | finish (answers : List Answer)
  deriving DecidableEq, Repr

/-- The calls of `deflate` for an event, with their answers. -/
def Event.answers : Event → List Answer
  | .write _ answers | .writeBuffer _ answers | .finish answers => answers

/-- The bytes of a piece. -/
def pieceBytes (buf : StringPiece) : List UInt8 := buf.ptr_.take buf.length_.toNat

/-- The bytes that are gone from a buffer. -/
def removed (before after : Buffer) : List UInt8 :=
  before.readable.take (before.readableBytes - after.readableBytes)

/-- A call on the stream. On a stream that has ended `write` takes nothing. -/
def Session.step (s : Session) : Event → Except Fault Session
  | .write buf answers => do
      let z ← s.stream.write buf answers
      return { s with
        stream := z
        taken := s.taken ++ if s.stream.zerror_ = .Z_OK then pieceBytes buf else [] }
  | .writeBuffer input answers => do
      let (z, input') ← s.stream.writeBuffer input answers
      return { stream := z, taken := s.taken ++ removed input input', buffered := true }
  | .finish answers => do
      let z ← s.stream.finish answers
      return { s with stream := z }

/-- A call with arguments of its type. -/
def Event.Valid : Event → Prop
  | .write buf _ => 0 ≤ buf.length_ ∧ buf.length_ < 2 ^ 31 ∧ buf.length_ ≤ buf.ptr_.length
  | .writeBuffer input _ =>
      Buffer.kCheapPrepend ≤ input.buffer_.length ∧ input.readerIndex_ ≤ input.writerIndex_ ∧
        input.writerIndex_ ≤ input.buffer_.length ∧ input.buffer_.length ≤ maxSize
  | .finish _ => True

/-- The sessions of a stream. `deflate` gives an answer to every call, and one that it can give. -/
def sessionMachine : Machine Session Event Fault where
  enabled s e := e.Valid ∧ ∀ f, s.step e = .error f → ¬ f.Environment
  step := Session.step

end Zlib

end Muduo.Net
