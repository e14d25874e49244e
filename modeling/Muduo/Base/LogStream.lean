import Muduo.Base.Types
import Muduo.Lib.Checked
import Muduo.Lib.Decoder
import Muduo.Lib.Slice

/-!
# `Muduo.Base.LogStream`: `muduo/base/LogStream.h` and `LogStream.cc`

`FixedBuffer<SIZE>` is an array of `SIZE` bytes with a pointer `cur_` behind
the bytes in use. There are two models of it. `FixedBuffer` is for code that
goes through `append` only. It never reads the bytes behind `cur_`, so the
model keeps the bytes in use, and the bound on their number.

`LogStream` also writes behind `cur_` by hand: `convert`, `convertHex` and
`snprintf` are given the pointer before their length is known. Its model has
the whole array, and a write outside of it is the fault `outOfBounds`. A
pointer into the array is an index.

`convert` and `convertHex` are the same loop over two digit tables. `putDigit`
is its body, with the base and the table as parameters. An argument that is
a pointer to `const char` is the list of the bytes that can be read from it.
-/

set_option autoImplicit false

namespace Muduo.Base

open Muduo.Lib

def kSmallBuffer : Nat := 4000

def kLargeBuffer : Nat := 4000 * 1000

/-- `FixedBuffer<SIZE>`: the bytes from `data_` to `cur_`. -/
structure FixedBuffer (SIZE : Nat) where
  data : List UInt8
  length_le : data.length ≤ SIZE
  deriving DecidableEq

namespace FixedBuffer

variable {SIZE : Nat}

/-- A new buffer, `cur_` at its start. -/
def new (SIZE : Nat) : FixedBuffer SIZE := ⟨[], Nat.zero_le SIZE⟩

def length (b : FixedBuffer SIZE) : Nat := b.data.length

def avail (b : FixedBuffer SIZE) : Nat := SIZE - b.data.length

/-- `append`: bytes that do not fit are dropped, all of them. -/
def append (b : FixedBuffer SIZE) (buf : List UInt8) : FixedBuffer SIZE :=
  if h : buf.length < b.avail then
    ⟨b.data ++ buf, by
      rw [avail] at h
      rw [List.length_append]
      omega⟩
  else b

def reset (_ : FixedBuffer SIZE) : FixedBuffer SIZE := new SIZE

end FixedBuffer

/-! ### Integers as text -/

/-- An integer type: its width, and whether it has a sign. -/
structure IntType where
  bits : Nat
  signed : Bool
  deriving DecidableEq, Repr

namespace IntType

/-- The values of the type. -/
def Contains (T : IntType) (x : Int) : Prop :=
  if T.signed then InRange T.bits x else 0 ≤ x ∧ x < 2 ^ T.bits

instance (T : IntType) (x : Int) : Decidable (T.Contains x) :=
  inferInstanceAs (Decidable (if T.signed then InRange T.bits x else 0 ≤ x ∧ x < 2 ^ T.bits))

def int : IntType := ⟨32, true⟩
def unsignedInt : IntType := ⟨32, false⟩
def long : IntType := ⟨64, true⟩
def unsignedLong : IntType := ⟨64, false⟩
def longLong : IntType := ⟨64, true⟩
def unsignedLongLong : IntType := ⟨64, false⟩
def uintptr : IntType := ⟨64, false⟩

end IntType

namespace LogStream

/-- What can go wrong while a log line is put together. -/
inductive Fault where
  | outOfBounds
  | overflow
  | diverges
  /-- The `assert` of `Fmt`. -/
  | fmtLength
  deriving DecidableEq, Repr

/-- The result `x` of an operation in the type `T`. The types without a sign
wrap around. A type narrower than `int` is computed in `int`, where there is
more room than here. -/
def fit (T : IntType) (x : Int) : Except Fault Int :=
  if T.Contains x then .ok x
  else if T.signed then .error .overflow
  else .ok (x % 2 ^ T.bits)

/-- `table[k]`. -/
def load (table : List UInt8) (k : Int) : Except Fault UInt8 := do
  assertThat (0 ≤ k ∧ k < table.length) .outOfBounds
  return table.getD k.toNat 0

/-- `*p = x`. -/
def store (mem : List UInt8) (p : Nat) (x : UInt8) : Except Fault (List UInt8) := do
  assertThat (p < mem.length) .outOfBounds
  return mem.set p x

/-- `memcpy(p, src, len)`. -/
def memcpy (mem : List UInt8) (p : Nat) (src : List UInt8) (len : Nat) :
    Except Fault (List UInt8) := do
  assertThat (len ≤ src.length ∧ p + len ≤ mem.length) .outOfBounds
  return overwrite mem p (src.take len)

/-- `digits`, with the terminating byte. -/
def digits : List UInt8 :=
  ascii ['9', '8', '7', '6', '5', '4', '3', '2', '1', '0', '1', '2', '3', '4', '5', '6', '7', '8',
    '9'] ++ [0]

/-- `zero`: the index of the middle of `digits`. -/
def zero : Int := 9

/-- `digitsHex`, with the terminating byte. -/
def digitsHex : List UInt8 :=
  ascii ['0', '1', '2', '3', '4', '5', '6', '7', '8', '9', 'A', 'B', 'C', 'D', 'E', 'F'] ++ [0]

/-- The variables of a conversion: the memory, `p` and `i`. -/
structure Digits where
  mem : List UInt8
  p : Nat
  i : Int

/-- One round of the `do` loop: the last digit of `i` goes to `*p++`. The digit
`d` is `table[origin + d]`. -/
def putDigit (T : IntType) (base : Int) (table : List UInt8) (origin : Int) (s : Digits) :
    Except Fault (Next Digits Digits) := do
  let lsd ← fit T (s.i.tmod base)
  let i ← fit T (s.i.tdiv base)
  let digit ← load table (origin + lsd.bmod (2 ^ 32))
  let mem ← store s.mem s.p digit
  return if i ≠ 0 then .again ⟨mem, s.p + 1, i⟩ else .stop ⟨mem, s.p + 1, i⟩

/-- `convert(buf, value)`, with the memory after it. -/
def convert (T : IntType) (mem : List UInt8) (buf : Nat) (value : Int) :
    Except Fault (List UInt8 × Nat) := do
  let s ← loop (putDigit T 10 digits zero) .diverges (value.natAbs + 1) ⟨mem, buf, value⟩
  let mem ← if value < 0 then store s.mem s.p 45 else pure s.mem
  let p := if value < 0 then s.p + 1 else s.p
  let mem ← store mem p 0
  return (reverseRange mem buf (p - buf), p - buf)

/-- `convertHex(buf, value)`, with the memory after it. -/
def convertHex (mem : List UInt8) (buf : Nat) (value : BitVec 64) :
    Except Fault (List UInt8 × Nat) := do
  let s ← loop (putDigit IntType.uintptr 16 digitsHex 0) .diverges (value.toNat + 1)
    ⟨mem, buf, value.toNat⟩
  let mem ← store s.mem s.p 0
  return (reverseRange mem buf (s.p - buf), s.p - buf)

end LogStream

/-! ### The stream -/

/-- `LogStream`. Its one member is a `FixedBuffer<kSmallBuffer>`: the array
`data_`, and `cur_`. -/
structure LogStream where
  data_ : List UInt8
  cur_ : Nat
  deriving DecidableEq, Repr

/-- `Fmt`: the text that `snprintf` has put into `buf_`, whose length the
constructor has checked. -/
structure Fmt where
  text : List UInt8
  length_lt : text.length < 32
  deriving DecidableEq

/-- `Fmt(fmt, val)`, with `text` what `fmt` makes of the value. -/
def Fmt.ctor (text : List UInt8) : Except LogStream.Fault Fmt :=
  if h : text.length < 32 then .ok ⟨text, h⟩ else .error .fmtLength

namespace LogStream

def kMaxNumericSize : Int := 32

/-- A new stream. The array is not initialized. -/
def new (data_ : List UInt8) : LogStream := ⟨data_, 0⟩

/-- `length()`: a difference of pointers, as an `int`. -/
def length (s : LogStream) : Int := (s.cur_ : Int).bmod (2 ^ 32)

/-- `avail()`: a difference of pointers, as an `int`. -/
def avail (s : LogStream) : Int := ((kSmallBuffer : Int) - s.cur_).bmod (2 ^ 32)

/-- `FixedBuffer::append`. -/
def append (s : LogStream) (buf : List UInt8) (len : Nat) : Except Fault LogStream := do
  if len < intToSize s.avail then
    let data ← memcpy s.data_ s.cur_ buf len
    return ⟨data, s.cur_ + len⟩
  else
    return s

/-- `append(data, len)` of the stream. The length is an `int`. -/
def appendInt (s : LogStream) (data : List UInt8) (len : Int) : Except Fault LogStream :=
  s.append data (intToSize len)

def resetBuffer (s : LogStream) : LogStream := { s with cur_ := 0 }

/-- `strlen`. -/
def strlen (str : List UInt8) : Nat := (str.takeWhile (· ≠ 0)).length

def insertBool (s : LogStream) (v : Bool) : Except Fault LogStream :=
  s.append (ascii (if v then ['1'] else ['0'])) 1

def insertChar (s : LogStream) (v : UInt8) : Except Fault LogStream := s.append [v] 1

/-- `operator<<(const char* str)`, with `none` for a null pointer. -/
def insertCString (s : LogStream) (str : Option (List UInt8)) : Except Fault LogStream :=
  match str with
  | some str => s.append str (strlen str)
  | none => s.append (ascii ['(', 'n', 'u', 'l', 'l', ')']) 6

def insertString (s : LogStream) (v : StdString) : Except Fault LogStream :=
  s.append v.bytes v.bytes.length

def insertStringPiece (s : LogStream) (v : StringPiece) : Except Fault LogStream :=
  s.append v.ptr_ (intToSize v.length_)

/-- `operator<<(const Buffer& v)`, with `v` the buffer of another stream. -/
def insertBuffer (s v : LogStream) : Except Fault LogStream :=
  s.insertStringPiece ⟨v.data_, v.length⟩

def insertFmt (s : LogStream) (fmt : Fmt) : Except Fault LogStream :=
  s.appendInt fmt.text fmt.text.length

/-- `formatInteger(v)`. -/
def formatInteger (T : IntType) (s : LogStream) (v : Int) : Except Fault LogStream := do
  if kMaxNumericSize ≤ s.avail then
    let (data, len) ← convert T s.data_ s.cur_ v
    return ⟨data, s.cur_ + len⟩
  else
    return s

def insertInt (s : LogStream) (v : BitVec 32) : Except Fault LogStream :=
  formatInteger IntType.int s v.toInt

def insertUnsignedInt (s : LogStream) (v : BitVec 32) : Except Fault LogStream :=
  formatInteger IntType.unsignedInt s v.toNat

def insertShort (s : LogStream) (v : BitVec 16) : Except Fault LogStream :=
  s.insertInt (v.signExtend 32)

def insertUnsignedShort (s : LogStream) (v : BitVec 16) : Except Fault LogStream :=
  s.insertUnsignedInt (v.setWidth 32)

def insertLong (s : LogStream) (v : BitVec 64) : Except Fault LogStream :=
  formatInteger IntType.long s v.toInt

def insertUnsignedLong (s : LogStream) (v : BitVec 64) : Except Fault LogStream :=
  formatInteger IntType.unsignedLong s v.toNat

def insertLongLong (s : LogStream) (v : BitVec 64) : Except Fault LogStream :=
  formatInteger IntType.longLong s v.toInt

def insertUnsignedLongLong (s : LogStream) (v : BitVec 64) : Except Fault LogStream :=
  formatInteger IntType.unsignedLongLong s v.toNat

/-- `operator<<(const void* p)`. -/
def insertPointer (s : LogStream) (p : BitVec 64) : Except Fault LogStream := do
  if kMaxNumericSize ≤ s.avail then
    let data ← store s.data_ s.cur_ 48
    let data ← store data (s.cur_ + 1) 120
    let (data, len) ← convertHex data (s.cur_ + 2) p
    return ⟨data, s.cur_ + (len + 2)⟩
  else
    return s

/-- `operator<<(double v)`, with `text` what `"%.12g"` makes of `v`. `snprintf`
writes at most `kMaxNumericSize` bytes, the terminating one included, and
returns the length of the whole text. -/
def insertDouble (s : LogStream) (text : List UInt8) : Except Fault LogStream := do
  if kMaxNumericSize ≤ s.avail then
    let written := text.take (kMaxNumericSize.toNat - 1) ++ [0]
    let data ← memcpy s.data_ s.cur_ written written.length
    return ⟨data, s.cur_ + text.length⟩
  else
    return s

/-- What can be inserted into a stream. -/
inductive Insertion where
  | bool (v : Bool)
  | char (v : UInt8)
  | cString (str : Option (List UInt8))
  | string (v : StdString)
  | stringPiece (v : StringPiece)
  | buffer (v : LogStream)
  | fmt (v : Fmt)
  | append (data : List UInt8) (len : Int)
  | short (v : BitVec 16)
  | unsignedShort (v : BitVec 16)
  | int (v : BitVec 32)
  | unsignedInt (v : BitVec 32)
  | long (v : BitVec 64)
  | unsignedLong (v : BitVec 64)
  | longLong (v : BitVec 64)
  | unsignedLongLong (v : BitVec 64)
  | pointer (p : BitVec 64)
  | double (text : List UInt8)
  deriving DecidableEq

/-- The operator for each kind of insertion. -/
def insert (s : LogStream) : Insertion → Except Fault LogStream
  | .bool v => s.insertBool v
  | .char v => s.insertChar v
  | .cString str => s.insertCString str
  | .string v => s.insertString v
  | .stringPiece v => s.insertStringPiece v
  | .buffer v => s.insertBuffer v
  | .fmt v => s.insertFmt v
  | .append data len => s.appendInt data len
  | .short v => s.insertShort v
  | .unsignedShort v => s.insertUnsignedShort v
  | .int v => s.insertInt v
  | .unsignedInt v => s.insertUnsignedInt v
  | .long v => s.insertLong v
  | .unsignedLong v => s.insertUnsignedLong v
  | .longLong v => s.insertLongLong v
  | .unsignedLongLong v => s.insertUnsignedLongLong v
  | .pointer p => s.insertPointer p
  | .double text => s.insertDouble text

/-- A call on a stream. -/
inductive Event where
  | insert (i : Insertion)
  | resetBuffer
  deriving DecidableEq

def call (s : LogStream) : Event → Except Fault LogStream
  | .insert i => s.insert i
  | .resetBuffer => .ok s.resetBuffer

/-- A sequence of calls. -/
def calls (s : LogStream) (events : List Event) : Except Fault LogStream := events.foldlM call s

/-- The bytes from `data_` to `cur_`. -/
def contents (s : LogStream) : List UInt8 := s.data_.take s.cur_

end LogStream

end Muduo.Base
