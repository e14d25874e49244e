import Muduo.Base.LogStream
import Muduo.Lib.Numeral
import Muduo.Lib.Transition

/-!
# `Muduo.Base.AsyncLogging`: the two sides of `muduo/base/AsyncLogging.cc`

The front end is `append`, which any thread can call. It fills
`currentBuffer_` and moves full buffers to `buffers_`, all under the lock.
The back end is the thread of `threadFunc`. In each cycle it takes the full
buffers and the current one, gives its two spare buffers in exchange, and
writes what it took to the `LogFile` without the lock. Then it makes new
spare buffers from written ones.

A step of the machine at the end is one critical section, or a piece of
`threadFunc` between two accesses to what the threads share. `Point` says
where the back end is. It waits on the condition for `flushInterval_`
seconds at most, so it can always wake up.

A `unique_ptr` is an `Option`: a move leaves `none` behind, and a use of
`none` is the fault `nullPointer`. Every buffer has its address in `id`.
Three members record what has happened: `lines` has the appended lines in
the order of the lock, `cycles` what each cycle collected, and `output`
what the `LogFile` has been given.
-/

set_option autoImplicit false

namespace Muduo.Base

open Muduo.Lib

namespace AsyncLogging

/-- A `Buffer` on the heap. -/
structure Buffer where
  id : Nat
  fixed : FixedBuffer kLargeBuffer
  deriving DecidableEq

/-- `std::unique_ptr<Buffer>`. -/
abbrev BufferPtr := Option Buffer

abbrev BufferVector := List BufferPtr

/-- What stops a thread: a failed `assert`, or a null pointer that is
used. -/
inductive Fault where
  | notRunning
  | spare1
  | spare2
  | leftover
  | nothingCollected
  | refill1
  | refill2
  | nullPointer
  deriving DecidableEq, Repr

/-- Where the back end is. -/
inductive Point where
  /-- `start()` has not been called. -/
  | created
  /-- At the start of `threadFunc`. -/
  | starting
  /-- Before the test of the loop. -/
  | test
  /-- Before the lock. -/
  | lock
  /-- In `waitForSeconds`, which has released the lock. -/
  | waiting
  /-- Behind the critical section. -/
  | collected
  /-- In the loop over `buffersToWrite`, before its element `k`. -/
  | writing (k : Nat)
  /-- Behind that loop. -/
  | written
  /-- `threadFunc` has returned. -/
  | exited
  deriving DecidableEq, Repr

/-- The local variables of `threadFunc`. -/
structure Backend where
  point : Point
  newBuffer1 : BufferPtr
  newBuffer2 : BufferPtr
  buffersToWrite : BufferVector
  deriving DecidableEq

/-- The contents of the buffers that a cycle collected, and the time at
which it counted them. -/
structure Cycle where
  buffers : List (List UInt8)
  time : List UInt8
  deriving DecidableEq

end AsyncLogging

open AsyncLogging in
/-- `AsyncLogging` with its thread. `fresh` is the address of the next new
buffer. -/
structure AsyncLogging where
  running_ : Bool
  currentBuffer_ : BufferPtr
  nextBuffer_ : BufferPtr
  buffers_ : BufferVector
  back : Backend
  fresh : Nat
  lines : List (List UInt8)
  cycles : List Cycle
  output : List UInt8
  deriving DecidableEq

namespace AsyncLogging

def deref : BufferPtr → Except Fault Buffer
  | some b => .ok b
  | none => .error .nullPointer

/-- `new Buffer`. -/
def newBuffer (id : Nat) : Buffer := ⟨id, FixedBuffer.new kLargeBuffer⟩

def Buffer.append (b : Buffer) (logline : List UInt8) : Buffer :=
  { b with fixed := b.fixed.append logline }

def Buffer.reset (b : Buffer) : Buffer := { b with fixed := b.fixed.reset }

/-- The constructor. -/
def init : AsyncLogging where
  running_ := false
  currentBuffer_ := some (newBuffer 0)
  nextBuffer_ := some (newBuffer 1)
  buffers_ := []
  back := ⟨.created, none, none, []⟩
  fresh := 2
  lines := []
  cycles := []
  output := []

def append (s : AsyncLogging) (logline : List UInt8) : Except Fault AsyncLogging := do
  let current ← deref s.currentBuffer_
  let lines := s.lines ++ [logline]
  if logline.length < current.fixed.avail then
    return { s with currentBuffer_ := some (current.append logline), lines }
  else
    let buffers := s.buffers_ ++ [some current]
    match s.nextBuffer_ with
    | some next =>
        return { s with currentBuffer_ := some (next.append logline), nextBuffer_ := none,
                        buffers_ := buffers, lines }
    | none =>
        return { s with currentBuffer_ := some ((newBuffer s.fresh).append logline),
                        buffers_ := buffers, fresh := s.fresh + 1, lines }

/-! ### The back end -/

def setPoint (s : AsyncLogging) (point : Point) : AsyncLogging :=
  { s with back := { s.back with point } }

/-- `threadFunc` up to its loop. -/
def enter (s : AsyncLogging) : Except Fault AsyncLogging := do
  assertThat (s.running_ = true) .notRunning
  return { s with back := ⟨.test, some (newBuffer s.fresh), some (newBuffer (s.fresh + 1)), []⟩,
                  fresh := s.fresh + 2 }

/-- `newBuffer && newBuffer->length() == 0`. -/
def isSpare : BufferPtr → Bool
  | some b => b.fixed.length == 0
  | none => false

/-- The test of the loop, and the `assert`s at the head of its body. -/
def test (s : AsyncLogging) : Except Fault AsyncLogging :=
  if s.running_ then do
    assertThat (isSpare s.back.newBuffer1 = true) .spare1
    assertThat (isSpare s.back.newBuffer2 = true) .spare2
    assertThat (s.back.buffersToWrite = []) .leftover
    return s.setPoint .lock
  else return s.setPoint .exited

/-- The critical section behind the wait. -/
def collect (s : AsyncLogging) : AsyncLogging :=
  let buffers := s.buffers_ ++ [s.currentBuffer_]
  -- `buffersToWrite.swap(buffers_)`
  { s with
    currentBuffer_ := s.back.newBuffer1
    nextBuffer_ := if s.nextBuffer_ = none then s.back.newBuffer2 else s.nextBuffer_
    buffers_ := s.back.buffersToWrite
    back :=
      { point := .collected
        newBuffer1 := none
        newBuffer2 := if s.nextBuffer_ = none then none else s.back.newBuffer2
        buffersToWrite := buffers } }

/-- The critical section up to the wait. -/
def lock (s : AsyncLogging) : AsyncLogging :=
  if s.buffers_ = [] then s.setPoint .waiting else s.collect

/-- The notice, as `snprintf` writes it to `char buf[256]` and `strlen`
reads it; `%zd` shows the `size_t` as a signed number. -/
def droppedNotice (time : List UInt8) (size : Nat) : List UInt8 :=
  ((ascii "Dropped log messages at ".toList ++ time ++ ascii ", ".toList ++
    decimalText (((size - 2 : Nat) : Int).bmod (2 ^ 64)) ++
      ascii " larger buffers\n".toList).take 255).takeWhile (· ≠ 0)

def content : BufferPtr → List UInt8
  | some b => b.fixed.data
  | none => []

/-- Behind the critical section: too many buffers are dropped. -/
def prepare (s : AsyncLogging) (time : List UInt8) : Except Fault AsyncLogging := do
  let toWrite := s.back.buffersToWrite
  assertThat (toWrite ≠ []) .nothingCollected
  let cycle : Cycle := ⟨toWrite.map content, time⟩
  let s := { s with cycles := s.cycles ++ [cycle] }
  if 25 < toWrite.length then
    return { s with output := s.output ++ droppedNotice time toWrite.length,
                    back := { s.back with point := .writing 0, buffersToWrite := toWrite.take 2 } }
  else return s.setPoint (.writing 0)

/-- One round of the loop over `buffersToWrite`, or its end. -/
def write (s : AsyncLogging) (k : Nat) : Except Fault AsyncLogging :=
  match s.back.buffersToWrite[k]? with
  | some ptr => do
      let buffer ← deref ptr
      let s := { s with output := s.output ++ buffer.fixed.data }
      return s.setPoint (.writing (k + 1))
  | none => return s.setPoint .written

/-- `if (!newBuffer)`: the last buffer of `buffersToWrite` becomes the spare
one. -/
def refill (newBuffer : BufferPtr) (toWrite : BufferVector) (fault : Fault) :
    Except Fault (BufferPtr × BufferVector) :=
  match newBuffer with
  | some b => return (some b, toWrite)
  | none => do
      assertThat (toWrite ≠ []) fault
      let b ← deref (toWrite.getLast?.join)
      return (some b.reset, toWrite.dropLast)

/-- The rest of the body. -/
def recycle (s : AsyncLogging) : Except Fault AsyncLogging := do
  -- `resize(2)` of a longer vector
  let toWrite := s.back.buffersToWrite.take 2
  let (newBuffer1, toWrite) ← refill s.back.newBuffer1 toWrite .refill1
  let (newBuffer2, _) ← refill s.back.newBuffer2 toWrite .refill2
  return { s with back := ⟨.test, newBuffer1, newBuffer2, []⟩ }

/-! ### The machine -/

inductive Event where
  | append (logline : List UInt8)
  | start
  | stop
  -- the back end
  | enter
  | test
  | lock
  | wake
  | prepare (time : List UInt8)
  | write
  | recycle
  deriving DecidableEq

/-- The lines are shorter than `kLargeBuffer`. `stop()` is called once, when
`start()` has returned. -/
def enabled (s : AsyncLogging) : Event → Bool
  | .append logline => decide (logline.length < kLargeBuffer)
  | .start => s.back.point == .created
  | .stop => s.running_ && s.back.point != .created && s.back.point != .starting
  | .enter => s.back.point == .starting
  | .test => s.back.point == .test
  | .lock => s.back.point == .lock
  | .wake => s.back.point == .waiting
  | .prepare _ => s.back.point == .collected
  | .write =>
      match s.back.point with
      | .writing _ => true
      | _ => false
  | .recycle => s.back.point == .written

def step (s : AsyncLogging) : Event → Except Fault AsyncLogging
  | .append logline => s.append logline
  | .start => return { s.setPoint .starting with running_ := true }
  | .stop => return { s with running_ := false }
  | .enter => s.enter
  | .test => s.test
  | .lock => return s.lock
  | .wake => return s.collect
  | .prepare time => s.prepare time
  | .write =>
      match s.back.point with
      | .writing k => s.write k
      | _ => return s
  | .recycle => s.recycle

/-- The two sides as a machine. -/
def machine : Machine AsyncLogging Event Fault where
  enabled s e := enabled s e = true
  step := step

instance (s : AsyncLogging) (e : Event) : Decidable (machine.enabled s e) :=
  inferInstanceAs (Decidable (enabled s e = true))

end AsyncLogging

end Muduo.Base
