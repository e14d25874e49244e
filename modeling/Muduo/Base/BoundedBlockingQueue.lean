import Muduo.Lib.Threads
import Muduo.Lib.Transition

/-!
# `Muduo.Base.BoundedBlockingQueue`: a bounded queue between threads

`put` and `take` of `muduo/base/BoundedBlockingQueue.h`, with any number of
threads in either. The two overloads of `put` differ in how the value gets
into the queue, not in what they do.

What a thread does between taking the mutex and giving it up is one step: it
looks at the queue, and either goes to sleep on its condition variable or
finishes its call. Between two such steps anything can happen. A woken
thread has to take the mutex again, and a thread that has just entered may
come before it.

`queue_` is a `boost::circular_buffer`: it is full when it has as many
elements as its capacity. `puts` and `takes` record the values in the order
of the critical sections. No function reads them.
-/

set_option autoImplicit false

namespace Muduo.Base

open Muduo.Lib

/-- The queue, the threads that call `put`, of the type `π`, and those that
call `take`, of the type `κ`. -/
structure BoundedBlockingQueue (T π κ : Type) where
  queue_ : List T
  capacity : Nat
  putters : π → Waits T
  takers : κ → Waits Unit
  puts : List T
  takes : List T

namespace BoundedBlockingQueue

variable {T π κ : Type}

/-- The two `assert`s. -/
inductive Fault where
  | putFull
  | takeEmpty
  deriving DecidableEq, Repr

/-- `queue_.full()`. -/
def full (s : BoundedBlockingQueue T π κ) : Bool := s.queue_.length == s.capacity

/-- `queue_.empty()`. -/
def empty (s : BoundedBlockingQueue T π κ) : Bool := s.queue_.isEmpty

section

variable [DecidableEq π] [DecidableEq κ]

/-- The critical section of `put`, from the test of the loop on. `pick` is
the thread that `notEmpty_.notify()` wakes. -/
def put (s : BoundedBlockingQueue T π κ) (t : π) (x : T) (pick : Option κ) :
    Except Fault (BoundedBlockingQueue T π κ) := do
  if s.full then
    -- notFull_.wait()
    return { s with putters := Function.update s.putters t (.asleep x) }
  else
    assertThat (s.full = false) .putFull
    return { s with
      queue_ := s.queue_ ++ [x]
      putters := Function.update s.putters t .outside
      takers := notify Waits.wake s.takers pick
      puts := s.puts ++ [x] }

/-- The critical section of `take`, from the test of the loop on. `pick` is
the thread that `notFull_.notify()` wakes. -/
def take (s : BoundedBlockingQueue T π κ) (t : κ) (pick : Option π) :
    Except Fault (BoundedBlockingQueue T π κ) := do
  if s.empty then
    -- notEmpty_.wait()
    return { s with takers := Function.update s.takers t (.asleep ()) }
  else
    match s.queue_ with
    | [] => .error .takeEmpty
    | front :: rest =>
        return { s with
          queue_ := rest
          putters := notify Waits.wake s.putters pick
          takers := Function.update s.takers t .outside
          takes := s.takes ++ [front] }

end

inductive Event (T π κ : Type) where
  /-- A call of `put`. -/
  | put (t : π) (x : T) (pick : Option κ)
  /-- A thread in `put` that was woken has the mutex again. -/
  | putAgain (t : π) (pick : Option κ)
  /-- A thread in `put` wakes without a notification. -/
  | putWakes (t : π)
  | take (t : κ) (pick : Option π)
  | takeAgain (t : κ) (pick : Option π)
  | takeWakes (t : κ)
  deriving DecidableEq

variable [Fintype π] [Fintype κ]

def enabled (s : BoundedBlockingQueue T π κ) : Event T π κ → Bool
  | .put t _ pick => !(s.putters t).isInside && picks Waits.isAsleep s.takers pick
  | .putAgain t pick => (s.putters t).recheck.isSome && picks Waits.isAsleep s.takers pick
  | .putWakes t => (s.putters t).isAsleep
  | .take t pick => !(s.takers t).isInside && picks Waits.isAsleep s.putters pick
  | .takeAgain t pick => (s.takers t).recheck.isSome && picks Waits.isAsleep s.putters pick
  | .takeWakes t => (s.takers t).isAsleep

variable [DecidableEq π] [DecidableEq κ]

def step (s : BoundedBlockingQueue T π κ) :
    Event T π κ → Except Fault (BoundedBlockingQueue T π κ)
  | .put t x pick => s.put t x pick
  | .putAgain t pick =>
      match (s.putters t).recheck with
      | some x => s.put t x pick
      | none => return s
  | .putWakes t =>
      return { s with putters := Function.update s.putters t (s.putters t).spurious }
  | .take t pick => s.take t pick
  | .takeAgain t pick =>
      match (s.takers t).recheck with
      | some () => s.take t pick
      | none => return s
  | .takeWakes t =>
      return { s with takers := Function.update s.takers t (s.takers t).spurious }

/-- The queue and its threads as a machine. -/
def machine (T π κ : Type) [Fintype π] [Fintype κ] [DecidableEq π] [DecidableEq κ] :
    Machine (BoundedBlockingQueue T π κ) (Event T π κ) Fault where
  enabled s e := enabled s e = true
  step := step

instance (s : BoundedBlockingQueue T π κ) (e : Event T π κ) :
    Decidable ((machine T π κ).enabled s e) :=
  inferInstanceAs (Decidable (enabled s e = true))

/-- `BoundedBlockingQueue(maxSize)`. -/
def init (T π κ : Type) (maxSize : Nat) : BoundedBlockingQueue T π κ :=
  ⟨[], maxSize, fun _ => .outside, fun _ => .outside, [], []⟩

end BoundedBlockingQueue

end Muduo.Base
