import Muduo.Lib.Transition
import Mathlib.Algebra.Group.Nat.Defs

/-!
# `Muduo.Net.EventLoop`: the task queue of a loop

`EventLoop::loop`, `quit`, `queueInLoop`, `wakeup`, `handleRead` and
`doPendingFunctors` of `muduo/net/EventLoop.cc`, with the loop thread and any
number of other threads.

A call of `queueInLoop` has two steps: `push_back` under the mutex, and then,
for other threads and while `callingPendingFunctors_` is set, the write to
`wakeupFd_`. Anything of another thread can happen between the two.

The loop thread runs user code in three places: in channel handlers, in
functors, and in the destructors of functors. The last place is the end of
`doPendingFunctors`. `functors` is a local variable, so its elements are
destroyed when the function returns, after `callingPendingFunctors_` is
false again.

`wakeupFd_` is an eventfd: a write adds one to its counter and a read sets
the counter to zero. `poll` reports it only when the counter is not zero.

The type of the functors is a parameter. `pushed`, `executed` and `calls`
record what happened, and no function reads them.
-/

set_option autoImplicit false

namespace Muduo.Net

open Muduo.Lib

namespace EventLoop

/-- A functor in a queue. `number` is its place in the sequence of all
`push_back`s. `queuedIn` is the call of `doPendingFunctors` that was running
the functor which queued this one. -/
structure Task (φ : Type) where
  functor : φ
  number : Nat
  queuedIn : Option Nat
  deriving DecidableEq, Repr

/-- Where the loop thread is. -/
inductive Place where
  /-- At `while (!quit_)`. -/
  | top
  | polling
  /-- In the loop over `activeChannels_`. `wakeup` says that the wakeup
  channel is one of those still to handle. -/
  | handling (wakeup : Bool)
  /-- In `doPendingFunctors`, before the swap. -/
  | swapping
  /-- In the loop over `functors`, `busy` in one of them. -/
  | running (busy : Bool)
  /-- At the end of `doPendingFunctors`, in the destructor of `functors`. -/
  | destroying
  /-- `loop()` has returned. -/
  | exited
  deriving DecidableEq, Repr

end EventLoop

/-- The loop and the threads in `queueInLoop` and `quit`. `functors` is the
local vector of `doPendingFunctors` and `rest` the part of it still to run.
`waking` has the numbers of the tasks whose thread has pushed and not yet
written. `owesWakeup` says the same of the loop thread. -/
structure EventLoop (φ : Type) where
  place : EventLoop.Place
  quit_ : Bool
  callingPendingFunctors_ : Bool
  pendingFunctors_ : List (EventLoop.Task φ)
  functors : List (EventLoop.Task φ)
  rest : List (EventLoop.Task φ)
  wakeupFd_ : Nat
  waking : List Nat
  owesWakeup : Bool
  quitting : Nat
  pushed : List (EventLoop.Task φ)
  executed : List (EventLoop.Task φ × Nat)
  calls : Nat

namespace EventLoop

variable {φ : Type}

inductive Event (φ : Type) where
  -- other threads
  | push (f : φ)
  | wakeup (number : Nat)
  | quit
  | quitWakeup
  -- user code in the loop thread
  | loopPush (f : φ)
  | loopWakeup
  | loopQuit
  -- the loop thread
  | enterPoll
  | leaveLoop
  | pollReturn (wakeup : Bool)
  | handleRead
  | endHandling
  | swap
  | runFunctor
  | functorReturn
  | endRunning
  | destroyFunctor
  | returnFromFunctors
  deriving DecidableEq

/-- The loop thread can be in user code. -/
def inUserCode (s : EventLoop φ) : Bool :=
  match s.place with
  | .handling _ => true
  | .running busy => busy
  | .destroying => !s.functors.isEmpty
  | _ => false

/-- `queueInLoop` is a call like any other: the loop thread goes on when it
has returned. -/
def enabled (s : EventLoop φ) : Event φ → Bool
  | .push _ => true
  | .wakeup number => decide (number ∈ s.waking)
  | .quit => true
  | .quitWakeup => decide (0 < s.quitting)
  | .loopPush _ => s.inUserCode && !s.owesWakeup
  | .loopWakeup => s.owesWakeup
  | .loopQuit => s.inUserCode && !s.owesWakeup
  | .enterPoll => s.place == .top && !s.quit_
  | .leaveLoop => s.place == .top && s.quit_
  -- other channels may be ready with the eventfd or without it
  | .pollReturn wakeup => s.place == .polling && (!wakeup || decide (0 < s.wakeupFd_))
  | .handleRead => s.place == .handling true
  | .endHandling => s.place == .handling false
  | .swap => s.place == .swapping
  | .runFunctor => s.place == .running false && !s.rest.isEmpty
  | .functorReturn => s.place == .running true && !s.owesWakeup
  | .endRunning => s.place == .running false && s.rest.isEmpty
  | .destroyFunctor => s.place == .destroying && !s.functors.isEmpty
  | .returnFromFunctors => s.place == .destroying && s.functors.isEmpty

/-- The call of `doPendingFunctors` whose functor is running. -/
def currentCall (s : EventLoop φ) : Option Nat :=
  match s.place with
  | .running true => some s.calls
  | _ => none

/-- `pendingFunctors_.push_back(cb)`. -/
def pushBack (s : EventLoop φ) (task : Task φ) : EventLoop φ :=
  { s with
    pendingFunctors_ := s.pendingFunctors_ ++ [task]
    pushed := s.pushed ++ [task] }

/-- The write of `wakeup`. It fails when the counter is at its maximum,
which leaves the eventfd readable. -/
def write (counter : Nat) : Nat := if counter < 2 ^ 64 - 2 then counter + 1 else counter

def step (s : EventLoop φ) : Event φ → Except Empty (EventLoop φ)
  | .push f =>
      return { s.pushBack ⟨f, s.pushed.length, none⟩ with waking := s.pushed.length :: s.waking }
  | .wakeup number =>
      return { s with wakeupFd_ := write s.wakeupFd_, waking := s.waking.erase number }
  | .quit => return { s with quit_ := true, quitting := s.quitting + 1 }
  | .quitWakeup => return { s with wakeupFd_ := write s.wakeupFd_, quitting := s.quitting - 1 }
  -- `!isInLoopThread()` is false, so the flag decides about the write
  | .loopPush f =>
      return { s.pushBack ⟨f, s.pushed.length, s.currentCall⟩ with
        owesWakeup := s.callingPendingFunctors_ }
  | .loopWakeup => return { s with wakeupFd_ := write s.wakeupFd_, owesWakeup := false }
  | .loopQuit => return { s with quit_ := true }
  | .enterPoll => return { s with place := .polling }
  | .leaveLoop => return { s with place := .exited }
  | .pollReturn wakeup => return { s with place := .handling wakeup }
  | .handleRead => return { s with place := .handling false, wakeupFd_ := 0 }
  | .endHandling =>
      return { s with place := .swapping, callingPendingFunctors_ := true, calls := s.calls + 1 }
  | .swap =>
      return { s with
        place := .running false
        functors := s.pendingFunctors_
        rest := s.pendingFunctors_
        pendingFunctors_ := [] }
  | .runFunctor =>
      match s.rest with
      | [] => return s
      | task :: rest =>
          return { s with
            place := .running true
            rest := rest
            executed := s.executed ++ [(task, s.calls)] }
  | .functorReturn => return { s with place := .running false }
  -- the elements of `functors` are still there
  | .endRunning => return { s with place := .destroying, callingPendingFunctors_ := false }
  | .destroyFunctor => return { s with functors := s.functors.tail }
  | .returnFromFunctors => return { s with place := .top }

/-- The loop and the other threads as a machine. -/
def machine (φ : Type) : Machine (EventLoop φ) (Event φ) Empty where
  enabled s e := enabled s e = true
  step := step

instance (s : EventLoop φ) (e : Event φ) : Decidable ((machine φ).enabled s e) :=
  inferInstanceAs (Decidable (enabled s e = true))

/-- `loop()` has been entered. -/
def init (φ : Type) : EventLoop φ :=
  ⟨.top, false, false, [], [], [], 0, [], false, 0, [], [], 0⟩

/-- The destructor of a functor does not call `queueInLoop`. -/
def QuietDestructors (s : EventLoop φ) : Event φ → Prop
  | .loopPush _ => s.place ≠ .destroying
  | _ => True

instance (s : EventLoop φ) (e : Event φ) : Decidable (QuietDestructors s e) :=
  match e with
  | .loopPush _ => inferInstanceAs (Decidable (s.place ≠ .destroying))
  | .push _ | .wakeup _ | .quit | .quitWakeup | .loopWakeup | .loopQuit | .enterPoll | .leaveLoop
  | .pollReturn _ | .handleRead | .endHandling | .swap | .runFunctor | .functorReturn
  | .endRunning | .destroyFunctor | .returnFromFunctors => isTrue trivial

/-- The loop thread may block in `poll`: nothing is queued, or `poll` will
return for the eventfd, or the thread of a queued functor is about to write
to it. -/
def MayPoll (s : EventLoop φ) : Prop :=
  s.pendingFunctors_ ≠ [] →
    0 < s.wakeupFd_ ∨ ∃ task ∈ s.pendingFunctors_, task.number ∈ s.waking

end EventLoop

end Muduo.Net
