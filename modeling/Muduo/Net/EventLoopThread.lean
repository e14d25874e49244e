import Muduo.Net.EventLoop

/-!
# `Muduo.Net.EventLoopThread`: a loop in a thread of its own

`muduo/net/EventLoopThread.cc`. There are two threads. The owner calls
`startLoop` and later destroys the `EventLoopThread`. The other one is in
`threadFunc`: it constructs the `EventLoop`, runs `callback_`, publishes the
loop in `loop_` and enters `loop()`.

The loop itself is the one of `Muduo.Net.EventLoop`. Here it also has a time
before `loop()`. From its construction on other threads can know it, from
`callback_` or from `startLoop`, and call `queueInLoop` and `quit`. `callback_`
does the same in the loop thread. `loop()` sets `quit_` to false when it is
entered.

The loop is a local variable of `threadFunc`. The destructor of
`EventLoopThread` calls `quit()` on it after a look at `loop_` without the
mutex, and by then it may be gone. No other thread calls it that late.

`quitCalled` says that `quit()` has been called, and `polls` counts the calls
of `poll`. No function reads them.
-/

set_option autoImplicit false

namespace Muduo.Net

open Muduo.Lib

namespace EventLoopThread

/-- Where the loop thread is in `threadFunc`. -/
inductive Stage where
  /-- `startLoop` has not been called. -/
  | created
  | started
  /-- The `EventLoop` exists, and `callback_` may be running. -/
  | callback
  /-- `loop_` is set. -/
  | published
  | looping
  /-- `loop_` is `NULL` again, and the `EventLoop` is destroyed. -/
  | ended
  deriving DecidableEq, Repr

/-- Where the owner is. -/
inductive Owner where
  | before
  /-- In `startLoop`, waiting for `loop_`. -/
  | waiting
  /-- `startLoop` has returned. -/
  | running
  /-- In the destructor, with a `loop_` that is not `NULL`. -/
  | quitting
  /-- In `quit()`, after `quit_ = true`. -/
  | waking
  | joining
  | destroyed
  deriving DecidableEq, Repr

/-- The `assert` of `startLoop`, or a call of `quit()` by the destructor on a
loop that is destroyed. -/
inductive Fault where
  | startedTwice
  | quitAfterFree
  deriving DecidableEq, Repr

end EventLoopThread

/-- The two threads and the loop. `loop_` says that the pointer is not
`NULL`. -/
structure EventLoopThread (φ : Type) where
  loop : EventLoop φ
  stage : EventLoopThread.Stage
  loop_ : Bool
  owner : EventLoopThread.Owner
  quitCalled : Bool
  polls : Nat

namespace EventLoopThread

variable {φ : Type}

inductive Event (φ : Type) where
  -- the owner
  | startLoop
  | startLoopReturns
  | destroy
  | destroyQuit
  | destroyWakeup
  | join
  -- `threadFunc`
  | construct
  | callbackPush (f : φ)
  | callbackQuit
  | publish
  | enterLoop
  | finish
  -- `loop()`, and other threads in `queueInLoop` and `quit`
  | inLoop (e : EventLoop.Event φ)
  deriving DecidableEq

/-- The `EventLoop` is there. -/
def Stage.hasLoop : Stage → Bool
  | .callback | .published | .looping => true
  | .created | .started | .ended => false

/-- The event is one of another thread. -/
def isRemote : EventLoop.Event φ → Bool
  | .push _ | .wakeup _ | .quit | .quitWakeup => true
  | _ => false

def enabled (s : EventLoopThread φ) : Event φ → Bool
  | .startLoop => s.owner == .before
  | .startLoopReturns => s.owner == .waiting && s.loop_
  | .destroy => s.owner == .running
  | .destroyQuit => s.owner == .quitting
  | .destroyWakeup => s.owner == .waking
  | .join => s.owner == .joining && s.stage == .ended
  | .construct => s.stage == .started
  | .callbackPush _ => s.stage == .callback
  | .callbackQuit => s.stage == .callback
  | .publish => s.stage == .callback
  | .enterLoop => s.stage == .published
  | .finish => s.stage == .looping && s.loop.place == .exited
  | .inLoop e =>
      (if isRemote e then s.stage.hasLoop else s.stage == .looping) && EventLoop.enabled s.loop e

/-- The event is a call of `quit()`. -/
def isQuit : EventLoop.Event φ → Bool
  | .quit | .loopQuit => true
  | _ => false

/-- The event is a call of `poll`. -/
def isPoll : EventLoop.Event φ → Bool
  | .enterPoll => true
  | _ => false

/-- A step of the loop. -/
def stepLoop (s : EventLoopThread φ) (e : EventLoop.Event φ) :
    Except Fault (EventLoopThread φ) := do
  let loop ← (EventLoop.step s.loop e).mapError Empty.elim
  return { s with
    loop := loop
    quitCalled := s.quitCalled || isQuit e
    polls := if isPoll e then s.polls + 1 else s.polls }

def step (s : EventLoopThread φ) : Event φ → Except Fault (EventLoopThread φ)
  | .startLoop => do
      assertThat (s.stage = .created) .startedTwice
      return { s with owner := .waiting, stage := .started }
  | .startLoopReturns => return { s with owner := .running }
  -- `loop_` is read without the mutex
  | .destroy => return { s with owner := if s.loop_ then .quitting else .destroyed }
  | .destroyQuit => do
      assertThat (s.stage.hasLoop = true) .quitAfterFree
      return { s with
        loop := { s.loop with quit_ := true }
        owner := .waking
        quitCalled := true }
  | .destroyWakeup => do
      assertThat (s.stage.hasLoop = true) .quitAfterFree
      return { s with
        loop := { s.loop with wakeupFd_ := EventLoop.write s.loop.wakeupFd_ }
        owner := .joining }
  | .join => return { s with owner := .destroyed }
  | .construct => return { s with stage := .callback, loop := EventLoop.init φ }
  -- the loop thread itself: no wakeup, as `callingPendingFunctors_` is false
  | .callbackPush f => s.stepLoop (.loopPush f)
  | .callbackQuit => s.stepLoop .loopQuit
  | .publish => return { s with stage := .published, loop_ := true }
  | .enterLoop => return { s with stage := .looping, loop := { s.loop with quit_ := false } }
  | .finish => return { s with stage := .ended, loop_ := false }
  | .inLoop e => s.stepLoop e

/-- The two threads as a machine. -/
def machine (φ : Type) : Machine (EventLoopThread φ) (Event φ) Fault where
  enabled s e := enabled s e = true
  step := step

instance (s : EventLoopThread φ) (e : Event φ) : Decidable ((machine φ).enabled s e) :=
  inferInstanceAs (Decidable (enabled s e = true))

/-- A new `EventLoopThread`. -/
def init (φ : Type) : EventLoopThread φ := ⟨EventLoop.init φ, .created, false, .before, false, 0⟩

/-- `quit()` is called when `loop()` has been entered, and `callback_` does
not call `queueInLoop`. -/
def WaitsForLoop (s : EventLoopThread φ) : Event φ → Prop
  | .callbackPush _ => False
  | .callbackQuit => False
  | .destroyQuit => s.stage = .looping
  | .inLoop e => isQuit e = true → s.stage = .looping
  | _ => True

instance (s : EventLoopThread φ) (e : Event φ) : Decidable (WaitsForLoop s e) :=
  match e with
  | .callbackPush _ | .callbackQuit => isFalse False.elim
  | .destroyQuit => inferInstanceAs (Decidable (s.stage = .looping))
  | .inLoop e => inferInstanceAs (Decidable (isQuit e = true → s.stage = .looping))
  | .startLoop | .startLoopReturns | .destroy | .destroyWakeup | .join | .construct | .publish
  | .enterLoop | .finish => isTrue trivial

end EventLoopThread

end Muduo.Net
