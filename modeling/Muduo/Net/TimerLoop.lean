import Muduo.Net.TimerQueue

/-!
# `Muduo.Net.TimerLoop`: a timer queue and the threads that use it

`TimerQueue::addTimer` and `TimerQueue::cancel` can be called from every
thread. Both hand their work to `EventLoop::runInLoop`: the loop thread
does it at once, another thread pushes a functor.

For another thread `addTimer` has three steps, and anything can happen
between them: `new Timer`, the push, and the read of `timer->sequence()`
for the result. The loop thread may have run and deleted the timer by the
time of the last step. It then reads whatever is at the address.

The loop thread runs functors in the order of their pushes. `handleRead`
runs the expired timers one after the other, and user code calls
`addTimer` and `cancel` in their callbacks and in other handlers. No
functor runs inside `handleRead`.

`new` returns an address where no timer lives, which may be that of a
deleted timer. `s_numCreated_` counts the timers of all loops.
-/

set_option autoImplicit false

namespace Muduo.Net

open Muduo.Base
open Muduo.Lib
open TimerQueue

namespace TimerLoop

/-- The functors that `TimerQueue` pushes. -/
inductive Functor where
  | addTimerInLoop (timer : Address)
  | cancelInLoop (id : TimerId)
  deriving DecidableEq, Repr

/-- The local variables of `handleRead`. `todo` is the part of `expired`
that the loop has not reached. -/
structure Batch where
  now : Timestamp
  expired : List Entry
  todo : List Entry
  deriving DecidableEq

end TimerLoop

/-- The queue, the threads in `addTimer` before and after their push, and
the ids that calls of `addTimer` have returned. -/
structure TimerLoop where
  queue : TimerQueue
  s_numCreated_ : Int
  creating : List Address
  returning : List Address
  pendingFunctors_ : List TimerLoop.Functor
  batch : Option TimerLoop.Batch
  returned : List TimerId

namespace TimerLoop

inductive Event where
  -- other threads
  | createElsewhere
  | newTimer (a : Address) (when_ : Timestamp) (interval : Int) (repeats : Bool)
  | pushAdd (a : Address)
  | returnId (a : Address)
  | pushCancel (id : TimerId)
  -- user code in the loop thread
  | addTimer (a : Address) (when_ : Timestamp) (interval : Int) (repeats : Bool)
      (clock : Timestamp)
  | cancel (id : TimerId)
  -- the loop thread
  | runFunctor (clock : Timestamp)
  | handleRead (now : Timestamp) (fired : Bool)
  | runNext
  | reset (clock : Timestamp)
  deriving DecidableEq

/-- `new` can return `a`. -/
def isFree (s : TimerLoop) (a : Address) : Bool := s.queue.heap a == none && a < UINTPTR_MAX

/-- The loop thread can be in user code: in a callback of the batch, or
outside `handleRead`. -/
def inUserCode (s : TimerLoop) : Bool :=
  match s.batch with
  | none => true
  | some b => b.todo.length < b.expired.length

def enabled (s : TimerLoop) : Event → Bool
  | .createElsewhere => true
  | .newTimer a _ _ _ => s.isFree a
  | .pushAdd a => decide (a ∈ s.creating)
  | .returnId a => decide (a ∈ s.returning)
  | .pushCancel _ => true
  | .addTimer a _ _ _ _ => s.isFree a && s.inUserCode
  | .cancel _ => s.inUserCode
  -- `doPendingFunctors` comes after all handlers
  | .runFunctor _ => s.batch == none && s.pendingFunctors_ != []
  | .handleRead _ _ => s.batch == none
  | .runNext =>
      match s.batch with
      | some b => b.todo != []
      | none => false
  | .reset _ =>
      match s.batch with
      | some b => b.todo == []
      | none => false

/-- `new Timer(cb, when, interval)` at the address `a`. -/
def create (s : TimerLoop) (a : Address) (when_ : Timestamp) (interval : Int) (repeats : Bool) :
    TimerLoop :=
  { s with
    s_numCreated_ := s.s_numCreated_ + 1
    queue := s.queue.store a ⟨when_, interval, repeats, s.s_numCreated_ + 1⟩ }

/-- `return TimerId(timer, timer->sequence())`. -/
def giveId (s : TimerLoop) (a : Address) : Except Fault TimerLoop := do
  let t ← s.queue.deref a
  return { s with returned := s.returned ++ [⟨a, t.sequence_⟩] }

def step (s : TimerLoop) : Event → Except Fault TimerLoop
  | .createElsewhere => return { s with s_numCreated_ := s.s_numCreated_ + 1 }
  | .newTimer a when_ interval repeats =>
      return { s.create a when_ interval repeats with creating := a :: s.creating }
  | .pushAdd a =>
      return { s with
        creating := s.creating.erase a
        returning := a :: s.returning
        pendingFunctors_ := s.pendingFunctors_ ++ [.addTimerInLoop a] }
  -- the timer may be gone by now, or another one may be at its address
  | .returnId a => giveId { s with returning := s.returning.erase a } a
  | .pushCancel id =>
      return { s with pendingFunctors_ := s.pendingFunctors_ ++ [.cancelInLoop id] }
  | .addTimer a when_ interval repeats clock => do
      let s := s.create a when_ interval repeats
      let q ← s.queue.addTimerInLoop a clock
      giveId { s with queue := q } a
  | .cancel id => do
      let q ← s.queue.cancelInLoop id
      return { s with queue := q }
  | .runFunctor clock =>
      match s.pendingFunctors_ with
      | [] => return s
      | .addTimerInLoop a :: fs => do
          let q ← s.queue.addTimerInLoop a clock
          return { s with queue := q, pendingFunctors_ := fs }
      | .cancelInLoop id :: fs => do
          let q ← s.queue.cancelInLoop id
          return { s with queue := q, pendingFunctors_ := fs }
  | .handleRead now fired => do
      let (q, expired) ← s.queue.beginRead now fired
      return { s with queue := q, batch := some ⟨now, expired, expired⟩ }
  | .runNext =>
      match s.batch with
      | some ⟨now, expired, it :: todo⟩ => do
          let q ← s.queue.runTimer it
          return { s with queue := q, batch := some ⟨now, expired, todo⟩ }
      | _ => return s
  | .reset clock =>
      match s.batch with
      | some ⟨now, expired, _⟩ => do
          let q ← s.queue.endRead expired now clock
          return { s with queue := q, batch := none }
      | none => return s

/-- The threads and the queue as a machine. -/
def machine : Machine TimerLoop Event Fault where
  enabled s e := enabled s e = true
  step := step

instance (s : TimerLoop) (e : Event) : Decidable (machine.enabled s e) :=
  inferInstanceAs (Decidable (enabled s e = true))

/-- A new queue. Other loops may have created timers before. -/
def init (numCreated : Int) : TimerLoop := ⟨TimerQueue.ctor, numCreated, [], [], [], none, []⟩

/-! ### Ownership -/

/-- The three places that hold a timer. -/
inductive Owner where
  /-- A functor for `addTimerInLoop`, queued or about to be. -/
  | functor
  | timers
  /-- The vector `expired` of `handleRead`. -/
  | batch
  deriving DecidableEq, Repr

/-- The timer of an `addTimerInLoop` functor. -/
def added? : Functor → Option Address
  | .addTimerInLoop a => some a
  | .cancelInLoop _ => none

/-- The timers that a place holds. -/
def held (s : TimerLoop) : Owner → List Address
  | .functor => s.creating ++ s.pendingFunctors_.filterMap added?
  | .timers => s.queue.timers_.toList.map entryTimer
  | .batch =>
      match s.batch with
      | some b => b.expired.map entryTimer
      | none => []

/-! ### Cancellation -/

/-- The id that the event runs `cancelInLoop` with. -/
def canceledBy (s : TimerLoop) : Event → Option TimerId
  | .cancel id => some id
  | .runFunctor _ =>
      match s.pendingFunctors_ with
      | .cancelInLoop id :: _ => some id
      | _ => none
  | _ => none

/-- The batch timers whose callback has not started. -/
def unstarted (s : TimerLoop) : List Address :=
  match s.batch with
  | some b => b.todo.map entryTimer
  | none => []

/-- Only ids that `addTimer` has returned are canceled. -/
def CancelsReturned (s : TimerLoop) (e : Event) : Prop :=
  ∀ id ∈ s.canceledBy e, id ∈ s.returned

/-- A timer is canceled when it is neither in an `addTimerInLoop` functor
nor in the batch with its callback still to start. -/
def CancelsInTime (s : TimerLoop) (e : Event) : Prop :=
  ∀ id ∈ s.canceledBy e, s.queue.names id = true →
    id.timer_ ∉ s.held .functor ∧ id.timer_ ∉ s.unstarted

instance (s : TimerLoop) (e : Event) : Decidable (CancelsReturned s e) :=
  inferInstanceAs (Decidable (∀ id ∈ s.canceledBy e, id ∈ s.returned))

instance (s : TimerLoop) (e : Event) : Decidable (CancelsInTime s e) :=
  inferInstanceAs (Decidable
    (∀ id ∈ s.canceledBy e, s.queue.names id = true →
      id.timer_ ∉ s.held .functor ∧ id.timer_ ∉ s.unstarted))

/-! ### Clock and timestamps -/

/-- A timestamp within `±2^62` microseconds. -/
def InRange (time : Int) : Prop := -2 ^ 62 ≤ time ∧ time ≤ 2 ^ 62

/-- What the clock can show. -/
def IsReading (clock : Int) : Prop := 0 < clock ∧ InRange clock

/-- What `new Timer` can be called with: the constructor sets `repeat_` for
an interval above zero only. -/
def IsTimer (when_ : Timestamp) (interval : Int) (repeats : Bool) : Prop :=
  InRange when_ ∧ (repeats = true → 0 ≤ interval)

/-- The readings of the clock are positive, and all timestamps are in range.
This includes those that `Timer::restart` computes. -/
def TimesInRange (s : TimerLoop) : Event → Prop
  | .newTimer _ when_ interval repeats => IsTimer when_ interval repeats
  | .addTimer _ when_ interval repeats clock => IsTimer when_ interval repeats ∧ IsReading clock
  | .runFunctor clock => IsReading clock
  | .handleRead now _ => IsReading now
  | .reset clock => IsReading clock ∧ ∀ b ∈ s.batch, ∀ it ∈ b.expired,
      ∀ t ∈ s.queue.heap (entryTimer it), t.repeat_ = true → InRange (b.now + t.interval_)
  | .createElsewhere | .pushAdd _ | .returnId _ | .pushCancel _ | .cancel _ | .runNext => True

instance (time : Int) : Decidable (InRange time) :=
  inferInstanceAs (Decidable (-2 ^ 62 ≤ time ∧ time ≤ 2 ^ 62))

instance (clock : Int) : Decidable (IsReading clock) :=
  inferInstanceAs (Decidable (0 < clock ∧ InRange clock))

instance (when_ : Timestamp) (interval : Int) (repeats : Bool) :
    Decidable (IsTimer when_ interval repeats) :=
  inferInstanceAs (Decidable (InRange when_ ∧ (repeats = true → 0 ≤ interval)))

instance (s : TimerLoop) (e : Event) : Decidable (TimesInRange s e) :=
  match e with
  | .newTimer _ when_ interval repeats =>
      inferInstanceAs (Decidable (IsTimer when_ interval repeats))
  | .addTimer _ when_ interval repeats clock =>
      inferInstanceAs (Decidable (IsTimer when_ interval repeats ∧ IsReading clock))
  | .runFunctor clock => inferInstanceAs (Decidable (IsReading clock))
  | .handleRead now _ => inferInstanceAs (Decidable (IsReading now))
  | .reset clock => inferInstanceAs (Decidable (IsReading clock ∧ ∀ b ∈ s.batch, ∀ it ∈ b.expired,
      ∀ t ∈ s.queue.heap (entryTimer it), t.repeat_ = true → InRange (b.now + t.interval_)))
  | .createElsewhere | .pushAdd _ | .returnId _ | .pushCancel _ | .cancel _ | .runNext =>
      isTrue trivial

end TimerLoop

end Muduo.Net
