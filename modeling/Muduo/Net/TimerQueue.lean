import Muduo.Base.Types
import Muduo.Lib.SortedSet
import Muduo.Lib.Transition
import Mathlib.Algebra.Group.Int.Defs
import Mathlib.Data.Prod.Lex

/-!
# `Muduo.Net.TimerQueue`: the timers of a loop

`muduo/net/TimerQueue.cc` and `muduo/net/Timer.h`. Timers are heap objects
that the queue knows by raw pointers, so the model has a heap: a partial
map from addresses to timers. Reading a timer that is not there is a use
after free, and deleting it a double free. An address is free again after
a `delete`, and a later `new` can return it.

A `Timestamp` is its number of microseconds. The interval of a timer is
kept as the microseconds that `addTime` adds. `repeat_` is a member of its
own, as an interval above zero can add no microsecond.

The two sets are `std::set`s of pairs in lexicographic order. `log` is the
sequence of what happened to the timers so far, by sequence number. No
function reads it.
-/

set_option autoImplicit false

namespace Muduo.Net

open Muduo.Base
open Muduo.Lib

/-- The value of a `Timer*`. -/
abbrev Address := Nat

/-- `UINTPTR_MAX`, which is the address of no timer. -/
def UINTPTR_MAX : Address := 2 ^ 64 - 1

/-- `Timer`. Its callback is what the environment does after `run`. -/
structure Timer where
  expiration_ : Timestamp
  interval_ : Int
  repeat_ : Bool
  sequence_ : Int
  deriving DecidableEq, Repr

/-- `Timer::restart`. -/
def Timer.restart (t : Timer) (now : Timestamp) : Timer :=
  if t.repeat_ then { t with expiration_ := now + t.interval_ } else { t with expiration_ := 0 }

/-- `struct timespec`. -/
structure Timespec where
  tv_sec : Int
  tv_nsec : Int
  deriving DecidableEq, Repr

namespace Timespec

/-- The length of the interval in nanoseconds. -/
def nanoseconds (ts : Timespec) : Int := ts.tv_sec * 1000000000 + ts.tv_nsec

/-- `timerfd_settime` accepts the value and does not disarm the alarm. -/
def IsPositive (ts : Timespec) : Prop :=
  0 ≤ ts.tv_sec ∧ 0 ≤ ts.tv_nsec ∧ ts.tv_nsec < 1000000000 ∧ 0 < ts.nanoseconds

end Timespec

/-- `howMuchTimeFromNow`, with the clock at `now`. -/
def howMuchTimeFromNow (when_ now : Timestamp) : Timespec :=
  let microseconds := if when_ - now < 100 then 100 else when_ - now
  ⟨microseconds.tdiv 1000000, microseconds.tmod 1000000 * 1000⟩

namespace TimerQueue

/-- `std::pair<Timestamp, Timer*>`. -/
abbrev Entry := Timestamp ×ₗ Address

/-- `std::pair<Timer*, int64_t>`. -/
abbrev ActiveTimer := Address ×ₗ Int

/-- The entry of `timers_` for the timer at `a`. -/
def entry (when_ : Timestamp) (a : Address) : Entry := toLex (when_, a)

def entryTime (e : Entry) : Timestamp := (ofLex e).1
def entryTimer (e : Entry) : Address := (ofLex e).2

/-- The entry of `activeTimers_` for the timer at `a`. -/
def activeTimer (a : Address) (sequence : Int) : ActiveTimer := toLex (a, sequence)

/-- `TimerId`: a pointer that may dangle, and a sequence number. -/
structure TimerId where
  timer_ : Address
  sequence_ : Int
  deriving DecidableEq, Repr

/-- What happened to the timers. -/
inductive Effect where
  | started (sequence : Int)
  | deleted (sequence : Int)
  | canceled (id : TimerId)
  deriving DecidableEq, Repr

/-- A failed `assert`, named by its function and what it checks, or a
wrong use of a pointer. -/
inductive Fault where
  | insertSize
  | insertTimers
  | insertActive
  | cancelSize
  | cancelErase
  | expiredSize
  | expiredBound
  | expiredErase
  | useAfterFree
  | doubleFree
  deriving DecidableEq, Repr

end TimerQueue

open TimerQueue in
/-- `TimerQueue`, with the heap of its timers. `timerfd` holds the time of
the last `timerfd_settime` and its value, until the expired alarm is read. -/
structure TimerQueue where
  timers_ : SortedSet Entry
  activeTimers_ : SortedSet ActiveTimer
  callingExpiredTimers_ : Bool
  cancelingTimers_ : SortedSet ActiveTimer
  timerfd : Option (Timestamp × Timespec)
  heap : Address → Option Timer
  log : List Effect

namespace TimerQueue

/-- `TimerQueue(loop)`. -/
def ctor : TimerQueue where
  timers_ := SortedSet.empty
  activeTimers_ := SortedSet.empty
  callingExpiredTimers_ := false
  cancelingTimers_ := SortedSet.empty
  timerfd := none
  heap := fun _ => none
  log := []

/-! ### The heap -/

/-- `*timer`. -/
def deref (q : TimerQueue) (a : Address) : Except Fault Timer :=
  match q.heap a with
  | some t => .ok t
  | none => .error .useAfterFree

/-- A timer written to the heap. -/
def store (q : TimerQueue) (a : Address) (t : Timer) : TimerQueue :=
  { q with heap := Function.update q.heap a (some t) }

/-- `delete timer`. -/
def delete (q : TimerQueue) (a : Address) : Except Fault TimerQueue :=
  match q.heap a with
  | some t =>
      .ok { q with heap := Function.update q.heap a none, log := q.log ++ [.deleted t.sequence_] }
  | none => .error .doubleFree

/-- Records an effect. -/
def emit (q : TimerQueue) (e : Effect) : TimerQueue := { q with log := q.log ++ [e] }

/-- The timer of the id is still there. -/
def names (q : TimerQueue) (id : TimerId) : Bool :=
  match q.heap id.timer_ with
  | some t => t.sequence_ == id.sequence_
  | none => false

/-! ### The functions of the loop thread -/

/-- `resetTimerfd`, with the clock at `now`. -/
def resetTimerfd (q : TimerQueue) (expiration now : Timestamp) : TimerQueue :=
  { q with timerfd := some (now, howMuchTimeFromNow expiration now) }

/-- `insert`: whether the earliest timer changed, too. -/
def insert (q : TimerQueue) (a : Address) : Except Fault (TimerQueue × Bool) := do
  assertThat (q.timers_.size = q.activeTimers_.size) .insertSize
  let timer ← q.deref a
  let when_ := timer.expiration_
  let earliestChanged :=
    match q.timers_.toList.head? with
    | none => true
    | some it => decide (when_ < entryTime it)
  assertThat (entry when_ a ∉ q.timers_) .insertTimers
  assertThat (activeTimer a timer.sequence_ ∉ q.activeTimers_) .insertActive
  let timers := q.timers_.insert (entry when_ a)
  let activeTimers := q.activeTimers_.insert (activeTimer a timer.sequence_)
  assertThat (timers.size = activeTimers.size) .insertSize
  return ({ q with timers_ := timers, activeTimers_ := activeTimers }, earliestChanged)

/-- `addTimerInLoop`. -/
def addTimerInLoop (q : TimerQueue) (a : Address) (clock : Timestamp) :
    Except Fault TimerQueue := do
  let (q, earliestChanged) ← q.insert a
  if earliestChanged then
    let timer ← q.deref a
    return q.resetTimerfd timer.expiration_ clock
  else return q

/-- `cancelInLoop`. -/
def cancelInLoop (q : TimerQueue) (id : TimerId) : Except Fault TimerQueue := do
  assertThat (q.timers_.size = q.activeTimers_.size) .cancelSize
  let timer := activeTimer id.timer_ id.sequence_
  if timer ∈ q.activeTimers_ then
    -- only now is the pointer known to be valid
    let t ← q.deref id.timer_
    assertThat (entry t.expiration_ id.timer_ ∈ q.timers_) .cancelErase
    let q ← delete { q with timers_ := q.timers_.erase (entry t.expiration_ id.timer_) } id.timer_
    let q := { q with activeTimers_ := q.activeTimers_.erase timer }
    assertThat (q.timers_.size = q.activeTimers_.size) .cancelSize
    return q.emit (.canceled id)
  else
    -- for `reset`, which is the only reader of `cancelingTimers_`
    let q :=
      if q.callingExpiredTimers_ then
        { q with cancelingTimers_ := q.cancelingTimers_.insert timer }
      else q
    assertThat (q.timers_.size = q.activeTimers_.size) .cancelSize
    return q.emit (.canceled id)

/-- The loop of `getExpired` that takes the expired timers out of
`activeTimers_`. -/
def eraseActive (q : TimerQueue) (it : Entry) : Except Fault TimerQueue := do
  let t ← q.deref (entryTimer it)
  let timer := activeTimer (entryTimer it) t.sequence_
  assertThat (timer ∈ q.activeTimers_) .expiredErase
  return { q with activeTimers_ := q.activeTimers_.erase timer }

/-- `getExpired`. -/
def getExpired (q : TimerQueue) (now : Timestamp) : Except Fault (TimerQueue × List Entry) := do
  assertThat (q.timers_.size = q.activeTimers_.size) .expiredSize
  -- no timer has the address of the sentry, so those of the time `now` are below it
  let sentry := entry now UINTPTR_MAX
  let expired := q.timers_.below sentry
  let rest := q.timers_.eraseBelow sentry
  assertThat (∀ e ∈ rest.toList.head?, now < entryTime e) .expiredBound
  let q ← expired.foldlM eraseActive { q with timers_ := rest }
  assertThat (q.timers_.size = q.activeTimers_.size) .expiredSize
  return (q, expired)

/-- `readTimerfd`. The alarm is one-shot: it is gone when the read finds it
expired. The read finds nothing when `timerfd_settime` came in between. -/
def readTimerfd (q : TimerQueue) (fired : Bool) : TimerQueue :=
  if fired then { q with timerfd := none } else q

/-- The first part of `handleRead`, up to the first callback. -/
def beginRead (q : TimerQueue) (now : Timestamp) (fired : Bool) :
    Except Fault (TimerQueue × List Entry) := do
  let (q, expired) ← getExpired (q.readTimerfd fired) now
  return ({ q with callingExpiredTimers_ := true, cancelingTimers_ := SortedSet.empty }, expired)

/-- `it.second->run()`. What the callback does comes after it. -/
def runTimer (q : TimerQueue) (it : Entry) : Except Fault TimerQueue := do
  let t ← q.deref (entryTimer it)
  return q.emit (.started t.sequence_)

/-- One round of the loop of `reset`. -/
def resetOne (now : Timestamp) (q : TimerQueue) (it : Entry) : Except Fault TimerQueue := do
  let a := entryTimer it
  let t ← q.deref a
  if t.repeat_ ∧ activeTimer a t.sequence_ ∉ q.cancelingTimers_ then
    let (q, _) ← insert (q.store a (t.restart now)) a
    return q
  else
    -- it ran once, or its callback or a later one of the batch canceled it
    q.delete a

/-- `reset`. -/
def reset (q : TimerQueue) (expired : List Entry) (now clock : Timestamp) :
    Except Fault TimerQueue := do
  let q ← expired.foldlM (resetOne now) q
  match q.timers_.toList.head? with
  | none => return q
  | some it =>
      let t ← q.deref (entryTimer it)
      -- nextExpire.valid()
      if 0 < t.expiration_ then return q.resetTimerfd t.expiration_ clock else return q

/-- The last part of `handleRead`, after the callbacks. -/
def endRead (q : TimerQueue) (expired : List Entry) (now clock : Timestamp) :
    Except Fault TimerQueue :=
  reset { q with callingExpiredTimers_ := false } expired now clock

end TimerQueue

end Muduo.Net
