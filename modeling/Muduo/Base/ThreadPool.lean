import Muduo.Lib.Threads
import Muduo.Lib.Transition

/-!
# `Muduo.Base.ThreadPool`: worker threads and a queue of tasks

`run`, `take`, `runInThread` and `stop` of `muduo/base/ThreadPool.cc`, after
`start`. There are the workers, any number of threads in `run`, and one thread
that calls `stop`.

As in `Muduo.Base.BoundedBlockingQueue` a critical section is one step. The
test of `while(running_)` is a step of its own: it is made without the mutex.
A worker that has made it goes on to `take`, whatever happens to `running_` in
between.

A task has the number of its `push_back`. `returned` has the numbers of the
tasks whose `run` has returned, and `due` is what it was when `stop` was
called. `pushed`, `taken` and `executed` record the tasks in their order. No
function reads any of these.

Tasks are functions that can be called and that return. With an exception a
worker ends the process.
-/

set_option autoImplicit false

namespace Muduo.Base

open Muduo.Lib

namespace ThreadPool

/-- A task in the queue. -/
structure Task (T : Type) where
  task : T
  number : Nat
  deriving DecidableEq, Repr

/-- Where a worker is in `runInThread`. -/
inductive Worker (T : Type) where
  /-- At `while(running_)`. -/
  | checking
  /-- In `take`, before its critical section or waiting for another one. -/
  | taking (w : Waits Unit)
  | executing (task : Task T)
  | exited
  deriving DecidableEq, Repr

/-- Where the thread is that calls `stop`. -/
inductive Stop where
  | before
  | called
  /-- In the loop over the threads, after the critical section. -/
  | joining
  | returned
  deriving DecidableEq, Repr

/-- The `assert` of `run`. -/
inductive Fault where
  | runFull
  deriving DecidableEq, Repr

namespace Worker

variable {T : Type}

/-- Between the test of `running_` and the critical section of `take`. -/
def isTaking : Worker T → Bool
  | .taking _ => true
  | _ => false

def isAsleep : Worker T → Bool
  | .taking w => w.isAsleep
  | _ => false

def isExited : Worker T → Bool
  | .exited => true
  | _ => false

/-- The worker can enter the critical section of `take`. -/
def canTake : Worker T → Bool
  | .taking w => !w.isAsleep
  | _ => false

/-- What a notification of `notEmpty_` makes of a worker. -/
def wake : Worker T → Worker T
  | .taking w => .taking w.wake
  | w => w

def spurious : Worker T → Worker T
  | .taking w => .taking w.spurious
  | w => w

/-- The task with this number is being executed. -/
def executes (number : Nat) : Worker T → Bool
  | .executing task => task.number == number
  | _ => false

end Worker

end ThreadPool

/-- The pool, its workers, of the type `ω`, and the threads that call `run`,
of the type `κ`. -/
structure ThreadPool (T ω κ : Type) where
  queue_ : List (ThreadPool.Task T)
  maxQueueSize_ : Nat
  running_ : Bool
  workers : ω → ThreadPool.Worker T
  callers : κ → Waits T
  returning : List Nat
  stop : ThreadPool.Stop
  pushed : List (ThreadPool.Task T)
  taken : List (ThreadPool.Task T)
  executed : List (ThreadPool.Task T)
  /-- Tasks that `run` has executed itself, without workers. -/
  direct : List T
  returned : List Nat
  due : List Nat

namespace ThreadPool

variable {T ω κ : Type}

/-- `isFull`. -/
def isFull (s : ThreadPool T ω κ) : Bool :=
  decide (0 < s.maxQueueSize_) && decide (s.maxQueueSize_ ≤ s.queue_.length)

section

variable [Fintype ω] [DecidableEq ω] [DecidableEq κ]

/-- `run`, from the test of its loop on. `pick` is the worker that
`notEmpty_.notify()` wakes. -/
def run (s : ThreadPool T ω κ) (t : κ) (x : T) (pick : Option ω) :
    Except Fault (ThreadPool T ω κ) := do
  if Fintype.card ω = 0 then
    -- threads_.empty()
    return { s with direct := s.direct ++ [x] }
  else if s.isFull then
    -- notFull_.wait()
    return { s with callers := Function.update s.callers t (.asleep x) }
  else
    assertThat (s.isFull = false) .runFull
    let task : Task T := ⟨x, s.pushed.length⟩
    return { s with
      queue_ := s.queue_ ++ [task]
      workers := notify Worker.wake s.workers pick
      callers := Function.update s.callers t .outside
      returning := s.pushed.length :: s.returning
      pushed := s.pushed ++ [task] }

/-- The critical section of `take`, and the test of the task it returns.
`pick` is the thread that `notFull_.notify()` wakes. -/
def take (s : ThreadPool T ω κ) (t : ω) (pick : Option κ) : ThreadPool T ω κ :=
  match s.queue_ with
  | [] =>
      if s.running_ then
        -- notEmpty_.wait()
        { s with workers := Function.update s.workers t (.taking (.asleep ())) }
      else
        -- the task is empty
        { s with workers := Function.update s.workers t .checking }
  | task :: rest =>
      { s with
        queue_ := rest
        workers := Function.update s.workers t (.executing task)
        callers := if 0 < s.maxQueueSize_ then notify Waits.wake s.callers pick else s.callers
        taken := s.taken ++ [task] }

/-- `task()` returns. -/
def finish (s : ThreadPool T ω κ) (t : ω) : ThreadPool T ω κ :=
  match s.workers t with
  | .executing task =>
      { s with
        workers := Function.update s.workers t .checking
        executed := s.executed ++ [task] }
  | _ => s

end

inductive Event (T ω κ : Type) where
  -- threads in `run`
  | run (t : κ) (x : T) (pick : Option ω)
  | runAgain (t : κ) (pick : Option ω)
  | runWakes (t : κ)
  | runReturns (number : Nat)
  -- workers
  | check (t : ω)
  | take (t : ω) (pick : Option κ)
  | takeWakes (t : ω)
  | finish (t : ω)
  -- the thread in `stop`
  | stopCall
  | stopSection
  | stopReturns
  deriving DecidableEq

variable [Fintype ω] [Fintype κ]

def enabled (s : ThreadPool T ω κ) : Event T ω κ → Bool
  | .run t _ pick => !(s.callers t).isInside && picks Worker.isAsleep s.workers pick
  | .runAgain t pick => (s.callers t).recheck.isSome && picks Worker.isAsleep s.workers pick
  | .runWakes t => (s.callers t).isAsleep
  | .runReturns number => decide (number ∈ s.returning)
  | .check t =>
      match s.workers t with
      | .checking => true
      | _ => false
  | .take t pick => (s.workers t).canTake && picks Waits.isAsleep s.callers pick
  | .takeWakes t => (s.workers t).isAsleep
  | .finish t =>
      match s.workers t with
      | .executing _ => true
      | _ => false
  | .stopCall => s.stop == .before
  | .stopSection => s.stop == .called
  -- all workers are joined
  | .stopReturns => s.stop == .joining && decide (∀ t, (s.workers t).isExited = true)

variable [DecidableEq ω] [DecidableEq κ]

def step (s : ThreadPool T ω κ) : Event T ω κ → Except Fault (ThreadPool T ω κ)
  | .run t x pick => s.run t x pick
  | .runAgain t pick =>
      match (s.callers t).recheck with
      | some x => s.run t x pick
      | none => return s
  | .runWakes t => return { s with callers := Function.update s.callers t (s.callers t).spurious }
  | .runReturns number =>
      return { s with
        returning := s.returning.erase number
        returned := number :: s.returned }
  | .check t =>
      return { s with
        workers := Function.update s.workers t
          (if s.running_ then .taking .outside else .exited) }
  | .take t pick => return s.take t pick
  | .takeWakes t => return { s with workers := Function.update s.workers t (s.workers t).spurious }
  | .finish t => return s.finish t
  | .stopCall => return { s with stop := .called, due := s.returned }
  | .stopSection =>
      return { s with
        workers := notifyAll Worker.wake s.workers
        running_ := false
        stop := .joining }
  | .stopReturns => return { s with stop := .returned }

/-- The pool and its threads as a machine. -/
def machine (T ω κ : Type) [Fintype ω] [Fintype κ] [DecidableEq ω] [DecidableEq κ] :
    Machine (ThreadPool T ω κ) (Event T ω κ) Fault where
  enabled s e := enabled s e = true
  step := step

instance (s : ThreadPool T ω κ) (e : Event T ω κ) : Decidable ((machine T ω κ).enabled s e) :=
  inferInstanceAs (Decidable (enabled s e = true))

/-- The pool after `start`. -/
def init (T ω κ : Type) (maxQueueSize : Nat) : ThreadPool T ω κ where
  queue_ := []
  maxQueueSize_ := maxQueueSize
  running_ := true
  workers _ := .checking
  callers _ := .outside
  returning := []
  stop := .before
  pushed := []
  taken := []
  executed := []
  direct := []
  returned := []
  due := []

/-- The workers that will take one more task, if there is one. -/
def takers (s : ThreadPool T ω κ) : Nat := count Worker.isTaking s.workers

/-- The tasks that `stop` waits for are among the first of the queue, one for
each worker that will take one more. -/
def DueInReach (s : ThreadPool T ω κ) : Prop :=
  ∀ (i : Nat) (task : Task T), s.queue_[i]? = some task → task.number ∈ s.due → i < s.takers

/-- With the threads in `run`, and `extra` more, the queue has room for all
their tasks, even when the workers take no task that is not there yet. -/
def HasRoom (s : ThreadPool T ω κ) (extra : Nat) : Prop :=
  count Waits.isInside s.callers + extra + (s.queue_.length - s.takers) ≤ s.maxQueueSize_

/-- There is room for the tasks of all threads that are in `run` when `stop`
clears `running_`, and of each that enters `run` later. -/
def LeavesRoom (s : ThreadPool T ω κ) : Event T ω κ → Prop
  | .stopSection => s.HasRoom 0
  | .run _ _ _ => s.running_ = false → s.HasRoom 1
  | _ => True

instance (s : ThreadPool T ω κ) (e : Event T ω κ) : Decidable (LeavesRoom s e) :=
  match e with
  | .stopSection => inferInstanceAs (Decidable (_ ≤ _))
  | .run _ _ _ => inferInstanceAs (Decidable (s.running_ = false → _ ≤ _))
  | .runAgain _ _ | .runWakes _ | .runReturns _ | .check _ | .take _ _ | .takeWakes _ | .finish _
  | .stopCall | .stopReturns => isTrue trivial

end ThreadPool

end Muduo.Base
