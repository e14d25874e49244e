import Muduo.Base.ThreadPool
import Muduo.Lib.Outcome

/-!
# `Muduo.Proofs.ThreadPool`: what `stop` leaves behind

A worker looks at `running_` before `take`, not after it. So when `stop`
clears `running_`, each worker that is past its test takes one more task if
there is one, and no worker takes a second. The comment in `stop` says that the
queue is drained. It is when the queue is not longer than the number of those
workers. `takers` is that number.

`Effect` says what a step can do to the queue, to `takers` and to the threads
in `run`. `step_spec` proves it once for all events, with the invariant `Inv`.
The two results are about what comes after the critical section of `stop`, and
they only look at the effects:

* `taken.length + takers` stays what it was, until the queue is empty. That
  decides which tasks are executed.
* A thread in `run` that sleeps is counted by `Covered`, as in
  `Muduo.Proofs.BoundedBlockingQueue`. Without a worker that takes, nobody
  notifies it. So there has to be room for it from the start.
-/

set_option autoImplicit false

namespace Muduo.Base.ThreadPool

open Muduo.Lib

variable {T ω κ : Type}

/-! ### The local states of a worker -/

namespace Worker

variable {w : Worker T}

theorem exists_of_canTake (h : w.canTake = true) : ∃ v, w = .taking v := by
  cases w with
  | taking v => exact ⟨v, rfl⟩
  | checking | executing task | exited => cases h

/-- A notification changes no more than whether the worker sleeps. -/
theorem isTaking_wake (w : Worker T) : w.wake.isTaking = w.isTaking := by
  cases w <;> rfl

theorem executes_wake (n : Nat) (w : Worker T) : w.wake.executes n = w.executes n := by
  cases w <;> rfl

theorem isExited_wake (w : Worker T) : w.wake.isExited = w.isExited := by
  cases w <;> rfl

theorem exists_of_isAsleep (h : w.isAsleep = true) : ∃ v, w = .taking v := by
  cases w with
  | taking v => exact ⟨v, rfl⟩
  | checking | executing task | exited => cases h

theorem not_isTaking_of_exited (h : w.isExited = true) : w.isTaking = false := by
  cases w with
  | exited => rfl
  | checking | taking v | executing task => cases h

theorem not_executes_of_exited (n : Nat) (h : w.isExited = true) : w.executes n = false := by
  cases w with
  | exited => rfl
  | checking | taking v | executing task => cases h

end Worker

/-- How often a task occurs in a list that grows at its end. -/
theorem count_number_snoc (l : List (Task T)) (task : Task T) (n : Nat) :
    ((l ++ [task]).map Task.number).count n
      = (l.map Task.number).count n + (task.number == n).toNat := by
  rw [List.map_append, List.count_append, List.map_singleton, List.count_singleton]
  cases task.number == n with
  | true => rfl
  | false => rfl

/-! ### The invariant -/

section

variable [Fintype ω] [Fintype κ]

structure Inv (m : Nat) (s : ThreadPool T ω κ) : Prop where
  size : s.maxQueueSize_ = m
  order : s.taken ++ s.queue_ = s.pushed
  numbers : s.pushed.map Task.number = List.range s.pushed.length
  /-- A task that was taken is executed, or will be. -/
  done : ∀ n, (s.executed.map Task.number).count n + count (Worker.executes n) s.workers
    = (s.taken.map Task.number).count n
  known : ∀ n, n ∈ s.returning ∨ n ∈ s.returned ∨ n ∈ s.due → n < s.pushed.length
  bound : 0 < m → s.queue_.length ≤ m
  covered : Covered (m - s.queue_.length) s.callers
  exited : s.stop = .returned → ∀ t, (s.workers t).isExited = true
  cleared : s.stop = .joining ∨ s.stop = .returned → s.running_ = false

variable {s s' : ThreadPool T ω κ} {m : Nat}

theorem inv_init (m : Nat) : Inv m (init T ω κ m) where
  size := rfl
  order := rfl
  numbers := rfl
  done n := by
    have hnone : count (Worker.executes n) (fun _ : ω => (Worker.checking : Worker T)) = 0 :=
      count_eq_zero_iff.mpr fun _ => rfl
    show 0 + count (Worker.executes n) (fun _ : ω => (Worker.checking : Worker T)) = 0
    rw [hnone]
  known n hn := by
    rcases hn with hn | hn | hn <;> cases hn
  bound _ := Nat.zero_le _
  covered := covered_of_awake fun _ => rfl
  exited h := by cases h
  cleared h := by
    rcases h with h | h <;> cases h

/-- While a worker runs, `stop` has not returned. -/
theorem Inv.absurd_returned (h : Inv m s) {t : ω} (ht : (s.workers t).isExited = false)
    {P : Prop} (hstop : s.stop = .returned) : P := by
  have hexited := h.exited hstop t
  rw [ht] at hexited
  cases hexited

/-- Workers move, and none of them starts or ends a task. -/
theorem Inv.withWorkers (h : Inv m s) {workers : ω → Worker T}
    (hexecutes : ∀ n, count (Worker.executes n) workers = count (Worker.executes n) s.workers)
    (hexited : s.stop = .returned → ∀ t, (workers t).isExited = true) :
    Inv m { s with workers := workers } := by
  refine { h with done := fun n => ?_, exited := hexited }
  show _ + count (Worker.executes n) workers = _
  rw [hexecutes n]
  exact h.done n

/-- The tasks that were taken are the first ones, each once. -/
theorem Inv.taken_numbers (h : Inv m s) : s.taken.map Task.number = List.range s.taken.length := by
  have hmap : s.taken.map Task.number ++ s.queue_.map Task.number
      = List.range s.pushed.length := by
    rw [← List.map_append, h.order, h.numbers]
  have hlength := congrArg List.length h.order
  rw [List.length_append] at hlength
  have htake := congrArg (List.take s.taken.length) hmap
  rw [List.take_left' (List.length_map _), List.take_range,
    Nat.min_eq_left (by omega)] at htake
  exact htake

/-- The tasks in the queue have the numbers that follow. -/
theorem Inv.queue_number (h : Inv m s) {i : Nat} {task : Task T}
    (hi : s.queue_[i]? = some task) : task.number = s.taken.length + i := by
  have hpushed : s.pushed[s.taken.length + i]? = some task := by
    rw [← h.order, List.getElem?_append_right (Nat.le_add_right _ _), Nat.add_sub_cancel_left]
    exact hi
  have hnumber : (s.pushed.map Task.number)[s.taken.length + i]? = some task.number := by
    rw [List.getElem?_map, hpushed]
    rfl
  rw [h.numbers] at hnumber
  obtain ⟨_, hget⟩ := List.getElem?_eq_some_iff.mp hnumber
  rw [List.getElem_range] at hget
  exact hget.symm

/-! ### What a step does -/

/-- The effects of a step. With `extra` one thread more enters `run`. -/
inductive Effect (s s' : ThreadPool T ω κ) (extra : Nat) : Prop where
  | quiet (queue : s'.queue_ = s.queue_) (taken : s'.taken = s.taken)
      (pushed : s'.pushed = s.pushed) (takers : s'.takers = s.takers)
      (inside : count Waits.isInside s'.callers ≤ count Waits.isInside s.callers + extra)
  | push (task : Task T) (queue : s'.queue_ = s.queue_ ++ [task]) (taken : s'.taken = s.taken)
      (pushed : s'.pushed = s.pushed ++ [task]) (takers : s'.takers = s.takers)
      (inside : count Waits.isInside s'.callers + 1 = count Waits.isInside s.callers + extra)
  | take (task : Task T) (queue : s.queue_ = task :: s'.queue_) (taken : s'.taken = s.taken ++ [task])
      (pushed : s'.pushed = s.pushed) (takers : s'.takers + 1 = s.takers)
      (inside : count Waits.isInside s'.callers = count Waits.isInside s.callers)
  -- `take` returns an empty task
  | giveUp (queue : s.queue_ = []) (queue' : s'.queue_ = []) (taken : s'.taken = s.taken)
      (pushed : s'.pushed = s.pushed) (takers : s'.takers + 1 = s.takers)
      (inside : count Waits.isInside s'.callers = count Waits.isInside s.callers)
  -- `running_` was true when the worker looked at it
  | enter (queue : s'.queue_ = s.queue_) (taken : s'.taken = s.taken) (pushed : s'.pushed = s.pushed)
      (takers : s'.takers = s.takers + 1)
      (inside : count Waits.isInside s'.callers = count Waits.isInside s.callers)
      (running : s'.running_ = true)

/-- The threads that an event brings into `run`. -/
def entering : Event T ω κ → Nat
  | .run _ _ _ => 1
  | _ => 0

variable [DecidableEq ω] [DecidableEq κ]

omit [DecidableEq ω] [DecidableEq κ] in
/-- The queue has room for one more task. -/
theorem Inv.room (h : Inv m s) (hfull : s.isFull = false) (hm : 0 < m) : s.queue_.length < m := by
  by_contra hge
  rw [isFull, h.size, decide_eq_true hm, decide_eq_true (Nat.le_of_not_lt hge)] at hfull
  cases hfull

/-- A thread that is awake leaves `run`, with its task in the queue. -/
theorem Inv.push (h : Inv m s) (hfull : s.isFull = false) {t : κ}
    (ht : (s.callers t).isAsleep = false) (x : T) (pick : Option ω) :
    Inv m { s with
      queue_ := s.queue_ ++ [⟨x, s.pushed.length⟩]
      workers := notify Worker.wake s.workers pick
      callers := Function.update s.callers t .outside
      returning := s.pushed.length :: s.returning
      pushed := s.pushed ++ [⟨x, s.pushed.length⟩] } := by
  have hlength : (s.queue_ ++ [(⟨x, s.pushed.length⟩ : Task T)]).length = s.queue_.length + 1 := by
    rw [List.length_append, List.length_singleton]
  refine { h with
    order := ?order
    numbers := ?numbers
    done := ?done
    known := ?known
    bound := ?bound
    covered := ?covered
    exited := ?exited }
  case order =>
    show s.taken ++ (s.queue_ ++ [_]) = s.pushed ++ [_]
    rw [← List.append_assoc, h.order]
  case numbers =>
    show (s.pushed ++ [_]).map Task.number = List.range (s.pushed ++ [_]).length
    rw [List.map_append, h.numbers, List.length_append, List.length_singleton, List.range_succ]
    rfl
  case done =>
    intro n
    show _ + count (Worker.executes n) (notify Worker.wake s.workers pick) = _
    rw [count_notify (Worker.executes_wake n)]
    exact h.done n
  case known =>
    intro n hn
    show n < (s.pushed ++ [_]).length
    rw [List.length_append, List.length_singleton]
    have hold : n = s.pushed.length ∨ n ∈ s.returning ∨ n ∈ s.returned ∨ n ∈ s.due := by
      rcases hn with hn | hn
      · exact (List.mem_cons.mp hn).imp_right Or.inl
      · exact Or.inr (Or.inr hn)
    rcases hold with heq | hold
    · omega
    · have hlt := h.known n hold
      omega
  case bound =>
    intro hm
    show (s.queue_ ++ [_]).length ≤ m
    have hlt := h.room hfull hm
    omega
  case covered =>
    show Covered (m - (s.queue_ ++ [_]).length) _
    rw [hlength]
    rcases Nat.eq_zero_or_pos m with hm | hm
    · rw [hm, Nat.zero_sub]
      exact covered_zero _
    · -- The thread takes a place, and it may be one of the notified ones.
      have hcovered := h.covered
      have hlt := h.room hfull hm
      have hfree : m - s.queue_.length = m - (s.queue_.length + 1) + 1 := by omega
      rw [hfree] at hcovered
      exact hcovered.leave ht
  case exited =>
    intro hstop
    refine forall_notify (P := fun w => Worker.isExited w = true) (fun w hw => ?_)
      (h.exited hstop) pick
    rw [Worker.isExited_wake]
    exact hw

/-- A thread in `run`, or one that enters it, looks at the queue. -/
theorem run_spec (h : Inv m s) {t : κ} {extra : Nat} (ht : (s.callers t).isAsleep = false)
    (hextra : (s.callers t).isInside.toNat + extra = 1) (x : T) (pick : Option ω) :
    Returns (s.run t x pick) fun s' => Inv m s' ∧ Effect s s' extra := by
  have hinside := fun v => count_update Waits.isInside s.callers t v
  rw [run]
  by_cases hcard : Fintype.card ω = 0
  · -- No queue is used.
    rw [if_pos hcard]
    exact Ends.ok ⟨{ h with }, .quiet rfl rfl rfl rfl (Nat.le_add_right _ _)⟩
  rw [if_neg hcard]
  cases hfull : s.isFull with
  | true =>
      obtain ⟨_, hlen⟩ := Bool.and_eq_true_iff.mp hfull
      have hlen := of_decide_eq_true hlen
      rw [h.size] at hlen
      refine Ends.ok ⟨{ h with covered := ?_ }, .quiet rfl rfl rfl rfl ?_⟩
      · -- There is no place that it could have taken.
        show Covered (m - s.queue_.length) _
        rw [Nat.sub_eq_zero_of_le hlen]
        exact covered_zero _
      · have hin := hinside (.asleep x)
        show count Waits.isInside (Function.update s.callers t (.asleep x)) ≤ _
        have hone : (Waits.asleep x).isInside.toNat = 1 := rfl
        omega
  | false =>
      refine Ends.ok ⟨h.push hfull ht x pick, .push _ rfl rfl rfl ?_ ?_⟩
      · exact count_notify Worker.isTaking_wake s.workers pick
      · have hin := hinside .outside
        show count Waits.isInside (Function.update s.callers t .outside) + 1 = _
        have hzero : (Waits.outside : Waits T).isInside.toNat = 0 := rfl
        omega

omit [Fintype ω] [Fintype κ] in
theorem take_empty (hq : s.queue_ = []) (t : ω) (pick : Option κ) :
    s.take t pick = { s with
      workers := Function.update s.workers t
        (if s.running_ then .taking (.asleep ()) else .checking) } := by
  rw [take, hq]
  cases s.running_ with
  | true => rfl
  | false => rfl

omit [Fintype ω] [Fintype κ] in
theorem take_front {task : Task T} {rest : List (Task T)} (hq : s.queue_ = task :: rest) (t : ω)
    (pick : Option κ) :
    s.take t pick = { s with
      queue_ := rest
      workers := Function.update s.workers t (.executing task)
      callers := if 0 < s.maxQueueSize_ then notify Waits.wake s.callers pick else s.callers
      taken := s.taken ++ [task] } := by
  rw [take, hq]

omit [Fintype ω] [Fintype κ] [DecidableEq κ] in
theorem finish_executing {t : ω} {task : Task T} (hw : s.workers t = .executing task) :
    s.finish t = { s with
      workers := Function.update s.workers t .checking
      executed := s.executed ++ [task] } := by
  rw [finish, hw]

/-- The critical section of `take`, by a worker that is awake. -/
theorem take_spec (h : Inv m s) {t : ω} (ht : (s.workers t).canTake = true) {pick : Option κ}
    (hpick : picks Waits.isAsleep s.callers pick = true) :
    Inv m (s.take t pick) ∧ Effect s (s.take t pick) 0 := by
  obtain ⟨v, hv⟩ := Worker.exists_of_canTake ht
  have htaking : (s.workers t).isTaking = true := by rw [hv]; rfl
  have hnone : ∀ n, (s.workers t).executes n = false := fun n => by rw [hv]; rfl
  have hexited : (s.workers t).isExited = false := by rw [hv]; rfl
  cases hq : s.queue_ with
  | nil =>
      rw [take_empty hq]
      -- An empty queue: the worker sleeps again, or it gives up when the pool is stopped.
      by_cases hrunning : s.running_ = true
      · rw [if_pos hrunning]
        refine ⟨h.withWorkers (fun n => count_stay (by rw [hnone n]; rfl))
          (h.absurd_returned hexited), .quiet rfl rfl rfl ?_ (Nat.le_refl _)⟩
        exact count_stay htaking.symm
      · rw [if_neg hrunning]
        refine ⟨h.withWorkers (fun n => count_stay (by rw [hnone n]; rfl))
          (h.absurd_returned hexited), .giveUp hq hq rfl rfl ?_ rfl⟩
        exact count_leave htaking rfl
  | cons task rest =>
      have hlength : s.queue_.length = rest.length + 1 := by rw [hq]; rfl
      rw [take_front hq]
      refine ⟨⟨h.size, ?_, h.numbers, ?_, h.known, ?_, ?_, h.absurd_returned hexited,
        h.cleared⟩, .take task hq rfl rfl ?_ ?_⟩
      · show s.taken ++ [task] ++ rest = s.pushed
        rw [← h.order, hq, List.append_assoc]
        rfl
      · intro n
        have hstep := count_update (Worker.executes n) s.workers t (.executing task)
        rw [hnone n] at hstep
        have hdone := h.done n
        show _ + count (Worker.executes n) (Function.update s.workers t (.executing task))
          = ((s.taken ++ [task]).map Task.number).count n
        rw [count_number_snoc, ← hdone, Nat.add_assoc]
        exact congrArg _ hstep
      · intro hm
        show rest.length ≤ m
        have hbound := h.bound hm
        omega
      · -- A place becomes free, and a waiting caller is notified of it.
        show Covered (m - rest.length) (if 0 < s.maxQueueSize_ then _ else _)
        rw [h.size]
        rcases Nat.eq_zero_or_pos m with hm | hm
        · rw [hm, Nat.zero_sub]
          exact covered_zero _
        · have hbound := h.bound hm
          have hfree : m - rest.length = m - s.queue_.length + 1 := by omega
          rw [if_pos hm, hfree]
          exact h.covered.notify hpick
      · exact count_leave htaking rfl
      · show count Waits.isInside (if 0 < s.maxQueueSize_ then _ else _) = _
        split
        · refine count_notify ?_ _ _
          intro w
          cases w <;> rfl
        · rfl

/-- A worker looks at `running_` between two tasks. -/
theorem check_spec (h : Inv m s) {t : ω} (hw : s.workers t = .checking) :
    Returns (step s (.check t)) fun s' => Inv m s' ∧ Effect s s' 0 := by
  rw [step]
  by_cases hrunning : s.running_ = true
  · rw [if_pos hrunning]
    refine Ends.ok ⟨h.withWorkers (fun n => count_stay (by rw [hw]; rfl))
      (h.absurd_returned (by rw [hw]; rfl)), .enter rfl rfl rfl ?_ rfl hrunning⟩
    exact count_enter (by rw [hw]; rfl) rfl
  · rw [if_neg hrunning]
    refine Ends.ok ⟨h.withWorkers (fun n => count_stay (by rw [hw]; rfl))
      (h.absurd_returned (by rw [hw]; rfl)), .quiet rfl rfl rfl ?_ (Nat.le_refl _)⟩
    exact count_stay (by rw [hw]; rfl)

/-- A worker has executed its task. -/
theorem finish_spec (h : Inv m s) {t : ω} {task : Task T} (hw : s.workers t = .executing task) :
    Returns (step s (.finish t)) fun s' => Inv m s' ∧ Effect s s' 0 := by
  rw [step, finish_executing hw]
  refine Ends.ok
    ⟨{ h with done := fun n => ?_, exited := h.absurd_returned (by rw [hw]; rfl) },
      .quiet rfl rfl rfl ?_ (Nat.le_refl _)⟩
  · have hstep := count_update (Worker.executes n) s.workers t .checking
    rw [hw] at hstep
    have hdone := h.done n
    show ((s.executed ++ [task]).map Task.number).count n
      + count (Worker.executes n) (Function.update s.workers t .checking)
      = (s.taken.map Task.number).count n
    have htask : ((Worker.executing task).executes n).toNat = (task.number == n).toNat := rfl
    have hchecking : ((Worker.checking : Worker T).executes n).toNat = 0 := rfl
    rw [count_number_snoc]
    omega
  · exact count_stay (by rw [hw]; rfl)

/-- What a step does. In no state does one fault. -/
theorem step_spec (h : Inv m s) {e : Event T ω κ} (hen : enabled s e = true) :
    Returns (step s e) fun s' => Inv m s' ∧ Effect s s' (entering e) := by
  cases e with
  | run t x pick =>
      obtain ⟨hout, _⟩ := Bool.and_eq_true_iff.mp hen
      refine run_spec h (Waits.awake_of_outside hout) ?_ x pick
      rw [Bool.not_eq_true'] at hout
      rw [hout]
      rfl
  | runAgain t pick =>
      obtain ⟨hsome, _⟩ := Bool.and_eq_true_iff.mp hen
      obtain ⟨x, hx⟩ := Option.isSome_iff_exists.mp hsome
      rw [step, hx]
      refine run_spec h (Waits.awake_of_recheck hx) ?_ x pick
      cases hcaller : s.callers t with
      | notified y | woken y => rfl
      | outside | asleep y =>
          rw [hcaller] at hx
          cases hx
  | runWakes t =>
      refine Ends.ok ⟨{ h with covered := h.covered.spurious },
        .quiet rfl rfl rfl rfl (Nat.le_of_eq ?_)⟩
      refine count_stay ?_
      cases s.callers t <;> rfl
  | runReturns number =>
      have hmem : number ∈ s.returning := of_decide_eq_true hen
      refine Ends.ok ⟨{ h with known := fun n hn => ?_ },
        .quiet rfl rfl rfl rfl (Nat.le_refl _)⟩
      rcases hn with hn | hn | hn
      · exact h.known n (Or.inl (List.mem_of_mem_erase hn))
      · rcases List.mem_cons.mp hn with heq | hn
        · exact h.known n (Or.inl (heq ▸ hmem))
        · exact h.known n (Or.inr (Or.inl hn))
      · exact h.known n (Or.inr (Or.inr hn))
  | check t =>
      cases hw : s.workers t with
      | checking => exact check_spec h hw
      | taking v | executing task | exited =>
          rw [enabled, hw] at hen
          cases hen
  | take t pick =>
      obtain ⟨hcan, hpick⟩ := Bool.and_eq_true_iff.mp hen
      exact Ends.ok (take_spec h hcan hpick)
  | takeWakes t =>
      obtain ⟨v, hv⟩ := Worker.exists_of_isAsleep hen
      refine Ends.ok ⟨h.withWorkers (fun n => count_stay (by rw [hv]; rfl))
        (h.absurd_returned (by rw [hv]; rfl)), .quiet rfl rfl rfl ?_ (Nat.le_refl _)⟩
      exact count_stay (by rw [hv]; rfl)
  | finish t =>
      cases hw : s.workers t with
      | executing task => exact finish_spec h hw
      | checking | taking v | exited =>
          rw [enabled, hw] at hen
          cases hen
  | stopCall =>
      -- What has returned so far is due.
      refine Ends.ok
        ⟨{ h with
          known := fun n hn => ?_
          exited := (fun hstop => by cases hstop)
          cleared := fun hstop => ?_ },
          .quiet rfl rfl rfl rfl (Nat.le_refl _)⟩
      · rcases hn with hn | hn | hn
        · exact h.known n (Or.inl hn)
        · exact h.known n (Or.inr (Or.inl hn))
        · exact h.known n (Or.inr (Or.inl hn))
      · rcases hstop with hstop | hstop <;> cases hstop
  | stopSection =>
      refine Ends.ok
        ⟨{ h with
          done := fun n => ?_
          exited := (fun hstop => by cases hstop)
          cleared := fun _ => rfl },
          .quiet rfl rfl rfl ?_ (Nat.le_refl _)⟩
      · show _ + count (Worker.executes n) (notifyAll Worker.wake s.workers) = _
        rw [count_notifyAll (Worker.executes_wake n)]
        exact h.done n
      · exact count_notifyAll Worker.isTaking_wake s.workers
  | stopReturns =>
      obtain ⟨hjoining, hall⟩ := Bool.and_eq_true_iff.mp hen
      exact Ends.ok
        ⟨{ h with
          exited := fun _ => of_decide_eq_true hall
          cleared := fun _ => h.cleared (Or.inl (eq_of_beq hjoining)) },
          .quiet rfl rfl rfl rfl (Nat.le_refl _)⟩

/-- Every state of a run has the invariant. -/
theorem inv_of_run {es : List (Event T ω κ)} (hrun : (machine T ω κ).Run (init T ω κ m) es s) :
    Inv m s :=
  hrun.invariant (inv_init m) fun _ _ _ ht hen hstep => ((step_spec ht hen).post hstep).1

omit [Fintype κ] in
theorem run_running (s : ThreadPool T ω κ) (t : κ) (x : T) (pick : Option ω) :
    Returns (s.run t x pick) fun s' => s'.running_ = s.running_ := by
  rw [run]
  split_ifs with hcard hfull
  · exact Ends.ok rfl
  · exact Ends.ok rfl
  · exact Ends.assert (Bool.eq_false_of_not_eq_true hfull) (Ends.ok rfl)

omit [Fintype ω] [Fintype κ] in
theorem take_running (s : ThreadPool T ω κ) (t : ω) (pick : Option κ) :
    (s.take t pick).running_ = s.running_ := by
  cases hq : s.queue_ with
  | nil => rw [take_empty hq]
  | cons task rest => rw [take_front hq]

omit [Fintype ω] [Fintype κ] [DecidableEq κ] in
theorem finish_running (s : ThreadPool T ω κ) (t : ω) : (s.finish t).running_ = s.running_ := by
  rw [finish]
  split
  · rfl
  · rfl

omit [Fintype κ] in
/-- Only `stop` changes `running_`. -/
theorem step_running {e : Event T ω κ} :
    Returns (step s e) fun s' =>
      s'.running_ = s.running_ ∨ e = .stopSection ∧ s'.running_ = false := by
  cases e with
  | run t x pick => exact (run_running s t x pick).imp fun _ => Or.inl
  | runAgain t pick =>
      rw [step]
      split
      · exact (run_running s t _ pick).imp fun _ => Or.inl
      · exact Ends.ok (Or.inl rfl)
  | take t pick => exact Ends.ok (Or.inl (take_running s t pick))
  | finish t => exact Ends.ok (Or.inl (finish_running s t))
  | stopSection => exact Ends.ok (Or.inr ⟨rfl, rfl⟩)
  | runWakes t | runReturns number | check t | takeWakes t | stopCall | stopReturns =>
      exact Ends.ok (Or.inl rfl)

/-! ### The tasks that `stop` waits for -/

/-- The state `w` is reached after the critical section of `stop`, which
started in `s`. -/
structure After (s w : ThreadPool T ω κ) : Prop where
  pushed : s.pushed.length ≤ w.pushed.length
  upper : w.taken.length + w.takers ≤ s.taken.length + s.takers
  /-- A worker that gave up has seen an empty queue. -/
  lower : s.taken.length + s.takers ≤ w.taken.length + w.takers ∨
    s.pushed.length ≤ w.taken.length

omit [DecidableEq ω] [DecidableEq κ] in
/-- Where a worker leaves `take`, it has a task or there was none. -/
theorem After.step {w w' : ThreadPool T ω κ} {extra : Nat} (h : After s w) (hinv : Inv m w)
    (heffect : Effect w w' extra) (hrunning : w'.running_ = false) : After s w' := by
  obtain ⟨hpushed, hupper, hlower⟩ := h
  cases heffect with
  | quiet _ htaken hpushed' htakers _ =>
      refine ⟨?_, ?_, ?_⟩
      · rw [hpushed']
        exact hpushed
      · rw [htaken, htakers]
        exact hupper
      · rw [htaken, htakers]
        exact hlower
  | push task _ htaken hpushed' htakers _ =>
      have hlength : w'.pushed.length = w.pushed.length + 1 := by
        rw [hpushed', List.length_append, List.length_singleton]
      refine ⟨by omega, ?_, ?_⟩
      · rw [htaken, htakers]
        exact hupper
      · rw [htaken, htakers]
        exact hlower
  | take task _ htaken hpushed' htakers _ =>
      have hlength : w'.taken.length = w.taken.length + 1 := by
        rw [htaken, List.length_append, List.length_singleton]
      refine ⟨?_, by omega, by omega⟩
      rw [hpushed']
      exact hpushed
  | giveUp hqueue _ htaken hpushed' htakers _ =>
      have hall : w.taken.length = w.pushed.length := by
        rw [← hinv.order, hqueue, List.append_nil]
      refine ⟨?_, ?_, Or.inr ?_⟩
      · rw [hpushed']
        exact hpushed
      · rw [htaken]
        omega
      · rw [htaken]
        omega
  | enter _ _ _ _ _ hon =>
      rw [hon] at hrunning
      cases hrunning

/-- The run after the critical section of `stop`. -/
theorem after_of_run {u w : ThreadPool T ω κ} {fs : List (Event T ω κ)} (h : Inv m s)
    (hen : (machine T ω κ).enabled s .stopSection)
    (hstop : (machine T ω κ).step s .stopSection = .ok u)
    (hrun : (machine T ω κ).Run u fs w) : Inv m w ∧ After s w := by
  have hfirst : Inv m u ∧ After s u ∧ u.running_ = false := by
    obtain ⟨hinv, heffect⟩ := (step_spec h hen).post hstop
    have hoff : u.running_ = false := by
      cases hstop
      rfl
    have hstart : After s s := ⟨Nat.le_refl _, Nat.le_refl _, Or.inl (Nat.le_refl _)⟩
    exact ⟨hinv, hstart.step h heffect hoff, hoff⟩
  have hlast : Inv m w ∧ After s w ∧ w.running_ = false := by
    refine hrun.invariant (I := fun v => Inv m v ∧ After s v ∧ v.running_ = false) hfirst ?_
    intro t e v ht hen hstep
    obtain ⟨ht, hst, hoff⟩ := ht
    obtain ⟨hinv, heffect⟩ := (step_spec ht hen).post hstep
    have hoff' : v.running_ = false := by
      rcases step_running.post hstep with hsame | ⟨_, hoff'⟩
      · rw [hsame]
        exact hoff
      · exact hoff'
    exact ⟨hinv, hst.step ht heffect hoff', hoff'⟩
  exact ⟨hlast.1, hlast.2.1⟩

omit [DecidableEq ω] [DecidableEq κ] in
/-- When `stop` has returned, every task that was taken has been executed. -/
theorem Inv.executed_once_iff (h : Inv m s) (hstop : s.stop = .returned) (n : Nat) :
    (s.executed.map Task.number).count n = 1 ↔ n < s.taken.length := by
  have hnone : count (Worker.executes n) s.workers = 0 :=
    count_eq_zero_iff.mpr fun t => Worker.not_executes_of_exited n (h.exited hstop t)
  have hdone := h.done n
  rw [hnone, Nat.add_zero, h.taken_numbers] at hdone
  rw [hdone]
  constructor
  · intro hone
    exact List.mem_range.mp (List.count_pos_iff.mp (by omega))
  · intro hlt
    exact List.count_eq_one_of_mem List.nodup_range (List.mem_range.mpr hlt)

omit [DecidableEq ω] [DecidableEq κ] in
theorem Inv.takers_returned (h : Inv m s) (hstop : s.stop = .returned) : s.takers = 0 :=
  count_eq_zero_iff.mpr fun t => Worker.not_isTaking_of_exited (h.exited hstop t)

/-- The critical section of `stop` starts in `s`, and `w` is a state in which
`stop` has returned. The tasks whose `run` had returned before `stop` was
called have then been executed exactly once, if and only if in `s` those of
them that were still in the queue were among the first ones, as many as there
were workers between their test of `running_` and `take`. -/
theorem stop_completes_iff {u w : ThreadPool T ω κ} {es fs : List (Event T ω κ)}
    (hrun : (machine T ω κ).Run (init T ω κ m) es s)
    (hen : (machine T ω κ).enabled s .stopSection)
    (hstop : (machine T ω κ).step s .stopSection = .ok u)
    (hafter : (machine T ω κ).Run u fs w) (hreturned : w.stop = .returned) :
    (∀ n ∈ s.due, (w.executed.map Task.number).count n = 1) ↔ s.DueInReach := by
  have hs := inv_of_run hrun
  obtain ⟨hw, hsw⟩ := after_of_run hs hen hstop hafter
  have hupper := hsw.upper
  have hlower := hsw.lower
  rw [hw.takers_returned hreturned] at hupper hlower
  have hlength : s.taken.length + s.queue_.length = s.pushed.length := by
    rw [← List.length_append, hs.order]
  constructor
  · intro hdone i task hi hdue
    have hnumber := hs.queue_number hi
    have hlt := (hw.executed_once_iff hreturned _).mp (hdone _ hdue)
    omega
  · intro hreach n hn
    rw [hw.executed_once_iff hreturned]
    have hknown := hs.known n (Or.inr (Or.inr hn))
    rcases Nat.lt_or_ge n s.taken.length with hlt | hge
    · omega
    · -- It is in the queue, and a worker comes for it.
      have hi : n - s.taken.length < s.queue_.length := by omega
      have hget := List.getElem?_eq_getElem hi
      have hnumber := hs.queue_number hget
      have hlt := hreach _ _ hget (by rw [hnumber]; rwa [Nat.add_sub_cancel' hge])
      omega

/-- One worker is about to take the one task that `stop` waits for. -/
theorem stop_completes_iff_one :
    ∃ s u w : ThreadPool Nat (Fin 1) (Fin 1),
      (machine Nat (Fin 1) (Fin 1)).Run (init Nat (Fin 1) (Fin 1) 0)
        [.check 0, .run 0 7 none, .runReturns 0, .stopCall] s ∧
      (machine Nat (Fin 1) (Fin 1)).step s .stopSection = .ok u ∧
      (machine Nat (Fin 1) (Fin 1)).Run u [.take 0 none, .finish 0, .check 0, .stopReturns] w ∧
      w.stop = .returned ∧ s.due = [0] ∧ s.DueInReach := by
  have hexec : (((machine Nat (Fin 1) (Fin 1)).exec (init Nat (Fin 1) (Fin 1) 0)
      [.check 0, .run 0 7 none, .runReturns 0, .stopCall]).bind fun s =>
        ((machine Nat (Fin 1) (Fin 1)).exec s
          [.stopSection, .take 0 none, .finish 0, .check 0, .stopReturns]).map fun w =>
            (w.stop, s.due, w.executed.map Task.number))
      = some (.returned, [0], [0]) := by
    decide
  obtain ⟨s, u, w, hrun, hen, hstop, hafter, hvalues⟩ := Machine.exists_runs_of_exec hexec
  obtain ⟨hreturned, hvalues⟩ := Prod.mk.inj hvalues
  obtain ⟨hdue, hexecuted⟩ := Prod.mk.inj hvalues
  refine ⟨s, u, w, hrun, hstop, hafter, hreturned, hdue, ?_⟩
  refine (stop_completes_iff hrun hen hstop hafter hreturned).mp fun n hn => ?_
  rw [hdue] at hn
  rw [hexecuted, List.mem_singleton.mp hn]
  rfl

/-- The only worker executes a task when `stop` clears `running_`. The task
that is in the queue then stays there. -/
theorem stop_leaves_task :
    ∃ s u w : ThreadPool Nat (Fin 1) (Fin 1),
      (machine Nat (Fin 1) (Fin 1)).Run (init Nat (Fin 1) (Fin 1) 0)
        [.check 0, .run 0 7 none, .runReturns 0, .take 0 none, .run 0 8 none, .runReturns 1,
          .stopCall] s ∧
      (machine Nat (Fin 1) (Fin 1)).step s .stopSection = .ok u ∧
      (machine Nat (Fin 1) (Fin 1)).Run u [.finish 0, .check 0, .stopReturns] w ∧
      w.stop = .returned ∧ s.due = [1, 0] ∧ w.executed = [⟨7, 0⟩] ∧ w.queue_ = [⟨8, 1⟩] := by
  have hexec : (((machine Nat (Fin 1) (Fin 1)).exec (init Nat (Fin 1) (Fin 1) 0)
      [.check 0, .run 0 7 none, .runReturns 0, .take 0 none, .run 0 8 none, .runReturns 1,
        .stopCall]).bind fun s =>
        ((machine Nat (Fin 1) (Fin 1)).exec s
          [.stopSection, .finish 0, .check 0, .stopReturns]).map fun w =>
            (w.stop, s.due, w.executed, w.queue_))
      = some (.returned, [1, 0], [⟨7, 0⟩], [⟨8, 1⟩]) := by
    decide
  obtain ⟨s, u, w, hrun, _, hstop, hafter, hvalues⟩ := Machine.exists_runs_of_exec hexec
  obtain ⟨hreturned, hvalues⟩ := Prod.mk.inj hvalues
  obtain ⟨hdue, hvalues⟩ := Prod.mk.inj hvalues
  obtain ⟨hexecuted, hqueue⟩ := Prod.mk.inj hvalues
  exact ⟨s, u, w, hrun, hstop, hafter, hreturned, hdue, hexecuted, hqueue⟩

/-! ### The threads in `run` -/

omit [DecidableEq ω] [DecidableEq κ] in
/-- Room that is left when nobody enters `take` any more. -/
theorem HasRoom.step {extra : Nat} (hroom : s.HasRoom extra)
    (hsize : s'.maxQueueSize_ = s.maxQueueSize_) (heffect : Effect s s' extra)
    (hrunning : s'.running_ = false) : s'.HasRoom 0 := by
  rw [HasRoom] at hroom ⊢
  cases heffect with
  | quiet hqueue _ _ htakers hinside =>
      rw [hqueue, htakers]
      omega
  | push task hqueue _ _ htakers hinside =>
      rw [hqueue, List.length_append, List.length_singleton, htakers]
      omega
  | take task hqueue _ _ htakers hinside =>
      rw [hqueue, List.length_cons] at hroom
      omega
  | giveUp _ hqueue _ _ htakers hinside =>
      rw [hqueue, List.length_nil]
      omega
  | enter _ _ _ _ _ hon =>
      rw [hon] at hrunning
      cases hrunning

/-- After the critical section of `stop` there is room for every thread in
`run`. -/
theorem hasRoom_step {e : Event T ω κ} (h : Inv m s) (hroom : s.running_ = false → s.HasRoom 0)
    (hen : enabled s e = true) (hleaves : LeavesRoom s e) (hstep : step s e = .ok s') :
    s'.running_ = false → s'.HasRoom 0 := by
  intro hoff
  obtain ⟨hinv, heffect⟩ := (step_spec h hen).post hstep
  refine HasRoom.step ?_ (hinv.size.trans h.size.symm) heffect hoff
  rcases step_running.post hstep with hsame | ⟨hsection, _⟩
  · rw [hsame] at hoff
    cases e with
    | run t x pick => exact hleaves hoff
    | runAgain _ _ | runWakes _ | runReturns _ | check _ | take _ _ | takeWakes _ | finish _
    | stopCall | stopSection | stopReturns => exact hroom hoff
  · rw [hsection] at hleaves ⊢
    exact hleaves

/-- The queue is bounded. In every run in which there is room for the tasks of
all threads in `run` when `stop` clears `running_`, and of each thread that
enters `run` later, no thread sleeps in `run` when `stop` has returned. -/
theorem none_asleep_after_stop (hmax : 1 ≤ m) {es : List (Event T ω κ)}
    (hrun : ((machine T ω κ).restrict LeavesRoom).Run (init T ω κ m) es s)
    (hstop : s.stop = .returned) (t : κ) : (s.callers t).isAsleep = false := by
  have hboth : Inv m s ∧ (s.running_ = false → s.HasRoom 0) := by
    refine hrun.invariant (I := fun v => Inv m v ∧ (v.running_ = false → v.HasRoom 0))
      ⟨inv_init m, fun hoff => by cases hoff⟩ ?_
    intro u e v hu hen hstep
    exact ⟨((step_spec hu.1 hen.1).post hstep).1, hasRoom_step hu.1 hu.2 hen.1 hen.2 hstep⟩
  obtain ⟨h, hroom⟩ := hboth
  have hroom := hroom (h.cleared (Or.inr hstop))
  rw [HasRoom, h.takers_returned hstop, h.size] at hroom
  have hinside := Waits.count_asleep_add_notified_le s.callers
  cases ht : (s.callers t).isAsleep with
  | false => rfl
  | true =>
      have hpos := count_pos_iff.mpr ⟨t, ht⟩
      have hcovered := h.covered hpos
      have hbound := h.bound hmax
      omega

/-- The worker and the thread in `run` are done in time. -/
theorem none_asleep_after_stop_room :
    ∃ s : ThreadPool Nat (Fin 1) (Fin 1),
      ((machine Nat (Fin 1) (Fin 1)).restrict LeavesRoom).Run (init Nat (Fin 1) (Fin 1) 1)
        [.check 0, .run 0 7 none, .take 0 none, .run 0 8 none, .finish 0, .check 0, .stopCall,
          .stopSection, .take 0 none, .run 0 9 none, .finish 0, .check 0, .stopReturns] s ∧
      s.stop = .returned ∧ s.queue_ = [⟨9, 2⟩] ∧ (s.callers 0).isAsleep = false := by
  have hexec : (((machine Nat (Fin 1) (Fin 1)).restrict LeavesRoom).exec
      (init Nat (Fin 1) (Fin 1) 1)
      [.check 0, .run 0 7 none, .take 0 none, .run 0 8 none, .finish 0, .check 0, .stopCall,
        .stopSection, .take 0 none, .run 0 9 none, .finish 0, .check 0, .stopReturns]).map
      (fun s => (s.stop, s.queue_)) = some (.returned, [⟨9, 2⟩]) := by
    decide
  obtain ⟨s, hrun, hvalues⟩ := Machine.exists_run_of_exec hexec
  obtain ⟨hstop, hqueue⟩ := Prod.mk.inj hvalues
  exact ⟨s, hrun, hstop, hqueue, none_asleep_after_stop (Nat.le_refl 1) hrun hstop 0⟩

/-- A thread sleeps in `run`, the queue is full, and the workers are gone. -/
structure Stuck (t : κ) (s : ThreadPool T ω κ) : Prop where
  exited : ∀ u, (s.workers u).isExited = true
  full : s.isFull = true
  asleep : (s.callers t).isAsleep = true

omit [Fintype κ] in
/-- No other thread gets further than to sleep, too. -/
theorem Stuck.run {t u : κ} (h : Stuck t s) (hne : t ≠ u) (x : T) (pick : Option ω) :
    Returns (s.run u x pick) (Stuck t) := by
  rw [ThreadPool.run]
  split_ifs with hcard hfull
  · exact Ends.ok ⟨h.exited, h.full, h.asleep⟩
  · refine Ends.ok ⟨h.exited, h.full, ?_⟩
    show (Function.update s.callers u (.asleep x) t).isAsleep = true
    rw [Function.update_of_ne hne]
    exact h.asleep
  · exact absurd h.full hfull

/-- Nothing but a spurious wakeup wakes the thread. -/
theorem Stuck.step {t : κ} {e : Event T ω κ} (h : Stuck t s) (hen : enabled s e = true)
    (hne : e ≠ .runWakes t) : Returns (step s e) (Stuck t) := by
  have hcaller : ∀ u, (s.callers u).isAsleep = false → t ≠ u := by
    intro u hu heq
    rw [← heq, h.asleep] at hu
    cases hu
  -- A worker that has exited makes no step.
  have hworker : ∀ (w : Worker T) (u : ω), s.workers u = w → w.isExited = true := by
    intro w u hu
    rw [← hu]
    exact h.exited u
  cases e with
  | run u x pick =>
      obtain ⟨hout, _⟩ := Bool.and_eq_true_iff.mp hen
      exact h.run (hcaller u (Waits.awake_of_outside hout)) x pick
  | runAgain u pick =>
      obtain ⟨hsome, _⟩ := Bool.and_eq_true_iff.mp hen
      obtain ⟨x, hx⟩ := Option.isSome_iff_exists.mp hsome
      rw [ThreadPool.step, hx]
      exact h.run (hcaller u (Waits.awake_of_recheck hx)) x pick
  | runWakes u =>
      refine Ends.ok ⟨h.exited, h.full, ?_⟩
      show (Function.update s.callers u _ t).isAsleep = true
      rw [Function.update_of_ne (fun heq => hne (by rw [heq]))]
      exact h.asleep
  | check u =>
      cases hw : s.workers u with
      | exited =>
          rw [enabled, hw] at hen
          cases hen
      | checking | taking v | executing task => cases hworker _ u hw
  | take u pick =>
      obtain ⟨hcan, _⟩ := Bool.and_eq_true_iff.mp hen
      obtain ⟨v, hv⟩ := Worker.exists_of_canTake hcan
      cases hworker _ u hv
  | takeWakes u =>
      obtain ⟨v, hv⟩ := Worker.exists_of_isAsleep hen
      cases hworker _ u hv
  | finish u =>
      cases hw : s.workers u with
      | exited =>
          rw [enabled, hw] at hen
          cases hen
      | checking | taking v | executing task => cases hworker _ u hw
  | stopSection =>
      refine Ends.ok ⟨fun u => ?_, h.full, h.asleep⟩
      show (s.workers u).wake.isExited = true
      rw [Worker.isExited_wake]
      exact h.exited u
  | runReturns number | stopCall | stopReturns => exact Ends.ok ⟨h.exited, h.full, h.asleep⟩

/-- The only worker executes a task when `stop` clears `running_`. The queue
is full, and a thread sleeps in `run`. The worker exits and `stop` returns, and
nothing that any thread does wakes that thread any more. -/
theorem asleep_after_stop :
    ∃ s : ThreadPool Nat (Fin 1) (Fin 2),
      (machine Nat (Fin 1) (Fin 2)).Run (init Nat (Fin 1) (Fin 2) 1)
        [.check 0, .run 0 7 none, .take 0 none, .run 0 8 none, .run 1 9 none, .stopCall,
          .stopSection, .finish 0, .check 0, .stopReturns] s ∧
      s.stop = .returned ∧ s.callers 1 = .asleep 9 ∧
      ∀ fs u, ((machine Nat (Fin 1) (Fin 2)).restrict fun _ e => e ≠ .runWakes 1).Run s fs u →
        (u.callers 1).isAsleep = true := by
  have hexec : ((machine Nat (Fin 1) (Fin 2)).exec (init Nat (Fin 1) (Fin 2) 1)
      [.check 0, .run 0 7 none, .take 0 none, .run 0 8 none, .run 1 9 none, .stopCall,
        .stopSection, .finish 0, .check 0, .stopReturns]).map
      (fun s => (s.stop, s.callers 1, s.isFull)) = some (.returned, .asleep 9, true) := by
    decide
  obtain ⟨s, hrun, hvalues⟩ := Machine.exists_run_of_exec hexec
  obtain ⟨hstop, hvalues⟩ := Prod.mk.inj hvalues
  obtain ⟨hasleep, hfull⟩ := Prod.mk.inj hvalues
  refine ⟨s, hrun, hstop, hasleep, fun fs u hlater => ?_⟩
  have hstuck : Stuck 1 s := ⟨(inv_of_run hrun).exited hstop, hfull, by rw [hasleep]; rfl⟩
  have hstuck : Stuck 1 u := by
    refine hlater.invariant (I := Stuck 1) hstuck ?_
    intro t e v ht hen hstep
    exact (ht.step hen.1 hen.2).post hstep
  exact hstuck.asleep

end

end Muduo.Base.ThreadPool
