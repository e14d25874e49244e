import Muduo.Proofs.ThreadPool

/-!
# `Muduo.Proofs.ThreadPoolOrder`: the tasks in their order, each once

The order of the tasks and the bound of the queue are part of the invariant of
`Muduo.Proofs.ThreadPool`. Here is the rest of what the pool promises while it
runs. `handedOver` is what a critical section of `take` gives to its worker,
so what is seen of it along a run says who got which task. The hand-overs are
the tasks of `taken`, whose numbers are different, and each task is in one
hand-over only.

The workers wait in `take` and the callers in `run`. For the workers the units
of `Covered` are the tasks in the queue. `notEmpty_.notify()` comes with every
task, and the worker that is awake and takes one may have been notified or
not. `notFull_` is notified only when `maxQueueSize_` is positive. With 0 the
queue is never full, so that no caller sleeps (`Waiting.unbounded`).
-/

set_option autoImplicit false

namespace Muduo.Base.ThreadPool

open Muduo.Lib

variable {T ω κ : Type}

namespace Worker

/-- The place of the worker in `take`. -/
def waits : Worker T → Waits Unit
  | .taking w => w
  | _ => .outside

/-- The worker has been notified, and has not looked at the queue since. -/
def isNotified (w : Worker T) : Bool := w.waits.isNotified

theorem isAsleep_waits (w : Worker T) : w.waits.isAsleep = w.isAsleep := by
  cases w <;> rfl

theorem waits_wake (w : Worker T) : w.wake.waits = w.waits.wake := by
  cases w <;> rfl

theorem waits_spurious (w : Worker T) : w.spurious.waits = w.waits.spurious := by
  cases w <;> rfl

theorem awake_of_canTake {w : Worker T} (h : w.canTake = true) : w.waits.isAsleep = false := by
  cases w with
  | taking v => exact Bool.not_eq_true' _ ▸ h
  | checking | executing task | exited => cases h

end Worker

/-! ### The threads that sleep -/

section

variable [Fintype ω]

/-- While a worker sleeps, each task in the queue is owed to a worker that was
notified. Without a bound no caller sleeps. -/
structure Waiting (m : Nat) (s : ThreadPool T ω κ) : Prop where
  workers : Covered s.queue_.length (Worker.waits ∘ s.workers)
  unbounded : m = 0 → ∀ t, (s.callers t).isAsleep = false

variable {s s' : ThreadPool T ω κ} {m : Nat}

theorem waiting_init (m : Nat) : Waiting m (init T ω κ m) where
  workers := covered_of_awake fun _ => rfl
  unbounded _ _ := rfl

variable [DecidableEq ω]

omit [Fintype ω] in
/-- A worker moves, but not in `take`. -/
theorem waits_stay {t : ω} {w : Worker T} (h : (s.workers t).waits = w.waits) :
    Worker.waits ∘ Function.update s.workers t w = Worker.waits ∘ s.workers := by
  rw [Function.comp_update, ← h]
  exact Function.update_eq_self t (Worker.waits ∘ s.workers)

variable [DecidableEq κ]

/-- A worker takes a task, or it finds none and there is nothing that is owed. -/
theorem Waiting.take (h : Waiting m s) {t : ω} (ht : (s.workers t).canTake = true) (pick : Option κ) :
    Waiting m (s.take t pick) := by
  cases hq : s.queue_ with
  | nil =>
      rw [take_empty hq]
      refine ⟨?_, h.unbounded⟩
      show Covered s.queue_.length _
      rw [hq]
      exact covered_zero _
  | cons task rest =>
      have hworkers := h.workers
      rw [hq] at hworkers
      rw [take_front hq]
      constructor
      · show Covered rest.length (Worker.waits ∘ Function.update s.workers t (.executing task))
        rw [Function.comp_update]
        exact hworkers.leave (Worker.awake_of_canTake ht)
      · intro hm u
        show ((if 0 < s.maxQueueSize_ then notify Waits.wake s.callers pick else s.callers) u).isAsleep
          = false
        split_ifs
        · refine forall_notify (P := fun w => Waits.isAsleep w = false) ?_ (h.unbounded hm) pick u
          intro w hw
          cases w <;> first | exact hw | rfl
        · exact h.unbounded hm u

variable [Fintype κ]

/-- A task goes into the queue, and a worker is notified. A caller sleeps only
when the queue has a bound. -/
theorem Waiting.run (h : Waiting m s) (hinv : Inv m s) (t : κ) (x : T) {pick : Option ω}
    (hpick : picks Worker.isAsleep s.workers pick = true) :
    Returns (s.run t x pick) (Waiting m) := by
  have hawake : ∀ w : Waits T, w.isAsleep = false → m = 0 →
      ∀ u, (Function.update s.callers t w u).isAsleep = false := by
    intro w hw hm u
    by_cases hu : u = t
    · rw [hu, Function.update_self]
      exact hw
    · rw [Function.update_of_ne hu]
      exact h.unbounded hm u
  rw [ThreadPool.run]
  split_ifs with hcard hfull
  · exact Ends.ok ⟨h.workers, h.unbounded⟩
  · -- The caller goes to sleep. The queue is full, which it is not without a bound.
    refine Ends.ok ⟨h.workers, fun hm => ?_⟩
    have hpos := of_decide_eq_true (Bool.and_eq_true_iff.mp hfull).1
    rw [hinv.size] at hpos
    omega
  · refine Ends.assert (Bool.eq_false_of_not_eq_true hfull) (Ends.ok ⟨?_, hawake _ rfl⟩)
    have hview : picks Waits.isAsleep (Worker.waits ∘ s.workers) pick = true := by
      cases pick with
      | none => exact decide_eq_true fun u => (Worker.isAsleep_waits _).trans (of_decide_eq_true hpick u)
      | some u => exact (Worker.isAsleep_waits _).trans hpick
    show Covered (s.queue_ ++ [_]).length (Worker.waits ∘ notify Worker.wake s.workers pick)
    rw [List.length_append, notify_view Worker.waits_wake]
    exact h.workers.notify hview

theorem Waiting.step (h : Waiting m s) (hinv : Inv m s) {e : Event T ω κ} (hen : enabled s e = true) :
    Returns (step s e) (Waiting m) := by
  cases e with
  | run t x pick => exact h.run hinv t x (Bool.and_eq_true_iff.mp hen).2
  | runAgain t pick =>
      rw [ThreadPool.step]
      split
      · exact h.run hinv t _ (Bool.and_eq_true_iff.mp hen).2
      · exact Ends.ok h
  | runWakes t =>
      refine Ends.ok ⟨h.workers, fun hm u => ?_⟩
      have hasleep := h.unbounded hm t
      rw [show (s.callers t).isAsleep = true from hen] at hasleep
      cases hasleep
  | check t =>
      -- The worker is between two tasks, not in `take`.
      refine Ends.ok ⟨?_, h.unbounded⟩
      have houtside : (s.workers t).waits = .outside := by
        cases hw : s.workers t with
        | checking => rfl
        | taking v | executing task | exited =>
            rw [enabled, hw] at hen
            cases hen
      show Covered s.queue_.length (Worker.waits ∘ Function.update s.workers t _)
      rw [waits_stay (houtside.trans (by split_ifs <;> rfl))]
      exact h.workers
  | take t pick => exact Ends.ok (h.take (Bool.and_eq_true_iff.mp hen).1 pick)
  | takeWakes t =>
      refine Ends.ok ⟨?_, h.unbounded⟩
      show Covered s.queue_.length (Worker.waits ∘ Function.update s.workers t _)
      rw [Function.comp_update, Worker.waits_spurious]
      exact h.workers.spurious
  | finish t =>
      cases hw : s.workers t with
      | executing task =>
          rw [ThreadPool.step, finish_executing hw]
          refine Ends.ok ⟨?_, h.unbounded⟩
          show Covered s.queue_.length (Worker.waits ∘ Function.update s.workers t .checking)
          rw [waits_stay (by rw [hw]; rfl)]
          exact h.workers
      | checking | taking v | exited =>
          rw [enabled, hw] at hen
          cases hen
  | stopSection =>
      -- All are notified.
      refine Ends.ok ⟨covered_of_awake fun t => ?_, h.unbounded⟩
      show (s.workers t).wake.waits.isAsleep = false
      rw [Worker.waits_wake]
      cases (s.workers t).waits <;> rfl
  | runReturns number | stopCall | stopReturns => exact Ends.ok ⟨h.workers, h.unbounded⟩

/-! ### The hand-overs -/

/-- The task that an event gives to a worker. -/
def handedOver (s : ThreadPool T ω κ) : Event T ω κ → List (ω × Task T)
  | .take t _ => s.queue_.head?.toList.map fun task => (t, task)
  | _ => []

omit [Fintype κ] in
/-- No other event takes a task. -/
theorem step_taken (s : ThreadPool T ω κ) (e : Event T ω κ) :
    Returns (step s e) fun s' => s'.taken = s.taken ++ (handedOver s e).map Prod.snd := by
  have hrun : ∀ t x pick, Returns (s.run t x pick) fun s' => s'.taken = s.taken ++ [] := by
    intro t x pick
    rw [run, List.append_nil]
    split_ifs with hcard hfull
    · exact Ends.ok rfl
    · exact Ends.ok rfl
    · exact Ends.assert (Bool.eq_false_of_not_eq_true hfull) (Ends.ok rfl)
  cases e with
  | run t x pick => exact hrun t x pick
  | runAgain t pick =>
      rw [step]
      split
      · exact hrun t _ pick
      · exact Ends.ok (List.append_nil _).symm
  | take t pick =>
      refine Ends.ok ?_
      rw [handedOver]
      cases hq : s.queue_ with
      | nil =>
          rw [take_empty hq]
          exact (List.append_nil _).symm
      | cons task rest =>
          rw [take_front hq]
          rfl
  | finish t =>
      refine Ends.ok ?_
      rw [finish]
      split <;> exact (List.append_nil _).symm
  | runWakes t | runReturns number | check t | takeWakes t | stopCall | stopSection | stopReturns =>
      exact Ends.ok (List.append_nil _).symm

/-- The tasks of the hand-overs are those that were taken. -/
theorem handedOver_taken {es : List (Event T ω κ)}
    (hrun : (machine T ω κ).Run (init T ω κ m) es s) :
    ((machine T ω κ).seen handedOver (init T ω κ m) es).map Prod.snd = s.taken := by
  refine hrun.invariant_seen (I := fun l t => l.map Prod.snd = t.taken) rfl ?_
  intro l t e u hl _ hstep
  rw [(step_taken t e).post hstep, List.map_append, hl]

/-- In a list without repetition a value is found once. -/
theorem filter_eq_singleton {α : Type} {f : α → Nat} {l : List α} (h : (l.map f).Nodup) {a : α}
    (ha : a ∈ l) : l.filter (f · == f a) = [a] := by
  have hone : ((l.filter (f · == f a)).map f).length = 1 := by
    have hcomp : l.filter (f · == f a) = l.filter ((· == f a) ∘ f) := rfl
    rw [hcomp, ← List.filter_map, List.filter_beq, List.length_replicate]
    exact List.count_eq_one_of_mem h (List.mem_map_of_mem ha)
  rw [List.length_map] at hone
  obtain ⟨b, hb⟩ := List.length_eq_one_iff.mp hone
  have hin : a ∈ l.filter (f · == f a) := List.mem_filter.mpr ⟨ha, beq_self_eq_true _⟩
  rw [hb] at hin ⊢
  rw [List.mem_singleton.mp hin]

/-- A task that was pushed is in the queue, or it was handed to one worker. -/
theorem handedOver_once {es : List (Event T ω κ)}
    (hrun : (machine T ω κ).Run (init T ω κ m) es s) {task : Task T} (htask : task ∈ s.pushed) :
    (task ∈ s.queue_ ∧ ((machine T ω κ).seen handedOver (init T ω κ m) es).filter
        (·.2.number == task.number) = []) ∨
      ∃ t, ((machine T ω κ).seen handedOver (init T ω κ m) es).filter
        (·.2.number == task.number) = [(t, task)] := by
  have hinv := inv_of_run hrun
  have htaken := handedOver_taken hrun
  generalize (machine T ω κ).seen handedOver (init T ω κ m) es = handed at htaken ⊢
  have hnumbers : handed.map (fun h => h.2.number) = List.range s.taken.length := by
    rw [← hinv.taken_numbers, ← htaken, List.map_map]
    rfl
  rw [← hinv.order, List.mem_append] at htask
  cases htask with
  | inl hin =>
      rw [← htaken] at hin
      -- The hand-overs have the numbers 0, 1, and so on, each once.
      obtain ⟨⟨t, _⟩, hmem, rfl⟩ := List.mem_map.mp hin
      exact .inr ⟨t, filter_eq_singleton (f := fun h => h.2.number) (hnumbers ▸ List.nodup_range) hmem⟩
  | inr hqueue =>
      refine .inl ⟨hqueue, List.filter_eq_nil_iff.mpr fun h hmem heq => ?_⟩
      -- The numbers in the queue follow those of the tasks that were taken.
      obtain ⟨i, hi⟩ := List.mem_iff_getElem?.mp hqueue
      have hnumber := hinv.queue_number hi
      have hlt : h.2.number < s.taken.length := by
        rw [← List.mem_range, ← hnumbers]
        exact List.mem_map_of_mem hmem
      have hsame := eq_of_beq heq
      omega

/-- In every run the tasks are handed over in the order of their `push_back`,
and each is handed to one worker, which executes it once. With a positive
`maxQueueSize_` the queue is not longer than that. While a worker sleeps, there
are at most as many tasks as notified workers that have still to look. While a
caller sleeps, there are at most as many free places as notified callers, and
without a bound none sleeps. No `assert` fails. -/
theorem tasks_in_order_once {es : List (Event T ω κ)}
    (hrun : (machine T ω κ).Run (init T ω κ m) es s) :
    ((machine T ω κ).seen handedOver (init T ω κ m) es).map Prod.snd ++ s.queue_ = s.pushed ∧
    (∀ task ∈ s.pushed,
      (task ∈ s.queue_ ∧ ((machine T ω κ).seen handedOver (init T ω κ m) es).filter
          (·.2.number == task.number) = []) ∨
        ∃ t, ((machine T ω κ).seen handedOver (init T ω κ m) es).filter
          (·.2.number == task.number) = [(t, task)]) ∧
    (∀ task ∈ s.pushed, task ∉ s.queue_ →
      (s.executed.map Task.number).count task.number
        + count (Worker.executes task.number) s.workers = 1) ∧
    (0 < m → s.queue_.length ≤ m) ∧
    ((∃ t, (s.workers t).isAsleep = true) → s.queue_.length ≤ count Worker.isNotified s.workers) ∧
    ((∃ t, (s.callers t).isAsleep = true) →
      0 < m ∧ m - s.queue_.length ≤ count Waits.isNotified s.callers) ∧
    ∀ e, (machine T ω κ).enabled s e → ∃ s', (machine T ω κ).step s e = .ok s' := by
  have hinv := inv_of_run hrun
  have hwaiting : Waiting m s := by
    refine (hrun.invariant (I := fun t => Inv m t ∧ Waiting m t) ⟨inv_init m, waiting_init m⟩ ?_).2
    intro t e u ht hen hstep
    exact ⟨((step_spec ht.1 hen).post hstep).1, (ht.2.step ht.1 hen).post hstep⟩
  refine ⟨?_, fun task htask => handedOver_once hrun htask, ?_, hinv.bound, ?_, ?_, ?_⟩
  · rw [handedOver_taken hrun]
    exact hinv.order
  · intro task htask hqueue
    rw [← hinv.order, List.mem_append] at htask
    have hin := htask.resolve_right hqueue
    rw [hinv.done]
    exact List.count_eq_one_of_mem (hinv.taken_numbers ▸ List.nodup_range) (List.mem_map_of_mem hin)
  · rintro ⟨t, ht⟩
    exact hwaiting.workers (count_pos_iff.mpr ⟨t, (Worker.isAsleep_waits _).trans ht⟩)
  · rintro ⟨t, ht⟩
    refine ⟨?_, hinv.covered (count_pos_iff.mpr ⟨t, ht⟩)⟩
    by_contra hm
    rw [hwaiting.unbounded (by omega) t] at ht
    cases ht
  · intro e hen
    obtain ⟨s', hstep, -⟩ := (step_spec hinv hen).exists_ok
    exact ⟨s', hstep⟩

/-- Two workers and one caller. The first worker sleeps and is notified, and
the second one comes before it. -/
theorem tasks_in_order_once_overtaken :
    ∃ s, (machine Nat (Fin 2) (Fin 1)).Run (init Nat (Fin 2) (Fin 1) 1)
        [.check 0, .take 0 none, .run 0 7 (some 0), .check 1, .take 1 none, .take 0 none] s ∧
      (s.workers 0).isAsleep = true ∧ s.queue_.length ≤ count Worker.isNotified s.workers := by
  have hexec : ((machine Nat (Fin 2) (Fin 1)).exec (init Nat (Fin 2) (Fin 1) 1)
      [.check 0, .take 0 none, .run 0 7 (some 0), .check 1, .take 1 none, .take 0 none]).map
      (fun s => (s.workers 0).isAsleep) = some true := by
    decide
  obtain ⟨s, hrun, hasleep⟩ := Machine.exists_run_of_exec hexec
  exact ⟨s, hrun, hasleep, (tasks_in_order_once hrun).2.2.2.2.1 ⟨0, hasleep⟩⟩

end

end Muduo.Base.ThreadPool
