import Muduo.Proofs.TimerLoop

/-!
# `Muduo.Proofs.TimerBatch`: what one `handleRead` does

`schedule q` is the queue as its users see it: the ids of the timers in
`timers_` and the times they are set for. On this list a callback does one of
two things (`Change`). It adds a timer, or it takes out the one with an id.

`During q now changes u` is the invariant of a batch that started with the
queue `q` and in which the callbacks have made the `changes`. The timers that
were due are those of the batch, and the ones in front have run. Their cells
are as they were, since `new` returns no live address and nobody else owns
them. They are not in `activeTimers_`, so a cancellation of one of them goes
to `cancelingTimers_`. The schedule is what was not due, with the changes.

`reset` then gives back the repeating timers that nobody canceled and deletes
the others. `batch_exact` puts the parts together.
-/

set_option autoImplicit false

namespace Muduo.Net.TimerQueue

open Muduo.Base
open Muduo.Lib

variable {q q' : TimerQueue} {others : List Address} {a : Address} {t : Timer}

/-! ### The schedule -/

/-- The id of the timer of an entry. -/
def idOf (q : TimerQueue) (e : Entry) : TimerId := ⟨entryTimer e, q.sequenceAt (entryTimer e)⟩

/-- The timers in `timers_`, and when they expire. -/
def schedule (q : TimerQueue) : List (TimerId × Timestamp) :=
  q.timers_.toList.map fun e => (q.idOf e, entryTime e)

/-- The entries that are due at `now`, in the order of `timers_`. -/
def due (q : TimerQueue) (now : Timestamp) : List Entry :=
  q.timers_.toList.filter (entryTime · ≤ now)

/-- What user code does to the schedule. -/
inductive Change where
  | added (id : TimerId) (when_ : Timestamp)
  | canceled (id : TimerId)
  deriving DecidableEq, Repr

/-- The schedule after a change. -/
def Change.apply (schedule : List (TimerId × Timestamp)) : Change → List (TimerId × Timestamp)
  | .added id when_ => (id, when_) :: schedule
  | .canceled id => schedule.filter (·.1 ≠ id)

/-- The place in the schedule that a timer of the batch has after it: the
timer repeats and was not canceled. -/
def restarted (q : TimerQueue) (now : Timestamp) (changes : List Change) (e : Entry) :
    Option (TimerId × Timestamp) :=
  match q.heap (entryTimer e) with
  | some t =>
      if t.repeat_ ∧ .canceled (q.idOf e) ∉ changes then some (q.idOf e, now + t.interval_) else none
  | none => none

/-- The sequence number of a callback that was started. -/
def started? : Effect → Option Int
  | .started sequence => some sequence
  | _ => none

theorem Change.apply_perm {l l' : List (TimerId × Timestamp)} (h : l.Perm l') (c : Change) :
    (Change.apply l c).Perm (Change.apply l' c) := by
  cases c with
  | added id when_ => exact h.cons _
  | canceled id => exact h.filter _

theorem foldl_apply_perm (changes : List Change) : ∀ {l l' : List (TimerId × Timestamp)}, l.Perm l' →
    (changes.foldl Change.apply l).Perm (changes.foldl Change.apply l') := by
  induction changes with
  | nil => exact fun h => h
  | cons c changes ih => exact fun h => ih (Change.apply_perm h c)

theorem idOf_eq {e : Entry} (h : q'.heap (entryTimer e) = q.heap (entryTimer e)) :
    q'.idOf e = q.idOf e := by
  rw [idOf, idOf, sequenceAt, sequenceAt, h]

theorem idOf_entry (ht : q.heap a = some t) : q.idOf (entry t.expiration_ a) = ⟨a, t.sequence_⟩ := by
  show (⟨a, q.sequenceAt a⟩ : TimerId) = _
  rw [sequenceAt_eq ht]

/-- An entry of `cancelingTimers_` stands for the id of its timer. -/
theorem activeTimer_eq_iff (q : TimerQueue) (e : Entry) (id : TimerId) :
    activeTimer (entryTimer e) (q.sequenceAt (entryTimer e)) = activeTimer id.timer_ id.sequence_ ↔
      q.idOf e = id := by
  obtain ⟨timer, sequence⟩ := id
  constructor
  · intro hpair
    obtain ⟨htimer, hsequence⟩ : entryTimer e = timer ∧ q.sequenceAt (entryTimer e) = sequence :=
      Prod.mk.inj hpair
    rw [idOf, hsequence, htimer]
  · intro hid
    cases hid
    rfl

/-- The schedule reads the heap only at the timers of the queue. -/
theorem schedule_congr (htimers : q'.timers_ = q.timers_)
    (hheap : ∀ b ∈ q.addresses, q'.heap b = q.heap b) : q'.schedule = q.schedule := by
  rw [schedule, schedule, htimers]
  refine List.map_congr_left fun e he => ?_
  rw [idOf_eq (hheap _ (List.mem_map_of_mem he))]

/-- What is in the schedule is in `activeTimers_`. -/
theorem Sets.active_of_schedule (h : Sets q others) {p : TimerId × Timestamp}
    (hp : p ∈ q.schedule) : activeTimer p.1.timer_ p.1.sequence_ ∈ q.activeTimers_ := by
  obtain ⟨e, he, rfl⟩ := List.mem_map.mp hp
  rw [SortedSet.mem_iff, h.active.mem_iff]
  exact List.mem_map.mpr ⟨e, he, rfl⟩

/-- A timer that somebody else holds is written, or `new` returns its address. -/
theorem schedule_store (ha : a ∉ q.addresses) (t : Timer) : (q.store a t).schedule = q.schedule :=
  schedule_congr rfl fun _ hb => Function.update_of_ne (ne_of_mem_of_not_mem hb ha) _ _

theorem schedule_withTimer (h : Sets q (a :: others)) (ht : q.heap a = some t) :
    (q.withTimer a t).schedule.Perm ((⟨a, t.sequence_⟩, t.expiration_) :: q.schedule) := by
  have hperm : (q.withTimer a t).timers_.toList.Perm (entry t.expiration_ a :: q.timers_.toList) :=
    SortedSet.insert_perm (h.notMem_timers _)
  refine (hperm.map fun e => (q.idOf e, entryTime e)).trans (List.Perm.of_eq ?_)
  rw [List.map_cons, idOf_entry ht]
  rfl

theorem addTimerInLoop_schedule (clock : Timestamp) (h : Sets q (a :: others))
    (ht : q.heap a = some t) :
    Returns (q.addTimerInLoop a clock) fun q' =>
      q'.schedule.Perm ((⟨a, t.sequence_⟩, t.expiration_) :: q.schedule) := by
  obtain ⟨changed, hins, -⟩ := insert_eq h ht
  have hperm := schedule_withTimer h ht
  simp only [addTimerInLoop, hins, ok_bind]
  split
  · rw [deref_eq (show (q.withTimer a t).heap a = some t from ht)]
    exact Ends.ok hperm
  · exact Ends.ok hperm

theorem schedule_withoutTimer (h : Sets q others) (ht : q.heap a = some t)
    (hmem : entry t.expiration_ a ∈ q.timers_) :
    (q.withoutTimer a t).schedule.Perm (q.schedule.filter (·.1 ≠ ⟨a, t.sequence_⟩)) := by
  have htimers : q.timers_.toList.Perm
      (entry t.expiration_ a :: (q.withoutTimer a t).timers_.toList) := SortedSet.erase_perm hmem
  have haddr : q.addresses.Perm (a :: (q.withoutTimer a t).addresses) := htimers.map entryTimer
  have hnodup := haddr.nodup_iff.mp (List.nodup_append.mp h.ledger.nodup).1
  -- The address is in `timers_` once, so no other entry has the id or reads the cell.
  have hne : ∀ e ∈ (q.withoutTimer a t).timers_.toList, entryTimer e ≠ a :=
    fun e he => ne_of_mem_of_not_mem (List.mem_map_of_mem he) (List.nodup_cons.mp hnodup).1
  have hrest : ((q.withoutTimer a t).timers_.toList.map fun e => (q.idOf e, entryTime e))
      = (q.withoutTimer a t).schedule := by
    refine List.map_congr_left fun e he => ?_
    have hcell : (q.withoutTimer a t).heap (entryTimer e) = q.heap (entryTimer e) :=
      Function.update_of_ne (hne e he) _ _
    rw [idOf_eq hcell]
  have hperm := htimers.map fun e => (q.idOf e, entryTime e)
  rw [List.map_cons, hrest, idOf_entry ht] at hperm
  refine List.Perm.symm ((hperm.filter _).trans (List.Perm.of_eq ?_))
  rw [List.filter_cons_of_neg (by simp), List.filter_eq_self]
  intro p hp
  obtain ⟨e, he, rfl⟩ := List.mem_map.mp hp
  refine decide_eq_true fun heq => hne e he ?_
  exact congrArg TimerId.timer_ heq

theorem cancelInLoop_schedule (h : Sets q others) (id : TimerId) :
    Returns (q.cancelInLoop id) fun q' => q'.schedule.Perm (Change.apply q.schedule (.canceled id)) := by
  rcases cancelInLoop_cases h id with ⟨t, ht, hseq, he, heq⟩ | ⟨hnot, heq⟩
  · refine Ends.of_eq_ok heq ((schedule_withoutTimer h ht he).trans (List.Perm.of_eq ?_))
    rw [hseq]
    rfl
  · obtain ⟨canceling, hsame⟩ := q.withCanceling_eq id
    rw [hsame] at heq
    refine Ends.of_eq_ok heq (List.Perm.of_eq (List.filter_eq_self.mpr fun p hp => ?_).symm)
    refine decide_eq_true fun hid => hnot ?_
    exact hid ▸ h.active_of_schedule hp

/-! ### The beginning of the batch -/

theorem lt_sentry_iff {now : Timestamp} {e : Entry} (ha : entryTimer e < UINTPTR_MAX) :
    e < entry now UINTPTR_MAX ↔ entryTime e ≤ now := by
  constructor
  · intro h
    exact entryTime_mono (le_of_lt h)
  · intro h
    by_contra hge
    exact absurd (lt_of_sentry_le ha (not_lt.mp hge)) (not_lt.mpr h)

/-- No timer has the address of the sentry. So the entries below it are those
that are due, and the others are the rest. -/
theorem Sets.below_sentry (h : Sets q others) (now : Timestamp) :
    q.timers_.below (entry now UINTPTR_MAX) = q.due now ∧
    (q.timers_.eraseBelow (entry now UINTPTR_MAX)).toList
      = q.timers_.toList.filter (now < entryTime ·) := by
  have hiff : ∀ e ∈ q.timers_.toList, (e < entry now UINTPTR_MAX ↔ entryTime e ≤ now) := by
    intro e he
    obtain ⟨t, ht, -⟩ := h.keyed e he
    exact lt_sentry_iff (h.bounded _ t ht)
  constructor
  · rw [SortedSet.below_eq_filter]
    exact List.filter_congr fun e he => decide_eq_decide.mpr (hiff e he)
  · rw [SortedSet.eraseBelow_eq_filter]
    refine List.filter_congr fun e he => decide_eq_decide.mpr ?_
    rw [← not_lt, hiff e he, not_le]

/-! ### The end of the batch -/

section
variable {q₀ : TimerQueue} (now : Timestamp) (changes : List Change)

/-- One round of `reset`, with a timer whose cell is as in `q₀`. -/
theorem resetOne_schedule {e : Entry} (hsets : Sets q (entryTimer e :: others))
    (hcell : q.heap (entryTimer e) = q₀.heap (entryTimer e))
    (hcanceling : activeTimer (entryTimer e) (q₀.sequenceAt (entryTimer e)) ∈ q.cancelingTimers_ ↔
      .canceled (q₀.idOf e) ∈ changes) :
    Returns (resetOne now q e) fun q' =>
      q'.schedule.Perm ((q₀.restarted now changes e).toList ++ q.schedule) ∧
      q'.log = q.log ++ (if (q₀.restarted now changes e).isNone then
        [.deleted (q₀.sequenceAt (entryTimer e))] else []) ∧
      q'.cancelingTimers_ = q.cancelingTimers_ ∧ ∀ b ≠ entryTimer e, q'.heap b = q.heap b := by
  obtain ⟨t, ht⟩ := hsets.get List.mem_cons_self
  have ht₀ := hcell.symm.trans ht
  have hseq := sequenceAt_eq ht₀
  rw [hseq] at hcanceling
  rw [restarted, ht₀]
  simp only [hseq]
  rcases resetOne_cases now hsets ht with ⟨hrepeat, hkeep, heq⟩ | ⟨hdrop, heq⟩
  · have hstored := schedule_withTimer (hsets.store ht (t.restart now)) (Function.update_self _ _ _)
    rw [schedule_store hsets.notMem_addresses, restart_sequence] at hstored
    have hexpiration : (t.restart now).expiration_ = now + t.interval_ := by
      rw [Timer.restart, if_pos hrepeat]
    rw [if_pos ⟨hrepeat, mt hcanceling.mpr hkeep⟩]
    refine Ends.of_eq_ok heq ⟨?_, (List.append_nil _).symm, rfl, fun b hb => ?_⟩
    · rw [hexpiration] at hstored
      rw [idOf, hseq]
      exact hstored
    · exact Function.update_of_ne hb _ _
  · rw [if_neg fun h => hdrop ⟨h.1, mt hcanceling.mp h.2⟩]
    refine Ends.of_eq_ok heq ⟨List.Perm.of_eq ?_, rfl, rfl, fun b hb => Function.update_of_ne hb _ _⟩
    exact schedule_congr rfl fun _ hb =>
      Function.update_of_ne (ne_of_mem_of_not_mem hb hsets.notMem_addresses) _ _

-- The induction is on the batch. A round writes to the cell of its own timer only.
theorem reset_loop_schedule (l : List Entry) : ∀ {q : TimerQueue},
    Sets q (l.map entryTimer ++ others) →
    (∀ e ∈ l, q.heap (entryTimer e) = q₀.heap (entryTimer e)) →
    (∀ e ∈ l, (activeTimer (entryTimer e) (q₀.sequenceAt (entryTimer e)) ∈ q.cancelingTimers_ ↔
      .canceled (q₀.idOf e) ∈ changes)) →
    Returns (l.foldlM (resetOne now) q) fun q' =>
      q'.schedule.Perm (l.filterMap (q₀.restarted now changes) ++ q.schedule) ∧
      q'.log = q.log ++ (l.filter fun e => (q₀.restarted now changes e).isNone).map
        fun e => .deleted (q₀.sequenceAt (entryTimer e)) := by
  induction l with
  | nil =>
      intro q _ _ _
      exact Ends.ok ⟨List.Perm.refl _, (List.append_nil _).symm⟩
  | cons e l ih =>
      intro q hsets hcells hcanceling
      obtain ⟨q₁, heq, hsets₁, -⟩ := (resetOne_spec now hsets).exists_ok
      obtain ⟨hschedule, hlog, hcancel, hheap⟩ :=
        (resetOne_schedule now changes hsets (hcells e List.mem_cons_self)
          (hcanceling e List.mem_cons_self)).post heq
      have hne : ∀ f ∈ l, entryTimer f ≠ entryTimer e := by
        have hnodup := (List.nodup_append.mp hsets.ledger.nodup).2.1
        exact fun f hf => ne_of_mem_of_not_mem (List.mem_append_left _ (List.mem_map_of_mem hf))
          (List.nodup_cons.mp hnodup).1
      have hrest := ih hsets₁
        (fun f hf => (hheap _ (hne f hf)).trans (hcells f (List.mem_cons_of_mem _ hf)))
        (fun f hf => by rw [hcancel]; exact hcanceling f (List.mem_cons_of_mem _ hf))
      rw [List.foldlM_cons, heq, ok_bind]
      refine hrest.imp fun q' hq' => ?_
      obtain ⟨hschedule', hlog'⟩ := hq'
      cases hres : q₀.restarted now changes e with
      | none =>
          rw [hres] at hschedule hlog
          rw [List.filterMap_cons_none hres, List.filter_cons_of_pos (by rw [hres]; rfl)]
          refine ⟨hschedule'.trans (hschedule.append_left _), ?_⟩
          rw [hlog', hlog, List.append_assoc]
          rfl
      | some p =>
          rw [hres] at hschedule hlog
          rw [List.filterMap_cons_some hres, List.filter_cons_of_neg (by rw [hres]; simp)]
          refine ⟨(hschedule'.trans (hschedule.append_left _)).trans List.perm_middle, ?_⟩
          rw [hlog', hlog]
          simp

/-- `reset` of the batch. -/
theorem reset_schedule (clock : Timestamp) (l : List Entry)
    (hsets : Sets q (l.map entryTimer ++ others))
    (hcells : ∀ e ∈ l, q.heap (entryTimer e) = q₀.heap (entryTimer e))
    (hcanceling : ∀ e ∈ l,
      (activeTimer (entryTimer e) (q₀.sequenceAt (entryTimer e)) ∈ q.cancelingTimers_ ↔
        .canceled (q₀.idOf e) ∈ changes)) :
    Returns (q.reset l now clock) fun q' =>
      q'.schedule.Perm (l.filterMap (q₀.restarted now changes) ++ q.schedule) ∧
      q'.log = q.log ++ (l.filter fun e => (q₀.restarted now changes e).isNone).map
        fun e => .deleted (q₀.sequenceAt (entryTimer e)) := by
  obtain ⟨q₁, heq, hsets₁, -⟩ := (reset_loop now l hsets).exists_ok
  have hloop := (reset_loop_schedule now changes l hsets hcells hcanceling).post heq
  rw [reset, heq, ok_bind]
  split
  · exact Ends.ok hloop
  · -- What follows only sets the alarm.
    rename_i it hit
    obtain ⟨t, ht, -⟩ := hsets₁.keyed it (List.mem_of_mem_head? hit)
    rw [deref_eq ht, ok_bind]
    split
    · exact Ends.ok hloop
    · exact Ends.ok hloop

end

end Muduo.Net.TimerQueue

namespace Muduo.Net.TimerLoop

open Muduo.Base
open Muduo.Lib
open TimerQueue

variable {s u u' : TimerLoop} {q₀ : TimerQueue} {now : Timestamp} {changes : List Change}

/-! ### The callbacks -/

/-- What an event does to the schedule, when a batch is under way. -/
def changeOf (u : TimerLoop) : Event → List Change
  | .addTimer a when_ _ _ _ => [.added ⟨a, u.s_numCreated_ + 1⟩ when_]
  | .cancel id => [.canceled id]
  | _ => []

/-- The batch at `now` started with the queue `q₀`, and the callbacks have
made the `changes`. -/
structure During (q₀ : TimerQueue) (now : Timestamp) (changes : List Change) (u : TimerLoop) :
    Prop where
  inv : Inv u
  progress : ∃ done todo ys, u.batch = some ⟨now, q₀.due now, todo⟩ ∧
    q₀.due now = done ++ todo ∧ u.queue.log = q₀.log ++ ys ∧
    ys.filterMap started? = done.map fun e => q₀.sequenceAt (entryTimer e)
  cells : ∀ e ∈ q₀.due now, u.queue.heap (entryTimer e) = q₀.heap (entryTimer e)
  canceling : ∀ e ∈ q₀.due now,
    (activeTimer (entryTimer e) (q₀.sequenceAt (entryTimer e)) ∈ u.queue.cancelingTimers_ ↔
      .canceled (q₀.idOf e) ∈ changes)
  schedule : u.queue.schedule.Perm
    (changes.foldl Change.apply (q₀.schedule.filter (now < ·.2)))

/-- `handleRead`, up to the first callback. -/
theorem During.begin (h : Inv s) (hbatch : s.batch = none) (now : Timestamp) (fired : Bool) :
    Returns (step s (.handleRead now fired)) (During s.queue now []) := by
  have hspec : Returns (step s (.handleRead now fired)) fun s' =>
      Inv s' ∧ Move s (.handleRead now fired) s' := handleRead_spec h hbatch
  obtain ⟨s₁, hstep, hinv, -⟩ := hspec.exists_ok
  -- Neither the read of the timerfd nor `getExpired` writes to a timer.
  have hframe₀ := readTimerfd_frame s.queue fired
  have htimers₀ : (s.queue.readTimerfd fired).timers_ = s.queue.timers_ := by
    rw [readTimerfd]
    split <;> rfl
  obtain ⟨⟨q, expired⟩, hq, -, hframe, htimers, -, hexpired⟩ :=
    (getExpired_spec now (readTimerfd_sets fired h.sets)).exists_ok
  obtain ⟨hdue, hrest⟩ := h.sets.below_sentry now
  have hexpired : expired = s.queue.due now := by
    rw [← hdue, ← htimers₀]
    exact hexpired
  rw [htimers₀] at htimers
  have hheap : q.heap = s.queue.heap := hframe.heap.trans hframe₀.heap
  rw [hstep]
  simp only [step, beginRead, hq, ok_bind, except_pure] at hstep
  cases hstep
  refine ⟨hinv, ⟨[], expired, [], ?_, hexpired.symm, ?_, rfl⟩, ?_, ?_, ?_⟩
  · show some (⟨now, expired, expired⟩ : Batch) = _
    rw [hexpired]
  · rw [List.append_nil]
    exact hframe.log.trans hframe₀.log
  · intro e _
    exact congrFun hheap _
  · intro e _
    exact ⟨fun hmem => (by cases hmem), fun hmem => (by cases hmem)⟩
  · refine List.Perm.of_eq ?_
    have hentries : q.timers_.toList = s.queue.timers_.toList.filter (now < entryTime ·) := by
      rw [htimers, hrest]
    show q.timers_.toList.map (fun e => (q.idOf e, entryTime e)) = _
    rw [hentries, List.foldl_nil, TimerQueue.schedule, List.filter_map]
    exact List.map_congr_left fun e _ => by rw [idOf_eq (congrFun hheap _)]

/-- `addTimer` in a callback. -/
theorem addTimer_schedule {a : Address} {when_ clock : Timestamp} {interval : Int} {repeats : Bool}
    (h : Inv u) (hfree : u.isFree a = true) :
    Returns (step u (.addTimer a when_ interval repeats clock)) fun u' =>
      (∀ b ≠ a, u'.queue.heap b = u.queue.heap b) ∧
      u'.queue.schedule.Perm ((⟨a, u.s_numCreated_ + 1⟩, when_) :: u.queue.schedule) := by
  obtain ⟨hsets, -⟩ := create_spec h hfree when_ interval repeats
  have hcell : (u.create a when_ interval repeats).queue.heap a
      = some ⟨when_, interval, repeats, u.s_numCreated_ + 1⟩ := Function.update_self _ _ _
  have hnew : a ∉ u.queue.addresses := hsets.notMem_addresses
  have hstored : (u.create a when_ interval repeats).queue.schedule = u.queue.schedule :=
    schedule_store hnew _
  obtain ⟨q, hq, hschedule⟩ := (addTimerInLoop_schedule clock hsets hcell).exists_ok
  have hframe := ((addTimerInLoop_spec hsets).post hq).2
  rw [hstored] at hschedule
  have hread : q.deref a = .ok ⟨when_, interval, repeats, u.s_numCreated_ + 1⟩ :=
    deref_eq (hframe.heap ▸ hcell)
  simp only [TimerLoop.step, hq, ok_bind, giveId, hread, except_pure]
  refine Ends.ok ⟨fun b hb => ?_, hschedule⟩
  show q.heap b = _
  rw [hframe.heap]
  exact Function.update_of_ne hb _ _

namespace During

/-- The timers of the batch are alive, and they are not in `timers_`. -/
theorem live (h : During q₀ now changes u) {e : Entry} (he : e ∈ q₀.due now) :
    entryTimer e ∈ u.others ∧ ∃ t, q₀.heap (entryTimer e) = some t := by
  obtain ⟨done, todo, ys, hbatch, -⟩ := h.progress
  have hmem : entryTimer e ∈ u.others := by
    refine List.mem_append_right _ ?_
    simp only [held, hbatch]
    exact List.mem_map_of_mem he
  obtain ⟨t, ht⟩ := h.inv.sets.get hmem
  exact ⟨hmem, t, (h.cells e he).symm.trans ht⟩

theorem notMem_addresses (h : During q₀ now changes u) {e : Entry} (he : e ∈ q₀.due now) :
    entryTimer e ∉ u.queue.addresses := by
  intro hmem
  have hdisj := (List.nodup_append.mp h.inv.sets.ledger.nodup).2.2
  exact hdisj _ hmem _ (h.live he).1 rfl

/-- Other effects than the start of a callback are no progress of the batch. -/
theorem progress_of_log {effects : List Effect} (h : During q₀ now changes u)
    (hbatch : u'.batch = u.batch) (hlog : u'.queue.log = u.queue.log ++ effects)
    (hnone : effects.filterMap started? = []) :
    ∃ done todo ys, u'.batch = some ⟨now, q₀.due now, todo⟩ ∧ q₀.due now = done ++ todo ∧
      u'.queue.log = q₀.log ++ ys ∧
      ys.filterMap started? = done.map fun e => q₀.sequenceAt (entryTimer e) := by
  obtain ⟨done, todo, ys, hbatch₀, hsplit, hlog₀, hstarted⟩ := h.progress
  refine ⟨done, todo, ys ++ effects, hbatch.trans hbatch₀, hsplit, ?_, ?_⟩
  · rw [hlog, hlog₀, List.append_assoc]
  · rw [List.filterMap_append, hnone, List.append_nil, hstarted]

/-- An event that leaves the queue and the batch alone. -/
theorem of_eq (h : During q₀ now changes u) (hinv : Inv u') (hqueue : u'.queue = u.queue)
    (hbatch : u'.batch = u.batch) : During q₀ now changes u' where
  inv := hinv
  progress := by
    rw [hqueue, hbatch]
    exact h.progress
  cells := by
    rw [hqueue]
    exact h.cells
  canceling := by
    rw [hqueue]
    exact h.canceling
  schedule := by
    rw [hqueue]
    exact h.schedule

/-- A timer is created, and it may go into `timers_`. `new` returns an address
where no timer lives, so none of the batch is touched. -/
theorem alloc {a : Address} {more : List Change} (h : During q₀ now changes u) (hinv : Inv u')
    (hplain : Plain u u') (hnone : u.queue.heap a = none)
    (hheap : ∀ b ≠ a, u'.queue.heap b = u.queue.heap b) (hmore : ∀ id, .canceled id ∉ more)
    (hschedule : u'.queue.schedule.Perm (more.foldl Change.apply u.queue.schedule)) :
    During q₀ now (changes ++ more) u' where
  inv := hinv
  progress := by
    rw [hplain.batch, hplain.log]
    exact h.progress
  cells := by
    -- A timer of the batch is alive, so its address is not the one that `new` returned.
    intro e he
    obtain ⟨t, ht⟩ := (h.live he).2
    rw [← h.cells e he] at ht ⊢
    refine hheap _ fun heq => ?_
    rw [heq, hnone] at ht
    cases ht
  canceling := by
    intro e he
    rw [hplain.canceling, h.canceling e he, List.mem_append, or_iff_left (hmore _)]
  schedule := by
    rw [List.foldl_append]
    exact hschedule.trans (foldl_apply_perm more h.schedule)

/-- A callback calls `cancel`. A timer of the batch is not in `activeTimers_`,
and its id goes to `cancelingTimers_`. -/
theorem cancel {id : TimerId} (h : During q₀ now changes u) (hinv : Inv u')
    (hqueue : u.queue.cancelInLoop id = .ok u'.queue) (hbatch : u'.batch = u.batch) :
    During q₀ now (changes ++ [.canceled id]) u' := by
  have hschedule : u'.queue.schedule.Perm
      ((changes ++ [Change.canceled id]).foldl Change.apply (q₀.schedule.filter (now < ·.2))) := by
    rw [List.foldl_append]
    exact ((cancelInLoop_schedule h.inv.sets id).post hqueue).trans
      (foldl_apply_perm [.canceled id] h.schedule)
  have hcalling : u.queue.callingExpiredTimers_ = true := by
    obtain ⟨done, todo, ys, hbatch₀, -⟩ := h.progress
    rw [h.inv.calling, hbatch₀]
    rfl
  rcases cancelInLoop_cases h.inv.sets id with ⟨t, ht, -, he, heq⟩ | ⟨-, heq⟩
  · -- The timer of the id is in `timers_`, so it is none of the batch.
    rw [heq] at hqueue
    have hu' := (Except.ok.inj hqueue).symm
    have hlog : u'.queue.log = u.queue.log ++ [.deleted t.sequence_, .canceled id] := by
      rw [hu']
      exact List.append_assoc _ _ _
    have hne : ∀ e ∈ q₀.due now, entryTimer e ≠ id.timer_ := fun e hin =>
      (ne_of_mem_of_not_mem (List.mem_map_of_mem he) (h.notMem_addresses hin)).symm
    refine ⟨hinv, h.progress_of_log hbatch hlog rfl, ?_, ?_, hschedule⟩
    · intro e hin
      rw [hu', ← h.cells e hin]
      exact Function.update_of_ne (hne e hin) _ _
    · intro e hin
      have hother : Change.canceled (q₀.idOf e) ≠ .canceled id := fun hsame =>
        hne e hin (congrArg TimerId.timer_ (Change.canceled.inj hsame))
      rw [hu', List.mem_append, List.mem_singleton, or_iff_left hother]
      exact h.canceling e hin
  · rw [heq, withCanceling, if_pos hcalling] at hqueue
    have hu' := (Except.ok.inj hqueue).symm
    have hlog : u'.queue.log = u.queue.log ++ [.canceled id] := congrArg log hu'
    refine ⟨hinv, h.progress_of_log hbatch hlog rfl, ?_, ?_, hschedule⟩
    · intro e hin
      rw [hu']
      exact h.cells e hin
    · intro e hin
      rw [hu', List.mem_append, List.mem_singleton, ← h.canceling e hin, Change.canceled.injEq,
        ← activeTimer_eq_iff, or_comm]
      exact SortedSet.mem_insert

/-- The next callback of the batch starts. -/
theorem runNext (h : During q₀ now changes u) (hinv : Inv u') (hen : enabled u .runNext = true)
    (hstep : step u .runNext = .ok u') : During q₀ now changes u' := by
  obtain ⟨done, todo, ys, hbatch, hsplit, hlog, hstarted⟩ := h.progress
  cases todo with
  | nil => simp [enabled, hbatch] at hen
  | cons it todo =>
      have hin : it ∈ q₀.due now := by
        rw [hsplit]
        exact List.mem_append_right _ List.mem_cons_self
      obtain ⟨t, ht₀⟩ := (h.live hin).2
      have ht := (h.cells it hin).trans ht₀
      simp only [step, hbatch, runTimer, deref_eq ht, ok_bind, except_pure] at hstep
      cases hstep
      refine ⟨hinv, ⟨done ++ [it], todo, ys ++ [.started t.sequence_], rfl, ?_, ?_, ?_⟩,
        h.cells, h.canceling, h.schedule⟩
      · rw [hsplit, List.append_assoc]
        rfl
      · show u.queue.log ++ [_] = _
        rw [hlog, List.append_assoc]
      · rw [List.filterMap_append, hstarted, List.map_append, List.map_singleton, sequenceAt_eq ht₀]
        rfl

/-- Every event of a batch but its end. -/
theorem step {e : Event} (h : During q₀ now changes u) (hen : enabled u e = true)
    (hnot : ∀ clock, e ≠ .reset clock) (hstep : TimerLoop.step u e = .ok u') :
    During q₀ now (changes ++ changeOf u e) u' := by
  have hinv := ((step_spec h.inv hen).post hstep).1
  have hbusy : u.batch ≠ none := by
    obtain ⟨done, todo, ys, hbatch, -⟩ := h.progress
    rw [hbatch]
    exact Option.some_ne_none _
  cases e with
  | createElsewhere | pushAdd a | pushCancel id =>
      show During q₀ now (changes ++ []) u'
      rw [List.append_nil]
      cases hstep
      exact h.of_eq hinv rfl rfl
  | newTimer a when_ interval repeats =>
      obtain ⟨-, -, hplain⟩ := create_spec h.inv hen when_ interval repeats
      have hnone := (isFree_iff.mp hen).1
      have hnew : a ∉ u.queue.addresses := by
        intro hmem
        obtain ⟨t, ht⟩ := h.inv.sets.ledger.get (List.mem_append_left _ hmem)
        rw [hnone] at ht
        cases ht
      cases hstep
      refine h.alloc hinv { hplain with } hnone (fun b hb => Function.update_of_ne hb _ _)
        (fun id hid => nomatch hid) (List.Perm.of_eq ?_)
      exact schedule_store hnew _
  | returnId a =>
      show During q₀ now (changes ++ []) u'
      rw [List.append_nil]
      obtain ⟨t, -, hreturn⟩ := except_bind_eq_ok.mp hstep
      cases hreturn
      exact h.of_eq hinv rfl rfl
  | addTimer a when_ interval repeats clock =>
      have hfree : u.isFree a = true := (Bool.and_eq_true _ _ ▸ hen).1
      have hplain := ((addTimer_spec h.inv hfree).post hstep).2
      obtain ⟨hheap, hschedule⟩ := (addTimer_schedule h.inv hfree).post hstep
      refine h.alloc hinv hplain (isFree_iff.mp hfree).1 hheap ?_ hschedule
      intro id hid
      cases List.mem_singleton.mp hid
  | cancel id =>
      obtain ⟨q, hq, hreturn⟩ := except_bind_eq_ok.mp hstep
      cases hreturn
      exact h.cancel hinv hq rfl
  | runFunctor clock =>
      have hidle := eq_of_beq (Bool.and_eq_true_iff.mp hen).1
      exact absurd hidle hbusy
  | handleRead now fired => exact absurd (eq_of_beq hen) hbusy
  | runNext =>
      show During q₀ now (changes ++ []) u'
      rw [List.append_nil]
      exact h.runNext hinv hen hstep
  | reset clock => exact absurd rfl (hnot clock)

theorem run {es : List Event} (h : During q₀ now [] s) (hrun : machine.Run s es u)
    (hnot : ∀ clock, Event.reset clock ∉ es) : During q₀ now (machine.seen changeOf s es) u := by
  induction hrun with
  | nil => exact h
  | snoc hrun hen hst ih =>
      have hbefore := ih fun clock hin => hnot clock (List.mem_append_left _ hin)
      have hnext := hbefore.step hen
        (fun clock heq => hnot clock (heq ▸ List.mem_append_right _ List.mem_cons_self)) hst
      rw [hrun.seen_append]
      simpa only [Machine.seen, show machine.step _ _ = .ok _ from hst, List.append_nil] using hnext

end During

/-! ### The whole batch -/

/-- What a batch has done to the queue `q₀`, when it is over. -/
structure Completed (q₀ : TimerQueue) (now : Timestamp) (changes : List Change) (q : TimerQueue) :
    Prop where
  /-- The timers that were not due and those that were added, without those that
  were canceled, and the repeating ones of the batch that were not canceled. -/
  schedule : q.schedule.Perm ((q₀.due now).filterMap (q₀.restarted now changes)
    ++ changes.foldl Change.apply (q₀.schedule.filter (now < ·.2)))
  /-- The callbacks of the due timers, each once and in the order of `timers_`,
  and one deletion for each of them that is not in the queue again. -/
  log : ∃ ys, q.log = q₀.log ++ ys ∧
    ys.filterMap started? = (q₀.due now).map (fun e => q₀.sequenceAt (entryTimer e)) ∧
    ∀ e ∈ q₀.due now, ys.count (.deleted (q₀.sequenceAt (entryTimer e)))
      = if (q₀.restarted now changes e).isNone then 1 else 0

/-- The timers of a batch have different sequence numbers. -/
theorem During.sequences_nodup (h : During q₀ now changes u) :
    ((q₀.due now).map fun e => q₀.sequenceAt (entryTimer e)).Nodup := by
  obtain ⟨done, todo, ys, hbatch, -⟩ := h.progress
  have haddresses : ((q₀.due now).map entryTimer).Nodup := by
    have hheld := (h.inv.held_live .batch).1
    simp only [held, hbatch] at hheld
    exact hheld
  refine haddresses.of_map.map_on fun e he f hf hseq => ?_
  obtain ⟨t, ht⟩ := (h.live he).2
  obtain ⟨v, hv⟩ := (h.live hf).2
  rw [sequenceAt_eq ht, sequenceAt_eq hv] at hseq
  exact List.inj_on_of_nodup_map haddresses he hf
    (h.inv.history.unique _ _ t v ((h.cells e he).trans ht) ((h.cells f hf).trans hv) hseq)

/-- A timer of the batch is not deleted before `reset`. -/
theorem During.not_deleted (h : During q₀ now changes u) {e : Entry} (he : e ∈ q₀.due now) :
    Effect.deleted (q₀.sequenceAt (entryTimer e)) ∉ u.queue.log := by
  intro hmem
  obtain ⟨t, ht⟩ := (h.live he).2
  have hcell := (h.cells e he).trans ht
  exact (h.inv.history.dead _ hmem).2 _ t hcell (sequenceAt_eq ht).symm

/-- How often a timer of the batch is deleted by `reset`. -/
theorem During.count_deleted (h : During q₀ now changes u) {e : Entry} (he : e ∈ q₀.due now)
    (p : Entry → Bool) :
    (((q₀.due now).filter p).map fun f => Effect.deleted (q₀.sequenceAt (entryTimer f))).count
      (.deleted (q₀.sequenceAt (entryTimer e))) = if p e then 1 else 0 := by
  have hnodup := h.sequences_nodup
  have hdeleted : ((q₀.due now).map fun f => Effect.deleted (q₀.sequenceAt (entryTimer f))).Nodup := by
    have hmap := hnodup.map (f := Effect.deleted) fun x y hxy => Effect.deleted.inj hxy
    rw [List.map_map] at hmap
    exact hmap
  by_cases hp : p e = true
  · rw [if_pos hp]
    exact List.count_eq_one_of_mem (hdeleted.sublist (List.filter_sublist.map _))
      (List.mem_map_of_mem (List.mem_filter.mpr ⟨he, hp⟩))
  · rw [if_neg hp, List.count_eq_zero]
    intro hmem
    obtain ⟨f, hf, hsame⟩ := List.mem_map.mp hmem
    obtain ⟨hin, hpf⟩ := List.mem_filter.mp hf
    rw [List.inj_on_of_nodup_map hdeleted hin he hsame] at hpf
    exact hp hpf

/-- The end of the batch. -/
theorem During.finish {clock : Timestamp} (h : During q₀ now changes u)
    (hen : enabled u (.reset clock) = true) :
    Returns (TimerLoop.step u (.reset clock)) fun u' => Completed q₀ now changes u'.queue := by
  obtain ⟨done, todo, ys, hbatch, hsplit, hlog, hstarted⟩ := h.progress
  have htodo : todo = [] := by simpa [enabled, hbatch] using hen
  rw [htodo, List.append_nil] at hsplit
  have hreset := reset_schedule now changes clock (q₀.due now) (h.inv.sets_batch hbatch) h.cells
    h.canceling
  simp only [TimerLoop.step, hbatch, endRead]
  refine hreset.bind fun q hq => ?_
  obtain ⟨hschedule, hlog'⟩ := hq
  have hall : q.log = q₀.log ++ (ys ++ ((q₀.due now).filter fun e =>
      (q₀.restarted now changes e).isNone).map fun e => .deleted (q₀.sequenceAt (entryTimer e))) := by
    rw [hlog', ← List.append_assoc, ← hlog]
  refine Ends.ok ⟨hschedule.trans (h.schedule.append_left _), _, hall, ?_, ?_⟩
  · have hnone : (((q₀.due now).filter fun e => (q₀.restarted now changes e).isNone).map
        fun e => Effect.deleted (q₀.sequenceAt (entryTimer e))).filterMap started? = [] := by
      rw [List.filterMap_eq_nil_iff]
      intro effect heffect
      obtain ⟨e, -, rfl⟩ := List.mem_map.mp heffect
      rfl
    rw [List.filterMap_append, hnone, List.append_nil, hstarted, hsplit]
  · intro e he
    -- Nobody deletes it before `reset`, which deletes it at most once.
    have hbefore : ys.count (.deleted (q₀.sequenceAt (entryTimer e))) = 0 := by
      rw [List.count_eq_zero]
      intro hmem
      refine h.not_deleted he ?_
      rw [hlog]
      exact List.mem_append_right _ hmem
    rw [List.count_append, hbefore, Nat.zero_add, h.count_deleted he]

/-- `handleRead` at `now`, from any state of the loop in which it can start,
with any behaviour of the callbacks and of other threads. It runs each timer
with an expiration up to `now` once, in the order of `timers_`, and no other
timer. It gets through: as long as the batch is not over, the next callback or
`reset` can be run and returns. After `reset` the queue has the timers that
`Completed` says, and each other timer of the batch was deleted once. -/
theorem batch_exact (h : Inv s) (hidle : s.batch = none) (now : Timestamp) (fired : Bool) :
    ∃ s₁, TimerLoop.step s (.handleRead now fired) = .ok s₁ ∧
      ∀ es u, machine.Run s₁ es u → (∀ clock, Event.reset clock ∉ es) → ∀ clock,
        (enabled u .runNext = true ∧ ∃ u', TimerLoop.step u .runNext = .ok u') ∨
        (enabled u (.reset clock) = true ∧ ∃ u', TimerLoop.step u (.reset clock) = .ok u' ∧
          Completed s.queue now (machine.seen changeOf s₁ es) u'.queue) := by
  obtain ⟨s₁, hbegin, hstart⟩ := (During.begin h hidle now fired).exists_ok
  refine ⟨s₁, hbegin, fun es u hrun hnot clock => ?_⟩
  have hduring := hstart.run hrun hnot
  obtain ⟨done, todo, ys, hbatch, -⟩ := hduring.progress
  cases todo with
  | nil =>
      have hen : enabled u (.reset clock) = true := by
        rw [enabled, hbatch]
        rfl
      exact .inr ⟨hen, (hduring.finish hen).exists_ok⟩
  | cons it todo =>
      have hen : enabled u .runNext = true := by
        rw [enabled, hbatch]
        rfl
      obtain ⟨u', hnext, -⟩ := (runNext_spec hduring.inv hbatch (List.cons_ne_nil _ _)).exists_ok
      exact .inl ⟨hen, u', hnext⟩

/-- Two repeating timers are due, and a third one is not. The first callback
cancels its own timer and adds another one. -/
theorem batch_exact_canceled :
    ∃ s s₁ u u', machine.Run (init 0) [.addTimer 64 10 5 true 0, .addTimer 72 11 7 true 0,
        .addTimer 80 30 0 false 0] s ∧
      machine.step s (.handleRead 12 true) = .ok s₁ ∧
      machine.Run s₁ [.runNext, .cancel ⟨64, 1⟩, .addTimer 88 15 0 false 12, .runNext] u ∧
      machine.step u (.reset 12) = .ok u' ∧
      Completed s.queue 12 (machine.seen changeOf s₁
        [.runNext, .cancel ⟨64, 1⟩, .addTimer 88 15 0 false 12, .runNext]) u'.queue ∧
      u'.queue.schedule = [(⟨88, 4⟩, 15), (⟨72, 2⟩, 19), (⟨80, 3⟩, 30)] := by
  have heval : ((machine.exec (init 0) [.addTimer 64 10 5 true 0, .addTimer 72 11 7 true 0,
        .addTimer 80 30 0 false 0]).bind fun s => (machine.exec s [.handleRead 12 true, .runNext,
          .cancel ⟨64, 1⟩, .addTimer 88 15 0 false 12, .runNext]).map fun u =>
          (s.batch, enabled u .runNext, (step u (.reset 12)).toOption.map (·.queue.schedule)))
      = some (none, false, some [(⟨88, 4⟩, 15), (⟨72, 2⟩, 19), (⟨80, 3⟩, 30)]) := by
    decide +kernel
  obtain ⟨s, s₁, u, hrun, hen, hbegin, hbatch, hval⟩ := Machine.exists_runs_of_exec heval
  simp only [Prod.mk.injEq] at hval
  obtain ⟨hidle, hdone, hschedule⟩ := hval
  obtain ⟨s₁', hbegin', hall⟩ := batch_exact (inv_run hrun) hidle 12 true
  cases Except.ok.inj (hbegin.symm.trans hbegin')
  rcases hall _ u hbatch (by simp) 12 with ⟨hnext, -⟩ | ⟨-, u', hreset, hcompleted⟩
  · rw [hdone] at hnext
    cases hnext
  · rw [hreset] at hschedule
    exact ⟨s, s₁, u, u', hrun, hbegin, hbatch, hreset, hcompleted, Option.some.inj hschedule⟩

end Muduo.Net.TimerLoop
