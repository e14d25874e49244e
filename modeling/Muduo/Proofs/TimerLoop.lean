import Muduo.Net.TimerLoop
import Muduo.Proofs.TimerQueue

/-!
# `Muduo.Proofs.TimerLoop`: every timer has one owner

The invariant `Inv` of the timer loop gives every live timer to one of the
three owners: an `addTimerInLoop` functor, `timers_`, or the batch of
`handleRead`. Each event moves timers between owners, and the lemmas of
`Muduo.Proofs.TimerQueue` say how. From `Inv` no `assert` of the queue can
fail and no deleted timer is touched, whatever the callbacks do.

One event can fault. `addTimer` in another thread reads `timer->sequence()`
after its push, and the loop thread may have deleted the timer by then.
-/

set_option autoImplicit false

namespace Muduo.Net.TimerLoop

open Muduo.Base
open Muduo.Lib
open TimerQueue

variable {s s' : TimerLoop}

/-- The two sets hold the same timers, `timers_` under their expirations
and `activeTimers_` under their sequence numbers. -/
structure InStep (q : TimerQueue) : Prop where
  iff : ∀ a t, q.heap a = some t →
    (entry t.expiration_ a ∈ q.timers_ ↔ activeTimer a t.sequence_ ∈ q.activeTimers_)
  timers : ∀ e ∈ q.timers_, ∃ a t, q.heap a = some t ∧ e = entry t.expiration_ a
  active : ∀ x ∈ q.activeTimers_, ∃ a t, q.heap a = some t ∧ x = activeTimer a t.sequence_
  size : q.timers_.size = q.activeTimers_.size

/-- The timers that are not in `timers_`. -/
def others (s : TimerLoop) : List Address := s.held .functor ++ s.held .batch

structure Inv (s : TimerLoop) : Prop where
  sets : Sets s.queue s.others
  history : History s.queue.heap s.queue.log s.s_numCreated_
  calling : s.queue.callingExpiredTimers_ = s.batch.isSome
  todo : ∀ b ∈ s.batch, b.todo <:+ b.expired

theorem inv_init (numCreated : Int) : Inv (init numCreated) where
  sets :=
    { ledger := ⟨List.nodup_nil, fun a => by simp [init, TimerQueue.ctor, others, held,
        addresses, SortedSet.empty]⟩
      keyed := fun e he => by cases he
      active := List.Perm.nil
      bounded := fun a t ht => by cases ht }
  history :=
    { fresh := fun a t ht => by cases ht
      unique := fun a b t u ht => by cases ht
      dead := fun x hx => by cases hx
      order := List.Pairwise.nil }
  calling := rfl
  todo := fun b hb => by cases hb

/-! ### One step -/

/-- An event that neither runs `cancelInLoop` nor a part of `handleRead`.
A timer in the heap was there before or has a new sequence number. -/
structure Plain (s s' : TimerLoop) : Prop where
  counter : s.s_numCreated_ ≤ s'.s_numCreated_
  survivor : ∀ b u, s'.queue.heap b = some u →
    s.queue.heap b = some u ∨ s.s_numCreated_ < u.sequence_
  log : s'.queue.log = s.queue.log
  canceling : s'.queue.cancelingTimers_ = s.queue.cancelingTimers_
  batch : s'.batch = s.batch
  returned : ∀ id ∈ s'.returned, id ∈ s.returned ∨ s'.queue.names id = true

/-- What a step can do to the timers. -/
inductive Move (s : TimerLoop) (e : Event) (s' : TimerLoop) : Prop where
  | plain (h : Plain s s')
  | cancel (id : TimerId) (hby : s.canceledBy e = some id)
      (hqueue : s.queue.cancelInLoop id = .ok s'.queue)
      (hcounter : s'.s_numCreated_ = s.s_numCreated_) (hreturned : s'.returned = s.returned)
      (hbatch : s'.batch = s.batch)
  | start (hbatch : s.batch = none) (hheap : s'.queue.heap = s.queue.heap)
      (hlog : s'.queue.log = s.queue.log) (hcounter : s'.s_numCreated_ = s.s_numCreated_)
      (hreturned : s'.returned = s.returned)
  | run (b : Batch) (it : Entry) (todo : List Entry) (t : Timer) (hbatch : s.batch = some b)
      (htodo : b.todo = it :: todo) (ht : s.queue.heap (entryTimer it) = some t)
      (hs' : s' = { s with
        queue := s.queue.emit (.started t.sequence_), batch := some { b with todo := todo } })
  | reset (b : Batch) (hbatch : s.batch = some b)
      (hdrained : Drained { s.queue with callingExpiredTimers_ := false } s'.queue b.expired)
      (hcounter : s'.s_numCreated_ = s.s_numCreated_) (hreturned : s'.returned = s.returned)

/-- The fault of `addTimer` in another thread. -/
def ReadsId (e : Event) (f : Fault) : Prop := f = .useAfterFree ∧ ∃ a, e = .returnId a

theorem isFree_iff {a : Address} : s.isFree a = true ↔ s.queue.heap a = none ∧ a < UINTPTR_MAX := by
  simp [isFree]

/-- `new Timer`, with the timer in the hands of the caller. -/
theorem create_spec {a : Address} (h : Inv s) (hfree : s.isFree a = true) (when_ : Timestamp)
    (interval : Int) (repeats : Bool) :
    Sets (s.create a when_ interval repeats).queue (a :: s.others) ∧
    History (s.create a when_ interval repeats).queue.heap s.queue.log (s.s_numCreated_ + 1) ∧
    Plain s (s.create a when_ interval repeats) := by
  obtain ⟨hnone, hbound⟩ := isFree_iff.mp hfree
  refine ⟨h.sets.alloc hnone hbound _, h.history.alloc rfl, ?_⟩
  constructor
  case counter =>
    show s.s_numCreated_ ≤ s.s_numCreated_ + 1
    omega
  case survivor =>
    intro b u hu
    rcases update_cases hu with ⟨-, hself⟩ | ⟨-, hold⟩
    · cases hself
      right
      show s.s_numCreated_ < s.s_numCreated_ + 1
      omega
    · exact Or.inl hold
  case log => rfl
  case canceling => rfl
  case batch => rfl
  case returned => exact fun id hid => Or.inl hid

/-- Handing a timer to `timers_` changes neither the heap nor the log. -/
theorem Plain.frame {q : TimerQueue} {s' : TimerLoop} (h : Plain s s') (hframe : Frame s'.queue q) :
    Plain s { s' with queue := q } where
  counter := h.counter
  survivor b u hu := h.survivor b u (by
    rw [← hframe.heap]
    exact hu)
  log := hframe.log.trans h.log
  canceling := hframe.canceling.trans h.canceling
  batch := h.batch
  returned id hid := by
    rcases h.returned id hid with hold | hnames
    · exact Or.inl hold
    · right
      rw [names_iff] at hnames ⊢
      show ∃ t, q.heap id.timer_ = some t ∧ t.sequence_ = id.sequence_
      rw [hframe.heap]
      exact hnames

/-- An event that leaves the queue, the batch and the returned ids alone. -/
theorem Plain.of_eq (hq : s'.queue = s.queue) (hn : s.s_numCreated_ ≤ s'.s_numCreated_)
    (hb : s'.batch = s.batch) (hr : s'.returned = s.returned) : Plain s s' where
  counter := hn
  survivor b u hu := by
    rw [hq] at hu
    exact Or.inl hu
  log := by rw [hq]
  canceling := by rw [hq]
  batch := hb
  returned id hid := by
    rw [hr] at hid
    exact Or.inl hid

/-- The id that `addTimer` returns names a timer that exists. -/
theorem giveId_spec {a : Address} {t : Timer} (ht : s'.queue.heap a = some t) (h : Inv s')
    (hp : Plain s s') : Returns (s'.giveId a) fun u => Inv u ∧ Plain s u := by
  simp only [giveId, deref_eq ht, ok_bind]
  refine ⟨⟨h.sets, h.history, h.calling, h.todo⟩, ?_⟩
  refine { hp with returned := ?_ }
  intro id hid
  rcases List.mem_append.mp hid with hid | hid
  · exact hp.returned id hid
  · cases List.mem_singleton.mp hid
    exact Or.inr (names_iff.mpr ⟨t, ht, rfl⟩)

/-- `addTimer` queues a functor that owns the new timer. -/
theorem addTimer_spec {a : Address} {when_ clock : Timestamp} {interval : Int} {repeats : Bool}
    (h : Inv s) (hfree : s.isFree a = true) :
    Returns (step s (.addTimer a when_ interval repeats clock)) fun s' => Inv s' ∧ Plain s s' := by
  obtain ⟨hsets, hist, hplain⟩ := create_spec h hfree when_ interval repeats
  refine (addTimerInLoop_spec hsets).bind ?_
  rintro q ⟨hsets', hframe⟩
  have hcell : q.heap a = some ⟨when_, interval, repeats, s.s_numCreated_ + 1⟩ := by
    rw [hframe.heap]
    exact Function.update_self _ _ _
  refine giveId_spec hcell ⟨hsets', ?_, hframe.calling.trans h.calling, h.todo⟩
    (hplain.frame hframe)
  show History q.heap q.log (s.s_numCreated_ + 1)
  rw [hframe.heap, hframe.log]
  exact hist

/-- Cancelling frees a timer of the sets only, so every other owner keeps its own. -/
theorem cancel_inv {id : TimerId} {q : TimerQueue} (h : Inv s)
    (hq : s.queue.cancelInLoop id = .ok q) : Inv { s with queue := q } := by
  obtain ⟨hsets, hist, hcall⟩ := (cancelInLoop_spec id h.sets h.history).post hq
  exact ⟨hsets, hist, hcall.trans h.calling, h.todo⟩

/-- A timer leaves its functor and is in the hands of `addTimerInLoop`. -/
theorem Inv.sets_pop {a : Address} {fs : List Functor} (h : Inv s)
    (hfs : s.pendingFunctors_ = .addTimerInLoop a :: fs) :
    Sets s.queue (a :: others { s with pendingFunctors_ := fs }) := by
  refine h.sets.perm ?_
  simp only [others, held, hfs, added?, List.filterMap_cons, List.append_assoc, List.cons_append]
  exact List.perm_middle

/-- The timers of the batch are in the hands of `reset`. -/
theorem Inv.sets_batch {b : Batch} (h : Inv s) (hbatch : s.batch = some b) :
    Sets { s.queue with callingExpiredTimers_ := false }
      (b.expired.map entryTimer ++ s.held .functor) := by
  have hall := h.sets
  simp only [others, show s.held .batch = b.expired.map entryTimer by simp [held, hbatch]] at hall
  exact (hall.perm List.perm_append_comm).of_eq rfl rfl rfl

/-- The functor moves its timer into the sets, or it cancels. -/
theorem runFunctor_spec {clock : Timestamp} (h : Inv s) :
    Returns (step s (.runFunctor clock)) fun s' => Inv s' ∧ Move s (.runFunctor clock) s' := by
  simp only [step]
  cases hfs : s.pendingFunctors_ with
  | nil => exact ⟨h, .plain (.of_eq rfl le_rfl rfl rfl)⟩
  | cons f fs =>
      cases f with
      | addTimerInLoop a =>
          refine (addTimerInLoop_spec (h.sets_pop hfs)).bind ?_
          rintro q ⟨hsets, hframe⟩
          refine ⟨⟨hsets, ?_, hframe.calling.trans h.calling, h.todo⟩, .plain ?_⟩
          · show History q.heap q.log s.s_numCreated_
            rw [hframe.heap, hframe.log]
            exact h.history
          · have hpop : Plain s { s with pendingFunctors_ := fs } := .of_eq rfl le_rfl rfl rfl
            exact hpop.frame hframe
      | cancelInLoop id =>
          obtain ⟨q, hq, -⟩ := (cancelInLoop_spec id h.sets h.history).exists_ok
          have hsame : others { s with queue := q, pendingFunctors_ := fs } = s.others := by
            simp only [others, held, hfs, added?, List.filterMap_cons]
          have hinv := cancel_inv h hq
          simp only [hq, ok_bind, except_pure]
          refine ⟨⟨?_, hinv.history, hinv.calling, hinv.todo⟩, ?_⟩
          · rw [hsame]
            exact hinv.sets
          · refine .cancel id ?_ hq rfl rfl rfl
            simp only [canceledBy, hfs]

theorem readTimerfd_frame (q : TimerQueue) (fired : Bool) : Frame q (q.readTimerfd fired) := by
  unfold readTimerfd
  split
  · exact ⟨rfl, rfl, rfl, rfl⟩
  · exact ⟨rfl, rfl, rfl, rfl⟩

theorem readTimerfd_sets {q : TimerQueue} {l : List Address} (fired : Bool) (h : Sets q l) :
    Sets (q.readTimerfd fired) l := by
  unfold readTimerfd
  split
  · exact h.of_eq rfl rfl rfl
  · exact h

/-- The expired timers leave the sets and belong to the batch. -/
theorem handleRead_spec {now : Timestamp} {fired : Bool} (h : Inv s) (hbatch : s.batch = none) :
    Returns (step s (.handleRead now fired)) fun s' =>
      Inv s' ∧ Move s (.handleRead now fired) s' := by
  have hothers : s.others = s.held .functor := by
    simp [others, held, hbatch]
  have hframe₀ := readTimerfd_frame s.queue fired
  simp only [step, beginRead]
  obtain ⟨⟨q, expired⟩, hq, hsets, hframe, -⟩ :=
    (getExpired_spec now (readTimerfd_sets fired h.sets)).exists_ok
  have hheap : q.heap = s.queue.heap := hframe.heap.trans hframe₀.heap
  have hlog : q.log = s.queue.log := hframe.log.trans hframe₀.log
  rw [hq]
  refine ⟨⟨?_, ?_, rfl, ?_⟩, .start hbatch hheap hlog rfl rfl⟩
  · rw [hothers] at hsets
    exact (hsets.perm List.perm_append_comm).of_eq rfl rfl rfl
  · show History q.heap q.log s.s_numCreated_
    rw [hheap, hlog]
    exact h.history
  · intro b hb
    cases hb
    exact List.suffix_rfl

/-- Running a callback changes no owner. -/
theorem runNext_spec {b : Batch} (h : Inv s) (hbatch : s.batch = some b) (htodo : b.todo ≠ []) :
    Returns (step s .runNext) fun s' => Inv s' ∧ Move s .runNext s' := by
  obtain ⟨now, expired, todo⟩ := b
  cases todo with
  | nil => exact absurd rfl htodo
  | cons it todo =>
      -- The batch owns the timer until `reset`, so it is alive.
      have hsuffix : it :: todo <:+ expired := h.todo _ hbatch
      have hmem : entryTimer it ∈ s.others := by
        refine List.mem_append_right _ ?_
        simp only [held, hbatch]
        exact List.mem_map_of_mem (hsuffix.subset List.mem_cons_self)
      obtain ⟨t, ht⟩ := h.sets.get hmem
      simp only [step, hbatch, runTimer, deref_eq ht, ok_bind, except_pure]
      refine ⟨⟨?_, ?_, h.calling.trans (by rw [hbatch]; rfl), ?_⟩,
        .run ⟨now, expired, it :: todo⟩ it todo t hbatch rfl ht rfl⟩
      · have hsets := h.sets
        simp only [others, held, hbatch] at hsets
        exact hsets.of_eq rfl rfl rfl
      · exact h.history.emit (by simp) (fun x hx => by
          cases hx
          exact ⟨_, t, ht, rfl⟩)
      · intro b hb
        cases hb
        exact (List.suffix_cons it todo).trans hsuffix

/-- Each timer of the batch goes back into the sets or is deleted. -/
theorem reset_spec {b : Batch} {clock : Timestamp} (h : Inv s) (hbatch : s.batch = some b) :
    Returns (step s (.reset clock)) fun s' => Inv s' ∧ Move s (.reset clock) s' := by
  obtain ⟨now, expired, todo⟩ := b
  have hsets := h.sets_batch hbatch
  obtain ⟨q, hq, hsets', hdrained⟩ := (TimerQueue.reset_spec now clock expired hsets).exists_ok
  simp only [step, hbatch, endRead]
  rw [hq]
  refine ⟨⟨?_, hdrained.history _ h.history, hdrained.calling, ?_⟩,
    .reset _ hbatch hdrained rfl rfl⟩
  · have hnone : others { s with queue := q, batch := none } = s.held .functor := by
      simp [others, held]
    rw [hnone]
    exact hsets'
  · intro b hb
    cases hb

/-- Every enabled step keeps the invariant. The only fault is that of
`returnId`. -/
theorem step_spec (h : Inv s) {e : Event} (hen : enabled s e = true) :
    Ends (step s e) (ReadsId e) fun s' => Inv s' ∧ Move s e s' := by
  have lift : ∀ {x : Except Fault TimerLoop}, Returns x (fun s' => Inv s' ∧ Plain s s') →
      Ends x (ReadsId e) fun s' => Inv s' ∧ Move s e s' :=
    fun hx => hx.of_returns.imp fun s' hs' => ⟨hs'.1, .plain hs'.2⟩
  cases e with
  | createElsewhere =>
      have hle : s.s_numCreated_ ≤ s.s_numCreated_ + 1 := by omega
      exact ⟨⟨h.sets, h.history.mono hle, h.calling, h.todo⟩, .plain (.of_eq rfl hle rfl rfl)⟩
  | newTimer a when_ interval repeats =>
      obtain ⟨hsets, hist, hplain⟩ := create_spec h hen when_ interval repeats
      exact ⟨⟨hsets, hist, h.calling, h.todo⟩, .plain { hplain with }⟩
  | pushAdd a =>
      have hmem : a ∈ s.creating := of_decide_eq_true hen
      have hperm : s.others.Perm (others { s with
          creating := s.creating.erase a, returning := a :: s.returning,
          pendingFunctors_ := s.pendingFunctors_ ++ [.addTimerInLoop a] }) := by
        simp only [others, held, List.filterMap_append, List.filterMap_cons, List.filterMap_nil,
          added?]
        refine List.Perm.append_right _ ?_
        refine ((List.perm_cons_erase hmem).append_right _).trans ?_
        rw [← List.append_assoc]
        exact (List.perm_append_singleton a _).symm
      exact ⟨⟨h.sets.perm hperm, h.history, h.calling, h.todo⟩, .plain (.of_eq rfl le_rfl rfl rfl)⟩
  | returnId a =>
      have hinv : Inv { s with returning := s.returning.erase a } :=
        ⟨h.sets, h.history, h.calling, h.todo⟩
      cases hcell : s.queue.heap a with
      | none =>
          -- The loop thread was faster and has deleted the timer.
          refine Ends.of_eq_error (e := Fault.useAfterFree) ?_ ⟨rfl, a, rfl⟩
          simp [step, giveId, deref, hcell]
      | some t => exact lift (giveId_spec hcell hinv (.of_eq rfl le_rfl rfl rfl))
  | pushCancel id =>
      have hsame : others { s with pendingFunctors_ := s.pendingFunctors_ ++ [.cancelInLoop id] } =
          s.others := by
        simp [others, held, added?]
      refine ⟨⟨?_, h.history, h.calling, h.todo⟩, .plain (.of_eq rfl le_rfl rfl rfl)⟩
      rw [hsame]
      exact h.sets
  | addTimer a when_ interval repeats clock =>
      have hfree : s.isFree a = true := (Bool.and_eq_true _ _ ▸ hen).1
      exact lift (addTimer_spec h hfree)
  | cancel id =>
      obtain ⟨q, hq, -⟩ := (cancelInLoop_spec id h.sets h.history).exists_ok
      refine Ends.of_eq_ok (a := { s with queue := q }) ?_ ⟨cancel_inv h hq, ?_⟩
      · simp only [step, hq, ok_bind, except_pure]
      · exact .cancel id rfl hq rfl rfl rfl
  | runFunctor clock => exact (runFunctor_spec h).of_returns
  | handleRead now fired =>
      have hbatch : s.batch = none := by simpa [enabled] using hen
      exact (handleRead_spec h hbatch).of_returns
  | runNext =>
      cases hbatch : s.batch with
      | none => simp [enabled, hbatch] at hen
      | some b =>
          have htodo : b.todo ≠ [] := by simpa [enabled, hbatch] using hen
          exact (runNext_spec h hbatch htodo).of_returns
  | reset clock =>
      cases hbatch : s.batch with
      | none => simp [enabled, hbatch] at hen
      | some b => exact (reset_spec h hbatch).of_returns

/-! ### Runs -/

/-- In every run each timer has one owner. -/
theorem inv_run {numCreated : Int} {es : List Event} {s : TimerLoop}
    (hrun : machine.Run (init numCreated) es s) : Inv s := by
  refine hrun.invariant (inv_init numCreated) ?_
  intro t e u ht hen hstep
  exact ((step_spec ht hen).post hstep).1

theorem Inv.inStep (h : Inv s) : InStep s.queue where
  iff a t ht := by
    rw [h.sets.mem_active]
    constructor
    · intro he
      exact ⟨t, ht, rfl, he⟩
    · rintro ⟨u, hu, -, he⟩
      cases ht.symm.trans hu
      exact he
  timers e he := by
    obtain ⟨t, ht, hkey⟩ := h.sets.keyed e he
    exact ⟨_, t, ht, entry_eq.mpr ⟨hkey.symm, rfl⟩⟩
  active x hx := by
    obtain ⟨a, sequence⟩ := x
    obtain ⟨t, ht, rfl, -⟩ := h.sets.mem_active.mp hx
    exact ⟨a, t, ht, rfl⟩
  size := h.sets.size

/-- A timer has one owner, because the three lists together have no
repetition. -/
theorem Inv.owner (h : Inv s) (a : Address) (ha : s.queue.heap a ≠ none) :
    ∃! o, a ∈ s.held o := by
  obtain ⟨t, ht⟩ := Option.ne_none_iff_exists'.mp ha
  obtain ⟨-, hrest, hdisj⟩ := List.nodup_append.mp h.sets.ledger.nodup
  obtain ⟨-, -, hdisj'⟩ := List.nodup_append.mp hrest
  have htf : a ∈ s.held .timers → a ∉ s.held .functor :=
    fun h₁ h₂ => hdisj a h₁ a (List.mem_append_left _ h₂) rfl
  have htb : a ∈ s.held .timers → a ∉ s.held .batch :=
    fun h₁ h₂ => hdisj a h₁ a (List.mem_append_right _ h₂) rfl
  have hfb : a ∈ s.held .functor → a ∉ s.held .batch := fun h₁ h₂ => hdisj' a h₁ a h₂ rfl
  have hmem : a ∈ s.held .timers ∨ a ∈ s.held .functor ∨ a ∈ s.held .batch := by
    rcases List.mem_append.mp (h.sets.ledger.mem ht) with hmem | hmem
    · exact Or.inl hmem
    · exact Or.inr (List.mem_append.mp hmem)
  rcases hmem with hmem | hmem | hmem
  · refine ⟨.timers, hmem, ?_⟩
    intro o ho
    cases o with
    | functor => exact absurd ho (htf hmem)
    | timers => rfl
    | batch => exact absurd ho (htb hmem)
  · refine ⟨.functor, hmem, ?_⟩
    intro o ho
    cases o with
    | functor => rfl
    | timers => exact absurd hmem (htf ho)
    | batch => exact absurd ho (hfb hmem)
  · refine ⟨.batch, hmem, ?_⟩
    intro o ho
    cases o with
    | functor => exact absurd hmem (hfb ho)
    | timers => exact absurd hmem (htb ho)
    | batch => rfl

/-- What an owner holds exists, and no address is there twice. -/
theorem Inv.held_live (h : Inv s) (o : Owner) :
    (s.held o).Nodup ∧ ∀ a ∈ s.held o, s.queue.heap a ≠ none := by
  obtain ⟨hnt, hrest, -⟩ := List.nodup_append.mp h.sets.ledger.nodup
  obtain ⟨hnf, hnb, -⟩ := List.nodup_append.mp hrest
  have hlive : ∀ a ∈ s.queue.addresses ++ s.others, s.queue.heap a ≠ none := by
    intro a ha hnone
    obtain ⟨t, ht⟩ := h.sets.ledger.get ha
    rw [hnone] at ht
    cases ht
  cases o with
  | functor =>
      exact ⟨hnf, fun a ha => hlive a (List.mem_append_right _ (List.mem_append_left _ ha))⟩
  | timers => exact ⟨hnt, fun a ha => hlive a (List.mem_append_left _ ha)⟩
  | batch =>
      exact ⟨hnb, fun a ha => hlive a (List.mem_append_right _ (List.mem_append_right _ ha))⟩

/-- `cancelInLoop` with the id of a timer that is gone changes no timer. -/
theorem cancelInLoop_of_stale (h : Inv s) {id : TimerId} (hstale : s.queue.names id = false)
    {q : TimerQueue} (hq : s.queue.cancelInLoop id = .ok q) :
    q.heap = s.queue.heap ∧ q.timers_ = s.queue.timers_ ∧
      q.activeTimers_ = s.queue.activeTimers_ := by
  rcases cancelInLoop_cases h.sets id with ⟨t, ht, hseq, -⟩ | ⟨-, heq⟩
  · have hnames : s.queue.names id = true := names_iff.mpr ⟨t, ht, hseq⟩
    rw [hstale] at hnames
    cases hnames
  · obtain ⟨canceling, hsame⟩ := s.queue.withCanceling_eq id
    rw [heq, hsame] at hq
    cases hq
    exact ⟨rfl, rfl, rfl⟩

/-- The timers of a queue, in every run of its loop and of other threads,
with any callbacks and any reuse of addresses.

- The two sets hold the same timers.
- No `assert` fails and no deleted timer is used or deleted in the loop
  thread. The one fault is that of `returnId`.
- A live timer has one owner, and an owner holds live timers only, each once.
- After the deletion of a timer there is no start and no second deletion,
  and its sequence number belongs to no live timer.
- `cancelInLoop` with an id whose timer is gone changes no timer, also when
  another one is at the address. -/
theorem timers_have_one_owner (numCreated : Int) (es : List Event) (s : TimerLoop)
    (hrun : machine.Run (init numCreated) es s) :
    InStep s.queue ∧
    (∀ e f, machine.enabled s e → machine.step s e = .error f → ReadsId e f) ∧
    (∀ a, s.queue.heap a ≠ none → ∃! o, a ∈ s.held o) ∧
    (∀ o, (s.held o).Nodup ∧ ∀ a ∈ s.held o, s.queue.heap a ≠ none) ∧
    (∀ before after x, s.queue.log = before ++ .deleted x :: after →
      .started x ∉ after ∧ .deleted x ∉ after) ∧
    (∀ x a t, .deleted x ∈ s.queue.log → s.queue.heap a = some t → t.sequence_ ≠ x) ∧
    (∀ id q, s.queue.names id = false → s.queue.cancelInLoop id = .ok q →
      q.heap = s.queue.heap ∧ q.timers_ = s.queue.timers_ ∧
        q.activeTimers_ = s.queue.activeTimers_) := by
  have h := inv_run hrun
  refine ⟨h.inStep, ?_, h.owner, h.held_live, ?_, ?_, ?_⟩
  · intro e f hen hfault
    exact (step_spec h hen).fault hfault
  · intro before after x hlog
    have horder := h.history.order
    rw [hlog, List.pairwise_append, List.pairwise_cons] at horder
    have hafter := horder.2.1.1
    exact ⟨fun hmem => (hafter _ hmem x rfl).1 rfl, fun hmem => (hafter _ hmem x rfl).2 rfl⟩
  · intro x a t hx ht
    exact (h.history.dead x hx).2 a t ht
  · intro id q hstale hq
    exact cancelInLoop_of_stale h hstale hq

/-- A repeating timer that cancels itself in its callback is deleted. Its
address is used again, by a timer that another thread adds. The old id does
not touch the new timer. -/
theorem timers_have_one_owner_reused :
    ∃ s, machine.Run (init 0) [.addTimer 64 10 5 true 0, .handleRead 12 true, .runNext,
        .cancel ⟨64, 1⟩, .reset 12, .newTimer 64 30 0 false, .pushAdd 64, .returnId 64,
        .runFunctor 20] s ∧
      s.queue.log = [.started 1, .canceled ⟨64, 1⟩, .deleted 1] ∧
      s.queue.heap 64 = some ⟨30, 0, false, 2⟩ ∧ InStep s.queue ∧
      ∀ q, s.queue.cancelInLoop ⟨64, 1⟩ = .ok q → q.heap = s.queue.heap := by
  have heval : (machine.exec (init 0) [.addTimer 64 10 5 true 0, .handleRead 12 true, .runNext,
        .cancel ⟨64, 1⟩, .reset 12, .newTimer 64 30 0 false, .pushAdd 64, .returnId 64,
        .runFunctor 20]).map (fun s =>
          (s.queue.log, s.queue.heap 64, s.queue.names ⟨64, 1⟩))
      = some ([.started 1, .canceled ⟨64, 1⟩, .deleted 1], some ⟨30, 0, false, 2⟩, false) := by
    decide +kernel
  obtain ⟨s, hrun, hval⟩ := Machine.exists_run_of_exec heval
  simp only [Prod.mk.injEq] at hval
  obtain ⟨hlog, hcell, hstale⟩ := hval
  have hmain := timers_have_one_owner 0 _ s hrun
  refine ⟨s, hrun, hlog, hcell, hmain.1, ?_⟩
  intro q hq
  exact (hmain.2.2.2.2.2.2 ⟨64, 1⟩ q hstale hq).1

end Muduo.Net.TimerLoop
