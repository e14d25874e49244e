import Muduo.Proofs.TimerLoop

/-!
# `Muduo.Proofs.TimerCancel`: what `cancel` achieves

`cancelInLoop` looks for the timer in `activeTimers_`. Two kinds of timers
are not there and are still going to run:

- a timer that another thread has added and whose `addTimerInLoop` functor
  has not run. The loop thread does not queue its own `cancel`, so it can
  overtake that functor;
- a timer of the batch of `handleRead` whose turn has not come.
  `cancelingTimers_` is only read by `reset`, after the batch has run.

Both are started after their cancellation. In every other case `cancel` is
effective: if each `cancelInLoop` meets `CancelsInTime`, no canceled timer
is started afterwards.

The invariant is `Quiet`. A canceled timer is dead, or it is in the batch,
its callback has started, and `cancelingTimers_` will keep `reset` from
inserting it again.
-/

set_option autoImplicit false

namespace Muduo.Net.TimerLoop

open Muduo.Lib
open TimerQueue

variable {s s' : TimerLoop} {e : Event}

/-- The timer at `a` is in the batch and its callback has started. -/
def Begun (s : TimerLoop) (a : Address) : Prop := a ∈ s.held .batch ∧ a ∉ s.unstarted

/-- No start of a timer follows its cancellation. -/
def Ordered (log : List Effect) : Prop :=
  log.Pairwise fun e f => ∀ id, e = .canceled id → f ≠ .started id.sequence_

structure Quiet (s : TimerLoop) : Prop where
  /-- A returned id belongs to the timer with its sequence number. -/
  genuine : ∀ id ∈ s.returned, id.sequence_ ≤ s.s_numCreated_ ∧
    ∀ a t, s.queue.heap a = some t → t.sequence_ = id.sequence_ → a = id.timer_
  gone : ∀ id, .canceled id ∈ s.queue.log → id.sequence_ ≤ s.s_numCreated_ ∧
    ∀ a t, s.queue.heap a = some t → t.sequence_ = id.sequence_ →
      s.Begun a ∧ activeTimer a t.sequence_ ∈ s.queue.cancelingTimers_
  ordered : Ordered s.queue.log

theorem Ordered.snoc {log : List Effect} {e : Effect} (h : Ordered log)
    (he : ∀ id, .canceled id ∈ log → e ≠ .started id.sequence_) : Ordered (log ++ [e]) := by
  refine List.pairwise_append.mpr ⟨h, List.pairwise_singleton _ _, ?_⟩
  intro f hf g hg id hid
  cases List.mem_singleton.mp hg
  subst hid
  exact he id hf

theorem Ordered.deleted {log : List Effect} (h : Ordered log) (xs : List Int) :
    Ordered (log ++ xs.map .deleted) := by
  induction xs generalizing log with
  | nil => simpa using h
  | cons x xs ih =>
      rw [List.map_cons, List.append_cons]
      exact ih (h.snoc (by simp))

theorem quiet_init (numCreated : Int) : Quiet (init numCreated) where
  genuine id hid := by cases hid
  gone id hid := by cases hid
  ordered := List.Pairwise.nil

/-- An id stays genuine as long as sequence numbers are not used again. -/
theorem genuine_of_survivor {id : TimerId} {n : Int} (hle : id.sequence_ ≤ n)
    {heap heap' : Address → Option Timer} {P : Address → Prop}
    (hsurv : ∀ b u, heap' b = some u →
      (∃ t, heap b = some t ∧ t.sequence_ = u.sequence_) ∨ n < u.sequence_)
    (h : ∀ a t, heap a = some t → t.sequence_ = id.sequence_ → P a) :
    ∀ a u, heap' a = some u → u.sequence_ = id.sequence_ → P a := by
  intro a u hu hseq
  rcases hsurv a u hu with ⟨t, ht, htu⟩ | hnew
  · exact h a t ht (htu.trans hseq)
  · omega

theorem quiet_plain (h : Quiet s) (h' : Inv s') (hp : Plain s s') : Quiet s' := by
  have hsurv : ∀ b u, s'.queue.heap b = some u →
      (∃ t, s.queue.heap b = some t ∧ t.sequence_ = u.sequence_) ∨
        s.s_numCreated_ < u.sequence_ := by
    intro b u hu
    rcases hp.survivor b u hu with hold | hnew
    · exact Or.inl ⟨u, hold, rfl⟩
    · exact Or.inr hnew
  have hbegun : ∀ a, s.Begun a → s'.Begun a := by
    intro a ha
    simpa only [Begun, held, unstarted, hp.batch] using ha
  constructor
  case genuine =>
    intro id hid
    rcases hp.returned id hid with hold | hnames
    · obtain ⟨hle, hgen⟩ := h.genuine id hold
      exact ⟨hle.trans hp.counter, genuine_of_survivor hle hsurv hgen⟩
    · obtain ⟨t, ht, hseq⟩ := names_iff.mp hnames
      refine ⟨hseq ▸ h'.history.fresh _ t ht, ?_⟩
      intro a u hu hsequ
      exact h'.history.unique a _ u t hu ht (hsequ.trans hseq.symm)
  case gone =>
    intro id hid
    rw [hp.log] at hid
    obtain ⟨hle, hgone⟩ := h.gone id hid
    refine ⟨hle.trans hp.counter, ?_⟩
    intro a u hu hseq
    rcases hp.survivor a u hu with hold | hnew
    · rw [hp.canceling]
      exact ⟨hbegun a (hgone a u hold hseq).1, (hgone a u hold hseq).2⟩
    · omega
  case ordered =>
    rw [hp.log]
    exact h.ordered

/-- A timer that `cancelInLoop` does not find, and that is neither waiting
to be added nor to be run, has begun. -/
theorem begun_of_notMem (h : Inv s) {a : Address} {t : Timer} (ht : s.queue.heap a = some t)
    (hactive : activeTimer a t.sequence_ ∉ s.queue.activeTimers_)
    (hfunctor : a ∉ s.held .functor) (hunstarted : a ∉ s.unstarted) : s.Begun a := by
  refine ⟨?_, hunstarted⟩
  rcases List.mem_append.mp (h.sets.ledger.mem ht) with hmem | hmem
  · -- In `timers_` it would be in `activeTimers_` too.
    exfalso
    obtain ⟨e, he, rfl⟩ := List.mem_map.mp hmem
    obtain ⟨u, hu, hkey⟩ := h.sets.keyed e he
    cases ht.symm.trans hu
    refine hactive (h.sets.mem_active.mpr ⟨t, ht, rfl, ?_⟩)
    rw [hkey]
    exact he
  · rcases List.mem_append.mp hmem with hmem | hmem
    · exact absurd hmem hfunctor
    · exact hmem

/-- There is a batch when a timer has begun, so `cancelInLoop` remembers
the cancellation. -/
theorem calling_of_begun (h : Inv s) {a : Address} (ha : s.Begun a) :
    s.queue.callingExpiredTimers_ = true := by
  rw [h.calling]
  cases hbatch : s.batch with
  | none => simp [Begun, held, hbatch] at ha
  | some b => rfl

/-- `Quiet` after a cancellation, from what it does to the heap, the log
and `cancelingTimers_`. -/
theorem quiet_of_canceled {id : TimerId} (h : Quiet s) (hle : id.sequence_ ≤ s.s_numCreated_)
    (hn : s'.s_numCreated_ = s.s_numCreated_) (hr : s'.returned = s.returned)
    (hb : s'.batch = s.batch)
    (hsurv : ∀ b u, s'.queue.heap b = some u → s.queue.heap b = some u)
    (hlog : ∃ xs : List Int, s'.queue.log = s.queue.log ++ xs.map .deleted ++ [.canceled id])
    (hkeep : ∀ x ∈ s.queue.cancelingTimers_, x ∈ s'.queue.cancelingTimers_)
    (hself : ∀ a t, s'.queue.heap a = some t → t.sequence_ = id.sequence_ →
      s.Begun a ∧ activeTimer a t.sequence_ ∈ s'.queue.cancelingTimers_) : Quiet s' := by
  obtain ⟨xs, hlog⟩ := hlog
  have hbegun : ∀ a, s.Begun a → s'.Begun a := by
    intro a ha
    simpa only [Begun, held, unstarted, hb] using ha
  constructor
  case genuine =>
    intro id' hid'
    rw [hr] at hid'
    rw [hn]
    obtain ⟨hle', hgen⟩ := h.genuine id' hid'
    exact ⟨hle', fun a t ht => hgen a t (hsurv a t ht)⟩
  case gone =>
    intro id' hid'
    rw [hn]
    have hcases : .canceled id' ∈ s.queue.log ∨ id' = id := by
      rw [hlog] at hid'
      simpa using hid'
    rcases hcases with hold | rfl
    · obtain ⟨hle', hgone⟩ := h.gone id' hold
      refine ⟨hle', ?_⟩
      intro a t ht hseq
      obtain ⟨hbeg, hmem⟩ := hgone a t (hsurv a t ht) hseq
      exact ⟨hbegun a hbeg, hkeep _ hmem⟩
    · exact ⟨hle, fun a t ht hseq => ⟨hbegun a (hself a t ht hseq).1, (hself a t ht hseq).2⟩⟩
  case ordered =>
    rw [hlog]
    exact (h.ordered.deleted xs).snoc (by simp)

theorem quiet_cancel {id : TimerId} (h : Quiet s) (hinv : Inv s)
    (hby : s.canceledBy e = some id) (hreturned : CancelsReturned s e) (htime : CancelsInTime s e)
    (hq : s.queue.cancelInLoop id = .ok s'.queue) (hn : s'.s_numCreated_ = s.s_numCreated_)
    (hr : s'.returned = s.returned) (hb : s'.batch = s.batch) : Quiet s' := by
  obtain ⟨hle, hgen⟩ := h.genuine id (hreturned id hby)
  rcases cancelInLoop_cases hinv.sets id with ⟨t, ht, hseq, -, heq⟩ | ⟨hactive, heq⟩
  · -- The timer was in `timers_` and is deleted.
    have hqueue := Except.ok.inj (hq.symm.trans heq)
    have hheap : s'.queue.heap = Function.update s.queue.heap id.timer_ none := by
      rw [hqueue]
      rfl
    refine quiet_of_canceled h hle hn hr hb ?_ ⟨[t.sequence_], ?_⟩ ?_ ?_
    · intro b u hu
      rw [hheap] at hu
      rcases update_cases hu with ⟨-, hnone⟩ | ⟨-, hold⟩
      · cases hnone
      · exact hold
    · rw [hqueue]
      rfl
    · rw [hqueue]
      exact fun x hx => hx
    · -- No other live timer has the sequence number of the id.
      intro a u hu huseq
      rw [hheap] at hu
      rcases update_cases hu with ⟨-, hnone⟩ | ⟨hne, hold⟩
      · cases hnone
      · exact absurd (hgen a u hold huseq) hne
  · -- It was not, and only `cancelingTimers_` may change.
    have hqueue := Except.ok.inj (hq.symm.trans heq)
    obtain ⟨canceling, hsame⟩ := s.queue.withCanceling_eq id
    have hheap : s'.queue.heap = s.queue.heap := by
      rw [hqueue, hsame]
      rfl
    refine quiet_of_canceled h hle hn hr hb ?_ ⟨[], ?_⟩ ?_ ?_
    · intro b u hu
      rw [hheap] at hu
      exact hu
    · rw [hqueue, hsame]
      simp [emit]
    · intro x hx
      rw [hqueue]
      unfold withCanceling
      split
      · exact SortedSet.mem_insert.mpr (Or.inr hx)
      · exact hx
    · -- The timer is alive, so it has begun.
      intro a u hu huseq
      rw [hheap] at hu
      cases hgen a u hu huseq
      rw [← huseq] at hactive
      have hnames : s.queue.names id = true := names_iff.mpr ⟨u, hu, huseq⟩
      obtain ⟨hfunctor, hunstarted⟩ := htime id hby hnames
      have hbegun := begun_of_notMem hinv hu hactive hfunctor hunstarted
      refine ⟨hbegun, ?_⟩
      rw [hqueue, huseq]
      unfold withCanceling
      rw [if_pos (calling_of_begun hinv hbegun)]
      exact SortedSet.mem_insert.mpr (Or.inl rfl)

/-- A timer that is started was not canceled: it had not begun. -/
theorem quiet_run {b : Batch} {it : Entry} {todo : List Entry} {t : Timer} (h : Quiet s)
    (hbatch : s.batch = some b) (htodo : b.todo = it :: todo)
    (ht : s.queue.heap (entryTimer it) = some t) :
    Quiet { s with
      queue := s.queue.emit (.started t.sequence_), batch := some { b with todo := todo } } := by
  have hunstarted : s.unstarted = (it :: todo).map entryTimer := by
    simp only [unstarted, hbatch, htodo]
  constructor
  case genuine => exact h.genuine
  case gone =>
    intro id hid
    have hold : .canceled id ∈ s.queue.log := by simpa [emit] using hid
    obtain ⟨hle, hgone⟩ := h.gone id hold
    refine ⟨hle, ?_⟩
    intro a u hu hseq
    obtain ⟨⟨hmem, hnot⟩, hcanceling⟩ := hgone a u hu hseq
    rw [hunstarted] at hnot
    refine ⟨⟨?_, ?_⟩, hcanceling⟩
    · simpa only [held, hbatch] using hmem
    · exact fun hmem' => hnot (List.mem_cons_of_mem _ hmem')
  case ordered =>
    refine h.ordered.snoc ?_
    intro id hid heq
    have hseq : t.sequence_ = id.sequence_ := Effect.started.inj heq
    obtain ⟨⟨-, hnot⟩, -⟩ := (h.gone id hid).2 _ t ht hseq
    rw [hunstarted] at hnot
    exact hnot List.mem_cons_self

/-- No canceled timer survives `reset`. -/
theorem quiet_reset {b : Batch} (h : Quiet s) (hbatch : s.batch = some b)
    (hd : Drained { s.queue with callingExpiredTimers_ := false } s'.queue b.expired)
    (hn : s'.s_numCreated_ = s.s_numCreated_) (hr : s'.returned = s.returned) : Quiet s' := by
  obtain ⟨xs, hlog⟩ := hd.log
  constructor
  case genuine =>
    intro id hid
    rw [hr] at hid
    rw [hn]
    obtain ⟨hle, hgen⟩ := h.genuine id hid
    refine ⟨hle, ?_⟩
    intro a u hu hseq
    obtain ⟨t, ht, htu, -⟩ := hd.survivor a u hu
    exact hgen a t ht (htu.trans hseq)
  case gone =>
    intro id hid
    rw [hn]
    have hold : .canceled id ∈ s.queue.log := by
      rw [hlog] at hid
      simpa using hid
    obtain ⟨hle, hgone⟩ := h.gone id hold
    refine ⟨hle, ?_⟩
    intro a u hu hseq
    -- A canceled timer of the batch is in `cancelingTimers_`, so `reset` has deleted it.
    exfalso
    obtain ⟨t, ht, htu, hkeep⟩ := hd.survivor a u hu
    obtain ⟨⟨hmem, -⟩, hcanceling⟩ := hgone a t ht (htu.trans hseq)
    refine hkeep ?_ hcanceling
    simpa only [held, hbatch] using hmem
  case ordered =>
    rw [hlog]
    exact h.ordered.deleted xs

/-- At the start of a batch all canceled timers are dead. -/
theorem quiet_start (h : Quiet s) (hbatch : s.batch = none)
    (hheap : s'.queue.heap = s.queue.heap) (hlog : s'.queue.log = s.queue.log)
    (hn : s'.s_numCreated_ = s.s_numCreated_) (hr : s'.returned = s.returned) : Quiet s' := by
  constructor
  case genuine =>
    rw [hr, hn, hheap]
    exact h.genuine
  case gone =>
    intro id hid
    rw [hlog] at hid
    rw [hn, hheap]
    obtain ⟨hle, hgone⟩ := h.gone id hid
    refine ⟨hle, ?_⟩
    intro a t ht hseq
    obtain ⟨⟨hmem, -⟩, -⟩ := hgone a t ht hseq
    simp [held, hbatch] at hmem
  case ordered =>
    rw [hlog]
    exact h.ordered

theorem quiet_step (h : Quiet s) (hinv : Inv s) (hinv' : Inv s') (hreturned : CancelsReturned s e)
    (htime : CancelsInTime s e) (hmove : Move s e s') : Quiet s' := by
  cases hmove with
  | plain hp => exact quiet_plain h hinv' hp
  | cancel id hby hq hn hr hb => exact quiet_cancel h hinv hby hreturned htime hq hn hr hb
  | start hbatch hheap hlog hn hr => exact quiet_start h hbatch hheap hlog hn hr
  | run b it todo t hbatch htodo ht hs' =>
      subst hs'
      exact quiet_run h hbatch htodo ht
  | reset b hbatch hd hn hr => exact quiet_reset h hbatch hd hn hr

/-! ### Runs -/

end Muduo.Net.TimerLoop
