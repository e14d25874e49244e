import Muduo.Proofs.TimerLoop

/-!
# `Muduo.Proofs.TimerAlarm`: no timer without an alarm

The timerfd is one-shot. `handleRead` spends it, and `reset` sets it again at
the end of the batch. In between a callback can add timers, and `insert` asks
for an alarm only when the new timer is earlier than all others. So in the
batch there can be timers without an alarm.

What `reset` does not make up for are timers with an expiration that is not
positive: it takes the earliest expiration for an invalid one and sets no
alarm. `handleRead` has taken all such timers out of `timers_`, as its clock
is positive. The first one that a callback adds is earlier than all others,
and it gets its alarm then.

`Guarded always q` is the invariant for both: with `always` every timer in
`timers_` has an alarm, and without it every timer that `reset` skips. The
lemmas follow the functions of the queue, and `step_timed` the events of the
loop.
-/

set_option autoImplicit false

namespace Muduo.Net

open Muduo.Base
open Muduo.Lib

/-! ### `howMuchTimeFromNow` -/

/-- The alarm comes at the expiration, and not before 100 microseconds from
now. -/
theorem howMuchTimeFromNow_nanoseconds (when_ now : Int) :
    (howMuchTimeFromNow when_ now).nanoseconds = 1000 * max 100 (when_ - now) := by
  have hmicro : (if when_ - now < 100 then 100 else when_ - now) = max 100 (when_ - now) := by
    split <;> omega
  have hnonneg : 0 ≤ max 100 (when_ - now) := by omega
  show Int.tdiv (if when_ - now < 100 then 100 else when_ - now) 1000000 * 1000000000
    + Int.tmod (if when_ - now < 100 then 100 else when_ - now) 1000000 * 1000 = _
  rw [hmicro, Int.tdiv_eq_ediv_of_nonneg hnonneg, Int.tmod_eq_emod_of_nonneg hnonneg]
  omega

theorem howMuchTimeFromNow_isPositive (when_ now : Int) :
    (howMuchTimeFromNow when_ now).IsPositive := by
  have hnanos := howMuchTimeFromNow_nanoseconds when_ now
  have hmicro : 0 ≤ (if when_ - now < 100 then 100 else when_ - now) := by
    split <;> omega
  have hmod := Int.tmod_nonneg 1000000 hmicro
  have hlt := Int.tmod_lt_of_pos (if when_ - now < 100 then 100 else when_ - now)
    (show (0 : Int) < 1000000 by decide)
  refine ⟨Int.tdiv_nonneg hmicro (by decide), ?_, ?_, by omega⟩
  · show 0 ≤ Int.tmod (if when_ - now < 100 then 100 else when_ - now) 1000000 * 1000
    omega
  · show Int.tmod (if when_ - now < 100 then 100 else when_ - now) 1000000 * 1000 < 1000000000
    omega

namespace TimerQueue

variable {q q' : TimerQueue} {others : List Address} {a : Address} {always : Prop}

/-- The alarm is set, or has expired and is not read yet, for an instant that
is not later than `when_` or 100 microseconds from when it was set. -/
def Alarm (q : TimerQueue) (when_ : Int) : Prop :=
  ∃ (armed : Int) (ts : Timespec), q.timerfd = some (armed, ts) ∧
    1000 * armed + ts.nanoseconds ≤ 1000 * max when_ (armed + 100)

/-- An alarm in time for one timer is in time for a later one. -/
theorem Alarm.mono {when_ later : Int} (h : Alarm q when_) (hle : when_ ≤ later) :
    Alarm q later := by
  obtain ⟨armed, ts, hfd, hnanos⟩ := h
  exact ⟨armed, ts, hfd, by omega⟩

theorem alarm_resetTimerfd (q : TimerQueue) (when_ now : Int) :
    Alarm (q.resetTimerfd when_ now) when_ := by
  refine ⟨now, _, rfl, ?_⟩
  rw [howMuchTimeFromNow_nanoseconds]
  omega

/-- The timers that have an alarm, and what the alarm was set with. -/
structure Guarded (always : Prop) (q : TimerQueue) : Prop where
  alarm : ∀ e ∈ q.timers_.toList, always ∨ entryTime e ≤ 0 → Alarm q (entryTime e)
  timespec : ∀ armed ts, q.timerfd = some (armed, ts) → ts.IsPositive

/-- Less may be asked for. -/
theorem Guarded.weaken {sometimes : Prop} (h : Guarded always q) (himp : sometimes → always) :
    Guarded sometimes q where
  alarm e he hwhen := h.alarm e he (hwhen.imp_left himp)
  timespec := h.timespec

/-- Timers may leave, and the other fields do not matter. -/
theorem Guarded.subset (h : Guarded always q) (hfd : q'.timerfd = q.timerfd)
    (hsub : ∀ e ∈ q'.timers_.toList, e ∈ q.timers_.toList) : Guarded always q' where
  alarm e he hwhen := by
    obtain ⟨armed, ts, hfd', hnanos⟩ := h.alarm e (hsub e he) hwhen
    exact ⟨armed, ts, hfd.trans hfd', hnanos⟩
  timespec armed ts hts := h.timespec armed ts (hfd.symm.trans hts)

/-- The alarm is set for a timer that no other one is earlier than. -/
theorem guarded_resetTimerfd {when_ now : Timestamp}
    (h : ∀ e ∈ q.timers_.toList, when_ ≤ entryTime e) :
    Guarded always (q.resetTimerfd when_ now) where
  alarm e he _ := (alarm_resetTimerfd q when_ now).mono (h e he)
  timespec armed ts hts := by
    cases hts
    exact howMuchTimeFromNow_isPositive when_ now

theorem mem_withTimer {t : Timer} {e : Entry} (he : e ∈ (q.withTimer a t).timers_.toList) :
    e = entry t.expiration_ a ∨ e ∈ q.timers_.toList := SortedSet.mem_insert.mp he

/-! ### The functions of the queue -/

theorem addTimerInLoop_guarded {clock : Timestamp} (hsets : Sets q (a :: others))
    (h : Guarded always q) : Returns (q.addTimerInLoop a clock) (Guarded always) := by
  obtain ⟨t, ht⟩ := hsets.get List.mem_cons_self
  obtain ⟨changed, hins, hearlier, hlater⟩ := insert_eq hsets ht
  simp only [addTimerInLoop, hins, ok_bind]
  cases changed with
  | true =>
      rw [if_pos rfl, deref_eq (show (q.withTimer a t).heap a = some t from ht)]
      refine Ends.ok (guarded_resetTimerfd fun e he => ?_)
      rcases mem_withTimer he with rfl | he
      · exact le_refl _
      · exact hearlier rfl e he
  | false =>
      -- There is a timer that is not later, and its alarm is in time for the new one.
      obtain ⟨first, hfirst, hle⟩ := hlater rfl
      refine Ends.ok ⟨fun e he hwhen => ?_, h.timespec⟩
      rcases mem_withTimer he with rfl | he
      · exact (h.alarm first hfirst (hwhen.imp_right fun hzero => le_trans hle hzero)).mono hle
      · exact h.alarm e he hwhen

theorem cancelInLoop_guarded (id : TimerId) (hsets : Sets q others) (h : Guarded always q) :
    Returns (q.cancelInLoop id) fun q' => Guarded always q' ∧
      ∀ b u, q'.heap b = some u → q.heap b = some u := by
  rcases cancelInLoop_cases hsets id with ⟨t, -, -, -, heq⟩ | ⟨-, heq⟩
  · rw [heq]
    refine Ends.ok ⟨h.subset rfl fun e he => SortedSet.mem_of_mem_erase he, fun b u hu => ?_⟩
    rcases update_cases hu with ⟨-, hnone⟩ | ⟨-, hold⟩
    · cases hnone
    · exact hold
  · obtain ⟨canceling, hsame⟩ := q.withCanceling_eq id
    rw [heq, hsame]
    exact Ends.ok ⟨h.subset rfl fun e he => he, fun b u hu => hu⟩

/-- The alarm may be spent now: all timers that are left have a positive
expiration. -/
theorem beginRead_guarded {now : Timestamp} (hnow : 0 < now) (fired : Bool) (hsets : Sets q others)
    (h : Guarded True q) :
    Returns (q.beginRead now fired) fun r => Guarded False r.1 ∧ r.1.heap = q.heap := by
  have hread := TimerLoop.readTimerfd_sets fired hsets
  obtain ⟨⟨q₁, expired⟩, heq, hsets₁, hframe, htimers, hfd, -⟩ :=
    (getExpired_spec now hread).exists_ok
  have htimespec : ∀ armed ts, q₁.timerfd = some (armed, ts) → ts.IsPositive := by
    intro armed ts hts
    rw [hfd, readTimerfd] at hts
    cases fired with
    | true => cases hts
    | false => exact h.timespec armed ts hts
  rw [beginRead, heq, ok_bind]
  have hheap : q₁.heap = q.heap := hframe.heap.trans (TimerLoop.readTimerfd_frame q fired).heap
  refine Ends.ok ⟨⟨fun e he hwhen => ?_, htimespec⟩, hheap⟩
  have hmem : e ∈ q₁.timers_.toList := he
  obtain ⟨t, ht, -⟩ := hsets₁.keyed e hmem
  rw [htimers] at hmem
  have hlater := lt_of_sentry_le (hsets₁.bounded _ t ht) (SortedSet.le_of_mem_eraseBelow hmem)
  rcases hwhen with hfalse | hzero
  · exact hfalse.elim
  · exact absurd (lt_trans hnow hlater) (not_lt.mpr hzero)

/-! ### `reset` -/

/-- What the loop of `reset` does to the timers, besides deleting some. -/
structure Restarted (q q' : TimerQueue) : Prop where
  timerfd : q'.timerfd = q.timerfd
  timers : ∀ e ∈ q'.timers_.toList, e ∈ q.timers_.toList ∨ 0 < entryTime e
  survivor : ∀ b u, q'.heap b = some u → ∃ t, q.heap b = some t ∧ u.repeat_ = t.repeat_ ∧
    u.interval_ = t.interval_ ∧
      (u.expiration_ = t.expiration_ ∨ TimerLoop.InRange u.expiration_)

theorem Restarted.refl (q : TimerQueue) : Restarted q q where
  timerfd := rfl
  timers _ he := Or.inl he
  survivor _ u hu := ⟨u, hu, rfl, rfl, Or.inl rfl⟩

theorem Restarted.trans {q₁ : TimerQueue} (h : Restarted q q₁) (h₁ : Restarted q₁ q') :
    Restarted q q' where
  timerfd := h₁.timerfd.trans h.timerfd
  timers e he := (h₁.timers e he).elim (h.timers e) Or.inr
  survivor b u hu := by
    obtain ⟨t₁, ht₁, hrep₁, hint₁, hexp₁⟩ := h₁.survivor b u hu
    obtain ⟨t, ht, hrep, hint, hexp⟩ := h.survivor b t₁ ht₁
    refine ⟨t, ht, hrep₁.trans hrep, hint₁.trans hint, ?_⟩
    rcases hexp₁ with hsame | hrange
    · rw [hsame]
      exact hexp
    · exact Or.inr hrange

/-- The timer of the entry can be restarted at `now`. -/
def CanRestart (now : Timestamp) (q : TimerQueue) (e : Entry) : Prop :=
  ∀ t, q.heap (entryTimer e) = some t → t.repeat_ = true →
    0 ≤ t.interval_ ∧ TimerLoop.InRange (now + t.interval_)

theorem CanRestart.restarted {now : Timestamp} {e : Entry} (h : CanRestart now q e)
    (hq : Restarted q q') : CanRestart now q' e := by
  intro u hu hrepeat
  obtain ⟨t, ht, hrep, hint, -⟩ := hq.survivor _ u hu
  rw [hint]
  exact h t ht (hrep.symm.trans hrepeat)

/-- One round of the loop. -/
theorem resetOne_restarted {now : Timestamp} {e : Entry} (hnow : 0 < now)
    (hsets : Sets q (entryTimer e :: others)) (hcan : CanRestart now q e) :
    Returns (resetOne now q e) (Restarted q) := by
  obtain ⟨t, ht⟩ := hsets.get List.mem_cons_self
  rcases resetOne_cases now hsets ht with ⟨hrepeat, -, heq⟩ | ⟨-, heq⟩
  · -- The timer goes back with a new expiration.
    obtain ⟨hint, hrange⟩ := hcan t ht hrepeat
    have hrestart : t.restart now = { t with expiration_ := now + t.interval_ } := if_pos hrepeat
    rw [heq, hrestart]
    refine Ends.ok ⟨rfl, fun f hf => ?_, fun b u hu => ?_⟩
    · rcases mem_withTimer hf with rfl | hf
      · right
        exact Int.add_pos_of_pos_of_nonneg hnow hint
      · exact Or.inl hf
    · rcases update_cases hu with ⟨rfl, hself⟩ | ⟨-, hold⟩
      · cases hself
        exact ⟨t, ht, rfl, rfl, Or.inr hrange⟩
      · exact ⟨u, hold, rfl, rfl, Or.inl rfl⟩
  · rw [heq]
    refine Ends.ok ⟨rfl, fun f hf => Or.inl hf, fun b u hu => ?_⟩
    rcases update_cases hu with ⟨-, hnone⟩ | ⟨-, hold⟩
    · cases hnone
    · exact ⟨u, hold, rfl, rfl, Or.inl rfl⟩

-- The induction is on the batch, as in `reset_loop`.
theorem reset_loop_restarted {now : Timestamp} (hnow : 0 < now) (l : List Entry)
    (hsets : Sets q (l.map entryTimer ++ others)) (hcan : ∀ e ∈ l, CanRestart now q e) :
    Returns (l.foldlM (resetOne now) q) fun q' => Sets q' others ∧ Restarted q q' := by
  induction l generalizing q with
  | nil => exact Ends.ok ⟨hsets, Restarted.refl q⟩
  | cons e l ih =>
      rw [List.foldlM_cons]
      obtain ⟨q₁, heq, hsets₁, -⟩ := (resetOne_spec now hsets).exists_ok
      have hone := (resetOne_restarted hnow hsets (hcan e List.mem_cons_self)).post heq
      rw [heq, ok_bind]
      refine (ih hsets₁ fun f hf => ?_).imp ?_
      · exact (hcan f (List.mem_cons_of_mem _ hf)).restarted hone
      · intro q' hq'
        exact ⟨hq'.1, hone.trans hq'.2⟩

/-- After the batch every timer has an alarm again. -/
theorem reset_guarded {now : Timestamp} (clock : Timestamp) (hnow : 0 < now) (l : List Entry)
    (hsets : Sets q (l.map entryTimer ++ others)) (hcan : ∀ e ∈ l, CanRestart now q e)
    (h : Guarded False q) :
    Returns (q.reset l now clock) fun q' => Guarded True q' ∧
      ∀ b u, q'.heap b = some u → ∃ t, q.heap b = some t ∧ u.repeat_ = t.repeat_ ∧
        u.interval_ = t.interval_ ∧
          (u.expiration_ = t.expiration_ ∨ TimerLoop.InRange u.expiration_) := by
  refine (reset_loop_restarted hnow l hsets hcan).bind ?_
  intro q' hq'
  obtain ⟨hsets', hrestarted⟩ := hq'
  have htimespec : ∀ armed ts, q'.timerfd = some (armed, ts) → ts.IsPositive := by
    intro armed ts hts
    rw [hrestarted.timerfd] at hts
    exact h.timespec armed ts hts
  cases hhead : q'.timers_.toList.head? with
  | none =>
      refine Ends.ok ⟨⟨fun e he _ => ?_, htimespec⟩, hrestarted.survivor⟩
      rw [List.head?_eq_none_iff.mp hhead] at he
      cases he
  | some it =>
      have hit := List.mem_of_mem_head? hhead
      obtain ⟨t, ht, hkey⟩ := hsets'.keyed it hit
      have hfirst : ∀ e ∈ q'.timers_.toList, t.expiration_ ≤ entryTime e := by
        intro e he
        rw [hkey]
        exact entryTime_mono (SortedSet.head_le hhead he)
      simp only [deref_eq ht, ok_bind]
      split
      · exact Ends.ok ⟨guarded_resetTimerfd hfirst, hrestarted.survivor⟩
      · -- No alarm is set. The earliest timer was not restarted, so it has one.
        rename_i hinvalid
        have hzero : entryTime it ≤ 0 := by
          rw [← hkey]
          exact not_lt.mp hinvalid
        have hold : it ∈ q.timers_.toList := by
          rcases hrestarted.timers it hit with hold | hpos
          · exact hold
          · exact absurd hpos (not_lt.mpr hzero)
        obtain ⟨armed, ts, hfd, hnanos⟩ := h.alarm it hold (Or.inr hzero)
        have halarm : Alarm q' (entryTime it) := ⟨armed, ts, hrestarted.timerfd.trans hfd, hnanos⟩
        refine Ends.ok ⟨⟨fun e he _ => halarm.mono ?_, htimespec⟩, hrestarted.survivor⟩
        rw [← hkey]
        exact hfirst e he

end TimerQueue

namespace TimerLoop

open TimerQueue

variable {s s' : TimerLoop}

structure Timed (s : TimerLoop) : Prop where
  guarded : Guarded (s.batch = none) s.queue
  heap : ∀ a t, s.queue.heap a = some t → IsTimer t.expiration_ t.interval_ t.repeat_
  now : ∀ b ∈ s.batch, 0 < b.now

theorem timed_init (numCreated : Int) : Timed (init numCreated) where
  guarded := ⟨fun e he => (by cases he), fun armed ts hts => (by cases hts)⟩
  heap a t ht := by cases ht
  now b hb := by cases hb

/-- The queue changes, and no timer is added or restarted. -/
theorem Timed.withQueue {q : TimerQueue} (h : Timed s) (hguarded : Guarded (s.batch = none) q)
    (hheap : ∀ b u, q.heap b = some u → s.queue.heap b = some u) :
    Timed { s with queue := q } where
  guarded := hguarded
  heap b u hu := h.heap b u (hheap b u hu)
  now := h.now

theorem Timed.create {a : Address} {when_ : Timestamp} {interval : Int} {repeats : Bool}
    (h : Timed s) (htimer : IsTimer when_ interval repeats) :
    Timed (s.create a when_ interval repeats) where
  guarded := h.guarded.subset rfl fun _ he => he
  heap b u hu := by
    rcases update_cases hu with ⟨-, hself⟩ | ⟨-, hold⟩
    · cases hself
      exact htimer
    · exact h.heap b u hold
  now := h.now

theorem giveId_timed (a : Address) (h : Timed s) : Ends (s.giveId a) (fun _ => True) Timed := by
  rw [giveId, deref]
  cases s.queue.heap a with
  | none => exact trivial
  | some t => exact ⟨h.guarded, h.heap, h.now⟩

/-- `addTimerInLoop` for a timer that is in the heap. -/
theorem addTimerInLoop_timed {a : Address} {others : List Address}
    (hsets : Sets s.queue (a :: others)) (h : Timed s) (clock : Timestamp) :
    Returns (s.queue.addTimerInLoop a clock) fun q => Timed { s with queue := q } := by
  have hspec : Returns (s.queue.addTimerInLoop a clock) _ := addTimerInLoop_spec hsets
  obtain ⟨q, hq, -, hframe⟩ := hspec.exists_ok
  refine Ends.of_eq_ok hq (h.withQueue ((addTimerInLoop_guarded hsets h.guarded).post hq) ?_)
  intro b u hu
  rw [hframe.heap] at hu
  exact hu

theorem cancelInLoop_timed (id : TimerId) (hinv : Inv s) (h : Timed s) :
    Returns (s.queue.cancelInLoop id) fun q => Timed { s with queue := q } :=
  (cancelInLoop_guarded id hinv.sets h.guarded).imp fun _ hq => h.withQueue hq.1 hq.2

/-- Every step keeps the alarm, when all times are in range. -/
theorem step_timed {e : Event} (hinv : Inv s) (h : Timed s) (hen : enabled s e = true)
    (htimes : TimesInRange s e) : Ends (step s e) (fun _ => True) Timed := by
  cases e with
  | createElsewhere | pushAdd a | pushCancel id => exact Ends.ok ⟨h.guarded, h.heap, h.now⟩
  | newTimer a when_ interval repeats =>
      have hcreated : Timed (s.create a when_ interval repeats) := h.create htimes
      exact Ends.ok ⟨hcreated.guarded, hcreated.heap, hcreated.now⟩
  | returnId a => exact giveId_timed a ⟨h.guarded, h.heap, h.now⟩
  | addTimer a when_ interval repeats clock =>
      have hfree : s.isFree a = true := (Bool.and_eq_true _ _ ▸ hen).1
      obtain ⟨hsets, -, -⟩ := create_spec hinv hfree when_ interval repeats
      have hadd := addTimerInLoop_timed hsets (h.create htimes.1) clock
      refine hadd.of_returns.bind fun q hq => ?_
      exact giveId_timed a hq
  | cancel id =>
      have hcancel := cancelInLoop_timed id hinv h
      exact hcancel.of_returns.bind fun q hq => Ends.ok hq
  | runFunctor clock =>
      rw [step]
      cases hfs : s.pendingFunctors_ with
      | nil => exact Ends.ok h
      | cons f fs =>
          cases f with
          | addTimerInLoop a =>
              have hadd := addTimerInLoop_timed (hinv.sets_pop hfs) h clock
              refine hadd.of_returns.bind fun q hq => ?_
              exact Ends.ok ⟨hq.guarded, hq.heap, hq.now⟩
          | cancelInLoop id =>
              have hcancel := cancelInLoop_timed id hinv h
              refine hcancel.of_returns.bind fun q hq => ?_
              exact Ends.ok ⟨hq.guarded, hq.heap, hq.now⟩
  | handleRead now fired =>
      have hbatch : s.batch = none := by simpa [enabled] using hen
      -- Between two reads the alarm is always set for the first timer.
      have hguarded := h.guarded.weaken (fun _ : True => hbatch)
      have hread := beginRead_guarded htimes.1 fired hinv.sets hguarded
      refine hread.of_returns.bind fun r hr => ?_
      refine Ends.ok ⟨hr.1.weaken (fun hnone => by cases hnone), fun b u hu => ?_, fun b hb => ?_⟩
      · refine h.heap b u ?_
        rw [← hr.2]
        exact hu
      · cases hb
        exact htimes.1
  | runNext =>
      rw [step]
      cases hbatch : s.batch with
      | none => exact Ends.ok h
      | some b =>
          obtain ⟨now, expired, todo⟩ := b
          cases todo with
          | nil => exact Ends.ok h
          | cons it todo =>
              simp only [runTimer, deref]
              cases s.queue.heap (entryTimer it) with
              | none => exact trivial
              | some t =>
                  -- Inside a batch nothing is promised about the alarm.
                  refine Ends.ok ⟨?_, h.heap, fun b hb => ?_⟩
                  · have hweak := h.guarded.weaken (False.elim : False → s.batch = none)
                    refine Guarded.weaken (hweak.subset rfl fun _ he => he) ?_
                    intro hnone
                    cases hnone
                  · cases hb
                    exact h.now ⟨now, expired, it :: todo⟩ hbatch
  | reset clock =>
      rw [step]
      cases hbatch : s.batch with
      | none => exact Ends.ok h
      | some b =>
          obtain ⟨now, expired, todo⟩ := b
          have hnow : 0 < now := h.now _ hbatch
          have hguarded : Guarded False { s.queue with callingExpiredTimers_ := false } :=
            (h.guarded.weaken False.elim).subset rfl fun _ he => he
          have hreset := reset_guarded clock hnow expired (hinv.sets_batch hbatch)
            (fun it hit t ht hrepeat =>
              ⟨(h.heap _ t ht).2 hrepeat, htimes.2 _ hbatch it hit t ht hrepeat⟩) hguarded
          refine hreset.of_returns.bind fun q hq => ?_
          -- `reset` ends by setting the alarm again, so the promise is back.
          refine Ends.ok ⟨hq.1.weaken (fun _ => trivial), fun b u hu => ?_, fun b hb => by cases hb⟩
          obtain ⟨t, ht, hrep, hint, hexp⟩ := hq.2 b u hu
          obtain ⟨hrange, hrepeat⟩ := h.heap b t ht
          refine ⟨?_, ?_⟩
          · rcases hexp with hsame | hrange'
            · rw [hsame]
              exact hrange
            · exact hrange'
          · rw [hrep, hint]
            exact hrepeat

end TimerLoop

end Muduo.Net
