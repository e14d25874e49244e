import Muduo.Lib.Ledger
import Muduo.Lib.Outcome
import Muduo.Net.TimerQueue

/-!
# `Muduo.Proofs.TimerQueue`: the two sets and the heap stay in step

`Sets q others` is the invariant of the data. The live timers are those in
`timers_` and those in `others`, the addresses that somebody else holds:
an `addTimerInLoop` functor or the batch of `handleRead`. The key of an
entry of `timers_` is the expiration of its timer, and `activeTimers_`
holds the same timers under their sequence numbers.

`History heap log n` is the invariant of the sequence numbers. No two live
timers share one, none is above the counter `n`, and a deleted one does not
come back.

Every function of the queue has one lemma here. It says that the function
returns, who holds the timers afterwards, and what it did to the heap and
the log. A function that takes a timer from somebody asks for `Sets` with
the timer in `others`, and `getExpired` gives the expired timers away.
-/

set_option autoImplicit false

namespace Muduo.Net.TimerQueue

open Muduo.Base
open Muduo.Lib

variable {q q' : TimerQueue} {others : List Address} {a : Address} {t : Timer} {n : Int}

/-! ### Definitions -/

def sequenceAt (q : TimerQueue) (a : Address) : Int :=
  match q.heap a with
  | some t => t.sequence_
  | none => 0

/-- The entry of `activeTimers_` for an entry of `timers_`. -/
def activeOf (q : TimerQueue) (e : Entry) : ActiveTimer :=
  activeTimer (entryTimer e) (q.sequenceAt (entryTimer e))

/-- The timers in `timers_`. -/
def addresses (q : TimerQueue) : List Address := q.timers_.toList.map entryTimer

/-- The two sets and the heap are in step. `others` holds the live timers
that are not in `timers_`. -/
structure Sets (q : TimerQueue) (others : List Address) : Prop where
  ledger : Ledger q.heap (q.addresses ++ others)
  keyed : ∀ e ∈ q.timers_.toList, ∃ t, q.heap (entryTimer e) = some t ∧ t.expiration_ = entryTime e
  active : q.activeTimers_.toList.Perm (q.timers_.toList.map q.activeOf)
  bounded : ∀ a t, q.heap a = some t → a < UINTPTR_MAX

/-- The sequence numbers of the timers so far, up to `n`. -/
structure History (heap : Address → Option Timer) (log : List Effect) (n : Int) : Prop where
  fresh : ∀ a t, heap a = some t → t.sequence_ ≤ n
  unique : ∀ a b t u, heap a = some t → heap b = some u → t.sequence_ = u.sequence_ → a = b
  dead : ∀ x, .deleted x ∈ log → x ≤ n ∧ ∀ a t, heap a = some t → t.sequence_ ≠ x
  order : log.Pairwise fun e f => ∀ x, e = .deleted x → f ≠ .started x ∧ f ≠ .deleted x

/-- What a function that moves timers between the sets leaves alone. -/
structure Frame (q q' : TimerQueue) : Prop where
  heap : q'.heap = q.heap
  log : q'.log = q.log
  calling : q'.callingExpiredTimers_ = q.callingExpiredTimers_
  canceling : q'.cancelingTimers_ = q.cancelingTimers_

/-! ### Small facts -/

theorem entry_eq {e : Entry} {a : Address} {w : Timestamp} :
    e = entry w a ↔ entryTime e = w ∧ entryTimer e = a := by
  constructor
  · rintro rfl
    exact ⟨rfl, rfl⟩
  · rintro ⟨rfl, rfl⟩
    rfl

theorem sequenceAt_eq (h : q.heap a = some t) : q.sequenceAt a = t.sequence_ := by
  simp [sequenceAt, h]

theorem deref_eq (h : q.heap a = some t) : q.deref a = .ok t := by
  simp [deref, h]

theorem delete_eq (h : q.heap a = some t) :
    q.delete a = .ok { q with
      heap := Function.update q.heap a none
      log := q.log ++ [.deleted t.sequence_] } := by
  simp [delete, h]

/-- An id names a timer when the address has a timer with its sequence number. -/
theorem names_iff {id : TimerId} :
    q.names id = true ↔ ∃ t, q.heap id.timer_ = some t ∧ t.sequence_ = id.sequence_ := by
  unfold names
  cases hheap : q.heap id.timer_ with
  | none => simp
  | some t => simp

/-- `activeOf` reads the heap only at the timer of the entry. -/
theorem map_activeOf_congr {l : List Entry}
    (h : ∀ e ∈ l, q'.sequenceAt (entryTimer e) = q.sequenceAt (entryTimer e)) :
    l.map q'.activeOf = l.map q.activeOf := by
  refine List.map_congr_left ?_
  intro e he
  rw [activeOf, activeOf, h e he]

namespace Sets

theorem size (h : Sets q others) : q.timers_.size = q.activeTimers_.size := by
  have hlen := h.active.length_eq
  rw [List.length_map] at hlen
  exact hlen.symm

theorem perm {others' : List Address} (h : Sets q others) (hp : others.Perm others') :
    Sets q others' :=
  { h with ledger := h.ledger.perm (hp.append_left _) }

theorem get (h : Sets q others) (ha : a ∈ others) : ∃ t, q.heap a = some t :=
  h.ledger.get (List.mem_append_right _ ha)

theorem notMem_addresses (h : Sets q (a :: others)) : a ∉ q.addresses := by
  intro hmem
  have hdisj := (List.nodup_append.mp h.ledger.nodup).2.2
  exact hdisj a hmem a List.mem_cons_self rfl

/-- `activeTimers_` is about the timers in `timers_` and no others. -/
theorem mem_active (h : Sets q others) {sequence : Int} :
    activeTimer a sequence ∈ q.activeTimers_ ↔
      ∃ t, q.heap a = some t ∧ t.sequence_ = sequence ∧ entry t.expiration_ a ∈ q.timers_ := by
  rw [SortedSet.mem_iff, h.active.mem_iff, List.mem_map]
  constructor
  · rintro ⟨e, he, heq⟩
    obtain ⟨t, ht, hkey⟩ := h.keyed e he
    have hpair : entryTimer e = a ∧ q.sequenceAt (entryTimer e) = sequence := Prod.mk.inj heq
    obtain ⟨rfl, hseq⟩ := hpair
    refine ⟨t, ht, ?_, ?_⟩
    · rw [← hseq, sequenceAt_eq ht]
    · rw [hkey]
      exact he
  · rintro ⟨t, ht, rfl, he⟩
    refine ⟨_, he, ?_⟩
    show activeTimer a (q.sequenceAt a) = _
    rw [sequenceAt_eq ht]

/-- Fields that `Sets` does not read can change. -/
theorem of_eq (h : Sets q others) (hheap : q'.heap = q.heap) (ht : q'.timers_ = q.timers_)
    (ha : q'.activeTimers_ = q.activeTimers_) : Sets q' others := by
  obtain ⟨_, _, _, _, _, _, _⟩ := q
  obtain ⟨_, _, _, _, _, _, _⟩ := q'
  cases hheap
  cases ht
  cases ha
  exact ⟨h.ledger, h.keyed, h.active, h.bounded⟩

/-- A cell of somebody else is allocated, freed or written. -/
theorem update {others' : List Address} {v : Option Timer} (h : Sets q others)
    (ha : a ∉ q.addresses) (hbound : a < UINTPTR_MAX)
    (hledger : Ledger (Function.update q.heap a v) (q.addresses ++ others')) :
    Sets { q with heap := Function.update q.heap a v } others' := by
  have hne : ∀ e ∈ q.timers_.toList, entryTimer e ≠ a :=
    fun e he heq => ha (List.mem_map.mpr ⟨e, he, heq⟩)
  constructor
  case ledger => exact hledger
  case keyed =>
    intro e he
    obtain ⟨t, ht, hkey⟩ := h.keyed e he
    exact ⟨t, (Function.update_of_ne (hne e he) _ _).trans ht, hkey⟩
  case active =>
    refine h.active.trans (List.Perm.of_eq (map_activeOf_congr ?_).symm)
    intro e he
    simp [sequenceAt, hne e he]
  case bounded =>
    intro b u hu
    rcases update_cases hu with ⟨rfl, -⟩ | ⟨-, hold⟩
    · exact hbound
    · exact h.bounded b u hold

/-- `new` of a timer that somebody else holds. -/
theorem alloc (h : Sets q others) (ha : q.heap a = none) (hbound : a < UINTPTR_MAX) (t : Timer) :
    Sets (q.store a t) (a :: others) := by
  have hledger := (h.ledger.alloc (b := t) ha).perm List.perm_middle.symm
  refine h.update ?_ hbound hledger
  intro hmem
  obtain ⟨u, hu⟩ := h.ledger.get (List.mem_append_left _ hmem)
  rw [ha] at hu
  cases hu

theorem store (h : Sets q (a :: others)) (ht : q.heap a = some t) (u : Timer) :
    Sets (q.store a u) (a :: others) :=
  h.update h.notMem_addresses (h.bounded a t ht) (h.ledger.write (by simp))

/-- `delete` of a timer that somebody else held. -/
theorem free (h : Sets q (a :: others)) (ht : q.heap a = some t) :
    Sets { q with heap := Function.update q.heap a none } others :=
  h.update h.notMem_addresses (h.bounded a t ht) (h.ledger.perm List.perm_middle).free

end Sets

/-! ### The history of the sequence numbers -/

namespace History

variable {heap : Address → Option Timer} {log : List Effect}

theorem mono {m : Int} (h : History heap log n) (hnm : n ≤ m) : History heap log m where
  fresh a t ht := (h.fresh a t ht).trans hnm
  unique := h.unique
  dead x hx := ⟨(h.dead x hx).1.trans hnm, (h.dead x hx).2⟩
  order := h.order

/-- `new Timer` takes the next sequence number. -/
theorem alloc (h : History heap log n) (ht : t.sequence_ = n + 1) :
    History (Function.update heap a (some t)) log (n + 1) := by
  constructor
  case fresh =>
    intro b u hu
    rcases update_cases hu with ⟨-, hcell⟩ | ⟨-, hold⟩
    · cases hcell
      omega
    · have := h.fresh b u hold
      omega
  case unique =>
    intro b c u v hu hv hseq
    rcases update_cases hu with ⟨hb, hcell⟩ | ⟨-, hold⟩
    · rcases update_cases hv with ⟨hc, -⟩ | ⟨-, hold'⟩
      · rw [hb, hc]
      · cases hcell
        have := h.fresh c v hold'
        omega
    · rcases update_cases hv with ⟨-, hcell⟩ | ⟨-, hold'⟩
      · cases hcell
        have := h.fresh b u hold
        omega
      · exact h.unique b c u v hold hold' hseq
  case dead =>
    intro x hx
    obtain ⟨hle, hdead⟩ := h.dead x hx
    refine ⟨by omega, ?_⟩
    intro b u hu
    rcases update_cases hu with ⟨-, hcell⟩ | ⟨-, hold⟩
    · cases hcell
      omega
    · exact hdead b u hold
  case order => exact h.order

/-- `delete`. -/
theorem free (h : History heap log n) (ht : heap a = some t) :
    History (Function.update heap a none) (log ++ [.deleted t.sequence_]) n := by
  have hcell : ∀ b u, Function.update heap a none b = some u → b ≠ a ∧ heap b = some u := by
    intro b u hu
    rcases update_cases hu with ⟨-, hnone⟩ | hold
    · cases hnone
    · exact hold
  constructor
  case fresh => exact fun b u hu => h.fresh b u (hcell b u hu).2
  case unique =>
    exact fun b c u v hu hv => h.unique b c u v (hcell b u hu).2 (hcell c v hv).2
  case dead =>
    intro x hx
    rcases List.mem_append.mp hx with hx | hx
    · exact ⟨(h.dead x hx).1, fun b u hu => (h.dead x hx).2 b u (hcell b u hu).2⟩
    · cases List.mem_singleton.mp hx
      refine ⟨h.fresh a t ht, ?_⟩
      intro b u hu hseq
      exact (hcell b u hu).1 (h.unique b a u t (hcell b u hu).2 ht hseq)
  case order =>
    refine List.pairwise_append.mpr ⟨h.order, List.pairwise_singleton _ _, ?_⟩
    intro e he f hf x hex
    cases List.mem_singleton.mp hf
    subst hex
    refine ⟨by simp, ?_⟩
    intro heq
    cases heq
    exact (h.dead _ he).2 a t ht rfl

/-- A timer keeps its sequence number when it is written to. -/
theorem write {u : Timer} (h : History heap log n) (ht : heap a = some t)
    (hseq : u.sequence_ = t.sequence_) : History (Function.update heap a (some u)) log n := by
  have hcell : ∀ b v, Function.update heap a (some u) b = some v →
      ∃ w, heap b = some w ∧ w.sequence_ = v.sequence_ := by
    intro b v hv
    rcases update_cases hv with ⟨rfl, hself⟩ | ⟨-, hold⟩
    · cases hself
      exact ⟨t, ht, hseq.symm⟩
    · exact ⟨v, hold, rfl⟩
  constructor
  case fresh =>
    intro b v hv
    obtain ⟨w, hw, heq⟩ := hcell b v hv
    rw [← heq]
    exact h.fresh b w hw
  case unique =>
    intro b c v v' hv hv' heq
    obtain ⟨w, hw, hw1⟩ := hcell b v hv
    obtain ⟨w', hw', hw1'⟩ := hcell c v' hv'
    exact h.unique b c w w' hw hw' (by rw [hw1, hw1', heq])
  case dead =>
    intro x hx
    refine ⟨(h.dead x hx).1, ?_⟩
    intro b v hv
    obtain ⟨w, hw, heq⟩ := hcell b v hv
    rw [← heq]
    exact (h.dead x hx).2 b w hw
  case order => exact h.order

/-- An effect that is not a deletion, and not a start of a deleted timer. -/
theorem emit {e : Effect} (h : History heap log n) (hdel : ∀ x, e ≠ .deleted x)
    (hstart : ∀ x, e = .started x → ∃ a t, heap a = some t ∧ t.sequence_ = x) :
    History heap (log ++ [e]) n where
  fresh := h.fresh
  unique := h.unique
  dead x hx := by
    rcases List.mem_append.mp hx with hx | hx
    · exact h.dead x hx
    · exact absurd (List.mem_singleton.mp hx).symm (hdel x)
  order := by
    refine List.pairwise_append.mpr ⟨h.order, List.pairwise_singleton _ _, ?_⟩
    intro f hf g hg x hfx
    cases List.mem_singleton.mp hg
    subst hfx
    refine ⟨?_, hdel x⟩
    intro heq
    obtain ⟨a, t, ht, hseq⟩ := hstart x heq
    exact (h.dead x hf).2 a t ht hseq

end History

/-! ### `insert` and `addTimerInLoop` -/

/-- `timers_` and `activeTimers_` with the timer at `a` added. -/
def withTimer (q : TimerQueue) (a : Address) (t : Timer) : TimerQueue :=
  { q with
    timers_ := q.timers_.insert (entry t.expiration_ a)
    activeTimers_ := q.activeTimers_.insert (activeTimer a t.sequence_) }

theorem Sets.notMem_timers (h : Sets q (a :: others)) (w : Timestamp) : entry w a ∉ q.timers_ :=
  fun hmem => h.notMem_addresses (List.mem_map.mpr ⟨_, hmem, rfl⟩)

theorem Sets.notMem_active (h : Sets q (a :: others)) (x : Int) :
    activeTimer a x ∉ q.activeTimers_ := by
  intro hmem
  obtain ⟨t, -, -, he⟩ := h.mem_active.mp hmem
  exact h.notMem_timers _ he

/-- The queue takes over a timer that somebody else held. -/
theorem Sets.withTimer (h : Sets q (a :: others)) (ht : q.heap a = some t) :
    Sets (q.withTimer a t) others := by
  have htimers : (q.withTimer a t).timers_.toList.Perm (entry t.expiration_ a :: q.timers_.toList) :=
    SortedSet.insert_perm (h.notMem_timers _)
  have hactive := SortedSet.insert_perm (h.notMem_active t.sequence_)
  have haddr : (q.withTimer a t).addresses.Perm (a :: q.addresses) := htimers.map entryTimer
  constructor
  case ledger =>
    refine h.ledger.perm ?_
    exact List.perm_middle.trans (haddr.symm.append_right others)
  case keyed =>
    intro e he
    rcases List.mem_cons.mp (htimers.mem_iff.mp he) with rfl | he
    · exact ⟨t, ht, rfl⟩
    · exact h.keyed e he
  case active =>
    refine hactive.trans ?_
    refine List.Perm.trans ?_ (htimers.map _).symm
    have hself : (q.withTimer a t).activeOf (entry t.expiration_ a) = activeTimer a t.sequence_ := by
      show activeTimer a (q.sequenceAt a) = _
      rw [sequenceAt_eq ht]
    rw [List.map_cons, hself]
    exact h.active.cons _
  case bounded => exact h.bounded

/-- The set is in the order of the times. -/
theorem entryTime_mono {e f : Entry} (h : e ≤ f) : entryTime e ≤ entryTime f := by
  rcases Prod.Lex.le_iff.mp h with hlt | ⟨heq, -⟩
  · exact le_of_lt hlt
  · exact le_of_eq heq

/-- `insert` passes its asserts when the timer is not in the queue, and it
says whether the timer is earlier than all others. -/
theorem insert_eq (h : Sets q (a :: others)) (ht : q.heap a = some t) :
    ∃ changed, q.insert a = .ok (q.withTimer a t, changed) ∧
      (changed = true → ∀ e ∈ q.timers_.toList, t.expiration_ ≤ entryTime e) ∧
      (changed = false → ∃ e ∈ q.timers_.toList, entryTime e ≤ t.expiration_) := by
  have hsize : (q.timers_.insert (entry t.expiration_ a)).size =
      (q.activeTimers_.insert (activeTimer a t.sequence_)).size := (h.withTimer ht).size
  simp only [insert, assertThat_pos h.size, deref_eq ht, ok_bind, except_pure,
    assertThat_pos (h.notMem_timers t.expiration_), assertThat_pos (h.notMem_active t.sequence_)]
  rw [assertThat_pos hsize, ok_bind]
  refine ⟨_, rfl, ?_, ?_⟩
  · intro hchanged e he
    cases hhead : q.timers_.toList.head? with
    | none =>
        rw [List.head?_eq_none_iff.mp hhead] at he
        cases he
    | some it =>
        rw [hhead] at hchanged
        have hlt : t.expiration_ < entryTime it := of_decide_eq_true hchanged
        exact le_trans (le_of_lt hlt) (entryTime_mono (SortedSet.head_le hhead he))
  · intro hchanged
    cases hhead : q.timers_.toList.head? with
    | none =>
        rw [hhead] at hchanged
        cases hchanged
    | some it =>
        rw [hhead] at hchanged
        exact ⟨it, List.mem_of_mem_head? hhead, not_lt.mp (of_decide_eq_false hchanged)⟩

/-- `addTimerInLoop` takes the timer from its owner into the sets. -/
theorem addTimerInLoop_spec {clock : Timestamp} (h : Sets q (a :: others)) :
    Returns (q.addTimerInLoop a clock) fun q' => Sets q' others ∧ Frame q q' := by
  obtain ⟨t, ht⟩ := h.get List.mem_cons_self
  obtain ⟨changed, hins, -⟩ := insert_eq h ht
  have hsets := h.withTimer ht
  simp only [addTimerInLoop, hins, ok_bind]
  split
  · rw [deref_eq (show (q.withTimer a t).heap a = some t from ht)]
    exact ⟨hsets.of_eq rfl rfl rfl, rfl, rfl, rfl, rfl⟩
  · exact ⟨hsets, rfl, rfl, rfl, rfl⟩

/-! ### `cancelInLoop` -/

/-- The timer at `a` taken out of the two sets and deleted. -/
def withoutTimer (q : TimerQueue) (a : Address) (t : Timer) : TimerQueue :=
  { q with
    timers_ := q.timers_.erase (entry t.expiration_ a)
    activeTimers_ := q.activeTimers_.erase (activeTimer a t.sequence_)
    heap := Function.update q.heap a none
    log := q.log ++ [.deleted t.sequence_] }

/-- A timer that is erased from both sets and deleted. -/
theorem Sets.withoutTimer (h : Sets q others) (ht : q.heap a = some t)
    (hmem : entry t.expiration_ a ∈ q.timers_) : Sets (q.withoutTimer a t) others := by
  have htimers : q.timers_.toList.Perm
      (entry t.expiration_ a :: (q.withoutTimer a t).timers_.toList) := SortedSet.erase_perm hmem
  have haddr : q.addresses.Perm (a :: (q.withoutTimer a t).addresses) := htimers.map entryTimer
  have hledger := (h.ledger.perm (haddr.append_right others)).free
  -- An address is in `timers_` once, so no other entry reads the freed cell.
  have hne : ∀ e ∈ (q.withoutTimer a t).timers_.toList, entryTimer e ≠ a := by
    intro e he heq
    have hnodup := (h.ledger.perm (haddr.append_right others)).nodup
    refine (List.nodup_cons.mp hnodup).1 (List.mem_append_left _ ?_)
    exact List.mem_map.mpr ⟨e, he, heq⟩
  constructor
  case ledger => exact hledger
  case keyed =>
    intro e he
    obtain ⟨u, hu, hkey⟩ := h.keyed e (SortedSet.mem_of_mem_erase he)
    exact ⟨u, (Function.update_of_ne (hne e he) _ _).trans hu, hkey⟩
  case active =>
    have hself : q.activeOf (entry t.expiration_ a) = activeTimer a t.sequence_ := by
      show activeTimer a (q.sequenceAt a) = _
      rw [sequenceAt_eq ht]
    have hmap := h.active.trans (htimers.map q.activeOf)
    rw [List.map_cons, hself] at hmap
    refine (SortedSet.perm_erase hmap).trans (List.Perm.of_eq ?_)
    refine (map_activeOf_congr ?_).symm
    intro e he
    simp [sequenceAt, TimerQueue.withoutTimer, hne e he]
  case bounded =>
    intro b u hu
    rcases update_cases hu with ⟨-, hnone⟩ | ⟨-, hold⟩
    · cases hnone
    · exact h.bounded b u hold

/-- What `cancelInLoop` does when the timer is not in `activeTimers_`. -/
def withCanceling (q : TimerQueue) (id : TimerId) : TimerQueue :=
  if q.callingExpiredTimers_ then
    { q with cancelingTimers_ := q.cancelingTimers_.insert (activeTimer id.timer_ id.sequence_) }
  else q

/-- It only changes `cancelingTimers_`. -/
theorem withCanceling_eq (q : TimerQueue) (id : TimerId) :
    ∃ canceling, q.withCanceling id = { q with cancelingTimers_ := canceling } := by
  unfold withCanceling
  split
  · exact ⟨_, rfl⟩
  · exact ⟨q.cancelingTimers_, rfl⟩

/-- `cancelInLoop` deletes the timer of the id when `timers_` has it, and
touches no other timer. -/
theorem cancelInLoop_cases (h : Sets q others) (id : TimerId) :
    (∃ t, q.heap id.timer_ = some t ∧ t.sequence_ = id.sequence_ ∧
      entry t.expiration_ id.timer_ ∈ q.timers_ ∧
      q.cancelInLoop id = .ok ((q.withoutTimer id.timer_ t).emit (.canceled id))) ∨
    (activeTimer id.timer_ id.sequence_ ∉ q.activeTimers_ ∧
      q.cancelInLoop id = .ok ((q.withCanceling id).emit (.canceled id))) := by
  by_cases hmem : activeTimer id.timer_ id.sequence_ ∈ q.activeTimers_
  · obtain ⟨t, ht, hseq, he⟩ := h.mem_active.mp hmem
    left
    refine ⟨t, ht, hseq, he, ?_⟩
    have hsize : (q.timers_.erase (entry t.expiration_ id.timer_)).size =
        (q.activeTimers_.erase (activeTimer id.timer_ t.sequence_)).size :=
      (h.withoutTimer ht he).size
    simp only [cancelInLoop, assertThat_pos h.size, ok_bind, if_pos hmem, deref_eq ht,
      assertThat_pos he]
    have hdel := delete_eq (a := id.timer_) (t := t)
      (q := { q with timers_ := q.timers_.erase (entry t.expiration_ id.timer_) }) ht
    rw [hdel, ok_bind, ← hseq, assertThat_pos hsize]
    rfl
  · right
    refine ⟨hmem, ?_⟩
    have hsize : (q.withCanceling id).timers_.size = (q.withCanceling id).activeTimers_.size := by
      obtain ⟨canceling, heq⟩ := q.withCanceling_eq id
      rw [heq]
      exact h.size
    simp only [cancelInLoop, assertThat_pos h.size, ok_bind, if_neg hmem]
    rw [← withCanceling, assertThat_pos hsize]
    rfl

theorem History.canceled {heap : Address → Option Timer} {log : List Effect}
    (h : History heap log n) (id : TimerId) : History heap (log ++ [.canceled id]) n :=
  h.emit (by simp) (by simp)

/-- Cancelling keeps the sets in order, whether the timer is in them, in the batch or gone. -/
theorem cancelInLoop_spec (id : TimerId) (h : Sets q others) (hist : History q.heap q.log n) :
    Returns (q.cancelInLoop id) fun q' => Sets q' others ∧ History q'.heap q'.log n ∧
      q'.callingExpiredTimers_ = q.callingExpiredTimers_ := by
  rcases cancelInLoop_cases h id with ⟨t, ht, -, he, heq⟩ | ⟨-, heq⟩
  · rw [heq]
    exact ⟨(h.withoutTimer ht he).of_eq rfl rfl rfl, (hist.free ht).canceled id, rfl⟩
  · obtain ⟨canceling, hsame⟩ := q.withCanceling_eq id
    rw [heq, hsame]
    exact ⟨h.of_eq rfl rfl rfl, hist.canceled id, rfl⟩

/-! ### `getExpired` -/

/-- The loop of `getExpired`: it takes the timers of `l` out of
`activeTimers_` and leaves those of `rest`. -/
theorem eraseActive_loop (l rest : List Entry)
    (hlive : ∀ e ∈ l, ∃ t, q.heap (entryTimer e) = some t)
    (hactive : q.activeTimers_.toList.Perm ((l ++ rest).map q.activeOf)) :
    ∃ active, l.foldlM eraseActive q = .ok { q with activeTimers_ := active } ∧
      active.toList.Perm (rest.map q.activeOf) := by
  induction l generalizing q with
  | nil => exact ⟨q.activeTimers_, rfl, hactive⟩
  | cons e l ih =>
      obtain ⟨t, ht⟩ := hlive e List.mem_cons_self
      have hself : q.activeOf e = activeTimer (entryTimer e) t.sequence_ := by
        rw [activeOf, sequenceAt_eq ht]
      have hmem : activeTimer (entryTimer e) t.sequence_ ∈ q.activeTimers_ := by
        rw [← hself]
        exact hactive.mem_iff.mpr List.mem_cons_self
      have hone : eraseActive q e = .ok
          { q with
            activeTimers_ := q.activeTimers_.erase (activeTimer (entryTimer e) t.sequence_) } := by
        simp only [eraseActive, deref_eq ht, ok_bind, assertThat_pos hmem, except_pure]
      rw [List.foldlM_cons, hone, ok_bind]
      -- `activeOf` does not read `activeTimers_`, so the rest is the same task.
      refine ih (fun e' he' => hlive e' (List.mem_cons_of_mem _ he')) ?_
      refine SortedSet.perm_erase ?_
      rw [List.cons_append, List.map_cons, hself] at hactive
      exact hactive

/-- What is not before the sentry expires later: the sentry has the largest address. -/
theorem lt_of_sentry_le {now : Timestamp} {e : Entry} (ha : entryTimer e < UINTPTR_MAX)
    (h : entry now UINTPTR_MAX ≤ e) : now < entryTime e := by
  rcases Prod.Lex.le_iff.mp h with hlt | ⟨-, hle⟩
  · exact hlt
  · exact absurd ha (not_lt.mpr hle)

/-- `getExpired` hands the expired timers to its caller. -/
theorem getExpired_spec (now : Timestamp) (h : Sets q others) :
    Returns (q.getExpired now) fun r =>
      Sets r.1 (r.2.map entryTimer ++ others) ∧ Frame q r.1 ∧
      r.1.timers_ = q.timers_.eraseBelow (entry now UINTPTR_MAX) ∧ r.1.timerfd = q.timerfd ∧
      r.2 = q.timers_.below (entry now UINTPTR_MAX) := by
  have hsplit := q.timers_.below_append (entry now UINTPTR_MAX)
  generalize hexp : q.timers_.below (entry now UINTPTR_MAX) = expired at hsplit
  generalize hrest : q.timers_.eraseBelow (entry now UINTPTR_MAX) = rest at hsplit
  -- The assert on the bound: what is left begins after the sentry.
  have hbound : ∀ e ∈ rest.toList.head?, now < entryTime e := by
    intro e he
    obtain ⟨t, ht, -⟩ := h.keyed e (by
      rw [← hsplit]
      exact List.mem_append_right _ (List.mem_of_mem_head? he))
    refine lt_of_sentry_le (h.bounded _ t ht) ?_
    rw [← hrest] at he
    exact SortedSet.le_head_eraseBelow he
  obtain ⟨active, hloop, hactive⟩ := eraseActive_loop (q := { q with timers_ := rest }) expired
    rest.toList
    (by
      intro e he
      obtain ⟨t, ht, -⟩ := h.keyed e (by
        rw [← hsplit]
        exact List.mem_append_left _ he)
      exact ⟨t, ht⟩)
    (by
      rw [hsplit]
      exact h.active)
  have hsets : Sets { q with timers_ := rest, activeTimers_ := active }
      (expired.map entryTimer ++ others) := by
    constructor
    case ledger =>
      refine h.ledger.perm ?_
      rw [addresses, ← hsplit, List.map_append, ← List.append_assoc]
      exact List.perm_append_comm.append_right others
    case keyed =>
      intro e he
      refine h.keyed e ?_
      rw [← hsplit]
      exact List.mem_append_right _ he
    case active => exact hactive
    case bounded => exact h.bounded
  have hsize : rest.size = active.size := hsets.size
  simp only [getExpired, assertThat_pos h.size, ok_bind, hexp, hrest, assertThat_pos hbound]
  rw [hloop, ok_bind, assertThat_pos hsize, ok_bind]
  exact ⟨hsets, ⟨rfl, rfl, rfl, rfl⟩, rfl, rfl, rfl⟩

/-! ### `reset` -/

/-- The two outcomes for a timer of the batch: it goes back into the queue
with a new expiration, or it is deleted. -/
theorem resetOne_cases (now : Timestamp) {e : Entry} (h : Sets q (entryTimer e :: others))
    (ht : q.heap (entryTimer e) = some t) :
    (t.repeat_ = true ∧ activeTimer (entryTimer e) t.sequence_ ∉ q.cancelingTimers_ ∧
      resetOne now q e = .ok ((q.store (entryTimer e) (t.restart now)).withTimer (entryTimer e)
        (t.restart now))) ∨
    (¬ (t.repeat_ = true ∧ activeTimer (entryTimer e) t.sequence_ ∉ q.cancelingTimers_) ∧
      resetOne now q e = .ok
        { q with
          heap := Function.update q.heap (entryTimer e) none
          log := q.log ++ [.deleted t.sequence_] }) := by
  by_cases hc : t.repeat_ = true ∧ activeTimer (entryTimer e) t.sequence_ ∉ q.cancelingTimers_
  · left
    refine ⟨hc.1, hc.2, ?_⟩
    have hcell : (q.store (entryTimer e) (t.restart now)).heap (entryTimer e) =
        some (t.restart now) := Function.update_self _ _ _
    obtain ⟨changed, hins, -⟩ := insert_eq (h.store ht (t.restart now)) hcell
    simp only [resetOne, deref_eq ht, ok_bind, if_pos hc, hins, except_pure]
  · right
    refine ⟨hc, ?_⟩
    simp only [resetOne, deref_eq ht, ok_bind, if_neg hc, delete_eq ht]

theorem restart_sequence (t : Timer) (now : Timestamp) :
    (t.restart now).sequence_ = t.sequence_ := by
  unfold Timer.restart
  split
  · rfl
  · rfl

/-- `reset` of the timers in `l`: every live timer was live before under
its sequence number, and none of `l` that was canceled is left. -/
structure Drained (q q' : TimerQueue) (l : List Entry) : Prop where
  calling : q'.callingExpiredTimers_ = q.callingExpiredTimers_
  canceling : q'.cancelingTimers_ = q.cancelingTimers_
  log : ∃ xs : List Int, q'.log = q.log ++ xs.map .deleted
  history : ∀ n, History q.heap q.log n → History q'.heap q'.log n
  survivor : ∀ b u, q'.heap b = some u → ∃ t, q.heap b = some t ∧ t.sequence_ = u.sequence_ ∧
    (b ∈ l.map entryTimer → activeTimer b t.sequence_ ∉ q.cancelingTimers_)

theorem Drained.nil (q : TimerQueue) : Drained q q [] where
  calling := rfl
  canceling := rfl
  log := ⟨[], by simp⟩
  history _ h := h
  survivor b u hu := ⟨u, hu, rfl, by simp⟩

theorem Drained.cons {q₁ : TimerQueue} {e : Entry} {l : List Entry} (h₁ : Drained q q₁ [e])
    (h₂ : Drained q₁ q' l) : Drained q q' (e :: l) where
  calling := h₂.calling.trans h₁.calling
  canceling := h₂.canceling.trans h₁.canceling
  log := by
    obtain ⟨xs, hxs⟩ := h₁.log
    obtain ⟨ys, hys⟩ := h₂.log
    exact ⟨xs ++ ys, by rw [hys, hxs, List.map_append, List.append_assoc]⟩
  history n h := h₂.history n (h₁.history n h)
  survivor b u hu := by
    obtain ⟨t₁, ht₁, hseq₁, hl⟩ := h₂.survivor b u hu
    obtain ⟨t, ht, hseq, he⟩ := h₁.survivor b t₁ ht₁
    refine ⟨t, ht, hseq.trans hseq₁, ?_⟩
    intro hmem
    rcases List.mem_cons.mp hmem with hb | hb
    · exact he (List.mem_singleton.mpr hb)
    · rw [hseq, ← h₁.canceling]
      exact hl hb

/-- One round of the loop of `reset`. -/
theorem resetOne_spec (now : Timestamp) {e : Entry} (h : Sets q (entryTimer e :: others)) :
    Returns (resetOne now q e) fun q' => Sets q' others ∧ Drained q q' [e] := by
  obtain ⟨t, ht⟩ := h.get List.mem_cons_self
  have hseq := restart_sequence t now
  rcases resetOne_cases now h ht with ⟨-, hkeep, heq⟩ | ⟨-, heq⟩
  · -- The timer repeats.
    rw [heq]
    refine ⟨(h.store ht _).withTimer (Function.update_self _ _ _), rfl, rfl, ⟨[], by simp; rfl⟩,
      fun n hn => hn.write ht hseq, ?_⟩
    intro b u hu
    rcases update_cases hu with ⟨rfl, hself⟩ | ⟨hb, hold⟩
    · cases hself
      exact ⟨t, ht, hseq.symm, fun _ => hkeep⟩
    · exact ⟨u, hold, rfl, fun hmem => absurd (List.mem_singleton.mp hmem) hb⟩
  · -- The timer is done or canceled.
    rw [heq]
    refine ⟨(h.free ht).of_eq rfl rfl rfl, rfl, rfl, ⟨[t.sequence_], rfl⟩, fun n hn => hn.free ht, ?_⟩
    intro b u hu
    rcases update_cases hu with ⟨-, hnone⟩ | ⟨hb, hold⟩
    · cases hnone
    · exact ⟨u, hold, rfl, fun hmem => absurd (List.mem_singleton.mp hmem) hb⟩

-- The induction is on the batch. Each round takes the first timer over from `others`.
/-- The loop of `reset`, by induction on the expired timers. -/
theorem reset_loop (now : Timestamp) (l : List Entry) (h : Sets q (l.map entryTimer ++ others)) :
    Returns (l.foldlM (resetOne now) q) fun q' => Sets q' others ∧ Drained q q' l := by
  induction l generalizing q with
  | nil => exact ⟨h, Drained.nil q⟩
  | cons e l ih =>
      rw [List.foldlM_cons]
      refine (resetOne_spec now h).bind ?_
      rintro q₁ ⟨h₁, hd₁⟩
      refine (ih h₁).imp ?_
      rintro q' ⟨h', hd'⟩
      exact ⟨h', hd₁.cons hd'⟩

/-- `reset` takes the timers of the batch back or deletes them. -/
theorem reset_spec (now clock : Timestamp) (l : List Entry)
    (h : Sets q (l.map entryTimer ++ others)) :
    Returns (q.reset l now clock) fun q' => Sets q' others ∧ Drained q q' l := by
  refine (reset_loop now l h).bind ?_
  rintro q' ⟨h', hd⟩
  split
  · exact ⟨h', hd⟩
  · -- The earliest timer is in the heap, so it can be read for the alarm.
    rename_i it hit
    obtain ⟨t, ht, -⟩ := h'.keyed it (List.mem_of_mem_head? hit)
    rw [deref_eq ht, ok_bind]
    split
    · exact ⟨h'.of_eq rfl rfl rfl, hd.calling, hd.canceling, hd.log, hd.history, hd.survivor⟩
    · exact ⟨h', hd⟩

end Muduo.Net.TimerQueue
