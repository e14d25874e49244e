import Mathlib.Algebra.BigOperators.Group.Finset.Piecewise
import Mathlib.Algebra.Order.BigOperators.Group.Finset
import Mathlib.Data.Fintype.Card

/-!
# `Muduo.Lib.Threads`: threads on condition variables

A family of threads is a function from their names to their local states. A
step of one thread is a `Function.update`. `count A f` is the number of
threads whose local state has the property `A`, and `count_update` says how
the step of one thread changes it. The rules below it are its cases.

`Waits` is the place of a thread in a function that waits on a condition
variable in a loop. It is asleep, it has been notified, or it has woken by
itself. In the last two cases it has still to take the mutex and to look at
its condition again.

`notify` is `pthread_cond_signal`. Which of the sleeping threads it wakes is
up to the system: a `pick` is any of them, and none only when all are awake.
`notifyAll` is `pthread_cond_broadcast`.
-/

set_option autoImplicit false

namespace Muduo.Lib

variable {τ σ α : Type}

/-! ### Counting threads -/

section

variable [Fintype τ]

/-- The number of threads whose local state has the property `A`. -/
def count (A : σ → Bool) (f : τ → σ) : Nat := (Finset.univ.filter fun t => A (f t) = true).card

theorem count_eq_sum (A : σ → Bool) (f : τ → σ) : count A f = ∑ t, (A (f t)).toNat := by
  rw [count, Finset.card_filter]
  refine Finset.sum_congr rfl fun t _ => ?_
  cases A (f t) with
  | true => rfl
  | false => rfl

/-- The count is positive when some thread is in `A`. -/
theorem count_pos_iff {A : σ → Bool} {f : τ → σ} : 0 < count A f ↔ ∃ t, A (f t) = true := by
  rw [count, Finset.card_pos]
  constructor
  · intro h
    obtain ⟨t, ht⟩ := h
    exact ⟨t, (Finset.mem_filter.mp ht).2⟩
  · intro h
    obtain ⟨t, ht⟩ := h
    exact ⟨t, Finset.mem_filter.mpr ⟨Finset.mem_univ t, ht⟩⟩

theorem count_eq_zero_iff {A : σ → Bool} {f : τ → σ} : count A f = 0 ↔ ∀ t, A (f t) = false := by
  have h := @count_pos_iff τ σ _ A f
  constructor
  · intro hzero t
    cases ht : A (f t) with
    | false => rfl
    | true =>
        have hpos := h.mpr ⟨t, ht⟩
        omega
  · intro hall
    by_contra hne
    obtain ⟨t, ht⟩ := h.mp (Nat.pos_of_ne_zero hne)
    rw [hall t] at ht
    cases ht

/-- Threads that differ in other ways only. -/
theorem count_congr {A : σ → Bool} {f g : τ → σ} (h : ∀ t, A (g t) = A (f t)) :
    count A g = count A f := by
  rw [count_eq_sum, count_eq_sum]
  exact Finset.sum_congr rfl fun t _ => by rw [h t]

variable [DecidableEq τ]

/-- The step of one thread: its old state is counted no more, and its new
state is. -/
theorem count_update (A : σ → Bool) (f : τ → σ) (t : τ) (v : σ) :
    count A (Function.update f t v) + (A (f t)).toNat = count A f + (A v).toNat := by
  have hother : ∀ u ∈ Finset.univ.erase t,
      (A (Function.update f t v u)).toNat = (A (f u)).toNat := by
    intro u hu
    rw [Function.update_of_ne (Finset.ne_of_mem_erase hu)]
  rw [count_eq_sum, count_eq_sum, ← Finset.add_sum_erase _ _ (Finset.mem_univ t),
    ← Finset.add_sum_erase _ (fun u => (A (f u)).toNat) (Finset.mem_univ t),
    Finset.sum_congr rfl hother, Function.update_self]
  omega

/-- A thread that neither enters nor leaves `A` keeps the number. -/
theorem count_stay {A : σ → Bool} {f : τ → σ} {t : τ} {v : σ} (h : A v = A (f t)) :
    count A (Function.update f t v) = count A f := by
  have hstep := count_update A f t v
  rw [h] at hstep
  omega

/-- A thread that enters `A` adds one. -/
theorem count_enter {A : σ → Bool} {f : τ → σ} {t : τ} {v : σ} (h : A (f t) = false)
    (hv : A v = true) : count A (Function.update f t v) = count A f + 1 := by
  have hstep := count_update A f t v
  rw [h, hv] at hstep
  exact hstep

/-- A thread that leaves `A` takes one away. -/
theorem count_leave {A : σ → Bool} {f : τ → σ} {t : τ} {v : σ} (h : A (f t) = true)
    (hv : A v = false) : count A (Function.update f t v) + 1 = count A f := by
  have hstep := count_update A f t v
  rw [h, hv] at hstep
  exact hstep

end

/-! ### Waiting -/

/-- The place of a thread in a function that waits, with the argument of the
call. -/
inductive Waits (α : Type) where
  | outside
  /-- Asleep in `pthread_cond_wait`. -/
  | asleep (a : α)
  | notified (a : α)
  /-- Awake without a notification. -/
  | woken (a : α)
  deriving DecidableEq, Repr

namespace Waits

def isAsleep : Waits α → Bool
  | .asleep _ => true
  | _ => false

def isNotified : Waits α → Bool
  | .notified _ => true
  | _ => false

/-- The thread is in a call of the function. -/
def isInside : Waits α → Bool
  | .outside => false
  | _ => true

/-- The argument of a thread that has to look at its condition again. -/
def recheck : Waits α → Option α
  | .notified a => some a
  | .woken a => some a
  | _ => none

/-- What a notification makes of a sleeping thread. -/
def wake : Waits α → Waits α
  | .asleep a => .notified a
  | w => w

/-- A spurious wakeup. -/
def spurious : Waits α → Waits α
  | .asleep a => .woken a
  | w => w

variable {w : Waits α} {a : α}

/-- A thread that has to look again, or that is not in the function, is
awake. -/
theorem awake_of_recheck (h : w.recheck = some a) : w.isAsleep = false := by
  cases w with
  | asleep b => cases h
  | outside | notified b | woken b => rfl

theorem awake_of_outside (h : (!w.isInside) = true) : w.isAsleep = false := by
  cases w with
  | outside => rfl
  | asleep b | notified b | woken b => cases h

/-- A notified thread looks again. -/
theorem recheck_of_notified (h : w.isNotified = true) : ∃ a, w.recheck = some a := by
  cases w with
  | notified a => exact ⟨a, rfl⟩
  | outside | asleep a | woken a => cases h

/-- A thread that sleeps is in the function, and so is one that is notified. -/
theorem count_asleep_add_notified_le [Fintype τ] (f : τ → Waits α) :
    count isAsleep f + count isNotified f ≤ count isInside f := by
  rw [count_eq_sum, count_eq_sum, count_eq_sum, ← Finset.sum_add_distrib]
  refine Finset.sum_le_sum fun t _ => ?_
  cases f t with
  | outside | asleep a | notified a => exact Nat.le_refl _
  | woken a => exact Nat.zero_le _

end Waits

/-- `pthread_cond_signal` can wake this thread, or nobody when nobody is
asleep. -/
def picks [Fintype τ] (asleep : σ → Bool) (f : τ → σ) : Option τ → Bool
  | some t => asleep (f t)
  | none => decide (∀ t, asleep (f t) = false)

/-- A notification can always be delivered: to a sleeping thread, or to none if none sleeps. -/
theorem exists_picks [Fintype τ] (asleep : σ → Bool) (f : τ → σ) :
    ∃ pick, picks asleep f pick = true := by
  by_cases h : ∀ t, asleep (f t) = false
  · exact ⟨none, decide_eq_true h⟩
  · obtain ⟨t, ht⟩ := not_forall.mp h
    exact ⟨some t, Bool.not_eq_false _ ▸ ht⟩

/-- `pthread_cond_signal`, for threads with local states of any kind. -/
def notify [DecidableEq τ] (wake : σ → σ) (f : τ → σ) : Option τ → τ → σ
  | some t => Function.update f t (wake (f t))
  | none => f

/-- `pthread_cond_broadcast`. -/
def notifyAll (wake : σ → σ) (f : τ → σ) : τ → σ := fun t => wake (f t)

section

variable [Fintype τ] {A : σ → Bool} {wake : σ → σ}

/-- Notifications change no count of what they do not change. -/
theorem count_notify [DecidableEq τ] (h : ∀ v, A (wake v) = A v) (f : τ → σ) (pick : Option τ) :
    count A (notify wake f pick) = count A f := by
  cases pick with
  | none => rfl
  | some t => exact count_stay (h (f t))

theorem count_notifyAll (h : ∀ v, A (wake v) = A v) (f : τ → σ) :
    count A (notifyAll wake f) = count A f := count_congr fun t => h (f t)

end

/-- What holds of every thread, and of a thread that is notified. -/
theorem forall_notify [DecidableEq τ] {P : σ → Prop} {wake : σ → σ} (hwake : ∀ v, P v → P (wake v))
    {f : τ → σ} (h : ∀ t, P (f t)) (pick : Option τ) (t : τ) : P (notify wake f pick t) := by
  cases pick with
  | none => exact h t
  | some u =>
      show P (Function.update f u (wake (f u)) t)
      by_cases htu : t = u
      · rw [htu, Function.update_self]
        exact hwake _ (h u)
      · rw [Function.update_of_ne htu]
        exact h t

/-! ### A part of the local states -/

section

variable {ρ : Type} {view : σ → ρ} {wake : σ → σ} {wake' : ρ → ρ}

/-- A notification, seen through a part of the local states. -/
theorem notify_view [DecidableEq τ] (h : ∀ v, view (wake v) = wake' (view v)) (f : τ → σ)
    (pick : Option τ) : view ∘ notify wake f pick = notify wake' (view ∘ f) pick := by
  cases pick with
  | none => rfl
  | some t =>
      show view ∘ Function.update f t (wake (f t)) = _
      rw [Function.comp_update, h]
      rfl

end

/-! ### No lost wakeup -/

section

variable [Fintype τ]

/-- There are `n` units of what the threads wait for, and a thread that
sleeps has been overtaken by enough notifications: as many threads are
notified, and have still to look, as there are units. -/
def Covered (n : Nat) (f : τ → Waits α) : Prop :=
  0 < count Waits.isAsleep f → n ≤ count Waits.isNotified f

/-- Without units nothing is owed. So a thread that finds none may sleep. -/
theorem covered_zero (f : τ → Waits α) : Covered 0 f := fun _ => Nat.zero_le _

/-- Nothing is owed to threads that are awake. -/
theorem covered_of_awake {n : Nat} {f : τ → Waits α} (h : ∀ t, (f t).isAsleep = false) :
    Covered n f := by
  intro hpos
  have hzero := count_eq_zero_iff.mpr h
  omega

/-- While there are units, a sleeping thread is not the only one that could
take them. -/
theorem Covered.exists_notified {n : Nat} {f : τ → Waits α} (h : Covered n f) {t : τ}
    (ht : (f t).isAsleep = true) (hn : 0 < n) : ∃ u, (f u).isNotified = true := by
  have hle := h (count_pos_iff.mpr ⟨t, ht⟩)
  exact count_pos_iff.mp (by omega)

variable [DecidableEq τ]

/-- A unit is added, and one thread is notified. -/
theorem Covered.notify {n : Nat} {f : τ → Waits α} {pick : Option τ} (h : Covered n f)
    (hpick : picks Waits.isAsleep f pick = true) : Covered (n + 1) (notify Waits.wake f pick) := by
  cases pick with
  | none =>
      -- Nobody is asleep, so nobody has to be notified.
      intro hpos
      have hzero := count_eq_zero_iff.mpr (of_decide_eq_true hpick)
      have hsame : 0 < count Waits.isAsleep f := hpos
      omega
  | some t =>
      intro _
      have ht : (f t).isAsleep = true := hpick
      have hle := h (count_pos_iff.mpr ⟨t, ht⟩)
      cases hf : f t with
      | asleep a =>
          have hcount : count Waits.isNotified (Function.update f t (Waits.wake (f t)))
              = count Waits.isNotified f + 1 := by
            rw [hf]
            exact count_enter (by rw [hf]; rfl) rfl
          show n + 1 ≤ count Waits.isNotified (Function.update f t (Waits.wake (f t)))
          omega
      | outside | notified a | woken a =>
          rw [hf] at ht
          cases ht

/-- A thread that is awake takes a unit and leaves. It may have been notified
or not. -/
theorem Covered.leave {n : Nat} {f : τ → Waits α} {t : τ} (h : Covered (n + 1) f)
    (ht : (f t).isAsleep = false) : Covered n (Function.update f t .outside) := by
  intro hpos
  rw [count_stay (by rw [ht]; rfl)] at hpos
  have hle := h hpos
  have hstep := count_update Waits.isNotified f t Waits.outside
  have hold := Bool.toNat_le (f t).isNotified
  omega

/-- A thread wakes without a notification. -/
theorem Covered.spurious {n : Nat} {f : τ → Waits α} {t : τ} (h : Covered n f) :
    Covered n (Function.update f t (f t).spurious) := by
  intro hpos
  have hnotified : count Waits.isNotified (Function.update f t (f t).spurious)
      = count Waits.isNotified f := by
    refine count_stay ?_
    cases f t with
    | asleep a => rfl
    | outside => rfl
    | notified a => rfl
    | woken a => rfl
  rw [hnotified]
  refine h ?_
  have hstep := count_update Waits.isAsleep f t (f t).spurious
  have hnone : (f t).spurious.isAsleep = false := by
    cases f t with
    | asleep a => rfl
    | outside => rfl
    | notified a => rfl
    | woken a => rfl
  rw [hnone] at hstep
  have hzero : Bool.toNat false = 0 := rfl
  omega

end

end Muduo.Lib
