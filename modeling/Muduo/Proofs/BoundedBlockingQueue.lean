import Muduo.Base.BoundedBlockingQueue
import Muduo.Lib.Outcome

/-!
# `Muduo.Proofs.BoundedBlockingQueue`: first in, first out, and nobody forgotten

What `take` has returned, followed by what is in the queue, is what was put.
That is the order of the values.

The wakeups are the same argument twice. Takers wait for elements, and putters
wait for free places. Each `put` adds one element and notifies one taker. Each
`take` adds one free place and notifies one putter. So both families are
`Covered`: a thread that sleeps has at least as many notified threads before
it as there are units it could take. A thread that overtakes them takes a
unit, and leaves no more notifications than units.

`put` notifies also when the queue was not empty before. Were it to notify
only then, a second `put` before the notified taker has looked would leave
another taker asleep with an element in the queue.
-/

set_option autoImplicit false

namespace Muduo.Base.BoundedBlockingQueue

open Muduo.Lib

variable {T π κ : Type} [Fintype π] [Fintype κ] [DecidableEq π] [DecidableEq κ]
  {s : BoundedBlockingQueue T π κ} {maxSize : Nat}

structure Inv (maxSize : Nat) (s : BoundedBlockingQueue T π κ) : Prop where
  capacity : s.capacity = maxSize
  order : s.takes ++ s.queue_ = s.puts
  bound : s.queue_.length ≤ maxSize
  takers : Covered s.queue_.length s.takers
  putters : Covered (maxSize - s.queue_.length) s.putters

omit [DecidableEq π] [DecidableEq κ] in
theorem inv_init (maxSize : Nat) : Inv maxSize (init T π κ maxSize) where
  capacity := rfl
  order := rfl
  bound := Nat.zero_le _
  takers := covered_zero _
  putters := covered_of_awake fun _ => rfl

omit [Fintype π] [Fintype κ] [DecidableEq π] [DecidableEq κ] in
theorem full_iff : s.full = true ↔ s.queue_.length = s.capacity := beq_iff_eq

/-- What a critical section of `put` does, by a thread that is awake. -/
theorem put_spec (h : Inv maxSize s) {t : π} (ht : (s.putters t).isAsleep = false) (x : T)
    {pick : Option κ} (hpick : picks Waits.isAsleep s.takers pick = true) :
    Returns (s.put t x pick) fun s' => Inv maxSize s' ∧
      (s.queue_.length < maxSize → s'.puts = s.puts ++ [x]) := by
  rw [put]
  cases hfull : s.full with
  | true =>
      -- It goes to sleep, and there is no free place it could have taken.
      have hlen := full_iff.mp hfull
      rw [h.capacity] at hlen
      refine Ends.ok ⟨⟨h.capacity, h.order, h.bound, h.takers, ?_⟩, fun hlt => by omega⟩
      show Covered (maxSize - s.queue_.length) _
      rw [hlen, Nat.sub_self]
      exact covered_zero _
  | false =>
      have hlt : s.queue_.length < maxSize := by
        have hne : s.queue_.length ≠ s.capacity := fun heq => by
          rw [full_iff.mpr heq] at hfull
          cases hfull
        rw [h.capacity] at hne
        have hbound := h.bound
        omega
      have hlength : (s.queue_ ++ [x]).length = s.queue_.length + 1 := by
        rw [List.length_append, List.length_singleton]
      refine Ends.ok ⟨⟨h.capacity, ?_, ?_, ?_, ?_⟩, fun _ => rfl⟩
      · show s.takes ++ (s.queue_ ++ [x]) = s.puts ++ [x]
        rw [← List.append_assoc, h.order]
      · show (s.queue_ ++ [x]).length ≤ maxSize
        omega
      · show Covered (s.queue_ ++ [x]).length _
        rw [hlength]
        exact h.takers.notify hpick
      · show Covered (maxSize - (s.queue_ ++ [x]).length) _
        have hfree : maxSize - s.queue_.length = maxSize - (s.queue_.length + 1) + 1 := by omega
        have hputters := h.putters
        rw [hfree] at hputters
        rw [hlength]
        exact hputters.leave ht

/-- What a critical section of `take` does, by a thread that is awake. -/
theorem take_spec (h : Inv maxSize s) {t : κ} (ht : (s.takers t).isAsleep = false)
    {pick : Option π} (hpick : picks Waits.isAsleep s.putters pick = true) :
    Returns (s.take t pick) fun s' => Inv maxSize s' ∧
      (s.queue_ ≠ [] → s'.takes.length = s.takes.length + 1) := by
  rw [take, empty]
  cases hq : s.queue_ with
  | nil =>
      -- It goes to sleep, and there is no element it could have taken.
      have horder := h.order
      have hbound := h.bound
      have hputters := h.putters
      rw [hq] at horder hbound hputters
      exact Ends.ok ⟨⟨h.capacity, horder, hbound, covered_zero _, hputters⟩,
        fun hne => absurd rfl hne⟩
  | cons front rest =>
      have hlength : s.queue_.length = rest.length + 1 := by rw [hq]; rfl
      have hbound := h.bound
      refine Ends.ok ⟨⟨h.capacity, ?_, ?_, ?_, ?_⟩, fun _ => ?_⟩
      · show s.takes ++ [front] ++ rest = s.puts
        rw [← h.order, hq, List.append_assoc]
        rfl
      · show rest.length ≤ maxSize
        omega
      · show Covered rest.length _
        have htakers := h.takers
        rw [hlength] at htakers
        exact htakers.leave ht
      · show Covered (maxSize - rest.length) _
        have hfree : maxSize - rest.length = maxSize - s.queue_.length + 1 := by omega
        rw [hfree]
        exact h.putters.notify hpick
      · show (s.takes ++ [front]).length = _
        rw [List.length_append, List.length_singleton]

theorem step_inv (h : Inv maxSize s) {e : Event T π κ} (hen : enabled s e = true) :
    Returns (step s e) (Inv maxSize) := by
  cases e with
  | put t x pick =>
      obtain ⟨hout, hpick⟩ := Bool.and_eq_true_iff.mp hen
      exact (put_spec h (Waits.awake_of_outside hout) x hpick).imp fun _ hs => hs.1
  | putAgain t pick =>
      obtain ⟨hsome, hpick⟩ := Bool.and_eq_true_iff.mp hen
      obtain ⟨x, hx⟩ := Option.isSome_iff_exists.mp hsome
      rw [step, hx]
      exact (put_spec h (Waits.awake_of_recheck hx) x hpick).imp fun _ hs => hs.1
  | putWakes t => exact Ends.ok ⟨h.capacity, h.order, h.bound, h.takers, h.putters.spurious⟩
  | take t pick =>
      obtain ⟨hout, hpick⟩ := Bool.and_eq_true_iff.mp hen
      exact (take_spec h (Waits.awake_of_outside hout) hpick).imp fun _ hs => hs.1
  | takeAgain t pick =>
      obtain ⟨hsome, hpick⟩ := Bool.and_eq_true_iff.mp hen
      obtain ⟨x, hx⟩ := Option.isSome_iff_exists.mp hsome
      rw [step, hx]
      exact (take_spec h (Waits.awake_of_recheck hx) hpick).imp fun _ hs => hs.1
  | takeWakes t => exact Ends.ok ⟨h.capacity, h.order, h.bound, h.takers.spurious, h.putters⟩

/-- In every run the values come out in the order in which they went in, and
the queue has never more than `maxSize` elements. While a taker sleeps, there
are at most as many elements as notified takers that have still to look, and
while a putter sleeps, at most as many free places as notified putters. So
when a thread sleeps although it could go on, another thread has been
notified that goes on in its place. No `assert` fails. -/
theorem bounded_fifo {es : List (Event T π κ)}
    (hrun : (machine T π κ).Run (init T π κ maxSize) es s) :
    s.takes <+: s.puts ∧ s.queue_.length ≤ maxSize ∧
    ((∃ t, (s.takers t).isAsleep = true) →
      s.queue_.length ≤ count Waits.isNotified s.takers) ∧
    ((∃ t, (s.putters t).isAsleep = true) →
      maxSize - s.queue_.length ≤ count Waits.isNotified s.putters) ∧
    ((∃ t, (s.takers t).isAsleep = true) → s.queue_ ≠ [] →
      ∃ u pick, (s.takers u).isNotified = true ∧ (machine T π κ).enabled s (.takeAgain u pick) ∧
        Returns ((machine T π κ).step s (.takeAgain u pick))
          fun s' => s'.takes.length = s.takes.length + 1) ∧
    ((∃ t, (s.putters t).isAsleep = true) → s.queue_.length < maxSize →
      ∃ u pick, (s.putters u).isNotified = true ∧ (machine T π κ).enabled s (.putAgain u pick) ∧
        Returns ((machine T π κ).step s (.putAgain u pick))
          fun s' => s'.puts.length = s.puts.length + 1) ∧
    ∀ e, (machine T π κ).enabled s e → ∃ s', (machine T π κ).step s e = .ok s' := by
  have h : Inv maxSize s := by
    refine hrun.invariant (inv_init maxSize) fun t e u ht hen hstep => ?_
    exact (step_inv ht hen).post hstep
  refine ⟨⟨s.queue_, h.order⟩, h.bound, fun hsleep => h.takers (count_pos_iff.mpr hsleep),
    fun hsleep => h.putters (count_pos_iff.mpr hsleep), ?_, ?_, ?_⟩
  · intro hsleep hne
    obtain ⟨t, ht⟩ := hsleep
    obtain ⟨u, hu⟩ := h.takers.exists_notified ht (List.length_pos_iff.mpr hne)
    obtain ⟨a, ha⟩ := Waits.recheck_of_notified hu
    obtain ⟨pick, hpick⟩ := exists_picks Waits.isAsleep s.putters
    refine ⟨u, pick, hu, Bool.and_eq_true_iff.mpr ⟨by rw [ha]; rfl, hpick⟩, ?_⟩
    show Returns (step s (.takeAgain u pick)) _
    rw [step, ha]
    exact (take_spec h (Waits.awake_of_recheck ha) hpick).imp fun _ hs => hs.2 hne
  · intro hsleep hlt
    obtain ⟨t, ht⟩ := hsleep
    obtain ⟨u, hu⟩ := h.putters.exists_notified ht (by omega)
    obtain ⟨x, hx⟩ := Waits.recheck_of_notified hu
    obtain ⟨pick, hpick⟩ := exists_picks Waits.isAsleep s.takers
    refine ⟨u, pick, hu, Bool.and_eq_true_iff.mpr ⟨by rw [hx]; rfl, hpick⟩, ?_⟩
    show Returns (step s (.putAgain u pick)) _
    rw [step, hx]
    refine (put_spec h (Waits.awake_of_recheck hx) x hpick).imp fun s' hs => ?_
    rw [hs.2 hlt, List.length_append, List.length_singleton]
  · intro e hen
    obtain ⟨s', hstep, _⟩ := (step_inv h hen).exists_ok
    exact ⟨s', hstep⟩

/-- A taker sleeps. A value is put, and another taker comes before the
notified one, which sleeps again. -/
theorem bounded_fifo_overtaken :
    ∃ s, (machine Nat (Fin 1) (Fin 2)).Run (init Nat (Fin 1) (Fin 2) 1)
        [.take 0 none, .put 0 7 (some 0), .take 1 none, .takeAgain 0 none] s ∧
      (s.takers 0).isAsleep = true ∧ s.takes <+: s.puts := by
  have hexec : ((machine Nat (Fin 1) (Fin 2)).exec (init Nat (Fin 1) (Fin 2) 1)
      [.take 0 none, .put 0 7 (some 0), .take 1 none, .takeAgain 0 none]).map
      (fun s => (s.takers 0).isAsleep) = some true := by
    decide
  obtain ⟨s, hrun, hasleep⟩ := Machine.exists_run_of_exec hexec
  exact ⟨s, hrun, hasleep, (bounded_fifo hrun).1⟩

end Muduo.Base.BoundedBlockingQueue
