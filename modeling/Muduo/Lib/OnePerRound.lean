import Mathlib.Data.List.Basic

/-!
# `Muduo.Lib.OnePerRound`: jobs that are taken one in a round

There are `k` jobs, and job `j` can be taken from time `E j` on. A round at
time `p` takes the next job if it can be taken, and no second one.
`taken E k s ps` is the number of jobs that are taken after the rounds at
the times `ps`, from `s` on.

`taken_eq_iff` says when all jobs are taken: for every job there must be as
many rounds from its time on as there are jobs from it on. A round that
comes when several jobs can be taken leaves the others to later rounds, so
what decides is the number of rounds behind a time, not their distance.
-/

set_option autoImplicit false

namespace Muduo.Lib

variable {E : Nat → Nat} {k s : Nat} {ps : List Nat}

/-- The number of jobs taken after a round at time `p`. -/
def takeOne (E : Nat → Nat) (k s p : Nat) : Nat := if s < k ∧ E s ≤ p then s + 1 else s

/-- The number of jobs taken after the rounds at the times `ps`. -/
def taken (E : Nat → Nat) (k s : Nat) (ps : List Nat) : Nat := ps.foldl (takeOne E k) s

/-- One more round takes one more item at most. -/
theorem taken_snoc (E : Nat → Nat) (k s : Nat) (ps : List Nat) (p : Nat) :
    taken E k s (ps ++ [p]) = takeOne E k (taken E k s ps) p := by
  rw [taken, List.foldl_append]
  rfl

/-- The next item is there by the end of the round, so it is taken. -/
theorem takeOne_of_ready {p : Nat} (hs : s < k) (hp : E s ≤ p) : takeOne E k s p = s + 1 :=
  if_pos ⟨hs, hp⟩

/-- There is no next item, or it comes later. -/
theorem takeOne_of_not_ready {p : Nat} (hp : ¬ (s < k ∧ E s ≤ p)) : takeOne E k s p = s :=
  if_neg hp

/-- No more is taken than there is. -/
theorem taken_le (hs : s ≤ k) (ps : List Nat) : taken E k s ps ≤ k := by
  induction ps generalizing s with
  | nil => exact hs
  | cons p ps ih =>
      show taken E k (takeOne E k s p) ps ≤ k
      apply ih
      rw [takeOne]
      split
      · next h => exact h.1
      · exact hs

/-- In a round that takes job `s`, enough rounds are left for the jobs from
`s` on exactly when enough are left for those behind it. -/
theorem rounds_of_ready (hE : ∀ i j, i ≤ j → j < k → E i ≤ E j) {p : Nat} (hs : s < k)
    (hp : E s ≤ p) (hps : ∀ q ∈ ps, p ≤ q) :
    (∀ j, s + 1 ≤ j → j < k → k - j ≤ ps.countP (fun q => E j ≤ q)) ↔
      ∀ j, s ≤ j → j < k → k - j ≤ (p :: ps).countP (fun q => E j ≤ q) := by
  constructor
  · intro h j hj hk
    rw [List.countP_cons]
    by_cases hjs : j = s
    · subst hjs
      rw [if_pos (decide_eq_true hp)]
      by_cases hlast : j + 1 = k
      · omega
      · -- Every round for the next job is a round for this one.
        have hnext := h (j + 1) (Nat.le_refl _) (by omega)
        have hmono : ps.countP (fun q => E (j + 1) ≤ q) ≤ ps.countP (fun q => E j ≤ q) := by
          apply List.countP_mono_left
          intro q _ hq
          have hle := hE j (j + 1) (Nat.le_succ j) (by omega)
          simp only [decide_eq_true_eq] at hq ⊢
          omega
        omega
    · have hrest := h j (by omega) hk
      omega
  · intro h j hj hk
    have hall := h j (by omega) hk
    rw [List.countP_cons] at hall
    by_cases hjp : E j ≤ p
    · -- Job `j` can be taken in every later round, and there are enough of them.
      have hcount : ps.countP (fun q => E j ≤ q) = ps.length := by
        rw [List.countP_eq_length]
        intro q hq
        have hle := hps q hq
        simp only [decide_eq_true_eq]
        omega
      have hfirst := h s (Nat.le_refl s) hs
      rw [List.countP_cons, if_pos (decide_eq_true hp)] at hfirst
      have hle : ps.countP (fun q => E s ≤ q) ≤ ps.length := List.countP_le_length
      omega
    · rw [if_neg (by simpa using hjp)] at hall
      exact hall

/-- A round before job `s` can be taken is a round for none of the jobs from `s` on. -/
theorem rounds_of_not_ready (hE : ∀ i j, i ≤ j → j < k → E i ≤ E j) {p : Nat}
    (hp : ¬ (s < k ∧ E s ≤ p)) :
    (∀ j, s ≤ j → j < k → k - j ≤ ps.countP (fun q => E j ≤ q)) ↔
      ∀ j, s ≤ j → j < k → k - j ≤ (p :: ps).countP (fun q => E j ≤ q) := by
  apply forall_congr'
  intro j
  constructor
  · intro h hj hk
    have hrest := h hj hk
    rw [List.countP_cons]
    omega
  · intro h hj hk
    have hall := h hj hk
    have hle := hE s j hj hk
    have hlate : ¬ E j ≤ p := by omega
    rw [List.countP_cons, if_neg (by simpa using hlate)] at hall
    exact hall

/-- All jobs are taken exactly when for every job there are as many rounds
from its time on as there are jobs from it on. -/
theorem taken_eq_iff (hE : ∀ i j, i ≤ j → j < k → E i ≤ E j) (hs : s ≤ k)
    (hps : ps.Pairwise (· ≤ ·)) :
    taken E k s ps = k ↔ ∀ j, s ≤ j → j < k → k - j ≤ ps.countP (fun q => E j ≤ q) := by
  induction ps generalizing s with
  | nil =>
      constructor
      · intro h j hj hk
        have hsk : s = k := h
        omega
      · intro h
        by_cases hsk : s = k
        · exact hsk
        · have hnone := h s (Nat.le_refl s) (by omega)
          simp at hnone
          omega
  | cons p ps ih =>
      cases hps with
      | cons hp hps =>
          have hstep : taken E k s (p :: ps) = taken E k (takeOne E k s p) ps := rfl
          by_cases hready : s < k ∧ E s ≤ p
          · rw [hstep, takeOne_of_ready hready.1 hready.2, ih hready.1 hps]
            exact rounds_of_ready hE hready.1 hready.2 hp
          · rw [hstep, takeOne_of_not_ready hready, ih hs hps]
            exact rounds_of_not_ready hE hready

end Muduo.Lib
