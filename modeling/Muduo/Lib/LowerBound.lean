import Mathlib.Data.List.Basic

/-!
# `Muduo.Lib.LowerBound`: the binary search of the standard library

`lowerBound less xs` is `std::lower_bound` on the elements of `xs`, with
`less` for the comparison of an element with the value that is looked for. It
halves a range of `len` elements from `first` on.

What it returns is an index of the list or its length, for every list. When
the elements that are less stand in front, it is the number of them
(`lowerBound_split`). For a list that is not sorted little can be said, but
the first element is never passed over: an answer of 0 means that it was
compared and is not less (`lowerBound_zero`).
-/

set_option autoImplicit false

namespace Muduo.Lib

variable {α : Type} (less : α → Bool) (xs : List α)

/-- The loop, with fuel for the length of the range. -/
def lowerBoundLoop : Nat → Nat → Nat → Nat
  | 0, first, _ => first
  | fuel + 1, first, len =>
      if len = 0 then first
      else
        let half := len / 2
        match xs[first + half]? with
        | some x =>
            if less x then lowerBoundLoop fuel (first + half + 1) (len - half - 1)
            else lowerBoundLoop fuel first half
        | none => first

/-- `std::lower_bound(xs.begin(), xs.end(), value, comp)`. -/
def lowerBound : Nat := lowerBoundLoop less xs xs.length 0 xs.length

variable {less xs}

/-- What a range of the search stands for: the answer lies in it, and the
two elements next to it have been compared unless they do not exist. -/
structure Searching (less : α → Bool) (xs : List α) (first len : Nat) : Prop where
  inside : first + len ≤ xs.length
  before : first = 0 ∨ ∃ x, xs[first - 1]? = some x ∧ less x = true
  behind : first + len = xs.length ∨ ∃ x, xs[first + len]? = some x ∧ less x = false

/-- Induction on the fuel: each comparison leaves one half of the range. -/
theorem lowerBoundLoop_searching (fuel : Nat) : ∀ first len, len ≤ fuel →
    Searching less xs first len → Searching less xs (lowerBoundLoop less xs fuel first len) 0 := by
  induction fuel with
  | zero =>
      intro first len hlen h
      have hzero : len = 0 := by omega
      rw [hzero] at h
      exact h
  | succ fuel ih =>
      intro first len hlen h
      have hinside := h.inside
      rw [lowerBoundLoop]
      by_cases hzero : len = 0
      · rw [if_pos hzero]
        rw [hzero] at h
        exact h
      · have hmid : first + len / 2 < xs.length := by omega
        have hget : xs[first + len / 2]? = some xs[first + len / 2] := List.getElem?_eq_getElem hmid
        rw [if_neg hzero]
        simp only [hget]
        by_cases hless : less xs[first + len / 2] = true
        · -- The upper half, behind the element that was compared.
          rw [if_pos hless]
          apply ih _ _ (by omega)
          have hend : first + len / 2 + 1 + (len - len / 2 - 1) = first + len := by omega
          refine ⟨by omega, .inr ⟨_, hget, hless⟩, ?_⟩
          rw [hend]
          exact h.behind
        · rw [if_neg hless]
          apply ih _ _ (by omega)
          exact ⟨by omega, h.before, .inr ⟨_, hget, Bool.not_eq_true _ ▸ hless⟩⟩

theorem lowerBound_searching (less : α → Bool) (xs : List α) :
    Searching less xs (lowerBound less xs) 0 :=
  lowerBoundLoop_searching xs.length 0 xs.length (Nat.le_refl _)
    ⟨by omega, .inl rfl, .inl (Nat.zero_add _)⟩

/-- The first element is compared before the answer is 0. -/
theorem lowerBound_zero (less : α → Bool) {x : α} (h : lowerBound less (x :: xs) = 0) :
    less x = false := by
  have hbehind := (lowerBound_searching less (x :: xs)).behind
  rw [h] at hbehind
  obtain hend | ⟨y, hy, hless⟩ := hbehind
  · cases hend
  · cases hy
    exact hless

/-- When the elements that are less stand in front of the others, the answer
is where they end. -/
theorem lowerBound_split (less : α → Bool) (front back : List α) (hfront : ∀ x ∈ front, less x = true)
    (hback : ∀ x ∈ back, less x = false) : lowerBound less (front ++ back) = front.length := by
  have h := lowerBound_searching less (front ++ back)
  apply Nat.le_antisymm
  · -- The element in front of the answer is less, so it is in `front`.
    by_contra hlater
    obtain hzero | ⟨x, hx, hless⟩ := h.before
    · omega
    · rw [List.getElem?_append_right (by omega)] at hx
      rw [hback x (List.mem_of_getElem? hx)] at hless
      cases hless
  · by_contra hearlier
    obtain hend | ⟨x, hx, hless⟩ := h.behind
    · rw [List.length_append] at hend
      omega
    · rw [Nat.add_zero, List.getElem?_append_left (by omega)] at hx
      rw [hfront x (List.mem_of_getElem? hx)] at hless
      cases hless

end Muduo.Lib
