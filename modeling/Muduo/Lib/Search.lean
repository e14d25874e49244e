import Mathlib.Data.List.Basic

/-!
# `Muduo.Lib.Search`: the first occurrence of a pattern

`search pat xs` is the index of the first place where `pat` stands in
`xs`. The fact that a line reader rests on is `search_append`: the first
occurrence in a prefix of a stream is the first one in the whole stream.
-/

set_option autoImplicit false

namespace Muduo.Lib

variable {α : Type} [DecidableEq α]

/-- The index of the first occurrence of `pat`. -/
def search (pat : List α) : List α → Option Nat
  | [] => if pat = [] then some 0 else none
  | x :: xs => if pat <+: x :: xs then some 0 else (search pat xs).map (· + 1)

/-- The pattern stands at the index that was found. -/
theorem search_prefix {pat xs : List α} {i : Nat} (h : search pat xs = some i) :
    i ≤ xs.length ∧ pat <+: xs.drop i := by
  induction xs generalizing i with
  | nil =>
      rw [search] at h
      split at h
      · cases h
        exact ⟨Nat.le_refl 0, by simp_all⟩
      · cases h
  | cons x xs ih =>
      rw [search] at h
      split at h
      · next hpat =>
          cases h
          exact ⟨Nat.zero_le _, hpat⟩
      · cases hrest : search pat xs with
        | none =>
            rw [hrest] at h
            cases h
        | some j =>
            rw [hrest] at h
            cases h
            have hj := ih hrest
            exact ⟨Nat.succ_le_succ hj.1, hj.2⟩

/-- The occurrence lies inside the list. -/
theorem search_bound {pat xs : List α} {i : Nat} (h : search pat xs = some i) :
    i + pat.length ≤ xs.length := by
  have hi := search_prefix h
  have hlen := hi.2.length_le
  rw [List.length_drop] at hlen
  omega

/-- The list is cut at the occurrence. -/
theorem search_split {pat xs : List α} {i : Nat} (h : search pat xs = some i) :
    xs = xs.take i ++ pat ++ xs.drop (i + pat.length) := by
  obtain ⟨_, rest, hrest⟩ := search_prefix h
  have hdrop : xs.drop (i + pat.length) = rest := by
    rw [← List.drop_drop, ← hrest, List.drop_left]
  rw [hdrop, List.append_assoc, hrest, List.take_append_drop]

/-- The pattern does not stand in front of its first occurrence. -/
theorem search_first {pat xs : List α} {i : Nat} (hpat : pat ≠ []) (h : search pat xs = some i) :
    ¬ pat <:+: xs.take i := by
  have hnil : ¬ pat <:+: [] := fun hin => hpat (List.infix_nil.mp hin)
  induction xs generalizing i with
  | nil =>
      rw [List.take_nil]
      exact hnil
  | cons x xs ih =>
      rw [search] at h
      split at h
      · cases h
        exact hnil
      · next hhead =>
          obtain ⟨j, hj, rfl⟩ := Option.map_eq_some_iff.mp h
          rw [List.take_succ_cons, List.infix_cons_iff]
          rintro (hstart | hlater)
          · exact hhead (hstart.trans ( List.take_prefix (j + 1) (x :: xs)))
          · exact ih hj hlater

/-- What comes later does not move the first occurrence. -/
theorem search_append {pat xs : List α} {i : Nat} (h : search pat xs = some i) (ys : List α) :
    search pat (xs ++ ys) = some i := by
  induction xs generalizing i with
  | nil =>
      rw [search] at h
      split at h
      · next hpat =>
          cases h
          subst hpat
          cases ys with
          | nil => rfl
          | cons y ys => rfl
      · cases h
  | cons x xs ih =>
      have hbound := search_bound h
      rw [search] at h
      rw [List.cons_append, search]
      split at h
      · next hpat =>
          have hlong : pat <+: x :: (xs ++ ys) := hpat.trans ⟨ys, rfl⟩
          rw [if_pos hlong]
          exact h
      · next hpat =>
          -- A new occurrence at the head would fit into `x :: xs` already.
          have hlong : ¬ pat <+: x :: (xs ++ ys) := by
            intro hnew
            have hfit : pat <+: x :: xs :=
              List.prefix_of_prefix_length_le hnew ⟨ys, rfl⟩ (by omega)
            exact hpat hfit
          rw [if_neg hlong]
          cases hrest : search pat xs with
          | none =>
              rw [hrest] at h
              cases h
          | some j =>
              rw [ih hrest, ← hrest]
              exact h

/-- Two different elements that do not stand next to each other in `xs`
stand first where they are put behind it. -/
theorem search_pair {a b : α} (hab : a ≠ b) {xs : List α} (h : ¬ [a, b] <:+: xs) (ys : List α) :
    search [a, b] (xs ++ a :: b :: ys) = some xs.length := by
  induction xs with
  | nil =>
      have hhead : [a, b] <+: a :: b :: ys := ⟨ys, rfl⟩
      rw [List.nil_append, search, if_pos hhead]
      rfl
  | cons x xs ih =>
      have hrest : ¬ [a, b] <:+: xs := fun hin => h (hin.trans (List.suffix_cons x xs).isInfix)
      have hhead : ¬ [a, b] <+: x :: (xs ++ a :: b :: ys) := by
        intro hprefix
        obtain ⟨hx, htail⟩ := List.cons_prefix_cons.mp hprefix
        cases xs with
        | nil =>
            -- The second element would be the first one.
            have hb := (List.cons_prefix_cons.mp htail).1
            exact hab hb.symm
        | cons y xs =>
            have hb := (List.cons_prefix_cons.mp htail).1
            exact h ⟨[], xs, by rw [hx, hb]; rfl⟩
      rw [List.cons_append, search, if_neg hhead, ih hrest, Option.map_some, List.length_cons]

/-! ### Where a pair does not stand -/

omit [DecidableEq α] in
theorem pair_notInfix_cons {a b x : α} {xs : List α} (hx : x ≠ a) (h : ¬ [a, b] <:+: xs) :
    ¬ [a, b] <:+: x :: xs := by
  rw [List.infix_cons_iff]
  rintro (hhead | htail)
  · exact hx (List.cons_prefix_cons.mp hhead).1.symm
  · exact h htail

omit [DecidableEq α] in
/-- A pair that stands in neither part stands in the whole only across the
cut, and then the second part begins with its second element. -/
theorem pair_notInfix_append {a b : α} {xs ys : List α} (hxs : ¬ [a, b] <:+: xs)
    (hys : ¬ [a, b] <:+: ys) (hhead : ys.head? ≠ some b) : ¬ [a, b] <:+: xs ++ ys := by
  induction xs with
  | nil => exact hys
  | cons x xs ih =>
      rw [List.infix_cons_iff, not_or] at hxs
      rw [List.cons_append, List.infix_cons_iff]
      rintro (hstart | hlater)
      · obtain ⟨rfl, hnext⟩ := List.cons_prefix_cons.mp hstart
        cases xs with
        | nil =>
            -- The second element would be the first one of `ys`.
            obtain ⟨zs, hzs⟩ := hnext
            rw [List.nil_append] at hzs
            rw [← hzs] at hhead
            exact hhead rfl
        | cons y xs =>
            obtain ⟨rfl, -⟩ := List.cons_prefix_cons.mp hnext
            exact hxs.1 ⟨xs, rfl⟩
      · exact ih hxs.2 hlater

end Muduo.Lib
