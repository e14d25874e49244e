import Mathlib.Data.List.DropRight
import Muduo.Lib.Slice

/-!
# `Muduo.Lib.Segments`: the parts of a list between separators

`segments sep xs` are the non-empty parts of `xs` between the elements that
are `sep`. Nearly everything follows from one equation, `segments_append`: at
a separator the list falls into two lists with segments of their own. The
induction that goes with it is `cut_induct`.

What the segments are for is said in two ways.

* By indices: a range is maximal when it holds no separator and no larger
  range without separators contains it. The segments are what stands in the
  maximal ranges, from the first to the last (`segments_enumerates`).
* By the text: the segments, joined by single separators, are `xs` with every
  run of separators made into one and without those at the ends
  (`intercalate_segments`).

Parts that are not empty and hold no separator are the segments of what they
are joined to (`segments_intercalate`).
-/

set_option autoImplicit false

namespace Muduo.Lib

variable {α : Type} [DecidableEq α] (sep : α)

/-- The non-empty parts of `xs` between separators, in order. -/
def segments (xs : List α) : List (List α) := (xs.splitOn sep).filter (· ≠ [])

/-- `xs` with one separator for every run of them. -/
def squeeze : List α → List α
  | [] => []
  | x :: xs => if x = sep ∧ xs.head? = some sep then squeeze xs else x :: squeeze xs

/-- `xs` without the separators at its ends. -/
def strip (xs : List α) : List α := (xs.dropWhile (· = sep)).rdropWhile (· = sep)

/-- From index `i` to before `j` there are elements, and none is a separator. -/
structure FreeRange (xs : List α) (i j : Nat) : Prop where
  lt : i < j
  le_length : j ≤ xs.length
  free : ∀ k, i ≤ k → k < j → xs[k]? ≠ some sep

/-- A range without separators that no other one contains. -/
structure MaximalRange (xs : List α) (i j : Nat) : Prop where
  range : FreeRange sep xs i j
  maximal : ∀ i' j', i' ≤ i → j ≤ j' → FreeRange sep xs i' j' → i' = i ∧ j' = j

/-- `ranges` are the maximal ranges of `xs`, the first one first. -/
structure Enumerates (xs : List α) (ranges : List (Nat × Nat)) : Prop where
  mem_iff : ∀ i j, (i, j) ∈ ranges ↔ MaximalRange sep xs i j
  sorted : ranges.Pairwise fun r q => r.2 < q.1


/-- What stands in the ranges. -/
def partsAt (xs : List α) (ranges : List (Nat × Nat)) : List (List α) :=
  ranges.map fun r => slice xs r.1 (r.2 - r.1)

/-- Induction from one separator to the next. -/
theorem cut_induct {P : List α → Prop} (free : ∀ xs, sep ∉ xs → P xs)
    (cut : ∀ xs ys, sep ∉ xs → P ys → P (xs ++ sep :: ys)) (xs : List α) : P xs := by
  induction hlen : xs.length using Nat.strongRecOn generalizing xs with
  | ind n ih =>
      by_cases hmem : sep ∈ xs
      · obtain ⟨front, back, rfl, hfront⟩ := List.eq_append_cons_of_mem hmem
        rw [List.length_append, List.length_cons] at hlen
        exact cut front back hfront (ih back.length (by omega) back rfl)
      · exact free xs hmem

variable {sep} {xs ys : List α} {i j : Nat}

/-! ### Segments -/

/-- The segments of a list are those in front of a separator and those behind it. -/
theorem segments_append (xs ys : List α) :
    segments sep (xs ++ sep :: ys) = segments sep xs ++ segments sep ys := by
  rw [segments, List.splitOn_append_cons_self, List.filter_append]
  rfl

theorem segments_cons (ys : List α) : segments sep (sep :: ys) = segments sep ys :=
  segments_append [] ys

@[simp] theorem segments_nil : segments sep [] = [] := by
  rw [segments, List.splitOn_nil]
  rfl

/-- A list without separators is one segment. -/
theorem segments_of_free (hne : xs ≠ []) (h : sep ∉ xs) : segments sep xs = [xs] := by
  rw [segments, List.splitOn_eq_singleton h]
  exact List.filter_eq_self.mpr (by simpa using hne)

/-- A segment is not empty and has no separator in it. -/
theorem mem_segments {part : List α} (h : part ∈ segments sep xs) : part ≠ [] ∧ sep ∉ part := by
  have hpiece : ∀ xs, sep ∉ xs → part ∈ segments sep xs → part ≠ [] ∧ sep ∉ part := by
    intro xs hfree h
    by_cases hne : xs = []
    · rw [hne, segments_nil] at h
      cases h
    · rw [segments_of_free hne hfree] at h
      rw [List.mem_singleton.mp h]
      exact ⟨hne, hfree⟩
  induction xs using cut_induct sep with
  | free xs hfree => exact hpiece xs hfree h
  | cut xs ys hfree ih =>
      rw [segments_append, List.mem_append] at h
      cases h with
      | inl hin => exact hpiece xs hfree hin
      | inr hin => exact ih hin

/-- Parts that are not empty and hold no separator are found again. -/
theorem segments_intercalate {parts : List (List α)} (h : ∀ part ∈ parts, part ≠ [] ∧ sep ∉ part) :
    segments sep ([sep].intercalate parts) = parts := by
  cases parts with
  | nil => exact segments_nil
  | cons part parts =>
      rw [segments, List.splitOn_intercalate sep (fun p hp => (h p hp).2) (List.cons_ne_nil _ _)]
      exact List.filter_eq_self.mpr fun p hp => decide_eq_true (h p hp).1

/-! ### Maximal ranges -/

omit [DecidableEq α] in
/-- The elements behind a separator. -/
theorem getElem?_behind (xs ys : List α) (k : Nat) :
    (xs ++ sep :: ys)[xs.length + 1 + k]? = ys[k]? := by
  have hindex : xs.length + 1 + k - xs.length = k + 1 := by omega
  rw [List.getElem?_append_right (by omega), hindex, List.getElem?_cons_succ]

omit [DecidableEq α] in
/-- A range without separators lies on one side of a separator. -/
theorem freeRange_append : FreeRange sep (xs ++ sep :: ys) i j ↔ FreeRange sep xs i j ∨
    ∃ a b, FreeRange sep ys a b ∧ i = xs.length + 1 + a ∧ j = xs.length + 1 + b := by
  have hleft : ∀ k, k < xs.length → (xs ++ sep :: ys)[k]? = xs[k]? := fun k hk =>
    List.getElem?_append_left hk
  have hlen : (xs ++ sep :: ys).length = xs.length + 1 + ys.length := by
    rw [List.length_append, List.length_cons]
    omega
  constructor
  · intro h
    have hbound := h.le_length
    rw [hlen] at hbound
    by_cases hi : xs.length < i
    · -- The range begins behind the separator.
      refine .inr ⟨i - (xs.length + 1), j - (xs.length + 1), ⟨?_, by omega, ?_⟩, by omega, ?_⟩
      · have hlt := h.lt
        omega
      · intro k hik hkj
        rw [← getElem?_behind xs]
        exact h.free _ (by omega) (by omega)
      · have hlt := h.lt
        omega
    · -- It ends in front of it, as it would contain it otherwise.
      have hj : j ≤ xs.length := by
        by_contra hlate
        apply h.free xs.length (by omega) (by omega)
        rw [List.getElem?_append_right (Nat.le_refl _), Nat.sub_self]
        rfl
      refine .inl ⟨h.lt, hj, ?_⟩
      intro k hik hkj
      rw [← hleft k (by omega)]
      exact h.free k hik hkj
  · rintro (h | ⟨a, b, h, rfl, rfl⟩)
    · have hbound := h.le_length
      refine ⟨h.lt, by omega, ?_⟩
      intro k hik hkj
      rw [hleft k (by omega)]
      exact h.free k hik hkj
    · have hbound := h.le_length
      have hlt := h.lt
      refine ⟨by omega, by omega, ?_⟩
      intro k hik hkj
      have hk : k = xs.length + 1 + (k - (xs.length + 1)) := by omega
      rw [hk, getElem?_behind]
      exact h.free _ (by omega) (by omega)

omit [DecidableEq α] in
/-- So the maximal ranges are those of the two sides. -/
theorem maximalRange_append : MaximalRange sep (xs ++ sep :: ys) i j ↔ MaximalRange sep xs i j ∨
    ∃ a b, MaximalRange sep ys a b ∧ i = xs.length + 1 + a ∧ j = xs.length + 1 + b := by
  constructor
  · rintro ⟨hrange, hmax⟩
    obtain h | ⟨a, b, h, rfl, rfl⟩ := freeRange_append.mp hrange
    · refine .inl ⟨h, ?_⟩
      intro i' j' hi hj h'
      exact hmax i' j' hi hj (freeRange_append.mpr (.inl h'))
    · refine .inr ⟨a, b, ⟨h, ?_⟩, rfl, rfl⟩
      intro a' b' ha hb h'
      have hsame := hmax (xs.length + 1 + a') (xs.length + 1 + b') (by omega) (by omega)
        (freeRange_append.mpr (.inr ⟨a', b', h', rfl, rfl⟩))
      omega
  · rintro (⟨hrange, hmax⟩ | ⟨a, b, ⟨hrange, hmax⟩, rfl, rfl⟩)
    · refine ⟨freeRange_append.mpr (.inl hrange), ?_⟩
      intro i' j' hi hj h'
      obtain h | ⟨a, b, h, rfl, rfl⟩ := freeRange_append.mp h'
      · exact hmax i' j' hi hj h
      · -- A range behind the separator does not contain one in front of it.
        have hlt := hrange.lt
        have hle := hrange.le_length
        omega
    · refine ⟨freeRange_append.mpr (.inr ⟨a, b, hrange, rfl, rfl⟩), ?_⟩
      intro i' j' hi hj h'
      obtain h | ⟨a', b', h, rfl, rfl⟩ := freeRange_append.mp h'
      · have hle := h.le_length
        omega
      · have hsame := hmax a' b' (by omega) (by omega) h
        omega

omit [DecidableEq α] in
/-- Its only maximal range is all of it. -/
theorem maximalRange_of_free (hne : xs ≠ []) (h : sep ∉ xs) :
    MaximalRange sep xs i j ↔ i = 0 ∧ j = xs.length := by
  have hwhole : FreeRange sep xs 0 xs.length :=
    ⟨List.length_pos_iff.mpr hne, Nat.le_refl _, fun k _ _ hk => h (List.mem_of_getElem? hk)⟩
  constructor
  · rintro ⟨hrange, hmax⟩
    have hsame := hmax 0 xs.length (Nat.zero_le _) hrange.le_length hwhole
    exact ⟨hsame.1.symm, hsame.2.symm⟩
  · rintro ⟨rfl, rfl⟩
    refine ⟨hwhole, ?_⟩
    intro i' j' hi hj h'
    exact ⟨Nat.le_zero.mp hi, Nat.le_antisymm h'.le_length hj⟩

omit [DecidableEq α] in
/-- The ranges of the two sides, those behind the separator moved to their place. -/
theorem Enumerates.append {left right : List (Nat × Nat)} (hleft : Enumerates sep xs left)
    (hright : Enumerates sep ys right) : Enumerates sep (xs ++ sep :: ys)
      (left ++ right.map fun r => (xs.length + 1 + r.1, xs.length + 1 + r.2)) where
  mem_iff := by
    intro i j
    rw [List.mem_append, hleft.mem_iff, maximalRange_append, List.mem_map]
    apply or_congr_right
    constructor
    · rintro ⟨⟨a, b⟩, hmem, heq⟩
      cases heq
      exact ⟨a, b, (hright.mem_iff a b).mp hmem, rfl, rfl⟩
    · rintro ⟨a, b, hmax, rfl, rfl⟩
      exact ⟨(a, b), (hright.mem_iff a b).mpr hmax, rfl⟩
  sorted := by
    rw [List.pairwise_append, List.pairwise_map]
    refine ⟨hleft.sorted, hright.sorted.imp fun h => by omega, ?_⟩
    rintro ⟨i, j⟩ hij r hr
    obtain ⟨q, -, rfl⟩ := List.mem_map.mp hr
    have hbound := ((hleft.mem_iff i j).mp hij).range.le_length
    show j < xs.length + 1 + q.1
    omega

omit [DecidableEq α] in
theorem enumerates_nil : Enumerates sep [] [] where
  mem_iff := by
    intro i j
    constructor
    · intro h
      cases h
    · intro h
      have hlt := h.range.lt
      have hle := h.range.le_length
      rw [List.length_nil] at hle
      omega
  sorted := List.Pairwise.nil

omit [DecidableEq α] in
/-- So the ranges are enumerated by this one. -/
theorem enumerates_of_free (hne : xs ≠ []) (h : sep ∉ xs) : Enumerates sep xs [(0, xs.length)] where
  mem_iff := by
    intro i j
    rw [maximalRange_of_free hne h, List.mem_singleton, Prod.mk.injEq]
  sorted := List.pairwise_singleton _ _

omit [DecidableEq α] in
/-- What stands in the ranges of the two sides. -/
theorem partsAt_append {left right : List (Nat × Nat)} (hleft : Enumerates sep xs left) :
    partsAt (xs ++ sep :: ys) (left ++ right.map fun r => (xs.length + 1 + r.1, xs.length + 1 + r.2))
      = partsAt xs left ++ partsAt ys right := by
  rw [partsAt, List.map_append, List.map_map]
  congr 1
  · apply List.map_congr_left
    rintro ⟨i, j⟩ hij
    have hbound := ((hleft.mem_iff i j).mp hij).range.le_length
    apply slice_congr
    intro k hk
    exact List.getElem?_append_left (by omega)
  · apply List.map_congr_left
    rintro ⟨a, b⟩ -
    have hlen : xs.length + 1 + b - (xs.length + 1 + a) = b - a := by omega
    show slice (xs ++ sep :: ys) (xs.length + 1 + a) (xs.length + 1 + b - (xs.length + 1 + a)) = _
    rw [hlen]
    apply slice_congr
    intro k _
    rw [Nat.add_assoc, getElem?_behind]

/-- The segments stand in the maximal ranges. -/
theorem segments_enumerates (sep : α) (xs : List α) :
    ∃ ranges, Enumerates sep xs ranges ∧ segments sep xs = partsAt xs ranges := by
  have hfree : ∀ xs, sep ∉ xs → ∃ ranges, Enumerates sep xs ranges ∧
      segments sep xs = partsAt xs ranges := by
    intro xs h
    by_cases hne : xs = []
    · rw [hne]
      exact ⟨[], enumerates_nil, segments_nil⟩
    · refine ⟨[(0, xs.length)], enumerates_of_free hne h, ?_⟩
      rw [segments_of_free hne h, partsAt, List.map_singleton, slice, List.drop_zero, Nat.sub_zero,
        List.take_length]
  induction xs using cut_induct sep with
  | free xs h => exact hfree xs h
  | cut xs ys h ih =>
      obtain ⟨left, hleft, hxs⟩ := hfree xs h
      obtain ⟨right, hright, hys⟩ := ih
      exact ⟨_, hleft.append hright, by rw [segments_append, hxs, hys, partsAt_append hleft]⟩

/-! ### Joining -/

/-- Without separators there is nothing to squeeze. -/
theorem squeeze_of_free (h : sep ∉ xs) : squeeze sep xs = xs := by
  induction xs with
  | nil => rfl
  | cons x xs ih =>
      rw [List.mem_cons, not_or] at h
      rw [squeeze, if_neg fun hx => h.1 hx.1.symm, ih h.2]

theorem squeeze_append (h : sep ∉ xs) : squeeze sep (xs ++ sep :: ys) = xs ++ squeeze sep (sep :: ys) := by
  induction xs with
  | nil => rfl
  | cons x xs ih =>
      rw [List.mem_cons, not_or] at h
      rw [List.cons_append, squeeze, if_neg fun hx => h.1 hx.1.symm, ih h.2]
      rfl

/-- A separator takes those behind it away. -/
theorem squeeze_cons (ys : List α) :
    squeeze sep (sep :: ys) = sep :: (squeeze sep ys).dropWhile (· = sep) := by
  induction ys with
  | nil => simp [squeeze]
  | cons y ys ih =>
      rw [squeeze]
      by_cases hy : y = sep
      · rw [hy, if_pos ⟨rfl, rfl⟩, ih, List.dropWhile_cons_of_pos (by simp), List.dropWhile_idempotent]
      · have hhead : ¬ (sep = sep ∧ (y :: ys).head? = some sep) := fun h => hy (Option.some.inj h.2)
        rw [if_neg hhead, squeeze, if_neg fun h => hy h.1, List.dropWhile_cons_of_neg (by simpa using hy)]

theorem dropWhile_of_free (hne : xs ≠ []) (h : sep ∉ xs) (ys : List α) :
    (xs ++ ys).dropWhile (· = sep) = xs ++ ys := by
  cases xs with
  | nil => exact absurd rfl hne
  | cons x xs =>
      rw [List.mem_cons, not_or] at h
      exact List.dropWhile_cons_of_neg (by simpa using Ne.symm h.1)

omit [DecidableEq α] in
theorem rdropWhile_append (p : α → Bool) (xs ys : List α) : (xs ++ ys).rdropWhile p =
    if ys.rdropWhile p = [] then xs.rdropWhile p else xs ++ ys.rdropWhile p := by
  simp only [List.rdropWhile, List.reverse_append, List.dropWhile_append, List.isEmpty_iff,
    List.reverse_eq_nil_iff]
  split
  · rfl
  · rw [List.reverse_append, List.reverse_reverse]

theorem rdropWhile_of_free (h : sep ∉ xs) : xs.rdropWhile (· = sep) = xs := by
  rw [List.rdropWhile_eq_self_iff]
  intro hne hsep
  exact h (of_decide_eq_true hsep ▸ List.getLast_mem hne)

/-- A separator stays when something is left behind it. -/
theorem rdropWhile_cut (h : sep ∉ xs) (ys : List α) : (xs ++ sep :: ys).rdropWhile (· = sep) =
    if ys.rdropWhile (· = sep) = [] then xs else xs ++ sep :: ys.rdropWhile (· = sep) := by
  have hsplit : xs ++ sep :: ys = (xs ++ [sep]) ++ ys := by
    rw [List.append_assoc]
    rfl
  rw [hsplit, rdropWhile_append, List.rdropWhile_concat_pos _ _ _ (by simp), rdropWhile_of_free h,
    List.append_assoc]
  rfl

omit [DecidableEq α] in
theorem intercalate_ne_nil {parts : List (List α)} (h : ∀ part ∈ parts, part ≠ [])
    (hne : parts ≠ []) : [sep].intercalate parts ≠ [] := by
  cases parts with
  | nil => exact absurd rfl hne
  | cons part parts =>
      cases parts with
      | nil =>
          rw [List.intercalate_singleton]
          exact h part List.mem_cons_self
      | cons next parts => simp [List.intercalate_cons_cons]

/-- The segments, joined by single separators. -/
theorem intercalate_segments (sep : α) (xs : List α) :
    [sep].intercalate (segments sep xs) = strip sep (squeeze sep xs) := by
  induction xs using cut_induct sep with
  | free xs h =>
      rw [squeeze_of_free h]
      by_cases hne : xs = []
      · rw [hne, segments_nil]
        rfl
      · have hdrop := dropWhile_of_free hne h []
        rw [List.append_nil] at hdrop
        rw [segments_of_free hne h, List.intercalate_singleton, strip, hdrop, rdropWhile_of_free h]
  | cut xs ys h ih =>
      rw [segments_append, squeeze_append h, squeeze_cons]
      by_cases hne : xs = []
      · rw [hne, segments_nil, List.nil_append, List.nil_append, ih, strip, strip,
          List.dropWhile_cons_of_pos (by simp), List.dropWhile_idempotent]
      · rw [segments_of_free hne h, strip, dropWhile_of_free hne h, rdropWhile_cut h]
        -- What is left behind the separator are the segments of `ys`, joined.
        change _ = if strip sep (squeeze sep ys) = [] then _ else _ ++ sep :: strip sep (squeeze sep ys)
        rw [← ih]
        by_cases hnil : segments sep ys = []
        · rw [hnil, List.intercalate_nil, if_pos rfl, List.append_nil, List.intercalate_singleton]
        · have hjoined : [sep].intercalate (segments sep ys) ≠ [] :=
            intercalate_ne_nil (fun part hpart => (mem_segments hpart).1) hnil
          rw [if_neg hjoined, List.singleton_append, List.intercalate_cons_of_ne_nil hnil,
            List.append_assoc]
          rfl

end Muduo.Lib
