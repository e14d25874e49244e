import Mathlib.Data.List.Sort
import Mathlib.Data.List.TakeWhile

/-!
# `Muduo.Lib.SortedSet`: `std::set`

A `SortedSet` is a list in strictly increasing order, so it has no
duplicates and two sets with the same elements are equal. The operations
are those of `std::set`: `insert` and `erase` of a key, `find`, the number
of elements, and `lower_bound`, which splits the set at a key.

What a caller needs is how an operation changes the list up to
permutation, and what is on each side of a split.
-/

set_option autoImplicit false

namespace Muduo.Lib

/-- A finite set, as the increasing list of its elements. -/
structure SortedSet (α : Type) [LinearOrder α] where
  toList : List α
  sorted : toList.Pairwise (· < ·)

namespace SortedSet

variable {α : Type} [LinearOrder α]

instance : Membership α (SortedSet α) where
  mem s a := a ∈ s.toList

instance (a : α) (s : SortedSet α) : Decidable (a ∈ s) :=
  inferInstanceAs (Decidable (a ∈ s.toList))

theorem mem_iff {a : α} {s : SortedSet α} : a ∈ s ↔ a ∈ s.toList := Iff.rfl

/-- `set()`. -/
def empty : SortedSet α := ⟨[], List.Pairwise.nil⟩

/-- `size()`. -/
def size (s : SortedSet α) : Nat := s.toList.length

theorem orderedInsert_sorted {a : α} {l : List α} (h : l.Pairwise (· < ·)) (ha : a ∉ l) :
    (l.orderedInsert (· ≤ ·) a).Pairwise (· < ·) := by
  have hle : (l.orderedInsert (· ≤ ·) a).Pairwise (· ≤ ·) :=
    (h.imp fun hlt => le_of_lt hlt).orderedInsert a l
  have hnodup : (l.orderedInsert (· ≤ ·) a).Nodup := by
    refine (List.perm_orderedInsert _ a l).nodup_iff.mpr (List.nodup_cons.mpr ⟨ha, ?_⟩)
    exact h.imp fun hlt => ne_of_lt hlt
  exact (hle.and hnodup).imp fun hab => lt_of_le_of_ne hab.1 hab.2

/-- `insert(a)`. -/
def insert (s : SortedSet α) (a : α) : SortedSet α :=
  if h : a ∈ s.toList then s
  else ⟨s.toList.orderedInsert (· ≤ ·) a, orderedInsert_sorted s.sorted h⟩

/-- A new element joins the others. -/
theorem insert_perm {s : SortedSet α} {a : α} (h : a ∉ s) :
    (s.insert a).toList.Perm (a :: s.toList) := by
  rw [insert, dif_neg (mem_iff.not.mp h)]
  exact List.perm_orderedInsert _ a s.toList

theorem mem_insert {s : SortedSet α} {a b : α} : b ∈ s.insert a ↔ b = a ∨ b ∈ s := by
  by_cases h : a ∈ s
  · have hsame : s.insert a = s := dif_pos h
    rw [hsame]
    constructor
    · exact Or.inr
    · rintro (rfl | hb)
      · exact h
      · exact hb
  · exact (insert_perm h).mem_iff.trans List.mem_cons

/-- `erase(a)`. -/
def erase (s : SortedSet α) (a : α) : SortedSet α :=
  ⟨s.toList.erase a, s.sorted.sublist List.erase_sublist⟩

theorem mem_of_mem_erase {s : SortedSet α} {a b : α} (h : b ∈ s.erase a) : b ∈ s :=
  List.mem_of_mem_erase h

/-- The set is what is left and the element taken out. -/
theorem erase_perm {s : SortedSet α} {a : α} (h : a ∈ s) :
    s.toList.Perm (a :: (s.erase a).toList) := List.perm_cons_erase h

/-- Erasing takes one element out of any listing of the set. -/
theorem perm_erase {s : SortedSet α} {a : α} {l : List α} (h : s.toList.Perm (a :: l)) :
    (s.erase a).toList.Perm l := by
  have hmem : a ∈ s := h.mem_iff.mpr List.mem_cons_self
  exact ((erase_perm hmem).symm.trans h).cons_inv

/-- The part of the set in front of `lower_bound(a)`. -/
def below (s : SortedSet α) (a : α) : List α := s.toList.takeWhile (· < a)

/-- The set without the part in front of `lower_bound(a)`. -/
def eraseBelow (s : SortedSet α) (a : α) : SortedSet α :=
  ⟨s.toList.dropWhile (· < a), s.sorted.sublist (List.dropWhile_sublist _)⟩

/-- `lower_bound` cuts the set in two. -/
theorem below_append (s : SortedSet α) (a : α) :
    s.below a ++ (s.eraseBelow a).toList = s.toList := List.takeWhile_append_dropWhile

/-- What `lower_bound(a)` finds is not less than `a`. -/
theorem le_head_eraseBelow {s : SortedSet α} {a b : α}
    (h : (s.eraseBelow a).toList.head? = some b) : a ≤ b := by
  have hnot := List.head?_dropWhile_not (fun x => decide (x < a)) s.toList
  rw [show s.toList.dropWhile (fun x => decide (x < a)) = (s.eraseBelow a).toList from rfl, h]
    at hnot
  simpa using hnot

/-- The first element is the least one. -/
theorem head_le {s : SortedSet α} {a b : α} (h : s.toList.head? = some a) (hb : b ∈ s) :
    a ≤ b := by
  obtain ⟨rest, hlist⟩ := List.head?_eq_some_iff.mp h
  have hsorted := s.sorted
  have hmem : b ∈ s.toList := hb
  rw [hlist] at hsorted hmem
  rcases List.mem_cons.mp hmem with heq | hrest
  · exact le_of_eq heq.symm
  · exact le_of_lt (List.rel_of_pairwise_cons hsorted hrest)

/-- Nothing behind `lower_bound(a)` is less than `a`. -/
theorem le_of_mem_eraseBelow {s : SortedSet α} {a b : α} (h : b ∈ s.eraseBelow a) : a ≤ b := by
  cases hhead : (s.eraseBelow a).toList.head? with
  | none =>
      have hnil := List.head?_eq_none_iff.mp hhead
      rw [mem_iff, hnil] at h
      cases h
  | some c => exact le_trans (le_head_eraseBelow hhead) (head_le hhead h)

/-- What is below the cut is smaller. -/
theorem lt_of_mem_below {s : SortedSet α} {a b : α} (h : b ∈ s.below a) : b < a := by
  have hlt := List.mem_takeWhile_imp (p := fun x => decide (x < a)) h
  exact of_decide_eq_true hlt

/-- The split at `lower_bound(a)`, as two filters. -/
theorem below_eq_filter (s : SortedSet α) (a : α) : s.below a = s.toList.filter (· < a) := by
  have hfront : (s.below a).filter (· < a) = s.below a :=
    List.filter_eq_self.mpr fun _ hb => decide_eq_true (lt_of_mem_below hb)
  have hback : (s.eraseBelow a).toList.filter (· < a) = [] := by
    refine List.filter_eq_nil_iff.mpr fun b hb => ?_
    rw [decide_eq_true_eq]
    exact not_lt.mpr (le_of_mem_eraseBelow hb)
  conv_rhs => rw [← s.below_append a, List.filter_append, hfront, hback, List.append_nil]

theorem eraseBelow_eq_filter (s : SortedSet α) (a : α) :
    (s.eraseBelow a).toList = s.toList.filter (a ≤ ·) := by
  have hfront : (s.below a).filter (a ≤ ·) = [] := by
    refine List.filter_eq_nil_iff.mpr fun b hb => ?_
    rw [decide_eq_true_eq]
    exact not_le.mpr (lt_of_mem_below hb)
  have hback : (s.eraseBelow a).toList.filter (a ≤ ·) = (s.eraseBelow a).toList :=
    List.filter_eq_self.mpr fun b hb => decide_eq_true (le_of_mem_eraseBelow hb)
  conv_rhs => rw [← s.below_append a, List.filter_append, hfront, hback, List.nil_append]

end SortedSet

end Muduo.Lib
