import Muduo.Lib.Slice
import Muduo.Lib.Transition

/-!
# `Muduo.Lib.Window`: the range of memory that a function may read

A function that gets two pointers `first` and `last` may read what lies
between them and nothing else. A `Window` is memory with such a range, and
`read` faults at every address outside it.

The algorithms are the ones of the standard library on a range: `find`,
`string` and `equal`. Each reads one element after the other. Inside the
window none of them faults, and what they return is a function of the
elements of the range (`find_eq`, `string_eq`, `equal_eq`), so a caller can
be read as a function of lists.
-/

set_option autoImplicit false

namespace Muduo.Lib

/-- Memory of which only the addresses from `first` to `last` may be read. -/
structure Window (α : Type) where
  mem : List α
  first : Nat
  last : Nat
  last_le : last ≤ mem.length

namespace Window

/-- A read outside the window, or a range whose end is before its start. -/
inductive Fault where
  | outside (p : Nat)
  | reversed
  deriving DecidableEq, Repr

variable {α : Type} (w : Window α)

/-- `*p`. -/
def read (p : Nat) : Except Fault α :=
  if h : w.first ≤ p ∧ p < w.last then .ok (w.mem.get ⟨p, Nat.lt_of_lt_of_le h.2 w.last_le⟩)
  else .error (.outside p)

/-- The elements of a range. -/
def range (p q : Nat) : List α := slice w.mem p (q - p)

section
variable [DecidableEq α]

/-- The first of the next `n` elements that is `x`, or the end. -/
def findNext (x : α) : Nat → Nat → Except Fault Nat
  | 0, p => .ok p
  | n + 1, p => do
      let y ← w.read p
      if y = x then return p else findNext x n (p + 1)

/-- `std::find(p, q, x)`. -/
def find (p q : Nat) (x : α) : Except Fault Nat := do
  assertThat (p ≤ q) .reversed
  w.findNext x (q - p) p

/-- Whether the next elements are those of `text`. -/
def equalNext : List α → Nat → Except Fault Bool
  | [], _ => .ok true
  | x :: text, p => do
      let y ← w.read p
      if y = x then equalNext text (p + 1) else return false

/-- `std::equal(p, q, text)`, of a range as long as the text. -/
def equal (p q : Nat) (text : List α) : Except Fault Bool := do
  assertThat (q = p + text.length) .reversed
  w.equalNext text p

end

/-- The next `n` elements. -/
def stringNext : Nat → Nat → Except Fault (List α)
  | 0, _ => .ok []
  | n + 1, p => do
      let x ← w.read p
      let xs ← stringNext n (p + 1)
      return x :: xs

/-- `string(p, q)`. -/
def string (p q : Nat) : Except Fault (List α) := do
  assertThat (p ≤ q) .reversed
  w.stringNext (q - p) p

/-! ### Inside the window -/

variable {w} {p q : Nat}

/-- The range lies in the window. -/
def Holds (w : Window α) (p q : Nat) : Prop := w.first ≤ p ∧ p ≤ q ∧ q ≤ w.last

/-- A range inside a range of the window lies in the window. -/
theorem Holds.shrink {p' q' : Nat} (h : w.Holds p q) (hp : p ≤ p') (hle : p' ≤ q') (hq : q' ≤ q) :
    w.Holds p' q' :=
  ⟨Nat.le_trans h.1 hp, hle, Nat.le_trans hq h.2.2⟩

/-- A range that lies in the window has all its elements. -/
theorem Holds.length_range (h : w.Holds p q) : (w.range p q).length = q - p := by
  have hlast := w.last_le
  have hq := h.2.2
  have hp := h.2.1
  exact length_slice (by omega)

/-- Reading at the start of a range that is not empty gives its first element, and no fault. The
algorithms below go through a range by this step. -/
theorem Holds.read_eq (h : w.Holds p q) (hlt : p < q) :
    ∃ x, w.read p = .ok x ∧ w.range p q = x :: w.range (p + 1) q := by
  have hlast := Nat.le_trans h.2.2 w.last_le
  have hp : p < w.mem.length := Nat.lt_of_lt_of_le hlt hlast
  have hin : w.first ≤ p ∧ p < w.last := ⟨h.1, Nat.lt_of_lt_of_le hlt h.2.2⟩
  refine ⟨w.mem.get ⟨p, hp⟩, ?_, ?_⟩
  · rw [read, dif_pos hin]
  · have hsplit : q - p = 1 + (q - (p + 1)) := by omega
    rw [range, hsplit, slice_add, range, slice, List.drop_eq_getElem_cons hp]
    rfl

/-- An empty range has no elements. -/
theorem range_self (w : Window α) (p : Nat) : w.range p p = [] := by
  rw [range, Nat.sub_self, slice_zero]

section
variable [DecidableEq α]

/-- Induction on the number of elements that are left. -/
theorem findNext_eq (x : α) (n : Nat) : ∀ p, w.Holds p (p + n) →
    w.findNext x n p = .ok (p + (w.range p (p + n)).idxOf x) := by
  induction n with
  | zero =>
      intro p _
      rw [findNext, Nat.add_zero, range_self]
      rfl
  | succ n ih =>
      intro p h
      obtain ⟨y, hread, hrange⟩ := h.read_eq (by omega)
      have hnext : p + 1 + n = p + (n + 1) := by omega
      have hrest := ih (p + 1) (h.shrink (by omega) (by omega) (by omega))
      rw [hnext] at hrest
      rw [findNext, hread, ok_bind, hrange]
      by_cases hy : y = x
      · rw [if_pos hy, hy, List.idxOf_cons_self]
        rfl
      · rw [if_neg hy, hrest, List.idxOf_cons_ne _ hy, Nat.succ_eq_add_one, Nat.add_right_comm,
          Nat.add_assoc]

/-- `std::find` stays inside the range and returns the place of the first `x`, or the end. -/
theorem find_eq (h : w.Holds p q) (x : α) : w.find p q x = .ok (p + (w.range p q).idxOf x) := by
  have hle := h.2.1
  have hq : p + (q - p) = q := by omega
  rw [find, assertThat_pos hle, ok_bind, findNext_eq x (q - p) p (by rw [hq]; exact h), hq]

/-- Induction on the text. The comparison stops at the first difference, which is enough to know the
answer. -/
theorem equalNext_eq (text : List α) : ∀ p, w.Holds p (p + text.length) →
    w.equalNext text p = .ok (w.range p (p + text.length) = text) := by
  induction text with
  | nil =>
      intro p _
      rw [equalNext, List.length_nil, Nat.add_zero, range_self]
      rfl
  | cons x text ih =>
      intro p h
      have hlen : (x :: text).length = text.length + 1 := rfl
      rw [hlen] at h ⊢
      obtain ⟨y, hread, hrange⟩ := h.read_eq (by omega)
      have hnext : p + 1 + text.length = p + (text.length + 1) := by omega
      have hrest := ih (p + 1) (h.shrink (by omega) (by omega) (by omega))
      rw [hnext] at hrest
      rw [equalNext, hread, ok_bind, hrange]
      by_cases hy : y = x
      · rw [if_pos hy, hrest, hy]
        simp only [List.cons.injEq, true_and]
      · rw [if_neg hy, except_pure]
        simp only [List.cons.injEq, hy, false_and, decide_false]

/-- `std::equal` says whether the elements of the range are those of the text. -/
theorem equal_eq {text : List α} (h : w.Holds p q) (hlen : q = p + text.length) :
    w.equal p q text = .ok (w.range p q = text) := by
  subst hlen
  rw [equal, assertThat_pos rfl, ok_bind, equalNext_eq text p h]

end

/-- Induction on the number of elements that are left. -/
theorem stringNext_eq (n : Nat) : ∀ p, w.Holds p (p + n) →
    w.stringNext n p = .ok (w.range p (p + n)) := by
  induction n with
  | zero =>
      intro p _
      rw [stringNext, Nat.add_zero, range_self]
  | succ n ih =>
      intro p h
      obtain ⟨x, hread, hrange⟩ := h.read_eq (by omega)
      have hnext : p + 1 + n = p + (n + 1) := by omega
      have hrest := ih (p + 1) (h.shrink (by omega) (by omega) (by omega))
      rw [hnext] at hrest
      rw [stringNext, hread, ok_bind, hrest, ok_bind, hrange, except_pure]

/-- `string(p, q)` copies the elements of the range. -/
theorem string_eq (h : w.Holds p q) : w.string p q = .ok (w.range p q) := by
  have hle := h.2.1
  have hq : p + (q - p) = q := by omega
  rw [string, assertThat_pos hle, ok_bind, stringNext_eq (q - p) p (by rw [hq]; exact h), hq]

/-! ### Ranges of a range -/

/-- A range without its first elements starts later. -/
theorem drop_range (w : Window α) (p q n : Nat) : (w.range p q).drop n = w.range (p + n) q := by
  rw [range, drop_slice, range, Nat.sub_sub]

/-- The first elements of a range are a range with the same start. -/
theorem take_range {n : Nat} (h : p + n ≤ q) : (w.range p q).take n = w.range p (p + n) := by
  rw [range, take_slice (by omega), range, Nat.add_sub_cancel_left]

end Window

end Muduo.Lib
