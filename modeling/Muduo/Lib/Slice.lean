import Mathlib.Data.List.Basic

/-!
# `Muduo.Lib.Slice`: index ranges of a list, overwritten in place

A byte vector is a list, and a pointer into it is an index. `slice v i n`
is the `n` elements from index `i`. Three writes change a range in place:

* `overwrite v dst data` copies `data`, which lies outside `v`, to `dst`;
* `copyForward n v src dst` moves a range inside `v`, one element at a
  time from the front, the way a forward element copy does. Each read
  sees the writes before it, so the source can be overwritten while it is
  read;
* `reverseRange v i n` reverses a range.

`slice_copyForward` is the fact about the second: when the target starts
no later than the source, the elements that arrive are the ones the
source held at the start, overlap or not.

The statements hold for every element type.
-/

set_option autoImplicit false

namespace Muduo.Lib

variable {α : Type} {v data : List α}

/-- The `n` elements of `v` from index `i`. -/
def slice (v : List α) (i n : Nat) : List α := (v.drop i).take n

/-- `v` with `data` written from index `dst`. -/
def overwrite (v : List α) (dst : Nat) (data : List α) : List α :=
  v.take dst ++ data ++ v.drop (dst + data.length)

/-- A forward element copy inside `v`: `n` elements from `src` to `dst`,
the first one first. -/
def copyForward : Nat → List α → Nat → Nat → List α
  | 0, v, _, _ => v
  | n + 1, v, src, dst =>
      match v[src]? with
      | some x => copyForward n (v.set dst x) (src + 1) (dst + 1)
      | none => v

/-- `v` with the `n` elements from index `i` in reverse order. -/
def reverseRange (v : List α) (i n : Nat) : List α := overwrite v i (slice v i n).reverse

/-- `v` cut or padded with `z` to length `n`. -/
def resize (v : List α) (n : Nat) (z : α) : List α :=
  v.take n ++ List.replicate (n - v.length) z

/-! ### Lengths -/

theorem length_slice {i n : Nat} (h : i + n ≤ v.length) :
    (slice v i n).length = n := by
  simp only [slice, List.length_take, List.length_drop]
  omega

theorem length_overwrite {dst : Nat}
    (h : dst + data.length ≤ v.length) : (overwrite v dst data).length = v.length := by
  simp only [overwrite, List.length_append, List.length_take, List.length_drop]
  omega

theorem length_copyForward (n : Nat) : ∀ (v : List α) (src dst : Nat),
    (copyForward n v src dst).length = v.length := by
  induction n with
  | zero => intro v src dst; rfl
  | succ n ih =>
      intro v src dst
      rw [copyForward]
      split
      · rw [ih, List.length_set]
      · rfl

@[simp] theorem length_resize (v : List α) (n : Nat) (z : α) : (resize v n z).length = n := by
  simp only [resize, List.length_append, List.length_take, List.length_replicate]
  omega

/-! ### Slices -/

@[simp] theorem slice_zero (v : List α) (i : Nat) : slice v i 0 = [] := by
  simp [slice]

/-- An element of a slice is an element of the vector. -/
theorem getElem?_slice (v : List α) (i n k : Nat) :
    (slice v i n)[k]? = if k < n then v[i + k]? else none := by
  simp [slice, List.getElem?_take, List.getElem?_drop]

/-- Two ranges with the same elements are equal. -/
theorem slice_congr {v w : List α} {i j n : Nat} (h : ∀ k < n, v[i + k]? = w[j + k]?) :
    slice v i n = slice w j n := by
  apply List.ext_getElem?
  intro k
  rw [getElem?_slice, getElem?_slice]
  split
  · exact h k ‹_›
  · rfl

/-- A range splits where it is cut. -/
theorem slice_add (v : List α) (i n m : Nat) :
    slice v i (n + m) = slice v i n ++ slice v (i + n) m := by
  simp only [slice, List.take_add, List.drop_drop]

theorem drop_slice (v : List α) (i n k : Nat) :
    (slice v i n).drop k = slice v (i + k) (n - k) := by
  simp only [slice, List.drop_take, List.drop_drop]

theorem take_slice {i n k : Nat} (h : k ≤ n) :
    (slice v i n).take k = slice v i k := by
  simp only [slice, List.take_take, Nat.min_eq_left h]

/-- An element of a list that has grown by one is an old one or the new one. -/
theorem getElem?_concat_cases {x y : α} {k : Nat} (h : (v ++ [x])[k]? = some y) :
    v[k]? = some y ∨ (k = v.length ∧ y = x) := by
  rw [List.getElem?_append] at h
  split at h
  · exact Or.inl h
  · obtain ⟨hlt, heq⟩ := List.getElem?_eq_some_iff.mp h
    rw [List.length_singleton] at hlt
    exact Or.inr ⟨by omega, by simpa using heq.symm⟩

/-! ### Reading back a write -/

/-- The written range holds the data. -/
theorem slice_overwrite_self {dst : Nat} (h : dst ≤ v.length) :
    slice (overwrite v dst data) dst data.length = data := by
  have hlen : (v.take dst).length = dst := by
    rw [List.length_take]
    omega
  rw [slice, overwrite, List.append_assoc, List.drop_append_of_le_length (by omega)]
  rw [List.drop_of_length_le (by omega), List.nil_append, List.take_left']
  rfl

/-- A range that ends before the written one is unchanged. -/
theorem slice_overwrite_before {dst i n : Nat}
    (h : i + n ≤ dst) (hdst : dst ≤ v.length) :
    slice (overwrite v dst data) i n = slice v i n := by
  apply slice_congr
  intro k hk
  have hlt : i + k < (v.take dst).length := by
    rw [List.length_take]
    omega
  rw [overwrite, List.append_assoc, List.getElem?_append_left hlt,
    List.getElem?_take_of_lt (by omega)]

/-- A range that starts after the written one is unchanged. -/
theorem slice_overwrite_after {dst i n : Nat}
    (h : dst + data.length ≤ i) (hdst : dst ≤ v.length) :
    slice (overwrite v dst data) i n = slice v i n := by
  apply slice_congr
  intro k hk
  have hlen : (v.take dst ++ data).length = dst + data.length := by
    rw [List.length_append, List.length_take]
    omega
  rw [overwrite, List.getElem?_append_right (by omega), hlen, List.getElem?_drop]
  congr 1
  omega

/-- Behind an overwrite, what is up to its end: the old start and the new data. -/
theorem take_overwrite {dst : Nat} (h : dst ≤ v.length) :
    (overwrite v dst data).take (dst + data.length) = v.take dst ++ data := by
  have hlen : (v.take dst ++ data).length = dst + data.length := by
    rw [List.length_append, List.length_take]
    omega
  rw [overwrite, List.take_left' hlen]

/-- What lies behind the data is not touched. -/
theorem drop_overwrite {dst n : Nat} (h : dst ≤ v.length)
    (hn : dst + data.length ≤ n) : (overwrite v dst data).drop n = v.drop n := by
  have hlen : (v.take dst ++ data).length = dst + data.length := by
    rw [List.length_append, List.length_take]
    omega
  rw [overwrite, List.drop_append, hlen, List.drop_of_length_le (by omega), List.nil_append,
    List.drop_drop]
  congr 1
  omega

/-! ### Writes one after the other -/

/-- One element is a write of length one. -/
theorem set_eq_overwrite {p : Nat} {x : α} (h : p < v.length) :
    v.set p x = overwrite v p [x] := by
  rw [List.set_eq_take_append_cons_drop, if_pos h, overwrite, List.append_assoc]
  rfl

/-- A write that starts where the last one ended continues it. -/
theorem overwrite_append {dst : Nat} {a b : List α}
    (h : dst + a.length ≤ v.length) :
    overwrite (overwrite v dst a) (dst + a.length) b = overwrite v dst (a ++ b) := by
  have hdst : dst ≤ v.length := by omega
  rw [overwrite, take_overwrite hdst, drop_overwrite hdst (by omega), overwrite,
    List.length_append, List.append_assoc (v.take dst), Nat.add_assoc]

/-- A write over the start of a longer one. -/
theorem overwrite_overwrite {dst : Nat} {a b c : List α} (hlen : a.length = c.length)
    (h : dst + a.length ≤ v.length) :
    overwrite (overwrite v dst (a ++ b)) dst c = overwrite v dst (c ++ b) := by
  have hdst : (v.take dst).length = dst := by
    rw [List.length_take]
    omega
  have hcut : (v.take dst ++ a).length = dst + c.length := by
    rw [List.length_append, hdst, hlen]
  have htake : (overwrite v dst (a ++ b)).take dst = v.take dst := by
    rw [overwrite, List.append_assoc, List.take_left' hdst]
  have hdrop : (overwrite v dst (a ++ b)).drop (dst + c.length)
      = b ++ v.drop (dst + (c ++ b).length) := by
    rw [overwrite, List.append_assoc, List.append_assoc, ← List.append_assoc (v.take dst),
      List.drop_left' hcut, List.length_append, List.length_append, hlen]
  rw [overwrite, htake, hdrop, overwrite, List.append_assoc, List.append_assoc, List.append_assoc]

/-- The first part of what was written, reversed in place. -/
theorem reverseRange_overwrite {dst : Nat} {a b : List α}
    (h : dst + a.length ≤ v.length) :
    reverseRange (overwrite v dst (a ++ b)) dst a.length = overwrite v dst (a.reverse ++ b) := by
  have hslice : slice (overwrite v dst (a ++ b)) dst a.length = a := by
    have hall : slice (overwrite v dst (a ++ b)) dst (a ++ b).length = a ++ b :=
      slice_overwrite_self (by omega)
    have htake := congrArg (List.take a.length) hall
    rwa [take_slice (by rw [List.length_append]; omega), List.take_left] at htake
  rw [reverseRange, hslice, overwrite_overwrite (List.length_reverse).symm h]

/-! ### Padding and moving -/

/-- Padding at the end does not change a range inside the old list. -/
theorem slice_resize {i n m : Nat} {z : α} (h : i + n ≤ v.length)
    (hm : v.length ≤ m) : slice (resize v m z) i n = slice v i n := by
  apply slice_congr
  intro k hk
  rw [resize, List.take_of_length_le hm, List.getElem?_append_left (by omega)]

/-- Where the forward copy puts each element. Induction on the number of
elements: the step writes index `dst` only, and every later read is at
`src + 1` or above, which the write at `dst ≤ src` does not reach. -/
theorem getElem?_copyForward (n : Nat) : ∀ (v : List α) (src dst k : Nat),
    dst ≤ src → src + n ≤ v.length →
      (copyForward n v src dst)[k]?
        = if dst ≤ k ∧ k < dst + n then v[src + (k - dst)]? else v[k]? := by
  induction n with
  | zero =>
      intro v src dst k _ _
      rw [copyForward, if_neg (by omega)]
  | succ n ih =>
      intro v src dst k hle hlen
      have hsrc : src < v.length := by omega
      have hx : v[src]? = some v[src] := List.getElem?_eq_getElem hsrc
      rw [copyForward]
      simp only [hx]
      rw [ih (v.set dst v[src]) (src + 1) (dst + 1) k (by omega)
        (by rw [List.length_set]; omega)]
      by_cases hk : dst + 1 ≤ k ∧ k < dst + 1 + n
      · rw [if_pos hk, if_pos (by omega), List.getElem?_set_ne (by omega)]
        congr 1
        omega
      · rw [if_neg hk]
        by_cases hkd : k = dst
        · -- The element this step has just put there.
          subst hkd
          rw [if_pos (by omega), List.getElem?_set_self (by omega), Nat.sub_self, Nat.add_zero, hx]
        · rw [if_neg (by omega), List.getElem?_set_ne (by omega)]

/-- A forward copy to an earlier place delivers the range as it was at
the start, also where the two places overlap. -/
theorem slice_copyForward {src dst n : Nat} (hle : dst ≤ src)
    (hlen : src + n ≤ v.length) :
    slice (copyForward n v src dst) dst n = slice v src n := by
  apply slice_congr
  intro k hk
  rw [getElem?_copyForward n v src dst (dst + k) hle hlen, if_pos (by omega)]
  congr 1
  omega

end Muduo.Lib
