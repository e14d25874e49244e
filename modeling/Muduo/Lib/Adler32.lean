import Mathlib.Data.List.Basic

/-!
# `Muduo.Lib.Adler32`: the Adler-32 checksum

The checksum of RFC 1950. Two sums modulo 65521 run over the bytes: the
first adds the bytes, the second adds the values of the first. The checksum
has the first sum in its low 16 bits and the second in its high 16 bits.

`adler32_set_ne` is the fact about it that error detection rests on: the
checksums of two byte strings that differ in one byte are different. The
first sums differ behind that byte, because two bytes are less than 65521
apart, and adding the same byte to both does not make them equal again.
-/

set_option autoImplicit false

namespace Muduo.Lib.Adler32

/-- The largest prime below `2 ^ 16`. -/
def base : Nat := 65521

/-- One byte more in the two sums. -/
def step (s : Nat × Nat) (x : UInt8) : Nat × Nat :=
  let s1 := (s.1 + x.toNat) % base
  (s1, (s.2 + s1) % base)

/-- The checksum `adler`, updated with `bytes`. -/
def adler32 (adler : Nat) (bytes : List UInt8) : Nat :=
  let s := bytes.foldl step (adler % 65536, adler / 65536 % 65536)
  s.2 * 65536 + s.1

theorem step_fst_lt (s : Nat × Nat) (x : UInt8) : (step s x).1 < base :=
  Nat.mod_lt _ (by decide)

/-- Adding the same byte keeps first sums apart. -/
theorem step_fst_ne {s s' : Nat × Nat} (hs : s.1 < base) (hs' : s'.1 < base) (hne : s.1 ≠ s'.1)
    (x : UInt8) : (step s x).1 ≠ (step s' x).1 := by
  simp only [step, base] at hs hs' ⊢
  omega

/-- Different bytes drive first sums apart. -/
theorem step_ne (s : Nat × Nat) {x y : UInt8} (hne : x ≠ y) : (step s x).1 ≠ (step s y).1 := by
  have hx := x.toNat_lt
  have hy := y.toNat_lt
  have hvalues : x.toNat ≠ y.toNat := fun h => hne (UInt8.toNat_inj.mp h)
  simp only [step, base]
  omega

theorem foldl_fst_lt (bytes : List UInt8) {s : Nat × Nat} (hs : s.1 < base) :
    (bytes.foldl step s).1 < base := by
  induction bytes generalizing s with
  | nil => exact hs
  | cons x bytes ih => exact ih (step_fst_lt s x)

/-- First sums that are apart stay apart over the same bytes. -/
theorem foldl_fst_ne (bytes : List UInt8) {s s' : Nat × Nat} (hs : s.1 < base) (hs' : s'.1 < base)
    (hne : s.1 ≠ s'.1) : (bytes.foldl step s).1 ≠ (bytes.foldl step s').1 := by
  induction bytes generalizing s s' with
  | nil => exact hne
  | cons x bytes ih =>
      exact ih (step_fst_lt s x) (step_fst_lt s' x) (step_fst_ne hs hs' hne x)

/-- The low half of a checksum is the first sum. -/
theorem adler32_mod (bytes : List UInt8) {adler : Nat} (h : adler % 65536 < base) :
    adler32 adler bytes % 65536
      = (bytes.foldl step (adler % 65536, adler / 65536 % 65536)).1 := by
  have hlt : (bytes.foldl step (adler % 65536, adler / 65536 % 65536)).1 < base :=
    foldl_fst_lt bytes h
  have hbase : base < 65536 := by decide
  simp only [adler32]
  omega

/-- One changed byte changes the low half of the checksum. -/
theorem adler32_set_ne {bytes : List UInt8} {i : Nat} {x : UInt8} (adler : Nat)
    (h : adler % 65536 < base) (hi : i < bytes.length) (hx : bytes[i]? ≠ some x) :
    adler32 adler (bytes.set i x) % 65536 ≠ adler32 adler bytes % 65536 := by
  have hne : x ≠ bytes[i] := by
    intro heq
    rw [heq] at hx
    exact hx (List.getElem?_eq_getElem hi)
  -- The two byte strings have the same beginning and the same end.
  have hnew : bytes.set i x = bytes.take i ++ x :: bytes.drop (i + 1) :=
    List.set_eq_take_append_cons_drop.trans (if_pos hi)
  have hold : bytes = bytes.take i ++ bytes[i] :: bytes.drop (i + 1) := by
    rw [← List.drop_eq_getElem_cons hi, List.take_append_drop]
  rw [adler32_mod _ h, adler32_mod _ h, hnew]
  conv => rhs; rw [hold]
  rw [List.foldl_append, List.foldl_append, List.foldl_cons, List.foldl_cons]
  exact foldl_fst_ne _ (step_fst_lt _ x) (step_fst_lt _ bytes[i]) (step_ne _ hne)

end Muduo.Lib.Adler32
