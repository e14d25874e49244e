import Mathlib.Algebra.Group.Nat.Defs
import Mathlib.Data.List.Induction

/-!
# `Muduo.Lib.BigEndian`: numbers as bytes, the most significant first

`toBytes n x` is `x` in `n` bytes, with what does not fit cut off, and
`ofBytes` reads bytes as a number. The two are inverse to each other:
`ofBytes_toBytes` up to the width, `toBytes_ofBytes` for every list of
bytes. The `BitVec` forms are the ones for fixed-width integers.
-/

set_option autoImplicit false

namespace Muduo.Lib.BigEndian

/-- `x` in `n` bytes, the most significant first. -/
def toBytes : Nat → Nat → List UInt8
  | 0, _ => []
  | n + 1, x => toBytes n (x / 256) ++ [UInt8.ofNat x]

/-- The number that `bs` spells, the most significant byte first. -/
def ofBytes (bs : List UInt8) : Nat := bs.foldl (fun acc b => acc * 256 + b.toNat) 0

@[simp] theorem length_toBytes (n x : Nat) : (toBytes n x).length = n := by
  induction n generalizing x with
  | zero => rfl
  | succ n ih => rw [toBytes, List.length_append, ih, List.length_singleton]

/-- The last byte has the lowest weight. -/
theorem ofBytes_concat (bs : List UInt8) (b : UInt8) :
    ofBytes (bs ++ [b]) = ofBytes bs * 256 + b.toNat := by
  rw [ofBytes, List.foldl_append]
  rfl

/-- So many bytes hold no larger number. -/
theorem ofBytes_lt (bs : List UInt8) : ofBytes bs < 256 ^ bs.length := by
  induction bs using List.reverseRecOn with
  | nil => exact Nat.one_pos
  | append_singleton bs b ih =>
      have hb : b.toNat < 256 := b.toNat_lt
      rw [ofBytes_concat, List.length_append, List.length_singleton, Nat.pow_succ]
      omega

/-- A number read back from its bytes, up to the width. -/
theorem ofBytes_toBytes (n x : Nat) : ofBytes (toBytes n x) = x % 256 ^ n := by
  induction n generalizing x with
  | zero => rw [Nat.pow_zero, Nat.mod_one, toBytes, ofBytes, List.foldl_nil]
  | succ n ih =>
      have hlow : (UInt8.ofNat x).toNat = x % 256 := UInt8.toNat_ofNat'
      have hsplit : x % 256 ^ (n + 1) = x % 256 + 256 * (x / 256 % 256 ^ n) := by
        rw [Nat.pow_succ, Nat.mul_comm, Nat.mod_mul]
      rw [toBytes, ofBytes_concat, ih, hlow, hsplit]
      omega

/-- Bytes written back from the number they spell. -/
theorem toBytes_ofBytes (bs : List UInt8) : toBytes bs.length (ofBytes bs) = bs := by
  induction bs using List.reverseRecOn with
  | nil => rfl
  | append_singleton bs b ih =>
      have hb : b.toNat < 256 := b.toNat_lt
      have hhigh : (ofBytes bs * 256 + b.toNat) / 256 = ofBytes bs := by omega
      have hlow : UInt8.ofNat (ofBytes bs * 256 + b.toNat) = b := by
        apply UInt8.toNat_inj.mp
        rw [UInt8.toNat_ofNat']
        omega
      rw [List.length_append, List.length_singleton, ofBytes_concat, toBytes, hhigh, ih, hlow]

/-! ### Integers of `8 * n` bits -/

variable {n : Nat}

/-- A word is read back from its bytes. -/
theorem ofBytes_toNat (x : BitVec (8 * n)) : BitVec.ofNat (8 * n) (ofBytes (toBytes n x.toNat)) = x := by
  have hpow : 256 ^ n = 2 ^ (8 * n) := by rw [Nat.pow_mul]
  rw [ofBytes_toBytes, hpow, Nat.mod_eq_of_lt x.isLt, BitVec.ofNat_toNat, BitVec.setWidth_eq]

/-- The bytes of a word that was read from bytes are these bytes. -/
theorem toBytes_toNat {bs : List UInt8} (h : bs.length = n) :
    toBytes n (BitVec.ofNat (8 * n) (ofBytes bs)).toNat = bs := by
  have hpow : 256 ^ n = 2 ^ (8 * n) := by rw [Nat.pow_mul]
  have hlt := ofBytes_lt bs
  rw [h, hpow] at hlt
  rw [BitVec.toNat_ofNat, Nat.mod_eq_of_lt hlt, ← h, toBytes_ofBytes]

end Muduo.Lib.BigEndian
