import Mathlib.Algebra.Group.Nat.Defs
import Mathlib.Data.List.Basic

/-!
# `Muduo.Base.Types`: the fixed-width types of the sources

`size_t` is 64 bits wide: its sums and differences are taken modulo
`2 ^ 64`. `std::string` and `std::vector<char>` hold at most `maxSize`
bytes, the largest object the platform has (`PTRDIFF_MAX`), so a
`StdString` carries that bound. A `std::vector` that is asked for more
throws `std::length_error`.
-/

set_option autoImplicit false

namespace Muduo.Base

/-- The number of values of `size_t`. -/
def sizeModulus : Nat := 2 ^ 64

/-- `a + b` in `size_t`. -/
@[irreducible] def addSize (a b : Nat) : Nat := (a + b) % sizeModulus

/-- `a - b` in `size_t`. -/
@[irreducible] def subSize (a b : Nat) : Nat := (a + sizeModulus - b) % sizeModulus

/-- `max_size()` of a `std::string` or a `std::vector<char>`. -/
def maxSize : Nat := 2 ^ 63 - 1

/-- A sum that fits into `size_t` does not wrap. -/
theorem addSize_eq {a b : Nat} (h : a + b < sizeModulus) : addSize a b = a + b := by
  rw [addSize, Nat.mod_eq_of_lt h]

/-- A difference that is not negative does not wrap. -/
theorem subSize_eq {a b : Nat} (hb : b ≤ a) (ha : a < sizeModulus) : subSize a b = a - b := by
  have hsplit : a + sizeModulus - b = (a - b) + sizeModulus := by omega
  rw [subSize, hsplit, Nat.add_mod_right, Nat.mod_eq_of_lt (by omega)]

/-- The lengths of two strings have a sum in `size_t`. -/
theorem maxSize_add_maxSize_lt : maxSize + maxSize < sizeModulus := by
  rw [maxSize, sizeModulus]
  omega

/-- An `int` converted to `size_t`. -/
def intToSize (x : Int) : Nat := (x % (sizeModulus : Int)).toNat

/-- A number that is not negative keeps its value as a `size_t`. -/
theorem intToSize_eq {n : Nat} (h : n < sizeModulus) : intToSize n = n := by
  rw [intToSize, Int.emod_eq_of_lt (Int.natCast_nonneg n) (Int.ofNat_lt.mpr h), Int.toNat_natCast]

/-- `Timestamp`: microseconds since the epoch. -/
abbrev Timestamp := Int

/-- The bytes of an ASCII text. -/
def ascii (text : List Char) : List UInt8 := text.map (fun c => UInt8.ofNat c.toNat)

/-- A `std::string`: a byte sequence no longer than `max_size()`. -/
structure StdString where
  bytes : List UInt8
  length_le : bytes.length ≤ maxSize
  deriving DecidableEq

/-- `StringPiece`: the bytes that can be read from `ptr_` on, and `length_`,
which is an `int`. -/
structure StringPiece where
  ptr_ : List UInt8
  length_ : Int
  deriving DecidableEq, Repr

/-- `StringPiece(str)`: the size of the string becomes an `int`. -/
def StringPiece.ofString (str : List UInt8) : StringPiece :=
  ⟨str, (BitVec.ofNat 32 str.length).toInt⟩

/-- What a read brings, and the time of the read. -/
abbrev Chunk := StdString × Timestamp

/-- The bytes of all chunks. -/
def stream (chunks : List Chunk) : List UInt8 := (chunks.map (·.1.bytes)).flatten

@[simp] theorem stream_nil : stream [] = [] := rfl

@[simp] theorem stream_snoc (chunks : List Chunk) (chunk : Chunk) :
    stream (chunks ++ [chunk]) = stream chunks ++ chunk.1.bytes := by
  rw [stream, List.map_append, List.flatten_append]
  exact congrArg _ (List.append_nil _)

theorem length_stream_append (chunks more : List Chunk) :
    (stream (chunks ++ more)).length = (stream chunks).length + (stream more).length := by
  rw [stream, List.map_append, List.flatten_append, List.length_append]
  rfl

end Muduo.Base
