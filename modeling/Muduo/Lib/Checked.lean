import Muduo.Lib.Transition
import Mathlib.Algebra.Group.Int.Defs
import Mathlib.Algebra.Group.Nat.Defs
import Mathlib.Data.Int.Basic

/-!
# `Muduo.Lib.Checked`: signed machine arithmetic that must not overflow

Signed overflow is undefined behaviour in C++. An expression of type
`Checked w` is computed with `w` bits, and it is a fault when one of its
operations leaves the range of the type. Division truncates towards zero.

`add_ofInt` and its companions say that an operation is exact when its result
is in range. They rewrite an expression over known values from the leaves to
the root, and each asks for the range of one intermediate result, so the
facts that they leave are what "no overflow" means for the expression.
-/

set_option autoImplicit false

namespace Muduo.Lib

/-- The values of a signed type of `w` bits. -/
def InRange (w : Nat) (x : Int) : Prop := -2 ^ (w - 1) ≤ x ∧ x < 2 ^ (w - 1)

instance (w : Nat) (x : Int) : Decidable (InRange w x) := inferInstanceAs (Decidable (_ ∧ _))

/-- The range of `int`, with the numbers written out for `omega`. -/
theorem inRange_32 {x : Int} : InRange 32 x ↔ -2147483648 ≤ x ∧ x ≤ 2147483647 := by
  rw [InRange]
  omega

/-- The range of `int64_t`, with the numbers written out for `omega`. -/
theorem inRange_64 {x : Int} :
    InRange 64 x ↔ -9223372036854775808 ≤ x ∧ x ≤ 9223372036854775807 := by
  rw [InRange]
  omega

namespace Checked

/-- What the computation of an expression can run into. -/
inductive Fault where
  | overflow
  | divisionByZero
  deriving DecidableEq, Repr

end Checked

/-- An expression that is computed with `w` bits. -/
def Checked (_ : Nat) : Type := Except Checked.Fault Int

namespace Checked

variable {w : Nat}

/-- A variable that holds `x`. -/
def ofInt (x : Int) : Checked w := Except.ok x

instance : Coe Int (Checked w) := ⟨ofInt⟩

instance (n : Nat) : OfNat (Checked w) n := ⟨ofInt (OfNat.ofNat n)⟩

/-- The value that the expression computes. -/
def eval (e : Checked w) : Except Fault Int := e

/-- The exact result of an operation, which has to be in range. -/
def fit (w : Nat) (x : Int) : Except Fault Int :=
  if InRange w x then .ok x else .error .overflow

instance : Add (Checked w) := ⟨fun e f => do fit w ((← e.eval) + (← f.eval))⟩
instance : Sub (Checked w) := ⟨fun e f => do fit w ((← e.eval) - (← f.eval))⟩
instance : Mul (Checked w) := ⟨fun e f => do fit w ((← e.eval) * (← f.eval))⟩

instance : Div (Checked w) :=
  ⟨fun e f => do
    let x ← e.eval
    let y ← f.eval
    assertThat (y ≠ 0) .divisionByZero
    fit w (x.tdiv y)⟩

instance : Mod (Checked w) :=
  ⟨fun e f => do
    let x ← e.eval
    let y ← f.eval
    assertThat (y ≠ 0) .divisionByZero
    fit w (x.tmod y)⟩

end Checked

/-- An expression of type `int`. -/
abbrev int32 (e : Checked 32) : Except Checked.Fault Int := e.eval

/-- An expression of type `int64_t`. -/
abbrev int64 (e : Checked 64) : Except Checked.Fault Int := e.eval

namespace Checked

variable {w : Nat} {x y : Int}

/-- A result in range is returned as it is. -/
theorem fit_pos (h : InRange w x) : fit w x = .ok x := if_pos h

/-- The last rewriting step: an expression that has become a value returns it. -/
theorem eval_ofInt (x : Int) : (ofInt x : Checked w).eval = .ok x := rfl

/-- A literal is a value. The first rewriting step, which makes the rules below applicable. -/
theorem ofNat_eq (n : Nat) : (OfNat.ofNat n : Checked w) = ofInt (OfNat.ofNat n) := rfl

/-- The sum of two values is exact when it is in range. -/
theorem add_ofInt (h : InRange w (x + y)) : (ofInt x + ofInt y : Checked w) = ofInt (x + y) :=
  fit_pos h

/-- The difference of two values is exact when it is in range. -/
theorem sub_ofInt (h : InRange w (x - y)) : (ofInt x - ofInt y : Checked w) = ofInt (x - y) :=
  fit_pos h

/-- The product of two values is exact when it is in range. -/
theorem mul_ofInt (h : InRange w (x * y)) : (ofInt x * ofInt y : Checked w) = ofInt (x * y) :=
  fit_pos h

/-- Truncating division, in terms of the Euclidean one. -/
theorem tdiv_tmod_cases (x y : Int) :
    0 ≤ x ∧ x.tdiv y = x / y ∧ x.tmod y = x % y ∨
      x < 0 ∧ x.tdiv y = -(-x / y) ∧ x.tmod y = -(-x % y) := by
  by_cases hx : 0 ≤ x
  · exact .inl ⟨hx, Int.tdiv_eq_ediv_of_nonneg hx, Int.tmod_eq_emod_of_nonneg hx⟩
  · have hneg : 0 ≤ -x := by omega
    refine .inr ⟨by omega, ?_, ?_⟩
    · rw [← Int.tdiv_eq_ediv_of_nonneg hneg, Int.neg_tdiv, Int.neg_neg]
    · rw [← Int.tmod_eq_emod_of_nonneg hneg, Int.neg_tmod, Int.neg_neg]

/-- The quotient, rounded towards zero. Only the smallest value divided by -1 is out of range. -/
theorem tdiv_ofInt (hy : y ≠ 0) (h : InRange w (x.tdiv y)) :
    (ofInt x / ofInt y : Checked w) = ofInt (x.tdiv y) := by
  show (assertThat (y ≠ 0) Fault.divisionByZero >>= fun _ => fit w (x.tdiv y)) = _
  rw [assertThat_pos hy, ok_bind, fit_pos h]
  rfl

/-- The remainder, which has the sign of the dividend. -/
theorem tmod_ofInt (hy : y ≠ 0) (h : InRange w (x.tmod y)) :
    (ofInt x % ofInt y : Checked w) = ofInt (x.tmod y) := by
  show (assertThat (y ≠ 0) Fault.divisionByZero >>= fun _ => fit w (x.tmod y)) = _
  rw [assertThat_pos hy, ok_bind, fit_pos h]
  rfl

/-- Of a value that is not negative, the quotient is the one of Euclidean division. -/
theorem div_ofInt (hx : 0 ≤ x) (hy : 0 < y) (h : InRange w (x / y)) :
    (ofInt x / ofInt y : Checked w) = ofInt (x / y) := by
  have hexact := Int.tdiv_eq_ediv_of_nonneg (b := y) hx
  rw [← hexact] at h ⊢
  exact tdiv_ofInt (by omega) h

end Checked

end Muduo.Lib
