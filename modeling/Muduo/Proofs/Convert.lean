import Muduo.Base.LogStream
import Muduo.Lib.Numeral
import Mathlib.Algebra.Order.Ring.Int

/-!
# `Muduo.Proofs.Convert`: the text of an integer

`convert` divides with truncation and never negates: the remainders of a
negative value are negative digits, and the table has a glyph for each of
them. So the smallest value of a type needs no case of its own. What the loop
writes depends on the absolute value only, and `putDigits_spec` says it for
both conversions: the digits of `i.natAbs`, the least significant first.

The room that a conversion needs is the length of the text and one byte. No
other byte changes.
-/

set_option autoImplicit false

namespace Muduo.Base

open Muduo.Lib

/-! ### The range of a type -/

namespace IntType

variable {T : IntType} {x y : Int}

/-- What lies between zero and a value of the type is a value of the type. -/
theorem Contains.of_between (hx : T.Contains x) (hy : 0 ≤ y ∧ y ≤ x ∨ x ≤ y ∧ y ≤ 0) :
    T.Contains y := by
  have hpos : (0 : Int) < 2 ^ (T.bits - 1) := pow_pos (by decide) _
  unfold Contains InRange at hx ⊢
  by_cases hsigned : T.signed
  · rw [if_pos hsigned] at hx ⊢
    omega
  · rw [if_neg hsigned] at hx ⊢
    omega

/-- Quotient and remainder lie between zero and the dividend. -/
theorem Contains.tdiv_tmod (hx : T.Contains x) {b : Nat} (hb : 0 < b) :
    T.Contains (x.tdiv b) ∧ T.Contains (x.tmod b) := by
  have hne : (b : Int) ≠ 0 := by omega
  have hdivAbs : (x.tdiv b).natAbs ≤ x.natAbs := by
    rw [Int.natAbs_tdiv]
    exact Nat.div_le_self _ _
  have hmodAbs : (x.tmod b).natAbs ≤ x.natAbs := by
    rw [Int.natAbs_tmod]
    exact Nat.mod_le _ _
  obtain ⟨hsign, hdiv, hmod⟩ | ⟨hsign, hdiv, hmod⟩ := Checked.tdiv_tmod_cases x b
  · have hq : 0 ≤ x / b := Int.ediv_nonneg hsign (Int.natCast_nonneg b)
    have hr : 0 ≤ x % b := Int.emod_nonneg x hne
    exact ⟨hx.of_between (.inl ⟨by omega, by omega⟩), hx.of_between (.inl ⟨by omega, by omega⟩)⟩
  · have hq : 0 ≤ -x / b := Int.ediv_nonneg (by omega) (Int.natCast_nonneg b)
    have hr : 0 ≤ -x % b := Int.emod_nonneg (-x) hne
    exact ⟨hx.of_between (.inr ⟨by omega, by omega⟩), hx.of_between (.inr ⟨by omega, by omega⟩)⟩

/-- A value of at most 64 bits has at most 19 digits and a sign, or 20 digits. -/
theorem Contains.length_decimalText_le (hbits : T.bits ≤ 64) (hx : T.Contains x) :
    (decimalText x).length ≤ 20 := by
  unfold Contains InRange at hx
  split at hx
  · have hpow : (2 : Int) ^ (T.bits - 1) ≤ 2 ^ 63 := pow_le_pow_right₀ (by decide) (by omega)
    have hlen := Lib.length_decimalText_le (v := x) (k := 19) (by decide) (by omega)
    split at hlen <;> omega
  · have hpow : (2 : Int) ^ T.bits ≤ 2 ^ 64 := pow_le_pow_right₀ (by decide) hbits
    have hlen := Lib.length_decimalText_le (v := x) (k := 20) (by decide) (by omega)
    rwa [if_neg (by omega)] at hlen

end IntType

namespace LogStream

variable {T : IntType}

/-! ### One step -/

theorem fit_eq {x : Int} (h : T.Contains x) : fit T x = .ok x := if_pos h

theorem store_eq {mem : List UInt8} {p : Nat} {x : UInt8} (h : p < mem.length) :
    store mem p x = .ok (overwrite mem p [x]) := by
  rw [store, assertThat_pos h, ok_bind, except_pure, set_eq_overwrite h]

/-- The table `table` has the glyphs of `g` around `origin`: that of `d` stands
at the distance `d`, on both sides where `origin` is not the first index. -/
def HasGlyphs {b : Nat} (g : Glyphs b) (T : IntType) (table : List UInt8) (origin : Int) : Prop :=
  ∀ i, T.Contains i →
    load table (origin + (i.tmod b).bmod (2 ^ 32)) = .ok (g.glyph (i.natAbs % b))

/-- A round writes the last digit of `i` and goes on when there are more. -/
theorem putDigit_eq {b : Nat} {g : Glyphs b} {table : List UInt8} {origin : Int} (hb : 0 < b)
    (hg : HasGlyphs g T table origin) {s : Digits} (hi : T.Contains s.i) (hp : s.p < s.mem.length) :
    putDigit T b table origin s =
      .ok (if s.i.tdiv b ≠ 0
        then .again ⟨overwrite s.mem s.p [g.glyph (s.i.natAbs % b)], s.p + 1, s.i.tdiv b⟩
        else .stop ⟨overwrite s.mem s.p [g.glyph (s.i.natAbs % b)], s.p + 1, s.i.tdiv b⟩) := by
  obtain ⟨hdiv, hmod⟩ := hi.tdiv_tmod hb
  rw [putDigit, fit_eq hmod, ok_bind, fit_eq hdiv, ok_bind, hg s.i hi, ok_bind, store_eq hp,
    ok_bind, except_pure]

/-! ### The loop -/

/-- The loop writes the digits of `|i|`, the least significant first. Induction on the fuel:
the quotient of a further round has a smaller absolute value, which is what is left to write. -/
theorem putDigits_spec {b : Nat} {g : Glyphs b} {table : List UInt8} {origin : Int} (hb : 1 < b)
    (hg : HasGlyphs g T table origin) : ∀ (fuel : Nat) (mem : List UInt8) (p : Nat) (i : Int),
      T.Contains i → i.natAbs < fuel → p + (digitsOf b i.natAbs).length ≤ mem.length →
      loop (putDigit T b table origin) .diverges fuel ⟨mem, p, i⟩
        = .ok ⟨overwrite mem p ((digitsOf b i.natAbs).map g.glyph),
            p + (digitsOf b i.natAbs).length, 0⟩ := by
  intro fuel
  induction fuel with
  | zero =>
      intro mem p i _ hlt _
      omega
  | succ fuel ih =>
      intro mem p i hi hlt hroom
      have hstep := digitsOf_eq hb i.natAbs
      have habs : (i.tdiv b).natAbs = i.natAbs / b := by
        rw [Int.natAbs_tdiv, Int.natAbs_natCast]
        rfl
      have hp : p < mem.length := by
        have hpos := List.length_pos_of_ne_nil (digitsOf_ne_nil b i.natAbs)
        omega
      have hround := putDigit_eq (s := ⟨mem, p, i⟩) (by omega) hg hi hp
      dsimp only at hround
      by_cases hq : i.tdiv b = 0
      · -- The last digit: the quotient is zero.
        rw [if_neg (not_not.mpr hq), hq] at hround
        rw [hq, Int.natAbs_zero] at habs
        rw [if_pos habs.symm] at hstep
        rw [loop_stop fuel hround, hstep]
        rfl
      · rw [if_pos hq] at hround
        have hne : i.natAbs / b ≠ 0 := by omega
        have hsmaller : i.natAbs / b < i.natAbs := Nat.div_lt_self (by
          by_contra hzero
          rw [Nat.eq_zero_of_not_pos hzero, Nat.zero_div] at hne
          exact hne rfl) hb
        rw [if_neg hne] at hstep
        rw [hstep, List.length_cons] at hroom
        have hone : (overwrite mem p [g.glyph (i.natAbs % b)]).length = mem.length :=
          length_overwrite hp
        rw [loop_again fuel hround,
          ih _ (p + 1) (i.tdiv b) (hi.tdiv_tmod (by omega)).1 (by omega) (by rw [habs]; omega),
          habs, hstep, List.map_cons, List.length_cons]
        rw [show p + 1 = p + [g.glyph (i.natAbs % b)].length from rfl, overwrite_append hp]
        congr 2
        simp only [List.length_singleton]
        omega

/-! ### The two tables -/

/-- A remainder lies within the base, on the side of its dividend. -/
theorem natAbs_tmod_lt (i : Int) {b : Nat} (hb : 0 < b) :
    (i.tmod b).natAbs = i.natAbs % b ∧ (i.tmod b).natAbs < b := by
  have habs : (i.tmod b).natAbs = i.natAbs % b := by
    rw [Int.natAbs_tmod, Int.natAbs_natCast]
  exact ⟨habs, habs ▸ Nat.mod_lt _ hb⟩

/-- A digit is not changed by the conversion to `int`. -/
theorem bmod_digit {d : Int} (h : d.natAbs < 16) : d.bmod (2 ^ 32) = d := by
  rw [Int.bmod_def]
  split <;> omega

/-- `zero[d]` is the digit `|d|` for every `d` from -9 to 9. -/
theorem load_digits : ∀ k < 19, load digits (k : Nat) = .ok (decimal.glyph ((k : Int) - 9).natAbs) := by
  decide

theorem load_digitsHex : ∀ k < 16, load digitsHex (k : Nat) = .ok (hex.glyph k) := by
  decide

theorem hasGlyphs_digits (T : IntType) : HasGlyphs decimal T digits zero := by
  intro i _
  obtain ⟨habs, hlt⟩ := natAbs_tmod_lt i (b := 10) (by decide)
  have hload := load_digits (zero + i.tmod (10 : Nat)).toNat (by rw [zero]; omega)
  rw [bmod_digit (by omega), ← habs]
  rw [zero] at hload ⊢
  rw [Int.toNat_of_nonneg (by omega)] at hload
  rw [hload]
  congr 3
  omega

theorem hasGlyphs_digitsHex : HasGlyphs hex IntType.uintptr digitsHex 0 := by
  intro i hi
  obtain ⟨habs, hlt⟩ := natAbs_tmod_lt i (b := 16) (by decide)
  -- An unsigned value has no negative remainder, and the table no glyph for one.
  have hsign : 0 ≤ i.tmod (16 : Nat) := Int.tmod_nonneg _ hi.1
  have hload := load_digitsHex (i.tmod (16 : Nat)).natAbs hlt
  rw [bmod_digit (by omega), ← habs, Int.zero_add, ← hload, Int.natAbs_of_nonneg hsign]

/-! ### The conversions -/

/-- The end of both conversions: the terminating byte goes behind what was written, and what was
written is reversed. -/
theorem terminate_eq {mem ds : List UInt8} {buf : Nat} (hroom : buf + ds.length + 1 ≤ mem.length) :
    (store (overwrite mem buf ds) (buf + ds.length) 0 >>= fun mem' =>
        (.ok (reverseRange mem' buf (buf + ds.length - buf), buf + ds.length - buf) :
          Except Fault (List UInt8 × Nat)))
      = .ok (overwrite mem buf (ds.reverse ++ [0]), ds.reverse.length) := by
  have hlen : (overwrite mem buf ds).length = mem.length := length_overwrite (by omega)
  have hback : buf + ds.length - buf = ds.length := by omega
  rw [store_eq (by omega), ok_bind, overwrite_append (by omega), hback,
    reverseRange_overwrite (by omega), List.length_reverse]

theorem convert_eq {mem : List UInt8} {buf : Nat} {v : Int} (hv : T.Contains v)
    (hroom : buf + (decimalText v).length + 1 ≤ mem.length) :
    convert T mem buf v
      = .ok (overwrite mem buf (decimalText v ++ [0]), (decimalText v).length) := by
  obtain ⟨ds, hds⟩ : ∃ ds, ds = (digitsOf 10 v.natAbs).map decimal.glyph := ⟨_, rfl⟩
  have hlen : ds.length = (digitsOf 10 v.natAbs).length := by rw [hds, List.length_map]
  have htext : decimalText v = if v < 0 then minus :: ds.reverse else ds.reverse := by
    rw [decimalText, Glyphs.text, hds]
  have hloop := putDigits_spec (by decide) (hasGlyphs_digits T) (v.natAbs + 1) mem buf v hv
    (Nat.lt_succ_self _) (by
      rw [htext] at hroom
      split at hroom <;> simp only [List.length_cons, List.length_reverse] at hroom <;> omega)
  rw [← hds, ← hlen] at hloop
  have hcast : ((10 : Nat) : Int) = 10 := rfl
  rw [hcast] at hloop
  rw [convert, hloop, ok_bind]
  by_cases hneg : v < 0
  · -- The sign is written behind the digits, and the reversal brings it to the front.
    rw [if_pos hneg] at htext
    have hsigned : (ds ++ [minus]).reverse = decimalText v := by
      rw [List.reverse_append, htext]
      rfl
    have hlength : (ds ++ [minus]).length = ds.length + 1 := List.length_append
    rw [htext, List.length_cons, List.length_reverse] at hroom
    have hds' : (overwrite mem buf ds).length = mem.length := length_overwrite (by omega)
    simp only [if_pos hneg]
    rw [show (45 : UInt8) = minus from rfl, store_eq (by omega), ok_bind,
      overwrite_append (by omega), Nat.add_assoc, ← hlength]
    exact (terminate_eq (by omega)).trans (by rw [hsigned])
  · rw [if_neg hneg] at htext
    rw [htext, List.length_reverse] at hroom
    simp only [if_neg hneg]
    rw [except_pure, ok_bind, htext]
    exact terminate_eq hroom

theorem convertHex_eq {mem : List UInt8} {buf : Nat} {v : BitVec 64}
    (hroom : buf + (hex.text v.toNat).length + 1 ≤ mem.length) :
    convertHex mem buf v
      = .ok (overwrite mem buf (hex.text v.toNat ++ [0]), (hex.text v.toNat).length) := by
  obtain ⟨ds, hds⟩ : ∃ ds, ds = (digitsOf 16 v.toNat).map hex.glyph := ⟨_, rfl⟩
  have hlen : ds.length = (digitsOf 16 v.toNat).length := by rw [hds, List.length_map]
  have htext : hex.text v.toNat = ds.reverse := by rw [Glyphs.text, hds]
  have hv : IntType.uintptr.Contains (v.toNat : Int) := by
    have hlt := v.isLt
    show 0 ≤ (v.toNat : Int) ∧ (v.toNat : Int) < 2 ^ 64
    omega
  rw [htext, List.length_reverse] at hroom
  have hloop := putDigits_spec (by decide) hasGlyphs_digitsHex (v.toNat + 1) mem buf v.toNat hv
    (by rw [Int.natAbs_natCast]; omega) (by rw [Int.natAbs_natCast]; omega)
  rw [Int.natAbs_natCast, ← hds, ← hlen] at hloop
  have hcast : ((16 : Nat) : Int) = 16 := rfl
  rw [hcast] at hloop
  rw [convertHex, hloop, ok_bind, htext]
  exact terminate_eq hroom

theorem length_hex_text_le (v : BitVec 64) : (hex.text v.toNat).length ≤ 16 := by
  have hlt := v.isLt
  exact Glyphs.length_text_le (by decide) (by decide) (by omega)

/-- The conversions are exact: `convert` writes the decimal text of every value of every type of
16 to 64 bits, with the terminating byte, and nothing else. The text has at most 20 bytes, has no
leading zero and a sign for a negative value only, and reads back as the value. `convertHex` does
so in base 16, with at most 16 digits. The result is a value in each case: no division overflows,
and the loops end. -/
theorem convert_exact (T : IntType) (hbits : 16 ≤ T.bits ∧ T.bits ≤ 64) :
    (∀ v, T.Contains v →
      (∀ mem buf, buf + (decimalText v).length + 1 ≤ mem.length →
        convert T mem buf v
          = .ok (overwrite mem buf (decimalText v ++ [0]), (decimalText v).length)) ∧
      (decimalText v).length ≤ 20 ∧
      (∃ ds, decimal.Canonical ds ∧ decimalText v = if v < 0 then minus :: ds else ds) ∧
      readDecimal (decimalText v) = some v ∧
      ∀ w, T.Contains w → decimalText v = decimalText w → v = w) ∧
    (∀ v : BitVec 64,
      (∀ mem buf, buf + (hex.text v.toNat).length + 1 ≤ mem.length →
        convertHex mem buf v
          = .ok (overwrite mem buf (hex.text v.toNat ++ [0]), (hex.text v.toNat).length)) ∧
      (hex.text v.toNat).length ≤ 16 ∧
      hex.Canonical (hex.text v.toNat) ∧
      hex.read (hex.text v.toNat) = some v.toNat ∧
      ∀ w : BitVec 64, hex.text v.toNat = hex.text w.toNat → v = w) := by
  constructor
  · intro v hv
    refine ⟨fun _ _ hroom => convert_eq hv hroom, hv.length_decimalText_le hbits.2, ?_,
      readDecimal_decimalText v, fun _ _ heq => decimalText_inj heq⟩
    exact ⟨decimal.text v.natAbs, Glyphs.canonical_text (by decide) _, rfl⟩
  · intro v
    refine ⟨fun _ _ hroom => convertHex_eq hroom, length_hex_text_le v,
      Glyphs.canonical_text (by decide) _, Glyphs.read_text (by decide) _, ?_⟩
    intro w heq
    exact BitVec.eq_of_toNat_eq (Glyphs.text_inj (by decide) heq)

/-- The smallest `short` fills a buffer of seven bytes. -/
theorem convert_exact_short :
    convert ⟨16, true⟩ (List.replicate 7 1) 0 (-32768)
      = .ok (ascii ['-', '3', '2', '7', '6', '8'] ++ [0], 6) := by
  have htext : decimalText (-32768) = ascii ['-', '3', '2', '7', '6', '8'] := by decide
  have hexact := ((convert_exact ⟨16, true⟩ (by decide)).1 (-32768) (by decide)).1
    (List.replicate 7 1) 0 (by rw [htext]; decide)
  rw [htext] at hexact
  exact hexact

end LogStream

end Muduo.Base
