import Mathlib.Data.Nat.Digits.Lemmas

/-!
# `Muduo.Lib.Numeral`: numbers as text

`digitsOf b n` is the list of the digits of `n` in base `b`, the least
significant first, with the one digit 0 for zero. The text of a number is
the glyphs of these digits, the most significant first. `Glyphs` is an
alphabet for the digits of a base together with its inverse, and `decimal`
and `hex` are the two alphabets for bytes.

* `Glyphs.read_text`: a text reads back as its number, so different
  numbers have different texts.
* `Glyphs.canonical_text`: a text has no leading zero.
* `Glyphs.length_text_le`: a number below `b ^ k` has at most `k` digits.

`decimalText` is the text of an integer, with a minus sign for the negative
ones, and `readDecimal` reads it back.
-/

set_option autoImplicit false

namespace Muduo.Lib

/-! ### Digits -/

/-- The digits of `n`, the least significant first. Zero has one digit. -/
def digitsOf (b n : Nat) : List Nat := if n = 0 then [0] else Nat.digits b n

/-- The last digit, and the digits of the quotient if there are any. -/
theorem digitsOf_eq {b : Nat} (hb : 1 < b) (n : Nat) :
    digitsOf b n = n % b :: if n / b = 0 then [] else digitsOf b (n / b) := by
  by_cases hn : n = 0
  · rw [hn, Nat.zero_div, Nat.zero_mod, if_pos rfl]
    rfl
  · rw [digitsOf, if_neg hn, Nat.digits_eq_cons_digits_div hb hn]
    by_cases hq : n / b = 0
    · rw [if_pos hq, hq, Nat.digits_zero]
    · rw [if_neg hq, digitsOf, if_neg hq]

theorem digitsOf_ne_nil (b n : Nat) : digitsOf b n ≠ [] := by
  unfold digitsOf
  split
  · simp
  · exact Nat.digits_ne_nil_iff_ne_zero.mpr ‹_›

/-- Digits are below the base. -/
theorem digitsOf_lt {b n d : Nat} (hb : 1 < b) (hd : d ∈ digitsOf b n) : d < b := by
  unfold digitsOf at hd
  split at hd
  · rw [List.mem_singleton] at hd
    omega
  · exact Nat.digits_lt_base hb hd

/-- The digits have the number for their value. -/
theorem ofDigits_digitsOf (b n : Nat) : Nat.ofDigits b (digitsOf b n) = n := by
  unfold digitsOf
  split
  · rw [Nat.ofDigits_singleton]
    omega
  · exact Nat.ofDigits_digits b n

/-- A number below `b ^ k` has at most `k` digits. -/
theorem length_digitsOf_le {b n k : Nat} (hb : 1 < b) (hk : 1 ≤ k) (h : n < b ^ k) :
    (digitsOf b n).length ≤ k := by
  unfold digitsOf
  split
  · exact hk
  · exact (Nat.digits_length_le_iff hb n).mpr h

/-- The most significant digit is zero only for zero. -/
theorem getLast?_digitsOf {b n : Nat} (h : (digitsOf b n).getLast? = some 0) : n = 0 := by
  unfold digitsOf at h
  split at h
  · assumption
  · rename_i hn
    have hne : Nat.digits b n ≠ [] := Nat.digits_ne_nil_iff_ne_zero.mpr hn
    rw [List.getLast?_eq_some_getLast hne] at h
    exact absurd (Option.some.inj h) (Nat.getLast_digit_ne_zero b hn)

/-! ### Texts -/

/-- How the digits of base `b` are written, and read back. -/
structure Glyphs (b : Nat) where
  glyph : Nat → UInt8
  value : UInt8 → Option Nat
  value_glyph : ∀ d < b, value (glyph d) = some d

namespace Glyphs

variable {b : Nat} (g : Glyphs b)

/-- The text of `n`, the most significant digit first. -/
def text (n : Nat) : List UInt8 := ((digitsOf b n).map g.glyph).reverse

/-- The number that a text spells, if it is one. -/
def read (s : List UInt8) : Option Nat :=
  if s = [] then none else s.foldlM (fun acc c => (g.value c).map (acc * b + ·)) 0

/-- A text of digits without a leading zero. -/
structure Canonical (s : List UInt8) : Prop where
  ne_nil : s ≠ []
  digit : ∀ c ∈ s, ∃ d < b, c = g.glyph d
  zero : s.head? = some (g.glyph 0) → s = [g.glyph 0]

variable {g}

theorem glyph_inj {d e : Nat} (hd : d < b) (he : e < b) (h : g.glyph d = g.glyph e) : d = e := by
  have hvalue := g.value_glyph d hd
  rw [h, g.value_glyph e he] at hvalue
  exact (Option.some.inj hvalue).symm

theorem length_text (n : Nat) : (g.text n).length = (digitsOf b n).length := by
  rw [text, List.length_reverse, List.length_map]

theorem length_text_le {n k : Nat} (hb : 1 < b) (hk : 1 ≤ k) (h : n < b ^ k) :
    (g.text n).length ≤ k := by
  rw [length_text]
  exact length_digitsOf_le hb hk h

theorem length_text_pos (n : Nat) : 0 < (g.text n).length := by
  rw [length_text]
  exact List.length_pos_of_ne_nil (digitsOf_ne_nil b n)

/-- Every character is the glyph of a digit. -/
theorem mem_text {n : Nat} {c : UInt8} (hb : 1 < b) (h : c ∈ g.text n) : ∃ d < b, c = g.glyph d := by
  rw [text, List.mem_reverse, List.mem_map] at h
  obtain ⟨d, hd, rfl⟩ := h
  exact ⟨d, digitsOf_lt hb hd, rfl⟩

/-- Digits written the most significant first read back as their value. Induction on the
digits: the last glyph that is read belongs to the first of them. -/
theorem foldlM_glyphs {ds : List Nat} (h : ∀ d ∈ ds, d < b) :
    ((ds.map g.glyph).reverse).foldlM (fun acc c => (g.value c).map (acc * b + ·)) 0
      = some (Nat.ofDigits b ds) := by
  induction ds with
  | nil => rfl
  | cons d ds ih =>
      have hd : g.value (g.glyph d) = some d := g.value_glyph d (h d List.mem_cons_self)
      rw [List.map_cons, List.reverse_cons, List.foldlM_append,
        ih fun e he => h e (List.mem_cons_of_mem d he)]
      simp only [Option.bind_eq_bind, Option.bind_some, List.foldlM_cons, List.foldlM_nil, hd,
        Option.map_some, Option.pure_def, Nat.ofDigits_cons]
      rw [Nat.mul_comm, Nat.add_comm]

/-- A number is read back from its text. -/
theorem read_text (hb : 1 < b) (n : Nat) : g.read (g.text n) = some n := by
  have hne : g.text n ≠ [] := List.ne_nil_of_length_pos (length_text_pos n)
  rw [read, if_neg hne, text, foldlM_glyphs fun d hd => digitsOf_lt hb hd, ofDigits_digitsOf]

/-- Different numbers have different texts. -/
theorem text_inj (hb : 1 < b) {n m : Nat} (h : g.text n = g.text m) : n = m := by
  have hread := read_text (g := g) hb n
  rw [h, read_text hb] at hread
  exact (Option.some.inj hread).symm

/-- The text has digits only, and no zero in front of others. -/
theorem canonical_text (hb : 1 < b) (n : Nat) : g.Canonical (g.text n) where
  ne_nil := List.ne_nil_of_length_pos (length_text_pos n)
  digit := fun _ hc => mem_text hb hc
  zero := by
    intro hhead
    rw [text, List.head?_reverse, List.getLast?_map, Option.map_eq_some_iff] at hhead
    obtain ⟨d, hd, hglyph⟩ := hhead
    have hzero : d = 0 :=
      glyph_inj (digitsOf_lt hb (List.mem_of_getLast? hd)) (by omega) hglyph
    subst hzero
    rw [getLast?_digitsOf hd]
    rfl

end Glyphs

/-- The decimal digits in ASCII. -/
def decimal : Glyphs 10 where
  glyph d := UInt8.ofNat (48 + d)
  value c := if 48 ≤ c ∧ c ≤ 57 then some (c.toNat - 48) else none
  value_glyph := by decide

/-- The hexadecimal digits in ASCII, in upper case. -/
def hex : Glyphs 16 where
  glyph d := if d < 10 then UInt8.ofNat (48 + d) else UInt8.ofNat (55 + d)
  value c :=
    if 48 ≤ c ∧ c ≤ 57 then some (c.toNat - 48)
    else if 65 ≤ c ∧ c ≤ 70 then some (c.toNat - 55)
    else none
  value_glyph := by decide

/-! ### Integers -/

/-- The minus sign. -/
def minus : UInt8 := 45

/-- The decimal text of an integer. -/
def decimalText (v : Int) : List UInt8 :=
  if v < 0 then minus :: decimal.text v.natAbs else decimal.text v.natAbs

/-- The integer that a text spells, if it is one. -/
def readDecimal (s : List UInt8) : Option Int :=
  if s.head? = some minus then (decimal.read s.tail).map Int.negOfNat
  else (decimal.read s).map Int.ofNat

/-- No digit looks like a minus sign. -/
theorem head?_decimal_text (n : Nat) : (decimal.text n).head? ≠ some minus := by
  intro hhead
  obtain ⟨d, hd, hc⟩ := Glyphs.mem_text (by decide) (List.mem_of_mem_head? hhead)
  have hnone : ∀ d < 10, minus ≠ decimal.glyph d := by decide
  exact hnone d hd hc

/-- Reading takes a signed number back from its text. -/
theorem readDecimal_decimalText (v : Int) : readDecimal (decimalText v) = some v := by
  have hread := Glyphs.read_text (g := decimal) (by decide) v.natAbs
  unfold decimalText readDecimal
  split
  · rw [List.head?_cons, if_pos rfl, List.tail_cons, hread, Option.map_some, Int.negOfNat_eq]
    congr 1
    rw [Int.ofNat_eq_natCast]
    omega
  · rw [if_neg (head?_decimal_text _), hread, Option.map_some]
    congr 1
    rw [Int.ofNat_eq_natCast]
    omega

/-- Different numbers have different texts, with the sign. -/
theorem decimalText_inj {v w : Int} (h : decimalText v = decimalText w) : v = w := by
  have hread := readDecimal_decimalText v
  rw [h, readDecimal_decimalText] at hread
  exact (Option.some.inj hread).symm

/-- A negative integer below `10 ^ k` in absolute value has a text of at most `k + 1` bytes,
another one of at most `k`. -/
theorem length_decimalText_le {v : Int} {k : Nat} (hk : 1 ≤ k) (h : v.natAbs < 10 ^ k) :
    (decimalText v).length ≤ if v < 0 then k + 1 else k := by
  have hlen := Glyphs.length_text_le (g := decimal) (by decide) hk h
  unfold decimalText
  split
  · exact Nat.succ_le_succ hlen
  · exact hlen

end Muduo.Lib
