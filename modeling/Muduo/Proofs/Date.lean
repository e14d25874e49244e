import Muduo.Base.Date
import Muduo.Lib.Gregorian

/-!
# `Muduo.Proofs.Date`: the calendar conversion is exact

The two functions of `Date.cc` are compared with the proleptic Gregorian
calendar of `Lib/Gregorian.lean`. The Julian day number of a date is its
`dayNumber` up to a constant, and `julianDay_next` says that it grows by one
from day to day.

`getJulianDayNumber_eq` and `getYearMonthDay_eq` are about one date: from
-4800-03-01 on and up to the day number at which `4 * (n + 32044) + 3` leaves
the type, no operation overflows, the first function returns the number and
the second one takes it back to the date. Both count years from March, as
`Gregorian.marchYear` does. That every number in the range is the number of
a date from -4800-03-01 on is not a matter of the code: every day has a date,
and the earlier dates have smaller numbers (`exists_julianDay`). So the second
function always returns a date that exists, and the two are inverse to each
other (`calendar_exact`).
-/

set_option autoImplicit false

namespace Muduo.Base

open Muduo.Lib

/-- The Julian day number, which is 2440588 for 1970-01-01. -/
def julianDay (d : Gregorian) : Int := d.dayNumber + 1721425

theorem julianDay_next (d : Gregorian) : julianDay d.next = julianDay d + 1 := by
  rw [julianDay, d.dayNumber_next, julianDay]
  omega

/-- The day numbers for which `getYearMonthDay` does not overflow. -/
def InDateRange (n : Int) : Prop := -32044 ≤ n ∧ 4 * (n + 32044) + 3 < 2 ^ 31

/-! ### One date -/

section
variable {d : Gregorian}

/-- The year that the algorithm computes with is not negative. -/
theorem marchYear_nonneg (h : d.NotBefore (-4800) 3 1) : 0 ≤ d.marchYear + 4800 := by
  rw [Gregorian.marchYear]
  obtain hlater | ⟨hyear, hmonth⟩ := h
  · split_ifs <;> omega
  · rw [if_neg (by omega)]
    omega

/-- The day number in the terms of the algorithm. -/
theorem julianDay_eq_march (d : Gregorian) :
    julianDay d = 365 * (d.marchYear + 4800) + (d.marchYear + 4800) / 4
      - (d.marchYear + 4800) / 100 + (d.marchYear + 4800) / 400 + d.marchDay - 32044 := by
  rw [julianDay, d.dayNumber_eq_march]
  omega

theorem julianDay_ge (h : d.NotBefore (-4800) 3 1) : -32044 ≤ julianDay d := by
  have hnonneg := marchYear_nonneg h
  have hday := d.marchDay_le.1
  have hnumber := julianDay_eq_march d
  omega

/-- A date with a number in the range is one from -4800-03-01 on. The March years before that end
on the day before. -/
theorem notBefore_of_le (h : -32044 ≤ julianDay d) : d.NotBefore (-4800) 3 1 := by
  have hmonth := d.month_range
  have hday := d.day_range.1
  have hmarch := d.marchDay_le
  have hnumber := julianDay_eq_march d
  have hyear : 0 ≤ d.marchYear + 4800 := by
    simp only [Calendar.IsLeap] at hmarch
    omega
  rw [Gregorian.marchYear] at hyear
  rw [Gregorian.NotBefore]
  split_ifs at hyear <;> omega

/-- Every number from that of the first day on is the number of a day. -/
theorem exists_julianDay {n : Int} (h : -32044 ≤ n) :
    ∃ d : Gregorian, d.NotBefore (-4800) 3 1 ∧ julianDay d = n := by
  obtain ⟨d, hd⟩ := Gregorian.exists_dayNumber (n - 1721425)
  have hn : julianDay d = n := by
    rw [julianDay, hd]
    omega
  exact ⟨d, notBefore_of_le (by rw [hn]; exact h), hn⟩

theorem marchYear_le (hrange : InDateRange (julianDay d)) :
    d.marchYear + 4800 ≤ 1500000 := by
  have hday := d.marchDay_le
  have hnumber := julianDay_eq_march d
  have hupper := hrange.2
  omega

/-- The first three assignments count the year and the month from March. -/
theorem marchYear_eq (d : Gregorian) :
    d.year + 4800 - (14 - d.month) / 12 = d.marchYear + 4800 ∧
      d.month + 12 * ((14 - d.month) / 12) - 3 = d.marchMonth := by
  have hmonth := d.month_range
  rw [Gregorian.marchYear, Gregorian.marchMonth]
  split_ifs <;> omega

theorem getJulianDayNumber_eq (h : d.NotBefore (-4800) 3 1) (hrange : InDateRange (julianDay d)) :
    getJulianDayNumber d.year d.month d.day = .ok (julianDay d) := by
  have hlo := marchYear_nonneg h
  have hhi := marchYear_le hrange
  have hmonth := d.month_range
  have hmarch := d.marchMonth_range
  obtain ⟨hy, hm⟩ := marchYear_eq d
  have hday : 1 ≤ d.day ∧ d.day ≤ 31 := by
    have hlen := d.day_range
    have hleap := Calendar.leapDay_cases d.year
    rw [Calendar.daysInMonth] at hlen
    split_ifs at hlen <;> omega
  have ha : int32 ((14 - d.month) / 12) = .ok ((14 - d.month) / 12) := by
    simp (disch := first | omega | exact inRange_32.mpr (by omega)) only [Checked.ofNat_eq,
      Checked.sub_ofInt, Checked.div_ofInt, Checked.eval_ofInt]
  have hyear : int32 (d.year + 4800 - ((14 - d.month) / 12 : Int)) = .ok (d.marchYear + 4800) := by
    rw [← hy]
    simp (disch := exact inRange_32.mpr (by omega)) only [Checked.ofNat_eq, Checked.add_ofInt,
      Checked.sub_ofInt, Checked.eval_ofInt]
  have hmon : int32 (d.month + 12 * ((14 - d.month) / 12 : Int) - 3) = .ok d.marchMonth := by
    rw [← hm]
    simp (disch := exact inRange_32.mpr (by omega)) only [Checked.ofNat_eq, Checked.add_ofInt,
      Checked.sub_ofInt, Checked.mul_ofInt, Checked.eval_ofInt]
  rw [getJulianDayNumber, ha, ok_bind, hyear, ok_bind, hmon, ok_bind]
  simp (disch := first | omega | exact inRange_32.mpr (by omega)) only [Checked.ofNat_eq,
    Checked.add_ofInt, Checked.sub_ofInt, Checked.mul_ofInt, Checked.div_ofInt, Checked.eval_ofInt]
  rw [julianDay_eq_march, Gregorian.marchDay]
  congr 1
  omega

/-- A year is `q` times 400 years, `r` centuries, `p` times four years and `s` years. -/
theorem year_parts (y : Int) :
    ∃ q r p s, y = 400 * q + 100 * r + 4 * p + s ∧ (0 ≤ r ∧ r ≤ 3) ∧ (0 ≤ p ∧ p ≤ 24) ∧
      (0 ≤ s ∧ s ≤ 3) :=
  ⟨y / 400, y % 400 / 100, y % 100 / 4, y % 4, by omega, by omega, by omega, by omega⟩

/-- The number of a date in the parts of its year. All cycles have full
length there but for the last day, which is there in a leap year only. -/
theorem julianDay_parts {q r p s : Int} (hy : d.marchYear + 4800 = 400 * q + 100 * r + 4 * p + s)
    (hr : 0 ≤ r ∧ r ≤ 3) (hp : 0 ≤ p ∧ p ≤ 24) (hs : 0 ≤ s ∧ s ≤ 3) :
    julianDay d + 32044 = 146097 * q + 36524 * r + 1461 * p + 365 * s + d.marchDay ∧
      0 ≤ d.marchDay ∧ (d.marchDay ≤ 364 ∨ d.marchDay = 365 ∧ s = 3 ∧ (p ≤ 23 ∨ r = 3)) := by
  have hnumber := julianDay_eq_march d
  have hday := d.marchDay_le
  have hfour : (d.marchYear + 4800) / 4 = 100 * q + 25 * r + p := by omega
  have hcentury : (d.marchYear + 4800) / 100 = 4 * q + r := by omega
  have hcycle : (d.marchYear + 4800) / 400 = q := by omega
  refine ⟨by omega, hday.1, ?_⟩
  obtain hfull | ⟨hlast, hleap⟩ := hday.2
  · exact .inl hfull
  · simp only [Calendar.IsLeap] at hleap
    exact .inr ⟨hlast, by omega, by omega⟩

/-- The last assignments turn the month and the year back to those of the calendar. -/
theorem date_of_march (d : Gregorian) :
    d.marchDay - (153 * d.marchMonth + 2) / 5 + 1 = d.day ∧
      d.marchMonth + 3 - 12 * (d.marchMonth / 10) = d.month ∧
      d.marchYear + d.marchMonth / 10 = d.year := by
  have hmonth := d.month_range
  rw [Gregorian.marchDay, Gregorian.marchMonth, Gregorian.marchYear]
  split_ifs <;> omega

end

/-- In the range no assignment of `getYearMonthDay` overflows. Every value
that is divided is not negative, so the divisions are Euclidean ones. -/
theorem getYearMonthDay_exact {n a b c d e m : Int} (h : InDateRange n) (ha : a = n + 32044)
    (hb : b = (4 * a + 3) / 146097) (hc : c = a - b * 146097 / 4) (hd : d = (4 * c + 3) / 1461)
    (he : e = c - 1461 * d / 4) (hm : m = (5 * e + 2) / 153) :
    getYearMonthDay n
      = .ok ⟨b * 100 + d - 4800 + m / 10, m + 3 - 12 * (m / 10), e - (153 * m + 2) / 5 + 1⟩ := by
  obtain ⟨hlow, hhigh⟩ := h
  have hb' : 0 ≤ b ∧ b * 146097 ≤ 4 * a + 3 := by omega
  have hc' : 0 ≤ c ∧ c ≤ 36524 := by omega
  have hd' : 0 ≤ d ∧ d ≤ 100 := by omega
  have he' : 0 ≤ e ∧ e ≤ 365 := by omega
  have hm' : 0 ≤ m ∧ m ≤ 11 := by omega
  have evala : int32 (n + 32044) = .ok a := by
    simp (disch := exact inRange_32.mpr (by omega)) only [Checked.ofNat_eq, Checked.add_ofInt,
      Checked.eval_ofInt, ← ha]
  have evalb : int32 ((4 * a + 3) / 146097) = .ok b := by
    simp (disch := first | omega | exact inRange_32.mpr (by omega)) only [Checked.ofNat_eq,
      Checked.mul_ofInt, Checked.add_ofInt, Checked.div_ofInt, Checked.eval_ofInt, ← hb]
  have evalc : int32 (a - b * 146097 / 4) = .ok c := by
    simp (disch := first | omega | exact inRange_32.mpr (by omega)) only [Checked.ofNat_eq,
      Checked.mul_ofInt, Checked.sub_ofInt, Checked.div_ofInt, Checked.eval_ofInt, ← hc]
  have evald : int32 ((4 * c + 3) / 1461) = .ok d := by
    simp (disch := first | omega | exact inRange_32.mpr (by omega)) only [Checked.ofNat_eq,
      Checked.mul_ofInt, Checked.add_ofInt, Checked.div_ofInt, Checked.eval_ofInt, ← hd]
  have evale : int32 (c - 1461 * d / 4) = .ok e := by
    simp (disch := first | omega | exact inRange_32.mpr (by omega)) only [Checked.ofNat_eq,
      Checked.mul_ofInt, Checked.sub_ofInt, Checked.div_ofInt, Checked.eval_ofInt, ← he]
  have evalm : int32 ((5 * e + 2) / 153) = .ok m := by
    simp (disch := first | omega | exact inRange_32.mpr (by omega)) only [Checked.ofNat_eq,
      Checked.mul_ofInt, Checked.add_ofInt, Checked.div_ofInt, Checked.eval_ofInt, ← hm]
  rw [getYearMonthDay, evala, ok_bind, evalb, ok_bind, evalc, ok_bind, evald, ok_bind, evale,
    ok_bind, evalm, ok_bind]
  simp (disch := first | omega | exact inRange_32.mpr (by omega)) only [Checked.ofNat_eq,
    Checked.mul_ofInt, Checked.add_ofInt, Checked.sub_ofInt, Checked.div_ofInt, Checked.eval_ofInt,
    ok_bind, except_pure]

/-- The number of a date is taken back to the date. -/
theorem getYearMonthDay_eq {d : Gregorian} (hrange : InDateRange (julianDay d)) :
    getYearMonthDay (julianDay d) = .ok ⟨d.year, d.month, d.day⟩ := by
  obtain ⟨q, r, p, s, hy, hr, hp, hs⟩ := year_parts (d.marchYear + 4800)
  obtain ⟨hnumber, hnonneg, hlast⟩ := julianDay_parts hy hr hp hs
  have hmonths := d.marchDay_range
  obtain ⟨hday, hmonth, hyear⟩ := date_of_march d
  -- What is left behind the centuries is less than a century, also in the last one of four.
  have hcenturies : 4 * q + r = (4 * (julianDay d + 32044) + 3) / 146097 := by omega
  have hinCentury : 1461 * p + 365 * s + d.marchDay
      = julianDay d + 32044 - (4 * q + r) * 146097 / 4 := by omega
  -- What is left behind the years is less than a year, also in the last one of four.
  have hyears : 4 * p + s = (4 * (1461 * p + 365 * s + d.marchDay) + 3) / 1461 := by omega
  have hinYear : d.marchDay = 1461 * p + 365 * s + d.marchDay - 1461 * (4 * p + s) / 4 := by omega
  have hmon : d.marchMonth = (5 * d.marchDay + 2) / 153 := by omega
  rw [getYearMonthDay_exact hrange rfl hcenturies hinCentury hyears hinYear hmon, hday, hmonth]
  have hwhole : (4 * q + r) * 100 + (4 * p + s) - 4800 + d.marchMonth / 10 = d.year := by omega
  rw [hwhole]

/-! ### The two conversions -/

/-- The calendar conversion is exact. For every date from -4800-03-01 on with
a number in the range, `getJulianDayNumber` returns the number without an
overflow and `getYearMonthDay` returns the date. From each such day to the
next `getJulianDayNumber` grows by one, and it is 2440588 for 1970-01-01. For
every number in the range `getYearMonthDay` returns a date that exists, and
`getJulianDayNumber` takes it back to the number. -/
theorem calendar_exact :
    (∀ d : Gregorian, d.NotBefore (-4800) 3 1 → 4 * (julianDay d + 32044) + 3 < 2 ^ 31 →
      getJulianDayNumber d.year d.month d.day = .ok (julianDay d) ∧
        getYearMonthDay (julianDay d) = .ok ⟨d.year, d.month, d.day⟩) ∧
    (∀ d : Gregorian, d.NotBefore (-4800) 3 1 → 4 * (julianDay d.next + 32044) + 3 < 2 ^ 31 →
      ∃ n, getJulianDayNumber d.year d.month d.day = .ok n ∧
        getJulianDayNumber d.next.year d.next.month d.next.day = .ok (n + 1)) ∧
    getJulianDayNumber 1970 1 1 = .ok 2440588 ∧
    ∀ n, -32044 ≤ n → 4 * (n + 32044) + 3 < 2 ^ 31 →
      ∃ d : Gregorian, getYearMonthDay n = .ok ⟨d.year, d.month, d.day⟩ ∧
        getJulianDayNumber d.year d.month d.day = .ok n := by
  refine ⟨?_, ?_, rfl, ?_⟩
  · intro d hfrom hupper
    have hrange : InDateRange (julianDay d) := ⟨julianDay_ge hfrom, hupper⟩
    exact ⟨getJulianDayNumber_eq hfrom hrange, getYearMonthDay_eq hrange⟩
  · intro d hfrom hupper
    have hnext := d.notBefore_next hfrom
    have hstep := julianDay_next d
    have hrange : InDateRange (julianDay d) := ⟨julianDay_ge hfrom, by omega⟩
    refine ⟨julianDay d, getJulianDayNumber_eq hfrom hrange, ?_⟩
    rw [getJulianDayNumber_eq hnext ⟨julianDay_ge hnext, hupper⟩, hstep]
  · intro n hlow hupper
    obtain ⟨d, hfrom, rfl⟩ := exists_julianDay hlow
    exact ⟨d, getYearMonthDay_eq ⟨hlow, hupper⟩, getJulianDayNumber_eq hfrom ⟨hlow, hupper⟩⟩

/-- The leap day of 2000 and the day after it. -/
theorem calendar_exact_leapDay :
    getJulianDayNumber 2000 2 29 = .ok 2451604 ∧ getYearMonthDay 2451604 = .ok ⟨2000, 2, 29⟩ ∧
      getJulianDayNumber 2000 3 1 = .ok 2451605 ∧
      ∃ d : Gregorian, getYearMonthDay 2451605 = .ok ⟨d.year, d.month, d.day⟩ ∧
        getJulianDayNumber d.year d.month d.day = .ok 2451605 := by
  obtain ⟨hdate, hnext, -, hnumber⟩ := calendar_exact
  have hleap := hdate ⟨2000, 2, 29, by decide, by decide⟩ (.inl (by decide)) (by decide)
  have hday : julianDay ⟨2000, 2, 29, by decide, by decide⟩ = 2451604 := by decide
  rw [hday] at hleap
  obtain ⟨n, hn, hsucc⟩ :=
    hnext ⟨2000, 2, 29, by decide, by decide⟩ (.inl (by decide)) (by decide)
  cases hleap.1.symm.trans hn
  exact ⟨hleap.1, hleap.2, hsucc, hnumber 2451605 (by decide) (by decide)⟩

end Muduo.Base
