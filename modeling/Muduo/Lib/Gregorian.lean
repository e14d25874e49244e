import Mathlib.Tactic.IntervalCases

/-!
# `Muduo.Lib.Gregorian`: the proleptic Gregorian calendar

A year is a leap year when it is divisible by 4, unless it is divisible by
100 and not by 400. Years are integers, with a year 0, and the rule holds for
all of them. A `Gregorian` is a date that exists: its fields say that the
month has a number and that the day is one of the month.

`dayNumber` counts the days. It is the number of days before the year, the
days before the month and the day, so it is the count that a calendar on the
wall gives. `dayNumber_next` says that it grows by one from each day to the
next one, and with the value at one day that determines it. The calendar
repeats itself every 400 years, which are 146097 days, so every integer is
the number of a day (`exists_dayNumber`).

`dayNumber_eq_march` is the same number with the year begun in March. There
the leap day is the last day of the year, and the days before the month no
longer depend on the year.
-/

set_option autoImplicit false

namespace Muduo.Lib

namespace Calendar

/-- The leap-year rule. -/
def IsLeap (year : Int) : Prop := year % 4 = 0 ∧ (year % 100 ≠ 0 ∨ year % 400 = 0)

instance (year : Int) : Decidable (IsLeap year) := inferInstanceAs (Decidable (_ ∧ _))

/-- The days that a leap year has more. -/
def leapDay (year : Int) : Int := if IsLeap year then 1 else 0

/-- The length of a month. -/
def daysInMonth (year month : Int) : Int :=
  if month = 2 then 28 + leapDay year
  else if month = 4 ∨ month = 6 ∨ month = 9 ∨ month = 11 then 30
  else 31

/-- The days between 0001-01-01 and January 1st of the year. -/
def daysBeforeYear (year : Int) : Int :=
  365 * (year - 1) + (year - 1) / 4 - (year - 1) / 100 + (year - 1) / 400

/-- The days between January 1st and the first day of the month. -/
def daysBeforeMonth (year month : Int) : Int :=
  ((List.range (month - 1).toNat).map fun k : Nat => daysInMonth year (k + 1)).sum

theorem leapDay_cases (year : Int) :
    IsLeap year ∧ leapDay year = 1 ∨ ¬ IsLeap year ∧ leapDay year = 0 := by
  by_cases h : IsLeap year
  · exact .inl ⟨h, if_pos h⟩
  · exact .inr ⟨h, if_neg h⟩

/-- After 400 years the leap years are the same. -/
theorem leapDay_add_cycles (year k : Int) : leapDay (year + 400 * k) = leapDay year := by
  have hleap := leapDay_cases year
  have hlater := leapDay_cases (year + 400 * k)
  simp only [IsLeap] at hleap hlater
  omega

theorem daysInMonth_add_cycles (year k month : Int) :
    daysInMonth (year + 400 * k) month = daysInMonth year month := by
  simp only [daysInMonth, leapDay_add_cycles]

theorem daysInMonth_pos (year month : Int) : 28 ≤ daysInMonth year month := by
  have hleap := leapDay_cases year
  rw [daysInMonth]
  split_ifs <;> omega

/-- A year is as long as the rule says. -/
theorem daysBeforeYear_succ (year : Int) :
    daysBeforeYear (year + 1) = daysBeforeYear year + 365 + leapDay year := by
  have hleap := leapDay_cases year
  simp only [IsLeap] at hleap
  simp only [daysBeforeYear]
  omega

theorem daysBeforeMonth_one (year : Int) : daysBeforeMonth year 1 = 0 := rfl

/-- A month adds its days. -/
theorem daysBeforeMonth_succ (year : Int) {month : Int} (h : 1 ≤ month) :
    daysBeforeMonth year (month + 1) = daysBeforeMonth year month + daysInMonth year month := by
  have hcount : (month + 1 - 1).toNat = (month - 1).toNat + 1 := by omega
  have hlast : (((month - 1).toNat : Nat) : Int) + 1 = month := by omega
  rw [daysBeforeMonth, hcount, List.range_succ, List.map_append, List.sum_append, List.map_singleton,
    List.sum_singleton, hlast, daysBeforeMonth]

/-- From March on, the days before a month are those before March and a
number that grows by 153 in five months. -/
theorem daysBeforeMonth_eq (year : Int) {month : Int} (h : 1 ≤ month ∧ month ≤ 12) :
    daysBeforeMonth year month =
      if month ≤ 2 then 31 * (month - 1) else (153 * (month - 3) + 2) / 5 + 59 + leapDay year := by
  obtain ⟨hlo, hhi⟩ := h
  interval_cases month <;> simp [daysBeforeMonth, daysInMonth, List.range_succ] <;> omega

/-- The twelve months make a year. -/
theorem daysBeforeMonth_end (year : Int) :
    daysBeforeMonth year 12 + daysInMonth year 12 = 365 + leapDay year := by
  rw [daysBeforeMonth_eq year (by omega)]
  simp [daysInMonth]
  omega

end Calendar

open Calendar

/-- A date that exists. -/
structure Gregorian where
  year : Int
  month : Int
  day : Int
  month_range : 1 ≤ month ∧ month ≤ 12
  day_range : 1 ≤ day ∧ day ≤ daysInMonth year month

namespace Gregorian

/-- The day after. -/
def next (d : Gregorian) : Gregorian :=
  if hday : d.day < daysInMonth d.year d.month then
    { d with day := d.day + 1, day_range := ⟨by have h := d.day_range; omega, by omega⟩ }
  else if hmonth : d.month < 12 then
    { year := d.year, month := d.month + 1, day := 1
      month_range := ⟨by have h := d.month_range; omega, by omega⟩
      day_range := ⟨by omega, by have h := daysInMonth_pos d.year (d.month + 1); omega⟩ }
  else
    { year := d.year + 1, month := 1, day := 1
      month_range := ⟨by omega, by omega⟩
      day_range := ⟨by omega, by have h := daysInMonth_pos (d.year + 1) 1; omega⟩ }

/-- The number of the day, which is 1 for 0001-01-01. -/
def dayNumber (d : Gregorian) : Int :=
  daysBeforeYear d.year + daysBeforeMonth d.year d.month + d.day

/-- The date is not before year-month-day. -/
def NotBefore (d : Gregorian) (year month day : Int) : Prop :=
  year < d.year ∨ year = d.year ∧ (month < d.month ∨ month = d.month ∧ day ≤ d.day)

variable (d : Gregorian)

/-- The number grows by one from each day to the next. The cases are those of `next`: in a month,
over the end of a month and over the end of a year. -/
theorem dayNumber_next : d.next.dayNumber = d.dayNumber + 1 := by
  have hmonth := d.month_range
  have hday := d.day_range
  rw [next]
  split_ifs with hsame hyear
  · simp only [dayNumber]
    omega
  · -- The last day of a month: the days before the next month count the whole month.
    have hsucc := daysBeforeMonth_succ d.year hmonth.1
    simp only [dayNumber]
    omega
  · -- The last day of December.
    have hlast : d.month = 12 := by omega
    have hsucc := daysBeforeYear_succ d.year
    have hend := daysBeforeMonth_end d.year
    have hone := daysBeforeMonth_one (d.year + 1)
    simp only [dayNumber]
    rw [hlast] at hsame ⊢
    rw [hlast] at hday
    omega

/-- The next day is no earlier. -/
theorem notBefore_next {year month day : Int} (h : d.NotBefore year month day) :
    d.next.NotBefore year month day := by
  rw [next]
  simp only [NotBefore] at h ⊢
  split_ifs
  · show year < d.year ∨ year = d.year ∧ (month < d.month ∨ month = d.month ∧ day ≤ d.day + 1)
    omega
  · show year < d.year ∨ year = d.year ∧ (month < d.month + 1 ∨ month = d.month + 1 ∧ day ≤ 1)
    omega
  · show year < d.year + 1 ∨ year = d.year + 1 ∧ (month < 1 ∨ month = 1 ∧ day ≤ 1)
    omega

/-! ### Every day has a date -/

/-- The date of the same day and month, `k` times 400 years later. -/
def addCycles (k : Int) : Gregorian where
  year := d.year + 400 * k
  month := d.month
  day := d.day
  month_range := d.month_range
  day_range := by
    rw [daysInMonth_add_cycles]
    exact d.day_range

/-- A cycle of 400 years has 146097 days. -/
theorem dayNumber_addCycles (k : Int) :
    (d.addCycles k).dayNumber = d.dayNumber + 146097 * k := by
  have hmonths : daysBeforeMonth (d.year + 400 * k) d.month = daysBeforeMonth d.year d.month := by
    simp only [daysBeforeMonth, daysInMonth_add_cycles]
  simp only [dayNumber, addCycles, hmonths, daysBeforeYear]
  omega

/-- Every integer is the number of a day: day by day from 0001-01-01 on, and from there by whole
cycles of 400 years. -/
theorem exists_dayNumber (n : Int) : ∃ d : Gregorian, d.dayNumber = n := by
  have hlater : ∀ k : Nat, ∃ d : Gregorian, d.dayNumber = k + 1 := by
    intro k
    induction k with
    | zero => exact ⟨⟨1, 1, 1, by decide, by decide⟩, by decide⟩
    | succ k ih =>
        obtain ⟨d, hd⟩ := ih
        refine ⟨d.next, ?_⟩
        rw [dayNumber_next, hd]
        omega
  obtain ⟨d, hd⟩ := hlater ((n - 1) % 146097).toNat
  refine ⟨d.addCycles ((n - 1) / 146097), ?_⟩
  rw [dayNumber_addCycles, hd]
  omega

/-! ### Years that begin in March -/

/-- The year that the date is in when years begin in March. -/
def marchYear : Int := if d.month ≤ 2 then d.year - 1 else d.year

/-- The months since March. -/
def marchMonth : Int := if d.month ≤ 2 then d.month + 9 else d.month - 3

/-- The days since March 1st. -/
def marchDay : Int := (153 * d.marchMonth + 2) / 5 + (d.day - 1)

theorem marchMonth_range : 0 ≤ d.marchMonth ∧ d.marchMonth ≤ 11 := by
  have hmonth := d.month_range
  rw [marchMonth]
  split_ifs <;> omega

/-- The number of the day by March years, as the algorithm of `Date.cc` counts. -/
theorem dayNumber_eq_march :
    d.dayNumber = 365 * d.marchYear + d.marchYear / 4 - d.marchYear / 100 + d.marchYear / 400
      + d.marchDay - 305 := by
  have hmonth := d.month_range
  have hleap := leapDay_cases d.year
  simp only [IsLeap] at hleap
  rw [dayNumber, daysBeforeMonth_eq d.year hmonth, daysBeforeYear, marchDay, marchMonth, marchYear]
  split_ifs <;> omega

/-- The months since March are determined by the days since March 1st. -/
theorem marchDay_range :
    153 * d.marchMonth ≤ 5 * d.marchDay + 2 ∧ 5 * d.marchDay + 2 < 153 * (d.marchMonth + 1) := by
  obtain ⟨year, month, day, ⟨hlo, hhi⟩, hday⟩ := d
  have hleap := leapDay_cases year
  simp only [marchDay, marchMonth]
  -- Month by month: the bound is about the integer part of a multiple of 30.6.
  interval_cases month <;> simp [daysInMonth] at hday ⊢ <;> omega

/-- A March year has 366 days when its February is in a leap year. -/
theorem marchDay_le :
    0 ≤ d.marchDay ∧ (d.marchDay ≤ 364 ∨ d.marchDay = 365 ∧ IsLeap (d.marchYear + 1)) := by
  have hmonth := d.month_range
  have hday := d.day_range
  have hleap := leapDay_cases d.year
  rw [daysInMonth] at hday
  simp only [IsLeap] at hleap ⊢
  rw [marchDay, marchMonth, marchYear]
  by_cases hearly : d.month ≤ 2
  · rw [if_pos hearly, if_pos hearly, Int.sub_add_cancel]
    split_ifs at hday <;> omega
  · rw [if_neg hearly, if_neg hearly]
    split_ifs at hday <;> omega

end Gregorian

end Muduo.Lib
