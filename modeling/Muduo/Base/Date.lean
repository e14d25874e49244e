import Muduo.Lib.Checked

/-!
# `Muduo.Base.Date`: dates and Julian day numbers

`muduo/base/Date.cc` and `muduo/base/Date.h`. The type `int` has 32 bits, and
an overflow is a fault.
-/

set_option autoImplicit false

namespace Muduo.Base

open Muduo.Lib

/-- `Date::YearMonthDay`. -/
structure YearMonthDay where
  year : Int
  month : Int
  day : Int
  deriving DecidableEq, Repr

/-- `getJulianDayNumber`. -/
def getJulianDayNumber (year month day : Int) : Except Checked.Fault Int := do
  let a ← int32 ((14 - month) / 12)
  let y ← int32 (year + 4800 - a)
  let m ← int32 (month + 12 * a - 3)
  int32 (day + (153 * m + 2) / 5 + y * 365 + y / 4 - y / 100 + y / 400 - 32045)

/-- `getYearMonthDay`. -/
def getYearMonthDay (julianDayNumber : Int) : Except Checked.Fault YearMonthDay := do
  let a ← int32 (julianDayNumber + 32044)
  let b ← int32 ((4 * a + 3) / 146097)
  let c ← int32 (a - b * 146097 / 4)
  let d ← int32 ((4 * c + 3) / 1461)
  let e ← int32 (c - 1461 * d / 4)
  let m ← int32 ((5 * e + 2) / 153)
  let day ← int32 (e - (153 * m + 2) / 5 + 1)
  let month ← int32 (m + 3 - 12 * (m / 10))
  let year ← int32 (b * 100 + d - 4800 + m / 10)
  return ⟨year, month, day⟩

/-- `Date`. -/
structure Date where
  julianDayNumber_ : Int
  deriving DecidableEq, Repr

namespace Date

/-- `Date(year, month, day)`. -/
def ofYearMonthDay (year month day : Int) : Except Checked.Fault Date := do
  let julianDayNumber ← getJulianDayNumber year month day
  return ⟨julianDayNumber⟩

/-- `kJulianDayOf1970_01_01`. -/
def kJulianDayOf1970_01_01 : Except Checked.Fault Int := getJulianDayNumber 1970 1 1

/-- `yearMonthDay()`. -/
def yearMonthDay (d : Date) : Except Checked.Fault YearMonthDay := getYearMonthDay d.julianDayNumber_

/-- `weekDay()`. Sunday is 0. -/
def weekDay (d : Date) : Except Checked.Fault Int := int32 ((d.julianDayNumber_ + 1) % 7)

end Date

end Muduo.Base
