import Muduo.Base.TimeZone
import Muduo.Proofs.Date

/-!
# `Muduo.Proofs.UtcTime`: breaking down a time in UTC

`toUtcTime` divides by the length of a day with truncation and corrects the
result for times before 1970. `splitDay_eq` says that after the correction
the seconds and the days are those of a division with floor, and that the
casts lose nothing. With the date of the day, which `Proofs/Date.lean` gives,
`toUtcTime_eq` describes every field of the result.

`fromUtcTime_eq` is the other direction, and `utc_round_trip` puts the two
together.
-/

set_option autoImplicit false

namespace Muduo.Base

open Muduo.Lib

/-! ### The day and the time of day -/

theorem castInt_eq {x : Int} (h : InRange 32 x) : castInt x = x := by
  have hrange := inRange_32.mp h
  exact Int.bmod_eq_of_le (by omega) (by omega)

theorem castUnsigned_eq {x : Int} (h : 0 ≤ x ∧ x ≤ 2147483647) : (castUnsigned x : Int) = x := by
  rw [castUnsigned]
  omega

theorem kSecondsPerDay_eq : kSecondsPerDay = 86400 := rfl

/-- The remainder and the quotient after the correction are those of the
division with floor. -/
theorem splitDay_eq {t : Int} (h : -2147483647 ≤ t / 86400 ∧ t / 86400 ≤ 2147483647) :
    splitDay (castInt (t.tmod 86400)) (castInt (t.tdiv 86400)) = .ok (t % 86400, t / 86400) := by
  have hcases := Checked.tdiv_tmod_cases t 86400
  rw [castInt_eq (inRange_32.mpr (by omega)), castInt_eq (inRange_32.mpr (by omega)), splitDay]
  by_cases hneg : t.tmod 86400 < 0
  · -- The time is before 1970 and not at midnight, so the quotient is one too large.
    have hadd : int32 ((t.tmod 86400 : Int) + kSecondsPerDay) = .ok (t % 86400) := by
      simp (disch := exact inRange_32.mpr (by omega)) only [kSecondsPerDay_eq, Checked.add_ofInt,
        Checked.eval_ofInt]
      congr 1
      omega
    have hsub : int32 ((t.tdiv 86400 : Int) - 1) = .ok (t / 86400) := by
      simp (disch := exact inRange_32.mpr (by omega)) only [Checked.ofNat_eq, Checked.sub_ofInt,
        Checked.eval_ofInt]
      congr 1
      omega
    rw [if_pos hneg, hadd, ok_bind, hsub, ok_bind, except_pure]
  · rw [if_neg hneg, except_pure]
    congr 1
    apply Prod.ext
    · show t.tmod 86400 = t % 86400
      omega
    · show t.tdiv 86400 = t / 86400
      omega

theorem kJulianDayOf1970_01_01_eq : Date.kJulianDayOf1970_01_01 = .ok 2440588 := rfl

/-- A Julian day number that is not negative gives the day of the week. -/
theorem weekDay_eq {n : Int} (h : InDateRange n) :
    ∃ wday, Date.weekDay ⟨n⟩ = .ok wday ∧ (0 ≤ n → wday = (n + 1) % 7) := by
  obtain ⟨hlow, hhigh⟩ := h
  have hcases := Checked.tdiv_tmod_cases (n + 1) 7
  refine ⟨(n + 1).tmod 7, ?_, ?_⟩
  · simp (disch := first | omega | exact inRange_32.mpr (by omega)) only [Date.weekDay,
      Checked.ofNat_eq, Checked.add_ofInt, Checked.tmod_ofInt, Checked.eval_ofInt]
  · omega

theorem year_range {d : Gregorian} (hfrom : d.NotBefore (-4800) 3 1)
    (hrange : InDateRange (julianDay d)) : -4800 ≤ d.year ∧ d.year ≤ 1500000 := by
  have hlo := marchYear_nonneg hfrom
  have hhi := marchYear_le hrange
  rw [Gregorian.marchYear] at hlo hhi
  split_ifs at hlo hhi <;> omega

/-! ### The first day of the year -/

/-- January 1st. -/
def newYear (year : Int) : Gregorian :=
  ⟨year, 1, 1, by decide, ⟨Int.le_refl 1, Int.le_trans (by decide) (Calendar.daysInMonth_pos year 1)⟩⟩

theorem julianDay_newYear (d : Gregorian) :
    julianDay d - julianDay (newYear d.year)
      = Calendar.daysBeforeMonth d.year d.month + d.day - 1 := by
  have hone := Calendar.daysBeforeMonth_one d.year
  simp only [julianDay, Gregorian.dayNumber, newYear, hone]
  omega

/-- The number of January 1st is computed without an overflow. In the year
-4800 the date lies before the range, and the number is not the right one. -/
theorem startOfYear_eq {d : Gregorian} (hfrom : d.NotBefore (-4800) 3 1)
    (hrange : InDateRange (julianDay d)) :
    ∃ n, Date.ofYearMonthDay d.year 1 1 = .ok ⟨n⟩ ∧ -32103 ≤ n ∧ n ≤ julianDay d ∧
      (-4799 ≤ d.year → n = julianDay (newYear d.year)) := by
  have hlow := julianDay_ge hfrom
  by_cases hyear : -4799 ≤ d.year
  · have hnew : (newYear d.year).NotBefore (-4800) 3 1 := .inl (by show -4800 < d.year; omega)
    have hdays := julianDay_newYear d
    have hmonth := Calendar.daysBeforeMonth_eq d.year d.month_range
    have hleap := Calendar.leapDay_cases d.year
    have hstart := d.month_range
    have hday := d.day_range
    have hle : julianDay (newYear d.year) ≤ julianDay d := by
      split_ifs at hmonth <;> omega
    have hupper := hrange.2
    have hnumber := getJulianDayNumber_eq hnew ⟨julianDay_ge hnew, by omega⟩
    refine ⟨julianDay (newYear d.year), ?_, ?_, hle, fun _ => rfl⟩
    · rw [Date.ofYearMonthDay]
      show getJulianDayNumber (newYear d.year).year (newYear d.year).month (newYear d.year).day >>= _
        = _
      rw [hnumber, ok_bind, except_pure]
    · have hge := julianDay_ge hnew
      omega
  · -- The year counted from March is -1 there, and its division by 4 truncates to 0.
    have hfirst : d.year = -4800 := by
      obtain hlater | ⟨hsame, -⟩ := hfrom
      · omega
      · exact hsame.symm
    refine ⟨-32103, ?_, Int.le_refl _, by omega, fun h => absurd h hyear⟩
    rw [hfirst]
    rfl

/-! ### Breaking down -/

/-- The fields of a time: those of the date `d` and of the seconds in the day. -/
structure Breaks (t : Int) (d : Gregorian) (yday : Bool) (tm : Tm) : Prop where
  sec : tm.tm_sec = t % 86400 % 60
  min : tm.tm_min = t % 86400 / 60 % 60
  hour : tm.tm_hour = t % 86400 / 60 / 60
  mday : tm.tm_mday = d.day
  mon : tm.tm_mon = d.month - 1
  year : tm.tm_year = d.year - 1900
  wday : 0 ≤ julianDay d → tm.tm_wday = (julianDay d + 1) % 7
  yday : yday = true → -4799 ≤ d.year →
    tm.tm_yday = Calendar.daysBeforeMonth d.year d.month + d.day - 1

/-- The seconds in the day are filled in. -/
theorem fillHMS_eq (seconds : Int) (h : 0 ≤ seconds ∧ seconds < 86400) (utc : Tm) :
    fillHMS (castUnsigned seconds) utc = { utc with
      tm_sec := seconds % 60, tm_min := seconds / 60 % 60, tm_hour := seconds / 60 / 60 } := by
  have hcast := castUnsigned_eq (x := seconds) (by omega)
  have hsec : ((castUnsigned seconds % 60 : Nat) : Int) = seconds % 60 := by omega
  have hmin : ((castUnsigned seconds / 60 % 60 : Nat) : Int) = seconds / 60 % 60 := by omega
  have hhour : ((castUnsigned seconds / 60 / 60 : Nat) : Int) = seconds / 60 / 60 := by omega
  simp only [fillHMS, hsec, hmin, hhour]

theorem toUtcTime_eq {t : Int} {d : Gregorian} (hfrom : d.NotBefore (-4800) 3 1)
    (hrange : InDateRange (julianDay d)) (hd : julianDay d = t / 86400 + 2440588) (yday : Bool) :
    ∃ tm, toUtcTime t yday = .ok tm ∧ Breaks t d yday tm := by
  have hlow := hrange.1
  have hhigh := hrange.2
  have hmonth := d.month_range
  have hcases := Checked.tdiv_tmod_cases t 86400
  -- The values of the function in the order in which it computes them.
  have hmod : int64 ((t : Checked 64) % kSecondsPerDay) = .ok (t.tmod 86400) := by
    simp (disch := first | omega | exact inRange_64.mpr (by omega)) only [kSecondsPerDay_eq,
      Checked.tmod_ofInt, Checked.eval_ofInt]
  have hdiv : int64 ((t : Checked 64) / kSecondsPerDay) = .ok (t.tdiv 86400) := by
    simp (disch := first | omega | exact inRange_64.mpr (by omega)) only [kSecondsPerDay_eq,
      Checked.tdiv_ofInt, Checked.eval_ofInt]
  have hsplit := splitDay_eq (t := t) (by omega)
  have hnumber : int32 ((t / 86400 : Int) + (2440588 : Int)) = .ok (julianDay d) := by
    rw [hd]
    simp (disch := exact inRange_32.mpr (by omega)) only [Checked.add_ofInt, Checked.eval_ofInt]
  have hdate : Date.yearMonthDay ⟨julianDay d⟩ = .ok ⟨d.year, d.month, d.day⟩ :=
    getYearMonthDay_eq hrange
  have hyears := year_range hfrom hrange
  have hyear : int32 (d.year - 1900) = .ok (d.year - 1900) := by
    simp (disch := exact inRange_32.mpr (by omega)) only [Checked.ofNat_eq, Checked.sub_ofInt,
      Checked.eval_ofInt]
  have hmon : int32 (d.month - 1) = .ok (d.month - 1) := by
    simp (disch := exact inRange_32.mpr (by omega)) only [Checked.ofNat_eq, Checked.sub_ofInt,
      Checked.eval_ofInt]
  obtain ⟨wday, hweek, hwday⟩ := weekDay_eq hrange
  obtain ⟨n, hstart, hnlow, hnhigh, hnew⟩ := startOfYear_eq hfrom hrange
  have hdays : int32 ((julianDay d : Int) - n) = .ok (julianDay d - n) := by
    simp (disch := exact inRange_32.mpr (by omega)) only [Checked.sub_ofInt, Checked.eval_ofInt]
  have hfill := fillHMS_eq (t % 86400) (by omega)
  simp only [toUtcTime, hmod, ok_bind, hdiv, hsplit, kJulianDayOf1970_01_01_eq, hnumber, hdate,
    hyear, hmon, hweek, hstart, hdays, hfill, except_pure]
  cases yday with
  | false =>
      refine ⟨_, rfl, rfl, rfl, rfl, rfl, rfl, rfl, hwday, ?_⟩
      intro hfalse
      cases hfalse
  | true =>
      refine ⟨_, rfl, rfl, rfl, rfl, rfl, rfl, rfl, hwday, ?_⟩
      intro _ hlate
      show julianDay d - n = _
      rw [hnew hlate, julianDay_newYear]

/-! ### And back -/

/-- A time of day. -/
structure TimeOfDay (hour min sec : Int) : Prop where
  hour_range : 0 ≤ hour ∧ hour ≤ 23
  min_range : 0 ≤ min ∧ min ≤ 59
  sec_range : 0 ≤ sec ∧ sec ≤ 59

theorem fromUtcTime_eq {d : Gregorian} {tm : Tm} (hrange : InDateRange (julianDay d))
    (hyear : tm.tm_year + 1900 = d.year) (hmon : tm.tm_mon + 1 = d.month)
    (hmday : tm.tm_mday = d.day) (htime : TimeOfDay tm.tm_hour tm.tm_min tm.tm_sec) :
    fromUtcTime tm = .ok ((julianDay d - 2440588) * 86400
      + (tm.tm_hour * 3600 + tm.tm_min * 60 + tm.tm_sec)) := by
  have hfrom := notBefore_of_le hrange.1
  have hyears := year_range hfrom hrange
  have hmonth := d.month_range
  obtain ⟨hlow, hhigh⟩ := hrange
  obtain ⟨hhour, hmin, hsec⟩ := htime
  have evalyear : int32 (tm.tm_year + 1900) = .ok d.year := by
    simp (disch := exact inRange_32.mpr (by omega)) only [Checked.ofNat_eq, Checked.add_ofInt,
      Checked.eval_ofInt, hyear]
  have evalmon : int32 (tm.tm_mon + 1) = .ok d.month := by
    simp (disch := exact inRange_32.mpr (by omega)) only [Checked.ofNat_eq, Checked.add_ofInt,
      Checked.eval_ofInt, hmon]
  have evaldate : Date.ofYearMonthDay d.year d.month d.day = .ok ⟨julianDay d⟩ := by
    rw [Date.ofYearMonthDay, getJulianDayNumber_eq hfrom ⟨hlow, hhigh⟩, ok_bind, except_pure]
  have evalseconds : int32 (tm.tm_hour * 3600 + tm.tm_min * 60 + tm.tm_sec)
      = .ok (tm.tm_hour * 3600 + tm.tm_min * 60 + tm.tm_sec) := by
    simp (disch := exact inRange_32.mpr (by omega)) only [Checked.ofNat_eq, Checked.add_ofInt,
      Checked.mul_ofInt, Checked.eval_ofInt]
  have evaldays : int32 ((julianDay d : Int) - (2440588 : Int)) = .ok (julianDay d - 2440588) := by
    simp (disch := exact inRange_32.mpr (by omega)) only [Checked.sub_ofInt, Checked.eval_ofInt]
  rw [fromUtcTime, evalyear, ok_bind, evalmon, ok_bind, fromUtcFields, hmday, evaldate, ok_bind,
    evalseconds, ok_bind, kJulianDayOf1970_01_01_eq, ok_bind, evaldays, ok_bind, kSecondsPerDay_eq]
  simp (disch := exact inRange_64.mpr (by omega)) only [Checked.add_ofInt, Checked.mul_ofInt,
    Checked.eval_ofInt]

/-- The fields of a broken-down time are in their ranges, and `fromUtcTime`
puts them together again. -/
theorem Breaks.fromUtcTime {t : Int} {d : Gregorian} {yday : Bool} {tm : Tm} (h : Breaks t d yday tm)
    (hrange : InDateRange (julianDay d)) (hd : julianDay d = t / 86400 + 2440588) :
    TimeOfDay tm.tm_hour tm.tm_min tm.tm_sec ∧ fromUtcTime tm = .ok t := by
  have hsec := h.sec
  have hmin := h.min
  have hhour := h.hour
  have htime : TimeOfDay tm.tm_hour tm.tm_min tm.tm_sec := ⟨by omega, by omega, by omega⟩
  have hyear := h.year
  have hmon := h.mon
  refine ⟨htime, ?_⟩
  rw [fromUtcTime_eq hrange (by omega) (by omega) h.mday htime]
  congr 1
  omega

/-- Breaking down a time in UTC and putting it together are inverse to each
other, for every day number for which the calendar conversion is exact. The
fields are in their ranges and give a date that exists. From the year -4799
on `tm_yday` is the number of days since January 1st, and for day numbers that
are not negative `tm_wday` counts the days modulo seven, from Thursday, which
is 4, on 1970-01-01. -/
theorem utc_round_trip :
    (∀ t, InDateRange (t / 86400 + 2440588) →
      (∃ tm, toUtcTime t false = .ok tm ∧ fromUtcTime tm = .ok t) ∧
      ∃ tm, toUtcTime t true = .ok tm ∧ (0 ≤ tm.tm_sec ∧ tm.tm_sec ≤ 59) ∧
        (0 ≤ tm.tm_min ∧ tm.tm_min ≤ 59) ∧ (0 ≤ tm.tm_hour ∧ tm.tm_hour ≤ 23) ∧
        ∃ d : Gregorian, tm.tm_year + 1900 = d.year ∧ tm.tm_mon + 1 = d.month ∧
          tm.tm_mday = d.day ∧
          (-4799 ≤ d.year → tm.tm_yday = Calendar.daysBeforeMonth d.year d.month + d.day - 1) ∧
          (0 ≤ t / 86400 + 2440588 → (0 ≤ tm.tm_wday ∧ tm.tm_wday ≤ 6) ∧
            tm.tm_wday = (4 + t / 86400) % 7)) ∧
    ∀ (tm : Tm) (d : Gregorian) (yday : Bool), InDateRange (julianDay d) →
      tm.tm_year + 1900 = d.year → tm.tm_mon + 1 = d.month → tm.tm_mday = d.day →
      TimeOfDay tm.tm_hour tm.tm_min tm.tm_sec →
      ∃ t tm', fromUtcTime tm = .ok t ∧ toUtcTime t yday = .ok tm' ∧
        tm'.tm_year = tm.tm_year ∧ tm'.tm_mon = tm.tm_mon ∧ tm'.tm_mday = tm.tm_mday ∧
        tm'.tm_hour = tm.tm_hour ∧ tm'.tm_min = tm.tm_min ∧ tm'.tm_sec = tm.tm_sec := by
  constructor
  · intro t hrange
    obtain ⟨d, hfrom, hd⟩ := exists_julianDay hrange.1
    rw [← hd] at hrange
    obtain ⟨tm, htm, hbreaks⟩ := toUtcTime_eq hfrom hrange hd false
    obtain ⟨tm', htm', hbreaks'⟩ := toUtcTime_eq hfrom hrange hd true
    have htime := (hbreaks'.fromUtcTime hrange hd).1
    have hyear := hbreaks'.year
    have hmon := hbreaks'.mon
    refine ⟨⟨tm, htm, (hbreaks.fromUtcTime hrange hd).2⟩, tm', htm', htime.sec_range,
      htime.min_range, htime.hour_range, d, by omega, by omega, hbreaks'.mday, hbreaks'.yday rfl, ?_⟩
    intro hnonneg
    have hwday := hbreaks'.wday (by omega)
    omega
  · intro tm d yday hrange hyear hmon hmday htime
    have hcall := fromUtcTime_eq hrange hyear hmon hmday htime
    obtain ⟨hhour, hmin, hsec⟩ := htime
    -- The time of day is less than a day, so the day of `t` is that of the date.
    generalize ht : (julianDay d - 2440588) * 86400
      + (tm.tm_hour * 3600 + tm.tm_min * 60 + tm.tm_sec) = t at hcall
    obtain ⟨tm', htm', hbreaks⟩ :=
      toUtcTime_eq (t := t) (notBefore_of_le hrange.1) hrange (by omega) yday
    refine ⟨t, tm', hcall, htm', ?_, ?_, ?_, ?_, ?_, ?_⟩
    · rw [hbreaks.year]
      omega
    · rw [hbreaks.mon]
      omega
    · rw [hbreaks.mday, hmday]
    · rw [hbreaks.hour]
      omega
    · rw [hbreaks.min]
      omega
    · rw [hbreaks.sec]
      omega

/-- 2000-02-29 23:59:59. -/
def leapDayEnd : Tm where
  tm_year := 100
  tm_mon := 1
  tm_mday := 29
  tm_hour := 23
  tm_min := 59
  tm_sec := 59

/-- The last second of the leap day of 2000, a Tuesday. -/
theorem utc_round_trip_leapDay :
    (∃ tm, toUtcTime 951868799 false = .ok tm ∧ fromUtcTime tm = .ok 951868799) ∧
    (∃ tm, toUtcTime 951868799 true = .ok tm ∧ tm.tm_wday = 2) ∧
    ∃ t tm, fromUtcTime leapDayEnd = .ok t ∧ toUtcTime t true = .ok tm ∧
      tm.tm_year = 100 ∧ tm.tm_mon = 1 ∧ tm.tm_mday = 29 ∧
      tm.tm_hour = 23 ∧ tm.tm_min = 59 ∧ tm.tm_sec = 59 := by
  obtain ⟨hthere, tm, htm, -, -, -, d, -, -, -, -, hwday⟩ :=
    utc_round_trip.1 951868799 ⟨by decide, by decide⟩
  refine ⟨hthere, ⟨tm, htm, (hwday (by decide)).2⟩, ?_⟩
  exact utc_round_trip.2 leapDayEnd ⟨2000, 2, 29, by decide, by decide⟩ true
    ⟨by decide, by decide⟩ rfl rfl rfl ⟨by decide, by decide, by decide⟩

/-! ### The calendar of the C library -/

/-- `tm` is the time `t` in the Gregorian calendar, which is what `gmtime_r` has to compute. -/
structure IsTime (t : Int) (tm : BrokenDown) : Prop where
  date : ∃ d : Gregorian, julianDay d = t / 86400 + 2440588 ∧ tm.tm_year + 1900 = d.year ∧
    tm.tm_mon + 1 = d.month ∧ tm.tm_mday = d.day
  hour : tm.tm_hour = t % 86400 / 3600
  min : tm.tm_min = t % 3600 / 60
  sec : tm.tm_sec = t % 60

/-- Two times with the same six fields are the same. -/
theorem IsTime.unique {t t' : Int} {a b : BrokenDown} (h : IsTime t a) (h' : IsTime t' b)
    (heq : a.tm_year = b.tm_year ∧ a.tm_mon = b.tm_mon ∧ a.tm_mday = b.tm_mday ∧
      a.tm_hour = b.tm_hour ∧ a.tm_min = b.tm_min ∧ a.tm_sec = b.tm_sec) : t = t' := by
  obtain ⟨hyear, hmon, hmday, hhour, hmin, hsec⟩ := heq
  obtain ⟨d, hd, hy, hm, hday⟩ := h.date
  obtain ⟨d', hd', hy', hm', hday'⟩ := h'.date
  have hsame : d = d' := by
    cases d
    cases d'
    simp only [Gregorian.mk.injEq] at *
    omega
  rw [hsame, hd'] at hd
  have hh := h.hour
  have hh' := h'.hour
  have hmi := h.min
  have hmi' := h'.min
  have hs := h.sec
  have hs' := h'.sec
  omega

/-- There is a C library with this calendar, whose `timegm` takes a broken-down time back. -/
theorem exists_libc :
    ∃ libc : TimeZone.Libc, (∀ t, IsTime t (libc.gmtime_r t)) ∧
      ∀ t, libc.timegm (libc.gmtime_r t) = t := by
  have hex : ∀ t : Int, ∃ tm : BrokenDown, IsTime t tm := by
    intro t
    obtain ⟨d, hd⟩ := Gregorian.exists_dayNumber (t / 86400 + 719163)
    refine ⟨⟨t % 60, t % 3600 / 60, t % 86400 / 3600, d.day, d.month - 1, d.year - 1900, 0, 0⟩,
      ⟨d, ?_, Int.sub_add_cancel _ _, Int.sub_add_cancel _ _, rfl⟩, rfl, rfl, rfl⟩
    rw [julianDay, hd]
    omega
  choose gmtime_r hgmtime using hex
  have hinjective : Function.Injective gmtime_r := by
    intro t t' heq
    refine (hgmtime t).unique (hgmtime t') ?_
    rw [heq]
    exact ⟨rfl, rfl, rfl, rfl, rfl, rfl⟩
  exact ⟨⟨gmtime_r, Function.invFun gmtime_r⟩, hgmtime, Function.leftInverse_invFun hinjective⟩

end Muduo.Base
