import Muduo.Base.Date
import Muduo.Base.Types
import Muduo.Lib.BigEndian
import Muduo.Lib.LowerBound

/-!
# `Muduo.Base.TimeZone`: broken-down time, zone data and zone files

`muduo/base/TimeZone.cc` and `muduo/base/TimeZone.h`.

`toUtcTime` and `fromUtcTime` compute with `int` and with the 64 bits of a
`time_t`, and an overflow is a fault. `static_cast<int>` keeps the low 32 bits.

`toLocalTime` and `fromLocalTime` call `gmtime_r` and `timegm`, which are the
fields of `Libc`. A `time_t` is an integer there: `gmtime_r` converts only
times whose year is an `int`, and these are far from the ends of a `time_t`.

A zone file is the list of its bytes, or nothing when `fopen` fails.
`readTimeZoneFile` fills the data step by step, and a `throw` leaves what has
been filled in so far, so it is written in a monad whose state stays when it
stops. It can stop in two ways: with a `logic_error`, which is caught, or with
an access out of bounds, which is not.
-/

set_option autoImplicit false

namespace Muduo.Base

open Muduo.Lib

/-! ### Broken-down time -/

/-- The fields of `struct tm` that `gmtime_r` computes. -/
structure BrokenDown where
  tm_sec : Int := 0
  tm_min : Int := 0
  tm_hour : Int := 0
  tm_mday : Int := 0
  tm_mon : Int := 0
  tm_year : Int := 0
  tm_wday : Int := 0
  tm_yday : Int := 0
  deriving DecidableEq, Repr

/-- `struct tm`, with the text that `tm_zone` points to. Of `tm_isdst` only
whether it is zero is ever read. A new one is zeroed. -/
structure Tm extends BrokenDown where
  tm_isdst : Bool := false
  tm_gmtoff : Int := 0
  tm_zone : List UInt8 := []
  deriving DecidableEq, Repr

def kSecondsPerDay : Int := 24 * 60 * 60

/-- `fillHMS`, of an `unsigned` number of seconds. -/
def fillHMS (seconds : Nat) (utc : Tm) : Tm :=
  let minutes := seconds / 60
  { utc with tm_sec := (seconds % 60 : Nat), tm_min := (minutes % 60 : Nat), tm_hour := (minutes / 60 : Nat) }

/-- `static_cast<int>`. -/
def castInt (x : Int) : Int := x.bmod (2 ^ 32)

/-- The conversion from `int` to `unsigned`. -/
def castUnsigned (x : Int) : Nat := (x % 2 ^ 32).toNat

/-- The seconds in the day and the days since 1970-01-01, from the remainder
and the quotient of a truncating division. -/
def splitDay (seconds days : Int) : Except Checked.Fault (Int × Int) := do
  if seconds < 0 then
    let seconds ← int32 (seconds + kSecondsPerDay)
    let days ← int32 (days - 1)
    return (seconds, days)
  else return (seconds, days)

/-- `toUtcTime(secondsSinceEpoch, yday)`. -/
def toUtcTime (secondsSinceEpoch : Int) (yday : Bool) : Except Checked.Fault Tm := do
  let utc : Tm := { tm_zone := ascii ['G', 'M', 'T'] }
  let remainder ← int64 (secondsSinceEpoch % kSecondsPerDay)
  let quotient ← int64 (secondsSinceEpoch / kSecondsPerDay)
  let (seconds, days) ← splitDay (castInt remainder) (castInt quotient)
  let utc := fillHMS (castUnsigned seconds) utc
  let epoch ← Date.kJulianDayOf1970_01_01
  let julianDayNumber ← int32 (days + epoch)
  let date : Date := ⟨julianDayNumber⟩
  let ymd ← date.yearMonthDay
  let year ← int32 (ymd.year - 1900)
  let mon ← int32 (ymd.month - 1)
  let wday ← date.weekDay
  let utc := { utc with tm_year := year, tm_mon := mon, tm_mday := ymd.day, tm_wday := wday }
  if yday then
    let startOfYear ← Date.ofYearMonthDay ymd.year 1 1
    let days ← int32 (date.julianDayNumber_ - startOfYear.julianDayNumber_)
    return { utc with tm_yday := days }
  else return utc

/-- `fromUtcTime(year, month, day, hour, minute, seconds)`. -/
def fromUtcFields (year month day hour minute seconds : Int) : Except Checked.Fault Int := do
  let date ← Date.ofYearMonthDay year month day
  let secondsInDay ← int32 (hour * 3600 + minute * 60 + seconds)
  let epoch ← Date.kJulianDayOf1970_01_01
  let days ← int32 (date.julianDayNumber_ - epoch)
  int64 (days * kSecondsPerDay + secondsInDay)

/-- `fromUtcTime(utc)`. -/
def fromUtcTime (utc : Tm) : Except Checked.Fault Int := do
  let year ← int32 (utc.tm_year + 1900)
  let month ← int32 (utc.tm_mon + 1)
  fromUtcFields year month utc.tm_mday utc.tm_hour utc.tm_min utc.tm_sec

/-! ### Zone data -/

/-- `Transition`. -/
structure Transition where
  gmttime : Int
  localtime : Int
  localtimeIdx : Nat
  deriving DecidableEq, Repr

/-- `Localtime`. -/
structure Localtime where
  gmtOffset : Int
  isDst : Bool
  arrbIdx : Nat
  deriving DecidableEq, Repr

namespace TimeZone

/-- `TimeZone::Data`. -/
structure Data where
  transitions : List Transition := []
  localtimes : List Localtime := []
  abbreviation : List UInt8 := []
  deriving DecidableEq, Repr

/-- An access out of bounds, a null pointer, an array of a negative size or
the `assert` of `findLocaltime`. -/
inductive Fault where
  | localtimes
  | abbreviation
  | noData
  | arraySize
  | assertion
  deriving DecidableEq, Repr

end TimeZone

/-- `Comp`. -/
structure Comp where
  compareGmt : Bool

namespace Comp

/-- `operator()`. -/
def less (comp : Comp) (lhs rhs : Transition) : Bool :=
  if comp.compareGmt then lhs.gmttime < rhs.gmttime else lhs.localtime < rhs.localtime

/-- `equal`. -/
def equal (comp : Comp) (lhs rhs : Transition) : Bool :=
  if comp.compareGmt then lhs.gmttime = rhs.gmttime else lhs.localtime = rhs.localtime

end Comp

namespace TimeZone

/-- `localtimes[i]`. -/
def Data.localtimeAt (data : Data) (i : Nat) : Except Fault Localtime :=
  match data.localtimes[i]? with
  | some l => .ok l
  | none => .error .localtimes

/-- The transition that `findLocaltime` takes, when the sentry is not before the first one. -/
def findTransition (front : Transition) (rest : List Transition) (sentry : Transition) (comp : Comp) :
    Except Fault Transition :=
  let transitions := front :: rest
  let transI := lowerBound (comp.less · sentry) transitions
  match transitions[transI]? with
  | some found =>
      if comp.equal sentry found then .ok found
      else do
        assertThat (transI ≠ 0) .assertion
        match transitions[transI - 1]? with
        | some previous => .ok previous
        | none => .error .assertion
  | none => .ok (rest.getLastD front)

/-- `findLocaltime`. -/
def findLocaltime (data : Data) (sentry : Transition) (comp : Comp) : Except Fault Localtime :=
  match data.transitions with
  | [] => data.localtimeAt 0
  | front :: rest =>
      if comp.less sentry front then data.localtimeAt 0
      else do
        let found ← findTransition front rest sentry comp
        data.localtimeAt found.localtimeIdx

/-- `gmtime_r` and `timegm`. -/
structure Libc where
  gmtime_r : Int → BrokenDown
  timegm : BrokenDown → Int

/-- `toLocalTime`, with the data of the zone. -/
def Data.toLocalTime (libc : Libc) (data : Data) (seconds : Int) : Except Fault Tm := do
  let sentry : Transition := ⟨seconds, 0, 0⟩
  let localtime ← findLocaltime data sentry ⟨true⟩
  let localSeconds := seconds + localtime.gmtOffset
  -- A `std::string` has a null byte at the index of its length.
  assertThat (localtime.arrbIdx ≤ data.abbreviation.length) .abbreviation
  return { libc.gmtime_r localSeconds with
    tm_isdst := localtime.isDst
    tm_gmtoff := localtime.gmtOffset
    tm_zone := (data.abbreviation.drop localtime.arrbIdx).takeWhile (· ≠ 0) }

/-- `fromLocalTime`, with the data of the zone. -/
def Data.fromLocalTime (libc : Libc) (data : Data) (localTm : Tm) : Except Fault Int := do
  let seconds := libc.timegm localTm.toBrokenDown
  let sentry : Transition := ⟨0, seconds, 0⟩
  let localtime ← findLocaltime data sentry ⟨false⟩
  if localTm.tm_isdst then
    let tryTm ← data.toLocalTime libc (seconds - localtime.gmtOffset)
    if ¬ tryTm.tm_isdst ∧ tryTm.tm_hour = localTm.tm_hour ∧ tryTm.tm_min = localTm.tm_min then
      return seconds - 3600 - localtime.gmtOffset
    else return seconds - localtime.gmtOffset
  else return seconds - localtime.gmtOffset

/-! ### Zone files -/

/-- Why reading stops: a `logic_error`, or what is not caught. -/
inductive Stop where
  | logicError
  | fault (f : Fault)
  deriving DecidableEq, Repr

/-- The bytes of the file that were not read yet, and the data so far. -/
structure Reading where
  rest : List UInt8
  data : Data

/-- Code that reads. What it has done stays when it stops. -/
abbrev Reader := EStateM Stop Reading

namespace Reader

/-- `fread` of `n` bytes, and a `throw` when there are less. -/
def fread (n : Nat) : Reader (List UInt8) := do
  let s ← get
  if n ≤ s.rest.length then
    set { s with rest := s.rest.drop n }
    return s.rest.take n
  else throw .logicError

/-- `readBytes`. The array on the stack has `n` elements. -/
def readBytes (n : Int) : Reader (List UInt8) :=
  if 0 ≤ n then fread n.toNat else throw (.fault .arraySize)

/-- `readInt32`. -/
def readInt32 : Reader Int := do
  let bytes ← fread 4
  return (BitVec.ofNat 32 (BigEndian.ofBytes bytes)).toInt

/-- `readUInt8`. -/
def readUInt8 : Reader Nat := do
  let bytes ← fread 1
  return BigEndian.ofBytes bytes

/-- `n` values, one after the other. -/
def readMany {α : Type} (item : Reader α) : Nat → Reader (List α)
  | 0 => return []
  | n + 1 => do
      let x ← item
      let xs ← readMany item n
      return x :: xs

/-- One record of local time. It goes into the data at once. -/
def readLocaltime : Reader Unit := do
  let gmtoff ← readInt32
  let isdst ← readUInt8
  let abbrind ← readUInt8
  modify fun s => { s with data := { s.data with
    localtimes := s.data.localtimes ++ [⟨gmtoff, isdst ≠ 0, abbrind⟩] } }

/-- `typecnt` records. -/
def readLocaltimes : Nat → Reader Unit
  | 0 => return ()
  | n + 1 => do
      readLocaltime
      readLocaltimes n

/-- One transition, from its time and the index of its record. -/
def pushTransition (gmttime : Int) (localIdx : Nat) : Reader Unit := do
  let s ← get
  match s.data.localtimeAt localIdx with
  | .ok l =>
      let transition : Transition := ⟨gmttime, gmttime + l.gmtOffset, localIdx⟩
      set { s with data := { s.data with transitions := s.data.transitions ++ [transition] } }
  | .error f => throw (.fault f)

/-- The loop that builds the transitions. -/
def pushTransitions : List Int → List Nat → Reader Unit
  | gmttime :: times, localIdx :: indices => do
      pushTransition gmttime localIdx
      pushTransitions times indices
  | _, _ => return ()

/-- The header: `timecnt`, `typecnt` and `charcnt`. -/
def readHeader : Reader (Int × Int × Int) := do
  let head ← readBytes 4
  if head ≠ ascii ['T', 'Z', 'i', 'f'] then throw .logicError
  let _version ← readBytes 1
  let _ ← readBytes 15
  let _isgmtcnt ← readInt32
  let _isstdcnt ← readInt32
  let _leapcnt ← readInt32
  let timecnt ← readInt32
  let typecnt ← readInt32
  let charcnt ← readInt32
  return (timecnt, typecnt, charcnt)

/-- The body of the `try` block. -/
def readZone : Reader Unit := do
  let (timecnt, typecnt, charcnt) ← readHeader
  -- `reserve` of a negative number is a `length_error`, which is a `logic_error`.
  if timecnt < 0 then throw .logicError
  let trans ← readMany readInt32 timecnt.toNat
  let localtimes ← readMany readUInt8 timecnt.toNat
  readLocaltimes typecnt.toNat
  pushTransitions trans localtimes
  let abbreviation ← readBytes charcnt
  modify fun s => { s with data := { s.data with abbreviation := abbreviation } }

end Reader

/-- `readTimeZoneFile`: what it returns, and the data. -/
def readTimeZoneFile (zonefile : Option (List UInt8)) (data : Data) : Except Fault (Bool × Data) :=
  match zonefile with
  | none => .ok (true, data)
  | some bytes =>
      match Reader.readZone ⟨bytes, data⟩ with
      | .ok _ s => .ok (true, s.data)
      | .error .logicError s => .ok (true, s.data)
      | .error (.fault f) _ => .error f

end TimeZone

/-- `TimeZone`. -/
structure TimeZone where
  data_ : Option TimeZone.Data := none
  deriving DecidableEq, Repr

namespace TimeZone

/-- `TimeZone(zonefile)`. -/
def ofZonefile (zonefile : Option (List UInt8)) : Except Fault TimeZone := do
  let (ok, data) ← readTimeZoneFile zonefile {}
  if ok then return { data_ := some data } else return { data_ := none }

/-- `TimeZone(eastOfUtc, name)`. -/
def ofFixed (eastOfUtc : Int) (name : List UInt8) : TimeZone :=
  { data_ := some { localtimes := [⟨eastOfUtc, false, 0⟩], abbreviation := name } }

def valid (tz : TimeZone) : Bool := tz.data_.isSome

/-- `*data_`. -/
def deref (tz : TimeZone) : Except Fault Data :=
  match tz.data_ with
  | some data => .ok data
  | none => .error .noData

/-- `toLocalTime`. -/
def toLocalTime (libc : Libc) (tz : TimeZone) (seconds : Int) : Except Fault Tm := do
  let data ← tz.deref
  data.toLocalTime libc seconds

/-- `fromLocalTime`. -/
def fromLocalTime (libc : Libc) (tz : TimeZone) (localTm : Tm) : Except Fault Int := do
  let data ← tz.deref
  data.fromLocalTime libc localTm

end TimeZone

end Muduo.Base
