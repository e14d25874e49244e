import Muduo.Base.LogStream
import Muduo.Base.TimeZone
import Muduo.Lib.Numeral

/-!
# `Muduo.Base.Logging`: one log record, from `muduo/base/Logging.cc`

A log statement makes a `Logger`, inserts into its stream and destroys it. The
constructor of `Logger::Impl` writes the prefix: the time, the thread id, the
level and, for a system call that failed, the error. The destructor writes
the name and the line of the source file and hands the bytes to `g_output`.

The text of a time down to the second is kept in `t_time`, with the second it
is for in `t_lastSecond`. Both belong to the thread. `g_logTimeZone` belongs
to the program.

A C string is the list of its bytes before the terminating one, or longer.
`snprintf` with `%d` and a width is `padSpace` or `padZero`.
-/

set_option autoImplicit false

namespace Muduo.Base

open Muduo.Lib

namespace Logger

/-- What can go wrong while a record is written. -/
inductive Fault where
  | stream (f : LogStream.Fault)
  | zone (f : TimeZone.Fault)
  | arithmetic (f : Checked.Fault)
  | assertion
  deriving DecidableEq, Repr

inductive LogLevel where
  | TRACE
  | DEBUG
  | INFO
  | WARN
  | ERROR
  | FATAL
  deriving DecidableEq, Repr

/-- `LogLevelName`. -/
def LogLevelName : LogLevel → List UInt8
  | .TRACE => ascii ['T', 'R', 'A', 'C', 'E', ' ']
  | .DEBUG => ascii ['D', 'E', 'B', 'U', 'G', ' ']
  | .INFO => ascii ['I', 'N', 'F', 'O', ' ', ' ']
  | .WARN => ascii ['W', 'A', 'R', 'N', ' ', ' ']
  | .ERROR => ascii ['E', 'R', 'R', 'O', 'R', ' ']
  | .FATAL => ascii ['F', 'A', 'T', 'A', 'L', ' ']

/-- `SourceFile`: the name without the directories, and its length. -/
structure SourceFile where
  data_ : List UInt8
  size_ : Int
  deriving DecidableEq, Repr

/-- What follows the last `'/'` of a path, or the path. -/
def basename (path : List UInt8) : List UInt8 :=
  (path.reverse.takeWhile (· ≠ 47)).reverse

/-- `SourceFile(arr)`, of an array that holds `arr` and a terminating byte. -/
def SourceFile.ofArray (arr : List UInt8) : SourceFile :=
  let path := arr.takeWhile (· ≠ 0)
  let skipped := path.length - (basename path).length
  ⟨arr.drop skipped, (arr.length : Int) - skipped⟩

/-- `SourceFile(filename)`. -/
def SourceFile.ofPath (filename : List UInt8) : SourceFile :=
  let path := filename.takeWhile (· ≠ 0)
  ⟨basename path, ((basename path).length : Int).bmod (2 ^ 32)⟩

/-! ### Texts of `snprintf` -/

/-- `%<width>d`. -/
def padSpace (width : Nat) (v : Int) : List UInt8 :=
  List.replicate (width - (decimalText v).length) 32 ++ decimalText v

/-- `%0<width>d`: the zeros stand behind the sign. -/
def padZero (width : Nat) (v : Int) : List UInt8 :=
  if v < 0 then
    minus :: (List.replicate (width - (decimalText v).length) 48 ++ decimal.text v.natAbs)
  else List.replicate (width - (decimalText v).length) 48 ++ decimalText v

/-! ### The time -/

def kMicroSecondsPerSecond : Int := 1000 * 1000

/-- The variables of a thread: `t_time` up to the terminating byte, and `t_lastSecond`. -/
structure TimeCache where
  t_time : List UInt8 := []
  t_lastSecond : Int := 0
  deriving DecidableEq, Repr

/-- The seconds of `time_`. -/
def secondsOf (time : Timestamp) : Int := time.tdiv kMicroSecondsPerSecond

/-- The rest of `time_`, as an `int`. -/
def microsecondsOf (time : Timestamp) : Int := castInt (time.tmod kMicroSecondsPerSecond)

/-- `tm_time` for a new second. -/
def tmTime (libc : TimeZone.Libc) (zone : TimeZone) (seconds : Int) : Except Fault Tm :=
  if zone.valid then (zone.toLocalTime libc seconds).mapError .zone
  else .ok { libc.gmtime_r seconds with }

/-- The text that `formatTime` puts into `t_time` for a new second. -/
def timeText (libc : TimeZone.Libc) (zone : TimeZone) (seconds : Int) :
    Except Fault (List UInt8) := do
  let tm_time ← tmTime libc zone seconds
  let year ← (int32 (tm_time.tm_year + 1900)).mapError .arithmetic
  let month ← (int32 (tm_time.tm_mon + 1)).mapError .arithmetic
  let text := padSpace 4 year ++ padZero 2 month ++ padZero 2 tm_time.tm_mday ++ [32]
    ++ padZero 2 tm_time.tm_hour ++ [58] ++ padZero 2 tm_time.tm_min ++ [58]
    ++ padZero 2 tm_time.tm_sec
  assertThat (text.length = 17) .assertion
  return text

/-- The text of the microseconds, whose end says whether the time is UTC. -/
def microText (zone : TimeZone) (microseconds : Int) : Except Fault (List UInt8) := do
  if zone.valid then
    let us := [46] ++ padZero 6 microseconds ++ [32]
    assertThat (us.length = 8) .assertion
    return us
  else
    let us := [46] ++ padZero 6 microseconds ++ [90, 32]
    assertThat (us.length = 9) .assertion
    return us

/-- `stream << T(str, len)`. -/
def insertT (stream : LogStream) (str : List UInt8) (len : BitVec 32) : Except Fault LogStream := do
  assertThat (LogStream.strlen str = len.toNat) .assertion
  (stream.appendInt str len.toInt).mapError .stream

/-- The first half of `formatTime()`: `t_time` and `t_lastSecond` for the second of the record. -/
def TimeCache.update (cache : TimeCache) (libc : TimeZone.Libc) (g_logTimeZone : TimeZone)
    (seconds : Int) : Except Fault TimeCache :=
  if seconds ≠ cache.t_lastSecond then do
    let text ← timeText libc g_logTimeZone seconds
    return ⟨text, seconds⟩
  else .ok cache

/-- `formatTime()`. -/
def formatTime (libc : TimeZone.Libc) (g_logTimeZone : TimeZone) (cache : TimeCache)
    (time : Timestamp) (stream : LogStream) : Except Fault (TimeCache × LogStream) := do
  let cache ← cache.update libc g_logTimeZone (secondsOf time)
  let us ← microText g_logTimeZone (microsecondsOf time)
  let stream ← insertT stream cache.t_time 17
  let stream ← insertT stream us (if g_logTimeZone.valid then 8 else 9)
  return (cache, stream)

/-! ### A record -/

/-- `Logger::Impl`. -/
structure Impl where
  stream_ : LogStream
  level_ : LogLevel
  line_ : BitVec 32
  basename_ : SourceFile

/-- What a record reads from its surroundings: the zone and the C library, the clock, the thread
id as text with its length, and the bytes that the array of the stream has before. -/
structure Env where
  libc : TimeZone.Libc
  g_logTimeZone : TimeZone
  now : Timestamp
  tidString : List UInt8
  tidStringLength : BitVec 32
  data_ : List UInt8

/-- `stream << v` in this file. -/
def insertInto (stream : LogStream) (i : LogStream.Insertion) : Except Fault LogStream :=
  (stream.insert i).mapError .stream

/-- The error of a system call, if there was one. -/
def insertErrno (stream : LogStream) (savedErrno : BitVec 32) (strerror : List UInt8) :
    Except Fault LogStream :=
  if savedErrno ≠ 0 then do
    let stream ← insertInto stream (.cString (some strerror))
    let stream ← insertInto stream
      (.cString (some (ascii [' ', '(', 'e', 'r', 'r', 'n', 'o', '='])))
    let stream ← insertInto stream (.int savedErrno)
    insertInto stream (.cString (some (ascii [')', ' '])))
  else .ok stream

/-- `Impl(level, savedErrno, file, line)`, with `strerror_tl(savedErrno)`. -/
def Impl.new (env : Env) (cache : TimeCache) (level : LogLevel) (savedErrno : BitVec 32)
    (strerror : List UInt8) (file : SourceFile) (line : BitVec 32) :
    Except Fault (TimeCache × Impl) := do
  let (cache, stream) ←
    formatTime env.libc env.g_logTimeZone cache env.now (LogStream.new env.data_)
  let stream ← insertT stream env.tidString env.tidStringLength
  let stream ← insertT stream (LogLevelName level) 6
  let stream ← insertErrno stream savedErrno strerror
  return (cache, ⟨stream, level, line, file⟩)

/-- `finish()`. -/
def Impl.finish (impl : Impl) : Except Fault Impl := do
  let stream ← insertInto impl.stream_ (.cString (some (ascii [' ', '-', ' '])))
  let stream ← insertInto stream (.append impl.basename_.data_ impl.basename_.size_)
  let stream ← insertInto stream (.char 58)
  let stream ← insertInto stream (.int impl.line_)
  let stream ← insertInto stream (.char 10)
  return { impl with stream_ := stream }

/-- The four constructors of `Logger`, with what they are given besides the file and the line. -/
inductive Ctor where
  | info
  | level (level : LogLevel)
  | func (level : LogLevel) (func : List UInt8)
  | toAbort (toAbort : Bool) (errno : BitVec 32) (strerror : List UInt8)

/-- `Logger(…)`. -/
def new (env : Env) (cache : TimeCache) (file : SourceFile) (line : BitVec 32) :
    Ctor → Except Fault (TimeCache × Impl)
  | .info => Impl.new env cache .INFO 0 [] file line
  | .level level => Impl.new env cache level 0 [] file line
  | .func level func => do
      let (cache, impl) ← Impl.new env cache level 0 [] file line
      let stream ← insertInto impl.stream_ (.cString (some func))
      let stream ← insertInto stream (.char 32)
      return (cache, { impl with stream_ := stream })
  | .toAbort toAbort errno strerror =>
      Impl.new env cache (if toAbort then .FATAL else .ERROR) errno strerror file line

/-- `~Logger()` up to the call of `g_output`: the bytes that it is given. -/
def destroy (impl : Impl) : Except Fault (List UInt8) := do
  let impl ← impl.finish
  return impl.stream_.data_.take impl.stream_.length.toNat

/-- A log statement: the constructor, the calls on the stream and the destructor. -/
def record (env : Env) (cache : TimeCache) (file : SourceFile) (line : BitVec 32) (ctor : Ctor)
    (events : List LogStream.Event) : Except Fault (TimeCache × List UInt8) := do
  let (cache, impl) ← new env cache file line ctor
  let stream ← (impl.stream_.calls events).mapError .stream
  let out ← destroy { impl with stream_ := stream }
  return (cache, out)

/-! ### The records of a thread -/

/-- A thread that logs: its time cache and the zone of the program. `filledBy` records the zone
that was in force when the cache was filled. -/
structure Thread where
  cache : TimeCache := {}
  g_logTimeZone : TimeZone := {}
  filledBy : TimeZone := {}
  deriving DecidableEq, Repr

inductive Step where
  | log (time : Timestamp)
  | setTimeZone (tz : TimeZone)
  deriving DecidableEq, Repr

/-- The bytes that `formatTime` writes to a new stream, and the cache after it. -/
def stamp (libc : TimeZone.Libc) (data_ : List UInt8) (t : Thread) (time : Timestamp) :
    Except Fault (TimeCache × List UInt8) := do
  let (cache, stream) ← formatTime libc t.g_logTimeZone t.cache time (LogStream.new data_)
  return (cache, stream.contents)

/-- The log statements of one thread and the calls of `setTimeZone`. A record is made after the
epoch second. -/
def threadMachine (libc : TimeZone.Libc) (data_ : List UInt8) : Machine Thread Step Fault where
  enabled _ e :=
    match e with
    | .log time => InRange 64 time ∧ 1 ≤ secondsOf time
    | .setTimeZone _ => True
  step t e :=
    match e with
    | .log time => do
        let (cache, _) ← stamp libc data_ t time
        return { t with
          cache
          filledBy := if secondsOf time ≠ t.cache.t_lastSecond then t.g_logTimeZone else t.filledBy }
    | .setTimeZone tz => .ok { t with g_logTimeZone := tz }

end Logger

end Muduo.Base
