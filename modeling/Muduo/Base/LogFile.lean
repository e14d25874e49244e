import Muduo.Base.Logging
import Muduo.Lib.Transition

/-!
# `Muduo.Base.LogFile`: the files of `muduo/base/LogFile.cc`

A `LogFile` appends lines to an `AppendFile` (`muduo/base/FileUtil.cc`) and
replaces it by a new one when it has grown over `rollSize_` or when a new
day has begun. The name of a file has the second in which it was opened, so
`rollFile` opens at most one file in a second.

What the system answers is an argument: how many bytes each call of
`fwrite` takes, what each call of `time` reads, and whether `fopen` gives a
file. The clock can go backwards. `Record` is an `AppendFile` with its
history: the second in which it was opened and the lines it was given.
The bytes of a file are those that `fwrite` has taken. `flushed` of them are
known to have left the buffer of the stream, by `fflush` or `fclose`.

With `threadSafe` the members run under a lock, without it the `LogFile`
belongs to one thread. So every call is one step. `off_t` and `time_t` are
integers.
-/

set_option autoImplicit false

namespace Muduo.Base

open Muduo.Lib

namespace FileUtil

/-- `AppendFile`. -/
structure AppendFile where
  filename : List UInt8
  content : List UInt8
  flushed : Nat
  writtenBytes_ : Int
  deriving DecidableEq, Repr

namespace AppendFile

def new (filename : List UInt8) : AppendFile := ⟨filename, [], 0, 0⟩

/-- `write`: `fwrite_unlocked` takes `taken` bytes, or as many as there
are. -/
def write (f : AppendFile) (logline : List UInt8) (taken : Nat) : Nat × AppendFile :=
  let n := min taken logline.length
  (n, { f with content := f.content ++ logline.take n })

/-- The loop of `append`, from the call `k` of `write` on. Every round but
the last takes a byte of what remains. -/
def appendRemaining (writes : Nat → Nat) : Nat → Nat → List UInt8 → AppendFile → AppendFile
  | 0, _, _, f => f
  | fuel + 1, k, remain, f =>
      if 0 < remain.length then
        let (x, f) := f.write remain (writes k)
        if x = 0 then f else appendRemaining writes fuel (k + 1) (remain.drop x) f
      else f

def append (f : AppendFile) (logline : List UInt8) (writes : Nat → Nat) : AppendFile :=
  let (n, f) := f.write logline (writes 0)
  let f := appendRemaining writes logline.length 1 (logline.drop n) f
  { f with writtenBytes_ := f.writtenBytes_ + logline.length }

def flush (f : AppendFile) : AppendFile := { f with flushed := f.content.length }

end AppendFile

end FileUtil

open FileUtil

namespace LogFile

def kRollPerSeconds_ : Int := 60 * 60 * 24

inductive Fault where
  /-- `assert(basename.find('/') == string::npos)`. -/
  | basename
  /-- `assert(fp_)`. -/
  | fopen
  /-- `file_` is null. -/
  | nullFile
  deriving DecidableEq, Repr

/-- The process: `gmtime_r`, `ProcessInfo::hostname()`, `ProcessInfo::pid()`. -/
structure Process where
  libc : TimeZone.Libc
  hostname : List UInt8
  pid : Int

/-- What the system answers in a call of `append`. -/
structure Answers where
  writes : Nat → Nat
  /-- `time` in `append_unlocked`. -/
  now : Int
  /-- `time` in `getLogFileName`. -/
  rollNow : Int
  opens : Bool

/-- A line, and what the system answers in the call that appends it. -/
abbrev Entry := List UInt8 × Answers

/-- A file with its history: the second in which it was opened, and the
lines it was given. -/
structure Record where
  file : AppendFile
  opened : Int
  lines : List Entry

end LogFile

open LogFile in
/-- `LogFile`. The files that were replaced are in `closed`. -/
structure LogFile where
  basename_ : List UInt8
  rollSize_ : Int
  flushInterval_ : Int
  checkEveryN_ : Int
  count_ : Int
  startOfPeriod_ : Int
  lastRoll_ : Int
  lastFlush_ : Int
  file_ : Option Record
  closed : List Record

namespace LogFile

/-- `strftime` with `.%Y%m%d-%H%M%S.`, in the 32 bytes of `timebuf`. -/
def timebuf (tm : BrokenDown) : List UInt8 :=
  [46] ++ decimalText (tm.tm_year + 1900) ++ Logger.padZero 2 (tm.tm_mon + 1) ++
    Logger.padZero 2 tm.tm_mday ++ [45] ++ Logger.padZero 2 tm.tm_hour ++
    Logger.padZero 2 tm.tm_min ++ Logger.padZero 2 tm.tm_sec ++ [46]

def getLogFileName (process : Process) (basename : List UInt8) (now : Int) : List UInt8 :=
  basename ++ timebuf (process.libc.gmtime_r now) ++ process.hostname ++
    ([46] ++ decimalText process.pid) ++ ascii ['.', 'l', 'o', 'g']

/-- The start of the day, with the division of C++. -/
def startOf (now : Int) : Int := now.tdiv kRollPerSeconds_ * kRollPerSeconds_

/-- The destructor of `AppendFile` closes the stream. -/
def Record.close (r : Record) : Record := { r with file := r.file.flush }

/-- `rollFile`, at the second `now`. -/
def rollFile (process : Process) (s : LogFile) (now : Int) (opens : Bool) :
    Except Fault (Bool × LogFile) := do
  let filename := getLogFileName process s.basename_ now
  if now > s.lastRoll_ then
    assertThat (opens = true) .fopen
    return (true, { s with
      lastRoll_ := now
      lastFlush_ := now
      startOfPeriod_ := startOf now
      file_ := some ⟨AppendFile.new filename, now, []⟩
      closed := s.closed ++ s.file_.toList.map Record.close })
  else return (false, s)

/-- The constructor, at the second `now`. -/
def new (process : Process) (basename : List UInt8) (rollSize flushInterval checkEveryN : Int)
    (now : Int) (opens : Bool) : Except Fault LogFile := do
  assertThat (47 ∉ basename) .basename
  let s : LogFile :=
    { basename_ := basename, rollSize_ := rollSize, flushInterval_ := flushInterval
      checkEveryN_ := checkEveryN, count_ := 0, startOfPeriod_ := 0, lastRoll_ := 0
      lastFlush_ := 0, file_ := none, closed := [] }
  let (_, s) ← s.rollFile process now opens
  return s

def deref (s : LogFile) : Except Fault Record :=
  match s.file_ with
  | some r => .ok r
  | none => .error .nullFile

def flush (s : LogFile) : Except Fault LogFile := do
  let r ← s.deref
  return { s with file_ := some { r with file := r.file.flush } }

/-- `append_unlocked` at the end of `checkEveryN_` lines. -/
def checkTime (process : Process) (s : LogFile) (a : Answers) : Except Fault LogFile := do
  let s := { s with count_ := 0 }
  if startOf a.now ≠ s.startOfPeriod_ then
    let (_, s) ← s.rollFile process a.rollNow a.opens
    return s
  else if a.now - s.lastFlush_ > s.flushInterval_ then
    flush { s with lastFlush_ := a.now }
  else return s

def append_unlocked (process : Process) (s : LogFile) (logline : List UInt8) (a : Answers) :
    Except Fault LogFile := do
  let r ← s.deref
  let r : Record :=
    { r with file := r.file.append logline a.writes, lines := r.lines ++ [(logline, a)] }
  let s := { s with file_ := some r }
  if r.file.writtenBytes_ > s.rollSize_ then
    let (_, s) ← s.rollFile process a.rollNow a.opens
    return s
  else if s.count_ + 1 ≥ s.checkEveryN_ then checkTime process s a
  else return { s with count_ := s.count_ + 1 }

/-! ### The machine -/

inductive Event where
  | append (logline : List UInt8) (answers : Answers)
  | flush
  | rollFile (now : Int) (opens : Bool)

def step (process : Process) (s : LogFile) : Event → Except Fault LogFile
  | .append logline answers => append_unlocked process s logline answers
  | .flush => flush s
  | .rollFile now opens => do
      let (_, s) ← s.rollFile process now opens
      return s

/-- All members can be called at any time. -/
def machine (process : Process) : Machine LogFile Event Fault where
  enabled _ _ := True
  step := step process

instance (process : Process) (s : LogFile) (e : Event) :
    Decidable ((machine process).enabled s e) := inferInstanceAs (Decidable True)

/-- The files that there are, in the order in which they were opened. -/
def files (s : LogFile) : List Record := s.closed ++ s.file_.toList

/-- The line that an event brings. -/
def Event.line : Event → List Entry
  | .append logline answers => [(logline, answers)]
  | _ => []

end LogFile

end Muduo.Base
