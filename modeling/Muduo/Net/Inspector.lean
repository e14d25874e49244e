import Muduo.Lib.Slice
import Muduo.Net.HttpServer

/-!
# `Muduo.Net.Inspector`: the commands of a process, by path

`muduo/net/inspect/Inspector.cc`. The inspector is the callback of an
`HttpServer`. It has a table of commands, by module and name. A request for
`/module/command/arg/...` runs a command, and `/` lists them all.

`find` and `substr` are those of `std::string`: an index that is not found is
`npos`, and `substr` throws when it would begin behind the end. The loop of
`split` has fuel for one round more than there can be, and a loop that uses it
up is the fault `diverges`.

A command is a function of the method and the arguments, and an empty
`std::function` is `none`. The calls of commands and the log records are
effects. Everything happens under one mutex, so `add`, `remove` and
`onRequest` are steps. The bytes of the icon are looked at nowhere, so
`favicon` is any string. Allocation does not fail.
-/

set_option autoImplicit false

namespace Muduo.Net

open Muduo.Base
open Muduo.Lib

namespace Inspector

/-- What ends a request: `std::out_of_range`, `std::length_error`, or a loop
that does not end. -/
inductive Fault where
  | outOfRange
  | lengthError
  | diverges
  deriving DecidableEq, Repr

/-! ### `split` -/

/-- `'/'`. -/
def slash : UInt8 := 47

/-- `string::npos`. -/
def npos : Nat := sizeModulus - 1

/-- `str.find(c, pos)`. -/
def find (str : List UInt8) (c : UInt8) (pos : Nat) : Nat :=
  match (str.drop pos).idxOf? c with
  | some i => pos + i
  | none => npos

/-- `str.substr(pos, n)`, which ends with the string at the latest. -/
def substr (str : List UInt8) (pos n : Nat) : Except Fault (List UInt8) := do
  assertThat (pos ≤ str.length) .outOfRange
  return slice str pos n

/-- The variables of `split`. -/
structure Splitting where
  result : List (List UInt8)
  start : Nat
  pos : Nat
  deriving DecidableEq, Repr

/-- What stands between `start` and `pos`. -/
def pushBefore (str : List UInt8) (s : Splitting) : Except Fault (List (List UInt8)) :=
  if s.start < s.pos then do
    let part ← substr str s.start (subSize s.pos s.start)
    return s.result ++ [part]
  else return s.result

/-- What stands behind the last `'/'`. -/
def pushRest (str : List UInt8) (s : Splitting) : Except Fault (List (List UInt8)) :=
  if s.start < str.length then do
    let part ← substr str s.start npos
    return s.result ++ [part]
  else return s.result

/-- One round of the loop. -/
def splitRound (str : List UInt8) (s : Splitting) : Except Fault (Next Splitting Splitting) :=
  if s.pos = npos then return .stop s
  else do
    let result ← pushBefore str s
    let start := addSize s.pos 1
    return .again ⟨result, start, find str slash start⟩

/-- `split(str)`. -/
def split (str : List UInt8) : Except Fault (List (List UInt8)) := do
  let s ← loop (splitRound str) .diverges (str.length + 2) ⟨[], 0, find str slash 0⟩
  pushRest str s

/-! ### The commands -/

abbrev ArgList := List (List UInt8)

abbrev Callback := HttpRequest.Method → ArgList → StdString

abbrev CommandList := Std.ExtTreeMap (List UInt8) (Option Callback)

abbrev HelpList := Std.ExtTreeMap (List UInt8) (List UInt8)

/-- A log record, or the call of a command. -/
inductive Effect where
  | logDebug (text : List UInt8)
  | logError (text : List UInt8)
  | call (module command : List UInt8) (method : HttpRequest.Method) (args : ArgList)
  deriving DecidableEq

end Inspector

open Inspector in
/-- `Inspector`, for its commands. -/
structure Inspector where
  modules_ : Std.ExtTreeMap (List UInt8) CommandList := ∅
  helps_ : Std.ExtTreeMap (List UInt8) HelpList := ∅

namespace Inspector

/-- `add(module, command, cb, help)`. -/
def add (ins : Inspector) (module command : List UInt8) (cb : Option Callback) (help : List UInt8) :
    Inspector where
  modules_ := ins.modules_.insert module ((ins.modules_[module]?.getD ∅).insert command cb)
  helps_ := ins.helps_.insert module ((ins.helps_[module]?.getD ∅).insert command help)

/-- `remove(module, command)`. -/
def remove (ins : Inspector) (module command : List UInt8) : Inspector :=
  match ins.modules_[module]? with
  | some commList =>
      { modules_ := ins.modules_.insert module (commList.erase command)
        helps_ := ins.helps_.insert module ((ins.helps_[module]?.getD ∅).erase command) }
  | none => ins

/-! ### `onRequest` -/

/-- One line of the list. -/
def helpLine (module : List UInt8) (entry : List UInt8 × List UInt8) : List UInt8 :=
  let len := addSize module.length entry.1.length
  [slash] ++ module ++ [slash] ++ entry.1
    ++ List.replicate (if 25 ≤ len then 1 else 25 - len) 32 ++ entry.2 ++ ascii ['\n']

/-- The list of all commands. -/
def helpText (ins : Inspector) : List UInt8 :=
  ins.helps_.toList.flatMap fun helpListI => helpListI.2.toList.flatMap (helpLine helpListI.1)

/-- A string that has grown to `bytes`. -/
def grown (bytes : List UInt8) : Except Fault StdString :=
  if h : bytes.length ≤ maxSize then .ok ⟨bytes, h⟩ else .error .lengthError

/-- The response of a request that succeeds. -/
def found (resp : HttpResponse) (contentType body : StdString) : HttpResponse :=
  (((resp.setStatusCode .k200Ok).setStatusMessage ⟨ascii ['O', 'K'], by decide⟩).setContentType
    contentType).setBody body

theorem length_notFound_le :
    (ascii ['N', 'o', 't', ' ', 'F', 'o', 'u', 'n', 'd']).length ≤ maxSize := by decide

/-- The response when `ok` is `false`. -/
def notFound (resp : HttpResponse) : HttpResponse :=
  (resp.setStatusCode .k404NotFound).setStatusMessage
    ⟨ascii ['N', 'o', 't', ' ', 'F', 'o', 'u', 'n', 'd'], length_notFound_le⟩

def textPlain : StdString := ⟨ascii ['t', 'e', 'x', 't', '/', 'p', 'l', 'a', 'i', 'n'], by decide⟩

def imagePng : StdString := ⟨ascii ['i', 'm', 'a', 'g', 'e', '/', 'p', 'n', 'g'], by decide⟩

/-- The command in the table, when its `std::function` is not empty. -/
def lookup (ins : Inspector) (module command : List UInt8) : Option Callback := do
  let commList ← ins.modules_[module]?
  let cb ← commList[command]?
  cb

/-- What the parts of the path ask for: the response when `ok` is `true`, and
the effects. -/
def dispatch (favicon : StdString) (ins : Inspector) (req : HttpRequest) (resp : HttpResponse) :
    List (List UInt8) → Option HttpResponse × List Effect
  | [] => (none, [.logDebug req.path_])
  | [module] =>
      if module = ascii ['f', 'a', 'v', 'i', 'c', 'o', 'n', '.', 'i', 'c', 'o'] then
        (some (found resp imagePng favicon), [])
      else
        (none, [.logError (ascii ['U', 'n', 'i', 'm', 'p', 'l', 'e', 'm', 'e', 'n', 't', 'e', 'd', ' ']
          ++ module)])
  | module :: command :: args =>
      match ins.lookup module command with
      | some cb =>
          (some (found resp textPlain (cb req.method_ args)), [.call module command req.method_ args])
      | none => (none, [])

/-- `onRequest(req, resp)`. -/
def onRequest (favicon : StdString) (ins : Inspector) (req : HttpRequest) (resp : HttpResponse) :
    Except Fault (HttpResponse × List Effect) :=
  if req.path_ = [slash] then do
    let result ← grown ins.helpText
    return (found resp textPlain result, [])
  else do
    let result ← split req.path_
    let (answer, log) := ins.dispatch favicon req resp result
    return (answer.getD (notFound resp), log)

/-- A call of `add` or `remove`. -/
inductive Change where
  | add (module command : List UInt8) (cb : Option Callback) (help : List UInt8)
  | remove (module command : List UInt8)

def change (ins : Inspector) : Change → Inspector
  | .add module command cb help => ins.add module command cb help
  | .remove module command => ins.remove module command

/-- An inspector after these calls, the first one first. -/
def after (changes : List Change) : Inspector := changes.foldl change {}

end Inspector

end Muduo.Net
