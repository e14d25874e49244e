import Muduo.Lib.Window
import Muduo.Net.HttpContext

/-!
# `Muduo.Net.HttpRequestLine`: the request line, pointer by pointer

`HttpContext::processRequestLine` gets the line as two pointers into the
buffer, with other bytes in front of it and behind it. `HttpContext.lean`
takes the line as the list of its bytes, so it cannot say which bytes are
read. Here the pointers are indices into memory, and each read goes through
a `Window` that holds the line and nothing else.
-/

set_option autoImplicit false

namespace Muduo.Net

open Muduo.Base
open Muduo.Lib

/-- `methodString()`. -/
def HttpRequest.methodString (r : HttpRequest) : List UInt8 :=
  match r.method_ with
  | .kGet => ascii ['G', 'E', 'T']
  | .kPost => ascii ['P', 'O', 'S', 'T']
  | .kHead => ascii ['H', 'E', 'A', 'D']
  | .kPut => ascii ['P', 'U', 'T']
  | .kDelete => ascii ['D', 'E', 'L', 'E', 'T', 'E']
  | .kInvalid => ascii ['U', 'N', 'K', 'N', 'O', 'W', 'N']

namespace HttpRequestLine

/-- A read outside the line, or what stops `HttpContext`. -/
inductive Fault where
  | memory (f : Window.Fault)
  | context (f : HttpContext.Fault)
  deriving DecidableEq, Repr

/-- `setMethod(start, end)`. -/
def setMethod (w : Window UInt8) (r : HttpRequest) (start stop : Nat) :
    Except Fault (Bool × HttpRequest) := do
  let m ← (w.string start stop).mapError .memory
  (r.setMethod m).mapError .context

/-- `setPath(start, end)`. -/
def setPath (w : Window UInt8) (r : HttpRequest) (start stop : Nat) : Except Fault HttpRequest := do
  let path ← (w.string start stop).mapError .memory
  return r.setPath path

/-- `setQuery(start, end)`. -/
def setQuery (w : Window UInt8) (r : HttpRequest) (start stop : Nat) : Except Fault HttpRequest := do
  let query ← (w.string start stop).mapError .memory
  return r.setQuery query

/-- The target of the request, from `start` to the second space. -/
def processPath (w : Window UInt8) (r : HttpRequest) (start space : Nat) :
    Except Fault HttpRequest := do
  let question ← (w.find start space 63).mapError .memory
  if question ≠ space then
    let r ← setPath w r start question
    setQuery w r question space
  else setPath w r start space

/-- The version, from `start` to the end of the line. The comparison with
the text is made when there are eight bytes, and the last of them is read
when the other seven are the text. -/
def processVersion (w : Window UInt8) (r : HttpRequest) (start stop : Nat) :
    Except Fault (Bool × HttpRequest) := do
  if stop - start = 8 then
    let succeed ← (w.equal start (stop - 1)
      (ascii ['H', 'T', 'T', 'P', '/', '1', '.'])).mapError .memory
    if succeed then
      let digit ← (w.read (stop - 1)).mapError .memory
      if digit = 49 then return (true, r.setVersion .kHttp11)
      else if digit = 48 then return (true, r.setVersion .kHttp10)
      else return (false, r)
    else return (false, r)
  else return (false, r)

/-- The part of the line behind the method. -/
def processTarget (w : Window UInt8) (r : HttpRequest) (start stop : Nat) :
    Except Fault (Bool × HttpRequest) := do
  let space ← (w.find start stop 32).mapError .memory
  if space ≠ stop then
    let r ← processPath w r start space
    processVersion w r (space + 1) stop
  else return (false, r)

/-- `processRequestLine(begin, end)`. -/
def processRequestLine (w : Window UInt8) (c : HttpContext) (begin stop : Nat) :
    Except Fault (Bool × HttpContext) := do
  let space ← (w.find begin stop 32).mapError .memory
  if space ≠ stop then
    let (valid, request) ← setMethod w c.request_ begin space
    if valid then
      let (succeed, request) ← processTarget w request (space + 1) stop
      return (succeed, { c with request_ := request })
    else return (false, { c with request_ := request })
  else return (false, c)

/-- The line as the window that may be read, with the bytes around it. -/
def window (before line after : List UInt8) : Window UInt8 where
  mem := before ++ line ++ after
  first := before.length
  last := before.length + line.length
  last_le := by
    rw [List.length_append, List.length_append]
    exact Nat.le_add_right _ _

end HttpRequestLine

end Muduo.Net
