import Muduo.Lib.Decoder
import Muduo.Net.Buffer

/-!
# `Muduo.Net.HttpContext`: the parser of HTTP requests

`muduo/net/http/HttpRequest.h` and `muduo/net/http/HttpContext.cc`. A range
`[begin, end)` of the buffer that a function gets as two pointers is the
list of its bytes, and a pointer into it that `std::find` returns is an
index, which is the length of the list when nothing is found.

`processRequestLine` changes the request while it reads the line, and what
it has changed stays when it then returns `false`.

In the states `kExpectBody` and `kGotAll` the loop of `parseRequest` does
nothing and does not end. A loop that has made more rounds than there are
bytes in the buffer is in one of them, and is the fault `diverges`.
-/

set_option autoImplicit false

namespace Muduo.Net

open Muduo.Base
open Muduo.Lib

/-! ### `HttpRequest` -/

namespace HttpRequest

inductive Method where
  | kInvalid
  | kGet
  | kPost
  | kHead
  | kPut
  | kDelete
  deriving DecidableEq, Repr

inductive Version where
  | kUnknown
  | kHttp10
  | kHttp11
  deriving DecidableEq, Repr

end HttpRequest

open HttpRequest in
/-- `HttpRequest`. A new one has the values of its constructor. -/
structure HttpRequest where
  method_ : Method := .kInvalid
  version_ : Version := .kUnknown
  path_ : List UInt8 := []
  query_ : List UInt8 := []
  receiveTime_ : Timestamp := 0
  headers_ : Std.ExtTreeMap (List UInt8) (List UInt8) := ∅
  deriving DecidableEq

namespace HttpContext

/-- What stops the parser: its `assert`, a fault of the buffer, or a loop
that does not end. -/
inductive Fault where
  | setMethod
  | buffer (f : Buffer.Fault)
  | diverges
  deriving DecidableEq, Repr

end HttpContext

namespace HttpRequest

open HttpContext (Fault)

/-- The method that a token names. -/
def methodOf (m : List UInt8) : Method :=
  if m = ascii ['G', 'E', 'T'] then .kGet
  else if m = ascii ['P', 'O', 'S', 'T'] then .kPost
  else if m = ascii ['H', 'E', 'A', 'D'] then .kHead
  else if m = ascii ['P', 'U', 'T'] then .kPut
  else if m = ascii ['D', 'E', 'L', 'E', 'T', 'E'] then .kDelete
  else .kInvalid

/-- `setMethod`: whether the token is a method, and the request. -/
def setMethod (r : HttpRequest) (m : List UInt8) : Except Fault (Bool × HttpRequest) := do
  assertThat (r.method_ = .kInvalid) .setMethod
  let method := methodOf m
  return (method ≠ .kInvalid, { r with method_ := method })

def setVersion (r : HttpRequest) (v : Version) : HttpRequest := { r with version_ := v }
def setPath (r : HttpRequest) (path : List UInt8) : HttpRequest := { r with path_ := path }
def setQuery (r : HttpRequest) (query : List UInt8) : HttpRequest := { r with query_ := query }
def setReceiveTime (r : HttpRequest) (t : Timestamp) : HttpRequest := { r with receiveTime_ := t }

/-- `isspace` in the `C` locale. -/
def isspace (x : UInt8) : Bool := x = 32 ∨ 9 ≤ x ∧ x ≤ 13

/-- The value of a header: `raw` without the whitespace around it. -/
def trim (raw : List UInt8) : List UInt8 :=
  ((raw.dropWhile isspace).reverse.dropWhile isspace).reverse

/-- `addHeader(start, colon, end)`, with `line` the range from `start` to
`end` and `colon` the index of the colon. -/
def addHeader (r : HttpRequest) (line : List UInt8) (colon : Nat) : HttpRequest :=
  let field := line.take colon
  let value := trim (line.drop (colon + 1))
  { r with headers_ := r.headers_.insert field value }

def getHeader (r : HttpRequest) (field : List UInt8) : List UInt8 := r.headers_[field]?.getD []

end HttpRequest

/-! ### `HttpContext` -/

namespace HttpContext

inductive HttpRequestParseState where
  | kExpectRequestLine
  | kExpectHeaders
  | kExpectBody
  | kGotAll
  deriving DecidableEq, Repr

end HttpContext

open HttpContext in
/-- `HttpContext`. -/
structure HttpContext where
  state_ : HttpRequestParseState := .kExpectRequestLine
  request_ : HttpRequest := {}
  deriving DecidableEq

namespace HttpContext

open HttpRequest

def gotAll (c : HttpContext) : Bool := c.state_ = .kGotAll

/-- `reset()`. -/
def reset (_ : HttpContext) : HttpContext := {}

/-- The part of `processRequestLine` behind the method: `rest` is the
range from behind the first space to the end of the line. -/
def processTarget (r : HttpRequest) (rest : List UInt8) : Bool × HttpRequest :=
  let space := rest.idxOf 32
  if space ≠ rest.length then
    let target := rest.take space
    let question := target.idxOf 63
    let r := if question ≠ space then
        (r.setPath (target.take question)).setQuery (target.drop question)
      else r.setPath target
    let version := rest.drop (space + 1)
    if version.length = 8 ∧ version.take 7 = ascii ['H', 'T', 'T', 'P', '/', '1', '.'] then
      if version[7]? = some 49 then (true, r.setVersion .kHttp11)
      else if version[7]? = some 48 then (true, r.setVersion .kHttp10)
      else (false, r)
    else (false, r)
  else (false, r)

/-- `processRequestLine`, with `line` the range from `begin` to `end`. -/
def processRequestLine (c : HttpContext) (line : List UInt8) : Except Fault (Bool × HttpContext) := do
  let space := line.idxOf 32
  if space ≠ line.length then
    let (valid, request) ← c.request_.setMethod (line.take space)
    if valid then
      let (succeed, request) := processTarget request (line.drop (space + 1))
      return (succeed, { c with request_ := request })
    else return (false, { c with request_ := request })
  else return (false, c)

/-- The range from `peek()` to `crlf`. -/
def lineTo (b : Buffer) (crlf : Nat) : List UInt8 := slice b.buffer_ b.peek (crlf - b.peek)

/-- What `parseRequest` returns, with the context and the buffer after it. -/
structure Outcome where
  ok : Bool
  context : HttpContext
  buf : Buffer
  deriving DecidableEq

/-- A round in the state `kExpectRequestLine`, with what `findCRLF` returns. -/
def expectRequestLine (receiveTime : Timestamp) (c : HttpContext) (buf : Buffer) :
    Option Nat → Except Fault (Next (HttpContext × Buffer) Outcome)
  | some crlf => do
      let (ok, c) ← c.processRequestLine (lineTo buf crlf)
      if ok then
        let request := c.request_.setReceiveTime receiveTime
        let buf ← (buf.retrieveUntil (crlf + 2)).mapError .buffer
        return .again (⟨.kExpectHeaders, request⟩, buf)
      else return .stop ⟨false, c, buf⟩
  | none => return .stop ⟨true, c, buf⟩

/-- A round in the state `kExpectHeaders`, with what `findCRLF` returns. -/
def expectHeaders (c : HttpContext) (buf : Buffer) :
    Option Nat → Except Fault (Next (HttpContext × Buffer) Outcome)
  | some crlf => do
      let line := lineTo buf crlf
      let colon := line.idxOf 58
      let buf ← (buf.retrieveUntil (crlf + 2)).mapError .buffer
      if colon ≠ line.length then
        return .again ({ c with request_ := c.request_.addHeader line colon }, buf)
      else
        -- empty line, end of header
        return .stop ⟨true, { c with state_ := .kGotAll }, buf⟩
  | none => return .stop ⟨true, c, buf⟩

/-- One round of the loop in `parseRequest`. It stops where the source sets
`hasMore` to `false`. -/
def round (receiveTime : Timestamp) (p : HttpContext × Buffer) :
    Except Fault (Next (HttpContext × Buffer) Outcome) :=
  match p.1.state_ with
  | .kExpectRequestLine => expectRequestLine receiveTime p.1 p.2 p.2.findCRLF
  | .kExpectHeaders => expectHeaders p.1 p.2 p.2.findCRLF
  | .kExpectBody => .ok (.again p)
  | .kGotAll => .ok (.again p)

/-- `parseRequest`. -/
def parseRequest (c : HttpContext) (buf : Buffer) (receiveTime : Timestamp) : Except Fault Outcome :=
  loop (round receiveTime) .diverges (buf.readableBytes + 1) (c, buf)

/-! ### Chunks -/

/-- The bytes of a chunk go to the buffer and `parseRequest` is called,
unless it has returned `false` before or the request is complete. -/
def parseChunk (o : Outcome) (chunk : Chunk) : Except Fault Outcome := do
  let buf ← (o.buf.append chunk.1.bytes).mapError .buffer
  if o.ok ∧ ¬ o.context.gotAll then
    o.context.parseRequest buf chunk.2
  else return { o with buf := buf }

/-- A fresh context and a new buffer, and one chunk after the other. -/
def parseChunks (chunks : List Chunk) : Except Fault Outcome :=
  chunks.foldlM parseChunk ⟨true, {}, Buffer.default⟩

end HttpContext

end Muduo.Net
