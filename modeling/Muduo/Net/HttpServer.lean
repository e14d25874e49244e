import Muduo.Lib.OrderedMap
import Muduo.Net.HttpContext
import Muduo.Net.TcpServer

/-!
# `Muduo.Net.HttpServer`: the HTTP server on one connection

`muduo/net/http/HttpServer.cc` and `muduo/net/http/HttpResponse.cc`. The
context and the input buffer are those of one connection. What the server
does with the connection and the calls of `httpCallback_` are effects, in a
log that no function reads. The callback fills in the response, so it is a
function.

`send` is overloaded in the source. A text that the server sends itself is
`sendString`, and a response is `sendBuffer`.

`shutdown()` closes the sending side only. Bytes that the client sends
after it still reach `onMessage`.
-/

set_option autoImplicit false

namespace Muduo.Net

open Muduo.Base
open Muduo.Lib

/-! ### `HttpResponse` -/

namespace HttpResponse

inductive HttpStatusCode where
  | kUnknown
  | k200Ok
  | k301MovedPermanently
  | k400BadRequest
  | k404NotFound
  deriving DecidableEq, Repr

/-- The value of the enumerator. -/
def HttpStatusCode.value : HttpStatusCode → Int
  | .kUnknown => 0
  | .k200Ok => 200
  | .k301MovedPermanently => 301
  | .k400BadRequest => 400
  | .k404NotFound => 404

end HttpResponse

open HttpResponse in
/-- `HttpResponse`. Each of its texts is a `std::string`, so it has at most
`max_size()` bytes. -/
structure HttpResponse where
  headers_ : Std.ExtTreeMap (List UInt8) (List UInt8)
  statusCode_ : HttpStatusCode
  statusMessage_ : StdString
  closeConnection_ : Bool
  body_ : StdString
  headers_le : ∀ header ∈ headers_.toList, header.1.length ≤ maxSize ∧ header.2.length ≤ maxSize

namespace HttpResponse

/-- `HttpResponse(close)`. -/
def ctor (close : Bool) : HttpResponse where
  headers_ := ∅
  statusCode_ := .kUnknown
  statusMessage_ := ⟨[], Nat.zero_le _⟩
  closeConnection_ := close
  body_ := ⟨[], Nat.zero_le _⟩
  headers_le := by
    intro header h
    rw [Std.ExtTreeMap.mem_toList_iff_getElem?_eq_some] at h
    simp at h

def setStatusCode (r : HttpResponse) (code : HttpStatusCode) : HttpResponse :=
  { r with statusCode_ := code }

def setStatusMessage (r : HttpResponse) (message : StdString) : HttpResponse :=
  { r with statusMessage_ := message }

def setCloseConnection (r : HttpResponse) (on : Bool) : HttpResponse :=
  { r with closeConnection_ := on }

/-- A header more, or another value for it, keeps the bound. -/
theorem insert_headers_le (r : HttpResponse) (key value : StdString) :
    ∀ header ∈ (r.headers_.insert key.bytes value.bytes).toList,
      header.1.length ≤ maxSize ∧ header.2.length ≤ maxSize := by
  rintro ⟨k, v⟩ h
  rw [Std.ExtTreeMap.mem_toList_iff_getElem?_eq_some, getElem?_insert_eq] at h
  split at h
  · next hkey =>
      cases h
      exact ⟨hkey ▸ key.length_le, value.length_le⟩
  · exact r.headers_le (k, v) (Std.ExtTreeMap.mem_toList_iff_getElem?_eq_some.mpr h)

/-- `addHeader(key, value)`. -/
def addHeader (r : HttpResponse) (key value : StdString) : HttpResponse :=
  { r with
    headers_ := r.headers_.insert key.bytes value.bytes
    headers_le := insert_headers_le r key value }

def setContentType (r : HttpResponse) (contentType : StdString) : HttpResponse :=
  r.addHeader ⟨ascii ['C', 'o', 'n', 't', 'e', 'n', 't', '-', 'T', 'y', 'p', 'e'], by decide⟩ contentType

def setBody (r : HttpResponse) (body : StdString) : HttpResponse := { r with body_ := body }

/-- One header line of the response. `append` takes a `StringPiece` here and
below, so it goes by the length of the text as an `int`. -/
def appendHeader (output : Buffer) (header : List UInt8 × List UInt8) :
    Except Buffer.Fault Buffer := do
  let output ← output.appendStringPiece (.ofString header.1)
  let output ← output.appendStringPiece (.ofString (ascii [':', ' ']))
  let output ← output.appendStringPiece (.ofString header.2)
  output.appendStringPiece (.ofString (ascii ['\r', '\n']))

/-- The lines that say whether the connection stays open. -/
def appendConnection (r : HttpResponse) (output : Buffer) : Except Buffer.Fault Buffer := do
  if r.closeConnection_ then
    output.appendStringPiece (.ofString (ascii ['C', 'o', 'n', 'n', 'e', 'c', 't', 'i', 'o', 'n', ':',
      ' ', 'c', 'l', 'o', 's', 'e', '\r', '\n']))
  else
    let output ← output.appendStringPiece (.ofString (ascii (snprintf 32 (['C', 'o', 'n', 't', 'e', 'n',
      't', '-', 'L', 'e', 'n', 'g', 't', 'h', ':', ' '] ++ decimal r.body_.bytes.length ++
      ['\r', '\n']))))
    output.appendStringPiece (.ofString (ascii ['C', 'o', 'n', 'n', 'e', 'c', 't', 'i', 'o', 'n', ':',
      ' ', 'K', 'e', 'e', 'p', '-', 'A', 'l', 'i', 'v', 'e', '\r', '\n']))

def appendToBuffer (r : HttpResponse) (output : Buffer) : Except Buffer.Fault Buffer := do
  let output ← output.appendStringPiece (.ofString (ascii (snprintf 32 (['H', 'T', 'T', 'P', '/', '1',
    '.', '1', ' '] ++ decimal r.statusCode_.value ++ [' ']))))
  let output ← output.appendStringPiece (.ofString r.statusMessage_.bytes)
  let output ← output.appendStringPiece (.ofString (ascii ['\r', '\n']))
  let output ← r.appendConnection output
  let output ← r.headers_.toList.foldlM appendHeader output
  let output ← output.appendStringPiece (.ofString (ascii ['\r', '\n']))
  output.appendStringPiece (.ofString r.body_.bytes)

end HttpResponse

/-! ### `HttpServer` -/

/-- `HttpServer`, for what happens on a connection. -/
structure HttpServer where
  httpCallback_ : HttpRequest → HttpResponse → HttpResponse

namespace HttpServer

open HttpContext (Fault)

/-- `detail::defaultHttpCallback`. -/
def defaultHttpCallback (_ : HttpRequest) (resp : HttpResponse) : HttpResponse :=
  ((resp.setStatusCode .k404NotFound).setStatusMessage
    ⟨ascii ['N', 'o', 't', ' ', 'F', 'o', 'u', 'n', 'd'], by decide⟩).setCloseConnection true

/-- A call of `httpCallback_`, or of a function of the connection. -/
inductive Effect where
  | httpCallback (req : HttpRequest)
  | sendString (message : List UInt8)
  | sendBuffer (bytes : List UInt8)
  | shutdown
  deriving DecidableEq

/-- The connection: the `HttpContext` that `onConnection` has stored in it,
its input buffer, and what has happened so far. -/
structure Connection where
  context : HttpContext := {}
  inputBuffer_ : Buffer := Buffer.default
  log : List Effect := []

def onRequest (server : HttpServer) (req : HttpRequest) : Except Fault (List Effect) := do
  let connection := req.getHeader (ascii ['C', 'o', 'n', 'n', 'e', 'c', 't', 'i', 'o', 'n'])
  let close := connection = ascii ['c', 'l', 'o', 's', 'e'] ∨
    req.version_ = .kHttp10 ∧
      connection ≠ ascii ['K', 'e', 'e', 'p', '-', 'A', 'l', 'i', 'v', 'e']
  let response := server.httpCallback_ req (.ctor close)
  let buf ← (response.appendToBuffer Buffer.default).mapError .buffer
  return [.httpCallback req, .sendBuffer buf.readable]
    ++ if response.closeConnection_ then [.shutdown] else []

/-- `"HTTP/1.1 400 Bad Request\r\n\r\n"`. -/
def badRequest : List UInt8 :=
  ascii ['H', 'T', 'T', 'P', '/', '1', '.', '1', ' ', '4', '0', '0', ' ', 'B', 'a', 'd', ' ', 'R', 'e',
    'q', 'u', 'e', 's', 't', '\r', '\n', '\r', '\n']

/-- The part of `onMessage` behind `parseRequest`, with its outcome. -/
def afterParse (server : HttpServer) (log : List Effect) (o : HttpContext.Outcome) :
    Except Fault Connection := do
  let log := if o.ok then log else log ++ [.sendString badRequest, .shutdown]
  if o.context.gotAll then
    let effects ← server.onRequest o.context.request_
    return ⟨o.context.reset, o.buf, log ++ effects⟩
  else return ⟨o.context, o.buf, log⟩

def onMessage (server : HttpServer) (conn : Connection) (receiveTime : Timestamp) :
    Except Fault Connection := do
  let o ← conn.context.parseRequest conn.inputBuffer_ receiveTime
  server.afterParse conn.log o

/-- A chunk arrives: it is read into the input buffer and `onMessage` is
called. -/
def receiveChunk (server : HttpServer) (conn : Connection) (chunk : Chunk) :
    Except Fault Connection := do
  let buf ← (conn.inputBuffer_.append chunk.1.bytes).mapError .buffer
  server.onMessage { conn with inputBuffer_ := buf } chunk.2

/-- A new connection and one chunk after the other. -/
def receive (server : HttpServer) (chunks : List Chunk) : Except Fault Connection :=
  chunks.foldlM server.receiveChunk {}

end HttpServer

end Muduo.Net
