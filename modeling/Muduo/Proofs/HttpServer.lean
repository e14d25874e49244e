import Muduo.Net.HttpServer
import Muduo.Proofs.BufferReach
import Muduo.Proofs.HttpContext
import Muduo.Proofs.TcpServer

/-!
# `Muduo.Proofs.HttpServer`: when the parser's `assert` fails

`setMethod` asserts that the method is not set yet. A rejected request line
stays in the buffer, and the context is not reset after it, so the next
call of `onMessage` reads the same line again. What happens then depends on
how far the line was read: `setMethod` has changed the request when the
line begins with a method that it knows and a space.

A connection is `Alive` as long as no request was answered with 400. After
that it is `Rejected`: the line that was rejected is the first line of the
buffer for ever, and the method is set exactly when that line names one
(`NamesMethod`). From there a call of `onMessage` either answers with 400
again or asserts.

`setMethod_asserts_iff` says exactly which sequences of chunks make the
`assert` fail.
-/

set_option autoImplicit false

namespace Muduo.Net

open Muduo.Base
open Muduo.Lib
open Muduo.Net.Buffer

namespace HttpContext

open HttpRequest

variable {c : HttpContext} {xs line : List UInt8} {i : Nat}

/-! ### A rejected line -/

/-- The line begins with a method that `setMethod` knows, and a space. -/
def NamesMethod (line : List UInt8) : Prop :=
  line.idxOf 32 ≠ line.length ∧ methodOf (line.take (line.idxOf 32)) ≠ .kInvalid

theorem processTarget_method (r : HttpRequest) (rest : List UInt8) :
    (processTarget r rest).2.method_ = r.method_ := by
  simp only [processTarget]
  split_ifs <;> rfl

/-- A line sets the method exactly when it names one. -/
theorem readLine_method {r : HttpRequest} (h : r.method_ = .kInvalid) (line : List UInt8) :
    (readLine r line).2.method_ ≠ .kInvalid ↔ NamesMethod line := by
  simp only [readLine, NamesMethod]
  split_ifs with hspace hmethod
  · rw [processTarget_method]
    exact ⟨fun hm => ⟨hspace, hm⟩, fun hm => hm.2⟩
  · exact ⟨fun hm => ⟨hspace, hm⟩, fun hm => hm.2⟩
  · exact ⟨fun hm => absurd h hm, fun hm => absurd hm.1 hspace⟩

/-- A line that names no method is rejected. -/
theorem readLine_rejects (h : ¬ NamesMethod line) (r : HttpRequest) : (readLine r line).1 = false := by
  simp only [readLine]
  split_ifs with hspace hmethod
  · exact absurd ⟨hspace, hmethod⟩ h
  · rfl
  · rfl

/-- Behind the request line nothing is rejected. -/
theorem verdict_ne_bad_of_headers (q : HttpContext) (xs : List UInt8) :
    q.state_ = .kExpectHeaders → (decoder.decode q xs).verdict ≠ some .bad := by
  refine Decoder.decode_induct (D := decoder)
    (P := fun q _ p => q.state_ = .kExpectHeaders → p.verdict ≠ some .bad) ?_ ?_ ?_ q xs
  · intro q xs _ _ hbad
    cases hbad
  · intro q xs n r h ih hq
    obtain ⟨i, _, _, hmove⟩ := nextLine_of_next h (by simp)
    apply ih
    simp only [nextLine, hq] at hmove
    split_ifs at hmove
    cases hmove
    exact hq
  · intro q xs n r v h hq
    obtain ⟨i, _, _, hmove⟩ := nextLine_of_next h (by simp)
    simp only [nextLine, hq] at hmove
    split_ifs at hmove
    cases hmove
    show some Verdict.gotAll ≠ some Verdict.bad
    decide

/-- Parsing that ends badly is at the first line it has looked at. -/
theorem decode_bad (hc : Ready c) (h : (decoder.decode c.untimed xs).verdict = some .bad) :
    c.state_ = .kExpectRequestLine ∧ c.request_.method_ = .kInvalid ∧
      ∃ i, search kCRLF xs = some i ∧ (decoder.decode c.untimed xs).rest = xs ∧
        (decoder.decode c.untimed xs).state
          = untimed { c with request_ := (readLine c.request_ (xs.take i)).2 } := by
  cases hc with
  | inr hheaders => exact absurd h (verdict_ne_bad_of_headers c.untimed xs hheaders)
  | inl hline =>
      refine ⟨hline.1, hline.2, ?_⟩
      cases hs : search kCRLF xs with
      | none =>
          rw [Decoder.decode_need (D := decoder) (next_of_search_none hs)] at h
          cases h
      | some i =>
          have hmove : next c.untimed xs = _ :=
            (next_of_search hs).trans (nextLine_requestLine hline.1 _)
          by_cases hok : (readLine c.request_ (xs.take i)).1
          · rw [if_pos hok] at hmove
            rw [Decoder.decode_take (D := decoder) hmove] at h
            exact absurd h (verdict_ne_bad_of_headers _ _ rfl)
          · rw [if_neg hok] at hmove
            refine ⟨i, rfl, ?_, ?_⟩
            · rw [Decoder.decode_halt (D := decoder) hmove, List.drop_zero]
            · rw [Decoder.decode_halt (D := decoder) hmove]

end HttpContext

/-! ### Responses -/

namespace HttpResponse

variable {r : HttpResponse}

def lengthName : List Char :=
  ['C', 'o', 'n', 't', 'e', 'n', 't', '-', 'L', 'e', 'n', 'g', 't', 'h', ':', ' ']

/-- The lines that say how long the response is. -/
def connectionLines (r : HttpResponse) : List (List UInt8) :=
  if r.closeConnection_ then
    [ascii ['C', 'o', 'n', 'n', 'e', 'c', 't', 'i', 'o', 'n', ':', ' ', 'c', 'l', 'o', 's', 'e']]
  else
    [ascii (lengthName ++ decimal r.body_.bytes.length),
      ascii ['C', 'o', 'n', 'n', 'e', 'c', 't', 'i', 'o', 'n', ':', ' ', 'K', 'e', 'e', 'p', '-', 'A',
        'l', 'i', 'v', 'e']]

def statusText (code : HttpStatusCode) : List Char :=
  ['H', 'T', 'T', 'P', '/', '1', '.', '1', ' '] ++ decimal code.value ++ [' ']

/-- The lines in front of the body, without their ends. -/
def lines (r : HttpResponse) : List (List UInt8) :=
  (ascii (statusText r.statusCode_) ++ r.statusMessage_.bytes) ::
    (r.connectionLines ++
      r.headers_.toList.map fun header => header.1 ++ ascii [':', ' '] ++ header.2)

/-- What the response is on the wire. -/
def wire (r : HttpResponse) : List UInt8 :=
  r.lines.flatMap (· ++ kCRLF) ++ kCRLF ++ r.body_.bytes

/-- The texts that the callback has put into the response. -/
def texts (r : HttpResponse) : List (List UInt8) :=
  r.statusMessage_.bytes :: r.body_.bytes :: r.headers_.toList.flatMap fun h => [h.1, h.2]

/-- Each of the texts has a length that the `int` of a `StringPiece` holds. -/
def Short (r : HttpResponse) : Prop := ∀ text ∈ r.texts, text.length < 2 ^ 31

/-- The response is too large to be sent: a text of it has `2 ^ 31` bytes or
more, or all of it passes `max_size()` of the vector that it is built in. -/
def TooLarge (r : HttpResponse) : Prop :=
  ¬ r.Short ∨ maxSize < Buffer.default.buffer_.length + r.wire.length

/-- `f` appends `data`, or there is no room for it. -/
def Appends (f : Buffer → Except Buffer.Fault Buffer) (data : List UInt8) : Prop :=
  ∀ b : Buffer, b.Inv →
    Ends (f b) (Full .lengthError b.buffer_.length data) fun b' =>
      b'.Inv ∧ b'.readable = b.readable ++ data ∧ b'.buffer_.length ≤ b.buffer_.length + data.length

/-- One text of a response. -/
theorem Appends.text {data : List UInt8} (h : data.length < 2 ^ 31) :
    Appends (·.appendStringPiece (.ofString data)) data := by
  intro b hb
  have hvec := hb.size_le
  have hroom : maxSize + 2 ^ 31 < sizeModulus := by decide
  simp only [appendStringPiece_ofString b h]
  cases @append_spec b data hb (by omega) with
  | inl hok =>
      obtain ⟨b', happ, hb', hread, _, hlen⟩ := hok
      exact Ends.of_eq_ok happ ⟨hb', hread, hlen⟩
  | inr hfull =>
      exact Ends.of_eq_error hfull.1
        ⟨rfl, Nat.lt_of_lt_of_le hfull.2 (Nat.add_le_add_right hb.writer_le _)⟩

/-- Two pieces of a response, one behind the other. -/
theorem Appends.seq {f g : Buffer → Except Buffer.Fault Buffer} {xs ys : List UInt8}
    (hf : Appends f xs) (hg : Appends g ys) : Appends (fun b => f b >>= g) (xs ++ ys) := by
  intro b hb
  refine ((hf b hb).mono (fun f hfull => ?_) fun _ hb₁ => hb₁).bind ?_
  · obtain ⟨hfault, hmax⟩ := hfull
    exact ⟨hfault, by rw [List.length_append]; omega⟩
  · rintro b₁ ⟨hinv₁, hread₁, hlen₁⟩
    refine (hg b₁ hinv₁).mono ?_ ?_
    · rintro f ⟨hfault, hmax⟩
      exact ⟨hfault, by rw [List.length_append]; omega⟩
    · rintro b₂ ⟨hinv₂, hread₂, hlen₂⟩
      exact ⟨hinv₂, by rw [hread₂, hread₁, List.append_assoc], by rw [List.length_append]; omega⟩

/-- A loop over the headers. -/
theorem Appends.foldlM {α : Type} {f : Buffer → α → Except Buffer.Fault Buffer}
    {text : α → List UInt8} {l : List α} (hf : ∀ a ∈ l, Appends (f · a) (text a)) :
    Appends (l.foldlM f ·) (l.flatMap text) := by
  induction l with
  | nil => exact fun b hb => Ends.ok ⟨hb, (List.append_nil _).symm, Nat.le_refl _⟩
  | cons a l ih =>
      obtain ⟨ha, hl⟩ := List.forall_mem_cons.mp hf
      exact ha.seq (ih hl)

theorem length_snprintf_lt (text : List Char) : (ascii (snprintf 32 text)).length < 2 ^ 31 := by
  have hle : (ascii (snprintf 32 text)).length ≤ 31 := by
    rw [ascii, List.length_map, snprintf, List.length_take]
    omega
  exact Nat.lt_of_le_of_lt hle (by decide)

/-- The digits of a length that an `int` can hold fit into `buf`. -/
theorem appendConnection_appends (h : r.Short) :
    Appends r.appendConnection (r.connectionLines.flatMap (· ++ kCRLF)) := by
  unfold appendConnection connectionLines
  split
  · exact Appends.text (by decide)
  · have hline : ascii (snprintf 32 (lengthName ++ decimal r.body_.bytes.length ++ ['\r', '\n']))
        = ascii (lengthName ++ decimal r.body_.bytes.length) ++ kCRLF := by
      have hbody : r.body_.bytes.length < 2 ^ 31 := h _ (by simp [texts])
      have hdigits : (Nat.toDigits 10 r.body_.bytes.length).length ≤ 10 := by
        rw [Nat.length_toDigits_le_iff (by omega) (by omega)]
        omega
      rw [snprintf, List.take_of_length_le]
      · exact List.map_append
      · rw [decimal_natCast, List.length_append, List.length_append]
        show 16 + _ + 2 ≤ 31
        omega
    have hlength := length_snprintf_lt (lengthName ++ decimal r.body_.bytes.length ++ ['\r', '\n'])
    rw [lengthName] at hline hlength
    rw [hline] at hlength
    simp only [hline]
    exact (Appends.text hlength).seq (.text (by decide))

/-- A response of short texts is written whole. -/
theorem appendToBuffer_appends (h : r.Short) : Appends r.appendToBuffer r.wire := by
  have hstatus : ascii (snprintf 32 (statusText r.statusCode_)) = ascii (statusText r.statusCode_) := by
    cases r.statusCode_ <;> rfl
  have hheaders : Appends (r.headers_.toList.foldlM appendHeader ·)
      (r.headers_.toList.flatMap fun header =>
        header.1 ++ (ascii [':', ' '] ++ (header.2 ++ kCRLF))) := by
    refine Appends.foldlM fun header hmem => ?_
    have hkey : header.1.length < 2 ^ 31 := h _ (by simp only [texts]; grind)
    have hvalue : header.2.length < 2 ^ 31 := h _ (by simp only [texts]; grind)
    exact (Appends.text hkey).seq ((Appends.text (by decide)).seq
      ((Appends.text hvalue).seq (.text (by decide))))
  have hend : kCRLF.length < 2 ^ 31 := by decide
  have hall := (Appends.text (length_snprintf_lt (statusText r.statusCode_))).seq
    ((Appends.text (h r.statusMessage_.bytes (by simp [texts]))).seq ((Appends.text hend).seq
      ((appendConnection_appends h).seq (hheaders.seq
        ((Appends.text hend).seq (.text (h r.body_.bytes (by simp [texts]))))))))
  have hwire : r.wire = ascii (snprintf 32 (statusText r.statusCode_)) ++ (r.statusMessage_.bytes
      ++ (kCRLF ++ (r.connectionLines.flatMap (· ++ kCRLF) ++ ((r.headers_.toList.flatMap fun header =>
        header.1 ++ (ascii [':', ' '] ++ (header.2 ++ kCRLF))) ++ (kCRLF ++ r.body_.bytes))))) := by
    rw [hstatus, wire, lines]
    simp only [List.flatMap_cons, List.flatMap_append, List.flatMap_map, List.append_assoc]
  rw [hwire]
  exact hall

/-- A response is written, unless it is too large. -/
theorem appendToBuffer_ends (r : HttpResponse) :
    Ends (r.appendToBuffer Buffer.default) (fun _ => r.TooLarge) fun _ => True := by
  by_cases hshort : r.Short
  · exact (appendToBuffer_appends hshort _ inv_default).mono (fun _ hf => .inr hf.2) fun _ _ => trivial
  · cases r.appendToBuffer Buffer.default with
    | ok b => exact trivial
    | error f => exact .inl hshort

end HttpResponse

namespace HttpServer

open HttpContext

variable {server : HttpServer} {conn : Connection} {t : Timestamp}

/-- The requests that `httpCallback_` was called with. -/
def served (log : List Effect) : List HttpRequest :=
  log.filterMap fun
    | .httpCallback req => some req
    | _ => none

/-- A request was answered with 400. -/
def AnsweredBad (log : List Effect) : Prop := ∃ message, Effect.sendString message ∈ log

/-- The response to a request. -/
def answerTo (server : HttpServer) (req : HttpRequest) : HttpResponse :=
  let connection := req.getHeader (ascii ['C', 'o', 'n', 'n', 'e', 'c', 't', 'i', 'o', 'n'])
  server.httpCallback_ req (.ctor (connection = ascii ['c', 'l', 'o', 's', 'e'] ∨
    req.version_ = .kHttp10 ∧
      connection ≠ ascii ['K', 'e', 'e', 'p', '-', 'A', 'l', 'i', 'v', 'e']))

/-- A fault of the buffer in which the response to `req` is built, which is
too large for it. -/
def Unanswered (server : HttpServer) (req : HttpRequest) (f : HttpContext.Fault) : Prop :=
  (server.answerTo req).TooLarge ∧ ∃ fault, f = .buffer fault

/-- `onRequest` calls the callback once and sends a response. -/
theorem onRequest_ends (server : HttpServer) (req : HttpRequest) :
    Ends (server.onRequest req) (server.Unanswered req)
      (fun effects => served effects = [req] ∧ ¬ AnsweredBad effects) := by
  rw [onRequest]
  refine Ends.bind (Ends.mapError ((HttpResponse.appendToBuffer_ends _).mono
    (fun f hf => ⟨hf, f, rfl⟩) (fun _ hb => hb))) ?_
  intro b _
  split
  · exact Ends.ok ⟨rfl, by simp [AnsweredBad]⟩
  · exact Ends.ok ⟨rfl, by simp [AnsweredBad]⟩

theorem served_append (log more : List Effect) : served (log ++ more) = served log ++ served more :=
  List.filterMap_append

theorem answeredBad_append (log more : List Effect) :
    AnsweredBad (log ++ more) ↔ AnsweredBad log ∨ AnsweredBad more := by
  simp only [AnsweredBad, List.mem_append, exists_or]

/-! ### One call of `onMessage` -/

/-- What a call does that parses up to `d`. It takes bytes out of the input
buffer and leaves its vector. -/
def Handled (conn : Connection) (d : Parsed UInt8 HttpContext Verdict) (conn' : Connection) : Prop :=
  Inv conn'.inputBuffer_ ∧ conn'.inputBuffer_.readable = d.rest ∧
    conn'.inputBuffer_.buffer_ = conn.inputBuffer_.buffer_ ∧
    match d.verdict with
    | none => Ready conn'.context ∧ conn'.context.untimed = d.state ∧ conn'.log = conn.log
    | some .bad => conn'.context.state_ = .kExpectRequestLine ∧ conn'.context.untimed = d.state ∧
        conn'.log = conn.log ++ [.sendString badRequest, .shutdown]
    | some .gotAll => conn'.context = {} ∧
        ∃ req effects, req.untimed = d.state.request_ ∧ served effects = [req] ∧
          ¬ AnsweredBad effects ∧ conn'.log = conn.log ++ effects

/-- The request that was parsed up to `d` is not answered. -/
def Fails (server : HttpServer) (d : Parsed UInt8 HttpContext Verdict) (f : HttpContext.Fault) : Prop :=
  d.verdict = some .gotAll ∧ ∃ req, req.untimed = d.state.request_ ∧ server.Unanswered req f

/-- What one message does is what the decoder finds in the buffer: nothing, a bad line or one
request. -/
theorem onMessage_ends (server : HttpServer) (hb : Inv conn.inputBuffer_) (hc : Ready conn.context)
    (t : Timestamp) :
    Ends (server.onMessage conn t)
      (server.Fails (decoder.decode conn.context.untimed conn.inputBuffer_.readable))
      (Handled conn (decoder.decode conn.context.untimed conn.inputBuffer_.readable)) := by
  obtain ⟨o, hcall, hat⟩ := parseRequest_decodes hc hb t
  generalize decoder.decode conn.context.untimed conn.inputBuffer_.readable = d at hat ⊢
  have hended := hat.ended
  rw [onMessage, hcall, ok_bind, afterParse]
  cases hv : d.verdict with
  | none =>
      rw [hv] at hended
      have hgot := ((goesOn_iff hended).mpr rfl).2
      rw [hended.1, if_pos rfl, if_neg hgot]
      refine Ends.ok ⟨hat.inv, hat.readable, hat.vector, ?_⟩
      rw [hv]
      exact ⟨hended.2, hat.context, rfl⟩
  | some v =>
      cases v with
      | bad =>
          rw [hv] at hended
          have hgot : ¬ o.context.gotAll = true := by simp [gotAll, hended.2]
          rw [hended.1, if_neg Bool.false_ne_true, if_neg hgot]
          refine Ends.ok ⟨hat.inv, hat.readable, hat.vector, ?_⟩
          rw [hv]
          exact ⟨hended.2, hat.context, rfl⟩
      | gotAll =>
          rw [hv] at hended
          have hgot : o.context.gotAll = true := by simp [gotAll, hended.2]
          rw [hended.1, if_pos rfl, if_pos hgot]
          have hreq : o.context.request_.untimed = d.state.request_ :=
            congrArg HttpContext.request_ hat.context
          refine ((onRequest_ends server o.context.request_).mono
            (fun f hf => ⟨hv, o.context.request_, hreq, hf⟩) fun _ hq => hq).bind ?_
          intro effects heffects
          refine Ends.ok ⟨hat.inv, hat.readable, hat.vector, ?_⟩
          rw [hv]
          exact ⟨rfl, o.context.request_, effects, hreq, heffects.1, heffects.2, rfl⟩

/-! ### Before and after the first 400 -/

/-- No request was answered with 400, and the parser can go on. -/
structure Alive (conn : Connection) : Prop where
  inv : Inv conn.inputBuffer_
  ready : Ready conn.context
  unanswered : ¬ AnsweredBad conn.log

/-- A request was answered with 400. Its line is the first one in the
buffer, and the method is set when it names one. -/
structure Rejected (conn : Connection) : Prop where
  inv : Inv conn.inputBuffer_
  state : conn.context.state_ = .kExpectRequestLine
  answered : AnsweredBad conn.log
  line : ∃ i, search kCRLF conn.inputBuffer_.readable = some i ∧
    (conn.context.request_.method_ ≠ .kInvalid ↔ NamesMethod (conn.inputBuffer_.readable.take i))

/-- A request was answered with 400, and the first line in the buffer is
complete and names a method. -/
def Stuck (conn : Connection) : Prop :=
  AnsweredBad conn.log ∧ ∃ i, search kCRLF conn.inputBuffer_.readable = some i ∧
    NamesMethod (conn.inputBuffer_.readable.take i)

theorem alive_start : Alive {} where
  inv := inv_default
  ready := .inl ⟨rfl, rfl⟩
  unanswered := by
    intro h
    obtain ⟨_, hmem⟩ := h
    cases hmem

theorem Alive.not_stuck (h : Alive conn) : ¬ Stuck conn := fun hstuck => h.unanswered hstuck.1

/-- A rejected connection is stuck when its line has set the method. -/
theorem Rejected.stuck_iff (h : Rejected conn) :
    Stuck conn ↔ conn.context.request_.method_ ≠ .kInvalid := by
  obtain ⟨i, hi, hmethod⟩ := h.line
  rw [hmethod]
  constructor
  · intro hstuck
    obtain ⟨_, j, hj, hnames⟩ := hstuck
    cases hi.symm.trans hj
    exact hnames
  · intro hnames
    exact ⟨h.answered, i, hi, hnames⟩

/-- More bytes behind the first line. -/
theorem Rejected.append (h : Rejected conn) {b : Buffer} {data : List UInt8} (hb : Inv b)
    (hread : b.readable = conn.inputBuffer_.readable ++ data) :
    Rejected { conn with inputBuffer_ := b } := by
  obtain ⟨i, hi, hmethod⟩ := h.line
  have hline := length_line hi
  refine ⟨hb, h.state, h.answered, i, ?_, ?_⟩
  · show search kCRLF b.readable = some i
    rw [hread]
    exact search_append hi data
  · show _ ↔ NamesMethod (b.readable.take i)
    rw [hread, List.take_append_of_le_length (by omega)]
    exact hmethod

theorem Rejected.names_space (h : Rejected conn) (hset : conn.context.request_.method_ ≠ .kInvalid) :
    ∃ i, search kCRLF conn.inputBuffer_.readable = some i ∧
      (conn.inputBuffer_.readable.take i).idxOf 32 ≠ (conn.inputBuffer_.readable.take i).length := by
  obtain ⟨i, hi, hmethod⟩ := h.line
  exact ⟨i, hi, (hmethod.mp hset).1⟩

/-- A call while the method is set. -/
theorem onMessage_asserts (server : HttpServer) (h : Rejected conn)
    (hset : conn.context.request_.method_ ≠ .kInvalid) (t : Timestamp) :
    server.onMessage conn t = .error .setMethod := by
  obtain ⟨i, hi, hspace⟩ := h.names_space hset
  rw [onMessage, parseRequest, loop_error _ (round_asserts h.inv h.state hset hi hspace), error_bind]

/-- What `Handled` says of a call that answers with 400. -/
theorem Handled.rejected {conn' : Connection} (hc : Ready conn.context)
    (hbad : (decoder.decode conn.context.untimed conn.inputBuffer_.readable).verdict = some .bad)
    (h : Handled conn (decoder.decode conn.context.untimed conn.inputBuffer_.readable) conn') :
    Rejected conn' := by
  obtain ⟨_, hmethod, i, hi, hrest, hstate⟩ := decode_bad hc hbad
  obtain ⟨hinv, hread, -, hverdict⟩ := h
  rw [hbad] at hverdict
  obtain ⟨hline, hcontext, hlog⟩ := hverdict
  rw [hrest] at hread
  refine ⟨hinv, hline, ?_, i, ?_, ?_⟩
  · rw [hlog, answeredBad_append]
    exact .inr ⟨badRequest, List.mem_cons_self⟩
  · rw [hread]
    exact hi
  · have hsame : conn'.context.request_.method_
        = (readLine conn.context.request_ (conn.inputBuffer_.readable.take i)).2.method_ :=
      congrArg (fun c => c.request_.method_) (hcontext.trans hstate)
    rw [hsame, hread]
    exact readLine_method hmethod _

/-- The fault is one of a buffer. -/
def IsBufferFault (f : HttpContext.Fault) : Prop := ∃ fault, f = .buffer fault

theorem Fails.isBufferFault {d : Parsed UInt8 HttpContext Verdict} {f : HttpContext.Fault}
    (h : server.Fails d f) : IsBufferFault f := by
  obtain ⟨_, _, _, _, hfault⟩ := h
  exact hfault

/-- A message leaves the connection alive, or rejected by a bad line. -/
theorem onMessage_alive (server : HttpServer) (h : Alive conn) (t : Timestamp) :
    Ends (server.onMessage conn t) IsBufferFault (fun conn' => Alive conn' ∨ Rejected conn') := by
  refine (onMessage_ends server h.inv h.ready t).mono (fun _ hf => hf.isBufferFault) ?_
  intro conn' hhandled
  cases hv : (decoder.decode conn.context.untimed conn.inputBuffer_.readable).verdict with
  | none =>
      obtain ⟨hinv, _, _, hverdict⟩ := hhandled
      rw [hv] at hverdict
      obtain ⟨hready, _, hlog⟩ := hverdict
      exact .inl ⟨hinv, hready, hlog ▸ h.unanswered⟩
  | some v =>
      cases v with
      | bad => exact .inr (Handled.rejected h.ready hv hhandled)
      | gotAll =>
          obtain ⟨hinv, _, _, hverdict⟩ := hhandled
          rw [hv] at hverdict
          obtain ⟨hfresh, req, effects, _, _, hquiet, hlog⟩ := hverdict
          refine .inl ⟨hinv, hfresh ▸ .inl ⟨rfl, rfl⟩, ?_⟩
          rw [hlog, answeredBad_append]
          exact not_or.mpr ⟨h.unanswered, hquiet⟩

/-- The same line is rejected again. -/
theorem onMessage_rejected (server : HttpServer) (h : Rejected conn)
    (hunset : conn.context.request_.method_ = .kInvalid) (t : Timestamp) :
    Ends (server.onMessage conn t) IsBufferFault Rejected := by
  have hready : Ready conn.context := .inl ⟨h.state, hunset⟩
  obtain ⟨i, hi, hmethod⟩ := h.line
  have hnames : ¬ NamesMethod (conn.inputBuffer_.readable.take i) := by
    rw [← hmethod]
    exact not_not_intro hunset
  have hreject := readLine_rejects hnames conn.context.request_
  have hmove : next conn.context.untimed conn.inputBuffer_.readable = _ :=
    (next_of_search hi).trans (nextLine_requestLine h.state _)
  rw [hreject, if_neg Bool.false_ne_true] at hmove
  have hbad : (decoder.decode conn.context.untimed conn.inputBuffer_.readable).verdict
      = some .bad := by
    rw [Decoder.decode_halt (D := decoder) hmove]
  exact (onMessage_ends server h.inv hready t).mono (fun _ hf => hf.isBufferFault) fun _ hhandled =>
    Handled.rejected hready hbad hhandled

/-! ### Whole runs -/

/-- A chunk for a connection that is stuck. -/
theorem receiveChunk_asserts (server : HttpServer) (h : Rejected conn) (hstuck : Stuck conn)
    {chunk : Chunk} {buf : Buffer} (happ : conn.inputBuffer_.append chunk.1.bytes = .ok buf) :
    server.receiveChunk conn chunk = .error .setMethod := by
  have hbuf := (append_ends h.inv chunk.1.length_le).post happ
  have hset := h.stuck_iff.mp hstuck
  rw [receiveChunk, happ, mapError_ok, ok_bind]
  exact onMessage_asserts server (h.append hbuf.1 hbuf.2) hset chunk.2

/-- A chunk makes the `assert` fail only when the connection is stuck. -/
theorem receiveChunk_ends (server : HttpServer) (h : Alive conn ∨ Rejected conn) (chunk : Chunk) :
    Ends (server.receiveChunk conn chunk)
      (fun f => IsBufferFault f ∨ f = .setMethod ∧ Stuck conn ∧
        ∃ buf, conn.inputBuffer_.append chunk.1.bytes = .ok buf)
      (fun conn' => (Alive conn' ∨ Rejected conn') ∧ ¬ Stuck conn) := by
  have hinv : Inv conn.inputBuffer_ := h.elim Alive.inv Rejected.inv
  have happ := append_ends hinv chunk.1.length_le
  rw [receiveChunk]
  cases hbuf : conn.inputBuffer_.append chunk.1.bytes with
  | error f =>
      rw [mapError_error, error_bind]
      exact Ends.error (.inl ⟨f, rfl⟩)
  | ok b =>
      obtain ⟨hb, hread⟩ := happ.post hbuf
      rw [mapError_ok, ok_bind]
      cases h with
      | inl halive =>
          have halive' : Alive { conn with inputBuffer_ := b } :=
            ⟨hb, halive.ready, halive.unanswered⟩
          exact (onMessage_alive server halive' chunk.2).mono (fun _ hf => .inl hf)
            (fun _ hconn => ⟨hconn, halive.not_stuck⟩)
      | inr hrejected =>
          have hrejected' := hrejected.append hb hread
          by_cases hset : conn.context.request_.method_ = .kInvalid
          · have hfree : ¬ Stuck conn := by
              rw [hrejected.stuck_iff]
              exact not_not_intro hset
            exact (onMessage_rejected server hrejected' hset chunk.2).mono (fun _ hf => .inl hf)
              (fun _ hconn => ⟨.inr hconn, hfree⟩)
          · have hstuck : Stuck conn := hrejected.stuck_iff.mpr hset
            exact Ends.of_eq_error (onMessage_asserts server hrejected' hset chunk.2)
              (.inr ⟨rfl, hstuck, b, rfl⟩)

/-- Every connection is one or the other. -/
theorem alive_or_rejected {chunks : List Chunk} (h : server.receive chunks = .ok conn) :
    Alive conn ∨ Rejected conn := by
  have hrun : Ends (server.receive chunks) (fun _ => True) (fun conn => Alive conn ∨ Rejected conn) :=
    Ends.foldlM (fun conn chunk _ hconn => (receiveChunk_ends server hconn chunk).mono
      (fun _ _ => trivial) (fun _ hconn' => hconn'.1)) (.inl alive_start)
  exact hrun.post h

/-- The `assert` of `setMethod` fails exactly in the runs in which a chunk
reaches `onMessage` after a 400 answer while the first line in the buffer,
the one that was rejected, begins with one of the five methods and a space. -/
theorem setMethod_asserts_iff (server : HttpServer) (chunks : List Chunk) :
    server.receive chunks = .error .setMethod ↔
      ∃ before chunk after conn buf, chunks = before ++ chunk :: after ∧
        server.receive before = .ok conn ∧
        conn.inputBuffer_.append chunk.1.bytes = .ok buf ∧ Stuck conn := by
  rw [receive, foldlM_eq_error]
  constructor
  · intro h
    obtain ⟨before, chunk, after, conn, hchunks, hbefore, hfault⟩ := h
    have hends := receiveChunk_ends server (alive_or_rejected hbefore) chunk
    cases hends.fault hfault with
    | inl hbuffer =>
        obtain ⟨_, hne⟩ := hbuffer
        cases hne
    | inr hset =>
        obtain ⟨_, hstuck, buf, happ⟩ := hset
        exact ⟨before, chunk, after, conn, buf, hchunks, hbefore, happ, hstuck⟩
  · intro h
    obtain ⟨before, chunk, after, conn, buf, hchunks, hbefore, happ, hstuck⟩ := h
    refine ⟨before, chunk, after, conn, hchunks, hbefore, ?_⟩
    cases alive_or_rejected hbefore with
    | inl halive => exact absurd hstuck halive.not_stuck
    | inr hrejected => exact receiveChunk_asserts server hrejected hstuck happ

/-- A line without a method is rejected at every call, and no `assert` fails. -/
theorem setMethod_asserts_iff_unknown :
    ¬ ∃ before chunk after conn buf,
      [(⟨ascii ['G', 'O', ' ', 'x', '\r', '\n'], by decide⟩, 1), (⟨ascii ['a'], by decide⟩, 2)]
        = before ++ chunk :: after ∧
      (HttpServer.mk defaultHttpCallback).receive before = .ok conn ∧
      conn.inputBuffer_.append chunk.1.bytes = .ok buf ∧ Stuck conn := by
  intro h
  have hfault := (setMethod_asserts_iff ⟨defaultHttpCallback⟩ _).mpr h
  have hnone : faultOf ((HttpServer.mk defaultHttpCallback).receive
      [(⟨ascii ['G', 'O', ' ', 'x', '\r', '\n'], by decide⟩, 1), (⟨ascii ['a'], by decide⟩, 2)])
      = none := by
    decide +kernel
  rw [hfault] at hnone
  cases hnone

/-- `GET x` without a version is answered with 400. One more byte, and the
`assert` fails. -/
theorem setMethod_asserts_after_400 :
    (HttpServer.mk defaultHttpCallback).receive
      [(⟨ascii ['G', 'E', 'T', ' ', 'x', '\r', '\n'], by decide⟩, 1), (⟨ascii ['a'], by decide⟩, 2)]
        = .error .setMethod :=
  eq_error_of_faultOf (by decide +kernel)

end HttpServer

end Muduo.Net
