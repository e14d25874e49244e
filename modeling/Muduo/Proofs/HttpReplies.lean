import Muduo.Proofs.HttpPipelining

/-!
# `Muduo.Proofs.HttpReplies`: what a client reads

A client reads lines up to an empty one, and then as many bytes as the first
line with `Content-Length` says (`readReply`). Without such a line the body
goes on to the end of the stream. `wire` is what `appendToBuffer` writes of
texts whose lengths fit an `int`, and `readReply_wire` says that the client
reads it back and stops at its end.

A connection sends one response behind the other, and nothing behind
`shutdown()`. `replies_read_back`: the client finds the answers in it.
-/

set_option autoImplicit false

namespace Muduo.Net

open Muduo.Base
open Muduo.Lib
open Muduo.Net.Buffer
open Muduo.Net.HttpContext (search_line drop_line)

/-! ### The client -/

/-- A response as it is read. -/
structure Reply where
  lines : List (List UInt8)
  body : List UInt8
  deriving DecidableEq, Repr

namespace Reply

open HttpResponse (lengthName)

/-- The lines up to an empty one, and what follows it. -/
def readLines : Nat → List UInt8 → Option (List (List UInt8) × List UInt8)
  | 0, _ => none
  | fuel + 1, xs =>
      match search kCRLF xs with
      | none => none
      | some 0 => some ([], xs.drop 2)
      | some (i + 1) =>
          (readLines fuel (xs.drop (i + 3))).map fun p => (xs.take (i + 1) :: p.1, p.2)

/-- A number in decimal digits. -/
def readNumber (xs : List UInt8) : Nat :=
  Nat.ofDigitChars 10 (xs.map fun x => Char.ofNat x.toNat) 0

/-- The number in the first line that gives a length. -/
def bodyLength (lines : List (List UInt8)) : Option Nat :=
  (lines.find? (ascii lengthName).isPrefixOf).map fun line => readNumber (line.drop 16)

/-- One response, and what follows it. -/
def readReply (xs : List UInt8) : Option (Reply × List UInt8) := do
  let (lines, rest) ← readLines (xs.length + 1) xs
  match bodyLength lines with
  | none => return (⟨lines, rest⟩, [])
  | some n => if n ≤ rest.length then return (⟨lines, rest.take n⟩, rest.drop n) else none

/-- Responses one behind the other, with a bound on their number. -/
def readReplies : Nat → List UInt8 → Option (List Reply)
  | _, [] => some []
  | 0, _ => none
  | fuel + 1, xs => do
      let (reply, rest) ← readReply xs
      let replies ← readReplies fuel rest
      return reply :: replies

/-- All responses of a stream that has ended. -/
def readAll (xs : List UInt8) : Option (List Reply) := readReplies xs.length xs

/-- The client reads lines back that are not empty and have no line end inside. Induction on the
lines. -/
theorem readLines_eq {lines : List (List UInt8)} {fuel : Nat}
    (h : ∀ line ∈ lines, line ≠ [] ∧ ¬ kCRLF <:+: line) (hfuel : lines.length < fuel)
    (rest : List UInt8) :
    readLines fuel (lines.flatMap (· ++ kCRLF) ++ kCRLF ++ rest) = some (lines, rest) := by
  induction lines generalizing fuel with
  | nil =>
      obtain ⟨fuel, rfl⟩ := Nat.exists_eq_add_one.mpr hfuel
      have hsearch : search kCRLF (kCRLF ++ rest) = some 0 :=
        @search_line [] (by decide) rest
      rw [List.flatMap_nil, List.nil_append, readLines, hsearch]
      rfl
  | cons line lines ih =>
      obtain ⟨fuel, rfl⟩ := Nat.exists_eq_add_one.mpr (Nat.zero_lt_of_lt hfuel)
      obtain ⟨⟨hne, hline⟩, hlines⟩ := List.forall_mem_cons.mp h
      obtain ⟨i, hi⟩ := Nat.exists_eq_add_one.mpr (List.length_pos_iff.mpr hne)
      have hsplit : (line :: lines).flatMap (· ++ kCRLF) ++ kCRLF ++ rest
          = line ++ kCRLF ++ (lines.flatMap (· ++ kCRLF) ++ kCRLF ++ rest) := by
        simp only [List.flatMap_cons, List.append_assoc]
      rw [hsplit, readLines, search_line hline, hi]
      have hdrop := drop_line line (lines.flatMap (· ++ kCRLF) ++ kCRLF ++ rest)
      rw [hi] at hdrop
      simp only [hdrop, ih hlines (Nat.lt_of_succ_lt_succ hfuel), Option.map_some]
      rw [← hi, List.append_assoc, List.take_left]

/-- When a response is read off the front, the others are read from what follows it. -/
theorem readReplies_cons {xs rest : List UInt8} {reply : Reply}
    (h : readReply xs = some (reply, rest)) (hpos : 0 < xs.length) (fuel : Nat) :
    readReplies (fuel + 1) xs = (readReplies fuel rest).map (reply :: ·) := by
  cases xs with
  | nil => cases hpos
  | cons x xs =>
      simp only [readReplies, h, Option.bind_eq_bind, Option.bind_some]
      cases readReplies fuel rest with
      | none => rfl
      | some replies => rfl

/-- The number that `snprintf` has written is read back. -/
theorem readNumber_decimal (n : Nat) : readNumber (ascii (decimal n)) = n := by
  have hback : (ascii (decimal n)).map (fun x => Char.ofNat x.toNat) = Nat.toDigits 10 n := by
    rw [decimal_natCast, ascii, List.map_map]
    refine (List.map_congr_left ?_).trans (List.map_id _)
    intro c hc
    have hdigit := Nat.isDigit_of_mem_toDigits (by omega) (by omega) hc
    have hlt : c.toNat < 256 := Nat.lt_of_le_of_lt (Char.isDigit_iff_toNat.mp hdigit).2 (by decide)
    show Char.ofNat (UInt8.ofNat c.toNat).toNat = c
    rw [UInt8.toNat_ofNat_of_lt' hlt, Char.ofNat_toNat]
  rw [readNumber, hback, Nat.ofDigitChars_toDigits (by omega) (by omega)]

end Reply

/-! ### What a response writes -/

namespace HttpResponse

open Reply (readReply)

variable {r : HttpResponse}

/-- No line has its end inside, every text has a length that an `int` can
hold, and a response without a length does not get one as a header. -/
structure Plain (r : HttpResponse) : Prop where
  whole : ∀ line ∈ r.lines, ¬ kCRLF <:+: line
  short : r.Short
  framed : r.closeConnection_ = true → ∀ line ∈ r.lines, (ascii lengthName).isPrefixOf line = false

/-- The length that the client finds: none on a connection that closes, and otherwise that of the
body, because the line with it comes before the headers of the callback. -/
theorem bodyLength_lines (h : r.Plain) : Reply.bodyLength r.lines =
    if r.closeConnection_ then none else some r.body_.bytes.length := by
  rw [Reply.bodyLength]
  split
  · next hclose =>
      rw [List.find?_eq_none.mpr fun line hline => by rw [h.framed hclose line hline]; decide]
      rfl
  · next hopen =>
      rw [lines, connectionLines, if_neg hopen, List.find?_cons_of_neg, List.cons_append,
        List.find?_cons_of_pos, Option.map_some, ascii, List.map_append]
      · exact congrArg some (Reply.readNumber_decimal _)
      · rw [ascii, ascii, List.map_append]
        rfl
      · exact Bool.false_ne_true

/-- No line of a response is empty, so the empty line behind them ends the header. -/
theorem lines_ne_nil (r : HttpResponse) : ∀ line ∈ r.lines, line ≠ [] := by
  rw [lines, connectionLines, List.forall_mem_cons, List.forall_mem_append, List.forall_mem_map]
  split <;> simp [ascii, lengthName, statusText]

/-- Every line has an end, so there are no more lines than bytes. -/
theorem length_lines_le (lines : List (List UInt8)) :
    lines.length ≤ (lines.flatMap (· ++ kCRLF)).length := by
  induction lines with
  | nil => exact Nat.le_refl 0
  | cons line lines ih =>
      have htwo : kCRLF.length = 2 := rfl
      simp only [List.flatMap_cons, List.length_append, List.length_cons]
      omega

/-- The client reads a response back, up to its end. -/
theorem readReply_wire (h : r.Plain) {more : List UInt8}
    (hmore : r.closeConnection_ = true → more = []) :
    readReply (r.wire ++ more) = some (⟨r.lines, r.body_.bytes⟩, more) := by
  have hfuel : r.lines.length < (r.wire ++ more).length + 1 := by
    have hle := length_lines_le r.lines
    simp only [wire, List.length_append]
    omega
  have hlines := Reply.readLines_eq (fun line hline => ⟨r.lines_ne_nil line hline, h.whole line hline⟩)
    hfuel (r.body_.bytes ++ more)
  rw [← List.append_assoc] at hlines
  rw [readReply, wire] at *
  rw [hlines]
  simp only [Option.bind_eq_bind, Option.bind_some, bodyLength_lines h]
  cases hclose : r.closeConnection_ with
  | true => simp [hmore hclose]
  | false => simp

end HttpResponse

/-! ### What the server sends -/

namespace HttpServer

open Reply (readReply readReplies readAll)

variable {server : HttpServer}

/-- What a request leaves in the log, or a line that is none. -/
def block (server : HttpServer) : Option HttpRequest → List Effect
  | some req => [.httpCallback req, .sendBuffer (server.answerTo req).wire] ++
      if (server.answerTo req).closeConnection_ then [.shutdown] else []
  | none => [.sendString badRequest, .shutdown]

/-- The bytes that are sent for it. -/
def bytesOf (server : HttpServer) : Option HttpRequest → List UInt8
  | some req => (server.answerTo req).wire
  | none => badRequest

/-- Whether the connection is shut down behind it. -/
def closes (server : HttpServer) : Option HttpRequest → Bool
  | some req => (server.answerTo req).closeConnection_
  | none => true

/-- The answer as it is read. -/
def replyOf (server : HttpServer) : Option HttpRequest → Reply
  | some req => ⟨(server.answerTo req).lines, (server.answerTo req).body_.bytes⟩
  | none => ⟨[badRequest.take 24], []⟩

/-- The answers up to the first one that shuts the connection down. -/
def replies (server : HttpServer) : List (Option HttpRequest) → List Reply
  | [] => []
  | b :: blocks => server.replyOf b :: if server.closes b then [] else server.replies blocks

/-- The bytes that reach the client. Nothing is sent behind `shutdown()`. -/
def sent (log : List Effect) : List UInt8 :=
  (log.takeWhile (· != .shutdown)).flatMap fun
    | .sendString message => message
    | .sendBuffer bytes => bytes
    | _ => []

/-- What a block sends, and that nothing is sent behind one that shuts the connection down. -/
theorem sent_block (server : HttpServer) (b : Option HttpRequest) (log : List Effect) :
    sent (server.block b ++ log) = server.bytesOf b ++ if server.closes b then [] else sent log := by
  cases b with
  | none => rfl
  | some req =>
      cases hclose : (server.answerTo req).closeConnection_ with
      | true => simp [block, bytesOf, closes, sent, hclose]
      | false => simp [block, bytesOf, closes, sent, hclose]

/-- The client reads an answer back, up to its end. -/
theorem readReply_block (hplain : ∀ req, (server.answerTo req).Plain) (b : Option HttpRequest)
    (more : List UInt8) (hmore : server.closes b = true → more = []) :
    readReply (server.bytesOf b ++ more) = some (server.replyOf b, more) := by
  cases b with
  | none =>
      rw [hmore rfl]
      show readReply badRequest = some (⟨[badRequest.take 24], []⟩, [])
      decide
  | some req => exact HttpResponse.readReply_wire (hplain req) hmore

/-- Every answer has bytes, so the fuel of `readReplies` is enough. -/
theorem length_bytesOf_pos (server : HttpServer) (b : Option HttpRequest) :
    0 < (server.bytesOf b).length := by
  cases b with
  | none => exact Nat.zero_lt_succ 27
  | some req =>
      have htwo : kCRLF.length = 2 := rfl
      simp only [bytesOf, HttpResponse.wire, List.length_append]
      omega

/-- A request leaves the block of its answer. Here the response has to be written as a whole. -/
theorem onRequest_block (hplain : ∀ req, (server.answerTo req).Plain) (req : HttpRequest) :
    Ends (server.onRequest req) (fun _ => True) (· = server.block (some req)) := by
  rw [onRequest]
  refine Ends.bind (Ends.mapError ((HttpResponse.appendToBuffer_appends (hplain req).short _
    inv_default).mono (fun _ _ => trivial) fun _ hb => hb)) ?_
  intro b hb
  rw [hb.2.1, readable_default, List.nil_append]
  exact Ends.ok rfl

/-- A log is made of blocks. Each chunk adds two at most: one for a line that is no request, one for
a request. -/
theorem receive_blocks (hplain : ∀ req, (server.answerTo req).Plain) (chunks : List Chunk) :
    Ends (server.receive chunks) (fun _ => True)
      fun conn => ∃ blocks : List (Option HttpRequest), conn.log = blocks.flatMap server.block := by
  have hany : ∀ {φ α : Type} (x : Except φ α), Ends x (fun _ => True) fun _ => True := by
    intro φ α x
    cases x <;> exact trivial
  refine Ends.foldlM ?_ ⟨[], rfl⟩
  rintro conn chunk - ⟨blocks, hlog⟩
  refine (hany _).bind fun buf _ => (hany _).bind fun o _ => ?_
  -- A line that is no request, and a request, add a block each.
  obtain ⟨more, hmore⟩ : ∃ more : List (Option HttpRequest), (if o.ok then conn.log
      else conn.log ++ [.sendString badRequest, .shutdown]) = more.flatMap server.block := by
    split
    · exact ⟨blocks, hlog⟩
    · exact ⟨blocks ++ [none], by rw [hlog, List.flatMap_append]; rfl⟩
  simp only [afterParse, hmore]
  split
  · refine (onRequest_block hplain _).bind fun effects heffects => Ends.ok ?_
    exact ⟨more ++ [some o.context.request_], by simp [heffects]⟩
  · exact Ends.ok ⟨more, rfl⟩

/-- One block after the other. -/
theorem readReplies_blocks (hplain : ∀ req, (server.answerTo req).Plain)
    (blocks : List (Option HttpRequest)) (fuel : Nat)
    (hfuel : (sent (blocks.flatMap server.block)).length ≤ fuel) :
    readReplies fuel (sent (blocks.flatMap server.block)) = some (server.replies blocks) := by
  induction blocks generalizing fuel with
  | nil => rw [List.flatMap_nil, sent, List.takeWhile_nil, List.flatMap_nil, readReplies, replies]
  | cons b blocks ih =>
      have hpos := server.length_bytesOf_pos b
      have hread := readReply_block hplain b
        (if server.closes b then [] else sent (blocks.flatMap server.block)) fun hclose => if_pos hclose
      rw [List.flatMap_cons, sent_block] at hfuel ⊢
      rw [List.length_append] at hfuel
      obtain ⟨fuel, rfl⟩ := Nat.exists_eq_add_one.mpr (by omega : 0 < fuel)
      rw [Reply.readReplies_cons hread (by rw [List.length_append]; omega), replies]
      split
      · rw [readReplies]
        rfl
      · next hopen =>
          rw [if_neg hopen] at hfuel
          rw [ih fuel (by omega)]
          rfl

/-- For a callback with plain responses. Whatever a client sends, in whatever
pieces, the log is made of what the server does for requests and for lines
that are none, and the bytes that reach the client are read as the answers,
in order, up to the first one that shuts the connection down. -/
theorem replies_read_back (server : HttpServer) (hplain : ∀ req, (server.answerTo req).Plain)
    (chunks : List Chunk) (conn : Connection) (h : server.receive chunks = .ok conn) :
    ∃ blocks : List (Option HttpRequest), conn.log = blocks.flatMap server.block ∧
      readAll (sent conn.log) = some (server.replies blocks) := by
  obtain ⟨blocks, hlog⟩ := (receive_blocks hplain chunks).post h
  refine ⟨blocks, hlog, ?_⟩
  rw [hlog]
  exact readReplies_blocks hplain blocks _ (Nat.le_refl _)

/-- A request in two reads. -/
def twoReads : List Chunk :=
  [(⟨getRoot.bytes.take 5, by decide⟩, 1), (⟨getRoot.bytes.drop 5, by decide⟩, 2)]

/-- A callback that answers with `hi`. -/
theorem replies_read_back_hi :
    let server : HttpServer := ⟨fun _ resp =>
      (resp.setStatusCode .k200Ok).setBody ⟨ascii ['h', 'i'], by decide⟩⟩
    ∃ conn, server.receive twoReads = .ok conn ∧ conn.log.length = 2 ∧
      ∃ blocks : List (Option HttpRequest), conn.log = blocks.flatMap server.block ∧
        readAll (sent conn.log) = some (server.replies blocks) := by
  intro server
  have heval : ((server.receive twoReads).toOption.bind fun conn => some conn.log.length)
      = some 2 := by
    decide +kernel
  have hplain : ∀ close, (((HttpResponse.ctor close).setStatusCode .k200Ok).setBody
      ⟨ascii ['h', 'i'], by decide⟩).Plain := by
    intro close
    cases close with
    | true => exact ⟨by decide, by unfold HttpResponse.Short; decide, by decide⟩
    | false => exact ⟨by decide, by unfold HttpResponse.Short; decide, by decide⟩
  obtain ⟨conn, hrun, hlength⟩ := exists_ok_of_bind heval
  exact ⟨conn, hrun, Option.some.inj hlength,
    replies_read_back server (fun req => hplain _) _ conn hrun⟩

end HttpServer

end Muduo.Net
