import Muduo.Lib.Outcome
import Muduo.Net.HttpContext
import Muduo.Proofs.Buffer

/-!
# `Muduo.Proofs.HttpContext`: parsing does not depend on the chunks

`next` is one move of the parser on the bytes that it has: it looks for a
CRLF, and what it does with the line in front of it depends on the line and
on the context alone. Bytes that arrive later do not change which CRLF is
the first one, so `decoder` is a decoder of a stream.

The rounds of `parseRequest` are its moves (`round_makes`). The context has
to be `Ready` for that: in the state `kExpectRequestLine` the method must
not be set, which is what `setMethod` asserts, and the two states in which
the loop spins are excluded. A context is `Ready` when it is new, and it
stays so until the parser gives a verdict.

`parse_segmentation` is the result: parsing chunk by chunk gives what one
call on all the bytes gives. The time of the request is the only thing that
depends on the chunks, so contexts are compared `untimed`.
-/

set_option autoImplicit false

namespace Muduo.Net

open Muduo.Base
open Muduo.Lib
open Muduo.Net.Buffer

/-! ### Without the time -/

/-- The request but for its time. -/
def HttpRequest.untimed (r : HttpRequest) : HttpRequest := { r with receiveTime_ := 0 }

namespace HttpContext

open HttpRequest

/-- The context but for the time of its request. -/
def untimed (c : HttpContext) : HttpContext := { c with request_ := c.request_.untimed }

/-- What a line does to a request whose method is not set: whether it is
accepted, and the request after it. -/
def readLine (r : HttpRequest) (line : List UInt8) : Bool × HttpRequest :=
  if line.idxOf 32 ≠ line.length then
    let r := { r with method_ := methodOf (line.take (line.idxOf 32)) }
    if r.method_ ≠ .kInvalid then processTarget r (line.drop (line.idxOf 32 + 1)) else (false, r)
  else (false, r)

theorem processRequestLine_eq {c : HttpContext} (h : c.request_.method_ = .kInvalid)
    (line : List UInt8) :
    c.processRequestLine line
      = .ok ((readLine c.request_ line).1, { c with request_ := (readLine c.request_ line).2 }) := by
  rw [processRequestLine, readLine]
  by_cases hspace : line.idxOf 32 ≠ line.length
  · rw [if_pos hspace, if_pos hspace, setMethod, assertThat_pos h, ok_bind, except_pure, ok_bind]
    by_cases hvalid : methodOf (line.take (line.idxOf 32)) = .kInvalid
    · simp only [hvalid, ne_eq, not_true_eq_false, decide_false, Bool.false_eq_true, if_false,
        except_pure]
    · simp only [hvalid, ne_eq, not_false_eq_true, decide_true, if_true, except_pure]
  · rw [if_neg hspace, if_neg hspace]
    rfl

/-- The `assert` of `setMethod`. -/
theorem processRequestLine_asserts {c : HttpContext} (h : c.request_.method_ ≠ .kInvalid)
    {line : List UInt8} (hspace : line.idxOf 32 ≠ line.length) :
    c.processRequestLine line = .error .setMethod := by
  rw [processRequestLine, if_pos hspace, setMethod, assertThat_neg h, error_bind, error_bind]

theorem processTarget_untimed (r : HttpRequest) (rest : List UInt8) :
    processTarget r.untimed rest
      = ((processTarget r rest).1, (processTarget r rest).2.untimed) := by
  simp only [processTarget]
  split_ifs <;> rfl

/-- A line is read alike at every time. -/
theorem readLine_untimed (r : HttpRequest) (line : List UInt8) :
    readLine r.untimed line = ((readLine r line).1, (readLine r line).2.untimed) := by
  simp only [readLine]
  split_ifs
  · exact processTarget_untimed { r with method_ := methodOf (line.take (line.idxOf 32)) } _
  · rfl
  · rfl

/-! ### The decoder -/

/-- How parsing ends: `parseRequest` returns `false`, or the request is complete. -/
inductive Verdict where
  | bad
  | gotAll
  deriving DecidableEq, Repr

/-- The context after a header line. -/
def withHeader (q : HttpContext) (line : List UInt8) : HttpContext :=
  { q with request_ := q.request_.addHeader line (line.idxOf 58) }

/-- What the parser does with a line. -/
def nextLine (q : HttpContext) (line : List UInt8) : Move HttpContext Verdict :=
  match q.state_ with
  | .kExpectRequestLine =>
      let (ok, request) := readLine q.request_ line
      if ok then .take (line.length + 2) ⟨.kExpectHeaders, request⟩
      else .halt 0 { q with request_ := request } .bad
  | .kExpectHeaders =>
      if line.idxOf 58 ≠ line.length then
        .take (line.length + 2) (q.withHeader line)
      else .halt (line.length + 2) { q with state_ := .kGotAll } .gotAll
  | _ => .need

/-- One move of the parser. -/
def next (q : HttpContext) (xs : List UInt8) : Move HttpContext Verdict :=
  match search kCRLF xs with
  | some i => nextLine q (xs.take i)
  | none => .need

/-- A line that is accepted is taken with its end. -/
theorem nextLine_take {q r : HttpContext} {line : List UInt8} {n : Nat}
    (h : nextLine q line = .take n r) : n = line.length + 2 := by
  simp only [nextLine] at h
  split at h
  · split_ifs at h
    cases h
    rfl
  · split_ifs at h
    cases h
    rfl
  · cases h

/-- No verdict takes more than the line. -/
theorem nextLine_halt {q r : HttpContext} {line : List UInt8} {n : Nat} {v : Verdict}
    (h : nextLine q line = .halt n r v) : n ≤ line.length + 2 := by
  simp only [nextLine] at h
  split at h
  · split_ifs at h
    cases h
    exact Nat.zero_le _
  · split_ifs at h
    cases h
    exact Nat.le_refl _
  · cases h

variable {q r : HttpContext} {xs : List UInt8} {i n : Nat} {v : Verdict}

theorem next_of_search (h : search kCRLF xs = some i) : next q xs = nextLine q (xs.take i) := by
  rw [next, h]

theorem next_of_search_none (h : search kCRLF xs = none) : next q xs = .need := by
  rw [next, h]

/-- Every other move is about a line. -/
theorem search_of_next (h : next q xs ≠ .need) : ∃ i, search kCRLF xs = some i := by
  cases hs : search kCRLF xs with
  | some i => exact ⟨i, rfl⟩
  | none => exact absurd (next_of_search_none hs) h

/-- A line that is found lies in the input, with its end. -/
theorem length_line (h : search kCRLF xs = some i) :
    (xs.take i).length = i ∧ i + 2 ≤ xs.length := by
  have hbound : i + 2 ≤ xs.length := search_bound h
  refine ⟨?_, hbound⟩
  rw [List.length_take]
  omega

/-- A move is decided by the first line. -/
theorem nextLine_of_next {move : Move HttpContext Verdict} (h : next q xs = move)
    (hneed : move ≠ .need) :
    ∃ i, search kCRLF xs = some i ∧ (xs.take i).length = i ∧ nextLine q (xs.take i) = move := by
  obtain ⟨i, hi⟩ := search_of_next (by rw [h]; exact hneed)
  exact ⟨i, hi, (length_line hi).1, (next_of_search hi).symm.trans h⟩

/-- The first line stays the first line. -/
theorem next_append (h : next q xs ≠ .need) (ys : List UInt8) : next q (xs ++ ys) = next q xs := by
  obtain ⟨i, hi⟩ := search_of_next h
  have hline := length_line hi
  rw [next_of_search hi, next_of_search (search_append hi ys),
    List.take_append_of_le_length (by omega)]

/-- The parser as a decoder. -/
def decoder : Decoder UInt8 HttpContext Verdict where
  next := next
  next_nil := by
    intro q
    exact next_of_search_none rfl
  take_bounds := by
    intro q xs n r h
    obtain ⟨i, hi, hlen, hmove⟩ := nextLine_of_next h (by simp)
    have hn := nextLine_take hmove
    have hbound := (length_line hi).2
    omega
  halt_bound := by
    intro q xs n r v h
    obtain ⟨i, hi, hlen, hmove⟩ := nextLine_of_next h (by simp)
    have hn := nextLine_halt hmove
    have hbound := (length_line hi).2
    omega
  take_append := by
    intro q xs n r h ys
    rw [next_append (by simp [h]) ys]
    exact h
  halt_append := by
    intro q xs n r v h ys
    rw [next_append (by simp [h]) ys]
    exact h

/-! ### One round of the loop -/

variable {c : HttpContext} {b : Buffer} {t : Timestamp}

theorem findCRLF_eq : b.findCRLF = (search kCRLF b.readable).map (b.peek + ·) := rfl

/-- The bytes between `peek()` and the line end are the line. -/
theorem lineTo_eq (hb : Inv b) (h : search kCRLF b.readable = some i) :
    lineTo b (b.peek + i) = b.readable.take i := by
  have hline := length_line h
  have hslice := hb.slice_peek (i := 0) (n := i) (by omega)
  rw [Nat.add_zero, List.drop_zero] at hslice
  rw [lineTo, Nat.add_sub_cancel_left, hslice]

/-- `retrieveUntil(crlf + 2)`. -/
theorem retrieve_line (hb : Inv b) (h : search kCRLF b.readable = some i) :
    ∃ b', (b.retrieveUntil (b.peek + i + 2)).mapError Fault.buffer = .ok b' ∧ Inv b' ∧
      b'.readable = b.readable.drop (i + 2) ∧ b'.buffer_ = b.buffer_ := by
  have hline := length_line h
  obtain ⟨b', hret, hrest⟩ := retrieveUntil_spec hb (n := i + 2) (hb.length_readable ▸ hline.2)
  refine ⟨b', ?_, hrest⟩
  rw [Nat.add_assoc, hret, mapError_ok]

/-- The parser can go on. -/
def Ready (c : HttpContext) : Prop :=
  c.state_ = .kExpectRequestLine ∧ c.request_.method_ = .kInvalid ∨ c.state_ = .kExpectHeaders

theorem round_requestLine (h : c.state_ = .kExpectRequestLine) :
    round t (c, b) = expectRequestLine t c b b.findCRLF := by
  rw [round, h]

theorem round_headers (h : c.state_ = .kExpectHeaders) :
    round t (c, b) = expectHeaders c b b.findCRLF := by
  rw [round, h]

theorem findCRLF_of_search (h : search kCRLF b.readable = some i) :
    b.findCRLF = some (b.peek + i) := by
  rw [findCRLF_eq, h, Option.map_some]

/-- Without a complete line the loop stops and waits for more. -/
theorem round_of_search_none (hstate : c.state_ = .kExpectRequestLine ∨ c.state_ = .kExpectHeaders)
    (h : search kCRLF b.readable = none) : round t (c, b) = .ok (.stop ⟨true, c, b⟩) := by
  have hfind : b.findCRLF = none := by rw [findCRLF_eq, h, Option.map_none]
  cases hstate with
  | inl hs => rw [round_requestLine hs, hfind, expectRequestLine, except_pure]
  | inr hs => rw [round_headers hs, hfind, expectHeaders, except_pure]

/-- The request line is accepted. -/
theorem round_accepts (hb : Inv b) (hstate : c.state_ = .kExpectRequestLine)
    (hmethod : c.request_.method_ = .kInvalid) (h : search kCRLF b.readable = some i)
    (hok : (readLine c.request_ (b.readable.take i)).1 = true) :
    ∃ b', round t (c, b) = .ok (.again (⟨.kExpectHeaders,
        (readLine c.request_ (b.readable.take i)).2.setReceiveTime t⟩, b')) ∧ Inv b' ∧
      b'.readable = b.readable.drop (i + 2) ∧ b'.buffer_ = b.buffer_ := by
  have hprocess := processRequestLine_eq hmethod (b.readable.take i)
  obtain ⟨b', hret, hb'⟩ := retrieve_line hb h
  refine ⟨b', ?_, hb'⟩
  rw [round_requestLine hstate, findCRLF_of_search h, expectRequestLine, lineTo_eq hb h, hprocess,
    ok_bind, hok]
  simp only [if_true, hret, ok_bind, except_pure]

/-- The request line is rejected. It stays in the buffer. -/
theorem round_rejects (hb : Inv b) (hstate : c.state_ = .kExpectRequestLine)
    (hmethod : c.request_.method_ = .kInvalid) (h : search kCRLF b.readable = some i)
    (hok : (readLine c.request_ (b.readable.take i)).1 = false) :
    round t (c, b) = .ok (.stop
      ⟨false, { c with request_ := (readLine c.request_ (b.readable.take i)).2 }, b⟩) := by
  have hprocess := processRequestLine_eq hmethod (b.readable.take i)
  rw [round_requestLine hstate, findCRLF_of_search h, expectRequestLine, lineTo_eq hb h, hprocess,
    ok_bind, hok]
  simp only [Bool.false_eq_true, if_false, except_pure]

/-- A request line with a space on a context that has a method already: the `assert` of `setMethod`.
-/
theorem round_asserts (hb : Inv b) (hstate : c.state_ = .kExpectRequestLine)
    (hmethod : c.request_.method_ ≠ .kInvalid) (h : search kCRLF b.readable = some i)
    (hspace : (b.readable.take i).idxOf 32 ≠ (b.readable.take i).length) :
    round t (c, b) = .error .setMethod := by
  rw [round_requestLine hstate, findCRLF_of_search h, expectRequestLine, lineTo_eq hb h,
    processRequestLine_asserts hmethod hspace, error_bind]

/-- A line with a colon is a header, and the loop goes on. -/
theorem round_header (hb : Inv b) (hstate : c.state_ = .kExpectHeaders)
    (h : search kCRLF b.readable = some i)
    (hcolon : (b.readable.take i).idxOf 58 ≠ (b.readable.take i).length) :
    ∃ b', round t (c, b) = .ok (.again (c.withHeader (b.readable.take i), b')) ∧ Inv b' ∧
      b'.readable = b.readable.drop (i + 2) ∧ b'.buffer_ = b.buffer_ := by
  obtain ⟨b', hret, hb'⟩ := retrieve_line hb h
  refine ⟨b', ?_, hb'⟩
  rw [round_headers hstate, findCRLF_of_search h, expectHeaders, lineTo_eq hb h, hret, ok_bind,
    if_pos hcolon, except_pure, withHeader]

/-- A line without a colon ends the headers. -/
theorem round_gotAll (hb : Inv b) (hstate : c.state_ = .kExpectHeaders)
    (h : search kCRLF b.readable = some i)
    (hcolon : ¬ (b.readable.take i).idxOf 58 ≠ (b.readable.take i).length) :
    ∃ b', round t (c, b) = .ok (.stop ⟨true, { c with state_ := .kGotAll }, b'⟩) ∧ Inv b' ∧
      b'.readable = b.readable.drop (i + 2) ∧ b'.buffer_ = b.buffer_ := by
  obtain ⟨b', hret, hb'⟩ := retrieve_line hb h
  refine ⟨b', ?_, hb'⟩
  rw [round_headers hstate, findCRLF_of_search h, expectHeaders, lineTo_eq hb h, hret, ok_bind,
    if_neg hcolon, except_pure]

/-! ### One call -/

theorem nextLine_requestLine (h : c.state_ = .kExpectRequestLine) (line : List UInt8) :
    nextLine c.untimed line =
      if (readLine c.request_ line).1 then
        .take (line.length + 2) (untimed ⟨.kExpectHeaders, (readLine c.request_ line).2⟩)
      else .halt 0 (untimed { c with request_ := (readLine c.request_ line).2 }) .bad := by
  simp only [nextLine, readLine_untimed, untimed, h]

theorem nextLine_headers (h : c.state_ = .kExpectHeaders) (line : List UInt8) :
    nextLine c.untimed line =
      if line.idxOf 58 ≠ line.length then .take (line.length + 2) (c.withHeader line).untimed
      else .halt (line.length + 2) (untimed { c with state_ := .kGotAll }) .gotAll := by
  have hstate : c.untimed.state_ = .kExpectHeaders := h
  simp only [nextLine, hstate]
  rfl

theorem Ready.state (h : Ready c) :
    c.state_ = .kExpectRequestLine ∨ c.state_ = .kExpectHeaders := by
  cases h with
  | inl hline => exact .inl hline.1
  | inr hheaders => exact .inr hheaders

/-- A complete line is always dealt with. -/
theorem nextLine_ne_need (h : Ready c) (line : List UInt8) : nextLine c.untimed line ≠ .need := by
  cases h.state with
  | inl hline =>
      rw [nextLine_requestLine hline]
      split_ifs <;> simp
  | inr hheaders =>
      rw [nextLine_headers hheaders]
      split_ifs <;> simp

/-- What a verdict says about the outcome. -/
def Ended (o : Outcome) : Option Verdict → Prop
  | none => o.ok = true ∧ Ready o.context
  | some .bad => o.ok = false ∧ o.context.state_ = .kExpectRequestLine
  | some .gotAll => o.ok = true ∧ o.context.state_ = .kGotAll

/-- The parser is where the decoder is. The vector is `v` all the time. -/
structure At (v : List UInt8) (o : Outcome) (d : Parsed UInt8 HttpContext Verdict) : Prop where
  inv : Inv o.buf
  vector : o.buf.buffer_ = v
  readable : o.buf.readable = d.rest
  context : o.context.untimed = d.state
  ended : Ended o d.verdict

/-- The loop is where the decoder is. -/
structure Stands (v : List UInt8) (p : HttpContext × Buffer) (q : HttpContext) (xs : List UInt8) :
    Prop where
  inv : Inv p.2
  vector : p.2.buffer_ = v
  readable : p.2.readable = xs
  context : p.1.untimed = q
  ready : Ready p.1

/-- The rounds of `parseRequest` are the moves of the decoder. -/
theorem round_makes (t : Timestamp) (v : List UInt8) :
    Makes decoder (Stands v) (At v) (round t) where
  need := by
    intro p q xs h hnext
    obtain ⟨hb, hv, rfl, rfl, hready⟩ := h
    have hsearch : search kCRLF p.2.readable = none := by
      cases hs : search kCRLF p.2.readable with
      | none => rfl
      | some i => exact absurd ((next_of_search hs).symm.trans hnext) (nextLine_ne_need hready _)
    exact ⟨⟨true, p.1, p.2⟩, round_of_search_none hready.state hsearch, hb, hv, rfl, rfl, rfl, hready⟩
  take := by
    intro p q xs n q' h hnext
    obtain ⟨hb, hv, rfl, rfl, hready⟩ := h
    obtain ⟨i, hi, hlen, hmove⟩ := nextLine_of_next hnext (by simp)
    cases hready with
    | inl hline =>
        rw [nextLine_requestLine hline.1] at hmove
        split_ifs at hmove with hok
        cases hmove
        obtain ⟨b', hround, hb', hrest, hvec⟩ := round_accepts (t := t) hb hline.1 hline.2 hi hok
        rw [← hlen] at hrest
        exact ⟨_, hround, hb', hvec.trans hv, hrest, rfl, .inr rfl⟩
    | inr hheaders =>
        rw [nextLine_headers hheaders] at hmove
        split_ifs at hmove with hcolon
        cases hmove
        obtain ⟨b', hround, hb', hrest, hvec⟩ := round_header (t := t) hb hheaders hi hcolon
        rw [← hlen] at hrest
        exact ⟨_, hround, hb', hvec.trans hv, hrest, rfl, .inr hheaders⟩
  halt := by
    intro p q xs n q' e h hnext
    obtain ⟨hb, hv, rfl, rfl, hready⟩ := h
    obtain ⟨i, hi, hlen, hmove⟩ := nextLine_of_next hnext (by simp)
    cases hready with
    | inl hline =>
        rw [nextLine_requestLine hline.1] at hmove
        split_ifs at hmove with hok
        cases hmove
        have hreject := Bool.not_eq_true _ ▸ hok
        exact ⟨_, round_rejects hb hline.1 hline.2 hi hreject, hb, hv, List.drop_zero.symm, rfl,
          rfl, hline.1⟩
    | inr hheaders =>
        rw [nextLine_headers hheaders] at hmove
        split_ifs at hmove with hcolon
        cases hmove
        obtain ⟨b', hround, hb', hrest, hvec⟩ := round_gotAll (t := t) hb hheaders hi hcolon
        rw [← hlen] at hrest
        exact ⟨_, hround, hb', hvec.trans hv, hrest, rfl, rfl, rfl⟩

/-- `parseRequest` decodes the readable bytes. -/
theorem parseRequest_decodes (hc : Ready c) (hb : Inv b) (t : Timestamp) :
    ∃ o, c.parseRequest b t = .ok o ∧ At b.buffer_ o (decoder.decode c.untimed b.readable) := by
  have hstart : Stands b.buffer_ (c, b) c.untimed b.readable := ⟨hb, rfl, rfl, rfl, hc⟩
  have hfuel : b.readable.length < b.readableBytes + 1 := by
    rw [hb.length_readable]
    omega
  exact loop_decodes (round_makes t b.buffer_) _ (c, b) _ _ hstart hfuel

/-! ### One call after every chunk -/

/-- The parser after `bytes`, in a buffer of `size` bytes at the start. -/
structure Parsing (size : Nat) (o : Outcome) (bytes : List UInt8) : Prop where
  inv : Inv o.buf
  size_le : o.buf.buffer_.length ≤ size + bytes.length
  readable : o.buf.readable = (decoder.decode {} bytes).rest
  context : o.context.untimed = (decoder.decode {} bytes).state
  ended : Ended o (decoder.decode {} bytes).verdict

/-- The condition under which `parseRequest` is called again. -/
theorem goesOn_iff {o : Outcome} {verdict : Option Verdict} (h : Ended o verdict) :
    (o.ok ∧ ¬ o.context.gotAll) ↔ verdict = none := by
  cases verdict with
  | none =>
      have hgot : o.context.state_ ≠ .kGotAll := by
        cases h.2.state with
        | inl hs => rw [hs]; decide
        | inr hs => rw [hs]; decide
      simp [h.1, gotAll, hgot]
  | some v =>
      cases v with
      | bad => simp [h.1]
      | gotAll => simp [gotAll, h.2]

/-- One read: the bytes are appended, and parsing goes on where it had stopped. -/
theorem parseChunk_spec {size : Nat} {done : List Chunk} {o : Outcome}
    (h : Parsing size o (stream done)) (chunk : Chunk) :
    Ends (parseChunk o chunk) (Full (.buffer .lengthError) size (stream (done ++ [chunk])))
      (fun o' => Parsing size o' (stream (done ++ [chunk]))) := by
  have hgoes := goesOn_iff h.ended
  have hwhole := Decoder.decode_append (D := decoder) {} (stream done) chunk.1.bytes
  rw [← stream_snoc] at hwhole
  rw [parseChunk]
  refine (append_chunk h.inv h.size_le chunk Fault.buffer).bind ?_
  intro b hb
  obtain ⟨hinv, hread, hlen⟩ := hb
  cases hv : (decoder.decode {} (stream done)).verdict with
  | none =>
      have hended := h.ended
      rw [hv] at hended
      obtain ⟨o', hcall, hat⟩ := parseRequest_decodes hended.2 hinv chunk.2
      rw [hread, h.readable, h.context, ← Decoder.feed_none hv, ← hwhole] at hat
      rw [if_pos (hgoes.mpr hv)]
      exact Ends.of_eq_ok hcall ⟨hat.inv, hat.vector ▸ hlen, hat.readable, hat.context, hat.ended⟩
  | some v =>
      have hstop : ¬ (o.ok ∧ ¬ o.context.gotAll) := by
        rw [hgoes, hv]
        exact Option.some_ne_none v
      rw [Decoder.feed_some hv] at hwhole
      rw [if_neg hstop]
      have hkept : Parsing size { o with buf := b } (stream (done ++ [chunk])) := by
        constructor
        · exact hinv
        · exact hlen
        · rw [hwhole, ← h.readable]
          exact hread
        · rw [hwhole]
          exact h.context
        · rw [hwhole]
          exact h.ended
      exact Ends.ok hkept

theorem parsing_start (hb : Inv b) (hempty : b.readable = []) :
    Parsing b.buffer_.length ⟨true, {}, b⟩ (stream []) := by
  have hnil := Decoder.decode_nil (D := decoder) {}
  rw [stream_nil]
  constructor
  · exact hb
  · exact Nat.le_add_right _ _
  · rw [hnil]
    exact hempty
  · rw [hnil]
    rfl
  · rw [hnil]
    exact ⟨rfl, .inl ⟨rfl, rfl⟩⟩

/-- All reads, in whatever pieces. -/
theorem parseChunks_spec (chunks : List Chunk) :
    Ends (parseChunks chunks)
      (Full (.buffer .lengthError) Buffer.default.buffer_.length (stream chunks))
      (fun o => Parsing Buffer.default.buffer_.length o (stream chunks)) :=
  Ends.foldlM_history (f := parseChunk)
    (I := fun done o => Parsing Buffer.default.buffer_.length o (stream done))
    (E := fun done => Full (.buffer .lengthError) Buffer.default.buffer_.length (stream done))
    (fun _ _ chunk h => parseChunk_spec h chunk)
    (fun _ more _ hf => Full.append hf more) chunks [] (parsing_start inv_default readable_default)

/-- Two outcomes that the same verdict describes agree on what `parseRequest` has returned. -/
theorem Ended.ok_eq {o o' : Outcome} {verdict : Option Verdict} (h : Ended o verdict)
    (h' : Ended o' verdict) : o.ok = o'.ok := by
  cases verdict with
  | none => exact h.1.trans h'.1.symm
  | some v =>
      cases v with
      | bad => exact h.1.trans h'.1.symm
      | gotAll => exact h.1.trans h'.1.symm

/-- Parsing does not depend on how the bytes are cut into chunks. One call
of `parseRequest` with a fresh context on all the bytes returns, and
parsing chunk by chunk ends with the same result, the same state, the same
request but for its time, and the same unread bytes. The only fault on the
way is the one of a stream that does not fit into a vector. -/
theorem parse_segmentation (chunks : List Chunk) (whole : Buffer) (hwhole : Inv whole)
    (hbytes : whole.readable = stream chunks) (t : Timestamp) :
    ∃ o, parseRequest {} whole t = .ok o ∧
      Ends (parseChunks chunks)
        (Full (.buffer .lengthError) Buffer.default.buffer_.length (stream chunks))
        (fun o' => o'.ok = o.ok ∧ o'.context.state_ = o.context.state_ ∧
          o'.context.request_.untimed = o.context.request_.untimed ∧
          o'.buf.readable = o.buf.readable) := by
  have hfresh : Ready {} := .inl ⟨rfl, rfl⟩
  obtain ⟨o, hcall, hat⟩ := parseRequest_decodes hfresh hwhole t
  rw [hbytes] at hat
  refine ⟨o, hcall, (parseChunks_spec chunks).imp ?_⟩
  intro o' h
  have hcontext : o'.context.untimed = o.context.untimed := h.context.trans hat.context.symm
  have hstate : o'.context.untimed.state_ = o.context.untimed.state_ := by rw [hcontext]
  have hrequest : o'.context.untimed.request_ = o.context.untimed.request_ := by rw [hcontext]
  exact ⟨h.ended.ok_eq hat.ended, hstate, hrequest, h.readable.trans hat.readable.symm⟩

/-- A request that is cut between `\r` and `\n`. -/
theorem parse_segmentation_cut :
    Inv ⟨ascii ['G', 'E', 'T', ' ', '/', ' ', 'H', 'T', 'T', 'P', '/', '1', '.', '1', '\r', '\n',
      '\r', '\n'], 0, 18⟩ ∧
    ∃ o, parseRequest {} ⟨ascii ['G', 'E', 'T', ' ', '/', ' ', 'H', 'T', 'T', 'P', '/', '1', '.', '1',
        '\r', '\n', '\r', '\n'], 0, 18⟩ 0 = .ok o ∧
      Ends (parseChunks [(⟨ascii ['G', 'E', 'T', ' ', '/', ' ', 'H', 'T', 'T', 'P', '/', '1', '.', '1',
          '\r'], by decide⟩, 1), (⟨ascii ['\n', '\r', '\n'], by decide⟩, 2)])
        (Full (.buffer .lengthError) Buffer.default.buffer_.length
          (stream [(⟨ascii ['G', 'E', 'T', ' ', '/', ' ', 'H', 'T', 'T', 'P', '/', '1', '.', '1',
            '\r'], by decide⟩, 1), (⟨ascii ['\n', '\r', '\n'], by decide⟩, 2)]))
        (fun o' => o'.ok = o.ok ∧ o'.context.state_ = o.context.state_ ∧
          o'.context.request_.untimed = o.context.request_.untimed ∧
          o'.buf.readable = o.buf.readable) := by
  have hinv : Inv ⟨ascii ['G', 'E', 'T', ' ', '/', ' ', 'H', 'T', 'T', 'P', '/', '1', '.', '1', '\r',
      '\n', '\r', '\n'], 0, 18⟩ := ⟨by decide, by decide, by decide, by decide⟩
  exact ⟨hinv, parse_segmentation _ _ hinv (by decide +kernel) 0⟩

end HttpContext

end Muduo.Net
