import Muduo.Proofs.HttpServer

/-!
# `Muduo.Proofs.HttpTermination`: the parser's loop ends in every server run

The loop of `parseRequest` does nothing in the states `kExpectBody` and
`kGotAll`, so that it ends is not a fact about the loop. It is one about the
contexts that `onMessage` passes to it. A context in which the request is
complete is reset in the same call, and one that was answered with 400 stays
at the request line.

* `round_ends`: an iteration that begins in `kExpectRequestLine` or
  `kExpectHeaders` stops the loop, or it takes a whole line with its CRLF
  out of the buffer and leaves the state `kExpectHeaders`. The third way
  out is the `assert` of `setMethod`, which aborts.
* `Head`: the states at the head of an iteration, with the number of
  iterations before them.
* `parseRequest_terminates`: what follows for every call that `onMessage`
  makes, in every run.
-/

set_option autoImplicit false

namespace Muduo.Net

open Muduo.Base
open Muduo.Lib
open Muduo.Net.Buffer

namespace HttpContext

variable {c : HttpContext} {b : Buffer} {t : Timestamp} {i : Nat}

/-! ### One iteration -/

/-- The two states in which the loop does something. -/
def Parses (c : HttpContext) : Prop :=
  c.state_ = .kExpectRequestLine ∨ c.state_ = .kExpectHeaders

/-- A line without a space is rejected before `setMethod` is called. -/
theorem processRequestLine_no_space {line : List UInt8} (h : ¬ line.idxOf 32 ≠ line.length) :
    c.processRequestLine line = .ok (false, c) := by
  rw [processRequestLine, if_neg h, except_pure]

theorem round_no_space (hb : Inv b) (hstate : c.state_ = .kExpectRequestLine)
    (h : search kCRLF b.readable = some i)
    (hspace : ¬ (b.readable.take i).idxOf 32 ≠ (b.readable.take i).length) :
    round t (c, b) = .ok (.stop ⟨false, c, b⟩) := by
  rw [round_requestLine hstate, findCRLF_of_search h, expectRequestLine, lineTo_eq hb h,
    processRequestLine_no_space hspace, ok_bind]
  rfl

/-- The `assert` of `setMethod` can fail in an iteration that begins here. -/
def MethodSet (c : HttpContext) : Prop :=
  c.state_ = .kExpectRequestLine ∧ c.request_.method_ ≠ .kInvalid

/-- The loop goes on behind the request line, with at least two bytes less than `b` has. -/
structure TakesLine (b : Buffer) (p : HttpContext × Buffer) : Prop where
  inv : Inv p.2
  state : p.1.state_ = .kExpectHeaders
  length_le : p.2.readable.length + 2 ≤ b.readable.length

/-- How an iteration ends that has consumed a line of `i` bytes. -/
theorem again_ends {E : Fault → Prop} {c' : HttpContext} {b' : Buffer}
    (h : search kCRLF b.readable = some i) (hround : round t (c, b) = .ok (.again (c', b')))
    (hstate : c'.state_ = .kExpectHeaders) (hb' : Inv b')
    (hread : b'.readable = b.readable.drop (i + 2)) :
    Ends (round t (c, b)) E (Next.Holds (TakesLine b) fun _ => True) := by
  have hline := length_line h
  refine Ends.of_eq_ok hround ⟨hb', hstate, ?_⟩
  show b'.readable.length + 2 ≤ b.readable.length
  rw [hread, List.length_drop]
  omega

/-- One iteration. -/
theorem round_ends (hb : Inv b) (hc : Parses c) (t : Timestamp) :
    Ends (round t (c, b)) (fun f => f = .setMethod ∧ MethodSet c)
      (Next.Holds (TakesLine b) fun _ => True) := by
  cases hs : search kCRLF b.readable with
  | none => exact Ends.of_eq_ok (round_of_search_none hc hs) trivial
  | some i =>
      cases hc with
      | inl hline =>
          by_cases hmethod : c.request_.method_ = .kInvalid
          · cases hok : (readLine c.request_ (b.readable.take i)).1 with
            | true =>
                obtain ⟨b', hround, hb', hread, _⟩ := round_accepts (t := t) hb hline hmethod hs hok
                exact again_ends hs hround rfl hb' hread
            | false => exact Ends.of_eq_ok (round_rejects hb hline hmethod hs hok) trivial
          · by_cases hspace : (b.readable.take i).idxOf 32 ≠ (b.readable.take i).length
            · exact Ends.of_eq_error (round_asserts hb hline hmethod hs hspace)
                ⟨rfl, hline, hmethod⟩
            · exact Ends.of_eq_ok (round_no_space hb hline hs hspace) trivial
      | inr hheaders =>
          by_cases hcolon : (b.readable.take i).idxOf 58 ≠ (b.readable.take i).length
          · obtain ⟨b', hround, hb', hread, _⟩ := round_header (t := t) hb hheaders hs hcolon
            exact again_ends hs hround hheaders hb' hread
          · obtain ⟨b', hround, _⟩ := round_gotAll (t := t) hb hheaders hs hcolon
            exact Ends.of_eq_ok hround trivial

/-! ### The heads of the iterations -/

/-- In the loop that begins at `p`, the state `q` is at the head of an
iteration, and `n` iterations have gone before. -/
inductive Head (t : Timestamp) (p : HttpContext × Buffer) : Nat → HttpContext × Buffer → Prop where
  | start : Head t p 0 p
  | again {n : Nat} {q r : HttpContext × Buffer} : Head t p n q → round t q = .ok (.again r) →
      Head t p (n + 1) r

/-- What holds at the head of every iteration. Only the first one can begin
at a request line. -/
theorem Head.spec {p q : HttpContext × Buffer} {n : Nat} (h : Head t p n q) (hb : Inv p.2)
    (hp : Parses p.1) :
    Inv q.2 ∧ (q = p ∨ q.1.state_ = .kExpectHeaders) ∧
      q.2.readable.length + 2 * n ≤ p.2.readable.length := by
  induction h with
  | start => exact ⟨hb, .inl rfl, by omega⟩
  | @again n q r _ hround ih =>
      obtain ⟨hbq, hplace, hlen⟩ := ih
      have hq : Parses q.1 := by
        cases hplace with
        | inl hfirst =>
            rw [hfirst]
            exact hp
        | inr hheaders => exact .inr hheaders
      have hline : TakesLine q.2 r := (round_ends hbq hq t).post hround
      have hless := hline.length_le
      refine ⟨hline.inv, .inr hline.state, ?_⟩
      omega

/-- The loop ends, also when it is allowed one iteration only for every two
bytes in the buffer. -/
theorem loop_round_ends (hb : Inv b) (hc : Parses c) (t : Timestamp) (fuel : Nat)
    (hfuel : b.readable.length < 2 * fuel) :
    Ends (loop (round t) .diverges fuel (c, b)) (fun f => f = .setMethod ∧ MethodSet c)
      (fun _ => True) := by
  refine loop_ends (I := fun p => Inv p.2 ∧ Parses p.1 ∧ (MethodSet p.1 → MethodSet c))
    (μ := fun p => p.2.readable.length / 2) ?_ fuel (c, b) ⟨hb, hc, id⟩ ?_
  · intro p hp
    obtain ⟨hbp, hparses, hset⟩ := hp
    refine (round_ends hbp hparses t).mono (fun f hf => ⟨hf.1, hset hf.2⟩) ?_
    intro next hnext
    cases next with
    | stop o => trivial
    | again r =>
        have hline : TakesLine _ _ := hnext
        have hless := hline.length_le
        refine ⟨⟨hline.inv, .inr hline.state, ?_⟩, by omega⟩
        intro hset'
        exact absurd (hset'.1.symm.trans hline.state) (by decide)
  · simp only
    omega

end HttpContext

/-! ### Every call that `onMessage` makes -/

namespace HttpServer

open HttpContext

/-- **The parser's loop ends in every server run.** Let a connection have got
any chunks, and let the next chunk be in the input buffer. The context that
`onMessage` passes to `parseRequest` is in the state `kExpectRequestLine` or
`kExpectHeaders`. In the loop:

- the state at the head of every iteration is one of these two;
- the iteration stops the loop or takes at least two bytes out of the
  buffer, so at the head of the iteration after `n` others at least `2 * n`
  bytes are gone;
- the only fault is the `assert` of `setMethod`, on a connection that was
  answered with 400 for a line that names a method.

So the loop ends within one iteration for every two bytes, and one more. -/
theorem parseRequest_terminates (server : HttpServer) (chunks : List Chunk) (chunk : Chunk)
    (conn : Connection) (hconn : server.receive chunks = .ok conn) (buf : Buffer)
    (hbuf : conn.inputBuffer_.append chunk.1.bytes = .ok buf) :
    (conn.context.state_ = .kExpectRequestLine ∨ conn.context.state_ = .kExpectHeaders) ∧
    (∀ n q, Head chunk.2 (conn.context, buf) n q →
      (q.1.state_ = .kExpectRequestLine ∨ q.1.state_ = .kExpectHeaders) ∧
      q.2.readable.length + 2 * n ≤ buf.readable.length ∧
      Ends (round chunk.2 q) (fun f => f = .setMethod ∧ Stuck conn)
        (Next.Holds (fun r => r.2.readable.length + 2 ≤ q.2.readable.length) fun _ => True)) ∧
    (∀ fuel, buf.readable.length < 2 * fuel →
      Ends (loop (round chunk.2) .diverges fuel (conn.context, buf))
        (fun f => f = .setMethod ∧ Stuck conn) (fun _ => True)) ∧
    Ends (conn.context.parseRequest buf chunk.2) (fun f => f = .setMethod ∧ Stuck conn)
      (fun _ => True) := by
  have hplace := alive_or_rejected hconn
  have hinv : Inv conn.inputBuffer_ := hplace.elim Alive.inv Rejected.inv
  have hb : Inv buf := ((append_ends hinv chunk.1.length_le).post hbuf).1
  have hparses : Parses conn.context := by
    cases hplace with
    | inl halive => exact halive.ready.state
    | inr hrejected => exact .inl hrejected.state
  -- A method that is set at a request line was set by a line that was rejected.
  have hstuck : MethodSet conn.context → Stuck conn := by
    intro hset
    cases hplace with
    | inl halive =>
        cases halive.ready with
        | inl hline => exact absurd hline.2 hset.2
        | inr hheaders => exact absurd (hset.1.symm.trans hheaders) (by decide)
    | inr hrejected => exact hrejected.stuck_iff.mpr hset.2
  have hloop : ∀ fuel, buf.readable.length < 2 * fuel →
      Ends (loop (round chunk.2) .diverges fuel (conn.context, buf))
        (fun f => f = .setMethod ∧ Stuck conn) (fun _ => True) := by
    intro fuel hfuel
    exact (loop_round_ends hb hparses chunk.2 fuel hfuel).mono (fun _ hf => ⟨hf.1, hstuck hf.2⟩)
      (fun _ _ => trivial)
  refine ⟨hparses, ?_, hloop, ?_⟩
  · intro n q hhead
    obtain ⟨hbq, hq, hlen⟩ := hhead.spec hb hparses
    have hparses' : Parses q.1 := hq.elim (fun h => h ▸ hparses) .inr
    refine ⟨hparses', hlen, (round_ends hbq hparses' chunk.2).mono ?_ ?_⟩
    · intro f hf
      obtain ⟨hf, hset⟩ := hf
      refine ⟨hf, ?_⟩
      cases hq with
      | inl hfirst =>
          subst hfirst
          exact hstuck hset
      | inr hheaders => exact absurd (hset.1.symm.trans hheaders) (by decide)
    · intro next hnext
      cases next with
      | stop o => trivial
      | again r => exact TakesLine.length_le hnext
  · rw [parseRequest, ← hb.length_readable]
    exact hloop _ (by omega)

/-- A request line, as the first chunk of a connection. -/
def lineChunk : Chunk :=
  (⟨ascii ['G', 'E', 'T', ' ', '/', ' ', 'H', 'T', 'T', 'P', '/', '1', '.', '1', '\r', '\n'],
    by decide⟩, 1)

/-- A header and the empty line, as the second one. -/
def headerChunk : Chunk := (⟨ascii ['H', ':', 'a', '\r', '\n', '\r', '\n'], by decide⟩, 2)

/-- The second chunk finds the parser in `kExpectHeaders`. The parser returns, because nothing was
answered with 400. -/
theorem parseRequest_terminates_headers :
    ∃ conn buf o, HttpServer.receive ⟨defaultHttpCallback⟩ [lineChunk] = .ok conn ∧
      conn.context.state_ = .kExpectHeaders ∧
      conn.inputBuffer_.append headerChunk.1.bytes = .ok buf ∧
      conn.context.parseRequest buf headerChunk.2 = .ok o := by
  have heval : ((HttpServer.receive ⟨defaultHttpCallback⟩ [lineChunk]).toOption.bind fun conn =>
      (conn.inputBuffer_.append headerChunk.1.bytes).toOption.bind fun _ =>
        some (conn.context.state_, conn.log.length)) = some (.kExpectHeaders, 0) := by
    decide +kernel
  obtain ⟨conn, hconn, heval⟩ := exists_ok_of_bind heval
  obtain ⟨buf, hbuf, heval⟩ := exists_ok_of_bind heval
  obtain ⟨hstate, hlog⟩ := Prod.mk.inj (Option.some.inj heval)
  have hends := (parseRequest_terminates ⟨defaultHttpCallback⟩ [lineChunk] headerChunk conn hconn buf
    hbuf).2.2.2
  cases hparse : conn.context.parseRequest buf headerChunk.2 with
  | ok o => exact ⟨conn, buf, o, hconn, hstate, hbuf, hparse⟩
  | error f =>
      obtain ⟨message, hmem⟩ := (hends.fault hparse).2.1
      rw [List.eq_nil_of_length_eq_zero hlog] at hmem
      cases hmem

end HttpServer

end Muduo.Net
