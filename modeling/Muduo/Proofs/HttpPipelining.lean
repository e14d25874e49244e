import Muduo.Lib.OnePerRound
import Muduo.Proofs.HttpServer
import Muduo.Proofs.HttpWire

/-!
# `Muduo.Proofs.HttpPipelining`: requests that are sent back to back

`onMessage` parses one request and, when it is complete, serves it. It does
not look whether there is another request behind it. So a request that is
complete in the buffer waits for a call that some later read makes, and a
read that completes two requests serves one of them.

The bytes that have arrived since the last request was served are the
`pending` ones, and a connection is `Waiting` for the rest of the request
that they begin. One more chunk serves a request exactly when the pending
bytes and the chunk hold it whole (`receiveChunk_waiting`), whatever the
chunks were before. The number of requests that are served is then the
number of jobs that are taken one in a round, of `Muduo.Lib.OnePerRound`.

`requests_served_iff`: the requests that are served are always the first
ones, in order, and they are all of them exactly when from the end of every
request on there are as many reads as there are requests from it on. Only
sizes can stop the server (`Overruns`): a stream that does not fit the input
buffer, or a response that does not fit the one it is built in.
-/

set_option autoImplicit false

namespace Muduo.Net.HttpServer

open Muduo.Base
open Muduo.Lib
open Muduo.Net.Buffer
open Muduo.Net.HttpContext

variable {server : HttpServer} {conn : Connection} {pending : List UInt8}

/-! ### One chunk -/

/-- The connection has parsed the pending bytes, or the first part of them. -/
structure Waiting (conn : Connection) (pending : List UInt8) : Prop where
  inv : Inv conn.inputBuffer_
  ready : Ready conn.context
  parsed : ∃ xs ys, pending = xs ++ ys ∧ (decoder.decode {} xs).verdict = none ∧
    conn.context.untimed = (decoder.decode {} xs).state ∧
    conn.inputBuffer_.readable = (decoder.decode {} xs).rest ++ ys

/-- Behind a request that was served, nothing is parsed. -/
theorem waiting_fresh (hb : Inv conn.inputBuffer_) (hc : conn.context = {}) :
    Waiting conn conn.inputBuffer_.readable := by
  have hnil := Decoder.decode_nil (D := decoder) {}
  refine ⟨hb, hc ▸ .inl ⟨rfl, rfl⟩, [], conn.inputBuffer_.readable, (List.nil_append _).symm,
    ?_, ?_, ?_⟩
  · rw [hnil]
  · rw [hnil, hc]
    rfl
  · rw [hnil, List.nil_append]

/-- What is parsed next is decided by all the pending bytes. -/
theorem Waiting.decode (h : Waiting conn pending) {b : Buffer} {data : List UInt8}
    (hread : b.readable = conn.inputBuffer_.readable ++ data) :
    decoder.decode conn.context.untimed b.readable = decoder.decode {} (pending ++ data) := by
  obtain ⟨xs, ys, hpending, hnone, hcontext, hreadable⟩ := h.parsed
  rw [hread, hcontext, hreadable, List.append_assoc, ← Decoder.feed_none hnone,
    ← Decoder.decode_append, hpending, List.append_assoc]

/-- What a chunk does to a connection that waits. -/
def Served (conn conn' : Connection) (d : Parsed UInt8 HttpContext Verdict)
    (pending : List UInt8) : Prop :=
  match d.verdict with
  | none => Waiting conn' pending ∧ served conn'.log = served conn.log
  | some .bad => True
  | some .gotAll => Waiting conn' d.rest ∧
      ∃ req, req.untimed = d.state.request_ ∧ served conn'.log = served conn.log ++ [req]

/-- One more chunk, behind the chunks `done` of the stream. -/
theorem receiveChunk_waiting (server : HttpServer) {size : Nat} {done : List Chunk}
    (h : Waiting conn pending)
    (hsize : conn.inputBuffer_.buffer_.length ≤ size + (stream done).length) (chunk : Chunk) :
    Ends (server.receiveChunk conn chunk)
      (fun f => Full (.buffer .lengthError) size (stream (done ++ [chunk])) f ∨
        server.Fails (decoder.decode {} (pending ++ chunk.1.bytes)) f)
      (fun conn' => Served conn conn' (decoder.decode {} (pending ++ chunk.1.bytes))
          (pending ++ chunk.1.bytes) ∧
        conn'.inputBuffer_.buffer_.length ≤ size + (stream (done ++ [chunk])).length) := by
  rw [receiveChunk]
  refine ((append_chunk h.inv hsize chunk HttpContext.Fault.buffer).mono (fun _ hf => .inl hf)
    (fun _ hb => hb)).bind ?_
  rintro b ⟨hb, hbytes, hlen⟩
  have hcall := @onMessage_ends { conn with inputBuffer_ := b } server hb h.ready chunk.2
  have hdecode : decoder.decode conn.context.untimed b.readable = _ := h.decode hbytes
  simp only [hdecode] at hcall
  refine hcall.mono (fun _ hf => .inr hf) ?_
  rintro conn' ⟨hinv, hread, hvector, hverdict⟩
  refine ⟨?_, hvector ▸ hlen⟩
  rw [Served]
  cases hv : (decoder.decode {} (pending ++ chunk.1.bytes)).verdict with
  | none =>
      rw [hv] at hverdict
      obtain ⟨hready, hcontext, hlog⟩ := hverdict
      have hparsed : conn'.inputBuffer_.readable
          = (decoder.decode {} (pending ++ chunk.1.bytes)).rest ++ [] := by
        rw [List.append_nil]
        exact hread
      exact ⟨⟨hinv, hready, _, [], (List.append_nil _).symm, hv, hcontext, hparsed⟩,
        congrArg HttpServer.served hlog⟩
  | some v =>
      cases v with
      | bad => trivial
      | gotAll =>
          rw [hv] at hverdict
          obtain ⟨hfresh, req, effects, hreq, hserved, _, hlog⟩ := hverdict
          refine ⟨hread ▸ waiting_fresh hinv hfresh, req, hreq, ?_⟩
          rw [hlog, served_append, hserved]

/-! ### The stream and its ends -/

/-- The requests on the wire, back to back. -/
def wireBytes (requests : List WireRequest) : List UInt8 :=
  (requests.map WireRequest.bytes).flatten

/-- Where request `j` ends in the stream. -/
def requestEnd (requests : List WireRequest) (j : Nat) : Nat :=
  (wireBytes (requests.take (j + 1))).length

/-- Where the reads end in the stream. -/
def readEnds (chunks : List Chunk) : List Nat :=
  (List.range chunks.length).map fun i => (stream (chunks.take (i + 1))).length

theorem wireBytes_append (requests more : List WireRequest) :
    wireBytes (requests ++ more) = wireBytes requests ++ wireBytes more := by
  rw [wireBytes, List.map_append, List.flatten_append]
  rfl

theorem wireBytes_cons (w : WireRequest) (requests : List WireRequest) :
    wireBytes (w :: requests) = w.bytes ++ wireBytes requests := rfl

theorem requestEnd_mono (requests : List WireRequest) {i j : Nat} (h : i ≤ j) :
    requestEnd requests i ≤ requestEnd requests j := by
  obtain ⟨more, hmore⟩ : requests.take (i + 1) <+: requests.take (j + 1) :=
    List.take_prefix_take_left (by omega)
  rw [requestEnd, requestEnd, ← hmore, wireBytes_append, List.length_append]
  omega

theorem readEnds_snoc (done : List Chunk) (chunk : Chunk) :
    readEnds (done ++ [chunk]) = readEnds done ++ [(stream (done ++ [chunk])).length] := by
  have hlen : (done ++ [chunk]).length = done.length + 1 := by
    rw [List.length_append, List.length_singleton]
  rw [readEnds, hlen, List.range_succ, List.map_append, List.map_singleton, ← hlen, List.take_length]
  congr 1
  apply List.map_congr_left
  intro i hi
  have hlt : i < done.length := List.mem_range.mp hi
  rw [List.take_append_of_le_length (by omega)]

theorem le_of_mem_readEnds {chunks : List Chunk} {p : Nat} (h : p ∈ readEnds chunks) :
    p ≤ (stream chunks).length := by
  obtain ⟨i, _, rfl⟩ := List.mem_map.mp h
  have hsplit := length_stream_append (chunks.take (i + 1)) (chunks.drop (i + 1))
  rw [List.take_append_drop] at hsplit
  omega

theorem readEnds_pairwise (chunks : List Chunk) : (readEnds chunks).Pairwise (· ≤ ·) := by
  induction chunks using List.reverseRecOn with
  | nil => exact List.Pairwise.nil
  | append_singleton done chunk ih =>
      rw [readEnds_snoc, List.pairwise_append]
      refine ⟨ih, List.pairwise_singleton _ _, ?_⟩
      intro p hp q hq
      have hle := le_of_mem_readEnds hp
      have hq' : q = (stream (done ++ [chunk])).length := List.mem_singleton.mp hq
      rw [hq', length_stream_append]
      omega

/-! ### Whole runs -/

/-- The number of requests that are served after the chunks `done`. -/
def servedBy (requests : List WireRequest) (done : List Chunk) : Nat :=
  taken (requestEnd requests) requests.length 0 (readEnds done)

theorem servedBy_snoc (requests : List WireRequest) (done : List Chunk) (chunk : Chunk) :
    servedBy requests (done ++ [chunk]) = takeOne (requestEnd requests) requests.length
      (servedBy requests done) (stream (done ++ [chunk])).length := by
  rw [servedBy, readEnds_snoc, taken_snoc]
  rfl

/-- The first requests are served, and the bytes behind them are pending. -/
structure Serving (requests : List WireRequest) (done : List Chunk) (conn : Connection) : Prop where
  size_le : conn.inputBuffer_.buffer_.length ≤ Buffer.default.buffer_.length + (stream done).length
  served : (served conn.log).map HttpRequest.untimed
    = (requests.take (servedBy requests done)).map WireRequest.request
  pending : ∃ pending,
    stream done = wireBytes (requests.take (servedBy requests done)) ++ pending ∧ Waiting conn pending

/-- What stops a server that gets the chunks: they are more than the input
buffer can hold, or the response to one of the requests is too large. -/
def Overruns (server : HttpServer) (requests : List WireRequest) (chunks : List Chunk)
    (f : HttpContext.Fault) : Prop :=
  Full (.buffer .lengthError) Buffer.default.buffer_.length (stream chunks) f ∨
    ∃ req, req.untimed ∈ requests.map WireRequest.request ∧ server.Unanswered req f

/-- A request is whole when the stream has come to its end. -/
theorem bytes_prefix_iff {requests : List WireRequest} {n : Nat} (hn : n < requests.length)
    {xs : List UInt8} (hxs : xs <+: wireBytes (requests.drop n)) :
    requests[n].bytes <+: xs ↔
      requestEnd requests n ≤ (wireBytes (requests.take n) ++ xs).length := by
  have hdrop : wireBytes (requests.drop n) = requests[n].bytes ++ wireBytes (requests.drop (n + 1)) := by
    rw [List.drop_eq_getElem_cons hn, wireBytes_cons]
  have htake : requestEnd requests n = (wireBytes (requests.take n)).length + requests[n].bytes.length := by
    rw [requestEnd, ← List.take_concat_get' _ _ hn, wireBytes_append, List.length_append]
    rw [wireBytes_cons, List.length_append]
    rfl
  rw [htake, List.length_append]
  constructor
  · intro h
    have hle := h.length_le
    omega
  · intro h
    exact List.prefix_of_prefix_length_le ⟨_, hdrop.symm⟩ hxs (by omega)

/-- Before the end of request `n` there is no verdict. -/
theorem verdict_of_short {requests : List WireRequest} {n : Nat} {xs : List UInt8}
    (hxs : xs <+: wireBytes (requests.drop n))
    (hshort : ∀ hn : n < requests.length, ¬ requests[n].bytes <+: xs) :
    (decoder.decode {} xs).verdict = none := by
  by_cases hn : n < requests.length
  · have hdrop : requests[n].bytes <+: wireBytes (requests.drop n) := by
      rw [List.drop_eq_getElem_cons hn, wireBytes_cons]
      exact List.prefix_append _ _
    have hlt : xs.length < requests[n].bytes.length := by
      by_contra hge
      exact hshort hn (List.prefix_of_prefix_length_le hdrop hxs (by omega))
    exact decode_short (List.prefix_of_prefix_length_le hxs hdrop (by omega)) hlt
  · -- All requests are behind.
    have hnil : xs = [] := by
      rw [List.drop_of_length_le (by omega)] at hxs
      exact List.prefix_nil.mp hxs
    rw [hnil, Decoder.decode_nil]

/-- A chunk of the stream serves the next request, if it is whole then. -/
theorem receiveChunk_serving (server : HttpServer) {requests : List WireRequest}
    {done : List Chunk} (h : Serving requests done conn) (chunk : Chunk)
    (hpart : stream (done ++ [chunk]) <+: wireBytes requests) :
    Ends (server.receiveChunk conn chunk) (server.Overruns requests (done ++ [chunk]))
      (Serving requests (done ++ [chunk])) := by
  obtain ⟨pending, hstream, hwait⟩ := h.pending
  have hserved := h.served
  have hsnoc := servedBy_snoc requests done chunk
  generalize servedBy requests done = n at hstream hserved hsnoc
  have hnext : stream (done ++ [chunk])
      = wireBytes (requests.take n) ++ (pending ++ chunk.1.bytes) := by
    rw [stream_snoc, hstream, List.append_assoc]
  have hxs : pending ++ chunk.1.bytes <+: wireBytes (requests.drop n) := by
    have hsplit : wireBytes requests
        = wireBytes (requests.take n) ++ wireBytes (requests.drop n) := by
      rw [← wireBytes_append, List.take_append_drop]
    rw [hnext, hsplit] at hpart
    exact (List.prefix_append_right_inj _).mp hpart
  have hends := receiveChunk_waiting server hwait h.size_le chunk
  by_cases hwhole : ∃ hn : n < requests.length, requests[n].bytes <+: pending ++ chunk.1.bytes
  · -- The next request is complete. It is served, and what follows stays in the buffer.
    obtain ⟨hn, hbytes⟩ := hwhole
    have hready := (bytes_prefix_iff hn hxs).mp hbytes
    rw [← hnext] at hready
    rw [takeOne_of_ready hn hready] at hsnoc
    have hlast : requests.take (n + 1) = requests.take n ++ [requests[n]] :=
      (List.take_concat_get' _ _ hn).symm
    obtain ⟨rest, hrest⟩ := hbytes
    rw [← hrest, decode_wireRequest] at hends
    refine hends.mono ?_ ?_
    · rintro f (hfull | ⟨-, req, hreq, hfault⟩)
      · exact .inl hfull
      · exact .inr ⟨req, hreq ▸ List.mem_map_of_mem (List.getElem_mem hn), hfault⟩
    rintro conn' ⟨⟨hwait', req, hreq, hlog⟩, hsize⟩
    refine ⟨hsize, ?_, ?_⟩
    · rw [hsnoc, hlog, List.map_append, hserved, hlast, List.map_append]
      exact congrArg _ (congrArg (fun r => [r]) hreq)
    · refine ⟨rest, ?_, hwait'⟩
      rw [hsnoc, hnext, ← hrest, hlast, wireBytes_append, List.append_assoc]
      congr 1
      rw [wireBytes_cons, List.append_assoc]
      rfl
  · -- It is not, or there is none: nothing is served, and the bytes wait.
    have hshort : ∀ hn : n < requests.length, ¬ requests[n].bytes <+: pending ++ chunk.1.bytes :=
      fun hn hbytes => hwhole ⟨hn, hbytes⟩
    have hlate : ¬ (n < requests.length ∧
        requestEnd requests n ≤ (stream (done ++ [chunk])).length) := by
      intro hready
      rw [hnext] at hready
      exact hshort hready.1 ((bytes_prefix_iff hready.1 hxs).mpr hready.2)
    rw [takeOne_of_not_ready hlate] at hsnoc
    have hnone := verdict_of_short hxs hshort
    refine hends.mono ?_ ?_
    · rintro f (hfull | ⟨hgot, -⟩)
      · exact .inl hfull
      · rw [hnone] at hgot
        cases hgot
    rintro conn' ⟨hconn', hsize⟩
    rw [Served, hnone] at hconn'
    obtain ⟨hwait', hlog⟩ := hconn'
    refine ⟨hsize, ?_, ?_⟩
    · rw [hsnoc, hlog, hserved]
    · exact ⟨pending ++ chunk.1.bytes, by rw [hsnoc, hnext], hwait'⟩

theorem serving_start (requests : List WireRequest) : Serving requests [] {} where
  size_le := by
    have hlen : ({} : Connection).inputBuffer_.buffer_.length = 1032 := length_default
    rw [hlen]
    exact Nat.le_add_right _ _
  served := rfl
  pending := by
    have hwait : Waiting {} Buffer.default.readable := waiting_fresh inv_default rfl
    rw [readable_default] at hwait
    exact ⟨[], rfl, hwait⟩

/-- A run on a part of the stream. -/
theorem receive_serving (server : HttpServer) (requests : List WireRequest) (chunks : List Chunk)
    (hpart : stream chunks <+: wireBytes requests) :
    Ends (server.receive chunks) (server.Overruns requests chunks) (Serving requests chunks) := by
  have hrun := Ends.foldlM_history (f := server.receiveChunk)
    (I := fun done conn => stream done <+: wireBytes requests → Serving requests done conn)
    (E := fun done f => stream done <+: wireBytes requests → server.Overruns requests done f)
    ?_ ?_ chunks [] (b := {}) (fun _ => serving_start requests)
  · exact hrun.mono (fun _ hf => hf hpart) (fun _ hconn => hconn hpart)
  · intro done conn chunk hconn
    by_cases hnext : stream (done ++ [chunk]) <+: wireBytes requests
    · have hdone : stream done <+: wireBytes requests := by
        rw [stream_snoc] at hnext
        exact (List.prefix_append _ _).trans hnext
      exact (receiveChunk_serving server (hconn hdone) chunk hnext).mono (fun _ hf _ => hf)
        (fun _ hs _ => hs)
    · cases server.receiveChunk conn chunk with
      | ok conn' => exact fun hyes => absurd hyes hnext
      | error f => exact fun hyes => absurd hyes hnext
  · intro done more f hf hmore
    have hfirst : stream done <+: stream (done ++ more) := by
      rw [stream, stream, List.map_append, List.flatten_append]
      exact List.prefix_append _ _
    exact (hf (hfirst.trans hmore)).imp (fun hfull => hfull.append more) fun hreq => hreq

theorem take_request_eq_iff (requests : List WireRequest) {n : Nat} (hn : n ≤ requests.length) :
    (requests.take n).map WireRequest.request = requests.map WireRequest.request ↔
      n = requests.length := by
  constructor
  · intro h
    have hlen := congrArg List.length h
    rw [List.length_map, List.length_map, List.length_take] at hlen
    omega
  · intro h
    rw [h, List.take_length]

/-- Requests without bodies are sent back to back and read in any chunks.
The callback is called with the first of them, in order. It is called with
all of them exactly when, for every request, from its end on there are as
many reads as there are requests from it on: a read serves one request at
most, also when it brings several. The run ends early only if the stream
passes `max_size()` of the input buffer, or if the callback answers one of
the requests with a response that passes it or has a text of `2 ^ 31` bytes
or more. -/
theorem requests_served_iff (server : HttpServer) (requests : List WireRequest)
    (chunks : List Chunk) (hstream : stream chunks = wireBytes requests) :
    Ends (server.receive chunks) (server.Overruns requests chunks) (fun conn =>
      (served conn.log).map HttpRequest.untimed <+: requests.map WireRequest.request ∧
      ((served conn.log).map HttpRequest.untimed = requests.map WireRequest.request ↔
        ∀ j < requests.length,
          requests.length - j ≤ (readEnds chunks).countP (fun p => requestEnd requests j ≤ p))) := by
  have hall : stream chunks <+: wireBytes requests := hstream ▸ List.prefix_refl _
  refine (receive_serving server requests chunks hall).imp ?_
  intro conn hconn
  have hle : servedBy requests chunks ≤ requests.length := taken_le (Nat.zero_le _) _
  have htaken := taken_eq_iff (E := requestEnd requests) (k := requests.length) (s := 0)
    (fun i j hij _ => requestEnd_mono requests hij) (Nat.zero_le _) (readEnds_pairwise chunks)
  rw [hconn.served]
  constructor
  · exact List.IsPrefix.map _ ( List.take_prefix _ _)
  · rw [take_request_eq_iff requests hle]
    refine htaken.trans ⟨fun h j hj => h j (Nat.zero_le j) hj, fun h j _ hj => h j hj⟩

/-- `GET / HTTP/1.1` without headers. The connection is kept alive. -/
def getRoot : WireRequest where
  token := ascii ['G', 'E', 'T']
  path := ascii ['/']
  query := []
  version := .kHttp11
  headers := []
  token_known := by decide
  path_plain := by decide
  query_plain := by decide
  query_mark := .inl rfl
  version_known := by decide
  line_whole := by decide
  headers_plain := by decide

/-- Two requests in two reads are both served. -/
theorem requests_served_iff_two_reads :
    stream [(⟨getRoot.bytes, by decide⟩, 1), (⟨getRoot.bytes, by decide⟩, 2)]
      = wireBytes [getRoot, getRoot] ∧
    ∃ conn, (HttpServer.mk fun _ resp => resp).receive
        [(⟨getRoot.bytes, by decide⟩, 1), (⟨getRoot.bytes, by decide⟩, 2)] = .ok conn ∧
      (served conn.log).map HttpRequest.untimed = [getRoot.request, getRoot.request] := by
  have hstream : stream [(⟨getRoot.bytes, by decide⟩, 1), (⟨getRoot.bytes, by decide⟩, 2)]
      = wireBytes [getRoot, getRoot] := by decide
  have hcount : ∀ j < 2, 2 - j ≤ (readEnds [(⟨getRoot.bytes, by decide⟩, 1),
      (⟨getRoot.bytes, by decide⟩, 2)]).countP (fun p => requestEnd [getRoot, getRoot] j ≤ p) := by
    decide
  have hsmall : ∀ close, ¬ (HttpResponse.ctor close).TooLarge := by
    intro close hlarge
    cases hlarge with
    | inl hlong => exact hlong (by unfold HttpResponse.Short; cases close <;> decide)
    | inr hmax =>
        revert hmax
        rw [length_default]
        cases close <;> decide
  refine ⟨hstream, Ends.exists_ok ?_⟩
  refine (requests_served_iff ⟨fun _ resp => resp⟩ _ _ hstream).mono ?_ fun _ h => h.2.mpr hcount
  rintro f (hfull | ⟨req, -, hlarge, -⟩)
  · have hmax := hfull.2
    rw [length_default] at hmax
    revert hmax
    decide
  · exact hsmall _ hlarge

/-- Two requests in one read: the callback is called once. -/
theorem request_unserved_in_one_read :
    stream [(⟨wireBytes [getRoot, getRoot], by decide⟩, 1)] = wireBytes [getRoot, getRoot] ∧
    ((HttpServer.mk fun _ resp => resp).receive
        [(⟨wireBytes [getRoot, getRoot], by decide⟩, 1)]).toOption.map
      (fun conn => (served conn.log).length) = some 1 := by
  constructor
  · decide
  · decide +kernel

end Muduo.Net.HttpServer
