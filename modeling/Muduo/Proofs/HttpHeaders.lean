import Muduo.Lib.OrderedMap
import Muduo.Proofs.HttpRequestLine

/-!
# `Muduo.Proofs.HttpHeaders`: whole requests, and where their headers end

The first half is a round trip. A request is written from a method, a
target, a version and a map of header fields, one line for each field in any
order and with any number of spaces around the value. `request_round_trip`
says that the parser gives back what was written and leaves the bytes that
follow. The values must not begin or end with whitespace, since `addHeader`
trims them.

The second half is about the end of the headers. The parser takes a line
without a colon for it, and not only an empty line. `HeadOf` is the form of
the bytes on which it ends: a request line, lines with a colon and one line
without. `headers_end_iff` says that the bytes that were consumed end with an
empty line unless that last line is not empty, and
`headers_end_without_empty_line` is such an input.
-/

set_option autoImplicit false

namespace Muduo.Net.HttpContext

open Muduo.Base
open Muduo.Lib
open Muduo.Net.Buffer
open Muduo.Net.HttpRequest
open Muduo.Net.HttpRequestLine (IsRequestLine methodOf_methodString readLine_accepts_iff)

/-! ### Writing a request -/

/-- A header as it is written: a name, and a value with spaces around it. -/
structure HeaderText where
  name : List UInt8
  value : List UInt8
  spacesBefore : Nat
  spacesAfter : Nat

namespace HeaderText

/-- What stands behind the colon. -/
def raw (h : HeaderText) : List UInt8 :=
  List.replicate h.spacesBefore 32 ++ (h.value ++ List.replicate h.spacesAfter 32)

/-- The name and what stands behind the colon. -/
def fields (h : HeaderText) : List UInt8 × List UInt8 := (h.name, h.raw)

/-- The field that is meant. -/
def entry (h : HeaderText) : List UInt8 × List UInt8 := (h.name, h.value)

end HeaderText

/-- A name and a value that can be written in one line. -/
structure PlainHeader (name value : List UInt8) : Prop where
  name_colon : 58 ∉ name
  name_whole : ¬ kCRLF <:+: name
  value_whole : ¬ kCRLF <:+: value
  value_head : ∀ x, value.head? = some x → isspace x = false
  value_last : ∀ x, value.getLast? = some x → isspace x = false

/-- The request as it is written. -/
def formatRequest (method : Method) (target : List UInt8) (version : Version)
    (lines : List HeaderText) : List UInt8 :=
  requestLine (methodString { method_ := method }) target version ++ kCRLF
    ++ (lines.map fun h => headerLine h.fields ++ kCRLF).flatten ++ kCRLF

/-! ### No line is cut -/

theorem spaces_notInfix {xs : List UInt8} (h : ¬ kCRLF <:+: xs) (n : Nat) :
    ¬ kCRLF <:+: List.replicate n 32 ++ xs := by
  induction n with
  | zero => exact h
  | succ n ih => exact pair_notInfix_cons (by decide) ih

theorem head?_spaces (n : Nat) : (List.replicate n (32 : UInt8)).head? ≠ some 10 := by
  cases n with
  | zero => simp
  | succ n => simp [List.replicate_succ]

theorem headerLine_whole {h : HeaderText} (hplain : PlainHeader h.name h.value) :
    ¬ kCRLF <:+: headerLine h.fields := by
  have hspaces : ¬ kCRLF <:+: List.replicate h.spacesAfter 32 := by
    rw [← List.append_nil (List.replicate h.spacesAfter 32)]
    exact spaces_notInfix (by decide) _
  have hvalue : ¬ kCRLF <:+: h.value ++ List.replicate h.spacesAfter 32 :=
    pair_notInfix_append hplain.value_whole hspaces (head?_spaces _)
  have hraw : ¬ kCRLF <:+: h.raw := spaces_notInfix hvalue _
  exact pair_notInfix_append hplain.name_whole (pair_notInfix_cons (by decide) hraw) (by simp)

theorem requestLine_whole {method : Method} {target : List UInt8} {version : Version}
    (hmethod : method ≠ .kInvalid) (htarget : ¬ kCRLF <:+: target) (hversion : version ≠ .kUnknown) :
    ¬ kCRLF <:+: requestLine (methodString { method_ := method }) target version := by
  have htoken : ¬ kCRLF <:+: methodString { method_ := method } := by
    cases method with
    | kInvalid => exact absurd rfl hmethod
    | kGet => decide
    | kPost => decide
    | kHead => decide
    | kPut => decide
    | kDelete => decide
  have htext : ¬ kCRLF <:+: version.text := by
    cases version with
    | kUnknown => exact absurd rfl hversion
    | kHttp10 => decide
    | kHttp11 => decide
  have hrest : ¬ kCRLF <:+: target ++ 32 :: version.text :=
    pair_notInfix_append htarget (pair_notInfix_cons (by decide) htext) (by simp)
  exact pair_notInfix_append htoken (pair_notInfix_cons (by decide) hrest) (by simp)

/-! ### The value is read back -/

theorem dropWhile_spaces (n : Nat) (xs : List UInt8) :
    (List.replicate n 32 ++ xs).dropWhile isspace = xs.dropWhile isspace := by
  induction n with
  | zero => rfl
  | succ n ih =>
      rw [List.replicate_succ, List.cons_append, List.dropWhile_cons_of_pos (by decide)]
      exact ih

theorem dropWhile_head {xs : List UInt8} (h : ∀ x, xs.head? = some x → isspace x = false) :
    xs.dropWhile isspace = xs := by
  cases xs with
  | nil => rfl
  | cons x xs => exact List.dropWhile_cons_of_neg (by rw [h x rfl]; decide)

/-- Trimming takes away the spaces and nothing of the value. -/
theorem trim_raw {h : HeaderText} (hplain : PlainHeader h.name h.value) : trim h.raw = h.value := by
  rw [trim, HeaderText.raw, dropWhile_spaces]
  cases hvalue : h.value with
  | nil =>
      -- Only spaces are left, and they go in the first pass.
      have hall := dropWhile_spaces h.spacesAfter []
      rw [List.append_nil] at hall
      rw [List.nil_append, hall]
      rfl
  | cons x xs =>
      rw [← hvalue]
      have hhead : (h.value ++ List.replicate h.spacesAfter 32).dropWhile isspace
          = h.value ++ List.replicate h.spacesAfter 32 := by
        apply dropWhile_head
        intro y hy
        apply hplain.value_head y
        rw [hvalue] at hy ⊢
        exact hy
      have hlast : h.value.reverse.dropWhile isspace = h.value.reverse := by
        apply dropWhile_head
        intro y hy
        rw [List.head?_reverse] at hy
        exact hplain.value_last y hy
      rw [hhead, List.reverse_append, List.reverse_replicate, dropWhile_spaces, hlast,
        List.reverse_reverse]

/-! ### The round trip -/

/-- The headers that are read are the map that was written. -/
theorem headers_read {headers : Std.ExtTreeMap (List UInt8) (List UInt8)} {lines : List HeaderText}
    (hplain : ∀ h ∈ lines, PlainHeader h.name h.value)
    (hlines : (lines.map HeaderText.entry).Perm headers.toList) :
    (lines.map HeaderText.fields).foldl (fun m h => m.insert h.1 (trim h.2)) ∅ = headers := by
  have htrim : (lines.map HeaderText.fields).map (fun h => (h.1, trim h.2))
      = lines.map HeaderText.entry := by
    rw [List.map_map]
    apply List.map_congr_left
    intro h hmem
    exact Prod.ext rfl (trim_raw (hplain h hmem))
  rw [← foldl_insert_toList hlines, ← htrim]
  simp only [List.foldl_map]

/-- A request that was written from its parts is read back from a buffer
that begins with it. The parser accepts it, the method, the path, the query,
the version and the map of the headers are the ones that were written, and
what follows in the buffer is left. -/
theorem request_round_trip {method : Method} {version : Version} {path query : List UInt8}
    {headers : Std.ExtTreeMap (List UInt8) (List UInt8)} {lines : List HeaderText}
    (hmethod : method ≠ .kInvalid) (hversion : version ≠ .kUnknown) (hpath : 63 ∉ path)
    (hquery : query = [] ∨ ∃ rest, query = 63 :: rest)
    (htarget : 32 ∉ path ++ query ∧ ¬ kCRLF <:+: path ++ query)
    (hheaders : ∀ name value, headers[name]? = some value → PlainHeader name value)
    (hlines : (lines.map HeaderText.entry).Perm headers.toList) {b : Buffer} (hb : Inv b)
    {rest : List UInt8} (hbytes : b.readable = formatRequest method (path ++ query) version lines ++ rest)
    (t : Timestamp) :
    ∃ o, parseRequest {} b t = .ok o ∧ o.ok = true ∧ o.context.gotAll = true ∧
      o.context.request_.method_ = method ∧ o.context.request_.path_ = path ∧
      o.context.request_.query_ = query ∧ o.context.request_.version_ = version ∧
      o.context.request_.headers_ = headers ∧ o.buf.readable = rest := by
  have hplain : ∀ h ∈ lines, PlainHeader h.name h.value := by
    intro h hmem
    have hentry := hlines.mem_iff.mp (List.mem_map_of_mem hmem)
    exact hheaders _ _ (Std.ExtTreeMap.mem_toList_iff_getElem?_eq_some.mp hentry)
  have hspace := htarget.1
  rw [List.mem_append, not_or] at hspace
  have hname := methodOf_methodString hmethod
  let w : WireRequest :=
    { token := methodString { method_ := method }, path := path, query := query, version := version,
      headers := lines.map HeaderText.fields, token_known := by rw [hname]; exact hmethod,
      path_plain := ⟨hspace.1, hpath⟩, query_plain := hspace.2, query_mark := hquery,
      version_known := hversion, line_whole := requestLine_whole hmethod htarget.2 hversion,
      headers_plain := by
        intro header hmem
        obtain ⟨h, hh, rfl⟩ := List.mem_map.mp hmem
        exact ⟨(hplain h hh).name_colon, headerLine_whole (hplain h hh)⟩ }
  have hformat : formatRequest method (path ++ query) version lines = w.bytes := by
    simp only [formatRequest, WireRequest.bytes, w, List.map_map, Function.comp_def]
  have hfresh : Ready {} := .inl ⟨rfl, rfl⟩
  obtain ⟨o, hcall, hat⟩ := parseRequest_decodes hfresh hb t
  have hdecode : decoder.decode (untimed {}) b.readable = ⟨⟨.kGotAll, w.request⟩, rest, some .gotAll⟩ := by
    rw [hbytes, hformat]
    exact decode_wireRequest w rest
  rw [hdecode] at hat
  have hrequest : o.context.request_.untimed = w.request := congrArg request_ hat.context
  have hfields : w.request.headers_ = headers := headers_read hplain hlines
  refine ⟨o, hcall, hat.ended.1, decide_eq_true hat.ended.2, ?_, ?_, ?_, ?_, ?_, hat.readable⟩
  · exact (congrArg method_ hrequest).trans hname
  · exact congrArg path_ hrequest
  · exact congrArg query_ hrequest
  · exact congrArg version_ hrequest
  · exact (congrArg headers_ hrequest).trans hfields

/-- `GET /?q HTTP/1.0` with one header, `Host:   a:b `, in front of two more bytes. -/
theorem request_round_trip_host :
    ∃ o, parseRequest {} ⟨formatRequest .kGet (ascii ['/', '?', 'q']) .kHttp10
          [⟨ascii ['H', 'o', 's', 't'], ascii ['a', ':', 'b'], 3, 1⟩] ++ [1, 2], 0, 36⟩ 7 = .ok o ∧
      o.ok = true ∧ o.context.gotAll = true ∧ o.context.request_.method_ = .kGet ∧
      o.context.request_.path_ = ascii ['/'] ∧ o.context.request_.query_ = ascii ['?', 'q'] ∧
      o.context.request_.version_ = .kHttp10 ∧
      o.context.request_.headers_
        = (∅ : Std.ExtTreeMap _ _).insert (ascii ['H', 'o', 's', 't']) (ascii ['a', ':', 'b']) ∧
      o.buf.readable = [1, 2] := by
  have hentries : ((∅ : Std.ExtTreeMap (List UInt8) (List UInt8)).insert
      (ascii ['H', 'o', 's', 't']) (ascii ['a', ':', 'b'])).toList
        = [(ascii ['H', 'o', 's', 't'], ascii ['a', ':', 'b'])] := by decide +kernel
  have hbytes : readable ⟨formatRequest .kGet (ascii ['/', '?', 'q']) .kHttp10
        [⟨ascii ['H', 'o', 's', 't'], ascii ['a', ':', 'b'], 3, 1⟩] ++ [1, 2], 0, 36⟩
      = formatRequest .kGet (ascii ['/'] ++ ascii ['?', 'q']) .kHttp10
        [⟨ascii ['H', 'o', 's', 't'], ascii ['a', ':', 'b'], 3, 1⟩] ++ [1, 2] := by decide +kernel
  refine request_round_trip (by decide) (by decide) (by decide) (.inr ⟨_, rfl⟩) (by decide) ?_ ?_
    ⟨by decide, by decide, by decide, by decide⟩ hbytes 7
  · intro name value h
    rw [← Std.ExtTreeMap.mem_toList_iff_getElem?_eq_some, hentries, List.mem_singleton] at h
    obtain ⟨rfl, rfl⟩ := Prod.mk.inj h
    exact ⟨by decide, by decide, by decide, by decide +kernel, by decide +kernel⟩
  · rw [hentries]
    exact List.Perm.refl _

/-! ### The end of the headers -/

/-- The bytes are lines with a colon, a line without one, and the `rest`. -/
structure HeaderLines (bytes : List UInt8) (headers : List (List UInt8)) (last rest : List UInt8) :
    Prop where
  headers_colon : ∀ header ∈ headers, 58 ∈ header ∧ ¬ kCRLF <:+: header
  last_plain : 58 ∉ last ∧ ¬ kCRLF <:+: last
  bytes_eq : bytes = (headers.map (· ++ kCRLF)).flatten ++ (last ++ kCRLF ++ rest)

/-- The bytes are a request line of the grammar and such lines. -/
structure HeadOf (bytes line : List UInt8) (headers : List (List UInt8)) (last rest : List UInt8) :
    Prop where
  line_accepted : ∃ method target version, IsRequestLine line method target version
  line_whole : ¬ kCRLF <:+: line
  lines : ∃ tail, bytes = line ++ kCRLF ++ tail ∧ HeaderLines tail headers last rest

/-- The search for the colon fails on a line exactly when the line has none. -/
theorem colon_ne_length (line : List UInt8) : line.idxOf 58 ≠ line.length ↔ 58 ∈ line := by
  rw [← List.idxOf_lt_length_iff]
  have hle : line.idxOf 58 ≤ line.length := List.idxOf_le_length
  omega

/-- The parser decides by the colon what it does with a line of the headers. -/
theorem nextLine_colon {q : HttpContext} (hq : q.state_ = .kExpectHeaders) (line : List UInt8) :
    nextLine q line
      = if 58 ∈ line then .take (line.length + 2) (q.withHeader line)
        else .halt (line.length + 2) { q with state_ := .kGotAll } .gotAll := by
  simp only [nextLine, hq, colon_ne_length]

/-- What the decoder does in the headers: it takes the lines with a colon
and halts behind the first line without one. -/
theorem HeaderLines.decode {bytes last rest : List UInt8} {headers : List (List UInt8)}
    (h : HeaderLines bytes headers last rest) (q : HttpContext) (hq : q.state_ = .kExpectHeaders) :
    (decoder.decode q bytes).verdict = some .gotAll ∧ (decoder.decode q bytes).rest = rest := by
  obtain ⟨hheaders, hlast, rfl⟩ := h
  induction headers generalizing q with
  | nil =>
      have hmove : decoder.next q (last ++ kCRLF ++ rest)
          = .halt (last.length + 2) { q with state_ := .kGotAll } .gotAll := by
        refine (next_line hlast.2 q rest).trans ?_
        rw [nextLine_colon hq, if_neg hlast.1]
      rw [List.map_nil, List.flatten_nil, List.nil_append, Decoder.decode_halt hmove]
      exact ⟨rfl, drop_line last rest⟩
  | cons header headers ih =>
      have hheader := hheaders header List.mem_cons_self
      have hmove : decoder.next q (header ++ kCRLF
            ++ ((headers.map (· ++ kCRLF)).flatten ++ (last ++ kCRLF ++ rest)))
          = .take (header.length + 2) (q.withHeader header) := by
        refine (next_line hheader.2 q _).trans ?_
        rw [nextLine_colon hq, if_pos hheader.1]
      rw [List.map_cons, List.flatten_cons, List.append_assoc, Decoder.decode_take hmove, drop_line]
      exact ih (q.withHeader header) hq fun h hmem => hheaders h (List.mem_cons_of_mem _ hmem)

/-- On bytes of this form parsing ends behind the line without a colon. -/
theorem HeadOf.decode {bytes line last rest : List UInt8} {headers : List (List UInt8)}
    (h : HeadOf bytes line headers last rest) :
    (decoder.decode {} bytes).verdict = some .gotAll ∧ (decoder.decode {} bytes).rest = rest := by
  obtain ⟨hgrammar, hwhole, tail, rfl, hlines⟩ := h
  have haccepted := (readLine_accepts_iff line).mpr hgrammar
  have hmove : decoder.next {} (line ++ kCRLF ++ tail)
      = .take (line.length + 2) ⟨.kExpectHeaders, (readLine {} line).2⟩ := by
    refine (next_line hwhole {} _).trans ?_
    simp only [nextLine, haccepted, if_true]
  rw [Decoder.decode_take hmove, drop_line]
  exact hlines.decode _ rfl

/-- A move is made at a whole line, with which the bytes begin. -/
theorem line_of_next {q : HttpContext} {xs : List UInt8} {move : Move HttpContext Verdict}
    (h : decoder.next q xs = move) (hneed : move ≠ .need) :
    ∃ line rest, xs = line ++ kCRLF ++ rest ∧ ¬ kCRLF <:+: line ∧ nextLine q line = move := by
  obtain ⟨i, hi, -, hmove⟩ := nextLine_of_next h hneed
  exact ⟨xs.take i, _, search_split hi, search_first (by decide) hi, hmove⟩

/-- In the headers, a verdict is given behind the first line without a colon. -/
theorem headerLines_of_verdict (q : HttpContext) (xs : List UInt8) :
    q.state_ = .kExpectHeaders → (decoder.decode q xs).verdict = some .gotAll →
      ∃ headers last, HeaderLines xs headers last (decoder.decode q xs).rest := by
  refine Decoder.decode_induct
    (P := fun q xs (p : Parsed UInt8 HttpContext Verdict) => q.state_ = .kExpectHeaders →
      p.verdict = some .gotAll → ∃ headers last, HeaderLines xs headers last p.rest) ?_ ?_ ?_ q xs
  · intro q xs _ _ hverdict
    cases hverdict
  · intro q xs n r hnext ih hq hverdict
    obtain ⟨line, tail, rfl, hwhole, hmove⟩ := line_of_next hnext (by simp)
    rw [nextLine_colon hq] at hmove
    split_ifs at hmove with hcolon
    cases hmove
    rw [drop_line] at ih hverdict ⊢
    obtain ⟨headers, last, hheaders, hlast, hrest⟩ := ih hq hverdict
    refine ⟨line :: headers, last, ?_, hlast, ?_⟩
    · exact List.forall_mem_cons.mpr ⟨⟨hcolon, hwhole⟩, hheaders⟩
    · rw [List.map_cons, List.flatten_cons, List.append_assoc (line ++ kCRLF), ← hrest]
  · intro q xs n r v hnext hq _
    obtain ⟨line, tail, rfl, hwhole, hmove⟩ := line_of_next hnext (by simp)
    rw [nextLine_colon hq] at hmove
    split_ifs at hmove with hcolon
    cases hmove
    rw [drop_line]
    refine ⟨[], line, ?_, ⟨hcolon, hwhole⟩, rfl⟩
    exact fun header hmem => absurd hmem List.not_mem_nil

/-- A fresh context that has got all has read bytes of this form. -/
theorem headOf_of_verdict {bytes : List UInt8}
    (h : (decoder.decode {} bytes).verdict = some .gotAll) :
    ∃ line headers last, HeadOf bytes line headers last (decoder.decode {} bytes).rest := by
  cases hnext : decoder.next {} bytes with
  | need =>
      rw [Decoder.decode_need hnext] at h
      cases h
  | halt n r v =>
      -- A request line is refused with the other verdict.
      obtain ⟨line, tail, -, -, hmove⟩ := line_of_next hnext (by simp)
      simp only [nextLine] at hmove
      split_ifs at hmove with hok
      cases hmove
      rw [Decoder.decode_halt hnext] at h
      cases h
  | take n r =>
      obtain ⟨line, tail, rfl, hwhole, hmove⟩ := line_of_next hnext (by simp)
      simp only [nextLine] at hmove
      split_ifs at hmove with hok
      cases hmove
      rw [Decoder.decode_take hnext, drop_line] at h ⊢
      obtain ⟨headers, last, hlines⟩ := headerLines_of_verdict _ _ rfl h
      exact ⟨line, headers, last, (readLine_accepts_iff _).mp hok, hwhole, tail, rfl, hlines⟩

/-! ### The last four bytes -/

/-- All lines together end as a line does. -/
theorem crlf_suffix_lines (line : List UInt8) (headers : List (List UInt8)) :
    kCRLF <:+ line ++ kCRLF ++ (headers.map (· ++ kCRLF)).flatten := by
  cases List.eq_nil_or_concat' headers with
  | inl hnil =>
      rw [hnil, List.map_nil, List.flatten_nil, List.append_nil]
      exact List.suffix_append _ _
  | inr hconcat =>
      obtain ⟨front, header, rfl⟩ := hconcat
      rw [List.map_append, List.map_singleton, List.flatten_append, List.flatten_singleton,
        ← List.append_assoc, ← List.append_assoc]
      exact List.suffix_append _ _

/-- A CRLF is followed by a whole line. They end with a CRLF only when the
line is empty. -/
theorem crlf_suffix_iff {front last : List UInt8} (hfront : kCRLF <:+ front)
    (hlast : ¬ kCRLF <:+: last) : kCRLF <:+ front ++ last ↔ last = [] := by
  constructor
  · intro hsuffix
    obtain ⟨pre, rfl⟩ := hfront
    cases last with
    | nil => rfl
    | cons x xs =>
        cases xs with
        | nil =>
            -- The last two bytes are `\n` and `x`, and the first of them is not `\r`.
            have hend : [10, x] <:+ pre ++ kCRLF ++ [x] := ⟨pre ++ [13], by simp [kCRLF]⟩
            have hsame := List.suffix_of_suffix_length_le hsuffix hend (Nat.le_refl 2)
            cases hsame.eq_of_length rfl
        | cons y ys =>
            have hlen : kCRLF.length ≤ (x :: y :: ys).length := Nat.le_add_left 2 ys.length
            have hin := List.suffix_of_suffix_length_le hsuffix (List.suffix_append _ _) hlen
            exact absurd hin.isInfix hlast
  · rintro rfl
    rw [List.append_nil]
    exact hfront

/-- The bytes that were consumed end with an empty line exactly when the
line that ended the headers was empty. -/
theorem HeadOf.suffix_iff {bytes line last rest consumed : List UInt8} {headers : List (List UInt8)}
    (h : HeadOf bytes line headers last rest) (hconsumed : bytes = consumed ++ rest) :
    kCRLF ++ kCRLF <:+ consumed ↔ last = [] := by
  obtain ⟨-, -, tail, htail, -, hlast, hlines⟩ := h
  have hbytes : bytes
      = line ++ kCRLF ++ (headers.map (· ++ kCRLF)).flatten ++ last ++ kCRLF ++ rest := by
    rw [htail, hlines]
    simp only [List.append_assoc]
  have hread := List.append_cancel_right (hconsumed.symm.trans hbytes)
  rw [hread, List.suffix_append_inj_of_length_eq rfl, and_iff_left rfl,
    crlf_suffix_iff (crlf_suffix_lines line headers) hlast.2]

theorem Ended.gotAll_iff {o : Outcome} {verdict : Option Verdict} (h : Ended o verdict) :
    o.context.gotAll = true ↔ verdict = some .gotAll := by
  rw [gotAll, decide_eq_true_iff]
  cases verdict with
  | none =>
      refine iff_of_false ?_ (by simp)
      cases h.2.state with
      | inl hline => rw [hline]; decide
      | inr hheaders => rw [hheaders]; decide
  | some v =>
      cases v with
      | bad =>
          refine iff_of_false ?_ (by simp)
          rw [h.2]
          decide
      | gotAll => exact iff_of_true h.2 rfl

/-- Parsing from a fresh context returns. When it then has got all, the bytes
that were consumed end with an empty line, for exactly those inputs whose
headers are not ended by a line that has no colon and is not empty. -/
theorem headers_end_iff {b : Buffer} (hb : Inv b) (t : Timestamp) :
    ∃ o consumed, parseRequest {} b t = .ok o ∧ b.readable = consumed ++ o.buf.readable ∧
      ((o.context.gotAll = true → kCRLF ++ kCRLF <:+ consumed) ↔
        ∀ line headers last rest, HeadOf b.readable line headers last rest → last = []) := by
  have hfresh : Ready {} := .inl ⟨rfl, rfl⟩
  obtain ⟨o, hcall, hat⟩ := parseRequest_decodes hfresh hb t
  have hgot := hat.ended.gotAll_iff
  have hrest : o.buf.readable = (decoder.decode {} b.readable).rest := hat.readable
  obtain ⟨consumed, hconsumed⟩ := decoder.decode_rest_suffix {} b.readable
  refine ⟨o, consumed, hcall, hrest ▸ hconsumed.symm, ?_, ?_⟩
  · intro hends line headers last rest hhead
    obtain ⟨hverdict, hleft⟩ := hhead.decode
    have hcut := hconsumed.symm
    rw [hleft] at hcut
    exact (hhead.suffix_iff hcut).mp (hends (hgot.mpr hverdict))
  · intro hempty hall
    obtain ⟨line, headers, last, hhead⟩ := headOf_of_verdict (hgot.mp hall)
    exact (hhead.suffix_iff hconsumed.symm).mpr (hempty line headers last _ hhead)

/-- A buffer with `GET / HTTP/1.1` and one more line. -/
def getAndLine (line : List UInt8) : Buffer :=
  let bytes := ascii ['G', 'E', 'T', ' ', '/', ' ', 'H', 'T', 'T', 'P', '/', '1', '.', '1'] ++ kCRLF
    ++ line ++ kCRLF
  ⟨bytes, 0, bytes.length⟩

/-- The line is empty, which is where the headers end: the parser has got all, it has consumed
everything, and whoever reads the bytes as a head finds the empty line at its end. -/
theorem headers_end_iff_empty_line :
    ∃ o consumed, parseRequest {} (getAndLine []) 0 = .ok o ∧
      (getAndLine []).readable = consumed ++ o.buf.readable ∧ o.context.gotAll = true ∧
      kCRLF ++ kCRLF <:+ consumed ∧
      ∀ line headers last rest, HeadOf (getAndLine []).readable line headers last rest →
        last = [] := by
  have heval : ((parseRequest {} (getAndLine []) 0).toOption.bind
      fun o => some (o.context.gotAll, o.buf.readable)) = some (true, []) := by
    decide +kernel
  obtain ⟨o, consumed, hcall, hbytes, hiff⟩ :=
    headers_end_iff (b := getAndLine []) ⟨by decide, by decide, by decide, by decide⟩ 0
  obtain ⟨o', hcall', heval⟩ := exists_ok_of_bind heval
  cases hcall.symm.trans hcall'
  obtain ⟨hgot, hrest⟩ := Prod.mk.inj (Option.some.inj heval)
  have hends : kCRLF ++ kCRLF <:+ consumed := by
    have hall := hbytes
    rw [hrest, List.append_nil] at hall
    rw [← hall]
    decide +kernel
  exact ⟨o, consumed, hcall, hbytes, hgot, hends, hiff.mp fun _ => hends⟩

/-- The line is `foo`. It has no colon and is taken for the end of the headers. -/
theorem headers_end_without_empty_line :
    Inv (getAndLine (ascii ['f', 'o', 'o'])) ∧
    (parseRequest {} (getAndLine (ascii ['f', 'o', 'o'])) 0).toOption.map
        (fun o => (o.ok, o.context.gotAll, o.buf.readable)) = some (true, true, []) ∧
    ¬ kCRLF ++ kCRLF <:+ (getAndLine (ascii ['f', 'o', 'o'])).readable := by
  refine ⟨⟨by decide, by decide, by decide, by decide⟩, ?_, ?_⟩
  · decide +kernel
  · decide +kernel

end Muduo.Net.HttpContext
