import Muduo.Proofs.HttpContext

/-!
# `Muduo.Proofs.HttpWire`: the requests that a client can write

A `WireRequest` is a request without a body as a client writes it: a method
that the server knows, a path and a query, a version, and headers in any
number. Its fields say what keeps the parts apart: no space and no question
mark where it would be taken for a separator, no colon in the name of a
header, and no CRLF inside a line. `bytes` is the request on the wire and
`request` is what it means.

`decode_wireRequest` says that the parser reads back what is meant and
leaves what follows, and `decode_short` that it gives no verdict before the
last byte is there.
-/

set_option autoImplicit false

namespace Muduo.Net

open Muduo.Base
open Muduo.Lib
open Muduo.Net.Buffer
open Muduo.Net.HttpRequest

/-! ### The grammar -/

/-- The text of a version. -/
def HttpRequest.Version.text : Version → List UInt8
  | .kUnknown => []
  | .kHttp10 => ascii ['H', 'T', 'T', 'P', '/', '1', '.', '0']
  | .kHttp11 => ascii ['H', 'T', 'T', 'P', '/', '1', '.', '1']

namespace HttpContext

/-- `token SP target SP version`. -/
def requestLine (token target : List UInt8) (version : Version) : List UInt8 :=
  token ++ 32 :: (target ++ 32 :: version.text)

/-- `name:raw`. -/
def headerLine (header : List UInt8 × List UInt8) : List UInt8 := header.1 ++ 58 :: header.2

/-- A request without a body, as a client writes it. -/
structure WireRequest where
  token : List UInt8
  path : List UInt8
  query : List UInt8
  version : Version
  headers : List (List UInt8 × List UInt8)
  token_known : methodOf token ≠ .kInvalid
  path_plain : 32 ∉ path ∧ 63 ∉ path
  query_plain : 32 ∉ query
  query_mark : query = [] ∨ ∃ rest, query = 63 :: rest
  version_known : version ≠ .kUnknown
  line_whole : ¬ kCRLF <:+: requestLine token (path ++ query) version
  headers_plain : ∀ header ∈ headers, 58 ∉ header.1 ∧ ¬ kCRLF <:+: headerLine header

namespace WireRequest

variable (w : WireRequest)

/-- The request on the wire. -/
def bytes : List UInt8 :=
  requestLine w.token (w.path ++ w.query) w.version ++ kCRLF
    ++ (w.headers.map fun header => headerLine header ++ kCRLF).flatten ++ kCRLF

/-- What its request line says. -/
def requestOfLine : HttpRequest :=
  { method_ := methodOf w.token, version_ := w.version, path_ := w.path, query_ := w.query }

/-- What it says. Of two headers with one name the later one counts. -/
def request : HttpRequest :=
  { w.requestOfLine with
    headers_ := w.headers.foldl (fun headers header => headers.insert header.1 (trim header.2)) ∅ }

end WireRequest

/-! ### The request line -/

theorem idxOf_behind {x : UInt8} {xs : List UInt8} (h : x ∉ xs) (ys : List UInt8) :
    (xs ++ x :: ys).idxOf x = xs.length := by
  rw [List.idxOf_append_of_notMem h, List.idxOf_cons_self, Nat.add_zero]

theorem idxOf_ne_length {x : UInt8} {xs : List UInt8} (h : x ∉ xs) (ys : List UInt8) :
    (xs ++ x :: ys).idxOf x ≠ (xs ++ x :: ys).length := by
  rw [idxOf_behind h, List.length_append, List.length_cons]
  omega

theorem drop_behind (x : UInt8) (xs ys : List UInt8) :
    (xs ++ x :: ys).drop (xs.length + 1) = ys := by
  rw [← List.drop_drop, List.drop_left]
  rfl

/-- No method has a space in it. -/
theorem space_notMem_token {token : List UInt8} (h : methodOf token ≠ .kInvalid) : 32 ∉ token := by
  simp only [methodOf] at h
  split_ifs at h with h₁ h₂ h₃ h₄ h₅
  · rw [h₁]; decide
  · rw [h₂]; decide
  · rw [h₃]; decide
  · rw [h₄]; decide
  · rw [h₅]; decide
  · exact absurd rfl h

/-- The path ends at the question mark, which is the first byte of the query. -/
theorem target_split {path query : List UInt8} (hpath : 63 ∉ path)
    (hquery : query = [] ∨ ∃ rest, query = 63 :: rest) (r : HttpRequest) (hr : r.query_ = []) :
    (if (path ++ query).idxOf 63 ≠ (path ++ query).length then
        (r.setPath ((path ++ query).take ((path ++ query).idxOf 63))).setQuery
          ((path ++ query).drop ((path ++ query).idxOf 63))
      else r.setPath (path ++ query))
      = { r with path_ := path, query_ := query } := by
  cases hquery with
  | inl hnil =>
      subst hnil
      have hnone : path.idxOf 63 = path.length := List.idxOf_eq_length hpath
      rw [List.append_nil, if_neg (not_not_intro hnone), setPath, ← hr]
  | inr hmark =>
      obtain ⟨rest, rfl⟩ := hmark
      rw [if_pos (idxOf_ne_length hpath rest), idxOf_behind hpath, List.take_left, List.drop_left]
      rfl

/-- The version of a request line is read back. -/
theorem version_text {version : Version} (h : version ≠ .kUnknown) (r : HttpRequest) :
    (if version.text.length = 8 ∧
        version.text.take 7 = ascii ['H', 'T', 'T', 'P', '/', '1', '.'] then
      if version.text[7]? = some 49 then (true, r.setVersion .kHttp11)
      else if version.text[7]? = some 48 then (true, r.setVersion .kHttp10)
      else (false, r)
    else (false, r)) = (true, r.setVersion version) := by
  cases version with
  | kUnknown => exact absurd rfl h
  | kHttp10 => rfl
  | kHttp11 => rfl

/-- What `processTarget` does with a target and a version. -/
theorem processTarget_target {path query : List UInt8} {version : Version}
    (hpath : 32 ∉ path ∧ 63 ∉ path) (hquery : 32 ∉ query)
    (hmark : query = [] ∨ ∃ rest, query = 63 :: rest) (hversion : version ≠ .kUnknown)
    (r : HttpRequest) (hr : r.query_ = []) :
    processTarget r (path ++ query ++ 32 :: version.text)
      = (true, { r with path_ := path, query_ := query, version_ := version }) := by
  have hspace : 32 ∉ path ++ query := by
    rw [List.mem_append]
    exact not_or.mpr ⟨hpath.1, hquery⟩
  have hsplit := target_split hpath.2 hmark r hr
  rw [processTarget, idxOf_behind hspace, if_pos (idxOf_behind hspace _ ▸ idxOf_ne_length hspace _),
    List.take_left, drop_behind]
  simp only [hsplit]
  exact version_text hversion _

/-- A request line is read back. -/
theorem readLine_parts {token path query : List UInt8} {version : Version}
    (htoken : methodOf token ≠ .kInvalid) (hpath : 32 ∉ path ∧ 63 ∉ path) (hquery : 32 ∉ query)
    (hmark : query = [] ∨ ∃ rest, query = 63 :: rest) (hversion : version ≠ .kUnknown) :
    readLine {} (requestLine token (path ++ query) version)
      = (true,
          { method_ := methodOf token, version_ := version, path_ := path, query_ := query }) := by
  have hspace := space_notMem_token htoken
  have htarget := processTarget_target hpath hquery hmark hversion { method_ := methodOf token } rfl
  rw [readLine, requestLine, if_pos (idxOf_ne_length hspace _), idxOf_behind hspace, List.take_left,
    drop_behind, if_pos htoken, htarget]

theorem readLine_requestLine (w : WireRequest) :
    readLine {} (requestLine w.token (w.path ++ w.query) w.version) = (true, w.requestOfLine) :=
  readLine_parts w.token_known w.path_plain w.query_plain w.query_mark w.version_known

/-! ### The whole request -/

theorem search_line {line : List UInt8} (h : ¬ kCRLF <:+: line) (rest : List UInt8) :
    search kCRLF (line ++ kCRLF ++ rest) = some line.length := by
  rw [List.append_assoc]
  exact search_pair (by decide) h rest

/-- One move at a line that is whole. -/
theorem next_line {line : List UInt8} (h : ¬ kCRLF <:+: line) (q : HttpContext)
    (rest : List UInt8) : next q (line ++ kCRLF ++ rest) = nextLine q line := by
  rw [next_of_search (search_line h rest), List.append_assoc, List.take_left]

theorem drop_line (line rest : List UInt8) : (line ++ kCRLF ++ rest).drop (line.length + 2) = rest := by
  have hlen : (line ++ kCRLF).length = line.length + 2 := by
    rw [List.length_append]
    rfl
  rw [← hlen, List.drop_left]

theorem headerLine_colon {header : List UInt8 × List UInt8} (h : 58 ∉ header.1) :
    (headerLine header).idxOf 58 ≠ (headerLine header).length ∧
      (headerLine header).idxOf 58 = header.1.length :=
  ⟨idxOf_ne_length h header.2, idxOf_behind h header.2⟩

/-- A header is read back. -/
theorem withHeader_headerLine {header : List UInt8 × List UInt8} (h : 58 ∉ header.1)
    (q : HttpContext) :
    q.withHeader (headerLine header) = { q with request_ := { q.request_ with
      headers_ := q.request_.headers_.insert header.1 (trim header.2) } } := by
  have hfield : (headerLine header).take header.1.length = header.1 := List.take_left
  have hvalue : (headerLine header).drop (header.1.length + 1) = header.2 := drop_behind 58 _ _
  rw [withHeader, addHeader, (headerLine_colon h).2, hfield, hvalue]

/-- The headers are read one after the other, up to the empty line. -/
theorem decode_headers (headers : List (List UInt8 × List UInt8))
    (h : ∀ header ∈ headers, 58 ∉ header.1 ∧ ¬ kCRLF <:+: headerLine header) (r : HttpRequest)
    (rest : List UInt8) :
    decoder.decode ⟨.kExpectHeaders, r⟩
        ((headers.map fun header => headerLine header ++ kCRLF).flatten ++ (kCRLF ++ rest))
      = ⟨⟨.kGotAll, { r with
          headers_ := headers.foldl (fun headers header => headers.insert header.1 (trim header.2))
            r.headers_ }⟩, rest, some .gotAll⟩ := by
  induction headers generalizing r with
  | nil =>
      have hempty : ¬ kCRLF <:+: [] := by decide
      have hmove : decoder.next ⟨.kExpectHeaders, r⟩ (kCRLF ++ rest)
          = .halt 2 ⟨.kGotAll, r⟩ .gotAll := by
        show next ⟨.kExpectHeaders, r⟩ ([] ++ kCRLF ++ rest) = _
        rw [next_line hempty]
        rfl
      rw [List.map_nil, List.flatten_nil, List.nil_append, Decoder.decode_halt hmove]
      rfl
  | cons header headers ih =>
      have hheader := h header List.mem_cons_self
      have hmove : decoder.next ⟨.kExpectHeaders, r⟩ (headerLine header ++ kCRLF
            ++ ((headers.map fun header => headerLine header ++ kCRLF).flatten ++ (kCRLF ++ rest)))
          = .take ((headerLine header).length + 2) ⟨.kExpectHeaders,
              { r with headers_ := r.headers_.insert header.1 (trim header.2) }⟩ := by
        refine (next_line hheader.2 _ _).trans ?_
        rw [nextLine]
        simp only [if_pos (headerLine_colon hheader.1).1, withHeader_headerLine hheader.1]
      rw [List.map_cons, List.flatten_cons, List.append_assoc, Decoder.decode_take hmove, drop_line,
        ih (fun header' hmem => h header' (List.mem_cons_of_mem _ hmem))]
      rfl

/-- A request is read back, and what follows it is left. -/
theorem decode_wireRequest (w : WireRequest) (rest : List UInt8) :
    decoder.decode {} (w.bytes ++ rest) = ⟨⟨.kGotAll, w.request⟩, rest, some .gotAll⟩ := by
  have hmove : decoder.next {} (requestLine w.token (w.path ++ w.query) w.version ++ kCRLF
        ++ ((w.headers.map fun header => headerLine header ++ kCRLF).flatten ++ (kCRLF ++ rest)))
      = .take ((requestLine w.token (w.path ++ w.query) w.version).length + 2)
          ⟨.kExpectHeaders, w.requestOfLine⟩ := by
    refine (next_line w.line_whole _ _).trans ?_
    rw [nextLine]
    simp only [readLine_requestLine, if_true]
  have hbytes : w.bytes ++ rest = requestLine w.token (w.path ++ w.query) w.version ++ kCRLF
      ++ ((w.headers.map fun header => headerLine header ++ kCRLF).flatten ++ (kCRLF ++ rest)) := by
    rw [WireRequest.bytes]
    simp only [List.append_assoc]
  rw [hbytes, Decoder.decode_take hmove, drop_line, decode_headers w.headers w.headers_plain]
  rfl

/-- There is no verdict before the last byte. -/
theorem decode_short {w : WireRequest} {xs : List UInt8} (hxs : xs <+: w.bytes)
    (hlen : xs.length < w.bytes.length) : (decoder.decode {} xs).verdict = none := by
  obtain ⟨ys, hys⟩ := hxs
  have hwhole := decode_wireRequest w []
  rw [List.append_nil, ← hys, Decoder.decode_append] at hwhole
  cases hv : (decoder.decode {} xs).verdict with
  | none => rfl
  | some v =>
      -- A verdict would leave the bytes behind `xs` unread.
      rw [Decoder.feed_some hv] at hwhole
      have hrest : (decoder.decode {} xs).rest ++ ys = [] := congrArg Parsed.rest hwhole
      have hnil : ys = [] := (List.append_eq_nil_iff.mp hrest).2
      rw [← hys, hnil, List.append_nil] at hlen
      omega

end HttpContext

end Muduo.Net
