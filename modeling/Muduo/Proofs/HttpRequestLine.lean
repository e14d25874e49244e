import Muduo.Net.HttpRequestLine
import Muduo.Proofs.HttpWire

/-!
# `Muduo.Proofs.HttpRequestLine`: the grammar of a request line

`IsRequestLine` is the grammar: a method that the server knows, a space, a
target without a space, a space, and `HTTP/1.0` or `HTTP/1.1`. The target
may be empty.

There are two steps. `processRequestLine_range` takes the code that works
with pointers to the one that works with the list of the bytes in the range:
as long as the range lies in the window, no read faults.
`readLine_accepts_iff` then says which lists are accepted. Every search in
the code splits the list at the first occurrence of a byte (`split_idxOf`),
and the splits put together are the grammar.
-/

set_option autoImplicit false

namespace Muduo.Net

open Muduo.Base
open Muduo.Lib
open Muduo.Net.HttpRequest

namespace HttpRequestLine

/-! ### From pointers to lists -/

section
variable {w : Window UInt8} {start stop : Nat}

theorem setMethod_range (h : w.Holds start stop) (r : HttpRequest) :
    setMethod w r start stop = (r.setMethod (w.range start stop)).mapError .context := by
  rw [setMethod, Window.string_eq h, mapError_ok, ok_bind]

theorem setPath_range (h : w.Holds start stop) (r : HttpRequest) :
    setPath w r start stop = .ok (r.setPath (w.range start stop)) := by
  rw [setPath, Window.string_eq h, mapError_ok, ok_bind, except_pure]

theorem setQuery_range (h : w.Holds start stop) (r : HttpRequest) :
    setQuery w r start stop = .ok (r.setQuery (w.range start stop)) := by
  rw [setQuery, Window.string_eq h, mapError_ok, ok_bind, except_pure]

/-- Where a search in a range stops: inside the range, or at its end when
the byte is not there. -/
theorem found_ne_stop (h : w.Holds start stop) (x : UInt8) :
    start + (w.range start stop).idxOf x ≠ stop ↔
      (w.range start stop).idxOf x ≠ (w.range start stop).length := by
  have hle := h.2.1
  rw [h.length_range]
  omega

theorem found_le (h : w.Holds start stop) (x : UInt8) :
    start + (w.range start stop).idxOf x ≤ stop := by
  have hle := h.2.1
  have hidx : (w.range start stop).idxOf x ≤ (w.range start stop).length := List.idxOf_le_length
  rw [h.length_range] at hidx
  omega

/-- The target is cut at its first question mark. -/
theorem processPath_range (h : w.Holds start stop) (r : HttpRequest) :
    processPath w r start stop =
      .ok (if (w.range start stop).idxOf 63 ≠ (w.range start stop).length then
          (r.setPath ((w.range start stop).take ((w.range start stop).idxOf 63))).setQuery
            ((w.range start stop).drop ((w.range start stop).idxOf 63))
        else r.setPath (w.range start stop)) := by
  have hle := found_le h 63
  have hpath := h.shrink (Nat.le_refl start) (Nat.le_add_right start _) hle
  have hquery := h.shrink (Nat.le_add_right start _) hle (Nat.le_refl stop)
  rw [processPath, Window.find_eq h, mapError_ok, ok_bind, Window.take_range hle, Window.drop_range]
  by_cases hmark : start + (w.range start stop).idxOf 63 ≠ stop
  · rw [if_pos hmark, if_pos ((found_ne_stop h 63).mp hmark), setPath_range hpath, ok_bind,
      setQuery_range hquery]
  · rw [if_neg hmark, if_neg (mt (found_ne_stop h 63).mpr hmark), setPath_range h]

/-- The end of the line is compared with the two versions. -/
theorem processVersion_range (h : w.Holds start stop) (r : HttpRequest) :
    processVersion w r start stop =
      .ok (if (w.range start stop).length = 8 ∧
            (w.range start stop).take 7 = ascii ['H', 'T', 'T', 'P', '/', '1', '.'] then
          if (w.range start stop)[7]? = some 49 then (true, r.setVersion .kHttp11)
          else if (w.range start stop)[7]? = some 48 then (true, r.setVersion .kHttp10)
          else (false, r)
        else (false, r)) := by
  have hlen := h.length_range
  rw [processVersion]
  by_cases height : stop - start = 8
  · -- Seven bytes of text, and the digit in front of `end`.
    have hstop : stop - 1 = start + 7 := by omega
    have htext : w.Holds start (start + 7) := h.shrink (Nat.le_refl _) (by omega) (by omega)
    have hlast : w.Holds (start + 7) (start + 8) := h.shrink (by omega) (by omega) (by omega)
    obtain ⟨digit, hread, hrange⟩ := hlast.read_eq (by omega)
    have hdigit : (w.range start stop)[7]? = some digit := by
      have hend : stop = start + 8 := by omega
      rw [hend, ← List.head?_drop, Window.drop_range, hrange, List.head?_cons]
    rw [if_pos height, hstop, Window.equal_eq htext rfl, mapError_ok, ok_bind,
      Window.take_range (by omega), hlen, height, hread, mapError_ok, ok_bind, hdigit]
    simp only [Option.some.injEq, true_and, decide_eq_true_eq, except_pure]
    split_ifs <;> rfl
  · rw [if_neg height, if_neg (fun hboth => height (hlen ▸ hboth.1)), except_pure]

theorem processTarget_range (h : w.Holds start stop) (r : HttpRequest) :
    processTarget w r start stop = .ok (HttpContext.processTarget r (w.range start stop)) := by
  have hle := found_le h 32
  have hpath := h.shrink (Nat.le_refl start) (Nat.le_add_right start _) hle
  rw [processTarget, HttpContext.processTarget, Window.find_eq h, mapError_ok, ok_bind]
  by_cases hspace : start + (w.range start stop).idxOf 32 ≠ stop
  · have hversion : w.Holds (start + (w.range start stop).idxOf 32 + 1) stop :=
      h.shrink (by omega) (by omega) (Nat.le_refl stop)
    have hlen : (w.range start (start + (w.range start stop).idxOf 32)).length
        = (w.range start stop).idxOf 32 := by
      rw [hpath.length_range, Nat.add_sub_cancel_left]
    have hdrop : (w.range start stop).drop ((w.range start stop).idxOf 32 + 1)
        = w.range (start + (w.range start stop).idxOf 32 + 1) stop := Window.drop_range _ _ _ _
    rw [if_pos hspace, if_pos ((found_ne_stop h 32).mp hspace), processPath_range hpath, ok_bind,
      processVersion_range hversion, Window.take_range hle, hlen]
    simp only [hdrop]
  · rw [if_neg hspace, if_neg (mt (found_ne_stop h 32).mpr hspace), except_pure]

/-- The code on pointers is the code on the list of the bytes, and it reads
nothing outside the window. -/
theorem processRequestLine_range (h : w.Holds start stop) (c : HttpContext) :
    processRequestLine w c start stop
      = (c.processRequestLine (w.range start stop)).mapError .context := by
  have hle := found_le h 32
  have hmethod := h.shrink (Nat.le_refl start) (Nat.le_add_right start _) hle
  rw [processRequestLine, HttpContext.processRequestLine, Window.find_eq h, mapError_ok, ok_bind]
  by_cases hspace : start + (w.range start stop).idxOf 32 ≠ stop
  · have hrest : w.Holds (start + (w.range start stop).idxOf 32 + 1) stop :=
      h.shrink (by omega) (by omega) (Nat.le_refl stop)
    have hdrop : (w.range start stop).drop ((w.range start stop).idxOf 32 + 1)
        = w.range (start + (w.range start stop).idxOf 32 + 1) stop := Window.drop_range _ _ _ _
    rw [if_pos hspace, if_pos ((found_ne_stop h 32).mp hspace), setMethod_range hmethod,
      Window.take_range hle, hdrop]
    -- Only the `assert` of `setMethod` can fail, and both sides pass it on.
    cases hset : c.request_.setMethod
        (w.range start (start + (w.range start stop).idxOf 32)) with
    | error e => rfl
    | ok answer =>
        rw [mapError_ok, ok_bind, ok_bind]
        by_cases hvalid : answer.1 = true
        · simp only [hvalid, if_true, processTarget_range hrest, ok_bind, except_pure, mapError_ok]
        · simp only [hvalid, Bool.false_eq_true, if_false, except_pure, mapError_ok]
  · rw [if_neg hspace, if_neg (mt (found_ne_stop h 32).mpr hspace)]
    rfl

end

/-! ### The grammar -/

/-- `line` is `M SP T SP V`, with a method and a version that the server knows. -/
structure IsRequestLine (line : List UInt8) (method : Method) (target : List UInt8)
    (version : Version) : Prop where
  method_known : method ≠ .kInvalid
  target_plain : 32 ∉ target
  version_known : version ≠ .kUnknown
  line_eq : line = HttpContext.requestLine (methodString { method_ := method }) target version

theorem methodOf_methodString {method : Method} (h : method ≠ .kInvalid) :
    methodOf (methodString { method_ := method }) = method := by
  cases method with
  | kInvalid => exact absurd rfl h
  | kGet => rfl
  | kPost => rfl
  | kHead => rfl
  | kPut => rfl
  | kDelete => rfl

/-- A token that names a method is the text of the method. -/
theorem methodString_methodOf {token : List UInt8} (h : methodOf token ≠ .kInvalid) :
    methodString { method_ := methodOf token } = token := by
  simp only [methodOf] at h ⊢
  split_ifs at h ⊢ with h₁ h₂ h₃ h₄ h₅
  · exact h₁.symm
  · exact h₂.symm
  · exact h₃.symm
  · exact h₄.symm
  · exact h₅.symm
  · exact absurd rfl h

/-- A list is cut at the first occurrence of an element. -/
theorem split_idxOf {x : UInt8} {xs : List UInt8} (h : xs.idxOf x ≠ xs.length) :
    xs = xs.take (xs.idxOf x) ++ x :: xs.drop (xs.idxOf x + 1) ∧ x ∉ xs.take (xs.idxOf x) := by
  induction xs with
  | nil => exact absurd rfl h
  | cons y xs ih =>
      by_cases hy : y = x
      · rw [hy, List.idxOf_cons_self]
        exact ⟨rfl, List.not_mem_nil⟩
      · rw [List.idxOf_cons_ne _ hy] at h ⊢
        obtain ⟨hsplit, hnew⟩ := ih (fun hend => h (congrArg Nat.succ hend))
        constructor
        · rw [List.take_succ_cons, List.drop_succ_cons, List.cons_append, ← hsplit]
        · rw [List.take_succ_cons, List.mem_cons]
          exact not_or.mpr ⟨Ne.symm hy, hnew⟩

/-- A target is a path and what follows from its first question mark on. -/
theorem target_parts (target : List UInt8) :
    ∃ path query, target = path ++ query ∧ 63 ∉ path ∧
      (query = [] ∨ ∃ rest, query = 63 :: rest) := by
  by_cases hmark : target.idxOf 63 ≠ target.length
  · obtain ⟨hsplit, hpath⟩ := split_idxOf hmark
    exact ⟨_, _, hsplit, hpath, .inr ⟨_, rfl⟩⟩
  · have hnone : 63 ∉ target := fun hmem =>
      hmark (Nat.ne_of_lt (List.idxOf_lt_length_of_mem hmem))
    exact ⟨target, [], (List.append_nil target).symm, hnone, .inl rfl⟩

/-- Eight bytes that begin with the text of the version are the text and the last byte. -/
theorem version_of_checks {bytes : List UInt8} {digit : UInt8} (hlen : bytes.length = 8)
    (htext : bytes.take 7 = ascii ['H', 'T', 'T', 'P', '/', '1', '.'])
    (hdigit : bytes[7]? = some digit) :
    bytes = ascii ['H', 'T', 'T', 'P', '/', '1', '.'] ++ [digit] := by
  obtain ⟨hlt, hget⟩ := List.getElem?_eq_some_iff.mp hdigit
  have hlast : bytes.drop 7 = [digit] := by
    rw [List.drop_eq_getElem_cons hlt, hget, List.drop_of_length_le (by omega)]
  rw [← htext, ← hlast, List.take_append_drop]

/-- Bytes that pass the checks of the version are one of the two texts. -/
theorem version_accepts {bytes : List UInt8} {r : HttpRequest}
    (h : (if bytes.length = 8 ∧ bytes.take 7 = ascii ['H', 'T', 'T', 'P', '/', '1', '.'] then
        if bytes[7]? = some 49 then (true, r.setVersion .kHttp11)
        else if bytes[7]? = some 48 then (true, r.setVersion .kHttp10)
        else (false, r)
      else (false, r)).1 = true) :
    ∃ version, version ≠ .kUnknown ∧ bytes = Version.text version := by
  split_ifs at h with hchecks hone hzero
  · exact ⟨.kHttp11, by decide, version_of_checks hchecks.1 hchecks.2 hone⟩
  · exact ⟨.kHttp10, by decide, version_of_checks hchecks.1 hchecks.2 hzero⟩

theorem processTarget_accepts {r : HttpRequest} {rest : List UInt8}
    (h : (HttpContext.processTarget r rest).1 = true) :
    ∃ target version, 32 ∉ target ∧ version ≠ .kUnknown ∧
      rest = target ++ 32 :: Version.text version := by
  rw [HttpContext.processTarget] at h
  by_cases hspace : rest.idxOf 32 ≠ rest.length
  · rw [if_pos hspace] at h
    obtain ⟨hsplit, hplain⟩ := split_idxOf hspace
    obtain ⟨version, hknown, htext⟩ := version_accepts h
    rw [htext] at hsplit
    exact ⟨_, version, hplain, hknown, hsplit⟩
  · rw [if_neg hspace] at h
    exact absurd h Bool.false_ne_true

/-- A line that is accepted is in the grammar. -/
theorem isRequestLine_of_accepts {line : List UInt8} (h : (HttpContext.readLine {} line).1 = true) :
    ∃ method target version, IsRequestLine line method target version := by
  simp only [HttpContext.readLine] at h
  split_ifs at h with hspace hmethod
  -- The first space ends the method, and what follows it is the target and the version.
  obtain ⟨hsplit, -⟩ := split_idxOf hspace
  obtain ⟨target, version, hplain, hknown, hrest⟩ := processTarget_accepts h
  rw [hrest] at hsplit
  refine ⟨_, target, version, hmethod, hplain, hknown, ?_⟩
  rw [methodString_methodOf hmethod]
  exact hsplit

/-- What a line in the grammar leaves in a new request. -/
theorem IsRequestLine.readLine {line target : List UInt8} {method : Method} {version : Version}
    (h : IsRequestLine line method target version) :
    ∃ path query, target = path ++ query ∧ 63 ∉ path ∧ (query = [] ∨ ∃ rest, query = 63 :: rest) ∧
      HttpContext.readLine {} line
        = (true, { method_ := method, version_ := version, path_ := path, query_ := query }) := by
  obtain ⟨path, query, hsplit, hpath, hmark⟩ := target_parts target
  have hplain := h.target_plain
  rw [hsplit, List.mem_append, not_or] at hplain
  have hmethod := methodOf_methodString h.method_known
  have htoken : HttpRequest.methodOf (methodString { method_ := method }) ≠ .kInvalid := by
    rw [hmethod]
    exact h.method_known
  have hread := HttpContext.readLine_parts htoken ⟨hplain.1, hpath⟩ hplain.2 hmark h.version_known
  refine ⟨path, query, hsplit, hpath, hmark, ?_⟩
  rw [h.line_eq, hsplit, hread, hmethod]

theorem readLine_accepts_iff (line : List UInt8) :
    (HttpContext.readLine {} line).1 = true ↔
      ∃ method target version, IsRequestLine line method target version := by
  constructor
  · exact isRequestLine_of_accepts
  · rintro ⟨method, target, version, h⟩
    obtain ⟨path, query, -, -, -, hread⟩ := h.readLine
    rw [hread]

/-! ### The line in its surroundings -/

theorem holds_window (before line after : List UInt8) :
    (window before line after).Holds before.length (before.length + line.length) :=
  ⟨Nat.le_refl _, Nat.le_add_right _ _, Nat.le_refl _⟩

theorem range_window (before line after : List UInt8) :
    (window before line after).range before.length (before.length + line.length) = line := by
  have hmem : (window before line after).mem = before ++ (line ++ after) := List.append_assoc _ _ _
  rw [Window.range, hmem, slice, Nat.add_sub_cancel_left, List.drop_left, List.take_left]

/-- With a fresh request, `processRequestLine` accepts exactly the lines of
the grammar. Of an accepted line it keeps the method, the version and the
target, which it cuts at the first question mark. It reads no byte outside
the line, whatever stands before and behind it. -/
theorem requestLine_grammar (before line after : List UInt8) :
    ∃ succeed c,
      processRequestLine (window before line after) {} before.length (before.length + line.length)
        = .ok (succeed, c) ∧
      (succeed = true ↔ ∃ method target version, IsRequestLine line method target version) ∧
      ∀ method target version, IsRequestLine line method target version →
        c.request_.method_ = method ∧ c.request_.version_ = version ∧
        c.request_.path_ ++ c.request_.query_ = target ∧ 63 ∉ c.request_.path_ ∧
        (c.request_.query_ = [] ∨ ∃ rest, c.request_.query_ = 63 :: rest) := by
  have hcall := processRequestLine_range (holds_window before line after) {}
  rw [range_window, HttpContext.processRequestLine_eq rfl, mapError_ok] at hcall
  refine ⟨_, _, hcall, readLine_accepts_iff line, ?_⟩
  intro method target version h
  obtain ⟨path, query, hsplit, hpath, hmark, hread⟩ := h.readLine
  rw [hread]
  exact ⟨rfl, rfl, hsplit.symm, hpath, hmark⟩

end HttpRequestLine

end Muduo.Net
