import Muduo.Lib.OrderedMap
import Muduo.Lib.Segments
import Muduo.Net.Inspector

/-!
# `Muduo.Proofs.Inspector`: which command a path reaches

`split` finds the parts of a path between the `'/'` (`split_eq`): its loop
goes from one `'/'` to the next, and what is still to be found are the
segments of the rest (`Between`). `split_segments` says what these parts are,
for every string.

So a request runs the command of its first two parts, when there is one, with
the other parts for arguments (`onRequest_command`). It is the one whose name
and module stand in `commandPath`, and no other command runs
(`onRequest_called`). No part is empty or holds a `'/'`, so a command with
such a name is never reached, although `add` takes it and the list at `/`
shows it.

The list is kept beside the commands, in a second table. After any calls of
`add` and `remove` both tables hold what the last call for a command has
given it (`entry_after`). So the list at `/` and the answers follow the last
calls (`requests_follow_changes`).
-/

set_option autoImplicit false

namespace Muduo.Net.Inspector

open Muduo.Base
open Muduo.Lib

/-! ### `split` -/

section
variable {str part rest : List UInt8} {s : Splitting}

theorem lt_npos {n : Nat} (h : n ≤ maxSize) : n < npos := by
  have hmax := maxSize_add_maxSize_lt
  have hpos : 1 < maxSize := by decide
  rw [npos]
  omega

/-- `find` returns `npos` when there is none, and the first one otherwise. -/
theorem find_cases (str : List UInt8) (c : UInt8) (pos : Nat) :
    (find str c pos = npos ∧ c ∉ str.drop pos) ∨
      ∃ part rest, str.drop pos = part ++ c :: rest ∧ c ∉ part ∧ find str c pos = pos + part.length := by
  rw [find]
  by_cases hmem : c ∈ str.drop pos
  · obtain ⟨part, rest, hsplit, hpart⟩ := List.eq_append_cons_of_mem hmem
    have hidx : (str.drop pos).idxOf? c = some part.length := by
      rw [hsplit, List.idxOf?_eq_some_iff]
      refine ⟨by simp, by simp, ?_⟩
      intro j hj heq
      rw [List.getElem_append_left hj] at heq
      exact hpart (heq ▸ List.getElem_mem hj)
    rw [hidx]
    exact .inr ⟨part, rest, hsplit, hpart, rfl⟩
  · rw [List.idxOf?_eq_none_iff.mpr hmem]
    exact .inl ⟨rfl, hmem⟩

/-- Where the loop of `split` is: the parts that were found, and then those of
the rest, are the parts of the string. -/
structure Between (str : List UInt8) (s : Splitting) : Prop where
  start_le : s.start ≤ str.length
  pos_eq : s.pos = find str slash s.start
  result_eq : s.result ++ segments slash (str.drop s.start) = segments slash str

/-- A part is pushed unless it is empty. -/
theorem pushBefore_eq (hlen : str.length ≤ maxSize) (hsplit : str.drop s.start = part ++ slash :: rest)
    (hpart : slash ∉ part) (hpos : s.pos = s.start + part.length) (hlt : s.pos < str.length) :
    pushBefore str s = .ok (s.result ++ segments slash part) := by
  rw [pushBefore, hpos]
  by_cases hne : part = []
  · -- Two `'/'` next to each other, or one at the beginning.
    rw [hne, segments_nil, List.length_nil, Nat.add_zero, if_neg (Nat.lt_irrefl _), List.append_nil]
    rfl
  · have hlong := List.length_pos_iff.mpr hne
    have hmax := maxSize_add_maxSize_lt
    have hcount : subSize (s.start + part.length) s.start = part.length := by
      rw [subSize_eq (by omega) (by omega), Nat.add_sub_cancel_left]
    have hslice : slice str s.start part.length = part := by
      rw [slice, hsplit, List.take_left]
    rw [if_pos (by omega), hcount, substr, assertThat_pos (by omega), hslice,
      segments_of_free hne hpart]
    rfl

theorem pushRest_eq (hlen : str.length ≤ maxSize) (hle : s.start ≤ str.length)
    (hrest : slash ∉ str.drop s.start) :
    pushRest str s = .ok (s.result ++ segments slash (str.drop s.start)) := by
  rw [pushRest]
  by_cases hlt : s.start < str.length
  · have hne : str.drop s.start ≠ [] := by
      rw [Ne, List.drop_eq_nil_iff]
      omega
    -- `npos` for the number of bytes means all that are there.
    have hnpos := lt_npos hlen
    have hslice : slice str s.start npos = str.drop s.start := by
      rw [slice, List.take_of_length_le]
      rw [List.length_drop]
      omega
    rw [if_pos hlt, substr, assertThat_pos hle, hslice, segments_of_free hne hrest]
    rfl
  · rw [if_neg hlt, List.drop_eq_nil_iff.mpr (by omega), segments_nil, List.append_nil]
    rfl

/-- One round goes behind the next `'/'`, or there is none. -/
theorem splitRound_returns (hlen : str.length ≤ maxSize) (h : Between str s) :
    Returns (splitRound str s) (Next.Holds
      (fun s' => Between str s' ∧ str.length - s'.start < str.length - s.start)
      (fun s' => Between str s' ∧ slash ∉ str.drop s'.start)) := by
  rw [splitRound]
  obtain ⟨hfind, hnone⟩ | ⟨part, rest, hsplit, hpart, hfind⟩ := find_cases str slash s.start
  · rw [if_pos (h.pos_eq.trans hfind)]
    exact ⟨h, hnone⟩
  · have hpos := h.pos_eq.trans hfind
    have hcount := congrArg List.length hsplit
    rw [List.length_drop, List.length_append, List.length_cons] at hcount
    have hlt : s.pos < str.length := by
      have hstart := h.start_le
      omega
    have hnpos := lt_npos hlen
    have hmax := maxSize_add_maxSize_lt
    have hnext : addSize s.pos 1 = s.pos + 1 := addSize_eq (by omega)
    have hdrop : str.drop (s.pos + 1) = rest := by
      rw [hpos, Nat.add_assoc, ← List.drop_drop, hsplit, List.drop_append]
      simp
    have hless : str.length - (s.pos + 1) < str.length - s.start := by omega
    rw [if_neg (by omega), pushBefore_eq hlen hsplit hpart hpos hlt, ok_bind, hnext]
    refine ⟨⟨hlt, rfl, ?_⟩, hless⟩
    rw [hdrop, List.append_assoc, ← segments_append, ← hsplit]
    exact h.result_eq

end

/-- `split` returns the non-empty parts between the `'/'`. -/
theorem split_eq (str : StdString) : split str.bytes = .ok (segments slash str.bytes) := by
  have hloop : Returns (loop (splitRound str.bytes) .diverges (str.bytes.length + 2)
      ⟨[], 0, find str.bytes slash 0⟩)
      fun s => Between str.bytes s ∧ slash ∉ str.bytes.drop s.start := by
    refine loop_ends (μ := fun s => str.bytes.length - s.start)
      (fun s hs => splitRound_returns str.length_le hs) _ _ ⟨Nat.zero_le _, rfl, rfl⟩ ?_
    show str.bytes.length - 0 < _
    omega
  obtain ⟨s, hs, hbetween, hrest⟩ := hloop.exists_ok
  rw [split, hs, ok_bind, pushRest_eq str.length_le hbetween.start_le hrest, hbetween.result_eq]

/-- For every string the loop of `split` ends. What it returns stands in the
maximal ranges of the string without `'/'`, in order: the parts are not empty
and hold no `'/'`, and joined by single `'/'` they are the string with every
run of `'/'` made into one and without those at its ends. -/
theorem split_segments (str : StdString) :
    ∃ result ranges, split str.bytes = .ok result ∧
      Enumerates slash str.bytes ranges ∧ result = partsAt str.bytes ranges ∧
      (∀ part ∈ result, part ≠ [] ∧ slash ∉ part) ∧
      [slash].intercalate result = strip slash (squeeze slash str.bytes) := by
  obtain ⟨ranges, hranges, hparts⟩ := segments_enumerates slash str.bytes
  exact ⟨segments slash str.bytes, ranges, split_eq str, hranges, hparts, fun _ => mem_segments,
    intercalate_segments slash str.bytes⟩

/-! ### Requests -/

section
variable {favicon : StdString} {ins : Inspector} {req : HttpRequest} {resp resp' : HttpResponse}
  {module command : List UInt8} {args : ArgList}

/-- A part that a path can have. -/
def IsPart (part : List UInt8) : Prop := part ≠ [] ∧ slash ∉ part

/-- The path of a command and its arguments. -/
def commandPath (module command : List UInt8) (args : ArgList) : List UInt8 :=
  slash :: [slash].intercalate (module :: command :: args)

theorem segments_commandPath (h : ∀ part ∈ module :: command :: args, IsPart part) :
    segments slash (commandPath module command args) = module :: command :: args := by
  rw [commandPath, segments_cons, segments_intercalate h]

theorem commandPath_ne (h : ∀ part ∈ module :: command :: args, IsPart part) :
    commandPath module command args ≠ [slash] := by
  intro heq
  have hsegments := segments_commandPath h
  rw [heq, segments_cons, segments_nil] at hsegments
  cases hsegments

/-- A request for anything but the list goes by the parts of its path. -/
theorem onRequest_path (hroot : req.path_ ≠ [slash]) (hlen : req.path_.length ≤ maxSize) :
    onRequest favicon ins req resp =
      .ok ((ins.dispatch favicon req resp (segments slash req.path_)).1.getD (notFound resp),
        (ins.dispatch favicon req resp (segments slash req.path_)).2) := by
  rw [onRequest, if_neg hroot, split_eq ⟨req.path_, hlen⟩]
  rfl

/-- A request for a command runs it once, with the arguments of the path, and
is not answered when there is none. -/
theorem onRequest_command (h : ∀ part ∈ module :: command :: args, IsPart part)
    (hpath : req.path_ = commandPath module command args) (hlen : req.path_.length ≤ maxSize) :
    onRequest favicon ins req resp = .ok ((ins.lookup module command).elim (notFound resp, [])
      fun cb => (found resp textPlain (cb req.method_ args), [.call module command req.method_ args])) := by
  rw [onRequest_path (hpath ▸ commandPath_ne h) hlen, hpath, segments_commandPath h, dispatch]
  cases ins.lookup module command with
  | none => rfl
  | some cb => rfl

/-- When a command runs: the parts are its names and its arguments, and
nothing else runs. -/
theorem dispatch_called {parts : List (List UInt8)} {method : HttpRequest.Method}
    (h : .call module command method args ∈ (ins.dispatch favicon req resp parts).2) :
    parts = module :: command :: args ∧
      (ins.dispatch favicon req resp parts).2 = [.call module command req.method_ args] ∧
      ∃ cb, ins.lookup module command = some cb ∧ (ins.dispatch favicon req resp parts).1 =
        some (found resp textPlain (cb req.method_ args)) := by
  match parts with
  | [] =>
      rw [dispatch, List.mem_singleton] at h
      cases h
  | [first] =>
      rw [dispatch] at h
      split at h
      · cases h
      · rw [List.mem_singleton] at h
        cases h
  | first :: second :: others =>
      cases hlookup : ins.lookup first second with
      | none =>
          simp only [dispatch, hlookup] at h
          cases h
      | some cb =>
          simp only [dispatch, hlookup, List.mem_singleton] at h
          cases h
          exact ⟨rfl, by simp only [dispatch, hlookup], cb, hlookup, by simp only [dispatch, hlookup]⟩

/-- A command that runs is the one that the path names. It runs with the
method of the request and the rest of the path, alone, and its answer is the
response. -/
theorem onRequest_called {log : List Effect} {method : HttpRequest.Method}
    (hlen : req.path_.length ≤ maxSize)
    (h : onRequest favicon ins req resp = .ok (resp', log))
    (hcall : .call module command method args ∈ log) :
    split req.path_ = .ok (module :: command :: args) ∧
      log = [.call module command req.method_ args] ∧
      ∃ cb, ins.lookup module command = some cb ∧
        resp' = found resp textPlain (cb req.method_ args) := by
  by_cases hroot : req.path_ = [slash]
  · -- The list runs no command.
    rw [onRequest, if_pos hroot, except_bind_eq_ok] at h
    obtain ⟨page, -, hreturn⟩ := h
    cases hreturn
    cases hcall
  · rw [onRequest_path hroot hlen] at h
    cases h
    obtain ⟨hparts, hlog, cb, hlookup, hanswer⟩ := dispatch_called hcall
    refine ⟨hparts ▸ split_eq ⟨req.path_, hlen⟩, hlog, cb, hlookup, ?_⟩
    rw [hanswer, Option.getD_some]

theorem lookup_eq : ins.lookup module command = (entry ins.modules_ module command).join := by
  rw [lookup, entry]
  cases ins.modules_[module]? with
  | none => rfl
  | some commList => rfl

/-! ### The last call for a command -/

/-- The module and the command that a call names. -/
def Change.names : Change → List UInt8 × List UInt8
  | .add module command _ _ => (module, command)
  | .remove module command => (module, command)

/-- The function and the help that a call gives a command. -/
def Change.gives : Change → Option (Option Callback × List UInt8)
  | .add _ _ cb help => some (cb, help)
  | .remove _ _ => none

/-- What the last call that names a command gives it. -/
def current (changes : List Change) (module command : List UInt8) :
    Option (Option Callback × List UInt8) :=
  (changes.reverse.find? (·.names = (module, command))).bind Change.gives

theorem current_snoc (changes : List Change) (call : Change) (module command : List UInt8) :
    current (changes ++ [call]) module command =
      if call.names = (module, command) then call.gives else current changes module command := by
  rw [current, List.reverse_append, List.reverse_singleton, List.singleton_append, List.find?_cons]
  by_cases hnames : call.names = (module, command)
  · rw [decide_eq_true hnames, if_pos hnames]
    rfl
  · rw [decide_eq_false hnames, if_neg hnames]
    rfl

/-- The entries of the tables, where the function and the help of a command
are `x` before the call. -/
theorem entry_change {x : Option (Option Callback × List UInt8)}
    (hmodules : entry ins.modules_ module command = x.map Prod.fst)
    (hhelps : entry ins.helps_ module command = x.map Prod.snd) (call : Change) :
    let x' := if call.names = (module, command) then call.gives else x
    entry (ins.change call).modules_ module command = x'.map Prod.fst ∧
      entry (ins.change call).helps_ module command = x'.map Prod.snd := by
  cases call with
  | add m c cb help =>
      simp only [change, add, entry_set, Change.names, Prod.mk.injEq]
      split
      · exact ⟨rfl, rfl⟩
      · exact ⟨hmodules, hhelps⟩
  | remove m c =>
      simp only [change, remove, Change.names, Prod.mk.injEq]
      cases hm : ins.modules_[m]? with
      | some commList =>
          have hinner : commList = ins.modules_[m]?.getD ∅ := by rw [hm, Option.getD_some]
          simp only [hinner, entry_erase]
          split
          · exact ⟨rfl, rfl⟩
          · exact ⟨hmodules, hhelps⟩
      | none =>
          simp only
          split
          · -- A module that is unknown has no command to remove.
            next hnames =>
              rw [entry, ← hnames.1, hm] at hmodules
              have hnone : x = none := Option.map_eq_none_iff.mp hmodules.symm
              rw [hnone] at hhelps
              exact ⟨by rw [entry, ← hnames.1, hm]; rfl, hhelps⟩
          · exact ⟨hmodules, hhelps⟩

/-- The tables hold what the last calls have given. -/
theorem entry_after (changes : List Change) (module command : List UInt8) :
    entry (after changes).modules_ module command = (current changes module command).map Prod.fst ∧
      entry (after changes).helps_ module command = (current changes module command).map Prod.snd := by
  induction changes using List.reverseRecOn with
  | nil =>
      rw [after, List.foldl_nil, entry, entry, Std.ExtTreeMap.getElem?_empty,
        Std.ExtTreeMap.getElem?_empty]
      exact ⟨rfl, rfl⟩
  | append_singleton changes call ih =>
      have hafter : after (changes ++ [call]) = (after changes).change call := List.foldl_concat ..
      rw [hafter, current_snoc]
      exact entry_change ih.1 ih.2 call

theorem lookup_after (changes : List Change) (module command : List UInt8) :
    (after changes).lookup module command = (current changes module command).bind Prod.fst := by
  rw [lookup_eq, (entry_after changes module command).1]
  cases current changes module command with
  | none => rfl
  | some x => rfl

/-- The lines of the list: module, command and help. -/
def listing (ins : Inspector) : List (List UInt8 × List UInt8 × List UInt8) :=
  ins.helps_.toList.flatMap fun x => x.2.toList.map (x.1, ·)

theorem helpText_eq : ins.helpText = ins.listing.flatMap fun line => helpLine line.1 line.2 := by
  rw [helpText, listing, List.flatMap_assoc]
  simp only [List.flatMap_map]

theorem mem_listing {help : List UInt8} :
    (module, command, help) ∈ ins.listing ↔ entry ins.helps_ module command = some help := by
  simp only [listing, List.mem_flatMap, List.mem_map, entry, Option.bind_eq_some_iff,
    Prod.exists, Std.ExtTreeMap.mem_toList_iff_getElem?_eq_some]
  constructor
  · rintro ⟨m, list, hlist, c, h, hentry, heq⟩
    cases heq
    exact ⟨list, hlist, hentry⟩
  · rintro ⟨list, hlist, hentry⟩
    exact ⟨module, list, hlist, command, help, hentry, rfl⟩

/-- The order of the lines, by module and then by command. -/
def Before (x y : List UInt8 × List UInt8 × List UInt8) : Prop :=
  compare x.1 y.1 = .lt ∨ x.1 = y.1 ∧ compare x.2.1 y.2.1 = .lt

theorem listing_sorted (ins : Inspector) : ins.listing.Pairwise Before := by
  rw [listing, List.pairwise_flatMap]
  constructor
  · intro x _
    rw [List.pairwise_map]
    exact Std.ExtTreeMap.ordered_keys_toList.imp fun hlt => .inr ⟨rfl, hlt⟩
  · refine Std.ExtTreeMap.ordered_keys_toList.imp fun hlt x hx y hy => ?_
    obtain ⟨_, -, rfl⟩ := List.mem_map.mp hx
    obtain ⟨_, -, rfl⟩ := List.mem_map.mp hy
    exact .inl hlt

/-- Requests after any calls of `add` and `remove`. The list at `/` has one
line for each command that the last call has added, with the help of this
call, in the order of the names. A path with module and command runs the
function of this call once, with the rest of the path for arguments, and is
answered by 404 when there is none. No request runs anything else: what runs
is the one command that the parts of the path name, with the method of the
request and the other parts for arguments. -/
theorem requests_follow_changes (favicon : StdString) (changes : List Change) (req : HttpRequest)
    (resp : HttpResponse) (hlen : req.path_.length ≤ maxSize) :
    (req.path_ = [slash] → ∃ lines : List (List UInt8 × List UInt8 × List UInt8),
      (∀ module command help, (module, command, help) ∈ lines ↔
        (current changes module command).map Prod.snd = some help) ∧
      lines.Pairwise Before ∧
      onRequest favicon (after changes) req resp =
        (grown (lines.flatMap fun line => helpLine line.1 line.2)).map
          fun page => (found resp textPlain page, [])) ∧
    (∀ module command args, (∀ part ∈ module :: command :: args, IsPart part) →
      req.path_ = commandPath module command args →
      onRequest favicon (after changes) req resp =
        .ok (((current changes module command).bind Prod.fst).elim (notFound resp, []) fun cb =>
          (found resp textPlain (cb req.method_ args), [.call module command req.method_ args]))) ∧
    ∀ resp' log module command method args,
      onRequest favicon (after changes) req resp = .ok (resp', log) →
      .call module command method args ∈ log →
      split req.path_ = .ok (module :: command :: args) ∧
        log = [.call module command req.method_ args] ∧
        ∃ cb, (current changes module command).bind Prod.fst = some cb ∧
          resp' = found resp textPlain (cb req.method_ args) := by
  refine ⟨fun hroot => ⟨(after changes).listing, ?_, listing_sorted _, ?_⟩, ?_, ?_⟩
  · intro module command help
    rw [mem_listing, (entry_after changes module command).2]
  · rw [onRequest, if_pos hroot, helpText_eq]
    cases grown _ with
    | error f => rfl
    | ok page => rfl
  · intro module command args hparts hpath
    rw [onRequest_command hparts hpath hlen, lookup_after]
  · intro resp' log module command method args h hcall
    obtain ⟨hparts, hlog, cb, hlookup, hresp⟩ := onRequest_called hlen h hcall
    rw [lookup_after] at hlookup
    exact ⟨hparts, hlog, cb, hlookup, hresp⟩

/-- A command that was added, removed and added again. -/
theorem requests_follow_changes_again :
    let name := ascii ['p', 'i', 'd']
    let req : HttpRequest := { path_ := commandPath name name [] }
    onRequest textPlain (after [.add name name none [], .remove name name,
      .add name name (some fun _ _ => textPlain) name]) req (HttpResponse.ctor true)
      = .ok (found (HttpResponse.ctor true) textPlain textPlain, [.call name name req.method_ []]) := by
  intro name req
  refine (requests_follow_changes textPlain _ req (HttpResponse.ctor true) (by decide)).2.1
    name name [] ?_ rfl
  intro part hpart
  have heq : part = name := by simpa using hpart
  rw [heq, IsPart]
  decide

end

end Muduo.Net.Inspector
