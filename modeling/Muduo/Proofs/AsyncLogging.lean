import Mathlib.Data.List.Flatten
import Mathlib.Data.List.Nodup
import Mathlib.Data.List.TakeWhile
import Muduo.Base.AsyncLogging
import Muduo.Lib.Outcome

/-!
# `Muduo.Proofs.AsyncLogging`: no line is lost, and no buffer is used twice

`Inv` is what holds between any two steps of the two sides. Its parts:

* the pointers: `currentBuffer_` is there, `nextBuffer_` is empty and
  missing only while `buffers_` has something, and the spare buffers of the
  back end are as its `Point` needs them;
* the addresses: no buffer is held in two places;
* the bytes: what the cycles collected, with what waits in `buffers_` and
  `currentBuffer_`, is what was appended. What the `LogFile` has, with what
  the running cycle still has to write, is what `Cycle.written` says of the
  cycles.

The step from `nextBuffer_` to the spare buffers is the only one that is
not local. A cycle gives away its second spare buffer only when
`nextBuffer_` is missing. Then `buffers_` has something and the cycle
collects at least two buffers, enough to refill both spare ones.
-/

set_option autoImplicit false

namespace Muduo.Base.AsyncLogging

open Muduo.Lib

/-! ### What the state holds -/

/-- The bytes in the buffers of a vector. -/
def contents (v : BufferVector) : List UInt8 := v.flatMap content

/-- What the back end has collected and not yet counted. -/
def pending (s : AsyncLogging) : List UInt8 :=
  match s.back.point with
  | .collected => contents s.back.buffersToWrite
  | _ => []

/-- What the loop over `buffersToWrite` has still to write. -/
def rest (s : AsyncLogging) : List UInt8 :=
  match s.back.point with
  | .writing k => contents (s.back.buffersToWrite.drop k)
  | _ => []

/-- The buffers of `buffersToWrite` that are not written yet. -/
def unwritten (s : AsyncLogging) : List UInt8 := s.pending ++ s.rest

/-- The bytes in `buffers_` and `currentBuffer_`. -/
def frontEnd (s : AsyncLogging) : List UInt8 := contents s.buffers_ ++ content s.currentBuffer_

/-- All that a cycle collected. -/
def Cycle.bytes (c : Cycle) : List UInt8 := c.buffers.flatten

/-- What a cycle gives to the `LogFile`: everything, or one notice and the
first two buffers when there are more than 25. -/
def Cycle.written (c : Cycle) : List UInt8 :=
  if 25 < c.buffers.length then
    droppedNotice c.time c.buffers.length ++ (c.buffers.take 2).flatten
  else c.bytes

/-- What `Timestamp::toFormattedString` returns: a C string from an array of
64 bytes, without a line end. -/
def IsTimeText (time : List UInt8) : Prop := time.length < 64 ∧ 0 ∉ time ∧ 10 ∉ time

/-- The notice of a cycle that drops buffers, without its line end: the time
and the number of the buffers that are dropped. -/
def Cycle.notice (c : Cycle) : List UInt8 :=
  ascii "Dropped log messages at ".toList ++ c.time ++ ascii ", ".toList ++
    decimalText (c.buffers.length - 2 : Nat) ++ ascii " larger buffers".toList

/-- All that the back end has collected. -/
def taken (s : AsyncLogging) : List UInt8 := s.cycles.flatMap Cycle.bytes ++ s.pending

/-- The address behind a pointer. -/
def ids (ptr : BufferPtr) : List Nat := (ptr.map (·.id)).toList

/-- The addresses of all buffers, at every place that holds one. -/
def held (s : AsyncLogging) : List Nat :=
  ids s.currentBuffer_ ++ ids s.nextBuffer_ ++ s.buffers_.flatMap ids ++
    (ids s.back.newBuffer1 ++ ids s.back.newBuffer2 ++ s.back.buffersToWrite.flatMap ids)

/-! ### The invariant -/

/-- The locals before the thread has set them. -/
def Backend.Absent (b : Backend) : Prop :=
  b.newBuffer1 = none ∧ b.newBuffer2 = none ∧ b.buffersToWrite = []

/-- The locals up to the critical section: what the `assert`s at the head
of the loop test. -/
def Backend.Ready (b : Backend) : Prop :=
  isSpare b.newBuffer1 = true ∧ isSpare b.newBuffer2 = true ∧ b.buffersToWrite = []

/-- The locals behind the critical section. When both spare buffers are
gone there are two buffers to write. -/
structure Backend.Collected (b : Backend) : Prop where
  spare1 : b.newBuffer1 = none
  spare2 : content b.newBuffer2 = []
  some : none ∉ b.buffersToWrite
  nonempty : b.buffersToWrite ≠ []
  two : b.newBuffer2 = none → 2 ≤ b.buffersToWrite.length

/-- The locals, as the back end's position needs them. -/
def Backend.Spares (b : Backend) : Prop :=
  match b.point with
  | .created | .starting => b.Absent
  | .test | .lock | .waiting | .exited => b.Ready
  | .collected | .writing _ | .written => b.Collected

structure Inv (s : AsyncLogging) : Prop where
  current : s.currentBuffer_ ≠ none
  next_empty : content s.nextBuffer_ = []
  next_null : s.nextBuffer_ = none → s.buffers_ ≠ []
  full : none ∉ s.buffers_
  spares : s.back.Spares
  owned : ∀ a, (held s).count a ≤ if a < s.fresh then 1 else 0
  collected : s.taken ++ s.frontEnd = s.lines.flatten
  written : s.output ++ s.rest = s.cycles.flatMap Cycle.written

/-- A step that leaves `running_` as it is, collects nothing, and appends
the lines `new`. -/
structure Keeps (s s' : AsyncLogging) (new : List (List UInt8)) : Prop where
  running : s'.running_ = s.running_
  lines : s'.lines = s.lines ++ new
  taken : s'.taken = s.taken

/-! ### Small lemmas -/

@[simp] theorem contents_append (v w : BufferVector) :
    contents (v ++ w) = contents v ++ contents w := by
  simp [contents]

@[simp] theorem contents_cons (ptr : BufferPtr) (v : BufferVector) :
    contents (ptr :: v) = content ptr ++ contents v := by
  simp [contents]

@[simp] theorem contents_nil : contents [] = [] := rfl

theorem flatten_map_content (v : BufferVector) : (v.map content).flatten = contents v := by
  rw [contents, List.flatMap_def]

@[simp] theorem ids_none : ids none = [] := rfl

@[simp] theorem ids_append (b : Buffer) (logline : List UInt8) :
    ids (some (b.append logline)) = ids (some b) := rfl

@[simp] theorem ids_reset (b : Buffer) : ids (some b.reset) = ids (some b) := rfl

@[simp] theorem ids_newBuffer (id : Nat) : ids (some (newBuffer id)) = [id] := rfl

/-- A line that fits is behind the bytes of the buffer. -/
theorem content_append {b : Buffer} {logline : List UInt8}
    (h : logline.length < b.fixed.avail) :
    content (some (b.append logline)) = content (some b) ++ logline := by
  simp only [content, Buffer.append, FixedBuffer.append, dif_pos h]

/-- A line shorter than `kLargeBuffer` fits an empty buffer. -/
theorem content_append_empty {b : Buffer} {logline : List UInt8} (hb : b.fixed.data = [])
    (h : logline.length < kLargeBuffer) : content (some (b.append logline)) = logline := by
  rw [content_append, content, hb, List.nil_append]
  rw [FixedBuffer.avail, hb]
  exact h

theorem isSpare_iff {ptr : BufferPtr} :
    isSpare ptr = true ↔ ptr ≠ none ∧ content ptr = [] := by
  cases ptr with
  | none => simp [isSpare]
  | some b => simp [isSpare, content, FixedBuffer.length]

/-! ### The front end -/

variable {s : AsyncLogging}

theorem inv_init : Inv init where
  current := by simp [init]
  next_empty := rfl
  next_null h := by cases h
  full := List.not_mem_nil
  spares := ⟨rfl, rfl, rfl⟩
  owned a := by
    have hheld : held init = [0, 1] := rfl
    have hfresh : init.fresh = 2 := rfl
    rw [hheld, hfresh, List.count_cons, List.count_singleton]
    simp only [beq_iff_eq]
    split <;> split <;> split <;> omega
  collected := rfl
  written := rfl

/-- The full buffer goes to `buffers_`, and the line to an empty one. -/
theorem inv_exchange (h : Inv s) {b next : Buffer} {logline : List UInt8} {fresh : Nat}
    (hb : s.currentBuffer_ = some b) (hempty : next.fixed.data = [])
    (hlen : logline.length < kLargeBuffer)
    (howned : ∀ a, (ids s.currentBuffer_ ++ ids (some next) ++ s.buffers_.flatMap ids ++
      (ids s.back.newBuffer1 ++ ids s.back.newBuffer2 ++
        s.back.buffersToWrite.flatMap ids)).count a ≤ if a < fresh then 1 else 0) :
    Inv { s with
      currentBuffer_ := some (next.append logline), nextBuffer_ := none,
      buffers_ := s.buffers_ ++ [some b], fresh := fresh, lines := s.lines ++ [logline] } where
  current := Option.some_ne_none _
  next_empty := rfl
  next_null _ := by simp
  full := by
    simp only [List.mem_append, List.mem_singleton, not_or]
    exact ⟨h.full, by simp⟩
  spares := h.spares
  owned a := by
    refine Nat.le_trans (Nat.le_of_eq ?_) (howned a)
    simp only [held, hb, List.flatMap_append, List.flatMap_singleton, List.count_append, ids_none,
      List.count_nil, ids_append]
    omega
  collected := by
    have hbytes := h.collected
    simp only [frontEnd, hb] at hbytes
    simp only [frontEnd, content_append_empty hempty hlen, List.flatten_concat, ← hbytes]
    simp only [taken, pending, contents_append, contents_cons, contents_nil, List.append_nil,
      List.append_assoc]
  written := h.written

/-- A line is added behind all others, with a new buffer when the current one is full. -/
theorem append_spec (h : Inv s) {logline : List UInt8} (hlen : logline.length < kLargeBuffer) :
    Returns (s.append logline) fun s' => Inv s' ∧ Keeps s s' [logline] ∧ s'.back = s.back := by
  obtain ⟨b, hb⟩ := Option.ne_none_iff_exists'.mp h.current
  have howned := h.owned
  have hbytes := h.collected
  simp only [held, frontEnd, hb] at howned hbytes
  simp only [append, hb, deref, ok_bind]
  split
  · rename_i hfits
    refine Ends.ok ⟨?_, ⟨rfl, rfl, rfl⟩, rfl⟩
    exact
      { h with
        current := Option.some_ne_none _
        owned := howned
        collected := by
          simp only [frontEnd, content_append hfits, List.flatten_concat, ← hbytes]
          simp only [taken, pending, List.append_assoc] }
  · split
    · rename_i next hnext
      have hempty : next.fixed.data = [] := by
        have := h.next_empty
        rwa [hnext] at this
      refine Ends.ok ⟨inv_exchange h hb hempty hlen ?_, ⟨rfl, rfl, rfl⟩, rfl⟩
      have howned := h.owned
      rwa [held, hnext] at howned
    · rename_i hnext
      have hfresh : ∀ a, (ids s.currentBuffer_ ++ ids (some (newBuffer s.fresh)) ++
          s.buffers_.flatMap ids ++ (ids s.back.newBuffer1 ++ ids s.back.newBuffer2 ++
            s.back.buffersToWrite.flatMap ids)).count a ≤ if a < s.fresh + 1 then 1 else 0 := by
        intro a
        have hold := h.owned a
        simp only [held, hnext, List.count_append, ids_none, List.count_nil] at hold
        simp only [List.count_append, ids_newBuffer, List.count_singleton, beq_iff_eq]
        split at hold <;> split <;> split <;> omega
      have hinv := inv_exchange h hb rfl hlen hfresh
      rw [← hnext] at hinv
      exact Ends.ok ⟨hinv, ⟨rfl, rfl, rfl⟩, rfl⟩

/-! ### The back end -/

theorem enter_spec (h : Inv s) (hpoint : s.back.point = .starting) (hrunning : s.running_ = true) :
    Returns s.enter fun s' => Inv s' ∧ Keeps s s' [] ∧ s'.back.point = .test := by
  have hspares : s.back.Absent := by
    have := h.spares
    rwa [Backend.Spares, hpoint] at this
  obtain ⟨h1, h2, hwrite⟩ := hspares
  simp only [enter, assertThat_pos hrunning, ok_bind]
  have hcollected := h.collected
  have hwritten := h.written
  simp only [taken, pending, rest, hpoint] at hcollected hwritten
  refine Ends.ok ⟨?_, ⟨rfl, (List.append_nil _).symm, ?_⟩, rfl⟩
  swap
  · simp only [taken, pending, hpoint]
  exact
    { h with
      spares := ⟨rfl, rfl, rfl⟩
      owned := by
        intro a
        have hold := h.owned a
        simp only [held, h1, h2, hwrite, List.count_append, ids_none, List.count_nil,
          List.flatMap_nil] at hold
        simp only [held, List.count_append, ids_newBuffer, List.count_singleton, beq_iff_eq,
          List.flatMap_nil, List.count_nil]
        split at hold <;> split <;> split <;> split <;> omega
      collected := hcollected
      written := hwritten }

/-- A move of the back end inside a part of the code that `Spares`,
`pending` and `rest` do not tell apart. -/
theorem inv_setPoint (h : Inv s) {point : Point}
    (hspares : (s.setPoint point).back.Spares) (hpending : (s.setPoint point).pending = s.pending)
    (hrest : (s.setPoint point).rest = s.rest) : Inv (s.setPoint point) :=
  { h with
    spares := hspares
    owned := h.owned
    collected := by
      rw [taken, hpending]
      exact h.collected
    written := by
      rw [hrest]
      exact h.written }

theorem keeps_setPoint {point : Point} (hpending : (s.setPoint point).pending = s.pending) :
    Keeps s (s.setPoint point) [] where
  running := rfl
  lines := (List.append_nil _).symm
  taken := by
    rw [taken, hpending]
    rfl

/-- The loop goes on while `running_` is set. -/
theorem test_spec (h : Inv s) (hpoint : s.back.point = .test) :
    Returns s.test fun s' => Inv s' ∧ Keeps s s' [] ∧
      s'.back.point = if s.running_ then .lock else .exited := by
  have hspares : s.back.Ready := by
    have := h.spares
    rwa [Backend.Spares, hpoint] at this
  obtain ⟨h1, h2, hwrite⟩ := hspares
  have hmove : ∀ point, point = .lock ∨ point = .exited →
      Inv (s.setPoint point) ∧ Keeps s (s.setPoint point) [] := by
    intro point hor
    have hpending : (s.setPoint point).pending = s.pending := by
      rcases hor with rfl | rfl <;> simp only [pending, setPoint, hpoint]
    refine ⟨inv_setPoint h ?_ hpending ?_, keeps_setPoint hpending⟩
    · rcases hor with rfl | rfl <;> exact ⟨h1, h2, hwrite⟩
    · rcases hor with rfl | rfl <;> simp only [rest, setPoint, hpoint]
  rw [test]
  by_cases hrunning : s.running_ = true
  · simp only [hrunning, if_true, assertThat_pos h1, assertThat_pos h2, assertThat_pos hwrite,
      ok_bind]
    obtain ⟨hinv, hkeeps⟩ := hmove .lock (Or.inl rfl)
    exact Ends.ok ⟨hinv, hkeeps, rfl⟩
  · rw [if_neg hrunning, if_neg hrunning]
    obtain ⟨hinv, hkeeps⟩ := hmove .exited (Or.inr rfl)
    exact Ends.ok ⟨hinv, hkeeps, rfl⟩

/-- The critical section leaves nothing in the front end. -/
theorem collect_spec (h : Inv s) (hpoint : s.back.point = .lock ∨ s.back.point = .waiting) :
    Inv s.collect ∧ s.collect.taken = s.lines.flatten := by
  have hspares : s.back.Ready := by
    have := h.spares
    rcases hpoint with hp | hp <;> rwa [Backend.Spares, hp] at this
  obtain ⟨h1, h2, hwrite⟩ := hspares
  rw [isSpare_iff] at h1 h2
  have hpending : s.pending = [] := by
    rcases hpoint with hp | hp <;> simp only [pending, hp]
  have hrest : s.rest = [] := by
    rcases hpoint with hp | hp <;> simp only [rest, hp]
  have htaken : s.collect.taken = s.lines.flatten := by
    have hbytes := h.collected
    simp only [taken, hpending, List.append_nil, frontEnd] at hbytes
    simp only [taken, pending, collect, contents_append, contents_cons, contents_nil,
      List.append_nil, hbytes]
  refine ⟨?_, htaken⟩
  exact
    { current := h1.1
      next_empty := by
        simp only [collect]
        split
        · exact h2.2
        · exact h.next_empty
      next_null := by
        simp only [collect]
        split
        · intro hnull
          exact absurd hnull h2.1
        · intro hnull
          contradiction
      full := by
        simp only [collect, hwrite]
        exact List.not_mem_nil
      spares :=
        { spare1 := rfl
          spare2 := by
            simp only [collect]
            split
            · rfl
            · exact h2.2
          some := by
            simp only [collect, List.mem_append, List.mem_singleton, not_or]
            exact ⟨h.full, h.current.symm⟩
          nonempty := by simp [collect]
          two := by
            simp only [collect, List.length_append, List.length_singleton]
            split
            · -- `nextBuffer_` is missing, so `buffers_` has something.
              rename_i hnext
              have := List.length_pos_iff.mpr (h.next_null hnext)
              omega
            · intro hnull
              exact absurd hnull h2.1 }
      owned := by
        intro a
        -- The swap moves buffers between the two sides and neither makes nor drops one.
        refine Nat.le_trans (Nat.le_of_eq ?_) (h.owned a)
        simp only [held, collect, hwrite, List.flatMap_append, List.flatMap_singleton,
          List.flatMap_nil, List.count_append, ids_none, List.count_nil]
        split
        · rename_i hnext
          simp only [hnext, ids_none, List.count_nil]
          omega
        · omega
      collected := by
        rw [htaken]
        simp only [frontEnd, collect, hwrite, contents_nil, h1.2, List.append_nil]
      written := by
        have hwritten := h.written
        rw [hrest] at hwritten
        exact hwritten }

/-- A cycle with too many buffers writes the notice and the first two. -/
theorem written_of_many {v : BufferVector} {time : List UInt8} (h : 25 < v.length) :
    Cycle.written ⟨v.map content, time⟩ =
      droppedNotice time v.length ++ contents (v.take 2) := by
  simp only [Cycle.written, List.length_map, if_pos h, ← List.map_take, flatten_map_content]

/-- Any other cycle writes all of them. -/
theorem written_of_few {v : BufferVector} {time : List UInt8} (h : ¬ 25 < v.length) :
    Cycle.written ⟨v.map content, time⟩ = contents v := by
  simp only [Cycle.written, List.length_map, if_neg h, Cycle.bytes, flatten_map_content]

/-- The cycle is recorded, and the buffers `v` are kept to be written. -/
theorem inv_prepared (h : Inv s) (hpoint : s.back.point = .collected) {time out : List UInt8}
    {v : BufferVector} (hsub : v.Sublist s.back.buffersToWrite) (hne : v ≠ [])
    (htwo : s.back.newBuffer2 = none → 2 ≤ v.length)
    (hout : out ++ contents v =
      s.output ++ Cycle.written ⟨s.back.buffersToWrite.map content, time⟩) :
    Ends (.ok { s with
      cycles := s.cycles ++ [⟨s.back.buffersToWrite.map content, time⟩], output := out,
      back := { s.back with point := .writing 0, buffersToWrite := v } } : Except Fault AsyncLogging)
      (fun _ => False) fun s' => Inv s' ∧ Keeps s s' [] ∧ s'.back.point = .writing 0 := by
  have hspares : s.back.Collected := by
    have := h.spares
    rwa [Backend.Spares, hpoint] at this
  have htaken : s.taken = (s.cycles ++
      [(⟨s.back.buffersToWrite.map content, time⟩ : Cycle)]).flatMap Cycle.bytes := by
    simp only [taken, pending, hpoint, List.flatMap_append, List.flatMap_singleton, Cycle.bytes,
      flatten_map_content]
  have hcollected := h.collected
  have hwritten := h.written
  rw [htaken] at hcollected
  simp only [rest, hpoint, List.append_nil] at hwritten
  refine Ends.ok ⟨?_, ⟨rfl, (List.append_nil _).symm, ?_⟩, rfl⟩
  · exact
      { h with
        spares :=
          ⟨hspares.spare1, hspares.spare2, fun hmem => hspares.some (hsub.subset hmem), hne, htwo⟩
        owned := by
          intro a
          refine Nat.le_trans ?_ (h.owned a)
          have hle := (hsub.flatMap ids).count_le a
          simp only [held, List.count_append]
          omega
        collected := by
          simp only [taken, pending, List.append_nil]
          exact hcollected
        written := by
          simp only [rest, List.drop_zero, List.flatMap_append, List.flatMap_singleton, hout,
            hwritten] }
  · simp only [taken, pending, List.append_nil] at htaken ⊢
    exact htaken.symm

/-- A cycle with too many buffers keeps two of them. -/
theorem prepare_spec (h : Inv s) (hpoint : s.back.point = .collected) (time : List UInt8) :
    Returns (s.prepare time) fun s' => Inv s' ∧ Keeps s s' [] ∧ s'.back.point = .writing 0 := by
  have hspares : s.back.Collected := by
    have := h.spares
    rwa [Backend.Spares, hpoint] at this
  simp only [prepare, assertThat_pos hspares.nonempty, ok_bind]
  split
  · rename_i hmany
    refine inv_prepared h hpoint (List.take_sublist 2 _) ?_ ?_ ?_
    · simp only [ne_eq, List.take_eq_nil_iff, not_or]
      exact ⟨by decide, hspares.nonempty⟩
    · intro _
      rw [List.length_take]
      omega
    · rw [written_of_many hmany, List.append_assoc]
  · rename_i hfew
    refine inv_prepared h hpoint (List.Sublist.refl _) hspares.nonempty hspares.two ?_
    rw [written_of_few hfew]

/-- One round of the loop, or its end. -/
theorem write_spec (h : Inv s) {k : Nat} (hpoint : s.back.point = .writing k) :
    Returns (s.write k) fun s' => Inv s' ∧ Keeps s s' [] ∧
      s'.back.buffersToWrite = s.back.buffersToWrite ∧
      s'.back.point = if k < s.back.buffersToWrite.length then .writing (k + 1) else .written := by
  have hspares : s.back.Collected := by
    have := h.spares
    rwa [Backend.Spares, hpoint] at this
  have hcollected := h.collected
  have hwritten := h.written
  simp only [taken, pending, rest, hpoint] at hcollected hwritten
  have htaken : s.taken = s.cycles.flatMap Cycle.bytes ++ [] := by
    simp only [taken, pending, hpoint]
  rw [write]
  split
  · rename_i ptr hptr
    obtain ⟨hlt, hget⟩ := List.getElem?_eq_some_iff.mp hptr
    have hmem : ptr ∈ s.back.buffersToWrite := List.mem_of_getElem? hptr
    cases ptr with
    | none => exact absurd hmem hspares.some
    | some b =>
        simp only [deref, ok_bind]
        refine Ends.ok ⟨?_, ⟨rfl, (List.append_nil _).symm, htaken.symm⟩, rfl, (if_pos hlt).symm⟩
        have hdrop : s.back.buffersToWrite.drop k =
            some b :: s.back.buffersToWrite.drop (k + 1) := by
          rw [← hget]
          exact List.drop_eq_getElem_cons hlt
        exact
          { h with
            spares :=
              ⟨hspares.spare1, hspares.spare2, hspares.some, hspares.nonempty, hspares.two⟩
            owned := h.owned
            collected := hcollected
            written := by
              rw [hdrop, contents_cons] at hwritten
              simp only [rest, setPoint, List.append_assoc]
              exact hwritten }
  · rename_i hnone
    have hle : s.back.buffersToWrite.length ≤ k := List.getElem?_eq_none_iff.mp hnone
    refine Ends.ok ⟨?_, ⟨rfl, (List.append_nil _).symm, htaken.symm⟩, rfl,
      (if_neg (Nat.not_lt.mpr hle)).symm⟩
    exact
      { h with
        spares :=
          ⟨hspares.spare1, hspares.spare2, hspares.some, hspares.nonempty, hspares.two⟩
        owned := h.owned
        collected := hcollected
        written := by
          rw [List.drop_of_length_le hle, contents_nil] at hwritten
          exact hwritten }

/-- A missing spare buffer comes back from the end of the vector. -/
theorem refill_spec {ptr : BufferPtr} {v : BufferVector} (fault : Fault)
    (hempty : content ptr = []) (hsome : none ∉ v) (hne : ptr = none → v ≠ []) :
    Returns (refill ptr v fault) fun r =>
      isSpare r.1 = true ∧ none ∉ r.2 ∧ v.length ≤ r.2.length + 1 ∧
        ∀ a, (ids r.1 ++ r.2.flatMap ids).count a = (ids ptr ++ v.flatMap ids).count a := by
  cases ptr with
  | some b =>
      refine Ends.ok ⟨?_, hsome, Nat.le_succ _, fun _ => rfl⟩
      rw [isSpare_iff]
      exact ⟨by simp, hempty⟩
  | none =>
      obtain ⟨v', last, rfl⟩ := (List.eq_nil_or_concat' v).resolve_left (hne rfl)
      have hv' : none ∉ v' := fun hmem => hsome (List.mem_append_left _ hmem)
      cases last with
      | none => exact absurd (List.mem_append_right _ List.mem_cons_self) hsome
      | some b =>
          simp only [refill, assertThat_pos (hne rfl), ok_bind, List.getLast?_concat,
            Option.join_some, deref, List.dropLast_concat]
          refine Ends.ok ⟨rfl, hv', by simp, ?_⟩
          intro a
          simp only [ids_reset, List.flatMap_append, List.flatMap_singleton, List.count_append,
            ids_none, List.count_nil]
          omega

/-- Both spare buffers are back. -/
theorem recycle_spec (h : Inv s) (hpoint : s.back.point = .written) :
    Returns s.recycle fun s' => Inv s' ∧ Keeps s s' [] ∧ s'.back.point = .test := by
  have hspares : s.back.Collected := by
    have := h.spares
    rwa [Backend.Spares, hpoint] at this
  have hcollected := h.collected
  have hwritten := h.written
  simp only [taken, pending, rest, hpoint] at hcollected hwritten
  have htaken : s.taken = s.cycles.flatMap Cycle.bytes ++ [] := by
    simp only [taken, pending, hpoint]
  have hsome : none ∉ s.back.buffersToWrite.take 2 :=
    fun hmem => hspares.some (List.mem_of_mem_take hmem)
  have hne : s.back.buffersToWrite.take 2 ≠ [] := by
    simp only [ne_eq, List.take_eq_nil_iff, not_or]
    exact ⟨by decide, hspares.nonempty⟩
  have hempty1 : content s.back.newBuffer1 = [] := by rw [hspares.spare1]; rfl
  rw [recycle]
  refine Ends.bind (refill_spec .refill1 hempty1 hsome fun _ => hne) ?_
  rintro ⟨new1, v1⟩ ⟨hspare1, hsome1, hlen1, hcount1⟩
  have hne1 : s.back.newBuffer2 = none → v1 ≠ [] := by
    intro hnone
    have htwo := hspares.two hnone
    simp only [List.length_take] at hlen1
    exact List.length_pos_iff.mp (by omega)
  refine Ends.bind (refill_spec .refill2 hspares.spare2 hsome1 hne1) ?_
  rintro ⟨new2, v2⟩ ⟨hspare2, -, -, hcount2⟩
  refine Ends.ok ⟨?_, ⟨rfl, (List.append_nil _).symm, htaken.symm⟩, rfl⟩
  exact
    { h with
      spares := ⟨hspare1, hspare2, rfl⟩
      owned := by
        intro a
        refine Nat.le_trans ?_ (h.owned a)
        have hc1 := hcount1 a
        have hc2 := hcount2 a
        have hle := ((List.take_sublist 2 s.back.buffersToWrite).flatMap ids).count_le a
        simp only [List.count_append] at hc1 hc2
        simp only [held, List.count_append, List.flatMap_nil, List.count_nil]
        omega
      collected := hcollected
      written := hwritten }

/-! ### Steps and runs -/

/-- Between a test of the loop that found `running_` set and the critical
section. -/
def Point.Gathering (p : Point) : Prop := p = .lock ∨ p = .waiting

instance (p : Point) : Decidable p.Gathering :=
  inferInstanceAs (Decidable (p = .lock ∨ p = .waiting))

/-- What a step other than the critical section does to the position of the
back end. It passes the test of the loop only while `running_` is set. -/
structure Point.Moves (running : Bool) (p p' : Point) : Prop where
  early : p' = .created ∨ p' = .starting → p = p'
  stays : p.Gathering → p'.Gathering
  passes : p'.Gathering → p.Gathering ∨ running = true

theorem Point.Moves.refl (running : Bool) (p : Point) : p.Moves running p :=
  ⟨fun _ => rfl, id, Or.inl⟩

/-- A move from a position outside the head of the loop to another one. -/
theorem Point.Moves.of_not_gathering {running : Bool} {p p' : Point} (h : ¬ p.Gathering)
    (hearly : p' ≠ .created ∧ p' ≠ .starting) (hpass : p'.Gathering → running = true) :
    p.Moves running p' where
  early hp' := by
    rcases hp' with rfl | rfl
    · exact absurd rfl hearly.1
    · exact absurd rfl hearly.2
  stays hp := absurd hp h
  passes hp' := Or.inr (hpass hp')

/-- The line that an event appends. -/
def Event.line : Event → List (List UInt8)
  | .append logline => [logline]
  | _ => []

/-- What a step can do. -/
inductive Moves (s : AsyncLogging) : Event → AsyncLogging → Prop where
  | start : s.back.point = .created → Moves s .start { s.setPoint .starting with running_ := true }
  | stop : s.back.point ≠ .starting → Moves s .stop { s with running_ := false }
  /-- The critical section of the back end. -/
  | collect {e : Event} : e.line = [] → s.back.point.Gathering → Moves s e s.collect
  | keep {e : Event} {s' : AsyncLogging} : Keeps s s' e.line →
      s.back.point.Moves s.running_ s'.back.point → Moves s e s'

/-- A step of the back end outside the head of the loop. -/
theorem Moves.of_points {e : Event} {s' : AsyncLogging} {p p' : Point} (hkeeps : Keeps s s' e.line)
    (hp : s.back.point = p) (hp' : s'.back.point = p') (h : ¬ p.Gathering)
    (hearly : p' ≠ .created ∧ p' ≠ .starting) (hpass : p'.Gathering → s.running_ = true) :
    Moves s e s' := by
  refine .keep hkeeps ?_
  rw [hp, hp']
  exact .of_not_gathering h hearly hpass

/-- No step faults, and every step keeps the invariant. -/
theorem step_spec (h : Inv s) (hrunning : s.back.point = .starting → s.running_ = true)
    {e : Event} (hen : enabled s e = true) :
    Returns (step s e) fun s' => Inv s' ∧ Moves s e s' := by
  cases e with
  | append logline =>
      simp only [enabled, decide_eq_true_eq] at hen
      refine (append_spec h hen).imp ?_
      rintro s' ⟨hinv, hkeeps, hback⟩
      refine ⟨hinv, .keep hkeeps ?_⟩
      rw [hback]
      exact Point.Moves.refl _ _
  | start =>
      simp only [enabled, beq_iff_eq] at hen
      have hspares : s.back.Absent := by
        have := h.spares
        rwa [Backend.Spares, hen] at this
      have hinv : Inv (s.setPoint .starting) := by
        refine inv_setPoint h hspares ?_ ?_
        · simp only [pending, setPoint, hen]
        · simp only [rest, setPoint, hen]
      exact Ends.ok ⟨{ hinv with }, .start hen⟩
  | stop =>
      simp only [enabled, Bool.and_eq_true, bne_iff_ne, ne_eq] at hen
      exact Ends.ok ⟨{ h with }, .stop hen.2⟩
  | enter =>
      simp only [enabled, beq_iff_eq] at hen
      refine (enter_spec h hen (hrunning hen)).imp ?_
      rintro s' ⟨hinv, hkeeps, hpoint⟩
      refine ⟨hinv, .of_points hkeeps hen hpoint (by decide) (by decide) ?_⟩
      exact fun hp => absurd hp (by decide)
  | test =>
      simp only [enabled, beq_iff_eq] at hen
      refine (test_spec h hen).imp ?_
      rintro s' ⟨hinv, hkeeps, hpoint⟩
      -- The flag decides where the back end goes on.
      cases hr : s.running_ with
      | true =>
          rw [hr] at hpoint
          exact ⟨hinv, .of_points hkeeps hen hpoint (by decide) (by decide) fun _ => hr⟩
      | false =>
          rw [hr] at hpoint
          refine ⟨hinv, .of_points hkeeps hen hpoint (by decide) (by decide) ?_⟩
          exact fun hp => absurd hp (by decide)
  | lock =>
      simp only [enabled, beq_iff_eq] at hen
      rw [step, lock]
      split
      · -- Nothing is full, so the back end waits.
        have hpending : (s.setPoint .waiting).pending = s.pending := by
          simp only [pending, setPoint, hen]
        have hspares : s.back.Ready := by
          have := h.spares
          rwa [Backend.Spares, hen] at this
        have hinv : Inv (s.setPoint .waiting) := by
          refine inv_setPoint h hspares hpending ?_
          simp only [rest, setPoint, hen]
        refine Ends.ok ⟨hinv, .keep (keeps_setPoint hpending) ?_⟩
        rw [hen]
        exact ⟨by simp [setPoint], fun _ => Or.inr rfl, fun _ => Or.inl (Or.inl rfl)⟩
      · exact Ends.ok ⟨(collect_spec h (Or.inl hen)).1, .collect rfl (Or.inl hen)⟩
  | wake =>
      simp only [enabled, beq_iff_eq] at hen
      exact Ends.ok ⟨(collect_spec h (Or.inr hen)).1, .collect rfl (Or.inr hen)⟩
  | prepare time =>
      simp only [enabled, beq_iff_eq] at hen
      refine (prepare_spec h hen time).imp ?_
      rintro s' ⟨hinv, hkeeps, hpoint⟩
      refine ⟨hinv, .of_points hkeeps hen hpoint (by decide) (by decide) ?_⟩
      exact fun hp => absurd hp (by decide)
  | write =>
      simp only [enabled] at hen
      rw [step]
      split at hen
      · rename_i k hk
        refine (write_spec h hk).imp ?_
        rintro s' ⟨hinv, hkeeps, -, hpoint⟩
        refine ⟨hinv, .keep hkeeps ?_⟩
        rw [hk, hpoint]
        -- The next buffer, or the last one was written.
        split
        · exact .of_not_gathering (by simp [Point.Gathering]) (by simp) (by simp [Point.Gathering])
        · exact .of_not_gathering (by simp [Point.Gathering]) (by simp) (by simp [Point.Gathering])
      · cases hen
  | recycle =>
      simp only [enabled, beq_iff_eq] at hen
      refine (recycle_spec h hen).imp ?_
      rintro s' ⟨hinv, hkeeps, hpoint⟩
      refine ⟨hinv, .of_points hkeeps hen hpoint (by decide) (by decide) ?_⟩
      exact fun hp => absurd hp (by decide)

/-- The invariant, with what `start()` has set before `threadFunc` runs. -/
structure Reached (s : AsyncLogging) : Prop where
  inv : Inv s
  starting : s.back.point = .starting → s.running_ = true

theorem reached_init : Reached init := ⟨inv_init, fun h => by cases h⟩

/-- One step, of a front end or of the back end. -/
theorem Reached.step {e : Event} (h : Reached s) (hen : enabled s e = true) :
    Returns (step s e) fun s' => Reached s' ∧ Moves s e s' := by
  refine (step_spec h.inv h.starting hen).imp ?_
  rintro s' ⟨hinv, hmoves⟩
  refine ⟨⟨hinv, ?_⟩, hmoves⟩
  cases hmoves with
  | start _ => exact fun _ => rfl
  | stop hpoint => exact fun hstarting => absurd hstarting hpoint
  | collect _ _ =>
      intro hstarting
      cases hstarting
  | keep hkeeps hpoint =>
      intro hstarting
      rw [hkeeps.running]
      exact h.starting ((hpoint.early (Or.inr hstarting)).trans hstarting)

/-- The invariant and the appended lines, after every run. -/
theorem reached_of_run {es : List Event} (hrun : machine.Run init es s) :
    Reached s ∧ s.lines = es.flatMap Event.line := by
  induction hrun with
  | nil => exact ⟨reached_init, rfl⟩
  | snoc _ hen hstep ih =>
      obtain ⟨hreached, hlines⟩ := ih
      obtain ⟨hnext, hmoves⟩ := (hreached.step hen).post hstep
      refine ⟨hnext, ?_⟩
      rw [List.flatMap_append, List.flatMap_singleton, ← hlines]
      cases hmoves with
      | start _ => exact (List.append_nil _).symm
      | stop _ => exact (List.append_nil _).symm
      | collect hline _ =>
          rw [hline]
          exact (List.append_nil _).symm
      | keep hkeeps _ => exact hkeeps.lines

/-! ### Every line, once and in order -/

theorem flatMap_written {cycles : List Cycle} (h : ∀ c ∈ cycles, c.buffers.length ≤ 25) :
    cycles.flatMap Cycle.written = cycles.flatMap Cycle.bytes := by
  simp only [List.flatMap_def]
  congr 1
  refine List.map_congr_left ?_
  intro c hc
  rw [Cycle.written, if_neg (Nat.not_lt.mpr (h c hc))]

/-- The array of 256 bytes is large enough for the notice of any number of
buffers that `%zd` shows without a sign, so it is one whole line. -/
theorem droppedNotice_eq {c : Cycle} (htime : IsTimeText c.time)
    (hsize : c.buffers.length < 2 ^ 63) :
    droppedNotice c.time c.buffers.length = c.notice ++ [10] ∧ 10 ∉ c.notice := by
  have hsigned :
      ((c.buffers.length - 2 : Nat) : Int).bmod (2 ^ 64) = (c.buffers.length - 2 : Nat) := by
    rw [Int.bmod_def]
    split <;> omega
  have hdigits : ∀ x ∈ decimalText (c.buffers.length - 2 : Nat), x ≠ 0 ∧ x ≠ 10 := by
    intro x hx
    rw [decimalText, if_neg (by omega)] at hx
    obtain ⟨d, hd, rfl⟩ := Glyphs.mem_text (by decide) hx
    have hglyphs : ∀ d < 10, decimal.glyph d ≠ 0 ∧ decimal.glyph d ≠ 10 := by decide
    exact hglyphs d hd
  have hlen : (decimalText (c.buffers.length - 2 : Nat)).length ≤ 20 := by
    have hle := length_decimalText_le (v := (c.buffers.length - 2 : Nat)) (k := 20) (by decide)
      (by omega)
    rwa [if_neg (by omega)] at hle
  have htext : ascii " larger buffers\n".toList = ascii " larger buffers".toList ++ [10] := by
    decide +kernel
  have hwhole : ascii "Dropped log messages at ".toList ++ c.time ++ ascii ", ".toList ++
      decimalText (c.buffers.length - 2 : Nat) ++ ascii " larger buffers\n".toList =
      c.notice ++ [10] := by
    rw [htext, Cycle.notice, List.append_assoc _ _ [10]]
  -- Every part of the text is free of `\0` and of line ends.
  have hplain : ∀ x ∈ c.notice, x ≠ 0 ∧ x ≠ 10 := by
    have hfixed : ∀ x ∈ ascii "Dropped log messages at ".toList ++ ascii ", ".toList ++
        ascii " larger buffers".toList, x ≠ 0 ∧ x ≠ 10 := by decide +kernel
    intro x hx
    simp only [Cycle.notice, List.mem_append] at hx hfixed
    rcases hx with (((hx | hx) | hx) | hx) | hx
    · exact hfixed x (.inl (.inl hx))
    · exact ⟨fun h => htime.2.1 (h ▸ hx), fun h => htime.2.2 (h ▸ hx)⟩
    · exact hfixed x (.inl (.inr hx))
    · exact hdigits x hx
    · exact hfixed x (.inr hx)
  have hshort : (c.notice ++ [10]).length ≤ 255 := by
    have htimeLen := htime.1
    have hfixed : (ascii "Dropped log messages at ".toList).length = 24 ∧
        (ascii ", ".toList).length = 2 ∧ (ascii " larger buffers".toList).length = 15 := by decide
    simp only [Cycle.notice, List.length_append, List.length_singleton]
    omega
  refine ⟨?_, fun hmem => (hplain 10 hmem).2 rfl⟩
  rw [droppedNotice, hsigned, hwhole, List.take_of_length_le hshort, List.takeWhile_eq_self_iff]
  intro x hx
  simp only [List.mem_append, List.mem_singleton] at hx
  rcases hx with hx | rfl
  · exact decide_eq_true (hplain x hx).1
  · decide

/-- At most one of the two is there. -/
theorem unwritten_comm (s : AsyncLogging) : s.pending ++ s.rest = s.rest ++ s.pending := by
  rw [pending, rest]
  cases s.back.point <;> simp

/-- The log of every run. `lines` are the lines of the `append`s in the
order of the lock. As long as no cycle has collected more than 25 buffers,
the `LogFile`, the buffers still to write, `buffers_` and `currentBuffer_`
are these lines. In general the cycles, what is pending and the front end
are these lines, and the `LogFile` has what `Cycle.written` says of every
cycle: of one with more than 25 buffers, a notice and the first two. The
notice is one line, with the time and the number of buffers lost. -/
theorem log_complete {es : List Event} (hrun : machine.Run init es s) :
    s.lines = es.flatMap Event.line ∧
      ((∀ c ∈ s.cycles, c.buffers.length ≤ 25) →
        s.output ++ s.unwritten ++ (contents s.buffers_ ++ content s.currentBuffer_) =
          s.lines.flatten) ∧
      s.cycles.flatMap Cycle.bytes ++ s.pending ++
        (contents s.buffers_ ++ content s.currentBuffer_) = s.lines.flatten ∧
      s.output ++ s.rest = s.cycles.flatMap Cycle.written ∧
      ∀ c ∈ s.cycles, 25 < c.buffers.length → c.buffers.length < 2 ^ 63 → IsTimeText c.time →
        c.written = c.notice ++ [10] ++ (c.buffers.take 2).flatten ∧ 10 ∉ c.notice := by
  obtain ⟨⟨hinv, -⟩, hlines⟩ := reached_of_run hrun
  refine ⟨hlines, ?_, hinv.collected, hinv.written, ?_⟩
  swap
  · intro c _ hmany hsize htime
    obtain ⟨hnotice, hline⟩ := droppedNotice_eq htime hsize
    rw [Cycle.written, if_pos hmany, hnotice]
    exact ⟨rfl, hline⟩
  intro hfew
  have hwritten := hinv.written
  rw [flatMap_written hfew] at hwritten
  rw [← hinv.collected, taken, frontEnd, ← hwritten, unwritten, unwritten_comm]
  simp only [List.append_assoc]

/-- A line of two megabytes, of which a buffer holds only one. -/
def hugeLine : List UInt8 := List.replicate 2000000 97

/-- Before the back end takes the lock, every line but the last one is in a
buffer of its own. -/
def crowd (k : Nat) (s : AsyncLogging) : Prop :=
  s.back.point = .lock ∧ s.cycles = [] ∧ content s.currentBuffer_ = hugeLine ∧
    s.buffers_.map content = List.replicate k hugeLine

/-- The second line of a buffer does not fit, and goes to an empty one. -/
theorem crowd_append {k : Nat} (hinv : Inv s) (h : crowd k s) :
    ∃ s', s.append hugeLine = .ok s' ∧ crowd (k + 1) s' := by
  obtain ⟨hpoint, hcycles, hcurrent, hbuffers⟩ := h
  have hsize : hugeLine.length = 2000000 := List.length_replicate
  obtain ⟨b, hb⟩ := Option.ne_none_iff_exists'.mp hinv.current
  rw [hb, content] at hcurrent
  have hfull : ¬ hugeLine.length < b.fixed.avail := by
    rw [FixedBuffer.avail, hcurrent, hsize]
    decide
  have hfits : hugeLine.length < kLargeBuffer := by
    rw [hsize]
    decide
  have hnext : (s.buffers_ ++ [some b]).map content = List.replicate (k + 1) hugeLine := by
    rw [List.map_append, hbuffers, List.map_singleton, content, hcurrent, List.replicate_succ']
  simp only [append, hb, deref, ok_bind, if_neg hfull]
  cases hspare : s.nextBuffer_ with
  | some next =>
      have hempty : next.fixed.data = [] := by
        have hcontent := hinv.next_empty
        rwa [hspare] at hcontent
      exact ⟨_, rfl, hpoint, hcycles, content_append_empty hempty hfits, hnext⟩
  | none => exact ⟨_, rfl, hpoint, hcycles, content_append_empty rfl hfits, hnext⟩

/-- `k + 1` such lines, while the back end is before the lock. -/
theorem exists_crowd (k : Nat) :
    ∃ s, machine.Run init
      ([.start, .enter, .test] ++ List.replicate (k + 1) (.append hugeLine)) s ∧ crowd k s := by
  have hen : ∀ s : AsyncLogging, enabled s (.append hugeLine) = true := by
    intro s
    rw [enabled, hugeLine, List.length_replicate]
    decide
  induction k with
  | zero =>
      have hexec : (machine.exec init [.start, .enter, .test]).map
          (fun s => (s.back.point, s.cycles, s.currentBuffer_, s.buffers_)) =
            some (.lock, [], some (newBuffer 0), []) := by decide +kernel
      obtain ⟨s, hrun, hfinal⟩ := Machine.exists_run_of_exec hexec
      obtain ⟨hpoint, hcycles, hcurrent, hbuffers⟩ : s.back.point = .lock ∧ s.cycles = [] ∧
          s.currentBuffer_ = some (newBuffer 0) ∧ s.buffers_ = [] := by simpa using hfinal
      have hfits : hugeLine.length < (newBuffer 0).fixed.avail := by
        rw [hugeLine, List.length_replicate]
        decide
      have hstep : machine.step s (.append hugeLine) =
          .ok { s with currentBuffer_ := some ((newBuffer 0).append hugeLine),
                       lines := s.lines ++ [hugeLine] } := by
        change s.append hugeLine = _
        simp only [append, hcurrent, deref, ok_bind, if_pos hfits]
        rfl
      refine ⟨_, hrun.snoc (hen s) hstep, hpoint, hcycles, content_append hfits, ?_⟩
      rw [hbuffers]
      rfl
  | succ k ih =>
      obtain ⟨s, hrun, hcrowd⟩ := ih
      obtain ⟨s', hstep, hnext⟩ := crowd_append (reached_of_run hrun).1.inv hcrowd
      rw [List.replicate_succ', ← List.append_assoc]
      exact ⟨s', hrun.snoc (hen s) hstep, hnext⟩

/-- 26 buffers before the back end takes the lock: the file gets one line
that names the 24 that are dropped, and the first two. -/
theorem log_complete_crowd :
    ∃ s, machine.Run init
        ([.start, .enter, .test] ++ List.replicate 26 (.append hugeLine) ++
          [.lock, .prepare (ascii "20240229 12:00:00.000000".toList)]) s ∧
      s.lines = List.replicate 26 hugeLine ∧
      s.output ++ s.rest =
        ascii "Dropped log messages at 20240229 12:00:00.000000, 24 larger buffers".toList ++
          [10] ++ (hugeLine ++ hugeLine) := by
  obtain ⟨s, hrun, hpoint, hcycles, hcurrent, hbuffers⟩ := exists_crowd 25
  have hcollect : s.lock = s.collect := by
    refine if_neg fun hempty => ?_
    rw [hempty] at hbuffers
    cases hbuffers
  have hlock : machine.step s .lock = .ok s.collect := congrArg Except.ok hcollect
  have hcontents : (s.collect.back.buffersToWrite).map content = List.replicate 26 hugeLine := by
    rw [collect, List.map_append, hbuffers, List.map_singleton, hcurrent]
    rfl
  have hlength : s.collect.back.buffersToWrite.length = 26 := by
    rw [← List.length_map (f := content), hcontents, List.length_replicate]
  obtain ⟨t, hprepare, htcycles⟩ : ∃ t,
      machine.step s.collect (.prepare (ascii "20240229 12:00:00.000000".toList)) = .ok t ∧
        t.cycles = [⟨List.replicate 26 hugeLine, ascii "20240229 12:00:00.000000".toList⟩] := by
    change ∃ t, s.collect.prepare _ = .ok t ∧ _
    have hsome : s.collect.back.buffersToWrite ≠ [] := List.ne_nil_of_length_eq_add_one hlength
    have hmany : 25 < s.collect.back.buffersToWrite.length := by omega
    have hfirst : s.collect.cycles = [] := hcycles
    simp only [prepare, assertThat_pos hsome, ok_bind, if_pos hmany, hcontents, hfirst]
    exact ⟨_, rfl, rfl⟩
  have hen : enabled s .lock = true := beq_iff_eq.mpr hpoint
  have hen' : enabled s.collect (.prepare (ascii "20240229 12:00:00.000000".toList)) = true := rfl
  have hlast := (hrun.snoc hen hlock).snoc hen' hprepare
  rw [List.append_assoc _ [Event.lock]] at hlast
  obtain ⟨hlines, -, -, hwritten, hnotice⟩ := log_complete hlast
  refine ⟨t, hlast, hlines, ?_⟩
  rw [hwritten, htcycles, List.flatMap_singleton]
  rw [htcycles] at hnotice
  have hsize : (List.replicate 26 hugeLine).length = 26 := List.length_replicate
  rw [(hnotice _ (List.mem_singleton_self _) (by rw [hsize]; decide) (by rw [hsize]; decide)
    (by unfold IsTimeText; decide)).1, Cycle.notice, hsize]
  rw [show List.replicate 26 hugeLine = hugeLine :: hugeLine :: List.replicate 24 hugeLine from rfl]
  rw [List.take_succ_cons, List.take_succ_cons, List.take_zero, List.flatten_cons,
    List.flatten_singleton]
  congr 1

/-! ### The buffers -/

/-- The spare buffers have no bytes, wherever the back end is. -/
theorem Backend.Spares.empty {b : Backend} (h : b.Spares) :
    content b.newBuffer1 = [] ∧ content b.newBuffer2 = [] := by
  have habsent : b.Absent → content b.newBuffer1 = [] ∧ content b.newBuffer2 = [] := by
    rintro ⟨h1, h2, -⟩
    rw [h1, h2]
    exact ⟨rfl, rfl⟩
  have hready : b.Ready → content b.newBuffer1 = [] ∧ content b.newBuffer2 = [] := by
    rintro ⟨h1, h2, -⟩
    exact ⟨(isSpare_iff.mp h1).2, (isSpare_iff.mp h2).2⟩
  have hcollected : b.Collected → content b.newBuffer1 = [] ∧ content b.newBuffer2 = [] := by
    intro hb
    rw [hb.spare1]
    exact ⟨rfl, hb.spare2⟩
  rw [Backend.Spares] at h
  cases hpoint : b.point with
  | created | starting =>
      rw [hpoint] at h
      exact habsent h
  | test | lock | waiting | exited =>
      rw [hpoint] at h
      exact hready h
  | collected | writing _ | written =>
      rw [hpoint] at h
      exact hcollected h

/-- The buffers in every run, at every release of the lock and between any
two steps of the back end. `nextBuffer_` is missing only while `buffers_`
has something, `currentBuffer_` is there, the spare buffers are empty, and
no buffer is held in two places. No `assert` fails and no null pointer is
used: every step that can be taken returns. -/
theorem buffers_recycled {es : List Event} (hrun : machine.Run init es s) :
    (s.nextBuffer_ = none → s.buffers_ ≠ []) ∧ s.currentBuffer_ ≠ none ∧
      (∀ b, s.nextBuffer_ = some b ∨ s.back.newBuffer1 = some b ∨ s.back.newBuffer2 = some b →
        b.fixed.length = 0) ∧
      (held s).Nodup ∧
      ∀ e, machine.enabled s e → ∃ s', machine.step s e = .ok s' := by
  obtain ⟨hreached, -⟩ := reached_of_run hrun
  have hinv := hreached.inv
  refine ⟨hinv.next_null, hinv.current, ?_, ?_, ?_⟩
  · obtain ⟨h1, h2⟩ := hinv.spares.empty
    have hlength : ∀ {ptr : BufferPtr} {b : Buffer}, content ptr = [] → ptr = some b →
        b.fixed.length = 0 := by
      rintro ptr b hempty rfl
      exact List.length_eq_zero_iff.mpr hempty
    rintro b (hb | hb | hb)
    · exact hlength hinv.next_empty hb
    · exact hlength h1 hb
    · exact hlength h2 hb
  · rw [List.nodup_iff_count_le_one]
    intro a
    have hle := hinv.owned a
    split at hle <;> omega
  · intro e hen
    obtain ⟨s', hstep, -⟩ := (hreached.step hen).exists_ok
    exact ⟨s', hstep⟩

/-- A whole cycle, at whose end the buffer that was written is a spare
one. -/
theorem buffers_recycled_cycle :
    ∃ s, machine.Run init
        [.start, .append [97, 10], .enter, .test, .lock, .wake, .prepare [], .write, .write,
          .recycle] s ∧
      (s.back.point, held s) = (.test, [2, 1, 0, 3]) ∧ (held s).Nodup := by
  have hexec : (machine.exec init
      [.start, .append [97, 10], .enter, .test, .lock, .wake, .prepare [], .write, .write,
        .recycle]).map (fun s => (s.back.point, held s)) = some (.test, [2, 1, 0, 3]) := by
    decide +kernel
  obtain ⟨s, hrun, hfinal⟩ := Machine.exists_run_of_exec hexec
  exact ⟨s, hrun, hfinal, (buffers_recycled hrun).2.2.2.1⟩

end Muduo.Base.AsyncLogging
