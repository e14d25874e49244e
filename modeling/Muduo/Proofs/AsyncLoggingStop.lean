import Muduo.Proofs.AsyncLogging

/-!
# `Muduo.Proofs.AsyncLoggingStop`: what `stop()` leaves behind

`stop()` clears `running_`, and the back end reads it only at the test of
its loop. So what is lost depends on where the back end is at that moment.
Between a test that found `running_` set and the critical section, the
cycle has still to collect, and it takes everything. Elsewhere there is no
further cycle: what the cycles have collected is written, and what is in
`buffers_` and `currentBuffer_` stays there.

`stop_flushes_iff` states this for every run: the thread can always run to
its exit, and the lines appended before `stop()` are all written then
exactly when the back end was `Gathering` at the call, or the front end had
no bytes. The run in `stop_loses_line` has neither.
-/

set_option autoImplicit false

namespace Muduo.Base.AsyncLogging

open Muduo.Lib

variable {s t u : AsyncLogging}

/-- `stop()` has been called. -/
structure Stopped (s : AsyncLogging) : Prop where
  reached : Reached s
  running : s.running_ = false
  launched : s.back.point ≠ .created

theorem Stopped.of_stop (h : Reached s) (hen : machine.enabled s .stop)
    (hstep : machine.step s .stop = .ok t) : Stopped t ∧ t = { s with running_ := false } := by
  obtain ⟨hreached, -⟩ := (h.step hen).post hstep
  have ht : { s with running_ := false } = t := Except.ok.inj hstep
  subst ht
  have hpoint : enabled s .stop = true := hen
  simp only [enabled, Bool.and_eq_true, bne_iff_ne, ne_eq] at hpoint
  exact ⟨⟨hreached, rfl, hpoint.1.2⟩, rfl⟩

/-- A step after `stop()`: it keeps what is collected, or it is the critical
section. -/
theorem Stopped.step {e : Event} (h : Stopped s) (hen : machine.enabled s e)
    (hstep : machine.step s e = .ok t) :
    Stopped t ∧ s.lines.flatten <+: t.lines.flatten ∧
      ((s.back.point.Gathering ∧ t.taken = s.lines.flatten) ∨
        (t.taken = s.taken ∧ (t.back.point.Gathering ↔ s.back.point.Gathering))) := by
  obtain ⟨hreached, hmoves⟩ := (h.reached.step hen).post hstep
  cases hmoves with
  | start hpoint => exact absurd hpoint h.launched
  | stop _ =>
      exact ⟨⟨hreached, rfl, h.launched⟩, List.prefix_refl _, Or.inr ⟨rfl, Iff.rfl⟩⟩
  | collect _ hgathering =>
      refine ⟨⟨hreached, h.running, fun hpoint => by cases hpoint⟩, List.prefix_refl _, ?_⟩
      exact Or.inl ⟨hgathering, (collect_spec h.reached.inv hgathering).2⟩
  | keep hkeeps hpoint =>
      refine ⟨⟨hreached, hkeeps.running.trans h.running, ?_⟩, ?_, Or.inr ⟨hkeeps.taken, ?_, ?_⟩⟩
      · intro hcreated
        exact h.launched ((hpoint.early (Or.inl hcreated)).trans hcreated)
      · rw [hkeeps.lines, List.flatten_append]
        exact List.prefix_append _ _
      · intro hgathering
        refine (hpoint.passes hgathering).resolve_right ?_
        rw [h.running]
        decide
      · exact hpoint.stays

/-- Nothing starts the thread again. -/
theorem Stopped.of_run {fs : List Event} (h : Stopped s) (hrun : machine.Run s fs t) : Stopped t :=
  hrun.invariant h fun _ _ _ hv hen hstep => (hv.step hen hstep).1

/-- The bytes `bytes` are collected, or the next critical section takes
them. -/
theorem Stopped.collects {bytes : List UInt8} {fs : List Event} (h : Stopped s)
    (hrun : machine.Run s fs t) (hlines : bytes <+: s.lines.flatten)
    (htaken : s.back.point.Gathering ∨ bytes <+: s.taken) :
    Stopped t ∧ bytes <+: t.lines.flatten ∧ (t.back.point.Gathering ∨ bytes <+: t.taken) := by
  refine Machine.Run.invariant (I := fun v => Stopped v ∧ bytes <+: v.lines.flatten ∧
    (v.back.point.Gathering ∨ bytes <+: v.taken)) ⟨h, hlines, htaken⟩ ?_ hrun
  rintro v e w ⟨hv, hvlines, hvtaken⟩ hen hstep
  obtain ⟨hw, hgrow, hcase⟩ := hv.step hen hstep
  refine ⟨hw, hvlines.trans hgrow, ?_⟩
  rcases hcase with ⟨-, hall⟩ | ⟨hsame, hgathering⟩
  · rw [hall]
    exact Or.inr hvlines
  · rw [hsame, hgathering]
    exact hvtaken

/-- Behind the critical section there is no further one. -/
theorem Stopped.collects_nothing {fs : List Event} (h : Stopped s)
    (hrun : machine.Run s fs t) (hgathering : ¬ s.back.point.Gathering) :
    Stopped t ∧ ¬ t.back.point.Gathering ∧ t.taken = s.taken := by
  refine Machine.Run.invariant (I := fun v => Stopped v ∧ ¬ v.back.point.Gathering ∧
    v.taken = s.taken) ⟨h, hgathering, rfl⟩ ?_ hrun
  rintro v e w ⟨hv, hnot, htaken⟩ hen hstep
  obtain ⟨hw, -, hcase⟩ := hv.step hen hstep
  rcases hcase with ⟨hgathering, -⟩ | ⟨hsame, hiff⟩
  · exact absurd hgathering hnot
  · exact ⟨hw, fun hg => hnot (hiff.mp hg), hsame.trans htaken⟩

/-! ### The thread exits -/

/-- The back end can run to the end of `threadFunc`. -/
def CanExit (s : AsyncLogging) : Prop :=
  ∃ fs t, machine.Run s fs t ∧ t.back.point = .exited

/-- One step of the back end on its way out. -/
theorem Stopped.advance {e : Event} {P : AsyncLogging → Prop} (h : Stopped s)
    (hen : enabled s e = true) (hspec : Returns (AsyncLogging.step s e) P)
    (hnext : ∀ t, Stopped t → P t → CanExit t) : CanExit s := by
  obtain ⟨t, hstep, ht⟩ := hspec.exists_ok
  obtain ⟨hstopped, -⟩ := h.step hen hstep
  obtain ⟨fs, u, hrun, hexit⟩ := hnext t hstopped ht
  exact ⟨[e] ++ fs, u, Machine.Run.append (Machine.Run.single hen hstep) hrun, hexit⟩

theorem Stopped.exit_of_test (h : Stopped s) (hpoint : s.back.point = .test) : CanExit s := by
  refine h.advance (e := .test) (by rw [enabled, hpoint]; rfl) (test_spec h.reached.inv hpoint) ?_
  rintro t - ⟨-, -, hexit⟩
  rw [h.running] at hexit
  exact ⟨[], t, Machine.Run.nil, hexit⟩

theorem Stopped.exit_of_written (h : Stopped s) (hpoint : s.back.point = .written) :
    CanExit s := by
  refine h.advance (e := .recycle) (by rw [enabled, hpoint]; rfl)
    (recycle_spec h.reached.inv hpoint) ?_
  rintro t ht ⟨-, -, htest⟩
  exact ht.exit_of_test htest

/-- The loop over `buffersToWrite` ends: each round leaves one buffer less. -/
theorem Stopped.exit_of_writing :
    ∀ (n k : Nat) {s : AsyncLogging}, Stopped s → s.back.point = .writing k →
      s.back.buffersToWrite.length - k = n → CanExit s := by
  intro n
  induction n with
  | zero =>
      intro k s h hpoint hn
      refine h.advance (e := .write) (by rw [enabled, hpoint])
        (by rw [AsyncLogging.step, hpoint]; exact write_spec h.reached.inv hpoint) ?_
      rintro t ht ⟨-, -, -, hnext⟩
      rw [if_neg (by omega)] at hnext
      exact ht.exit_of_written hnext
  | succ n ih =>
      intro k s h hpoint hn
      refine h.advance (e := .write) (by rw [enabled, hpoint])
        (by rw [AsyncLogging.step, hpoint]; exact write_spec h.reached.inv hpoint) ?_
      rintro t ht ⟨-, -, hsame, hnext⟩
      rw [if_pos (by omega)] at hnext
      exact ih (k + 1) ht hnext (by rw [hsame]; omega)

theorem Stopped.exit_of_collected (h : Stopped s) (hpoint : s.back.point = .collected) :
    CanExit s := by
  refine h.advance (e := .prepare []) (by rw [enabled, hpoint]; rfl)
    (prepare_spec h.reached.inv hpoint []) ?_
  rintro t ht ⟨-, -, hwriting⟩
  exact Stopped.exit_of_writing _ 0 ht hwriting rfl

theorem Stopped.exit_of_waiting (h : Stopped s) (hpoint : s.back.point = .waiting) :
    CanExit s := by
  refine h.advance (e := .wake) (P := fun t => t = s.collect) (by rw [enabled, hpoint]; rfl)
    (Ends.ok rfl) ?_
  rintro t ht rfl
  exact ht.exit_of_collected rfl

/-- After `stop()`, the thread can always run to its exit, so that `stop()`
returns. -/
theorem Stopped.canExit (h : Stopped s) : CanExit s := by
  cases hpoint : s.back.point with
  | created => exact absurd hpoint h.launched
  | starting =>
      have hrunning := h.reached.starting hpoint
      rw [h.running] at hrunning
      cases hrunning
  | test => exact h.exit_of_test hpoint
  | lock =>
      refine h.advance (e := .lock) (P := fun t => t = s.lock) (by rw [enabled, hpoint]; rfl)
        (Ends.ok rfl) ?_
      rintro t ht rfl
      rw [lock] at ht ⊢
      split at ht
      · rw [if_pos ‹_›]
        exact ht.exit_of_waiting rfl
      · rw [if_neg ‹_›]
        exact ht.exit_of_collected rfl
  | waiting => exact h.exit_of_waiting hpoint
  | collected => exact h.exit_of_collected hpoint
  | writing k => exact Stopped.exit_of_writing _ k h hpoint rfl
  | written => exact h.exit_of_written hpoint
  | exited => exact ⟨[], s, Machine.Run.nil, hpoint⟩

/-! ### What is written then -/

/-- When the thread has exited, the `LogFile` has all that was collected. -/
theorem output_eq_taken (h : Reached s) (hexit : s.back.point = .exited)
    (hcycles : ∀ c ∈ s.cycles, c.buffers.length ≤ 25) : s.output = s.taken := by
  have hwritten := h.inv.written
  rw [flatMap_written hcycles] at hwritten
  simp only [rest, hexit, List.append_nil] at hwritten
  simp only [taken, pending, hexit, List.append_nil, hwritten]

/-- `stop()` in every run, as long as no cycle collects more than 25
buffers. Wherever the run goes, the thread can still exit, so that `stop()`
returns. When it has exited, the lines that were appended before `stop()`
are written exactly when at the call the back end was between a test of its
loop and the critical section, or no bytes were in the front end. -/
theorem stop_flushes_iff {es fs : List Event} (hbefore : machine.Run init es s)
    (hen : machine.enabled s .stop) (hstep : machine.step s .stop = .ok t)
    (hafter : machine.Run t fs u) (hexit : u.back.point = .exited)
    (hcycles : ∀ c ∈ u.cycles, c.buffers.length ≤ 25) :
    (∀ gs v, machine.Run t gs v → CanExit v) ∧
      (s.lines.flatten <+: u.output ↔ s.back.point.Gathering ∨ s.frontEnd = []) := by
  obtain ⟨hreached, -⟩ := reached_of_run hbefore
  obtain ⟨hstopped, ht⟩ := Stopped.of_stop hreached hen hstep
  refine ⟨fun gs v hrun => (hstopped.of_run hrun).canExit, ?_⟩
  have hcollected := hreached.inv.collected
  have htaken : t.taken = s.taken := by rw [ht]; rfl
  have hpoint : t.back.point = s.back.point := by rw [ht]
  have hlines : t.lines = s.lines := by rw [ht]
  by_cases hsafe : s.back.point.Gathering ∨ s.frontEnd = []
  · refine iff_of_true ?_ hsafe
    have htakes : t.back.point.Gathering ∨ s.lines.flatten <+: t.taken := by
      rw [hpoint, htaken]
      refine hsafe.imp id ?_
      intro hempty
      have hall : s.taken = s.lines.flatten := by rw [← hcollected, hempty, List.append_nil]
      exact hall ▸ List.prefix_refl _
    obtain ⟨hu, -, hend⟩ := hstopped.collects hafter (hlines ▸ List.prefix_refl _) htakes
    rw [output_eq_taken hu.reached hexit hcycles]
    refine hend.resolve_left ?_
    rw [hexit]
    decide
  · refine iff_of_false ?_ hsafe
    rw [not_or] at hsafe
    obtain ⟨hu, -, hsame⟩ := hstopped.collects_nothing hafter (by rw [hpoint]; exact hsafe.1)
    rw [output_eq_taken hu.reached hexit hcycles, hsame, htaken, ← hcollected]
    -- The front end has bytes, so the lines are longer than what was taken.
    intro hpre
    have hle := hpre.length_le
    rw [List.length_append] at hle
    have hpos := List.length_pos_iff.mpr hsafe.2
    omega

/-- `stop()` while the back end waits: the line is written. -/
theorem stop_flushes_iff_waiting :
    ∃ s t u, machine.Run init [.start, .enter, .test, .lock, .append [97, 10]] s ∧
      machine.step s .stop = .ok t ∧
      machine.Run t [.wake, .prepare [], .write, .write, .recycle, .test] u ∧
      s.lines.flatten <+: u.output := by
  have heval : ((machine.exec init [.start, .enter, .test, .lock, .append [97, 10]]).bind
      fun s => (machine.exec s [.stop, .wake, .prepare [], .write, .write, .recycle, .test]).map
        fun u => (s.back.point, u.back.point, u.cycles.map (·.buffers.length))) =
      some (.waiting, .exited, [1]) := by
    decide +kernel
  obtain ⟨s, t, u, hbefore, hen, hstep, hafter, hval⟩ := Machine.exists_runs_of_exec heval
  simp only [Prod.mk.injEq] at hval
  obtain ⟨hpoint, hexit, hlengths⟩ := hval
  have hcycles : ∀ c ∈ u.cycles, c.buffers.length ≤ 25 := by
    intro c hc
    have hmem : c.buffers.length ∈ u.cycles.map (·.buffers.length) := List.mem_map_of_mem hc
    rw [hlengths, List.mem_singleton] at hmem
    omega
  exact ⟨s, t, u, hbefore, hstep, hafter,
    (stop_flushes_iff hbefore hen hstep hafter hexit hcycles).2.mpr (Or.inl (Or.inr hpoint))⟩

/-- A line that is appended while the back end writes, and then `stop()`:
the thread exits, and the line is not in the `LogFile`. -/
theorem stop_loses_line :
    ∃ s t u, machine.Run init
        [.start, .enter, .test, .lock, .wake, .prepare [], .append [97, 10]] s ∧
      machine.enabled s .stop ∧ machine.step s .stop = .ok t ∧
      machine.Run t [.write, .write, .recycle, .test] u ∧ u.back.point = .exited ∧
      u.cycles.map (·.buffers.length) = [1] ∧ s.lines = [[97, 10]] ∧ u.output = [] ∧
      ¬ s.lines.flatten <+: u.output := by
  have heval : ((machine.exec init
      [.start, .enter, .test, .lock, .wake, .prepare [], .append [97, 10]]).bind fun s =>
        (machine.exec s [.stop, .write, .write, .recycle, .test]).map fun u =>
          (u.back.point, u.cycles.map (·.buffers.length), s.lines, u.output)) =
      some (.exited, [1], [[97, 10]], []) := by
    decide +kernel
  obtain ⟨s, t, u, hbefore, hen, hstep, hafter, hval⟩ := Machine.exists_runs_of_exec heval
  simp only [Prod.mk.injEq] at hval
  obtain ⟨hexit, hlengths, hlines, houtput⟩ := hval
  refine ⟨s, t, u, hbefore, hen, hstep, hafter, hexit, hlengths, hlines, houtput, ?_⟩
  rw [hlines, houtput]
  decide

end Muduo.Base.AsyncLogging
