import Muduo.Net.TcpClient
import Muduo.Proofs.Connector

/-!
# `Muduo.Proofs.TcpClient`: when `connect()` may be called

`TcpClient::connect` does not look at the state of the connector. Its source
has a `FIXME` for this. The `assert` of `startInLoop` fails

- for a second `connect()` during an attempt,
- for the retry timer of an earlier attempt, when `connect()` has begun another
  one in the meantime,
- for a `connect()` after a connection has closed without a retry: `state_`
  stays `kConnected`.

Where an attempt was given up and its `resetChannel` has still to run,
`startInLoop` passes and the `assert` of `connecting` fails.

When `connect()` is called only at rest, and the retry timers fire after
`resetChannel`, the connector keeps its `Core` in every run. The restart of
`removeConnection` needs no condition: the connection closes after its
`resetChannel`, and `restart` sets `state_` itself.
-/

set_option autoImplicit false

namespace Muduo.Net.TcpClient

open Muduo.Lib
open Muduo.Net.Connector (Core Quiet)

variable {s : TcpClient}

/-- In the loop thread no `startInLoop` is ever queued. -/
structure Inv (s : TcpClient) : Prop where
  core : Core s.connector
  starts : s.connector.starts = 0

theorem inv_ctor : Inv ctor := ⟨Connector.core_ctor, rfl⟩

/-- `connect()` in its turn finds the connector at rest. -/
theorem Inv.connect (h : Inv s) {savedErrno : Connector.Errno}
    (hturn : InTurn s (.connect savedErrno)) : Inv (s.connect savedErrno) := by
  obtain ⟨hstate, hchannel, htimers⟩ := hturn
  have hnone := h.core.connection_none (by rw [hstate]; decide)
  have hcore := h.core.start ⟨hstate, hchannel, htimers, hnone⟩ savedErrno
  exact ⟨hcore, (Connector.starts_startInLoop _ _).trans h.starts⟩

theorem Inv.removeConnection (h : Inv s) (hq : Quiet .kConnected s.connector)
    (savedErrno : Connector.Errno) : Inv (s.removeConnection savedErrno) := by
  rw [TcpClient.removeConnection]
  split
  · exact ⟨h.core.restart hq savedErrno, (Connector.starts_startInLoop _ _).trans h.starts⟩
  · exact h

theorem step_inv (h : Inv s) {e : Event} (hen : enabled s e = true) (hturn : InTurn s e) :
    Returns (step s e) Inv := by
  cases e with
  | connect savedErrno => exact Ends.ok (h.connect hturn)
  | disconnect => exact Ends.ok ⟨h.core, h.starts⟩
  | stop => exact Ends.ok ⟨h.core.stop, (Connector.starts_push _ _).trans h.starts⟩
  | enableRetry => exact Ends.ok ⟨h.core, h.starts⟩
  | forceClose =>
      exact Ends.ok ⟨h.core.forceClose, (Connector.starts_forceClose _).trans h.starts⟩
  | inLoop e savedErrno =>
      have hstep := Connector.stepLoop_spec h.core hen hturn fun rest hfunctors => by
        -- The queue has no `startInLoop`.
        have hstarts := Connector.starts_pop hfunctors
        have hone : [Connector.Functor.startInLoop].count .startInLoop = 1 := rfl
        have hzero := h.starts
        omega
      refine hstep.bind fun connector hadv => ?_
      have hinv : Inv { s with connector := connector } :=
        ⟨hadv.core, Nat.le_zero.mp (Nat.le_trans hadv.starts (Nat.le_of_eq h.starts))⟩
      dsimp only
      split_ifs with hclosed
      · obtain ⟨hsome, hnone⟩ := Bool.and_eq_true_iff.mp hclosed
        have hq := hadv.closed (Option.isSome_iff_ne_none.mp hsome)
          (Option.isNone_iff_eq_none.mp hnone)
        exact Ends.ok (hinv.removeConnection hq savedErrno)
      · exact Ends.ok hinv

/-- In runs in which `connect()` and the retry timers come in their turn, no
`assert` of the connector fails, and no attempt begins during another one. No
step stops at a null pointer. -/
theorem attempts_in_turn {es : List Event} (hrun : (machine.restrict InTurn).Run ctor es s) :
    s.connector.failed = [] ∧ s.connector.overlapping = 0 ∧
    ∀ e, machine.enabled s e → InTurn s e → ∃ s', machine.step s e = .ok s' := by
  have h : Inv s := by
    refine hrun.invariant inv_ctor fun t e u ht hen hstep => ?_
    exact (step_inv ht hen.1 hen.2).post hstep
  refine ⟨h.core.failed, h.core.overlapping, fun e hen hturn => ?_⟩
  obtain ⟨s', hstep, _⟩ := (step_inv h hen hturn).exists_ok
  exact ⟨s', hstep⟩

/-- A connection with a retry closes, and the client connects again. It stops
the second attempt, and begins a third one after `resetChannel` has run. -/
theorem attempts_in_turn_retry :
    ∃ s, (machine.restrict InTurn).Run ctor
        [.enableRetry, .connect .EINPROGRESS, .inLoop (.handleEvent POLLOUT 0 false) .zero,
          .inLoop .endHandling .zero, .inLoop (.runFunctor .zero) .zero, .inLoop .endRound .zero,
          .inLoop .closeConnection .EINPROGRESS, .stop, .inLoop .endHandling .zero,
          .inLoop (.runFunctor .zero) .zero, .inLoop .endRound .zero, .inLoop .endHandling .zero,
          .inLoop (.runFunctor .zero) .zero, .connect .EINPROGRESS] s ∧
      s.connector.created = 3 ∧ s.connector.failed = [] := by
  have hexec : ((machine.restrict InTurn).exec ctor
      [.enableRetry, .connect .EINPROGRESS, .inLoop (.handleEvent POLLOUT 0 false) .zero,
        .inLoop .endHandling .zero, .inLoop (.runFunctor .zero) .zero, .inLoop .endRound .zero,
        .inLoop .closeConnection .EINPROGRESS, .stop, .inLoop .endHandling .zero,
        .inLoop (.runFunctor .zero) .zero, .inLoop .endRound .zero, .inLoop .endHandling .zero,
        .inLoop (.runFunctor .zero) .zero, .connect .EINPROGRESS]).map
      (fun s => s.connector.created) = some 3 := by
    decide
  obtain ⟨s, hrun, hcreated⟩ := Machine.exists_run_of_exec hexec
  exact ⟨s, hrun, hcreated, (attempts_in_turn hrun).1⟩

/-- A second `connect()` fails both `assert`s and begins a second attempt. And
when a connection has closed, a `connect()` fails the first one. -/
theorem connect_out_of_turn :
    (∃ s, machine.Run ctor [.connect .EINPROGRESS, .connect .EINPROGRESS] s ∧
      s.connector.failed = [.startInLoop, .connecting] ∧ s.connector.overlapping = 1) ∧
    (∃ s, machine.Run ctor
        [.connect .EINPROGRESS, .inLoop (.handleEvent POLLOUT 0 false) .zero,
          .inLoop .endHandling .zero, .inLoop (.runFunctor .zero) .zero, .inLoop .endRound .zero,
          .disconnect, .inLoop .closeConnection .zero, .connect .EINPROGRESS] s ∧
      s.connector.failed = [.startInLoop]) := by
  have htwice : (machine.exec ctor [.connect .EINPROGRESS, .connect .EINPROGRESS]).map
      (fun s => (s.connector.failed, s.connector.overlapping))
      = some ([.startInLoop, .connecting], 1) := by
    decide
  have hagain : (machine.exec ctor
      [.connect .EINPROGRESS, .inLoop (.handleEvent POLLOUT 0 false) .zero,
        .inLoop .endHandling .zero, .inLoop (.runFunctor .zero) .zero, .inLoop .endRound .zero,
        .disconnect, .inLoop .closeConnection .zero, .connect .EINPROGRESS]).map
      (fun s => s.connector.failed) = some [.startInLoop] := by
    decide
  obtain ⟨s, hrun, hends⟩ := Machine.exists_run_of_exec htwice
  obtain ⟨hfailed, hoverlapping⟩ := Prod.mk.inj hends
  exact ⟨⟨s, hrun, hfailed, hoverlapping⟩, Machine.exists_run_of_exec hagain⟩

end Muduo.Net.TcpClient
