import Muduo.Net.EventLoopThread
import Muduo.Proofs.EventLoop

/-!
# `Muduo.Proofs.EventLoopThread`: what is asked of a loop before it runs

Two requests can come too early. `loop()` sets `quit_` to false when it is
entered, so it forgets a `quit()` from before, and the destructor of
`EventLoopThread` waits for a loop that does not end. And `callback_` runs in
the loop thread, so its `queueInLoop` does not write to the eventfd, and the
functor waits until something else ends the first `poll`.
`requests_before_loop_lost` has a run for each.

A `queueInLoop` from another thread is not lost. It writes to the eventfd, and
nobody reads the eventfd before the first `poll` returns. So up to there the
loop is `Awake`, in the sense of `Muduo.Proofs.EventLoop`, and the steps of the
loop keep that.
-/

set_option autoImplicit false

namespace Muduo.Net

open Muduo.Lib

/-! ### Steps of the loop -/

namespace EventLoop

variable {φ : Type} {s s' : EventLoop φ} {e : Event φ}

/-- Nothing in the loop takes a `quit()` back. -/
theorem quit_step (hstep : step s e = .ok s') :
    s.quit_ = true ∨ EventLoopThread.isQuit e = true → s'.quit_ = true := by
  intro hquit
  cases e with
  | quit | loopQuit =>
      cases hstep
      rfl
  | runFunctor =>
      rw [step] at hstep
      have hold := hquit.resolve_right Bool.false_ne_true
      cases hrest : s.rest with
      | nil =>
          rw [hrest] at hstep
          cases hstep
          exact hold
      | cons task rest =>
          rw [hrest] at hstep
          cases hstep
          exact hold
  | push f | wakeup number | quitWakeup | loopPush f | loopWakeup | enterPoll | leaveLoop
  | pollReturn wakeup | handleRead | endHandling | swap | functorReturn | endRunning
  | destroyFunctor | returnFromFunctors =>
      cases hstep
      exact hquit.resolve_right Bool.false_ne_true

/-- Only a call of `poll` leads into `poll`. -/
theorem polling_step (hstep : step s e = .ok s') (hplace : s'.place = .polling) :
    e = .enterPoll ∨ s.place = .polling := by
  cases e with
  | enterPoll => exact Or.inl rfl
  | push f | wakeup number | quit | quitWakeup | loopPush f | loopWakeup | loopQuit
  | destroyFunctor =>
      cases hstep
      exact Or.inr hplace
  | runFunctor =>
      rw [step] at hstep
      cases hrest : s.rest with
      | nil =>
          rw [hrest] at hstep
          cases hstep
          exact Or.inr hplace
      | cons task rest =>
          rw [hrest] at hstep
          cases hstep
          cases hplace
  | leaveLoop | pollReturn wakeup | handleRead | endHandling | swap | functorReturn | endRunning
  | returnFromFunctors =>
      cases hstep
      cases hplace

/-- The loop thread is before `poll`, or past the loop. -/
def Place.isOutside : Place → Bool
  | .top | .exited => true
  | _ => false

/-- The loop thread gets no further without a call of `poll`. -/
theorem outside_step (hout : s.place.isOutside = true) (hen : enabled s e = true)
    (hstep : step s e = .ok s') : e = .enterPoll ∨ s'.place.isOutside = true := by
  cases e with
  | enterPoll => exact Or.inl rfl
  | push f | wakeup number | quit | quitWakeup | loopPush f | loopWakeup | loopQuit
  | destroyFunctor =>
      cases hstep
      exact Or.inr hout
  | leaveLoop =>
      cases hstep
      exact Or.inr rfl
  | pollReturn wakeup | handleRead | endHandling | swap | runFunctor | functorReturn | endRunning
  | returnFromFunctors =>
      cases hplace : s.place with
      | top | exited => simp [enabled, hplace] at hen
      | polling | handling wakeup | swapping | running busy | destroying =>
          rw [hplace] at hout
          cases hout

/-- No destructor is running. -/
theorem quietDestructors_of_place (h : s.place ≠ .destroying) : QuietDestructors s e := by
  cases e with
  | loopPush f => exact h
  | push f | wakeup number | quit | quitWakeup | loopWakeup | loopQuit | enterPoll | leaveLoop
  | pollReturn wakeup | handleRead | endHandling | swap | runFunctor | functorReturn | endRunning
  | destroyFunctor | returnFromFunctors => exact trivial

end EventLoop

/-! ### The two threads -/

namespace EventLoopThread

variable {φ : Type} {s s' : EventLoopThread φ}

/-- `loop()` has not been entered. -/
def Stage.isBeforeLoop : Stage → Bool
  | .created | .started | .callback | .published => true
  | .looping | .ended => false

/-- The first `poll` has not returned. -/
def BeforeReturn (s : EventLoopThread φ) : Prop :=
  s.polls = 0 ∨ s.polls = 1 ∧ s.loop.place = .polling

structure Inv (s : EventLoopThread φ) : Prop where
  quit : s.quitCalled = true → s.loop.quit_ = true
  early : s.stage.isBeforeLoop = true → s.quitCalled = false
  outside : s.polls = 0 → s.loop.place.isOutside = true
  awake : BeforeReturn s → EventLoop.Awake s.loop

theorem inv_init (φ : Type) : Inv (init φ) where
  quit h := by cases h
  early _ := rfl
  outside _ := rfl
  awake _ := EventLoop.awake_init φ

theorem stepLoop_eq {e : EventLoop.Event φ} (hstep : s.stepLoop e = .ok s') :
    ∃ loop, EventLoop.step s.loop e = .ok loop ∧ s' = { s with
      loop := loop
      quitCalled := s.quitCalled || isQuit e
      polls := if isPoll e then s.polls + 1 else s.polls } := by
  rw [stepLoop] at hstep
  cases hloop : EventLoop.step s.loop e with
  | error f => exact f.elim
  | ok loop =>
      rw [hloop] at hstep
      cases hstep
      exact ⟨loop, rfl, rfl⟩

/-- A step of the loop, or of a thread in `queueInLoop` or `quit`. -/
theorem inLoop_inv {e : EventLoop.Event φ} (h : Inv s) (hen : enabled s (.inLoop e) = true)
    (hwaits : WaitsForLoop s (.inLoop e)) (hstep : step s (.inLoop e) = .ok s') : Inv s' := by
  obtain ⟨_, hen⟩ := Bool.and_eq_true_iff.mp hen
  obtain ⟨loop, hloop, rfl⟩ := stepLoop_eq hstep
  constructor
  case quit =>
    intro hcalled
    refine EventLoop.quit_step hloop ?_
    rcases Bool.or_eq_true_iff.mp hcalled with hcalled | hquit
    · exact Or.inl (h.quit hcalled)
    · exact Or.inr hquit
  case early =>
    intro hbefore
    have hnot : isQuit e = false := by
      cases hquit : isQuit e with
      | false => rfl
      | true =>
          have hstage : s.stage.isBeforeLoop = true := hbefore
          rw [hwaits hquit] at hstage
          cases hstage
    show (s.quitCalled || isQuit e) = false
    rw [h.early hbefore, hnot]
    rfl
  case outside =>
    intro hpolls
    have hpolls : (if isPoll e then s.polls + 1 else s.polls) = 0 := hpolls
    cases hpoll : isPoll e with
    | true =>
        rw [hpoll, if_pos rfl] at hpolls
        omega
    | false =>
        rw [hpoll, if_neg Bool.false_ne_true] at hpolls
        refine (EventLoop.outside_step (h.outside hpolls) hen hloop).resolve_left ?_
        rintro rfl
        cases hpoll
  case awake =>
    intro hbefore
    have hbefore : (if isPoll e then s.polls + 1 else s.polls) = 0 ∨
      (if isPoll e then s.polls + 1 else s.polls) = 1 ∧ loop.place = .polling := hbefore
    -- The first `poll` had not returned before the step, either.
    have hold : BeforeReturn s := by
      cases hpoll : isPoll e with
      | true =>
          rw [hpoll, if_pos rfl] at hbefore
          left
          omega
      | false =>
          rw [hpoll, if_neg Bool.false_ne_true] at hbefore
          refine hbefore.imp_right fun hfirst => ⟨hfirst.1, ?_⟩
          refine (EventLoop.polling_step hloop hfirst.2).resolve_left ?_
          rintro rfl
          cases hpoll
    have hplace : s.loop.place ≠ .destroying := by
      intro hdestroying
      rcases hold with hzero | ⟨_, hpolling⟩
      · have hout := h.outside hzero
        rw [hdestroying] at hout
        cases hout
      · rw [hdestroying] at hpolling
        cases hpolling
    exact EventLoop.awake_step (h.awake hold) hen (EventLoop.quietDestructors_of_place hplace) hloop

theorem inv_step {e : Event φ} (h : Inv s) (hen : enabled s e = true) (hwaits : WaitsForLoop s e)
    (hstep : step s e = .ok s') : Inv s' := by
  cases e with
  | inLoop e => exact inLoop_inv h hen hwaits hstep
  | callbackPush f => exact hwaits.elim
  | callbackQuit => exact hwaits.elim
  | startLoop =>
      by_cases hstage : s.stage = .created
      · rw [step, assertThat_pos hstage] at hstep
        have hnot : s.quitCalled = false := h.early (by rw [hstage]; rfl)
        cases hstep
        exact ⟨h.quit, fun _ => hnot, h.outside, h.awake⟩
      · rw [step, assertThat_neg hstage] at hstep
        cases hstep
  | startLoopReturns | destroy | join =>
      cases hstep
      exact ⟨h.quit, h.early, h.outside, h.awake⟩
  | destroyQuit =>
      rw [step] at hstep
      obtain ⟨_, _, hstep⟩ := except_bind_eq_ok.mp hstep
      cases hstep
      refine ⟨fun _ => rfl, fun hbefore => ?_, h.outside, fun hfirst => ?_⟩
      · -- The condition of the run: the destructor finds the thread in its loop.
        have hstage : s.stage.isBeforeLoop = true := hbefore
        rw [show s.stage = .looping from hwaits] at hstage
        cases hstage
      · exact (h.awake hfirst).same rfl rfl rfl rfl rfl rfl
  | destroyWakeup =>
      rw [step] at hstep
      obtain ⟨_, _, hstep⟩ := except_bind_eq_ok.mp hstep
      cases hstep
      exact ⟨h.quit, h.early, h.outside, fun hfirst => (h.awake hfirst).written rfl rfl id rfl⟩
  | construct =>
      have hstage : s.stage = .started := eq_of_beq hen
      have hnot : s.quitCalled = false := h.early (by rw [hstage]; rfl)
      cases hstep
      refine ⟨fun hcalled => ?_, fun _ => hnot, fun _ => rfl, fun _ => EventLoop.awake_init φ⟩
      rw [show s.quitCalled = true from hcalled] at hnot
      cases hnot
  | publish =>
      have hstage : s.stage = .callback := eq_of_beq hen
      have hnot : s.quitCalled = false := h.early (by rw [hstage]; rfl)
      cases hstep
      exact ⟨h.quit, fun _ => hnot, h.outside, h.awake⟩
  | enterLoop =>
      -- `loop` clears `quit_`, which nobody has set yet.
      have hstage : s.stage = .published := eq_of_beq hen
      have hnot : s.quitCalled = false := h.early (by rw [hstage]; rfl)
      cases hstep
      refine ⟨fun hcalled => ?_, fun _ => hnot, h.outside, fun hfirst => ?_⟩
      · rw [show s.quitCalled = true from hcalled] at hnot
        cases hnot
      · exact (h.awake hfirst).same rfl rfl rfl rfl rfl rfl
  | finish =>
      cases hstep
      exact ⟨h.quit, (fun hbefore => by cases hbefore), h.outside, h.awake⟩

/-- In every run in which `quit()` is only called when `loop()` has been
entered, and `callback_` does not call `queueInLoop`: once `quit()` has been
called, the loop thread does not wait in `poll` with `quit_` false. And while
it waits in its first `poll` with functors in the queue, the eventfd is readable
or the thread of one of them is about to write to it. -/
theorem requests_before_loop_kept {es : List (Event φ)}
    (hrun : ((machine φ).restrict WaitsForLoop).Run (init φ) es s) :
    (s.quitCalled = true → s.loop.place = .polling → s.loop.quit_ = true) ∧
    (s.polls = 1 → s.loop.place = .polling → s.loop.MayPoll) := by
  have h : Inv s := by
    refine hrun.invariant (inv_init φ) ?_
    intro t e u ht hen hstep
    exact inv_step ht hen.1 hen.2 hstep
  refine ⟨fun hcalled _ => h.quit hcalled, fun hpolls hplace => ?_⟩
  have hawake := h.awake (Or.inr ⟨hpolls, hplace⟩)
  exact EventLoop.mayPoll_of_awake hawake (by rw [hplace]; rfl) (by rw [hplace]; decide)

/-- The owner queues a functor as soon as `startLoop` has returned, and the
loop is destroyed while it waits in `poll`. -/
theorem requests_before_loop_kept_queued :
    ∃ s, ((machine Nat).restrict WaitsForLoop).Run (init Nat) [.startLoop, .construct, .publish,
        .startLoopReturns, .inLoop (.push 7), .enterLoop, .inLoop .enterPoll,
        .inLoop (.wakeup 0), .destroy, .destroyQuit] s ∧
      s.quitCalled = true ∧ s.polls = 1 ∧ s.loop.place = .polling ∧
      s.loop.pendingFunctors_ = [⟨7, 0, none⟩] ∧ s.loop.quit_ = true ∧ s.loop.MayPoll := by
  have heval : (((machine Nat).restrict WaitsForLoop).exec (init Nat) [.startLoop, .construct,
        .publish, .startLoopReturns, .inLoop (.push 7), .enterLoop, .inLoop .enterPoll,
        .inLoop (.wakeup 0), .destroy, .destroyQuit]).map
          (fun s => (s.quitCalled, s.polls, s.loop.place, s.loop.pendingFunctors_))
      = some (true, 1, .polling, [⟨7, 0, none⟩]) := by decide +kernel
  obtain ⟨s, hrun, hval⟩ := Machine.exists_run_of_exec heval
  simp only [Prod.mk.injEq] at hval
  obtain ⟨hcalled, hpolls, hplace, hpending⟩ := hval
  have hkept := requests_before_loop_kept hrun
  exact ⟨s, hrun, hcalled, hpolls, hplace, hpending, hkept.1 hcalled hplace, hkept.2 hpolls hplace⟩

/-- The owner destroys the `EventLoopThread` between the publication of the
loop and its `loop()`. Later the loop waits in `poll`, the eventfd is read and
`quit_` is false, and the owner waits for the thread to end. In the other run
`callback_` queues a functor, and the loop enters its first `poll` with the
eventfd at zero and no thread about to write. -/
theorem requests_before_loop_lost :
    (∃ s, (machine Nat).Run (init Nat) [.startLoop, .construct, .publish, .startLoopReturns,
        .destroy, .destroyQuit, .destroyWakeup, .enterLoop, .inLoop .enterPoll,
        .inLoop (.pollReturn true), .inLoop .handleRead, .inLoop .endHandling, .inLoop .swap,
        .inLoop .endRunning, .inLoop .returnFromFunctors, .inLoop .enterPoll] s ∧
      s.owner = .joining ∧ s.quitCalled = true ∧ s.loop.place = .polling ∧
      s.loop.quit_ = false ∧ s.loop.wakeupFd_ = 0) ∧
    ∃ s, (machine Nat).Run (init Nat) [.startLoop, .construct, .callbackPush 7, .publish,
        .enterLoop, .inLoop .enterPoll] s ∧
      s.polls = 1 ∧ s.loop.place = .polling ∧ ¬ s.loop.MayPoll := by
  constructor
  · have heval : ((machine Nat).exec (init Nat) [.startLoop, .construct, .publish,
        .startLoopReturns, .destroy, .destroyQuit, .destroyWakeup, .enterLoop, .inLoop .enterPoll,
        .inLoop (.pollReturn true), .inLoop .handleRead, .inLoop .endHandling, .inLoop .swap,
        .inLoop .endRunning, .inLoop .returnFromFunctors, .inLoop .enterPoll]).map
          (fun s => (s.owner, s.quitCalled, s.loop.place, s.loop.quit_, s.loop.wakeupFd_))
        = some (.joining, true, .polling, false, 0) := by decide +kernel
    obtain ⟨s, hrun, hval⟩ := Machine.exists_run_of_exec heval
    simp only [Prod.mk.injEq] at hval
    exact ⟨s, hrun, hval⟩
  · have heval : ((machine Nat).exec (init Nat) [.startLoop, .construct, .callbackPush 7,
        .publish, .enterLoop, .inLoop .enterPoll]).map
          (fun s => (s.polls, s.loop.place, s.loop.pendingFunctors_, s.loop.wakeupFd_,
            s.loop.waking))
        = some (1, .polling, [⟨7, 0, none⟩], 0, []) := by decide +kernel
    obtain ⟨s, hrun, hval⟩ := Machine.exists_run_of_exec heval
    simp only [Prod.mk.injEq] at hval
    obtain ⟨hpolls, hplace, hpending, hfd, hwaking⟩ := hval
    refine ⟨s, hrun, hpolls, hplace, fun hmay => ?_⟩
    rcases hmay (by simp [hpending]) with hpos | ⟨task, -, hmem⟩
    · omega
    · rw [hwaking] at hmem
      cases hmem

end EventLoopThread

end Muduo.Net
