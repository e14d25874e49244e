import Muduo.Net.EventLoop

/-!
# `Muduo.Proofs.EventLoop`: functors run in order and are not forgotten

Two invariants of the loop.

`Fifo`: what has been executed, what `doPendingFunctors` still has to run and
what is queued make up the sequence of all pushes, in this order. It holds in
every run.

`Awake`: from the swap of `doPendingFunctors` up to the next return of `poll`,
a functor in the queue has a wakeup. Either the eventfd is readable, or the
thread of every queued functor is about to write to it. A handler may queue
without a wakeup, because `doPendingFunctors` follows.

A destructor of a functor may not. `callingPendingFunctors_` is false when
`functors` is destroyed, so `queueInLoop` does not write, and no
`doPendingFunctors` follows before `poll`. `destructor_queues_unnoticed` is
such a run. `Awake` holds in the runs without such a call.
-/

set_option autoImplicit false

namespace Muduo.Net.EventLoop

open Muduo.Lib

variable {φ : Type} {s s' : EventLoop φ} {e : Event φ}

/-! ### The order of the functors -/

structure Fifo (s : EventLoop φ) : Prop where
  order : s.executed.map Prod.fst ++ s.rest ++ s.pendingFunctors_ = s.pushed
  numbers : s.pushed.map Task.number = List.range s.pushed.length
  rest : s.rest ≠ [] → ∃ busy, s.place = .running busy
  executed : ∀ p ∈ s.executed, ∀ k, p.1.queuedIn = some k → k < p.2
  running : ∀ task ∈ s.rest, ∀ k, task.queuedIn = some k → k < s.calls
  pending : ∀ task ∈ s.pendingFunctors_, ∀ k, task.queuedIn = some k →
    k ≤ s.calls ∧ (s.place = .swapping → k < s.calls)

theorem fifo_init (φ : Type) : Fifo (init φ) where
  order := rfl
  numbers := rfl
  rest h := absurd rfl h
  executed p hp := by cases hp
  running task h := by cases h
  pending task h := by cases h

/-- A step that moves the loop thread and leaves the queues alone. -/
theorem Fifo.move (h : Fifo s) (hrest : s'.rest = s.rest)
    (hpending : s'.pendingFunctors_ = s.pendingFunctors_) (hpushed : s'.pushed = s.pushed)
    (hexecuted : s'.executed = s.executed) (hcalls : s'.calls = s.calls)
    (hplace : s'.place = s.place ∨
      s'.place ≠ .swapping ∧ (s.rest = [] ∨ ∃ busy, s'.place = .running busy)) : Fifo s' where
  order := by rw [hrest, hpending, hpushed, hexecuted]; exact h.order
  numbers := by rw [hpushed]; exact h.numbers
  rest := by
    rw [hrest]
    intro hne
    rcases hplace with hsame | ⟨-, hnil | hrunning⟩
    · rw [hsame]
      exact h.rest hne
    · exact absurd hnil hne
    · exact hrunning
  executed := by rw [hexecuted]; exact h.executed
  running := by rw [hrest, hcalls]; exact h.running
  pending := by
    rw [hpending, hcalls]
    intro task htask k hk
    refine ⟨(h.pending task htask k hk).1, ?_⟩
    intro hswap
    rcases hplace with hsame | ⟨hne, -⟩
    · rw [hsame] at hswap
      exact (h.pending task htask k hk).2 hswap
    · exact absurd hswap hne

/-- Outside the loop over `functors` nothing is left of it. -/
theorem Fifo.rest_nil (h : Fifo s) (hplace : ∀ busy, s.place ≠ .running busy) : s.rest = [] := by
  by_contra hne
  obtain ⟨busy, hbusy⟩ := h.rest hne
  exact hplace busy hbusy

theorem Fifo.pushBack (h : Fifo s) (f : φ) {queuedIn : Option Nat}
    (hqueued : ∀ k, queuedIn = some k → k ≤ s.calls ∧ s.place ≠ .swapping) :
    Fifo (s.pushBack ⟨f, s.pushed.length, queuedIn⟩) := by
  constructor
  case order =>
    show s.executed.map Prod.fst ++ s.rest ++ (s.pendingFunctors_ ++ _) = s.pushed ++ _
    rw [← List.append_assoc, h.order]
  case numbers =>
    show (s.pushed ++ _).map _ = List.range (s.pushed ++ _).length
    rw [List.map_append, h.numbers, List.length_append]
    exact List.range_succ.symm
  case rest => exact h.rest
  case executed => exact h.executed
  case running => exact h.running
  case pending =>
    intro task htask k hk
    rcases List.mem_append.mp htask with hold | hnew
    · exact h.pending task hold k hk
    · cases List.mem_singleton.mp hnew
      obtain ⟨hle, hne⟩ := hqueued k hk
      exact ⟨hle, fun hswap => absurd hswap hne⟩

theorem currentCall_eq {k : Nat} (h : s.currentCall = some k) :
    s.place = .running true ∧ k = s.calls := by
  unfold currentCall at h
  split at h
  · rename_i hplace
    exact ⟨hplace, (Option.some.inj h).symm⟩
  · cases h

/-- A new call of `doPendingFunctors` begins. -/
theorem Fifo.endHandling (h : Fifo s) (hen : enabled s .endHandling = true)
    (hstep : step s .endHandling = .ok s') : Fifo s' := by
  have hplace : s.place = .handling false := by simpa [enabled] using hen
  have hnil : s.rest = [] := h.rest_nil (by simp [hplace])
  cases hstep
  constructor
  case order => exact h.order
  case numbers => exact h.numbers
  case rest => exact fun hne => absurd hnil hne
  case executed => exact h.executed
  case running =>
    intro task htask
    rw [show s.rest = [] from hnil] at htask
    cases htask
  case pending =>
    intro task htask k hk
    -- What earlier calls queued is older than the new one.
    have hle := (h.pending task htask k hk).1
    show k ≤ s.calls + 1 ∧ (_ → k < s.calls + 1)
    exact ⟨by omega, fun _ => by omega⟩

/-- What was queued is now what is left to run. -/
theorem Fifo.swap (h : Fifo s) (hen : enabled s .swap = true) (hstep : step s .swap = .ok s') :
    Fifo s' := by
  have hplace : s.place = .swapping := by simpa [enabled] using hen
  have hnil : s.rest = [] := h.rest_nil (by simp [hplace])
  cases hstep
  constructor
  case order =>
    have horder := h.order
    rw [hnil, List.append_nil] at horder
    show _ ++ s.pendingFunctors_ ++ [] = s.pushed
    rw [List.append_nil, horder]
  case numbers => exact h.numbers
  case rest => exact fun _ => ⟨false, rfl⟩
  case executed => exact h.executed
  case running =>
    intro task htask k hk
    exact (h.pending task htask k hk).2 hplace
  case pending =>
    intro task htask
    cases htask

/-- The next functor is executed, in the current call. -/
theorem Fifo.runFunctor (h : Fifo s) (hen : enabled s .runFunctor = true)
    (hstep : step s .runFunctor = .ok s') : Fifo s' := by
  cases hrest : s.rest with
  | nil => simp [enabled, hrest] at hen
  | cons task rest =>
      rw [step, hrest] at hstep
      cases hstep
      constructor
      case order =>
        have horder := h.order
        rw [hrest] at horder
        show List.map _ (_ ++ [_]) ++ rest ++ _ = s.pushed
        rw [← horder]
        simp
      case numbers => exact h.numbers
      case rest => exact fun _ => ⟨true, rfl⟩
      case executed =>
        intro p hp k hk
        rcases List.mem_append.mp hp with hold | hnew
        · exact h.executed p hold k hk
        · cases List.mem_singleton.mp hnew
          refine h.running task ?_ k hk
          rw [hrest]
          exact List.mem_cons_self
      case running =>
        intro task' htask'
        refine h.running task' ?_
        rw [hrest]
        exact List.mem_cons_of_mem _ htask'
      case pending =>
        intro task' htask' k hk
        refine ⟨(h.pending task' htask' k hk).1, ?_⟩
        intro hswap
        cases hswap

theorem fifo_step (h : Fifo s) (hen : enabled s e = true) (hstep : step s e = .ok s') :
    Fifo s' := by
  cases e with
  | push f =>
      cases hstep
      exact (h.pushBack f (by simp)).move rfl rfl rfl rfl rfl (.inl rfl)
  | loopPush f =>
      cases hstep
      refine (h.pushBack f ?_).move rfl rfl rfl rfl rfl (.inl rfl)
      intro k hk
      obtain ⟨hplace, rfl⟩ := currentCall_eq hk
      exact ⟨Nat.le_refl _, by simp [hplace]⟩
  | wakeup number | quit | quitWakeup | loopWakeup | loopQuit | destroyFunctor =>
      cases hstep
      exact h.move rfl rfl rfl rfl rfl (.inl rfl)
  | enterPoll | leaveLoop | pollReturn wakeup | handleRead | returnFromFunctors =>
      cases hstep
      have hnil : s.rest = [] := by
        refine h.rest_nil ?_
        intro busy hbusy
        simp [enabled, hbusy] at hen
      exact h.move rfl rfl rfl rfl rfl (.inr ⟨by simp, .inl hnil⟩)
  | endHandling => exact h.endHandling hen hstep
  | swap => exact h.swap hen hstep
  | runFunctor => exact h.runFunctor hen hstep
  | functorReturn =>
      cases hstep
      exact h.move rfl rfl rfl rfl rfl (.inr ⟨by simp, .inr ⟨false, rfl⟩⟩)
  | endRunning =>
      have hnil : s.rest = [] := by
        simp only [enabled, Bool.and_eq_true, List.isEmpty_iff] at hen
        exact hen.2
      cases hstep
      exact h.move rfl rfl rfl rfl rfl (.inr ⟨by simp, .inl hnil⟩)

/-- In every run the functors are executed in the order of their pushes,
and a functor that was queued by a running functor is executed in a later
call of `doPendingFunctors`. -/
theorem executed_in_order {es : List (Event φ)} (hrun : (machine φ).Run (init φ) es s) :
    s.executed.map Prod.fst <+: s.pushed ∧
    s.pushed.map Task.number = List.range s.pushed.length ∧
    ∀ task k k', (task, k) ∈ s.executed → task.queuedIn = some k' → k' < k := by
  have h : Fifo s := hrun.invariant (fifo_init φ) fun t e u ht hen hstep => fifo_step ht hen hstep
  refine ⟨⟨s.rest ++ s.pendingFunctors_, ?_⟩, h.numbers, ?_⟩
  · rw [← List.append_assoc]
    exact h.order
  · intro task k k' hmem hk'
    exact h.executed _ hmem k' hk'

/-! ### Wakeups -/

/-- Between the swap and the next return of `poll`. -/
def Place.isPastSwap : Place → Bool
  | .top | .polling | .running _ | .destroying => true
  | .handling _ | .swapping | .exited => false

/-- In `doPendingFunctors`, with `callingPendingFunctors_` set. -/
def Place.isCalling : Place → Bool
  | .swapping | .running _ => true
  | _ => false

structure Awake (s : EventLoop φ) : Prop where
  calling : s.callingPendingFunctors_ = s.place.isCalling
  owes : s.owesWakeup = true → s.place = .running true
  wakeup : s.place.isPastSwap = true → 0 < s.wakeupFd_ ∨ s.owesWakeup = true ∨
    ∀ task ∈ s.pendingFunctors_, task.number ∈ s.waking

theorem awake_init (φ : Type) : Awake (init φ) where
  calling := rfl
  owes h := by cases h
  wakeup _ := .inr (.inr fun task h => by cases h)

theorem write_pos (counter : Nat) : 0 < write counter := by
  unfold write
  split
  · omega
  · omega

/-- A step that writes to the eventfd. -/
theorem Awake.written (h : Awake s) (hplace : s'.place = s.place)
    (hcalling : s'.callingPendingFunctors_ = s.callingPendingFunctors_)
    (howes : s'.owesWakeup = true → s.owesWakeup = true)
    (hwrite : s'.wakeupFd_ = write s.wakeupFd_) : Awake s' where
  calling := by rw [hcalling, hplace]; exact h.calling
  owes ho := by rw [hplace]; exact h.owes (howes ho)
  wakeup _ := by
    left
    rw [hwrite]
    exact write_pos _

/-- A step that does not concern the wakeups. -/
theorem Awake.same (h : Awake s) (hplace : s'.place = s.place)
    (hcalling : s'.callingPendingFunctors_ = s.callingPendingFunctors_)
    (howes : s'.owesWakeup = s.owesWakeup) (hfd : s'.wakeupFd_ = s.wakeupFd_)
    (hwaking : s'.waking = s.waking) (hpending : s'.pendingFunctors_ = s.pendingFunctors_) :
    Awake s' where
  calling := by rw [hcalling, hplace]; exact h.calling
  owes := by rw [howes, hplace]; exact h.owes
  wakeup := by rw [hplace, hfd, howes, hpending, hwaking]; exact h.wakeup

theorem Awake.owes_false {p : Place} (h : Awake s) (hplace : s.place = p)
    (hp : p ≠ .running true) : s.owesWakeup = false := by
  cases howes : s.owesWakeup with
  | false => rfl
  | true => exact absurd (hplace.symm.trans (h.owes howes)) hp

theorem Awake.calling_at {p p' : Place} (h : Awake s) (hplace : s.place = p)
    (hsame : p.isCalling = p'.isCalling) : s.callingPendingFunctors_ = p'.isCalling := by
  rw [h.calling, hplace, hsame]

/-- A step of the loop thread to a place where the queue needs no wakeup. -/
theorem awake_of_not_past (howes : s'.owesWakeup = false)
    (hcalling : s'.callingPendingFunctors_ = s'.place.isCalling)
    (hpast : s'.place.isPastSwap = false) : Awake s' where
  calling := hcalling
  owes ho := by
    rw [howes] at ho
    cases ho
  wakeup hp := by
    rw [hpast] at hp
    cases hp

/-- A step of the loop thread from `p`, which is past the swap, to another
place. -/
theorem Awake.past {p : Place} (h : Awake s) (hplace : s.place = p) (hpast : p.isPastSwap = true)
    (howes : s.owesWakeup = false) (howes' : s'.owesWakeup = s.owesWakeup)
    (hcalling : s'.callingPendingFunctors_ = s'.place.isCalling)
    (hfd : s'.wakeupFd_ = s.wakeupFd_) (hwaking : s'.waking = s.waking)
    (hpending : s'.pendingFunctors_ = s.pendingFunctors_) : Awake s' where
  calling := hcalling
  owes ho := by
    rw [howes', howes] at ho
    cases ho
  wakeup _ := by
    rw [hfd, howes', hpending, hwaking]
    exact h.wakeup (hplace ▸ hpast)

/-- A functor of the loop thread. The write follows when
`callingPendingFunctors_` is set, and `doPendingFunctors` follows in a
handler. Only a destructor has neither. -/
theorem awake_loopPush (h : Awake s) (f : φ) (huser : s.inUserCode = true)
    (hquiet : s.place ≠ .destroying) (hstep : step s (.loopPush f) = .ok s') : Awake s' := by
  cases hstep
  constructor
  case calling => exact h.calling
  case owes =>
    intro ho
    have hcall : s.place.isCalling = true := h.calling ▸ ho
    show s.place = .running true
    cases hplace : s.place with
    | running busy => simpa [inUserCode, hplace] using huser
    | top | polling | handling wakeup | swapping | destroying | exited =>
        simp [inUserCode, hplace, Place.isCalling] at huser hcall
  case wakeup =>
    intro hpast
    -- Past the swap, user code runs in a functor or in a destructor.
    have hplace : s.place = .running true := by
      change s.place.isPastSwap = true at hpast
      cases hplace : s.place with
      | running busy => simpa [inUserCode, hplace] using huser
      | destroying => exact absurd hplace hquiet
      | top | polling | handling wakeup | swapping | exited =>
          simp [inUserCode, hplace, Place.isPastSwap] at huser hpast
    right
    left
    show s.callingPendingFunctors_ = true
    rw [h.calling, hplace]
    rfl

/-- A new functor comes with a thread that is about to write. -/
theorem Awake.push (h : Awake s) {f : φ} (hstep : step s (.push f) = .ok s') : Awake s' := by
  cases hstep
  constructor
  case calling => exact h.calling
  case owes => exact h.owes
  case wakeup =>
    intro hpast
    rcases h.wakeup hpast with hfd | howes | hall
    · exact .inl hfd
    · exact .inr (.inl howes)
    · right
      right
      intro task htask
      rcases List.mem_append.mp htask with hold | hnew
      · exact List.mem_cons_of_mem _ (hall task hold)
      · cases List.mem_singleton.mp hnew
        exact List.mem_cons_self

theorem awake_step (h : Awake s) (hen : enabled s e = true) (hquiet : QuietDestructors s e)
    (hstep : step s e = .ok s') : Awake s' := by
  cases e with
  | push f => exact h.push hstep
  | wakeup number =>
      cases hstep
      exact h.written rfl rfl (fun ho => ho) rfl
  | quitWakeup =>
      cases hstep
      exact h.written rfl rfl (fun ho => ho) rfl
  | loopWakeup =>
      cases hstep
      exact h.written rfl rfl (fun ho => by cases ho) rfl
  | loopPush f =>
      have huser : s.inUserCode = true := (Bool.and_eq_true _ _ ▸ hen).1
      exact awake_loopPush h f huser hquiet hstep
  | quit | loopQuit | destroyFunctor =>
      cases hstep
      exact h.same rfl rfl rfl rfl rfl rfl
  | enterPoll =>
      have hplace : s.place = .top := (by simpa [enabled] using hen : _ ∧ _).1
      cases hstep
      exact h.past hplace rfl (h.owes_false hplace (by decide)) rfl (h.calling_at hplace rfl)
        rfl rfl rfl
  | leaveLoop =>
      have hplace : s.place = .top := (by simpa [enabled] using hen : _ ∧ _).1
      cases hstep
      exact awake_of_not_past (h.owes_false hplace (by decide)) (h.calling_at hplace rfl) rfl
  | pollReturn wakeup =>
      have hplace : s.place = .polling := (by simpa [enabled] using hen : _ ∧ _).1
      cases hstep
      exact awake_of_not_past (h.owes_false hplace (by decide)) (h.calling_at hplace rfl) rfl
  | handleRead =>
      -- The counter goes to zero, but the swap is still to come.
      have hplace : s.place = .handling true := by simpa [enabled] using hen
      cases hstep
      exact awake_of_not_past (h.owes_false hplace (by decide)) (h.calling_at hplace rfl) rfl
  | endHandling =>
      have hplace : s.place = .handling false := by simpa [enabled] using hen
      cases hstep
      exact awake_of_not_past (h.owes_false hplace (by decide)) rfl rfl
  | swap =>
      -- The queue is empty now, and the obligation starts again from there.
      have hplace : s.place = .swapping := by simpa [enabled] using hen
      have howes := h.owes_false hplace (by decide)
      have hcalling : s.callingPendingFunctors_ = (Place.running false).isCalling :=
        h.calling_at hplace rfl
      cases hstep
      exact
        { calling := hcalling
          owes := fun ho => by
            rw [show s.owesWakeup = true from ho] at howes
            cases howes
          wakeup := fun _ => .inr (.inr fun task htask => by cases htask) }
  | runFunctor =>
      have hplace : s.place = .running false := (by simpa [enabled] using hen : _ ∧ _).1
      cases hrest : s.rest with
      | nil => simp [enabled, hrest] at hen
      | cons task rest =>
          rw [step, hrest] at hstep
          cases hstep
          exact h.past hplace rfl (h.owes_false hplace (by decide)) rfl (h.calling_at hplace rfl)
            rfl rfl rfl
  | functorReturn =>
      obtain ⟨hplace, howes⟩ : s.place = .running true ∧ s.owesWakeup = false := by
        simpa [enabled] using hen
      cases hstep
      exact h.past hplace rfl howes rfl (h.calling_at hplace rfl) rfl rfl rfl
  | endRunning =>
      have hplace : s.place = .running false := (by simpa [enabled] using hen : _ ∧ _).1
      cases hstep
      exact h.past hplace rfl (h.owes_false hplace (by decide)) rfl rfl rfl rfl rfl
  | returnFromFunctors =>
      have hplace : s.place = .destroying := (by simpa [enabled] using hen : _ ∧ _).1
      cases hstep
      exact h.past hplace rfl (h.owes_false hplace (by decide)) rfl (h.calling_at hplace rfl)
        rfl rfl rfl

theorem mayPoll_of_awake (h : Awake s) (hpast : s.place.isPastSwap = true)
    (hidle : s.place ≠ .running true) : MayPoll s := by
  intro hne
  rcases h.wakeup hpast with hfd | howes | hall
  · exact .inl hfd
  · exact absurd (h.owes howes) hidle
  · obtain ⟨task, htask⟩ := List.exists_mem_of_ne_nil _ hne
    exact .inr ⟨task, htask, hall task htask⟩

/-- Take a run in which no destructor of a functor queues a functor.
Functors are executed in the order of their pushes, each at most once, and
one that a running functor has queued in a later call of
`doPendingFunctors`. Whenever the loop thread enters `poll` with functors
in the queue, the eventfd is readable or the thread of one of them is about
to write to it. -/
theorem no_functor_left_in_poll (φ : Type) (es : List (Event φ)) (s : EventLoop φ)
    (hrun : ((machine φ).restrict QuietDestructors).Run (init φ) es s) :
    s.executed.map Prod.fst <+: s.pushed ∧
    s.pushed.map Task.number = List.range s.pushed.length ∧
    (∀ task k k', (task, k) ∈ s.executed → task.queuedIn = some k' → k' < k) ∧
    ((machine φ).enabled s .enterPoll → MayPoll s) := by
  obtain ⟨hinit, hnumbers, hlater⟩ := executed_in_order hrun.of_restrict
  refine ⟨hinit, hnumbers, hlater, ?_⟩
  intro hen
  have h : Awake s := by
    refine hrun.invariant (awake_init φ) ?_
    intro t e u ht hen hstep
    exact awake_step ht hen.1 hen.2 hstep
  have hplace : s.place = .top := (by simpa [machine, enabled] using hen : _ ∧ _).1
  exact mayPoll_of_awake h (by rw [hplace]; rfl) (by rw [hplace]; decide)

/-- A functor queues another one. Its thread writes to the eventfd, so the
loop can poll, and the other one has not run in the same call. -/
theorem no_functor_left_in_poll_nested :
    ∃ s, ((machine Nat).restrict QuietDestructors).Run (init Nat) [.enterPoll, .push 7, .wakeup 0,
        .pollReturn true, .handleRead, .endHandling, .swap, .runFunctor, .loopPush 8, .loopWakeup,
        .functorReturn, .endRunning, .destroyFunctor, .returnFromFunctors] s ∧
      s.pendingFunctors_ = [⟨8, 1, some 1⟩] ∧ MayPoll s := by
  have heval : (((machine Nat).restrict QuietDestructors).exec (init Nat) [.enterPoll, .push 7,
        .wakeup 0, .pollReturn true, .handleRead, .endHandling, .swap, .runFunctor, .loopPush 8,
        .loopWakeup, .functorReturn, .endRunning, .destroyFunctor, .returnFromFunctors]).map
          (fun s => (s.pendingFunctors_, enabled s .enterPoll))
      = some ([⟨8, 1, some 1⟩], true) := by decide +kernel
  obtain ⟨s, hrun, hval⟩ := Machine.exists_run_of_exec heval
  simp only [Prod.mk.injEq] at hval
  exact ⟨s, hrun, hval.1, (no_functor_left_in_poll Nat _ s hrun).2.2.2 hval.2⟩

/-- A functor that is forgotten. The destructor of a functor calls
`queueInLoop` in the loop thread, and the loop enters `poll` with the new
functor in the queue, the eventfd at zero and no thread about to write. -/
theorem destructor_queues_unnoticed :
    ∃ s, (machine Nat).Run (init Nat) [.enterPoll, .push 7, .wakeup 0, .pollReturn true,
        .handleRead, .endHandling, .swap, .runFunctor, .functorReturn, .endRunning, .loopPush 8,
        .destroyFunctor, .returnFromFunctors] s ∧
      (machine Nat).enabled s .enterPoll ∧ ¬ MayPoll s := by
  have heval : ((machine Nat).exec (init Nat) [.enterPoll, .push 7, .wakeup 0, .pollReturn true,
        .handleRead, .endHandling, .swap, .runFunctor, .functorReturn, .endRunning, .loopPush 8,
        .destroyFunctor, .returnFromFunctors]).map
          (fun s => (s.pendingFunctors_, s.wakeupFd_, s.waking, enabled s .enterPoll))
      = some ([⟨8, 1, none⟩], 0, [], true) := by decide +kernel
  obtain ⟨s, hrun, hval⟩ := Machine.exists_run_of_exec heval
  simp only [Prod.mk.injEq] at hval
  obtain ⟨hpending, hfd, hwaking, hen⟩ := hval
  refine ⟨s, hrun, hen, ?_⟩
  intro hmay
  rcases hmay (by simp [hpending]) with hpos | ⟨task, -, hmem⟩
  · omega
  · rw [hwaking] at hmem
    cases hmem

end Muduo.Net.EventLoop
