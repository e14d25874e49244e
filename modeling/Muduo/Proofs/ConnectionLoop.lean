import Muduo.Proofs.ConnectionLife

/-!
# `Muduo.Proofs.ConnectionLoop`: the life of a connection over whole runs

`Alive` is the invariant of every run in which nothing done to a closed
connection touches its read interest. It is `Life` of the connection, with
two facts about the queues: before the connection is established they are
empty, and `connectDestroyed` is queued only after the close.

A closed connection stays out of the epoll set only if it was in the set
when it was closed (`Calm`). The sources do not ensure this: `stopRead`
takes a connection with nothing to write out of the set, and `disableAll`
in `handleClose` then puts it back with an empty mask. Poll reports
`POLLHUP` for it, and `handleClose` runs into its `assert`
(`handleClose_asserts_after_stopRead`).
-/

set_option autoImplicit false

namespace Muduo.Net.ConnectionLoop

open Muduo.Lib
open TcpConnection

variable {s s' : ConnectionLoop} {e : Event}

/-! ### One step -/

/-- The functors that `doPendingFunctors` has still to run. -/
def batch : Phase → List Functor
  | .functors fs => fs
  | _ => []

/-- Every functor of the connection that waits somewhere. -/
def queued (s : ConnectionLoop) : List Functor :=
  batch s.phase ++ (s.conn.pendingFunctors_ ++ s.inflight)

/-- `c` is the connection after the function that the event runs. -/
def Ran (s : ConnectionLoop) (e : Event) (c : TcpConnection) : Prop :=
  match actOf s e with
  | some a => s.conn.act a = .ok c
  | none => c = s.conn

/-- A step is a function of the connection, then a move of functors and of
the loop. -/
theorem step_cases (h : step s e = .ok s') :
    ∃ c, Ran s e c ∧
      s' = { requeue s c e with phase := nextPhase s.phase s.conn.pendingFunctors_ e } := by
  rw [step] at h
  cases hact : actOf s e with
  | none =>
      rw [hact] at h
      cases h
      exact ⟨s.conn, by rw [Ran, hact], rfl⟩
  | some a =>
      rw [hact] at h
      obtain ⟨c, hc, hret⟩ := except_bind_eq_ok.mp h
      cases hret
      exact ⟨c, by rw [Ran, hact]; exact hc, rfl⟩

theorem step_phase (h : step s e = .ok s') :
    s'.phase = nextPhase s.phase s.conn.pendingFunctors_ e := by
  obtain ⟨c, -, rfl⟩ := step_cases h
  rfl

theorem phase_of_handleEvent (hen : enabled s .handleEvent = true) :
    ∃ revents, s.phase = .active revents := by
  cases hp : s.phase with
  | active revents => exact ⟨revents, rfl⟩
  | dispatch revents stage | poll | handlers | functors fs => simp [enabled, hp] at hen

theorem phase_of_dispatch {r : Buffer.ReadResult} {taken : Nat}
    {w : WriteOutcome} {cb : List Call} (hen : enabled s (.dispatch r taken w cb) = true) :
    ∃ revents stage, s.phase = .dispatch revents stage := by
  cases hp : s.phase with
  | dispatch revents stage => exact ⟨revents, stage, rfl⟩
  | active revents | poll | handlers | functors fs => simp [enabled, hp] at hen

theorem phase_of_runFunctor {w : WriteOutcome} {cb : List Call}
    (hen : enabled s (.runFunctor w cb) = true) : ∃ f fs, s.phase = .functors (f :: fs) := by
  cases hp : s.phase with
  | functors fs =>
      cases fs with
      | nil => simp [enabled, hp] at hen
      | cons f fs => exact ⟨f, fs, rfl⟩
  | active revents | dispatch revents stage | poll | handlers => simp [enabled, hp] at hen

/-- Moving functors changes nothing else of the connection. -/
theorem requeue_conn (s : ConnectionLoop) (c : TcpConnection) (e : Event) :
    ∃ p, (requeue s c e).conn = { c with pendingFunctors_ := p } := by
  cases e with
  | swap => exact ⟨[], rfl⟩
  | call inLoop k =>
      cases inLoop with
      | true => exact ⟨c.pendingFunctors_, rfl⟩
      | false => exact ⟨s.conn.pendingFunctors_, rfl⟩
  | push i =>
      simp only [requeue]
      split
      · exact ⟨_, rfl⟩
      · exact ⟨c.pendingFunctors_, rfl⟩
  | queueDestroyed => exact ⟨_, rfl⟩
  | connectEstablished cb => exact ⟨c.pendingFunctors_, rfl⟩
  | pollReturn report => exact ⟨c.pendingFunctors_, rfl⟩
  | handleEvent => exact ⟨c.pendingFunctors_, rfl⟩
  | dispatch r taken w cb => exact ⟨c.pendingFunctors_, rfl⟩
  | runFunctor w cb => exact ⟨c.pendingFunctors_, rfl⟩
  | finish => exact ⟨c.pendingFunctors_, rfl⟩
  | timer => exact ⟨c.pendingFunctors_, rfl⟩

/-- The functors that the loop takes over with a step were in its queue. -/
theorem mem_batch_nextPhase {f : Functor}
    (h : f ∈ batch (nextPhase s.phase s.conn.pendingFunctors_ e)) : f ∈ queued s := by
  have hbatch : f ∈ batch s.phase → f ∈ queued s := fun hm => List.mem_append_left _ hm
  cases e with
  | pollReturn report => cases report <;> cases h
  | handleEvent =>
      cases hp : s.phase <;> rw [hp] at h
      case functors fs => exact hbatch (hp ▸ h)
      all_goals cases h
  | dispatch r taken w cb =>
      cases hp : s.phase <;> rw [hp] at h
      case functors fs => exact hbatch (hp ▸ h)
      case dispatch revents stage => cases stage <;> cases h
      all_goals cases h
  | swap => exact List.mem_append_right _ (List.mem_append_left _ h)
  | runFunctor w cb =>
      cases hp : s.phase <;> rw [hp] at h
      case functors fs =>
        cases fs with
        | nil => cases h
        | cons g fs => exact hbatch (hp ▸ List.mem_cons_of_mem g h)
      all_goals cases h
  | finish => cases h
  | connectEstablished cb => exact hbatch h
  | call inLoop k => exact hbatch h
  | push i => exact hbatch h
  | timer => exact hbatch h
  | queueDestroyed => exact hbatch h

/-- The functors that wait for the loop after a step waited before, or the
function that ran has queued them. -/
theorem mem_requeue {c : TcpConnection} {f : Functor}
    (hf : e = .queueDestroyed → f ≠ .connectDestroyed)
    (h : f ∈ (requeue s c e).conn.pendingFunctors_ ++ (requeue s c e).inflight) :
    f ∈ c.pendingFunctors_ ∨ f ∈ queued s := by
  have hinflight : f ∈ s.inflight → f ∈ queued s :=
    fun hm => List.mem_append_right _ (List.mem_append_right _ hm)
  have hsame : f ∈ c.pendingFunctors_ ++ s.inflight → f ∈ c.pendingFunctors_ ∨ f ∈ queued s :=
    fun hm => (List.mem_append.mp hm).imp id hinflight
  cases e with
  | swap => exact Or.inr (hinflight h)
  | call inLoop k =>
      cases inLoop with
      | true => exact hsame h
      | false =>
          rcases List.mem_append.mp h with hm | hm
          · -- Another thread's call pushes later: its functors are in flight.
            exact Or.inr (List.mem_append_right _ (List.mem_append_left _ hm))
          · rcases List.mem_append.mp hm with hm | hm
            · exact Or.inr (hinflight hm)
            · exact Or.inl (List.mem_of_mem_drop hm)
  | push i =>
      -- The functor was in flight before.
      simp only [requeue] at h
      split at h
      · rename_i g hg
        rcases List.mem_append.mp h with hm | hm
        · rcases List.mem_append.mp hm with hm | hm
          · exact Or.inl hm
          · rw [List.mem_singleton.mp hm]
            exact Or.inr (List.mem_append_right _ (List.mem_append_right _
              (List.mem_of_getElem? hg)))
        · exact Or.inr (hinflight (List.mem_of_mem_eraseIdx hm))
      · exact hsame h
  | queueDestroyed =>
      rcases List.mem_append.mp h with hm | hm
      · rcases List.mem_append.mp hm with hm | hm
        · exact Or.inl hm
        · exact absurd (List.mem_singleton.mp hm) (hf rfl)
      · exact Or.inr (hinflight hm)
  | connectEstablished cb => exact hsame h
  | pollReturn report => exact hsame h
  | handleEvent => exact hsame h
  | dispatch r taken w cb => exact hsame h
  | runFunctor w cb => exact hsame h
  | finish => exact hsame h
  | timer => exact hsame h

/-! ### The invariant of every run -/

/-- The loop is not about to handle an event of this channel, and is not
handling one. -/
def isElsewhere : Phase → Bool
  | .active _ | .dispatch _ _ => false
  | .poll | .handlers | .functors _ => true

/-- Before the connection is established nothing waits for it. -/
structure Fresh (s : ConnectionLoop) : Prop where
  queued : queued s = []
  delayed : s.conn.delayed = 0
  epoll : s.conn.channel_.epoll = none
  elsewhere : isElsewhere s.phase = true

/-- What holds after every run in which nothing done to a closed
connection touches its read interest. -/
structure Alive (s : ConnectionLoop) : Prop where
  life : Life s.conn
  fresh : s.conn.state_ = .kConnecting → Fresh s
  destroys : .connectDestroyed ∈ queued s → s.conn.state_ = .kDisconnected

/-- What a step makes of the connection. -/
structure Moved (s : ConnectionLoop) (e : Event) (s' : ConnectionLoop) : Prop where
  connecting : s.conn.state_ = .kConnecting → s'.conn.state_ = .kConnecting ∨ s'.conn.isUp = true
  up : s.conn.isUp = true → closes s e = false → s'.conn.isUp = true
  closed : closes s e = true → s'.conn.state_ = .kDisconnected ∧
    s'.conn.channel_.registered = true ∧
    (s.conn.channel_.epoll.isSome = true → s'.conn.channel_.epoll = none)
  down : s.conn.state_ = .kDisconnected → s'.conn.state_ = .kDisconnected ∧
    (s.conn.channel_.epoll = none → s'.conn.channel_.epoll = none) ∧
    ((∀ a, actOf s e = some a → destroysBy a = false) → s'.conn.channel_ = s.conn.channel_)

/-- Before it is established, a connection sees nothing but
`connectEstablished`. -/
theorem actOf_of_fresh {a : Act} (hf : Fresh s)
    (hst : s.conn.state_ = .kConnecting) (hen : enabled s e = true) (hact : actOf s e = some a) :
    ∃ cb, a = .connectEstablished cb := by
  cases e with
  | connectEstablished cb =>
      cases hact
      exact ⟨cb, rfl⟩
  | dispatch r taken w cb =>
      -- Poll has never reported the channel.
      have helse := hf.elsewhere
      obtain ⟨revents, stage, hp⟩ := phase_of_dispatch hen
      simp [hp, isElsewhere] at helse
  | runFunctor w cb =>
      have hnil := hf.queued
      obtain ⟨f, fs, hp⟩ := phase_of_runFunctor hen
      simp [queued, hp, batch] at hnil
  | call inLoop k => simp [enabled, hst] at hen
  | timer => simp [enabled, hf.delayed] at hen
  | pollReturn report => cases hact
  | handleEvent => cases hact
  | swap => cases hact
  | finish => cases hact
  | push i => cases hact
  | queueDestroyed => cases hact

/-- A `connectDestroyed` that runs was queued. -/
theorem mem_queued_of_actOf {f : Functor} {w : WriteOutcome}
    {cb : List Call} (hact : actOf s e = some (.runFunctor f w cb)) : f ∈ queued s := by
  cases e with
  | runFunctor w' cb' =>
      cases hp : s.phase <;> simp [actOf, hp] at hact
      case functors fs =>
        cases fs with
        | nil => simp at hact
        | cons g fs =>
            simp only [Option.some.injEq, Act.runFunctor.injEq] at hact
            refine List.mem_append_left _ ?_
            rw [hp, ← hact.1]
            exact List.mem_cons_self
  | dispatch r taken w' cb' =>
      cases hp : s.phase <;> simp [actOf, hp] at hact
      case dispatch revents stage => cases stage <;> simp at hact
  | connectEstablished cb' => simp [actOf] at hact
  | call inLoop k => simp [actOf] at hact
  | timer => simp [actOf] at hact
  | pollReturn report => cases hact
  | handleEvent => cases hact
  | swap => cases hact
  | finish => cases hact
  | push i => cases hact
  | queueDestroyed => cases hact

theorem act_permitted {a : Act} (h : Alive s)
    (hen : enabled s e = true) (hquiet : NoWakeWhenDown s e) (hact : actOf s e = some a) :
    Permitted s.conn a where
  connecting hst := actOf_of_fresh (h.fresh hst) hst hen hact
  quiet hdown k hk := by
    refine hquiet k ?_
    rw [callsWhenDown, hact]
    simpa [hdown] using hk
  destroy w cb ha := by
    subst ha
    exact h.destroys (mem_queued_of_actOf hact)

/-- The function that an event runs, seen by `act_life`. -/
theorem ran_lived {a : Act} {c : TcpConnection} (h : Alive s)
    (hen : enabled s e = true) (hquiet : NoWakeWhenDown s e) (hact : actOf s e = some a)
    (hc : s.conn.act a = .ok c) : Lived s.conn a c :=
  act_life h.life hc (act_permitted h hen hquiet hact)

/-- The life of a connection does not depend on the queue. -/
theorem life_withPending {c : TcpConnection} (h : Life c) (p : List Functor) :
    Life { c with pendingFunctors_ := p } := by
  have hinv := h.inv
  exact
    { inv := ⟨hinv.input, hinv.output, hinv.entry, hinv.stream, hinv.interest, hinv.shutdowns⟩
      connecting := h.connecting
      up := h.up
      down := fun hst => ⟨⟨hst, (h.down hst).1.events⟩, (h.down hst).2⟩ }

/-- A step moves the connection through its life. -/
theorem step_moved (h : Alive s) (hen : enabled s e = true)
    (hquiet : NoWakeWhenDown s e) (hstep : step s e = .ok s') : Life s'.conn ∧ Moved s e s' := by
  obtain ⟨c, hran, rfl⟩ := step_cases hstep
  obtain ⟨p, hp⟩ := requeue_conn s c e
  simp only [hp]
  cases hact : actOf s e with
  | none =>
      rw [Ran, hact] at hran
      subst hran
      have hno : closes s e = false := by rw [closes, hact]
      exact
        ⟨life_withPending h.life p,
          { connecting := fun hst => Or.inl hst
            up := fun hup _ => hup
            closed := fun hyes => by rw [hno] at hyes; cases hyes
            down := fun hst => ⟨hst, fun hep => hep, fun _ => rfl⟩ }⟩
  | some a =>
      rw [Ran, hact] at hran
      have hlived := ran_lived h hen hquiet hact hran
      have hcl : closes s e = closesBy s.conn a := by rw [closes, hact]
      exact
        ⟨life_withPending hlived.life p,
          { connecting := fun hst => Or.inr (hlived.connecting hst)
            up := fun hup hno => hlived.up hup (hcl ▸ hno)
            closed := fun hyes => hlived.closed (hcl ▸ hyes)
            down := fun hst => ⟨(hlived.down hst).1, (hlived.down hst).2.1,
              fun hnot => (hlived.down hst).2.2 (hnot a hact)⟩ }⟩

/-- `connectDestroyed` is queued for a closed connection. -/
theorem down_of_queueDestroyed (h : Alive s)
    (hen : enabled s .queueDestroyed = true) : s.conn.state_ = .kDisconnected := by
  have hmem : .closeCallback ∈ s.conn.log := by
    simp only [enabled, Bool.and_eq_true, List.contains_iff_mem] at hen
    exact hen.1
  have hpos : 0 < TcpConnection.closes s.conn.log := List.count_pos_iff.mpr hmem
  rcases state_cases s.conn with hst | hup | hst
  · have := (h.life.connecting hst).2
    omega
  · have := (h.life.up hup).2.1
    omega
  · exact hst

/-- After a step, every functor that waits waited before, but for the
`connectDestroyed` of `queueDestroyed` and what the function that ran has
queued. -/
theorem mem_queued_step {c : TcpConnection} {f : Functor}
    (hf : e = .queueDestroyed → f ≠ .connectDestroyed)
    (h : f ∈ queued { requeue s c e with phase := nextPhase s.phase s.conn.pendingFunctors_ e }) :
    f ∈ c.pendingFunctors_ ∨ f ∈ queued s := by
  rw [queued, List.mem_append] at h
  rcases h with hm | hm
  · exact Or.inr (mem_batch_nextPhase hm)
  · exact mem_requeue hf hm

/-- The loop comes to this channel only when poll reports it. -/
theorem isElsewhere_nextPhase {phase : Phase} {pending : List Functor}
    (hpoll : ∀ revents, e ≠ .pollReturn (some revents)) (h : isElsewhere phase = true) :
    isElsewhere (nextPhase phase pending e) = true := by
  cases e with
  | pollReturn report =>
      cases report with
      | none => rfl
      | some revents => exact absurd rfl (hpoll revents)
  | handleEvent =>
      cases phase with
      | active revents => cases h
      | dispatch revents stage => cases h
      | poll => rfl
      | handlers => rfl
      | functors fs => rfl
  | dispatch r taken w cb =>
      cases phase with
      | active revents => cases h
      | dispatch revents stage => cases h
      | poll => rfl
      | handlers => rfl
      | functors fs => rfl
  | runFunctor w cb =>
      cases phase with
      | active revents => cases h
      | dispatch revents stage => cases h
      | poll => rfl
      | handlers => rfl
      | functors fs => cases fs <;> rfl
  | swap => rfl
  | finish => rfl
  | connectEstablished cb => exact h
  | call inLoop k => exact h
  | push i => exact h
  | timer => exact h
  | queueDestroyed => exact h

/-- Poll does not report a channel that is not in the epoll set. -/
theorem not_reported {revents : EventMask}
    (hout : s.conn.channel_.epoll = none) : enabled s (.pollReturn (some revents)) = false := by
  simp [enabled, hout]

theorem fresh_step (h : Alive s) (hen : enabled s e = true)
    (hquiet : NoWakeWhenDown s e) (hstep : step s e = .ok s')
    (hst : s.conn.state_ = .kConnecting) (hst' : s'.conn.state_ = .kConnecting) : Fresh s' := by
  have hf := h.fresh hst
  have hnotDestroy : e ≠ .queueDestroyed := by
    rintro rfl
    rw [down_of_queueDestroyed h hen] at hst
    cases hst
  obtain ⟨c, hran, rfl⟩ := step_cases hstep
  obtain ⟨p, hp⟩ := requeue_conn s c e
  cases hact : actOf s e with
  | some a =>
      -- The function is `connectEstablished`, and the connection is up after it.
      rw [Ran, hact] at hran
      have hup := (ran_lived h hen hquiet hact hran).connecting hst
      have hconn : c.state_ = .kConnecting := by
        simp only [hp] at hst'
        exact hst'
      rw [(ne_up_of_connecting hconn).1] at hup
      cases hup
  | none =>
      rw [Ran, hact] at hran
      subst hran
      -- The channel is not in the epoll set before `enableReading`.
      have hpoll : ∀ revents, e ≠ .pollReturn (some revents) := by
        rintro revents rfl
        rw [not_reported hf.epoll] at hen
        cases hen
      refine ⟨?_, ?_, ?_, isElsewhere_nextPhase hpoll hf.elsewhere⟩
      · refine List.eq_nil_iff_forall_not_mem.mpr ?_
        intro f hm
        rcases mem_queued_step (fun he => absurd he hnotDestroy) hm with hm | hm
        · have : f ∈ queued s := List.mem_append_right _ (List.mem_append_left _ hm)
          rw [hf.queued] at this
          cases this
        · rw [hf.queued] at hm
          cases hm
      · simp only [hp]
        exact hf.delayed
      · simp only [hp]
        exact hf.epoll

/-- Only `queueDestroyed` queues `connectDestroyed`. -/
theorem destroys_step (h : Alive s) (hen : enabled s e = true)
    (hquiet : NoWakeWhenDown s e) (he : e ≠ .queueDestroyed) (hstep : step s e = .ok s')
    (hmem : .connectDestroyed ∈ queued s') : .connectDestroyed ∈ queued s := by
  obtain ⟨c, hran, rfl⟩ := step_cases hstep
  rcases mem_queued_step (fun he' => absurd he' he) hmem with hm | hm
  · -- No function of the connection queues `connectDestroyed` itself.
    refine List.mem_append_right _ (List.mem_append_left _ ?_)
    cases hact : actOf s e with
    | none =>
        rw [Ran, hact] at hran
        exact hran ▸ hm
    | some a =>
        rw [Ran, hact] at hran
        exact (ran_lived h hen hquiet hact hran).destroys hm
  · exact hm

theorem alive_step (h : Alive s) (hen : enabled s e = true)
    (hquiet : NoWakeWhenDown s e) (hstep : step s e = .ok s') : Alive s' ∧ Moved s e s' := by
  obtain ⟨hlife, hmoved⟩ := step_moved h hen hquiet hstep
  refine ⟨⟨hlife, ?_, ?_⟩, hmoved⟩
  · intro hst'
    rcases state_cases s.conn with hst | hup | hst
    · exact fresh_step h hen hquiet hstep hst hst'
    · -- A connection that is up does not go back.
      cases hc : closes s e with
      | true =>
          rw [(hmoved.closed hc).1] at hst'
          cases hst'
      | false =>
          have := hmoved.up hup hc
          rw [(ne_up_of_connecting hst').1] at this
          cases this
    · rw [(hmoved.down hst).1] at hst'
      cases hst'
  · intro hmem
    have hdown : s.conn.state_ = .kDisconnected := by
      by_cases he : e = .queueDestroyed
      · exact down_of_queueDestroyed h (he ▸ hen)
      · exact h.destroys (destroys_step h hen hquiet he hstep hmem)
    exact (hmoved.down hdown).1

theorem alive_init (writeComplete highWater : Bool) (mark : Nat) :
    Alive (init writeComplete highWater mark) where
  life :=
    { inv := inv_ctor writeComplete highWater mark
      connecting := fun _ => ⟨rfl, rfl⟩
      up := fun hup => by cases hup
      down := fun hst => by cases hst }
  fresh _ := ⟨rfl, rfl, rfl, rfl⟩
  destroys hm := by cases hm

/-- A fault of a step is a fault of the function that the event runs. -/
theorem step_faults {f : Fault} (h : Alive s)
    (hen : enabled s e = true) (hquiet : NoWakeWhenDown s e) (hstep : step s e = .error f) :
    ∃ a, actOf s e = some a ∧ (Throws f ∨ f = .connectEstablished ∨
      (s.conn.state_ = .kDisconnected ∧ DownFault (handlesEvent a) f)) := by
  rw [step] at hstep
  cases hact : actOf s e with
  | none =>
      rw [hact] at hstep
      cases hstep
  | some a =>
      rw [hact] at hstep
      refine ⟨a, rfl, ?_⟩
      have hfault : s.conn.act a = .error f := by
        cases hc : s.conn.act a with
        | ok c =>
            simp only [hc] at hstep
            cases hstep
        | error f' =>
            simp only [hc] at hstep
            cases hstep
            rfl
      exact act_faults h.life hfault (act_permitted h hen hquiet hact)

/-! ### A connection closed while it was in the epoll set -/

/-- Poll has reported this channel, and no handler of it has run yet. -/
def isComing : Phase → Bool
  | .active _ | .dispatch _ .close => true
  | _ => false

/-- A closed connection is out of the epoll set, and the loop comes to the
channel only while the connection is up. -/
structure Calm (s : ConnectionLoop) : Prop where
  alive : Alive s
  out : s.conn.state_ = .kDisconnected → s.conn.channel_.epoll = none
  coming : isComing s.phase = true → s.conn.isUp = true

/-- The loop comes to the channel by a report of poll, and from then on no
handler of it has run. -/
theorem isComing_nextPhase {phase : Phase} {pending : List Functor}
    (hactive : ∀ r taken w cb revents, e = .dispatch r taken w cb → phase ≠ .active revents)
    (h : isComing (nextPhase phase pending e) = true) :
    (∃ revents, e = .pollReturn (some revents)) ∨
      (isComing phase = true ∧ ∀ r taken w cb, e ≠ .dispatch r taken w cb) := by
  cases e with
  | pollReturn report =>
      cases report with
      | none => cases h
      | some revents => exact Or.inl ⟨revents, rfl⟩
  | handleEvent =>
      cases phase with
      | active revents => exact Or.inr ⟨rfl, by simp⟩
      | dispatch revents stage => exact Or.inr ⟨h, by simp⟩
      | poll => cases h
      | handlers => cases h
      | functors fs => cases h
  | dispatch r taken w cb =>
      cases phase with
      | active revents => exact absurd rfl (hactive r taken w cb revents rfl)
      | dispatch revents stage => cases stage <;> cases h
      | poll => cases h
      | handlers => cases h
      | functors fs => cases h
  | runFunctor w cb =>
      cases phase with
      | active revents => exact Or.inr ⟨rfl, by simp⟩
      | dispatch revents stage => exact Or.inr ⟨h, by simp⟩
      | poll => cases h
      | handlers => cases h
      | functors fs => cases fs <;> cases h
  | swap => cases h
  | finish => cases h
  | connectEstablished cb => exact Or.inr ⟨h, by simp⟩
  | call inLoop k => exact Or.inr ⟨h, by simp⟩
  | push i => exact Or.inr ⟨h, by simp⟩
  | timer => exact Or.inr ⟨h, by simp⟩
  | queueDestroyed => exact Or.inr ⟨h, by simp⟩

theorem not_active_of_dispatch (hen : enabled s e = true) :
    ∀ r taken w cb revents, e = .dispatch r taken w cb → s.phase ≠ .active revents := by
  rintro r taken w cb revents rfl hp
  simp [enabled, hp] at hen

/-- While the loop comes to the channel, nothing closes the connection. -/
theorem not_closes_of_coming (h : isComing s.phase = true)
    (he : ∀ r taken w cb, e ≠ .dispatch r taken w cb) : closes s e = false := by
  cases e with
  | dispatch r taken w cb => exact absurd rfl (he r taken w cb)
  | runFunctor w cb =>
      cases hp : s.phase <;> rw [hp] at h
      case functors fs => cases h
      all_goals simp [closes, actOf, hp]
  | connectEstablished cb => rfl
  | call inLoop k => rfl
  | timer => rfl
  | pollReturn report => rfl
  | handleEvent => rfl
  | swap => rfl
  | finish => rfl
  | push i => rfl
  | queueDestroyed => rfl

theorem calm_step (h : Calm s) (hen : enabled s e = true)
    (hquiet : NoWakeWhenDown s e) (hset : ClosedInSet s e) (hstep : step s e = .ok s') :
    Calm s' := by
  obtain ⟨halive, hmoved⟩ := alive_step h.alive hen hquiet hstep
  refine ⟨halive, ?_, ?_⟩
  · intro hst'
    rcases state_cases s.conn with hst | hup | hst
    · rcases hmoved.connecting hst with hst'' | hup
      · rw [hst'] at hst''
        cases hst''
      · exact absurd hst' (ne_down_of_up hup).2
    · cases hc : closes s e with
      -- The channel was in the epoll set, and `disableAll` took it out.
      | true => exact (hmoved.closed hc).2.2 (hset hc)
      | false => exact absurd hst' (ne_down_of_up (hmoved.up hup hc)).2
    · exact (hmoved.down hst).2.1 (h.out hst)
  · intro hcoming
    rw [step_phase hstep] at hcoming
    rcases isComing_nextPhase (not_active_of_dispatch hen) hcoming with
      ⟨revents, rfl⟩ | ⟨hold, hne⟩
    · -- A report: the channel is in the epoll set, so the connection is up.
      have hup : s.conn.isUp = true := by
        rcases state_cases s.conn with hst | hup | hst
        · rw [not_reported (h.alive.fresh hst).epoll] at hen
          cases hen
        · exact hup
        · rw [not_reported (h.out hst)] at hen
          cases hen
      exact hmoved.up hup rfl
    · -- Between the report and the first handler nothing closes.
      exact hmoved.up (h.coming hold) (not_closes_of_coming hold hne)

theorem calm_init (writeComplete highWater : Bool) (mark : Nat) :
    Calm (init writeComplete highWater mark) where
  alive := alive_init writeComplete highWater mark
  out hst := by cases hst
  coming h := by cases h

/-! ### The callbacks fire once -/

/-- When the close handler runs for these `revents`, the read handler does
not. -/
def HupIsLast (revents : EventMask) : Prop :=
  Channel.wantsClose revents = true → Channel.wantsRead revents = false

/-- The kernel's promise about `POLLHUP`, in terms of the handlers. -/
theorem hupIsLast_of_kernel {revents : EventMask}
    (h : KernelHup s (.pollReturn (some revents))) : HupIsLast revents := by
  intro hclose
  simp only [Channel.wantsClose, Bool.and_eq_true, bne_iff_ne, Bool.not_eq_true',
    bne_eq_false_iff_eq] at hclose
  have hrest := h hclose.1 hclose.2
  -- `POLLIN` is excluded by the test of `handleEvent`, the others by the kernel.
  have hmask : POLLIN ||| POLLPRI ||| POLLRDHUP = POLLIN ||| (POLLPRI ||| POLLRDHUP) := by decide
  rw [Channel.wantsRead, hmask, BitVec.and_or_distrib_left, hclose.2, hrest]
  decide

/-- No handler that can run `handleClose` is ahead of a closed
connection. -/
def Guarded (s : ConnectionLoop) : Prop :=
  match s.phase with
  | .active revents | .dispatch revents .close => HupIsLast revents
  | .dispatch revents .error | .dispatch revents .read =>
      s.conn.isUp = true ∨ Channel.wantsRead revents = false
  | _ => True

/-- The handler that has just been passed was the close handler or the
error handler. -/
theorem guarded_dispatch {r : Buffer.ReadResult} {taken : Nat}
    {w : WriteOutcome} {cb : List Call} (h : Calm s) (hg : Guarded s)
    (hen : enabled s (.dispatch r taken w cb) = true)
    (hmoved : Moved s (.dispatch r taken w cb) s')
    (hphase : s'.phase = nextPhase s.phase s.conn.pendingFunctors_ (.dispatch r taken w cb)) :
    Guarded s' := by
  obtain ⟨revents, stage, hp⟩ := phase_of_dispatch hen
  rw [Guarded, hp] at hg
  rw [Guarded, hphase, hp]
  cases stage with
  | close =>
      cases hc : Channel.wantsClose revents with
      -- The close handler ran, and the promise keeps the read handler away.
      | true => exact Or.inr (hg hc)
      | false =>
          -- The close handler did not run, so the connection is still up.
          have hno : closes s (.dispatch r taken w cb) = false := by simp [closes, actOf, hp, hc]
          exact Or.inl (hmoved.up (h.coming (by rw [hp]; rfl)) hno)
  | error =>
      have hno : closes s (.dispatch r taken w cb) = false := by simp [closes, actOf, hp]
      exact hg.imp (fun hup => hmoved.up hup hno) id
  | read => trivial
  | write => trivial

/-- An event that leaves the loop where it is, and closes nothing. -/
theorem guarded_same (hg : Guarded s) (hmoved : Moved s e s')
    (hno : closes s e = false) (hphase : s'.phase = s.phase) : Guarded s' := by
  rw [Guarded] at hg ⊢
  rw [hphase]
  match hp : s.phase with
  | .dispatch revents .close => rw [hp] at hg; exact hg
  | .dispatch revents .error =>
      rw [hp] at hg
      exact hg.imp (fun hup => hmoved.up hup hno) id
  | .dispatch revents .read =>
      rw [hp] at hg
      exact hg.imp (fun hup => hmoved.up hup hno) id
  | .dispatch revents .write => trivial
  | .poll => trivial
  | .active revents => rw [hp] at hg; exact hg
  | .handlers => trivial
  | .functors fs => trivial

theorem guarded_step (h : Calm s) (hg : Guarded s)
    (hen : enabled s e = true) (hquiet : NoWakeWhenDown s e) (hkernel : KernelHup s e)
    (hstep : step s e = .ok s') : Guarded s' := by
  have hmoved := (alive_step h.alive hen hquiet hstep).2
  have hphase := step_phase hstep
  cases e with
  | pollReturn report =>
      rw [Guarded, hphase]
      cases report with
      | none => trivial
      | some revents => exact hupIsLast_of_kernel hkernel
  | handleEvent =>
      obtain ⟨revents, hp⟩ := phase_of_handleEvent hen
      rw [Guarded, hp] at hg
      rw [Guarded, hphase, hp]
      exact hg
  | dispatch r taken w cb => exact guarded_dispatch h hg hen hmoved hphase
  | runFunctor w cb =>
      obtain ⟨f, fs, hp⟩ := phase_of_runFunctor hen
      rw [Guarded, hphase, hp]
      trivial
  | swap => rw [Guarded, hphase]; trivial
  | finish => rw [Guarded, hphase]; trivial
  | connectEstablished cb => exact guarded_same hg hmoved rfl hphase
  | call inLoop k => exact guarded_same hg hmoved rfl hphase
  | push i => exact guarded_same hg hmoved rfl hphase
  | timer => exact guarded_same hg hmoved rfl hphase
  | queueDestroyed => exact guarded_same hg hmoved rfl hphase

/-- In a dispatch that has closed the connection only the write handler is
still to come. The close handler comes first, and behind it the kernel's
promise keeps the read handler away. -/
theorem dispatch_of_down {r : Buffer.ReadResult} {taken : Nat}
    {w : WriteOutcome} {cb : List Call} (h : Calm s) (hg : Guarded s)
    (hst : s.conn.state_ = .kDisconnected) (hen : enabled s (.dispatch r taken w cb) = true) :
    actOf s (.dispatch r taken w cb) = none ∨
      actOf s (.dispatch r taken w cb) = some (.handleWrite w) := by
  have hdown : s.conn.isUp ≠ true := fun hup => (ne_down_of_up hup).2 hst
  obtain ⟨revents, stage, hp⟩ := phase_of_dispatch hen
  rw [Guarded, hp] at hg
  cases stage with
  | close => exact absurd (h.coming (by rw [hp]; rfl)) hdown
  | error => exact Or.inl (by simp [actOf, hp])
  | read =>
      have hread : Channel.wantsRead revents = false := hg.resolve_left hdown
      exact Or.inl (by simp [actOf, hp, hread])
  | write =>
      cases hw : Channel.wantsWrite revents with
      | true => exact Or.inr (by simp [actOf, hp, hw])
      | false => exact Or.inl (by simp [actOf, hp, hw])

/-- No step runs into the `assert` of `handleClose`. -/
theorem handleClose_safe (h : Calm s) (hg : Guarded s)
    (hen : enabled s e = true) (hquiet : NoWakeWhenDown s e) : step s e ≠ .error .handleClose := by
  intro hstep
  obtain ⟨a, hact, hfault⟩ := step_faults h.alive hen hquiet hstep
  rcases hfault with hf | hf | ⟨hst, hf | hf | ⟨-, hevent⟩ | hf⟩
  · cases hf
  · cases hf
  · cases hf
  · cases hf
  · -- The act is the close or the read handler of a connection that is down.
    cases e with
    | dispatch r taken w cb =>
        rcases dispatch_of_down h hg hst hen with hnone | hwrite
        · rw [hnone] at hact
          cases hact
        · rw [hwrite] at hact
          cases hact
          cases hevent
    | runFunctor w cb =>
        obtain ⟨f, fs, hp⟩ := phase_of_runFunctor hen
        simp only [actOf, hp, Option.some.injEq] at hact
        rw [← hact] at hevent
        cases hevent
    | connectEstablished cb => cases hact; cases hevent
    | call inLoop k => cases hact; cases hevent
    | timer => cases hact; cases hevent
    | pollReturn report => cases hact
    | handleEvent => cases hact
    | swap => cases hact
    | finish => cases hact
    | push i => cases hact
    | queueDestroyed => cases hact
  · cases hf

/-- Only `startRead` and `stopRead` can wake a connection. -/
theorem not_wakes_of_not_togglesReading {c : TcpConnection} {k : Call}
    (h : togglesReading k = false) : wakes c k = false := by
  cases k with
  | startRead => cases h
  | stopRead => cases h
  | send message w => rfl
  | shutdown => rfl
  | forceClose => rfl
  | forceCloseWithDelay => rfl

/-- A closed connection that nothing toggles is not woken. -/
theorem noWake_of_noToggle (h : NoReadToggleWhenDown s e) : NoWakeWhenDown s e :=
  fun k hk => not_wakes_of_not_togglesReading (h k hk)

/-- The up and down callbacks of a connection, in every run in which the
kernel keeps its promise about `POLLHUP`, no `startRead` or `stopRead` is
executed with the connection down, and `handleClose` does not run while the
channel is out of the epoll set:

- the connection callback has been invoked once when the connection is up,
  and once more when it is down, in this order;
- the close callback has been invoked at most once;
- the `assert` at the head of `handleClose` does not fail in any step;
- a connection that is down stays down. -/
theorem connectionCallback_fires_once (writeComplete highWater : Bool) (mark : Nat)
    (es : List Event) (s : ConnectionLoop)
    (hrun : (machine.restrict fun s e =>
      KernelHup s e ∧ NoReadToggleWhenDown s e ∧ ClosedInSet s e).Run
        (init writeComplete highWater mark) es s) :
    (s.conn.state_ = .kConnecting → callbacks s.conn.log = []) ∧
    (s.conn.state_ = .kConnected ∨ s.conn.state_ = .kDisconnecting →
      callbacks s.conn.log = [.kConnected]) ∧
    (s.conn.state_ = .kDisconnected → callbacks s.conn.log = [.kConnected, .kDisconnected]) ∧
    TcpConnection.closes s.conn.log ≤ 1 ∧
    (∀ e, enabled s e = true → KernelHup s e → NoReadToggleWhenDown s e → ClosedInSet s e →
      step s e ≠ .error .handleClose) ∧
    (∀ es' s', (machine.restrict fun s e =>
      KernelHup s e ∧ NoReadToggleWhenDown s e ∧ ClosedInSet s e).Run s es' s' →
        s.conn.state_ = .kDisconnected → s'.conn.state_ = .kDisconnected) := by
  have hstep : ∀ t e u, Calm t ∧ Guarded t → (machine.restrict fun s e =>
      KernelHup s e ∧ NoReadToggleWhenDown s e ∧ ClosedInSet s e).enabled t e →
      step t e = .ok u → Calm u ∧ Guarded u := by
    rintro t e u ⟨hcalm, hg⟩ ⟨hen, hkernel, htoggle, hset⟩ hst
    have hquiet := noWake_of_noToggle htoggle
    exact ⟨calm_step hcalm hen hquiet hset hst, guarded_step hcalm hg hen hquiet hkernel hst⟩
  obtain ⟨hcalm, hg⟩ : Calm s ∧ Guarded s :=
    hrun.invariant (I := fun t => Calm t ∧ Guarded t)
      ⟨calm_init writeComplete highWater mark, trivial⟩ hstep
  have hlife := hcalm.alive.life
  refine ⟨fun hst => (hlife.connecting hst).1, fun hst => (hlife.up (isUp_iff.mpr hst)).1,
    fun hst => (hlife.down hst).2.1, ?_, ?_, ?_⟩
  · rcases state_cases s.conn with hst | hup | hst
    · rw [(hlife.connecting hst).2]
      exact Nat.zero_le 1
    · rw [(hlife.up hup).2.1]
      exact Nat.zero_le 1
    · rw [(hlife.down hst).2.2]
  · intro e hen _ htoggle _
    exact handleClose_safe hcalm hg hen (noWake_of_noToggle htoggle)
  · intro es' s' hrun' hst
    -- The run goes on from a closed connection, with the invariant at hand.
    have hlater : (Calm s' ∧ Guarded s') ∧ s'.conn.state_ = .kDisconnected := by
      refine hrun'.invariant (I := fun t => (Calm t ∧ Guarded t) ∧ t.conn.state_ = .kDisconnected)
        ⟨⟨hcalm, hg⟩, hst⟩ ?_
      rintro t e u ⟨ht, hdown⟩ hen hu
      refine ⟨hstep t e u ht hen hu, ?_⟩
      have hquiet := noWake_of_noToggle hen.2.2.1
      exact ((alive_step ht.1.alive hen.1 hquiet hu).2.down hdown).1
    exact hlater.2

/-- A connection that the peer closes and the server destroys. -/
theorem connectionCallback_fires_once_peer :
    ∃ s, (machine.restrict fun s e =>
        KernelHup s e ∧ NoReadToggleWhenDown s e ∧ ClosedInSet s e).Run (init false false 64)
      [.connectEstablished [], .swap, .finish, .pollReturn (some POLLIN), .handleEvent,
        .dispatch .failed 0 (.accept 0) [], .dispatch .failed 0 (.accept 0) [],
        .dispatch (.delivered []) 0 (.accept 0) [.forceClose], .dispatch .failed 0 (.accept 0) [],
        .queueDestroyed, .swap, .runFunctor (.accept 0) []] s ∧
      callbacks s.conn.log = [.kConnected, .kDisconnected] := by
  have heval : ((machine.restrict fun s e =>
        KernelHup s e ∧ NoReadToggleWhenDown s e ∧ ClosedInSet s e).exec (init false false 64)
      [.connectEstablished [], .swap, .finish, .pollReturn (some POLLIN), .handleEvent,
        .dispatch .failed 0 (.accept 0) [], .dispatch .failed 0 (.accept 0) [],
        .dispatch (.delivered []) 0 (.accept 0) [.forceClose], .dispatch .failed 0 (.accept 0) [],
        .queueDestroyed, .swap, .runFunctor (.accept 0) []]).map (fun s => s.conn.state_)
      = some .kDisconnected := by decide +kernel
  obtain ⟨s, hrun, hst⟩ := Machine.exists_run_of_exec heval
  exact ⟨s, hrun, (connectionCallback_fires_once false false 64 _ s hrun).2.2.1 hst⟩

/-- The `assert` of `handleClose` fails. Reading is stopped, so the channel
leaves the epoll set. `forceClose` then closes the connection, and
`disableAll` puts the channel back with an empty mask. The peer resets the
connection, poll reports `POLLHUP` and `POLLERR`, and the close handler
finds `kDisconnected`. -/
theorem handleClose_asserts_after_stopRead :
    ∃ s, (machine.restrict fun s e => KernelHup s e ∧ NoReadToggleWhenDown s e).Run
        (init false false 64)
      [.connectEstablished [], .call true .stopRead, .call true .forceClose, .swap,
        .runFunctor (.accept 0) [], .finish, .pollReturn (some (POLLHUP ||| POLLERR)),
        .handleEvent] s ∧
      enabled s (.dispatch .failed 0 (.accept 0) []) = true ∧
      KernelHup s (.dispatch .failed 0 (.accept 0) []) ∧
      NoReadToggleWhenDown s (.dispatch .failed 0 (.accept 0) []) ∧
      step s (.dispatch .failed 0 (.accept 0) []) = .error .handleClose := by
  have heval : ((machine.restrict fun s e => KernelHup s e ∧ NoReadToggleWhenDown s e).exec
        (init false false 64)
      [.connectEstablished [], .call true .stopRead, .call true .forceClose, .swap,
        .runFunctor (.accept 0) [], .finish, .pollReturn (some (POLLHUP ||| POLLERR)),
        .handleEvent]).map (fun s => (enabled s (.dispatch .failed 0 (.accept 0) []),
          decide (NoReadToggleWhenDown s (.dispatch .failed 0 (.accept 0) [])),
          faultOf (step s (.dispatch .failed 0 (.accept 0) []))))
      = some (true, true, some .handleClose) := by decide +kernel
  obtain ⟨s, hrun, hval⟩ := Machine.exists_run_of_exec heval
  simp only [Prod.mk.injEq, decide_eq_true_eq] at hval
  obtain ⟨hen, htoggle, hfault⟩ := hval
  exact ⟨s, hrun, hen, trivial, htoggle, eq_error_of_faultOf hfault⟩

/-! ### A closed connection stays quiet -/

/-- A closed connection, in every run in which the kernel keeps its promise
about `POLLHUP`, nothing executed with the connection down touches the read
interest, and `handleClose` does not run while the channel is out of the
epoll set:

- its interest set is empty;
- the `assert`s on the interest set in `Channel::remove` and in
  `removeChannel` do not fail in any step;
- poll does not report its channel, and `handleEvent` is not called;
- the dispatch that closed the connection runs no close handler and no read
  handler any more, and its write handler does nothing. -/
theorem closed_connection_is_quiet (writeComplete highWater : Bool) (mark : Nat)
    (es : List Event) (s : ConnectionLoop)
    (hrun : (machine.restrict fun s e =>
      KernelHup s e ∧ NoWakeWhenDown s e ∧ ClosedInSet s e).Run
        (init writeComplete highWater mark) es s) :
    (s.conn.state_ = .kDisconnected → s.conn.channel_.events_ = Channel.kNoneEvent) ∧
    (∀ e, enabled s e = true → KernelHup s e → NoWakeWhenDown s e → ClosedInSet s e →
      step s e ≠ .error (.channel .removeInterest) ∧
      step s e ≠ .error (.channel .removeChannelInterest)) ∧
    (s.conn.state_ = .kDisconnected →
      (∀ revents, enabled s (.pollReturn (some revents)) = false) ∧
      enabled s .handleEvent = false ∧
      ∀ r taken w cb, enabled s (.dispatch r taken w cb) = true →
        (actOf s (.dispatch r taken w cb) = none ∨
          actOf s (.dispatch r taken w cb) = some (.handleWrite w)) ∧
        s.conn.handleWrite w = .ok s.conn) := by
  obtain ⟨h, hg⟩ : Calm s ∧ Guarded s := by
    refine hrun.invariant (I := fun t => Calm t ∧ Guarded t)
      ⟨calm_init writeComplete highWater mark, trivial⟩ ?_
    rintro t e u ⟨hcalm, hg⟩ ⟨hen, hkernel, hquiet, hset⟩ hst
    exact ⟨calm_step hcalm hen hquiet hset hst, guarded_step hcalm hg hen hquiet hkernel hst⟩
  have hdown := h.alive.life.down
  refine ⟨fun hst => (hdown hst).1.events, ?_, ?_⟩
  · intro e hen _ hquiet _
    have hfault : ∀ f, step s e = .error f → f ≠ .channel .removeInterest ∧
        f ≠ .channel .removeChannelInterest := by
      intro f hstep
      obtain ⟨a, -, hf⟩ := step_faults h.alive hen hquiet hstep
      rcases hf with rfl | rfl | ⟨-, rfl | rfl | ⟨rfl, -⟩ | rfl⟩ <;> simp
    exact ⟨fun hstep => (hfault _ hstep).1 rfl, fun hstep => (hfault _ hstep).2 rfl⟩
  · intro hst
    refine ⟨fun revents => not_reported (h.out hst), ?_, ?_⟩
    · refine eq_false_of_ne_true fun hen => ?_
      obtain ⟨revents, hp⟩ := phase_of_handleEvent hen
      have hup := h.coming (by rw [hp]; rfl)
      exact absurd hst (ne_down_of_up hup).2
    · intro r taken w cb hen
      refine ⟨dispatch_of_down h hg hst hen, ?_⟩
      simp [handleWrite, Channel.isWriting_of_none (hdown hst).1.events]

/-- The peer hangs up while another thread's `stopRead` is under way, and
the output buffer has room again. The close handler has run, and the rest
of its dispatch is still to come. -/
def hangUp : List Event :=
  [.connectEstablished [], .call false .stopRead, .swap, .finish,
    .pollReturn (some (POLLHUP ||| POLLOUT)), .handleEvent, .dispatch .failed 0 (.accept 0) [.shutdown]]

/-- The rest of that dispatch leaves the connection alone. -/
theorem closed_connection_is_quiet_hangUp :
    ∃ s, (machine.restrict fun s e => KernelHup s e ∧ NoWakeWhenDown s e ∧ ClosedInSet s e).Run
        (init false false 64) hangUp s ∧
      s.conn.channel_.events_ = Channel.kNoneEvent ∧
      enabled s (.dispatch .failed 0 (.accept 0) []) = true ∧
      (actOf s (.dispatch .failed 0 (.accept 0) []) = none ∨
        actOf s (.dispatch .failed 0 (.accept 0) []) = some (.handleWrite (.accept 0))) := by
  have heval : ((machine.restrict fun s e =>
        KernelHup s e ∧ NoWakeWhenDown s e ∧ ClosedInSet s e).exec (init false false 64) hangUp).map
        (fun s => (s.conn.state_, enabled s (.dispatch .failed 0 (.accept 0) [])))
      = some (.kDisconnected, true) := by decide +kernel
  obtain ⟨s, hrun, hval⟩ := Machine.exists_run_of_exec heval
  obtain ⟨hst, hen⟩ := Prod.ext_iff.mp hval
  have hquiet := closed_connection_is_quiet false false 64 _ s hrun
  exact ⟨s, hrun, hquiet.1 hst, hen, ((hquiet.2.2 hst).2.2 _ _ _ _ hen).1⟩

/-- `startReadInLoop` does not look at `state_`. Queued by another thread
behind a `forceCloseInLoop`, it gives the closed connection read interest,
and `connectDestroyed` stops at the `assert` of `Channel::remove`. -/
theorem startRead_wakes_closed_connection :
    ∃ s, machine.Run (init false false 64)
      [.connectEstablished [], .call true .forceClose, .call false .startRead, .push 0, .swap,
        .runFunctor (.accept 0) [], .runFunctor (.accept 0) [], .queueDestroyed, .finish,
        .pollReturn none, .swap] s ∧
      s.conn.state_ = .kDisconnected ∧ s.conn.channel_.events_ ≠ Channel.kNoneEvent ∧
      enabled s (.runFunctor (.accept 0) []) = true ∧
      step s (.runFunctor (.accept 0) []) = .error (.channel .removeInterest) := by
  have heval : (machine.exec (init false false 64)
      [.connectEstablished [], .call true .forceClose, .call false .startRead, .push 0, .swap,
        .runFunctor (.accept 0) [], .runFunctor (.accept 0) [], .queueDestroyed, .finish,
        .pollReturn none, .swap]).map (fun s => (s.conn.state_,
          decide (s.conn.channel_.events_ = Channel.kNoneEvent),
          enabled s (.runFunctor (.accept 0) []), faultOf (step s (.runFunctor (.accept 0) []))))
      = some (.kDisconnected, false, true, some (.channel .removeInterest)) := by decide +kernel
  obtain ⟨s, hrun, hval⟩ := Machine.exists_run_of_exec heval
  simp only [Prod.mk.injEq, decide_eq_false_iff_not] at hval
  obtain ⟨hst, hev, hen, hfault⟩ := hval
  exact ⟨s, hrun, hst, hev, hen, eq_error_of_faultOf hfault⟩

end Muduo.Net.ConnectionLoop
