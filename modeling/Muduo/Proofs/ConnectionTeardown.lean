import Muduo.Proofs.ConnectionLoop

/-!
# `Muduo.Proofs.ConnectionTeardown`: `connectDestroyed` from `~TcpServer`

`~TcpServer` runs `connectDestroyed` on every connection it still has, in
whatever state. `connectDestroyed` goes down itself only from `kConnected`.
From `kDisconnected` there is nothing left to do. In `kDisconnecting`,
where `shutdown` and `forceClose` leave a connection for a while, it does
neither: the channel keeps its interest and `state_` its value, and an
`assert` of `Channel::remove` or of `~TcpConnection` fails.

`connectDestroyed_clean_iff` says that this is the only such state.
`Kept` is the invariant behind it: until the server lets go of an
established connection, its channel is in the poller's map.
-/

set_option autoImplicit false

namespace Muduo.Net.ConnectionLoop

open Muduo.Lib
open TcpConnection

/-- A connection that the server has not let go of. -/
structure Kept (s : ConnectionLoop) : Prop where
  alive : Alive s
  notQueued : .connectDestroyed ∉ queued s
  registered : s.conn.state_ ≠ .kConnecting → s.conn.channel_.registered = true

theorem noWake_of_noReadToggle {s : ConnectionLoop} {e : Event} (h : NoReadToggle s e) :
    NoWakeWhenDown s e := by
  refine noWake_of_noToggle ?_
  intro k hk
  refine h k ?_
  rw [callsWhenDown] at hk
  cases hact : actOf s e with
  | none =>
      rw [hact] at hk
      cases hk
  | some a =>
      rw [hact] at hk
      simp only at hk
      split at hk
      · exact hk
      · cases hk

theorem eq_of_destroysBy {a : Act} (h : destroysBy a = true) :
    ∃ w cb, a = .runFunctor .connectDestroyed w cb := by
  cases a with
  | runFunctor f w cb =>
      cases f with
      | connectDestroyed => exact ⟨w, cb, rfl⟩
      | sendInLoop message => cases h
      | shutdownInLoop => cases h
      | forceCloseInLoop => cases h
      | startReadInLoop => cases h
      | stopReadInLoop => cases h
      | writeCompleteCallback => cases h
      | highWaterMarkCallback len => cases h
  | call inLoop k => cases h
  | connectEstablished cb => cases h
  | handleRead r taken cb => cases h
  | handleWrite w => cases h
  | handleClose cb => cases h
  | delayedForceClose => cases h

/-- The server keeps a connection that is up. -/
theorem kept_step {s s' : ConnectionLoop} {e : Event} (h : Kept s) (hen : enabled s e = true)
    (htoggle : NoReadToggle s e) (hkept : KeptByServer s e) (hstep : step s e = .ok s') :
    Kept s' := by
  have hquiet := noWake_of_noReadToggle htoggle
  obtain ⟨halive, hmoved⟩ := alive_step h.alive hen hquiet hstep
  refine ⟨halive, ?_, ?_⟩
  · intro hmem
    exact h.notQueued (destroys_step h.alive hen hquiet hkept hstep hmem)
  · intro hne
    rcases state_cases s'.conn with hst' | hup' | hst'
    · exact absurd hst' hne
    · exact (halive.life.up hup').2.2
    · -- Down: either this step closed the connection or it was closed before.
      cases hc : closes s e with
      | true => exact (hmoved.closed hc).2.1
      | false =>
          rcases state_cases s.conn with hst | hup | hst
          · rcases hmoved.connecting hst with hcon | hup
            · exact absurd hcon hne
            · exact absurd hst' (ne_down_of_up hup).2
          · exact absurd hst' (ne_down_of_up (hmoved.up hup hc)).2
          · -- Closed before, and only `connectDestroyed` takes a channel out of `channels_`.
            have hnot : ∀ a, actOf s e = some a → destroysBy a = false := by
              intro a hact
              cases hd : destroysBy a with
              | false => rfl
              | true =>
                  obtain ⟨w, cb, rfl⟩ := eq_of_destroysBy hd
                  exact absurd (mem_queued_of_actOf hact) h.notQueued
            rw [(hmoved.down hst).2.2 hnot]
            exact h.registered (by rw [hst]; decide)

theorem kept_init (writeComplete highWater : Bool) (mark : Nat) :
    Kept (init writeComplete highWater mark) where
  alive := alive_init writeComplete highWater mark
  notQueued hm := by cases hm
  registered hne := absurd rfl hne

/-! ### `connectDestroyed` by the state it finds -/

/-- Teardown as it should be: `connectDestroyed` returns, the connection is
down and without interest, and the destructor's `assert` holds. -/
def CleanTeardown (cb : List Call) (c : TcpConnection) : Prop :=
  ∃ c', c.connectDestroyed cb = .ok c' ∧ c'.state_ = .kDisconnected ∧
    c'.channel_.events_ = Channel.kNoneEvent ∧ c'.dtor = .ok ()

/-- `connectDestroyed` is clean when it comes to `Channel::remove` with a
connection `c₁` that is down and registered. -/
theorem cleanTeardown_of_remove {c c₁ : TcpConnection} {cb : List Call}
    (hdes : c.connectDestroyed cb = c₁.onChannel Channel.remove) (hd : Down c₁)
    (hentry : c₁.channel_.Entry) (hreg : c₁.channel_.registered = true) : CleanTeardown cb c := by
  obtain ⟨ch, hrem, -, hev, -⟩ := Channel.remove_spec hentry hreg hd.events
  refine ⟨{ c₁ with channel_ := ch }, ?_, hd.state, hev, assertThat_pos hd.state⟩
  rw [hdes, onChannel, hrem]
  rfl

/-- `connectDestroyed` on a connection that is up. -/
theorem cleanTeardown_of_connected {c : TcpConnection} {cb : List Call} (h : Inv c)
    (hst : c.state_ = .kConnected) (hcb : ∀ k ∈ cb, wakes c k = false) : CleanTeardown cb c := by
  obtain ⟨ch, hoff, hch, -⟩ := goDown_spec h
  have hdown : Down (emit { c with state_ := .kDisconnected, channel_ := ch }
      (.connectionCallback .kDisconnected)) := ⟨rfl, hch.events⟩
  refine cleanTeardown_of_remove ?_ hdown hch.entry hch.registered
  rw [connectDestroyed, if_pos hst, hoff, ok_bind, runCallback_of_down hdown hcb, ok_bind]

/-- `connectDestroyed` behind `handleClose`. -/
theorem cleanTeardown_of_down {c : TcpConnection} (cb : List Call) (h : Inv c) (hd : Down c)
    (hreg : c.channel_.registered = true) : CleanTeardown cb c := by
  have hne : c.state_ ≠ .kConnected := by rw [hd.state]; decide
  refine cleanTeardown_of_remove ?_ hd h.entry hreg
  rw [connectDestroyed, if_neg hne]

/-- In `kDisconnecting` the state survives `connectDestroyed`. -/
theorem not_cleanTeardown_of_disconnecting {c : TcpConnection} (cb : List Call) (h : Inv c)
    (hst : c.state_ = .kDisconnecting) : ¬ CleanTeardown cb c := by
  rintro ⟨c', hdes, hst', -, -⟩
  have hne : c.state_ ≠ .kConnected := by rw [hst]; decide
  -- The branch that sets `kDisconnected` is not taken.
  rw [connectDestroyed, if_neg hne] at hdes
  obtain ⟨-, ch, rfl, -, -⟩ := (remove_inv h).post hdes
  have hst'' : c.state_ = .kDisconnected := hst'
  rw [hst] at hst''
  cases hst''

/-- Take an established connection that the server still has, after any run
without `startRead` and `stopRead`. `connectDestroyed` tears it down
cleanly if and only if it is not in `kDisconnecting`. -/
theorem connectDestroyed_clean_iff (writeComplete highWater : Bool) (mark : Nat)
    (es : List Event) (s : ConnectionLoop)
    (hrun : (machine.restrict fun s e => NoReadToggle s e ∧ KeptByServer s e).Run
      (init writeComplete highWater mark) es s)
    (hestablished : s.conn.state_ ≠ .kConnecting) (cb : List Call)
    (hcb : ∀ k ∈ cb, togglesReading k = false) :
    CleanTeardown cb s.conn ↔ s.conn.state_ ≠ .kDisconnecting := by
  have h : Kept s := by
    refine hrun.invariant (kept_init writeComplete highWater mark) ?_
    rintro t e u ht ⟨hen, htoggle, hkept⟩ hst
    exact kept_step ht hen htoggle hkept hst
  have hlife := h.alive.life
  constructor
  · intro hclean hst
    exact not_cleanTeardown_of_disconnecting cb hlife.inv hst hclean
  · intro hne
    cases hst : s.conn.state_ with
    | kConnecting => exact absurd hst hestablished
    | kDisconnecting => exact absurd hst hne
    -- The two states in which `connectDestroyed` does its work.
    | kDisconnected =>
        exact cleanTeardown_of_down cb hlife.inv (hlife.down hst).1 (h.registered hestablished)
    | kConnected =>
        exact cleanTeardown_of_connected hlife.inv hst fun k hk =>
          not_wakes_of_not_togglesReading (hcb k hk)

/-- A connection with unsent output and no shutdown under way. -/
theorem connectDestroyed_clean_iff_connected :
    ∃ s, (machine.restrict fun s e => NoReadToggle s e ∧ KeptByServer s e).Run
        (init false false 64)
      [.connectEstablished [], .call true (.send ⟨[1, 2], by decide⟩ (.accept 1))] s ∧
      CleanTeardown [.shutdown] s.conn := by
  have heval : ((machine.restrict fun s e => NoReadToggle s e ∧ KeptByServer s e).exec
        (init false false 64)
      [.connectEstablished [], .call true (.send ⟨[1, 2], by decide⟩ (.accept 1))]).map
        (fun s => s.conn.state_) = some .kConnected := by decide +kernel
  obtain ⟨s, hrun, hst⟩ := Machine.exists_run_of_exec heval
  refine ⟨s, hrun, ?_⟩
  exact (connectDestroyed_clean_iff false false 64 _ s hrun (by rw [hst]; decide) [.shutdown]
    (by decide)).mpr (by rw [hst]; decide)

/-- After `shutdown`, `connectDestroyed` leaves the read interest in place
and stops at the `assert` of `Channel::remove`. -/
theorem connectDestroyed_asserts_after_shutdown :
    ∃ s, (machine.restrict fun s e => NoReadToggle s e ∧ KeptByServer s e).Run
        (init false false 64) [.connectEstablished [], .call true .shutdown] s ∧
      s.conn.state_ = .kDisconnecting ∧
      s.conn.connectDestroyed [] = .error (.channel .removeInterest) ∧
      ¬ CleanTeardown [] s.conn := by
  have heval : ((machine.restrict fun s e => NoReadToggle s e ∧ KeptByServer s e).exec
        (init false false 64) [.connectEstablished [], .call true .shutdown]).map
        (fun s => (s.conn.state_, faultOf (s.conn.connectDestroyed [])))
      = some (.kDisconnecting, some (.channel .removeInterest)) := by decide +kernel
  obtain ⟨s, hrun, hval⟩ := Machine.exists_run_of_exec heval
  simp only [Prod.mk.injEq] at hval
  have hfault := eq_error_of_faultOf hval.2
  refine ⟨s, hrun, hval.1, hfault, ?_⟩
  rintro ⟨c', hc', -⟩
  rw [hfault] at hc'
  cases hc'

end Muduo.Net.ConnectionLoop
