import Muduo.Net.ConnectionLoop
import Muduo.Proofs.TcpConnection

/-!
# `Muduo.Proofs.ConnectionLife`: up, closing and down

What an `Act` does to the life of a connection, by the state it finds:

- on a connection that is up, an act that does not close it keeps the
  callbacks it has made (`act_of_up`);
- an act that closes it makes the one down callback and the one close
  callback, and takes the channel out of the epoll set, provided that it
  was in it (`act_of_close`);
- on a connection that is down, an act changes nothing of this, provided
  that it does not touch the read interest (`act_of_down`). A second
  `handleClose` stops at its `assert`.

`Life` puts the three together. It needs a condition on the calls made
with the connection down, as `startReadInLoop` and `stopReadInLoop` do not
look at `state_`.
-/

set_option autoImplicit false

namespace Muduo.Net.TcpConnection

open Muduo.Base
open Muduo.Lib
open ConnectionLoop

variable {c : TcpConnection}

/-! ### The connection is down -/

/-- Closed, with no interest left. -/
structure Down (c : TcpConnection) : Prop where
  state : c.state_ = .kDisconnected
  events : c.channel_.events_ = Channel.kNoneEvent

theorem Down.isUp (h : Down c) : c.isUp = false := by
  simp [TcpConnection.isUp, h.state]

/-- A call of the loop thread on a closed connection does nothing, unless
it touches the read interest. -/
theorem call_of_down {k : Call} (h : Down c) (hk : wakes c k = false) :
    c.call true k = .ok c := by
  have hne : c.state_ ≠ .kConnected := by rw [h.state]; decide
  cases k with
  | send message w => simp [call, send, hne]
  | shutdown => simp [call, shutdown, hne]
  | forceClose => simp [call, forceClose, h.isUp]
  | forceCloseWithDelay => simp [call, forceCloseWithDelay, h.isUp]
  -- `startRead` does not look at `state_`.
  | startRead => cases hk
  | stopRead =>
      have hreading : c.reading_ = false := hk
      simp [call, stopRead, stopReadInLoop, hreading, Channel.isReading_of_none h.events]

theorem runCallback_of_down {cb : List Call} (h : Down c)
    (hcb : ∀ k ∈ cb, wakes c k = false) : c.runCallback cb = .ok c := by
  induction cb with
  | nil => rfl
  | cons k cb ih =>
      rw [runCallback, List.foldlM_cons, call_of_down h (hcb k List.mem_cons_self), ok_bind]
      exact ih fun k' hk' => hcb k' (List.mem_cons_of_mem _ hk')

/-- What stays of a closed connection: it is closed, made no callback of
the life cycle, and did not come back into the epoll set. Only
`connectDestroyed`, where `gone` is set, touches its channel. -/
structure Rests (gone : Bool) (c c' : TcpConnection) : Prop where
  down : Down c'
  channel : gone = false → c'.channel_ = c.channel_
  epoll : c.channel_.epoll = none → c'.channel_.epoll = none
  callbacks : callbacks c'.log = callbacks c.log
  closes : closes c'.log = closes c.log
  destroys : .connectDestroyed ∈ c'.pendingFunctors_ → .connectDestroyed ∈ c.pendingFunctors_

theorem Rests.refl {gone : Bool} (h : Down c) : Rests gone c c :=
  ⟨h, fun _ => rfl, fun he => he, rfl, rfl, fun hm => hm⟩

/-- Queueing a functor of its own. -/
theorem Rests.queueInLoop {f : Functor} {gone : Bool} (h : Down c)
    (hf : f ≠ .connectDestroyed) : Rests gone c (c.queueInLoop f) :=
  ⟨⟨h.state, h.events⟩, fun _ => rfl, fun he => he, rfl, rfl, (Logged.queueInLoop c hf).keeps.destroys⟩

/-- The act is a handler that can run `handleClose`. -/
def handlesEvent : Act → Bool
  | .handleRead _ _ _ | .handleClose _ => true
  | _ => false

/-- The faults an act can meet on a closed connection. Only a handler of
the channel runs into the `assert` of `handleClose`. -/
def DownFault (event : Bool) (f : Fault) : Prop :=
  Throws f ∨ f = .connectEstablished ∨ (f = .handleClose ∧ event = true) ∨
    f = .channel .removeChannelUnknown

/-- A read handler on a closed connection is in the same dispatch as the close. -/
theorem handleRead_of_down (r : Buffer.ReadResult) (taken : Nat)
    {cb : List Call} (h : Inv c) (hd : Down c) (hcb : ∀ k ∈ cb, wakes c k = false) :
    Ends (c.handleRead r taken cb) (DownFault true) (Rests false c) := by
  rcases handleRead_cases r taken cb h with ⟨f, hf, heq⟩ | ⟨b, -, -, heq⟩ | ⟨b, -, -, heq⟩ |
    ⟨b, -, -, heq⟩ <;> rw [heq]
  · exact Ends.error (Or.inl hf)
  · -- End of file on a closed connection: the `assert` of `handleClose`.
    refine Ends.of_eq_error ?_ (Or.inr (Or.inr (Or.inl ⟨rfl, rfl⟩)))
    simp [handleClose, hd.state]
  · refine Ends.of_eq_ok (runCallback_of_down ⟨hd.state, hd.events⟩ hcb) ?_
    exact ⟨⟨hd.state, hd.events⟩, fun _ => rfl, fun he => he, by simp [TcpConnection.callbacks, emit],
      by simp [TcpConnection.closes, emit], fun hm => hm⟩
  · exact Ends.ok ⟨⟨hd.state, hd.events⟩, fun _ => rfl, fun he => he, rfl, rfl, fun hm => hm⟩

theorem shutdownInLoop_of_down (hd : Down c) :
    Rests false c c.shutdownInLoop := by
  rw [shutdownInLoop]
  split
  · exact ⟨⟨hd.state, hd.events⟩, fun _ => rfl, fun he => he, by simp [TcpConnection.callbacks, emit],
      by simp [TcpConnection.closes, emit], fun hm => hm⟩
  · exact Rests.refl hd

/-- The queued `connectDestroyed` only removes the channel. -/
theorem connectDestroyed_of_down (cb : List Call) (h : Inv c) (hd : Down c) :
    Ends (c.connectDestroyed cb) (DownFault false) (Rests true c) := by
  have hne : c.state_ ≠ .kConnected := by rw [hd.state]; decide
  rw [connectDestroyed, if_neg hne]
  refine (remove_inv h).mono ?_ ?_
  · rintro f (⟨-, hev⟩ | ⟨rfl, -⟩)
    · -- `Channel::remove` finds no interest.
      exact absurd hd.events hev
    · exact Or.inr (Or.inr (Or.inr rfl))
  · rintro c' ⟨-, ch, rfl, hev, hep⟩
    exact ⟨⟨hd.state, hev⟩, by simp, fun _ => hep, rfl, rfl, fun hm => hm⟩

/-- A functor of the queue on a closed connection. -/
theorem runFunctor_of_down {f : Functor} (w : WriteOutcome) {cb : List Call}
    (h : Inv c) (hd : Down c) (hq : ∀ k ∈ callsOf (.runFunctor f w cb), wakes c k = false) :
    Ends (c.runFunctor f w cb) (DownFault false) (Rests (destroysBy (.runFunctor f w cb)) c) := by
  have hnot : ¬ (c.state_ = .kConnected ∨ c.state_ = .kDisconnecting) := by
    rw [hd.state]
    decide
  cases f with
  | sendInLoop message =>
      exact Ends.of_eq_ok (by simp [runFunctor, sendInLoop, hd.state]) (Rests.refl hd)
  | shutdownInLoop => exact Ends.ok (shutdownInLoop_of_down hd)
  | forceCloseInLoop =>
      exact Ends.of_eq_ok (by simp [runFunctor, forceCloseInLoop, hnot]) (Rests.refl hd)
  | startReadInLoop => cases hq .startRead (by simp [callsOf])
  | stopReadInLoop =>
      have hcall := call_of_down hd (hq .stopRead (by simp [callsOf]))
      exact Ends.of_eq_ok hcall (Rests.refl hd)
  | connectDestroyed => exact connectDestroyed_of_down cb h hd
  | writeCompleteCallback => exact Ends.of_eq_ok (runCallback_of_down hd hq) (Rests.refl hd)
  | highWaterMarkCallback len => exact Ends.of_eq_ok (runCallback_of_down hd hq) (Rests.refl hd)

/-- Any act on a closed connection. -/
theorem act_of_down {a : Act} (h : Inv c) (hd : Down c)
    (hq : ∀ k ∈ callsOf a, wakes c k = false) :
    Ends (c.act a) (DownFault (handlesEvent a)) (Rests (destroysBy a) c) := by
  have hne : c.state_ ≠ .kConnected := by rw [hd.state]; decide
  cases a with
  | call inLoop k =>
      cases inLoop with
      | true => exact Ends.of_eq_ok (call_of_down hd (hq k (by simp [callsOf]))) (Rests.refl hd)
      | false =>
          cases k with
          | send message w => exact Ends.of_eq_ok (by simp [act, call, send, hne]) (Rests.refl hd)
          | shutdown => exact Ends.of_eq_ok (by simp [act, call, shutdown, hne]) (Rests.refl hd)
          | forceClose =>
              exact Ends.of_eq_ok (by simp [act, call, forceClose, hd.isUp]) (Rests.refl hd)
          | forceCloseWithDelay =>
              exact Ends.of_eq_ok (by simp [act, call, forceCloseWithDelay, hd.isUp])
                (Rests.refl hd)
          -- From another thread these two are only queued.
          | startRead => exact Ends.ok (Rests.queueInLoop hd (by simp))
          | stopRead => exact Ends.ok (Rests.queueInLoop hd (by simp))
  | connectEstablished cb =>
      refine Ends.of_eq_error ?_ (Or.inr (Or.inl rfl))
      simp [act, connectEstablished, hd.state]
  | handleRead r taken cb => exact handleRead_of_down r taken h hd hq
  | handleWrite w =>
      exact Ends.of_eq_ok (by simp [act, handleWrite, Channel.isWriting_of_none hd.events])
        (Rests.refl hd)
  | handleClose cb =>
      refine Ends.of_eq_error ?_ (Or.inr (Or.inr (Or.inl ⟨rfl, rfl⟩)))
      simp [act, handleClose, hd.state]
  | runFunctor f w cb => exact runFunctor_of_down w h hd hq
  | delayedForceClose =>
      refine Ends.of_eq_ok (a := { c with delayed := c.delayed - 1 }) ?_
        ⟨⟨hd.state, hd.events⟩, fun _ => rfl, fun he => he, rfl, rfl, fun hm => hm⟩
      have hdown : TcpConnection.isUp { c with delayed := c.delayed - 1 } = false := hd.isUp
      simp [act, delayedForceClose, forceClose, hdown]

/-! ### The connection closes -/

/-- What closing does: one down callback, one close callback, no interest
left, and no place in the epoll set if the channel had one. -/
structure Closed (c c' : TcpConnection) : Prop where
  down : Down c'
  epoll : c.channel_.epoll.isSome = true → c'.channel_.epoll = none
  registered : c'.channel_.registered = true
  callbacks : callbacks c'.log = callbacks c.log ++ [.kDisconnected]
  closes : closes c'.log = closes c.log + 1
  destroys : .connectDestroyed ∈ c'.pendingFunctors_ → .connectDestroyed ∈ c.pendingFunctors_

/-- `handleClose` brings a connection down, with its two callbacks. -/
theorem handleClose_closed {cb : List Call} (h : Inv c) (hup : c.isUp = true)
    (hcb : ∀ k ∈ cb, wakes c k = false) : ∃ c', c.handleClose cb = .ok c' ∧ Closed c c' := by
  obtain ⟨ch, hoff, hch, -⟩ := goDown_spec h
  have hdown : Down (emit { c with state_ := .kDisconnected, channel_ := ch }
      (.connectionCallback .kDisconnected)) := ⟨rfl, hch.events⟩
  refine ⟨emit (emit { c with state_ := .kDisconnected, channel_ := ch }
    (.connectionCallback .kDisconnected)) .closeCallback, ?_, ?_⟩
  · rw [handleClose, assertThat_pos (isUp_iff.mp hup), ok_bind, hoff, ok_bind,
      runCallback_of_down hdown hcb, ok_bind, except_pure]
  · refine ⟨⟨rfl, hch.events⟩, ?_, hch.registered, ?_, ?_, fun hm => hm⟩
    · -- `disableAll` on a channel of the epoll set takes it out.
      intro hin
      have hep := hch.epoll
      rw [if_pos ⟨hin, rfl⟩] at hep
      exact hep
    · simp [TcpConnection.callbacks, emit]
    · simp [TcpConnection.closes, emit]

/-- An act that closes the connection. -/
theorem act_of_close {a : Act} (h : Inv c) (hc : closesBy c a = true)
    (hq : ∀ k ∈ callsOf a, wakes c k = false) : Ends (c.act a) Throws (Closed c) := by
  cases a with
  | handleClose cb =>
      obtain ⟨c', heq, hclosed⟩ := handleClose_closed h hc hq
      exact Ends.of_eq_ok heq hclosed
  | handleRead r taken cb =>
      cases r with
      | failed => cases hc
      | delivered bytes =>
          simp only [closesBy, Bool.and_eq_true, List.isEmpty_iff] at hc
          obtain ⟨hup, rfl⟩ := hc
          rcases handleRead_cases (.delivered []) taken cb h with ⟨f, hf, heq⟩ | ⟨b, hb, -, heq⟩ |
            ⟨b, -, hne, -⟩ | ⟨b, -, hne, -⟩
          · -- An empty read leaves two cases: a throw, and `handleClose`.
            exact Ends.of_eq_error heq hf
          · obtain ⟨c', hcl, hclosed⟩ := handleClose_closed (h.withInput hb) hup hq
            refine Ends.of_eq_ok (heq.trans hcl) ?_
            exact ⟨hclosed.down, hclosed.epoll, hclosed.registered, hclosed.callbacks,
              hclosed.closes, hclosed.destroys⟩
          · exact absurd rfl hne
          · exact absurd rfl hne
  | runFunctor f w cb =>
      cases f with
      | forceCloseInLoop =>
          have hup : c.isUp = true := hc
          obtain ⟨c', heq, hclosed⟩ := @handleClose_closed c cb h hup hq
          refine Ends.of_eq_ok ?_ hclosed
          simp only [act, runFunctor, forceCloseInLoop, if_pos (isUp_iff.mp hup), heq]
      | sendInLoop message => cases hc
      | shutdownInLoop => cases hc
      | startReadInLoop => cases hc
      | stopReadInLoop => cases hc
      | connectDestroyed => cases hc
      | writeCompleteCallback => cases hc
      | highWaterMarkCallback len => cases hc
  | call inLoop k => cases hc
  | connectEstablished cb => cases hc
  | handleWrite w => cases hc
  | delayedForceClose => cases hc

/-! ### The connection is up -/

/-- A read event that is not the end of the stream. -/
theorem handleRead_of_up {r : Buffer.ReadResult} (taken : Nat)
    (cb : List Call) (h : Inv c) (hr : r ≠ .delivered []) :
    Ends (c.handleRead r taken cb) Throws (Good c) := by
  have hinput : ∀ b : Buffer, b.Inv → Good c { c with inputBuffer_ := b } := fun b hb =>
    ⟨h.withInput hb, ⟨fun hu => hu, rfl, rfl, fun hreg => hreg, fun hm => hm⟩⟩
  rcases handleRead_cases r taken cb h with ⟨f, hf, heq⟩ | ⟨b, -, heof, -⟩ | ⟨b, hb, -, heq⟩ |
    ⟨b, hb, -, heq⟩
  · exact Ends.of_eq_error heq hf
  · exact absurd heof hr
  · have hmsg := (h.withInput hb).emit (e := .messageCallback) (by simp) rfl rfl (by simp)
    have hkeeps : Keeps c ({ c with inputBuffer_ := b }.emit .messageCallback) :=
      ⟨fun hu => hu, by simp [TcpConnection.callbacks, emit], by simp [TcpConnection.closes, emit],
        fun hreg => hreg, fun hm => hm⟩
    rw [heq]
    exact (runCallback_spec cb hmsg).imp fun _ hc => Good.trans ⟨hmsg, hkeeps⟩ hc
  · exact Ends.of_eq_ok heq (hinput b hb)

/-- An act on a connection that is up, which neither closes nor destroys
it. -/
theorem act_of_up {a : Act} (h : Inv c) (hup : c.isUp = true)
    (hc : closesBy c a = false) (hd : ∀ w cb, a ≠ .runFunctor .connectDestroyed w cb) :
    Ends (c.act a) (fun f => Throws f ∨ f = .connectEstablished) (Good c) := by
  have hgood : ∀ {x : Except Fault TcpConnection}, Ends x Throws (Good c) →
      Ends x (fun f => Throws f ∨ f = .connectEstablished) (Good c) :=
    fun hx => hx.mono (fun _ hf => Or.inl hf) fun _ hg => hg
  cases a with
  | call inLoop k => exact hgood (call_spec inLoop k h)
  | connectEstablished cb =>
      refine Ends.of_eq_error ?_ (Or.inr rfl)
      -- A second `connectEstablished` stops at its `assert`.
      have hne : c.state_ ≠ .kConnecting := by
        rcases isUp_iff.mp hup with hst | hst <;> rw [hst] <;> decide
      simp [act, connectEstablished, hne]
  | handleRead r taken cb =>
      refine hgood (handleRead_of_up taken cb h ?_)
      rintro rfl
      simp [closesBy, hup] at hc
  | handleWrite w => exact hgood (handleWrite_spec w h)
  | handleClose cb =>
      rw [show closesBy c (.handleClose cb) = c.isUp from rfl, hup] at hc
      cases hc
  | runFunctor f w cb =>
      cases f with
      | sendInLoop message => exact hgood (sendInLoop_spec message w h)
      | shutdownInLoop => exact Ends.ok (shutdownInLoop_good h)
      | forceCloseInLoop =>
          rw [show closesBy c (.runFunctor .forceCloseInLoop w cb) = c.isUp from rfl, hup] at hc
          cases hc
      | startReadInLoop => exact hgood (startReadInLoop_spec h)
      | stopReadInLoop => exact hgood (stopReadInLoop_spec h)
      | connectDestroyed => exact absurd rfl (hd w cb)
      | writeCompleteCallback => exact hgood (runCallback_spec cb h)
      | highWaterMarkCallback len => exact hgood (runCallback_spec cb h)
  | delayedForceClose => exact Ends.ok (delayedForceClose_good h)

/-! ### The connection is established -/

/-- What establishing does: the connection is up, with one up callback. -/
structure Established (c c' : TcpConnection) : Prop where
  up : c'.isUp = true
  registered : c'.channel_.registered = true
  callbacks : callbacks c'.log = callbacks c.log ++ [.kConnected]
  closes : closes c'.log = closes c.log
  destroys : .connectDestroyed ∈ c'.pendingFunctors_ → .connectDestroyed ∈ c.pendingFunctors_

/-- `connectEstablished` brings it up, with one callback. -/
theorem connectEstablished_spec (cb : List Call) (h : Inv c)
    (hst : c.state_ = .kConnecting) :
    Ends (c.connectEstablished cb) Throws (Established c) := by
  have hset : Inv { c with state_ := .kConnected } :=
    ⟨h.input, h.output, h.entry, h.stream, fun _ => h.interest (by rw [hst]; decide), h.shutdowns⟩
  obtain ⟨ch, hup, hch⟩ := onChannel_spec (f := Channel.enableReading) hset.entry rfl
  -- With an empty callback the function ends right before the user code.
  have hinv := ((connectEstablished_inv [] h).post
    (a := emit { c with state_ := .kConnected, channel_ := ch } (.connectionCallback .kConnected))
    (by rw [connectEstablished, assertThat_pos hst, ok_bind, hup]; rfl))
  rw [connectEstablished, assertThat_pos hst, ok_bind, hup, ok_bind]
  refine (runCallback_spec cb hinv).imp ?_
  intro c' hc'
  refine ⟨hc'.keeps.up rfl, hc'.keeps.registered hch.registered, ?_, ?_, hc'.keeps.destroys⟩
  · rw [hc'.keeps.callbacks]
    simp [TcpConnection.callbacks, emit]
  · rw [hc'.keeps.closes]
    simp [TcpConnection.closes, emit]

/-! ### The three together -/

/-- The callbacks made so far, for each state of a connection. -/
structure Life (c : TcpConnection) : Prop where
  inv : Inv c
  connecting : c.state_ = .kConnecting → callbacks c.log = [] ∧ closes c.log = 0
  up : c.isUp = true →
    callbacks c.log = [.kConnected] ∧ closes c.log = 0 ∧ c.channel_.registered = true
  down : c.state_ = .kDisconnected → Down c ∧
    callbacks c.log = [.kConnected, .kDisconnected] ∧ closes c.log = 1

theorem Life.of_up (h : Inv c) (hup : c.isUp = true)
    (hcb : callbacks c.log = [.kConnected]) (hcl : closes c.log = 0)
    (hreg : c.channel_.registered = true) : Life c where
  inv := h
  connecting hst := by simp [isUp, hst] at hup
  up _ := ⟨hcb, hcl, hreg⟩
  down hst := by simp [isUp, hst] at hup

theorem Life.of_down (h : Inv c) (hd : Down c)
    (hcb : callbacks c.log = [.kConnected, .kDisconnected]) (hcl : closes c.log = 1) : Life c where
  inv := h
  connecting hst := by simp [hd.state] at hst
  up hup := by simp [hd.isUp] at hup
  down _ := ⟨hd, hcb, hcl⟩

/-- A connection is connecting, up or down. -/
theorem state_cases (c : TcpConnection) :
    c.state_ = .kConnecting ∨ c.isUp = true ∨ c.state_ = .kDisconnected := by
  cases hst : c.state_ <;> simp [isUp, hst]

/-- What an act makes of the life of a connection. -/
structure Lived (c : TcpConnection) (a : Act) (c' : TcpConnection) : Prop where
  life : Life c'
  connecting : c.state_ = .kConnecting → c'.isUp = true
  up : c.isUp = true → closesBy c a = false → c'.isUp = true
  closed : closesBy c a = true → c'.state_ = .kDisconnected ∧ c'.channel_.registered = true ∧
    (c.channel_.epoll.isSome = true → c'.channel_.epoll = none)
  down : c.state_ = .kDisconnected → c'.state_ = .kDisconnected ∧
    (c.channel_.epoll = none → c'.channel_.epoll = none) ∧
    (destroysBy a = false → c'.channel_ = c.channel_)
  destroys : .connectDestroyed ∈ c'.pendingFunctors_ → .connectDestroyed ∈ c.pendingFunctors_

/-- Only a connection that is up is closed. -/
theorem isUp_of_closesBy {a : Act} (h : closesBy c a = true) :
    c.isUp = true := by
  cases a with
  | handleClose cb => exact h
  | handleRead r taken cb =>
      cases r with
      | failed => cases h
      | delivered bytes =>
          simp only [closesBy, Bool.and_eq_true] at h
          exact h.1
  | runFunctor f w cb =>
      cases f with
      | forceCloseInLoop => exact h
      | sendInLoop message => cases h
      | shutdownInLoop => cases h
      | startReadInLoop => cases h
      | stopReadInLoop => cases h
      | connectDestroyed => cases h
      | writeCompleteCallback => cases h
      | highWaterMarkCallback len => cases h
  | call inLoop k => cases h
  | connectEstablished cb => cases h
  | handleWrite w => cases h
  | delayedForceClose => cases h

theorem ne_up_of_connecting (h : c.state_ = .kConnecting) :
    c.isUp = false ∧ c.state_ ≠ .kDisconnected := by
  simp [isUp, h]

theorem ne_down_of_up (h : c.isUp = true) :
    c.state_ ≠ .kConnecting ∧ c.state_ ≠ .kDisconnected := by
  rcases isUp_iff.mp h with hst | hst <;> simp [hst]

/-- What the loop and the server see to before a function runs: before the
connection is established they only establish it, nothing wakes it while it
is down or going down, and it is destroyed only when it is down. -/
structure Permitted (c : TcpConnection) (a : Act) : Prop where
  connecting : c.state_ = .kConnecting → ∃ cb, a = .connectEstablished cb
  quiet : c.state_ = .kDisconnected ∨ closesBy c a = true → ∀ k ∈ callsOf a, wakes c k = false
  destroy : ∀ w cb, a = .runFunctor .connectDestroyed w cb → c.state_ = .kDisconnected

/-- Every act keeps the life of the connection in order, when what it does
to a closed connection does not touch the read interest. -/
theorem act_life {c c' : TcpConnection} {a : Act} (h : Life c) (hact : c.act a = .ok c')
    (hp : Permitted c a) :
    Lived c a c' := by
  have hinv : Inv c' := (act_inv a h.inv).post hact
  rcases state_cases c with hst | hup | hst
  · -- Connecting: the server lets nothing but `connectEstablished` run.
    obtain ⟨cb, rfl⟩ := hp.connecting hst
    obtain ⟨hnup, hndown⟩ := ne_up_of_connecting hst
    have hest := (connectEstablished_spec cb h.inv hst).post hact
    obtain ⟨hcb, hcl⟩ := h.connecting hst
    exact
      { life := Life.of_up hinv hest.up (by rw [hest.callbacks, hcb]; rfl)
          (hest.closes.trans hcl) hest.registered
        connecting := fun _ => hest.up
        up := fun hup => by rw [hnup] at hup; cases hup
        closed := fun hc => by cases hc
        down := fun hd => absurd hd hndown
        destroys := hest.destroys }
  · obtain ⟨hcb, hcl, hreg⟩ := h.up hup
    obtain ⟨hnconn, hndown⟩ := ne_down_of_up hup
    cases hc : closesBy c a with
    | true =>
        have hclosed := (act_of_close h.inv hc (hp.quiet (Or.inr hc))).post hact
        exact
          { life := Life.of_down hinv hclosed.down (by rw [hclosed.callbacks, hcb]; rfl)
              (by rw [hclosed.closes, hcl])
            connecting := fun hst => absurd hst hnconn
            up := fun _ hnot => by rw [hc] at hnot; cases hnot
            closed := fun _ => ⟨hclosed.down.state, hclosed.registered, hclosed.epoll⟩
            down := fun hd => absurd hd hndown
            destroys := hclosed.destroys }
    | false =>
        have hnot : ∀ w cb, a ≠ .runFunctor .connectDestroyed w cb :=
          fun w cb ha => hndown (hp.destroy w cb ha)
        have hgood := (act_of_up h.inv hup hc hnot).post hact
        exact
          { life := Life.of_up hinv (hgood.keeps.up hup) (hgood.keeps.callbacks.trans hcb)
              (hgood.keeps.closes.trans hcl) (hgood.keeps.registered hreg)
            connecting := fun hst => absurd hst hnconn
            up := fun _ _ => hgood.keeps.up hup
            closed := fun hyes => by rw [hc] at hyes; cases hyes
            down := fun hd => absurd hd hndown
            destroys := hgood.keeps.destroys }
  · obtain ⟨hd, hcb, hcl⟩ := h.down hst
    have hrests := (act_of_down h.inv hd (hp.quiet (Or.inl hst))).post hact
    have hnup : c.isUp ≠ true := by simp [hd.isUp]
    exact
      { life := Life.of_down hinv hrests.down (hrests.callbacks.trans hcb)
          (hrests.closes.trans hcl)
        connecting := fun hst' => by rw [hst] at hst'; cases hst'
        up := fun hup => absurd hup hnup
        closed := fun hc => absurd (isUp_of_closesBy hc) hnup
        down := fun _ => ⟨hrests.down.state, hrests.epoll, hrests.channel⟩
        destroys := hrests.destroys }

/-- The faults of an act under the same conditions. -/
theorem act_faults {a : Act} {f : Fault} (h : Life c)
    (hact : c.act a = .error f)
    (hp : Permitted c a) :
    Throws f ∨ f = .connectEstablished ∨
      (c.state_ = .kDisconnected ∧ DownFault (handlesEvent a) f) := by
  rcases state_cases c with hst | hup | hst
  · obtain ⟨cb, rfl⟩ := hp.connecting hst
    exact Or.inl ((connectEstablished_spec cb h.inv hst).fault hact)
  · cases hc : closesBy c a with
    | true => exact Or.inl ((act_of_close h.inv hc (hp.quiet (Or.inr hc))).fault hact)
    | false =>
        have hnot : ∀ w cb, a ≠ .runFunctor .connectDestroyed w cb :=
          fun w cb ha => (ne_down_of_up hup).2 (hp.destroy w cb ha)
        rcases (act_of_up h.inv hup hc hnot).fault hact with hf | hf
        · exact Or.inl hf
        · exact Or.inr (Or.inl hf)
  · exact Or.inr (Or.inr ⟨hst, (act_of_down h.inv (h.down hst).1 (hp.quiet (Or.inl hst))).fault hact⟩)

end Muduo.Net.TcpConnection
