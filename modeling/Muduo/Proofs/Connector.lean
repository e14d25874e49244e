import Muduo.Lib.Outcome
import Muduo.Net.Connector

/-!
# `Muduo.Proofs.Connector`: where the sockets of a connector are

An attempt ends in one of its handlers or in `stopInLoop`, and its channel
stays in `channel_` until the queued `resetChannel` runs. As long as the next
attempt starts after that, `Core` holds: there is one attempt at a time, each
socket is in one place, and a `resetChannel` in the queue is for the channel
that `channel_` has.

`resetChannel` is queued in a handler and runs in the same round, so a retry
timer comes later. But `stopInLoop` is a functor, and its `resetChannel` runs
at the end of the next round. With `stop()` before `start()`, `stopInLoop` finds
`connect_` set and sets a retry timer, too. The timer can fire in the next
round, before `resetChannel`, which then destroys the channel of the new
attempt. The last theorem is this run.

The connection that was handed over closes after `resetChannel`. Its channel is
reported in a later round, and a `forceClose` is queued behind it. So
`restart()` finds `channel_` null. `Open` carries this.
-/

set_option autoImplicit false

namespace Muduo.Net.Connector

open Muduo.Lib

variable {s s' : Connector}

/-! ### The sockets -/

/-- The channel of an attempt holds the socket. -/
def held (channel : Option Chan) (fd : Nat) : Nat := if channel = some ⟨fd, true⟩ then 1 else 0

/-- Every socket is in one place, and no other number is in any. -/
def Placed (channel : Option Chan) (created : Nat) (closed handed : List Nat) : Prop :=
  ∀ fd, closed.count fd + handed.count fd + held channel fd = if fd < created then 1 else 0

theorem held_registered (a fd : Nat) : held (some ⟨a, true⟩) fd = (a == fd).toNat := by
  rw [held]
  by_cases h : a = fd
  · rw [h, if_pos rfl, beq_self_eq_true]
    rfl
  · rw [if_neg (fun heq => h (by cases heq; rfl)), beq_eq_false_iff_ne.mpr h]
    rfl

theorem held_none (fd : Nat) : held none fd = 0 := if_neg (fun h => by cases h)

theorem held_removed (a fd : Nat) : held (some ⟨a, false⟩) fd = 0 := if_neg (fun h => by cases h)

theorem count_snoc (l : List Nat) (a fd : Nat) :
    (l ++ [a]).count fd = l.count fd + (a == fd).toNat := by
  rw [List.count_append, List.count_singleton]
  cases a == fd with
  | true => rfl
  | false => rfl

theorem lt_succ_count (fd n : Nat) :
    (if fd < n + 1 then 1 else 0) = (if fd < n then 1 else 0) + (n == fd).toNat := by
  by_cases h : n = fd
  · rw [h, beq_self_eq_true, if_pos (Nat.lt_succ_self fd), if_neg (Nat.lt_irrefl fd)]
    rfl
  · have hiff : fd < n + 1 ↔ fd < n := by omega
    rw [beq_eq_false_iff_ne.mpr h]
    simp only [hiff]
    rfl

namespace Placed

variable {created fd : Nat} {closed handed : List Nat}

/-- A new socket for an attempt. -/
theorem begin_ (h : Placed none created closed handed) :
    Placed (some ⟨created, true⟩) (created + 1) closed handed := by
  intro fd
  have hold := h fd
  rw [held_none] at hold
  rw [held_registered, lt_succ_count]
  omega

/-- A new socket that is closed at once. -/
theorem createClose {channel : Option Chan} (h : Placed channel created closed handed) :
    Placed channel (created + 1) (closed ++ [created]) handed := by
  intro fd
  have hold := h fd
  rw [count_snoc, lt_succ_count]
  omega

/-- The socket of an attempt is closed. -/
theorem close (h : Placed (some ⟨fd, true⟩) created closed handed) :
    Placed (some ⟨fd, false⟩) created (closed ++ [fd]) handed := by
  intro fd'
  have hold := h fd'
  rw [held_registered] at hold
  rw [held_removed, count_snoc]
  omega

/-- The socket of an attempt is handed over. -/
theorem hand (h : Placed (some ⟨fd, true⟩) created closed handed) :
    Placed (some ⟨fd, false⟩) created closed (handed ++ [fd]) := by
  intro fd'
  have hold := h fd'
  rw [held_registered] at hold
  rw [held_removed, count_snoc]
  omega

/-- The channel is destroyed. -/
theorem reset (h : Placed (some ⟨fd, false⟩) created closed handed) :
    Placed none created closed handed := by
  intro fd'
  have hold := h fd'
  rw [held_removed] at hold
  rw [held_none]
  exact hold

/-- The socket of an attempt was not handed over before. -/
theorem notMem_handed (h : Placed (some ⟨fd, true⟩) created closed handed) : fd ∉ handed := by
  intro hmem
  have hpos := List.count_pos_iff.mpr hmem
  have hold := h fd
  rw [held_registered, beq_self_eq_true] at hold
  have hone : true.toNat = 1 := rfl
  split at hold <;> omega

end Placed

/-! ### The invariant -/

/-- All functors in the order in which they run. -/
def queue (s : Connector) : List Functor := s.functors ++ s.pendingFunctors_

/-- The socket that a `resetChannel` is for. -/
def resetOf? : Functor → Option Nat
  | .resetChannel fd => some fd
  | _ => none

/-- The channel that waits for its `resetChannel`. -/
def removed : Option Chan → List Nat
  | some ⟨fd, false⟩ => [fd]
  | _ => []

/-- A connection that was handed over in the round `c.2`. -/
structure Open (s : Connector) (c : Nat × Nat) : Prop where
  state : s.state_ = .kConnected
  round : s.channel_ ≠ none → s.iteration = c.2 ∧
    (s.phase = .calling → s.pendingFunctors_.filterMap resetOf? = [])
  order : s.queue.Pairwise fun f g => f = .forceCloseInLoop c.1 → resetOf? g = none
  handed : c.1 ∈ s.handed

structure Core (s : Connector) : Prop where
  live : s.state_ = .kConnecting ↔ s.inProgress = true
  resets : s.queue.filterMap resetOf? = removed s.channel_
  waiting : s.timers ≠ [] → s.state_ = .kDisconnected
  timers : s.timers.length ≤ 1
  sockets : Placed s.channel_ s.created s.closed s.handed
  failed : s.failed = []
  overlapping : s.overlapping = 0
  idle : s.phase = .handling → s.functors = []
  forced : ∀ fd, .forceCloseInLoop fd ∈ s.queue → fd ∈ s.handed
  connection : ∀ c, s.connection = some c → Open s c

/-- A `Connector` begins with no descriptor. -/
theorem core_ctor : Core ctor where
  live := by decide
  resets := rfl
  waiting h := absurd rfl h
  timers := Nat.zero_le _
  sockets fd := held_none fd
  failed := rfl
  overlapping := rfl
  idle _ := rfl
  forced fd h := by cases h
  connection c h := by cases h

theorem inProgress_iff : s.inProgress = true ↔ ∃ fd, s.channel_ = some ⟨fd, true⟩ := by
  rw [inProgress]
  cases s.channel_ with
  | none =>
      constructor
      · intro h
        cases h
      · intro h
        obtain ⟨fd, hfd⟩ := h
        cases hfd
  | some ch =>
      obtain ⟨fd, registered⟩ := ch
      constructor
      · intro h
        exact ⟨fd, by rw [show registered = true from h]⟩
      · intro h
        obtain ⟨fd', hfd⟩ := h
        cases hfd
        rfl

/-- Nothing goes on: no attempt, no outstanding `resetChannel`, no retry timer
and no connection. -/
structure Quiet (state : States) (s : Connector) : Prop where
  state : s.state_ = state
  channel : s.channel_ = none
  timers : s.timers = []
  connection : s.connection = none

/-- The `assert` of `connecting` holds when `channel_` is null. -/
theorem connecting_eq (hchannel : s.channel_ = none) (sockfd : Nat) :
    s.connecting sockfd = { s with state_ := .kConnecting, channel_ := some ⟨sockfd, true⟩ } := by
  have hcheck : (s.setState .kConnecting).check (s.setState .kConnecting).channel_.isNone
      .connecting = s.setState .kConnecting := by
    show (if s.channel_.isNone = true then _ else _) = _
    rw [hchannel]
    rfl
  rw [connecting, hcheck]
  rfl

theorem absurd_connection {P : Prop} {c : Nat × Nat} (hnone : s.connection = none)
    (hsome : s.connection = some c) : P := by
  rw [hnone] at hsome
  cases hsome

namespace Core

/-- There is a connection only in the state `kConnected`. -/
theorem connection_none (h : Core s) (hstate : s.state_ ≠ .kConnected) : s.connection = none := by
  cases hconnection : s.connection with
  | none => rfl
  | some c => exact absurd (h.connection c hconnection).state hstate

/-- A retry timer runs only in `kDisconnected`. -/
theorem timers_nil (h : Core s) (hstate : s.state_ ≠ .kDisconnected) : s.timers = [] := by
  by_contra hne
  exact hstate (h.waiting hne)

/-- Without an attempt, `channel_` is null when no `resetChannel` is queued. -/
theorem channel_none (h : Core s) (hstate : s.state_ ≠ .kConnecting)
    (hresets : s.queue.filterMap resetOf? = []) : s.channel_ = none := by
  cases hchannel : s.channel_ with
  | none => rfl
  | some ch =>
      obtain ⟨fd, registered⟩ := ch
      cases registered with
      | true => exact absurd (h.live.mpr (inProgress_iff.mpr ⟨fd, hchannel⟩)) hstate
      | false =>
          have hremoved := h.resets
          rw [hresets, hchannel] at hremoved
          cases hremoved

/-- `connect_` and `retryDelayMs_` do not matter. -/
theorem withConnect (h : Core s) (connect_ : Bool) (retryDelayMs_ : Nat) :
    Core { s with connect_ := connect_, retryDelayMs_ := retryDelayMs_ } :=
  { h with connection := fun c hc => { h.connection c hc with } }

/-! ### The start of an attempt -/

/-- A new socket, with the attempt in progress. -/
theorem begin_ (h : Core s) (hq : Quiet .kDisconnected s) :
    Core { s with
      created := s.created + 1
      state_ := .kConnecting
      channel_ := some ⟨s.created, true⟩ } := by
  have hresets := h.resets
  have hsockets := h.sockets
  rw [hq.channel] at hresets hsockets
  exact { h with
    live := ⟨fun _ => rfl, fun _ => rfl⟩
    resets := hresets
    waiting := fun hne => absurd hq.timers hne
    sockets := hsockets.begin_
    connection := fun _ hc => absurd_connection hq.connection hc }

/-- A new socket that is closed at once. -/
theorem createClose (h : Core s) (hq : Quiet .kDisconnected s) :
    Core { s with created := s.created + 1, closed := s.closed ++ [s.created] } :=
  { h with
    sockets := h.sockets.createClose
    connection := fun _ hc => absurd_connection hq.connection hc }

/-- A retry timer is set. -/
theorem addTimer (h : Core s) (hstate : s.state_ = .kDisconnected) (htimers : s.timers = []) :
    Core { s with timers := s.timers ++ [s.iteration] } := by
  have hnone := h.connection_none (by rw [hstate]; decide)
  have hone : (s.timers ++ [s.iteration]).length ≤ 1 := by
    rw [htimers]
    exact Nat.le_refl 1
  exact { h with
    waiting := fun _ => hstate
    timers := hone
    connection := fun _ hc => absurd_connection hnone hc }

theorem retry {sockfd : Nat} (h : Core ((s.close sockfd).setState .kDisconnected))
    (htimers : s.timers = []) : Core (s.retry sockfd) := by
  rw [Connector.retry]
  split
  · exact (h.addTimer rfl htimers).withConnect s.connect_ _
  · exact h

theorem startInLoop (h : Core s) (hq : Quiet .kDisconnected s) (savedErrno : Errno) :
    Core (s.startInLoop savedErrno) := by
  have hcheck : s.check (s.state_ == .kDisconnected) .startInLoop = s := by
    rw [check, hq.state]
    rfl
  have hprogress : s.inProgress = false := by
    rw [inProgress, hq.channel]
  rw [Connector.startInLoop, hcheck]
  split
  · have hclosed := h.createClose hq
    have hdisconnected : { s with created := s.created + 1, closed := s.closed ++ [s.created] }
        = ({ s with created := s.created + 1 }.close s.created).setState .kDisconnected := by
      rw [setState, ← hq.state]
      rfl
    cases savedErrno with
    | zero | EINPROGRESS | EINTR | EISCONN =>
        rw [connect, hprogress, if_neg Bool.false_ne_true,
          connecting_eq (show ({ s with created := s.created + 1 } : Connector).channel_ = none
            from hq.channel)]
        exact h.begin_ hq
    | EAGAIN | EADDRINUSE | EADDRNOTAVAIL | ECONNREFUSED | ENETUNREACH =>
        -- `retry` closes the socket and sets `state_` to what it is.
        rw [connect, hprogress, if_neg Bool.false_ne_true]
        refine retry ?_ hq.timers
        rw [← hdisconnected]
        exact hclosed
    | EACCES | EPERM | EAFNOSUPPORT | EALREADY | EBADF | EFAULT | ENOTSOCK | other =>
        rw [connect, hprogress, if_neg Bool.false_ne_true]
        exact hclosed
  · exact h

/-! ### The end of an attempt -/

/-- The attempt is given up: the channel leaves the poller, and the socket is
closed. -/
theorem drop {fd : Nat} (h : Core s) (hchannel : s.channel_ = some ⟨fd, true⟩) {state : States}
    (hstate : state ≠ .kConnecting) :
    Core { s with
      state_ := state
      channel_ := some ⟨fd, false⟩
      pendingFunctors_ := s.pendingFunctors_ ++ [.resetChannel fd]
      closed := s.closed ++ [fd] } := by
  have hconnecting := h.live.mpr (inProgress_iff.mpr ⟨fd, hchannel⟩)
  have hresets := h.resets
  have hsockets := h.sockets
  rw [hchannel] at hresets hsockets
  refine { h with
    live := ⟨fun heq => absurd heq hstate, fun hfalse => by cases hfalse⟩
    resets := ?resets
    waiting := ?waiting
    sockets := hsockets.close
    forced := ?forced
    connection := ?connection }
  case resets =>
    -- The channel was live, so no `resetChannel` was queued before.
    show (s.functors ++ (s.pendingFunctors_ ++ [_])).filterMap resetOf? = [fd]
    rw [← List.append_assoc, List.filterMap_append,
      show (s.functors ++ s.pendingFunctors_).filterMap resetOf? = [] from hresets]
    rfl
  case waiting =>
    intro hne
    exact absurd (h.timers_nil (by rw [hconnecting]; decide)) hne
  case forced =>
    intro fd' hmem
    have hmem : Functor.forceCloseInLoop fd' ∈ s.functors ++ (s.pendingFunctors_ ++ [_]) := hmem
    rw [← List.append_assoc] at hmem
    rcases List.mem_append.mp hmem with hold | hnew
    · exact h.forced fd' hold
    · cases List.mem_singleton.mp hnew
  case connection =>
    intro c hc
    exact absurd_connection (h.connection_none (by rw [hconnecting]; decide)) hc

/-- The attempt has succeeded, and the socket is handed over. -/
theorem hand {fd : Nat} (h : Core s) (hchannel : s.channel_ = some ⟨fd, true⟩)
    (hphase : s.phase = .handling) :
    Core { s with
      state_ := .kConnected
      channel_ := some ⟨fd, false⟩
      pendingFunctors_ := s.pendingFunctors_ ++ [.resetChannel fd]
      handed := s.handed ++ [fd]
      connection := some (fd, s.iteration) } := by
  have hdropped := h.drop hchannel (show States.kConnected ≠ .kConnecting by decide)
  have hsockets := h.sockets
  rw [hchannel] at hsockets
  refine { hdropped with
    sockets := hsockets.hand
    forced := ?forced
    connection := ?connection }
  case forced =>
    intro fd' hmem
    exact List.mem_append_left _ (hdropped.forced fd' hmem)
  case connection =>
    intro c hc
    cases hc
    refine ⟨rfl, fun _ => ⟨rfl, fun hcalling => ?_⟩, ?_,
      List.mem_append_right _ (List.mem_singleton_self fd)⟩
    · rw [show s.phase = .calling from hcalling] at hphase
      cases hphase
    · -- No `forceClose` of this socket can be in the queue yet.
      refine List.pairwise_of_forall_mem_list fun f hf g _ hforced => ?_
      rw [hforced] at hf
      exact absurd (hdropped.forced fd hf) hsockets.notMem_handed

end Core

/-- The channel of an attempt leaves the poller, and its reset is queued. -/
theorem removeAndResetChannel_eq {fd : Nat} {registered : Bool}
    (hchannel : s.channel_ = some ⟨fd, registered⟩) :
    s.removeAndResetChannel = .ok (queueInLoop { s with channel_ := some ⟨fd, false⟩ }
      (.resetChannel fd), fd) := by
  rw [removeAndResetChannel, hchannel]

/-- `retry` always leads to `kDisconnected`. -/
theorem retry_state (s : Connector) (sockfd : Nat) : (s.retry sockfd).state_ = .kDisconnected := by
  rw [retry]
  split
  · rfl
  · rfl

/-! ### Functors that are still to run -/

/-- The calls of `startInLoop` in the queue. -/
def starts (s : Connector) : Nat := s.queue.count .startInLoop

theorem starts_push (s : Connector) (f : Functor) :
    (s.queueInLoop f).starts = s.starts + [f].count .startInLoop := by
  show (s.functors ++ (s.pendingFunctors_ ++ [f])).count .startInLoop = _
  rw [← List.append_assoc, List.count_append]
  rfl

theorem starts_retry (s : Connector) (sockfd : Nat) : (s.retry sockfd).starts = s.starts := by
  rw [retry]
  split
  · rfl
  · rfl

theorem starts_check (s : Connector) (c : Bool) (a : Assert) : (s.check c a).starts = s.starts := by
  rw [check]
  split
  · rfl
  · rfl

theorem starts_connect (s : Connector) (savedErrno : Errno) :
    (s.connect savedErrno).starts = s.starts := by
  cases savedErrno with
  | zero | EINPROGRESS | EINTR | EISCONN =>
      rw [connect, connecting]
      exact starts_check _ _ _
  | EAGAIN | EADDRINUSE | EADDRNOTAVAIL | ECONNREFUSED | ENETUNREACH => exact starts_retry _ _
  | EACCES | EPERM | EAFNOSUPPORT | EALREADY | EBADF | EFAULT | ENOTSOCK | other => rfl

theorem starts_startInLoop (s : Connector) (savedErrno : Errno) :
    (s.startInLoop savedErrno).starts = s.starts := by
  rw [startInLoop]
  split
  · rw [starts_connect, starts_check]
  · exact starts_check _ _ _

/-! ### The handlers -/

/-- `stopInLoop` gives the descriptor of an attempt back, by `retry`. -/
theorem stopInLoop_spec (h : Core s) :
    Returns s.stopInLoop fun s' => Core s' ∧ s'.starts = s.starts ∧
      (s.state_ ≠ .kConnecting → s' = s) := by
  rw [stopInLoop]
  by_cases hstate : s.state_ = .kConnecting
  · obtain ⟨fd, hfd⟩ := inProgress_iff.mp (h.live.mp hstate)
    have htimers := h.timers_nil (by rw [hstate]; decide)
    rw [if_pos hstate, removeAndResetChannel_eq (s := s.setState .kDisconnected) hfd, ok_bind]
    refine Ends.ok ⟨?_, ?_, fun hne => absurd hstate hne⟩
    · refine Core.retry ?_ htimers
      exact h.drop hfd (by decide)
    · rw [starts_retry, starts_push]
      rfl
  · rw [if_neg hstate]
    exact Ends.ok ⟨h, rfl, fun _ => rfl⟩

/-- The `assert` of `handleError` holds in `kConnecting`. -/
theorem handleError_spec (h : Core s) (hstate : s.state_ = .kConnecting) :
    Returns s.handleError fun s' => Core s' ∧ s'.starts = s.starts ∧
      s'.state_ = .kDisconnected := by
  obtain ⟨fd, hfd⟩ := inProgress_iff.mp (h.live.mp hstate)
  have htimers := h.timers_nil (by rw [hstate]; decide)
  rw [handleError, if_pos hstate, removeAndResetChannel_eq hfd, ok_bind]
  refine Ends.ok ⟨?_, ?_, retry_state _ _⟩
  · refine Core.retry ?_ htimers
    exact h.drop hfd (by decide)
  · rw [starts_retry, starts_push]
    rfl

/-- The descriptor goes to the connection, to `retry` or is closed. -/
theorem handleWrite_spec (h : Core s) (hphase : s.phase = .handling)
    (hstate : s.state_ = .kConnecting) (err : Int) (isSelfConnect : Bool) :
    Returns (s.handleWrite err isSelfConnect) fun s' => Core s' ∧ s'.starts = s.starts := by
  obtain ⟨fd, hfd⟩ := inProgress_iff.mp (h.live.mp hstate)
  have htimers := h.timers_nil (by rw [hstate]; decide)
  rw [handleWrite, if_pos hstate, removeAndResetChannel_eq hfd, ok_bind]
  have hretry := Core.retry (s := queueInLoop { s with channel_ := some ⟨fd, false⟩ }
    (.resetChannel fd)) (h.drop hfd (by decide)) htimers
  have hstarts : (queueInLoop { s with channel_ := some ⟨fd, false⟩ }
      (.resetChannel fd)).starts = s.starts := by
    rw [starts_push]
    rfl
  -- SO_ERROR, a self connect, the connection, and a `stop()` in the meantime.
  dsimp only
  split_ifs with herr hself hconnect
  · exact Ends.ok ⟨hretry, (starts_retry _ _).trans hstarts⟩
  · exact Ends.ok ⟨hretry, (starts_retry _ _).trans hstarts⟩
  · exact Ends.ok ⟨h.hand hfd hphase, hstarts⟩
  · exact Ends.ok ⟨h.drop hfd (show States.kConnected ≠ .kConnecting by decide), hstarts⟩

/-- Both handlers can run in one dispatch. The second one finds the attempt
ended. -/
theorem handleEvent_spec (h : Core s) (hphase : s.phase = .handling)
    (hstate : s.state_ = .kConnecting) (revents : EventMask) (err : Int) (isSelfConnect : Bool) :
    Returns (s.handleEvent revents err isSelfConnect) fun s' => Core s' ∧ s'.starts = s.starts := by
  rw [handleEvent]
  cases Channel.wantsError revents with
  | false =>
      cases Channel.wantsWrite revents with
      | false => exact Ends.ok ⟨h, rfl⟩
      | true => exact handleWrite_spec h hphase hstate err isSelfConnect
  | true =>
      refine (handleError_spec h hstate).bind fun s₁ hs₁ => ?_
      obtain ⟨hcore, hstarts, hdisconnected⟩ := hs₁
      -- `handleError` has set `kDisconnected`, which `handleWrite` only asserts.
      cases Channel.wantsWrite revents with
      | false => exact Ends.ok ⟨hcore, hstarts⟩
      | true =>
          have hcheck : s₁.check (s₁.state_ == .kDisconnected) .handleWrite = s₁ := by
            rw [check, hdisconnected]
            rfl
          show Returns (s₁.handleWrite err isSelfConnect) _
          rw [handleWrite, if_neg (by rw [hdisconnected]; decide), hcheck]
          exact Ends.ok ⟨hcore, hstarts⟩

/-! ### The rounds -/

namespace Core

/-- A functor is queued. -/
theorem push {f : Functor} (h : Core s) (hreset : resetOf? f = none)
    (hforced : ∀ fd, f = .forceCloseInLoop fd → fd ∈ s.handed) : Core (s.queueInLoop f) := by
  have hqueue : (s.queueInLoop f).queue = s.queue ++ [f] := (List.append_assoc _ _ _).symm
  refine { h with resets := ?resets, forced := ?forced, connection := ?connection }
  case resets =>
    rw [hqueue, List.filterMap_append, h.resets, List.filterMap_cons_none hreset]
    exact List.append_nil _
  case forced =>
    intro fd hmem
    rw [hqueue] at hmem
    rcases List.mem_append.mp hmem with hold | hnew
    · exact h.forced fd hold
    · exact hforced fd (List.mem_singleton.mp hnew).symm
  case connection =>
    intro c hc
    obtain ⟨hstate, hround, horder, hhanded⟩ := h.connection c hc
    refine ⟨hstate, fun hchannel => ⟨(hround hchannel).1, fun hcalling => ?_⟩, ?_, hhanded⟩
    · show (s.pendingFunctors_ ++ [f]).filterMap resetOf? = []
      rw [List.filterMap_append, (hround hchannel).2 hcalling, List.filterMap_cons_none hreset]
      rfl
    · rw [hqueue]
      refine List.pairwise_append.mpr ⟨horder, List.pairwise_singleton _ _, ?_⟩
      intro g _ f' hf' _
      rw [List.mem_singleton.mp hf']
      exact hreset

/-- A functor leaves the queue, with its effect still to come. -/
theorem pop {f : Functor} {rest : List Functor} (h : Core s) (hfunctors : s.functors = f :: rest)
    (hreset : resetOf? f = none) : Core { s with functors := rest } := by
  have hqueue : s.queue = f :: queue { s with functors := rest } := by
    rw [queue, hfunctors]
    rfl
  refine { h with
    resets := ?resets
    idle := ?idle
    forced := ?forced
    connection := ?connection }
  case resets =>
    have hresets := h.resets
    rw [hqueue, List.filterMap_cons_none hreset] at hresets
    exact hresets
  case idle =>
    intro hhandling
    rw [h.idle hhandling] at hfunctors
    cases hfunctors
  case forced =>
    intro fd hmem
    refine h.forced fd ?_
    rw [hqueue]
    exact List.mem_cons_of_mem _ hmem
  case connection =>
    intro c hc
    obtain ⟨hstate, hround, horder, hhanded⟩ := h.connection c hc
    rw [hqueue] at horder
    exact ⟨hstate, hround, (List.pairwise_cons.mp horder).2, hhanded⟩

/-- `resetChannel` runs, and destroys the channel that it is for. -/
theorem reset {fd : Nat} {rest : List Functor} (h : Core s)
    (hfunctors : s.functors = .resetChannel fd :: rest) :
    s.channel_ = some ⟨fd, false⟩ ∧ Core (resetChannel { s with functors := rest }) := by
  have hqueue : s.queue = .resetChannel fd :: queue { s with functors := rest } := by
    rw [queue, hfunctors]
    rfl
  have hresets := h.resets
  rw [hqueue, List.filterMap_cons_some (show resetOf? (.resetChannel fd) = some fd from rfl)]
    at hresets
  obtain ⟨hchannel, hrest⟩ : s.channel_ = some ⟨fd, false⟩ ∧
      (queue { s with functors := rest }).filterMap resetOf? = [] := by
    cases hch : s.channel_ with
    | none =>
        rw [hch] at hresets
        cases hresets
    | some ch =>
        obtain ⟨fd', registered⟩ := ch
        rw [hch] at hresets
        cases registered with
        | true => cases hresets
        | false =>
            obtain ⟨hfd, hnil⟩ := List.cons.inj hresets
            exact ⟨by rw [hfd], hnil⟩
  have hsockets := h.sockets
  rw [hchannel] at hsockets
  refine ⟨hchannel, { h with
    live := ?live
    resets := hrest
    sockets := hsockets.reset
    idle := ?idle
    forced := ?forced
    connection := ?connection }⟩
  case live =>
    have hlive := h.live
    rw [inProgress, hchannel] at hlive
    exact hlive
  case idle =>
    intro hhandling
    rw [h.idle hhandling] at hfunctors
    cases hfunctors
  case forced =>
    intro fd' hmem
    refine h.forced fd' ?_
    rw [hqueue]
    exact List.mem_cons_of_mem _ hmem
  case connection =>
    intro c hc
    obtain ⟨hstate, -, horder, hhanded⟩ := h.connection c hc
    rw [hqueue] at horder
    exact ⟨hstate, fun hne => absurd rfl hne, (List.pairwise_cons.mp horder).2, hhanded⟩

/-- The connection closes. -/
theorem closeConnection (h : Core s) : Core s.closeConnection :=
  { h with connection := fun _ hc => by cases hc }

/-- A round ends, after all its functors have run. -/
theorem endRound (h : Core s) (hphase : s.phase = .calling) (hfunctors : s.functors = []) :
    Core { s with phase := .handling, iteration := s.iteration + 1 } := by
  refine { h with idle := fun _ => hfunctors, connection := fun c hc => ?_ }
  obtain ⟨hstate, hround, horder, hhanded⟩ := h.connection c hc
  refine ⟨hstate, fun hne => ?_, horder, hhanded⟩
  -- An outstanding `resetChannel` would be in the queue, and it is nowhere.
  have hpending := (hround hne).2 hphase
  have hnone := h.channel_none (by rw [hstate]; decide) (by rw [queue, hfunctors]; exact hpending)
  exact absurd hnone hne

theorem endHandling (h : Core s) (hphase : s.phase = .handling) :
    Core { s with phase := .calling, functors := s.pendingFunctors_, pendingFunctors_ := [] } := by
  have hqueue : s.queue
      = queue { s with
        phase := .calling
        functors := s.pendingFunctors_
        pendingFunctors_ := [] } := by
    rw [queue, h.idle hphase]
    exact (List.append_nil _).symm
  refine { h with
    resets := ?resets
    idle := fun hhandling => by cases hhandling
    forced := ?forced
    connection := ?connection }
  case resets =>
    rw [← hqueue]
    exact h.resets
  case forced =>
    intro fd hmem
    rw [← hqueue] at hmem
    exact h.forced fd hmem
  case connection =>
    intro c hc
    obtain ⟨hstate, hround, horder, hhanded⟩ := h.connection c hc
    -- `pendingFunctors_` is empty after the swap.
    refine ⟨hstate, fun hne => ⟨(hround hne).1, fun _ => rfl⟩, ?_, hhanded⟩
    rw [← hqueue]
    exact horder

/-- The retry timer has expired. -/
theorem clearTimers (h : Core s) : Core { s with timers := [] } :=
  { h with
    waiting := fun hne => absurd rfl hne
    timers := Nat.zero_le _
    connection := fun c hc => { h.connection c hc with } }

/-- `restart` leaves the state of the closed connection. -/
theorem setDisconnected (h : Core s) (hq : Quiet .kConnected s) :
    Core (s.setState .kDisconnected) := by
  have hprogress : s.inProgress = false := by rw [inProgress, hq.channel]
  refine { h with
    live := ⟨(fun hfalse => by cases hfalse), fun htrue => ?_⟩
    waiting := fun hne => absurd hq.timers hne
    connection := fun _ hc => absurd_connection hq.connection hc }
  rw [show s.inProgress = true from htrue] at hprogress
  cases hprogress

theorem start (h : Core s) (hq : Quiet .kDisconnected s) (savedErrno : Errno) :
    Core (s.start savedErrno) :=
  (h.withConnect true _).startInLoop ⟨hq.state, hq.channel, hq.timers, hq.connection⟩ savedErrno

theorem restart (h : Core s) (hq : Quiet .kConnected s) (savedErrno : Errno) :
    Core (s.restart savedErrno) := by
  have hcore := (h.setDisconnected hq).withConnect true kInitRetryDelayMs
  exact hcore.startInLoop ⟨rfl, hq.channel, hq.timers, hq.connection⟩ savedErrno

theorem stop (h : Core s) : Core s.stop :=
  (h.withConnect false _).push rfl (fun _ hf => by cases hf)

theorem forceClose (h : Core s) : Core s.forceClose := by
  rw [Connector.forceClose]
  cases hc : s.connection with
  | none => exact h
  | some c =>
      refine h.push rfl fun fd hf => ?_
      cases hf
      exact (h.connection c hc).handed

/-- Of a connection that no `resetChannel` is in front of, nothing is left
when it closes. -/
theorem closed (h : Core s) {c : Nat × Nat} (hc : s.connection = some c)
    (hchannel : s.channel_ = none) : Quiet .kConnected s.closeConnection :=
  ⟨(h.connection c hc).state, hchannel,
    h.timers_nil (by rw [(h.connection c hc).state]; decide), rfl⟩

theorem closed_timely (h : Core s) {c : Nat × Nat} (hc : s.connection = some c)
    (hround : c.2 < s.iteration) : Quiet .kConnected s.closeConnection := by
  refine h.closed hc ?_
  -- A channel that is left is one of the round of the connection.
  by_contra hne
  have heq := ((h.connection c hc).round hne).1
  omega

/-- The connection that `forceCloseInLoop` closes leaves nothing behind. -/
theorem closed_forced (h : Core s) {c : Nat × Nat} (hc : s.connection = some c)
    {rest : List Functor} (hfunctors : s.functors = .forceCloseInLoop c.1 :: rest) :
    Quiet .kConnected s.closeConnection := by
  have hopen := h.connection c hc
  have hqueue : s.queue = .forceCloseInLoop c.1 :: (rest ++ s.pendingFunctors_) := by
    rw [queue, hfunctors]
    rfl
  refine h.closed hc (h.channel_none (by rw [hopen.state]; decide) ?_)
  -- The order of the queue leaves no `resetChannel` behind this functor.
  have horder := hopen.order
  rw [hqueue] at horder
  rw [hqueue, List.filterMap_cons_none rfl]
  refine List.filterMap_eq_nil_iff.mpr fun g hg => ?_
  exact (List.pairwise_cons.mp horder).1 g hg rfl

end Core

/-- What a step of the loop does to a connector at rest, and to its
connection. A queued `startInLoop` is the only thing that wakes it. -/
structure Advances (s s' : Connector) : Prop where
  core : Core s'
  starts : s'.starts ≤ s.starts
  closed : s.connection ≠ none → s'.connection = none → Quiet .kConnected s'
  quiet : ∀ state, Quiet state s → s'.starts = s.starts → Quiet state s'

namespace Advances

/-- Only the queue and the round have changed. -/
theorem of_same (hcore : Core s') (hstarts : s'.starts = s.starts) (hstate : s'.state_ = s.state_)
    (hchannel : s'.channel_ = s.channel_) (htimers : s'.timers = s.timers)
    (hconnection : s'.connection = s.connection) : Advances s s' where
  core := hcore
  starts := Nat.le_of_eq hstarts
  closed hne hnone := absurd (hconnection.symm.trans hnone) hne
  quiet _ hq _ :=
    ⟨hstate.trans hq.state, hchannel.trans hq.channel, htimers.trans hq.timers,
      hconnection.trans hq.connection⟩

/-- The connector was not at rest, and there was no connection. -/
theorem of_active (hcore : Core s') (hstarts : s'.starts = s.starts) (hnone : s.connection = none)
    (hactive : s.channel_ ≠ none ∨ s.timers ≠ []) : Advances s s' where
  core := hcore
  starts := Nat.le_of_eq hstarts
  closed hne _ := absurd hnone hne
  quiet _ hq _ := by
    rcases hactive with hchannel | htimers
    · exact absurd hq.channel hchannel
    · exact absurd hq.timers htimers

/-- The connection has closed. -/
theorem of_closed {c : Nat × Nat} (hcore : Core s') (hstarts : s'.starts = s.starts)
    (hc : s.connection = some c) (hclosed : Quiet .kConnected s') : Advances s s' where
  core := hcore
  starts := Nat.le_of_eq hstarts
  closed _ _ := hclosed
  quiet _ hq _ := absurd_connection hq.connection hc

end Advances

theorem starts_forceClose (s : Connector) : s.forceClose.starts = s.starts := by
  rw [forceClose]
  cases s.connection with
  | none => rfl
  | some c => exact starts_push _ _

theorem starts_pop {f : Functor} {rest : List Functor} (hfunctors : s.functors = f :: rest) :
    s.starts = [f].count .startInLoop + starts { s with functors := rest } := by
  rw [starts, queue, hfunctors, List.cons_append, ← List.singleton_append, List.count_append]
  rfl

theorem starts_pop_other {f : Functor} {rest : List Functor} (hfunctors : s.functors = f :: rest)
    (hf : f ≠ .startInLoop) : starts { s with functors := rest } = s.starts := by
  rw [starts_pop hfunctors, List.count_singleton, if_neg (fun heq => hf (eq_of_beq heq)),
    Nat.zero_add]

/-- A retry timer that fires begins the next attempt. -/
theorem timer_spec (h : Core s) {round : Nat} (hmem : round ∈ s.timers)
    (hchannel : s.channel_ = none) (savedErrno : Errno) :
    Advances s (startInLoop { s with timers := s.timers.erase round } savedErrno) := by
  have hne : s.timers ≠ [] := List.ne_nil_of_mem hmem
  have hstate := h.waiting hne
  have hnone := h.connection_none (by rw [hstate]; decide)
  -- It was the only timer.
  have htimers : s.timers.erase round = [] := by
    obtain ⟨r, hr⟩ := List.length_eq_one_iff.mp
      (Nat.le_antisymm h.timers (List.length_pos_iff.mpr hne))
    rw [hr] at hmem ⊢
    rw [List.mem_singleton.mp hmem]
    exact List.erase_cons_head _ _
  rw [htimers]
  refine Advances.of_active ?_ (starts_startInLoop _ _) hnone (.inr hne)
  exact h.clearTimers.startInLoop ⟨hstate, hchannel, rfl, hnone⟩ savedErrno

/-- Every functor that the loop can run keeps the invariant, and no `assert` fails. -/
theorem runFunctor_spec (h : Core s) {f : Functor} {rest : List Functor}
    (hfunctors : s.functors = f :: rest)
    (hstart : f = .startInLoop → Quiet .kDisconnected s) (savedErrno : Errno) :
    Returns (s.runFunctor savedErrno) (Advances s) := by
  rw [runFunctor, hfunctors]
  cases f with
  | startInLoop =>
      have hpop := starts_pop hfunctors
      have hq := hstart rfl
      have hcore := h.pop hfunctors rfl
      have hone : [Functor.startInLoop].count .startInLoop = 1 := rfl
      have hstarts := starts_startInLoop { s with functors := rest } savedErrno
      refine Ends.ok ⟨?_, by omega, fun hne _ => absurd hq.connection hne, fun _ _ heq => by omega⟩
      exact hcore.startInLoop ⟨hq.state, hq.channel, hq.timers, hq.connection⟩ savedErrno
  | stopInLoop =>
      -- Only an attempt in progress is given up.
      have hcore := h.pop hfunctors rfl
      have hsame := starts_pop_other hfunctors (fun hf => by cases hf)
      refine (stopInLoop_spec hcore).imp fun s' hs' => ?_
      obtain ⟨hcore', hstarts, helse⟩ := hs'
      by_cases hstate : s.state_ = .kConnecting
      · obtain ⟨fd, hfd⟩ := inProgress_iff.mp (h.live.mp hstate)
        refine Advances.of_active hcore' (hstarts.trans hsame)
          (h.connection_none (by rw [hstate]; decide)) (.inl ?_)
        rw [hfd]
        exact Option.some_ne_none _
      · rw [helse hstate]
        exact Advances.of_same hcore hsame rfl rfl rfl rfl
  | resetChannel fd =>
      obtain ⟨hchannel, hcore⟩ := h.reset hfunctors
      have hsame := starts_pop_other hfunctors (fun hf => by cases hf)
      refine Ends.ok ⟨hcore, Nat.le_of_eq hsame, fun hne hnone => absurd hnone hne, ?_⟩
      intro state hq _
      rw [hq.channel] at hchannel
      cases hchannel
  | forceCloseInLoop fd =>
      have hcore := h.pop hfunctors rfl
      have hsame := starts_pop_other hfunctors (fun hf => by cases hf)
      dsimp only
      split_ifs with hopen
      · obtain ⟨c, hc, hfd⟩ := Option.map_eq_some_iff.mp hopen
        rw [← hfd] at hfunctors
        have hclosed := h.closed_forced hc hfunctors
        exact Ends.ok (Advances.of_closed hcore.closeConnection hsame hc
          ⟨hclosed.state, hclosed.channel, hclosed.timers, hclosed.connection⟩)
      · exact Ends.ok (Advances.of_same hcore hsame rfl rfl rfl rfl)

/-- A step of the loop. -/
theorem stepLoop_spec (h : Core s) {e : LoopEvent} (hen : s.enabledLoop e = true)
    (hfires : s.FiresAfterReset e)
    (hstart : ∀ rest, s.functors = .startInLoop :: rest → Quiet .kDisconnected s) :
    Returns (s.stepLoop e) (Advances s) := by
  cases e with
  | handleEvent revents err isSelfConnect =>
      obtain ⟨hphase, hprogress⟩ := Bool.and_eq_true_iff.mp hen
      have hstate := h.live.mpr hprogress
      obtain ⟨fd, hfd⟩ := inProgress_iff.mp hprogress
      refine (handleEvent_spec h (eq_of_beq hphase) hstate revents err isSelfConnect).imp
        fun s' hs' => ?_
      refine Advances.of_active hs'.1 hs'.2 (h.connection_none (by rw [hstate]; decide)) (.inl ?_)
      rw [hfd]
      exact Option.some_ne_none _
  | timer round savedErrno =>
      obtain ⟨-, htimer⟩ := Bool.and_eq_true_iff.mp hen
      exact Ends.ok (timer_spec h (of_decide_eq_true htimer).1 hfires savedErrno)
  | closeConnection =>
      cases hc : s.connection with
      | none =>
          rw [enabledLoop, hc] at hen
          cases hen
      | some c =>
          rw [enabledLoop, hc] at hen
          obtain ⟨-, hround⟩ := Bool.and_eq_true_iff.mp hen
          exact Ends.ok (Advances.of_closed h.closeConnection rfl hc
            (h.closed_timely hc (of_decide_eq_true hround)))
  | runFunctor savedErrno =>
      obtain ⟨-, hsome⟩ := Bool.and_eq_true_iff.mp hen
      cases hfunctors : s.functors with
      | nil =>
          rw [hfunctors] at hsome
          cases hsome
      | cons f rest =>
          refine runFunctor_spec h hfunctors (fun hf => ?_) savedErrno
          rw [hf] at hfunctors
          exact hstart rest hfunctors
  | endHandling =>
      have hphase : s.phase = .handling := eq_of_beq hen
      refine Ends.ok (Advances.of_same (h.endHandling hphase) ?_ rfl rfl rfl rfl)
      rw [starts, starts, queue, queue, h.idle hphase]
      show (s.pendingFunctors_ ++ []).count _ = _
      rw [List.append_nil]
      rfl
  | endRound =>
      obtain ⟨hphase, hempty⟩ := Bool.and_eq_true_iff.mp hen
      exact Ends.ok (Advances.of_same (h.endRound (eq_of_beq hphase) (eq_of_beq hempty))
        rfl rfl rfl rfl rfl)

/-! ### A connector in use -/

/-- Until `start()` takes effect the connector is at rest, and `restart()`
finds it at rest in the state that the connection has left. -/
structure Inv (s : Use) : Prop where
  core : Core s.connector
  fresh : s.started = false ∨ 0 < s.connector.starts → Quiet .kDisconnected s.connector
  once : s.connector.starts ≤ s.started.toNat
  restartable : s.restartable = true → Quiet .kConnected s.connector

theorem inv_init : Inv init where
  core := core_ctor
  fresh _ := ⟨rfl, rfl, rfl, rfl⟩
  once := Nat.le_refl 0
  restartable h := by cases h

namespace Inv

variable {u : Use}

/-- A connector that waits for `restart()` has no `startInLoop` in the queue,
and its user has called `start()`. -/
theorem no_starts (h : Inv u) {state : States} (hne : state ≠ .kDisconnected)
    (hq : Quiet state u.connector) : u.connector.starts = 0 ∧ u.started = true := by
  have hnot : ¬ (u.started = false ∨ 0 < u.connector.starts) := by
    intro hfresh
    exact hne (hq.state.symm.trans (h.fresh hfresh).state)
  obtain ⟨hstarted, hstarts⟩ := not_or.mp hnot
  exact ⟨Nat.eq_zero_of_not_pos hstarts, eq_true_of_ne_false hstarted⟩

theorem absurd_restartable {P : Prop} (h : Inv u) (hstarted : u.started = false)
    (hr : u.restartable = true) : P := by
  obtain ⟨-, htrue⟩ := h.no_starts (by decide) (h.restartable hr)
  rw [hstarted] at htrue
  cases htrue

/-- `start()`, in the loop thread. -/
theorem start (h : Inv u) (hstarted : u.started = false) (savedErrno : Errno) :
    Inv { u with connector := u.connector.start savedErrno, started := true } := by
  have hq := h.fresh (.inl hstarted)
  have hstarts : u.connector.starts = 0 := by
    have honce := h.once
    rw [hstarted] at honce
    exact Nat.le_zero.mp honce
  have hsame : (u.connector.start savedErrno).starts = u.connector.starts := starts_startInLoop _ _
  constructor
  case core => exact h.core.start hq savedErrno
  case fresh =>
    intro hfresh
    rcases hfresh with hfalse | hpos
    · cases hfalse
    · have hpos : 0 < (u.connector.start savedErrno).starts := hpos
      omega
  case once =>
    show (u.connector.start savedErrno).starts ≤ 1
    omega
  case restartable => exact fun hr => h.absurd_restartable hstarted hr

/-- `start()`, in another thread. -/
theorem startElsewhere (h : Inv u) (hstarted : u.started = false) :
    Inv { u with connector := u.connector.startElsewhere, started := true } := by
  have hq := h.fresh (.inl hstarted)
  have honce := h.once
  rw [hstarted] at honce
  have hsame : u.connector.startElsewhere.starts = u.connector.starts + 1 := starts_push _ _
  constructor
  case core => exact (h.core.withConnect true _).push rfl (fun _ hf => by cases hf)
  case fresh => exact fun _ => ⟨hq.state, hq.channel, hq.timers, hq.connection⟩
  case once =>
    show u.connector.startElsewhere.starts ≤ 1
    rw [hsame]
    exact Nat.succ_le_succ honce
  case restartable => exact fun hr => h.absurd_restartable hstarted hr

/-- A call that leaves the connector at rest if it is, and queues no
`startInLoop`. -/
theorem undisturbed {connector : Connector} {stopped : Bool} (h : Inv u) (hcore : Core connector)
    (hstarts : connector.starts = u.connector.starts)
    (hquiet : ∀ state, Quiet state u.connector → Quiet state connector) :
    Inv { u with connector := connector, stopped := stopped } where
  core := hcore
  fresh hfresh := hquiet _ (h.fresh (hfresh.imp_right fun hpos => hstarts ▸ hpos))
  once := Nat.le_trans (Nat.le_of_eq hstarts) h.once
  restartable hr := hquiet _ (h.restartable hr)

theorem restart (h : Inv u) (hr : u.restartable = true) (savedErrno : Errno) :
    Inv { u with connector := u.connector.restart savedErrno, restartable := false } := by
  have hq := h.restartable hr
  obtain ⟨hzero, hstarted⟩ := h.no_starts (by decide) hq
  have hsame : (u.connector.restart savedErrno).starts = u.connector.starts :=
    starts_startInLoop _ _
  constructor
  case core => exact h.core.restart hq savedErrno
  case fresh =>
    intro hfresh
    rcases hfresh with hfalse | hpos
    · rw [show u.started = false from hfalse] at hstarted
      cases hstarted
    · have hpos : 0 < (u.connector.restart savedErrno).starts := hpos
      omega
  case once =>
    show (u.connector.restart savedErrno).starts ≤ _
    omega
  case restartable =>
    intro hfalse
    cases hfalse

/-- A step of the loop. -/
theorem advance {connector : Connector} (h : Inv u) (hadv : Advances u.connector connector) :
    Inv { u with
      connector := connector
      restartable := u.restartable || hasClosed u.connector connector } := by
  have honce := h.once
  have hle := hadv.starts
  have hbound := Bool.toNat_le u.started
  constructor
  case core => exact hadv.core
  case fresh =>
    intro hfresh
    have hfresh : u.started = false ∨ 0 < connector.starts := hfresh
    -- No `startInLoop` has run.
    have hsame : connector.starts = u.connector.starts := by
      rcases hfresh with hstarted | hpos
      · rw [hstarted] at honce
        have hzero := Nat.le_zero.mp honce
        omega
      · omega
    exact hadv.quiet _ (h.fresh (by rw [← hsame]; exact hfresh)) hsame
  case once => exact Nat.le_trans hle honce
  case restartable =>
    intro hr
    -- The connection has closed before, or in this step.
    rcases Bool.or_eq_true_iff.mp hr with hold | hclosed
    · have hq := h.restartable hold
      obtain ⟨hzero, -⟩ := h.no_starts (by decide) hq
      exact hadv.quiet _ hq (by omega)
    · obtain ⟨hsome, hnone⟩ := Bool.and_eq_true_iff.mp hclosed
      exact hadv.closed (Option.isSome_iff_ne_none.mp hsome) (Option.isNone_iff_eq_none.mp hnone)

end Inv

/-- Every step that the environment can take. -/
theorem step_inv {u : Use} (h : Inv u) {e : Event} (hen : enabled u e = true)
    (hfires : TimersInTime u e) : Returns (step u e) Inv := by
  cases e with
  | start savedErrno => exact Ends.ok (h.start ((Bool.not_eq_true' _).mp hen) savedErrno)
  | startElsewhere => exact Ends.ok (h.startElsewhere ((Bool.not_eq_true' _).mp hen))
  | stop =>
      refine Ends.ok (h.undisturbed h.core.stop (starts_push _ _) fun state hq => ?_)
      exact ⟨hq.state, hq.channel, hq.timers, hq.connection⟩
  | restart savedErrno =>
      exact Ends.ok (h.restart (Bool.and_eq_true_iff.mp hen).1 savedErrno)
  | forceClose =>
      obtain ⟨c, hc⟩ := Option.isSome_iff_exists.mp hen
      refine Ends.ok (h.undisturbed h.core.forceClose (starts_forceClose _) fun state hq => ?_)
      exact absurd_connection hq.connection hc
  | inLoop e =>
      have hstep := stepLoop_spec h.core hen hfires fun rest hfunctors => by
        refine h.fresh (.inr ?_)
        rw [starts_pop hfunctors]
        exact Nat.lt_add_right _ Nat.one_pos
      exact hstep.bind fun connector hadv => Ends.ok (h.advance hadv)

/-! ### Every socket in one place -/

namespace Core

/-- A descriptor that was created is in exactly one place. -/
theorem places_eq (h : Core s) {fd : Nat} (hfd : fd < s.created) : s.places fd = 1 := by
  have hsockets := h.sockets fd
  rw [if_pos hfd] at hsockets
  have hiff : (s.state_ = .kConnecting ∧ s.channel_ = some ⟨fd, true⟩)
      ↔ s.channel_ = some ⟨fd, true⟩ :=
    ⟨fun hboth => hboth.2, fun hch => ⟨h.live.mpr (inProgress_iff.mpr ⟨fd, hch⟩), hch⟩⟩
  rw [places]
  simp only [hiff]
  exact hsockets

/-- An attempt, or a timer for the next one. -/
theorem one_at_a_time (h : Core s) : (if s.inProgress then 1 else 0) + s.timers.length ≤ 1 := by
  have htimers := h.timers
  split_ifs with hprogress
  · rw [h.timers_nil (by rw [h.live.mpr hprogress]; decide)]
    exact Nat.le_refl 1
  · omega

/-- A queued `resetChannel` finds the channel that it is for. -/
theorem channel_of_reset (h : Core s) {fd : Nat} (hmem : .resetChannel fd ∈ s.queue) :
    s.channel_ = some ⟨fd, false⟩ := by
  have hreset : fd ∈ s.queue.filterMap resetOf? := List.mem_filterMap.mpr ⟨_, hmem, rfl⟩
  rw [h.resets] at hreset
  cases hchannel : s.channel_ with
  | none =>
      rw [hchannel] at hreset
      cases hreset
  | some ch =>
      obtain ⟨fd', registered⟩ := ch
      rw [hchannel] at hreset
      cases registered with
      | true => cases hreset
      | false => rw [List.mem_singleton.mp hreset]

end Core

/-- In runs whose retry timers fire when no `resetChannel` is outstanding,
every socket is held by the channel of the attempt in progress, or it was
closed once, or it was handed over once. There is at most one attempt or retry
timer, and a queued `resetChannel` is for the channel that `channel_` has. No
`assert` fails and no null pointer is used. -/
theorem sockets_conserved {s : Use} {es : List Event}
    (hrun : (machine.restrict TimersInTime).Run init es s) :
    (∀ fd < s.connector.created, s.connector.places fd = 1) ∧
    (if s.connector.inProgress then 1 else 0) + s.connector.timers.length ≤ 1 ∧
    (∀ fd, .resetChannel fd ∈ s.connector.functors ++ s.connector.pendingFunctors_ →
      s.connector.channel_ = some ⟨fd, false⟩) ∧
    s.connector.failed = [] ∧
    ∀ e, machine.enabled s e → TimersInTime s e → ∃ s', machine.step s e = .ok s' := by
  have h : Inv s := by
    refine hrun.invariant inv_init fun u e u' hu hen hstep => ?_
    exact (step_inv hu hen.1 hen.2).post hstep
  refine ⟨fun fd hfd => h.core.places_eq hfd, h.core.one_at_a_time,
    fun fd hmem => h.core.channel_of_reset hmem, h.core.failed, fun e hen hfires => ?_⟩
  obtain ⟨s', hstep, _⟩ := (step_inv h hen hfires).exists_ok
  exact ⟨s', hstep⟩

/-- An attempt is refused, and the next one is handed over. Its connection is
closed by `forceClose`, and `restart()` begins a third one. -/
theorem sockets_conserved_restart :
    ∃ s, (machine.restrict TimersInTime).Run init
        [.start .EINPROGRESS, .inLoop (.handleEvent (POLLERR ||| POLLOUT) 111 false),
          .inLoop .endHandling, .inLoop (.runFunctor .zero), .inLoop .endRound,
          .inLoop (.timer 0 .EINPROGRESS), .inLoop (.handleEvent POLLOUT 0 false), .forceClose,
          .inLoop .endHandling, .inLoop (.runFunctor .zero), .inLoop (.runFunctor .zero),
          .restart .EINPROGRESS] s ∧
      s.connector.created = 3 ∧ s.connector.closed = [0] ∧ s.connector.handed = [1] ∧
      s.connector.places 2 = 1 := by
  have hexec : ((machine.restrict TimersInTime).exec init
      [.start .EINPROGRESS, .inLoop (.handleEvent (POLLERR ||| POLLOUT) 111 false),
        .inLoop .endHandling, .inLoop (.runFunctor .zero), .inLoop .endRound,
        .inLoop (.timer 0 .EINPROGRESS), .inLoop (.handleEvent POLLOUT 0 false), .forceClose,
        .inLoop .endHandling, .inLoop (.runFunctor .zero), .inLoop (.runFunctor .zero),
        .restart .EINPROGRESS]).map
      (fun s => (s.connector.created, s.connector.closed, s.connector.handed))
      = some (3, [0], [1]) := by
    decide
  obtain ⟨s, hrun, hends⟩ := Machine.exists_run_of_exec hexec
  obtain ⟨hcreated, hlists⟩ := Prod.mk.inj hends
  obtain ⟨hclosed, hhanded⟩ := Prod.mk.inj hlists
  refine ⟨s, hrun, hcreated, hclosed, hhanded, ?_⟩
  exact (sockets_conserved hrun).1 2 (by rw [show s.connector.created = 3 from hcreated]; decide)

/-- With `stop()` before `start()`, `stopInLoop` gives up the attempt and sets
a retry timer. The timer fires in the next round, before `resetChannel`, which
then destroys the channel of the second attempt. Its socket is lost. -/
theorem channel_of_later_attempt_destroyed :
    ∃ s t w, machine.Run init
        [.stop, .start .EINPROGRESS, .inLoop .endHandling, .inLoop (.runFunctor .zero),
          .inLoop .endRound, .inLoop (.timer 0 .EINPROGRESS), .inLoop .endHandling] s ∧
      s.connector.functors = [.resetChannel 0] ∧ s.connector.channel_ = some ⟨1, true⟩ ∧
      machine.enabled s (.inLoop (.runFunctor .zero)) ∧
      machine.step s (.inLoop (.runFunctor .zero)) = .ok t ∧
      machine.Run t [.inLoop .endRound] w ∧
      w.connector.created = 2 ∧ w.connector.channel_ = none ∧ w.connector.places 1 = 0 ∧
      w.connector.failed = [.connecting] := by
  have hexec : ((machine.exec init
      [.stop, .start .EINPROGRESS, .inLoop .endHandling, .inLoop (.runFunctor .zero),
        .inLoop .endRound, .inLoop (.timer 0 .EINPROGRESS), .inLoop .endHandling]).bind fun s =>
        (machine.exec s [.inLoop (.runFunctor .zero), .inLoop .endRound]).map fun w =>
          (s.connector.functors, s.connector.channel_, w.connector.created, w.connector.channel_,
            w.connector.places 1, w.connector.failed))
      = some ([.resetChannel 0], some ⟨1, true⟩, 2, none, 0, [.connecting]) := by
    rfl
  obtain ⟨s, t, w, hrun, hen, hstep, hafter, hvalues⟩ := Machine.exists_runs_of_exec hexec
  simp only [Prod.mk.injEq] at hvalues
  obtain ⟨hfunctors, hchannel, hcreated, hnone, hplaces, hfailed⟩ := hvalues
  exact ⟨s, t, w, hrun, hfunctors, hchannel, hen, hstep, hafter, hcreated, hnone, hplaces, hfailed⟩

end Muduo.Net.Connector
