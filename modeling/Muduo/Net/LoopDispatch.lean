import Muduo.Net.EPollPoller

/-!
# `Muduo.Net.LoopDispatch`: who handles which event in `EventLoop::loop`

A round of `EventLoop::loop` (`muduo/net/EventLoop.cc`) polls, calls
`handleEvent` of the active channels one after the other, and then runs the
pending functors. The list of active channels is a list of raw pointers.
Callbacks and functors are user code. They change the interest of channels,
remove channels from the loop, and destroy them. What keeps the pointers
valid is an `assert` in `EventLoop::removeChannel`, together with the
`assert`s of the destructor of `Channel` (`muduo/net/Channel.cc`).

The machine runs the loop over an `EPollPoller`. `alive` says which channels
exist, and a use of one that does not is the fault `dangling`. Several
channels may have one descriptor, as when a descriptor is used again; an
`assert` of the poller stops the second one that asks for events.
`handleEventWithGuard` decides from `revents_` which callbacks it calls,
and while they run the user code acts. A callback is recorded when it
returns. A channel can be tied to an object that owns it: `handleEvent` then
keeps the owner while the callbacks run, and calls none of them when the
owner has gone. `handled` has what the loop has done in this round, and
`reported` what the kernel has answered.
-/

set_option autoImplicit false

namespace Muduo.Net

open Muduo.Lib
open Poller (EPollChannel EPollPoller)
open EPollPoller (kNew)
open PollPoller (Interest)

namespace LoopDispatch

/-- The callbacks of a channel. -/
inductive Callback where
  | close
  | error
  | read
  | write
  deriving DecidableEq, Repr

/-- `handleEventWithGuard`: the callbacks it calls, in order. -/
def handleEventWithGuard (revents : EventMask) : List Callback :=
  (if revents &&& POLLHUP != 0#32 && revents &&& POLLIN == 0#32 then [.close] else []) ++
    (if revents &&& (POLLERR ||| POLLNVAL) != 0#32 then [.error] else []) ++
    (if revents &&& (POLLIN ||| POLLPRI ||| POLLRDHUP) != 0#32 then [.read] else []) ++
    (if revents &&& POLLOUT != 0#32 then [.write] else [])

inductive Fault where
  | poller (f : Poller.Fault)
  /-- The `assert` of `EventLoop::removeChannel`. -/
  | removeActive
  /-- `assert(!eventHandling_)` of `~Channel`. -/
  | destroyHandling
  /-- `assert(!addedToLoop_)`. -/
  | destroyAdded
  /-- `assert(!loop_->hasChannel(this))`. -/
  | destroyKnown
  | dangling
  deriving DecidableEq, Repr

/-- Where the loop is. -/
inductive Point (ι : Type) where
  | poll
  /-- In the `for` loop, before the element `i`. -/
  | round (i : Nat)
  /-- In `handleEvent` of the element `i`, with these callbacks to come. -/
  | handler (i : Nat) (c : ι) (callbacks : List Callback)
  | functors
  deriving DecidableEq, Repr

/-- `tied_` and `tie_`. -/
inductive Tie where
  | untied
  | held
  /-- The owner has gone: `tie_.lock()` has nothing. -/
  | gone
  deriving DecidableEq, Repr

/-- The turn of a channel: `tied_` and `tie_` as `handleEvent` found them,
and the callbacks that have run. -/
structure Turn (ι : Type) where
  channel : ι
  found : Tie
  ran : List Callback
  deriving DecidableEq, Repr

end LoopDispatch

open LoopDispatch in
/-- `EventLoop` with its poller and the channels. -/
structure LoopDispatch (ι : Type) where
  poller : EPollPoller ι
  activeChannels_ : List ι
  currentActiveChannel_ : Option ι
  eventHandling_ : Bool
  point : Point ι
  alive : ι → Bool
  /-- `eventHandling_` of the channels. -/
  handling : ι → Bool
  tie_ : ι → Tie
  reported : List (Int × EventMask)
  /-- Of the turn that is going on. -/
  found : Tie
  ran : List Callback
  /-- The turns of this round that are over. -/
  handled : List (Turn ι)

namespace LoopDispatch

variable {ι : Type} [DecidableEq ι]

/-- A loop that has no channels, of the descriptors `fd`. -/
def init (fd : ι → Int) : LoopDispatch ι where
  poller := (EPollPoller.init fd).poller
  activeChannels_ := []
  currentActiveChannel_ := none
  eventHandling_ := false
  point := .poll
  alive _ := false
  handling _ := false
  tie_ _ := .untied
  reported := []
  found := .untied
  ran := []
  handled := []

/-! ### The loop -/

/-- `poll` and the start of the `for` loop. -/
def poll (s : LoopDispatch ι) (answer : List (Int × EventMask)) :
    Except Fault (LoopDispatch ι) := do
  let (poller, active) ← (s.poller.poll answer).mapError .poller
  return { s with
    poller := poller, activeChannels_ := active, eventHandling_ := true, point := .round 0
    reported := answer, handled := [] }

/-- The first line of `handleEventWithGuard`, in the element `i`. -/
def start (s : LoopDispatch ι) (i : Nat) (c : ι) (callbacks : List Callback) : LoopDispatch ι :=
  { s with
    currentActiveChannel_ := some c
    handling := Function.update s.handling c true
    point := .handler i c callbacks
    found := s.tie_ c
    ran := [] }

/-- `handleEvent` without its owner. -/
def skip (s : LoopDispatch ι) (i : Nat) (c : ι) : LoopDispatch ι :=
  { s with
    currentActiveChannel_ := some c
    point := .round (i + 1)
    handled := s.handled ++ [⟨c, s.tie_ c, []⟩] }

/-- `handleEvent` of the element `i`. -/
def handleEvent (s : LoopDispatch ι) (i : Nat) (c : ι) : Except Fault (LoopDispatch ι) := do
  assertThat (s.alive c = true) .dangling
  match s.tie_ c with
  | .gone => return s.skip i c
  | .untied | .held => return s.start i c (handleEventWithGuard (s.poller.channel c).revents_)

/-- The last line of `handleEventWithGuard`. -/
def finish (s : LoopDispatch ι) (i : Nat) (c : ι) : Except Fault (LoopDispatch ι) := do
  assertThat (s.alive c = true) .dangling
  return { s with
    handling := Function.update s.handling c false
    point := .round (i + 1)
    handled := s.handled ++ [⟨c, s.found, s.ran⟩] }

/-- Behind the `for` loop. -/
def endRound (s : LoopDispatch ι) : LoopDispatch ι :=
  { s with currentActiveChannel_ := none, eventHandling_ := false, point := .functors }

/-- What the loop does next, where the kernel is not asked. In a handler the
running callback returns. -/
def advance (s : LoopDispatch ι) : Except Fault (LoopDispatch ι) :=
  match s.point with
  | .poll => return s
  | .round i =>
      match s.activeChannels_[i]? with
      | some c => s.handleEvent i c
      | none => return s.endRound
  | .handler i c [] => s.finish i c
  | .handler i c (callback :: callbacks) =>
      return { s with point := .handler i c callbacks, ran := s.ran ++ [callback] }
  | .functors => return { s with point := .poll }

/-! ### What user code does -/

/-- `Channel(loop, fd)`. -/
def construct (s : LoopDispatch ι) (c : ι) : LoopDispatch ι :=
  { s with
    poller := s.poller.setChannel c
      ⟨(s.poller.channel c).fd_, Channel.kNoneEvent, 0#32, kNew, false⟩
    alive := Function.update s.alive c true
    handling := Function.update s.handling c false
    tie_ := Function.update s.tie_ c .untied }

/-- `Channel::tie`. -/
def tie (s : LoopDispatch ι) (c : ι) : Except Fault (LoopDispatch ι) := do
  assertThat (s.alive c = true) .dangling
  return { s with tie_ := Function.update s.tie_ c .held }

/-- The last owner of the object the channel is tied to lets it go. -/
def release (s : LoopDispatch ι) (c : ι) : LoopDispatch ι :=
  { s with tie_ := Function.update s.tie_ c .gone }

/-- An interest operation. -/
def update (s : LoopDispatch ι) (c : ι) (op : Interest) : Except Fault (LoopDispatch ι) := do
  assertThat (s.alive c = true) .dangling
  let poller ← (s.poller.change c op).mapError .poller
  return { s with poller := poller }

/-- `EventLoop::removeChannel`. -/
def removeChannel (s : LoopDispatch ι) (c : ι) : Except Fault (LoopDispatch ι) := do
  assertThat (s.eventHandling_ = true →
    s.currentActiveChannel_ = some c ∨ c ∉ s.activeChannels_) .removeActive
  let poller ← (s.poller.removeChannel c).mapError .poller
  return { s with poller := poller }

/-- `Channel::remove`. -/
def remove (s : LoopDispatch ι) (c : ι) : Except Fault (LoopDispatch ι) := do
  assertThat (s.alive c = true) .dangling
  let ch := s.poller.channel c
  assertThat (ch.isNoneEvent = true) (.poller .channelInterest)
  removeChannel { s with poller := s.poller.setChannel c { ch with addedToLoop_ := false } } c

/-- `~Channel`. -/
def destroy (s : LoopDispatch ι) (c : ι) : Except Fault (LoopDispatch ι) := do
  assertThat (s.alive c = true) .dangling
  assertThat (s.handling c = false) .destroyHandling
  assertThat ((s.poller.channel c).addedToLoop_ = false) .destroyAdded
  assertThat (s.poller.registered c = false) .destroyKnown
  return { s with alive := Function.update s.alive c false }

/-! ### The machine -/

inductive Event (ι : Type) where
  | poll (answer : List (Int × EventMask))
  | advance
  | construct (c : ι)
  | tie (c : ι)
  | release (c : ι)
  | update (c : ι) (op : Interest)
  | remove (c : ι)
  | destroy (c : ι)
  deriving DecidableEq

/-- User code runs in callbacks, in functors, and before the loop starts.
It uses channels that exist. While `handleEvent` runs, its guard is an owner
too. -/
def userCode (s : LoopDispatch ι) : Bool :=
  match s.point with
  | .round _ | .handler _ _ [] => false
  | _ => true

def enabled (s : LoopDispatch ι) : Event ι → Bool
  | .poll answer => s.point == .poll && s.poller.kernelAnswers answer
  | .advance => s.point != .poll
  | .construct c => s.userCode && !s.alive c
  | .tie c => s.userCode && s.alive c
  | .release c => s.userCode && s.tie_ c == .held && !s.handling c
  | .update c _ => s.userCode && s.alive c
  | .remove c => s.userCode && s.alive c
  | .destroy c => s.userCode && s.alive c

def step (s : LoopDispatch ι) : Event ι → Except Fault (LoopDispatch ι)
  | .poll answer => s.poll answer
  | .advance => s.advance
  | .construct c => return s.construct c
  | .tie c => s.tie c
  | .release c => return s.release c
  | .update c op => s.update c op
  | .remove c => s.remove c
  | .destroy c => s.destroy c

def machine (ι : Type) [DecidableEq ι] : Machine (LoopDispatch ι) (Event ι) Fault where
  enabled s e := enabled s e = true
  step := step

instance (s : LoopDispatch ι) (e : Event ι) : Decidable ((machine ι).enabled s e) :=
  inferInstanceAs (Decidable (enabled s e = true))

end LoopDispatch

end Muduo.Net
