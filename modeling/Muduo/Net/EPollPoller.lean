import Muduo.Lib.Transition
import Muduo.Net.PollPoller

/-!
# `Muduo.Net.EPollPoller`: the tables of `muduo/net/poller/EPollPoller.cc`

`Muduo.Net.Channel` has the poller's work on the entry of one channel. Here
is the whole poller: the map `channels_` from descriptors to channels, the
interest list that the kernel keeps for `epollfd_`, and the channels with
their `index_`. An entry of the kernel's list is a `struct epoll_event`: a
mask, and in `data.ptr` the channel.

`epoll_ctl` fails for an `EPOLL_CTL_ADD` of a descriptor that is in the list
and for an `EPOLL_CTL_MOD` or `EPOLL_CTL_DEL` of one that is not. `calls`
records the calls with whether the descriptor was in the list. No function
reads it.

`ι` is the type of `Channel*`, as in `Muduo.Net.PollPoller`, whose interest
operations are used here, too. A removed channel can be enabled again.
-/

set_option autoImplicit false

namespace Muduo.Net.Poller

open Muduo.Lib
open Std (ExtTreeMap)
open Muduo.Net.EPollPoller (CtlOp kNew kAdded kDeleted)
open Muduo.Net.PollPoller (Interest)

/-- The members of `Channel` that the poller and `update()` use. -/
structure EPollChannel where
  fd_ : Int
  events_ : EventMask
  revents_ : EventMask
  index_ : Int
  addedToLoop_ : Bool
  deriving DecidableEq, Repr

/-- `isNoneEvent()`. -/
def EPollChannel.isNoneEvent (ch : EPollChannel) : Bool := ch.events_ == Channel.kNoneEvent

/-- A call of `epoll_ctl`, and whether the descriptor was in the list. -/
structure CtlCall where
  op : CtlOp
  fd : Int
  present : Bool
  deriving DecidableEq, Repr

/-- What stops a function: a failed `assert`, named by what it tests, or a
failed `epoll_ctl` that ends in `LOG_SYSFATAL`. -/
inductive Fault where
  | channelInterest
  | addKnown
  | updateUnknown
  | updateOther
  | updateIndex
  | removeUnknown
  | removeOther
  | removeInterest
  | removeIndex
  | removeErase
  | fillSize
  | fillUnknown
  | fillOther
  | epollCtl
  deriving DecidableEq, Repr

/-- `EPollPoller`, with the channels its pointers lead to and the kernel's
interest list. `eventsSize` is `events_.size()`. -/
structure EPollPoller (ι : Type) where
  channel : ι → EPollChannel
  channels_ : ExtTreeMap Int ι
  epoll : ExtTreeMap Int (EventMask × ι)
  eventsSize : Nat
  calls : List CtlCall

namespace EPollPoller

/-- `kInitEventListSize`. -/
def kInitEventListSize : Nat := 16

variable {ι : Type} [DecidableEq ι]

/-- Writes to the channel behind a pointer. -/
def setChannel (p : EPollPoller ι) (c : ι) (ch : EPollChannel) : EPollPoller ι :=
  { p with channel := Function.update p.channel c ch }

/-- `channels_.find(fd) != channels_.end()` and `channels_[fd] == channel`, as
the two `assert`s they are. -/
def assertKnown (p : EPollPoller ι) (c : ι) (unknown other : Fault) : Except Fault Unit := do
  assertThat (p.channels_[(p.channel c).fd_]? ≠ none) unknown
  assertThat (p.channels_[(p.channel c).fd_]? = some c) other

/-- `epoll_ctl`: `none` where it fails with `EEXIST` or `ENOENT`. -/
def epollCtl (epoll : ExtTreeMap Int (EventMask × ι)) (op : CtlOp) (fd : Int)
    (event : EventMask × ι) : Option (ExtTreeMap Int (EventMask × ι)) :=
  match op, epoll[fd]? with
  | .add, none => some (epoll.insert fd event)
  | .mod, some _ => some (epoll.insert fd event)
  | .del, some _ => some (epoll.erase fd)
  | _, _ => none

/-- `EPollPoller::update`. A failed `EPOLL_CTL_DEL` is only logged. -/
def update (p : EPollPoller ι) (op : CtlOp) (c : ι) : Except Fault (EPollPoller ι) :=
  let ch := p.channel c
  let calls := p.calls ++ [⟨op, ch.fd_, p.epoll[ch.fd_]?.isSome⟩]
  match epollCtl p.epoll op ch.fd_ (ch.events_, c) with
  | some epoll => .ok { p with epoll := epoll, calls := calls }
  | none => if op = .del then .ok { p with calls := calls } else .error .epollCtl

def updateChannel (p : EPollPoller ι) (c : ι) : Except Fault (EPollPoller ι) := do
  let ch := p.channel c
  if ch.index_ = kNew ∨ ch.index_ = kDeleted then
    -- a new one, add with EPOLL_CTL_ADD
    let p ←
      if ch.index_ = kNew then do
        assertThat (p.channels_[ch.fd_]? = none) .addKnown
        pure { p with channels_ := p.channels_.insert ch.fd_ c }
      else do
        p.assertKnown c .updateUnknown .updateOther
        pure p
    update (p.setChannel c { ch with index_ := kAdded }) .add c
  else
    -- update existing one with EPOLL_CTL_MOD/DEL
    p.assertKnown c .updateUnknown .updateOther
    assertThat (ch.index_ = kAdded) .updateIndex
    if ch.isNoneEvent then
      let p ← p.update .del c
      return p.setChannel c { p.channel c with index_ := kDeleted }
    else
      p.update .mod c

def removeChannel (p : EPollPoller ι) (c : ι) : Except Fault (EPollPoller ι) := do
  let ch := p.channel c
  p.assertKnown c .removeUnknown .removeOther
  assertThat (ch.isNoneEvent = true) .removeInterest
  assertThat (ch.index_ = kAdded ∨ ch.index_ = kDeleted) .removeIndex
  assertThat (p.channels_[ch.fd_]? ≠ none) .removeErase
  let p := { p with channels_ := p.channels_.erase ch.fd_ }
  let p ← if ch.index_ = kAdded then p.update .del c else pure p
  return p.setChannel c { p.channel c with index_ := kNew }

/-! ### The calls of `Channel` -/

/-- An interest operation of `Channel.h`, with its call of `update()`. -/
def change (p : EPollPoller ι) (c : ι) (op : Interest) : Except Fault (EPollPoller ι) :=
  let ch := p.channel c
  updateChannel
    (p.setChannel c { ch with events_ := op.apply ch.events_, addedToLoop_ := true }) c

/-- `Channel::remove`. -/
def remove (p : EPollPoller ι) (c : ι) : Except Fault (EPollPoller ι) := do
  let ch := p.channel c
  assertThat (ch.isNoneEvent = true) .channelInterest
  removeChannel (p.setChannel c { ch with addedToLoop_ := false }) c

/-! ### Polling -/

/-- The loop of `fillActiveChannels`, over the events that the kernel has
written to `events_`. -/
def fillLoop : List (EventMask × ι) → EPollPoller ι → List ι → Except Fault (EPollPoller ι × List ι)
  | [], p, active => return (p, active)
  | (events, c) :: rest, p, active => do
      p.assertKnown c .fillUnknown .fillOther
      fillLoop rest (p.setChannel c { p.channel c with revents_ := events }) (active ++ [c])

def fillActiveChannels (p : EPollPoller ι) (events : List (EventMask × ι)) :
    Except Fault (EPollPoller ι × List ι) := do
  assertThat (events.length ≤ p.eventsSize) .fillSize
  fillLoop events p []

/-- What the kernel writes to `events_` for its answer: for a descriptor of
the interest list the events, and the pointer that the list has for it. -/
def written (p : EPollPoller ι) (answer : List (Int × EventMask)) : List (EventMask × ι) :=
  answer.filterMap fun x => (p.epoll[x.1]?).map fun entry => (x.2, entry.2)

/-- `poll`, with the answer of the kernel. -/
def poll (p : EPollPoller ι) (answer : List (Int × EventMask)) :
    Except Fault (EPollPoller ι × List ι) := do
  let events := p.written answer
  if 0 < events.length then
    let (p, active) ← p.fillActiveChannels events
    if events.length = p.eventsSize then
      return ({ p with eventsSize := p.eventsSize * 2 }, active)
    else return (p, active)
  else return (p, [])

/-! ### The poller in use -/

/-- The poller, and the list that the last `poll` has filled. -/
structure Use (ι : Type) where
  poller : EPollPoller ι
  activeChannels_ : List ι

inductive Event (ι : Type) where
  | update (c : ι) (op : Interest)
  | remove (c : ι)
  | poll (answer : List (Int × EventMask))
  deriving DecidableEq

/-- A channel is registered: `channels_` leads from its descriptor to it. -/
def registered (p : EPollPoller ι) (c : ι) : Bool := p.channels_[(p.channel c).fd_]? == some c

/-- The kernel reports descriptors of the list, each once and at most as many
as `events_` has room for. For each it reports what the mask asks for, and
`EPOLLERR` and `EPOLLHUP` in any case. -/
def kernelAnswers (p : EPollPoller ι) (answer : List (Int × EventMask)) : Bool :=
  decide (answer.length ≤ p.eventsSize) && decide (answer.map Prod.fst).Nodup &&
    answer.all fun x =>
      match p.epoll[x.1]? with
      | some entry => x.2 != 0#32 && x.2 &&& ~~~(entry.1 ||| POLLERR ||| POLLHUP) == 0#32
      | none => false

/-- A channel is removed when it is registered and has no interest. -/
def enabled (s : Use ι) : Event ι → Bool
  | .update _ _ => true
  | .remove c => s.poller.registered c && (s.poller.channel c).isNoneEvent
  | .poll answer => s.poller.kernelAnswers answer

def step (s : Use ι) : Event ι → Except Fault (Use ι)
  | .update c op => do
      let p ← s.poller.change c op
      return { s with poller := p }
  | .remove c => do
      let p ← s.poller.remove c
      return { s with poller := p }
  | .poll answer => do
      let (p, active) ← s.poller.poll answer
      return { s with poller := p, activeChannels_ := active }

/-- The poller as a machine. -/
def machine (ι : Type) [DecidableEq ι] : Machine (Use ι) (Event ι) Fault where
  enabled s e := enabled s e = true
  step := step

instance (s : Use ι) (e : Event ι) : Decidable ((machine ι).enabled s e) :=
  inferInstanceAs (Decidable (enabled s e = true))

/-- A new poller, and channels with the descriptors `fd` that it does not
know yet. -/
def init (fd : ι → Int) : Use ι where
  poller :=
    { channel := fun c => ⟨fd c, Channel.kNoneEvent, 0#32, kNew, false⟩
      channels_ := ∅
      epoll := ∅
      eventsSize := kInitEventListSize
      calls := [] }
  activeChannels_ := []

/-- The operation leaves interest behind, or takes the last of it away. -/
def KeepsInterest (s : Use ι) : Event ι → Prop
  | .update c op =>
      ¬ ((s.poller.channel c).events_ = Channel.kNoneEvent ∧
        op.apply (s.poller.channel c).events_ = Channel.kNoneEvent)
  | .remove _ => True
  | .poll _ => True

instance (s : Use ι) (e : Event ι) : Decidable (KeepsInterest s e) :=
  match e with
  | .update c op => inferInstanceAs (Decidable
      (¬ ((s.poller.channel c).events_ = Channel.kNoneEvent ∧
        op.apply (s.poller.channel c).events_ = Channel.kNoneEvent)))
  | .remove _ => isTrue trivial
  | .poll _ => isTrue trivial

/-! ### The poller's view of one channel -/

/-- The channel as `Muduo.Net.Channel` has it: with the entries of its own
descriptor. -/
def view (p : EPollPoller ι) (c : ι) : Channel where
  events_ := (p.channel c).events_
  index_ := (p.channel c).index_
  addedToLoop_ := (p.channel c).addedToLoop_
  registered := p.registered c
  epoll := (p.epoll[(p.channel c).fd_]?).map Prod.fst

end EPollPoller

end Muduo.Net.Poller
