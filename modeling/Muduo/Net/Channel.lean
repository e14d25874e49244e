import Muduo.Lib.Transition
import Mathlib.Data.BitVec

/-!
# `Muduo.Net.Channel`: a channel and its place in the epoll poller

`Channel` (`muduo/net/Channel.{h,cc}`) keeps the interest set `events_` of
one file descriptor. Every change of interest goes through `update()` to
`EPollPoller::updateChannel` (`muduo/net/poller/EPollPoller.cc`), the
default poller.

The poller's work on a channel touches only the entry of the channel's own
descriptor: whether `channels_` maps the descriptor to the channel, and
the mask the kernel's epoll set holds for it. Both are fields of the model
channel, next to `index_`, in which the poller keeps what it last did.

The kernel reports `EPOLLERR` and `EPOLLHUP` for every descriptor in the
set, also for one with an empty mask.
-/

set_option autoImplicit false

namespace Muduo.Net

open Muduo.Lib

/-- The `int` bit masks of `poll(2)`. -/
abbrev EventMask := BitVec 32

def POLLIN : EventMask := 0x0001#32
def POLLPRI : EventMask := 0x0002#32
def POLLOUT : EventMask := 0x0004#32
def POLLERR : EventMask := 0x0008#32
def POLLHUP : EventMask := 0x0010#32
def POLLNVAL : EventMask := 0x0020#32
def POLLRDHUP : EventMask := 0x2000#32

/-- `Channel`, with the poller's entry for its descriptor. -/
structure Channel where
  events_ : EventMask
  index_ : Int
  addedToLoop_ : Bool
  /-- `channels_` of the poller maps the descriptor to this channel. -/
  registered : Bool
  /-- The mask of the descriptor in the kernel's epoll set. -/
  epoll : Option EventMask
  deriving DecidableEq, Repr

namespace Channel

/-- What stops an operation: a failed `assert`, named by its function and
what it checks, or a failed `epoll_ctl` that ends in `LOG_SYSFATAL`. -/
inductive Fault where
  | removeInterest
  | updateChannelKnown
  | updateChannelUnknown
  | updateChannelIndex
  | removeChannelUnknown
  | removeChannelInterest
  | removeChannelIndex
  | epollCtl
  deriving DecidableEq, Repr

def kNoneEvent : EventMask := 0#32
def kReadEvent : EventMask := POLLIN ||| POLLPRI
def kWriteEvent : EventMask := POLLOUT

/-- `Channel(loop, fd)`. -/
def ctor : Channel where
  events_ := kNoneEvent
  index_ := -1
  addedToLoop_ := false
  registered := false
  epoll := none

def isNoneEvent (ch : Channel) : Bool := ch.events_ == kNoneEvent
def isWriting (ch : Channel) : Bool := ch.events_ &&& kWriteEvent != 0#32
def isReading (ch : Channel) : Bool := ch.events_ &&& kReadEvent != 0#32

end Channel

/-! ### `EPollPoller`, on the entry of one channel -/

namespace EPollPoller

def kNew : Int := -1
def kAdded : Int := 1
def kDeleted : Int := 2

/-- The operations of `epoll_ctl`. -/
inductive CtlOp where
  | add
  | mod
  | del
  deriving DecidableEq, Repr

/-- `epoll_ctl` on the kernel's mask for a descriptor: `none` where it
fails with `EEXIST` or `ENOENT`. -/
def epollCtl (op : CtlOp) (mask : Option EventMask) (events : EventMask) :
    Option (Option EventMask) :=
  match op, mask with
  | .add, none => some (some events)
  | .mod, some _ => some (some events)
  | .del, some _ => some none
  | _, _ => none

/-- `EPollPoller::update`. A failed `EPOLL_CTL_DEL` is only logged. -/
def update (op : CtlOp) (ch : Channel) : Except Channel.Fault Channel :=
  match epollCtl op ch.epoll ch.events_ with
  | some mask => .ok { ch with epoll := mask }
  | none => if op = .del then .ok ch else .error .epollCtl

/-- `EPollPoller::updateChannel`. -/
def updateChannel (ch : Channel) : Except Channel.Fault Channel := do
  if ch.index_ = kNew ∨ ch.index_ = kDeleted then
    -- a new one, add with EPOLL_CTL_ADD
    if ch.index_ = kNew then
      assertThat (ch.registered = false) .updateChannelKnown
    else
      assertThat (ch.registered = true) .updateChannelUnknown
    update .add { ch with registered := true, index_ := kAdded }
  else
    -- update existing one with EPOLL_CTL_MOD/DEL
    assertThat (ch.registered = true) .updateChannelUnknown
    assertThat (ch.index_ = kAdded) .updateChannelIndex
    if ch.isNoneEvent then
      let ch ← update .del ch
      return { ch with index_ := kDeleted }
    else
      update .mod ch

/-- `EPollPoller::removeChannel`. -/
def removeChannel (ch : Channel) : Except Channel.Fault Channel := do
  assertThat (ch.registered = true) .removeChannelUnknown
  assertThat (ch.isNoneEvent = true) .removeChannelInterest
  assertThat (ch.index_ = kAdded ∨ ch.index_ = kDeleted) .removeChannelIndex
  let removed := { ch with registered := false }
  let removed ← if ch.index_ = kAdded then update .del removed else pure removed
  return { removed with index_ := kNew }

end EPollPoller

namespace Channel

/-- `Channel::update`. -/
def update (ch : Channel) : Except Fault Channel :=
  EPollPoller.updateChannel { ch with addedToLoop_ := true }

def enableReading (ch : Channel) : Except Fault Channel :=
  update { ch with events_ := ch.events_ ||| kReadEvent }

def disableReading (ch : Channel) : Except Fault Channel :=
  update { ch with events_ := ch.events_ &&& ~~~kReadEvent }

def enableWriting (ch : Channel) : Except Fault Channel :=
  update { ch with events_ := ch.events_ ||| kWriteEvent }

def disableWriting (ch : Channel) : Except Fault Channel :=
  update { ch with events_ := ch.events_ &&& ~~~kWriteEvent }

def disableAll (ch : Channel) : Except Fault Channel :=
  update { ch with events_ := kNoneEvent }

/-- `Channel::remove`. -/
def remove (ch : Channel) : Except Fault Channel := do
  assertThat (ch.isNoneEvent = true) .removeInterest
  EPollPoller.removeChannel { ch with addedToLoop_ := false }

/-! ### The branches of `handleEventWithGuard` -/

/-- The close callback runs: `POLLHUP` without `POLLIN`. -/
def wantsClose (revents : EventMask) : Bool :=
  (revents &&& POLLHUP != 0#32) && !(revents &&& POLLIN != 0#32)

/-- The error callback runs. -/
def wantsError (revents : EventMask) : Bool := revents &&& (POLLERR ||| POLLNVAL) != 0#32

/-- The read callback runs. -/
def wantsRead (revents : EventMask) : Bool :=
  revents &&& (POLLIN ||| POLLPRI ||| POLLRDHUP) != 0#32

/-- The write callback runs. -/
def wantsWrite (revents : EventMask) : Bool := revents &&& POLLOUT != 0#32

end Channel

end Muduo.Net
