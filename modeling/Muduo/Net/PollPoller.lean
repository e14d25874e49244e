import Muduo.Lib.Transition
import Muduo.Net.Channel

/-!
# `Muduo.Net.PollPoller`: the table of `muduo/net/poller/PollPoller.cc`

`PollPoller` keeps three things in step: the array `pollfds_` it hands to
`::poll`, the map `channels_` from descriptors to channels, and in every
channel the position `index_` of its entry in the array. An entry whose
channel waits for nothing has its descriptor `fd` negated to `-fd-1`, so
that the kernel skips it. A removed entry is swapped with the last one.

`ι` is the type of `Channel*`, and `channel` the objects behind the
pointers. `channels_` is a `std::map`, ordered by its keys. The fields of
`struct pollfd` are `short`, and positions in the array are `int`: the
conversion of a size to `int` is taken modulo `2 ^ 32`, and an `int` that
overflows is the fault `overflow`.

The machine at the end takes the interest operations of `Channel.h`, which
all end in `updateChannel`, the removals, and the calls of `poll`.
-/

set_option autoImplicit false

namespace Muduo.Net

open Muduo.Lib
open Std (ExtTreeMap)

namespace PollPoller

/-- `struct pollfd`. -/
structure PollFd where
  fd : Int
  events : BitVec 16
  revents : BitVec 16
  deriving DecidableEq, Repr

/-- The members of `Channel` that the poller uses. -/
structure PollChannel where
  fd_ : Int
  events_ : EventMask
  revents_ : EventMask
  index_ : Int
  deriving DecidableEq, Repr

/-- `isNoneEvent()`. -/
def PollChannel.isNoneEvent (ch : PollChannel) : Bool := ch.events_ == Channel.kNoneEvent

/-- The interest operations of `Channel.h`. -/
inductive Interest where
  | enableReading
  | disableReading
  | enableWriting
  | disableWriting
  | disableAll
  deriving DecidableEq, Repr

/-- What an operation makes of `events_`, before it calls `update()`. -/
def Interest.apply (events : EventMask) : Interest → EventMask
  | .enableReading => events ||| Channel.kReadEvent
  | .disableReading => events &&& ~~~Channel.kReadEvent
  | .enableWriting => events ||| Channel.kWriteEvent
  | .disableWriting => events &&& ~~~Channel.kWriteEvent
  | .disableAll => Channel.kNoneEvent

/-- What stops a function: a failed `assert`, named by what it tests, an
`int` that overflows, or a null pointer that is used. -/
inductive Fault where
  | addKnown
  | updateUnknown
  | updateOther
  | updateIndex
  | updateFd
  | removeUnknown
  | removeOther
  | removeInterest
  | removeIndex
  | removeIgnored
  | removeErase
  | fillUnknown
  | fillFd
  | overflow
  | nullPointer
  deriving DecidableEq, Repr

/-- `static_cast<short>(events)`. -/
def toShort (events : EventMask) : BitVec 16 := events.setWidth 16

/-- A `short` in an expression is an `int`. -/
def ofShort (x : BitVec 16) : EventMask := x.signExtend 32

/-- `static_cast<int>(size)`. -/
def toInt (size : Nat) : Int := ((size : Int) + 2 ^ 31) % 2 ^ 32 - 2 ^ 31

/-- `static_cast<int>(pollfds_.size())-1`. -/
def lastIndex (size : Nat) : Except Fault Int :=
  if toInt size = -2 ^ 31 then .error .overflow else .ok (toInt size - 1)

end PollPoller

open PollPoller in
/-- `PollPoller`, with the channels its pointers lead to. -/
structure PollPoller (ι : Type) where
  channel : ι → PollChannel
  pollfds_ : List PollFd
  channels_ : ExtTreeMap Int ι

namespace PollPoller

variable {ι : Type} [DecidableEq ι]

/-- Writes to the channel behind a pointer. -/
def setChannel (p : PollPoller ι) (c : ι) (ch : PollChannel) : PollPoller ι :=
  { p with channel := Function.update p.channel c ch }

/-- `channels_.find(fd) != channels_.end() && channels_[fd] == channel`, as
the two `assert`s it is written as. -/
def assertKnown (p : PollPoller ι) (c : ι) (unknown other : Fault) : Except Fault Unit := do
  assertThat (p.channels_[(p.channel c).fd_]? ≠ none) unknown
  assertThat (p.channels_[(p.channel c).fd_]? = some c) other

/-- The position of a channel in `pollfds_`, after the `assert` on it, with
the entry that is there. -/
def entryOf (p : PollPoller ι) (c : ι) (fault : Fault) : Except Fault (Nat × PollFd) :=
  let idx := (p.channel c).index_
  if 0 ≤ idx ∧ idx < toInt p.pollfds_.length then
    match p.pollfds_[idx.toNat]? with
    | some pfd => .ok (idx.toNat, pfd)
    | none => .error fault
  else .error fault

def updateChannel (p : PollPoller ι) (c : ι) : Except Fault (PollPoller ι) := do
  let ch := p.channel c
  if ch.index_ < 0 then
    -- a new one, add to pollfds_
    assertThat (p.channels_[ch.fd_]? = none) .addKnown
    let pfd : PollFd := ⟨ch.fd_, toShort ch.events_, 0#16⟩
    let pollfds := p.pollfds_ ++ [pfd]
    let idx ← lastIndex pollfds.length
    let p := p.setChannel c { ch with index_ := idx }
    return { p with pollfds_ := pollfds, channels_ := p.channels_.insert pfd.fd c }
  else
    -- update existing one
    p.assertKnown c .updateUnknown .updateOther
    let (idx, pfd) ← p.entryOf c .updateIndex
    assertThat (pfd.fd = ch.fd_ ∨ pfd.fd = -ch.fd_ - 1) .updateFd
    -- ignore this pollfd when there is no interest
    let fd := if ch.isNoneEvent then -ch.fd_ - 1 else ch.fd_
    return { p with pollfds_ := p.pollfds_.set idx ⟨fd, toShort ch.events_, 0#16⟩ }

/-- `channels_[fd]->set_index(idx)`. -/
def setIndexAt (p : PollPoller ι) (fd : Int) (idx : Nat) : Except Fault (PollPoller ι) :=
  match p.channels_[fd]? with
  | some c => .ok (p.setChannel c { p.channel c with index_ := idx })
  | none => .error .nullPointer

def removeChannel (p : PollPoller ι) (c : ι) : Except Fault (PollPoller ι) := do
  let ch := p.channel c
  p.assertKnown c .removeUnknown .removeOther
  assertThat (ch.isNoneEvent = true) .removeInterest
  let (idx, pfd) ← p.entryOf c .removeIndex
  assertThat (pfd.fd = -ch.fd_ - 1 ∧ ofShort pfd.events = ch.events_) .removeIgnored
  assertThat (p.channels_[ch.fd_]? ≠ none) .removeErase
  let p := { p with channels_ := p.channels_.erase ch.fd_ }
  match p.pollfds_.getLast? with
  | none => .error .removeIndex
  | some last =>
      if idx = p.pollfds_.length - 1 then
        return { p with pollfds_ := p.pollfds_.dropLast }
      else
        -- the last entry takes the place of the removed one
        let channelAtEnd := if last.fd < 0 then -last.fd - 1 else last.fd
        let p ← p.setIndexAt channelAtEnd idx
        return { p with pollfds_ := (p.pollfds_.set idx last).dropLast }

/-- The loop of `fillActiveChannels` over the rest of `pollfds_`. -/
def fillLoop : List PollFd → Int → PollPoller ι → List ι → Except Fault (PollPoller ι × List ι)
  | [], _, p, active => return (p, active)
  | pfd :: pfds, numEvents, p, active => do
      if 0 < numEvents then
        if 0 < pfd.revents.toInt then
          match p.channels_[pfd.fd]? with
          | none => .error .fillUnknown
          | some c =>
              assertThat ((p.channel c).fd_ = pfd.fd) .fillFd
              let p := p.setChannel c { p.channel c with revents_ := ofShort pfd.revents }
              fillLoop pfds (numEvents - 1) p (active ++ [c])
        else fillLoop pfds numEvents p active
      else return (p, active)

def fillActiveChannels (p : PollPoller ι) (numEvents : Int) :
    Except Fault (PollPoller ι × List ι) :=
  fillLoop p.pollfds_ numEvents p []

/-- `::poll`: the kernel writes `revents` of every entry. -/
def answer (pfds : List PollFd) (reply : List (BitVec 16)) : List PollFd :=
  pfds.zipWith (fun pfd revents => { pfd with revents := revents }) reply

/-- The number of entries with events. -/
def numEvents (pfds : List PollFd) : Int := pfds.countP fun pfd => 0 < pfd.revents.toInt

/-- `poll`, with the answer of the kernel. -/
def poll (p : PollPoller ι) (reply : List (BitVec 16)) : Except Fault (PollPoller ι × List ι) :=
  let p := { p with pollfds_ := answer p.pollfds_ reply }
  if 0 < numEvents p.pollfds_ then p.fillActiveChannels (numEvents p.pollfds_)
  else return (p, [])

/-! ### The poller in use -/

/-- The poller, the channels that have been removed, and the list that the
last `poll` has filled. -/
structure Use (ι : Type) where
  poller : PollPoller ι
  removed : List ι
  activeChannels_ : List ι

inductive Event (ι : Type) where
  | update (c : ι) (op : Interest)
  | remove (c : ι)
  | poll (reply : List (BitVec 16))
  deriving DecidableEq

/-- A channel is registered: `channels_` leads from its descriptor to it. -/
def registered (p : PollPoller ι) (c : ι) : Bool := p.channels_[(p.channel c).fd_]? == some c

/-- The kernel answers for every entry, and with nothing for an entry with
a negative descriptor. -/
def kernelAnswers (pfds : List PollFd) (reply : List (BitVec 16)) : Bool :=
  reply.length == pfds.length &&
    (pfds.zip reply).all fun x => decide (x.1.fd < 0) → x.2 == 0#16

/-- A removed channel is not used again, and a channel is removed when it is
registered and has no interest. -/
def enabled (s : Use ι) : Event ι → Bool
  | .update c _ => !s.removed.contains c
  | .remove c => !s.removed.contains c && s.poller.registered c && (s.poller.channel c).isNoneEvent
  | .poll reply => kernelAnswers s.poller.pollfds_ reply

def step (s : Use ι) : Event ι → Except Fault (Use ι)
  | .update c op => do
      let ch := s.poller.channel c
      let p := s.poller.setChannel c { ch with events_ := op.apply ch.events_ }
      let p ← p.updateChannel c
      return { s with poller := p }
  | .remove c => do
      let p ← s.poller.removeChannel c
      return { s with poller := p, removed := c :: s.removed }
  | .poll reply => do
      let (p, active) ← s.poller.poll reply
      return { s with poller := p, activeChannels_ := active }

/-- The poller as a machine. -/
def machine (ι : Type) [DecidableEq ι] : Machine (Use ι) (Event ι) Fault where
  enabled s e := enabled s e = true
  step := step

instance (s : Use ι) (e : Event ι) : Decidable ((machine ι).enabled s e) :=
  inferInstanceAs (Decidable (enabled s e = true))

/-- A new poller, and channels with the descriptors `fd` that it does not
know yet. -/
def init (fd : ι → Int) : Use ι where
  poller := ⟨fun c => ⟨fd c, Channel.kNoneEvent, 0#32, -1⟩, [], ∅⟩
  removed := []
  activeChannels_ := []

end PollPoller

end Muduo.Net
