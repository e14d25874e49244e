import Muduo.Net.EPollPoller
import Muduo.Net.PollPoller

/-!
# `Muduo.Net.Pollers`: the two pollers under the same calls

`Poller::newDefaultPoller` (`muduo/net/poller/DefaultPoller.cc`) makes a
`PollPoller` when the environment variable `MUDUO_USE_POLL` is set, and an
`EPollPoller` otherwise. A program makes the same calls in both cases.

The machine here takes one sequence of calls and runs it on both: each
poller has channels of its own, with the same descriptors. In a `PollPoller`
the member `index_` of a channel is a position, in an `EPollPoller` it is one
of three marks.
-/

set_option autoImplicit false

namespace Muduo.Net.Pollers

open Muduo.Lib
open Muduo.Net.PollPoller (Interest PollFd ofShort)

variable {ι : Type} [DecidableEq ι]

/-- The two programs. -/
structure Both (ι : Type) where
  poll : PollPoller.Use ι
  epoll : Poller.EPollPoller.Use ι

/-- The calls of `Channel` that reach the poller. -/
inductive Call (ι : Type) where
  | update (c : ι) (op : Interest)
  | remove (c : ι)
  deriving DecidableEq

/-- What stops one of the two. -/
inductive Fault where
  | poll (fault : PollPoller.Fault)
  | epoll (fault : Poller.Fault)
  deriving DecidableEq, Repr

/-- A channel is removed when it is registered and has no interest. -/
def enabled (s : Both ι) : Call ι → Bool
  | .update _ _ => true
  | .remove c =>
      s.poll.poller.registered c && (s.poll.poller.channel c).isNoneEvent &&
        (s.epoll.poller.registered c && (s.epoll.poller.channel c).isNoneEvent)

def step (s : Both ι) : Call ι → Except Fault (Both ι)
  | .update c op => do
      let poll ← (PollPoller.step s.poll (.update c op)).mapError Fault.poll
      let epoll ← (Poller.EPollPoller.step s.epoll (.update c op)).mapError Fault.epoll
      return ⟨poll, epoll⟩
  | .remove c => do
      let poll ← (PollPoller.step s.poll (.remove c)).mapError Fault.poll
      let epoll ← (Poller.EPollPoller.step s.epoll (.remove c)).mapError Fault.epoll
      return ⟨poll, epoll⟩

/-- Both programs as one machine. -/
def machine (ι : Type) [DecidableEq ι] : Machine (Both ι) (Call ι) Fault where
  enabled s e := enabled s e = true
  step := step

instance (s : Both ι) (e : Call ι) : Decidable ((machine ι).enabled s e) :=
  inferInstanceAs (Decidable (enabled s e = true))

def init (fd : ι → Int) : Both ι := ⟨PollPoller.init fd, Poller.EPollPoller.init fd⟩

/-! ### What a poller monitors -/

/-- `::poll` looks at the descriptor for these events. -/
def PollMonitors (p : PollPoller ι) (fd : Int) (events : EventMask) : Prop :=
  ∃ pfd ∈ p.pollfds_, 0 ≤ pfd.fd ∧ pfd.fd = fd ∧ ofShort pfd.events = events

/-- `::epoll_wait` looks at the descriptor for these events. -/
def EPollMonitors (p : Poller.EPollPoller ι) (fd : Int) (events : EventMask) : Prop :=
  ∃ c, p.epoll[fd]? = some (events, c)

/-- Both look at the same descriptors for the same events. -/
def SameMonitored (s : Both ι) : Prop :=
  ∀ fd events, events ≠ Channel.kNoneEvent →
    (PollMonitors s.poll.poller fd events ↔ EPollMonitors s.epoll.poller fd events)

/-- The calls that a `PollPoller` takes as an `EPollPoller` does. A removed
channel is not used again. A new channel finds a free position for an `int`.
A channel is removed when its entry in `pollfds_` is negated, which the first
update of a channel does not do. -/
def Portable (s : Both ι) : Call ι → Prop
  | .update c _ => c ∉ s.poll.removed ∧
      ((s.poll.poller.channel c).index_ < 0 → s.poll.poller.pollfds_.length + 1 < 2 ^ 31)
  | .remove c => ∀ pfd ∈ s.poll.poller.pollfds_[(s.poll.poller.channel c).index_.toNat]?,
      pfd.fd ≠ (s.poll.poller.channel c).fd_

instance (s : Both ι) (e : Call ι) : Decidable (Portable s e) :=
  match e with
  | .update c _ => inferInstanceAs (Decidable (c ∉ s.poll.removed ∧
      ((s.poll.poller.channel c).index_ < 0 → s.poll.poller.pollfds_.length + 1 < 2 ^ 31)))
  | .remove c => inferInstanceAs (Decidable
      (∀ pfd ∈ s.poll.poller.pollfds_[(s.poll.poller.channel c).index_.toNat]?,
        pfd.fd ≠ (s.poll.poller.channel c).fd_))

end Muduo.Net.Pollers
