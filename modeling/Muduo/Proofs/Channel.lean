import Muduo.Net.Channel
import Muduo.Lib.Outcome

/-!
# `Muduo.Proofs.Channel`: the poller's bookkeeping of a channel

`Entry` says that `index_`, the map `channels_` and the kernel's epoll set
agree about a channel. Under `Entry` no `assert` of `updateChannel` fails
and every `epoll_ctl` succeeds. `update_spec` states this, with the mask
that the kernel holds afterwards.

The mask has one case that is easy to miss. `updateChannel` takes a
channel with an empty interest set out of the epoll set only when it is in
it. A channel that is out of the set goes back in, with the empty mask
(`update_of_out`), and the kernel still reports `EPOLLERR` and
`EPOLLHUP` for it.
-/

set_option autoImplicit false

namespace Muduo.Net.Channel

open Muduo.Lib
open EPollPoller

variable {ch : Channel}

/-! ### The interest bits -/

theorem and_POLLOUT (e : EventMask) : (e &&& POLLOUT != 0#32) = e.getLsbD 2 := by
  have hbit : POLLOUT = BitVec.twoPow 32 2 := by decide
  rw [hbit, BitVec.and_twoPow]
  cases e.getLsbD 2 with
  | false => rfl
  | true => decide

theorem isWriting_eq (ch : Channel) : ch.isWriting = ch.events_.getLsbD 2 := and_POLLOUT ch.events_

/-- The read bits and the write bit are different bits. -/
theorem getLsbD_kReadEvent : kReadEvent.getLsbD 2 = false := by decide

theorem getLsbD_kWriteEvent : kWriteEvent.getLsbD 2 = true := by decide

theorem isWriting_of_none (h : ch.events_ = kNoneEvent) : ch.isWriting = false := by
  rw [isWriting, h]
  decide

theorem isReading_of_none (h : ch.events_ = kNoneEvent) : ch.isReading = false := by
  rw [isReading, h]
  decide

/-! ### The entry of the poller -/

/-- `index_`, the map `channels_` and the kernel's epoll set agree. -/
inductive Entry (ch : Channel) : Prop where
  | new (hindex : ch.index_ = kNew) (hreg : ch.registered = false) (hepoll : ch.epoll = none)
  | added (mask : EventMask) (hindex : ch.index_ = kAdded) (hreg : ch.registered = true)
      (hepoll : ch.epoll = some mask)
  | deleted (hindex : ch.index_ = kDeleted) (hreg : ch.registered = true) (hepoll : ch.epoll = none)

theorem entry_ctor : Entry ctor := .new rfl rfl rfl

/-- The entry does not speak of the interest set. -/
theorem Entry.withEvents (h : Entry ch) (events : EventMask) :
    Entry { ch with events_ := events } := by
  cases h with
  | new hindex hreg hepoll => exact .new hindex hreg hepoll
  | added mask hindex hreg hepoll => exact .added mask hindex hreg hepoll
  | deleted hindex hreg hepoll => exact .deleted hindex hreg hepoll

/-- What `update()` makes of a channel: the interest set is untouched, the
channel is in `channels_`, and the kernel has its mask unless the channel
was in the epoll set with nothing left to wait for. -/
structure Updated (ch ch' : Channel) : Prop where
  entry : Entry ch'
  events : ch'.events_ = ch.events_
  registered : ch'.registered = true
  epoll : ch'.epoll =
    if ch.epoll.isSome = true ∧ ch.events_ = kNoneEvent then none else some ch.events_

/-- A channel that is out of the epoll set goes in, with whatever mask it
has. -/
theorem update_out_eq (h : Entry ch) (hout : ch.epoll = none) :
    ch.update = .ok ⟨ch.events_, kAdded, true, true, some ch.events_⟩ := by
  cases h with
  | new hindex hreg hepoll =>
      simp [update, updateChannel, hindex, hreg, hepoll, EPollPoller.update, epollCtl]
  -- `kNew` and `kDeleted` take the same branch, without a look at the mask.
  | added mask _ _ hepoll => simp [hepoll] at hout
  | deleted hindex hreg hepoll =>
      have hne : kDeleted ≠ kNew := by decide
      simp [update, updateChannel, hindex, hreg, hepoll, hne, EPollPoller.update, epollCtl]

/-- A channel in the epoll set leaves it when nothing is left to wait for,
and otherwise has its mask changed. -/
theorem update_in_eq {mask : EventMask} (hindex : ch.index_ = kAdded)
    (hreg : ch.registered = true) (hepoll : ch.epoll = some mask) :
    ch.update =
      if ch.events_ = kNoneEvent then .ok ⟨ch.events_, kDeleted, true, true, none⟩
      else .ok ⟨ch.events_, kAdded, true, true, some ch.events_⟩ := by
  have hnew : kAdded ≠ kNew := by decide
  have hdel : kAdded ≠ kDeleted := by decide
  -- `kAdded`: `EPOLL_CTL_DEL` for an empty mask, `EPOLL_CTL_MOD` otherwise.
  by_cases hnone : ch.events_ = kNoneEvent
  · simp [update, updateChannel, hindex, hreg, hepoll, hnew, hdel, isNoneEvent, hnone,
      EPollPoller.update, epollCtl]
  · simp [update, updateChannel, hindex, hreg, hepoll, hnew, hdel, isNoneEvent, hnone,
      EPollPoller.update, epollCtl]

theorem update_of_out (h : Entry ch) (hout : ch.epoll = none) :
    ∃ ch', ch.update = .ok ch' ∧ Updated ch ch' := by
  refine ⟨_, update_out_eq h hout, .added _ rfl rfl rfl, rfl, rfl, ?_⟩
  simp [hout]

theorem update_of_in {mask : EventMask} (hindex : ch.index_ = kAdded)
    (hreg : ch.registered = true) (hepoll : ch.epoll = some mask) :
    ∃ ch', ch.update = .ok ch' ∧ Updated ch ch' := by
  rw [update_in_eq hindex hreg hepoll]
  by_cases hnone : ch.events_ = kNoneEvent
  · rw [if_pos hnone]
    refine ⟨_, rfl, .deleted rfl rfl rfl, rfl, rfl, ?_⟩
    simp [hepoll, hnone]
  · rw [if_neg hnone]
    refine ⟨_, rfl, .added _ rfl rfl rfl, rfl, rfl, ?_⟩
    simp [hnone]

/-- `update()` returns whenever the bookkeeping agrees. -/
theorem update_spec (h : Entry ch) : ∃ ch', ch.update = .ok ch' ∧ Updated ch ch' := by
  cases h with
  | new hindex hreg hepoll => exact update_of_out (.new hindex hreg hepoll) hepoll
  | added mask hindex hreg hepoll => exact update_of_in hindex hreg hepoll
  | deleted hindex hreg hepoll => exact update_of_out (.deleted hindex hreg hepoll) hepoll

/-- A change of interest to `events`, followed by `update()`. -/
theorem change_spec (h : Entry ch) (events : EventMask) :
    ∃ ch', update { ch with events_ := events } = .ok ch' ∧
      Updated { ch with events_ := events } ch' := update_spec (h.withEvents events)

/-- `remove()` of a channel without interest that is in `channels_`. -/
theorem remove_eq (h : Entry ch) (hreg : ch.registered = true)
    (hnone : ch.events_ = kNoneEvent) :
    ch.remove = .ok ⟨ch.events_, kNew, false, false, none⟩ := by
  -- The descriptor is out of the epoll set already when the index is `kDeleted`.
  have hne : kDeleted ≠ kAdded := by decide
  cases h with
  | new _ hunreg _ => simp [hunreg] at hreg
  | added mask hindex hreg hepoll =>
      simp [remove, removeChannel, isNoneEvent, hnone, hindex, hreg, hepoll, EPollPoller.update,
        epollCtl]
  | deleted hindex hreg hepoll =>
      simp [remove, removeChannel, isNoneEvent, hnone, hindex, hreg, hepoll, hne]

theorem remove_spec (h : Entry ch) (hreg : ch.registered = true)
    (hnone : ch.events_ = kNoneEvent) :
    ∃ ch', ch.remove = .ok ch' ∧ Entry ch' ∧ ch'.events_ = kNoneEvent ∧ ch'.epoll = none :=
  ⟨_, remove_eq h hreg hnone, .new rfl rfl rfl, hnone, rfl⟩

/-- `remove()` of a channel with interest stops at its `assert`. -/
theorem remove_of_interest (h : ch.events_ ≠ kNoneEvent) :
    ch.remove = .error .removeInterest := by
  simp [remove, isNoneEvent, h]

/-- `remove()` of a channel that is not in `channels_` stops at the
poller's `assert`. -/
theorem remove_of_unregistered (hnone : ch.events_ = kNoneEvent)
    (hreg : ch.registered = false) : ch.remove = .error .removeChannelUnknown := by
  simp [remove, removeChannel, isNoneEvent, hnone, hreg]

/-- Every outcome of `remove()`. -/
theorem remove_ends (h : Entry ch) :
    Ends ch.remove
      (fun f => (f = .removeInterest ∧ ch.events_ ≠ kNoneEvent) ∨
        (f = .removeChannelUnknown ∧ ch.registered = false))
      (fun ch' => Entry ch' ∧ ch.events_ = kNoneEvent ∧ ch'.events_ = kNoneEvent ∧
        ch'.epoll = none) := by
  by_cases hnone : ch.events_ = kNoneEvent
  · cases hreg : ch.registered with
    | true =>
        obtain ⟨ch', hrem, hentry, hev, hep⟩ := remove_spec h hreg hnone
        exact Ends.of_eq_ok hrem ⟨hentry, hnone, hev, hep⟩
    | false => exact Ends.of_eq_error (remove_of_unregistered hnone hreg) (Or.inr ⟨rfl, rfl⟩)
  · exact Ends.of_eq_error (remove_of_interest hnone) (Or.inl ⟨rfl, hnone⟩)

end Muduo.Net.Channel
