import Muduo.Lib.OrderedMap
import Muduo.Lib.Outcome
import Muduo.Net.EPollPoller
import Muduo.Proofs.Channel

/-!
# `Muduo.Proofs.EPollPoller`: the map, the kernel's list and the indices

An operation of the poller on a channel touches the entries of the channel's
own descriptor and nothing else (`Wrote`). So the whole poller is its views
of single channels, side by side, and what `Muduo.Proofs.Channel` says about
one channel holds for every channel of the poller: `change_spec` and
`remove_spec` reduce the operations of the poller to those of the view.

`Sound` is the invariant. `poller_sound` states what it says about
`channels_`, the kernel's list and `index_` in every run.

The last part is about interest. `updateChannel` puts a channel that is out
of the kernel's list back into it without a look at the mask. So a channel
without interest is out of the list exactly when no operation has left an
empty interest set empty (`polled_iff`).
-/

set_option autoImplicit false

namespace Muduo.Net.Poller.EPollPoller

open Muduo.Lib
open Muduo.Net.EPollPoller (CtlOp kNew kAdded kDeleted)
open Muduo.Net.PollPoller (Interest)

variable {ι : Type} {fd : ι → Int} {p p' : EPollPoller ι} {c : ι}

/-! ### The branches of the functions -/

/-- The call is one that `epoll_ctl` accepts. -/
def Legal (call : CtlCall) : Prop := call.op = .add ↔ call.present = false

/-- `epoll_ctl(ADD)` of a descriptor that is not in the set. -/
theorem update_add (h : p.epoll[(p.channel c).fd_]? = none) :
    p.update .add c = .ok { p with
      epoll := p.epoll.insert (p.channel c).fd_ ((p.channel c).events_, c)
      calls := p.calls ++ [⟨.add, (p.channel c).fd_, false⟩] } := by
  simp only [update, epollCtl, h, Option.isSome_none]

/-- `epoll_ctl(MOD)` of one that is. -/
theorem update_mod {entry : EventMask × ι} (h : p.epoll[(p.channel c).fd_]? = some entry) :
    p.update .mod c = .ok { p with
      epoll := p.epoll.insert (p.channel c).fd_ ((p.channel c).events_, c)
      calls := p.calls ++ [⟨.mod, (p.channel c).fd_, true⟩] } := by
  simp only [update, epollCtl, h, Option.isSome_some]

/-- `epoll_ctl(DEL)` of one that is. -/
theorem update_del {entry : EventMask × ι} (h : p.epoll[(p.channel c).fd_]? = some entry) :
    p.update .del c = .ok { p with
      epoll := p.epoll.erase (p.channel c).fd_
      calls := p.calls ++ [⟨.del, (p.channel c).fd_, true⟩] } := by
  simp only [update, epollCtl, h, Option.isSome_some]

variable [DecidableEq ι]

theorem assertKnown_eq (h : p.channels_[(p.channel c).fd_]? = some c) (f g : Fault) :
    p.assertKnown c f g = .ok () := by
  have hne : p.channels_[(p.channel c).fd_]? ≠ none := by
    rw [h]
    simp
  rw [assertKnown, assertThat_pos hne, assertThat_pos h]
  rfl

/-- The channel of a poller after a write of `index_`. -/
def withIndex (p : EPollPoller ι) (c : ι) (index : Int) : EPollPoller ι :=
  p.setChannel c { p.channel c with index_ := index }

theorem withIndex_self (p : EPollPoller ι) (c : ι) (index : Int) :
    (p.withIndex c index).channel c = { p.channel c with index_ := index } :=
  Function.update_self _ _ _

/-- A new channel is entered in the map and in the set. -/
theorem updateChannel_new (hindex : (p.channel c).index_ = kNew)
    (hchannels : p.channels_[(p.channel c).fd_]? = none)
    (hepoll : p.epoll[(p.channel c).fd_]? = none) :
    p.updateChannel c = .ok { p.withIndex c kAdded with
      channels_ := p.channels_.insert (p.channel c).fd_ c
      epoll := p.epoll.insert (p.channel c).fd_ ((p.channel c).events_, c)
      calls := p.calls ++ [⟨.add, (p.channel c).fd_, false⟩] } := by
  have hadd := @update_add ι
    ({ p with channels_ := p.channels_.insert (p.channel c).fd_ c }.withIndex c kAdded) c
    (by rw [withIndex_self]; exact hepoll)
  simp only [withIndex_self] at hadd
  simp only [updateChannel, hindex, true_or, if_true, assertThat_pos hchannels, ok_bind,
    except_pure]
  exact hadd

/-- One that was taken out is added again. -/
theorem updateChannel_deleted (hindex : (p.channel c).index_ = kDeleted)
    (hchannels : p.channels_[(p.channel c).fd_]? = some c)
    (hepoll : p.epoll[(p.channel c).fd_]? = none) :
    p.updateChannel c = .ok { p.withIndex c kAdded with
      epoll := p.epoll.insert (p.channel c).fd_ ((p.channel c).events_, c)
      calls := p.calls ++ [⟨.add, (p.channel c).fd_, false⟩] } := by
  have hne : kDeleted ≠ kNew := by decide
  have hadd := @update_add ι (p.withIndex c kAdded) c (by rw [withIndex_self]; exact hepoll)
  simp only [withIndex_self] at hadd
  simp only [updateChannel, hindex, or_true, if_true, if_neg hne,
    assertKnown_eq hchannels, ok_bind, except_pure]
  exact hadd

/-- A channel in the list leaves it when it has no interest. -/
theorem updateChannel_none {entry : EventMask × ι} (hindex : (p.channel c).index_ = kAdded)
    (hchannels : p.channels_[(p.channel c).fd_]? = some c)
    (hepoll : p.epoll[(p.channel c).fd_]? = some entry)
    (hnone : (p.channel c).events_ = Channel.kNoneEvent) :
    p.updateChannel c = .ok { p.withIndex c kDeleted with
      epoll := p.epoll.erase (p.channel c).fd_
      calls := p.calls ++ [⟨.del, (p.channel c).fd_, true⟩] } := by
  have hbranch : ¬ (kAdded = kNew ∨ kAdded = kDeleted) := by decide
  have hempty : (p.channel c).isNoneEvent = true := by
    rw [EPollChannel.isNoneEvent, hnone]
    decide
  simp only [updateChannel, hindex, if_neg hbranch, assertKnown_eq hchannels, assertThat_pos,
    ok_bind, hempty, if_true, update_del hepoll, except_pure]
  rfl

/-- A channel in the list with interest gets its new mask. -/
theorem updateChannel_mod {entry : EventMask × ι} (hindex : (p.channel c).index_ = kAdded)
    (hchannels : p.channels_[(p.channel c).fd_]? = some c)
    (hepoll : p.epoll[(p.channel c).fd_]? = some entry)
    (hsome : (p.channel c).events_ ≠ Channel.kNoneEvent) :
    p.updateChannel c = .ok { p with
      epoll := p.epoll.insert (p.channel c).fd_ ((p.channel c).events_, c)
      calls := p.calls ++ [⟨.mod, (p.channel c).fd_, true⟩] } := by
  have hbranch : ¬ (kAdded = kNew ∨ kAdded = kDeleted) := by decide
  have hempty : ¬ (p.channel c).isNoneEvent = true := by
    rw [EPollChannel.isNoneEvent, beq_iff_eq]
    exact hsome
  simp only [updateChannel, hindex, if_neg hbranch, assertKnown_eq hchannels, assertThat_pos,
    ok_bind, if_neg hempty, update_mod hepoll]

/-- A channel in the set is taken out of both. -/
theorem removeChannel_added {entry : EventMask × ι} (hindex : (p.channel c).index_ = kAdded)
    (hchannels : p.channels_[(p.channel c).fd_]? = some c)
    (hepoll : p.epoll[(p.channel c).fd_]? = some entry)
    (hnone : (p.channel c).isNoneEvent = true) :
    p.removeChannel c = .ok { p.withIndex c kNew with
      channels_ := p.channels_.erase (p.channel c).fd_
      epoll := p.epoll.erase (p.channel c).fd_
      calls := p.calls ++ [⟨.del, (p.channel c).fd_, true⟩] } := by
  have hne : p.channels_[(p.channel c).fd_]? ≠ none := by
    rw [hchannels]
    simp
  have hdel := @update_del ι { p with channels_ := p.channels_.erase (p.channel c).fd_ } c
    entry hepoll
  simp only [removeChannel, assertKnown_eq hchannels, hindex, assertThat_pos, hnone, ok_bind,
    true_or, hne, ne_eq, not_false_eq_true, if_true, hdel, except_pure]
  rfl

/-- One that is out already leaves the map. -/
theorem removeChannel_deleted (hindex : (p.channel c).index_ = kDeleted)
    (hchannels : p.channels_[(p.channel c).fd_]? = some c)
    (hnone : (p.channel c).isNoneEvent = true) :
    p.removeChannel c = .ok { p.withIndex c kNew with
      channels_ := p.channels_.erase (p.channel c).fd_ } := by
  have hne : p.channels_[(p.channel c).fd_]? ≠ none := by
    rw [hchannels]
    simp
  have hbranch : ¬ kDeleted = kAdded := by decide
  simp only [removeChannel, assertKnown_eq hchannels, hindex, assertThat_pos, hnone, ok_bind,
    or_true, hne, ne_eq, not_false_eq_true, if_neg hbranch, except_pure]
  rfl

/-! ### One channel at a time -/

/-- An operation on `c` has left its view as `ch`, and has changed nothing
that is not under the descriptor of `c`. -/
structure Wrote (fd : ι → Int) (p p' : EPollPoller ι) (c : ι) (ch : Channel) : Prop where
  other : ∀ d, d ≠ c → p'.channel d = p.channel d
  fd_eq : (p'.channel c).fd_ = fd c
  events : (p'.channel c).events_ = ch.events_
  index : (p'.channel c).index_ = ch.index_
  added : (p'.channel c).addedToLoop_ = ch.addedToLoop_
  channels : ∀ k, p'.channels_[k]? =
    if fd c = k then (if ch.registered then some c else none) else p.channels_[k]?
  epoll : ∀ k, p'.epoll[k]? = if fd c = k then ch.epoll.map (·, c) else p.epoll[k]?
  calls : ∃ new, p'.calls = p.calls ++ new ∧ ∀ call ∈ new, Legal call

/-- The parts of the poller are about the channels that have the
descriptors. -/
structure Keyed (fd : ι → Int) (p : EPollPoller ι) : Prop where
  fd_eq : ∀ c, (p.channel c).fd_ = fd c
  channels : ∀ k c, p.channels_[k]? = some c → fd c = k
  epoll : ∀ k entry, p.epoll[k]? = some entry → fd entry.2 = k

/-- Nothing but `c` stands under the descriptor of `c`. -/
structure Own (fd : ι → Int) (p : EPollPoller ι) (c : ι) : Prop where
  channels : ∀ d, p.channels_[fd c]? = some d → d = c
  epoll : ∀ entry, p.epoll[fd c]? = some entry → entry.2 = c

omit [DecidableEq ι] in
/-- Channels with descriptors of their own. -/
theorem Keyed.own (hp : Keyed fd p) (hinj : Function.Injective fd) (c : ι) : Own fd p c :=
  ⟨fun d h => hinj (hp.channels _ d h), fun entry h => hinj (hp.epoll _ entry h)⟩

namespace Wrote

variable {ch : Channel}

theorem view_self (h : Wrote fd p p' c ch) : p'.view c = ch := by
  have hchannels := h.channels (fd c)
  have hepoll := h.epoll (fd c)
  rw [if_pos rfl] at hchannels hepoll
  have hreg : p'.registered c = ch.registered := by
    rw [registered, h.fd_eq, hchannels]
    cases ch.registered with
    | true => simp
    | false => simp
  have hmask : (p'.epoll[(p'.channel c).fd_]?).map Prod.fst = ch.epoll := by
    rw [h.fd_eq, hepoll, Option.map_map]
    exact Option.map_id'
  rw [view, h.events, h.index, h.added, hreg, hmask]

/-- The view of a channel with another descriptor is the same. -/
theorem view_other (h : Wrote fd p p' c ch) (hp : Keyed fd p) {d : ι} (hne : fd c ≠ fd d) :
    p'.view d = p.view d := by
  have hd : d ≠ c := fun heq => hne (heq ▸ rfl)
  have hchannels := h.channels (fd d)
  have hepoll := h.epoll (fd d)
  rw [if_neg hne] at hchannels hepoll
  have hreg : p'.registered d = p.registered d := by
    rw [registered, registered, h.other d hd, hp.fd_eq, hchannels]
  rw [view, view, h.other d hd, hreg, hp.fd_eq, hepoll]

theorem keyed (h : Wrote fd p p' c ch) (hp : Keyed fd p) : Keyed fd p' where
  fd_eq d := by
    by_cases hd : d = c
    · rw [hd]
      exact h.fd_eq
    · rw [h.other d hd]
      exact hp.fd_eq d
  channels k d hk := by
    rw [h.channels] at hk
    split at hk
    · rename_i heq
      split at hk
      · cases hk
        exact heq
      · cases hk
    · exact hp.channels k d hk
  epoll k entry hk := by
    rw [h.epoll] at hk
    split at hk
    · rename_i heq
      obtain ⟨mask, _, rfl⟩ := Option.map_eq_some_iff.mp hk
      exact heq
    · exact hp.epoll k entry hk

end Wrote

section

variable (hp : Keyed fd p) (hown : Own fd p c)

include hp

theorem registered_iff : p.registered c = true ↔ p.channels_[fd c]? = some c := by
  rw [registered, hp.fd_eq, beq_iff_eq]

include hown

/-- Only the channel itself is registered under its descriptor. -/
theorem lookup_of_unregistered (h : p.registered c = false) : p.channels_[fd c]? = none := by
  cases hd : p.channels_[fd c]? with
  | none => rfl
  | some d =>
      rw [hown.channels d hd, ← registered_iff hp, h] at hd
      cases hd

end

/-- A write to the channel, with writes under its descriptor. -/
theorem wrote_of_update {x : EPollChannel} {ch : Channel}
    (hchannel : p'.channel = Function.update p.channel c x) (hfd : x.fd_ = fd c)
    (hevents : x.events_ = ch.events_) (hindex : x.index_ = ch.index_)
    (hadded : x.addedToLoop_ = ch.addedToLoop_)
    (hchannels : ∀ k, p'.channels_[k]? =
      if fd c = k then (if ch.registered then some c else none) else p.channels_[k]?)
    (hepoll : ∀ k, p'.epoll[k]? = if fd c = k then ch.epoll.map (·, c) else p.epoll[k]?)
    (hcalls : ∃ new, p'.calls = p.calls ++ new ∧ ∀ call ∈ new, Legal call) :
    Wrote fd p p' c ch := by
  have hself : p'.channel c = x := by rw [hchannel, Function.update_self]
  constructor
  case other =>
    intro d hd
    rw [hchannel, Function.update_of_ne hd]
  case fd_eq => rw [hself, hfd]
  case events => rw [hself, hevents]
  case index => rw [hself, hindex]
  case added => rw [hself, hadded]
  case channels => exact hchannels
  case epoll => exact hepoll
  case calls => exact hcalls

theorem legal_snoc {calls : List CtlCall} {call : CtlCall} (h : Legal call) :
    ∃ new, calls ++ [call] = calls ++ new ∧ ∀ call ∈ new, Legal call :=
  ⟨[call], rfl, fun _ hcall => List.mem_singleton.mp hcall ▸ h⟩

/-- A table with its old entry for a key. -/
theorem eq_ite_of_eq {α : Type} {f : Int → α} {k₀ : Int} {a : α} (h : f k₀ = a) (k : Int) :
    f k = if k₀ = k then a else f k := by
  split
  · rename_i hk
    rw [← hk, h]
  · rfl

/-- The entry of a channel in the kernel's list, in terms of its view. -/
theorem view_epoll_none (hp : Keyed fd p) (h : (p.view c).epoll = none) : p.epoll[fd c]? = none := by
  rw [view, hp.fd_eq] at h
  exact Option.map_eq_none_iff.mp h

theorem view_epoll_some (hp : Keyed fd p) (hown : Own fd p c) {mask : EventMask}
    (h : (p.view c).epoll = some mask) : p.epoll[fd c]? = some (mask, c) := by
  rw [view, hp.fd_eq] at h
  obtain ⟨entry, hentry, rfl⟩ := Option.map_eq_some_iff.mp h
  rw [hentry, ← hown.epoll entry hentry]

theorem setChannel_self (p : EPollPoller ι) (c : ι) (x : EPollChannel) :
    (p.setChannel c x).channel c = x := Function.update_self _ _ _

/-- Only the last write to the channel stays. -/
theorem update_setChannel (p : EPollPoller ι) (c : ι) (x y : EPollChannel) :
    Function.update (p.setChannel c x).channel c y = Function.update p.channel c y :=
  Function.update_idem _ _ _

/-- A channel that is changed keeps its descriptor. -/
theorem Keyed.fd_setChannel (hp : Keyed fd p) {x : EPollChannel} (hx : x.fd_ = (p.channel c).fd_) :
    ((p.setChannel c x).channel c).fd_ = fd c := by
  rw [setChannel_self, hx]
  exact hp.fd_eq c

/-- The interest set is written, and `update()` is called. -/
theorem change_spec (hp : Keyed fd p) (hown : Own fd p c)
    (hentry : Channel.Entry (p.view c)) (op : Interest) :
    ∃ p' ch, p.change c op = .ok p' ∧
      Channel.update { p.view c with events_ := op.apply (p.channel c).events_ } = .ok ch ∧
      Wrote fd p p' c ch := by
  have hentry' := hentry.withEvents (op.apply (p.channel c).events_)
  rw [change]
  generalize op.apply (p.channel c).events_ = events at hentry' ⊢
  let x : EPollChannel := { p.channel c with events_ := events, addedToLoop_ := true }
  have hself := setChannel_self p c x
  have hfd : ((p.setChannel c x).channel c).fd_ = fd c := hp.fd_setChannel rfl
  have hevents : ((p.setChannel c x).channel c).events_ = events := by rw [hself]
  have hadded : ((p.setChannel c x).channel c).addedToLoop_ = true := by rw [hself]
  cases hentry with
  | new hindex hreg hepoll =>
      -- No other channel has the descriptor, so the `assert` on the map holds.
      have hfree := lookup_of_unregistered hp hown hreg
      have hout := view_epoll_none hp hepoll
      have hupdate := @updateChannel_new ι (p.setChannel c x) c _ (by rw [hself]; exact hindex)
        (by rw [hfd]; exact hfree) (by rw [hfd]; exact hout)
      refine ⟨_, _, hupdate, Channel.update_out_eq hentry' hepoll, ?_⟩
      rw [hfd, hevents]
      refine wrote_of_update (update_setChannel p c x _) hfd hevents rfl hadded ?_ ?_ ?_
      · exact fun k => getElem?_insert_eq _ _ _ _
      · exact fun k => getElem?_insert_eq _ _ _ _
      · exact legal_snoc (by simp [Legal])
  | deleted hindex hreg hepoll =>
      have hknown := (registered_iff hp).mp hreg
      have hout := view_epoll_none hp hepoll
      have hupdate := @updateChannel_deleted ι (p.setChannel c x) c _ (by rw [hself]; exact hindex)
        (by rw [hfd]; exact hknown) (by rw [hfd]; exact hout)
      refine ⟨_, _, hupdate, Channel.update_out_eq hentry' hepoll, ?_⟩
      rw [hfd, hevents]
      refine wrote_of_update (update_setChannel p c x _) hfd hevents rfl hadded ?_ ?_ ?_
      · exact eq_ite_of_eq hknown
      · exact fun k => getElem?_insert_eq _ _ _ _
      · exact legal_snoc (by simp [Legal])
  | added mask hindex hreg hepoll =>
      have hknown := (registered_iff hp).mp hreg
      have hin := view_epoll_some hp hown hepoll
      have hchannel := @Channel.update_in_eq { p.view c with events_ := events } mask hindex hreg
        hepoll
      -- Without interest the channel leaves the set but stays in the map.
      by_cases hnone : events = Channel.kNoneEvent
      · rw [if_pos hnone] at hchannel
        have hupdate := @updateChannel_none ι (p.setChannel c x) c _ _ (by rw [hself]; exact hindex)
          (by rw [hfd]; exact hknown) (by rw [hfd]; exact hin) (hevents.trans hnone)
        refine ⟨_, _, hupdate, hchannel, ?_⟩
        rw [hfd]
        refine wrote_of_update (update_setChannel p c x _) hfd hevents rfl hadded ?_ ?_ ?_
        · exact eq_ite_of_eq hknown
        · exact fun k => getElem?_erase_eq _ _ _
        · exact legal_snoc (by simp [Legal])
      · rw [if_neg hnone] at hchannel
        have hupdate := @updateChannel_mod ι (p.setChannel c x) c _ _ (by rw [hself]; exact hindex)
          (by rw [hfd]; exact hknown) (by rw [hfd]; exact hin) (fun h => hnone (hevents.symm.trans h))
        refine ⟨_, _, hupdate, hchannel, ?_⟩
        rw [hfd, hevents]
        refine wrote_of_update rfl (hp.fd_eq c) rfl hindex rfl ?_ ?_ ?_
        · exact eq_ite_of_eq hknown
        · exact fun k => getElem?_insert_eq _ _ _ _
        · exact legal_snoc (by simp [Legal])

/-- `remove()` of a registered channel without interest. -/
theorem remove_spec (hp : Keyed fd p) (hown : Own fd p c)
    (hentry : Channel.Entry (p.view c)) (hreg : p.registered c = true)
    (hnone : (p.channel c).isNoneEvent = true) :
    ∃ p' ch, p.remove c = .ok p' ∧ (p.view c).remove = .ok ch ∧ Wrote fd p p' c ch := by
  have hevents : (p.channel c).events_ = Channel.kNoneEvent := beq_iff_eq.mp hnone
  have hknown := (registered_iff hp).mp hreg
  have hchannel := Channel.remove_eq hentry hreg hevents
  let x : EPollChannel := { p.channel c with addedToLoop_ := false }
  have hself := setChannel_self p c x
  have hfd : ((p.setChannel c x).channel c).fd_ = fd c := hp.fd_setChannel rfl
  have hevents' : ((p.setChannel c x).channel c).events_ = (p.channel c).events_ := by rw [hself]
  have hadded : ((p.setChannel c x).channel c).addedToLoop_ = false := by rw [hself]
  rw [remove, assertThat_pos hnone, ok_bind]
  cases hentry with
  | new _ hunreg _ =>
      rw [view, hreg] at hunreg
      cases hunreg
  | added mask hindex _ hepoll =>
      have hin := view_epoll_some hp hown hepoll
      have hremove := @removeChannel_added ι (p.setChannel c x) c _ _ (by rw [hself]; exact hindex)
        (by rw [hfd]; exact hknown) (by rw [hfd]; exact hin) (by rw [hself]; exact hnone)
      refine ⟨_, _, hremove, hchannel, ?_⟩
      rw [hfd]
      refine wrote_of_update (update_setChannel p c x _) hfd hevents' rfl hadded ?_ ?_ ?_
      · exact fun k => getElem?_erase_eq _ _ _
      · exact fun k => getElem?_erase_eq _ _ _
      · exact legal_snoc (by simp [Legal])
  | deleted hindex _ hepoll =>
      have hout := view_epoll_none hp hepoll
      have hremove := @removeChannel_deleted ι (p.setChannel c x) c _ (by rw [hself]; exact hindex)
        (by rw [hfd]; exact hknown) (by rw [hself]; exact hnone)
      refine ⟨_, _, hremove, hchannel, ?_⟩
      rw [hfd]
      refine wrote_of_update (update_setChannel p c x _) hfd hevents' rfl hadded ?_ ?_ ?_
      · exact fun k => getElem?_erase_eq _ _ _
      · exact eq_ite_of_eq hout
      · exact ⟨[], (List.append_nil _).symm, fun call hcall => by cases hcall⟩

/-! ### Polling -/

/-- Only `revents_` of the channels has changed, and perhaps the room in
`events_`. -/
structure Polls (p p' : EPollPoller ι) : Prop where
  channel : ∀ c, p'.channel c = { p.channel c with revents_ := (p'.channel c).revents_ }
  channels : p'.channels_ = p.channels_
  epoll : p'.epoll = p.epoll
  calls : p'.calls = p.calls

omit [DecidableEq ι] in
theorem Polls.refl (p : EPollPoller ι) : Polls p p := ⟨fun _ => rfl, rfl, rfl, rfl⟩

omit [DecidableEq ι] in
theorem Polls.trans {p'' : EPollPoller ι} (h : Polls p p') (h' : Polls p' p'') : Polls p p'' where
  channel c := by rw [h'.channel c, h.channel c]
  channels := h'.channels.trans h.channels
  epoll := h'.epoll.trans h.epoll
  calls := h'.calls.trans h.calls

/-- A poll changes no channel but for `revents_`. -/
theorem Polls.view_eq (h : Polls p p') (c : ι) : p'.view c = p.view c := by
  have hreg : p'.registered c = p.registered c := by
    rw [registered, registered, h.channels, h.channel c]
  rw [view, view, hreg, h.epoll, h.channel c]

omit [DecidableEq ι] in
theorem Polls.keyed (h : Polls p p') (hp : Keyed fd p) : Keyed fd p' where
  fd_eq c := by
    rw [h.channel c]
    exact hp.fd_eq c
  channels := by
    rw [h.channels]
    exact hp.channels
  epoll := by
    rw [h.epoll]
    exact hp.epoll

/-- The `assert`s of the loop hold for registered channels. -/
theorem fillLoop_spec (events : List (EventMask × ι)) :
    ∀ (p : EPollPoller ι) (active : List ι), (∀ x ∈ events, p.registered x.2 = true) →
      Returns (fillLoop events p active) fun r =>
        Polls p r.1 ∧ r.1.eventsSize = p.eventsSize ∧ r.2 = active ++ events.map Prod.snd := by
  induction events with
  | nil =>
      intro p active _
      exact Ends.ok ⟨Polls.refl p, rfl, (List.append_nil _).symm⟩
  | cons x events ih =>
      intro p active hreg
      have hknown : p.channels_[(p.channel x.2).fd_]? = some x.2 :=
        beq_iff_eq.mp (hreg x List.mem_cons_self)
      have hpolls : Polls p (p.setChannel x.2 { p.channel x.2 with revents_ := x.1 }) := by
        refine ⟨fun c => ?_, rfl, rfl, rfl⟩
        by_cases hc : c = x.2
        · simp only [setChannel, hc, Function.update_self]
        · simp only [setChannel, Function.update_of_ne hc]
      rw [fillLoop, assertKnown_eq hknown, ok_bind]
      refine (ih _ (active ++ [x.2]) ?_).imp ?_
      · intro y hy
        have hsame := congrArg Channel.registered (hpolls.view_eq y.2)
        exact hsame.trans (hreg y (List.mem_cons_of_mem _ hy))
      · intro r hr
        obtain ⟨hr, hsize, hactive⟩ := hr
        refine ⟨hpolls.trans hr, hsize, ?_⟩
        rw [hactive, List.append_assoc]
        rfl

/-! ### Runs -/

/-- What the poller knows of one channel is right: the index says where it
is, the kernel has its mask, only registered channels have interest, and
those with interest are in the kernel's list. -/
structure Tracked (ch : Channel) : Prop where
  entry : Channel.Entry ch
  mask : ∀ mask, ch.epoll = some mask → mask = ch.events_
  quiet : ch.registered = false → ch.events_ = Channel.kNoneEvent
  listed : ch.events_ ≠ Channel.kNoneEvent → ch.epoll.isSome = true

theorem Tracked.of_updated {ch ch' : Channel} (h : Channel.Updated ch ch') : Tracked ch' where
  entry := h.entry
  mask mask hmask := by
    rw [h.epoll] at hmask
    split at hmask
    · cases hmask
    · rw [h.events]
      exact (Option.some.inj hmask).symm
  quiet hreg := by
    rw [h.registered] at hreg
    cases hreg
  listed hsome := by
    rw [h.events] at hsome
    rw [h.epoll, if_neg fun hboth => hsome hboth.2]
    rfl

/-- The invariant of the poller. -/
structure Sound (fd : ι → Int) (p : EPollPoller ι) : Prop where
  keyed : Keyed fd p
  tracked : ∀ c, Tracked (p.view c)
  legal : ∀ call ∈ p.calls, Legal call

theorem sound_init : Sound fd (init fd).poller where
  keyed :=
    { fd_eq := fun _ => rfl
      channels := fun k c h => by simp [init] at h
      epoll := fun k entry h => by simp [init] at h }
  tracked c :=
    { entry := .new rfl (by simp [view, registered, init]) (by simp [view, init])
      mask := fun mask h => by simp [view, init] at h
      quiet := fun _ => rfl
      listed := fun hsome => absurd rfl hsome }
  legal call h := by cases h

/-- Writing a tracked channel keeps every other one. -/
theorem Wrote.sound {ch : Channel} (h : Wrote fd p p' c ch) (hp : Sound fd p)
    (hinj : Function.Injective fd) (hch : Tracked ch) : Sound fd p' where
  keyed := h.keyed hp.keyed
  tracked d := by
    by_cases hd : d = c
    · rw [hd, h.view_self]
      exact hch
    · rw [h.view_other hp.keyed (hinj.ne fun heq => hd heq.symm)]
      exact hp.tracked d
  legal := by
    obtain ⟨new, hcalls, hnew⟩ := h.calls
    intro call hcall
    rw [hcalls] at hcall
    cases List.mem_append.mp hcall with
    | inl hold => exact hp.legal call hold
    | inr hlast => exact hnew call hlast

/-- An interest operation, and what it leaves in the view. -/
theorem change_sound (hp : Sound fd p) (hinj : Function.Injective fd) (op : Interest) :
    Returns (p.change c op) fun p' => Sound fd p' ∧
      (∀ d, d ≠ c → p'.view d = p.view d) ∧
      Channel.Updated { p.view c with events_ := op.apply (p.channel c).events_ } (p'.view c) := by
  have hentry := (hp.tracked c).entry
  obtain ⟨p', ch, hchange, hupdate, hwrote⟩ := change_spec hp.keyed (hp.keyed.own hinj c) hentry op
  obtain ⟨ch', hok, hupdated⟩ := Channel.change_spec hentry (op.apply (p.channel c).events_)
  have hsame : ch' = ch := Except.ok.inj (hok.symm.trans hupdate)
  rw [hsame] at hupdated
  refine Ends.of_eq_ok hchange ⟨hwrote.sound hp hinj (.of_updated hupdated), ?_, ?_⟩
  · exact fun d hd => hwrote.view_other hp.keyed (hinj.ne hd.symm)
  · rw [hwrote.view_self]
    exact hupdated

/-- What `remove()` leaves of a registered channel without interest. -/
theorem view_removed {ch : Channel} (hentry : Channel.Entry (p.view c))
    (hreg : p.registered c = true) (hnone : (p.channel c).isNoneEvent = true)
    (h : (p.view c).remove = .ok ch) : ch = ⟨Channel.kNoneEvent, kNew, false, false, none⟩ := by
  have hevents : (p.channel c).events_ = Channel.kNoneEvent := beq_iff_eq.mp hnone
  rw [Channel.remove_eq hentry hreg hevents] at h
  rw [← Except.ok.inj h]
  exact congrArg (fun events => Channel.mk events kNew false false none) hevents

theorem remove_sound (hp : Sound fd p) (hinj : Function.Injective fd)
    (hreg : p.registered c = true) (hnone : (p.channel c).isNoneEvent = true) :
    Returns (p.remove c) fun p' => Sound fd p' ∧
      (∀ d, d ≠ c → p'.view d = p.view d) ∧
      p'.view c = ⟨Channel.kNoneEvent, kNew, false, false, none⟩ := by
  have hentry := (hp.tracked c).entry
  obtain ⟨p', ch, hremove, hchannel, hwrote⟩ :=
    remove_spec hp.keyed (hp.keyed.own hinj c) hentry hreg hnone
  have hch := view_removed hentry hreg hnone hchannel
  have htracked : Tracked ch := by
    rw [hch]
    exact ⟨.new rfl rfl rfl, fun mask h => (by cases h), fun _ => rfl, fun h => absurd rfl h⟩
  refine Ends.of_eq_ok hremove ⟨hwrote.sound hp hinj htracked, ?_, ?_⟩
  · exact fun d hd => hwrote.view_other hp.keyed (hinj.ne hd.symm)
  · rw [hwrote.view_self, hch]

theorem Polls.sound (h : Polls p p') (hp : Sound fd p) : Sound fd p' where
  keyed := h.keyed hp.keyed
  tracked c := by
    rw [h.view_eq c]
    exact hp.tracked c
  legal := by
    rw [h.calls]
    exact hp.legal

/-- A channel with an entry in the kernel's list is registered. -/
theorem Sound.registered_of_mem (hp : Sound fd p) {k : Int} {entry : EventMask × ι}
    (h : p.epoll[k]? = some entry) : p.registered entry.2 = true := by
  have hk := hp.keyed.epoll k entry h
  have hview : (p.view entry.2).epoll = some entry.1 := by
    rw [view, hp.keyed.fd_eq, hk, h]
    rfl
  cases (hp.tracked entry.2).entry with
  | new _ _ hepoll => rw [hview] at hepoll; cases hepoll
  | added _ _ hreg _ => exact hreg
  | deleted _ hreg _ => exact hreg

omit [DecidableEq ι] in
/-- The kernel's answer, entry by entry: every descriptor of it leads to its
channel. -/
theorem map_written (hp : Keyed fd p) {answer : List (Int × EventMask)}
    (hall : ∀ x ∈ answer, p.epoll[x.1]? ≠ none) :
    (p.written answer).map (fun x => (fd x.2, x.1)) = answer := by
  induction answer with
  | nil => rfl
  | cons x answer ih =>
      obtain ⟨entry, hentry⟩ := Option.ne_none_iff_exists'.mp (hall x List.mem_cons_self)
      have hrest := ih fun y hy => hall y (List.mem_cons_of_mem _ hy)
      rw [written] at hrest ⊢
      rw [List.filterMap_cons, hentry]
      show (fd entry.2, x.2) :: _ = _
      rw [hrest, hp.epoll x.1 entry hentry]

omit [DecidableEq ι] in
/-- An answer that the kernel can give leads to the channels of its
descriptors, each once. -/
theorem written_of_answers (hp : Keyed fd p) {answer : List (Int × EventMask)}
    (hanswer : p.kernelAnswers answer = true) :
    (p.written answer).map (fun x => (fd x.2, x.1)) = answer ∧
      ((p.written answer).map Prod.snd).map fd = answer.map Prod.fst ∧
      ((p.written answer).map Prod.snd).Nodup := by
  simp only [kernelAnswers, Bool.and_eq_true, decide_eq_true_eq, List.all_eq_true] at hanswer
  have hall : ∀ x ∈ answer, p.epoll[x.1]? ≠ none := by
    intro x hx hnone
    have hentry := hanswer.2 x hx
    rw [hnone] at hentry
    cases hentry
  have hwritten := map_written hp hall
  have hfds : ((p.written answer).map Prod.snd).map fd = answer.map Prod.fst := by
    conv_rhs => rw [← hwritten]
    rw [List.map_map, List.map_map]
    rfl
  have hnodup := hanswer.1.2
  rw [← hfds] at hnodup
  exact ⟨hwritten, hfds, List.Nodup.of_map fd hnodup⟩

/-- `poll` changes no table, and lists the channels of the descriptors that
the kernel reports, each once, as long as the kernel's list leads to
registered channels only. -/
theorem poll_spec (hp : Keyed fd p)
    (hlisted : ∀ (k : Int) (entry : EventMask × ι), p.epoll[k]? = some entry →
      p.registered entry.2 = true)
    {answer : List (Int × EventMask)} (hanswer : p.kernelAnswers answer = true) :
    Returns (p.poll answer) fun r => Polls p r.1 ∧ r.2.map fd = answer.map Prod.fst ∧ r.2.Nodup ∧
      ∀ c ∈ r.2, p.registered c = true := by
  obtain ⟨hwritten, hfds, hlist⟩ := written_of_answers hp hanswer
  simp only [kernelAnswers, Bool.and_eq_true, decide_eq_true_eq] at hanswer
  have hroom := hanswer.1.1
  have hlength : (p.written answer).length = answer.length := by
    have hlen := congrArg List.length hwritten
    rwa [List.length_map] at hlen
  have hreg : ∀ x ∈ p.written answer, p.registered x.2 = true := by
    intro x hx
    obtain ⟨y, _, hy⟩ := List.mem_filterMap.mp hx
    obtain ⟨entry, hentry, rfl⟩ := Option.map_eq_some_iff.mp hy
    exact hlisted _ entry hentry
  have hmem : ∀ c ∈ (p.written answer).map Prod.snd, p.registered c = true := by
    intro c hc
    obtain ⟨x, hx, rfl⟩ := List.mem_map.mp hc
    exact hreg x hx
  rw [poll]
  by_cases hpos : 0 < (p.written answer).length
  · rw [if_pos hpos, fillActiveChannels, assertThat_pos (hlength ▸ hroom), ok_bind]
    refine Ends.bind (fillLoop_spec _ p [] hreg) ?_
    intro r hr
    obtain ⟨hpolls, _, hactive⟩ := hr
    rw [List.nil_append] at hactive
    rw [← hactive] at hfds hlist hmem
    obtain ⟨p₁, active⟩ := r
    dsimp only at hpolls hfds hlist hmem ⊢
    split
    · exact Ends.ok ⟨⟨hpolls.channel, hpolls.channels, hpolls.epoll, hpolls.calls⟩, hfds, hlist, hmem⟩
    · exact Ends.ok ⟨hpolls, hfds, hlist, hmem⟩
  · have hnil : p.written answer = [] := List.length_eq_zero_iff.mp (by omega)
    rw [if_neg hpos]
    rw [hnil] at hfds
    exact Ends.ok ⟨Polls.refl p, hfds, List.nodup_nil, fun c hc => by cases hc⟩

/-- Every step that the environment can take keeps the invariant. -/
theorem step_sound {s : Use ι} (hp : Sound fd s.poller) (hinj : Function.Injective fd)
    {e : Event ι} (hen : enabled s e = true) :
    Returns (step s e) fun s' => Sound fd s'.poller := by
  cases e with
  | update c op =>
      refine Ends.bind (change_sound hp hinj op) ?_
      intro p' hp'
      exact Ends.ok hp'.1
  | remove c =>
      obtain ⟨hreg, hnone⟩ := Bool.and_eq_true_iff.mp hen
      refine Ends.bind (remove_sound hp hinj hreg hnone) ?_
      intro p' hp'
      exact Ends.ok hp'.1
  | poll answer =>
      refine Ends.bind (poll_spec hp.keyed (fun _ _ => hp.registered_of_mem) hen) ?_
      intro r hr
      exact Ends.ok (hr.1.sound hp)

/-- The channels are tracked in every run. -/
theorem sound_of_run (hinj : Function.Injective fd) {es : List (Event ι)} {s : Use ι}
    (hrun : (machine ι).Run (init fd) es s) : Sound fd s.poller := by
  refine hrun.invariant (I := fun t => Sound fd t.poller) sound_init ?_
  intro t e u ht hen hstep
  exact (step_sound ht hinj hen).post hstep

theorem mem_channels_iff (hp : Keyed fd p) (hinj : Function.Injective fd) :
    fd c ∈ p.channels_ ↔ (p.view c).registered = true := by
  rw [Std.ExtTreeMap.mem_iff_isSome_getElem?]
  cases hreg : (p.view c).registered with
  | true =>
      rw [(registered_iff hp).mp hreg]
      exact iff_of_true rfl rfl
  | false =>
      rw [lookup_of_unregistered hp (hp.own hinj c) hreg]
      exact iff_of_false Bool.false_ne_true Bool.false_ne_true

theorem mem_epoll_iff (hp : Keyed fd p) : fd c ∈ p.epoll ↔ (p.view c).epoll.isSome = true := by
  rw [Std.ExtTreeMap.mem_iff_isSome_getElem?, view, hp.fd_eq, Option.isSome_map]

/-- In every run `index_` says where a channel is. It is `kNew` when the
descriptor is not in `channels_`, `kAdded` when it is there and in the
kernel's list, and `kDeleted` when it is there and not in the list. For a
descriptor in the list the kernel has the channel and its interest set.
`epoll_ctl` was called with `EPOLL_CTL_ADD` for absent descriptors only, and
with the other operations for present ones only. The next step, whichever it
is, meets no failed `assert` and no failed `epoll_ctl`. -/
theorem index_tracks_tables (hinj : Function.Injective fd) {es : List (Event ι)} {s : Use ι}
    (hrun : (machine ι).Run (init fd) es s) :
    (∀ c, ((s.poller.channel c).index_ = kNew ↔ fd c ∉ s.poller.channels_) ∧
      ((s.poller.channel c).index_ = kAdded ↔
        fd c ∈ s.poller.channels_ ∧ fd c ∈ s.poller.epoll) ∧
      ((s.poller.channel c).index_ = kDeleted ↔
        fd c ∈ s.poller.channels_ ∧ fd c ∉ s.poller.epoll) ∧
      (∀ d, s.poller.channels_[fd c]? = some d → d = c) ∧
      ∀ entry, s.poller.epoll[fd c]? = some entry → entry = ((s.poller.channel c).events_, c)) ∧
    (∀ call ∈ s.poller.calls, call.op = .add ↔ call.present = false) ∧
    ∀ e, (machine ι).enabled s e → ∃ s', (machine ι).step s e = .ok s' := by
  have hp := sound_of_run hinj hrun
  refine ⟨fun c => ?_, hp.legal, ?_⟩
  · have hsome : ∀ d, s.poller.channels_[fd c]? = some d → d = c :=
      fun d hd => hinj (hp.keyed.channels _ d hd)
    have hentry : ∀ entry, s.poller.epoll[fd c]? = some entry →
        entry = ((s.poller.channel c).events_, c) := by
      intro entry h
      have hself : entry.2 = c := hinj (hp.keyed.epoll _ entry h)
      have hmask := (hp.tracked c).mask entry.1 (by rw [view, hp.keyed.fd_eq, h]; rfl)
      exact Prod.ext hmask hself
    have hnew : kNew ≠ kAdded ∧ kNew ≠ kDeleted ∧ kAdded ≠ kDeleted := by decide
    have hindex : (s.poller.channel c).index_ = (s.poller.view c).index_ := rfl
    rw [mem_channels_iff hp.keyed hinj, mem_epoll_iff hp.keyed, hindex]
    refine ⟨?_, ?_, ?_, hsome, hentry⟩
    all_goals
      cases (hp.tracked c).entry with
      | new hindex hreg hepoll => simp [hindex, hreg, hepoll, hnew]
      | added mask hindex hreg hepoll => simp [hindex, hreg, hepoll, hnew, hnew.1.symm]
      | deleted hindex hreg hepoll =>
          simp [hindex, hreg, hepoll, hnew.2.1.symm, hnew.2.2.symm]
  · intro e hen
    obtain ⟨s', hstep, _⟩ := (step_sound hp hinj hen).exists_ok
    exact ⟨s', hstep⟩

/-- Two channels. The first is enabled, disabled, removed and enabled again,
and is the one the kernel reports. -/
theorem index_tracks_tables_after_return :
    ∃ s, (machine (Fin 2)).Run (init fun c => (c.val : Int) + 5)
        [.update 0 .enableReading, .update 1 .enableWriting, .update 0 .disableAll, .remove 0,
          .update 0 .enableReading, .poll [(5, POLLIN)]] s ∧
      ((s.poller.channel 0).index_ = kAdded ∧ s.activeChannels_ = [0]) ∧
      (5 : Int) ∈ s.poller.epoll := by
  have hinj : Function.Injective fun c : Fin 2 => (c.val : Int) + 5 := by
    intro c d heq
    have hval : (c.val : Int) + 5 = (d.val : Int) + 5 := heq
    exact Fin.ext (by omega)
  have hexec : ((machine (Fin 2)).exec (init fun c => (c.val : Int) + 5)
      [.update 0 .enableReading, .update 1 .enableWriting, .update 0 .disableAll, .remove 0,
        .update 0 .enableReading, .poll [(5, POLLIN)]]).map
      (fun s => ((s.poller.channel 0).index_, s.activeChannels_)) = some (kAdded, [0]) := by
    decide +kernel
  obtain ⟨s, hrun, hfinal⟩ := Machine.exists_run_of_exec hexec
  obtain ⟨hidx, hactive⟩ := Prod.mk.inj hfinal
  exact ⟨s, hrun, ⟨hidx, hactive⟩, (((index_tracks_tables hinj hrun).1 0).2.1.mp hidx).2⟩

/-! ### Interest -/

/-- The descriptors in the kernel's list are those of the registered
channels with interest. -/
def Polled (s : Use ι) : Prop :=
  ∀ c, (s.poller.channel c).fd_ ∈ s.poller.epoll ↔
    s.poller.registered c = true ∧ (s.poller.channel c).events_ ≠ Channel.kNoneEvent

/-- The same of one channel. -/
def PolledView (ch : Channel) : Prop :=
  ch.epoll.isSome = true ↔ ch.registered = true ∧ ch.events_ ≠ Channel.kNoneEvent

/-- What is polled is a matter of each channel by itself. -/
theorem polled_iff {s : Use ι} (hp : Keyed fd s.poller) :
    Polled s ↔ ∀ c, PolledView (s.poller.view c) := by
  refine forall_congr' fun c => ?_
  rw [hp.fd_eq, mem_epoll_iff hp]
  rfl

/-- After an update a channel without interest is out of the list when it
was in it before. -/
theorem polledView_of_updated {ch ch' : Channel} (h : Channel.Updated ch ch') :
    PolledView ch' ↔ (ch.events_ = Channel.kNoneEvent → ch.epoll.isSome = true) := by
  rw [PolledView, h.epoll, h.registered, h.events]
  by_cases hnone : ch.events_ = Channel.kNoneEvent
  · by_cases hin : ch.epoll.isSome = true
    · simp [hnone, hin]
    · simp [hnone, hin]
  · simp [hnone]

/-- A step from a state in which no channel without interest is polled leads
to such a state exactly when it keeps interest. -/
theorem step_polled {s : Use ι} (hp : Sound fd s.poller) (hinj : Function.Injective fd)
    (hpolled : Polled s) {e : Event ι} (hen : enabled s e = true) :
    Returns (step s e) fun s' => Polled s' ↔ KeepsInterest s e := by
  rw [polled_iff hp.keyed] at hpolled
  cases e with
  | update c op =>
      refine Ends.bind (change_sound hp hinj op) ?_
      intro p' hp'
      obtain ⟨hsound, hother, hupdated⟩ := hp'
      refine Ends.ok ?_
      rw [polled_iff hsound.keyed]
      have hin : (s.poller.view c).epoll.isSome = true ↔
          (s.poller.channel c).events_ ≠ Channel.kNoneEvent := by
        refine (hpolled c).trans (and_iff_right_of_imp fun hsome => ?_)
        by_contra hreg
        exact hsome ((hp.tracked c).quiet (Bool.eq_false_iff.mpr hreg))
      have hself : PolledView (p'.view c) ↔ KeepsInterest s (.update c op) := by
        rw [polledView_of_updated hupdated, KeepsInterest]
        show (_ → (s.poller.view c).epoll.isSome = true) ↔ _
        rw [hin]
        exact ⟨fun h hboth => h hboth.2 hboth.1, fun h hnew hold => h ⟨hold, hnew⟩⟩
      rw [← hself]
      refine ⟨fun h => h c, fun h d => ?_⟩
      by_cases hd : d = c
      · rw [hd]
        exact h
      · show PolledView (p'.view d)
        rw [hother d hd]
        exact hpolled d
  | remove c =>
      obtain ⟨hreg, hnone⟩ := Bool.and_eq_true_iff.mp hen
      refine Ends.bind (remove_sound hp hinj hreg hnone) ?_
      intro p' hp'
      obtain ⟨hsound, hother, hview⟩ := hp'
      refine Ends.ok (iff_of_true ?_ trivial)
      rw [polled_iff hsound.keyed]
      intro d
      show PolledView (p'.view d)
      by_cases hd : d = c
      · rw [hd, hview]
        exact iff_of_false Bool.false_ne_true fun h => Bool.false_ne_true h.1
      · rw [hother d hd]
        exact hpolled d
  | poll answer =>
      refine Ends.bind (poll_spec hp.keyed (fun _ _ => hp.registered_of_mem) hen) ?_
      intro r hr
      refine Ends.ok (iff_of_true ?_ trivial)
      rw [polled_iff (hr.1.keyed hp.keyed)]
      intro d
      show PolledView (r.1.view d)
      rw [hr.1.view_eq d]
      exact hpolled d

/-- In every run whose operations do not leave an empty interest set empty,
the kernel's list has the descriptors of the registered channels with
interest and no others. The first operation that leaves an empty interest
set empty ends this: it puts the channel into the list with an empty mask. -/
theorem polled_while_interest_kept (hinj : Function.Injective fd) {es : List (Event ι)} {s : Use ι}
    (hrun : ((machine ι).restrict KeepsInterest).Run (init fd) es s) :
    Polled s ∧ ∀ e, (machine ι).enabled s e →
      Returns ((machine ι).step s e) fun s' => Polled s' ↔ KeepsInterest s e := by
  have hp := sound_of_run hinj hrun.of_restrict
  have hpolled : Polled s := by
    have hboth : Sound fd s.poller ∧ Polled s := by
      refine hrun.invariant (I := fun t => Sound fd t.poller ∧ Polled t) ⟨sound_init, ?_⟩ ?_
      · rw [polled_iff sound_init.keyed]
        intro c
        simp [PolledView, view, init, registered]
      · intro t e u ht hen hstep
        exact ⟨(step_sound ht.1 hinj hen.1).post hstep,
          ((step_polled ht.1 hinj ht.2 hen.1).post hstep).mpr hen.2⟩
    exact hboth.2
  exact ⟨hpolled, fun e hen => step_polled hp hinj hpolled hen⟩

/-- Reading is disabled once. -/
theorem polled_while_interest_kept_once :
    ∃ s, ((machine (Fin 1)).restrict KeepsInterest).Run (init fun _ => 5)
        [.update 0 .enableReading, .update 0 .disableReading] s ∧ Polled s := by
  have hinj : Function.Injective fun _ : Fin 1 => (5 : Int) :=
    fun c d _ => Subsingleton.elim c d
  have hexec : (((machine (Fin 1)).restrict KeepsInterest).exec (init fun _ => 5)
      [.update 0 .enableReading, .update 0 .disableReading]).map
      (fun s => (s.poller.channel 0).index_) = some kDeleted := by
    decide +kernel
  obtain ⟨s, hrun, _⟩ := Machine.exists_run_of_exec hexec
  exact ⟨s, hrun, (polled_while_interest_kept hinj hrun).1⟩

/-- Reading is disabled twice, and the descriptor is back in the list with
an empty mask. -/
theorem polled_without_interest :
    ∃ s, (machine (Fin 1)).Run (init fun _ => 5)
        [.update 0 .enableReading, .update 0 .disableReading, .update 0 .disableReading] s ∧
      ((s.poller.channel 0).events_ = Channel.kNoneEvent ∧
        s.poller.epoll[(5 : Int)]? = some (0#32, 0)) ∧ ¬ Polled s := by
  have hexec : ((machine (Fin 1)).exec (init fun _ => 5)
      [.update 0 .enableReading, .update 0 .disableReading, .update 0 .disableReading]).map
      (fun s => ((s.poller.channel 0).fd_, (s.poller.channel 0).events_,
        s.poller.epoll[(5 : Int)]?)) = some (5, Channel.kNoneEvent, some (0#32, 0)) := by
    decide +kernel
  obtain ⟨s, hrun, hfinal⟩ := Machine.exists_run_of_exec hexec
  obtain ⟨hfd, hrest⟩ := Prod.mk.inj hfinal
  obtain ⟨hevents, hepoll⟩ := Prod.mk.inj hrest
  refine ⟨s, hrun, ⟨hevents, hepoll⟩, fun hpolled => ?_⟩
  have hmem : (s.poller.channel 0).fd_ ∈ s.poller.epoll := by
    rw [Std.ExtTreeMap.mem_iff_isSome_getElem?, hfd, hepoll]
    rfl
  exact ((hpolled 0).mp hmem).2 hevents

end Muduo.Net.Poller.EPollPoller
