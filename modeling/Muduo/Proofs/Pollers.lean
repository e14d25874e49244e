import Muduo.Net.Pollers
import Muduo.Proofs.EPollPoller
import Muduo.Proofs.PollPoller

/-!
# `Muduo.Proofs.Pollers`: where the two pollers agree

In a `PollPoller` a channel has a `slot`: its entry in `pollfds_`, wherever
it is. An operation on a channel changes its own slot and no other one
(`Wrote`), also when `removeChannel` moves the last entry. So both pollers can
be looked at channel by channel. `Agree` says that they have the same
interest sets and the same registered channels.

They do not agree on all calls. A `PollPoller` adds the entry of a new
channel without a look at its interest set, and a later `remove()` asserts
that the entry is negated. And `removeChannel` leaves `index_` as it is, so
a removed channel looks registered when it is enabled again.
`pollers_agree_iff`: these calls, and a position that is no `int`, are the
only ones that the two take differently.
-/

set_option autoImplicit false

namespace Muduo.Net.PollPoller

open Muduo.Lib

variable {ι : Type} [DecidableEq ι] {fd : ι → Int} {p p' : PollPoller ι} {removed order : List ι}
  {c : ι}

/-! ### Slots -/

/-- The entry of a registered channel. -/
def slot (p : PollPoller ι) (c : ι) : Option PollFd :=
  if p.registered c then p.pollfds_[(p.channel c).index_.toNat]? else none

theorem Table.slot_eq (h : Table fd p removed order) {i : Nat} (hi : order[i]? = some c) :
    p.slot c = p.pollfds_[i]? := by
  rw [slot, if_pos (h.registered_iff.mpr (List.mem_of_getElem? hi)), h.index i c hi,
    Int.toNat_natCast]

theorem Table.slot_none (h : Table fd p removed order) (hc : c ∉ order) : p.slot c = none := by
  rw [slot, if_neg fun hreg => hc (h.registered_iff.mp hreg)]

/-- The slot of a registered channel. -/
theorem Table.slot_some (h : Table fd p removed order) (hc : c ∈ order) :
    ∃ pfd, p.slot c = some pfd ∧ IsEntry (p.channel c) pfd := by
  obtain ⟨i, pfd, hi, _, hpfd, hentry⟩ := h.at_of_mem hc
  exact ⟨pfd, (h.slot_eq hi).trans hpfd, hentry⟩

theorem Table.slot_isSome (h : Table fd p removed order) : (p.slot c).isSome = p.registered c := by
  by_cases hc : c ∈ order
  · obtain ⟨pfd, hslot, _⟩ := h.slot_some hc
    rw [hslot, h.registered_iff.mpr hc]
    rfl
  · rw [h.slot_none hc, Bool.eq_false_iff.mpr fun hreg => hc (h.registered_iff.mp hreg)]
    rfl

/-- An operation on `c` has left it with this interest set and this slot,
and the other channels as they were. A position is never given up. -/
structure Wrote (p p' : PollPoller ι) (c : ι) (events : EventMask) (pfd : Option PollFd) :
    Prop where
  slot_self : p'.slot c = pfd
  slot_other : ∀ d, d ≠ c → p'.slot d = p.slot d
  events_self : (p'.channel c).events_ = events
  events_other : ∀ d, d ≠ c → (p'.channel d).events_ = (p.channel d).events_
  index : ∀ d, 0 ≤ (p.channel d).index_ → 0 ≤ (p'.channel d).index_

/-- The slots of the other channels, from their positions. -/
theorem Table.slot_other {removed' order' : List ι} (h : Table fd p removed order)
    (h' : Table fd p' removed' order') {d : ι} (hmem : d ∈ order' ↔ d ∈ order)
    (hat : ∀ i : Nat, order[i]? = some d →
      ∃ j : Nat, order'[j]? = some d ∧ p'.pollfds_[j]? = p.pollfds_[i]?) :
    p'.slot d = p.slot d := by
  by_cases hd : d ∈ order
  · obtain ⟨i, hi⟩ := List.mem_iff_getElem?.mp hd
    obtain ⟨j, hj, hsame⟩ := hat i hi
    rw [h.slot_eq hi, h'.slot_eq hj, hsame]
  · rw [h.slot_none hd, h'.slot_none fun hd' => hd (hmem.mp hd')]

/-- A new channel. -/
theorem Table.wrote_push {ch : PollChannel} {pfd : PollFd} (h : Table fd p removed order)
    (h' : Table fd p' removed (order ++ [c]))
    (hchannel : p'.channel = Function.update p.channel c ch)
    (hpollfds : p'.pollfds_ = p.pollfds_ ++ [pfd]) (hindex : 0 ≤ ch.index_) :
    Wrote p p' c ch.events_ (some pfd) where
  slot_self := by
    have hlast : (order ++ [c])[order.length]? = some c := List.getElem?_concat_length
    rw [h'.slot_eq hlast, hpollfds, ← h.length]
    exact List.getElem?_concat_length
  slot_other d hd := by
    refine h.slot_other h' (by simp [hd]) fun i hi => ?_
    have hlt := (List.getElem?_eq_some_iff.mp hi).1
    have hlt' : i < p.pollfds_.length := by
      rw [h.length]
      exact hlt
    exact ⟨i, by rw [List.getElem?_append_left hlt, hi],
      by rw [hpollfds, List.getElem?_append_left hlt']⟩
  events_self := by rw [hchannel, Function.update_self]
  events_other d hd := by rw [hchannel, Function.update_of_ne hd]
  index d hd := by
    rw [hchannel]
    by_cases hdc : d = c
    · rw [hdc, Function.update_self]
      exact hindex
    · rw [Function.update_of_ne hdc]
      exact hd

/-- A registered channel gets a new entry. -/
theorem Table.wrote_set {ch : PollChannel} {pfd : PollFd} {i : Nat} (h : Table fd p removed order)
    (h' : Table fd p' removed order) (hi : order[i]? = some c)
    (hchannel : p'.channel = Function.update p.channel c ch)
    (hpollfds : p'.pollfds_ = p.pollfds_.set i pfd) (hindex : ch.index_ = (p.channel c).index_) :
    Wrote p p' c ch.events_ (some pfd) where
  slot_self := by
    have hlt : i < p.pollfds_.length := by
      rw [h.length]
      exact (List.getElem?_eq_some_iff.mp hi).1
    rw [h'.slot_eq hi, hpollfds, List.getElem?_set_self hlt]
  slot_other d hd := by
    refine h.slot_other h' Iff.rfl fun j hj => ?_
    have hij : i ≠ j := by
      intro heq
      rw [heq, hj] at hi
      exact hd (Option.some.inj hi)
    exact ⟨j, hj, by rw [hpollfds, List.getElem?_set_ne hij]⟩
  events_self := by rw [hchannel, Function.update_self]
  events_other d hd := by rw [hchannel, Function.update_of_ne hd]
  index d hd := by
    rw [hchannel]
    by_cases hdc : d = c
    · rw [hdc, Function.update_self, hindex]
      exact hdc ▸ hd
    · rw [Function.update_of_ne hdc]
      exact hd

/-- A channel is removed. The last entry may have moved, and its channel
finds it at its new position. -/
theorem Removed.wrote (hr : Removed fd p c order p') (h : Table fd p removed order)
    (hinj : Function.Injective fd) : Wrote p p' c (p.channel c).events_ none := by
  cases hr with
  | pop order' pfds last horder hpfds hlen =>
      subst horder
      have h' := h.pop hinj hpfds hlen
      have hc := h.last_notMem
      refine ⟨h'.slot_none hc, fun d hd => ?_, rfl, fun _ _ => rfl, fun _ hd => hd⟩
      refine h.slot_other h' (by simp [hd]) fun i hi => ?_
      have hlt : i < order'.length := by
        have hlt := (List.getElem?_eq_some_iff.mp hi).1
        rw [List.length_append, List.length_singleton] at hlt
        by_contra hge
        have heq : i = order'.length := by omega
        rw [heq, List.getElem?_concat_length] at hi
        exact hd (Option.some.inj hi).symm
      rw [List.getElem?_append_left hlt] at hi
      exact ⟨i, hi, by rw [hpfds, List.getElem?_append_left (by omega)]⟩
  | swap order' d₀ pfds last i horder hpfds hlen hlast hi =>
      subst horder
      have h' := h.swap hinj hpfds hlen hlast hi
      have hperm := perm_swap d₀ hi
      have hc : c ∉ order'.set i d₀ := (List.nodup_cons.mp (hperm.nodup_iff.mp h.nodup)).1
      have hfields : ∀ d, (Function.update p.channel d₀ { p.channel d₀ with index_ := i } d).events_
          = (p.channel d).events_ := by
        intro d
        by_cases hd : d = d₀
        · rw [hd, Function.update_self]
        · rw [Function.update_of_ne hd]
      refine ⟨h'.slot_none hc, fun d hd => ?_, hfields c, fun d _ => hfields d, fun d hd => ?_⟩
      · refine h.slot_other h' ?_ fun j hj => ?_
        · rw [hperm.mem_iff, List.mem_cons]
          exact (or_iff_right hd).symm
        · by_cases hend : j = order'.length
          · -- The channel of the last entry, which is now at position `i`.
            have hlt : i < order'.length := (List.getElem?_eq_some_iff.mp hi).1
            rw [hend, List.getElem?_concat_length] at hj
            refine ⟨i, by rw [List.getElem?_set_self hlt, hj], ?_⟩
            rw [List.getElem?_set_self (by omega), hpfds, hend, ← hlen, List.getElem?_concat_length]
          · have hlt : j < order'.length := by
              have hlt := (List.getElem?_eq_some_iff.mp hj).1
              rw [List.length_append, List.length_singleton] at hlt
              omega
            rw [List.getElem?_append_left hlt] at hj
            have hij : i ≠ j := by
              intro heq
              rw [← heq, hi] at hj
              exact hd (Option.some.inj hj).symm
            refine ⟨j, by rw [List.getElem?_set_ne hij, hj], ?_⟩
            rw [List.getElem?_set_ne hij, hpfds, List.getElem?_append_left (by omega)]
      · dsimp only
        by_cases hdd : d = d₀
        · rw [hdd, Function.update_self]
          exact Int.natCast_nonneg i
        · rw [Function.update_of_ne hdd]
          exact hd

end Muduo.Net.PollPoller

namespace Muduo.Net.Pollers

open Muduo.Lib
open Muduo.Net.PollPoller (Interest PollFd ofShort toShort Table IsInterest)
open Muduo.Net.Poller.EPollPoller (Sound Tracked)

variable {ι : Type} [DecidableEq ι] {fd : ι → Int} {s : Both ι} {c : ι}

/-! ### Agreement -/

/-- The pollers have the same interest sets and the same registered
channels. An entry of a channel with interest is not negated. A removed
channel has its old position and no entry. -/
structure Agree (fd : ι → Int) (s : Both ι) : Prop where
  table : ∃ order, Table fd s.poll.poller s.poll.removed order
  sound : Sound fd s.epoll.poller
  events : ∀ c, (s.poll.poller.channel c).events_ = (s.epoll.poller.view c).events_
  registered : ∀ c, (s.poll.poller.slot c).isSome = (s.epoll.poller.view c).registered
  plain : ∀ c pfd, s.poll.poller.slot c = some pfd →
    (s.epoll.poller.view c).events_ ≠ Channel.kNoneEvent → pfd.fd = fd c
  gone : ∀ c ∈ s.poll.removed,
    0 ≤ (s.poll.poller.channel c).index_ ∧ s.poll.poller.slot c = none

theorem agree_init : Agree fd (init fd) where
  table := ⟨[], PollPoller.table_init⟩
  sound := Poller.EPollPoller.sound_init
  events _ := rfl
  registered c := by
    simp [init, PollPoller.init, PollPoller.slot, PollPoller.registered, Poller.EPollPoller.view,
      Poller.EPollPoller.registered, Poller.EPollPoller.init]
  plain c pfd _ hsome := absurd rfl hsome
  gone c hc := by cases hc

/-- Both monitor the registered channels with interest. -/
theorem Agree.sameMonitored (h : Agree fd s) (hinj : Function.Injective fd) (hfd : ∀ c, 0 ≤ fd c) :
    SameMonitored s := by
  obtain ⟨order, htable⟩ := h.table
  intro k events hevents
  constructor
  · intro hpoll
    obtain ⟨pfd, hmem, hpos, hk, hmask⟩ := hpoll
    obtain ⟨i, hi⟩ := List.mem_iff_getElem?.mp hmem
    have hlt : i < order.length := by
      rw [← htable.length]
      exact (List.getElem?_eq_some_iff.mp hi).1
    have hc : order[i]? = some order[i] := List.getElem?_eq_getElem hlt
    obtain ⟨pfd', hpfd', hentry⟩ := htable.entry i order[i] hc
    rw [hi] at hpfd'
    cases hpfd'
    have hkey : fd order[i] = k := by
      have hfds := hentry.1
      rw [htable.fd_eq] at hfds
      have hnonneg := hfd order[i]
      omega
    have hview : (s.epoll.poller.view order[i]).events_ = events := by
      rw [← h.events, ← hentry.2, hmask]
    have htracked := h.sound.tracked order[i]
    obtain ⟨mask, hin⟩ := Option.isSome_iff_exists.mp (htracked.listed (hview ▸ hevents))
    have hlist := Poller.EPollPoller.view_epoll_some h.sound.keyed (h.sound.keyed.own hinj _) hin
    rw [htracked.mask mask hin, hview, hkey] at hlist
    exact ⟨_, hlist⟩
  · intro hepoll
    obtain ⟨c, hc⟩ := hepoll
    have hkey : fd c = k := h.sound.keyed.epoll k _ hc
    have hview : (s.epoll.poller.view c).epoll = some events := by
      rw [Poller.EPollPoller.view, h.sound.keyed.fd_eq, hkey, hc]
      rfl
    have hreg : (s.epoll.poller.view c).registered = true := h.sound.registered_of_mem hc
    have hmask := (h.sound.tracked c).mask events hview
    rw [← h.registered] at hreg
    obtain ⟨pfd, hslot⟩ := Option.isSome_iff_exists.mp hreg
    have hplain := h.plain c pfd hslot (hmask ▸ hevents)
    have hcmem : c ∈ order := by
      rw [← htable.registered_iff, ← htable.slot_isSome, hslot]
      rfl
    obtain ⟨i, pfd', hi, _, hpfd', hentry⟩ := htable.at_of_mem hcmem
    rw [htable.slot_eq hi, hpfd'] at hslot
    cases hslot
    refine ⟨pfd, List.mem_of_getElem? hpfd', ?_, hplain.trans hkey, ?_⟩
    · rw [hplain]
      exact hfd c
    · rw [hentry.2, h.events, ← hmask]

/-- Both pollers have done their work on `c`. -/
theorem Agree.write (h : Agree fd s) {poll : PollPoller.Use ι} {epoll : Poller.EPollPoller.Use ι}
    {events : EventMask} {pfd : Option PollFd}
    (htable : ∃ order, Table fd poll.poller poll.removed order) (hsound : Sound fd epoll.poller)
    (hwrote : PollPoller.Wrote s.poll.poller poll.poller c events pfd)
    (hother : ∀ d, d ≠ c → epoll.poller.view d = s.epoll.poller.view d)
    (hevents : (epoll.poller.view c).events_ = events)
    (hreg : (epoll.poller.view c).registered = pfd.isSome)
    (hplain : ∀ x, pfd = some x → events ≠ Channel.kNoneEvent → x.fd = fd c)
    (hgone : ∀ d ∈ poll.removed, (d ≠ c ∧ d ∈ s.poll.removed) ∨
      (d = c ∧ pfd = none ∧ 0 ≤ (s.poll.poller.channel c).index_)) :
    Agree fd ⟨poll, epoll⟩ where
  table := htable
  sound := hsound
  events d := by
    by_cases hd : d = c
    · rw [hd, hevents, hwrote.events_self]
    · rw [hwrote.events_other d hd, hother d hd]
      exact h.events d
  registered d := by
    by_cases hd : d = c
    · rw [hd, hreg, hwrote.slot_self]
    · rw [hwrote.slot_other d hd, hother d hd]
      exact h.registered d
  plain d x hx hsome := by
    by_cases hd : d = c
    · rw [hd] at hx hsome ⊢
      rw [hwrote.slot_self] at hx
      exact hplain x hx (hevents ▸ hsome)
    · rw [hwrote.slot_other d hd] at hx
      rw [hother d hd] at hsome
      exact h.plain d x hx hsome
  gone d hd := by
    cases hgone d hd with
    | inl hold =>
        obtain ⟨hindex, hslot⟩ := h.gone d hold.2
        exact ⟨hwrote.index d hindex, (hwrote.slot_other d hold.1).trans hslot⟩
    | inr hnew =>
        obtain ⟨rfl, hnone, hindex⟩ := hnew
        exact ⟨hwrote.index d hindex, hwrote.slot_self.trans hnone⟩

/-- `updateChannel` of a `PollPoller`, on a channel that was not removed. -/
theorem poll_update_spec {order : List ι} {p : PollPoller.Use ι}
    (h : Table fd p.poller p.removed order) (hinj : Function.Injective fd) (op : Interest)
    (hc : c ∉ p.removed)
    (hroom : (p.poller.channel c).index_ < 0 → p.poller.pollfds_.length + 1 < 2 ^ 31) :
    Returns (PollPoller.step p (.update c op)) fun p' => p'.removed = p.removed ∧
      (∃ order', Table fd p'.poller p'.removed order') ∧
      ∃ pfd, PollPoller.Wrote p.poller p'.poller c (op.apply (p.poller.channel c).events_)
        (some pfd) ∧
        (op.apply (p.poller.channel c).events_ ≠ Channel.kNoneEvent → pfd.fd = fd c) := by
  have hevents := PollPoller.isInterest_apply (h.interest c) op
  have hfd := h.fd_eq c
  let ch : PollPoller.PollChannel :=
    { p.poller.channel c with events_ := op.apply (p.poller.channel c).events_ }
  rw [PollPoller.step]
  by_cases hmem : c ∈ order
  · obtain ⟨i, hi, hupdate⟩ := PollPoller.updateChannel_known_eq h ch hmem hfd rfl
    have htable := (PollPoller.updateChannel_known h ch hmem hfd rfl hevents).post hupdate
    rw [hupdate, ok_bind]
    refine Ends.ok ⟨rfl, ⟨order, htable⟩, _, h.wrote_set htable hi rfl rfl rfl, fun hsome => ?_⟩
    have hnone : ¬ ch.isNoneEvent = true := fun hnone => hsome (beq_iff_eq.mp hnone)
    exact if_neg hnone
  · have hnew : (p.poller.channel c).index_ < 0 := by
      by_contra hge
      cases h.gone c (by omega) with
      | inl hold => exact hmem hold
      | inr hold => exact hc hold
    have hlast : PollPoller.lastIndex (order.length + 1) = .ok order.length := by
      have hlt := hroom hnew
      rw [h.length] at hlt
      cases PollPoller.lastIndex_cases h.short with
      | inl hok => exact hok.2
      | inr hfull => omega
    have hupdate := PollPoller.updateChannel_new_eq h ch hinj hmem hfd hnew hlast
    have htable := (PollPoller.updateChannel_new h ch hinj hmem hfd hnew hevents).post hupdate
    rw [hupdate, ok_bind]
    refine Ends.ok ⟨rfl, ⟨order ++ [c], htable⟩, _,
      h.wrote_push htable rfl rfl (Int.natCast_nonneg _), fun _ => rfl⟩

/-- `updateChannel` of a `PollPoller` stops for a removed channel, and for a
new one when the array is full. -/
theorem poll_update_faults (h : Agree fd s) (hinj : Function.Injective fd) (op : Interest)
    (hnot : ¬ Portable s (.update c op)) :
    ∃ f, PollPoller.step s.poll (.update c op) = .error f := by
  obtain ⟨order, htable⟩ := h.table
  have hfd := htable.fd_eq c
  let ch : PollPoller.PollChannel :=
    { s.poll.poller.channel c with events_ := op.apply (s.poll.poller.channel c).events_ }
  rw [PollPoller.step]
  by_cases hc : c ∈ s.poll.removed
  · obtain ⟨hindex, hslot⟩ := h.gone c hc
    have hmem : c ∉ order := by
      intro hmem
      obtain ⟨pfd, hsome, _⟩ := htable.slot_some hmem
      rw [hslot] at hsome
      cases hsome
    have hlookup : s.poll.poller.channels_[(s.poll.poller.channel c).fd_]? = none := by
      rw [hfd]
      exact htable.lookup_of_notMem hinj hmem
    have hunknown : (s.poll.poller.setChannel c ch).updateChannel c = .error .updateUnknown := by
      have hself : (s.poll.poller.setChannel c ch).channel c = ch := Function.update_self _ _ _
      have hold : ¬ ch.index_ < 0 := by
        show ¬ (s.poll.poller.channel c).index_ < 0
        omega
      have hassert : (s.poll.poller.setChannel c ch).assertKnown c .updateUnknown .updateOther
          = .error .updateUnknown := by
        rw [PollPoller.assertKnown, hself, assertThat_neg (fun hne => hne hlookup), error_bind]
      simp only [PollPoller.updateChannel, hself, if_neg hold, hassert, error_bind]
    exact ⟨_, by rw [hunknown, error_bind]⟩
  · have hfull : (s.poll.poller.channel c).index_ < 0 ∧
        ¬ s.poll.poller.pollfds_.length + 1 < 2 ^ 31 := by
      by_contra hboth
      exact hnot ⟨hc, fun hneg => by_contra fun hlt => hboth ⟨hneg, hlt⟩⟩
    have hlast : PollPoller.lastIndex (order.length + 1) = .error .overflow := by
      rw [htable.length] at hfull
      cases PollPoller.lastIndex_cases htable.short with
      | inl hok => exact absurd hok.1 hfull.2
      | inr hfull => exact hfull.2
    have herror := PollPoller.updateChannel_new_full htable ch hinj
      (htable.notMem_of_new hfull.1) hfd hfull.1 hlast
    exact ⟨_, by rw [herror, error_bind]⟩

/-- An update that a `PollPoller` takes, too. -/
theorem update_agrees (h : Agree fd s) (hinj : Function.Injective fd) (op : Interest)
    (hport : Portable s (.update c op)) :
    Returns (step s (.update c op)) (Agree fd) := by
  obtain ⟨order, htable⟩ := h.table
  obtain ⟨poll, hpoll, hremoved, htable', pfd, hwrote, hplain⟩ :=
    (poll_update_spec htable hinj op hport.1 hport.2).exists_ok
  obtain ⟨epoll, hepoll, hsound, hother, hupdated⟩ :=
    (Poller.EPollPoller.change_sound (c := c) h.sound hinj op).exists_ok
  rw [step, hpoll, mapError_ok, ok_bind, Poller.EPollPoller.step, hepoll, ok_bind, except_pure,
    mapError_ok, ok_bind]
  refine Ends.ok (h.write htable' hsound hwrote hother ?_ hupdated.registered ?_ ?_)
  · have hsame : (s.epoll.poller.channel c).events_ = (s.poll.poller.channel c).events_ :=
      (h.events c).symm
    rw [← hsame]
    exact hupdated.events
  · intro x hx hsome
    cases hx
    exact hplain hsome
  · intro d hd
    rw [hremoved] at hd
    exact .inl ⟨fun heq => hport.1 (heq ▸ hd), hd⟩

/-- A removal: it agrees exactly when the entry of the channel is negated. -/
theorem remove_agrees (h : Agree fd s) (hinj : Function.Injective fd) (hfd : ∀ c, 0 ≤ fd c)
    (hen : enabled s (.remove c) = true) :
    (Portable s (.remove c) → Returns (step s (.remove c)) (Agree fd)) ∧
      (¬ Portable s (.remove c) → ∃ f, step s (.remove c) = .error f) := by
  obtain ⟨order, htable⟩ := h.table
  simp only [enabled, Bool.and_eq_true] at hen
  obtain ⟨⟨hreg, hnone⟩, hereg, henone⟩ := hen
  have hmem := htable.registered_iff.mp hreg
  obtain ⟨i, pfd, hi, hentry, hpfd, his⟩ := htable.entryOf_eq hmem .removeIndex
  have hindex := htable.index i c hi
  have hslot : ∀ x ∈ s.poll.poller.pollfds_[(s.poll.poller.channel c).index_.toNat]?, x = pfd := by
    intro x hx
    rw [hindex, Int.toNat_natCast, hpfd] at hx
    exact (Option.some.inj hx).symm
  have hfds := his.1
  rw [htable.fd_eq] at hfds
  constructor
  · intro hport
    have hneg : pfd.fd = -fd c - 1 := by
      have hne := hport pfd (by rw [hindex, Int.toNat_natCast]; exact hpfd)
      rw [htable.fd_eq] at hne
      exact hfds.resolve_left hne
    obtain ⟨p', hremove, hr⟩ :=
      PollPoller.removeChannel_negated htable hinj hfd hnone hi hentry his.2 hneg
    obtain ⟨epoll, hepoll, hsound, hother, hview⟩ :=
      (Poller.EPollPoller.remove_sound h.sound hinj hereg henone).exists_ok
    rw [step, PollPoller.step, hremove, ok_bind, except_pure, mapError_ok, ok_bind,
      Poller.EPollPoller.step, hepoll, ok_bind, except_pure, mapError_ok, ok_bind]
    refine Ends.ok (h.write (hr.table htable hinj) hsound (hr.wrote htable hinj) hother ?_ ?_ ?_ ?_)
    · show (epoll.view c).events_ = _
      rw [hview]
      exact (beq_iff_eq.mp hnone).symm
    · show (epoll.view c).registered = _
      rw [hview]
      rfl
    · intro x hx
      cases hx
    · intro d hd
      by_cases hdc : d = c
      · exact .inr ⟨hdc, rfl, by omega⟩
      · exact .inl ⟨hdc, (List.mem_cons.mp hd).resolve_left hdc⟩
  · intro hnot
    have hplain : pfd.fd ≠ -fd c - 1 := by
      intro hneg
      refine hnot fun x hx => ?_
      rw [hslot x hx, hneg, htable.fd_eq]
      omega
    have herror := PollPoller.removeChannel_plain htable hnone hi hentry hplain
    rw [step, PollPoller.step, herror, error_bind, mapError_error, error_bind]
    exact ⟨_, rfl⟩

/-- A call keeps the two pollers in agreement exactly when it is portable. -/
theorem step_agrees (h : Agree fd s) (hinj : Function.Injective fd) (hfd : ∀ c, 0 ≤ fd c)
    {e : Call ι} (hen : enabled s e = true) :
    (Portable s e → Returns (step s e) (Agree fd)) ∧
      (¬ Portable s e → ∃ f, step s e = .error f) := by
  cases e with
  | update c op =>
      refine ⟨update_agrees h hinj op, fun hnot => ?_⟩
      obtain ⟨f, hf⟩ := poll_update_faults h hinj op hnot
      rw [step, hf, mapError_error, error_bind]
      exact ⟨_, rfl⟩
  | remove c => exact remove_agrees h hinj hfd hen

/-- In every run of portable calls the two pollers monitor the same
descriptors for the same events. The next call, if it is portable, is taken
by both without a failed `assert`, and they agree again. If it is not
portable, one of them stops at an `assert` or at an overflow. -/
theorem pollers_agree_iff (hinj : Function.Injective fd) (hfd : ∀ c, 0 ≤ fd c)
    {es : List (Call ι)} (hrun : ((machine ι).restrict Portable).Run (init fd) es s) :
    SameMonitored s ∧ ∀ e, (machine ι).enabled s e →
      ((∃ s', (machine ι).step s e = .ok s' ∧ SameMonitored s') ↔ Portable s e) := by
  have h : Agree fd s := by
    refine hrun.invariant (I := Agree fd) agree_init fun t e u ht hen hstep => ?_
    exact ((step_agrees ht hinj hfd hen.1).1 hen.2).post hstep
  refine ⟨h.sameMonitored hinj hfd, fun e hen => ?_⟩
  obtain ⟨hport, hnot⟩ := step_agrees h hinj hfd hen
  constructor
  · intro hok
    obtain ⟨s', hstep, _⟩ := hok
    by_contra hbad
    obtain ⟨f, hf⟩ := hnot hbad
    have hboth : (Except.error f : Except Fault (Both ι)) = .ok s' := hf.symm.trans hstep
    cases hboth
  · intro hp
    obtain ⟨s', hstep, hagree⟩ := (hport hp).exists_ok
    exact ⟨s', hstep, hagree.sameMonitored hinj hfd⟩

/-- A channel is enabled, disabled and removed, and then another one is
enabled. -/
theorem pollers_agree_iff_removed :
    ∃ s, ((machine (Fin 2)).restrict Portable).Run (init fun c => (c.val : Int) + 5)
        [.update 0 .enableReading, .update 0 .disableAll, .remove 0] s ∧
      ∃ s', (machine (Fin 2)).step s (.update 1 .enableReading) = .ok s' ∧ SameMonitored s' := by
  have hinj : Function.Injective fun c : Fin 2 => (c.val : Int) + 5 := by
    intro c d heq
    have hval : (c.val : Int) + 5 = (d.val : Int) + 5 := heq
    exact Fin.ext (by omega)
  have hexec : (((machine (Fin 2)).restrict Portable).exec (init fun c => (c.val : Int) + 5)
      [.update 0 .enableReading, .update 0 .disableAll, .remove 0]).map
      (fun s => decide (Portable s (.update 1 .enableReading))) = some true := by
    decide +kernel
  obtain ⟨s, hrun, hport⟩ := Machine.exists_run_of_exec hexec
  have hagree := pollers_agree_iff hinj (fun c => by omega) hrun
  exact ⟨s, hrun, (hagree.2 (.update 1 .enableReading) rfl).mpr (of_decide_eq_true hport)⟩

/-- The first update of a channel leaves it without interest, and then it is
removed: the entry is not negated. And a channel is enabled again after its
removal: it is not in `channels_`, but has a position. In both cases the
`PollPoller` stops and the `EPollPoller` goes on. -/
theorem poll_stops_alone :
    (∃ s, (machine (Fin 1)).Run (init fun _ => 5) [.update 0 .disableAll] s ∧
      (machine (Fin 1)).enabled s (.remove 0) ∧
      PollPoller.step s.poll (.remove 0) = .error .removeIgnored ∧
      faultOf (Poller.EPollPoller.step s.epoll (.remove 0)) = none) ∧
    ∃ s, (machine (Fin 1)).Run (init fun _ => 5)
        [.update 0 .enableReading, .update 0 .disableAll, .remove 0] s ∧
      PollPoller.step s.poll (.update 0 .enableReading) = .error .updateUnknown ∧
      faultOf (Poller.EPollPoller.step s.epoll (.update 0 .enableReading)) = none := by
  constructor
  · have hexec : ((machine (Fin 1)).exec (init fun _ => 5) [.update 0 .disableAll]).map
        (fun s => (enabled s (.remove 0), faultOf (PollPoller.step s.poll (.remove 0)),
          faultOf (Poller.EPollPoller.step s.epoll (.remove 0))))
        = some (true, some .removeIgnored, none) := by
      decide +kernel
    obtain ⟨s, hrun, hfinal⟩ := Machine.exists_run_of_exec hexec
    obtain ⟨hen, hfaults⟩ := Prod.mk.inj hfinal
    obtain ⟨hpoll, hepoll⟩ := Prod.mk.inj hfaults
    exact ⟨s, hrun, hen, eq_error_of_faultOf hpoll, hepoll⟩
  · have hexec : ((machine (Fin 1)).exec (init fun _ => 5)
        [.update 0 .enableReading, .update 0 .disableAll, .remove 0]).map
        (fun s => (faultOf (PollPoller.step s.poll (.update 0 .enableReading)),
          faultOf (Poller.EPollPoller.step s.epoll (.update 0 .enableReading))))
        = some (some .updateUnknown, none) := by
      decide +kernel
    obtain ⟨s, hrun, hfinal⟩ := Machine.exists_run_of_exec hexec
    obtain ⟨hpoll, hepoll⟩ := Prod.mk.inj hfinal
    exact ⟨s, hrun, eq_error_of_faultOf hpoll, hepoll⟩

end Muduo.Net.Pollers
