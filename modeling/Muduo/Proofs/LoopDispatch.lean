import Muduo.Net.LoopDispatch
import Muduo.Proofs.EPollPoller

/-!
# `Muduo.Proofs.LoopDispatch`: every event goes to its channel, once

Between the `poll` of a round and the end of its `for` loop the channels
that are still to be handled stay registered: the `assert` of
`EventLoop::removeChannel` stops a callback that removes one of them. A
registered channel exists, since its destructor would have stopped. And
nothing but `poll` writes `revents_`. So the loop finds each channel as
`poll` has left it.

Several channels may have one descriptor. The poller then knows at most one
of them, and its `assert`s stop the calls that would mix them up.
`Consistent` is what is left of the invariant of `Muduo.Proofs.EPollPoller`
in this case.

`Inv` says this of every state, with the channels from `next` on still to
be handled. `events_delivered_once` is the result.
-/

set_option autoImplicit false

namespace Muduo.Net

open Muduo.Lib
open Poller (EPollChannel)

/-! ### `revents_` -/

namespace Poller.EPollPoller

open PollPoller (Interest)
open Muduo.Net.EPollPoller (CtlOp kNew)

variable {ι : Type} {p p' : EPollPoller ι} {c : ι}

theorem channel_of_update {op : CtlOp} (h : p.update op c = .ok p') : p'.channel = p.channel := by
  simp only [update] at h
  split at h
  · cases h
    rfl
  · split at h
    · cases h
      rfl
    · cases h

/-- The channels have the same `revents_`. -/
def SameRevents (p p' : EPollPoller ι) : Prop :=
  ∀ d, (p'.channel d).revents_ = (p.channel d).revents_

theorem SameRevents.trans {q : EPollPoller ι} (h : SameRevents p p') (h' : SameRevents p' q) :
    SameRevents p q := fun d => (h' d).trans (h d)

theorem SameRevents.of_channel (h : p'.channel = p.channel) : SameRevents p p' :=
  fun _ => by rw [h]

variable [DecidableEq ι]

theorem SameRevents.setChannel {x : EPollChannel} (h : x.revents_ = (p.channel c).revents_) :
    SameRevents p (p.setChannel c x) := by
  intro d
  by_cases hd : d = c
  · simp only [EPollPoller.setChannel, hd, Function.update_self, h]
  · simp only [EPollPoller.setChannel, Function.update_of_ne hd]

/-- The end of `updateChannel` for a channel that is not in the kernel's
list. -/
theorem SameRevents.add {q : EPollPoller ι} (hq : q.channel = p.channel)
    (h : (q.setChannel c { p.channel c with index_ := EPollPoller.kAdded }).update .add c = .ok p') :
    SameRevents p p' := by
  have hset : SameRevents q (q.setChannel c { p.channel c with index_ := EPollPoller.kAdded }) :=
    SameRevents.setChannel (by rw [hq])
  exact (SameRevents.of_channel hq).trans (hset.trans (SameRevents.of_channel (channel_of_update h)))

theorem updateChannel_revents (h : p.updateChannel c = .ok p') : SameRevents p p' := by
  rw [updateChannel] at h
  split at h
  · simp only at h
    split at h
    · obtain ⟨_, -, h⟩ := except_bind_eq_ok.mp h
      exact SameRevents.add
        (q := { p with channels_ := p.channels_.insert (p.channel c).fd_ c }) rfl h
    · obtain ⟨_, -, h⟩ := except_bind_eq_ok.mp h
      exact SameRevents.add (q := p) rfl h
  · obtain ⟨_, -, h⟩ := except_bind_eq_ok.mp h
    obtain ⟨_, -, h⟩ := except_bind_eq_ok.mp h
    split at h
    · obtain ⟨q, hq, h⟩ := except_bind_eq_ok.mp h
      cases h
      exact (SameRevents.of_channel (channel_of_update hq)).trans (SameRevents.setChannel rfl)
    · exact SameRevents.of_channel (channel_of_update h)

theorem change_revents {op : Interest} (h : p.change c op = .ok p') : SameRevents p p' := by
  rw [change] at h
  refine SameRevents.trans ?_ (updateChannel_revents h)
  exact SameRevents.setChannel rfl

theorem removeChannel_revents (h : p.removeChannel c = .ok p') : SameRevents p p' := by
  rw [removeChannel] at h
  obtain ⟨_, -, h⟩ := except_bind_eq_ok.mp h
  obtain ⟨_, -, h⟩ := except_bind_eq_ok.mp h
  obtain ⟨_, -, h⟩ := except_bind_eq_ok.mp h
  obtain ⟨_, -, h⟩ := except_bind_eq_ok.mp h
  simp only at h
  split at h
  · obtain ⟨q, hq, h⟩ := except_bind_eq_ok.mp h
    cases h
    have hupdate := channel_of_update hq
    have hsame : q.channel = p.channel := hupdate
    exact (SameRevents.of_channel hsame).trans (SameRevents.setChannel rfl)
  · cases h
    exact SameRevents.setChannel rfl

theorem remove_revents (h : p.remove c = .ok p') : SameRevents p p' := by
  rw [remove] at h
  obtain ⟨_, -, h⟩ := except_bind_eq_ok.mp h
  refine SameRevents.trans ?_ (removeChannel_revents h)
  exact SameRevents.setChannel rfl

/-- The loop writes the reported events to the channels of its list. -/
theorem fillLoop_revents (events : List (EventMask × ι)) (p : EPollPoller ι) (active : List ι)
    (hnodup : (events.map Prod.snd).Nodup) {r : EPollPoller ι × List ι}
    (h : fillLoop events p active = .ok r) :
    r.2 = active ++ events.map Prod.snd ∧ (∀ x ∈ events, (r.1.channel x.2).revents_ = x.1) ∧
      ∀ d, d ∉ events.map Prod.snd → r.1.channel d = p.channel d := by
  induction events generalizing p active with
  | nil =>
      cases h
      refine ⟨(List.append_nil _).symm, ?_, fun _ _ => rfl⟩
      intro x hx
      cases hx
  | cons x events ih =>
      rw [fillLoop] at h
      obtain ⟨_, -, h⟩ := except_bind_eq_ok.mp h
      rw [List.map_cons, List.nodup_cons] at hnodup
      obtain ⟨hactive, hrevents, hother⟩ := ih _ _ hnodup.2 h
      refine ⟨by rw [hactive, List.append_assoc]; rfl, ?_, ?_⟩
      · intro y hy
        cases List.mem_cons.mp hy with
        | inl heq =>
            rw [heq, hother x.2 hnodup.1]
            simp only [EPollPoller.setChannel, Function.update_self]
        | inr hmem => exact hrevents y hmem
      · intro d hd
        rw [List.map_cons, List.mem_cons, not_or] at hd
        rw [hother d hd.2]
        simp only [EPollPoller.setChannel, Function.update_of_ne hd.1]

/-- `poll` lists the channels of the reported descriptors, with the
reported events in their `revents_`. -/
theorem poll_revents {fd : ι → Int} (hp : Keyed fd p) {answer : List (Int × EventMask)}
    (hanswer : p.kernelAnswers answer = true) {r : EPollPoller ι × List ι}
    (h : p.poll answer = .ok r) :
    r.2.map (fun c => (fd c, (r.1.channel c).revents_)) = answer := by
  obtain ⟨hwritten, -, hnodup⟩ := written_of_answers hp hanswer
  -- Whichever branch: the list of channels, and what the loop has written to them.
  have hread : r.2 = (p.written answer).map Prod.snd ∧
      ∀ x ∈ p.written answer, (r.1.channel x.2).revents_ = x.1 := by
    rw [poll] at h
    split at h
    · obtain ⟨q, hfill, h⟩ := except_bind_eq_ok.mp h
      rw [fillActiveChannels] at hfill
      obtain ⟨_, -, hfill⟩ := except_bind_eq_ok.mp hfill
      obtain ⟨hactive, hrevents, -⟩ := fillLoop_revents _ _ _ hnodup hfill
      rw [List.nil_append] at hactive
      obtain ⟨q, active⟩ := q
      simp only at h
      split at h
      · cases h
        exact ⟨hactive, hrevents⟩
      · cases h
        exact ⟨hactive, hrevents⟩
    · rename_i hzero
      cases h
      have hnil : p.written answer = [] := List.length_eq_zero_iff.mp (by omega)
      rw [hnil]
      exact ⟨rfl, fun x hx => by cases hx⟩
  conv_rhs => rw [← hwritten]
  rw [hread.1, List.map_map]
  refine List.map_congr_left ?_
  intro x hx
  rw [Function.comp_apply, hread.2 x hx]

/-! ### Channels that share a descriptor -/

variable {fd : ι → Int}

/-- What holds of the poller when several channels may have one descriptor:
a registered channel is where its index says, any other one is new, and the
kernel's list leads to registered channels only. -/
structure Consistent (fd : ι → Int) (p : EPollPoller ι) : Prop where
  keyed : Keyed fd p
  entry : ∀ c, p.registered c = true → Channel.Entry (p.view c)
  new : ∀ c, p.registered c = false → (p.channel c).index_ = kNew
  listed : ∀ (k : Int) (entry : EventMask × ι), p.epoll[k]? = some entry →
    p.registered entry.2 = true

/-- The descriptor of `c` leads to no other channel. -/
def Free (fd : ι → Int) (p : EPollPoller ι) (c : ι) : Prop :=
  p.channels_[fd c]? = none ∨ p.channels_[fd c]? = some c

theorem Free.own (hc : Free fd p c) (hp : Consistent fd p) : Own fd p c where
  channels d hd := by
    cases hc with
    | inl hnone => cases hnone.symm.trans hd
    | inr hsome => exact (Option.some.inj (hsome.symm.trans hd)).symm
  epoll entry hentry := by
    have hreg := (registered_iff hp.keyed).mp (hp.listed _ entry hentry)
    rw [hp.keyed.epoll _ entry hentry] at hreg
    cases hc with
    | inl hnone => cases hnone.symm.trans hreg
    | inr hsome => exact (Option.some.inj (hsome.symm.trans hreg)).symm

/-- The entry of a channel that is registered or could be. -/
theorem Free.entry (hc : Free fd p c) (hp : Consistent fd p) : Channel.Entry (p.view c) := by
  cases hreg : p.registered c with
  | true => exact hp.entry c hreg
  | false =>
      refine .new (hp.new c hreg) hreg ?_
      rw [view, Option.map_eq_none_iff, hp.keyed.fd_eq]
      cases hentry : p.epoll[fd c]? with
      | none => rfl
      | some entry =>
          -- An entry of the kernel's list leads to `c`, which would be registered.
          have hlisted := hp.listed _ entry hentry
          rw [(hc.own hp).epoll entry hentry, hreg] at hlisted
          cases hlisted

/-- The other channels stay registered, or unregistered. -/
theorem Free.registered_other {ch : Channel} (hc : Free fd p c) (hp : Consistent fd p)
    (h : Wrote fd p p' c ch) {d : ι} (hd : d ≠ c) : p'.registered d = p.registered d := by
  have hchannels := h.channels (fd d)
  rw [registered, registered, h.other d hd, hp.keyed.fd_eq, hchannels]
  split
  · -- `d` has the descriptor of `c`, which leads to `c` or nowhere.
    rename_i hfd
    have hbefore : (p.channels_[fd d]? == some d) = false := by
      rw [← hfd]
      cases hc with
      | inl hnone => rw [hnone]; rfl
      | inr hsome => simp [hsome, hd.symm]
    rw [hbefore]
    split
    · simp [hd.symm]
    · rfl
  · rfl

/-- A write to a channel keeps the invariant when it leaves its own entry
right. -/
theorem Free.consistent {ch : Channel} (hc : Free fd p c) (hp : Consistent fd p)
    (h : Wrote fd p p' c ch) (hch : Channel.Entry ch) : Consistent fd p' := by
  have hself : p'.registered c = ch.registered := congrArg Channel.registered h.view_self
  refine ⟨h.keyed hp.keyed, ?_, ?_, ?_⟩
  · intro d hreg
    by_cases hd : d = c
    · rw [hd, h.view_self]
      exact hch
    · rw [hc.registered_other hp h hd] at hreg
      have hne : fd c ≠ fd d := by
        intro hfd
        have hlookup := (registered_iff hp.keyed).mp hreg
        rw [← hfd] at hlookup
        exact hd ((hc.own hp).channels d hlookup)
      rw [h.view_other hp.keyed hne]
      exact hp.entry d hreg
  · intro d hreg
    by_cases hd : d = c
    · rw [hd, hself] at hreg
      rw [hd, h.index]
      cases hch with
      | new hindex _ _ => exact hindex
      | added _ _ htrue _ => cases htrue.symm.trans hreg
      | deleted _ htrue _ => cases htrue.symm.trans hreg
    · rw [h.other d hd]
      exact hp.new d (hc.registered_other hp h hd ▸ hreg)
  · intro k entry hentry
    rw [h.epoll] at hentry
    split at hentry
    · obtain ⟨mask, hmask, rfl⟩ := Option.map_eq_some_iff.mp hentry
      show p'.registered c = true
      rw [hself]
      cases hch with
      | new _ _ hepoll => cases hepoll.symm.trans hmask
      | added _ _ htrue _ => exact htrue
      | deleted _ htrue _ => exact htrue
    · rename_i hk
      have hne : entry.2 ≠ c := fun heq => hk (heq ▸ hp.keyed.epoll k entry hentry)
      rw [hc.registered_other hp h hne]
      exact hp.listed k entry hentry

/-- A new channel whose descriptor is in `channels_` is not added. -/
theorem updateChannel_taken (hindex : (p.channel c).index_ = kNew)
    (htaken : p.channels_[(p.channel c).fd_]? ≠ none) : p.updateChannel c = .error .addKnown := by
  simp only [updateChannel, hindex, true_or, if_true, assertThat_neg htaken, error_bind]

/-- An interest operation goes through, unless the descriptor is taken by
another channel. -/
theorem change_consistent (hp : Consistent fd p) (op : Interest) :
    Ends (p.change c op)
      (fun f => f = .addKnown ∧ ∃ d, d ≠ c ∧ fd d = fd c ∧ p.registered d = true)
      (fun p' => Consistent fd p' ∧ p'.registered c = true ∧
        ∀ d, d ≠ c → p'.registered d = p.registered d) := by
  by_cases hc : Free fd p c
  · have hentry := hc.entry hp
    obtain ⟨p', ch, hchange, hupdate, hwrote⟩ := change_spec hp.keyed (hc.own hp) hentry op
    obtain ⟨ch', hok, hupdated⟩ := Channel.change_spec hentry (op.apply (p.channel c).events_)
    have hsame : ch' = ch := Except.ok.inj (hok.symm.trans hupdate)
    rw [hsame] at hupdated
    refine Ends.of_eq_ok hchange ⟨hc.consistent hp hwrote hupdated.entry, ?_, ?_⟩
    · exact (congrArg Channel.registered hwrote.view_self).trans hupdated.registered
    · exact fun d hd => hc.registered_other hp hwrote hd
  · rw [Free, not_or] at hc
    obtain ⟨d, hd⟩ := Option.ne_none_iff_exists'.mp hc.1
    have hfd := hp.keyed.channels _ d hd
    have hunreg : p.registered c = false := by
      rw [← Bool.not_eq_true, registered_iff hp.keyed]
      exact hc.2
    have hnew := hp.new c hunreg
    refine Ends.of_eq_error (e := .addKnown) ?_ ⟨rfl, d, ?_, hfd, ?_⟩
    · refine updateChannel_taken ?_ ?_
      · rw [setChannel_self]
        exact hnew
      · rw [setChannel_self]
        show p.channels_[(p.channel c).fd_]? ≠ none
        rw [hp.keyed.fd_eq]
        exact hc.1
    · rintro rfl
      exact hc.2 hd
    · rw [registered_iff hp.keyed, hfd]
      exact hd

/-- `Channel::remove` of a channel without interest goes through if it is
registered. -/
theorem removeChannel_consistent (hp : Consistent fd p)
    (hnone : (p.channel c).isNoneEvent = true) :
    Ends ((p.setChannel c { p.channel c with addedToLoop_ := false }).removeChannel c)
      (fun f => (f = .removeUnknown ∨ f = .removeOther) ∧ p.registered c = false)
      (fun p' => Consistent fd p' ∧ SameRevents p p' ∧
        ∀ d, d ≠ c → p'.registered d = p.registered d) := by
  have hremove : p.remove c =
      (p.setChannel c { p.channel c with addedToLoop_ := false }).removeChannel c := by
    rw [remove, assertThat_pos hnone, ok_bind]
  cases hreg : p.registered c with
  | true =>
      have hc : Free fd p c := .inr ((registered_iff hp.keyed).mp hreg)
      have hentry := hp.entry c hreg
      obtain ⟨p', ch, hok, hchannel, hwrote⟩ :=
        remove_spec hp.keyed (hc.own hp) hentry hreg hnone
      rw [view_removed hentry hreg hnone hchannel] at hwrote
      exact Ends.of_eq_ok (hremove.symm.trans hok) ⟨hc.consistent hp hwrote (.new rfl rfl rfl),
        remove_revents hok, fun d hd => hc.registered_other hp hwrote hd⟩
  | false =>
      have hfd : ((p.setChannel c { p.channel c with addedToLoop_ := false }).channel c).fd_
          = (p.channel c).fd_ := by rw [setChannel_self]
      have hother : p.channels_[(p.channel c).fd_]? ≠ some c := by
        rw [registered, beq_eq_false_iff_ne] at hreg
        exact hreg
      rw [removeChannel, assertKnown, hfd]
      show Ends ((do
        assertThat (p.channels_[(p.channel c).fd_]? ≠ none) Fault.removeUnknown
        assertThat (p.channels_[(p.channel c).fd_]? = some c) Fault.removeOther) >>= _) _ _
      by_cases hknown : p.channels_[(p.channel c).fd_]? ≠ none
      · rw [assertThat_pos hknown, ok_bind, assertThat_neg hother, error_bind]
        exact Ends.error ⟨.inr rfl, rfl⟩
      · rw [assertThat_neg hknown, error_bind, error_bind]
        exact Ends.error ⟨.inl rfl, rfl⟩

/-- A new channel in the place of one that is not registered. -/
theorem Consistent.renew (hp : Consistent fd p) (hreg : p.registered c = false) {x : EPollChannel}
    (hfd : x.fd_ = (p.channel c).fd_) (hindex : x.index_ = kNew) :
    Consistent fd (p.setChannel c x) ∧ ∀ d, (p.setChannel c x).registered d = p.registered d := by
  have hfds : ∀ d, ((p.setChannel c x).channel d).fd_ = (p.channel d).fd_ := by
    intro d
    by_cases hd : d = c
    · rw [hd, setChannel_self, hfd]
    · simp only [setChannel, Function.update_of_ne hd]
  have hsame : ∀ d, (p.setChannel c x).registered d = p.registered d := by
    intro d
    rw [registered, registered, hfds d]
    rfl
  refine ⟨⟨⟨fun d => (hfds d).trans (hp.keyed.fd_eq d), hp.keyed.channels, hp.keyed.epoll⟩,
    ?_, ?_, ?_⟩, hsame⟩
  · intro d hd
    rw [hsame] at hd
    have hne : d ≠ c := by
      rintro rfl
      cases hd.symm.trans hreg
    have hview : (p.setChannel c x).view d = p.view d := by
      rw [view, view, hsame]
      simp only [setChannel, Function.update_of_ne hne]
    rw [hview]
    exact hp.entry d hd
  · intro d hd
    rw [hsame] at hd
    by_cases hdc : d = c
    · rw [hdc, setChannel_self, hindex]
    · simp only [setChannel, Function.update_of_ne hdc]
      exact hp.new d hd
  · intro k entry hentry
    rw [hsame]
    exact hp.listed k entry hentry

theorem Polls.consistent (h : Polls p p') (hp : Consistent fd p) :
    Consistent fd p' ∧ ∀ d, p'.registered d = p.registered d := by
  have hsame : ∀ d, p'.registered d = p.registered d :=
    fun d => congrArg Channel.registered (h.view_eq d)
  refine ⟨⟨h.keyed hp.keyed, ?_, ?_, ?_⟩, hsame⟩
  · intro d hd
    rw [h.view_eq]
    exact hp.entry d (hsame d ▸ hd)
  · intro d hd
    rw [h.channel d]
    exact hp.new d (hsame d ▸ hd)
  · intro k entry hentry
    rw [hsame]
    exact hp.listed k entry (h.epoll ▸ hentry)

end Poller.EPollPoller

namespace LoopDispatch

open Poller.EPollPoller (Consistent SameRevents)
open PollPoller (Interest)

variable {ι : Type} [DecidableEq ι] {fd : ι → Int} {s s' : LoopDispatch ι} {c : ι}

/-! ### The invariant -/

/-- The first element of `activeChannels_` whose turn has not begun. -/
def next (s : LoopDispatch ι) : Nat :=
  match s.point with
  | .round i => i
  | .handler i _ _ => i + 1
  | .poll | .functors => s.activeChannels_.length

/-- The number of turns that are over. -/
def ended (s : LoopDispatch ι) : Nat :=
  match s.point with
  | .round i | .handler i _ _ => i
  | .poll | .functors => s.activeChannels_.length

/-- The turn that is going on, as it will be when its callbacks have run. -/
def running (s : LoopDispatch ι) : List (Turn ι) :=
  match s.point with
  | .handler _ c callbacks => [⟨c, s.found, s.ran ++ callbacks⟩]
  | _ => []

/-- The turns that have not begun, for channels that are not tied. -/
def todo (s : LoopDispatch ι) : List (Turn ι) :=
  (s.activeChannels_.drop s.next).map fun c =>
    ⟨c, .untied, handleEventWithGuard (s.poller.channel c).revents_⟩

/-- A turn gives the channel what the kernel has reported of its descriptor,
and nothing if the owner of the channel had gone. -/
def Delivers (fd : ι → Int) (x : Turn ι) (r : Int × EventMask) : Prop :=
  fd x.channel = r.1 ∧ x.ran = if x.found = .gone then [] else handleEventWithGuard r.2

omit [DecidableEq ι] in
/-- One element is replaced by another that fits at least where it does. -/
theorem forall₂_replace {α β : Type} {R : α → β → Prop} {front back : List α} {x y : α}
    {l : List β} (h : List.Forall₂ R (front ++ x :: back) l) (hxy : ∀ b, R x b → R y b) :
    List.Forall₂ R (front ++ y :: back) l := by
  induction front generalizing l with
  | nil =>
      cases h with
      | cons hx hback => exact .cons (hxy _ hx) hback
  | cons a front ih =>
      cases h with
      | cons ha hrest => exact .cons ha (ih hrest)

/-- The members that belong to a point of the loop. -/
inductive At (s : LoopDispatch ι) : Prop where
  | idle : s.point = .poll ∨ s.point = .functors → s.eventHandling_ = false →
      (∀ c, s.handling c = false) → At s
  | round (i : Nat) : s.point = .round i → s.eventHandling_ = true →
      (∀ c, s.handling c = false) → At s
  | handler (i : Nat) (c : ι) (callbacks : List Callback) : s.point = .handler i c callbacks →
      s.eventHandling_ = true → s.activeChannels_[i]? = some c →
      s.currentActiveChannel_ = some c → s.alive c = true →
      (∀ d, s.handling d = decide (d = c)) → At s

/-- What holds between any two steps. The turns that are over, the one that is
going on and those to come are, one by one, what the kernel has reported. -/
structure Inv (fd : ι → Int) (s : LoopDispatch ι) : Prop where
  consistent : Consistent fd s.poller
  dead : ∀ c, s.alive c = false → s.poller.registered c = false
  nodup : s.activeChannels_.Nodup
  /-- The channels whose turn has not begun are registered. -/
  registered : ∀ c ∈ s.activeChannels_.drop s.next, s.poller.registered c = true
  handled : s.handled.map Turn.channel = s.activeChannels_.take s.ended
  delivered : List.Forall₂ (Delivers fd) (s.handled ++ (s.running ++ s.todo)) s.reported
  at_ : At s

/-- A channel that does not exist is not registered, so a registered one
exists. -/
theorem Inv.alive_of_registered (h : Inv fd s) (hreg : s.poller.registered c = true) :
    s.alive c = true := by
  cases halive : s.alive c with
  | true => rfl
  | false =>
      rw [h.dead c halive] at hreg
      cases hreg

/-- A loop without channels. -/
theorem inv_init : Inv fd (init fd) where
  consistent :=
    ⟨Poller.EPollPoller.sound_init.keyed, fun c hreg => by
      simp [init, Poller.EPollPoller.init, Poller.EPollPoller.registered] at hreg, fun _ _ => rfl,
      fun k entry hentry => by simp [init, Poller.EPollPoller.init] at hentry⟩
  dead c _ := by simp [init, Poller.EPollPoller.init, Poller.EPollPoller.registered]
  nodup := List.nodup_nil
  registered c hc := by cases hc
  handled := rfl
  delivered := .nil
  at_ := .idle (Or.inl rfl) rfl fun _ => rfl

/-! ### The steps of the loop -/

/-- `poll` starts a round in which every turn is still to come. -/
theorem poll_spec (h : Inv fd s) {answer : List (Int × EventMask)}
    (hidle : ∀ c, s.handling c = false) (hanswer : s.poller.kernelAnswers answer = true) :
    Returns (s.poll answer) (Inv fd) := by
  have hkeyed := h.consistent.keyed
  obtain ⟨⟨p, active⟩, hpoll, hpolls, -, hnodup, hregistered⟩ :=
    (Poller.EPollPoller.poll_spec hkeyed h.consistent.listed hanswer).exists_ok
  have hrevents := Poller.EPollPoller.poll_revents hkeyed hanswer hpoll
  obtain ⟨hconsistent, hsame⟩ := hpolls.consistent h.consistent
  refine Ends.of_eq_ok (a := { s with
    poller := p, activeChannels_ := active, eventHandling_ := true, point := .round 0
    reported := answer, handled := [] }) ?_ ?_
  · simp only [poll, hpoll, mapError_ok, ok_bind, except_pure]
  · refine ⟨hconsistent, ?_, hnodup, ?_, rfl, ?_, .round 0 rfl rfl hidle⟩
    · exact fun c hc => (hsame c).trans (h.dead c hc)
    · exact fun c hc => (hsame c).trans (hregistered c (List.mem_of_mem_drop hc))
    · rw [← hrevents]
      simp only [List.nil_append, running, todo, next, List.drop_zero, List.forall₂_map_left_iff,
        List.forall₂_map_right_iff, List.forall₂_same]
      exact fun c _ => ⟨rfl, rfl⟩

/-- The turn of the next channel begins, or is over at once: `begun` is what
stands for it in the list of turns. -/
theorem Inv.turn (h : Inv fd s) {i : Nat} (hpoint : s.point = .round i)
    (hc : s.activeChannels_[i]? = some c) (hpoller : s'.poller = s.poller)
    (halive : s'.alive = s.alive) (hactive : s'.activeChannels_ = s.activeChannels_)
    (hreported : s'.reported = s.reported) (hnext : s'.next = i + 1) (begun : Turn ι)
    (hhandled : s'.handled.map Turn.channel = s.activeChannels_.take s'.ended)
    (hturns : s'.handled ++ s'.running = s.handled ++ [begun]) (hchannel : begun.channel = c)
    (hran : begun.ran = if begun.found = .gone then []
      else handleEventWithGuard (s.poller.channel c).revents_)
    (hat : At s') : Inv fd s' := by
  obtain ⟨hlt, hget⟩ := List.getElem?_eq_some_iff.mp hc
  have hold : s.next = i := by rw [next, hpoint]
  have hdrop : s.activeChannels_.drop i = c :: s.activeChannels_.drop (i + 1) := by
    rw [List.drop_eq_getElem_cons hlt, hget]
  refine ⟨hpoller ▸ h.consistent, ?_, hactive ▸ h.nodup, ?_, hactive ▸ hhandled, ?_, hat⟩
  · rw [hpoller, halive]
    exact h.dead
  · intro d hd
    rw [hnext, hactive] at hd
    rw [hpoller]
    refine h.registered d ?_
    rw [hold, hdrop]
    exact List.mem_cons_of_mem _ hd
  · have hdelivered := h.delivered
    have hnone : s.running = [] := by rw [running, hpoint]
    rw [hnone, List.nil_append, todo, hold, hdrop, List.map_cons] at hdelivered
    rw [← List.append_assoc, hturns, List.append_assoc, hreported, todo, hnext, hactive, hpoller]
    refine forall₂_replace hdelivered ?_
    rintro r ⟨hfd, hdue⟩
    have hguard : handleEventWithGuard (s.poller.channel c).revents_ = handleEventWithGuard r.2 :=
      hdue
    exact ⟨hchannel ▸ hfd, by rw [hran, hguard]⟩

/-- The loop finds the channel of the next turn, and its `revents_`. -/
theorem handleEvent_spec (h : Inv fd s) {i : Nat} (hpoint : s.point = .round i)
    (hidle : ∀ c, s.handling c = false) (heh : s.eventHandling_ = true)
    (hc : s.activeChannels_[i]? = some c) :
    Returns (s.handleEvent i c) (Inv fd) := by
  obtain ⟨hlt, hget⟩ := List.getElem?_eq_some_iff.mp hc
  have hreg : s.poller.registered c = true := by
    have hnext : s.next = i := by rw [next, hpoint]
    refine h.registered c ?_
    rw [hnext, List.drop_eq_getElem_cons hlt, hget]
    exact List.mem_cons_self
  have halive := h.alive_of_registered hreg
  have hhandling : ∀ d, Function.update s.handling c true d = decide (d = c) := by
    intro d
    by_cases hd : d = c
    · simp only [hd, Function.update_self, decide_true]
    · simp only [Function.update_of_ne hd, hidle d, hd, decide_false]
  have hhandled := h.handled
  rw [ended, hpoint] at hhandled
  have hstart : s.tie_ c ≠ .gone →
      Inv fd (s.start i c (handleEventWithGuard (s.poller.channel c).revents_)) := by
    intro htie
    refine h.turn hpoint hc rfl rfl rfl rfl rfl ⟨c, s.tie_ c,
      handleEventWithGuard (s.poller.channel c).revents_⟩ hhandled rfl rfl ?_
      (.handler i c _ rfl heh hc rfl halive hhandling)
    exact (if_neg htie).symm
  rw [handleEvent, assertThat_pos halive, ok_bind]
  cases htie : s.tie_ c with
  | gone =>
      refine Ends.ok (h.turn hpoint hc rfl rfl rfl rfl rfl ⟨c, s.tie_ c, []⟩ ?_
        (List.append_nil _) rfl (if_pos htie).symm (.round (i + 1) rfl heh hidle))
      show (s.handled ++ [Turn.mk c (s.tie_ c) []]).map Turn.channel = s.activeChannels_.take (i + 1)
      rw [List.map_append, hhandled, List.take_add_one, hc]
      rfl
  | untied => exact Ends.ok (hstart fun hgone => by cases htie.symm.trans hgone)
  | held => exact Ends.ok (hstart fun hgone => by cases htie.symm.trans hgone)

/-- A step that does not touch the poller or the list, and begins no turn. -/
theorem Inv.moved (h : Inv fd s) (hpoller : s'.poller = s.poller) (halive : s'.alive = s.alive)
    (hactive : s'.activeChannels_ = s.activeChannels_) (hreported : s'.reported = s.reported)
    (hnext : s'.activeChannels_.drop s'.next = s.activeChannels_.drop s.next)
    (hhandled : s'.handled.map Turn.channel = s.activeChannels_.take s'.ended)
    (hturns : s'.handled ++ s'.running = s.handled ++ s.running) (hat : At s') : Inv fd s' where
  consistent := hpoller ▸ h.consistent
  dead := by
    rw [hpoller, halive]
    exact h.dead
  nodup := hactive ▸ h.nodup
  registered := by
    rw [hnext, hpoller]
    exact h.registered
  handled := hactive ▸ hhandled
  delivered := by
    have hdelivered := h.delivered
    rw [← List.append_assoc] at hdelivered ⊢
    rw [hturns, todo, hnext, hpoller, hreported]
    exact hdelivered
  at_ := hat

/-- The loop goes on wherever it is. It never meets a channel that is gone. -/
theorem advance_spec (h : Inv fd s) (hen : s.point ≠ .poll) :
    Returns s.advance (Inv fd) := by
  have hhandled := h.handled
  cases h.at_ with
  | idle hpoint heh hidle =>
      have hfunctors := hpoint.resolve_left hen
      rw [ended, hfunctors] at hhandled
      rw [advance, hfunctors]
      refine Ends.ok (h.moved rfl rfl rfl rfl ?_ hhandled ?_ (.idle (Or.inl rfl) heh hidle))
      · rw [next, next, hfunctors]
      · rw [running, running, hfunctors]
  | round i hpoint heh hidle =>
      rw [ended, hpoint] at hhandled
      rw [advance, hpoint]
      simp only
      cases hc : s.activeChannels_[i]? with
      | some c => exact handleEvent_spec h hpoint hidle heh hc
      | none =>
          -- Behind the last channel the round is over.
          have hle : s.activeChannels_.length ≤ i := List.getElem?_eq_none_iff.mp hc
          refine Ends.ok (h.moved rfl rfl rfl rfl ?_ ?_ ?_ (.idle (Or.inr rfl) rfl hidle))
          · rw [next, next, hpoint]
            simp only [endRound]
            rw [List.drop_length, List.drop_eq_nil_of_le hle]
          · simp only [ended, endRound]
            rw [hhandled, List.take_length, List.take_of_length_le hle]
          · rw [running, running, hpoint]
            rfl
  | handler i c callbacks hpoint heh hc hcurrent halive hhandling =>
      rw [ended, hpoint] at hhandled
      rw [advance, hpoint]
      cases callbacks with
      | nil =>
          -- The last callback has returned: the turn is recorded with what has run in it.
          simp only
          rw [finish, assertThat_pos halive, ok_bind]
          refine Ends.ok (h.moved rfl rfl rfl rfl ?_ ?_ ?_ (.round (i + 1) rfl heh ?_))
          · rw [next, next, hpoint]
          · show (s.handled ++ [Turn.mk c s.found s.ran]).map Turn.channel
              = s.activeChannels_.take (i + 1)
            rw [List.map_append, hhandled, List.take_add_one, hc]
            rfl
          · rw [running, running, hpoint]
            simp only [List.append_nil]
          · intro d
            by_cases hd : d = c
            · simp only [hd, Function.update_self]
            · simp only [Function.update_of_ne hd, hhandling d, hd, decide_false]
      | cons callback callbacks =>
          refine Ends.ok (h.moved rfl rfl rfl rfl ?_ hhandled ?_
            (.handler i c callbacks rfl heh hc hcurrent halive hhandling))
          · rw [next, next, hpoint]
          · rw [running, running, hpoint]
            simp only [List.append_assoc, List.singleton_append]

/-! ### User code -/

/-- The point of the loop is no matter of the poller and the ties. -/
theorem At.replace (h : At s) (p : Poller.EPollPoller ι) (tie : ι → Tie) :
    At { s with poller := p, tie_ := tie } := by
  cases h with
  | idle hpoint heh hidle => exact .idle hpoint heh hidle
  | round i hpoint heh hidle => exact .round i hpoint heh hidle
  | handler i d callbacks hpoint heh hget hcurrent hd hhandling =>
      exact .handler i d callbacks hpoint heh hget hcurrent hd hhandling

/-- Ties do not matter until the next turn. -/
theorem Inv.tied (h : Inv fd s) (tie : ι → Tie) : Inv fd { s with tie_ := tie } :=
  h.moved rfl rfl rfl rfl rfl h.handled rfl (h.at_.replace _ tie)

/-- `tie` changes the ties only. -/
theorem tie_spec (h : Inv fd s) (halive : s.alive c = true) : Returns (s.tie c) (Inv fd) := by
  rw [tie, assertThat_pos halive, ok_bind]
  exact Ends.ok (h.tied _)

/-- A change of the poller at the channel `c`, whose turn has begun, or which
stays registered. -/
theorem Inv.changed (h : Inv fd s) {p : Poller.EPollPoller ι} (hconsistent : Consistent fd p)
    (hother : ∀ d, d ≠ c → p.registered d = s.poller.registered d)
    (hrevents : SameRevents s.poller p) (halive : s.alive c = true)
    (hc : c ∈ s.activeChannels_.drop s.next → p.registered c = true) :
    Inv fd { s with poller := p } where
  consistent := hconsistent
  dead d hd := by
    have hne : d ≠ c := by
      rintro rfl
      rw [halive] at hd
      cases hd
    exact (hother d hne).trans (h.dead d hd)
  nodup := h.nodup
  registered d hd := by
    by_cases hdc : d = c
    · exact hdc ▸ hc (hdc ▸ hd)
    · exact (hother d hdc).trans (h.registered d hd)
  handled := h.handled
  delivered := by
    have hsame : todo { s with poller := p } = s.todo := by
      refine List.map_congr_left fun d _ => ?_
      rw [hrevents d]
    have hdelivered := h.delivered
    rw [← hsame] at hdelivered
    exact hdelivered
  at_ := h.at_.replace p s.tie_

/-- An interest operation stops only where another channel has the
descriptor. -/
theorem update_spec (h : Inv fd s) (halive : s.alive c = true) (op : Interest) :
    Ends (s.update c op)
      (fun f => f = .poller .addKnown ∧ ∃ d, d ≠ c ∧ fd d = fd c ∧ s.poller.registered d = true)
      (Inv fd) := by
  have hchange := Poller.EPollPoller.change_consistent (c := c) h.consistent op
  rw [update, assertThat_pos halive, ok_bind]
  cases hok : s.poller.change c op with
  | error f =>
      obtain ⟨rfl, htaken⟩ := hchange.fault hok
      exact Ends.error ⟨rfl, htaken⟩
  | ok p =>
      obtain ⟨hconsistent, hreg, hother⟩ := hchange.post hok
      exact Ends.ok (h.changed hconsistent hother (Poller.EPollPoller.change_revents hok) halive
        fun _ => hreg)

/-- What the `assert` of `EventLoop::removeChannel` asks for. -/
def MayRemove (s : LoopDispatch ι) (c : ι) : Prop :=
  s.eventHandling_ = true → s.currentActiveChannel_ = some c ∨ c ∉ s.activeChannels_

/-- A channel that `removeChannel` lets go is not to be handled any more. -/
theorem Inv.not_todo (h : Inv fd s) (hcode : s.userCode = true) (hassert : s.MayRemove c) :
    c ∉ s.activeChannels_.drop s.next := by
  intro hmem
  cases h.at_ with
  | idle hpoint _ _ =>
      have hnext : s.next = s.activeChannels_.length := by
        cases hpoint with
        | inl hpoint => rw [next, hpoint]
        | inr hpoint => rw [next, hpoint]
      rw [hnext, List.drop_length] at hmem
      cases hmem
  | round i hpoint _ _ =>
      rw [userCode, hpoint] at hcode
      cases hcode
  | handler i d callbacks hpoint heh hget hcurrent _ _ =>
      have hnext : s.next = i + 1 := by rw [next, hpoint]
      cases hassert heh with
      | inr hnot => exact hnot (List.mem_of_mem_drop hmem)
      | inl hsame =>
          -- The current channel stands before `next`, and nothing stands twice in the list.
          rw [hcurrent] at hsame
          cases hsame
          rw [hnext] at hmem
          have hnodup := h.nodup
          rw [← List.take_append_drop (i + 1) s.activeChannels_, List.nodup_append] at hnodup
          have hfront : c ∈ s.activeChannels_.take (i + 1) := by
            refine List.mem_of_getElem? (i := i) ?_
            rw [List.getElem?_take_of_lt (Nat.lt_succ_self i), hget]
          exact hnodup.2.2 c hfront c hmem rfl

/-- What stops the removal of a channel. -/
def RemoveFault (s : LoopDispatch ι) (c : ι) (f : Fault) : Prop :=
  f = .poller .channelInterest ∧ (s.poller.channel c).isNoneEvent = false ∨
    f = .removeActive ∧ ¬ s.MayRemove c ∨
    (f = .poller .removeUnknown ∨ f = .poller .removeOther) ∧ s.poller.registered c = false

/-- A removal goes through for a registered channel without interest that is
not to be handled any more. -/
theorem remove_spec (h : Inv fd s) (hcode : s.userCode = true) (halive : s.alive c = true) :
    Ends (s.remove c) (s.RemoveFault c) (Inv fd) := by
  simp only [remove, assertThat_pos halive, ok_bind]
  by_cases hnone : (s.poller.channel c).isNoneEvent = true
  · rw [assertThat_pos hnone, ok_bind, removeChannel]
    by_cases hassert : s.eventHandling_ = true →
        s.currentActiveChannel_ = some c ∨ c ∉ s.activeChannels_
    · have hremove := Poller.EPollPoller.removeChannel_consistent h.consistent hnone
      rw [assertThat_pos hassert, ok_bind]
      cases hok : Poller.EPollPoller.removeChannel
          (s.poller.setChannel c { s.poller.channel c with addedToLoop_ := false }) c with
      | error f =>
          obtain ⟨hf, hunreg⟩ := hremove.fault hok
          exact Ends.error (.inr (.inr ⟨hf.imp (congrArg Fault.poller) (congrArg Fault.poller),
            hunreg⟩))
      | ok p =>
          obtain ⟨hconsistent, hrevents, hother⟩ := hremove.post hok
          exact Ends.ok (h.changed hconsistent hother hrevents halive
            fun hmem => absurd hmem (h.not_todo hcode hassert))
    · rw [assertThat_neg hassert, error_bind]
      exact Ends.error (.inr (.inl ⟨rfl, hassert⟩))
  · rw [assertThat_neg hnone, error_bind]
    exact Ends.error (.inl ⟨rfl, eq_false_of_ne_true hnone⟩)

/-- What stops a destructor. -/
def DestroyFault (s : LoopDispatch ι) (c : ι) (f : Fault) : Prop :=
  f = .destroyHandling ∧ s.handling c = true ∨
    f = .destroyAdded ∧ (s.poller.channel c).addedToLoop_ = true ∨
    f = .destroyKnown ∧ s.poller.registered c = true

/-- A channel that its destructor lets go is not registered. -/
theorem destroy_spec (h : Inv fd s) (halive : s.alive c = true) :
    Ends (s.destroy c) (s.DestroyFault c) (Inv fd) := by
  rw [destroy, assertThat_pos halive, ok_bind]
  by_cases hhandling : s.handling c = false
  · rw [assertThat_pos hhandling, ok_bind]
    by_cases hadded : (s.poller.channel c).addedToLoop_ = false
    · rw [assertThat_pos hadded, ok_bind]
      by_cases hreg : s.poller.registered c = false
      · rw [assertThat_pos hreg, ok_bind]
        refine Ends.ok ⟨h.consistent, ?_, h.nodup, h.registered, h.handled, h.delivered, ?_⟩
        · intro d hd
          by_cases hdc : d = c
          · subst hdc
            exact hreg
          · exact h.dead d ((Function.update_of_ne hdc _ _).symm.trans hd)
        · cases h.at_ with
          | idle hpoint heh hidle => exact .idle hpoint heh hidle
          | round i hpoint heh hidle => exact .round i hpoint heh hidle
          | handler i d callbacks hpoint heh hget hcurrent hd hall =>
              -- The channel whose callbacks run is handling its event.
              have hdc : d ≠ c := by
                rintro rfl
                rw [hall, decide_eq_false_iff_not] at hhandling
                exact hhandling rfl
              exact .handler i d callbacks hpoint heh hget hcurrent
                ((Function.update_of_ne hdc _ _).trans hd) hall
      · rw [assertThat_neg hreg]
        exact Ends.error (.inr (.inr ⟨rfl, eq_true_of_ne_false hreg⟩))
    · rw [assertThat_neg hadded]
      exact Ends.error (.inr (.inl ⟨rfl, eq_true_of_ne_false hadded⟩))
  · rw [assertThat_neg hhandling]
    exact Ends.error (.inl ⟨rfl, eq_true_of_ne_false hhandling⟩)

/-- A channel that does not exist is not one of those to be handled. -/
theorem Inv.dead_not_todo (h : Inv fd s) (hdead : s.alive c = false) :
    c ∉ s.activeChannels_.drop s.next := by
  intro hmem
  rw [h.alive_of_registered (h.registered c hmem)] at hdead
  cases hdead

/-- A new channel, in place of one that does not exist. -/
theorem construct_spec (h : Inv fd s) (hdead : s.alive c = false) : Inv fd (s.construct c) := by
  obtain ⟨hconsistent, hsame⟩ := h.consistent.renew (h.dead c hdead)
    (x := ⟨(s.poller.channel c).fd_, Channel.kNoneEvent, 0#32, EPollPoller.kNew, false⟩) rfl rfl
  have htodo : ∀ d ∈ s.activeChannels_.drop s.next, d ≠ c := by
    rintro d hd rfl
    exact h.dead_not_todo hdead hd
  have hlist : (s.construct c).todo = s.todo := by
    refine List.map_congr_left fun d hd => ?_
    simp only [construct, Poller.EPollPoller.setChannel, Function.update_of_ne (htodo d hd)]
  have hhandling : ∀ d, d ≠ c → (s.construct c).handling d = s.handling d :=
    fun d hd => Function.update_of_ne hd _ _
  have hfresh : (s.construct c).handling c = false := Function.update_self _ _ _
  have hquiet : (∀ d, s.handling d = false) → ∀ d, (s.construct c).handling d = false := by
    intro hidle d
    by_cases hd : d = c
    · rw [hd, hfresh]
    · rw [hhandling d hd, hidle d]
  refine ⟨hconsistent, ?_, h.nodup, ?_, h.handled, ?_, ?_⟩
  · intro d hd
    have hne : d ≠ c := by
      rintro rfl
      have hborn : (s.construct d).alive d = true := Function.update_self _ _ _
      cases hborn.symm.trans hd
    exact (hsame d).trans (h.dead d ((Function.update_of_ne hne _ _).symm.trans hd))
  · exact fun d hd => (hsame d).trans (h.registered d hd)
  · rw [hlist]
    exact h.delivered
  · cases h.at_ with
    | idle hpoint heh hidle => exact .idle hpoint heh (hquiet hidle)
    | round i hpoint heh hidle => exact .round i hpoint heh (hquiet hidle)
    | handler i d callbacks hpoint heh hget hcurrent hd hall =>
        have hdc : d ≠ c := by
          rintro rfl
          rw [hd] at hdead
          cases hdead
        refine .handler i d callbacks hpoint heh hget hcurrent
          ((Function.update_of_ne hdc _ _).trans hd) ?_
        intro e
        by_cases he : e = c
        · rw [he, hfresh, decide_eq_false hdc.symm]
        · rw [hhandling e he, hall e]

/-! ### Runs -/

/-- What user code can be stopped for: interest in a descriptor that another
channel has, a removal that comes too early or twice, and a destructor that
comes too early. -/
def UserFault (fd : ι → Int) (s : LoopDispatch ι) : Event ι → Fault → Prop
  | .update c _, f =>
      f = .poller .addKnown ∧ ∃ d, d ≠ c ∧ fd d = fd c ∧ s.poller.registered d = true
  | .remove c, f => s.RemoveFault c f
  | .destroy c, f => s.DestroyFault c f
  | _, _ => False

/-- One step: the loop goes on, and user code is stopped by its own mistakes
only. -/
theorem step_spec (h : Inv fd s) {e : Event ι} (hen : (machine ι).enabled s e) :
    Ends ((machine ι).step s e) (UserFault fd s e) (Inv fd) := by
  have hen' : enabled s e = true := hen
  cases e with
  | poll answer =>
      simp only [enabled, Bool.and_eq_true, beq_iff_eq] at hen'
      have hidle : ∀ c, s.handling c = false := by
        cases h.at_ with
        | idle _ _ hidle => exact hidle
        | round i hpoint _ _ => cases hen'.1.symm.trans hpoint
        | handler i d callbacks hpoint _ _ _ _ _ => cases hen'.1.symm.trans hpoint
      exact Ends.of_returns (poll_spec h hidle hen'.2)
  | advance =>
      simp only [enabled, bne_iff_ne, ne_eq] at hen'
      exact Ends.of_returns (advance_spec h hen')
  | construct c =>
      simp only [enabled, Bool.and_eq_true, Bool.not_eq_true'] at hen'
      exact Ends.ok (construct_spec h hen'.2)
  | tie c =>
      simp only [enabled, Bool.and_eq_true] at hen'
      exact Ends.of_returns (tie_spec h hen'.2)
  | release c => exact Ends.ok (h.tied _)
  | update c op =>
      simp only [enabled, Bool.and_eq_true] at hen'
      exact update_spec h hen'.2 op
  | remove c =>
      simp only [enabled, Bool.and_eq_true] at hen'
      exact remove_spec h hen'.1 hen'.2
  | destroy c =>
      simp only [enabled, Bool.and_eq_true] at hen'
      exact destroy_spec h hen'.2

/-- The invariant holds after every run. -/
theorem inv_run {es : List (Event ι)} (hrun : (machine ι).Run (init fd) es s) : Inv fd s :=
  hrun.invariant inv_init fun _ _ _ ht hen hok => (step_spec ht hen).post hok

/-- Whatever the user code does while the callbacks of a round run, also with
channels that share a descriptor:

* only an `assert` about the user code can stop the machine, and the loop
  never uses a channel that is gone;
* the channels whose turn has not begun exist, are registered and had no turn;
* the turns that are over follow the kernel's report, no channel has two, and
  the callbacks that have run in them are those the report asks for, or none
  if the owner of the channel had gone;
* in the turn that is going on, the callbacks that have run and those to come
  are those the report asks for;
* by the end of the round every channel of the report has had its turn. -/
theorem events_delivered_once {es : List (Event ι)} (hrun : (machine ι).Run (init fd) es s) :
    (∀ e f, (machine ι).enabled s e → (machine ι).step s e = .error f → UserFault fd s e f) ∧
      (∀ c ∈ s.activeChannels_.drop s.next,
        s.alive c = true ∧ s.poller.registered c = true ∧ c ∉ s.handled.map Turn.channel) ∧
      (s.handled.map Turn.channel).Nodup ∧
      List.Forall₂ (Delivers fd) s.handled (s.reported.take s.handled.length) ∧
      (∀ i c callbacks, s.point = .handler i c callbacks → c ∉ s.handled.map Turn.channel ∧
        ∃ r, s.reported[s.handled.length]? = some r ∧
          Delivers fd ⟨c, s.found, s.ran ++ callbacks⟩ r) ∧
      (s.point = .functors → s.handled.length = s.reported.length) := by
  have h := inv_run hrun
  have hle : s.ended ≤ s.next := by
    unfold ended next
    split <;> omega
  have hnodup := h.nodup
  rw [← List.take_append_drop s.ended s.activeChannels_, List.nodup_append, ← h.handled] at hnodup
  have hlater : ∀ c ∈ s.activeChannels_.drop s.ended, c ∉ s.handled.map Turn.channel :=
    fun c hc hdone => hnodup.2.2 c hdone c hc rfl
  have hdelivered := h.delivered
  refine ⟨fun e f hen hfault => (step_spec h hen).fault hfault, ?_, hnodup.1, ?_, ?_, ?_⟩
  · intro c hc
    have hreg := h.registered c hc
    exact ⟨h.alive_of_registered hreg, hreg, hlater c (List.drop_subset_drop_left _ hle hc)⟩
  · have htake := List.forall₂_take s.handled.length hdelivered
    rwa [List.take_left] at htake
  · intro i c callbacks hpoint
    -- The invariant knows the channel whose handler runs.
    have hat : s.activeChannels_[i]? = some c := by
      cases h.at_ with
      | idle hidle _ _ => cases hidle with
        | inl hp => cases hp.symm.trans hpoint
        | inr hp => cases hp.symm.trans hpoint
      | round j hp _ _ => cases hp.symm.trans hpoint
      | handler j d rest hp _ hget _ _ _ =>
          cases hp.symm.trans hpoint
          exact hget
    refine ⟨hlater c ?_, ?_⟩
    · rw [ended, hpoint]
      obtain ⟨hlt, hget⟩ := List.getElem?_eq_some_iff.mp hat
      rw [List.drop_eq_getElem_cons hlt, hget]
      exact List.mem_cons_self
    · have hdrop := List.forall₂_drop s.handled.length hdelivered
      rw [List.drop_left, running, hpoint] at hdrop
      cases hrest : s.reported.drop s.handled.length with
      | nil =>
          rw [hrest] at hdrop
          cases hdrop
      | cons r rest =>
          rw [hrest] at hdrop
          have hget := congrArg List.head? hrest
          rw [List.head?_drop] at hget
          cases hdrop with
          | cons hfirst _ => exact ⟨r, hget, hfirst⟩
  · intro hpoint
    have htodo : s.running ++ s.todo = [] := by
      rw [running, todo, next, hpoint]
      simp only [List.drop_length, List.map_nil, List.nil_append]
    have hlength := hdelivered.length_eq
    rwa [htodo, List.append_nil] at hlength

/-- Three channels are ready. The callback of the first disables and removes
it, and lets the owner of the third go. All have had their turn when the
functors run, which destroy the first, and the fourth gets its descriptor. -/
def removedInRound : List (Event (Fin 4)) :=
  [.construct 0, .construct 1, .construct 2, .tie 2, .update 0 .enableReading,
    .update 1 .enableWriting, .update 2 .enableReading,
    .poll [(5, POLLIN), (6, POLLOUT ||| POLLERR), (7, POLLIN)], .advance,
    .update 0 .disableAll, .remove 0, .release 2, .advance, .advance, .advance, .advance,
    .advance, .advance, .advance, .advance, .destroy 0, .construct 3, .update 3 .enableReading]

/-- The descriptors of the four channels: the last one has that of the
first. -/
def sharedFd (c : Fin 4) : Int := if c = 3 then 5 else c.val + 5

theorem events_delivered_once_removed :
    ∃ s, (machine (Fin 4)).Run (init sharedFd) removedInRound s ∧
      (s.point = .functors ∧ s.alive 0 = false ∧ s.poller.registered 3 = true ∧
        s.handled = [⟨0, .untied, [.read]⟩, ⟨1, .untied, [.error, .write]⟩, ⟨2, .gone, []⟩]) ∧
      s.handled.length = s.reported.length := by
  have hexec : ((machine (Fin 4)).exec (init sharedFd) removedInRound).map
        (fun s => decide (s.point = .functors ∧ s.alive 0 = false ∧ s.poller.registered 3 = true ∧
          s.handled = [⟨0, .untied, [.read]⟩, ⟨1, .untied, [.error, .write]⟩, ⟨2, .gone, []⟩]))
      = some true := by
    decide +kernel
  obtain ⟨s, hrun, hfinal⟩ := Machine.exists_run_of_exec hexec
  have hend := of_decide_eq_true hfinal
  exact ⟨s, hrun, hend, (events_delivered_once hrun).2.2.2.2.2 hend.1⟩

end LoopDispatch

end Muduo.Net
