import Mathlib.Data.List.Forall2
import Mathlib.Data.List.Nodup
import Muduo.Lib.OrderedMap
import Muduo.Lib.Outcome
import Muduo.Lib.Slice
import Muduo.Net.PollPoller

/-!
# `Muduo.Proofs.PollPoller`: the three parts of the table agree

The table is described by one list of channels, `order`: the channels that
are registered, in the order of their entries in `pollfds_`. `Table` says
that the list has no repetition, that position `i` of the array is the
entry of channel `i` of the list, that this channel has `index_ = i`, and
that `channels_` leads to exactly the channels of the list.

With that view the steps are steps on a list. A new channel goes to its
end. A removed one is overwritten by the last one, which then leaves the
end (`Table.swap`): up to its order the list loses one element. `poll`
does not change it, and the active channels are a part of it.
-/

set_option autoImplicit false

namespace Muduo.Net.PollPoller

open Muduo.Lib

variable {ι : Type}

/-! ### Conversions -/

/-- A size below `2 ^ 31` is the same as an `int`. -/
theorem toInt_eq {n : Nat} (h : n < 2 ^ 31) : toInt n = n := by
  rw [toInt]
  omega

/-- The position behind the last entry of an array that can still grow. -/
theorem lastIndex_cases {n : Nat} (h : n < 2 ^ 31) :
    (n + 1 < 2 ^ 31 ∧ lastIndex (n + 1) = .ok n) ∨
      (n + 1 = 2 ^ 31 ∧ lastIndex (n + 1) = .error .overflow) := by
  by_cases hlt : n + 1 < 2 ^ 31
  · left
    refine ⟨hlt, ?_⟩
    rw [lastIndex, toInt_eq hlt, if_neg (by omega)]
    congr 1
    omega
  · right
    have hn : n + 1 = 2 ^ 31 := by omega
    have hmin : toInt (n + 1) = -2 ^ 31 := by
      rw [toInt]
      omega
    refine ⟨hn, ?_⟩
    rw [lastIndex, if_pos hmin]

/-- The interest sets that the operations of `Channel.h` can build. -/
def IsInterest (events : EventMask) : Prop :=
  events = 0#32 ∨ events = 3#32 ∨ events = 4#32 ∨ events = 7#32

theorem isInterest_apply {events : EventMask} (h : IsInterest events) (op : Interest) :
    IsInterest (op.apply events) := by
  unfold IsInterest at *
  rcases h with rfl | rfl | rfl | rfl <;> cases op <;> decide

/-- An interest set survives its way through a `short`. -/
theorem ofShort_toShort {events : EventMask} (h : IsInterest events) :
    ofShort (toShort events) = events := by
  rcases h with rfl | rfl | rfl | rfl <;> decide

/-! ### The table -/

/-- The entry of a channel: its descriptor, negated or not, and its
interest set. -/
def IsEntry (ch : PollChannel) (pfd : PollFd) : Prop :=
  (pfd.fd = ch.fd_ ∨ pfd.fd = -ch.fd_ - 1) ∧ ofShort pfd.events = ch.events_

/-- `pollfds_`, `channels_` and the positions in the channels, described by
the list of the registered channels. -/
structure Table (fd : ι → Int) (p : PollPoller ι) (removed order : List ι) : Prop where
  fd_eq : ∀ c, (p.channel c).fd_ = fd c
  interest : ∀ c, IsInterest (p.channel c).events_
  nodup : order.Nodup
  length : p.pollfds_.length = order.length
  short : order.length < 2 ^ 31
  entry : ∀ (i : Nat) c, order[i]? = some c →
    ∃ pfd, p.pollfds_[i]? = some pfd ∧ IsEntry (p.channel c) pfd
  index : ∀ (i : Nat) c, order[i]? = some c → (p.channel c).index_ = i
  channels : ∀ k c, p.channels_[k]? = some c ↔ c ∈ order ∧ k = fd c
  size : p.channels_.size = order.length
  /-- A channel with a position that is not registered was removed. -/
  gone : ∀ c, 0 ≤ (p.channel c).index_ → c ∈ order ∨ c ∈ removed

theorem table_init {fd : ι → Int} : Table fd (init fd).poller [] [] where
  fd_eq _ := rfl
  interest _ := Or.inl rfl
  nodup := List.nodup_nil
  length := rfl
  short := Nat.two_pow_pos 31
  entry i c hc := by cases hc
  index i c hc := by cases hc
  channels k c := by simp [init]
  size := rfl
  gone c hc := by
    have hneg : ¬ (0 : Int) ≤ -1 := by decide
    exact absurd hc hneg

namespace Table

variable {fd : ι → Int} {p : PollPoller ι} {removed order : List ι} {c : ι}

/-- The position and the entry of a registered channel. -/
theorem at_of_mem (h : Table fd p removed order) (hc : c ∈ order) :
    ∃ (i : Nat) (pfd : PollFd), order[i]? = some c ∧ (p.channel c).index_ = i ∧
      p.pollfds_[i]? = some pfd ∧ IsEntry (p.channel c) pfd := by
  obtain ⟨i, hi⟩ := List.mem_iff_getElem?.mp hc
  obtain ⟨pfd, hpfd, hentry⟩ := h.entry i c hi
  exact ⟨i, pfd, hi, h.index i c hi, hpfd, hentry⟩

theorem lookup (h : Table fd p removed order) (hc : c ∈ order) :
    p.channels_[(p.channel c).fd_]? = some c := by
  rw [h.fd_eq]
  exact (h.channels _ c).mpr ⟨hc, rfl⟩

/-- A channel without a position is not registered. -/
theorem notMem_of_new (h : Table fd p removed order) (hnew : (p.channel c).index_ < 0) :
    c ∉ order := by
  intro hc
  obtain ⟨i, pfd, -, hidx, -⟩ := h.at_of_mem hc
  omega

/-- No channel is registered under the descriptor of one that is not. -/
theorem lookup_of_notMem (h : Table fd p removed order) (hinj : Function.Injective fd)
    (hc : c ∉ order) : p.channels_[fd c]? = none := by
  cases hd : p.channels_[fd c]? with
  | none => rfl
  | some d =>
      obtain ⟨hmem, heq⟩ := (h.channels _ d).mp hd
      rw [hinj heq] at hc
      exact absurd hmem hc

/-- The `assert`s on the position of a registered channel hold. -/
theorem entryOf_eq (h : Table fd p removed order) (hc : c ∈ order) (f : Fault) :
    ∃ (i : Nat) (pfd : PollFd), order[i]? = some c ∧ p.entryOf c f = .ok (i, pfd) ∧
      p.pollfds_[i]? = some pfd ∧ IsEntry (p.channel c) pfd := by
  obtain ⟨i, pfd, hi, hidx, hpfd, hentry⟩ := h.at_of_mem hc
  refine ⟨i, pfd, hi, ?_, hpfd, hentry⟩
  have hlt : i < p.pollfds_.length := (List.getElem?_eq_some_iff.mp hpfd).1
  have hshort := h.short
  have hlen := h.length
  have hrange : 0 ≤ (p.channel c).index_ ∧ (p.channel c).index_ < toInt p.pollfds_.length := by
    rw [toInt_eq (by omega), hidx]
    omega
  rw [hidx] at hrange
  simp only [entryOf, hidx, if_pos hrange, Int.toNat_natCast, hpfd]

/-! ### What the steps do to the table -/

/-- Nothing that the table is about has changed. -/
theorem congr {p' : PollPoller ι} (h : Table fd p removed order)
    (hchannel : ∀ c, (p'.channel c).fd_ = (p.channel c).fd_ ∧
      (p'.channel c).events_ = (p.channel c).events_ ∧
      (p'.channel c).index_ = (p.channel c).index_)
    (hlength : p'.pollfds_.length = p.pollfds_.length)
    (hpollfds : ∀ (i : Nat) pfd, p.pollfds_[i]? = some pfd →
      ∃ pfd', p'.pollfds_[i]? = some pfd' ∧ pfd'.fd = pfd.fd ∧ pfd'.events = pfd.events)
    (hchannels : p'.channels_ = p.channels_) : Table fd p' removed order where
  fd_eq c := (hchannel c).1.trans (h.fd_eq c)
  interest c := by
    rw [(hchannel c).2.1]
    exact h.interest c
  nodup := h.nodup
  length := hlength.trans h.length
  short := h.short
  entry i c hc := by
    obtain ⟨pfd, hpfd, hentry⟩ := h.entry i c hc
    obtain ⟨pfd', hpfd', hfd, hevents⟩ := hpollfds i pfd hpfd
    refine ⟨pfd', hpfd', ?_⟩
    rw [IsEntry, (hchannel c).1, (hchannel c).2.1, hfd, hevents]
    exact hentry
  index i c hc := (hchannel c).2.2.trans (h.index i c hc)
  channels := by
    rw [hchannels]
    exact h.channels
  size := by
    rw [hchannels]
    exact h.size
  gone c hc := h.gone c ((hchannel c).2.2 ▸ hc)

/-- A channel leaves the table. The others may stand in another order. -/
theorem remove {p' : PollPoller ι} {order' : List ι} (h : Table fd p removed order)
    (hinj : Function.Injective fd) (hperm : order.Perm (c :: order'))
    (hfd : ∀ d, (p'.channel d).fd_ = fd d) (hevents : ∀ d, IsInterest (p'.channel d).events_)
    (hlength : p'.pollfds_.length = order'.length)
    (hentry : ∀ (i : Nat) d, order'[i]? = some d →
      ∃ pfd, p'.pollfds_[i]? = some pfd ∧ IsEntry (p'.channel d) pfd)
    (hindex : ∀ (i : Nat) d, order'[i]? = some d → (p'.channel d).index_ = i)
    (hchannels : p'.channels_ = p.channels_.erase (fd c))
    (hgone : ∀ d, 0 ≤ (p'.channel d).index_ → 0 ≤ (p.channel d).index_) :
    Table fd p' (c :: removed) order' := by
  have hnodup := hperm.nodup_iff.mp h.nodup
  obtain ⟨hnot, hnodup'⟩ := List.nodup_cons.mp hnodup
  have hlen : order.length = order'.length + 1 := hperm.length_eq
  have hmem : c ∈ order := hperm.mem_iff.mpr List.mem_cons_self
  have hlookup : p.channels_[fd c]? = some c := (h.channels _ c).mpr ⟨hmem, rfl⟩
  exact
    { fd_eq := hfd
      interest := hevents
      nodup := hnodup'
      length := hlength
      short := by
        have := h.short
        omega
      entry := hentry
      index := hindex
      channels := by
        intro k d
        rw [hchannels, getElem?_erase_eq]
        split
        · rename_i hk
          subst hk
          constructor
          · intro hd
            cases hd
          · rintro ⟨hd, heq⟩
            exact absurd (hinj heq ▸ hd) hnot
        · rename_i hk
          rw [h.channels, hperm.mem_iff]
          constructor
          · rintro ⟨hd, heq⟩
            rcases List.mem_cons.mp hd with rfl | hd
            · exact absurd heq.symm hk
            · exact ⟨hd, heq⟩
          · rintro ⟨hd, heq⟩
            exact ⟨List.mem_cons_of_mem _ hd, heq⟩
      size := by
        rw [hchannels, size_erase_old hlookup, h.size, hlen]
        rfl
      gone := by
        intro d hd
        rcases h.gone d (hgone d hd) with hold | hold
        · rcases List.mem_cons.mp (hperm.mem_iff.mp hold) with rfl | hd'
          · exact Or.inr List.mem_cons_self
          · exact Or.inl hd'
        · exact Or.inr (List.mem_cons_of_mem _ hold) }

/-- The last channel of the list and the last entry of the array. -/
theorem last (h : Table fd p removed order) (hc : c ∈ order) :
    ∃ (order' : List ι) (d : ι) (pfds : List PollFd) (last : PollFd), order = order' ++ [d] ∧
      p.pollfds_ = pfds ++ [last] ∧ pfds.length = order'.length ∧
      IsEntry (p.channel d) last := by
  have hne : order ≠ [] := List.ne_nil_of_mem hc
  obtain ⟨order', d, horder⟩ := (List.eq_nil_or_concat' _).resolve_left hne
  have hlen := h.length
  have hne' : p.pollfds_ ≠ [] := by
    rintro hnil
    rw [hnil, horder] at hlen
    simp at hlen
  obtain ⟨pfds, last, hpfds⟩ := (List.eq_nil_or_concat' _).resolve_left hne'
  rw [hpfds, horder, List.length_append, List.length_append] at hlen
  have hlen' : pfds.length = order'.length := by simpa using hlen
  refine ⟨order', d, pfds, last, horder, hpfds, hlen', ?_⟩
  obtain ⟨q, hq, hentry⟩ := h.entry order'.length d (by rw [horder]; simp)
  rw [hpfds, ← hlen'] at hq
  simp only [List.getElem?_concat_length, Option.some.injEq] at hq
  rw [hq]
  exact hentry

theorem last_notMem {order' : List ι} (h : Table fd p removed (order' ++ [c])) : c ∉ order' := by
  have hnodup := List.nodup_append_comm.mp h.nodup
  exact (List.nodup_cons.mp hnodup).1

/-- The last entry is removed. -/
theorem pop {order' : List ι} {pfds : List PollFd} {last : PollFd}
    (h : Table fd p removed (order' ++ [c])) (hinj : Function.Injective fd)
    (hpfds : p.pollfds_ = pfds ++ [last]) (hlen : pfds.length = order'.length) :
    Table fd ⟨p.channel, pfds, p.channels_.erase (fd c)⟩ (c :: removed) order' := by
  have hat : ∀ (i : Nat) d, order'[i]? = some d →
      i < order'.length ∧ (order' ++ [c])[i]? = some d := by
    intro i d hd
    have hlt := (List.getElem?_eq_some_iff.mp hd).1
    exact ⟨hlt, by rw [List.getElem?_append_left hlt, hd]⟩
  refine h.remove hinj (List.perm_append_singleton c order') h.fd_eq h.interest hlen ?_
    (fun i d hd => h.index i d (hat i d hd).2) rfl fun _ hd => hd
  intro i d hd
  obtain ⟨hlt, hold⟩ := hat i d hd
  obtain ⟨q, hq, hentry⟩ := h.entry i d hold
  rw [hpfds, List.getElem?_append_left (by omega)] at hq
  exact ⟨q, hq, hentry⟩

variable [DecidableEq ι]

theorem registered_iff (h : Table fd p removed order) : p.registered c = true ↔ c ∈ order := by
  rw [registered, beq_iff_eq, h.fd_eq, h.channels]
  simp

theorem assertKnown_eq (h : Table fd p removed order) (hc : c ∈ order) (f g : Fault) :
    p.assertKnown c f g = .ok () := by
  have hlookup := h.lookup hc
  have hne : p.channels_[(p.channel c).fd_]? ≠ none := by rw [hlookup]; simp
  rw [assertKnown, assertThat_pos hne, assertThat_pos hlookup]
  rfl

/-- A write to one channel that keeps its descriptor and leaves it with a
proper interest set. -/
theorem fields_update (h : Table fd p removed order) (ch : PollChannel) (hfd : ch.fd_ = fd c)
    (hevents : IsInterest ch.events_) (d : ι) :
    (Function.update p.channel c ch d).fd_ = fd d ∧
      IsInterest (Function.update p.channel c ch d).events_ := by
  by_cases hd : d = c
  · subst hd
    rw [Function.update_self]
    exact ⟨hfd, hevents⟩
  · rw [Function.update_of_ne hd]
    exact ⟨h.fd_eq d, h.interest d⟩

omit [DecidableEq ι] in
/-- The map after the entry of a new channel. -/
theorem channels_insert (h : Table fd p removed order) (hfree : p.channels_[fd c]? = none) (k : Int)
    (d : ι) : (p.channels_.insert (fd c) c)[k]? = some d ↔ d ∈ order ++ [c] ∧ k = fd d := by
  rw [getElem?_insert_eq, List.mem_append, List.mem_singleton]
  by_cases hk : fd c = k
  · -- No channel of the table has the descriptor.
    have hold : ¬ (d ∈ order ∧ k = fd d) := by
      rw [← h.channels, ← hk, hfree]
      exact fun heq => nomatch heq
    rw [if_pos hk]
    constructor
    · intro heq
      cases heq
      exact ⟨.inr rfl, hk.symm⟩
    · rintro ⟨hmem | rfl, heq⟩
      · exact absurd ⟨hmem, heq⟩ hold
      · rfl
  · rw [if_neg hk, h.channels]
    constructor
    · rintro ⟨hmem, heq⟩
      exact ⟨.inl hmem, heq⟩
    · rintro ⟨hmem | rfl, heq⟩
      · exact ⟨hmem, heq⟩
      · exact absurd heq.symm hk

/-- A new channel goes to the end. -/
theorem push {p' : PollPoller ι} {ch : PollChannel} {pfd : PollFd} (h : Table fd p removed order)
    (hc : c ∉ order) (hshort : order.length + 1 < 2 ^ 31)
    (hchannel : p'.channel = Function.update p.channel c ch)
    (hpollfds : p'.pollfds_ = p.pollfds_ ++ [pfd])
    (hchannels : p'.channels_ = p.channels_.insert (fd c) c) (hfd : ch.fd_ = fd c)
    (hevents : IsInterest ch.events_) (hindex : ch.index_ = order.length)
    (hentry : IsEntry ch pfd) (hfree : p.channels_[fd c]? = none) :
    Table fd p' removed (order ++ [c]) := by
  have hself : p'.channel c = ch := by rw [hchannel, Function.update_self]
  have hother : ∀ d, d ≠ c → p'.channel d = p.channel d := by
    intro d hd
    rw [hchannel, Function.update_of_ne hd]
  -- The positions of the new list: those of the old one, and its length.
  have hat : ∀ (i : Nat) d, (order ++ [c])[i]? = some d →
      (order[i]? = some d ∧ d ≠ c) ∨ (i = order.length ∧ d = c) := by
    intro i d hd
    refine (getElem?_concat_cases hd).imp_left fun hold => ⟨hold, ?_⟩
    rintro rfl
    exact hc (List.mem_of_getElem? hold)
  exact
    { fd_eq := fun d => hchannel ▸ (h.fields_update ch hfd hevents d).1
      interest := fun d => hchannel ▸ (h.fields_update ch hfd hevents d).2
      nodup := List.nodup_append_comm.mp (List.nodup_cons.mpr ⟨hc, h.nodup⟩)
      length := by rw [hpollfds, List.length_append, List.length_append, h.length]; rfl
      short := by rw [List.length_append]; exact hshort
      entry := by
        intro i d hd
        rcases hat i d hd with ⟨hold, hne⟩ | ⟨rfl, rfl⟩
        · obtain ⟨q, hq, hqe⟩ := h.entry i d hold
          refine ⟨q, ?_, by rw [hother d hne]; exact hqe⟩
          rw [hpollfds, List.getElem?_append_left (List.getElem?_eq_some_iff.mp hq).1]
          exact hq
        · refine ⟨pfd, ?_, by rw [hself]; exact hentry⟩
          rw [hpollfds, ← h.length]
          simp
      index := by
        intro i d hd
        rcases hat i d hd with ⟨hold, hne⟩ | ⟨rfl, rfl⟩
        · rw [hother d hne]
          exact h.index i d hold
        · rw [hself, hindex]
      channels := by
        rw [hchannels]
        exact h.channels_insert hfree
      size := by
        rw [hchannels, size_insert_new hfree, h.size, List.length_append]
        rfl
      gone := by
        intro d hd
        by_cases hdc : d = c
        · exact Or.inl (by rw [hdc]; simp)
        · rw [hother d hdc] at hd
          exact (h.gone d hd).imp (List.mem_append_left _) id }

/-- The entry of a registered channel is rewritten. -/
theorem rewrite {p' : PollPoller ι} {ch : PollChannel} {pfd : PollFd} {i : Nat}
    (h : Table fd p removed order) (hi : order[i]? = some c)
    (hchannel : p'.channel = Function.update p.channel c ch)
    (hpollfds : p'.pollfds_ = p.pollfds_.set i pfd) (hchannels : p'.channels_ = p.channels_)
    (hfd : ch.fd_ = fd c) (hevents : IsInterest ch.events_)
    (hindex : ch.index_ = (p.channel c).index_) (hentry : IsEntry ch pfd) :
    Table fd p' removed order := by
  have hself : p'.channel c = ch := by rw [hchannel, Function.update_self]
  have hother : ∀ d, d ≠ c → p'.channel d = p.channel d := by
    intro d hd
    rw [hchannel, Function.update_of_ne hd]
  have hindices : ∀ d, (p'.channel d).index_ = (p.channel d).index_ := by
    intro d
    by_cases hd : d = c
    · rw [hd, hself, hindex]
    · rw [hother d hd]
  exact
    { fd_eq := fun d => hchannel ▸ (h.fields_update ch hfd hevents d).1
      interest := fun d => hchannel ▸ (h.fields_update ch hfd hevents d).2
      nodup := h.nodup
      length := by rw [hpollfds, List.length_set, h.length]
      short := h.short
      entry := by
        intro j d hd
        obtain ⟨q, hq, hqe⟩ := h.entry j d hd
        have hlt := (List.getElem?_eq_some_iff.mp hq).1
        by_cases hj : i = j
        · subst hj
          rw [hi] at hd
          cases hd
          refine ⟨pfd, ?_, by rw [hself]; exact hentry⟩
          rw [hpollfds, List.getElem?_set_self hlt]
        · -- Another position has another channel.
          have hne : d ≠ c := by
            rintro rfl
            have hlti : i < order.length := (List.getElem?_eq_some_iff.mp hi).1
            exact hj ((List.getElem?_inj hlti h.nodup).mp (hi.trans hd.symm))
          refine ⟨q, ?_, by rw [hother d hne]; exact hqe⟩
          rw [hpollfds, List.getElem?_set_ne hj]
          exact hq
      index := fun j d hd => (hindices d).trans (h.index j d hd)
      channels := by rw [hchannels]; exact h.channels
      size := by rw [hchannels]; exact h.size
      gone := fun d hd => h.gone d (by rw [← hindices d]; exact hd) }

end Table

/-! ### Updating -/

section

variable [DecidableEq ι] {fd : ι → Int} {p : PollPoller ι} {removed order : List ι} {c : ι}

/-- `updateChannel` on a channel that the poller does not know yet, when the
array has a free position. The interest set has just been written. -/
theorem updateChannel_new_eq (h : Table fd p removed order) (ch : PollChannel)
    (hinj : Function.Injective fd) (hc : c ∉ order) (hfd : ch.fd_ = fd c) (hnew : ch.index_ < 0)
    (hroom : lastIndex (order.length + 1) = .ok order.length) :
    (p.setChannel c ch).updateChannel c = .ok
      { channel := Function.update p.channel c { ch with index_ := order.length }
        pollfds_ := p.pollfds_ ++ [⟨fd c, toShort ch.events_, 0#16⟩]
        channels_ := p.channels_.insert (fd c) c } := by
  have hfree := h.lookup_of_notMem hinj hc
  simp only [updateChannel, setChannel, Function.update_self, if_pos hnew, hfd,
    assertThat_pos hfree, ok_bind, List.length_append, List.length_singleton, h.length, hroom,
    except_pure, Function.update_idem]

theorem updateChannel_new_full (h : Table fd p removed order) (ch : PollChannel)
    (hinj : Function.Injective fd) (hc : c ∉ order) (hfd : ch.fd_ = fd c) (hnew : ch.index_ < 0)
    (hroom : lastIndex (order.length + 1) = .error .overflow) :
    (p.setChannel c ch).updateChannel c = .error .overflow := by
  have hfree := h.lookup_of_notMem hinj hc
  simp only [updateChannel, setChannel, Function.update_self, if_pos hnew, hfd,
    assertThat_pos hfree, ok_bind, List.length_append, List.length_singleton, h.length, hroom,
    error_bind]

theorem updateChannel_new (h : Table fd p removed order) (ch : PollChannel)
    (hinj : Function.Injective fd) (hc : c ∉ order) (hfd : ch.fd_ = fd c) (hnew : ch.index_ < 0)
    (hevents : IsInterest ch.events_) :
    Ends ((p.setChannel c ch).updateChannel c)
      (fun f => f = .overflow ∧ p.pollfds_.length + 1 = 2 ^ 31)
      fun p' => Table fd p' removed (order ++ [c]) := by
  cases lastIndex_cases h.short with
  | inl hlast =>
      refine Ends.of_eq_ok (updateChannel_new_eq h ch hinj hc hfd hnew hlast.2) ?_
      exact h.push hc hlast.1 rfl rfl rfl hfd hevents rfl ⟨Or.inl hfd.symm, ofShort_toShort hevents⟩
        (h.lookup_of_notMem hinj hc)
  | inr hlast =>
      refine Ends.of_eq_error (updateChannel_new_full h ch hinj hc hfd hnew hlast.2) ⟨rfl, ?_⟩
      rw [h.length]
      exact hlast.1

/-- `updateChannel` on a registered channel. -/
theorem updateChannel_known_eq (h : Table fd p removed order) (ch : PollChannel) (hc : c ∈ order)
    (hfd : ch.fd_ = fd c) (hindex : ch.index_ = (p.channel c).index_) :
    ∃ i : Nat, order[i]? = some c ∧ (p.setChannel c ch).updateChannel c = .ok
      { p.setChannel c ch with
        pollfds_ := p.pollfds_.set i
          ⟨if ch.isNoneEvent then -fd c - 1 else fd c, toShort ch.events_, 0#16⟩ } := by
  obtain ⟨i, pfd, hi, hentry, hpfd, his⟩ := h.entryOf_eq hc .updateIndex
  have hfds : pfd.fd = fd c ∨ pfd.fd = -fd c - 1 := by
    rw [← h.fd_eq]
    exact his.1
  have hold : ¬ ch.index_ < 0 := by
    have := h.index i c hi
    omega
  have hentry' : (p.setChannel c ch).entryOf c .updateIndex = .ok (i, pfd) := by
    rw [← hentry]
    simp only [entryOf, setChannel, Function.update_self, hindex]
  have hknown : (p.setChannel c ch).assertKnown c .updateUnknown .updateOther = .ok () := by
    rw [← h.assertKnown_eq hc .updateUnknown .updateOther]
    simp only [assertKnown, setChannel, Function.update_self, hfd, h.fd_eq]
  have hself : (p.setChannel c ch).channel c = ch := Function.update_self _ _ _
  refine ⟨i, hi, ?_⟩
  simp only [updateChannel, hself, if_neg hold, hknown, hentry', ok_bind, hfd,
    assertThat_pos hfds, except_pure]
  rfl

theorem updateChannel_known (h : Table fd p removed order) (ch : PollChannel) (hc : c ∈ order)
    (hfd : ch.fd_ = fd c) (hindex : ch.index_ = (p.channel c).index_)
    (hevents : IsInterest ch.events_) :
    Returns ((p.setChannel c ch).updateChannel c) fun p' => Table fd p' removed order := by
  obtain ⟨i, hi, hupdate⟩ := updateChannel_known_eq h ch hc hfd hindex
  refine Ends.of_eq_ok hupdate (h.rewrite hi rfl rfl rfl hfd hevents hindex
    ⟨?_, ofShort_toShort hevents⟩)
  dsimp only
  split
  · exact Or.inr (by rw [hfd])
  · exact Or.inl hfd.symm

/-- An interest operation that returns leaves a table, on the old list or
with the channel at its end. -/
theorem update_spec {s : Use ι} (h : Table fd s.poller s.removed order)
    (hinj : Function.Injective fd) (hc : c ∉ s.removed) (op : Interest) :
    Ends (step s (.update c op))
      (fun f => f = .overflow ∧ s.poller.pollfds_.length + 1 = 2 ^ 31)
      fun s' => ∃ order', Table fd s'.poller s'.removed order' := by
  have hevents := isInterest_apply (h.interest c) op
  have hfd := h.fd_eq c
  let ch : PollChannel :=
    { s.poller.channel c with events_ := op.apply (s.poller.channel c).events_ }
  by_cases hmem : c ∈ order
  · have hspec := updateChannel_known h ch hmem hfd rfl hevents
    refine Ends.bind (hspec.mono (fun _ => False.elim) fun _ hp => hp) ?_
    intro p' hp'
    exact Ends.ok ⟨order, hp'⟩
  · have hnew : (s.poller.channel c).index_ < 0 := by
      by_contra hge
      rcases h.gone c (by omega) with hold | hold
      · exact hmem hold
      · exact hc hold
    refine Ends.bind (updateChannel_new h ch hinj hmem hfd hnew hevents) ?_
    intro p' hp'
    exact Ends.ok ⟨order ++ [c], hp'⟩

/-! ### Removing -/

omit [DecidableEq ι] in
/-- The last element takes the place of `c`: both lists are `c`, `d` and what
stands at the other places. -/
theorem perm_swap {order' : List ι} {i : Nat} (d : ι) (hi : order'[i]? = some c) :
    List.Perm (order' ++ [d]) (c :: order'.set i d) := by
  obtain ⟨hlt, hget⟩ := List.getElem?_eq_some_iff.mp hi
  calc List.Perm (order' ++ [d]) (d :: order') := List.perm_append_singleton d order'
    List.Perm _ (d :: c :: order'.eraseIdx i) :=
        List.Perm.cons d (hget ▸ (List.getElem_cons_eraseIdx_perm hlt).symm)
    List.Perm _ (c :: d :: order'.eraseIdx i) := List.Perm.swap c d _
    List.Perm _ (c :: order'.set i d) :=
        List.Perm.cons c (List.set_perm_cons_eraseIdx hlt d).symm

/-- The last entry takes the place `i` of the removed one. -/
theorem Table.swap {order' : List ι} {d : ι} {pfds : List PollFd} {last : PollFd} {i : Nat}
    (h : Table fd p removed (order' ++ [d])) (hinj : Function.Injective fd)
    (hpfds : p.pollfds_ = pfds ++ [last]) (hlen : pfds.length = order'.length)
    (hlast : IsEntry (p.channel d) last) (hi : order'[i]? = some c) :
    Table fd ⟨Function.update p.channel d { p.channel d with index_ := i }, pfds.set i last,
      p.channels_.erase (fd c)⟩ (c :: removed) (order'.set i d) := by
  have hlt := (List.getElem?_eq_some_iff.mp hi).1
  have hd := h.last_notMem
  have hperm := perm_swap d hi
  have hat : ∀ (j : Nat) e, (order'.set i d)[j]? = some e →
      (j = i ∧ e = d) ∨ (j ≠ i ∧ e ≠ d ∧ j < order'.length ∧ (order' ++ [d])[j]? = some e) := by
    intro j e he
    by_cases hj : j = i
    · subst hj
      rw [List.getElem?_set_self hlt] at he
      exact Or.inl ⟨rfl, (Option.some.inj he).symm⟩
    · rw [List.getElem?_set_ne (Ne.symm hj)] at he
      have hltj := (List.getElem?_eq_some_iff.mp he).1
      refine Or.inr ⟨hj, ?_, hltj, by rw [List.getElem?_append_left hltj, he]⟩
      rintro rfl
      exact hd (List.mem_of_getElem? he)
  have hfields := h.fields_update { p.channel d with index_ := i } (h.fd_eq d) (h.interest d)
  refine h.remove hinj hperm (fun e => (hfields e).1) (fun e => (hfields e).2)
    (by simpa using hlen) ?_ ?_ rfl ?_
  · intro j e he
    rcases hat j e he with ⟨rfl, rfl⟩ | ⟨hj, hne, hltj, hold⟩
    · refine ⟨last, List.getElem?_set_self (by omega), ?_⟩
      simp only [Function.update_self]
      exact hlast
    · obtain ⟨q, hq, hentry⟩ := h.entry j e hold
      rw [hpfds, List.getElem?_append_left (by omega)] at hq
      refine ⟨q, by rw [List.getElem?_set_ne (Ne.symm hj), hq], ?_⟩
      simp only [Function.update_of_ne hne]
      exact hentry
  · intro j e he
    rcases hat j e he with ⟨rfl, rfl⟩ | ⟨hj, hne, -, hold⟩
    · simp only [Function.update_self]
    · simp only [Function.update_of_ne hne]
      exact h.index j e hold
  · intro e he
    by_cases hne : e = d
    · rw [hne, h.index order'.length d (by simp)]
      exact Int.natCast_nonneg _
    · simpa only [Function.update_of_ne hne] using he

/-- The descriptor that an entry stands for, negated or not. -/
theorem decode_fd {fd x : Int} (hfd : 0 ≤ fd) (hx : x = fd ∨ x = -fd - 1) :
    (if x < 0 then -x - 1 else x) = fd := by
  split <;> omega

/-- What `removeChannel` makes of the poller: the last entry goes, or takes
the place of the removed one. -/
inductive Removed (fd : ι → Int) (p : PollPoller ι) (c : ι) (order : List ι) :
    PollPoller ι → Prop where
  | pop (order' : List ι) (pfds : List PollFd) (last : PollFd) (horder : order = order' ++ [c])
      (hpfds : p.pollfds_ = pfds ++ [last]) (hlen : pfds.length = order'.length) :
      Removed fd p c order ⟨p.channel, pfds, p.channels_.erase (fd c)⟩
  | swap (order' : List ι) (d : ι) (pfds : List PollFd) (last : PollFd) (i : Nat)
      (horder : order = order' ++ [d]) (hpfds : p.pollfds_ = pfds ++ [last])
      (hlen : pfds.length = order'.length) (hlast : IsEntry (p.channel d) last)
      (hi : order'[i]? = some c) :
      Removed fd p c order ⟨Function.update p.channel d { p.channel d with index_ := i },
        pfds.set i last, p.channels_.erase (fd c)⟩

/-- `removeChannel` on a registered channel without interest whose entry is
negated. -/
theorem removeChannel_negated (h : Table fd p removed order) (hinj : Function.Injective fd)
    (hfd : ∀ c, 0 ≤ fd c) {i : Nat} {pfd : PollFd} (hnone : (p.channel c).isNoneEvent = true)
    (hi : order[i]? = some c) (hentry : p.entryOf c .removeIndex = .ok (i, pfd))
    (hevents : ofShort pfd.events = (p.channel c).events_) (hneg : pfd.fd = -fd c - 1) :
    ∃ p', p.removeChannel c = .ok p' ∧ Removed fd p c order p' := by
  have hc : c ∈ order := List.mem_of_getElem? hi
  have hlookup : p.channels_[fd c]? = some c := (h.channels _ c).mpr ⟨hc, rfl⟩
  have hsome : p.channels_[fd c]? ≠ none := by rw [hlookup]; simp
  simp only [removeChannel, h.assertKnown_eq hc, hentry, ok_bind, assertThat_pos hnone,
    h.fd_eq c, assertThat_pos (And.intro hneg hevents), assertThat_pos hsome]
  obtain ⟨order', d, pfds, last, rfl, hpfds, hlen, hlast⟩ := h.last hc
  rw [hpfds]
  simp only [List.getLast?_concat, List.length_append, List.length_singleton,
    Nat.add_sub_cancel, List.dropLast_concat]
  by_cases hend : i = pfds.length
  · rw [if_pos hend]
    rw [hend, hlen, List.getElem?_concat_length] at hi
    cases hi
    exact ⟨_, rfl, .pop order' pfds last rfl hpfds hlen⟩
  · rw [if_neg hend]
    have hlt : i < order'.length := by
      have := (List.getElem?_eq_some_iff.mp hi).1
      rw [List.length_append, List.length_singleton] at this
      omega
    rw [List.getElem?_append_left hlt] at hi
    have hdc : d ≠ c := by
      rintro rfl
      exact h.last_notMem (List.mem_of_getElem? hi)
    -- The last entry leads to its channel, which is still in the map.
    have hat : (p.channels_.erase (fd c))[fd d]? = some d := by
      have hne : fd c ≠ fd d := fun heq => hdc (hinj heq).symm
      rw [getElem?_erase_eq, if_neg hne]
      exact (h.channels _ d).mpr ⟨by simp, rfl⟩
    have hfdlast : last.fd = fd d ∨ last.fd = -fd d - 1 := by
      rw [← h.fd_eq]
      exact hlast.1
    have hset : ((pfds ++ [last]).set i last).dropLast = pfds.set i last := by
      rw [List.set_append, if_pos (by omega), List.dropLast_concat]
    simp only [decode_fd (hfd d) hfdlast, setIndexAt, hat, setChannel, ok_bind, except_pure, hset]
    exact ⟨_, rfl, .swap order' d pfds last i rfl hpfds hlen hlast hi⟩

/-- On an entry that was never negated the `assert` of `removeChannel` on
it fails. -/
theorem removeChannel_plain (h : Table fd p removed order)
    {i : Nat} {pfd : PollFd} (hnone : (p.channel c).isNoneEvent = true)
    (hi : order[i]? = some c) (hentry : p.entryOf c .removeIndex = .ok (i, pfd))
    (hneg : pfd.fd ≠ -fd c - 1) : p.removeChannel c = .error .removeIgnored := by
  have hc : c ∈ order := List.mem_of_getElem? hi
  simp only [removeChannel, h.assertKnown_eq hc, hentry, ok_bind, assertThat_pos hnone,
    h.fd_eq c, assertThat_neg (fun hboth => hneg (And.left hboth)), error_bind]

theorem Removed.table {p' : PollPoller ι} (hr : Removed fd p c order p')
    (h : Table fd p removed order) (hinj : Function.Injective fd) :
    ∃ order', Table fd p' (c :: removed) order' := by
  cases hr with
  | pop order' pfds last horder hpfds hlen =>
      subst horder
      exact ⟨order', h.pop hinj hpfds hlen⟩
  | swap order' d pfds last i horder hpfds hlen hlast hi =>
      subst horder
      exact ⟨order'.set i d, h.swap hinj hpfds hlen hlast hi⟩

/-- `removeChannel` on a registered channel without interest. It stops only
when the entry was never negated. -/
theorem removeChannel_spec (h : Table fd p removed order) (hinj : Function.Injective fd)
    (hfd : ∀ c, 0 ≤ fd c) (hc : c ∈ order) (hnone : (p.channel c).isNoneEvent = true) :
    Ends (p.removeChannel c)
      (fun f => f = .removeIgnored ∧ ∃ (i : Nat) (pfd : PollFd), (p.channel c).index_ = i ∧
        p.pollfds_[i]? = some pfd ∧ pfd.fd = fd c)
      fun p' => ∃ order', Table fd p' (c :: removed) order' := by
  obtain ⟨i, pfd, hi, hentry, hpfd, his⟩ := h.entryOf_eq hc .removeIndex
  by_cases hneg : pfd.fd = -fd c - 1
  · obtain ⟨p', hremove, hr⟩ := removeChannel_negated h hinj hfd hnone hi hentry his.2 hneg
    exact Ends.of_eq_ok hremove (hr.table h hinj)
  · refine Ends.of_eq_error (removeChannel_plain h hnone hi hentry hneg)
      ⟨rfl, i, pfd, h.index i c hi, hpfd, ?_⟩
    rw [← h.fd_eq] at hneg ⊢
    exact his.1.resolve_right hneg

end

/-! ### Polling -/

variable {fd : ι → Int} {p : PollPoller ι} {removed order : List ι} {c : ι}

/-- The channels of `order` whose entries have events. -/
def activeOf (order : List ι) (pfds : List PollFd) : List ι :=
  ((order.zip pfds).filter fun x => 0 < x.2.revents.toInt).map Prod.fst

theorem mem_activeOf {pfds : List PollFd} :
    c ∈ activeOf order pfds ↔
      ∃ (i : Nat) (pfd : PollFd), order[i]? = some c ∧ pfds[i]? = some pfd ∧
        0 < pfd.revents.toInt := by
  simp only [activeOf, List.mem_map, List.mem_filter, decide_eq_true_eq]
  constructor
  · rintro ⟨x, ⟨hx, hpos⟩, rfl⟩
    obtain ⟨i, hi⟩ := List.mem_iff_getElem?.mp hx
    obtain ⟨hc, hpfd⟩ := List.getElem?_zip_eq_some.mp hi
    exact ⟨i, x.2, hc, hpfd, hpos⟩
  · rintro ⟨i, pfd, hc, hpfd, hpos⟩
    refine ⟨(c, pfd), ⟨?_, hpos⟩, rfl⟩
    exact List.mem_of_getElem? (List.getElem?_zip_eq_some.mpr ⟨hc, hpfd⟩)

theorem nodup_activeOf {pfds : List PollFd} (hlen : pfds.length = order.length)
    (hnodup : order.Nodup) : (activeOf order pfds).Nodup := by
  have hsub : (activeOf order pfds).Sublist ((order.zip pfds).map Prod.fst) :=
    List.filter_sublist.map Prod.fst
  rw [List.map_fst_zip (by omega)] at hsub
  exact hsub.nodup hnodup

theorem activeOf_eq_nil {pfds : List PollFd} (h : ¬ 0 < numEvents pfds) :
    activeOf order pfds = [] := by
  rw [List.eq_nil_iff_forall_not_mem]
  intro c hc
  obtain ⟨i, pfd, -, hpfd, hpos⟩ := mem_activeOf.mp hc
  apply h
  rw [numEvents, Int.natCast_pos, List.countP_pos_iff]
  exact ⟨pfd, List.mem_of_getElem? hpfd, by simpa using hpos⟩

theorem numEvents_cons (pfd : PollFd) (pfds : List PollFd) :
    numEvents (pfd :: pfds) = numEvents pfds + if 0 < pfd.revents.toInt then 1 else 0 := by
  simp only [numEvents, List.countP_cons, decide_eq_true_eq]
  split <;> simp

/-- The entry of `c` in an answer of the kernel. -/
def Answered (fd : ι → Int) (c : ι) (pfd : PollFd) : Prop :=
  (pfd.fd = fd c ∨ pfd.fd = -fd c - 1) ∧ (pfd.fd < 0 → pfd.revents = 0#16)

/-- An entry with events is not negated. -/
theorem Answered.fd_eq {pfd : PollFd} (h : Answered fd c pfd) (hfd : 0 ≤ fd c)
    (hpos : 0 < pfd.revents.toInt) : pfd.fd = fd c := by
  refine h.1.resolve_right ?_
  intro hneg
  rw [h.2 (by omega)] at hpos
  exact absurd hpos (by decide)

variable [DecidableEq ι]

/-- The loop of `fillActiveChannels`, over a part of the table: it takes
the channels of this part whose entries have events. -/
theorem fillLoop_spec (hfd : ∀ c, 0 ≤ fd c) {order' : List ι} {pfds : List PollFd}
    (hpart : List.Forall₂ (Answered fd) order' pfds) (hsub : order' ⊆ order) :
    ∀ {p : PollPoller ι}, Table fd p removed order → ∀ active : List ι,
      Returns (fillLoop pfds (numEvents pfds) p active) fun r =>
        Table fd r.1 removed order ∧ r.1.pollfds_ = p.pollfds_ ∧
          r.2 = active ++ activeOf order' pfds := by
  induction hpart with
  | nil =>
      intro p h active
      exact Ends.ok ⟨h, rfl, (List.append_nil _).symm⟩
  | @cons c pfd order' pfds hc _ ih =>
      intro p h active
      obtain ⟨hmem, hsub⟩ := List.cons_subset.mp hsub
      rw [fillLoop]
      by_cases hn : 0 < numEvents (pfd :: pfds)
      · rw [if_pos hn]
        by_cases hpos : 0 < pfd.revents.toInt
        · have hlookup : p.channels_[pfd.fd]? = some c := by
            rw [hc.fd_eq (hfd c) hpos]
            exact (h.channels _ c).mpr ⟨hmem, rfl⟩
          have hsame : (p.channel c).fd_ = pfd.fd := by
            rw [h.fd_eq, hc.fd_eq (hfd c) hpos]
          have hcount : numEvents (pfd :: pfds) - 1 = numEvents pfds := by
            rw [numEvents_cons, if_pos hpos]
            omega
          rw [if_pos hpos, hlookup]
          simp only [assertThat_pos hsame, ok_bind, hcount]
          have htable : Table fd
              (p.setChannel c { p.channel c with revents_ := ofShort pfd.revents })
              removed order := by
            refine h.congr ?_ rfl (fun _ q hq => ⟨q, hq, rfl, rfl⟩) rfl
            intro d
            by_cases hd : d = c
            · subst hd
              simp only [setChannel, Function.update_self, and_self]
            · simp only [setChannel, Function.update_of_ne hd, and_self]
          refine (ih hsub htable (active ++ [c])).imp ?_
          rintro r ⟨hr, hpfds, hactive⟩
          refine ⟨hr, hpfds, ?_⟩
          rw [hactive, List.append_assoc]
          simp [activeOf, hpos]
        · have hcount : numEvents (pfd :: pfds) = numEvents pfds := by
            rw [numEvents_cons, if_neg hpos]
            omega
          rw [if_neg hpos, hcount]
          refine (ih hsub h active).imp ?_
          rintro r ⟨hr, hpfds, hactive⟩
          refine ⟨hr, hpfds, ?_⟩
          rw [hactive]
          simp [activeOf, hpos]
      · rw [if_neg hn]
        exact Ends.ok ⟨h, rfl, by rw [activeOf_eq_nil hn, List.append_nil]⟩

/-- What the kernel has written, entry by entry. -/
theorem answer_getElem? {pfds : List PollFd} {reply : List (BitVec 16)}
    (h : kernelAnswers pfds reply = true) {i : Nat} {pfd : PollFd} (hpfd : pfds[i]? = some pfd) :
    ∃ revents, (answer pfds reply)[i]? = some { pfd with revents := revents } ∧
      (pfd.fd < 0 → revents = 0#16) := by
  simp only [kernelAnswers, Bool.and_eq_true, beq_iff_eq, List.all_eq_true,
    decide_eq_true_eq] at h
  obtain ⟨hlen, hneg⟩ := h
  have hlt := (List.getElem?_eq_some_iff.mp hpfd).1
  have hrev : reply[i]? = some reply[i] := List.getElem?_eq_getElem (by omega)
  refine ⟨reply[i], ?_, ?_⟩
  · rw [answer, List.getElem?_zipWith, hpfd, hrev]
  · exact hneg (pfd, reply[i]) (List.mem_of_getElem? (List.getElem?_zip_eq_some.mpr ⟨hpfd, hrev⟩))

/-- `poll` keeps the table, and lists the channels whose entries have
events. -/
theorem poll_spec (h : Table fd p removed order) (hfd : ∀ c, 0 ≤ fd c)
    {reply : List (BitVec 16)} (hanswer : kernelAnswers p.pollfds_ reply = true) :
    Returns (p.poll reply) fun r =>
      Table fd r.1 removed order ∧ r.2 = activeOf order r.1.pollfds_ := by
  have hlen : (answer p.pollfds_ reply).length = p.pollfds_.length := by
    simp only [kernelAnswers, Bool.and_eq_true, beq_iff_eq] at hanswer
    rw [answer, List.length_zipWith, hanswer.1, Nat.min_self]
  have htable : Table fd { p with pollfds_ := answer p.pollfds_ reply } removed order := by
    refine h.congr (fun _ => ⟨rfl, rfl, rfl⟩) hlen ?_ rfl
    intro i pfd hpfd
    obtain ⟨revents, hnew, -⟩ := answer_getElem? hanswer hpfd
    exact ⟨_, hnew, rfl, rfl⟩
  have hpart : List.Forall₂ (Answered fd) order (answer p.pollfds_ reply) := by
    refine List.forall₂_iff_get.mpr ⟨by rw [hlen, h.length], ?_⟩
    intro i hi hi'
    have hget : order[i]? = some (order.get ⟨i, hi⟩) := List.getElem?_eq_getElem hi
    obtain ⟨pfd, hpfd, hentry⟩ := h.entry i _ hget
    obtain ⟨revents, hnew, hneg⟩ := answer_getElem? hanswer hpfd
    have heq : (answer p.pollfds_ reply).get ⟨i, hi'⟩ = { pfd with revents := revents } := by
      rw [List.get_eq_getElem]
      exact (List.getElem?_eq_some_iff.mp hnew).2
    rw [heq]
    refine ⟨?_, hneg⟩
    have := hentry.1
    rwa [h.fd_eq] at this
  rw [poll]
  simp only
  split
  · refine (fillLoop_spec hfd hpart (List.Subset.refl _) htable []).imp ?_
    rintro r ⟨hr, hpfds, hactive⟩
    exact ⟨hr, by rw [hactive, hpfds]; rfl⟩
  · rename_i hn
    exact Ends.ok ⟨htable, (activeOf_eq_nil hn).symm⟩

/-! ### Runs -/

/-- The faults that a step can stop with. An `int` overflows when the array
has all the positions of an `int`, and the `assert` of `removeChannel` on
the entry fails when the entry was never negated. -/
def MayFault (s : Use ι) : Event ι → Fault → Prop
  | .update _ _, f => f = .overflow ∧ s.poller.pollfds_.length + 1 = 2 ^ 31
  | .remove c, f => f = .removeIgnored ∧ ∃ (i : Nat) (pfd : PollFd),
      (s.poller.channel c).index_ = i ∧ s.poller.pollfds_[i]? = some pfd ∧
        pfd.fd = (s.poller.channel c).fd_
  | .poll _, _ => False

/-- The active channels are the registered ones whose entries have events,
each once. -/
def ListsActive (s : Use ι) : Prop :=
  s.activeChannels_.Nodup ∧ ∀ c, c ∈ s.activeChannels_ ↔
    s.poller.registered c = true ∧ ∃ (i : Nat) (pfd : PollFd),
      (s.poller.channel c).index_ = i ∧ s.poller.pollfds_[i]? = some pfd ∧
        0 < pfd.revents.toInt

theorem listsActive_of_table {s : Use ι} (h : Table fd s.poller s.removed order)
    (hactive : s.activeChannels_ = activeOf order s.poller.pollfds_) : ListsActive s := by
  refine ⟨by rw [hactive]; exact nodup_activeOf h.length h.nodup, ?_⟩
  intro c
  rw [hactive, mem_activeOf, h.registered_iff]
  constructor
  · rintro ⟨i, pfd, hi, hpfd, hpos⟩
    exact ⟨List.mem_of_getElem? hi, i, pfd, h.index i c hi, hpfd, hpos⟩
  · rintro ⟨hc, i, pfd, hidx, hpfd, hpos⟩
    obtain ⟨j, -, hj, hidx', -⟩ := h.at_of_mem hc
    have hij : i = j := by omega
    exact ⟨i, pfd, hij ▸ hj, hpfd, hpos⟩

/-- What a step does to the table. -/
theorem step_spec {s : Use ι} (h : Table fd s.poller s.removed order)
    (hinj : Function.Injective fd) (hfd : ∀ c, 0 ≤ fd c) {e : Event ι}
    (hen : enabled s e = true) :
    Ends (step s e) (MayFault s e) fun s' =>
      (∃ order', Table fd s'.poller s'.removed order') ∧
        ∀ reply, e = .poll reply → ListsActive s' := by
  cases e with
  | update c op =>
      simp only [enabled, Bool.not_eq_true', List.contains_eq_mem, decide_eq_false_iff_not] at hen
      refine (update_spec h hinj hen op).imp ?_
      intro s' hs'
      exact ⟨hs', fun reply he => by cases he⟩
  | remove c =>
      simp only [enabled, Bool.and_eq_true, h.registered_iff] at hen
      obtain ⟨⟨-, hc⟩, hnone⟩ := hen
      refine Ends.bind ((removeChannel_spec h hinj hfd hc hnone).mono ?_ fun _ hp => hp) ?_
      · rintro f ⟨rfl, i, pfd, hidx, hpfd, hfdc⟩
        exact ⟨rfl, i, pfd, hidx, hpfd, hfdc.trans (h.fd_eq c).symm⟩
      · intro p' hp'
        exact Ends.ok ⟨hp', fun reply he => by cases he⟩
  | poll reply =>
      refine Ends.bind (poll_spec h hfd hen) ?_
      rintro ⟨p', active⟩ ⟨htable, hactive⟩
      refine Ends.ok ⟨⟨order, htable⟩, ?_⟩
      intro _ _
      exact listsActive_of_table htable hactive

/-- Every run has a table. -/
theorem table_of_run (hinj : Function.Injective fd) (hfd : ∀ c, 0 ≤ fd c)
    {es : List (Event ι)} {s : Use ι} (hrun : (machine ι).Run (init fd) es s) :
    ∃ order, Table fd s.poller s.removed order := by
  refine Machine.Run.invariant (I := fun t => ∃ order, Table fd t.poller t.removed order)
    ⟨[], table_init⟩ ?_ hrun
  rintro t e u ⟨order, h⟩ hen hstep
  exact ((step_spec h hinj hfd hen).post hstep).1

/-- The table of `PollPoller`, over every run. The channels have distinct
non-negative descriptors, a channel is removed when it is registered and
has no interest, and a removed channel is not used again. Then the array
and the map have the same size. The map leads from a descriptor to the
channel that has it, whose position is valid and whose entry there has its
descriptor, negated or not, and its interest set. Registered channels have
different positions. The next step stops only as `MayFault` says, and a
`poll` lists the channels whose entries have events, each once. -/
theorem table_consistent (hinj : Function.Injective fd) (hfd : ∀ c, 0 ≤ fd c)
    {es : List (Event ι)} {s : Use ι} (hrun : (machine ι).Run (init fd) es s) :
    s.poller.pollfds_.length = s.poller.channels_.size ∧
      (∀ (k : Int) c, s.poller.channels_[k]? = some c →
        (s.poller.channel c).fd_ = k ∧ ∃ (i : Nat) (pfd : PollFd),
          (s.poller.channel c).index_ = i ∧ s.poller.pollfds_[i]? = some pfd ∧
            (pfd.fd = k ∨ pfd.fd = -k - 1) ∧
            ofShort pfd.events = (s.poller.channel c).events_) ∧
      (∀ (k l : Int) c d, s.poller.channels_[k]? = some c → s.poller.channels_[l]? = some d → c ≠ d →
        (s.poller.channel c).index_ ≠ (s.poller.channel d).index_) ∧
      ∀ e, (machine ι).enabled s e →
        Ends ((machine ι).step s e) (MayFault s e) fun s' =>
          ∀ reply, e = .poll reply → ListsActive s' := by
  obtain ⟨order, h⟩ := table_of_run hinj hfd hrun
  refine ⟨h.length.trans h.size.symm, ?_, ?_, ?_⟩
  · intro k c hc
    obtain ⟨hmem, rfl⟩ := (h.channels k c).mp hc
    obtain ⟨i, pfd, -, hidx, hpfd, hfds, hevents⟩ := h.at_of_mem hmem
    rw [h.fd_eq] at hfds
    exact ⟨h.fd_eq c, i, pfd, hidx, hpfd, hfds, hevents⟩
  · intro k l c d hc hd hne heq
    obtain ⟨i, -, hi, hidx, -⟩ := h.at_of_mem ((h.channels k c).mp hc).1
    obtain ⟨j, -, hj, hjdx, -⟩ := h.at_of_mem ((h.channels l d).mp hd).1
    have hij : i = j := by omega
    rw [hij, hj] at hi
    exact hne (Option.some.inj hi).symm
  · intro e hen
    exact (step_spec h hinj hfd hen).imp fun s' hs' => hs'.2

/-- Three channels are registered. The first one is removed, so that the
last one takes its place, and then the kernel has an event for it. -/
theorem table_consistent_after_swap :
    ∃ s, (machine (Fin 3)).Run (init fun c => (c.val : Int) + 5)
        [.update 0 .enableReading, .update 1 .enableReading, .update 2 .enableWriting,
          .update 2 .disableAll, .update 0 .disableAll, .remove 0,
          .update 2 .enableReading, .poll [1#16, 0#16]] s ∧
      ((s.poller.channel 2).index_ = 0 ∧ s.activeChannels_ = [2]) ∧
      s.poller.pollfds_.length = s.poller.channels_.size := by
  have hinj : Function.Injective fun c : Fin 3 => (c.val : Int) + 5 := by
    intro c d heq
    have hval : (c.val : Int) + 5 = (d.val : Int) + 5 := heq
    exact Fin.ext (by omega)
  have hexec : ((machine (Fin 3)).exec (init fun c => (c.val : Int) + 5)
      [.update 0 .enableReading, .update 1 .enableReading, .update 2 .enableWriting,
        .update 2 .disableAll, .update 0 .disableAll, .remove 0,
        .update 2 .enableReading, .poll [1#16, 0#16]]).map
      (fun s => ((s.poller.channel 2).index_, s.activeChannels_)) = some (0, [2]) := by
    decide +kernel
  obtain ⟨s, hrun, hfinal⟩ := Machine.exists_run_of_exec hexec
  obtain ⟨hidx, hactive⟩ := Prod.mk.inj hfinal
  exact ⟨s, hrun, ⟨hidx, hactive⟩, (table_consistent hinj (fun c => by omega) hrun).1⟩

end Muduo.Net.PollPoller
