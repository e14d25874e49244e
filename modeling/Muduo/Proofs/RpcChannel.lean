import Muduo.Lib.OrderedMap
import Muduo.Lib.Outcome
import Muduo.Lib.Slice
import Muduo.Net.RpcChannel

/-!
# `Muduo.Proofs.RpcChannel`: every call is completed once

The ids of the calls are `1, 2, 3, …` in the order of `incrementAndGet`, so
they are distinct until the counter overflows.

`Place` says where the response object of a call is: with the thread in
`CallMethod`, in `outstandings_`, with the loop thread, or released. Each
place fixes the `story` of the call, the part of the log about its response
object and its closure. A completed call has the story of one `RESPONSE`
with its id: the response object is filled from that message, the closure
runs, the response object is released. Every step moves one call from one
place to the next one, and `Place.frame` keeps the others where they are.

`Muduo.Proofs.RpcMatching` has the other role of the channel, and the runs.
-/

set_option autoImplicit false

namespace Muduo.Net.RpcChannel

open Muduo.Lib

/-! ### The story of a call -/

/-- The effect is on the response object or the closure of this call. -/
def Effect.concerns (c : Call) : Effect → Bool
  | .filled response _ _ => response == c.response
  | .ran done _ => c.done == some done
  | .released response => response == c.response
  | .deleted done => c.done == some done
  | .registered _ | .sent _ | .answered _ _ => false

/-- What has happened to the response object and the closure of a call. -/
def story (c : Call) (log : List Effect) : List Effect := log.filter (Effect.concerns c)

def fillOf (c : Call) (number : Nat) (message : RpcMessage) : List Effect :=
  (message.response.map fun bytes => Effect.filled c.response bytes number).toList

def runOf (c : Call) (number : Nat) : List Effect :=
  (c.done.map fun done => Effect.ran done number).toList

/-- What a `RESPONSE` does with a call. -/
def completion (c : Call) (number : Nat) (message : RpcMessage) : List Effect :=
  fillOf c number message ++ runOf c number ++ [.released c.response]

/-- What the destructor does with a call. -/
def abandonment (c : Call) : List Effect :=
  .released c.response :: (c.done.map Effect.deleted).toList

/-- The part of `completion` that is done. -/
def Progress.upTo (c : Call) (number : Nat) (message : RpcMessage) : Progress → List Effect
  | .found => []
  | .filled => fillOf c number message
  | .ran => fillOf c number message ++ runOf c number

/-- Message `number` is a `RESPONSE` with the id of the call. -/
structure Answers (s : RpcChannel) (c : Call) (number : Nat) (message : RpcMessage) : Prop where
  received : s.received[number]? = some message
  type : message.type = .RESPONSE
  id : message.id.toInt = c.id

/-- The loop thread's work on this call. -/
def handlingOf (s : RpcChannel) (c : Call) : Option Handling :=
  s.handling.filter fun h => h.response == c.response

/-- Where the response object of a call is, by the stage of its thread. -/
inductive Place (s : RpcChannel) (stage : Stage) (c : Call) : Prop where
  | thread : stage = .numbered → s.outstandings_[c.id]? = none → handlingOf s c = none →
      story c s.log = [] → Place s stage c
  | map : stage ≠ .numbered → s.outstandings_[c.id]? = some ⟨some c.response, c.done⟩ →
      handlingOf s c = none → story c s.log = [] → Place s stage c
  | loop (h : Handling) : stage ≠ .numbered → s.outstandings_[c.id]? = none →
      handlingOf s c = some h → h.done = c.done → Answers s c h.number h.message →
      story c s.log = h.progress.upTo c h.number h.message → Place s stage c
  | completed (number : Nat) (message : RpcMessage) : stage ≠ .numbered →
      s.outstandings_[c.id]? = none → handlingOf s c = none → Answers s c number message →
      story c s.log = completion c number message → Place s stage c
  | abandoned : stage ≠ .numbered → s.outstandings_[c.id]? = none → handlingOf s c = none →
      s.destroyed = true → story c s.log = abandonment c → Place s stage c

/-- Two calls share a response object or a closure. -/
def Shares (c d : Call) : Prop :=
  c.response = d.response ∨ ∃ done, c.done = some done ∧ d.done = some done

/-- The channel as a client. -/
structure Client (s : RpcChannel) : Prop where
  ids : ∀ (i : Nat) c, s.calls[i]? = some c → c.id = i + 1
  counter : s.id_ = s.calls.length
  small : (s.calls.length : Int) < 2 ^ 63
  apart : ∀ (i j : Nat) c d, s.calls[i]? = some c → s.calls[j]? = some d → Shares c d → i = j
  entries : ∀ k out, s.outstandings_[k]? = some out →
    ∃ (i : Nat) (c : Call), s.calls[i]? = some c ∧ c.id = k ∧ out = ⟨some c.response, c.done⟩
  handled : ∀ h, s.handling = some h →
    ∃ (i : Nat) (c : Call), s.calls[i]? = some c ∧ c.response = h.response
  known : ∀ e ∈ s.log, ∀ c, e.concerns c = true →
    ∃ (i : Nat) (d : Call), s.calls[i]? = some d ∧ Shares d c
  place : ∀ (i : Nat) c, s.calls[i]? = some c → Place s (s.stage i) c
  unused : ∀ i, s.calls.length ≤ i → s.stage i = .numbered
  registered : ∀ (i : Nat) c, s.calls[i]? = some c → s.stage i ≠ .numbered →
    Effect.registered c.id ∈ s.log
  sent : ∀ before m after, s.log = before ++ .sent m :: after →
    ∃ (i : Nat) (c : Call), s.calls[i]? = some c ∧ m = c.message ∧
      Effect.registered c.id ∈ before

/-! ### Small lemmas -/

variable {s s' : RpcChannel} {c d : Call}

theorem story_append (c : Call) (log es : List Effect) :
    story c (log ++ es) = story c log ++ es.filter (Effect.concerns c) := by
  rw [story, List.filter_append]
  rfl

theorem Shares.symm (h : Shares c d) : Shares d c := by
  cases h with
  | inl hresponse => exact Or.inl hresponse.symm
  | inr hdone =>
      obtain ⟨done, hc, hd⟩ := hdone
      exact Or.inr ⟨done, hd, hc⟩

/-- An effect on one call is not one on a call that shares nothing with
it. -/
theorem Effect.shares_of_concerns {e : Effect} (hc : e.concerns c = true)
    (hd : e.concerns d = true) : Shares c d := by
  cases e with
  | filled response bytes number =>
      simp only [Effect.concerns, beq_iff_eq] at hc hd
      exact Or.inl (hc.symm.trans hd)
  | ran done number =>
      simp only [Effect.concerns, beq_iff_eq] at hc hd
      exact Or.inr ⟨done, hc, hd⟩
  | released response =>
      simp only [Effect.concerns, beq_iff_eq] at hc hd
      exact Or.inl (hc.symm.trans hd)
  | deleted done =>
      simp only [Effect.concerns, beq_iff_eq] at hc hd
      exact Or.inr ⟨done, hc, hd⟩
  | registered id => cases hc
  | sent message => cases hc
  | answered number message => cases hc

/-- A call stays where it is when nothing about it changes. -/
theorem Place.frame {stage : Stage} (h : Place s stage c)
    (hmap : s'.outstandings_[c.id]? = s.outstandings_[c.id]?)
    (hhandling : handlingOf s' c = handlingOf s c) (hstory : story c s'.log = story c s.log)
    (hreceived : s.received <+: s'.received)
    (hdestroyed : s.destroyed = true → s'.destroyed = true) : Place s' stage c := by
  have hanswers : ∀ {n m}, Answers s c n m → Answers s' c n m := by
    intro n m ha
    obtain ⟨rest, hrest⟩ := hreceived
    have hget : s'.received[n]? = some m := by
      rw [← hrest, List.getElem?_append_left (List.getElem?_eq_some_iff.mp ha.received).1]
      exact ha.received
    exact ⟨hget, ha.type, ha.id⟩
  cases h with
  | thread hstage hm hh hs =>
      exact .thread hstage (hmap.trans hm) (hhandling.trans hh) (hstory.trans hs)
  | map hstage hm hh hs =>
      exact .map hstage (hmap.trans hm) (hhandling.trans hh) (hstory.trans hs)
  | loop h hstage hm hh hdone ha hs =>
      exact .loop h hstage (hmap.trans hm) (hhandling.trans hh) hdone (hanswers ha)
        (hstory.trans hs)
  | completed n m hstage hm hh ha hs =>
      exact .completed n m hstage (hmap.trans hm) (hhandling.trans hh) (hanswers ha)
        (hstory.trans hs)
  | abandoned hstage hm hh hd hs =>
      exact .abandoned hstage (hmap.trans hm) (hhandling.trans hh) (hdestroyed hd)
        (hstory.trans hs)

/-- An element that was not added is in the old part of a list. -/
theorem split_of_notMem {α : Type} {l es before after : List α} {x : α} (hx : x ∉ es)
    (h : l ++ es = before ++ x :: after) : ∃ rest, l = before ++ x :: rest := by
  cases List.append_eq_append_iff.mp h with
  | inl hcase =>
      obtain ⟨mid, -, hes⟩ := hcase
      have hmem : x ∈ es := by
        rw [hes]
        exact List.mem_append_right _ List.mem_cons_self
      exact absurd hmem hx
  | inr hcase =>
      obtain ⟨mid, hl, hmid⟩ := hcase
      cases mid with
      | nil =>
          have hmem : x ∈ es := by
            rw [List.nil_append] at hmid
            rw [← hmid]
            exact List.mem_cons_self
          exact absurd hmem hx
      | cons y mid =>
          rw [List.cons_append] at hmid
          obtain ⟨rfl, -⟩ := List.cons.inj hmid
          exact ⟨mid, hl⟩

theorem handlingOf_eq_none (h : ∀ x, s.handling = some x → x.response ≠ c.response) :
    handlingOf s c = none := by
  rw [handlingOf]
  cases hx : s.handling with
  | none => rfl
  | some x => simp [h x hx]

theorem handlingOf_eq_some {x : Handling} (h : s.handling = some x)
    (hx : x.response = c.response) : handlingOf s c = some x := by
  simp [handlingOf, h, hx]

namespace Client

variable {i : Nat} {es : List Effect}

/-- The other calls have other response objects, other closures and other
ids. -/
theorem other (h : Client s) (hi : s.calls[i]? = some c) {j : Nat} (hj : s.calls[j]? = some d)
    (hne : i ≠ j) : ¬ Shares c d ∧ c.id ≠ d.id := by
  have hci := h.ids i c hi
  have hdj := h.ids j d hj
  exact ⟨fun hshares => hne (h.apart i j c d hi hj hshares), by omega⟩

/-- What `outstandings_` has under the id of a call is that call. -/
theorem entry (h : Client s) (hi : s.calls[i]? = some c) {out : OutstandingCall}
    (hout : s.outstandings_[c.id]? = some out) : out = ⟨some c.response, c.done⟩ := by
  obtain ⟨j, d, hj, hid, heq⟩ := h.entries c.id out hout
  have hci := h.ids i c hi
  have hdj := h.ids j d hj
  have hij : i = j := by omega
  subst hij
  rw [hi] at hj
  cases hj
  exact heq

/-- A call in `outstandings_` is registered, and nothing has happened to
it. -/
theorem waiting (h : Client s) (hi : s.calls[i]? = some c) {out : OutstandingCall}
    (hout : s.outstandings_[c.id]? = some out) :
    s.stage i ≠ .numbered ∧ story c s.log = [] := by
  cases h.place i c hi with
  | map hne _ _ hs => exact ⟨hne, hs⟩
  | thread _ hm _ _ =>
      rw [hout] at hm
      cases hm
  | loop _ _ hm _ _ _ _ =>
      rw [hout] at hm
      cases hm
  | completed _ _ _ hm _ _ _ =>
      rw [hout] at hm
      cases hm
  | abandoned _ hm _ _ _ =>
      rw [hout] at hm
      cases hm

/-- A step that no call notices. -/
theorem quiet (h : Client s) (hcalls : s'.calls = s.calls) (hid : s'.id_ = s.id_)
    (hmap : s'.outstandings_ = s.outstandings_) (hhandling : s'.handling = s.handling)
    (hstage : s'.stage = s.stage) (hlog : s'.log = s.log ++ es)
    (hes : ∀ e ∈ es, ∀ c, e.concerns c = false) (hsent : ∀ m, Effect.sent m ∉ es)
    (hreceived : s.received <+: s'.received) (hdestroyed : s'.destroyed = s.destroyed) :
    Client s' where
  ids := by rw [hcalls]; exact h.ids
  counter := by rw [hcalls, hid]; exact h.counter
  small := by rw [hcalls]; exact h.small
  apart := by rw [hcalls]; exact h.apart
  entries := by rw [hcalls, hmap]; exact h.entries
  handled := by rw [hcalls, hhandling]; exact h.handled
  known e he c hc := by
    rw [hlog] at he
    rw [hcalls]
    cases List.mem_append.mp he with
    | inl hold => exact h.known e hold c hc
    | inr hnew =>
        rw [hes e hnew c] at hc
        cases hc
  place i c hi := by
    rw [hcalls] at hi
    rw [hstage]
    have hnone : es.filter (Effect.concerns c) = [] := by
      rw [List.filter_eq_nil_iff]
      intro e he
      rw [hes e he c]
      decide
    have hstory : story c s'.log = story c s.log := by
      rw [hlog, story_append, hnone, List.append_nil]
    exact (h.place i c hi).frame (by rw [hmap]) (by rw [handlingOf, hhandling]; rfl) hstory
      hreceived (by rw [hdestroyed]; exact id)
  unused := by rw [hcalls, hstage]; exact h.unused
  registered i c hi hne := by
    rw [hcalls] at hi
    rw [hstage] at hne
    rw [hlog]
    exact List.mem_append_left _ (h.registered i c hi hne)
  sent before m after heq := by
    rw [hlog] at heq
    rw [hcalls]
    obtain ⟨rest, hold⟩ := split_of_notMem (hsent m) heq
    exact h.sent before m rest hold

/-- A step with the call `i`, of its thread or of the loop thread. -/
theorem move (h : Client s) (hi : s.calls[i]? = some c) (hcalls : s'.calls = s.calls)
    (hid : s'.id_ = s.id_) (hlog : s'.log = s.log ++ es)
    (hes : ∀ e ∈ es, ∀ d, e.concerns d = true → Shares c d)
    (hmap : ∀ k, k ≠ c.id → s'.outstandings_[k]? = s.outstandings_[k]?)
    (hown : ∀ out, s'.outstandings_[c.id]? = some out → out = ⟨some c.response, c.done⟩)
    (hhandling : ∀ d, ¬ Shares c d → handlingOf s' d = handlingOf s d)
    (hhandled : ∀ x, s'.handling = some x → s.handling = some x ∨ c.response = x.response)
    (hstage : ∀ j, j ≠ i → s'.stage j = s.stage j) (hreceived : s.received <+: s'.received)
    (hdestroyed : s'.destroyed = s.destroyed) (hplace : Place s' (s'.stage i) c)
    (hregistered : s'.stage i ≠ .numbered → Effect.registered c.id ∈ s'.log)
    (hsent : ∀ m, Effect.sent m ∈ es → es = [.sent m] ∧ m = c.message ∧
      Effect.registered c.id ∈ s.log) : Client s' where
  ids := by rw [hcalls]; exact h.ids
  counter := by rw [hcalls, hid]; exact h.counter
  small := by rw [hcalls]; exact h.small
  apart := by rw [hcalls]; exact h.apart
  entries k out hout := by
    rw [hcalls]
    by_cases hk : k = c.id
    · subst hk
      exact ⟨i, c, hi, rfl, hown out hout⟩
    · exact h.entries k out ((hmap k hk).symm.trans hout)
  handled x hx := by
    rw [hcalls]
    cases hhandled x hx with
    | inl hold => exact h.handled x hold
    | inr hnew => exact ⟨i, c, hi, hnew⟩
  known e he d hd := by
    rw [hlog] at he
    rw [hcalls]
    cases List.mem_append.mp he with
    | inl hold => exact h.known e hold d hd
    | inr hnew => exact ⟨i, c, hi, hes e hnew d hd⟩
  place j d hj := by
    rw [hcalls] at hj
    by_cases hij : i = j
    · subst hij
      rw [hi] at hj
      cases hj
      exact hplace
    · obtain ⟨hapart, hne⟩ := h.other hi hj hij
      -- Nothing in this step is about the call `d`.
      have hnone : es.filter (Effect.concerns d) = [] := by
        rw [List.filter_eq_nil_iff]
        intro e he hd
        exact hapart (hes e he d hd)
      have hstory : story d s'.log = story d s.log := by
        rw [hlog, story_append, hnone, List.append_nil]
      rw [hstage j (Ne.symm hij)]
      exact (h.place j d hj).frame (hmap d.id hne.symm) (hhandling d hapart) hstory hreceived
        (by rw [hdestroyed]; exact id)
  unused j hj := by
    rw [hcalls] at hj
    have hlt := (List.getElem?_eq_some_iff.mp hi).1
    rw [hstage j (by omega)]
    exact h.unused j hj
  registered j d hj hne := by
    rw [hcalls] at hj
    by_cases hij : j = i
    · subst hij
      rw [hi] at hj
      cases hj
      exact hregistered hne
    · rw [hstage j hij] at hne
      rw [hlog]
      exact List.mem_append_left _ (h.registered j d hj hne)
  sent before m after heq := by
    rw [hlog] at heq
    rw [hcalls]
    by_cases hm : Effect.sent m ∈ es
    · obtain ⟨rfl, hmessage, hreg⟩ := hsent m hm
      -- The new entry is the last one, or an equal one is in the old log.
      cases List.eq_nil_or_concat' after with
      | inl hnil =>
          subst hnil
          have hbefore : s.log = before := (List.append_inj' heq rfl).1
          exact ⟨i, c, hi, hmessage, hbefore ▸ hreg⟩
      | inr hconcat =>
          obtain ⟨init, last, rfl⟩ := hconcat
          rw [← List.cons_append, ← List.append_assoc] at heq
          exact h.sent before m init (List.append_inj' heq rfl).1
    · obtain ⟨rest, hold⟩ := split_of_notMem hm heq
      exact h.sent before m rest hold

end Client

/-- A new channel has no call. -/
theorem client_init (services : Option ServiceMap) : Client (init services) where
  ids i c hi := by cases hi
  counter := rfl
  small := by
    show (0 : Int) < 2 ^ 63
    decide
  apart i j c d hi := by cases hi
  entries k out hout := by
    rw [init, Std.ExtTreeMap.getElem?_empty] at hout
    cases hout
  handled h hh := by cases hh
  known e he := by cases he
  place i c hi := by cases hi
  unused i hi := rfl
  registered i c hi := by cases hi
  sent before m after heq := by
    have hnil := List.append_ne_nil_of_right_ne_nil before (List.cons_ne_nil (Effect.sent m) after)
    exact absurd heq.symm hnil

/-! ### `CallMethod` -/

/-- Nothing has happened to a call with a new id that shares nothing with the earlier ones. -/
theorem place_fresh (h : Client s) (hid : c.id = s.calls.length + 1)
    (hfresh : ∀ (j : Nat) d, s.calls[j]? = some d → ¬ Shares d c) :
    Place s (s.stage s.calls.length) c := by
  have hmap : s.outstandings_[c.id]? = none := by
    cases hout : s.outstandings_[c.id]? with
    | none => rfl
    | some out =>
        obtain ⟨i, b, hi, hb, -⟩ := h.entries _ out hout
        have hlt := (List.getElem?_eq_some_iff.mp hi).1
        have hold := h.ids i b hi
        omega
  have hhandling : handlingOf s c = none := by
    apply handlingOf_eq_none
    intro x hx heq
    obtain ⟨i, b, hi, hb⟩ := h.handled x hx
    exact hfresh i b hi (Or.inl (hb.trans heq))
  have hstory : story c s.log = [] := by
    rw [story, List.filter_eq_nil_iff]
    intro e he hd
    obtain ⟨i, b, hi, hb⟩ := h.known e he c hd
    exact hfresh i b hi hb
  exact .thread (h.unused _ (Nat.le_refl _)) hmap hhandling hstory

/-- A new call that shares nothing with the earlier ones. -/
theorem client_call (h : Client s) (hsmall : s.id_ + 1 < 2 ^ 63) (hc : c.id = s.id_ + 1)
    (hfresh : ∀ (j : Nat) d, s.calls[j]? = some d → ¬ Shares d c) :
    Client { s with id_ := s.id_ + 1, calls := s.calls ++ [c] } := by
  have hleft : ∀ {j : Nat} {d : Call}, s.calls[j]? = some d → (s.calls ++ [c])[j]? = some d := by
    intro j d hj
    rw [List.getElem?_append_left (List.getElem?_eq_some_iff.mp hj).1]
    exact hj
  have hnew : c.id = s.calls.length + 1 := by rw [hc, h.counter]
  exact
    { ids := by
        intro j d hj
        cases getElem?_concat_cases hj with
        | inl hold => exact h.ids j d hold
        | inr hlast =>
            obtain ⟨rfl, rfl⟩ := hlast
            exact hnew
      counter := by
        show s.id_ + 1 = ((s.calls ++ [c]).length : Int)
        rw [List.length_append, h.counter]
        rfl
      small := by
        show ((s.calls ++ [c]).length : Int) < 2 ^ 63
        rw [List.length_append, List.length_singleton]
        omega
      apart := by
        -- The new call shares no object with an old one, in either order.
        intro i j a b hi hj hshares
        cases getElem?_concat_cases hi with
        | inl hia =>
            cases getElem?_concat_cases hj with
            | inl hjb => exact h.apart i j a b hia hjb hshares
            | inr hjb =>
                obtain ⟨-, rfl⟩ := hjb
                exact absurd hshares (hfresh i a hia)
        | inr hia =>
            obtain ⟨rfl, rfl⟩ := hia
            cases getElem?_concat_cases hj with
            | inl hjb => exact absurd hshares.symm (hfresh j b hjb)
            | inr hjb => exact hjb.1.symm
      entries := by
        intro k out hout
        obtain ⟨i, d, hi, hd⟩ := h.entries k out hout
        exact ⟨i, d, hleft hi, hd⟩
      handled := by
        intro x hx
        obtain ⟨i, d, hi, hd⟩ := h.handled x hx
        exact ⟨i, d, hleft hi, hd⟩
      known := by
        intro e he b hb
        obtain ⟨i, d, hi, hd⟩ := h.known e he b hb
        exact ⟨i, d, hleft hi, hd⟩
      place := by
        intro j d hj
        have hplace : Place s (s.stage j) d := by
          cases getElem?_concat_cases hj with
          | inl hold => exact h.place j d hold
          | inr hlast =>
              obtain ⟨rfl, rfl⟩ := hlast
              exact place_fresh h hnew hfresh
        exact hplace.frame rfl rfl rfl (List.prefix_refl _) id
      unused := by
        intro j hj
        apply h.unused
        have hlen : (s.calls ++ [c]).length ≤ j := hj
        rw [List.length_append] at hlen
        omega
      registered := by
        intro j d hj hne
        cases getElem?_concat_cases hj with
        | inl hold => exact h.registered j d hold hne
        | inr hlast =>
            -- The new call is at its first stage.
            obtain ⟨rfl, -⟩ := hlast
            exact absurd (h.unused _ (Nat.le_refl _)) hne
      sent := by
        intro before m after heq
        obtain ⟨i, d, hi, hd⟩ := h.sent before m after heq
        exact ⟨i, d, hleft hi, hd⟩ }

/-- The call enters `outstandings_`. -/
theorem client_register {i : Nat} (h : Client s) (hi : s.calls[i]? = some c)
    (hstage : s.stage i = .numbered) : Client (s.register i c) := by
  have hself : (s.register i c).stage i = .registered := Function.update_self _ _ _
  have hmap : (s.register i c).outstandings_[c.id]? = some ⟨some c.response, c.done⟩ := by
    rw [register, getElem?_insert_eq, if_pos rfl]
  have hlog : (s.register i c).log = s.log ++ [.registered c.id] := rfl
  have hquiet : story c (s.register i c).log = story c s.log := by
    rw [hlog, story_append]
    exact List.append_nil _
  have hplace : Place (s.register i c) ((s.register i c).stage i) c := by
    rw [hself]
    cases h.place i c hi with
    | thread _ _ hh hs => exact .map (by decide) hmap hh (hquiet.trans hs)
    | map hne _ _ _ => exact absurd hstage hne
    | loop _ hne _ _ _ _ _ => exact absurd hstage hne
    | completed _ _ hne _ _ _ _ => exact absurd hstage hne
    | abandoned hne _ _ _ _ => exact absurd hstage hne
  refine h.move hi rfl rfl hlog ?_ ?_ ?_ (fun _ _ => rfl) (fun x hx => Or.inl hx) ?_
    (List.prefix_refl _) rfl hplace ?_ ?_
  · intro e he d hd
    rw [List.mem_singleton.mp he] at hd
    cases hd
  · intro k hk
    rw [register, getElem?_insert_eq, if_neg (Ne.symm hk)]
  · intro out hout
    rw [hmap] at hout
    exact (Option.some.inj hout).symm
  · intro j hj
    exact Function.update_of_ne hj _ _
  · intro _
    rw [hlog]
    exact List.mem_append_right _ List.mem_cons_self
  · intro m hm
    cases List.mem_singleton.mp hm

/-- The request is sent. -/
theorem client_send {i : Nat} (h : Client s) (hi : s.calls[i]? = some c)
    (hstage : s.stage i = .registered) : Client (s.send i c) := by
  have hself : (s.send i c).stage i = .returned := Function.update_self _ _ _
  have hlog : (s.send i c).log = s.log ++ [.sent c.message] := rfl
  have hquiet : story c (s.send i c).log = story c s.log := by
    rw [hlog, story_append]
    exact List.append_nil _
  have hreg : Effect.registered c.id ∈ s.log := by
    apply h.registered i c hi
    rw [hstage]
    decide
  have hplace : Place (s.send i c) ((s.send i c).stage i) c := by
    rw [hself]
    cases h.place i c hi with
    | thread heq _ _ _ =>
        rw [hstage] at heq
        cases heq
    | map _ hm hh hs => exact .map (by decide) hm hh (hquiet.trans hs)
    | loop x _ hm hh hd ha hs =>
        exact .loop x (by decide) hm hh hd ⟨ha.received, ha.type, ha.id⟩ (hquiet.trans hs)
    | completed n m _ hm hh ha hs =>
        exact .completed n m (by decide) hm hh ⟨ha.received, ha.type, ha.id⟩ (hquiet.trans hs)
    | abandoned _ hm hh hd hs => exact .abandoned (by decide) hm hh hd (hquiet.trans hs)
  refine h.move hi rfl rfl hlog ?_ (fun _ _ => rfl) (fun _ hout => h.entry hi hout)
    (fun _ _ => rfl) (fun x hx => Or.inl hx) ?_ (List.prefix_refl _) rfl hplace ?_ ?_
  · intro e he d hd
    rw [List.mem_singleton.mp he] at hd
    cases hd
  · intro j hj
    exact Function.update_of_ne hj _ _
  · intro _
    rw [hlog]
    exact List.mem_append_left _ hreg
  · intro m hm
    have heq := Effect.sent.inj (List.mem_singleton.mp hm)
    subst heq
    exact ⟨rfl, rfl, hreg⟩

/-! ### A `RESPONSE` -/

/-- The loop thread works on one call: `handlingOf` of the others is not
touched. -/
theorem handlingOf_of_not_shares {x : Option Handling} (hs : ∀ y, s.handling = some y →
    c.response = y.response) (hx : ∀ y, x = some y → c.response = y.response)
    (hapart : ¬ Shares c d) : handlingOf { s with handling := x } d = handlingOf s d := by
  have hnone : handlingOf s d = none := by
    apply handlingOf_eq_none
    intro y hy heq
    exact hapart (Or.inl ((hs y hy).trans heq))
  have hnone' : handlingOf { s with handling := x } d = none := by
    apply handlingOf_eq_none
    intro y hy heq
    exact hapart (Or.inl ((hx y hy).trans heq))
  rw [hnone, hnone']

theorem client_received (h : Client s) (m : RpcMessage) :
    Client { s with received := s.received ++ [m] } :=
  h.quiet rfl rfl rfl rfl rfl (List.append_nil _).symm (fun e he => by cases he)
    (fun m hm => by cases hm) (List.prefix_append _ _) rfl

/-- A `RESPONSE` changes nothing, or it takes the call with its id out of
`outstandings_`. -/
theorem onResponse_spec (h : Client s) (hfree : s.handling = none) {m : RpcMessage}
    (htype : m.type = .RESPONSE) :
    Ends (s.onResponse m)
      (fun f => f = .emptyResponse ∧ m.response = none ∧ m.error = none)
      fun s' => Client s' ∧
        (s.outstandings_[m.id.toInt]? = none → s' = { s with received := s.received ++ [m] }) ∧
        s'.pending = s.pending ∧ s'.received = s.received ++ [m] ∧ s'.log = s.log := by
  rw [onResponse]
  by_cases hfields : m.response.isSome = true ∨ m.error.isSome = true
  · simp only [assertThat_pos hfields, ok_bind]
    cases hout : s.outstandings_[m.id.toInt]? with
    | none => exact Ends.ok ⟨client_received h m, fun _ => rfl, rfl, rfl, rfl⟩
    | some out =>
        obtain ⟨i, c, hi, hid, rfl⟩ := h.entries _ out hout
        simp only
        refine Ends.ok ⟨?_, (fun hnone => by cases hnone), rfl, rfl, rfl⟩
        have hgone : (s.outstandings_.erase m.id.toInt)[c.id]? = none := by
          rw [getElem?_erase_eq, if_pos hid.symm]
        have hplace : Place
            { s with
              outstandings_ := s.outstandings_.erase m.id.toInt
              received := s.received ++ [m]
              handling := some ⟨s.received.length, m, c.response, c.done, .found⟩ }
            (s.stage i) c := by
          have hnew : (s.received ++ [m])[s.received.length]? = some m := by simp
          obtain ⟨hne, hs⟩ := h.waiting hi (hid ▸ hout)
          exact .loop _ hne hgone (handlingOf_eq_some rfl rfl) rfl ⟨hnew, htype, hid.symm⟩ hs
        refine h.move hi rfl rfl (List.append_nil _).symm (fun e he => by cases he) ?_ ?_ ?_ ?_
          (fun _ _ => rfl) (List.prefix_append _ _) rfl hplace (h.registered i c hi)
          (fun m hm => by cases hm)
        · intro k hk
          rw [getElem?_erase_eq, if_neg (by rw [← hid]; exact Ne.symm hk)]
        · intro out' hout'
          rw [hgone] at hout'
          cases hout'
        · intro d hapart
          refine handlingOf_of_not_shares ?_ ?_ hapart
          · intro y hy
            rw [hfree] at hy
            cases hy
          · intro y hy
            cases hy
            rfl
        · intro x hx
          cases hx
          exact Or.inr rfl
  · rw [assertThat_neg hfields]
    simp only [not_or, Option.not_isSome_iff_eq_none] at hfields
    exact Ends.error ⟨rfl, hfields.1, hfields.2⟩

/-- The call that the loop thread works on. -/
theorem Client.handler (h : Client s) {x : Handling} (hx : s.handling = some x) :
    ∃ (i : Nat) (c : Call), s.calls[i]? = some c ∧ c.response = x.response ∧
      s.stage i ≠ .numbered ∧ s.outstandings_[c.id]? = none ∧ x.done = c.done ∧
      Answers s c x.number x.message ∧
      story c s.log = x.progress.upTo c x.number x.message := by
  obtain ⟨i, c, hi, hc⟩ := h.handled x hx
  have hsome := handlingOf_eq_some hx hc.symm
  cases h.place i c hi with
  | loop y hne hm hh hd ha hs =>
      rw [hsome] at hh
      cases hh
      exact ⟨i, c, hi, hc, hne, hm, hd, ha, hs⟩
  | thread _ _ hh _ =>
      rw [hsome] at hh
      cases hh
  | map _ _ hh _ =>
      rw [hsome] at hh
      cases hh
  | completed _ _ _ _ hh _ _ =>
      rw [hsome] at hh
      cases hh
  | abandoned _ _ hh _ _ =>
      rw [hsome] at hh
      cases hh

/-- A step of the loop thread with its call: it logs `es`, and then has
`next` to do. -/
theorem Client.handle {i : Nat} {x : Handling} {next : Option Handling} {es : List Effect}
    (h : Client s) (hi : s.calls[i]? = some c) (hx : s.handling = some x)
    (hc : c.response = x.response)
    (hnext : ∀ y, next = some y → c.response = y.response)
    (hes : ∀ e ∈ es, e.concerns c = true)
    (hplace : Place { s with handling := next, log := s.log ++ es } (s.stage i) c)
    (hne : s.stage i ≠ .numbered) :
    Client { s with handling := next, log := s.log ++ es } := by
  refine h.move hi rfl rfl rfl ?_ (fun _ _ => rfl) ?_ ?_ ?_ (fun _ _ => rfl)
    (List.prefix_refl _) rfl hplace ?_ ?_
  · intro e he d hd
    exact Effect.shares_of_concerns (hes e he) hd
  · intro out hout
    exact h.entry hi hout
  · intro d hapart
    have hold : ∀ y, s.handling = some y → c.response = y.response := by
      intro y hy
      rw [hx] at hy
      cases hy
      exact hc
    exact handlingOf_of_not_shares hold hnext hapart
  · intro y hy
    exact Or.inr (hnext y hy)
  · intro _
    exact List.mem_append_left _ (h.registered i c hi hne)
  · intro m hmem
    cases hes _ hmem

theorem filter_concerns {c : Call} {es : List Effect} (h : ∀ e ∈ es, e.concerns c = true) :
    es.filter (Effect.concerns c) = es := List.filter_eq_self.mpr h

/-- `fill` as one update, with or without a response in the message. -/
theorem fill_eq (s : RpcChannel) (x : Handling) :
    s.fill x = { s with
      handling := some { x with progress := .filled }
      log := s.log ++
        (x.message.response.map fun bytes => Effect.filled x.response bytes x.number).toList } := by
  rw [fill]
  cases x.message.response with
  | none =>
      show _ = { s with handling := _, log := s.log ++ [] }
      rw [List.append_nil]
  | some bytes => rfl

/-- `run` as one update, with or without a closure. -/
theorem run_eq (s : RpcChannel) (x : Handling) :
    s.run x = { s with
      handling := some { x with progress := .ran }
      log := s.log ++ (x.done.map fun done => Effect.ran done x.number).toList } := by
  rw [run]
  cases x.done with
  | none =>
      show _ = { s with handling := _, log := s.log ++ [] }
      rw [List.append_nil]
  | some done => rfl

/-- The loop thread's work on a call comes to `p`: what this adds to the log
concerns the call, and is the next part of its completion. -/
theorem Client.advance (h : Client s) {x : Handling} (hx : s.handling = some x) {p : Progress}
    {es : List Effect} (hes : ∀ c : Call, c.response = x.response → x.done = c.done →
      (∀ e ∈ es, e.concerns c = true) ∧
        x.progress.upTo c x.number x.message ++ es = p.upTo c x.number x.message) :
    Client { s with handling := some { x with progress := p }, log := s.log ++ es } := by
  obtain ⟨i, c, hi, hc, hne, hm, hdone, hanswers, hstory⟩ := h.handler hx
  obtain ⟨hconcern, hnext⟩ := hes c hc hdone
  have hplace : Place { s with handling := some { x with progress := p }, log := s.log ++ es }
      (s.stage i) c := by
    have hnew : story c (s.log ++ es) = p.upTo c x.number x.message := by
      rw [story_append, hstory, filter_concerns hconcern, hnext]
    exact .loop _ hne hm (handlingOf_eq_some rfl hc.symm) hdone
      ⟨hanswers.received, hanswers.type, hanswers.id⟩ hnew
  refine h.handle hi hx hc ?_ hconcern hplace hne
  intro y hy
  cases hy
  exact hc

/-- `ParseFromString` into the response object of the call. -/
theorem client_fill (h : Client s) {x : Handling} (hx : s.handling = some x)
    (hprogress : x.progress = .found) : Client (s.fill x) := by
  rw [fill_eq]
  refine h.advance hx fun c hc _ => ⟨?_, ?_⟩
  · intro e he
    rw [Option.mem_toList, Option.map_eq_some_iff] at he
    obtain ⟨bytes, -, rfl⟩ := he
    exact beq_iff_eq.mpr hc.symm
  · rw [hprogress, ← hc]
    rfl

/-- The closure of the call runs. -/
theorem client_run (h : Client s) {x : Handling} (hx : s.handling = some x)
    (hprogress : x.progress = .filled) : Client (s.run x) := by
  rw [run_eq]
  refine h.advance hx fun c _ hdone => ⟨?_, ?_⟩
  · intro e he
    rw [Option.mem_toList, Option.map_eq_some_iff] at he
    obtain ⟨done, hd, rfl⟩ := he
    exact beq_iff_eq.mpr (hdone ▸ hd)
  · rw [hprogress, hdone]
    rfl

/-- The `unique_ptr` deletes the response object, and the call is complete. -/
theorem client_release (h : Client s) {x : Handling} (hx : s.handling = some x)
    (hprogress : x.progress = .ran) : Client (s.release x) := by
  obtain ⟨i, c, hi, hc, hne, hm, hdone, hanswers, hstory⟩ := h.handler hx
  rw [release, ← hc]
  have hes : ∀ e ∈ [Effect.released c.response], e.concerns c = true := by
    intro e he
    rw [List.mem_singleton.mp he]
    exact beq_self_eq_true _
  have hplace : Place
      { s with handling := none, log := s.log ++ [.released c.response] } (s.stage i) c := by
    have hnew : story c (s.log ++ [.released c.response]) = completion c x.number x.message := by
      rw [story_append, hstory, hprogress, filter_concerns hes]
      rfl
    exact .completed x.number x.message hne hm rfl
      ⟨hanswers.received, hanswers.type, hanswers.id⟩ hnew
  exact h.handle hi hx hc (fun y hy => by cases hy) hes hplace hne

/-! ### The destructor -/

/-- What the destructor does with an entry is about its call. -/
theorem concerns_delete {e : Effect} (he : e ∈ OutstandingCall.delete ⟨some c.response, c.done⟩) :
    e.concerns c = true := by
  cases List.mem_append.mp he with
  | inl hresponse =>
      rw [List.mem_singleton.mp hresponse]
      exact beq_self_eq_true _
  | inr hdone =>
      rw [Option.mem_toList, Option.map_eq_some_iff] at hdone
      obtain ⟨done, hd, rfl⟩ := hdone
      exact beq_iff_eq.mpr hd

/-- What the destructor does is about the calls in `outstandings_`. -/
theorem Client.deleted (h : Client s) {e : Effect}
    (he : e ∈ s.outstandings_.toList.flatMap fun entry => entry.2.delete) :
    ∃ (i : Nat) (c : Call), s.calls[i]? = some c ∧ e.concerns c = true := by
  obtain ⟨⟨k, out⟩, hentry, hmem⟩ := List.mem_flatMap.mp he
  have hout := Std.ExtTreeMap.mem_toList_iff_getElem?_eq_some.mp hentry
  obtain ⟨i, c, hi, -, rfl⟩ := h.entries k out hout
  exact ⟨i, c, hi, concerns_delete hmem⟩

/-- The part of the destructor that is about one call. -/
theorem Client.filter_delete {i : Nat} (h : Client s) (hi : s.calls[i]? = some c) :
    (s.outstandings_.toList.flatMap fun entry => entry.2.delete).filter (Effect.concerns c) =
      if s.outstandings_[c.id]? = none then [] else abandonment c := by
  have hother : ∀ k out, s.outstandings_[k]? = some out → k ≠ c.id →
      out.delete.filter (Effect.concerns c) = [] := by
    intro k out hout hk
    obtain ⟨j, d, hj, hd, rfl⟩ := h.entries k out hout
    have hij : j ≠ i := by
      rintro rfl
      rw [hi] at hj
      cases hj
      exact hk hd.symm
    rw [List.filter_eq_nil_iff]
    intro e he hc
    exact (h.other hj hi hij).1 (Effect.shares_of_concerns (concerns_delete he) hc)
  rw [List.filter_flatMap]
  cases hout : s.outstandings_[c.id]? with
  | none =>
      rw [if_pos rfl, List.flatMap_eq_nil_iff]
      rintro ⟨k, out⟩ hentry
      have hk := Std.ExtTreeMap.mem_toList_iff_getElem?_eq_some.mp hentry
      apply hother k out hk
      rintro rfl
      rw [hout] at hk
      cases hk
  | some out =>
      rw [if_neg (by simp), flatMap_toList hout hother, h.entry hi hout]
      exact filter_concerns fun e he => concerns_delete he

/-- The destructor abandons every call that is still outstanding. -/
theorem client_destroy (h : Client s) (hfree : s.handling = none)
    (hreturned : ∀ i, i < s.calls.length → s.stage i = .returned) : Client s.destroy where
  ids := h.ids
  counter := h.counter
  small := h.small
  apart := h.apart
  entries k out hout := by
    rw [destroy, Std.ExtTreeMap.getElem?_empty] at hout
    cases hout
  handled := h.handled
  known e he c hc := by
    cases List.mem_append.mp he with
    | inl hold => exact h.known e hold c hc
    | inr hnew =>
        obtain ⟨i, d, hi, hd⟩ := h.deleted hnew
        exact ⟨i, d, hi, Effect.shares_of_concerns hd hc⟩
  place i c hi := by
    have hnone : s.destroy.outstandings_[c.id]? = none := Std.ExtTreeMap.getElem?_empty
    have hidle : handlingOf s c = none := by rw [handlingOf, hfree]; rfl
    have hstage : s.stage i ≠ .numbered := by
      rw [hreturned i (List.getElem?_eq_some_iff.mp hi).1]
      decide
    have hstory : story c s.destroy.log = story c s.log ++
        if s.outstandings_[c.id]? = none then [] else abandonment c := by
      rw [← h.filter_delete hi, ← story_append]
      rfl
    cases h.place i c hi with
    | thread heq _ _ _ => exact absurd heq hstage
    | map _ hm _ hs =>
        rw [hm, hs, if_neg (by simp), List.nil_append] at hstory
        exact .abandoned hstage hnone hidle rfl hstory
    | loop x _ _ hh _ _ _ =>
        rw [hidle] at hh
        cases hh
    | completed n m _ hm _ ha hs =>
        rw [hm, if_pos rfl, List.append_nil, hs] at hstory
        exact .completed n m hstage hnone hidle ⟨ha.received, ha.type, ha.id⟩ hstory
    | abandoned _ hm _ _ hs =>
        rw [hm, if_pos rfl, List.append_nil, hs] at hstory
        exact .abandoned hstage hnone hidle rfl hstory
  unused := h.unused
  registered i c hi hne := List.mem_append_left _ (h.registered i c hi hne)
  sent before m after heq := by
    have hnot : Effect.sent m ∉ s.outstandings_.toList.flatMap fun entry => entry.2.delete := by
      intro hmem
      obtain ⟨i, c, -, hc⟩ := h.deleted hmem
      cases hc
    obtain ⟨rest, hold⟩ := split_of_notMem hnot heq
    exact h.sent before m rest hold

end Muduo.Net.RpcChannel
