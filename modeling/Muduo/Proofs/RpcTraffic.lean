import Muduo.Net.RpcSession
import Muduo.Proofs.RpcMatching

/-!
# `Muduo.Proofs.RpcTraffic`: what one channel puts on the wire

`Moved` says what a step of a channel does, as far as the peer can tell:
the calls and the stages of their threads, the messages sent, the messages
received, and which calls are still waiting in `outstandings_`.

`Sender` follows from it for every run. The request of a call is sent when
its thread returns from `CallMethod`, and once (`Sender.count`). Requests
come from calls and answers from requests, and the two cannot be mistaken
for each other (`mem_outgoing_request`, `mem_outgoing_response`).
-/

set_option autoImplicit false

namespace Muduo.Net.RpcChannel

open Muduo.Lib
open RpcSession (outgoing outgoingOf)

variable {s s' : RpcChannel} {c d : Call}

theorem outgoing_append (log es : List Effect) :
    outgoing (log ++ es) = outgoing log ++ outgoing es := List.filterMap_append

theorem outgoing_eq_nil {es : List Effect} (h : ∀ e ∈ es, outgoingOf e = none) :
    outgoing es = [] := List.filterMap_eq_nil_iff.mpr h

/-! ### One step -/

/-- A step of a channel that receives the messages `ms`, as far as the peer
can tell. -/
inductive Moved (s s' : RpcChannel) : List RpcMessage → Prop where
  | called (c : Call) : s'.calls = s.calls ++ [c] →
      (∃ service method request, c.message = requestMessage c.id service method request) →
      s'.stage = s.stage → s'.log = s.log → s'.received = s.received →
      s'.outstandings_ = s.outstandings_ → Moved s s' []
  | registered (i : Nat) (c : Call) : s.calls[i]? = some c → s.stage i = .numbered →
      s'.calls = s.calls → s'.stage = Function.update s.stage i .registered →
      s'.log = s.log ++ [.registered c.id] → s'.received = s.received →
      s'.outstandings_ = s.outstandings_.insert c.id ⟨some c.response, c.done⟩ → Moved s s' []
  | sent (i : Nat) (c : Call) : s.calls[i]? = some c → s.stage i = .registered →
      s'.calls = s.calls → s'.stage = Function.update s.stage i .returned →
      s'.log = s.log ++ [.sent c.message] → s'.received = s.received →
      s'.outstandings_ = s.outstandings_ → Moved s s' []
  | handled (es : List Effect) (ms : List RpcMessage) : s'.calls = s.calls → s'.stage = s.stage →
      s'.log = s.log ++ es → (∀ m ∈ outgoing es, m.type = .RESPONSE) →
      s'.received = s.received ++ ms →
      (∀ k, s'.outstandings_[k]? ≠ none → s.outstandings_[k]? ≠ none ∧
        ∀ m ∈ ms, m.type = .RESPONSE → m.id.toInt ≠ k) → Moved s s' ms

/-- A step that receives nothing and sends nothing. -/
theorem Moved.quiet (es : List Effect) (hcalls : s'.calls = s.calls) (hstage : s'.stage = s.stage)
    (hlog : s'.log = s.log ++ es) (hes : ∀ e ∈ es, outgoingOf e = none)
    (hreceived : s'.received = s.received)
    (hout : ∀ k : Int, s'.outstandings_[k]? ≠ none → s.outstandings_[k]? ≠ none) :
    Moved s s' [] := by
  refine .handled es [] hcalls hstage hlog ?_ ?_ ?_
  · intro m hm
    rw [outgoing_eq_nil hes] at hm
    cases hm
  · rw [hreceived, List.append_nil]
  · intro k hk
    exact ⟨hout k hk, fun m hm => by cases hm⟩

/-- The messages that a step handles are added to those received. -/
theorem Moved.received_eq {ms : List RpcMessage} (h : Moved s s' ms) :
    s'.received = s.received ++ ms := by
  cases h with
  | called c _ _ _ _ hreceived _ => rw [hreceived, List.append_nil]
  | registered i c _ _ _ _ _ hreceived _ => rw [hreceived, List.append_nil]
  | sent i c _ _ _ _ _ hreceived _ => rw [hreceived, List.append_nil]
  | handled es ms _ _ _ _ hreceived _ => exact hreceived

/-- A step only adds to the log. -/
theorem Moved.log_grows {ms : List RpcMessage} (h : Moved s s' ms) : s.log <+: s'.log := by
  cases h with
  | called c _ _ _ hlog => exact hlog ▸ List.prefix_refl _
  | registered i c _ _ _ _ hlog => exact hlog ▸ List.prefix_append _ _
  | sent i c _ _ _ _ hlog => exact hlog ▸ List.prefix_append _ _
  | handled es ms _ _ hlog => exact hlog ▸ List.prefix_append _ _

/-- Handling a `RESPONSE` sends nothing. -/
theorem onResponse_moved {m : RpcMessage} (h : s.onResponse m = .ok s') : Moved s s' [m] := by
  rw [onResponse] at h
  obtain ⟨_, -, h⟩ := except_bind_eq_ok.mp h
  simp only at h
  cases hout : s.outstandings_[m.id.toInt]? with
  | none =>
      rw [hout] at h
      cases h
      refine .handled [] [m] rfl rfl (List.append_nil _).symm (fun _ hm => by cases hm) rfl ?_
      intro k hk
      refine ⟨hk, ?_⟩
      intro m' hm' _ heq
      rw [List.mem_singleton.mp hm'] at heq
      exact hk (heq ▸ hout)
  | some out =>
      rw [hout] at h
      simp only at h
      -- The entry is erased, whether or not it has a response object.
      have hgone : ∀ k, (s.outstandings_.erase m.id.toInt)[k]? ≠ none →
          s.outstandings_[k]? ≠ none ∧
            ∀ m' ∈ [m], m'.type = .RESPONSE → m'.id.toInt ≠ k := by
        intro k hk
        rw [getElem?_erase_eq] at hk
        split at hk
        · exact absurd rfl hk
        · rename_i hne
          refine ⟨hk, ?_⟩
          intro m' hm' _ heq
          rw [List.mem_singleton.mp hm'] at heq
          exact hne heq
      cases hresponse : out.response with
      | none =>
          rw [hresponse] at h
          cases h
          exact .handled [] [m] rfl rfl (List.append_nil _).symm (fun _ hm => by cases hm) rfl hgone
      | some response =>
          rw [hresponse] at h
          cases h
          exact .handled [] [m] rfl rfl (List.append_nil _).symm (fun _ hm => by cases hm) rfl hgone

/-- A message that is no `RESPONSE` leaves the calls waiting. -/
theorem still_waiting {m : RpcMessage} (hm : m.type ≠ .RESPONSE) (k : Int)
    (hk : s.outstandings_[k]? ≠ none) :
    s.outstandings_[k]? ≠ none ∧ ∀ m' ∈ [m], m'.type = .RESPONSE → m'.id.toInt ≠ k := by
  refine ⟨hk, ?_⟩
  intro m' hm' htype
  rw [List.mem_singleton.mp hm'] at htype
  exact absurd htype hm

/-- Handling a `REQUEST` sends an answer at most. -/
theorem onRequest_moved {m : RpcMessage} (hm : m.type ≠ .RESPONSE) (h : s.onRequest m = .ok s') :
    Moved s s' [m] := by
  rw [onRequest] at h
  obtain ⟨error, -, h⟩ := except_bind_eq_ok.mp h
  simp only at h
  split at h
  · cases h
    exact .handled [] [m] rfl rfl (List.append_nil _).symm (fun _ hm => by cases hm) rfl
      (still_waiting hm)
  · cases h
    refine .handled [.answered s.received.length (errorMessage m.id error)] [m] rfl rfl rfl ?_ rfl
      (still_waiting hm)
    intro m' hm'
    rw [List.mem_singleton.mp hm']
    rfl

/-- The message that an event brings. -/
def Event.arrival : Event → List RpcMessage
  | .receive message => [message]
  | _ => []

/-- Every step is one of the four moves. -/
theorem step_moved {e : Event} (hen : enabled s e = true) (h : step s e = .ok s') :
    Moved s s' e.arrival := by
  cases e with
  | call response done service method request =>
      rw [step, callMethod] at h
      obtain ⟨id, -, h⟩ := except_bind_eq_ok.mp h
      cases h
      exact .called _ rfl ⟨service, method, request, rfl⟩ rfl rfl rfl rfl
  | register i =>
      obtain ⟨c, hi, hstage⟩ := call_of_isAt hen
      rw [step, hi] at h
      cases h
      exact .registered i c hi hstage rfl rfl rfl rfl rfl
  | send i =>
      obtain ⟨c, hi, hstage⟩ := call_of_isAt hen
      rw [step, hi] at h
      cases h
      exact .sent i c hi hstage rfl rfl rfl rfl rfl
  | receive m =>
      rw [step, onRpcMessage] at h
      cases hm : m.type with
      | RESPONSE =>
          rw [hm] at h
          exact onResponse_moved h
      | REQUEST =>
          rw [hm] at h
          exact onRequest_moved (by rw [hm]; decide) h
      | ERROR =>
          rw [hm] at h
          cases h
          exact .handled [] [m] rfl rfl (List.append_nil _).symm (fun _ hm => by cases hm) rfl
            (still_waiting (by rw [hm]; decide))
  | fill =>
      obtain ⟨x, hx, -⟩ := handling_of_enabled hen
      rw [step, hx] at h
      cases h
      rw [Option.map_some, Option.getD_some, fill_eq]
      exact .quiet _ rfl rfl rfl (by simp [outgoingOf]) rfl fun _ hk => hk
  | run =>
      obtain ⟨x, hx, -⟩ := handling_of_enabled hen
      rw [step, hx] at h
      cases h
      rw [Option.map_some, Option.getD_some, run_eq]
      exact .quiet _ rfl rfl rfl (by simp [outgoingOf]) rfl fun _ hk => hk
  | release =>
      obtain ⟨x, hx, -⟩ := handling_of_enabled hen
      rw [step, hx] at h
      cases h
      exact .quiet [.released x.response] rfl rfl rfl (by simp [outgoingOf]) rfl fun _ hk => hk
  | complete i bytes =>
      obtain ⟨p, hi⟩ := Option.isSome_iff_exists.mp hen
      -- A closure that runs behind the destructor faults, so this one did not.
      have hup : s.destroyed = false := by
        by_contra hdown
        rw [complete_dangling (eq_true_of_ne_false hdown)] at h
        cases h
      rw [complete_eq hi hup] at h
      cases h
      refine .handled _ [] rfl rfl rfl ?_ (List.append_nil _).symm ?_
      · intro m hm
        rw [List.mem_singleton.mp hm]
      · intro k hk
        exact ⟨hk, fun m hm => by cases hm⟩
  | destroy =>
      rw [step] at h
      cases h
      refine .quiet _ rfl rfl rfl ?_ rfl ?_
      · -- Deleting a call sends nothing.
        intro e he
        obtain ⟨entry, -, he⟩ := List.mem_flatMap.mp he
        simp only [OutstandingCall.delete, List.mem_append, Option.mem_toList,
          Option.map_eq_some_iff] at he
        obtain ⟨_, _, rfl⟩ | ⟨_, _, rfl⟩ := he
        · rfl
        · rfl
      · intro k hk
        simp [destroy] at hk

/-! ### Requests -/

/-- The requests of a channel. -/
structure Sender (s : RpcChannel) : Prop where
  message : ∀ c ∈ s.calls, ∃ service method request,
    c.message = requestMessage c.id service method request
  count : ∀ (i : Nat) c, s.calls[i]? = some c →
    (outgoing s.log).count c.message = if s.stage i = .returned then 1 else 0

/-- Nothing is sent at the start. -/
theorem sender_init (services : Option ServiceMap) : Sender (init services) where
  message c hc := by cases hc
  count i c hi := by cases hi

theorem toInt_ofInt_of_lt {n : Int} (hpos : 0 < n) (hlt : n < 2 ^ 63) :
    (BitVec.ofInt 64 n).toInt = n := by
  rw [BitVec.toInt_ofInt, Int.bmod_eq_of_le (by omega) (by omega)]

/-- The id of a call, as it is on the wire. -/
theorem Sender.toInt_id (h : Sender s) (hclient : Client s) {i : Nat} (hi : s.calls[i]? = some c) :
    c.message.type = .REQUEST ∧ c.message.id.toInt = c.id := by
  obtain ⟨service, method, request, hm⟩ := h.message c (List.mem_of_getElem? hi)
  have hid := hclient.ids i c hi
  have hlt := (List.getElem?_eq_some_iff.mp hi).1
  have hsmall := hclient.small
  rw [hm]
  exact ⟨rfl, toInt_ofInt_of_lt (by omega) (by omega)⟩

/-- Ids are distinct, so a call is found by its id. -/
theorem call_unique (hclient : Client s) {i j : Nat} (hi : s.calls[i]? = some c)
    (hj : s.calls[j]? = some d) (hid : c.id = d.id) : i = j ∧ c = d := by
  have hci := hclient.ids i c hi
  have hdj := hclient.ids j d hj
  obtain rfl : i = j := by omega
  rw [hi] at hj
  exact ⟨rfl, Option.some.inj hj⟩

/-- Two calls never send the same message, because the id is part of it. -/
theorem Sender.message_unique (h : Sender s) (hclient : Client s) {i j : Nat}
    (hi : s.calls[i]? = some c) (hj : s.calls[j]? = some d) (heq : c.message = d.message) :
    i = j := by
  have hc := (h.toInt_id hclient hi).2
  have hd := (h.toInt_id hclient hj).2
  exact (call_unique hclient hi hj (by rw [← hc, ← hd, heq])).1

/-- A message on the wire is a request or an answer. -/
theorem mem_outgoing {log : List Effect} {m : RpcMessage} (h : m ∈ outgoing log) :
    (∃ before after, log = before ++ .sent m :: after) ∨
      ∃ n, Effect.answered n m ∈ log ∧ m ∈ answersTo n log := by
  obtain ⟨e, he, hout⟩ := List.mem_filterMap.mp h
  cases e with
  | sent m' =>
      cases hout
      exact .inl (List.append_of_mem he)
  | answered n m' =>
      cases hout
      exact .inr ⟨n, he, List.mem_filterMap.mpr ⟨.answered n m, he, if_pos rfl⟩⟩
  | registered _ | filled _ _ _ | ran _ _ | released _ | deleted _ => cases hout

/-- A `REQUEST` on the wire comes from a call. -/
theorem mem_outgoing_request (hclient : Client s) (hserver : Server s) {m : RpcMessage}
    (hm : m ∈ outgoing s.log) (htype : m.type = .REQUEST) :
    ∃ (i : Nat) (c : Call), s.calls[i]? = some c ∧ m = c.message := by
  obtain ⟨before, after, hlog⟩ | ⟨n, -, hanswer⟩ := mem_outgoing hm
  · obtain ⟨i, c, hi, hmessage, -⟩ := hclient.sent before m after hlog
    exact ⟨i, c, hi, hmessage⟩
  · obtain ⟨request, -, his⟩ := hserver.answers n m hanswer
    rw [his.type] at htype
    cases htype

/-- A `RESPONSE` on the wire is the answer to a `REQUEST`. -/
theorem mem_outgoing_response (hclient : Client s) (hserver : Server s) (hsender : Sender s)
    {m : RpcMessage} (hm : m ∈ outgoing s.log) (htype : m.type = .RESPONSE) :
    ∃ j request, Effect.answered j m ∈ s.log ∧ s.received[j]? = some request ∧
      request.type = .REQUEST ∧ IsAnswer request m := by
  obtain ⟨before, after, hlog⟩ | ⟨n, he, hanswer⟩ := mem_outgoing hm
  · obtain ⟨i, c, hi, rfl, -⟩ := hclient.sent before m after hlog
    rw [(hsender.toInt_id hclient hi).1] at htype
    cases htype
  · obtain ⟨request, hr, his⟩ := hserver.answers n m hanswer
    refine ⟨n, request, he, hr, ?_, his⟩
    -- Only a `REQUEST` has answers.
    have hcount := hserver.count n
    have hpos : 0 < (answersTo n s.log).length := List.length_pos_of_mem hanswer
    rw [owed, hr, Option.map_some, Option.getD_some, RpcMessage.asks] at hcount
    by_contra hne
    rw [if_neg hne] at hcount
    omega

/-- A step keeps what is known about the messages sent. The number of a new call has not been used
by any message, so its count starts at zero. -/
theorem sender_step (h : Sender s) (hclient : Client s) (hserver : Server s) (hclient' : Client s')
    {ms : List RpcMessage} (hmoved : Moved s s' ms) : Sender s' := by
  cases hmoved with
  | called c hcalls hmessage hstage hlog _ _ =>
      constructor
      · intro d hd
        rw [hcalls, List.mem_append, List.mem_singleton] at hd
        cases hd with
        | inl hd => exact h.message d hd
        | inr hd => exact hd ▸ hmessage
      · intro i d hi
        rw [hlog, hstage]
        rw [hcalls, List.getElem?_append] at hi
        split at hi
        · exact h.count i d hi
        · rename_i hge
          have hlen := (List.getElem?_eq_some_iff.mp hi).1
          rw [List.length_singleton] at hlen
          obtain rfl : i = s.calls.length := by omega
          rw [Nat.sub_self] at hi
          cases hi
          have hnew : s'.calls[s.calls.length]? = some c := by
            rw [hcalls, List.getElem?_append_right (Nat.le_refl _), Nat.sub_self]
            rfl
          rw [hclient.unused _ (Nat.le_refl _), if_neg (by decide), List.count_eq_zero]
          -- A request with the id of the new call would come from an older one.
          intro hmem
          obtain ⟨service, method, request, hc⟩ := hmessage
          obtain ⟨j, d, hj, heq⟩ := mem_outgoing_request hclient hserver hmem (by rw [hc]; rfl)
          have hjlt := (List.getElem?_eq_some_iff.mp hj).1
          have hdj := (h.toInt_id hclient hj).2
          have hid := hclient'.ids _ _ hnew
          have hidj := hclient.ids _ _ hj
          have hsmall := hclient'.small
          have hlen' : s'.calls.length = s.calls.length + 1 := by
            rw [hcalls, List.length_append, List.length_singleton]
          have hcid : c.message.id.toInt = c.id := by
            rw [hc]
            exact toInt_ofInt_of_lt (by omega) (by omega)
          rw [heq, hdj] at hcid
          omega
  | registered i c hi hat hcalls hstage hlog _ _ =>
      constructor
      · rw [hcalls]
        exact h.message
      · intro j d hj
        rw [hcalls] at hj
        have hlog' : outgoing s'.log = outgoing s.log := by
          rw [hlog, outgoing_append]
          exact List.append_nil _
        rw [hlog', h.count j d hj, hstage]
        by_cases hji : j = i
        · subst hji
          rw [Function.update_self, hat]
          rfl
        · rw [Function.update_of_ne hji]
  | sent i c hi hat hcalls hstage hlog _ _ =>
      constructor
      · rw [hcalls]
        exact h.message
      · intro j d hj
        rw [hcalls] at hj
        rw [hlog, outgoing_append, List.count_append, h.count j d hj, hstage]
        by_cases hji : j = i
        · subst hji
          rw [hi] at hj
          cases hj
          rw [Function.update_self, hat]
          simp [outgoing, outgoingOf]
        · have hne : c.message ≠ d.message := fun heq =>
            hji (h.message_unique hclient hj hi heq.symm)
          rw [Function.update_of_ne hji]
          simp [outgoing, outgoingOf, hne]
  | handled es ms hcalls hstage hlog hes _ _ =>
      constructor
      · rw [hcalls]
        exact h.message
      · intro j d hj
        rw [hcalls] at hj
        have hnone : (outgoing es).count d.message = 0 := by
          rw [List.count_eq_zero]
          intro hmem
          have htype := hes _ hmem
          rw [(h.toInt_id hclient hj).1] at htype
          cases htype
        rw [hlog, outgoing_append, List.count_append, hnone, Nat.add_zero, hstage]
        exact h.count j d hj

end Muduo.Net.RpcChannel
