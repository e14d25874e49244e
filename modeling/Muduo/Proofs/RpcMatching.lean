import Mathlib.Data.List.Nodup
import Mathlib.Data.List.Perm.Basic
import Muduo.Proofs.RpcChannel

/-!
# `Muduo.Proofs.RpcMatching`: calls, responses and answers in every run

The channel as a server is a count. A `REQUEST` that has been received has
one answer in the log, or one closure that a service has still to run
(`Server.count`). Every answer is a `RESPONSE` with the id of its
`REQUEST`, whichever branch of `onRpcMessage` has sent it.

Together with `Client` this is an invariant of every run (`good_of_run`).
`calls_matched` reads off what it says about the calls: their ids, the
order of registration and request, the one `RESPONSE` that completes a
call, and the release of the response objects.
-/

set_option autoImplicit false

namespace Muduo.Net.RpcChannel

open Muduo.Lib

variable {s s' : RpcChannel} {c d : Call}

/-! ### Requests and answers -/

/-- The answers to the `REQUEST` with this number. -/
def answersTo (number : Nat) (log : List Effect) : List RpcMessage :=
  log.filterMap fun
    | .answered n message => if n = number then some message else none
    | _ => none

/-- A message asks for one answer when it is a `REQUEST`. -/
def RpcMessage.asks (m : RpcMessage) : Nat := if m.type = .REQUEST then 1 else 0

/-- The answers that a number asks for. -/
def owed (received : List RpcMessage) (number : Nat) : Nat :=
  (received[number]?.map RpcMessage.asks).getD 0

/-- A `RESPONSE` with the id of the `REQUEST`, which passes the `assert` of
the peer. -/
structure IsAnswer (request answer : RpcMessage) : Prop where
  type : answer.type = .RESPONSE
  id : answer.id = request.id
  fields : answer.response.isSome = true ∨ answer.error.isSome = true

/-- The channel as a server. -/
structure Server (s : RpcChannel) : Prop where
  count : ∀ n, (answersTo n s.log).length + (s.pending.map Pending.number).count n = owed s.received n
  answers : ∀ n answer, answer ∈ answersTo n s.log →
    ∃ request, s.received[n]? = some request ∧ IsAnswer request answer
  closures : ∀ p ∈ s.pending, ∃ request, s.received[p.number]? = some request ∧
    p.id = request.id.toInt

/-- A new channel owes no answer. -/
theorem server_init (services : Option ServiceMap) : Server (init services) where
  count n := rfl
  answers n answer ha := by cases ha
  closures p hp := by cases hp

theorem answersTo_append (n : Nat) (log es : List Effect) :
    answersTo n (log ++ es) = answersTo n log ++ answersTo n es := by
  rw [answersTo, List.filterMap_append]
  rfl

theorem answersTo_eq_nil {n : Nat} {es : List Effect} (h : ∀ k m, Effect.answered k m ∉ es) :
    answersTo n es = [] := by
  rw [answersTo, List.filterMap_eq_nil_iff]
  intro e he
  cases e with
  | answered k m => exact absurd he (h k m)
  | registered _ | sent _ | filled _ _ _ | ran _ _ | released _ | deleted _ => rfl

theorem answersTo_single (n k : Nat) (m : RpcMessage) :
    answersTo n [.answered k m] = if n = k then [m] else [] := by
  by_cases hn : n = k
  · rw [if_pos hn, hn]
    simp [answersTo]
  · rw [if_neg hn]
    simp [answersTo, Ne.symm hn]

/-- One more answer counts for the message that it is for. -/
theorem length_answersTo_snoc (n k : Nat) (log : List Effect) (m : RpcMessage) :
    (answersTo n (log ++ [.answered k m])).length
      = (answersTo n log).length + if n = k then 1 else 0 := by
  rw [answersTo_append, List.length_append, answersTo_single]
  split
  · rfl
  · rfl

theorem mem_answersTo_snoc {n k : Nat} {log : List Effect} {m a : RpcMessage}
    (h : a ∈ answersTo n (log ++ [.answered k m])) : a ∈ answersTo n log ∨ n = k ∧ a = m := by
  rw [answersTo_append, answersTo_single] at h
  rcases List.mem_append.mp h with hold | hlast
  · exact Or.inl hold
  · split at hlast
    · rename_i hn
      exact Or.inr ⟨hn, List.mem_singleton.mp hlast⟩
    · cases hlast

theorem owed_append (received : List RpcMessage) (m : RpcMessage) (n : Nat) :
    owed (received ++ [m]) n = owed received n + if n = received.length then m.asks else 0 := by
  rw [owed, owed, List.getElem?_append]
  split
  · rename_i hlt
    rw [if_neg (by omega)]
    rfl
  · rename_i hge
    have hold : received[n]? = none := List.getElem?_eq_none (by omega)
    rw [hold]
    by_cases hn : n = received.length
    · rw [if_pos hn, hn, Nat.sub_self]
      simp
    · have hnew : [m][n - received.length]? = none := by
        apply List.getElem?_eq_none
        rw [List.length_singleton]
        omega
      rw [if_neg hn, hnew]
      rfl

namespace Server

/-- Messages stay where they are. -/
theorem request_of_prefix {received received' : List RpcMessage} {n : Nat} {m : RpcMessage}
    (h : received <+: received') (hm : received[n]? = some m) : received'[n]? = some m := by
  obtain ⟨rest, rfl⟩ := h
  rw [List.getElem?_append_left (List.getElem?_eq_some_iff.mp hm).1]
  exact hm

/-- A step that answers nothing, on a message that asks for nothing. -/
theorem quiet {es : List Effect} (h : Server s) (hpending : s'.pending = s.pending)
    (hlog : s'.log = s.log ++ es) (hes : ∀ k m, Effect.answered k m ∉ es)
    (hreceived : s.received <+: s'.received)
    (howed : ∀ n, owed s'.received n = owed s.received n) : Server s' := by
  have hsame : ∀ n, answersTo n s'.log = answersTo n s.log := by
    intro n
    rw [hlog, answersTo_append, answersTo_eq_nil hes, List.append_nil]
  exact
    { count := by
        intro n
        rw [hsame, hpending, howed]
        exact h.count n
      answers := by
        intro n answer ha
        rw [hsame] at ha
        obtain ⟨request, hr, his⟩ := h.answers n answer ha
        exact ⟨request, request_of_prefix hreceived hr, his⟩
      closures := by
        intro p hp
        rw [hpending] at hp
        obtain ⟨request, hr, hid⟩ := h.closures p hp
        exact ⟨request, request_of_prefix hreceived hr, hid⟩ }

/-- A step of a call. -/
theorem client_step (h : Server s) (es : List Effect) (hes : ∀ k m, Effect.answered k m ∉ es)
    (hlog : s'.log = s.log ++ es) (hpending : s'.pending = s.pending)
    (hreceived : s'.received = s.received) : Server s' :=
  h.quiet hpending hlog hes (hreceived ▸ List.prefix_refl _) fun n => by rw [hreceived]

/-- A message that is no `REQUEST` asks for no answer. -/
theorem received_quiet (h : Server s) {m : RpcMessage} (hm : m.type ≠ .REQUEST)
    (hpending : s'.pending = s.pending) (hlog : s'.log = s.log)
    (hreceived : s'.received = s.received ++ [m]) : Server s' := by
  apply h.quiet hpending (hlog.trans (List.append_nil _).symm) (fun _ _ hmem => by cases hmem)
    (hreceived ▸ List.prefix_append _ _)
  intro n
  have hasks : m.asks = 0 := if_neg hm
  rw [hreceived, owed_append, hasks, ite_self, Nat.add_zero]

/-- A `REQUEST` is answered at once. -/
theorem answered (h : Server s) {m answer : RpcMessage} (hm : m.type = .REQUEST)
    (hanswer : IsAnswer m answer) :
    Server { s with
      received := s.received ++ [m], log := s.log ++ [.answered s.received.length answer] } := by
  have hasks : m.asks = 1 := if_pos hm
  have hnew : (s.received ++ [m])[s.received.length]? = some m := by simp
  exact
    { count := by
        intro n
        have hold := h.count n
        show (answersTo n (s.log ++ _)).length + (s.pending.map Pending.number).count n =
          owed (s.received ++ [m]) n
        rw [length_answersTo_snoc, owed_append, hasks]
        omega
      answers := by
        intro n a ha
        rcases mem_answersTo_snoc ha with hold | ⟨hn, hlast⟩
        · obtain ⟨request, hr, his⟩ := h.answers n a hold
          exact ⟨request, request_of_prefix (List.prefix_append _ _) hr, his⟩
        · rw [hn, hlast]
          exact ⟨m, hnew, hanswer⟩
      closures := by
        intro p hp
        obtain ⟨request, hr, hid⟩ := h.closures p hp
        exact ⟨request, request_of_prefix (List.prefix_append _ _) hr, hid⟩ }

/-- A `REQUEST` is handed to a service. -/
theorem handedOver (h : Server s) {m : RpcMessage} (hm : m.type = .REQUEST) :
    Server { s with
      received := s.received ++ [m]
      pending := s.pending ++ [⟨s.received.length, m.id.toInt⟩] } := by
  have hasks : m.asks = 1 := if_pos hm
  have hnew : (s.received ++ [m])[s.received.length]? = some m := by simp
  exact
    { count := by
        intro n
        have hold := h.count n
        show _ + ((s.pending ++ [_]).map Pending.number).count n = owed (s.received ++ [m]) n
        rw [List.map_append, List.count_append, owed_append, hasks, List.map_singleton,
          List.count_singleton, ← Nat.add_assoc, hold]
        by_cases hn : n = s.received.length
        · simp [hn]
        · simp [hn, Ne.symm hn]
      answers := by
        intro n a ha
        obtain ⟨request, hr, his⟩ := h.answers n a ha
        exact ⟨request, request_of_prefix (List.prefix_append _ _) hr, his⟩
      closures := by
        intro p hp
        cases List.mem_append.mp hp with
        | inl hold =>
            obtain ⟨request, hr, hid⟩ := h.closures p hold
            exact ⟨request, request_of_prefix (List.prefix_append _ _) hr, hid⟩
        | inr hlast =>
            rw [List.mem_singleton.mp hlast]
            exact ⟨m, hnew, rfl⟩ }

/-- A service runs its closure. -/
theorem completed (h : Server s) {i : Nat} {p : Pending} (hi : s.pending[i]? = some p)
    (bytes : List UInt8) : Server (s.doneCallback i p bytes) := by
  obtain ⟨hlt, hget⟩ := List.getElem?_eq_some_iff.mp hi
  obtain ⟨request, hr, hid⟩ := h.closures p (List.mem_of_getElem? hi)
  have hanswer : IsAnswer request
      { type := .RESPONSE, id := BitVec.ofInt 64 p.id, service := none, method := none
        request := none, response := some bytes, error := none } :=
    ⟨rfl, by rw [hid, BitVec.ofInt_toInt], Or.inl rfl⟩
  -- The closure leaves, and its answer comes.
  have hperm : (s.pending.map Pending.number).Perm
      (p.number :: (s.pending.eraseIdx i).map Pending.number) := by
    rw [← List.map_cons, ← hget]
    exact ((List.getElem_cons_eraseIdx_perm hlt).map Pending.number).symm
  exact
    { count := by
        intro n
        have hold := h.count n
        rw [hperm.count_eq, List.count_cons] at hold
        show (answersTo n (s.log ++ _)).length +
          ((s.pending.eraseIdx i).map Pending.number).count n = owed s.received n
        rw [length_answersTo_snoc, ← hold]
        by_cases hn : n = p.number
        · subst hn
          simp only [if_true, beq_self_eq_true]
          omega
        · simp [hn, Ne.symm hn]
      answers := by
        intro n a ha
        rcases mem_answersTo_snoc ha with hold | ⟨hn, hlast⟩
        · exact h.answers n a hold
        · rw [hn, hlast]
          exact ⟨request, hr, hanswer⟩
      closures := by
        intro q hq
        exact h.closures q (List.mem_of_mem_eraseIdx hq) }

end Server

/-! ### Steps and runs -/

/-- A service that runs a closure while the channel exists has its answer
sent. -/
theorem complete_eq {i : Nat} {p : Pending} {bytes : List UInt8} (hi : s.pending[i]? = some p)
    (hup : s.destroyed = false) : step s (.complete i bytes) = .ok (s.doneCallback i p bytes) := by
  rw [step, assertThat_pos hup, ok_bind, hi]
  rfl

/-- Behind the destructor the closure is bound to nothing. -/
theorem complete_dangling {i : Nat} {bytes : List UInt8} (hdown : s.destroyed = true) :
    step s (.complete i bytes) = .error .dangling := by
  have hnot : ¬ s.destroyed = false := by rw [hdown]; decide
  rw [step, assertThat_neg hnot]
  rfl

/-- The faults that a step can stop with. -/
def MayFault (s : RpcChannel) : Event → Fault → Prop
  | .call _ _ _ _ _, f => f = .overflow ∧ ¬ s.id_ + 1 < 2 ^ 63
  | .receive m, f =>
      (f = .emptyResponse ∧ m.type = .RESPONSE ∧ m.response = none ∧ m.error = none) ∨
        (f = .nullService ∧ m.type = .REQUEST ∧
          ∃ services, s.services_ = some services ∧ services (m.service.getD "") = some none)
  | .complete _ _, f => f = .dangling ∧ s.destroyed = true
  | _, _ => False

/-- A thread at a stage of its call has one. -/
theorem call_of_isAt {stage : Stage} {i : Nat} (h : s.isAt stage i = true) :
    ∃ c, s.calls[i]? = some c ∧ s.stage i = stage := by
  obtain ⟨hlt, hstage⟩ := Bool.and_eq_true_iff.mp h
  exact ⟨_, List.getElem?_eq_getElem (of_decide_eq_true hlt), eq_of_beq hstage⟩

/-- A call brings a response object and a closure that no call has. -/
theorem not_shares_of_enabled {response : Nat} {done : Option Nat} {service method : String}
    {request : List UInt8} (hen : enabled s (.call response done service method request) = true)
    {j : Nat} (hj : s.calls[j]? = some d) (hc : c.response = response ∧ c.done = done) :
    ¬ Shares d c := by
  simp only [enabled, Bool.and_eq_true, Bool.not_eq_true', List.contains_eq_mem,
    decide_eq_false_iff_not, List.any_eq_false, Bool.and_eq_true, beq_iff_eq, not_and] at hen
  have hmem := List.mem_of_getElem? hj
  intro hshares
  cases hshares with
  | inl hresponse =>
      apply hen.1.2
      rw [← hc.1, ← hresponse]
      exact List.mem_map_of_mem hmem
  | inr hdone =>
      obtain ⟨x, hd, hcd⟩ := hdone
      apply hen.2 d hmem
      · rw [hd]
        rfl
      · rw [hd, ← hc.2, hcd]

/-- No call notices an answer. -/
theorem Client.answered {n : Nat} {m : RpcMessage} (h : Client s) (hcalls : s'.calls = s.calls)
    (hid : s'.id_ = s.id_) (hmap : s'.outstandings_ = s.outstandings_)
    (hhandling : s'.handling = s.handling) (hstage : s'.stage = s.stage)
    (hlog : s'.log = s.log ++ [.answered n m]) (hreceived : s'.received = s.received)
    (hdestroyed : s'.destroyed = s.destroyed) : Client s' := by
  refine h.quiet hcalls hid hmap hhandling hstage hlog ?_ ?_ (hreceived ▸ List.prefix_refl _)
    hdestroyed
  · intro e he c
    rw [List.mem_singleton.mp he]
    rfl
  · intro x hx
    cases List.mem_singleton.mp hx

/-- What the loop thread works on. -/
theorem handling_of_enabled {progress : Progress} (hen : s.isHandling progress = true) :
    ∃ x, s.handling = some x ∧ x.progress = progress := by
  rw [isHandling, beq_iff_eq, Option.map_eq_some_iff] at hen
  exact hen

/-- The search for service and method stops only where `MayFault` says so. -/
theorem requestError_spec (m : RpcMessage) (hm : m.type = .REQUEST) :
    Ends (requestError { s with received := s.received ++ [m] } m) (MayFault s (.receive m))
      fun _ => True := by
  rw [requestError]
  cases hservices : s.services_ with
  | none => exact Ends.ok trivial
  | some services =>
      simp only
      cases hservice : services (m.service.getD "") with
      | none => exact Ends.ok trivial
      | some ptr =>
          cases ptr with
          | none => exact Ends.error (Or.inr ⟨rfl, hm, services, hservices, hservice⟩)
          | some service =>
              simp only
              cases service.findMethodByName (m.method.getD "") with
              | none => exact Ends.ok trivial
              | some method =>
                  simp only
                  split <;> exact Ends.ok trivial

/-- A `REQUEST` is answered at once, or waits for its service. -/
theorem onRequest_spec (hclient : Client s) (hserver : Server s) {m : RpcMessage}
    (hm : m.type = .REQUEST) :
    Ends (s.onRequest m) (MayFault s (.receive m)) fun s' =>
      (Client s' ∧ Server s') ∧ s'.received = s.received ++ [m] := by
  rw [onRequest]
  refine Ends.bind (requestError_spec m hm) ?_
  intro error _
  split
  · exact Ends.ok ⟨⟨(client_received hclient m).quiet rfl rfl rfl rfl rfl (List.append_nil _).symm
      (fun e he => by cases he) (fun _ hmem => by cases hmem) (List.prefix_refl _) rfl,
      hserver.handedOver hm⟩, rfl⟩
  · exact Ends.ok ⟨⟨(client_received hclient m).answered rfl rfl rfl rfl rfl rfl rfl rfl,
      hserver.answered hm ⟨rfl, rfl, Or.inr rfl⟩⟩, rfl⟩

/-- A message of any type keeps both roles good, and it is recorded as the
next one received. -/
theorem receive_spec (hclient : Client s) (hserver : Server s) (hfree : s.handling = none)
    (m : RpcMessage) :
    Ends (s.onRpcMessage m) (MayFault s (.receive m)) fun s' =>
      (Client s' ∧ Server s') ∧ s'.received = s.received ++ [m] := by
  rw [onRpcMessage]
  cases hm : m.type with
  | RESPONSE =>
      refine (onResponse_spec hclient hfree hm).mono ?_ ?_
      · intro f hf
        exact Or.inl ⟨hf.1, hm, hf.2⟩
      · intro s' hs'
        exact ⟨⟨hs'.1, hserver.received_quiet (by rw [hm]; decide) hs'.2.2.1 hs'.2.2.2.2
          hs'.2.2.2.1⟩, hs'.2.2.2.1⟩
  | REQUEST => exact onRequest_spec hclient hserver hm
  | ERROR =>
      exact Ends.ok ⟨⟨client_received hclient m,
        hserver.received_quiet (by rw [hm]; decide) rfl rfl rfl⟩, rfl⟩

/-- Every step keeps both sides, and stops only where `MayFault` says so. -/
theorem step_spec (h : Client s ∧ Server s) {e : Event} (hen : enabled s e = true) :
    Ends (step s e) (MayFault s e) fun s' => Client s' ∧ Server s' := by
  obtain ⟨hclient, hserver⟩ := h
  cases e with
  | call response done service method request =>
      rw [step, callMethod, incrementAndGet]
      -- The counter must not pass the largest `int64_t`.
      split
      · rename_i hsmall
        have hnew := fun (j : Nat) d (hj : s.calls[j]? = some d) =>
          not_shares_of_enabled (c := ⟨s.id_ + 1, response, done,
            requestMessage (s.id_ + 1) service method request⟩) hen hj ⟨rfl, rfl⟩
        exact Ends.ok ⟨client_call hclient hsmall rfl hnew,
          hserver.quiet rfl (List.append_nil _).symm (fun _ _ hmem => by cases hmem)
            (List.prefix_refl _) fun _ => rfl⟩
      · rename_i hlarge
        exact Ends.error ⟨rfl, hlarge⟩
  | register i =>
      obtain ⟨c, hi, hstage⟩ := call_of_isAt hen
      rw [step, hi]
      exact Ends.ok ⟨client_register hclient hi hstage,
        hserver.client_step [.registered c.id] (by simp) rfl rfl rfl⟩
  | send i =>
      obtain ⟨c, hi, hstage⟩ := call_of_isAt hen
      rw [step, hi]
      exact Ends.ok ⟨client_send hclient hi hstage,
        hserver.client_step [.sent c.message] (by simp) rfl rfl rfl⟩
  | receive m =>
      simp only [enabled, Bool.and_eq_true, Bool.not_eq_true', Option.isNone_iff_eq_none] at hen
      exact (receive_spec hclient hserver hen.2 m).imp fun _ h => h.1
  | fill =>
      obtain ⟨x, hx, hprogress⟩ := handling_of_enabled hen
      rw [step, hx]
      have hserver' : Server (s.fill x) := by
        rw [fill_eq]
        exact hserver.client_step _ (by simp) rfl rfl rfl
      exact Ends.ok ⟨client_fill hclient hx hprogress, hserver'⟩
  | run =>
      obtain ⟨x, hx, hprogress⟩ := handling_of_enabled hen
      rw [step, hx]
      have hserver' : Server (s.run x) := by
        rw [run_eq]
        exact hserver.client_step _ (by simp) rfl rfl rfl
      exact Ends.ok ⟨client_run hclient hx hprogress, hserver'⟩
  | release =>
      obtain ⟨x, hx, hprogress⟩ := handling_of_enabled hen
      rw [step, hx]
      exact Ends.ok ⟨client_release hclient hx hprogress,
        hserver.client_step [.released x.response] (by simp) rfl rfl rfl⟩
  | complete i bytes =>
      obtain ⟨p, hi⟩ := Option.isSome_iff_exists.mp hen
      cases hup : s.destroyed with
      | false =>
          rw [complete_eq hi hup]
          exact Ends.ok ⟨hclient.answered rfl rfl rfl rfl rfl rfl rfl rfl,
            hserver.completed hi bytes⟩
      | true =>
          rw [complete_dangling hup]
          exact Ends.error ⟨rfl, hup⟩
  | destroy =>
      simp only [enabled, Bool.and_eq_true, Bool.not_eq_true', Option.isNone_iff_eq_none,
        List.all_eq_true, List.mem_range, isAt, decide_eq_true_eq, beq_iff_eq] at hen
      have hreturned : ∀ i, i < s.calls.length → s.stage i = .returned :=
        fun i hi => (hen.2 i hi).2
      have hes : ∀ k m, Effect.answered k m ∉
          s.outstandings_.toList.flatMap fun entry => entry.2.delete := by
        intro k m hmem
        obtain ⟨i, c, -, hc⟩ := hclient.deleted hmem
        cases hc
      exact Ends.ok ⟨client_destroy hclient hen.1.2 hreturned,
        hserver.client_step _ hes rfl rfl rfl⟩

/-- Both roles, after every run. -/
theorem good_of_run {services : Option ServiceMap} {es : List Event}
    (hrun : machine.Run (init services) es s) : Client s ∧ Server s := by
  refine Machine.Run.invariant (I := fun t => Client t ∧ Server t)
    ⟨client_init services, server_init services⟩ ?_ hrun
  intro t e u ht hen hstep
  exact (step_spec ht hen).post hstep

/-! ### What the places say -/

/-- The story of a call so far, in every place. -/
theorem Place.story_cases {stage : Stage} (h : Place s stage c) :
    story c s.log = [] ∨
      (∃ n m, Answers s c n m ∧ story c s.log <+: completion c n m) ∨
      (s.destroyed = true ∧ story c s.log = abandonment c) := by
  cases h with
  | thread _ _ _ hs => exact Or.inl hs
  | map _ _ _ hs => exact Or.inl hs
  | loop x _ _ _ _ ha hs =>
      refine Or.inr (Or.inl ⟨x.number, x.message, ha, ?_⟩)
      rw [hs, completion]
      cases x.progress with
      | found => exact List.nil_prefix
      | filled =>
          rw [List.append_assoc]
          exact List.prefix_append _ _
      | ran => exact List.prefix_append _ _
  | completed n m _ _ _ ha hs =>
      exact Or.inr (Or.inl ⟨n, m, ha, hs ▸ List.prefix_refl _⟩)
  | abandoned _ _ _ hd hs => exact Or.inr (Or.inr ⟨hd, hs⟩)

/-- A run of this closure. -/
def Effect.isRun (done : Nat) : Effect → Bool
  | .ran d _ => d == done
  | _ => false

/-- What is counted about a call is counted in its story. -/
theorem countP_story (p : Effect → Bool) (c : Call) (log : List Effect)
    (hp : ∀ e, p e = true → e.concerns c = true) : log.countP p = (story c log).countP p := by
  rw [story, List.countP_filter]
  apply List.countP_congr
  intro e _
  constructor
  · intro he
    rw [Bool.and_eq_true]
    exact ⟨he, hp e he⟩
  · intro he
    rw [Bool.and_eq_true] at he
    exact he.1

/-- One response fills, runs and releases once. -/
theorem countP_completion_run (c : Call) (n : Nat) (m : RpcMessage) (done : Nat) :
    (completion c n m).countP (Effect.isRun done) ≤ 1 := by
  have hfill : (fillOf c n m).countP (Effect.isRun done) = 0 := by
    rw [fillOf]
    cases m.response <;> rfl
  have hrun : (runOf c n).countP (Effect.isRun done) ≤ 1 := by
    rw [runOf]
    cases c.done with
    | none => exact Nat.zero_le _
    | some d => exact List.countP_le_length
  have hrelease : [Effect.released c.response].countP (Effect.isRun done) = 0 := rfl
  rw [completion, List.countP_append, List.countP_append, hfill, hrelease]
  omega

theorem countP_abandonment_run (c : Call) (done : Nat) :
    (abandonment c).countP (Effect.isRun done) = 0 := by
  rw [abandonment]
  cases c.done <;> rfl

theorem count_completion_release (c : Call) (n : Nat) (m : RpcMessage) :
    (completion c n m).countP (· == Effect.released c.response) = 1 := by
  have hfill : (fillOf c n m).countP (· == Effect.released c.response) = 0 := by
    rw [fillOf]
    cases m.response <;> rfl
  have hrun : (runOf c n).countP (· == Effect.released c.response) = 0 := by
    rw [runOf]
    cases c.done <;> rfl
  rw [completion, List.countP_append, List.countP_append, hfill, hrun]
  simp

theorem count_abandonment_release (c : Call) :
    (abandonment c).countP (· == Effect.released c.response) = 1 := by
  have hdone : ((c.done.map Effect.deleted).toList).countP (· == Effect.released c.response) = 0 := by
    cases c.done <;> rfl
  rw [abandonment, List.countP_cons, hdone]
  simp

/-- The closure of a call runs at most once. -/
theorem Place.run_le_one {stage : Stage} (h : Place s stage c) {done : Nat}
    (hdone : c.done = some done) : s.log.countP (Effect.isRun done) ≤ 1 := by
  have hconcerns : ∀ e, Effect.isRun done e = true → e.concerns c = true := by
    intro e he
    cases e with
    | ran d n =>
        rw [Effect.isRun, beq_iff_eq] at he
        rw [Effect.concerns, hdone, he]
        exact beq_self_eq_true _
    | registered _ | sent _ | filled _ _ _ | released _ | deleted _ | answered _ _ => cases he
  rw [countP_story _ c _ hconcerns]
  rcases h.story_cases with hnil | ⟨n, m, -, hpre⟩ | ⟨-, hall⟩
  · rw [hnil]
    exact Nat.zero_le _
  · exact Nat.le_trans hpre.sublist.countP_le (countP_completion_run c n m done)
  · rw [hall, countP_abandonment_run]
    exact Nat.zero_le _

theorem concerns_released (c : Call) :
    ∀ e, (e == Effect.released c.response) = true → e.concerns c = true := by
  intro e he
  rw [beq_iff_eq.mp he]
  exact beq_self_eq_true _

/-- The response object of a call is deleted at most once. -/
theorem Place.release_le_one {stage : Stage} (h : Place s stage c) :
    s.log.countP (· == Effect.released c.response) ≤ 1 := by
  rw [countP_story _ c _ (concerns_released c)]
  rcases h.story_cases with hnil | ⟨n, m, -, hpre⟩ | ⟨-, hall⟩
  · rw [hnil]
    exact Nat.zero_le _
  · exact Nat.le_trans hpre.sublist.countP_le (Nat.le_of_eq (count_completion_release c n m))
  · rw [hall]
    exact Nat.le_of_eq (count_abandonment_release c)

/-- The destructor leaves every call completed or abandoned. -/
theorem release_eq_one_of_destroy (h : Client s) (hen : enabled s .destroy = true)
    {i : Nat} (hi : s.calls[i]? = some c) :
    s.destroy.log.countP (· == Effect.released c.response) = 1 := by
  simp only [enabled, Bool.and_eq_true, Bool.not_eq_true', Option.isNone_iff_eq_none,
    List.all_eq_true, List.mem_range, isAt, decide_eq_true_eq, beq_iff_eq] at hen
  have hreturned : ∀ i, i < s.calls.length → s.stage i = .returned := fun i hi => (hen.2 i hi).2
  rw [countP_story _ c _ (concerns_released c)]
  cases (client_destroy h hen.1.2 hreturned).place i c hi with
  | thread hstage _ _ _ =>
      have hnot := hreturned i (List.getElem?_eq_some_iff.mp hi).1
      rw [show s.destroy.stage i = s.stage i from rfl, hnot] at hstage
      cases hstage
  | map _ hm _ _ =>
      rw [destroy, Std.ExtTreeMap.getElem?_empty] at hm
      cases hm
  | loop x _ _ hh _ _ _ =>
      have hidle : handlingOf s.destroy c = none := by
        rw [handlingOf, show s.destroy.handling = s.handling from rfl, hen.1.2]
        rfl
      rw [hidle] at hh
      cases hh
  | completed n m _ _ _ _ hs => rw [hs, count_completion_release]
  | abandoned _ _ _ _ hs => rw [hs, count_abandonment_release]

/-- A `RESPONSE` for no call, or for one that is not registered or already
completed, changes nothing. -/
theorem receive_unknown (h : Client s) {m : RpcMessage} (htype : m.type = .RESPONSE)
    (hfields : m.response.isSome = true ∨ m.error.isSome = true)
    (hunknown : ∀ (i : Nat) c, s.calls[i]? = some c → c.id = m.id.toInt →
      s.stage i = .numbered ∨ Effect.released c.response ∈ s.log) :
    step s (.receive m) = .ok { s with received := s.received ++ [m] } := by
  have hnone : s.outstandings_[m.id.toInt]? = none := by
    cases hout : s.outstandings_[m.id.toInt]? with
    | none => rfl
    | some out =>
        obtain ⟨i, c, hi, hid, -⟩ := h.entries _ out hout
        obtain ⟨hstage, hs⟩ := h.waiting hi (hid ▸ hout)
        cases hunknown i c hi hid with
        | inl heq => exact absurd heq hstage
        | inr hmem =>
            have hstory : Effect.released c.response ∈ story c s.log :=
              List.mem_filter.mpr ⟨hmem, beq_self_eq_true _⟩
            rw [hs] at hstory
            cases hstory
  simp only [step, onRpcMessage, htype, onResponse, assertThat_pos hfields, ok_bind, hnone,
    except_pure]

/-! ### Every run -/

/-- No two calls have the same id. -/
theorem nodup_ids (h : Client s) : (s.calls.map Call.id).Nodup := by
  rw [List.nodup_iff_getElem?_ne_getElem?]
  intro i j hij hj heq
  rw [List.length_map] at hj
  have hi : i < s.calls.length := by omega
  rw [List.getElem?_map, List.getElem?_map, List.getElem?_eq_getElem hi,
    List.getElem?_eq_getElem hj, Option.map_some, Option.map_some, Option.some.injEq] at heq
  have hci := h.ids i _ (List.getElem?_eq_getElem hi)
  have hcj := h.ids j _ (List.getElem?_eq_getElem hj)
  omega

/-- The calls and the requests of every run, of any number of threads with
any peer.

* The ids of the calls are pairwise distinct.
* A call is registered in `outstandings_` before its request is sent.
* The story of a call is empty, or it is a part of what one `RESPONSE` with
  its id does, or the destructor has deleted the call. So the closure runs
  at most once, and the response object is filled from that message only
  and released at most once.
* The destructor leaves every response object released exactly once.
* A `RESPONSE` for an unknown or a completed call changes nothing.
* Every message that is received is recorded, and every `REQUEST` among
  them has one answer, or a closure that its service has still to run. The
  answer is a `RESPONSE` with the id of the `REQUEST`.
* A service that runs a closure while the channel exists has the `RESPONSE`
  with its bytes sent, and the closure is gone. Behind the destructor the
  closure is bound to nothing.
* A step stops only as `MayFault` says. -/
theorem calls_matched {services : Option ServiceMap} {es : List Event}
    (hrun : machine.Run (init services) es s) :
    (s.calls.map Call.id).Nodup ∧
      (∀ before m after, s.log = before ++ .sent m :: after →
        ∃ c ∈ s.calls, m = c.message ∧ Effect.registered c.id ∈ before) ∧
      (∀ c ∈ s.calls,
        (story c s.log = [] ∨
          (∃ n m, Answers s c n m ∧ story c s.log <+: completion c n m) ∨
          (s.destroyed = true ∧ story c s.log = abandonment c)) ∧
        (∀ done, c.done = some done → s.log.countP (Effect.isRun done) ≤ 1) ∧
        s.log.countP (· == Effect.released c.response) ≤ 1) ∧
      (machine.enabled s .destroy → machine.step s .destroy = .ok s.destroy ∧
        ∀ c ∈ s.calls, s.destroy.log.countP (· == Effect.released c.response) = 1) ∧
      (∀ m, m.type = .RESPONSE → (m.response.isSome = true ∨ m.error.isSome = true) →
        (∀ (i : Nat) c, s.calls[i]? = some c → c.id = m.id.toInt →
          s.stage i = .numbered ∨ Effect.released c.response ∈ s.log) →
        machine.step s (.receive m) = .ok { s with received := s.received ++ [m] }) ∧
      (∀ (n : Nat) m, s.received[n]? = some m → m.type = .REQUEST →
        (answersTo n s.log).length + (s.pending.map Pending.number).count n = 1 ∧
          ∀ answer ∈ answersTo n s.log, IsAnswer m answer) ∧
      (∀ m s', machine.enabled s (.receive m) → machine.step s (.receive m) = .ok s' →
        s'.received = s.received ++ [m]) ∧
      (∀ (i : Nat) p bytes, s.pending[i]? = some p → ∃ m, s.received[p.number]? = some m ∧
        machine.step s (.complete i bytes) = if s.destroyed then .error .dangling else .ok { s with
          pending := s.pending.eraseIdx i
          log := s.log ++
            [.answered p.number ⟨.RESPONSE, m.id, none, none, none, some bytes, none⟩] }) ∧
      ∀ e, machine.enabled s e → Ends (machine.step s e) (MayFault s e) fun _ => True := by
  have hgood := good_of_run hrun
  have hclient := hgood.1
  have hserver := hgood.2
  have hat : ∀ c ∈ s.calls, ∃ i : Nat, s.calls[i]? = some c :=
    fun c hc => List.mem_iff_getElem?.mp hc
  refine ⟨nodup_ids hclient, ?_, ?_, ?_, ?_, ?_, ?_, ?_, ?_⟩
  · intro before m after heq
    obtain ⟨i, c, hi, hm, hreg⟩ := hclient.sent before m after heq
    exact ⟨c, List.mem_of_getElem? hi, hm, hreg⟩
  · intro c hc
    obtain ⟨i, hi⟩ := hat c hc
    have hplace := hclient.place i c hi
    exact ⟨hplace.story_cases, fun done hdone => hplace.run_le_one hdone, hplace.release_le_one⟩
  · intro hen
    refine ⟨rfl, ?_⟩
    intro c hc
    obtain ⟨i, hi⟩ := hat c hc
    exact release_eq_one_of_destroy hclient hen hi
  · intro m htype hfields hunknown
    exact receive_unknown hclient htype hfields hunknown
  · intro n m hn htype
    have hcount := hserver.count n
    rw [owed, hn, Option.map_some, Option.getD_some, RpcMessage.asks, if_pos htype] at hcount
    refine ⟨hcount, ?_⟩
    intro answer ha
    obtain ⟨request, hr, his⟩ := hserver.answers n answer ha
    rw [hn] at hr
    cases hr
    exact his
  · intro m s' hen hstep
    obtain ⟨-, hfree⟩ := Bool.and_eq_true_iff.mp hen
    exact ((receive_spec hclient hserver (Option.isNone_iff_eq_none.mp hfree) m).post hstep).2
  · intro i p bytes hi
    obtain ⟨m, hm, hid⟩ := hserver.closures p (List.mem_of_getElem? hi)
    refine ⟨m, hm, ?_⟩
    by_cases hdown : s.destroyed = true
    · rw [if_pos hdown]
      exact complete_dangling hdown
    · -- The id goes through `int64_t` and back.
      have hback : BitVec.ofInt 64 p.id = m.id := by rw [hid, BitVec.ofInt_toInt]
      rw [if_neg hdown]
      refine (complete_eq hi (eq_false_of_ne_true hdown)).trans ?_
      rw [doneCallback, hback]
  · intro e hen
    exact (step_spec hgood hen).imp fun _ _ => trivial

/-- Every service there is, with a method of every name. -/
def anyService : ServiceMap := fun _ => some (some ⟨fun _ => some ⟨fun _ => true⟩⟩)

/-- Two calls. The response to the second one comes first, and it comes
twice. Behind that a request arrives, and its service completes it. -/
def reordered : List Event :=
  [.call 10 (some 20) "echo.EchoService" "Echo" [1], .register 0,
    .call 11 (some 21) "echo.EchoService" "Echo" [2], .send 0, .register 1, .send 1,
    .receive ⟨.RESPONSE, 2#64, none, none, none, some [5], none⟩, .fill, .run, .release,
    .receive ⟨.RESPONSE, 2#64, none, none, none, some [6], none⟩,
    .receive ⟨.REQUEST, 7#64, some "echo.EchoService", some "Echo", some [3], none, none⟩,
    .complete 0 [4]]

/-- The closure of the second call has run once, for the first of its two
responses, and the request is answered with its id. The destructor then
releases what is left. -/
theorem calls_matched_reordered :
    ∃ s, machine.Run (init (some anyService)) reordered s ∧
      (s.pending, s.log.filter (Effect.isRun 21), answersTo 2 s.log) =
        ([], [.ran 21 0], [⟨.RESPONSE, 7#64, none, none, none, some [4], none⟩]) ∧
      (s.calls.map Call.id).Nodup ∧
      ∀ c ∈ s.calls, s.destroy.log.countP (· == Effect.released c.response) = 1 := by
  have heval : (machine.exec (init (some anyService)) reordered).map (fun s =>
      ((s.pending, s.log.filter (Effect.isRun 21), answersTo 2 s.log), enabled s .destroy)) =
      some (([], [.ran 21 0], [⟨.RESPONSE, 7#64, none, none, none, some [4], none⟩]), true) := by
    decide +kernel
  obtain ⟨s, hs, hval⟩ := Machine.exists_run_of_exec heval
  have hmatched := calls_matched hs
  exact ⟨s, hs, (Prod.ext_iff.mp hval).1, hmatched.1,
    (hmatched.2.2.2.1 (Prod.ext_iff.mp hval).2).2⟩

end Muduo.Net.RpcChannel
