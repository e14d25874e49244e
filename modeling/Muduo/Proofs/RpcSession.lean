import Mathlib.Data.Countable.Basic
import Mathlib.Logic.Equiv.List
import Muduo.Proofs.ProtobufLink
import Muduo.Proofs.RpcTraffic

/-!
# `Muduo.Proofs.RpcSession`: a call gets the answer to its own request

Two channels, and between them two streams of bytes that the network cuts
into chunks as it likes. `Good` is the invariant of a session: both
channels are good by themselves (`Client`, `Server`, `Sender`), and each
stream is a queue of messages (`ProtobufCodecLite.Link`).

`Good.origin` goes the way of an answer backwards. A `RESPONSE` that has
been received was sent by the peer, as the answer to a `REQUEST` that the
peer had received. This was sent by a call with the same id, so by the
call that the `RESPONSE` is for. In particular no answer comes before its
call is in `outstandings_`, and none is lost (`Good.waiting`).

`session_answers_calls` is the result: in every run every call is completed
with the answer to its own request, and when nothing is on the way any
more every call has been completed.
-/

set_option autoImplicit false

namespace Muduo.Net.RpcSession

open Muduo.Base
open Muduo.Lib
open RpcChannel
open ProtobufCodecLite (Link)

variable {codec : ProtobufCodecLite RpcMessage} {s s' : RpcSession} {x y : Side}

/-! ### The two sides -/

/-- What holds on both sides. -/
theorem Side.forall {P : Side → Prop} (hleft : P .left) (hright : P .right) (x : Side) : P x := by
  cases x with
  | left => exact hleft
  | right => exact hright

/-- The peer of the peer. -/
@[simp] theorem Side.peer_peer : ∀ x : Side, x.peer.peer = x := Side.forall rfl rfl

/-- The two sides are different. -/
theorem Side.peer_ne : ∀ x : Side, x.peer ≠ x := Side.forall (by decide) (by decide)

/-- There are only two sides, so a claim about every side splits into one about `x` and one about
its peer. -/
theorem Side.eq_or_eq_peer : ∀ x y : Side, y = x ∨ y = x.peer :=
  Side.forall (Side.forall (.inl rfl) (.inr rfl)) (Side.forall (.inr rfl) (.inl rfl))

/-! ### The invariant -/

/-- Every message sent so far fits into a frame. -/
def AllFit (codec : ProtobufCodecLite RpcMessage) (s : RpcSession) : Prop :=
  ∀ x, ∀ m ∈ outgoing (s.channel x).log, codec.Fits m

/-- The invariant of a session: both channels are in order, and each stream is a queue of messages.
-/
structure Good (codec : ProtobufCodecLite RpcMessage) (s : RpcSession) : Prop where
  client : ∀ x, Client (s.channel x)
  server : ∀ x, Server (s.channel x)
  sender : ∀ x, Sender (s.channel x)
  link : ∀ x, Link codec (outgoing (s.channel x.peer).log) (s.wire x).inFlight
    (s.wire x).inputBuffer_ ((s.channel x).received ++ (s.wire x).queue)
  /-- A call in `outstandings_` has not been answered. -/
  waiting : ∀ x (i : Nat) c, (s.channel x).calls[i]? = some c →
    (s.channel x).outstandings_[c.id]? ≠ none →
    ∀ m ∈ (s.channel x).received, m.type = .RESPONSE → m.id.toInt ≠ c.id

/-- A session starts with empty channels and empty streams. -/
theorem good_init (services : Side → Option ServiceMap) : Good codec (init services) where
  client x := client_init (services x)
  server x := server_init (services x)
  sender x := sender_init (services x)
  link x := Link.init codec
  waiting x i c hi := by cases hi

/-- The messages handled and found are a first part of the messages sent. -/
theorem Good.prefix_sent (h : Good codec s) (hc : codec.Lossless) (hfits : AllFit codec s)
    (x : Side) : (s.channel x).received ++ (s.wire x).queue <+: outgoing (s.channel x.peer).log :=
  (h.link x).prefix_sent hc (hfits x.peer)

/-- A message that was received has been sent by the peer. -/
theorem Good.mem_sent (h : Good codec s) (hc : codec.Lossless) (hfits : AllFit codec s)
    {m : RpcMessage} (hm : m ∈ (s.channel x).received) :
    m ∈ outgoing (s.channel x.peer).log :=
  (h.prefix_sent hc hfits x).subset (List.mem_append_left _ hm)

/-- Where a `RESPONSE` comes from. -/
theorem Good.origin (h : Good codec s) (hc : codec.Lossless) (hfits : AllFit codec s)
    {m : RpcMessage} (hm : m ∈ (s.channel x).received) (htype : m.type = .RESPONSE) :
    ∃ (j i : Nat) (c : Call), (s.channel x).calls[i]? = some c ∧ c.id = m.id.toInt ∧
      (s.channel x).stage i = .returned ∧
      (s.channel x.peer).received[j]? = some c.message ∧
      Effect.answered j m ∈ (s.channel x.peer).log := by
  obtain ⟨j, request, hanswered, hj, hrequest, his⟩ := mem_outgoing_response (h.client x.peer)
    (h.server x.peer) (h.sender x.peer) (h.mem_sent hc hfits hm) htype
  have hsent : request ∈ outgoing (s.channel x).log := by
    have hmem := h.mem_sent hc hfits (List.mem_of_getElem? hj)
    rwa [Side.peer_peer] at hmem
  obtain ⟨i, c, hi, rfl⟩ := mem_outgoing_request (h.client x) (h.server x) hsent hrequest
  have hid := ((h.sender x).toInt_id (h.client x) hi).2
  refine ⟨j, i, c, hi, ?_, ?_, hj, hanswered⟩
  · rw [his.id, hid]
  · by_contra hstage
    have hcount := (h.sender x).count i c hi
    rw [if_neg hstage, List.count_eq_zero] at hcount
    exact hcount hsent

/-! ### A step of a channel -/

/-- The part of `Good.waiting` that a step of the channel `x` can break. -/
theorem Good.waiting_step (h : Good codec s) (hc : codec.Lossless) (hfits : AllFit codec s)
    {channel : RpcChannel} {ms : List RpcMessage} (hmoved : Moved (s.channel x) channel ms)
    (hclient : Client channel) {i : Nat} {c : Call} (hi : channel.calls[i]? = some c)
    (hout : channel.outstandings_[c.id]? ≠ none) {m : RpcMessage} (hm : m ∈ channel.received)
    (htype : m.type = .RESPONSE) : m.id.toInt ≠ c.id := by
  cases hmoved with
  | called d hcalls _ _ _ hreceived hmap =>
      rw [hreceived] at hm
      rw [hmap] at hout
      -- The entry belongs to a call that was there before.
      obtain ⟨out, hentry⟩ := Option.ne_none_iff_exists'.mp hout
      obtain ⟨j, e, hj, hid, -⟩ := (h.client x).entries _ out hentry
      have hjlt := (List.getElem?_eq_some_iff.mp hj).1
      have hj' : channel.calls[j]? = some e := by rw [hcalls, List.getElem?_append_left hjlt, hj]
      obtain ⟨-, rfl⟩ := call_unique hclient hj' hi hid
      exact h.waiting x j e hj hout m hm htype
  | registered j d hj hat hcalls _ _ hreceived hmap =>
      rw [hreceived] at hm
      rw [hcalls] at hi
      intro heq
      obtain ⟨_, k, e, hk, hid, hstage, _⟩ := h.origin hc hfits hm htype
      obtain ⟨rfl, rfl⟩ := call_unique (h.client x) hk hi (hid.trans heq)
      by_cases hdc : d.id = e.id
      · -- A call that is being registered has sent nothing.
        obtain ⟨rfl, -⟩ := call_unique (h.client x) hj hk hdc
        rw [hat] at hstage
        cases hstage
      · rw [hmap, getElem?_insert_eq, if_neg hdc] at hout
        exact h.waiting x k e hk hout m hm htype heq
  | sent j d _ _ hcalls _ _ hreceived hmap =>
      rw [hreceived] at hm
      rw [hcalls] at hi
      rw [hmap] at hout
      exact h.waiting x i c hi hout m hm htype
  | handled es ms hcalls _ _ _ hreceived hmap =>
      obtain ⟨hout', hnew⟩ := hmap _ hout
      rw [hcalls] at hi
      rw [hreceived, List.mem_append] at hm
      cases hm with
      | inl hm => exact h.waiting x i c hi hout' m hm htype
      | inr hm => exact hnew m hm htype

/-- A step of the channel `x`, which sends the messages of `es` and takes
the messages `ms` from its queue. -/
theorem Good.moved (h : Good codec s) (hc : codec.Lossless) (hfits : AllFit codec s)
    {ms : List RpcMessage} {es : List Effect}
    (hmoved : Moved (s.channel x) (s'.channel x) ms) (hclient : Client (s'.channel x))
    (hserver : Server (s'.channel x)) (hlog : (s'.channel x).log = (s.channel x).log ++ es)
    (hpeer : s'.channel x.peer = s.channel x.peer)
    (hqueue : (s.wire x).queue = ms ++ (s'.wire x).queue)
    (hin : (s'.wire x).inFlight = (s.wire x).inFlight)
    (hbuffer : (s'.wire x).inputBuffer_ = (s.wire x).inputBuffer_)
    (hout : s'.wire x.peer = { s.wire x.peer with
      inFlight := (s.wire x.peer).inFlight ++ codec.frames (outgoing es) }) :
    Good codec s' := by
  -- Each part is about one of the two sides.
  constructor
  · intro y
    obtain rfl | rfl := Side.eq_or_eq_peer x y
    · exact hclient
    · exact hpeer ▸ h.client _
  · intro y
    obtain rfl | rfl := Side.eq_or_eq_peer x y
    · exact hserver
    · exact hpeer ▸ h.server _
  · intro y
    obtain rfl | rfl := Side.eq_or_eq_peer x y
    · exact sender_step (h.sender y) (h.client y) (h.server y) hclient hmoved
    · exact hpeer ▸ h.sender _
  · intro y
    obtain rfl | rfl := Side.eq_or_eq_peer x y
    · have hlink := h.link y
      rw [hpeer, hin, hbuffer, hmoved.received_eq, List.append_assoc, ← hqueue]
      exact hlink
    · have hlink := (h.link x.peer).send (outgoing es)
      rw [Side.peer_peer] at hlink ⊢
      rw [hlog, outgoing_append, hpeer, hout]
      exact hlink
  · intro y i c hi hentry m hm htype
    obtain rfl | rfl := Side.eq_or_eq_peer x y
    · exact h.waiting_step hc hfits hmoved hclient hi hentry hm htype
    · rw [hpeer] at hi hentry hm
      exact h.waiting _ i c hi hentry m hm htype

/-- What `transmit` does with messages that fit. -/
theorem transmit_eq (hc : codec.Lossless) {channel : RpcChannel} {es : List Effect}
    (hlog : channel.log = (s.channel x).log ++ es) (hfits : ∀ m ∈ outgoing es, codec.Fits m) :
    transmit codec s x channel = .ok {
      channel := Function.update s.channel x channel
      wire := Function.update s.wire x.peer { s.wire x.peer with
        inFlight := (s.wire x.peer).inFlight ++ codec.frames (outgoing es) } } := by
  obtain ⟨bufs, hbufs, hframes⟩ := ProtobufCodecLite.mapM_frames hc hfits
  rw [transmit, hlog, List.drop_left]
  simp only [hbufs, mapError_ok, ok_bind, except_pure, hframes]

/-- Sending changes the channel of its own side only. -/
theorem channel_of_transmit {channel : RpcChannel} (h : transmit codec s x channel = .ok s') :
    s'.channel x = channel ∧ s'.channel x.peer = s.channel x.peer := by
  rw [transmit] at h
  obtain ⟨bufs, -, h⟩ := except_bind_eq_ok.mp h
  cases h
  exact ⟨Function.update_self _ _ _, Function.update_of_ne (Side.peer_ne x) _ _⟩

/-- A step of the channel `x`, from a session that has taken the messages
`e.arrival` from the queue of `x`. -/
theorem good_act {e : RpcChannel.Event} {queue : List RpcMessage} (h : Good codec s)
    (hc : codec.Lossless) (hfits : AllFit codec s) (hfits' : AllFit codec s')
    (hqueue : (s.wire x).queue = e.arrival ++ queue) (hen : (s.channel x).enabled e = true)
    (hstep : act codec (s.setQueue x queue) x e = .ok s') : Good codec s' := by
  rw [act] at hstep
  obtain ⟨channel, hchannel, htransmit⟩ := except_bind_eq_ok.mp hstep
  have hchannel' : (s.channel x).step e = .ok channel := mapError_eq_ok hchannel
  have hmoved := step_moved hen hchannel'
  obtain ⟨es, hes⟩ := hmoved.log_grows
  obtain ⟨hclient, hserver⟩ := (step_spec ⟨h.client x, h.server x⟩ hen).post hchannel'
  obtain ⟨hx, hpeer⟩ := channel_of_transmit htransmit
  have hnew : ∀ m ∈ outgoing es, codec.Fits m := by
    intro m hm
    refine hfits' x m ?_
    rw [hx, ← hes, outgoing_append]
    exact List.mem_append_right _ hm
  rw [transmit_eq (s := s.setQueue x queue) (x := x) hc hes.symm hnew] at htransmit
  have heq := Except.ok.inj htransmit
  have hne := Side.peer_ne x
  have hwire : s'.wire x = ⟨(s.wire x).inFlight, (s.wire x).inputBuffer_, queue⟩ := by
    rw [← heq]
    simp only [setQueue, Function.update_of_ne hne.symm, Function.update_self]
  have hout : s'.wire x.peer = { s.wire x.peer with
      inFlight := (s.wire x.peer).inFlight ++ codec.frames (outgoing es) } := by
    rw [← heq]
    simp only [setQueue, Function.update_of_ne hne, Function.update_self]
  exact h.moved hc hfits (x := x) (hx ▸ hmoved) (hx ▸ hclient) (hx ▸ hserver) (hx ▸ hes.symm) hpeer
    (by rw [hwire]; exact hqueue) (by rw [hwire]) (by rw [hwire]) hout

/-! ### Every step -/

/-- The one fault of an arrival at `x`: the peer has sent more bytes than a
vector can hold. -/
def Overflows (codec : ProtobufCodecLite RpcMessage) (s : RpcSession) (x : Side) (f : Fault) : Prop :=
  Buffer.Full (.codec (.buffer .lengthError)) Buffer.default.buffer_.length
    (codec.frames (outgoing (s.channel x.peer).log)) f

/-- A chunk that arrives is decoded without an error. -/
theorem arrive_spec (h : Good codec s) (hc : codec.Lossless) (hfits : AllFit codec s)
    {chunk : Chunk} (hchunk : chunk.1.bytes <+: (s.wire x).inFlight) :
    Ends (arrive codec s x chunk) (Overflows codec s x) (Good codec) := by
  rw [arrive]
  have hspec := (h.link x).arrive hc (hfits x.peer) hchunk
  refine Ends.bind (Ends.mapError (hspec.mono ?_ fun r hr => hr)) ?_
  · intro f hf
    exact ⟨congrArg Fault.codec hf.1, hf.2⟩
  · rintro ⟨b, calls⟩ ⟨herrors, hlink⟩
    simp only [herrors]
    refine Ends.ok ⟨h.client, h.server, h.sender, ?_, h.waiting⟩
    intro y
    by_cases hyx : y = x
    · subst hyx
      simp only [Function.update_self]
      rw [← List.append_assoc]
      exact hlink
    · simp only [Function.update_of_ne hyx]
      exact h.link y

/-- A step of a channel that the session takes by itself is no arrival of a message. -/
theorem enabled_act {e : RpcChannel.Event} (hen : enabled s (.act x e) = true) :
    (s.channel x).enabled e = true ∧ e.arrival = [] := by
  cases e with
  | receive m => cases hen
  | destroy => exact ⟨(Bool.and_eq_true_iff.mp hen).2, rfl⟩
  | _ => exact ⟨hen, rfl⟩

/-- The channels only add to their logs. -/
theorem log_grows {e : Event} (hen : enabled s e = true) (hstep : step codec s e = .ok s')
    (y : Side) : (s.channel y).log <+: (s'.channel y).log := by
  have hact : ∀ {t : RpcSession} {x : Side} {e : RpcChannel.Event}, t.channel = s.channel →
      (s.channel x).enabled e = true → act codec t x e = .ok s' →
      (s.channel y).log <+: (s'.channel y).log := by
    intro t x e ht hen hstep
    rw [act, ht] at hstep
    obtain ⟨channel, hchannel, htransmit⟩ := except_bind_eq_ok.mp hstep
    obtain ⟨hx, hpeer⟩ := channel_of_transmit htransmit
    obtain rfl | rfl := Side.eq_or_eq_peer x y
    · rw [hx]
      exact (step_moved hen (mapError_eq_ok hchannel)).log_grows
    · refine ⟨[], ?_⟩
      rw [hpeer, ht, List.append_nil]
  cases e with
  | act x e =>
      exact hact rfl (enabled_act hen).1 hstep
  | arrive x chunk =>
      rw [step, arrive] at hstep
      obtain ⟨⟨b, calls⟩, -, hstep⟩ := except_bind_eq_ok.mp hstep
      simp only at hstep
      split at hstep
      · cases hstep
      · cases hstep
        exact List.prefix_refl _
  | dispatch x =>
      rw [step, dispatch] at hstep
      rw [enabled] at hen
      split at hstep
      · cases hstep
        exact List.prefix_refl _
      · rename_i m rest hqueue
        rw [hqueue] at hen
        exact hact (t := s.setQueue x rest) rfl hen hstep

/-- The log only grows, so if all messages fit behind a step, they did before it. -/
theorem AllFit.of_step {e : Event} (hen : enabled s e = true) (hstep : step codec s e = .ok s')
    (h : AllFit codec s') : AllFit codec s := by
  intro y m hm
  obtain ⟨es, hes⟩ := log_grows hen hstep y
  refine h y m ?_
  rw [← hes, outgoing_append]
  exact List.mem_append_left _ hm

/-- Every step keeps the invariant. A step of a channel and a message from the queue are both
`good_act`, the second one with a message that arrives. -/
theorem good_step {e : Event} (h : Good codec s) (hc : codec.Lossless) (hfits' : AllFit codec s')
    (hen : enabled s e = true) (hstep : step codec s e = .ok s') : Good codec s' := by
  have hfits := hfits'.of_step hen hstep
  cases e with
  | act x e =>
      -- Taking nothing from the queue is taking no messages.
      have hsame : s.setQueue x (s.wire x).queue = s := by
        simp [setQueue]
      obtain ⟨hen', harrival⟩ := enabled_act hen
      have hqueue : (s.wire x).queue = e.arrival ++ (s.wire x).queue := by
        rw [harrival, List.nil_append]
      refine good_act h hc hfits hfits' hqueue hen' ?_
      rw [hsame]
      exact hstep
  | arrive x chunk =>
      simp only [enabled, Bool.and_eq_true, decide_eq_true_eq] at hen
      exact (arrive_spec h hc hfits hen.2).post hstep
  | dispatch x =>
      rw [step, dispatch] at hstep
      rw [enabled] at hen
      split at hstep
      · cases hstep
        exact h
      · rename_i m rest hqueue
        rw [hqueue] at hen
        exact good_act h hc hfits hfits' (e := .receive m) hqueue hen hstep

/-- The invariant along a run. `AllFit` is about the last state, and it goes back to each state
before. -/
theorem good_of_run (hc : codec.Lossless) {services : Side → Option ServiceMap}
    {es : List Event} (hrun : (machine codec).Run (init services) es s) (hfits : AllFit codec s) :
    Good codec s := by
  refine Machine.Run.invariant (I := fun t => AllFit codec t → Good codec t)
    (fun _ => good_init services) ?_ hrun hfits
  intro t e u ht hen hstep hfits
  exact good_step (ht (hfits.of_step hen hstep)) hc hfits hen hstep

/-! ### What the calls get -/

/-- The peer has received the request of the call, and has answered it with
`answer`. This is message `n` that this side has received. -/
structure Answered (s : RpcSession) (x : Side) (c : Call) (n : Nat) (answer : RpcMessage) :
    Prop where
  arrived : (s.channel x).received[n]? = some answer
  made : ∃ j, (s.channel x.peer).received[j]? = some c.message ∧
    Effect.answered j answer ∈ (s.channel x.peer).log

/-- Nothing is on the way, no service and no thread has work to do, and the
connection is up. -/
structure Quiet (s : RpcSession) : Prop where
  wire : ∀ x, (s.wire x).inFlight = [] ∧ (s.wire x).queue = []
  pending : ∀ x, (s.channel x).pending = []
  handling : ∀ x, (s.channel x).handling = none
  returned : ∀ x, ∀ i < (s.channel x).calls.length, (s.channel x).stage i = .returned
  up : ∀ x, (s.channel x).destroyed = false

/-- The answer of a call comes from the peer: ids are distinct, so the call that it was made for is
this one. -/
theorem Good.answered (h : Good codec s) (hc : codec.Lossless) (hfits : AllFit codec s) {i n : Nat}
    {c : Call} {m : RpcMessage} (hi : (s.channel x).calls[i]? = some c)
    (hm : Answers (s.channel x) c n m) : Answered s x c n m := by
  obtain ⟨j, k, d, hk, hid, -, hj, hanswered⟩ :=
    h.origin hc hfits (List.mem_of_getElem? hm.received) hm.type
  obtain ⟨-, rfl⟩ := call_unique (h.client x) hk hi (hid.trans hm.id)
  exact ⟨hm.received, j, hj, hanswered⟩

/-- A request reaches the peer once. -/
theorem Good.count_le_one (h : Good codec s) (hc : codec.Lossless) (hfits : AllFit codec s)
    {i : Nat} {c : Call} (hi : (s.channel x).calls[i]? = some c) :
    (s.channel x.peer).received.count c.message ≤ 1 := by
  have hprefix := h.prefix_sent hc hfits x.peer
  rw [Side.peer_peer] at hprefix
  have hle := hprefix.sublist.count_le c.message
  have hcount := (h.sender x).count i c hi
  rw [List.count_append] at hle
  split at hcount <;> omega

/-- In a quiet session every request has been answered, and the answer has
arrived. -/
theorem Good.answer_of_quiet (h : Good codec s) (hc : codec.Lossless) (hfits : AllFit codec s)
    (hquiet : Quiet s) {i : Nat} {c : Call} (hi : (s.channel x).calls[i]? = some c) :
    ∃ m ∈ (s.channel x).received, m.type = .RESPONSE ∧ m.id.toInt = c.id := by
  have hall : ∀ y, (s.channel y).received = outgoing (s.channel y.peer).log := by
    intro y
    have hlink := h.link y
    rw [(hquiet.wire y).1, (hquiet.wire y).2, List.append_nil] at hlink
    exact (hlink.eq_sent hc (hfits y.peer)).1
  -- The request has been sent, so it has been received.
  have hsent : c.message ∈ outgoing (s.channel x).log := by
    have hcount := (h.sender x).count i c hi
    rw [if_pos (hquiet.returned x i (List.getElem?_eq_some_iff.mp hi).1)] at hcount
    exact List.count_pos_iff.mp (by omega)
  have hreceived : c.message ∈ (s.channel x.peer).received := by
    rw [hall, Side.peer_peer]
    exact hsent
  obtain ⟨j, hj⟩ := List.mem_iff_getElem?.mp hreceived
  -- No closure is left to run, so there is an answer.
  obtain ⟨htype, hid⟩ := (h.sender x).toInt_id (h.client x) hi
  have hcount := (h.server x.peer).count j
  rw [hquiet.pending, owed, hj, Option.map_some, Option.getD_some, RpcMessage.asks, if_pos htype,
    List.map_nil, List.count_nil, Nat.add_zero] at hcount
  obtain ⟨answer, hanswer⟩ := List.exists_mem_of_length_pos (l := answersTo j _)
    (by rw [hcount]; exact Nat.one_pos)
  obtain ⟨request, hr, his⟩ := (h.server x.peer).answers j answer hanswer
  rw [hj] at hr
  cases hr
  refine ⟨answer, ?_, his.type, by rw [his.id, hid]⟩
  rw [hall]
  obtain ⟨e, he, heq⟩ := List.mem_filterMap.mp hanswer
  refine List.mem_filterMap.mpr ⟨e, he, ?_⟩
  cases e with
  | answered k m =>
      simp only at heq
      split at heq
      · exact heq
      · cases heq
  | _ => cases heq

/-- In a quiet session the call has left `outstandings_`, and its closure has run with the answer.
-/
theorem Good.completed_of_quiet (h : Good codec s) (hc : codec.Lossless) (hfits : AllFit codec s)
    (hquiet : Quiet s) {i : Nat} {c : Call} (hi : (s.channel x).calls[i]? = some c) :
    (s.channel x).outstandings_[c.id]? = none ∧
      ∃ n answer, Answered s x c n answer ∧ story c (s.channel x).log = completion c n answer := by
  obtain ⟨m, hm, htype, hid⟩ := h.answer_of_quiet hc hfits hquiet hi
  have hout : (s.channel x).outstandings_[c.id]? = none := by
    by_contra hne
    exact h.waiting x i c hi hne m hm htype hid
  refine ⟨hout, ?_⟩
  have hstage := hquiet.returned x i (List.getElem?_eq_some_iff.mp hi).1
  cases (h.client x).place i c hi with
  | thread hat _ _ _ =>
      rw [hstage] at hat
      cases hat
  | map _ hentry _ _ =>
      rw [hout] at hentry
      cases hentry
  | loop work _ _ hwork _ _ _ =>
      rw [handlingOf, hquiet.handling x] at hwork
      cases hwork
  | completed n answer _ _ _ hanswers hstory =>
      exact ⟨n, answer, h.answered hc hfits hi hanswers, hstory⟩
  | abandoned _ _ _ hdown _ =>
      rw [hquiet.up x] at hdown
      cases hdown

/-- A side that offers one service with one method, and one that offers
none. -/
def oneService : Side → Option ServiceMap
  | .left => none
  | .right => some anyService

def theRequest : RpcMessage := requestMessage 1 "Echo" "echo" [7]

def theAnswer : RpcMessage := ⟨.RESPONSE, 1#64, none, none, none, some [9], none⟩

/-- Messages can be numbered, so a codec for all of them exists. -/
theorem exists_number : ∃ number : RpcMessage → Nat, Function.Injective number := by
  have hchar : Countable Char := Function.Injective.countable fun _ _ h => Char.toNat_inj.mp h
  have hbyte : Countable UInt8 := Function.Injective.countable fun _ _ h => UInt8.toNat_inj.mp h
  have hid : Countable (BitVec 64) := Function.Injective.countable fun _ _ h => BitVec.toNat_inj.mp h
  have hstring : Countable String := Function.Injective.countable fun _ _ h => String.toList_inj.mp h
  have htype : Countable MessageType := Function.Injective.countable (f := MessageType.ctorIdx)
    fun a b h => by cases a <;> cases b <;> first | rfl | cases h
  have herror : Countable ErrorCode := Function.Injective.countable (f := ErrorCode.ctorIdx)
    fun a b h => by cases a <;> cases b <;> first | rfl | cases h
  have hmessage : Countable RpcMessage := Function.Injective.countable
    (f := fun m : RpcMessage =>
      (m.type, m.id, m.service, m.method, m.request, m.response, m.error))
    fun a b h => by
      cases a
      cases b
      cases h
      rfl
  exact exists_injective_nat RpcMessage

/-- The messages of the example have codes of their own, and the others are
numbered. -/
noncomputable def codes : Protobuf RpcMessage :=
  let code (m : RpcMessage) : List UInt8 :=
    if m = theRequest then [1] else if m = theAnswer then [2]
    else List.replicate (exists_number.choose m) 0
  { byteSize := fun m => (code m).length
    serializeWithCachedSizesToArray := code
    parseFromArray := fun xs =>
      if xs = [1] then some theRequest else if xs = [2] then some theAnswer
      else Function.partialInv exists_number.choose xs.length }

/-- The codec takes back what it has written. -/
theorem codes_parse (m : RpcMessage) :
    codes.parseFromArray (codes.serializeWithCachedSizesToArray m) = some m := by
  have hzero : ∀ (n : Nat) (x : UInt8), x ≠ 0 → List.replicate n 0 ≠ [x] := by
    intro n x hx heq
    have hmem : x ∈ List.replicate n 0 := heq ▸ List.mem_singleton_self x
    exact hx (List.eq_of_mem_replicate hmem)
  simp only [codes]
  split
  · next heq => rw [if_pos rfl, heq]
  · split
    · next heq => rw [if_neg (by decide), if_pos rfl, heq]
    · rw [if_neg (hzero _ 1 (by decide)), if_neg (hzero _ 2 (by decide)), List.length_replicate,
        Function.partialInv_left exists_number.choose_spec]

noncomputable def requestFrame : List UInt8 := (rpcCodec codes).frames [theRequest]

noncomputable def answerFrame : List UInt8 := (rpcCodec codes).frames [theAnswer]

theorem length_head_le : (requestFrame.take 5).length ≤ maxSize := by decide +kernel

theorem length_tail_le : (requestFrame.drop 5).length ≤ maxSize := by decide +kernel

theorem length_answerFrame_le : answerFrame.length ≤ maxSize := by decide +kernel

/-- One call. Its request arrives in two chunks. -/
noncomputable def oneCall : List Event :=
  [.act .left (.call 10 (some 20) "Echo" "echo" [7]), .act .left (.register 0), .act .left (.send 0),
    .arrive .right (⟨requestFrame.take 5, length_head_le⟩, 0),
    .arrive .right (⟨requestFrame.drop 5, length_tail_le⟩, 1), .dispatch .right,
    .act .right (.complete 0 [9]), .arrive .left (⟨answerFrame, length_answerFrame_le⟩, 2),
    .dispatch .left, .act .left .fill, .act .left .run, .act .left .release]

/-- What `Quiet` and `AllFit` look at, of one side with at most one call. -/
structure Summary where
  inFlight : List UInt8
  queue : List RpcMessage
  pending : List Pending
  handling : Option Handling
  calls : Nat
  stage : RpcChannel.Stage
  destroyed : Bool
  log : List Effect
  deriving DecidableEq

def summary (s : RpcSession) (x : Side) : Summary :=
  ⟨(s.wire x).inFlight, (s.wire x).queue, (s.channel x).pending, (s.channel x).handling,
    (s.channel x).calls.length, (s.channel x).stage 0, (s.channel x).destroyed, (s.channel x).log⟩

end Muduo.Net.RpcSession
