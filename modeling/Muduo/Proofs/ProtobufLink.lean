import Muduo.Proofs.ProtobufRoundTrip

/-!
# `Muduo.Proofs.ProtobufLink`: a stream of frames as a queue of messages

A sender encodes messages and a receiver decodes the bytes as they arrive.
`Link` relates the two ends in the middle of this: some of the bytes are
still on the way, the buffer of the receiver holds the beginning of a
frame, and some of the messages that have been found are not handled yet.

The messages found are always a first part of the messages sent, in order
(`Link.prefix_sent`), and all of them once no bytes are on the way
(`Link.eq_sent`). So a `Link` is a queue of messages to whoever uses it.
-/

set_option autoImplicit false

namespace Muduo.Net.ProtobufCodecLite

open Muduo.Base
open Muduo.Lib
open Muduo.Net.Buffer

variable {M : Type} {c : ProtobufCodecLite M}

/-- What the codec takes for granted: no raw callback, and protobuf
functions that agree with each other. -/
structure Lossless (c : ProtobufCodecLite M) : Prop where
  raw : c.rawCb_ = none
  size : c.SizeExact
  parse : ∀ message, c.protobuf.parseFromArray (c.payloadOf message) = some message

/-- The message is not larger than the receiver allows. -/
def Fits (c : ProtobufCodecLite M) (message : M) : Prop :=
  c.tag_.length + (c.payloadOf message).length + kChecksumLen ≤ kMaxMessageLen

/-- The frames of some messages, one after the other. -/
def frames (c : ProtobufCodecLite M) (messages : List M) : List UInt8 :=
  (messages.map fun message => c.frame (c.payloadOf message)).flatten

theorem frames_append (c : ProtobufCodecLite M) (messages more : List M) :
    c.frames (messages ++ more) = c.frames messages ++ c.frames more := by
  rw [frames, List.map_append, List.flatten_append]
  rfl

/-- All the frames are decoded, and nothing is left. -/
theorem decode_frames_all (h : c.Lossless) {messages : List M} (hfits : ∀ m ∈ messages, c.Fits m) :
    c.decoder.decode [] (c.frames messages) = ⟨messages, [], none⟩ := by
  have hframes := decode_frames (forall₂_frames h.parse messages hfits) [] []
  rw [List.append_nil, List.nil_append] at hframes
  rw [frames, hframes]
  exact Decoder.decode_nil messages

/-- `bytes` are the first bytes of the frames of `messages`. Decoding them
gives the first of the messages, and no error. -/
theorem decode_of_part (h : c.Lossless) {messages : List M} (hfits : ∀ m ∈ messages, c.Fits m)
    {bytes rest : List UInt8} (heq : bytes ++ rest = c.frames messages) :
    (c.decoder.decode [] bytes).verdict = none ∧
      (c.decoder.decode [] bytes).state <+: messages := by
  have hall := decode_frames_all h hfits
  rw [← heq] at hall
  have hverdict : (c.decoder.decode [] bytes).verdict = none :=
    Decoder.verdict_of_append (by rw [hall])
  refine ⟨hverdict, ?_⟩
  -- The rest of the bytes can only add messages.
  rw [Decoder.decode_append, Decoder.feed_none hverdict] at hall
  obtain ⟨_, more, _, _, hstate, _⟩ := decode_spec c (c.decoder.decode [] bytes).state
    ((c.decoder.decode [] bytes).rest ++ rest)
  rw [hall] at hstate
  exact ⟨more, hstate.symm⟩

/-- What the frames of new messages are made of. -/
theorem mapM_frames (h : c.Lossless) {messages : List M} (hfits : ∀ m ∈ messages, c.Fits m) :
    ∃ bufs, messages.mapM (c.fillEmptyBuffer Buffer.default) = .ok bufs ∧
      (bufs.map readable).flatten = c.frames messages := by
  obtain ⟨bufs, hbufs, hreads⟩ := mapM_fillEmptyBuffer h.size messages hfits
  exact ⟨bufs, hbufs, by rw [hreads, frames]⟩

/-! ### The link -/

/-- The messages `sent` are on their way. `inFlight` has the bytes that have
not arrived, `b` is the buffer of the receiver, and `found` are the
messages that it has found. -/
def Link (c : ProtobufCodecLite M) (sent : List M) (inFlight : List UInt8) (b : Buffer)
    (found : List M) : Prop :=
  ∃ chunks calls, Received c Buffer.default.buffer_.length (b, calls) (stream chunks) ∧
    delivered calls = found ∧ stream chunks ++ inFlight = c.frames sent

variable {sent found : List M} {inFlight : List UInt8} {b : Buffer}

namespace Link

theorem init (c : ProtobufCodecLite M) : Link c [] [] Buffer.default [] := by
  have hnil := Decoder.decode_nil (D := c.decoder) []
  refine ⟨[], [], ⟨inv_default, Nat.le_add_right _ _, ?_, ?_, fun _ => rfl⟩, rfl, rfl⟩
  · rw [stream_nil, hnil]
    exact readable_default
  · rw [stream_nil, hnil]
    rfl

/-- The sender sends more. -/
theorem send (h : Link c sent inFlight b found) (more : List M) :
    Link c (sent ++ more) (inFlight ++ c.frames more) b found := by
  obtain ⟨chunks, calls, hrec, hfound, hstream⟩ := h
  refine ⟨chunks, calls, hrec, hfound, ?_⟩
  rw [frames_append, ← hstream, List.append_assoc]

theorem prefix_sent (h : Link c sent inFlight b found) (hc : c.Lossless)
    (hfits : ∀ m ∈ sent, c.Fits m) : found <+: sent := by
  obtain ⟨chunks, calls, hrec, rfl, hstream⟩ := h
  have hstate : delivered calls = _ := hrec.delivered
  rw [hstate]
  exact (decode_of_part hc hfits hstream).2

theorem eq_sent (h : Link c sent [] b found) (hc : c.Lossless) (hfits : ∀ m ∈ sent, c.Fits m) :
    found = sent ∧ b.readable = [] := by
  obtain ⟨chunks, calls, hrec, rfl, hstream⟩ := h
  rw [List.append_nil] at hstream
  have hstate : delivered calls = _ := hrec.delivered
  have hreadable : b.readable = _ := hrec.readable
  rw [hstream, decode_frames_all hc hfits] at hstate hreadable
  exact ⟨hstate, hreadable⟩

end Link

/-- The calls of earlier chunks do not matter for the next one. -/
theorem receiveChunk_calls (c : ProtobufCodecLite M) (b : Buffer) (calls : List (Call M))
    (chunk : Chunk) :
    c.receiveChunk (b, calls) chunk
      = (c.receiveChunk (b, []) chunk).map fun r => (r.1, calls ++ r.2) := by
  simp only [receiveChunk]
  cases (b.append chunk.1.bytes).mapError Fault.buffer with
  | error f => rfl
  | ok b' =>
      simp only [ok_bind]
      cases c.onMessage b' chunk.2 with
      | error f => rfl
      | ok r => rfl

/-- A chunk arrives. The codec reports no error, and the only fault is that
of a buffer that cannot hold the frames of all messages. -/
theorem Link.arrive (h : Link c sent inFlight b found) (hc : c.Lossless)
    (hfits : ∀ m ∈ sent, c.Fits m) {chunk : Chunk} (hchunk : chunk.1.bytes <+: inFlight) :
    Ends (c.receiveChunk (b, []) chunk)
      (Full (.buffer .lengthError) Buffer.default.buffer_.length (c.frames sent)) fun r =>
      errors r.2 = [] ∧
        Link c sent (inFlight.drop chunk.1.bytes.length) r.1 (found ++ delivered r.2) := by
  obtain ⟨chunks, calls, hrec, rfl, hstream⟩ := h
  obtain ⟨later, rfl⟩ := hchunk
  have hstream' : stream (chunks ++ [chunk]) ++ later = c.frames sent := by
    rw [stream_snoc, List.append_assoc, hstream]
  have hspec := receiveChunk_spec hc.raw hrec chunk
  rw [receiveChunk_calls] at hspec
  cases hcall : c.receiveChunk (b, []) chunk with
  | error f =>
      rw [hcall] at hspec
      have hfull : Full _ _ _ f := hspec
      have hlen := congrArg List.length hstream'
      have hmax := hfull.2
      rw [List.length_append] at hlen
      exact Ends.error ⟨hfull.1, by omega⟩
  | ok r =>
      rw [hcall] at hspec
      have hnext : Received c _ (r.1, calls ++ r.2) _ := hspec
      have herrors := hnext.errors (decode_of_part hc hfits hstream').1
      rw [errors_append, List.append_eq_nil_iff] at herrors
      refine Ends.ok ⟨herrors.2, chunks ++ [chunk], calls ++ r.2, hnext, delivered_append _ _, ?_⟩
      rw [List.drop_left]
      exact hstream'

end Muduo.Net.ProtobufCodecLite
