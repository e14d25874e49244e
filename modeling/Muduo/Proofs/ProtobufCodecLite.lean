import Muduo.Lib.Adler32
import Muduo.Lib.Outcome
import Muduo.Proofs.Buffer
import Muduo.Proofs.ProtobufFrame

/-!
# `Muduo.Proofs.ProtobufCodecLite`: what `onMessage` delivers

`onMessage` makes the moves of the decoder of `ProtobufFrame`
(`round_makes`): every read of it is inside the readable bytes, since the
length that comes from the peer is compared with the bounds first. So one
call computes `decode` (`onMessage_decodes`), and a sequence of calls, one
after every chunk, computes `decode` of the whole stream
(`receive_spec`): a malformed frame is not consumed, and it is malformed
still when more bytes are there.

`onMessage_delivers_frames` is the result, about arbitrary bytes and
arbitrary chunks of them.
-/

set_option autoImplicit false

namespace Muduo.Net.ProtobufCodecLite

open Muduo.Base
open Muduo.Lib
open Muduo.Net.Buffer

variable {M : Type} {c : ProtobufCodecLite M} {b : Buffer}

/-! ### Reading from the readable bytes -/

/-- A read at `i` bytes behind `peek()`. -/
theorem readAt_spec (hb : Inv b) {i n : Nat} (h : i + n ≤ b.readable.length) :
    readAt b (b.peek + i : Nat) n = .ok ((b.readable.drop i).take n) := by
  have hbytes := hb.readableBytes_eq
  have hr := hb.reader_le
  have hlen := hb.length_readable
  have hguard : 0 ≤ (n : Int) ∧ (b.peek : Int) ≤ (b.peek + i : Nat) ∧
      ((b.peek + i : Nat) : Int) + n ≤ b.beginWrite := by
    simp only [peek, beginWrite]
    omega
  rw [readAt, if_pos hguard, Int.toNat_natCast, Int.toNat_natCast, hb.slice_peek h]

/-- `asInt32` reads four bytes in network order. -/
theorem asInt32_spec (hb : Inv b) {i : Nat} (h : i + 4 ≤ b.readable.length) :
    asInt32 b (b.peek + i : Nat)
      = .ok (BitVec.ofNat 32 (BigEndian.ofBytes ((b.readable.drop i).take 4))) := by
  have hread : readAt b (b.peek + i : Nat) 4 = _ := readAt_spec (n := 4) hb h
  rw [asInt32, hread]
  rfl

/-- The checksum is computed over bytes of the buffer. -/
theorem checksum_spec (hb : Inv b) {i n : Nat} (h : i + n ≤ b.readable.length) (hn : n < 2 ^ 32) :
    c.checksum b (b.peek + i : Nat) n = .ok (c.sum32 ((b.readable.drop i).take n)) := by
  have hmod : (n : Int) % 2 ^ 32 = n := by omega
  rw [checksum, hmod, readAt_spec hb h]
  rfl

/-- `validateChecksum` of a body of at least `kChecksumLen` bytes. -/
theorem validateChecksum_spec (hb : Inv b) {i n : Nat} (hmin : kChecksumLen ≤ n)
    (hmax : n ≤ kMaxMessageLen) (h : i + n ≤ b.readable.length) :
    c.validateChecksum b (b.peek + i : Nat) n
      = .ok (c.sum32 ((b.readable.drop i).take (n - kChecksumLen))
        = BitVec.ofNat 32 (BigEndian.ofBytes ((b.readable.drop (i + (n - kChecksumLen))).take 4))) := by
  have hlt := kMaxMessageLen_lt
  have hsum : (kChecksumLen : Int) = 4 := rfl
  have hlast : ((b.peek + i : Nat) : Int) + n - kChecksumLen
      = (b.peek + (i + (n - kChecksumLen)) : Nat) := by omega
  have hlen : (n : Int) - kChecksumLen = (n - kChecksumLen : Nat) := by omega
  rw [validateChecksum, hlast, asInt32_spec hb (by omega), ok_bind, hlen,
    checksum_spec hb (by omega) (by omega), ok_bind]
  rfl

/-- `parse` of a complete body. -/
theorem parse_spec (hb : Inv b) {i n : Nat} (hmin : c.kMinMessageLen ≤ n) (hmax : n ≤ kMaxMessageLen)
    (h : i + n ≤ b.readable.length) :
    c.parse b (b.peek + i : Nat) n = .ok (c.readBody ((b.readable.drop i).take n)) := by
  have hmin' : c.tag_.length + kChecksumLen ≤ n := hmin
  have hsum : kChecksumLen = 4 := rfl
  have hbody : ((b.readable.drop i).take n).length = n := by
    rw [List.length_take, List.length_drop]
    omega
  -- What each read gets, as a part of the body.
  have hsigned : ((b.readable.drop i).take n).take (n - kChecksumLen)
      = (b.readable.drop i).take (n - kChecksumLen) := by
    rw [List.take_take, Nat.min_eq_left (by omega)]
  have hlast : ((b.readable.drop i).take n).drop (n - kChecksumLen)
      = (b.readable.drop (i + (n - kChecksumLen))).take 4 := by
    rw [List.drop_take, List.drop_drop]
    congr 1
    omega
  have htag : ((b.readable.drop i).take (n - kChecksumLen)).take c.tag_.length
      = (b.readable.drop i).take c.tag_.length := by
    rw [List.take_take, Nat.min_eq_left (by omega)]
  have hpayload : ((b.readable.drop i).take (n - kChecksumLen)).drop c.tag_.length
      = (b.readable.drop (i + c.tag_.length)).take (n - kChecksumLen - c.tag_.length) := by
    rw [List.drop_take, List.drop_drop]
  have hdata : ((b.peek + i : Nat) : Int) + c.tag_.length
      = (b.peek + (i + c.tag_.length) : Nat) := by omega
  have hdataLen : (n : Int) - kChecksumLen - c.tag_.length
      = (n - kChecksumLen - c.tag_.length : Nat) := by omega
  rw [parse, validateChecksum_spec hb (by omega) hmax h, ok_bind, readBody, hbody, hsigned, hlast,
    htag, hpayload]
  by_cases hcheck : c.sum32 ((b.readable.drop i).take (n - kChecksumLen))
      = BitVec.ofNat 32 (BigEndian.ofBytes ((b.readable.drop (i + (n - kChecksumLen))).take 4))
  · rw [if_pos hcheck, if_pos (decide_eq_true hcheck), readAt_spec hb (by omega), ok_bind]
    by_cases hhead : (b.readable.drop i).take c.tag_.length = c.tag_
    · have hread := readAt_spec hb (i := i + c.tag_.length)
        (n := n - kChecksumLen - c.tag_.length) (by omega)
      simp only [if_pos hhead, parseFromBuffer, hdata, hdataLen, hread, ok_bind, except_pure]
      cases c.protobuf.parseFromArray
          ((b.readable.drop (i + c.tag_.length)).take (n - kChecksumLen - c.tag_.length)) with
      | some message => rfl
      | none => rfl
    · rw [if_neg hhead, if_neg hhead]
      rfl
  · rw [if_neg hcheck, if_neg (by simpa using hcheck)]
    rfl

/-! ### One round of the loop -/

variable {t : Timestamp} {p : Progress M}

theorem retrieve_spec (hb : Inv b) {n : Nat} (h : n ≤ b.readable.length) :
    ∃ b', retrieve b n = .ok b' ∧ Inv b' ∧ b'.readable = b.readable.drop n ∧
      b'.buffer_ = b.buffer_ := by
  have hle : n ≤ b.readableBytes := hb.length_readable ▸ h
  have hw := hb.writer_le
  have hs := hb.size_lt
  have hbytes := hb.readableBytes_eq
  obtain ⟨b', hret, hrest⟩ := Buffer.retrieve_spec hb hle
  refine ⟨b', ?_, hrest⟩
  rw [retrieve, intToSize_eq (by omega), hret]
  rfl

/-- The round as a function of the readable bytes, up to the body. -/
theorem round_eq (hraw : c.rawCb_ = none) (hb : Inv p.1) :
    c.round t p =
      if p.1.readable.length < c.kMinMessageLen + kHeaderLen then .ok (.stop p)
      else if lengthField p.1.readable > kMaxMessageLen ∨
          lengthField p.1.readable < c.kMinMessageLen then
        .ok (.stop (p.1, p.2 ++ [.errorCallback .kInvalidLength t]))
      else if p.1.readable.length < kHeaderLen + (lengthField p.1.readable).toNat then .ok (.stop p)
      else c.deliver t p (lengthField p.1.readable) := by
  have hlen := hb.length_readable
  have hheader : kHeaderLen = 4 := rfl
  have hmodulus : kHeaderLen + kMaxMessageLen < sizeModulus := by decide
  rw [round, ← hlen]
  by_cases hshort : p.1.readable.length < c.kMinMessageLen + kHeaderLen
  · rw [if_pos hshort, if_pos hshort]
    rfl
  · have hpeek := peekInt_spec (n := 4) hb (by omega)
    have hpeek' : (p.1.peekInt32.map BitVec.toInt).mapError Fault.buffer
        = .ok (lengthField p.1.readable) := by
      rw [peekInt32, hpeek]
      rfl
    rw [if_neg hshort, if_neg hshort, hpeek', ok_bind]
    by_cases hrange : lengthField p.1.readable > kMaxMessageLen ∨
        lengthField p.1.readable < c.kMinMessageLen
    · rw [if_pos hrange, if_pos hrange]
      rfl
    · obtain ⟨n, hn⟩ : ∃ n : Nat, lengthField p.1.readable = n :=
        ⟨(lengthField p.1.readable).toNat, by omega⟩
      have hsum : (kHeaderLen : Int) + n = (kHeaderLen + n : Nat) := by omega
      rw [if_neg hrange, if_neg hrange, hn, hsum, intToSize_eq (by omega), Int.toNat_natCast, hraw]
      by_cases hfull : p.1.readable.length < kHeaderLen + n
      · rw [if_pos hfull, if_neg (by omega)]
        rfl
      · rw [if_neg hfull, if_pos (by omega)]

/-- One round of the loop at an incomplete frame: it ends. -/
theorem round_incomplete (hraw : c.rawCb_ = none) (hb : Inv p.1) (h : c.Incomplete p.1.readable) :
    c.round t p = .ok (.stop p) := by
  rw [round_eq hraw hb]
  cases h with
  | inl hshort => rw [if_pos (by omega)]
  | inr hlen =>
      obtain ⟨n, hn, hmin, hmax, hshort⟩ := hlen
      by_cases hmore : p.1.readable.length < c.kMinMessageLen + kHeaderLen
      · rw [if_pos hmore]
      · rw [if_neg hmore, if_neg (by omega), if_pos (by omega)]

/-- A round at a complete body of admissible length. -/
theorem round_prefixed (hraw : c.rawCb_ = none) (hb : Inv p.1) {body rest : List UInt8}
    (hxs : p.1.readable = prefixed body ++ rest) (hmin : c.kMinMessageLen ≤ body.length)
    (hmax : body.length ≤ kMaxMessageLen) :
    c.round t p =
      match c.readBody body with
      | .ok message => do
          let b ← retrieve p.1 (prefixed body).length
          return .again (b, p.2 ++ [.messageCallback message t])
      | .error e => .ok (.stop (p.1, p.2 ++ [.errorCallback e t])) := by
  have hfield : lengthField p.1.readable = body.length := hxs ▸ lengthField_prefixed hmax rest
  have hlen : p.1.readable.length = kHeaderLen + body.length + rest.length := by
    rw [hxs, List.length_append, length_prefixed]
  have hbody : (p.1.readable.drop kHeaderLen).take body.length = body := by
    rw [hxs, prefixed, List.append_assoc, List.drop_left' (BigEndian.length_toBytes _ _),
      List.take_left]
  have hparse := parse_spec hb (i := kHeaderLen) hmin hmax (by omega)
  have hsum : (kHeaderLen : Int) + body.length = (prefixed body).length := by
    rw [length_prefixed]
    omega
  have hpeek : (p.1.peek : Int) + kHeaderLen = (p.1.peek + kHeaderLen : Nat) := by omega
  rw [round_eq hraw hb, hfield, if_neg (by omega), if_neg (by omega), if_neg (by omega), deliver,
    hpeek, hparse, hbody, ok_bind, hsum]
  rfl

/-- At a well-formed one: the callback is called, the frame is retrieved and the loop goes on. -/
theorem round_wellFormed (hraw : c.rawCb_ = none) (hb : Inv p.1) {f rest : List UInt8} {message : M}
    (hf : c.WellFormed f message) (hxs : p.1.readable = f ++ rest) :
    ∃ b', c.round t p = .ok (.again (b', p.2 ++ [.messageCallback message t])) ∧ Inv b' ∧
      b'.readable = rest ∧ b'.buffer_ = p.1.buffer_ := by
  obtain ⟨payload, rfl, hmax, hparse⟩ := hf
  have hlen := length_sealed_tag c payload
  have hmin : c.kMinMessageLen ≤ (c.sealed (c.tag_ ++ payload)).length := by
    rw [hlen, kMinMessageLen]
    omega
  have hfit : (c.frame payload).length ≤ p.1.readable.length := by
    rw [hxs, List.length_append]
    omega
  obtain ⟨b', hret, hb', hrest, hvec⟩ := retrieve_spec hb hfit
  refine ⟨b', ?_, hb', ?_, hvec⟩
  · rw [round_prefixed hraw hb hxs hmin (by omega), readBody_frame hparse]
    simp only
    rw [show (prefixed (c.sealed (c.tag_ ++ payload))) = c.frame payload from rfl, hret]
    rfl
  · rw [hrest, hxs, List.drop_left]

/-- At a malformed one: the error callback is called once, and the loop ends without retrieving. -/
theorem round_malformed (hraw : c.rawCb_ = none) (hb : Inv p.1) {e : ErrorCode}
    (h : c.Malformed p.1.readable e) :
    c.round t p = .ok (.stop (p.1, p.2 ++ [.errorCallback e t])) := by
  cases h with
  | length hxs hrange => rw [round_eq hraw hb, if_neg (by omega), if_pos hrange]
  | body body rest _ hxs hmin hmax hbody =>
      rw [round_prefixed hraw hb hxs hmin hmax, readBody_rejected hbody]

/-! ### One call -/

/-- The calls of a decoder that delivers `messages` and then gives `verdict`. -/
def callsOf (t : Timestamp) (messages : List M) (verdict : Option ErrorCode) : List (Call M) :=
  messages.map (.messageCallback · t) ++ verdict.toList.map (.errorCallback · t)

/-- `p` is where the decoder is, in a call that `q₀` was delivered before.
The vector is `v` all the time. -/
structure Decoded (t : Timestamp) (v : List UInt8) (q₀ : List M) (p : Progress M)
    (d : Parsed UInt8 (List M) ErrorCode) : Prop where
  inv : Inv p.1
  vector : p.1.buffer_ = v
  readable : p.1.readable = d.rest
  calls : ∃ messages, d.state = q₀ ++ messages ∧ p.2 = callsOf t messages d.verdict

/-- The rounds of `onMessage` are the moves of the decoder. -/
theorem round_makes (hraw : c.rawCb_ = none) (t : Timestamp) (v : List UInt8) (q₀ : List M) :
    Makes c.decoder (fun p q xs => Decoded t v q₀ p ⟨q, xs, none⟩) (Decoded t v q₀) (c.round t) where
  need := by
    intro p q xs h hnext
    have hinc : c.Incomplete p.1.readable := h.readable ▸ next_eq_need hnext
    exact ⟨p, round_incomplete hraw h.inv hinc, h⟩
  take := by
    intro p q xs n q' h hnext
    obtain ⟨f, message, rest, hf, hxs, rfl, rfl⟩ := next_eq_take hnext
    obtain ⟨b', hround, hb', hrest, hvec⟩ := round_wellFormed hraw h.inv hf (h.readable.trans hxs)
    obtain ⟨messages, hstate, hcalls⟩ := h.calls
    simp only at hstate hcalls
    refine ⟨_, hround, hb', hvec.trans h.vector, ?_, messages ++ [message], ?_, ?_⟩
    · rw [hxs, List.drop_left]
      exact hrest
    · rw [hstate, List.append_assoc]
    · rw [hcalls]
      simp [callsOf]
  halt := by
    intro p q xs n q' e h hnext
    obtain ⟨rfl, rfl, he⟩ := next_eq_halt hnext
    have hmal : c.Malformed p.1.readable e := h.readable ▸ he
    obtain ⟨messages, hstate, hcalls⟩ := h.calls
    simp only at hstate hcalls
    refine ⟨_, round_malformed hraw h.inv hmal, h.inv, h.vector, h.readable, messages, hstate, ?_⟩
    rw [hcalls]
    simp [callsOf]

/-- `onMessage` decodes the readable bytes. -/
theorem onMessage_decodes (hraw : c.rawCb_ = none) (hb : Inv b) (t : Timestamp) (q₀ : List M) :
    ∃ p, c.onMessage b t = .ok p ∧ Decoded t b.buffer_ q₀ p (c.decoder.decode q₀ b.readable) := by
  have hstart : Decoded t b.buffer_ q₀ (b, []) (⟨q₀, b.readable, none⟩ : Parsed _ _ _) :=
    ⟨hb, rfl, rfl, [], (List.append_nil q₀).symm, rfl⟩
  have hfuel : b.readable.length < b.readableBytes + 1 := by
    rw [hb.length_readable]
    omega
  exact loop_decodes (round_makes hraw t b.buffer_ q₀) _ _ _ _ hstart hfuel

/-! ### A call after every chunk -/

theorem delivered_append (calls more : List (Call M)) :
    delivered (calls ++ more) = delivered calls ++ delivered more := List.filterMap_append

theorem errors_append (calls more : List (Call M)) :
    errors (calls ++ more) = errors calls ++ errors more := List.filterMap_append

theorem delivered_callsOf (t : Timestamp) (messages : List M) (verdict : Option ErrorCode) :
    delivered (callsOf t messages verdict) = messages := by
  rw [delivered, callsOf, List.filterMap_append, List.filterMap_map, List.filterMap_map]
  cases verdict with
  | none => simp
  | some e => simp

theorem errors_callsOf (t : Timestamp) (messages : List M) (verdict : Option ErrorCode) :
    errors (callsOf t messages verdict) = verdict.toList := by
  rw [errors, callsOf, List.filterMap_append, List.filterMap_map, List.filterMap_map]
  cases verdict with
  | none => simp
  | some e => simp

/-- Where the calls stand after `bytes`, in a buffer of `size` bytes at the start. -/
structure Received (c : ProtobufCodecLite M) (size : Nat) (p : Progress M) (bytes : List UInt8) :
    Prop where
  inv : Inv p.1
  size_le : p.1.buffer_.length ≤ size + bytes.length
  readable : p.1.readable = (c.decoder.decode [] bytes).rest
  delivered : delivered p.2 = (c.decoder.decode [] bytes).state
  errors : (c.decoder.decode [] bytes).verdict = none → errors p.2 = []

/-- One read keeps what was delivered equal to what the decoder finds in the stream. -/
theorem receiveChunk_spec (hraw : c.rawCb_ = none) {size : Nat} {done : List Chunk}
    (h : Received c size p (stream done)) (chunk : Chunk) :
    Ends (c.receiveChunk p chunk) (Full (.buffer .lengthError) size (stream (done ++ [chunk])))
      (fun p' => Received c size p' (stream (done ++ [chunk]))) := by
  rw [receiveChunk]
  refine (append_chunk h.inv h.size_le chunk Fault.buffer).bind ?_
  intro b hb
  obtain ⟨hinv, hread, hlen⟩ := hb
  -- The rest and the chunk are decoded where the stream so far has been.
  obtain ⟨p', hcall, hdec⟩ :=
    onMessage_decodes hraw hinv chunk.2 (c.decoder.decode [] (stream done)).state
  rw [hread, h.readable, Decoder.decode_again (decoder_sticky c), ← Decoder.decode_append,
    ← stream_snoc] at hdec
  obtain ⟨messages, hstate, hcalls⟩ := hdec.calls
  rw [hcall, ok_bind]
  refine Ends.ok (a := (p'.1, p.2 ++ p'.2)) ?_
  constructor
  · exact hdec.inv
  · rw [hdec.vector]
    exact hlen
  · exact hdec.readable
  · rw [hstate, ← h.delivered, hcalls, delivered_append, delivered_callsOf]
  · intro hnone
    have hbefore : (c.decoder.decode [] (stream done)).verdict = none := by
      rw [stream_snoc] at hnone
      exact Decoder.verdict_of_append hnone
    rw [hcalls, hnone, errors_append, h.errors hbefore, errors_callsOf]
    rfl

/-- A call after every chunk decodes the stream. -/
theorem receive_spec (hraw : c.rawCb_ = none) (hb : Inv b) (hempty : b.readable = [])
    (chunks : List Chunk) :
    Ends (c.receive b chunks) (Full (.buffer .lengthError) b.buffer_.length (stream chunks))
      (fun p => Received c b.buffer_.length p (stream chunks)) := by
  have hnil := Decoder.decode_nil (D := c.decoder) []
  have hstart : Received c b.buffer_.length (b, []) (stream []) := by
    rw [stream_nil]
    constructor
    · exact hb
    · exact Nat.le_refl _
    · rw [hnil]
      exact hempty
    · rw [hnil]
      rfl
    · intro _
      rfl
  exact Ends.foldlM_history (f := c.receiveChunk)
    (I := fun done p => Received c b.buffer_.length p (stream done))
    (E := fun done => Full (.buffer .lengthError) b.buffer_.length (stream done))
    (fun _ _ chunk h => receiveChunk_spec hraw h chunk)
    (fun _ more _ hf => Full.append hf more) chunks [] hstart

/-- On arbitrary bytes `onMessage` returns, so every read it makes is of a
readable byte. It delivers the leading well-formed frames, as many as
there are, and leaves the buffer at the first frame that is incomplete or
malformed, which it reports when it is malformed. What a sequence of calls
delivers depends on the stream alone, not on its chunks. -/
theorem onMessage_delivers_frames (c : ProtobufCodecLite M) (hraw : c.rawCb_ = none) :
    (∀ (b : Buffer) (t : Timestamp), Inv b →
      ∃ b' frames messages verdict, c.onMessage b t = .ok (b', callsOf t messages verdict) ∧
        Inv b' ∧ List.Forall₂ c.WellFormed frames messages ∧
        b.readable = frames.flatten ++ b'.readable ∧
        (verdict = none ↔ c.Incomplete b'.readable) ∧
        (∀ e, verdict = some e ↔ c.Malformed b'.readable e) ∧
        ∀ frames' messages', List.Forall₂ c.WellFormed frames' messages' →
          frames'.flatten <+: b.readable → messages' <+: messages) ∧
    ∀ chunks₁ chunks₂, stream chunks₁ = stream chunks₂ →
      Ends (c.receive Buffer.default chunks₁)
        (Full (.buffer .lengthError) Buffer.default.buffer_.length (stream chunks₁))
        (fun r₁ => ∀ r₂, c.receive Buffer.default chunks₂ = .ok r₂ →
          delivered r₁.2 = delivered r₂.2) := by
  constructor
  · intro b t hb
    obtain ⟨p, hcall, hdec⟩ := onMessage_decodes hraw hb t []
    obtain ⟨frames, messages, hframes, hxs, hstate, _⟩ := decode_spec c [] b.readable
    obtain ⟨messages', hstate', hcalls⟩ := hdec.calls
    have hsame : messages' = messages := hstate'.symm.trans hstate
    have hverdict := verdict_iff c [] b.readable
    rw [← hdec.readable] at hxs hverdict
    refine ⟨p.1, frames, messages, (c.decoder.decode [] b.readable).verdict, ?_, hdec.inv, hframes,
      hxs, hverdict.1, hverdict.2, ?_⟩
    · rw [hcall, ← hsame, ← hcalls]
    · intro frames' messages'' h' hprefix
      have hlongest := frames_prefix h' hprefix
      rw [hstate] at hlongest
      exact hlongest
  · intro chunks₁ chunks₂ hstream
    refine (receive_spec hraw inv_default readable_default chunks₁).imp ?_
    intro r₁ h₁ r₂ hr₂
    have h₂ := (receive_spec hraw inv_default readable_default chunks₂).post hr₂
    rw [h₁.delivered, h₂.delivered, hstream]

/-- A codec for messages that are their own serialisation. -/
def bytesCodec : ProtobufCodecLite (List UInt8) where
  protobuf := ⟨List.length, id, some⟩
  adler32 := Lib.Adler32.adler32
  tag_ := [82, 80, 67, 48]
  rawCb_ := none
  tag_lt := by decide

/-- A frame with the message `[7]`, and a length field of `-1` behind it. -/
def frameThenGarbage : Buffer :=
  ⟨bytesCodec.frame [7] ++ List.replicate 12 255, 0, 25⟩

theorem onMessage_delivers_frames_then_stops :
    bytesCodec.onMessage frameThenGarbage 0
      = .ok (⟨frameThenGarbage.buffer_, 13, 25⟩, callsOf 0 [[7]] (some .kInvalidLength)) ∧
    bytesCodec.Malformed (List.replicate 12 255) .kInvalidLength ∧
    Ends (bytesCodec.receive Buffer.default [(⟨[0, 0, 0, 9, 82], by decide⟩, 0), (⟨[80], by decide⟩, 1)])
      (Full (.buffer .lengthError) Buffer.default.buffer_.length [0, 0, 0, 9, 82, 80])
      (fun r₁ => ∀ r₂, bytesCodec.receive Buffer.default [(⟨[0, 0, 0, 9, 82, 80], by decide⟩, 5)]
          = .ok r₂ → delivered r₁.2 = delivered r₂.2) := by
  have hrun : bytesCodec.onMessage frameThenGarbage 0
      = .ok (⟨frameThenGarbage.buffer_, 13, 25⟩, callsOf 0 [[7]] (some .kInvalidLength)) := by
    decide +kernel
  have hinv : Inv frameThenGarbage := ⟨by decide, by decide, by decide, by decide⟩
  obtain ⟨b', frames, messages, verdict, hcall, _, _, _, _, hmalformed, _⟩ :=
    (onMessage_delivers_frames bytesCodec rfl).1 frameThenGarbage 0 hinv
  have hpair := Except.ok.inj (hcall.symm.trans hrun)
  have herrors : verdict.toList = [.kInvalidLength] := by
    rw [← errors_callsOf 0 messages verdict]
    exact congrArg (fun p => errors p.2) hpair
  have hverdict : verdict = some .kInvalidLength := by
    cases verdict with
    | none => cases herrors
    | some e =>
        cases herrors
        rfl
  have hrest : b'.readable = List.replicate 12 255 := by
    have hbuffer : b' = ⟨frameThenGarbage.buffer_, 13, 25⟩ := congrArg Prod.fst hpair
    rw [hbuffer]
    decide +kernel
  refine ⟨hrun, ?_, ?_⟩
  · rw [← hrest]
    exact (hmalformed _).mp hverdict
  · exact (onMessage_delivers_frames bytesCodec rfl).2 _ _ (by decide)

end Muduo.Net.ProtobufCodecLite
