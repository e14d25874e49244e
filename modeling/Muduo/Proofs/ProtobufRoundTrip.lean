import Muduo.Proofs.ProtobufCodecLite

/-!
# `Muduo.Proofs.ProtobufRoundTrip`: what is encoded is what is delivered

`fillEmptyBuffer` writes the frame of its message
(`fillEmptyBuffer_spec`): the eight bytes that every buffer keeps in front
of the reader hold the length field. The decoder consumes well-formed
frames, so the frames of a list of messages, in one stream and cut into
chunks in any way, are delivered as these messages (`stream_round_trip`).

Of protobuf this needs that `ByteSize` is the number of bytes written and
that parsing inverts serialisation. The checksum can be any function.
-/

set_option autoImplicit false

namespace Muduo.Net.ProtobufCodecLite

open Muduo.Base
open Muduo.Lib
open Muduo.Net.Buffer

variable {M : Type} {c : ProtobufCodecLite M} {b : Buffer} {message : M}

/-- `ByteSize()` is the number of bytes that serialisation writes. -/
def SizeExact (c : ProtobufCodecLite M) : Prop :=
  ∀ message, (c.protobuf.serializeWithCachedSizesToArray message).length
    = c.protobuf.byteSize message

/-- The payload of a message. -/
abbrev payloadOf (c : ProtobufCodecLite M) (message : M) : List UInt8 :=
  c.protobuf.serializeWithCachedSizesToArray message

theorem serializeToBuffer_spec (hsize : c.SizeExact) (hb : Inv b)
    (hfit : b.buffer_.length + ((c.payloadOf message).length + kChecksumLen) ≤ maxSize) :
    ∃ b', c.serializeToBuffer message b = .ok ((c.payloadOf message).length, b') ∧ Inv b' ∧
      b'.readable = b.readable ++ c.payloadOf message ∧
      b'.buffer_.length ≤ b.buffer_.length + ((c.payloadOf message).length + kChecksumLen) ∧
      (kCheapPrepend ≤ b.readerIndex_ → kCheapPrepend ≤ b'.readerIndex_) := by
  have hw := hb.writer_le
  have hlt := maxSize_lt
  have hmodulus : b.buffer_.length + ((c.payloadOf message).length + kChecksumLen) < sizeModulus := by
    omega
  have hbytes : (c.payloadOf message).length = c.protobuf.byteSize message := hsize message
  cases ensureWritableBytes_spec hb hmodulus with
  | inr hfull =>
      omega
  | inl hok =>
      obtain ⟨b₁, hens, hroom⟩ := hok
      have hpayload : (c.payloadOf message).length ≤ b₁.writableBytes :=
        Nat.le_trans (Nat.le_add_right _ _) hroom.room
      obtain ⟨hinv, hread, hlen⟩ := written_spec hroom.inv hpayload
      have hcopy : copyInto b₁.buffer_ b₁.beginWrite (c.payloadOf message)
          = .ok (overwrite b₁.buffer_ b₁.writerIndex_ (c.payloadOf message)) :=
        if_pos (hroom.inv.fits hpayload)
      refine ⟨written b₁ (c.payloadOf message), ?_, hinv, ?_, ?_, ?_⟩
      · simp only [serializeToBuffer, ← hbytes, hens, hcopy, mapError_ok, ok_bind,
          assertThat_pos, hasWritten_spec hroom.inv hpayload, except_pure]
      · rw [hread, hroom.readable_eq]
      · rw [hlen]
        exact hroom.size_le_add
      · intro hcheap
        have hreader : kCheapPrepend ≤ b₁.readerIndex_ := ensureWritableBytes_reader hens hcheap
        exact hreader

/-- The number of bytes of a frame's body fits into the length field. -/
theorem toNat_ofNat_length {n : Nat} (h : n ≤ kMaxMessageLen) : (BitVec.ofNat 32 n).toNat = n := by
  have hlt := kMaxMessageLen_lt
  rw [BitVec.toNat_ofNat]
  omega

theorem toInt_ofNat_length {n : Nat} (h : n ≤ kMaxMessageLen) : (BitVec.ofNat 32 n).toInt = n := by
  have hlt := kMaxMessageLen_lt
  have hnat := toNat_ofNat_length h
  rw [BitVec.toInt_eq_toNat_of_lt (by omega), hnat]

/-- The checksum of everything that is readable. -/
theorem checksum_all (hb : Inv b) (h : b.readable.length ≤ kMaxMessageLen) :
    c.checksum b b.peek (BitVec.ofNat 32 b.readableBytes).toInt = .ok (c.sum32 b.readable) := by
  have hlt := kMaxMessageLen_lt
  have hsum := checksum_spec (c := c) hb (i := 0) (n := b.readable.length) (by omega) (by omega)
  rw [Nat.add_zero, List.drop_zero, List.take_length] at hsum
  rw [← hb.length_readable, toInt_ofNat_length h, hsum]

/-- `fillEmptyBuffer` writes the frame of its message into a new buffer. -/
theorem fillEmptyBuffer_spec (hsize : c.SizeExact) (message : M)
    (hmax : c.tag_.length + (c.payloadOf message).length + kChecksumLen ≤ kMaxMessageLen) :
    ∃ b, c.fillEmptyBuffer Buffer.default message = .ok b ∧ Inv b ∧
      b.readable = c.frame (c.payloadOf message) := by
  have hstart := length_default
  have hlimit : kCheapPrepend + kInitialSize + kMaxMessageLen + kMaxMessageLen ≤ maxSize := by decide
  have hchecksum : kChecksumLen = 4 := rfl
  have hempty : Buffer.default.readableBytes = 0 :=
    inv_default.readableBytes_eq_zero.mpr readable_default
  -- The tag, the payload, the checksum and the length, one after the other.
  obtain ⟨b₁, happ, hb₁, hread₁, hlen₁, hcheap₁⟩ :=
    append_fits inv_default (show _ + c.tag_.length ≤ maxSize by omega)
  have hfit₁ : b₁.buffer_.length + ((c.payloadOf message).length + kChecksumLen) ≤ maxSize := by
    omega
  obtain ⟨b₂, hser, hb₂, hread₂, hlen₂, hcheap₂⟩ := serializeToBuffer_spec hsize hb₁ hfit₁
  have hsigned : b₂.readable = c.tag_ ++ c.payloadOf message := by
    rw [hread₂, hread₁, readable_default, List.nil_append]
  have hsignedLen : b₂.readable.length = c.tag_.length + (c.payloadOf message).length := by
    rw [hsigned, List.length_append]
  have hsum := checksum_all (c := c) hb₂ (by omega)
  have hfit₂ : b₂.buffer_.length
      + (BigEndian.toBytes kChecksumLen (c.sum32 b₂.readable).toNat).length ≤ maxSize := by
    rw [BigEndian.length_toBytes]
    omega
  obtain ⟨b₃, happ₃, hb₃, hread₃, _, hcheap₃⟩ := append_fits hb₂ hfit₂
  have happ₃' : b₂.appendInt32 (c.sum32 b₂.readable) = .ok b₃ := happ₃
  have hbody : b₃.readable = c.sealed (c.tag_ ++ c.payloadOf message) := by
    rw [hread₃, hsigned, sealed]
  have hbodyLen : b₃.readable.length
      = c.tag_.length + (c.payloadOf message).length + kChecksumLen := by
    rw [hbody, length_sealed_tag]
  have hroom : (BigEndian.toBytes 4 (BitVec.ofNat 32 b₃.readableBytes).toNat).length
      ≤ b₃.prependableBytes := by
    have hreader : kCheapPrepend ≤ b₃.readerIndex_ := hcheap₃ (hcheap₂ (hcheap₁ (Nat.le_refl _)))
    rw [BigEndian.length_toBytes]
    exact Nat.le_trans (by decide : 4 ≤ kCheapPrepend) hreader
  obtain ⟨b₄, hpre, hb₄, hread₄, _⟩ := prepend_spec hb₃ hroom
  refine ⟨b₄, ?_, hb₄, ?_⟩
  · have hassert : b₃.readableBytes = c.tag_.length + (c.payloadOf message).length + kChecksumLen := by
      rw [← hb₃.length_readable, hbodyLen]
    rw [fillEmptyBuffer, assertThat_pos hempty, ok_bind, happ, mapError_ok, ok_bind, hser, ok_bind]
    simp only [hsum, ok_bind, happ₃', mapError_ok, assertThat_pos hassert, hpre]
  · have hfield : (BitVec.ofNat 32 b₃.readableBytes).toNat
        = (c.sealed (c.tag_ ++ c.payloadOf message)).length := by
      rw [← hb₃.length_readable, toNat_ofNat_length (by omega), hbody]
    rw [hread₄, hfield, hbody]
    rfl

/-- The frames of a list of messages. -/
theorem mapM_fillEmptyBuffer (hsize : c.SizeExact) (messages : List M)
    (hmax : ∀ message ∈ messages,
      c.tag_.length + (c.payloadOf message).length + kChecksumLen ≤ kMaxMessageLen) :
    ∃ bufs, messages.mapM (c.fillEmptyBuffer Buffer.default) = .ok bufs ∧
      bufs.map readable = messages.map (fun message => c.frame (c.payloadOf message)) := by
  induction messages with
  | nil => exact ⟨[], rfl, rfl⟩
  | cons message messages ih =>
      obtain ⟨b, hfill, _, hread⟩ :=
        fillEmptyBuffer_spec hsize message (hmax message List.mem_cons_self)
      obtain ⟨bufs, hbufs, hreads⟩ := ih fun m hm => hmax m (List.mem_cons_of_mem _ hm)
      refine ⟨b :: bufs, ?_, ?_⟩
      · rw [List.mapM_cons, hfill, ok_bind, hbufs, ok_bind, except_pure]
      · rw [List.map_cons, List.map_cons, hread, hreads]

theorem forall₂_frames (hparse : ∀ message, c.protobuf.parseFromArray (c.payloadOf message)
      = some message) (messages : List M)
    (hmax : ∀ message ∈ messages,
      c.tag_.length + (c.payloadOf message).length + kChecksumLen ≤ kMaxMessageLen) :
    List.Forall₂ c.WellFormed (messages.map fun message => c.frame (c.payloadOf message))
      messages := by
  induction messages with
  | nil => exact .nil
  | cons message messages ih =>
      have hhead : c.WellFormed (c.frame (c.payloadOf message)) message :=
        ⟨c.payloadOf message, rfl, hmax message List.mem_cons_self, hparse message⟩
      exact .cons hhead (ih fun m hm => hmax m (List.mem_cons_of_mem _ hm))

/-- The messages that are encoded are the messages that are delivered,
however the stream of their frames is cut into chunks. The only fault is
the one of a stream that does not fit into a vector. -/
theorem stream_round_trip (c : ProtobufCodecLite M) (hraw : c.rawCb_ = none)
    (hsize : ∀ message, (c.protobuf.serializeWithCachedSizesToArray message).length
      = c.protobuf.byteSize message)
    (hparse : ∀ message, c.protobuf.parseFromArray
      (c.protobuf.serializeWithCachedSizesToArray message) = some message)
    (messages : List M)
    (hmax : ∀ message ∈ messages,
      c.tag_.length + c.protobuf.byteSize message + kChecksumLen ≤ kMaxMessageLen) :
    ∃ bufs, messages.mapM (c.fillEmptyBuffer Buffer.default) = .ok bufs ∧
      ∀ chunks, stream chunks = (bufs.map readable).flatten →
        Ends (c.receive Buffer.default chunks)
          (Full (.buffer .lengthError) Buffer.default.buffer_.length (stream chunks))
          (fun r => delivered r.2 = messages ∧ errors r.2 = [] ∧ r.1.readable = []) := by
  have hmax' : ∀ message ∈ messages,
      c.tag_.length + (c.payloadOf message).length + kChecksumLen ≤ kMaxMessageLen := by
    intro message hmem
    rw [payloadOf, hsize]
    exact hmax message hmem
  obtain ⟨bufs, hbufs, hreads⟩ := mapM_fillEmptyBuffer hsize messages hmax'
  refine ⟨bufs, hbufs, ?_⟩
  intro chunks hstream
  have hdecode : c.decoder.decode [] (stream chunks) = ⟨messages, [], none⟩ := by
    have hframes := decode_frames (forall₂_frames hparse messages hmax') [] []
    rw [List.append_nil, List.nil_append] at hframes
    rw [hstream, hreads, hframes]
    exact Decoder.decode_nil messages
  refine (receive_spec hraw inv_default readable_default chunks).imp ?_
  intro r hr
  refine ⟨?_, ?_, ?_⟩
  · rw [hr.delivered, hdecode]
  · exact hr.errors (by rw [hdecode])
  · rw [hr.readable, hdecode]

/-- A message with a payload and one without, in the stream of their
frames cut inside the first length field. -/
theorem stream_round_trip_two :
    (∀ message ∈ [[1, 2], ([] : List UInt8)], bytesCodec.tag_.length
      + bytesCodec.protobuf.byteSize message + kChecksumLen ≤ kMaxMessageLen) ∧
    ∃ bufs, [[1, 2], []].mapM (bytesCodec.fillEmptyBuffer Buffer.default) = .ok bufs ∧
      ∀ chunks, stream chunks = (bufs.map readable).flatten →
        Ends (bytesCodec.receive Buffer.default chunks)
          (Full (.buffer .lengthError) Buffer.default.buffer_.length (stream chunks))
          (fun r => delivered r.2 = [[1, 2], []] ∧ errors r.2 = [] ∧ r.1.readable = []) :=
  ⟨by decide, stream_round_trip bytesCodec rfl (fun _ => rfl) (fun _ => rfl) [[1, 2], []]
    (by decide)⟩

end Muduo.Net.ProtobufCodecLite
