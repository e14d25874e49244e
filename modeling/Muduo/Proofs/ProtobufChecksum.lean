import Muduo.Lib.Adler32
import Muduo.Proofs.ProtobufRoundTrip

/-!
# `Muduo.Proofs.ProtobufChecksum`: one changed byte is always detected

`fillEmptyBuffer` writes a length and a body, which is the tag, the payload
and their checksum. Here one byte of the body is changed, and the rest of
the frame is as it was written.

* The byte is in the tag or in the payload. The checksum in the frame is
  still the one of the old bytes, and the new bytes have another one
  (`sum32_set_ne`): `Adler32.adler32_set_ne` says that already the low half
  differs.
* The byte is in the checksum. Then the four bytes spell another number
  than before, and the bytes in front of them have the old checksum.

Either way `validateChecksum` compares two different numbers
(`readBody_set`). `parse` returns `kCheckSumError` before it looks at the
tag or calls protobuf, and no message is delivered.

A frame is what a call of `fillEmptyBuffer` that returns has left in its
buffer (`fillEmptyBuffer_ok`), whatever empty buffer it was given. Nothing
is assumed about protobuf: the call only returns when the serialised
message has the size that was announced.
-/

set_option autoImplicit false

namespace Muduo.Net.ProtobufCodecLite

open Muduo.Base
open Muduo.Lib
open Muduo.Net.Buffer

variable {M : Type} {c : ProtobufCodecLite M} {b b' : Buffer} {message : M}

/-! ### Calls that have returned -/

/-- A serialised message, written behind the tag. -/
theorem serializeToBuffer_ok {n : Nat} (hb : Inv b)
    (hfits : c.protobuf.byteSize message + kChecksumLen ≤ kMaxMessageLen)
    (hok : c.serializeToBuffer message b = .ok (n, b')) :
    (c.payloadOf message).length = c.protobuf.byteSize message ∧ Inv b' ∧
      b'.readable = b.readable ++ c.payloadOf message := by
  have hmax := hb.size_le
  have hlimit : maxSize + kMaxMessageLen < sizeModulus := by decide
  obtain ⟨b₁, hens, hok⟩ := except_bind_eq_ok.mp hok
  obtain ⟨v, hcopy, hok⟩ := except_bind_eq_ok.mp hok
  obtain ⟨_, hassert, hok⟩ := except_bind_eq_ok.mp hok
  obtain ⟨b₂, hwritten, hok⟩ := except_bind_eq_ok.mp hok
  cases hok
  have hsize := of_assertThat hassert
  cases ensureWritableBytes_spec hb
      (show b.buffer_.length + (c.protobuf.byteSize message + kChecksumLen) < sizeModulus by
        omega) with
  | inr hthrow =>
      rw [hthrow.1] at hens
      cases hens
  | inl hroom =>
      obtain ⟨b₃, hens₃, hroom⟩ := hroom
      cases (mapError_eq_ok hens).symm.trans hens₃
      have hpayload : (c.payloadOf message).length ≤ b₁.writableBytes := by
        have hspace := hroom.room
        rw [payloadOf, hsize]
        omega
      have hv : v = overwrite b₁.buffer_ b₁.writerIndex_ (c.payloadOf message) :=
        Except.ok.inj ((mapError_eq_ok hcopy).symm.trans (if_pos (hroom.inv.fits hpayload)))
      obtain ⟨hinv, hread, _⟩ := written_spec hroom.inv hpayload
      have hb' : b' = written b₁ (c.payloadOf message) := by
        have hmove := hasWritten_spec hroom.inv hpayload
        rw [hsize, ← hv] at hmove
        exact Except.ok.inj ((mapError_eq_ok hwritten).symm.trans hmove)
      refine ⟨hsize, hb' ▸ hinv, ?_⟩
      rw [hb', hread, hroom.readable_eq]

/-- What a call of `fillEmptyBuffer` that returns has written. -/
theorem fillEmptyBuffer_ok (hb : Inv b)
    (hfits : c.tag_.length + c.protobuf.byteSize message + kChecksumLen ≤ kMaxMessageLen)
    (hok : c.fillEmptyBuffer b message = .ok b') :
    b'.readable = c.frame (c.payloadOf message) ∧
      c.tag_.length + (c.payloadOf message).length + kChecksumLen ≤ kMaxMessageLen := by
  have hlimit : kMaxMessageLen ≤ maxSize := by decide
  obtain ⟨_, hempty, hok₁⟩ := except_bind_eq_ok.mp hok
  obtain ⟨b₁, htag, hok₂⟩ := except_bind_eq_ok.mp hok₁
  obtain ⟨⟨n, b₂⟩, hser, hok₃⟩ := except_bind_eq_ok.mp hok₂
  obtain ⟨sum, hsum, hok₄⟩ := except_bind_eq_ok.mp hok₃
  obtain ⟨b₃, happ, hok₅⟩ := except_bind_eq_ok.mp hok₄
  obtain ⟨_, _, hlast⟩ := except_bind_eq_ok.mp hok₅
  have hold : b.readable = [] := hb.readableBytes_eq_zero.mp (of_assertThat hempty)
  obtain ⟨hb₁, hread₁⟩ := (append_ends hb (by omega)).post (mapError_eq_ok htag)
  obtain ⟨hpayload, hb₂, hread₂⟩ := serializeToBuffer_ok hb₁ (by omega) hser
  rw [hread₁, hold, List.nil_append] at hread₂
  have hlen₂ : b₂.readable.length = c.tag_.length + (c.payloadOf message).length := by
    rw [hread₂, List.length_append]
  have hsum' : sum = c.sum32 b₂.readable :=
    Except.ok.inj (hsum.symm.trans (checksum_all hb₂ (by omega)))
  rw [hsum'] at happ
  have hfield : (BigEndian.toBytes 4 (c.sum32 b₂.readable).toNat).length ≤ maxSize := by
    rw [BigEndian.length_toBytes]
    decide
  obtain ⟨hb₃, hread₃⟩ := (append_ends hb₂ hfield).post (mapError_eq_ok happ)
  have hbody : b₃.readable = c.sealed (c.tag_ ++ c.payloadOf message) := by
    rw [hread₃, hread₂]
    rfl
  have hlen₃ : b₃.readableBytes = (c.sealed (c.tag_ ++ c.payloadOf message)).length := by
    rw [← hb₃.length_readable, hbody]
  have hsealed := length_sealed_tag c (c.payloadOf message)
  have hprepend := mapError_eq_ok hlast
  have hroom : (BigEndian.toBytes 4 (BitVec.ofNat 32 b₃.readableBytes).toNat).length
      ≤ b₃.prependableBytes := by
    obtain ⟨_, hassert, _⟩ := except_bind_eq_ok.mp hprepend
    exact of_assertThat hassert
  obtain ⟨b₄, hprepend₄, _, hread₄, _⟩ := prepend_spec hb₃ hroom
  have hb' : b' = b₄ := Except.ok.inj (hprepend.symm.trans hprepend₄)
  refine ⟨?_, by omega⟩
  rw [hb', hread₄, hbody, hlen₃, toNat_ofNat_length (by omega)]
  rfl

/-! ### One changed byte -/

/-- One changed byte changes the checksum. -/
theorem sum32_set_ne (hadler : c.adler32 = Adler32.adler32) {signed : List UInt8} {i : Nat}
    {x : UInt8} (hi : i < signed.length) (hx : signed[i]? ≠ some x) :
    c.sum32 (signed.set i x) ≠ c.sum32 signed := by
  intro heq
  have hlow := Adler32.adler32_set_ne 1 (by decide) hi hx
  have hnat := congrArg BitVec.toNat heq
  simp only [sum32, hadler, BitVec.toNat_ofNat] at hnat
  omega

/-- A sealed body with one byte changed does not pass `validateChecksum`. -/
theorem readBody_set (hadler : c.adler32 = Adler32.adler32) {signed : List UInt8} {i : Nat}
    {x : UInt8} (hi : i < (c.sealed signed).length) (hx : (c.sealed signed)[i]? ≠ some x) :
    c.readBody ((c.sealed signed).set i x) = .error .kCheckSumError := by
  have hfield : (BigEndian.toBytes kChecksumLen (c.sum32 signed).toNat).length = kChecksumLen :=
    BigEndian.length_toBytes _ _
  have hlen : ((c.sealed signed).set i x).length - kChecksumLen = signed.length := by
    rw [List.length_set, length_sealed, Nat.add_sub_cancel]
  rw [readBody]
  apply if_neg
  rw [hlen, sealed, List.set_append]
  rw [length_sealed] at hi
  rw [sealed, List.getElem?_append] at hx
  split at hx
  · -- The byte is in front of the checksum, which is the one of the old bytes.
    rename_i hfront
    have hsame : (signed.set i x).length = signed.length := List.length_set
    have hstored : BitVec.ofNat 32 (BigEndian.ofBytes
        (BigEndian.toBytes kChecksumLen (c.sum32 signed).toNat)) = c.sum32 signed :=
      BigEndian.ofBytes_toNat (n := 4) _
    rw [if_pos hfront, List.take_left' hsame, List.drop_left' hsame, hstored]
    exact sum32_set_ne hadler hfront hx
  · -- The byte is in the checksum, and the bytes in front of it are the old ones.
    rename_i hback
    rw [if_neg hback, List.take_left' rfl, List.drop_left' rfl]
    intro heq
    have hset : ((BigEndian.toBytes kChecksumLen (c.sum32 signed).toNat).set
        (i - signed.length) x).length = kChecksumLen := by
      rw [List.length_set, hfield]
    have hbytes := BigEndian.toBytes_toNat (n := 4) hset
    rw [← heq] at hbytes
    apply hx
    show (BigEndian.toBytes 4 (c.sum32 signed).toNat)[i - signed.length]? = some x
    rw [hbytes, List.getElem?_set_self (by rw [hfield]; omega)]

/-- The changed body, still behind the old length. -/
theorem set_prefixed (body : List UInt8) {i : Nat} (hi : kHeaderLen ≤ i) (x : UInt8) :
    (prefixed body).set i x = prefixed (body.set (i - kHeaderLen) x) := by
  have hfield : (BigEndian.toBytes kHeaderLen body.length).length = kHeaderLen :=
    BigEndian.length_toBytes _ _
  rw [prefixed, prefixed, List.set_append, if_neg (by omega), hfield, List.length_set]

/-! ### The result -/

/-- **One changed byte is always detected.** Let `adler32` be the checksum of
RFC 1950, and let `frame` be what `fillEmptyBuffer` has written for a message
that fits into `kMaxMessageLen`. Change any one byte behind the length field to
any other value, and let a buffer hold the result, with more bytes behind it or
not. Then `parse` of the body returns `kCheckSumError`, so the round of
`onMessage` that would deliver a message reports the error and stops. -/
theorem single_byte_detected (c : ProtobufCodecLite M) (hadler : c.adler32 = Adler32.adler32)
    (empty frame : Buffer) (hempty : Inv empty) (message : M)
    (hfits : c.tag_.length + c.protobuf.byteSize message + kChecksumLen ≤ kMaxMessageLen)
    (hfill : c.fillEmptyBuffer empty message = .ok frame) (i : Nat) (x : UInt8)
    (hbody : kHeaderLen ≤ i) (hi : i < frame.readable.length) (hx : frame.readable[i]? ≠ some x)
    (received : Buffer) (hreceived : Inv received) (rest : List UInt8)
    (hbytes : received.readable = frame.readable.set i x ++ rest) :
    c.parse received (received.peek + kHeaderLen : Nat) (frame.readable.length - kHeaderLen : Nat)
        = .ok (.error .kCheckSumError) ∧
      (∀ t calls, c.deliver t (received, calls) (frame.readable.length - kHeaderLen : Nat)
        = .ok (.stop (received, calls ++ [.errorCallback .kCheckSumError t]))) ∧
      (c.rawCb_ = none → ∀ t,
        c.onMessage received t = .ok (received, [.errorCallback .kCheckSumError t])) := by
  obtain ⟨hframe, hmax⟩ := fillEmptyBuffer_ok hempty hfits hfill
  have hsealed := length_sealed_tag c (c.payloadOf message)
  have hlen : frame.readable.length
      = kHeaderLen + (c.sealed (c.tag_ ++ c.payloadOf message)).length := by
    rw [hframe]
    exact length_prefixed _
  have hheader : (BigEndian.toBytes kHeaderLen
      (c.sealed (c.tag_ ++ c.payloadOf message)).length).length = kHeaderLen :=
    BigEndian.length_toBytes _ _
  -- The byte is a byte of the body, and it is another one there.
  have hx' : (c.sealed (c.tag_ ++ c.payloadOf message))[i - kHeaderLen]? ≠ some x := by
    rwa [hframe, ProtobufCodecLite.frame, prefixed, List.getElem?_append_right (by omega), hheader] at hx
  have hrejected := readBody_set hadler (by omega) hx'
  rw [hframe, ProtobufCodecLite.frame, set_prefixed _ hbody] at hbytes
  have hsame : ((c.sealed (c.tag_ ++ c.payloadOf message)).set (i - kHeaderLen) x).length
      = frame.readable.length - kHeaderLen := by
    rw [List.length_set]
    omega
  generalize hnew : (c.sealed (c.tag_ ++ c.payloadOf message)).set (i - kHeaderLen) x = body
    at hrejected hbytes hsame
  rw [← hsame]
  have hmin : c.kMinMessageLen ≤ body.length := by
    rw [kMinMessageLen]
    omega
  have hshort : body.length ≤ kMaxMessageLen := by omega
  have hread : (received.readable.drop kHeaderLen).take body.length = body := by
    rw [hbytes, prefixed, List.append_assoc, List.drop_left' (BigEndian.length_toBytes _ _),
      List.take_left]
  have hroom : kHeaderLen + body.length ≤ received.readable.length := by
    rw [hbytes, List.length_append, length_prefixed]
    omega
  have hparse : c.parse received (received.peek + kHeaderLen : Nat) body.length
      = .ok (.error .kCheckSumError) := by
    rw [parse_spec hreceived (i := kHeaderLen) hmin hshort hroom, hread, hrejected]
  refine ⟨hparse, ?_, ?_⟩
  · intro t calls
    have hpeek : (received.peek : Int) + kHeaderLen = (received.peek + kHeaderLen : Nat) := by omega
    rw [deliver, hpeek, hparse, ok_bind]
    rfl
  · intro hraw t
    have hround := round_prefixed (t := t) (p := (received, [])) hraw hreceived hbytes hmin hshort
    rw [hrejected] at hround
    exact loop_stop _ hround

/-- The first byte of the tag arrives as zero. -/
theorem single_byte_detected_tag :
    ∃ frame, bytesCodec.fillEmptyBuffer Buffer.default [7] = .ok frame ∧ Inv frame ∧
      ∀ received : Buffer, Inv received → received.readable = frame.readable.set 4 0 →
        bytesCodec.parse received (received.peek + kHeaderLen : Nat)
          (frame.readable.length - kHeaderLen : Nat) = .ok (.error .kCheckSumError) := by
  obtain ⟨frame, hfill, hinv, hframe⟩ :=
    fillEmptyBuffer_spec (c := bytesCodec) (fun _ => rfl) [7] (by decide)
  refine ⟨frame, hfill, hinv, ?_⟩
  intro received hreceived hbytes
  have hlen : 4 < frame.readable.length := by
    rw [hframe]
    decide
  have hx : frame.readable[4]? ≠ some 0 := by
    rw [hframe]
    decide +kernel
  exact (single_byte_detected bytesCodec rfl Buffer.default frame inv_default [7] (by decide) hfill 4 0
    (by decide) hlen hx received hreceived [] (by rw [hbytes, List.append_nil])).1

end Muduo.Net.ProtobufCodecLite
