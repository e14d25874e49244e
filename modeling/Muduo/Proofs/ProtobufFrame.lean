import Muduo.Net.ProtobufCodecLite

/-!
# `Muduo.Proofs.ProtobufFrame`: the frames on the wire and their decoder

The grammar of the stream comes first, with no code in it. `sealed` is a
byte string with its checksum behind it, and a frame is the length of a
sealed body, and the body. A body is good when it is the seal of the tag
and a payload that protobuf accepts; `Rejected` lists the ways in which it
is not, and the error code of each.

The bytes at a place of the stream are one of three things
(`stream_cases`):

* the beginning of a frame that is not there yet (`Incomplete`);
* a well-formed frame and more bytes (`WellFormed`);
* neither, however many bytes follow (`Malformed`).

`decoder` decides which. It consumes a well-formed frame and halts at a
malformed one, where it consumes nothing. `decode_spec` says where it
stops and `decode_frames` that it consumes every well-formed frame on the
way, so what it delivers is the longest sequence of leading frames
(`frames_prefix`).
-/

set_option autoImplicit false

namespace Muduo.Net.ProtobufCodecLite

open Muduo.Base
open Muduo.Lib

variable {M : Type} (c : ProtobufCodecLite M)

/-! ### The grammar -/

/-- The checksum of `bytes`. -/
def sum32 (bytes : List UInt8) : BitVec 32 := BitVec.ofNat 32 (c.adler32 1 bytes)

/-- `signed` with its checksum. -/
def sealed (signed : List UInt8) : List UInt8 :=
  signed ++ BigEndian.toBytes kChecksumLen (c.sum32 signed).toNat

/-- `body` with its length in front. -/
def prefixed (body : List UInt8) : List UInt8 :=
  BigEndian.toBytes kHeaderLen body.length ++ body

/-- The frame of a payload. -/
def frame (payload : List UInt8) : List UInt8 := prefixed (c.sealed (c.tag_ ++ payload))

/-- `f` is a frame that carries `message`. -/
def WellFormed (f : List UInt8) (message : M) : Prop :=
  ∃ payload, f = c.frame payload ∧ c.tag_.length + payload.length + kChecksumLen ≤ kMaxMessageLen ∧
    c.protobuf.parseFromArray payload = some message

/-- `body` is complete and carries no message, for the reason `e`. -/
inductive Rejected (body : List UInt8) : ErrorCode → Prop where
  | checksum (signed sum : List UInt8) (hbody : body = signed ++ sum)
      (hlen : sum.length = kChecksumLen) (hsum : body ≠ c.sealed signed) : Rejected body .kCheckSumError
  | tag (signed : List UInt8) (hbody : body = c.sealed signed) (htag : ¬ c.tag_ <+: signed) :
      Rejected body .kUnknownMessageType
  | payload (payload : List UInt8) (hbody : body = c.sealed (c.tag_ ++ payload))
      (hparse : c.protobuf.parseFromArray payload = none) : Rejected body .kParseError

/-- The length field at the beginning of `xs`. -/
def lengthField (xs : List UInt8) : Int :=
  (BitVec.ofNat 32 (BigEndian.ofBytes (xs.take kHeaderLen))).toInt

/-- A frame begins here and bytes of it are missing. -/
def Incomplete (xs : List UInt8) : Prop :=
  xs.length < kHeaderLen + c.kMinMessageLen ∨
    ∃ n : Nat, lengthField xs = n ∧ c.kMinMessageLen ≤ n ∧ n ≤ kMaxMessageLen ∧
      xs.length < kHeaderLen + n

/-- No frame begins here, whatever comes after `xs`. -/
inductive Malformed (xs : List UInt8) : ErrorCode → Prop where
  | length (hxs : kHeaderLen + c.kMinMessageLen ≤ xs.length)
      (hrange : lengthField xs > kMaxMessageLen ∨ lengthField xs < c.kMinMessageLen) :
      Malformed xs .kInvalidLength
  | body (body rest : List UInt8) (e : ErrorCode) (hxs : xs = prefixed body ++ rest)
      (hmin : c.kMinMessageLen ≤ body.length) (hmax : body.length ≤ kMaxMessageLen)
      (hbody : c.Rejected body e) : Malformed xs e

/-! ### The length field -/

theorem length_prefixed (body : List UInt8) : (prefixed body).length = kHeaderLen + body.length := by
  rw [prefixed, List.length_append, BigEndian.length_toBytes]

theorem length_sealed (signed : List UInt8) :
    (c.sealed signed).length = signed.length + kChecksumLen := by
  rw [sealed, List.length_append, BigEndian.length_toBytes]

theorem length_sealed_tag (payload : List UInt8) :
    (c.sealed (c.tag_ ++ payload)).length = c.tag_.length + payload.length + kChecksumLen := by
  rw [length_sealed, List.length_append]

theorem kMaxMessageLen_lt : kMaxMessageLen < 2 ^ 31 := by decide

/-- The length field is in the first four bytes, so what follows does not matter. -/
theorem lengthField_append {xs : List UInt8} (h : kHeaderLen ≤ xs.length) (ys : List UInt8) :
    lengthField (xs ++ ys) = lengthField xs := by
  rw [lengthField, lengthField, List.take_append_of_le_length h]

/-- The field of a frame that fits is the length of its body. -/
theorem lengthField_prefixed {body : List UInt8} (h : body.length ≤ kMaxMessageLen)
    (rest : List UInt8) : lengthField (prefixed body ++ rest) = body.length := by
  have hlt : body.length < 2 ^ 31 := Nat.lt_of_le_of_lt h kMaxMessageLen_lt
  have htake : (prefixed body ++ rest).take kHeaderLen
      = BigEndian.toBytes kHeaderLen body.length := by
    rw [prefixed, List.append_assoc]
    exact List.take_left' (BigEndian.length_toBytes _ _)
  have hmod : body.length % 256 ^ kHeaderLen = body.length :=
    Nat.mod_eq_of_lt (Nat.lt_trans hlt (by decide))
  have hnat : (BitVec.ofNat 32 body.length).toNat = body.length := by
    rw [BitVec.toNat_ofNat]
    omega
  rw [lengthField, htake, BigEndian.ofBytes_toBytes, hmod,
    BitVec.toInt_eq_toNat_of_lt (by rw [hnat]; omega), hnat]

/-- A stream whose length field is `n` and which has that many bytes
begins with a body of length `n`. -/
theorem eq_prefixed {xs : List UInt8} {n : Nat} (hn : lengthField xs = n)
    (hlen : kHeaderLen + n ≤ xs.length) :
    ((xs.drop kHeaderLen).take n).length = n ∧
      xs = prefixed ((xs.drop kHeaderLen).take n) ++ xs.drop (kHeaderLen + n) := by
  have hbody : ((xs.drop kHeaderLen).take n).length = n := by
    rw [List.length_take, List.length_drop]
    omega
  have hhead : (xs.take kHeaderLen).length = kHeaderLen := by
    rw [List.length_take]
    omega
  have hnat : (BitVec.ofNat 32 (BigEndian.ofBytes (xs.take kHeaderLen))).toNat = n := by
    rw [lengthField, BitVec.toInt_eq_toNat_cond] at hn
    split at hn <;> omega
  have hbytes : BigEndian.toBytes kHeaderLen n = xs.take kHeaderLen := by
    rw [← hnat]
    exact BigEndian.toBytes_toNat hhead
  have hsplit : xs = xs.take kHeaderLen ++ ((xs.drop kHeaderLen).take n
      ++ (xs.drop kHeaderLen).drop n) := by
    rw [List.take_append_drop, List.take_append_drop]
  refine ⟨hbody, ?_⟩
  rw [prefixed, hbody, hbytes, List.append_assoc, ← List.drop_drop]
  exact hsplit

/-! ### The decoder -/

/-- What the codec makes of a complete body. -/
def readBody (body : List UInt8) : Except ErrorCode M :=
  let signed := body.take (body.length - kChecksumLen)
  if c.sum32 signed = BitVec.ofNat 32 (BigEndian.ofBytes (body.drop (body.length - kChecksumLen))) then
    if signed.take c.tag_.length = c.tag_ then
      match c.protobuf.parseFromArray (signed.drop c.tag_.length) with
      | some message => .ok message
      | none => .error .kParseError
    else .error .kUnknownMessageType
  else .error .kCheckSumError

variable {c}

/-- What the checksum is over is all but the last four bytes. -/
theorem take_sealed (signed : List UInt8) :
    (c.sealed signed).take ((c.sealed signed).length - kChecksumLen) = signed := by
  rw [length_sealed, Nat.add_sub_cancel]
  exact List.take_left' rfl

/-- A body is sealed exactly when the four bytes at its end are the
checksum of the others. -/
theorem sum32_eq_iff {body : List UInt8} (h : kChecksumLen ≤ body.length) :
    c.sum32 (body.take (body.length - kChecksumLen))
        = BitVec.ofNat 32 (BigEndian.ofBytes (body.drop (body.length - kChecksumLen))) ↔
      body = c.sealed (body.take (body.length - kChecksumLen)) := by
  have hlast : (body.drop (body.length - kChecksumLen)).length = kChecksumLen := by
    rw [List.length_drop]
    omega
  constructor
  · intro hsum
    have hbytes : BigEndian.toBytes kChecksumLen
        (c.sum32 (body.take (body.length - kChecksumLen))).toNat
          = body.drop (body.length - kChecksumLen) := by
      rw [hsum]
      exact BigEndian.toBytes_toNat hlast
    rw [sealed, hbytes, List.take_append_drop]
  · intro hbody
    have hdrop : body.drop (body.length - kChecksumLen)
        = BigEndian.toBytes kChecksumLen
          (c.sum32 (body.take (body.length - kChecksumLen))).toNat := by
      have hsplit := List.take_append_drop (body.length - kChecksumLen) body
      exact List.append_cancel_left (hsplit.trans hbody)
    rw [hdrop]
    exact (BigEndian.ofBytes_toNat (n := 4) _).symm

/-- Behind a matching checksum come the tag and the payload. -/
theorem readBody_of_sealed (signed : List UInt8) :
    c.readBody (c.sealed signed) =
      if signed.take c.tag_.length = c.tag_ then
        match c.protobuf.parseFromArray (signed.drop c.tag_.length) with
        | some message => .ok message
        | none => .error .kParseError
      else .error .kUnknownMessageType := by
  have hlen : kChecksumLen ≤ (c.sealed signed).length := by
    rw [length_sealed]
    omega
  have hsum := (sum32_eq_iff hlen).mpr (by rw [take_sealed])
  rw [take_sealed] at hsum
  simp only [readBody, take_sealed, if_pos hsum]

/-- The body of a frame is read back. -/
theorem readBody_frame {payload : List UInt8} {message : M}
    (h : c.protobuf.parseFromArray payload = some message) :
    c.readBody (c.sealed (c.tag_ ++ payload)) = .ok message := by
  rw [readBody_of_sealed, List.take_left, if_pos rfl, List.drop_left, h]

/-- A rejected body is read as its error. -/
theorem readBody_rejected {body : List UInt8} {e : ErrorCode} (h : c.Rejected body e) :
    c.readBody body = .error e := by
  cases h with
  | checksum signed sum hbody hlen hsum =>
      have hsplit : body.length - kChecksumLen = signed.length := by
        rw [hbody, List.length_append, hlen, Nat.add_sub_cancel]
      have htake : body.take (body.length - kChecksumLen) = signed := by
        rw [hsplit, hbody, List.take_left]
      have hlong : kChecksumLen ≤ body.length := by
        rw [hbody, List.length_append, hlen]
        exact Nat.le_add_left _ _
      have hno := mt (sum32_eq_iff (c := c) hlong).mp (by rwa [htake])
      simp only [readBody, if_neg hno]
  | tag signed hbody htag =>
      have hno : ¬ signed.take c.tag_.length = c.tag_ := by
        intro htake
        exact htag (htake ▸ List.take_prefix _ _)
      rw [hbody, readBody_of_sealed, if_neg hno]
  | payload payload hbody hparse =>
      rw [hbody, readBody_of_sealed, List.take_left, if_pos rfl, List.drop_left, hparse]

/-- A complete body is the seal of a message or it is rejected. -/
theorem body_cases {body : List UInt8} (h : c.kMinMessageLen ≤ body.length) :
    (∃ payload message, body = c.sealed (c.tag_ ++ payload) ∧
      c.protobuf.parseFromArray payload = some message) ∨ ∃ e, c.Rejected body e := by
  have hsum : kChecksumLen ≤ body.length := Nat.le_trans (Nat.le_add_left _ _) h
  have hsplit := List.take_append_drop (body.length - kChecksumLen) body
  have hlast : (body.drop (body.length - kChecksumLen)).length = kChecksumLen := by
    rw [List.length_drop]
    omega
  generalize body.take (body.length - kChecksumLen) = signed at hsplit
  generalize body.drop (body.length - kChecksumLen) = sum at hsplit hlast
  by_cases hcheck : body = c.sealed signed
  · by_cases htag : c.tag_ <+: signed
    · obtain ⟨payload, rfl⟩ := htag
      cases hparse : c.protobuf.parseFromArray payload with
      | some message => exact .inl ⟨payload, message, hcheck, hparse⟩
      | none => exact .inr ⟨.kParseError, .payload payload hcheck hparse⟩
    · exact .inr ⟨.kUnknownMessageType, .tag signed hcheck htag⟩
  · exact .inr ⟨.kCheckSumError, .checksum signed sum hsplit.symm hlast hcheck⟩

variable (c)

/-- One move: `q` is the messages delivered so far. -/
def next (q : List M) (xs : List UInt8) : Move (List M) ErrorCode :=
  if xs.length < c.kMinMessageLen + kHeaderLen then .need
  else if lengthField xs > kMaxMessageLen ∨ lengthField xs < c.kMinMessageLen then
    .halt 0 q .kInvalidLength
  else if xs.length < kHeaderLen + (lengthField xs).toNat then .need
  else
    match c.readBody ((xs.drop kHeaderLen).take (lengthField xs).toNat) with
    | .ok message => .take (kHeaderLen + (lengthField xs).toNat) (q ++ [message])
    | .error e => .halt 0 q e

variable {c}

/-- An incomplete frame waits. -/
theorem next_incomplete {xs : List UInt8} (h : c.Incomplete xs) (q : List M) :
    c.next q xs = .need := by
  rw [next]
  cases h with
  | inl hshort => rw [if_pos (by omega)]
  | inr hlen =>
      obtain ⟨n, hn, hmin, hmax, hshort⟩ := hlen
      have hrange : ¬ (lengthField xs > kMaxMessageLen ∨ lengthField xs < c.kMinMessageLen) := by
        omega
      by_cases hmore : xs.length < c.kMinMessageLen + kHeaderLen
      · rw [if_pos hmore]
      · rw [if_neg hmore, if_neg hrange, if_pos (by omega)]

/-- The move at a complete body of admissible length. -/
theorem next_prefixed {body : List UInt8} (hmin : c.kMinMessageLen ≤ body.length)
    (hmax : body.length ≤ kMaxMessageLen) (q : List M) (rest : List UInt8) :
    c.next q (prefixed body ++ rest) =
      match c.readBody body with
      | .ok message => .take (prefixed body).length (q ++ [message])
      | .error e => .halt 0 q e := by
  have hfield := lengthField_prefixed hmax rest
  have hxs : (prefixed body ++ rest).length = kHeaderLen + body.length + rest.length := by
    rw [List.length_append, length_prefixed]
  have hlong : ¬ (prefixed body ++ rest).length < c.kMinMessageLen + kHeaderLen := by omega
  have hrange : ¬ ((body.length : Int) > kMaxMessageLen ∨ (body.length : Int) < c.kMinMessageLen) := by
    omega
  have hfull : ¬ (prefixed body ++ rest).length < kHeaderLen + body.length := by omega
  have hbody : ((prefixed body ++ rest).drop kHeaderLen).take body.length = body := by
    rw [prefixed, List.append_assoc, List.drop_left' (BigEndian.length_toBytes _ _), List.take_left]
  rw [next, if_neg hlong, hfield, if_neg hrange, Int.toNat_natCast, if_neg hfull, hbody,
    length_prefixed]

/-- A well-formed frame is delivered, and the bytes behind it stay. -/
theorem next_wellFormed {f : List UInt8} {message : M} (h : c.WellFormed f message) (q : List M)
    (rest : List UInt8) : c.next q (f ++ rest) = .take f.length (q ++ [message]) := by
  obtain ⟨payload, rfl, hmax, hparse⟩ := h
  have hlen := length_sealed_tag c payload
  have hmin : c.kMinMessageLen ≤ (c.sealed (c.tag_ ++ payload)).length := by
    rw [hlen, kMinMessageLen]
    omega
  rw [frame, next_prefixed hmin (by omega), readBody_frame hparse]

/-- A malformed frame is an error, and nothing is taken. -/
theorem next_malformed {xs : List UInt8} {e : ErrorCode} (h : c.Malformed xs e) (q : List M) :
    c.next q xs = .halt 0 q e := by
  cases h with
  | length hxs hrange => rw [next, if_neg (by omega), if_pos hrange]
  | body body rest _ hxs hmin hmax hbody =>
      rw [hxs, next_prefixed hmin hmax, readBody_rejected hbody]

/-- More bytes do not repair a frame. -/
theorem Malformed.append {xs : List UInt8} {e : ErrorCode} (h : c.Malformed xs e)
    (ys : List UInt8) : c.Malformed (xs ++ ys) e := by
  cases h with
  | length hxs hrange =>
      refine .length ?_ ?_
      · rw [List.length_append]
        omega
      · rw [lengthField_append (by omega)]
        exact hrange
  | body body rest _ hxs hmin hmax hbody =>
      exact .body body (rest ++ ys) e (by rw [hxs, List.append_assoc]) hmin hmax hbody

/-- At the beginning of the stream there is part of a frame, a
well-formed frame, or no frame. -/
theorem stream_cases (c : ProtobufCodecLite M) (xs : List UInt8) :
    c.Incomplete xs ∨ (∃ f message rest, c.WellFormed f message ∧ xs = f ++ rest) ∨
      ∃ e, c.Malformed xs e := by
  by_cases hshort : xs.length < c.kMinMessageLen + kHeaderLen
  · exact .inl (.inl (by omega))
  by_cases hrange : lengthField xs > kMaxMessageLen ∨ lengthField xs < c.kMinMessageLen
  · exact .inr (.inr ⟨.kInvalidLength, .length (by omega) hrange⟩)
  -- The length field is admissible, so it is a natural number.
  obtain ⟨n, hn⟩ : ∃ n : Nat, lengthField xs = n := ⟨(lengthField xs).toNat, by omega⟩
  by_cases hfull : xs.length < kHeaderLen + n
  · exact .inl (.inr ⟨n, hn, by omega, by omega, hfull⟩)
  obtain ⟨hlen, hxs⟩ := eq_prefixed hn (by omega)
  generalize (xs.drop kHeaderLen).take n = body at hlen hxs
  have hmin : c.kMinMessageLen ≤ body.length := by omega
  have hmax : body.length ≤ kMaxMessageLen := by omega
  cases body_cases hmin with
  | inl hgood =>
      obtain ⟨payload, message, hbody, hparse⟩ := hgood
      refine .inr (.inl ⟨prefixed body, message, _, ⟨payload, ?_, ?_, hparse⟩, hxs⟩)
      · rw [frame, hbody]
      · rw [hbody, length_sealed_tag] at hmax
        exact hmax
  | inr hbad =>
      obtain ⟨e, hrejected⟩ := hbad
      exact .inr (.inr ⟨e, .body body _ e hxs hmin hmax hrejected⟩)

/-! ### What a move says about the stream -/

variable {q r : List M} {xs : List UInt8} {n : Nat} {e : ErrorCode}

/-- The converse: the decoder waits only for an incomplete frame. -/
theorem next_eq_need (h : c.next q xs = .need) : c.Incomplete xs := by
  rcases stream_cases c xs with hinc | ⟨f, message, rest, hf, rfl⟩ | ⟨e, he⟩
  · exact hinc
  · rw [next_wellFormed hf] at h
    cases h
  · rw [next_malformed he] at h
    cases h

/-- It delivers only the message of a well-formed frame. -/
theorem next_eq_take (h : c.next q xs = .take n r) :
    ∃ f message rest, c.WellFormed f message ∧ xs = f ++ rest ∧ n = f.length ∧
      r = q ++ [message] := by
  rcases stream_cases c xs with hinc | ⟨f, message, rest, hf, rfl⟩ | ⟨e, he⟩
  · rw [next_incomplete hinc] at h
    cases h
  · rw [next_wellFormed hf] at h
    cases h
    exact ⟨f, message, rest, hf, rfl, rfl, rfl⟩
  · rw [next_malformed he] at h
    cases h

/-- It stops only at a malformed one. -/
theorem next_eq_halt (h : c.next q xs = .halt n r e) : n = 0 ∧ r = q ∧ c.Malformed xs e := by
  rcases stream_cases c xs with hinc | ⟨f, message, rest, hf, rfl⟩ | ⟨e', he⟩
  · rw [next_incomplete hinc] at h
    cases h
  · rw [next_wellFormed hf] at h
    cases h
  · rw [next_malformed he] at h
    cases h
    exact ⟨rfl, rfl, he⟩

theorem WellFormed.length_pos {f : List UInt8} {message : M} (h : c.WellFormed f message) :
    0 < f.length := by
  obtain ⟨payload, rfl, -, -⟩ := h
  rw [frame, length_prefixed]
  exact Nat.lt_of_lt_of_le (by decide : 0 < kHeaderLen) (Nat.le_add_right _ _)

/-- The codec's decoder. -/
def decoder (c : ProtobufCodecLite M) : Decoder UInt8 (List M) ErrorCode where
  next := c.next
  next_nil := by
    intro q
    exact next_incomplete (.inl (Nat.lt_of_lt_of_le (by decide : 0 < kHeaderLen)
      (Nat.le_add_right _ _))) q
  take_bounds := by
    intro q xs n r h
    obtain ⟨f, message, rest, hf, rfl, rfl, -⟩ := next_eq_take h
    exact ⟨hf.length_pos, by rw [List.length_append]; omega⟩
  halt_bound := by
    intro q xs n r e h
    rw [(next_eq_halt h).1]
    exact Nat.zero_le _
  take_append := by
    intro q xs n r h ys
    obtain ⟨f, message, rest, hf, rfl, rfl, rfl⟩ := next_eq_take h
    rw [List.append_assoc]
    exact next_wellFormed hf q (rest ++ ys)
  halt_append := by
    intro q xs n r e h ys
    obtain ⟨rfl, rfl, he⟩ := next_eq_halt h
    exact next_malformed (he.append ys) _

theorem decoder_sticky (c : ProtobufCodecLite M) (q : List M) (xs : List UInt8) (n : Nat)
    (r : List M) (e : ErrorCode) (h : c.decoder.next q xs = .halt n r e) : n = 0 ∧ r = q :=
  ⟨(next_eq_halt h).1, (next_eq_halt h).2.1⟩

/-- A frame is malformed in one way, because the checks have an order. -/
theorem Malformed.unique {e' : ErrorCode} (h : c.Malformed xs e) (h' : c.Malformed xs e') :
    e = e' := by
  have hnext := (next_malformed h []).symm.trans (next_malformed h' [])
  injection hnext

/-- The three kinds of input exclude each other. -/
theorem Incomplete.not_malformed (h : c.Incomplete xs) : ¬ c.Malformed xs e := by
  intro he
  have hnext := (next_incomplete h []).symm.trans (next_malformed he [])
  cases hnext

/-! ### What is decoded -/

/-- The frames of `messages` are consumed one after the other. -/
theorem decode_frames {frames : List (List UInt8)} {messages : List M}
    (h : List.Forall₂ c.WellFormed frames messages) (q : List M) (rest : List UInt8) :
    c.decoder.decode q (frames.flatten ++ rest) = c.decoder.decode (q ++ messages) rest := by
  induction h generalizing q with
  | nil => rw [List.append_nil, List.flatten_nil, List.nil_append]
  | @cons f message frames messages hf _ ih =>
      rw [List.flatten_cons, List.append_assoc, Decoder.decode_take (next_wellFormed hf q _),
        List.drop_left, ih, List.append_assoc, List.singleton_append]

/-- Where the decoder stops: behind well-formed frames, whose messages it
has delivered, at a frame that is incomplete or malformed. -/
theorem decode_spec (c : ProtobufCodecLite M) (q : List M) (xs : List UInt8) :
    ∃ frames messages, List.Forall₂ c.WellFormed frames messages ∧
      xs = frames.flatten ++ (c.decoder.decode q xs).rest ∧
      (c.decoder.decode q xs).state = q ++ messages ∧
      match (c.decoder.decode q xs).verdict with
      | none => c.Incomplete (c.decoder.decode q xs).rest
      | some e => c.Malformed (c.decoder.decode q xs).rest e := by
  refine Decoder.decode_induct (D := c.decoder) (P := fun q xs p =>
    ∃ frames messages, List.Forall₂ c.WellFormed frames messages ∧ xs = frames.flatten ++ p.rest ∧
      p.state = q ++ messages ∧
      match p.verdict with
      | none => c.Incomplete p.rest
      | some e => c.Malformed p.rest e) ?_ ?_ ?_ q xs
  · intro q xs h
    exact ⟨[], [], .nil, rfl, (List.append_nil q).symm, next_eq_need h⟩
  · intro q xs n r h ih
    obtain ⟨f, message, rest, hf, rfl, rfl, rfl⟩ := next_eq_take h
    obtain ⟨frames, messages, hframes, hrest, hstate, hverdict⟩ := ih
    rw [List.drop_left] at hrest hstate hverdict ⊢
    refine ⟨f :: frames, message :: messages, .cons hf hframes, ?_, ?_, hverdict⟩
    · rw [List.flatten_cons, List.append_assoc, ← hrest]
    · rw [hstate, List.append_assoc, List.singleton_append]
  · intro q xs n r e h
    obtain ⟨rfl, rfl, he⟩ := next_eq_halt h
    exact ⟨[], [], .nil, rfl, (List.append_nil _).symm, he⟩

/-- The verdict is the error of the frame the decoder stops at. -/
theorem verdict_iff (c : ProtobufCodecLite M) (q : List M) (xs : List UInt8) :
    ((c.decoder.decode q xs).verdict = none ↔ c.Incomplete (c.decoder.decode q xs).rest) ∧
      ∀ e, (c.decoder.decode q xs).verdict = some e ↔
        c.Malformed (c.decoder.decode q xs).rest e := by
  obtain ⟨_, _, _, _, _, hverdict⟩ := decode_spec c q xs
  generalize c.decoder.decode q xs = d at hverdict
  cases hv : d.verdict with
  | none =>
      rw [hv] at hverdict
      have hinc : c.Incomplete d.rest := hverdict
      refine ⟨⟨fun _ => hinc, fun _ => rfl⟩, fun e => ⟨fun h => ?_, fun h => ?_⟩⟩
      · cases h
      · exact absurd h hinc.not_malformed
  | some e₀ =>
      rw [hv] at hverdict
      have hmal : c.Malformed d.rest e₀ := hverdict
      refine ⟨⟨fun h => ?_, fun h => ?_⟩, fun e => ⟨fun h => ?_, fun h => ?_⟩⟩
      · cases h
      · exact absurd hmal h.not_malformed
      · cases h
        exact hmal
      · rw [hmal.unique h]

/-- No other sequence of leading frames is longer than the one that is
delivered. -/
theorem frames_prefix {frames : List (List UInt8)} {messages : List M}
    (h : List.Forall₂ c.WellFormed frames messages) (hxs : frames.flatten <+: xs) :
    messages <+: (c.decoder.decode [] xs).state := by
  obtain ⟨rest, rfl⟩ := hxs
  obtain ⟨_, more, _, _, hstate, _⟩ := decode_spec c messages rest
  have hdecode := decode_frames h [] rest
  rw [List.nil_append] at hdecode
  rw [hdecode, hstate]
  exact List.prefix_append messages more

end Muduo.Net.ProtobufCodecLite
