import Muduo.Net.ZlibStream
import Muduo.Proofs.Buffer

/-!
# `Muduo.Proofs.ZlibStream`: what is fed to `deflate`

A call of `deflate` moves bytes from `pending` to `fed` and changes their
concatenation in no other way (`Fed`). So a call of the stream feeds exactly
what it makes pending, less what it leaves there.

* `write(StringPiece)` leaves nothing.
* `write(Buffer*)` leaves what it does not remove from the buffer, as long as
  the number of readable bytes fits into the 32 bits of `avail_in`. But
  `next_in` stays set, and the `assert` of the next `write(StringPiece)` fails,
  also when the buffer was empty.
* `finish` feeds what the last `write(Buffer*)` has left. These bytes were not
  removed from the buffer.

`Good` is the condition on a call that excludes the three cases. A session of
good calls feeds what was taken, in order and once, and stops for one reason
only: the vector of the output cannot grow any more. A call of `deflate` asks
for less than 128 KiB of room, so this needs a session with many calls, or an
output that was almost full before (`need`).
-/

set_option autoImplicit false

namespace Muduo.Net

open Muduo.Base
open Muduo.Lib

namespace ZlibOutputStream

open Zlib

variable {z z' : ZlibOutputStream}

/-- The output is a buffer, the size of its next growth is small, and the input is there. -/
structure Inv (z : ZlibOutputStream) : Prop where
  output : Buffer.Inv z.output_
  size_lt : z.bufferSize_ < 131072
  input : ∀ i, z.next_in = some i → i.pos + z.avail_in ≤ i.mem.length
  none : z.next_in = none → z.avail_in = 0

/-- `z'` is `z` after calls of `deflate`: bytes have moved from `pending` to `fed`, and `next_in`
has moved with them. -/
structure Fed (z z' : ZlibOutputStream) : Prop where
  inv : Inv z'
  bytes : z'.fed ++ z'.pending = z.fed ++ z.pending
  avail_le : z'.avail_in ≤ z.avail_in
  next_in : z'.next_in = z.next_in.map fun i => ⟨i.mem, i.pos + (z.avail_in - z'.avail_in)⟩

/-- What the vector of the output can need for `calls` calls of `deflate`, each of which makes room
for `bufferSize_` bytes. -/
def need (z : ZlibOutputStream) (calls : Nat) : Nat := z.output_.buffer_.length + 131072 * calls

/-- The ways a call can stop that are not an `assert` of the stream. `limit` is what the vector of
the output needs. -/
def Stops (limit : Nat) (f : Fault) : Prop :=
  (f = .output .lengthError ∧ maxSize < limit) ∨ f.Environment

theorem Stops.mono {limit limit' : Nat} {f : Fault} (h : Stops limit f) (hle : limit ≤ limit') :
    Stops limit' f :=
  h.imp_left fun hfull => ⟨hfull.1, Nat.lt_of_lt_of_le hfull.2 hle⟩

theorem Fed.refl (h : Inv z) : Fed z z where
  inv := h
  bytes := rfl
  avail_le := Nat.le_refl _
  next_in := by
    rw [Nat.sub_self]
    exact Option.map_id'.symm

theorem Fed.trans {z'' : ZlibOutputStream} (h : Fed z z') (h' : Fed z' z'') : Fed z z'' where
  inv := h'.inv
  bytes := h'.bytes.trans h.bytes
  avail_le := Nat.le_trans h'.avail_le h.avail_le
  next_in := by
    have hle := h.avail_le
    have hle' := h'.avail_le
    rw [h'.next_in, h.next_in, Option.map_map]
    congr 1
    funext i
    show Input.mk i.mem (i.pos + (z.avail_in - z'.avail_in) + (z'.avail_in - z''.avail_in))
      = Input.mk i.mem (i.pos + (z.avail_in - z''.avail_in))
    congr 1
    omega

theorem Inv.length_pending (h : Inv z) : z.pending.length = z.avail_in := by
  unfold pending
  split
  · exact length_slice (h.input _ ‹_›)
  · exact (h.none ‹_›).symm

theorem Inv.pending_eq_nil (h : Inv z) (hzero : z.avail_in = 0) : z.pending = [] :=
  List.eq_nil_of_length_eq_zero (h.length_pending.trans hzero)

/-- The stream with new input, as both overloads of `write` offer it. -/
theorem Inv.offer (h : Inv z) {i : Input} {n : Nat} (hfits : i.pos + n ≤ i.mem.length) :
    Inv { z with next_in := some i, avail_in := n } where
  output := h.output
  size_lt := h.size_lt
  input := by
    intro j hj
    cases hj
    exact hfits
  none := fun hnone => nomatch hnone

/-! ### One call of `deflate` -/

theorem pending_consume (n : Nat) : (z.consume n).pending = z.pending.drop n := by
  unfold consume pending
  cases z.next_in with
  | none => exact List.drop_nil.symm
  | some i => exact (drop_slice i.mem i.pos z.avail_in n).symm

/-- What a call does to the input. -/
theorem Inv.consume (h : Inv z) {n : Nat} (hn : n ≤ z.avail_in) {output : Buffer} {size : Nat}
    {code : Code} (houtput : Buffer.Inv output) (hsize : size < 131072) :
    Fed z { z.consume n with output_ := output, bufferSize_ := size, zerror_ := code } where
  inv :=
    { output := houtput
      size_lt := hsize
      input := by
        intro i hi
        obtain ⟨j, hj, rfl⟩ := Option.map_eq_some_iff.mp hi
        have hfits := h.input j hj
        show j.pos + n + (z.avail_in - n) ≤ j.mem.length
        omega
      none := by
        intro hnone
        have hzero := h.none (Option.map_eq_none_iff.mp hnone)
        show z.avail_in - n = 0
        omega }
  bytes := by
    show z.fed ++ z.pending.take n ++ (z.consume n).pending = z.fed ++ z.pending
    rw [pending_consume, List.append_assoc, List.take_append_drop]
  avail_le := Nat.sub_le _ _
  next_in := by
    show z.next_in.map _ = z.next_in.map _
    congr 1
    funext i
    show Input.mk i.mem _ = Input.mk i.mem (i.pos + (z.avail_in - (z.avail_in - n)))
    congr 1
    omega

theorem nextBufferSize_lt {output : Buffer} {size : Nat} (h : size < 131072) :
    nextBufferSize output size < 131072 := by
  unfold nextBufferSize
  split <;> omega

/-- `hasWritten` of what `deflate` may have filled: nothing that was not there before is asked. -/
theorem hasWritten_inv {b : Buffer} (h : Buffer.Inv b) (data : List UInt8)
    (hdata : data.length ≤ b.writableBytes) {len : Nat} (hlen : len ≤ b.writableBytes) :
    ∃ b', Buffer.hasWritten { b with buffer_ := overwrite b.buffer_ b.writerIndex_ data } len = .ok b' ∧
      Buffer.Inv b' ∧ b'.buffer_.length = b.buffer_.length := by
  have hsize := h.size_lt
  have hfit := h.fits hdata
  have hw := h.writer_le
  have hr := h.reader_le
  have hsame : (overwrite b.buffer_ b.writerIndex_ data).length = b.buffer_.length :=
    length_overwrite hfit
  have hroom : len ≤ Buffer.writableBytes
      { b with buffer_ := overwrite b.buffer_ b.writerIndex_ data } := by
    rw [Buffer.writableBytes, hsame]
    exact hlen
  rw [h.writableBytes_eq] at hlen
  have hadd : addSize b.writerIndex_ len = b.writerIndex_ + len := addSize_eq (by omega)
  refine ⟨⟨overwrite b.buffer_ b.writerIndex_ data, b.readerIndex_, b.writerIndex_ + len⟩, ?_, ?_, hsame⟩
  · simp only [Buffer.hasWritten, assertThat_pos hroom, ok_bind, hadd, except_pure]
  · exact
      { cheap_le := by rw [hsame]; exact h.cheap_le
        reader_le := by dsimp only; omega
        writer_le := by dsimp only; rw [hsame]; omega
        size_le := by rw [hsame]; exact h.size_le }

/-- One call of `compress`: it moves bytes from `pending` to `fed`, and it stops only if the room
that it asks for is more than the vector can have. -/
theorem compress_ends (h : Inv z) (flush : Flush) (a : Answer) :
    Ends (z.compress flush a) (Stops (z.need 1)) fun z' =>
      Fed z z' ∧ z'.zerror_ = a.code ∧ a.LegalCode z.avail_in flush ∧
        z'.output_.buffer_.length ≤ z.need 1 := by
  have hsmall := h.size_lt
  have hmax := h.output.size_le
  unfold compress
  have hsum : z.output_.buffer_.length + z.bufferSize_ < sizeModulus := by
    rw [maxSize] at hmax
    rw [sizeModulus]
    omega
  obtain ⟨out, hout, hroom⟩ | ⟨hout, hfull⟩ := Buffer.ensureWritableBytes_spec h.output hsum
  · rw [hout, mapError_ok, ok_bind]
    by_cases hlegal : a.Legal flush z.avail_in (out.writableBytes % 2 ^ 32)
    · have hmod : out.writableBytes % 2 ^ 32 ≤ out.writableBytes := Nat.mod_le _ _
      have hproduced : a.produced.length ≤ out.writableBytes := Nat.le_trans hlegal.2.1 hmod
      have hcopy : Buffer.copyInto out.buffer_ out.beginWrite a.produced
          = .ok (overwrite out.buffer_ out.writerIndex_ a.produced) :=
        if_pos (hroom.inv.fits hproduced)
      have hsame : Buffer.writableBytes
          { out with buffer_ := overwrite out.buffer_ out.writerIndex_ a.produced }
            = out.writableBytes := by
        rw [Buffer.writableBytes, length_overwrite (hroom.inv.fits hproduced)]
        rfl
      have hwritable : out.writableBytes < sizeModulus := by
        have hlt := hroom.inv.size_lt
        rw [hroom.inv.writableBytes_eq]
        omega
      -- `avail_out` has 32 bits, so with more room than that `hasWritten` counts too much, but
      -- never more than there is.
      have hlen : subSize out.writableBytes
          (out.writableBytes % 2 ^ 32 - a.produced.length) ≤ out.writableBytes := by
        rw [subSize_eq (by omega) hwritable]
        omega
      obtain ⟨out', hwritten, hinv, hlength⟩ := hasWritten_inv hroom.inv a.produced hproduced hlen
      have hgrown := hroom.size_le_add
      dsimp only
      rw [assertThat_pos hlegal, ok_bind, hcopy, mapError_ok, ok_bind, hsame, hwritten, mapError_ok,
        ok_bind]
      refine Ends.ok ⟨h.consume hlegal.1 hinv (nextBufferSize_lt hsmall), rfl, hlegal.2.2, ?_⟩
      show out'.buffer_.length ≤ z.output_.buffer_.length + 131072 * 1
      omega
    · dsimp only
      rw [assertThat_neg hlegal]
      exact Ends.error (.inr (.inl rfl))
  · have hwriter := h.output.writer_le
    rw [hout]
    refine Ends.error (.inl ⟨rfl, ?_⟩)
    rw [need]
    omega

/-- What is needed after one more call is needed before it. -/
theorem need_le (h : z'.output_.buffer_.length ≤ z.need 1) (calls : Nat) :
    z'.need calls ≤ z.need (calls + 1) := by
  rw [need] at *
  rw [need]
  omega

theorem need_mono (z : ZlibOutputStream) {calls calls' : Nat} (h : calls ≤ calls') :
    z.need calls ≤ z.need calls' :=
  Nat.add_le_add_left (Nat.mul_le_mul_left _ h) _

theorem length_le_need (z : ZlibOutputStream) (calls : Nat) :
    z.output_.buffer_.length ≤ z.need calls := Nat.le_add_right _ _

/-! ### The loops -/

/-- The loop of `write(StringPiece)` feeds everything. Induction on the answers. -/
theorem writeLoop_ends (answers : List Answer) : ∀ {z : ZlibOutputStream}, Inv z →
    z.zerror_ = .Z_OK →
      Ends (writeLoop answers z) (Stops (z.need answers.length)) fun z' =>
        Fed z z' ∧ z'.zerror_ = .Z_OK ∧ z'.avail_in = 0 ∧
          z'.output_.buffer_.length ≤ z.need answers.length := by
  induction answers with
  | nil =>
      intro z h hok
      rw [writeLoop]
      split
      · exact Ends.error (.inr (.inr rfl))
      · rename_i hidle
        refine Ends.ok ⟨Fed.refl h, hok, ?_, length_le_need z _⟩
        by_contra hne
        exact hidle ⟨by omega, hok⟩
  | cons a answers ih =>
      intro z h hok
      rw [writeLoop]
      split
      · have hone : z.need 1 ≤ z.need (a :: answers).length := need_mono z (Nat.le_add_left _ _)
        refine Ends.bind ((compress_ends h .Z_NO_FLUSH a).mono (fun _ hf => hf.mono hone)
          fun _ hz => hz) fun z₁ h₁ => ?_
        obtain ⟨hfed, hcode, hlegal, hgrown⟩ := h₁
        have hle := need_le hgrown answers.length
        -- Without an error the code is `Z_OK`, so the loop goes on until the input is consumed.
        refine (ih hfed.inv (hcode.trans hlegal)).mono (fun _ hf => hf.mono hle) fun z₂ h₂ => ?_
        exact ⟨hfed.trans h₂.1, h₂.2.1, h₂.2.2.1, Nat.le_trans h₂.2.2.2 hle⟩
      · rename_i hidle
        refine Ends.ok ⟨Fed.refl h, hok, ?_, length_le_need z _⟩
        by_contra hne
        exact hidle ⟨by omega, hok⟩

/-- `write(Buffer*)` calls `deflate` once, and not at all for an empty buffer. -/
theorem compressOnce_ends (h : Inv z) (hok : z.zerror_ = .Z_OK) (answers : List Answer) :
    Ends (z.compressOnce answers) (Stops (z.need answers.length)) fun z' =>
      Fed z z' ∧ z'.zerror_ = .Z_OK ∧ z'.output_.buffer_.length ≤ z.need answers.length := by
  unfold compressOnce
  split
  · cases answers with
    | nil => exact Ends.error (.inr (.inr rfl))
    | cons a answers =>
        have hle : z.need 1 ≤ z.need (a :: answers).length := need_mono z (Nat.le_add_left _ _)
        refine (compress_ends h .Z_NO_FLUSH a).mono (fun _ hf => hf.mono hle) fun z' h' => ?_
        exact ⟨h'.1, h'.2.1.trans h'.2.2.1, Nat.le_trans h'.2.2.2 hle⟩
  · exact Ends.ok ⟨Fed.refl h, hok, length_le_need z _⟩

/-- The loop of `finish` feeds what is pending, if anything. -/
theorem finishLoop_ends (answers : List Answer) : ∀ {z : ZlibOutputStream}, Inv z →
    Ends (finishLoop answers z) (Stops (z.need answers.length)) fun z' =>
      Fed z z' ∧ z'.output_.buffer_.length ≤ z.need answers.length := by
  induction answers with
  | nil =>
      intro z h
      rw [finishLoop]
      split
      · exact Ends.error (.inr (.inr rfl))
      · exact Ends.ok ⟨Fed.refl h, length_le_need z _⟩
  | cons a answers ih =>
      intro z h
      have hone : z.need 1 ≤ z.need (a :: answers).length := need_mono z (Nat.le_add_left _ _)
      rw [finishLoop]
      split
      · refine Ends.bind ((compress_ends h .Z_FINISH a).mono (fun _ hf => hf.mono hone)
          fun _ hz => hz) fun z₁ h₁ => ?_
        have hle := need_le h₁.2.2.2 answers.length
        refine (ih h₁.1.inv).mono (fun _ hf => hf.mono hle) fun z₂ h₂ => ?_
        exact ⟨h₁.1.trans h₂.1, Nat.le_trans h₂.2 hle⟩
      · exact Ends.ok ⟨Fed.refl h, length_le_need z _⟩

/-! ### The calls -/

/-- A call on a stream that has ended changes nothing. -/
theorem write_ended (h : z.zerror_ ≠ .Z_OK) (buf : StringPiece) (answers : List Answer) :
    z.write buf answers = .ok z := if_pos h

theorem writeBuffer_ended (h : z.zerror_ ≠ .Z_OK) (input : Buffer) (answers : List Answer) :
    z.writeBuffer input answers = .ok (z, input) := if_pos h

theorem finish_ended (h : z.zerror_ ≠ .Z_OK) (answers : List Answer) :
    z.finish answers = .ok z := if_pos h

/-- `write(StringPiece)` feeds the piece and leaves `next_in` as it found it. -/
theorem write_ends (h : Inv z) (hok : z.zerror_ = .Z_OK) (hnext : z.next_in = none)
    {buf : StringPiece} (h0 : 0 ≤ buf.length_) (hint : buf.length_ < 2 ^ 31)
    (hlen : buf.length_ ≤ buf.ptr_.length) (answers : List Answer) :
    Ends (z.write buf answers) (Stops (z.need answers.length)) fun z' =>
      Inv z' ∧ z'.fed = z.fed ++ pieceBytes buf ∧ z'.next_in = none ∧ z'.zerror_ = .Z_OK ∧
        z'.output_.buffer_.length ≤ z.need answers.length := by
  have hsize : (buf.length_ % 2 ^ 32).toNat = buf.length_.toNat := by omega
  rw [write, if_neg (not_not.mpr hok), assertThat_pos ⟨hnext, h.none hnext⟩, ok_bind, hsize]
  obtain ⟨z₀, hz₀⟩ : ∃ z₀ : ZlibOutputStream, z₀ = { z with
    next_in := some ⟨buf.ptr_, 0⟩, avail_in := buf.length_.toNat } := ⟨_, rfl⟩
  have hinv : Inv z₀ := by
    subst hz₀
    exact h.offer (show 0 + buf.length_.toNat ≤ buf.ptr_.length by omega)
  have hpending : z₀.fed ++ z₀.pending = z.fed ++ pieceBytes buf := by
    subst hz₀
    rfl
  have hneed : z₀.need answers.length = z.need answers.length := by
    subst hz₀
    rfl
  rw [← hz₀, ← hneed]
  refine Ends.bind (writeLoop_ends answers hinv (by rw [hz₀]; exact hok)) fun z₁ h₁ => ?_
  obtain ⟨hfed, hcode, hzero, hgrown⟩ := h₁
  have hend : z₁.next_in = some ⟨buf.ptr_, buf.length_.toNat⟩ := by
    rw [hfed.next_in, hzero, hz₀]
    show some (Input.mk buf.ptr_ (0 + (buf.length_.toNat - 0))) = _
    rw [Nat.zero_add, Nat.sub_zero]
  have hall := hfed.bytes
  rw [hfed.inv.pending_eq_nil hzero, List.append_nil, hpending] at hall
  rw [release, if_pos hzero, assertThat_pos hend, ok_bind]
  have hinv' : Inv { z₁ with next_in := none } :=
    { output := hfed.inv.output
      size_lt := hfed.inv.size_lt
      input := fun i hi => nomatch hi
      none := fun _ => hzero }
  exact Ends.ok ⟨hinv', hall, rfl, hcode, hgrown⟩

/-- What was fed is what `retrieve` removes: the bytes that are still pending are the ones that
stay in the buffer. -/
theorem fed_eq_removed (h : Inv z') {input input' : Buffer} (hinput : Buffer.Inv input)
    (hinput' : Buffer.Inv input') (hbytes : z'.fed ++ z'.pending = z.fed ++ input.readable)
    (hle : z'.avail_in ≤ input.readableBytes)
    (hreadable : input'.readable = input.readable.drop (input.readableBytes - z'.avail_in)) :
    z'.fed = z.fed ++ removed input input' := by
  have hread := hinput.length_readable
  have hleft : input'.readableBytes = z'.avail_in := by
    rw [← hinput'.length_readable, hreadable, List.length_drop, hread]
    omega
  have hsplit : z'.fed ++ z'.pending = (z.fed ++ removed input input') ++ input'.readable := by
    rw [hbytes, removed, hleft, hreadable, List.append_assoc, List.take_append_drop]
  have hlength : z'.pending.length = input'.readable.length := by
    rw [h.length_pending, hinput'.length_readable, hleft]
  exact List.append_inj_left' hsplit hlength

/-- The `assert` at the start of `write(StringPiece)`. -/
theorem write_nextIn (hok : z.zerror_ = .Z_OK) (hnext : z.next_in ≠ none) (buf : StringPiece)
    (answers : List Answer) : z.write buf answers = .error .nextIn := by
  rw [write, if_neg (not_not.mpr hok), assertThat_neg fun hboth => hnext hboth.1]
  rfl

/-- `write(Buffer*)` leaves `next_in` set. It feeds what it removes from the buffer when `avail_in`
can hold the number of readable bytes. -/
theorem writeBuffer_ends (h : Inv z) (hok : z.zerror_ = .Z_OK) {input : Buffer}
    (hinput : Buffer.Inv input) (answers : List Answer) :
    Ends (z.writeBuffer input answers) (Stops (z.need answers.length)) fun r =>
      Inv r.1 ∧ r.1.next_in ≠ none ∧ r.1.zerror_ = .Z_OK ∧
        r.1.output_.buffer_.length ≤ z.need answers.length ∧
        (input.readableBytes < 2 ^ 32 → r.1.fed = z.fed ++ removed input r.2) := by
  have hwriter := hinput.writer_le
  have hreader := hinput.reader_le
  have hbytes := hinput.readableBytes_eq
  have hlow : input.readableBytes % 2 ^ 32 ≤ input.readableBytes := Nat.mod_le _ _
  rw [writeBuffer, if_neg (not_not.mpr hok)]
  obtain ⟨z₀, hz₀⟩ : ∃ z₀ : ZlibOutputStream, z₀ = { z with
    next_in := some ⟨input.buffer_, input.peek⟩
    avail_in := input.readableBytes % 2 ^ 32 } := ⟨_, rfl⟩
  have hinv : Inv z₀ := by
    subst hz₀
    exact h.offer
      (show input.readerIndex_ + input.readableBytes % 2 ^ 32 ≤ input.buffer_.length by omega)
  have havail : z₀.avail_in = input.readableBytes % 2 ^ 32 := by rw [hz₀]
  have hpending : z₀.fed ++ z₀.pending
      = z.fed ++ slice input.buffer_ input.peek (input.readableBytes % 2 ^ 32) := by
    subst hz₀
    rfl
  have hneed : z₀.need answers.length = z.need answers.length := by
    subst hz₀
    rfl
  rw [← hz₀, ← hneed]
  refine Ends.bind (compressOnce_ends hinv (by rw [hz₀]; exact hok) answers) fun z₁ h₁ => ?_
  obtain ⟨hfed, hcode, hgrown⟩ := h₁
  have hle : z₁.avail_in ≤ input.readableBytes :=
    Nat.le_trans (havail ▸ hfed.avail_le) hlow
  have hsub : subSize input.readableBytes z₁.avail_in = input.readableBytes - z₁.avail_in := by
    have hsize := hinput.size_lt
    exact subSize_eq hle (by omega)
  obtain ⟨input', hretrieve, hinv', hreadable, _⟩ :=
    Buffer.retrieve_spec hinput (Nat.sub_le input.readableBytes z₁.avail_in)
  have hset : z₁.next_in ≠ none := by
    rw [hfed.next_in, hz₀]
    exact Option.some_ne_none _
  rw [hsub, hretrieve, mapError_ok, ok_bind]
  refine Ends.ok ⟨hfed.inv, hset, hcode, hgrown, fun hsmall => ?_⟩
  rw [Nat.mod_eq_of_lt hsmall] at hpending
  exact fed_eq_removed hfed.inv hinput hinv' (hfed.bytes.trans hpending) hle hreadable

/-- `finish` ends the stream. With no input left it feeds nothing. -/
theorem finish_ends (h : Inv z) (hok : z.zerror_ = .Z_OK) (answers : List Answer) :
    Ends (z.finish answers) (Stops (z.need answers.length)) fun z' =>
      Inv z' ∧ z'.zerror_ ≠ .Z_OK ∧ z'.output_.buffer_.length ≤ z.need answers.length ∧
        (z.avail_in = 0 → z'.fed = z.fed) := by
  rw [finish, if_neg (not_not.mpr hok)]
  refine Ends.bind (finishLoop_ends answers h) fun z₁ h₁ => ?_
  obtain ⟨hfed, hgrown⟩ := h₁
  refine Ends.ok ⟨⟨hfed.inv.output, hfed.inv.size_lt, hfed.inv.input, hfed.inv.none⟩,
    fun hended => (by cases hended), hgrown, fun hzero => ?_⟩
  have hle := hfed.avail_le
  have hbytes := hfed.bytes
  rwa [h.pending_eq_nil hzero, hfed.inv.pending_eq_nil (by omega), List.append_nil,
    List.append_nil] at hbytes

end ZlibOutputStream

/-! ### Sessions -/

namespace Zlib

open ZlibOutputStream (Stops)

variable {s t : Session}

/-- What every call keeps. On a stream that has not ended, `next_in` is set exactly if
`write(Buffer*)` was called. -/
structure Keeps (s : Session) : Prop where
  inv : ZlibOutputStream.Inv s.stream
  buffered_iff : s.stream.zerror_ = .Z_OK → (s.buffered = true ↔ s.stream.next_in ≠ none)

/-- A call that is not one of the three bad ones: a piece after a buffer, a buffer with more bytes
than `avail_in` can count, and the end of a stream with input left. -/
def Good (s : Session) : Event → Prop
  | .write _ _ => s.stream.zerror_ = .Z_OK → s.buffered = false
  | .writeBuffer input _ => s.stream.zerror_ = .Z_OK → input.readableBytes < 2 ^ 32
  | .finish _ => s.stream.zerror_ = .Z_OK → s.stream.avail_in = 0

/-- A new stream that writes to `output`. -/
def Session.start (output : Buffer) (init : Code) : Session :=
  { stream := ZlibOutputStream.new output init }

theorem keeps_start {output : Buffer} (h : Buffer.Inv output) (init : Code) :
    Keeps (Session.start output init) where
  inv :=
    { output := h
      size_lt := (by decide : 1024 < 131072)
      input := fun _ hi => nomatch hi
      none := fun _ => rfl }
  buffered_iff := fun _ => ⟨fun hb => (nomatch hb), fun hne => absurd rfl hne⟩

theorem removed_self (input : Buffer) : removed input input = [] := by
  rw [removed, Nat.sub_self, List.take_zero]

/-- A call on a stream that has ended. -/
theorem step_ended (h : Keeps s) (hended : s.stream.zerror_ ≠ .Z_OK) (e : Event) :
    Returns (s.step e) fun s' =>
      Keeps s' ∧ s'.stream = s.stream ∧ (s.stream.fed = s.taken → s'.stream.fed = s'.taken) := by
  cases e with
  | write buf answers =>
      rw [Session.step, ZlibOutputStream.write_ended hended, ok_bind]
      refine Ends.ok ⟨⟨h.inv, fun hok => absurd hok hended⟩, rfl, fun heq => ?_⟩
      rw [if_neg hended, List.append_nil]
      exact heq
  | writeBuffer input answers =>
      rw [Session.step, ZlibOutputStream.writeBuffer_ended hended, ok_bind]
      refine Ends.ok ⟨⟨h.inv, fun hok => absurd hok hended⟩, rfl, fun heq => ?_⟩
      rw [removed_self, List.append_nil]
      exact heq
  | finish answers =>
      rw [Session.step, ZlibOutputStream.finish_ended hended, ok_bind]
      exact Ends.ok ⟨⟨h.inv, fun hok => absurd hok hended⟩, rfl, fun heq => heq⟩

/-- How a call can stop: like the stream, or at the `assert` of `write(StringPiece)` after a
`write(Buffer*)`. -/
def StepStops (s : Session) (e : Event) (f : Fault) : Prop :=
  Stops (s.stream.need e.answers.length) f ∨ (f = .nextIn ∧ s.buffered = true ∧ ¬ Good s e)

/-- One call: a good one feeds what it takes. The cases are those of `step`, on a stream that has
not ended. -/
theorem step_ends (h : Keeps s) {e : Event} (hvalid : e.Valid) :
    Ends (s.step e) (StepStops s e) fun s' =>
      Keeps s' ∧ s'.stream.output_.buffer_.length ≤ s.stream.need e.answers.length ∧
        (Good s e → s.stream.fed = s.taken → s'.stream.fed = s'.taken) := by
  by_cases hok : s.stream.zerror_ = .Z_OK
  · cases e with
    | write buf answers =>
        obtain ⟨h0, hint, hlen⟩ := hvalid
        cases hb : s.buffered with
        | true =>
            have hnext := (h.buffered_iff hok).mp hb
            rw [Session.step, ZlibOutputStream.write_nextIn hok hnext]
            refine Ends.error (.inr ⟨rfl, hb, fun hgood => ?_⟩)
            rw [hgood hok] at hb
            cases hb
        | false =>
            have hnext : s.stream.next_in = none := by
              by_contra hne
              rw [(h.buffered_iff hok).mpr hne] at hb
              cases hb
            refine Ends.bind (Ends.mono (ZlibOutputStream.write_ends h.inv hok hnext h0 hint hlen
              answers) (fun _ hf => .inl hf) fun _ hz => hz) fun z hz => ?_
            obtain ⟨hinv, hfed, hnone, _, hgrown⟩ := hz
            refine Ends.ok ⟨⟨hinv, fun _ => ?_⟩, hgrown, fun _ heq => ?_⟩
            · exact ⟨fun hb' => absurd (hb.symm.trans hb') (by decide), fun hne => absurd hnone hne⟩
            · rw [if_pos hok]
              exact hfed.trans (by rw [heq])
    | writeBuffer input answers =>
        have hinput : Buffer.Inv input := ⟨hvalid.1, hvalid.2.1, hvalid.2.2.1, hvalid.2.2.2⟩
        refine Ends.bind (Ends.mono (ZlibOutputStream.writeBuffer_ends h.inv hok hinput answers)
          (fun _ hf => .inl hf) fun _ hz => hz) fun r hr => ?_
        obtain ⟨hinv, hset, _, hgrown, hfed⟩ := hr
        refine Ends.ok ⟨⟨hinv, fun _ => ⟨fun _ => hset, fun _ => rfl⟩⟩, hgrown, fun hgood heq => ?_⟩
        exact (hfed (hgood hok)).trans (by rw [heq])
    | finish answers =>
        refine Ends.bind (Ends.mono (ZlibOutputStream.finish_ends h.inv hok answers)
          (fun _ hf => .inl hf) fun _ hz => hz) fun z hz => ?_
        obtain ⟨hinv, hended, hgrown, hfed⟩ := hz
        refine Ends.ok ⟨⟨hinv, fun hok' => absurd hok' hended⟩, hgrown, fun hgood heq => ?_⟩
        exact (hfed (hgood hok)).trans heq
  · refine Ends.of_returns (Ends.imp (step_ended h hok e) fun s' hs' => ?_)
    rw [hs'.2.1]
    exact ⟨hs'.1, s.stream.length_le_need _, fun _ => hs'.2.1 ▸ hs'.2.2⟩

/-- The number of calls of `deflate` in a session. -/
def calls (es : List Event) : Nat := (es.flatMap Event.answers).length

theorem calls_snoc (es : List Event) (e : Event) :
    calls (es ++ [e]) = calls es + e.answers.length := by
  rw [calls, List.flatMap_append, List.length_append, List.flatMap_singleton]
  rfl

/-- After any session the stream is in order, and its output has grown by what the calls of
`deflate` have asked for at most. -/
theorem keeps_of_run {output : Buffer} (houtput : Buffer.Inv output) {init : Code}
    {es : List Event} (hrun : Machine.Run sessionMachine (Session.start output init) es t) :
    Keeps t ∧ t.stream.output_.buffer_.length ≤ output.buffer_.length + 131072 * calls es := by
  induction hrun with
  | nil => exact ⟨keeps_start houtput init, Nat.le_refl _⟩
  | @snoc es t u e _ hen hst ih =>
      obtain ⟨hkeeps, hgrown, _⟩ := (step_ends ih.1 hen.1).post hst
      rw [ZlibOutputStream.need] at hgrown
      rw [calls_snoc]
      exact ⟨hkeeps, by omega⟩

/-- Every mix of good calls is accepted. In a session whose calls are all good, no `assert` fails:
only the vector of the output can be at its end, and not before the output and 128 KiB for each
call of `deflate` are together more than `max_size`. What was fed to `deflate` is what the callers have
given away, in order and once. In every session, a piece that is written to a stream that has not
ended fails at the `assert` on `next_in` if and only if `write(Buffer*)` was called before. -/
theorem zlib_feeds_once (output : Buffer) (houtput : Buffer.Inv output) (init : Code) :
    (∀ es t, Machine.Run (sessionMachine.restrict Good) (Session.start output init) es t →
      t.stream.fed = t.taken ∧
      ∀ e, sessionMachine.enabled t e → Good t e → ∀ f, sessionMachine.step t e = .error f →
        f = .output .lengthError ∧ maxSize < output.buffer_.length + 131072 * calls (es ++ [e])) ∧
    ∀ es t, Machine.Run sessionMachine (Session.start output init) es t →
      t.stream.zerror_ = .Z_OK → ∀ buf answers, sessionMachine.enabled t (.write buf answers) →
        (sessionMachine.step t (.write buf answers) = .error .nextIn ↔ t.buffered = true) := by
  constructor
  · intro es t hrun
    obtain ⟨hkeeps, hgrown⟩ := keeps_of_run houtput hrun.of_restrict
    have hfed : Keeps t ∧ t.stream.fed = t.taken := by
      refine Machine.Run.invariant (I := fun s => Keeps s ∧ s.stream.fed = s.taken)
        ⟨keeps_start houtput init, rfl⟩ ?_ hrun
      intro t e u hk hen hst
      have hstep := (step_ends hk.1 hen.1.1).post hst
      exact ⟨hstep.1, hstep.2.2 hen.2 hk.2⟩
    refine ⟨hfed.2, fun e hen hgood f hf => ?_⟩
    obtain (⟨hfault, hfull⟩ | henv) | ⟨_, _, hbad⟩ := (step_ends hkeeps hen.1).fault hf
    · rw [ZlibOutputStream.need] at hfull
      rw [calls_snoc]
      exact ⟨hfault, by omega⟩
    · exact absurd henv (hen.2 f hf)
    · exact absurd hgood hbad
  · intro es t hrun hok buf answers hen
    have hkeeps := (keeps_of_run houtput hrun).1
    constructor
    · intro hf
      obtain (hfull | henv) | ⟨_, hb, _⟩ := (step_ends hkeeps hen.1).fault hf
      · cases hfull.1
      · exact absurd henv (hen.2 _ hf)
      · exact hb
    · intro hb
      show (t.stream.write buf answers >>= _) = _
      rw [ZlibOutputStream.write_nextIn hok ((hkeeps.buffered_iff hok).mp hb)]
      rfl

/-- A stream that was given an empty buffer. -/
def afterEmptyBuffer : Session where
  stream :=
    { output_ := Buffer.default
      next_in := some ⟨Buffer.default.buffer_, Buffer.kCheapPrepend⟩ }
  buffered := true

/-- A piece after an empty buffer: `next_in` is still set. -/
theorem write_after_buffer_fails :
    Machine.Run sessionMachine (Session.start Buffer.default .Z_OK)
        [.writeBuffer Buffer.default []] afterEmptyBuffer ∧
      sessionMachine.enabled afterEmptyBuffer (.write ⟨[97], 1⟩ [⟨1, [], .Z_OK⟩]) ∧
      sessionMachine.step afterEmptyBuffer (.write ⟨[97], 1⟩ [⟨1, [], .Z_OK⟩])
        = .error .nextIn := by
  have hstep : (Session.start Buffer.default .Z_OK).step (.writeBuffer Buffer.default [])
      = .ok afterEmptyBuffer := by
    decide +kernel
  have hfail : afterEmptyBuffer.step (.write ⟨[97], 1⟩ [⟨1, [], .Z_OK⟩]) = .error .nextIn := by
    decide +kernel
  have hdefault := Buffer.inv_default
  refine ⟨Machine.Run.single ⟨?_, ?_⟩ hstep, ⟨⟨by decide, by decide, by decide⟩, ?_⟩, hfail⟩
  · exact ⟨hdefault.cheap_le, hdefault.reader_le, hdefault.writer_le, hdefault.size_le⟩
  · intro f hf
    rw [hstep] at hf
    cases hf
  · intro f hf
    rw [hfail] at hf
    cases hf
    decide

/-- A call that returns is one the environment can make. -/
theorem run_snoc {es : List Event} {e : Event}
    (hrun : Machine.Run (sessionMachine.restrict Good) s es t) (hvalid : e.Valid) (hgood : Good t e)
    {u : Session} (hstep : t.step e = .ok u) :
    Machine.Run (sessionMachine.restrict Good) s (es ++ [e]) u := by
  refine Machine.Run.snoc hrun ⟨⟨hvalid, fun f hf => ?_⟩, hgood⟩ hstep
  rw [hstep] at hf
  cases hf

/-- A buffer with three bytes, of which those before `reader` are retrieved. -/
def threeBytes (reader : Nat) : Buffer := ⟨List.replicate 8 0 ++ [98, 99, 100], reader, 11⟩

/-- A piece of one byte, two calls with the bytes of a buffer, of which `deflate` takes two and
then the one that was left, and the end of the stream. -/
theorem zlib_feeds_once_mixed :
    ∃ t, Machine.Run (sessionMachine.restrict Good) (Session.start Buffer.default .Z_OK)
        [.write ⟨[97], 1⟩ [⟨1, [], .Z_OK⟩], .writeBuffer (threeBytes 8) [⟨2, [], .Z_OK⟩],
          .writeBuffer (threeBytes 10) [⟨1, [], .Z_OK⟩],
          .finish [⟨0, [120], .Z_STREAM_END⟩]] t ∧
      t.stream.fed = t.taken ∧ t.taken = [97, 98, 99, 100] := by
  have heval : ((Session.start Buffer.default .Z_OK).step (.write ⟨[97], 1⟩ [⟨1, [], .Z_OK⟩])
      |>.toOption.bind fun t₁ => (t₁.step (.writeBuffer (threeBytes 8) [⟨2, [], .Z_OK⟩])).toOption.bind
        fun t₂ => (t₂.step (.writeBuffer (threeBytes 10) [⟨1, [], .Z_OK⟩])).toOption.bind
        fun t₃ => (t₃.step (.finish [⟨0, [120], .Z_STREAM_END⟩])).toOption.bind
        fun t => some (t₃.stream.avail_in, t.taken)) = some (0, [97, 98, 99, 100]) := by decide +kernel
  obtain ⟨t₁, h₁, heval⟩ := exists_ok_of_bind heval
  obtain ⟨t₂, h₂, heval⟩ := exists_ok_of_bind heval
  obtain ⟨t₃, h₃, heval⟩ := exists_ok_of_bind heval
  obtain ⟨t, h₄, heval⟩ := exists_ok_of_bind heval
  obtain ⟨hzero, htaken⟩ := Prod.mk.inj (Option.some.inj heval)
  have hvalid : ∀ r answers, r ≤ 11 → (Event.writeBuffer (threeBytes r) answers).Valid :=
    fun r answers hr => ⟨(by decide : 8 ≤ 11), hr, Nat.le_refl 11, (by decide : 11 ≤ maxSize)⟩
  have hpiece : (Event.write ⟨[97], 1⟩ [⟨1, [], .Z_OK⟩]).Valid := ⟨by decide, by decide, by decide⟩
  have hrun₁ := run_snoc .nil hpiece (fun _ => rfl) h₁
  have hrun₂ := run_snoc hrun₁ (hvalid 8 _ (by decide)) (fun _ => by decide +kernel) h₂
  have hrun₃ := run_snoc hrun₂ (hvalid 10 _ (by decide)) (fun _ => by decide +kernel) h₃
  have hfinish : (Event.finish [⟨0, [120], .Z_STREAM_END⟩]).Valid := trivial
  have hrun := run_snoc hrun₃ hfinish (fun _ => hzero) h₄
  exact ⟨t, hrun, ((zlib_feeds_once Buffer.default Buffer.inv_default .Z_OK).1 _ t hrun).1, htaken⟩

end Zlib

end Muduo.Net
