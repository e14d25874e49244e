import Muduo.Net.Buffer
import Muduo.Lib.Outcome

/-!
# `Muduo.Proofs.Buffer`: one specification per buffer operation

`Inv` is the picture in the header of `Buffer.h`: the indices are in
order and the vector keeps the `kCheapPrepend` bytes that `retrieveAll`
goes back to. Under `Inv` the `size_t` differences are plain ones.

Each operation has one specification here. It says which call returns,
that the result satisfies `Inv`, and what the readable bytes are. Callers
cite these and never unfold an operation.

Making room is the part with an argument in it. `makeSpace` compacts only
when the writable and the prependable bytes together hold `len` and the
`kCheapPrepend` bytes, and its one caller asks only when the writable
bytes alone do not hold `len`. The two facts together put the reader
index above `kCheapPrepend`, which is the `assert` before the copy.
-/

set_option autoImplicit false

namespace Muduo.Net.Buffer

open Muduo.Base
open Muduo.Lib

variable {b : Buffer} {data : List UInt8} {len : Nat}

/-- The index invariant. -/
structure Inv (b : Buffer) : Prop where
  cheap_le : kCheapPrepend ≤ b.buffer_.length
  reader_le : b.readerIndex_ ≤ b.writerIndex_
  writer_le : b.writerIndex_ ≤ b.buffer_.length
  size_le : b.buffer_.length ≤ maxSize

/-! ### The sizes under the invariant -/

theorem maxSize_lt : maxSize < sizeModulus := by decide

theorem Inv.size_lt (h : Inv b) : b.buffer_.length < sizeModulus :=
  Nat.lt_of_le_of_lt h.size_le maxSize_lt

theorem Inv.readableBytes_eq (h : Inv b) :
    b.readableBytes = b.writerIndex_ - b.readerIndex_ := by
  have hw := h.writer_le
  have hs := h.size_lt
  exact subSize_eq h.reader_le (by omega)

theorem Inv.writableBytes_eq (h : Inv b) :
    b.writableBytes = b.buffer_.length - b.writerIndex_ :=
  subSize_eq h.writer_le h.size_lt

theorem Inv.readable_eq (h : Inv b) :
    b.readable = slice b.buffer_ b.readerIndex_ (b.writerIndex_ - b.readerIndex_) := by
  rw [readable, h.readableBytes_eq]
  rfl

theorem Inv.length_readable (h : Inv b) : b.readable.length = b.readableBytes := by
  have hr := h.reader_le
  have hw := h.writer_le
  rw [h.readable_eq, h.readableBytes_eq, length_slice (by omega)]

/-- No readable bytes exactly when the two indices meet. -/
theorem Inv.readableBytes_eq_zero (h : Inv b) :
    b.readableBytes = 0 ↔ b.readable = [] := by
  rw [← h.length_readable, List.length_eq_zero_iff]

/-! ### Construction -/

/-- The constructor returns an empty buffer when the vector can be
allocated, and throws otherwise. -/
theorem ctor_spec {initialSize : Nat} (hsz : kCheapPrepend + initialSize < sizeModulus) :
    (∃ b, ctor initialSize = .ok b ∧ Inv b ∧ b.readable = [] ∧
      b.buffer_.length = kCheapPrepend + initialSize) ∨
    (ctor initialSize = .error .lengthError ∧ maxSize < kCheapPrepend + initialSize) := by
  have hadd : addSize kCheapPrepend initialSize = kCheapPrepend + initialSize := addSize_eq hsz
  by_cases hmax : kCheapPrepend + initialSize ≤ maxSize
  · left
    obtain ⟨b, hbdef⟩ : ∃ b : Buffer,
      b = ⟨resize [] (kCheapPrepend + initialSize) 0, kCheapPrepend, kCheapPrepend⟩ := ⟨_, rfl⟩
    have hsize : b.buffer_.length = kCheapPrepend + initialSize := by
      rw [hbdef, length_resize]
    have hreader : b.readerIndex_ = kCheapPrepend := by rw [hbdef]
    have hwriter : b.writerIndex_ = kCheapPrepend := by rw [hbdef]
    have hb : Inv b :=
      { cheap_le := by omega
        reader_le := by omega
        writer_le := by omega
        size_le := by omega }
    have hread : b.readableBytes = 0 := by
      rw [hb.readableBytes_eq, hbdef]
      exact Nat.sub_self _
    have hwrite : b.writableBytes = initialSize := by
      rw [hb.writableBytes_eq, hsize, hbdef]
      exact Nat.add_sub_cancel_left _ _
    have hprep : b.prependableBytes = kCheapPrepend := by rw [hbdef]; rfl
    -- The three `assert`s of the constructor.
    refine ⟨b, ?_, hb, hb.readableBytes_eq_zero.mp hread, hsize⟩
    simp only [ctor, resizeVector, hadd, if_pos hmax, ok_bind, ← hbdef, assertThat_pos hread,
      assertThat_pos hwrite, assertThat_pos hprep, except_pure]
  · right
    refine ⟨?_, by omega⟩
    simp only [ctor, resizeVector, hadd, if_neg hmax, error_bind]

theorem length_default : default.buffer_.length = kCheapPrepend + kInitialSize := by
  simp only [default, List.length_replicate]

theorem inv_default : Inv default where
  cheap_le := by rw [length_default]; exact Nat.le_add_right _ _
  reader_le := Nat.le_refl _
  writer_le := by rw [length_default]; exact Nat.le_add_right _ _
  size_le := by rw [length_default]; decide

theorem readable_default : default.readable = [] := by
  rw [inv_default.readable_eq]
  exact slice_zero _ _

/-! ### Taking bytes from the front -/

theorem retrieveAll_spec (h : Inv b) :
    Inv b.retrieveAll ∧ b.retrieveAll.readable = [] := by
  have hi : Inv b.retrieveAll :=
    { cheap_le := h.cheap_le
      reader_le := Nat.le_refl _
      writer_le := h.cheap_le
      size_le := h.size_le }
  refine ⟨hi, ?_⟩
  rw [hi.readable_eq]
  simp [retrieveAll]

/-- `retrieve` drops `len` readable bytes and keeps the vector. -/
theorem retrieve_spec (h : Inv b) (hlen : len ≤ b.readableBytes) :
    ∃ b', b.retrieve len = .ok b' ∧ Inv b' ∧ b'.readable = b.readable.drop len ∧
      b'.buffer_ = b.buffer_ := by
  have hr := h.reader_le
  have hw := h.writer_le
  have hs := h.size_lt
  have hbytes := h.readableBytes_eq
  by_cases hlt : len < b.readableBytes
  · have hadd : addSize b.readerIndex_ len = b.readerIndex_ + len := addSize_eq (by omega)
    have hi : Inv { b with readerIndex_ := b.readerIndex_ + len } :=
      { cheap_le := h.cheap_le
        reader_le := by simp only; omega
        writer_le := hw
        size_le := h.size_le }
    refine ⟨{ b with readerIndex_ := b.readerIndex_ + len }, ?_, hi, ?_, rfl⟩
    · simp only [retrieve, assertThat_pos hlen, if_pos hlt, hadd, ok_bind, except_pure]
    · rw [hi.readable_eq, h.readable_eq, drop_slice]
      congr 1
      simp only
      omega
  · -- All of it is taken, and both indices go back to `kCheapPrepend`.
    obtain ⟨hi, hempty⟩ := retrieveAll_spec h
    refine ⟨b.retrieveAll, ?_, hi, ?_, rfl⟩
    · simp only [retrieve, assertThat_pos hlen, if_neg hlt, ok_bind, except_pure]
    · have hall : b.readable.length ≤ len := by
        rw [h.length_readable]
        omega
      rw [hempty, List.drop_of_length_le hall]

/-- `retrieveUntil` with a pointer `n` bytes after `peek()`. -/
theorem retrieveUntil_spec {n : Nat} (h : Inv b) (hn : n ≤ b.readableBytes) :
    ∃ b', b.retrieveUntil (b.peek + n) = .ok b' ∧ Inv b' ∧ b'.readable = b.readable.drop n ∧
      b'.buffer_ = b.buffer_ := by
  obtain ⟨b', hret, hrest⟩ := retrieve_spec h hn
  refine ⟨b', ?_, hrest⟩
  have hr := h.reader_le
  have hbytes := h.readableBytes_eq
  have hend : b.peek + n ≤ b.beginWrite := by
    simp only [peek, beginWrite]
    omega
  simp only [retrieveUntil, assertThat_pos (Nat.le_add_right b.peek n), assertThat_pos hend,
    Nat.add_sub_cancel_left, hret, ok_bind]

/-- `retrieveAsString` returns the bytes that `retrieve` drops. -/
theorem retrieveAsString_spec (h : Inv b)
    (hlen : len ≤ b.readableBytes) :
    ∃ b', b.retrieveAsString len = .ok (b.readable.take len, b') ∧ Inv b' ∧
      b'.readable = b.readable.drop len ∧ b'.buffer_ = b.buffer_ := by
  obtain ⟨b', hret, hrest⟩ := retrieve_spec h hlen
  refine ⟨b', ?_, hrest⟩
  have hstr : slice b.buffer_ b.peek len = b.readable.take len := (take_slice hlen).symm
  simp only [retrieveAsString, assertThat_pos hlen, hret, hstr, ok_bind, except_pure]

/-! ### Making room -/

/-- What `ensureWritableBytes(len)` gives: a buffer with the same
readable bytes and room for `len` more, in a vector that did not shrink
and grew by at most `len`. -/
structure Room (b b' : Buffer) (len : Nat) : Prop where
  inv : Inv b'
  readable_eq : b'.readable = b.readable
  room : len ≤ b'.writableBytes
  size_le : b.buffer_.length ≤ b'.buffer_.length
  size_le_add : b'.buffer_.length ≤ b.buffer_.length + len

/-- The growing branch of `makeSpace`. -/
theorem room_resize (h : Inv b) (hfull : b.writableBytes < len)
    (hmax : b.writerIndex_ + len ≤ maxSize) :
    Room b { b with buffer_ := resize b.buffer_ (b.writerIndex_ + len) 0 } len := by
  have hr := h.reader_le
  have hw := h.writer_le
  rw [h.writableBytes_eq] at hfull
  have hi : Inv { b with buffer_ := resize b.buffer_ (b.writerIndex_ + len) 0 } :=
    { cheap_le := by
        have := h.cheap_le
        simp only [length_resize]
        omega
      reader_le := hr
      writer_le := by simp
      size_le := by simpa using hmax }
  refine
    { inv := hi
      readable_eq := ?_
      room := ?_
      size_le := by simp only [length_resize]; omega
      size_le_add := by simp only [length_resize]; omega }
  · rw [hi.readable_eq, h.readable_eq]
    exact slice_resize (by simp only; omega) (by omega)
  · rw [hi.writableBytes_eq]
    simp

/-- The compacting branch of `makeSpace`: the readable bytes move down to
`kCheapPrepend`, over their own old place where the two overlap. -/
theorem room_compact (h : Inv b)
    (hroom : len + kCheapPrepend ≤ b.writableBytes + b.prependableBytes)
    (hreader : kCheapPrepend < b.readerIndex_) :
    Room b ⟨copyForward (b.writerIndex_ - b.readerIndex_) b.buffer_ b.readerIndex_ kCheapPrepend,
      kCheapPrepend, kCheapPrepend + b.readableBytes⟩ len := by
  have hr := h.reader_le
  have hw := h.writer_le
  have hlen := length_copyForward (b.writerIndex_ - b.readerIndex_) b.buffer_ b.readerIndex_
    kCheapPrepend
  rw [h.writableBytes_eq] at hroom
  simp only [prependableBytes] at hroom
  rw [h.readableBytes_eq]
  have hi : Inv ⟨copyForward (b.writerIndex_ - b.readerIndex_) b.buffer_ b.readerIndex_
      kCheapPrepend, kCheapPrepend, kCheapPrepend + (b.writerIndex_ - b.readerIndex_)⟩ :=
    { cheap_le := by simpa [hlen] using h.cheap_le
      reader_le := Nat.le_add_right _ _
      writer_le := by simp only [hlen]; omega
      size_le := by simpa [hlen] using h.size_le }
  refine
    { inv := hi
      readable_eq := ?_
      room := ?_
      size_le := by simp [hlen]
      size_le_add := by simp [hlen] }
  · rw [hi.readable_eq, h.readable_eq]
    simp only [Nat.add_sub_cancel_left]
    -- The copy goes down, so each byte is read before it is overwritten.
    exact slice_copyForward (by omega) (by omega)
  · rw [hi.writableBytes_eq]
    simp only [hlen]
    omega

/-- The bytes that are free on both sides have a sum in `size_t`. -/
theorem Inv.addSize_free (h : Inv b) :
    addSize b.writableBytes b.prependableBytes = b.writableBytes + b.prependableBytes := by
  have hr := h.reader_le
  have hw := h.writer_le
  have hlt := h.size_lt
  have hbytes := h.writableBytes_eq
  apply addSize_eq
  simp only [prependableBytes]
  omega

/-- `makeSpace`, called as `ensureWritableBytes` calls it: when the
writable bytes do not hold `len`. No `assert` in it fails. It throws only
when the vector would pass `max_size()`. -/
theorem makeSpace_spec (h : Inv b) (hfull : b.writableBytes < len)
    (hsz : b.buffer_.length + len < sizeModulus) :
    (∃ b', b.makeSpace len = .ok b' ∧ Room b b' len) ∨
    (b.makeSpace len = .error .lengthError ∧ maxSize < b.writerIndex_ + len) := by
  have hr := h.reader_le
  have hw := h.writer_le
  have hc := h.cheap_le
  have hbytes := h.writableBytes_eq
  have hleft := h.addSize_free
  have hright : addSize len kCheapPrepend = len + kCheapPrepend := addSize_eq (by omega)
  have hend : addSize b.writerIndex_ len = b.writerIndex_ + len := addSize_eq (by omega)
  by_cases hgrow : b.writableBytes + b.prependableBytes < len + kCheapPrepend
  · by_cases hmax : b.writerIndex_ + len ≤ maxSize
    · left
      refine ⟨_, ?_, room_resize h hfull hmax⟩
      simp only [makeSpace, hleft, hright, if_pos hgrow, hend, resizeVector, if_pos hmax, ok_bind,
        except_pure]
    · right
      refine ⟨?_, by omega⟩
      simp only [makeSpace, hleft, hright, if_pos hgrow, hend, resizeVector, if_neg hmax,
        error_bind]
  · left
    -- Room in total but not behind the writer: the rest is in front of the reader.
    have hreader : kCheapPrepend < b.readerIndex_ := by
      simp only [prependableBytes] at hgrow
      omega
    have hcopy : b.readerIndex_ ≤ b.writerIndex_ ∧ b.writerIndex_ ≤ b.buffer_.length ∧
        kCheapPrepend + (b.writerIndex_ - b.readerIndex_) ≤ b.buffer_.length := by
      refine ⟨hr, hw, by omega⟩
    have hroom : Room b _ len := room_compact h (by omega) hreader
    have hw' : addSize kCheapPrepend b.readableBytes = kCheapPrepend + b.readableBytes :=
      addSize_eq (by
        have := h.readableBytes_eq
        omega)
    -- The last `assert` compares with the count taken before the copy.
    have hread : b.readableBytes = readableBytes
        ⟨copyForward (b.writerIndex_ - b.readerIndex_) b.buffer_ b.readerIndex_ kCheapPrepend,
          kCheapPrepend, kCheapPrepend + b.readableBytes⟩ := by
      rw [hroom.inv.readableBytes_eq, Nat.add_sub_cancel_left]
    refine ⟨_, ?_, hroom⟩
    simp only [makeSpace, hleft, hright, if_neg hgrow, assertThat_pos hreader, copyWithin,
      if_pos hcopy, hw', ok_bind, assertThat_pos hread, except_pure]

/-- `ensureWritableBytes` makes room, or throws because the vector would
pass `max_size()`. -/
theorem ensureWritableBytes_spec (h : Inv b)
    (hsz : b.buffer_.length + len < sizeModulus) :
    (∃ b', b.ensureWritableBytes len = .ok b' ∧ Room b b' len) ∨
    (b.ensureWritableBytes len = .error .lengthError ∧ maxSize < b.writerIndex_ + len) := by
  by_cases hfull : b.writableBytes < len
  · rcases makeSpace_spec h hfull hsz with ⟨b', hms, hroom⟩ | ⟨hms, hmax⟩
    · left
      refine ⟨b', ?_, hroom⟩
      simp only [ensureWritableBytes, if_pos hfull, hms, ok_bind, assertThat_pos hroom.room,
        except_pure]
    · right
      refine ⟨?_, hmax⟩
      simp only [ensureWritableBytes, if_pos hfull, hms, error_bind]
  · left
    have hroom : len ≤ b.writableBytes := by omega
    refine ⟨b, ?_, ⟨h, rfl, hroom, Nat.le_refl _, Nat.le_add_right _ _⟩⟩
    simp only [ensureWritableBytes, if_neg hfull, except_pure, ok_bind, assertThat_pos hroom]

/-- The vector has to grow for `len` more bytes: there is no room for them
behind the writer, nor in front of the reader and behind the writer together. -/
def Grows (b : Buffer) (len : Nat) : Prop :=
  b.writableBytes < len ∧ b.writableBytes + b.prependableBytes < len + kCheapPrepend

/-- Compacting does not throw. -/
theorem makeSpace_compact_ne
    (hroom : ¬ addSize b.writableBytes b.prependableBytes < addSize len kCheapPrepend) :
    b.makeSpace len ≠ .error .lengthError := by
  unfold makeSpace copyWithin assertThat
  rw [if_neg hroom]
  -- The faults of this branch are those of two `assert`s and of the copy.
  split_ifs with hreader hcopy
  · simp only [ok_bind]
    split_ifs <;> simp
  · simp
  · simp
  · simp

/-- `ensureWritableBytes` throws exactly when the vector has to grow and
would pass `max_size()`. -/
theorem ensureWritableBytes_throws_iff (h : Inv b)
    (hsz : b.buffer_.length + len < sizeModulus) :
    b.ensureWritableBytes len = .error .lengthError ↔
      Grows b len ∧ maxSize < b.writerIndex_ + len := by
  have hw := h.writer_le
  have hleft := h.addSize_free
  have hc := h.cheap_le
  by_cases hfull : b.writableBytes < len
  · have hright : addSize len kCheapPrepend = len + kCheapPrepend := addSize_eq (by omega)
    constructor
    · intro herr
      cases ensureWritableBytes_spec h hsz with
      | inl hok =>
          obtain ⟨b', hens, _⟩ := hok
          rw [hens] at herr
          cases herr
      | inr hthrow =>
          refine ⟨⟨hfull, ?_⟩, hthrow.2⟩
          by_contra hgrow
          have hne : b.makeSpace len ≠ .error .lengthError :=
            makeSpace_compact_ne (by rw [hleft, hright]; exact hgrow)
          cases makeSpace_spec h hfull hsz with
          | inl hok =>
              obtain ⟨b', hms, hroom⟩ := hok
              simp only [ensureWritableBytes, if_pos hfull, hms, ok_bind,
                assertThat_pos hroom.room, except_pure, reduceCtorEq] at herr
          | inr hms => exact hne hms.1
    · intro hthrow
      obtain ⟨⟨_, hgrow⟩, hmax⟩ := hthrow
      have hend : addSize b.writerIndex_ len = b.writerIndex_ + len := addSize_eq (by omega)
      have hlimit : ¬ b.writerIndex_ + len ≤ maxSize := by omega
      rw [ensureWritableBytes, if_pos hfull, makeSpace, hleft, hright, if_pos hgrow, hend,
        resizeVector, if_neg hlimit, error_bind, error_bind]
  · have hroom : len ≤ b.writableBytes := by omega
    constructor
    · intro herr
      simp only [ensureWritableBytes, if_neg hfull, except_pure, ok_bind, assertThat_pos hroom,
        reduceCtorEq] at herr
    · intro hthrow
      exact absurd hthrow.1.1 hfull

/-! ### Adding bytes -/

/-- The buffer with `data` written behind the readable bytes and the
writer index moved past it. -/
def written (b : Buffer) (data : List UInt8) : Buffer :=
  ⟨overwrite b.buffer_ b.writerIndex_ data, b.readerIndex_, b.writerIndex_ + data.length⟩

theorem Inv.fits (h : Inv b)
    (hroom : data.length ≤ b.writableBytes) :
    b.writerIndex_ + data.length ≤ b.buffer_.length := by
  have hw := h.writer_le
  rw [h.writableBytes_eq] at hroom
  omega

/-- Data that fits goes behind the readable bytes and keeps the vector's
size. -/
theorem written_spec (h : Inv b)
    (hroom : data.length ≤ b.writableBytes) :
    Inv (written b data) ∧ (written b data).readable = b.readable ++ data ∧
      (written b data).buffer_.length = b.buffer_.length := by
  have hr := h.reader_le
  have hw := h.writer_le
  have hfit := h.fits hroom
  have hlen : (overwrite b.buffer_ b.writerIndex_ data).length = b.buffer_.length :=
    length_overwrite hfit
  have hi : Inv (written b data) :=
    { cheap_le := by simpa [written, hlen] using h.cheap_le
      reader_le := by simp only [written]; omega
      writer_le := by simp only [written, hlen]; omega
      size_le := by simpa [written, hlen] using h.size_le }
  refine ⟨hi, ?_, hlen⟩
  -- The readable bytes are the old ones, then the piece just written.
  have hsplit : b.writerIndex_ + data.length - b.readerIndex_
      = (b.writerIndex_ - b.readerIndex_) + data.length := by omega
  have hmid : b.readerIndex_ + (b.writerIndex_ - b.readerIndex_) = b.writerIndex_ := by omega
  rw [hi.readable_eq, h.readable_eq]
  simp only [written, hsplit, slice_add, hmid]
  rw [slice_overwrite_before (by omega) hw, slice_overwrite_self hw]

/-- `hasWritten` after the bytes are in place. -/
theorem hasWritten_spec (h : Inv b)
    (hroom : data.length ≤ b.writableBytes) :
    hasWritten { b with buffer_ := overwrite b.buffer_ b.writerIndex_ data } data.length
      = .ok (written b data) := by
  have hs := h.size_lt
  have hfit := h.fits hroom
  have hadd : addSize b.writerIndex_ data.length = b.writerIndex_ + data.length :=
    addSize_eq (by omega)
  have hroom' : data.length ≤ writableBytes
      { b with buffer_ := overwrite b.buffer_ b.writerIndex_ data } := by
    rw [writableBytes, length_overwrite hfit]
    exact hroom
  simp only [hasWritten, assertThat_pos hroom', ok_bind, hadd, except_pure, written]

/-- `append` adds `data` at the back, or throws because the vector would
pass `max_size()`. -/
theorem append_spec (h : Inv b)
    (hsz : b.buffer_.length + data.length < sizeModulus) :
    (∃ b', b.append data = .ok b' ∧ Inv b' ∧ b'.readable = b.readable ++ data ∧
      b.buffer_.length ≤ b'.buffer_.length ∧
      b'.buffer_.length ≤ b.buffer_.length + data.length) ∨
    (b.append data = .error .lengthError ∧ maxSize < b.writerIndex_ + data.length) := by
  rcases ensureWritableBytes_spec h hsz with ⟨b₁, hens, hroom⟩ | ⟨hens, hmax⟩
  · left
    obtain ⟨hi, hread, hlen⟩ := written_spec hroom.inv hroom.room
    have hcopy : copyInto b₁.buffer_ b₁.beginWrite data
        = .ok (overwrite b₁.buffer_ b₁.writerIndex_ data) := if_pos (hroom.inv.fits hroom.room)
    refine ⟨written b₁ data, ?_, hi, ?_, ?_, ?_⟩
    · simp only [append, hens, ok_bind, hcopy, hasWritten_spec hroom.inv hroom.room]
    · rw [hread, hroom.readable_eq]
    · rw [hlen]
      exact hroom.size_le
    · rw [hlen]
      exact hroom.size_le_add
  · right
    refine ⟨?_, hmax⟩
    simp only [append, hens, error_bind]

/-- `append` of what fits behind the writer. -/
theorem append_eq_written (h : Inv b)
    (hroom : data.length ≤ b.writableBytes) : b.append data = .ok (written b data) := by
  have hcopy : copyInto b.buffer_ b.beginWrite data
      = .ok (overwrite b.buffer_ b.writerIndex_ data) := if_pos (h.fits hroom)
  simp only [append, ensureWritableBytes, if_neg (Nat.not_lt_of_le hroom), except_pure, ok_bind,
    assertThat_pos hroom, hcopy, hasWritten_spec h hroom]

/-- `append` throws exactly when the vector has to grow and would pass
`max_size()`. -/
theorem append_throws_iff (h : Inv b)
    (hsz : b.buffer_.length + data.length < sizeModulus) :
    b.append data = .error .lengthError ↔
      Grows b data.length ∧ maxSize < b.writerIndex_ + data.length := by
  rw [← ensureWritableBytes_throws_iff h hsz]
  cases ensureWritableBytes_spec h hsz with
  | inl hok =>
      obtain ⟨b₁, hens, hroom⟩ := hok
      have hcopy : copyInto b₁.buffer_ b₁.beginWrite data
          = .ok (overwrite b₁.buffer_ b₁.writerIndex_ data) := if_pos (hroom.inv.fits hroom.room)
      simp only [append, hens, ok_bind, hcopy, hasWritten_spec hroom.inv hroom.room, reduceCtorEq]
  | inr hthrow => simp only [append, hthrow.1, error_bind]

/-- The write of a caller at `beginWrite()`, followed by `hasWritten`. -/
theorem writeThenHasWritten_spec (h : Inv b)
    (hroom : data.length ≤ b.writableBytes) :
    ∃ b', b.writeThenHasWritten data = .ok b' ∧ Inv b' ∧ b'.readable = b.readable ++ data ∧
      b'.buffer_.length = b.buffer_.length := by
  refine ⟨written b data, ?_, written_spec h hroom⟩
  have hcopy : copyInto b.buffer_ b.beginWrite data
      = .ok (overwrite b.buffer_ b.writerIndex_ data) := if_pos (h.fits hroom)
  simp only [writeThenHasWritten, assertThat_pos hroom, ok_bind, hcopy, hasWritten_spec h hroom]

/-- `prepend` puts `data` in front of the readable bytes. -/
theorem prepend_spec (h : Inv b)
    (hroom : data.length ≤ b.prependableBytes) :
    ∃ b', b.prepend data = .ok b' ∧ Inv b' ∧ b'.readable = data ++ b.readable ∧
      b'.buffer_.length = b.buffer_.length := by
  have hr := h.reader_le
  have hw := h.writer_le
  have hs := h.size_lt
  have hroom' : data.length ≤ b.readerIndex_ := hroom
  have hsub : subSize b.readerIndex_ data.length = b.readerIndex_ - data.length :=
    subSize_eq hroom' (by omega)
  have hend : b.readerIndex_ - data.length + data.length = b.readerIndex_ := by omega
  have hfit : b.readerIndex_ - data.length + data.length ≤ b.buffer_.length := by omega
  have hlen : (overwrite b.buffer_ (b.readerIndex_ - data.length) data).length
      = b.buffer_.length := length_overwrite hfit
  have hcopy : copyInto b.buffer_ (b.readerIndex_ - data.length) data
      = .ok (overwrite b.buffer_ (b.readerIndex_ - data.length) data) := if_pos hfit
  have hi : Inv ⟨overwrite b.buffer_ (b.readerIndex_ - data.length) data,
      b.readerIndex_ - data.length, b.writerIndex_⟩ :=
    { cheap_le := by simpa [hlen] using h.cheap_le
      reader_le := by simp only; omega
      writer_le := by simpa [hlen] using hw
      size_le := by simpa [hlen] using h.size_le }
  refine ⟨_, ?_, hi, ?_, hlen⟩
  · simp only [prepend, assertThat_pos hroom, ok_bind, hsub, hcopy, except_pure]
  · have hsplit : b.writerIndex_ - (b.readerIndex_ - data.length)
        = data.length + (b.writerIndex_ - b.readerIndex_) := by omega
    rw [hi.readable_eq, h.readable_eq]
    simp only [hsplit, slice_add, hend]
    -- First the piece just written, then what was readable before.
    rw [slice_overwrite_self (by omega), slice_overwrite_after (by omega) (by omega)]

/-- `unwrite` drops `len` bytes from the back. -/
theorem unwrite_spec (h : Inv b) (hlen : len ≤ b.readableBytes) :
    ∃ b', b.unwrite len = .ok b' ∧ Inv b' ∧
      b'.readable = b.readable.take (b.readable.length - len) ∧ b'.buffer_ = b.buffer_ := by
  have hr := h.reader_le
  have hw := h.writer_le
  have hs := h.size_lt
  have hbytes := h.readableBytes_eq
  have hsub : subSize b.writerIndex_ len = b.writerIndex_ - len := subSize_eq (by omega) (by omega)
  have hi : Inv { b with writerIndex_ := b.writerIndex_ - len } :=
    { cheap_le := h.cheap_le
      reader_le := by simp only; omega
      writer_le := by simp only; omega
      size_le := h.size_le }
  refine ⟨_, ?_, hi, ?_, rfl⟩
  · simp only [unwrite, assertThat_pos hlen, ok_bind, hsub, except_pure]
  · rw [hi.readable_eq, h.length_readable, h.readable_eq, take_slice (by omega)]
    congr 1
    simp only
    omega

/-! ### The bytes in front of the reader -/

theorem makeSpace_reader {b b' : Buffer} (h : b.makeSpace len = .ok b') :
    b'.readerIndex_ = b.readerIndex_ ∨ b'.readerIndex_ = kCheapPrepend := by
  rw [makeSpace] at h
  split at h
  · obtain ⟨v, _, hv⟩ := except_bind_eq_ok.mp h
    cases hv
    exact .inl rfl
  · obtain ⟨_, _, h⟩ := except_bind_eq_ok.mp h
    obtain ⟨v, _, h⟩ := except_bind_eq_ok.mp h
    obtain ⟨_, _, h⟩ := except_bind_eq_ok.mp h
    cases h
    exact .inr rfl

theorem ensureWritableBytes_reader_cases {b b' : Buffer}
    (h : b.ensureWritableBytes len = .ok b') :
    b'.readerIndex_ = b.readerIndex_ ∨ b'.readerIndex_ = kCheapPrepend := by
  rw [ensureWritableBytes] at h
  split at h
  · obtain ⟨b₁, h₁, h⟩ := except_bind_eq_ok.mp h
    obtain ⟨_, _, h⟩ := except_bind_eq_ok.mp h
    cases h
    exact makeSpace_reader h₁
  · obtain ⟨b₁, h₁, h⟩ := except_bind_eq_ok.mp h
    obtain ⟨_, _, h⟩ := except_bind_eq_ok.mp h
    cases h₁
    cases h
    exact .inl rfl

/-- Making room does not use up the prependable bytes. -/
theorem ensureWritableBytes_reader {b b' : Buffer}
    (h : b.ensureWritableBytes len = .ok b') (hb : kCheapPrepend ≤ b.readerIndex_) :
    kCheapPrepend ≤ b'.readerIndex_ := by
  cases ensureWritableBytes_reader_cases h with
  | inl heq => exact heq ▸ hb
  | inr heq => exact Nat.le_of_eq heq.symm

theorem hasWritten_reader {b b' : Buffer} (h : b.hasWritten len = .ok b') :
    b'.readerIndex_ = b.readerIndex_ := by
  obtain ⟨_, _, h⟩ := except_bind_eq_ok.mp h
  cases h
  rfl

theorem append_reader {b b' : Buffer} (h : b.append data = .ok b')
    (hb : kCheapPrepend ≤ b.readerIndex_) : kCheapPrepend ≤ b'.readerIndex_ := by
  obtain ⟨b₁, h₁, h⟩ := except_bind_eq_ok.mp h
  obtain ⟨v, _, h⟩ := except_bind_eq_ok.mp h
  have hroom : kCheapPrepend ≤ b₁.readerIndex_ := ensureWritableBytes_reader h₁ hb
  rw [hasWritten_reader h]
  exact hroom

/-- `append` far from `max_size()`. -/
theorem append_fits (h : Inv b)
    (hsz : b.buffer_.length + data.length ≤ maxSize) :
    ∃ b', b.append data = .ok b' ∧ Inv b' ∧ b'.readable = b.readable ++ data ∧
      b'.buffer_.length ≤ b.buffer_.length + data.length ∧
      (kCheapPrepend ≤ b.readerIndex_ → kCheapPrepend ≤ b'.readerIndex_) := by
  have hw := h.writer_le
  have hlt := maxSize_lt
  have hmodulus : b.buffer_.length + data.length < sizeModulus := by omega
  cases append_spec h hmodulus with
  | inl hok =>
      obtain ⟨b', happ, hb', hread, _, hlen⟩ := hok
      exact ⟨b', happ, hb', hread, hlen, append_reader happ⟩
  | inr hfull =>
      omega

/-- `append` of a `std::string`. -/
theorem append_ends (h : Inv b) (hdata : data.length ≤ maxSize) :
    Ends (b.append data) (· = .lengthError)
      (fun b' => Inv b' ∧ b'.readable = b.readable ++ data) := by
  have hvec := h.size_le
  have hlimit := maxSize_add_maxSize_lt
  have hmodulus : b.buffer_.length + data.length < sizeModulus := by omega
  cases append_spec h hmodulus with
  | inl hok =>
      obtain ⟨b', happ, hb', hread, _⟩ := hok
      exact Ends.of_eq_ok happ ⟨hb', hread⟩
  | inr hfull => exact Ends.of_eq_error hfull.1 rfl

/-! ### A stream that arrives in chunks -/

/-- The one fault of a buffer that had `size` bytes at first and then gets
`bytes`: the vector would pass `max_size()`. `lengthError` is its name. -/
def Full {φ : Type} (lengthError : φ) (size : Nat) (bytes : List UInt8) (f : φ) : Prop :=
  f = lengthError ∧ maxSize < size + bytes.length

theorem Full.append {φ : Type} {lengthError f : φ} {size : Nat} {chunks : List Chunk}
    (h : Full lengthError size (stream chunks) f) (more : List Chunk) :
    Full lengthError size (stream (chunks ++ more)) f := by
  have hlen := length_stream_append chunks more
  have hfull := h.2
  exact ⟨h.1, by omega⟩

/-- A buffer that has got the chunks `done` so far gets one more. `fault` is the
caller's name for a fault of the buffer. -/
theorem append_chunk {φ : Type} {size : Nat} {done : List Chunk} (h : Inv b)
    (hsize : b.buffer_.length ≤ size + (stream done).length) (chunk : Chunk) (fault : Fault → φ) :
    Ends ((b.append chunk.1.bytes).mapError fault)
      (Full (fault .lengthError) size (stream (done ++ [chunk])))
      (fun b' => Inv b' ∧ b'.readable = b.readable ++ chunk.1.bytes ∧
        b'.buffer_.length ≤ size + (stream (done ++ [chunk])).length) := by
  refine Ends.mapError ?_
  have hvec := h.size_le
  have hchunk := chunk.1.length_le
  have hw := h.writer_le
  have hlimit := maxSize_add_maxSize_lt
  have hmodulus : b.buffer_.length + chunk.1.bytes.length < sizeModulus := by omega
  have htotal : (stream (done ++ [chunk])).length
      = (stream done).length + chunk.1.bytes.length := by
    rw [stream_snoc, List.length_append]
  cases append_spec h hmodulus with
  | inl hok =>
      obtain ⟨b', happ, hb', hread, _, hlen⟩ := hok
      exact Ends.of_eq_ok happ ⟨hb', hread, by omega⟩
  | inr hfull =>
      exact Ends.of_eq_error hfull.1 ⟨rfl, by omega⟩

/-! ### Looking at the readable bytes -/

/-- A range of the vector that lies among the readable bytes. -/
theorem Inv.slice_peek (h : Inv b) {i n : Nat} (hn : i + n ≤ b.readable.length) :
    slice b.buffer_ (b.peek + i) n = (b.readable.drop i).take n := by
  rw [h.length_readable] at hn
  rw [readable, drop_slice, take_slice (by omega)]

theorem peekInt_spec {n : Nat} (h : Inv b) (hn : n ≤ b.readable.length) :
    b.peekInt n = .ok (BitVec.ofNat (8 * n) (BigEndian.ofBytes (b.readable.take n))) := by
  have hassert : n ≤ b.readableBytes := h.length_readable ▸ hn
  have hslice := h.slice_peek (i := 0) (n := n) (by omega)
  rw [Nat.add_zero, List.drop_zero] at hslice
  rw [peekInt, assertThat_pos hassert, ok_bind, hslice]
  rfl

/-! ### Reading from a socket -/

/-- The number of bytes that `readFd` has room for, in the vector and in
`extrabuf`. -/
def offered (b : Buffer) : Nat :=
  if b.writableBytes < extrabufSize then b.writableBytes + extrabufSize else b.writableBytes

theorem offered_pos (b : Buffer) : 0 < b.offered := by
  have hsize : extrabufSize = 65536 := rfl
  unfold offered
  split <;> omega

/-- What `readFd` can read has a sum in `size_t` with the size of the vector. -/
theorem Inv.add_offered_lt (h : Inv b) : b.buffer_.length + b.offered < sizeModulus := by
  have hmax := h.size_le
  have hbytes := h.writableBytes_eq
  have htwice := maxSize_add_maxSize_lt
  have hextra : maxSize + (extrabufSize + extrabufSize) < sizeModulus := by decide
  unfold offered
  split <;> omega

/-- The bytes fit: one copy behind the readable bytes. -/
theorem readFd_fits (h : Inv b)
    (hroom : data.length ≤ b.writableBytes) :
    copyInto b.buffer_ b.writerIndex_ data = .ok (overwrite b.buffer_ b.writerIndex_ data) ∧
      addSize b.writerIndex_ data.length = b.writerIndex_ + data.length := by
  have hs := h.size_lt
  have hfit := h.fits hroom
  exact ⟨if_pos hfit, addSize_eq (by omega)⟩

/-- The vector is filled to its end. -/
theorem written_full (h : Inv b)
    (hfull : data.length = b.writableBytes) :
    (⟨overwrite b.buffer_ b.writerIndex_ data, b.readerIndex_,
      (overwrite b.buffer_ b.writerIndex_ data).length⟩ : Buffer) = written b data := by
  have hw := h.writer_le
  have hbytes := h.writableBytes_eq
  have hfit := h.fits (Nat.le_of_eq hfull)
  simp only [written, length_overwrite hfit, Buffer.mk.injEq, true_and]
  omega

/-- Adding the rest to the filled vector throws when adding all the bytes
at once does: the sum of the free places has shrunk by what was filled in. -/
theorem spill_throws_iff (h : Inv b)
    (hfull : b.writableBytes < data.length) (hsz : b.buffer_.length + data.length < sizeModulus) :
    (written b (data.take b.writableBytes)).append (data.drop b.writableBytes)
        = .error .lengthError ↔ b.append data = .error .lengthError := by
  have hw := h.writer_le
  have hbytes := h.writableBytes_eq
  have htake : (data.take b.writableBytes).length = b.writableBytes := by
    rw [List.length_take]
    omega
  obtain ⟨hi, -, hlen⟩ := written_spec h (Nat.le_of_eq htake)
  have hdrop : (data.drop b.writableBytes).length = data.length - b.writableBytes :=
    List.length_drop
  have hwriter : (written b (data.take b.writableBytes)).writerIndex_ = b.buffer_.length := by
    simp only [written, htake]
    omega
  have hzero : (written b (data.take b.writableBytes)).writableBytes = 0 := by
    rw [hi.writableBytes_eq, hwriter, hlen, Nat.sub_self]
  have hreader : (written b (data.take b.writableBytes)).prependableBytes
      = b.prependableBytes := rfl
  rw [append_throws_iff hi (by omega), append_throws_iff h hsz]
  unfold Grows
  rw [hdrop, hwriter, hzero, hreader]
  omega

/-- What `readFd` does with bytes that `readv` has put into the buffers it
offers: it returns their count, and has added them like `append`. -/
theorem readFd_delivered (h : Inv b)
    (hdata : data.length ≤ b.offered) :
    Ends (b.readFd (.delivered data))
      (fun f => f = .lengthError ∧ b.append data = .error .lengthError)
      (fun p => Inv p.1 ∧ p.1.readable = b.readable ++ data ∧ p.2 = data.length ∧
        b.append data ≠ .error .lengthError) := by
  have hsz : b.buffer_.length + data.length < sizeModulus := by
    have hlimit := h.add_offered_lt
    omega
  have hall : data.take b.offered = data := List.take_of_length_le hdata
  rw [offered] at hall
  simp only [readFd, hall]
  by_cases hroom : data.length ≤ b.writableBytes
  · obtain ⟨hcopy, hadd⟩ := readFd_fits h hroom
    obtain ⟨hi, hread, -⟩ := written_spec h hroom
    simp only [if_pos hroom, hcopy, ok_bind, hadd, except_pure]
    refine Ends.ok ⟨hi, hread, rfl, ?_⟩
    rw [ne_eq, append_throws_iff h hsz]
    intro hthrow
    exact absurd hthrow.1.1 (Nat.not_lt_of_le hroom)
  · have hfull : b.writableBytes < data.length := Nat.lt_of_not_le hroom
    have htake : (data.take b.writableBytes).length = b.writableBytes := by
      rw [List.length_take]
      omega
    obtain ⟨hi, hread, hlen⟩ := written_spec h (Nat.le_of_eq htake)
    have hthrows := spill_throws_iff h hfull hsz
    have hsum : (written b (data.take b.writableBytes)).buffer_.length
        + (data.drop b.writableBytes).length < sizeModulus := by
      rw [hlen, List.length_drop]
      omega
    simp only [if_neg hroom, (readFd_fits h (Nat.le_of_eq htake)).1, ok_bind, written_full h htake]
    cases append_spec hi hsum with
    | inl hok =>
        obtain ⟨b', happ, hi', hread', -⟩ := hok
        rw [happ, ok_bind]
        refine Ends.ok ⟨hi', ?_, rfl, ?_⟩
        · rw [hread', hread, List.append_assoc, List.take_append_drop]
        · rw [ne_eq, ← hthrows, happ]
          simp
    | inr hthrow =>
        rw [hthrow.1, error_bind]
        exact Ends.error ⟨rfl, hthrows.mp hthrow.1⟩

/-- `readFd` puts what `readv` delivered behind the readable bytes and
returns its count, `0` at the end of the stream. It fails like `append`. -/
theorem readFd_spec (h : Inv b) (r : ReadResult) :
    Ends (b.readFd r) (· = .lengthError)
      (fun p => Inv p.1 ∧ b.readable <+: p.1.readable ∧ (p.2 = 0 ↔ r = .delivered [])) := by
  cases r with
  | failed => exact Ends.ok ⟨h, List.prefix_rfl, by simp⟩
  | delivered bytes =>
      -- What does not fit into the offered buffers stays in the kernel.
      have hcut : b.readFd (.delivered bytes) = b.readFd (.delivered (bytes.take b.offered)) := by
        simp only [readFd, offered, List.take_take, Nat.min_self]
      have hle : (bytes.take b.offered).length ≤ b.offered := List.length_take_le _ _
      have hpos := b.offered_pos
      rw [hcut]
      refine (readFd_delivered h hle).mono (fun _ hf => hf.1) ?_
      intro p hp
      obtain ⟨hi, hread, hcount, -⟩ := hp
      refine ⟨hi, hread ▸ List.prefix_append _ _, ?_⟩
      rw [hcount, ReadResult.delivered.injEq, ← List.length_eq_zero_iff, List.length_take]
      omega

end Muduo.Net.Buffer
