import Muduo.Proofs.BufferDeque

/-!
# `Muduo.Proofs.BufferReach`: scatter reads and `shrink` in every reachable state

`Reachable` is the set of the buffers that the public functions produce,
from any constructor call on. Each of them satisfies the index invariant
(`Reachable.inv`), so the results below are stated for reachable buffers
and proved from the invariant.

`readFd_appends` is about `readFd`: the bytes that `readv` has scattered
over the vector and `extrabuf` end up where one `append` of them would have
put them, and the call throws exactly when that `append` would.

`shrink_keeps_iff` is about `shrink`, which copies the readable bytes
through a `StringPiece`. The length of a `StringPiece` is an `int`, and it
becomes a `size_t` again in `append`:

    readable bytes        length_            what append is asked for
    n < 2^31              n                  n
    2^31 <= n < 2^32      n - 2^32           n + 2^64 - 2^32
    2^32 <= n             n modulo 2^32, with the sign of an int

So `shrink` keeps the contents exactly when there are fewer than `2 ^ 31`
readable bytes.
-/

set_option autoImplicit false

namespace Muduo.Net.Buffer

open Muduo.Base
open Muduo.Lib

/-! ### Through a `StringPiece` -/

/-- `append(data, len)` with `len` bytes behind the pointer. -/
theorem appendFrom_eq {b : Buffer} {data : List UInt8} {len : Nat} (h : len ≤ data.length) :
    b.appendFrom data len = b.append (data.take len) := by
  have hlen : (data.take len).length = len := List.length_take_of_le h
  simp only [appendFrom, append, hlen, assertThat_pos h, ok_bind]

/-- `append(data, len)` reads no further than the memory behind the pointer. -/
theorem appendFrom_ok {b b' : Buffer} {data : List UInt8} {len : Nat}
    (h : b.appendFrom data len = .ok b') : len ≤ data.length := by
  obtain ⟨b₁, _, h⟩ := except_bind_eq_ok.mp h
  obtain ⟨_, hassert, _⟩ := except_bind_eq_ok.mp h
  exact of_assertThat hassert

/-- The conversions of a number of bytes: `size_t` to `int`, and back. -/
def throughInt (n : Nat) : Nat := intToSize (BitVec.ofNat 32 n).toInt

theorem throughInt_eq (n : Nat) :
    throughInt n =
      if n % 2 ^ 32 < 2 ^ 31 then n % 2 ^ 32 else n % 2 ^ 32 + (sizeModulus - 2 ^ 32) := by
  have hmod : n % 2 ^ 32 < 2 ^ 32 := Nat.mod_lt n (by decide)
  have hsize : sizeModulus = 18446744073709551616 := rfl
  unfold throughInt intToSize
  rw [BitVec.toInt_eq_toNat_cond, BitVec.toNat_ofNat, hsize]
  split <;> split <;> omega

theorem throughInt_of_lt {n : Nat} (h : n < 2 ^ 31) : throughInt n = n := by
  rw [throughInt_eq]
  split <;> omega

/-- A string whose length an `int` can hold is appended as it is. -/
theorem appendStringPiece_ofString (b : Buffer) {str : List UInt8} (h : str.length < 2 ^ 31) :
    b.appendStringPiece (.ofString str) = b.append str := by
  have hlen : intToSize (StringPiece.ofString str).length_ = str.length := throughInt_of_lt h
  rw [appendStringPiece, hlen, StringPiece.ofString, appendFrom_eq (Nat.le_refl _), List.take_length]

/-- The copy of the readable bytes that `append(toStringPiece())` makes. -/
theorem appendStringPiece_eq (b other : Buffer) :
    other.appendStringPiece b.toStringPiece
      = other.appendFrom (b.buffer_.drop b.peek) (throughInt b.readableBytes) := rfl

theorem Inv.readableBytes_le {b : Buffer} (h : Inv b) :
    b.readableBytes ≤ (b.buffer_.drop b.peek).length := by
  have hr := h.reader_le
  have hw := h.writer_le
  rw [h.readableBytes_eq, List.length_drop]
  simp only [peek]
  omega

/-! ### `shrink` -/

/-- The new buffer, before the readable bytes are copied into it. -/
theorem shrink_room {b : Buffer} {reserve : Nat}
    (hsz : b.readableBytes + reserve + kCheapPrepend < 2 ^ 63) :
    ∃ other, default.ensureWritableBytes (addSize b.readableBytes reserve) = .ok other ∧
      Room default other (b.readableBytes + reserve) ∧ other.readerIndex_ = kCheapPrepend := by
  have hmodulus : sizeModulus = 2 ^ 64 := rfl
  have hmax : maxSize = 2 ^ 63 - 1 := rfl
  have hcheap : kCheapPrepend = 8 := rfl
  have hlen : default.buffer_.length = 1032 := length_default
  have hwriter : default.writerIndex_ = kCheapPrepend := rfl
  have hadd : addSize b.readableBytes reserve = b.readableBytes + reserve :=
    addSize_eq (by omega)
  rw [hadd]
  cases @ensureWritableBytes_spec default (b.readableBytes + reserve) inv_default (by omega) with
  | inl hok =>
      obtain ⟨other, hens, hroom⟩ := hok
      refine ⟨other, hens, hroom, ?_⟩
      cases ensureWritableBytes_reader_cases hens with
      | inl hsame => exact hsame
      | inr hcheap => exact hcheap
  | inr hthrow =>
      -- The new vector has `kCheapPrepend` bytes more than it is asked for.
      omega

/-- `shrink` as one copy into a new buffer. -/
theorem shrink_eq {b : Buffer} {reserve : Nat}
    (hsz : b.readableBytes + reserve + kCheapPrepend < 2 ^ 63) :
    ∃ other, b.shrink reserve
        = other.appendFrom (b.buffer_.drop b.peek) (throughInt b.readableBytes) ∧
      Room default other (b.readableBytes + reserve) ∧ other.readerIndex_ = kCheapPrepend := by
  obtain ⟨other, hens, hroom, hreader⟩ := shrink_room hsz
  refine ⟨other, ?_, hroom, hreader⟩
  rw [shrink, hens, ok_bind, appendStringPiece_eq]

/-- What a call of `shrink` that returns has copied. -/
theorem shrink_ok {b b' : Buffer} {reserve : Nat} (h : Inv b)
    (hsz : b.readableBytes + reserve + kCheapPrepend < 2 ^ 63) (hok : b.shrink reserve = .ok b') :
    Inv b' ∧ b'.readable = (b.buffer_.drop b.peek).take (throughInt b.readableBytes) ∧
      throughInt b.readableBytes ≤ (b.buffer_.drop b.peek).length := by
  obtain ⟨other, heq, hroom, _⟩ := shrink_eq hsz
  rw [heq] at hok
  have hle := appendFrom_ok hok
  rw [appendFrom_eq hle] at hok
  have hvec : (b.buffer_.drop b.peek).length ≤ maxSize := by
    have hmax := h.size_le
    rw [List.length_drop]
    omega
  have hdata : ((b.buffer_.drop b.peek).take (throughInt b.readableBytes)).length ≤ maxSize :=
    Nat.le_trans (List.length_take_le' _ _) hvec
  obtain ⟨hinv, hread⟩ := (append_ends hroom.inv hdata).post hok
  rw [hroom.readable_eq, readable_default, List.nil_append] at hread
  exact ⟨hinv, hread, hle⟩

/-- Below `2 ^ 31` readable bytes, `shrink` does what it is for. -/
theorem shrink_small {b : Buffer} {reserve : Nat} (h : Inv b)
    (hsz : b.readableBytes + reserve + kCheapPrepend < 2 ^ 63) (hsmall : b.readableBytes < 2 ^ 31) :
    ∃ b', b.shrink reserve = .ok b' ∧ b'.readable = b.readable ∧ reserve ≤ b'.writableBytes ∧
      b'.readerIndex_ = kCheapPrepend := by
  obtain ⟨other, heq, hroom, hreader⟩ := shrink_eq hsz
  have hdata : (b.buffer_.drop b.peek).take b.readableBytes = b.readable := rfl
  have hfits : b.readable.length ≤ other.writableBytes := by
    have hspace := hroom.room
    rw [h.length_readable]
    omega
  obtain ⟨hinv, hread, hlen⟩ := written_spec hroom.inv hfits
  refine ⟨written other b.readable, ?_, ?_, ?_, hreader⟩
  · rw [heq, throughInt_of_lt hsmall, appendFrom_eq h.readableBytes_le, hdata,
      append_eq_written hroom.inv hfits]
  · rw [hread, hroom.readable_eq, readable_default, List.nil_append]
  · -- The copy takes its bytes out of the room that was made, and leaves the reserve.
    have hspace := hroom.room
    have hfit := hroom.inv.fits hfits
    rw [hroom.inv.writableBytes_eq] at hspace
    rw [hinv.writableBytes_eq, hlen]
    simp only [written]
    rw [h.length_readable]
    omega

/-- A request that no vector can hold, on an empty buffer. -/
theorem ensureWritableBytes_throws {b : Buffer} {len : Nat} (h : Inv b)
    (hreader : b.readerIndex_ = kCheapPrepend) (hempty : b.readable = [])
    (hlen : maxSize < len) (hwrap : len + kCheapPrepend < sizeModulus) :
    b.ensureWritableBytes len = .error .lengthError := by
  have hbytes := h.readableBytes_eq_zero.mpr hempty
  have hmax := h.size_le
  have hw := h.writer_le
  have hspace := h.writableBytes_eq
  have hcheap : kCheapPrepend = 8 := rfl
  rw [h.readableBytes_eq] at hbytes
  have hwriter : b.writerIndex_ = kCheapPrepend := by
    have hr := h.reader_le
    omega
  have hleft : addSize b.writableBytes b.prependableBytes = b.writableBytes + b.readerIndex_ :=
    addSize_eq (by simp only [prependableBytes]; omega)
  have hright : addSize len kCheapPrepend = len + kCheapPrepend := addSize_eq hwrap
  have hend : addSize b.writerIndex_ len = b.writerIndex_ + len := addSize_eq (by omega)
  rw [ensureWritableBytes, if_pos (by omega), makeSpace, hleft, hright, if_pos (by omega), hend,
    resizeVector, if_neg (by omega), error_bind, error_bind]

/-! ### Reachable buffers -/

/-- The buffers that the public functions produce. A caller stays within the
`assert` at the head of a call, and it asks for no more bytes than a
`std::vector` can hold. The functions for integers are calls of `append`,
`prepend` and `retrieve`, and a `swap` exchanges two reachable buffers. -/
inductive Reachable : Buffer → Prop where
  | ctor {initialSize : Nat} {b : Buffer} : initialSize ≤ maxSize →
      Buffer.ctor initialSize = .ok b → Reachable b
  | call {b b' : Buffer} {op : Op} {result : List UInt8} : Reachable b → op.pre b →
      op.size ≤ maxSize → op.call b = .ok (b', result) → Reachable b'
  | readFd {b b' : Buffer} {r : ReadResult} {n : Int} : Reachable b →
      b.readFd r = .ok (b', n) → Reachable b'
  | shrink {b b' : Buffer} {reserve : Nat} : Reachable b →
      b.readableBytes + reserve + kCheapPrepend < 2 ^ 63 → b.shrink reserve = .ok b' → Reachable b'

/-- Every reachable buffer satisfies the index invariant. -/
theorem Reachable.inv {b : Buffer} (h : Reachable b) : Inv b := by
  have hlimit := maxSize_add_maxSize_lt
  induction h with
  | @ctor initialSize b hsize hctor =>
      have hcheap : kCheapPrepend + maxSize < sizeModulus := by decide
      cases @ctor_spec initialSize (by omega) with
      | inl hok =>
          obtain ⟨b', hb', hinv, _⟩ := hok
          cases hctor.symm.trans hb'
          exact hinv
      | inr hthrow => cases hctor.symm.trans hthrow.1
  | @call b b' op result _ hpre hsize hcall ih =>
      have hvec := ih.size_le
      cases call_spec ih hpre (by omega) with
      | inl hok =>
          obtain ⟨b₁, result₁, hcall₁, hrefines⟩ := hok
          cases hcall.symm.trans hcall₁
          exact hrefines.inv
      | inr hthrow => cases hcall.symm.trans hthrow.1
  | readFd _ hread ih => exact ((readFd_spec ih _).post hread).1
  | shrink _ hsz hshrink ih => exact (shrink_ok ih hsz hshrink).1

/-- There are reachable buffers with any number of readable bytes. -/
theorem exists_reachable {n : Nat} (hn : kCheapPrepend + kInitialSize + n ≤ maxSize) :
    ∃ b, Reachable b ∧ b.readableBytes = n := by
  have hinit : kInitialSize ≤ maxSize := by decide
  have hnew : kCheapPrepend + kInitialSize < sizeModulus := by decide
  cases ctor_spec hnew with
  | inl hok =>
      obtain ⟨b, hctor, hinv, hempty, hlen⟩ := hok
      have hdata : (List.replicate n (0 : UInt8)).length = n := List.length_replicate
      obtain ⟨b', happ, hinv', hread, _⟩ :=
        @append_fits b (List.replicate n 0) hinv (by rw [hlen, hdata]; exact hn)
      have hcall : (Op.append (List.replicate n 0)).call b = .ok (b', []) := by
        simp only [Op.call, happ, ok_bind, except_pure]
      have hsize : (Op.append (List.replicate n 0)).size ≤ maxSize := by
        simp only [Op.size]
        rw [hdata]
        omega
      have hpre : (Op.append (List.replicate n 0)).pre b := trivial
      refine ⟨b', .call (.ctor hinit hctor) hpre hsize hcall, ?_⟩
      rw [← hinv'.length_readable, hread, hempty, List.nil_append, hdata]
  | inr hthrow =>
      omega

/-! ### The results -/

/-- **A scatter read is an `append`.** In every reachable state a failed
`readv` leaves the buffer as it is. Let `readv` deliver any number of bytes
up to the total length of the buffers it is offered, filled in order. Then
`readFd` returns their number, the readable bytes are the old ones followed
by exactly these, as after `append`, and the index invariant holds. It
throws `std::length_error` exactly when `append` would. -/
theorem readFd_appends (b : Buffer) (hb : Reachable b) :
    b.readFd .failed = .ok (b, -1) ∧
    ∀ data : List UInt8, data.length ≤ b.offered →
      (∃ b' b'', b.readFd (.delivered data) = .ok (b', (data.length : Int)) ∧
        b.append data = .ok b'' ∧ b'.readable = b.readable ++ data ∧ b''.readable = b'.readable ∧
        Inv b' ∧ Reachable b') ∨
      (b.readFd (.delivered data) = .error .lengthError ∧ b.append data = .error .lengthError ∧
        maxSize < b.writerIndex_ + data.length) := by
  have hinv := hb.inv
  refine ⟨rfl, ?_⟩
  intro data hdata
  have hends := readFd_delivered hinv hdata
  have hsz : b.buffer_.length + data.length < sizeModulus := by
    have hlimit := hinv.add_offered_lt
    omega
  cases hread : b.readFd (.delivered data) with
  | ok p =>
      obtain ⟨hinv', hbytes, hcount, hthrows⟩ := hends.post hread
      obtain ⟨b', n⟩ := p
      have hn : n = data.length := hcount
      subst hn
      cases append_spec hinv hsz with
      | inl hok =>
          obtain ⟨b'', happ, _, hbytes', _⟩ := hok
          exact .inl ⟨b', b'', rfl, happ, hbytes, hbytes'.trans hbytes.symm, hinv', .readFd hb hread⟩
      | inr hthrow => exact absurd hthrow.1 hthrows
  | error f =>
      obtain ⟨hf, hthrows⟩ := hends.fault hread
      subst hf
      exact .inr ⟨rfl, hthrows, ((append_throws_iff hinv hsz).mp hthrows).2⟩

/-- A new buffer of eight bytes gets twelve: the last four come from `extrabuf`. -/
theorem readFd_appends_spill :
    ∃ b, Reachable b ∧ b.writableBytes = 8 ∧
      ∃ b', b.readFd (.delivered [1, 2, 3, 4, 5, 6, 7, 8, 9, 10, 11, 12]) = .ok (b', 12) ∧
        b'.readable = [1, 2, 3, 4, 5, 6, 7, 8, 9, 10, 11, 12] := by
  have hb : Reachable ⟨List.replicate 16 0, kCheapPrepend, kCheapPrepend⟩ :=
    .ctor (by decide : 8 ≤ maxSize) (by decide +kernel)
  refine ⟨_, hb, by decide +kernel, ?_⟩
  cases (readFd_appends _ hb).2 [1, 2, 3, 4, 5, 6, 7, 8, 9, 10, 11, 12] (by decide +kernel) with
  | inl hok =>
      obtain ⟨b', _, hread, _, hbytes, _⟩ := hok
      exact ⟨b', hread, hbytes.trans (by decide +kernel)⟩
  | inr hthrow => exact absurd hthrow.2.2 (by decide +kernel)

/-- `shrink` of a buffer with `2 ^ 31` readable bytes throws: `append` is
asked for `2 ^ 64 - 2 ^ 31` bytes. -/
theorem shrink_throws :
    ∃ b, Reachable b ∧ b.readableBytes = 2 ^ 31 ∧ b.readableBytes + 0 + kCheapPrepend < 2 ^ 63 ∧
      b.shrink 0 = .error .lengthError := by
  have hmax : maxSize = 2 ^ 63 - 1 := rfl
  have hmodulus : sizeModulus = 2 ^ 64 := rfl
  have hcheap : kCheapPrepend = 8 := rfl
  have hinitial : kInitialSize = 1024 := rfl
  obtain ⟨b, hb, hbytes⟩ := exists_reachable (n := 2 ^ 31) (by omega)
  have hsz : b.readableBytes + 0 + kCheapPrepend < 2 ^ 63 := by omega
  refine ⟨b, hb, hbytes, hsz, ?_⟩
  obtain ⟨other, heq, hroom, hreader⟩ := shrink_eq hsz
  have hlen : throughInt b.readableBytes = 2 ^ 64 - 2 ^ 31 := by
    rw [throughInt_eq, hbytes]
    split <;> omega
  have hempty : other.readable = [] := hroom.readable_eq.trans readable_default
  rw [heq, hlen, appendFrom,
    ensureWritableBytes_throws hroom.inv hreader hempty (by omega) (by omega), error_bind]

/-- **When `shrink` keeps the contents.** Let `reserve` be such that the new
vector stays below `2 ^ 63` bytes. In every reachable state `shrink(reserve)`
returns with the same readable bytes, room for `reserve` more and the reader
at `kCheapPrepend`, if and only if there are fewer than `2 ^ 31` readable
bytes. -/
theorem shrink_keeps_iff (b : Buffer) (hb : Reachable b) (reserve : Nat)
    (hsz : b.readableBytes + reserve + kCheapPrepend < 2 ^ 63) :
    (∃ b', b.shrink reserve = .ok b' ∧ b'.readable = b.readable ∧ reserve ≤ b'.writableBytes ∧
      b'.readerIndex_ = kCheapPrepend) ↔ b.readableBytes < 2 ^ 31 := by
  have hinv := hb.inv
  constructor
  · intro hkeeps
    obtain ⟨b', hshrink, hread, _⟩ := hkeeps
    obtain ⟨_, hcopied, hle⟩ := shrink_ok hinv hsz hshrink
    -- What was copied has the length that went through an `int`.
    have hlen : throughInt b.readableBytes = b.readableBytes := by
      have hlengths := congrArg List.length (hcopied.symm.trans hread)
      rwa [List.length_take_of_le hle, hinv.length_readable] at hlengths
    have hvec := hinv.readableBytes_le
    have hmax := hinv.size_le
    have hlimit : maxSize + 2 ^ 32 < sizeModulus := by decide
    rw [List.length_drop] at hvec
    rw [throughInt_eq] at hlen
    split at hlen <;> omega
  · exact shrink_small hinv hsz

/-- A buffer of eight bytes that got three and gave one back, with a reserve that its vector does
not have yet. -/
theorem shrink_keeps_iff_two :
    ∃ b b', Reachable b ∧ b.readable = [2, 3] ∧ b.readerIndex_ = 9 ∧ b.shrink 2000 = .ok b' ∧
      b'.readable = [2, 3] ∧ 2000 ≤ b'.writableBytes ∧ b'.readerIndex_ = kCheapPrepend := by
  have hnew : Reachable ⟨List.replicate 16 0, 8, 8⟩ :=
    .ctor (by decide : 8 ≤ maxSize) (by decide +kernel)
  have happended : Reachable ⟨List.replicate 8 0 ++ [1, 2, 3] ++ List.replicate 5 0, 8, 11⟩ :=
    @Reachable.call _ _ (.append [1, 2, 3]) [] hnew trivial (by decide) (by decide +kernel)
  have hb : Reachable ⟨List.replicate 8 0 ++ [1, 2, 3] ++ List.replicate 5 0, 9, 11⟩ :=
    @Reachable.call _ _ (.retrieve 1) [] happended (by decide +kernel) (by decide)
      (by decide +kernel)
  obtain ⟨b', hshrink, hread, hrest⟩ :=
    (shrink_keeps_iff _ hb 2000 (by decide +kernel)).mpr (by decide +kernel)
  exact ⟨_, b', hb, by decide +kernel, rfl, hshrink, hread.trans (by decide +kernel), hrest⟩

end Muduo.Net.Buffer
