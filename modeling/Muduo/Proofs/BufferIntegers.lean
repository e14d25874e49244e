import Muduo.Proofs.BufferReach

/-!
# `Muduo.Proofs.BufferIntegers`: integers of mixed widths round trip

An `Item` is a value of one of the four signed types, as its bits. `encode`
is what it looks like on the wire, and the functions of `Buffer.h` for the
four widths are `append`, `prepend`, `peek` and `retrieve` of that
(`appendItem_eq`, `prependItem_eq`, `peekItem_eq`, `readItem_spec`). The
functions for one byte have bodies of their own, without a change of byte
order, and the first lemmas show that the same equations hold for them.

`integers_round_trip` is the law over whole lists: what was appended is
read back, what was prepended is read first, and `peekInt` is the
big-endian value of the bytes that `readInt8` returns one by one.
-/

set_option autoImplicit false

namespace Muduo.Net.Buffer

open Muduo.Base
open Muduo.Lib

/-! ### The four widths -/

/-- `int8_t`, `int16_t`, `int32_t` and `int64_t`. -/
inductive IntWidth where
  | int8
  | int16
  | int32
  | int64
  deriving DecidableEq, Repr

/-- `sizeof`. -/
def IntWidth.bytes : IntWidth → Nat
  | .int8 => 1
  | .int16 => 2
  | .int32 => 4
  | .int64 => 8

/-- A value of a signed type, as its bits. `BitVec.toInt` is the signed value. -/
abbrev Item := (w : IntWidth) × BitVec (8 * w.bytes)

def appendItem (b : Buffer) : Item → Except Fault Buffer
  | ⟨.int8, x⟩ => b.appendInt8 x
  | ⟨.int16, x⟩ => b.appendInt16 x
  | ⟨.int32, x⟩ => b.appendInt32 x
  | ⟨.int64, x⟩ => b.appendInt64 x

def prependItem (b : Buffer) : Item → Except Fault Buffer
  | ⟨.int8, x⟩ => b.prependInt8 x
  | ⟨.int16, x⟩ => b.prependInt16 x
  | ⟨.int32, x⟩ => b.prependInt32 x
  | ⟨.int64, x⟩ => b.prependInt64 x

def peekItem (b : Buffer) : (w : IntWidth) → Except Fault (BitVec (8 * w.bytes))
  | .int8 => b.peekInt8
  | .int16 => b.peekInt16
  | .int32 => b.peekInt32
  | .int64 => b.peekInt64

def readItem (b : Buffer) : (w : IntWidth) → Except Fault (BitVec (8 * w.bytes) × Buffer)
  | .int8 => b.readInt8
  | .int16 => b.readInt16
  | .int32 => b.readInt32
  | .int64 => b.readInt64

/-- One append after the other. -/
def appendItems (b : Buffer) (items : List Item) : Except Fault Buffer := items.foldlM appendItem b

/-- One read after the other: the values, and the buffer after the last one. -/
def readItems : Buffer → List IntWidth → Except Fault (List Item × Buffer)
  | b, [] => .ok ([], b)
  | b, w :: ws => do
      let (x, b) ← b.readItem w
      let (items, b) ← readItems b ws
      return (⟨w, x⟩ :: items, b)

/-- The bytes of a value in network byte order. -/
def encode (item : Item) : List UInt8 := BigEndian.toBytes item.1.bytes item.2.toNat

/-- The bytes of a list of values. -/
def encodeAll (items : List Item) : List UInt8 := items.flatMap encode

/-- An integer takes as many bytes as its type has. -/
theorem length_encode (item : Item) : (encode item).length = item.1.bytes :=
  BigEndian.length_toBytes _ _

@[simp] theorem encodeAll_nil : encodeAll [] = [] := rfl

@[simp] theorem encodeAll_cons (item : Item) (items : List Item) :
    encodeAll (item :: items) = encode item ++ encodeAll items := List.flatMap_cons

/-! ### One value -/

variable {b : Buffer}

theorem toBytes_one (x : BitVec 8) : BigEndian.toBytes 1 x.toNat = [UInt8.ofBitVec x] := by
  show [UInt8.ofNat x.toNat] = [UInt8.ofBitVec x]
  congr 1
  apply UInt8.toNat_inj.mp
  rw [UInt8.toNat_ofNat', Nat.mod_eq_of_lt x.isLt]
  rfl

/-- `appendInt64` and the others append the bytes in network order. -/
theorem appendItem_eq (b : Buffer) (item : Item) : b.appendItem item = b.append (encode item) := by
  obtain ⟨w, x⟩ := item
  cases w with
  | int8 => exact congrArg b.append (toBytes_one x).symm
  | int16 => rfl
  | int32 => rfl
  | int64 => rfl

/-- `prependInt64` and the others do so in front. -/
theorem prependItem_eq (b : Buffer) (item : Item) :
    b.prependItem item = b.prepend (encode item) := by
  obtain ⟨w, x⟩ := item
  cases w with
  | int8 => exact congrArg b.prepend (toBytes_one x).symm
  | int16 => rfl
  | int32 => rfl
  | int64 => rfl

/-- The byte at `peek()` is the value of the first readable byte. -/
theorem peekInt8_eq (h : Inv b) (hn : 1 ≤ b.readable.length) :
    b.peekInt8 = .ok (BitVec.ofNat 8 (BigEndian.ofBytes (b.readable.take 1))) := by
  have hassert : 1 ≤ b.readableBytes := h.length_readable ▸ hn
  cases hread : b.readable with
  | nil =>
      rw [hread] at hn
      cases hn
  | cons x rest =>
      have hfirst : b.buffer_[b.peek]? = some x := by
        have hslice := getElem?_slice b.buffer_ b.peek b.readableBytes 0
        rw [if_pos (by omega), Nat.add_zero] at hslice
        rw [← hslice]
        show b.readable[0]? = some x
        rw [hread]
        rfl
      have hvalue : BitVec.ofNat 8 (BigEndian.ofBytes ((x :: rest).take 1)) = x.toBitVec := by
        show BitVec.ofNat 8 (0 * 256 + x.toNat) = x.toBitVec
        rw [Nat.zero_mul, Nat.zero_add]
        exact BitVec.eq_of_toNat_eq (Nat.mod_eq_of_lt x.toBitVec.isLt)
      rw [peekInt8, assertThat_pos hassert, ok_bind, hfirst, hvalue]
      rfl

/-- `peekInt64` and the others read the first bytes. -/
theorem peekItem_eq (h : Inv b) (w : IntWidth) (hn : w.bytes ≤ b.readable.length) :
    b.peekItem w
      = .ok (BitVec.ofNat (8 * w.bytes) (BigEndian.ofBytes (b.readable.take w.bytes))) := by
  cases w with
  | int8 => exact peekInt8_eq h hn
  | int16 => exact peekInt_spec h hn
  | int32 => exact peekInt_spec h hn
  | int64 => exact peekInt_spec h hn

/-- `readInt64` and the others read and then retrieve. -/
theorem readItem_eq (b : Buffer) (w : IntWidth) :
    b.readItem w = readWith (b.peekItem w) (b.retrieve w.bytes) := by
  cases w <;> rfl

/-- A value at the front is read, and the rest stays. -/
theorem readItem_spec (h : Inv b) {item : Item} {rest : List UInt8}
    (hread : b.readable = encode item ++ rest) :
    ∃ b', b.readItem item.1 = .ok (item.2, b') ∧ Inv b' ∧ b'.readable = rest := by
  have hlen := length_encode item
  have hn : item.1.bytes ≤ b.readable.length := by
    rw [hread, List.length_append]
    omega
  obtain ⟨b', hret, hinv, hrest, _⟩ := retrieve_spec h (h.length_readable ▸ hn)
  have hfirst : b.readable.take item.1.bytes = encode item := by
    rw [hread, ← hlen]
    exact List.take_left' rfl
  have hvalue : BitVec.ofNat (8 * item.1.bytes) (BigEndian.ofBytes (encode item)) = item.2 :=
    BigEndian.ofBytes_toNat item.2
  refine ⟨b', ?_, hinv, ?_⟩
  · rw [readItem_eq, readWith, peekItem_eq h _ hn, hfirst, hvalue, ok_bind, hret, ok_bind,
      except_pure]
  · rw [hrest, hread, ← hlen]
    exact List.drop_left' rfl

/-! ### Lists of values -/

/-- Appending one more value to what has been appended. The one fault is that
the vector, of `size` bytes at first, would pass `max_size()`. -/
theorem appendItem_step {size : Nat} {old : List UInt8} (done : List Item) (b : Buffer)
    (item : Item)
    (h : Inv b ∧ b.readable = old ++ encodeAll done ∧
      b.buffer_.length ≤ size + (encodeAll done).length) :
    Ends (b.appendItem item) (Full .lengthError size (encodeAll (done ++ [item])))
      (fun b' => Inv b' ∧ b'.readable = old ++ encodeAll (done ++ [item]) ∧
        b'.buffer_.length ≤ size + (encodeAll (done ++ [item])).length) := by
  obtain ⟨hinv, hread, hsize⟩ := h
  have hmore : encodeAll (done ++ [item]) = encodeAll done ++ encode item := by
    rw [encodeAll, List.flatMap_append, List.flatMap_singleton]
    rfl
  have hlen : (encodeAll (done ++ [item])).length
      = (encodeAll done).length + (encode item).length := by
    rw [hmore, List.length_append]
  have hitem : (encode item).length ≤ 8 := by
    rw [length_encode]
    cases item.1 <;> decide
  have hmax := hinv.size_le
  have hw := hinv.writer_le
  have hlimit : maxSize + 8 < sizeModulus := by decide
  rw [appendItem_eq]
  cases @append_spec b (encode item) hinv (by omega) with
  | inl hok =>
      obtain ⟨b', happ, hinv', hread', _, hgrow⟩ := hok
      refine Ends.of_eq_ok happ ⟨hinv', ?_, by omega⟩
      rw [hread', hread, hmore, List.append_assoc]
  | inr hthrow =>
      exact Ends.of_eq_error hthrow.1 ⟨rfl, by omega⟩

/-- Appending a list of values. -/
theorem appendItems_spec (h : Inv b) (items : List Item) :
    Ends (b.appendItems items) (Full .lengthError b.buffer_.length (encodeAll items))
      (fun b' => Inv b' ∧ b'.readable = b.readable ++ encodeAll items ∧
        b'.buffer_.length ≤ b.buffer_.length + (encodeAll items).length) := by
  refine Ends.foldlM_history (f := appendItem)
    (I := fun done b' => Inv b' ∧ b'.readable = b.readable ++ encodeAll done ∧
      b'.buffer_.length ≤ b.buffer_.length + (encodeAll done).length)
    (E := fun done => Full .lengthError b.buffer_.length (encodeAll done))
    appendItem_step ?_ items [] ⟨h, (List.append_nil _).symm, Nat.le_refl _⟩
  -- A vector that is too small for some of the values is too small for more of them.
  intro done more f hfull
  have hbound := hfull.2
  refine ⟨hfull.1, ?_⟩
  rw [encodeAll, List.flatMap_append, List.length_append]
  rw [encodeAll] at hbound
  omega

/-- Reading a list of values that are at the front. Induction on the list:
each read leaves the encoding of the others at the front. -/
theorem readItems_spec (items : List Item) (b : Buffer) (rest : List UInt8) (h : Inv b)
    (hread : b.readable = encodeAll items ++ rest) :
    ∃ b', readItems b (items.map Sigma.fst) = .ok (items, b') ∧ Inv b' ∧ b'.readable = rest := by
  induction items generalizing b with
  | nil => exact ⟨b, rfl, h, hread⟩
  | cons item items ih =>
      rw [encodeAll_cons, List.append_assoc] at hread
      obtain ⟨b₁, hone, hinv₁, hread₁⟩ := readItem_spec h hread
      obtain ⟨b₂, hmany, hinv₂, hread₂⟩ := ih b₁ hinv₁ hread₁
      refine ⟨b₂, ?_, hinv₂, hread₂⟩
      rw [List.map_cons, readItems, hone, ok_bind]
      simp only [hmany, ok_bind, except_pure]

/-- Bytes as values of type `int8_t`. -/
def asInt8 (bytes : List UInt8) : List Item := bytes.map fun x => ⟨.int8, x.toBitVec⟩

/-- Values of type `int8_t` as bytes. -/
def ofInt8 (items : List Item) : List UInt8 := items.map fun item => UInt8.ofNat item.2.toNat

theorem encodeAll_asInt8 (bytes : List UInt8) : encodeAll (asInt8 bytes) = bytes := by
  induction bytes with
  | nil => rfl
  | cons x bytes ih =>
      show encode ⟨.int8, x.toBitVec⟩ ++ encodeAll (asInt8 bytes) = x :: bytes
      have hone : encode ⟨.int8, x.toBitVec⟩ = [x] := toBytes_one x.toBitVec
      rw [ih, hone]
      rfl

theorem ofInt8_asInt8 (bytes : List UInt8) : ofInt8 (asInt8 bytes) = bytes := by
  have hone : ∀ x : UInt8, UInt8.ofNat x.toBitVec.toNat = x := fun x => UInt8.ofNat_toNat
  rw [ofInt8, asInt8, List.map_map]
  exact (List.map_congr_left fun x _ => hone x).trans (List.map_id bytes)

theorem map_fst_asInt8 (bytes : List UInt8) :
    (asInt8 bytes).map Sigma.fst = List.replicate bytes.length .int8 := by
  rw [asInt8, List.map_map]
  exact List.map_const'

/-! ### The result -/

/-- **Integers of mixed widths round trip.** In every reachable state:

- Append any list of signed values of 8, 16, 32 and 64 bits, and retrieve
  what was readable before. Reading with the same widths in the same order
  returns exactly the values and leaves the buffer empty. An append throws
  `std::length_error` only when the vector would pass `max_size()`.
- A value that is prepended, when its bytes are prependable, is the next one
  that is read, and the rest is unchanged.
- `peekInt` of a width that is readable is the big-endian value of the bytes
  that successive calls of `readInt8` return. -/
theorem integers_round_trip (b : Buffer) (hb : Reachable b) :
    (∀ items : List Item,
      (∃ b₁ b₂ b₃, b.appendItems items = .ok b₁ ∧ b₁.retrieve b.readableBytes = .ok b₂ ∧
        readItems b₂ (items.map Sigma.fst) = .ok (items, b₃) ∧ b₃.readableBytes = 0) ∨
      (b.appendItems items = .error .lengthError ∧
        maxSize < b.buffer_.length + (encodeAll items).length)) ∧
    (∀ item : Item, item.1.bytes ≤ b.prependableBytes →
      ∃ b₁ b₂, b.prependItem item = .ok b₁ ∧ b₁.readItem item.1 = .ok (item.2, b₂) ∧
        b₂.readable = b.readable) ∧
    (∀ w : IntWidth, w.bytes ≤ b.readableBytes →
      ∃ items b', readItems b (List.replicate w.bytes .int8) = .ok (items, b') ∧
        b.peekItem w = .ok (BitVec.ofNat (8 * w.bytes) (BigEndian.ofBytes (ofInt8 items)))) := by
  have hinv := hb.inv
  refine ⟨?_, ?_, ?_⟩
  · intro items
    have hends := appendItems_spec hinv items
    cases happ : b.appendItems items with
    | error f =>
        obtain ⟨hf, hmax⟩ := hends.fault happ
        subst hf
        exact .inr ⟨rfl, hmax⟩
    | ok b₁ =>
        obtain ⟨hinv₁, hread₁, _⟩ := hends.post happ
        have hold : b.readableBytes ≤ b₁.readableBytes := by
          rw [← hinv.length_readable, ← hinv₁.length_readable, hread₁, List.length_append]
          omega
        obtain ⟨b₂, hret, hinv₂, hread₂, _⟩ := retrieve_spec hinv₁ hold
        have hnew : b₂.readable = encodeAll items ++ [] := by
          rw [hread₂, hread₁, ← hinv.length_readable, List.drop_left' rfl, List.append_nil]
        obtain ⟨b₃, hmany, hinv₃, hempty⟩ := readItems_spec items b₂ [] hinv₂ hnew
        exact .inl ⟨b₁, b₂, b₃, rfl, hret, hmany, hinv₃.readableBytes_eq_zero.mpr hempty⟩
  · intro item hitem
    obtain ⟨b₁, hprep, hinv₁, hread₁, _⟩ :=
      @prepend_spec b (encode item) hinv (by rw [length_encode]; exact hitem)
    obtain ⟨b₂, hone, _, hrest⟩ := readItem_spec hinv₁ hread₁
    exact ⟨b₁, b₂, (prependItem_eq b item).trans hprep, hone, hrest⟩
  · intro w hw
    rw [← hinv.length_readable] at hw
    have hlen : (b.readable.take w.bytes).length = w.bytes := List.length_take_of_le hw
    -- The first bytes, each of them a value of its own.
    have hsplit : b.readable
        = encodeAll (asInt8 (b.readable.take w.bytes)) ++ b.readable.drop w.bytes := by
      rw [encodeAll_asInt8, List.take_append_drop]
    obtain ⟨b', hmany, _⟩ := readItems_spec _ b _ hinv hsplit
    rw [map_fst_asInt8, hlen] at hmany
    refine ⟨_, b', hmany, ?_⟩
    rw [ofInt8_asInt8]
    exact peekItem_eq hinv w hw

/-- A new buffer, three values of three widths. -/
theorem integers_round_trip_three :
    ∃ b b₁ b₂ b₃, Reachable b ∧
      b.appendItems [⟨.int8, -1⟩, ⟨.int16, 258⟩, ⟨.int64, -2⟩] = .ok b₁ ∧
      b₁.retrieve b.readableBytes = .ok b₂ ∧
      readItems b₂ [.int8, .int16, .int64]
        = .ok ([⟨.int8, -1⟩, ⟨.int16, 258⟩, ⟨.int64, -2⟩], b₃) ∧ b₃.readableBytes = 0 := by
  have hb : Reachable ⟨List.replicate 16 0, kCheapPrepend, kCheapPrepend⟩ :=
    .ctor (by decide : 8 ≤ maxSize) (by decide +kernel)
  cases (integers_round_trip _ hb).1 [⟨.int8, -1⟩, ⟨.int16, 258⟩, ⟨.int64, -2⟩] with
  | inl hok =>
      obtain ⟨b₁, b₂, b₃, hok⟩ := hok
      exact ⟨_, b₁, b₂, b₃, hb, hok⟩
  | inr hthrow => exact absurd hthrow.2 (by decide +kernel)

end Muduo.Net.Buffer
