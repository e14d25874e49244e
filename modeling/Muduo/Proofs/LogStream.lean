import Muduo.Proofs.Convert

/-!
# `Muduo.Proofs.LogStream`: insertions are complete or absent

An insertion makes one of two space tests. `append` asks for more free bytes
than the text has. The numbers are written at `cur_` before their length is
known, so they ask for `kMaxNumericSize` bytes, which no number needs. A
`Piece` is an insertion reduced to its bytes and its test.

`Inv` has the two facts that every call keeps: the array has its length, and
`cur_` is inside of it. One free byte is always left, because the first test
is strict and a number leaves its terminating byte behind `cur_`.

`kept` replays the calls on the list of insertions that passed their test
since the last reset. `calls_returns` says that the bytes in use are the
texts of these.
-/

set_option autoImplicit false

namespace Muduo.Base.LogStream

open Muduo.Lib

/-! ### What an insertion adds -/

/-- An insertion: `append` of the first `len` bytes of `data`, or a number. -/
inductive Piece where
  | text (data : List UInt8) (len : Nat)
  | number (all : List UInt8)

namespace Piece

/-- The whole text. -/
def bytes : Piece → List UInt8
  | .text data len => data.take len
  | .number all => all

/-- The space test. -/
def Fits (free : Nat) : Piece → Prop
  | .text _ len => len < free
  | .number _ => kMaxNumericSize ≤ free

instance (free : Nat) (p : Piece) : Decidable (p.Fits free) :=
  match p with
  | .text _ len => inferInstanceAs (Decidable (len < free))
  | .number _ => inferInstanceAs (Decidable (kMaxNumericSize ≤ free))

/-- The bytes that a test can let pass are there, and no number is longer than its reserve. -/
def Valid : Piece → Prop
  | .text data len => len < kSmallBuffer → len ≤ data.length
  | .number all => all.length < kMaxNumericSize

/-- The bytes in use after the insertion. -/
def addTo (p : Piece) (c : List UInt8) : List UInt8 :=
  if p.Fits (kSmallBuffer - c.length) then c ++ p.bytes else c

/-- A piece that fits is added as a whole. -/
theorem addTo_pos {p : Piece} {c : List UInt8} (h : p.Fits (kSmallBuffer - c.length)) :
    p.addTo c = c ++ p.bytes := if_pos h

/-- A piece that does not fit adds nothing. -/
theorem addTo_neg {p : Piece} {c : List UInt8} (h : ¬ p.Fits (kSmallBuffer - c.length)) :
    p.addTo c = c := if_neg h

theorem addTo_all {a c : List UInt8} (h : c.length + a.length < kSmallBuffer) :
    (Piece.text a a.length).addTo c = c ++ a := by
  have hfit : (Piece.text a a.length).Fits (kSmallBuffer - c.length) := by
    show a.length < kSmallBuffer - c.length
    omega
  rw [addTo_pos hfit, bytes, List.take_length]

end Piece

/-- The text and the test of each insertion. -/
def Insertion.piece : Insertion → Piece
  | .bool v => .text (ascii (if v then ['1'] else ['0'])) 1
  | .char v => .text [v] 1
  | .cString (some str) => .text str (strlen str)
  | .cString none => .text (ascii ['(', 'n', 'u', 'l', 'l', ')']) 6
  | .string v => .text v.bytes v.bytes.length
  | .stringPiece v => .text v.ptr_ (intToSize v.length_)
  | .buffer v => .text v.data_ v.cur_
  | .fmt v => .text v.text v.text.length
  | .append data len => .text data (intToSize len)
  | .short v => .number (decimalText v.toInt)
  | .unsignedShort v => .number (decimalText v.toNat)
  | .int v => .number (decimalText v.toInt)
  | .unsignedInt v => .number (decimalText v.toNat)
  | .long v => .number (decimalText v.toInt)
  | .unsignedLong v => .number (decimalText v.toNat)
  | .longLong v => .number (decimalText v.toInt)
  | .unsignedLongLong v => .number (decimalText v.toNat)
  | .pointer p => .number (ascii ['0', 'x'] ++ hex.text p.toNat)
  | .double text => .number text

/-- The array has its length and `cur_` is inside of it. -/
structure Inv (s : LogStream) : Prop where
  length_eq : s.data_.length = kSmallBuffer
  cur_lt : s.cur_ < kSmallBuffer

/-- What the caller owes: an `int` is one, as many bytes as it says can be read, and `snprintf`
makes fewer than `kMaxNumericSize` bytes of a `double`. -/
def Insertion.Valid : Insertion → Prop
  | .stringPiece v => InRange 32 v.length_ ∧ v.length_ ≤ v.ptr_.length
  | .append data len => InRange 32 len ∧ len ≤ data.length
  | .buffer v => Inv v
  | .double text => text.length < kMaxNumericSize
  | _ => True

def Event.Valid : Event → Prop
  | .insert i => i.Valid
  | .resetBuffer => True

variable {s t : LogStream}

/-! ### The fields -/

theorem small_bmod {x : Int} (h0 : 0 ≤ x) (h : x ≤ kSmallBuffer) : x.bmod (2 ^ 32) = x := by
  rw [kSmallBuffer] at h
  rw [Int.bmod_def]
  split <;> omega

/-- `avail()` is the free room, although it is computed as an `int`. -/
theorem Inv.avail_eq (h : Inv s) : s.avail = ((kSmallBuffer - s.cur_ : Nat) : Int) := by
  have hcur := h.cur_lt
  rw [avail, small_bmod (by omega) (by omega)]
  omega

theorem Inv.length_eq_cur (h : Inv s) : s.length = s.cur_ :=
  small_bmod (by omega) (by have := h.cur_lt; omega)

/-- The text is as long as `cur_` says. -/
theorem Inv.length_contents (h : Inv s) : s.contents.length = s.cur_ := by
  have hlen := h.length_eq
  have hcur := h.cur_lt
  rw [contents, List.length_take]
  omega

theorem kSmallBuffer_pos : 0 < kSmallBuffer := by decide

theorem inv_new {data_ : List UInt8} (h : data_.length = kSmallBuffer) : Inv (new data_) :=
  ⟨h, kSmallBuffer_pos⟩

theorem Inv.resetBuffer (h : Inv s) : Inv s.resetBuffer := ⟨h.length_eq, kSmallBuffer_pos⟩

/-- An `int` that is negative becomes a length that passes no test. -/
theorem intToSize_le {len : Int} {n : Nat} (hint : InRange 32 len) (hlen : len ≤ n)
    (h : intToSize len < kSmallBuffer) : intToSize len ≤ n := by
  rw [inRange_32] at hint
  rw [intToSize, sizeModulus, kSmallBuffer] at h
  rw [intToSize, sizeModulus]
  omega

/-- Bytes written at `cur_`, and `cur_` moved behind the first part of them. -/
theorem Inv.written (h : Inv s) {a b : List UInt8}
    (hfit : s.cur_ + (a ++ b).length ≤ kSmallBuffer) (hcur : s.cur_ + a.length < kSmallBuffer)
    (ht : t = ⟨overwrite s.data_ s.cur_ (a ++ b), s.cur_ + a.length⟩) :
    Inv t ∧ t.contents = s.contents ++ a := by
  have hlen := h.length_eq
  subst ht
  refine ⟨⟨by rw [length_overwrite (by omega), hlen], hcur⟩, ?_⟩
  have htake : (s.data_.take s.cur_ ++ a).length = s.cur_ + a.length := by
    rw [List.length_append, List.length_take]
    omega
  rw [contents, overwrite, ← List.append_assoc, List.append_assoc (s.data_.take s.cur_ ++ a),
    List.take_left' htake]
  rfl

/-! ### One call -/

/-- What is to be shown of an insertion: it returns, and adds its piece. -/
def Adds (s : LogStream) (p : Piece) (x : Except Fault LogStream) : Prop :=
  Returns x fun t => Inv t ∧ t.contents = p.addTo s.contents

/-- `append` copies inside the array when the text fits, and nothing otherwise. -/
theorem Inv.append (h : Inv s) {data : List UInt8} {len : Nat} (hp : (Piece.text data len).Valid) :
    Adds s (.text data len) (s.append data len) := by
  have hcur := h.cur_lt
  have hlen := h.length_eq
  have havail : intToSize s.avail = kSmallBuffer - s.cur_ := by
    rw [h.avail_eq, intToSize_eq (by rw [sizeModulus, kSmallBuffer]; omega)]
  have hused := h.length_contents
  rw [Adds, LogStream.append, havail]
  by_cases hfit : len < kSmallBuffer - s.cur_
  · have hdata : len ≤ data.length := hp (by omega)
    have htake : (data.take len).length = len := by
      rw [List.length_take]
      omega
    rw [Piece.addTo_pos (by rw [hused]; exact hfit), if_pos hfit, memcpy,
      assertThat_pos ⟨hdata, by omega⟩]
    refine Ends.ok (h.written (a := data.take len) (b := []) ?_ ?_ ?_)
    · rw [List.append_nil, htake]
      omega
    · rw [htake]
      omega
    · rw [List.append_nil, htake]
  · rw [Piece.addTo_neg (by rw [hused]; exact hfit), if_neg hfit]
    exact Ends.ok ⟨h, rfl⟩

/-- The operators for numbers: the test, and a write of the text and the terminating byte. -/
theorem Inv.number (h : Inv s) {text : List UInt8} (hp : (Piece.number text).Valid)
    {x : Except Fault LogStream}
    (hx : x = if kMaxNumericSize ≤ s.avail
      then .ok ⟨overwrite s.data_ s.cur_ (text ++ [0]), s.cur_ + text.length⟩ else .ok s) :
    Adds s (.number text) x := by
  have hcur := h.cur_lt
  have hshort : (text.length : Int) < kMaxNumericSize := hp
  have hfits : (Piece.number text).Fits (kSmallBuffer - s.contents.length)
      ↔ kMaxNumericSize ≤ s.avail := by
    rw [h.length_contents, h.avail_eq]
    rfl
  rw [Adds, hx]
  by_cases hfit : kMaxNumericSize ≤ s.avail
  · rw [Piece.addTo_pos (hfits.mpr hfit), if_pos hfit]
    rw [h.avail_eq] at hfit
    refine Ends.ok (h.written (a := text) (b := [0]) ?_ (by omega) rfl)
    rw [List.length_append, List.length_singleton]
    omega
  · rw [Piece.addTo_neg (fun hpass => hfit (hfits.mp hpass)), if_neg hfit]
    exact Ends.ok ⟨h, rfl⟩

/-- Where a number passes its test there is room for 31 bytes and the terminating one. -/
theorem Inv.room (h : Inv s) (hfit : kMaxNumericSize ≤ s.avail) : s.cur_ + 32 ≤ s.data_.length := by
  have hcur := h.cur_lt
  rw [h.avail_eq, kMaxNumericSize] at hfit
  rw [h.length_eq]
  omega

/-- The text of an integer of at most 64 bits is shorter than `kMaxNumericSize`. -/
theorem valid_decimal {T : IntType} (hbits : T.bits ≤ 64) {v : Int} (hv : T.Contains v) :
    (Piece.number (decimalText v)).Valid := by
  have hlen := hv.length_decimalText_le hbits
  show ((decimalText v).length : Int) < 32
  omega

/-- The characters are written in place, which needs the room that is tested before. -/
theorem Inv.formatInteger (h : Inv s) {T : IntType} (hbits : T.bits ≤ 64) {v : Int}
    (hv : T.Contains v) : Adds s (.number (decimalText v)) (formatInteger T s v) := by
  refine h.number (valid_decimal hbits hv) ?_
  rw [LogStream.formatInteger]
  split
  · rename_i hfit
    have hroom := h.room hfit
    have hlen := hv.length_decimalText_le hbits
    rw [convert_eq hv (by omega)]
    rfl
  · rfl

theorem contains_toInt {w : Nat} (v : BitVec w) : (IntType.mk w true).Contains v.toInt := by
  show -2 ^ (w - 1) ≤ v.toInt ∧ v.toInt < 2 ^ (w - 1)
  exact ⟨BitVec.le_toInt v, BitVec.toInt_lt⟩

theorem contains_toNat {w : Nat} (v : BitVec w) : (IntType.mk w false).Contains v.toNat := by
  have hlt : (v.toNat : Int) < ((2 ^ w : Nat) : Int) := Int.ofNat_lt.mpr v.isLt
  show 0 ≤ (v.toNat : Int) ∧ (v.toNat : Int) < 2 ^ w
  exact ⟨Int.natCast_nonneg _, by rwa [Nat.cast_pow] at hlt⟩

/-- A pointer is `0x` and at most 16 digits. -/
theorem Inv.insertPointer (h : Inv s) (p : BitVec 64) :
    Adds s (.number (ascii ['0', 'x'] ++ hex.text p.toNat)) (s.insertPointer p) := by
  have hlen := length_hex_text_le p
  have htwoBytes : (ascii ['0', 'x']).length = 2 := rfl
  refine h.number (show ((ascii ['0', 'x'] ++ hex.text p.toNat).length : Int) < 32 by
    rw [List.length_append, htwoBytes]; omega) ?_
  rw [LogStream.insertPointer]
  split
  · rename_i hfit
    have hroom := h.room hfit
    have hone : (overwrite s.data_ s.cur_ [48]).length = s.data_.length :=
      length_overwrite (by rw [List.length_singleton]; omega)
    have htwo : (overwrite s.data_ s.cur_ [48, 120]).length = s.data_.length :=
      length_overwrite (by rw [show ([48, 120] : List UInt8).length = 2 from rfl]; omega)
    -- "0", "x" and the digits are three writes, each where the last one ended.
    have hx : overwrite (overwrite s.data_ s.cur_ [48]) (s.cur_ + 1) [120]
        = overwrite s.data_ s.cur_ [48, 120] :=
      overwrite_append (a := [48]) (by rw [List.length_singleton]; omega)
    rw [store_eq (by omega), ok_bind, store_eq (by omega), ok_bind, hx, convertHex_eq (by omega),
      ok_bind]
    have hall : overwrite (overwrite s.data_ s.cur_ [48, 120]) (s.cur_ + 2)
          (hex.text p.toNat ++ [0])
        = overwrite s.data_ s.cur_ ([48, 120] ++ (hex.text p.toNat ++ [0])) :=
      overwrite_append (a := [48, 120])
        (by rw [show ([48, 120] : List UInt8).length = 2 from rfl]; omega)
    dsimp only
    rw [hall, except_pure, List.length_append, htwoBytes, Nat.add_comm 2, ← List.append_assoc]
    rfl
  · rfl

/-- What `snprintf` writes of a double stays in the room that is tested before. -/
theorem Inv.insertDouble (h : Inv s) {text : List UInt8} (hp : (Piece.number text).Valid) :
    Adds s (.number text) (s.insertDouble text) := by
  have hshort : (text.length : Int) < 32 := hp
  have htake : text.take (kMaxNumericSize.toNat - 1) = text :=
    List.take_of_length_le (by rw [show kMaxNumericSize.toNat - 1 = 31 from rfl]; omega)
  refine h.number hp ?_
  rw [LogStream.insertDouble]
  split
  · rename_i hfit
    have hroom := h.room hfit
    dsimp only
    rw [htake, memcpy, assertThat_pos ⟨le_refl _, by
      rw [List.length_append, List.length_singleton]; omega⟩, List.take_length]
    rfl
  · rfl

/-- Every insertion adds its whole text or nothing. -/
theorem Inv.insert (h : Inv s) {i : Insertion} (hi : i.Valid) : Adds s i.piece (s.insert i) := by
  cases i with
  | bool v => exact h.append (by cases v <;> exact fun _ => le_refl 1)
  | char v => exact h.append fun _ => le_refl 1
  | cString str =>
      cases str with
      | some str => exact h.append fun _ => (List.takeWhile_sublist _).length_le
      | none => exact h.append fun _ => le_refl 6
  | string v => exact h.append fun _ => le_refl _
  | stringPiece v => exact h.append fun hlt => intToSize_le hi.1 hi.2 hlt
  | buffer v =>
      have hv : Inv v := hi
      have hcur := hv.cur_lt
      have hsize : intToSize v.length = v.cur_ := by
        rw [hv.length_eq_cur, intToSize_eq (by rw [sizeModulus]; rw [kSmallBuffer] at hcur; omega)]
      rw [LogStream.insert, LogStream.insertBuffer, LogStream.insertStringPiece, hsize]
      exact h.append fun _ => by rw [hv.length_eq]; omega
  | fmt v =>
      have hlt := v.length_lt
      rw [LogStream.insert, LogStream.insertFmt, LogStream.appendInt, intToSize_eq (by rw [sizeModulus]; omega)]
      exact h.append fun _ => le_refl _
  | append data len => exact h.append fun hlt => intToSize_le hi.1 hi.2 hlt
  | short v =>
      show Adds s (.number (decimalText v.toInt)) _
      rw [← BitVec.toInt_signExtend_of_le (v := 32) (by decide : 16 ≤ 32)]
      exact h.formatInteger (by decide) (contains_toInt _)
  | unsignedShort v =>
      have hvalue : (v.setWidth 32).toNat = v.toNat := BitVec.toNat_setWidth_of_le (by decide)
      show Adds s (.number (decimalText v.toNat)) _
      rw [← hvalue]
      exact h.formatInteger (by decide) (contains_toNat _)
  | int v => exact h.formatInteger (by decide) (contains_toInt v)
  | unsignedInt v => exact h.formatInteger (by decide) (contains_toNat v)
  | long v => exact h.formatInteger (by decide) (contains_toInt v)
  | unsignedLong v => exact h.formatInteger (by decide) (contains_toNat v)
  | longLong v => exact h.formatInteger (by decide) (contains_toInt v)
  | unsignedLongLong v => exact h.formatInteger (by decide) (contains_toNat v)
  | pointer p => exact h.insertPointer p
  | double text => exact h.insertDouble hi

/-- Every call on a stream returns and keeps the invariant. -/
theorem Inv.call (h : Inv s) {e : Event} (he : e.Valid) : Returns (s.call e) Inv := by
  cases e with
  | insert i => exact (h.insert he).imp fun _ ht => ht.1
  | resetBuffer => exact h.resetBuffer

/-- So does a sequence of calls. -/
theorem Inv.calls (h : Inv s) {events : List Event} (hevents : ∀ e ∈ events, e.Valid) :
    Returns (s.calls events) Inv :=
  Ends.foldlM (fun _ e he ht => ht.call (hevents e he)) h

/-! ### A sequence of calls -/

/-- The texts of the insertions. -/
def texts (is : List Insertion) : List UInt8 := (is.map fun i => i.piece.bytes).flatten

/-- The insertions that are in the buffer after a further call. -/
def keep (is : List Insertion) : Event → List Insertion
  | .insert i => if i.piece.Fits (kSmallBuffer - (texts is).length) then is ++ [i] else is
  | .resetBuffer => []

/-- The insertions since the last reset that passed their space test. -/
def kept (events : List Event) : List Insertion := events.foldl keep []

theorem texts_snoc (is : List Insertion) (i : Insertion) :
    texts (is ++ [i]) = texts is ++ i.piece.bytes := by
  rw [texts, List.map_append, List.flatten_append, List.map_singleton, List.flatten_singleton]
  rfl

/-- One call keeps the correspondence. -/
theorem call_returns {is : List Insertion} {e : Event} (h : Inv s) (hs : s.contents = texts is)
    (he : e.Valid) : Returns (s.call e) fun t => Inv t ∧ t.contents = texts (keep is e) := by
  cases e with
  | insert i =>
      refine (h.insert he).imp ?_
      intro t ht
      refine ⟨ht.1, ?_⟩
      rw [ht.2, hs, Piece.addTo, keep]
      split
      · rw [texts_snoc]
      · rfl
  | resetBuffer => exact ⟨h.resetBuffer, List.take_zero⟩

/-- A sequence of calls returns, and leaves the texts of the insertions that it kept. -/
theorem calls_returns {events : List Event} (hevents : ∀ e ∈ events, e.Valid) :
    ∀ {s : LogStream} {is : List Insertion}, Inv s → s.contents = texts is →
      Returns (s.calls events) fun t => Inv t ∧ t.contents = texts (events.foldl keep is) := by
  induction events with
  | nil =>
      intro s is h hs
      exact ⟨h, hs⟩
  | cons e events ih =>
      intro s is h hs
      rw [calls, List.foldlM_cons]
      refine Ends.bind (call_returns h hs (hevents e List.mem_cons_self)) ?_
      intro t ht
      exact ih (fun e' he' => hevents e' (List.mem_cons_of_mem e he')) ht.1 ht.2

/-- Insertions are all or nothing and never overflow. After every sequence of calls on a new
stream at least one byte is free, no write has left the array, and the bytes in use are the
complete texts of the insertions since the last reset that passed their space test. -/
theorem insertions_all_or_nothing (data_ : List UInt8) (hdata : data_.length = kSmallBuffer)
    (events : List Event) (hevents : ∀ e ∈ events, e.Valid) :
    ∃ s, (new data_).calls events = .ok s ∧ 1 ≤ s.avail ∧ s.data_.length = kSmallBuffer ∧
      s.contents = texts (kept events) := by
  have hempty : (new data_).contents = texts [] := List.take_zero
  have hcalls := calls_returns hevents (inv_new hdata) hempty
  obtain ⟨s, hs, hinv, hcontents⟩ := Ends.exists_ok hcalls
  have hcur := hinv.cur_lt
  refine ⟨s, hs, ?_, hinv.length_eq, hcontents⟩
  rw [hinv.avail_eq]
  omega

/-- A number, a null pointer, a reset, a `Fmt` and a pointer. -/
theorem insertions_all_or_nothing_five :
    ∃ f s, Fmt.ctor (ascii ['4', '2']) = .ok f ∧
      (new (List.replicate kSmallBuffer 0)).calls [.insert (.short (-7)), .insert (.cString none),
        .resetBuffer, .insert (.fmt f), .insert (.pointer 255)] = .ok s ∧
      1 ≤ s.avail ∧ s.contents = ascii ['4', '2', '0', 'x', 'F', 'F'] := by
  obtain ⟨s, hs, havail, _, hcontents⟩ := insertions_all_or_nothing (List.replicate kSmallBuffer 0)
    List.length_replicate [.insert (.short (-7)), .insert (.cString none), .resetBuffer,
      .insert (.fmt ⟨ascii ['4', '2'], by decide⟩), .insert (.pointer 255)]
    (by simp [Event.Valid, Insertion.Valid])
  exact ⟨_, s, rfl, hs, havail, hcontents.trans (by decide)⟩

end Muduo.Base.LogStream
