import Muduo.Proofs.Buffer
import Mathlib.Algebra.GroupWithZero.Nat

/-!
# `Muduo.Proofs.BufferDeque`: a buffer is a byte deque

The abstract model of a `Buffer` is its readable bytes alone. `Deque.call`
says what each operation does to that sequence: `append` and `hasWritten`
add at the back, `prepend` at the front, `retrieve` and its variants drop
from the front, `unwrite` drops from the back, and `ensureWritableBytes`
changes nothing.

The concrete machine is a family of buffers, one per index, because
`swap` acts on two of them. An event is a call on one buffer within the
`assert` at its head (`Op.pre`), or a `swap`. A call also returns a
string, empty where the source returns `void`, and the machine keeps the
returned strings in order.

`buffer_refines_deque` relates the two over every run: the index
invariant holds, the readable bytes and the returned strings are those of
the deques, and no `assert` of the next call fails. The sizes of the
calls are counted by `Op.size`, and their sum with the initial size stays
below `2 ^ 64`, so no `size_t` sum wraps.
-/

set_option autoImplicit false

namespace Muduo.Net.Buffer

open Muduo.Base
open Muduo.Lib

/-- A call on one buffer. The pointer of `retrieveUntil` is given as its
distance from `peek()`. `hasWritten` comes with the bytes its caller
wrote at `beginWrite()`. -/
inductive Op where
  | append (data : List UInt8)
  | prepend (data : List UInt8)
  | retrieve (len : Nat)
  | retrieveUntil (n : Nat)
  | retrieveAll
  | retrieveAsString (len : Nat)
  | ensureWritableBytes (len : Nat)
  | hasWritten (data : List UInt8)
  | unwrite (len : Nat)
  deriving DecidableEq, Repr

namespace Op

/-- The size argument of a call. -/
def size : Op → Nat
  | append data | prepend data | hasWritten data => data.length
  | retrieve len | retrieveUntil len | retrieveAsString len | ensureWritableBytes len
  | unwrite len => len
  | retrieveAll => 0

/-- The `assert` at the head of a call, as its caller has to meet it. -/
def pre (b : Buffer) : Op → Prop
  | append _ | retrieveAll | ensureWritableBytes _ => True
  | prepend data => data.length ≤ b.prependableBytes
  | hasWritten data => data.length ≤ b.writableBytes
  | retrieve len | retrieveUntil len | retrieveAsString len | unwrite len =>
      len ≤ b.readableBytes

instance decidablePre (b : Buffer) : (op : Op) → Decidable (op.pre b)
  | append _ | retrieveAll | ensureWritableBytes _ => inferInstanceAs (Decidable True)
  | prepend data => inferInstanceAs (Decidable (data.length ≤ b.prependableBytes))
  | hasWritten data => inferInstanceAs (Decidable (data.length ≤ b.writableBytes))
  | retrieve len | retrieveUntil len | retrieveAsString len | unwrite len =>
      inferInstanceAs (Decidable (len ≤ b.readableBytes))

/-- The call on the concrete buffer, with the string it returns. -/
def call (b : Buffer) : Op → Except Fault (Buffer × List UInt8)
  | append data => return (← b.append data, [])
  | prepend data => return (← b.prepend data, [])
  | retrieve len => return (← b.retrieve len, [])
  | retrieveUntil n => return (← b.retrieveUntil (b.peek + n), [])
  | retrieveAll => return (b.retrieveAll, [])
  | retrieveAsString len => return (← b.retrieveAsString len).swap
  | ensureWritableBytes len => return (← b.ensureWritableBytes len, [])
  | hasWritten data => return (← b.writeThenHasWritten data, [])
  | unwrite len => return (← b.unwrite len, [])

end Op

namespace Deque

/-- The call on the abstract byte sequence, with the string it returns. -/
def call (d : List UInt8) : Op → List UInt8 × List UInt8
  | .append data | .hasWritten data => (d ++ data, [])
  | .prepend data => (data ++ d, [])
  | .retrieve len | .retrieveUntil len => (d.drop len, [])
  | .retrieveAll => ([], [])
  | .retrieveAsString len => (d.drop len, d.take len)
  | .ensureWritableBytes _ => (d, [])
  | .unwrite len => (d.take (d.length - len), [])

end Deque

/-- What a call that returns has done: it kept the invariant, it did to
the readable bytes what the deque's call does, and it did not shrink the
vector. -/
structure Refines (b b' : Buffer) (op : Op) (result : List UInt8) : Prop where
  inv : Inv b'
  deque : (b'.readable, result) = Deque.call b.readable op
  size_le : b.buffer_.length ≤ b'.buffer_.length
  size_le_add : b'.buffer_.length ≤ b.buffer_.length + op.size

/-- A call that keeps the size of the vector. -/
theorem Refines.of_length {b b' : Buffer} {op : Op} {result : List UInt8} (hi : Inv b')
    (hdeque : (b'.readable, result) = Deque.call b.readable op)
    (hlen : b'.buffer_.length = b.buffer_.length) : Refines b b' op result where
  inv := hi
  deque := hdeque
  size_le := Nat.le_of_eq hlen.symm
  size_le_add := Nat.le_add_right_of_le (Nat.le_of_eq hlen)

/-- Every call within its precondition refines the deque's call, or
throws because the vector would pass `max_size()`. -/
theorem call_spec {b : Buffer} {op : Op} (h : Inv b) (hpre : op.pre b)
    (hsz : b.buffer_.length + op.size < sizeModulus) :
    (∃ b' result, op.call b = .ok (b', result) ∧ Refines b b' op result) ∨
    (op.call b = .error .lengthError ∧ maxSize < b.buffer_.length + op.size) := by
  have hw := h.writer_le
  cases op with
  | append data =>
      rcases append_spec h hsz with ⟨b', happ, hi, hread, hle, hadd⟩ | ⟨happ, hmax⟩
      · left
        refine ⟨b', [], ?_, hi, by rw [hread]; rfl, hle, hadd⟩
        simp only [Op.call, happ, ok_bind, except_pure]
      · right
        refine ⟨?_, by simp only [Op.size]; omega⟩
        simp only [Op.call, happ, error_bind]
  | prepend data =>
      obtain ⟨b', hcall, hi, hread, hlen⟩ := prepend_spec h hpre
      left
      refine ⟨b', [], ?_, .of_length hi (by rw [hread]; rfl) hlen⟩
      simp only [Op.call, hcall, ok_bind, except_pure]
  | retrieve len =>
      obtain ⟨b', hcall, hi, hread, hbuf⟩ := retrieve_spec h hpre
      have hlen := congrArg List.length hbuf
      left
      refine ⟨b', [], ?_, .of_length hi (by rw [hread]; rfl) hlen⟩
      simp only [Op.call, hcall, ok_bind, except_pure]
  | retrieveUntil n =>
      obtain ⟨b', hcall, hi, hread, hbuf⟩ := retrieveUntil_spec h hpre
      have hlen := congrArg List.length hbuf
      left
      refine ⟨b', [], ?_, .of_length hi (by rw [hread]; rfl) hlen⟩
      simp only [Op.call, hcall, ok_bind, except_pure]
  | retrieveAll =>
      obtain ⟨hi, hread⟩ := retrieveAll_spec h
      left
      exact ⟨b.retrieveAll, [], rfl, .of_length hi (by rw [hread]; rfl) rfl⟩
  | retrieveAsString len =>
      obtain ⟨b', hcall, hi, hread, hbuf⟩ := retrieveAsString_spec h hpre
      have hlen := congrArg List.length hbuf
      left
      refine ⟨b', b.readable.take len, ?_, .of_length hi (by rw [hread]; rfl) hlen⟩
      simp only [Op.call, hcall, ok_bind, except_pure, Prod.swap_prod_mk]
  | ensureWritableBytes len =>
      rcases @ensureWritableBytes_spec b len h hsz with ⟨b', hens, hroom⟩ | ⟨hens, hmax⟩
      · left
        refine ⟨b', [], ?_, hroom.inv, by rw [hroom.readable_eq]; rfl, hroom.size_le,
          hroom.size_le_add⟩
        simp only [Op.call, hens, ok_bind, except_pure]
      · right
        refine ⟨?_, by simp only [Op.size]; omega⟩
        simp only [Op.call, hens, error_bind]
  | hasWritten data =>
      obtain ⟨b', hcall, hi, hread, hlen⟩ := writeThenHasWritten_spec h hpre
      left
      refine ⟨b', [], ?_, .of_length hi (by rw [hread]; rfl) hlen⟩
      simp only [Op.call, hcall, ok_bind, except_pure]
  | unwrite len =>
      obtain ⟨b', hcall, hi, hread, hbuf⟩ := unwrite_spec h hpre
      have hlen := congrArg List.length hbuf
      left
      refine ⟨b', [], ?_, .of_length hi (by rw [hread]; rfl) hlen⟩
      simp only [Op.call, hcall, ok_bind, except_pure]

/-! ### Families of buffers -/

section Family

variable {ι : Type} [DecidableEq ι]

/-- A call on the buffer `i`, or `swap` of the buffers `i` and `j`. -/
inductive Event (ι : Type) where
  | call (i : ι) (op : Op)
  | swap (i j : ι)

/-- The size argument of an event. -/
def Event.size : Event ι → Nat
  | .call _ op => op.size
  | .swap _ _ => 0

/-- The sum of the size arguments of a list of events. -/
def totalSize (es : List (Event ι)) : Nat := (es.map Event.size).sum

/-- One value per index and the strings returned so far. The concrete
machine keeps a `Buffer` per index, the abstract one a byte sequence. -/
structure Family (ι β : Type) where
  at_ : ι → β
  returned : List (List UInt8)

/-- The values at `i` and `j` exchanged. -/
def exchange {β : Type} (f : ι → β) (i j : ι) : ι → β :=
  Function.update (Function.update f i (f j)) j (f i)

/-- The concrete machine. -/
def family (ι : Type) [DecidableEq ι] : Machine (Family ι Buffer) (Event ι) Fault where
  enabled s
    | .call i op => op.pre (s.at_ i)
    | .swap _ _ => True
  step s
    | .call i op => do
        let (b, result) ← op.call (s.at_ i)
        return ⟨Function.update s.at_ i b, s.returned ++ [result]⟩
    | .swap i j => return ⟨exchange s.at_ i j, s.returned⟩

namespace Deque

/-- The abstract step. -/
def step (d : Family ι (List UInt8)) : Event ι → Family ι (List UInt8)
  | .call i op =>
      ⟨Function.update d.at_ i (call (d.at_ i) op).1, d.returned ++ [(call (d.at_ i) op).2]⟩
  | .swap i j => ⟨exchange d.at_ i j, d.returned⟩

/-- The abstract run from empty deques. -/
def run (es : List (Event ι)) : Family ι (List UInt8) :=
  es.foldl step ⟨fun _ => [], []⟩

theorem run_snoc (es : List (Event ι)) (e : Event ι) : run (es ++ [e]) = step (run es) e := by
  rw [run, List.foldl_append]
  rfl

end Deque

/-- A concrete family and the abstract one it stands for. Every vector
can still grow by `spare` bytes and stay below `limit`. -/
structure Simulates (limit : Nat) (s : Family ι Buffer) (d : Family ι (List UInt8))
    (spare : Nat) : Prop where
  inv : ∀ i, Inv (s.at_ i)
  readable_eq : ∀ i, (s.at_ i).readable = d.at_ i
  returned_eq : s.returned = d.returned
  spare_lt : ∀ i, (s.at_ i).buffer_.length + spare < limit

variable {limit : Nat}

/-- A call keeps `Simulates` and uses up its size. -/
theorem simulates_call {s : Family ι Buffer} {d : Family ι (List UInt8)} {i : ι} {op : Op}
    {b : Buffer} {result : List UInt8} {spare : Nat} (h : Simulates limit s d (op.size + spare))
    (hr : Refines (s.at_ i) b op result) :
    Simulates limit ⟨Function.update s.at_ i b, s.returned ++ [result]⟩
      (Deque.step d (.call i op)) spare := by
  have hdeque := hr.deque
  rw [h.readable_eq i] at hdeque
  have hread : b.readable = (Deque.call (d.at_ i) op).1 := congrArg Prod.fst hdeque
  have hres : result = (Deque.call (d.at_ i) op).2 := congrArg Prod.snd hdeque
  refine ⟨?_, ?_, ?_, ?_⟩
  · intro k
    by_cases hk : k = i
    · subst hk
      simpa using hr.inv
    · simpa [Function.update_of_ne hk] using h.inv k
  · intro k
    by_cases hk : k = i
    · subst hk
      simpa [Deque.step] using hread
    · simpa [Deque.step, Function.update_of_ne hk] using h.readable_eq k
  · simp only [Deque.step, h.returned_eq, hres]
  · intro k
    by_cases hk : k = i
    · subst hk
      have hgrow := hr.size_le_add
      have hspare := h.spare_lt k
      simp only [Function.update_self]
      omega
    · have hspare := h.spare_lt k
      simp only [Function.update_of_ne hk]
      omega

/-- What `exchange` puts at an index it also has at another one. -/
theorem exchange_eq {β : Type} (f : ι → β) (i j k : ι) :
    exchange f i j k = f (if k = j then i else if k = i then j else k) := by
  unfold exchange
  by_cases hj : k = j
  · subst hj
    simp
  · rw [Function.update_of_ne hj, if_neg hj]
    by_cases hi : k = i
    · subst hi
      simp
    · rw [Function.update_of_ne hi, if_neg hi]

/-- `swap` keeps `Simulates`. -/
theorem simulates_swap {s : Family ι Buffer} {d : Family ι (List UInt8)} {i j : ι} {spare : Nat}
    (h : Simulates limit s d spare) :
    Simulates limit ⟨exchange s.at_ i j, s.returned⟩ (Deque.step d (.swap i j)) spare := by
  refine ⟨?_, ?_, h.returned_eq, ?_⟩
  -- Every field at an index is the same field at another index.
  · intro k
    simp only [exchange_eq]
    exact h.inv _
  · intro k
    simp only [Deque.step, exchange_eq]
    exact h.readable_eq _
  · intro k
    simp only [exchange_eq]
    exact h.spare_lt _

/-- One enabled event from related families: it leads to related
families, or throws because some vector would pass `max_size()`. -/
theorem simulates_step {s : Family ι Buffer} {d : Family ι (List UInt8)} {e : Event ι}
    {spare : Nat} (hlimit : limit ≤ sizeModulus) (h : Simulates limit s d (e.size + spare))
    (hen : (family ι).enabled s e) :
    (∃ s', (family ι).step s e = .ok s' ∧ Simulates limit s' (Deque.step d e) spare) ∨
    ((family ι).step s e = .error .lengthError ∧
      ∃ i, maxSize < (s.at_ i).buffer_.length + e.size) := by
  cases e with
  | call i op =>
      have hspare := h.spare_lt i
      simp only [Event.size] at hspare h
      rcases call_spec (h.inv i) hen (by omega) with ⟨b', result, hcall, hr⟩ | ⟨hcall, hmax⟩
      · left
        refine ⟨_, ?_, simulates_call h hr⟩
        simp only [family, hcall, ok_bind, except_pure]
      · right
        refine ⟨?_, i, hmax⟩
        simp only [family, hcall, error_bind]
  | swap i j =>
      left
      simp only [Event.size, Nat.zero_add] at h
      exact ⟨_, rfl, simulates_swap h⟩

/-- Every run from freshly constructed buffers stays related to the
deques. Induction on the run, with the room for the events still to come
generalized: the last event takes its own size out of it. -/
theorem simulates_run {initialSize : ι → Nat} {bufs : ι → Buffer}
    (hctor : ∀ i, ctor (initialSize i) = .ok (bufs i)) (hlimit : limit ≤ sizeModulus)
    {es : List (Event ι)} {s : Family ι Buffer} (hrun : (family ι).Run ⟨bufs, []⟩ es s) :
    ∀ spare, (∀ i, kCheapPrepend + initialSize i + totalSize es + spare < limit) →
      Simulates limit s (Deque.run es) spare := by
  induction hrun with
  | nil =>
      intro spare hsum
      have hnew : ∀ i, Inv (bufs i) ∧ (bufs i).readable = [] ∧
          (bufs i).buffer_.length = kCheapPrepend + initialSize i := by
        intro i
        have hi := hsum i
        rcases @ctor_spec (initialSize i) (by omega)
          with ⟨b, hb, hrest⟩ | ⟨herr, -⟩
        · rw [hctor i] at hb
          cases hb
          exact hrest
        · rw [hctor i] at herr
          cases herr
      refine ⟨fun i => (hnew i).1, fun i => (hnew i).2.1, rfl, fun i => ?_⟩
      have hlen := (hnew i).2.2
      have hi := hsum i
      have hzero : totalSize ([] : List (Event ι)) = 0 := rfl
      simp only
      omega
  | @snoc es t u e _ hen hst ih =>
      intro spare hsum
      have htotal : totalSize (es ++ [e]) = totalSize es + e.size := by
        simp [totalSize]
      -- Before the event there is room for it and for all that follows.
      have hsim : Simulates limit t (Deque.run es) (e.size + spare) := by
        refine ih _ fun i => ?_
        have hi := hsum i
        omega
      rw [Deque.run_snoc]
      rcases simulates_step hlimit hsim hen with ⟨s', hs', hsim'⟩ | ⟨herr, -⟩
      · rw [hst] at hs'
        cases hs'
        exact hsim'
      · rw [hst] at herr
        cases herr

/-- When the sizes stay within `max_size()`, so does every vector with
the next size added. -/
theorem size_le_of_run {initialSize : ι → Nat} {bufs : ι → Buffer}
    (hctor : ∀ i, ctor (initialSize i) = .ok (bufs i)) {es : List (Event ι)}
    {s : Family ι Buffer} (hrun : (family ι).Run ⟨bufs, []⟩ es s) {n : Nat}
    (hsum : ∀ k, kCheapPrepend + initialSize k + (totalSize es + n) ≤ maxSize) (i : ι) :
    (s.at_ i).buffer_.length + n ≤ maxSize := by
  -- The same simulation, with `max_size()` as the limit.
  have hlimit : maxSize + 1 ≤ sizeModulus := maxSize_lt
  have hsim := simulates_run hctor hlimit hrun n fun k => by
    have hk := hsum k
    omega
  have hi := hsim.spare_lt i
  omega

/-- **A buffer refines a byte deque.** Start from freshly constructed
buffers, one per index, and take any sequence of calls, each within the
`assert` at its head, and of swaps, with all sizes summing below `2 ^ 64`.
In the state reached:

- every buffer satisfies the index invariant;
- its readable bytes, and the strings returned so far, are those of the
  abstract deques;
- the next call, on any buffer, fails no `assert` and stays inside the
  vector, which does not shrink. It returns, or `std::vector` throws
  `std::length_error`, and that only when the sizes sum above `max_size()`;
- `makeSpace`, called when the writable bytes do not hold `len`, makes
  room for `len`, keeps the readable bytes and does not shrink the vector. -/
theorem buffer_refines_deque (initialSize : ι → Nat) (bufs : ι → Buffer)
    (hctor : ∀ i, ctor (initialSize i) = .ok (bufs i)) (es : List (Event ι))
    (hsum : ∀ i, kCheapPrepend + initialSize i + totalSize es < sizeModulus)
    (s : Family ι Buffer) (hrun : (family ι).Run ⟨bufs, []⟩ es s) :
    (∀ i, kCheapPrepend ≤ (s.at_ i).buffer_.length ∧
      (s.at_ i).readerIndex_ ≤ (s.at_ i).writerIndex_ ∧
      (s.at_ i).writerIndex_ ≤ (s.at_ i).buffer_.length) ∧
    ((∀ i, (s.at_ i).readable = (Deque.run es).at_ i) ∧ s.returned = (Deque.run es).returned) ∧
    (∀ i (op : Op), op.pre (s.at_ i) →
      (∀ k, kCheapPrepend + initialSize k + (totalSize es + op.size) < sizeModulus) →
      (∃ b' result, op.call (s.at_ i) = .ok (b', result) ∧
        (s.at_ i).buffer_.length ≤ b'.buffer_.length) ∨
      (op.call (s.at_ i) = .error .lengthError ∧
        ∃ k, maxSize < kCheapPrepend + initialSize k + (totalSize es + op.size))) ∧
    (∀ i len, (s.at_ i).writableBytes < len →
      (∀ k, kCheapPrepend + initialSize k + (totalSize es + len) < sizeModulus) →
      (∃ b', (s.at_ i).makeSpace len = .ok b' ∧ b'.readable = (s.at_ i).readable ∧
        len ≤ b'.writableBytes ∧ (s.at_ i).buffer_.length ≤ b'.buffer_.length) ∨
      ((s.at_ i).makeSpace len = .error .lengthError ∧
        ∃ k, maxSize < kCheapPrepend + initialSize k + (totalSize es + len))) := by
  have hsim := simulates_run hctor (Nat.le_refl sizeModulus) hrun
  -- A throw means that some vector is asked to pass `max_size()`.
  have hthrow : ∀ i n, maxSize < (s.at_ i).buffer_.length + n →
      ∃ k, maxSize < kCheapPrepend + initialSize k + (totalSize es + n) := by
    intro i n hmax
    by_contra hnone
    have hle := size_le_of_run hctor hrun (n := n)
      (fun k => Nat.le_of_not_lt fun hk => hnone ⟨k, hk⟩) i
    omega
  have h0 := hsim 0 hsum
  refine ⟨?_, ⟨h0.readable_eq, h0.returned_eq⟩, ?_, ?_⟩
  · intro i
    exact ⟨(h0.inv i).cheap_le, (h0.inv i).reader_le, (h0.inv i).writer_le⟩
  · intro i op hpre hbudget
    have hn := hsim op.size fun k => by
      have hk := hbudget k
      omega
    rcases call_spec (h0.inv i) hpre (hn.spare_lt i) with ⟨b', result, hcall, hr⟩ | ⟨hcall, hmax⟩
    · exact Or.inl ⟨b', result, hcall, hr.size_le⟩
    · exact Or.inr ⟨hcall, hthrow i _ hmax⟩
  · intro i len hfull hbudget
    have hn := hsim len fun k => by
      have hk := hbudget k
      omega
    rcases makeSpace_spec (h0.inv i) hfull (hn.spare_lt i) with ⟨b', hcall, hr⟩ | ⟨hcall, hmax⟩
    · exact Or.inl ⟨b', hcall, hr.readable_eq, hr.room, hr.size_le⟩
    · have hw := (h0.inv i).writer_le
      exact Or.inr ⟨hcall, hthrow i len (by omega)⟩

end Family

instance (s : Family Unit Buffer) (e : Event Unit) : Decidable ((family Unit).enabled s e) :=
  match e with
  | .call i op => op.decidablePre (s.at_ i)
  | .swap _ _ => inferInstanceAs (Decidable True)

/-- Three appends to a buffer of initial size 4. For the second one the readable byte is moved to
the front, for the third one the vector grows. -/
def threeAppends : List (Event Unit) :=
  [.call () (.append [1, 2, 3, 4]), .call () (.retrieve 3), .call () (.append [5, 6, 7]),
    .call () (.append [8, 9])]

/-- After them the vector is full, so `makeSpace` makes it grow once more. -/
theorem buffer_refines_deque_spaces :
    ∃ (bufs : Unit → Buffer) (s : Family Unit Buffer),
      (∀ i, ctor 4 = .ok (bufs i)) ∧ (family Unit).Run ⟨bufs, []⟩ threeAppends s ∧
      (s.at_ ()).readable = [4, 5, 6, 7, 8, 9] ∧ (s.at_ ()).writableBytes = 0 ∧
      ∃ b', (s.at_ ()).makeSpace 3 = .ok b' ∧ b'.readable = [4, 5, 6, 7, 8, 9] ∧
        3 ≤ b'.writableBytes := by
  have heval : ((ctor 4).toOption.bind fun b =>
      ((family Unit).exec ⟨fun _ => b, []⟩ threeAppends).map fun s => (s.at_ ()).writableBytes)
        = some 0 := by
    decide +kernel
  obtain ⟨b, s, hctor, hrun, hfull⟩ := Machine.exists_run_of_eval heval
  obtain ⟨-, ⟨hbytes, -⟩, -, hspace⟩ := buffer_refines_deque (ι := Unit) (fun _ => 4) (fun _ => b)
    (fun _ => hctor) threeAppends (fun _ => by decide) s hrun
  have hread : (s.at_ ()).readable = [4, 5, 6, 7, 8, 9] := hbytes ()
  refine ⟨fun _ => b, s, fun _ => hctor, hrun, hread, hfull, ?_⟩
  obtain ⟨b', hcall, hkept, hroom, -⟩ | ⟨-, -, hmax⟩ :=
    hspace () 3 (by rw [hfull]; decide) (fun _ => by decide)
  · exact ⟨b', hcall, hkept.trans hread, hroom⟩
  · exact absurd hmax (by decide)

end Muduo.Net.Buffer
