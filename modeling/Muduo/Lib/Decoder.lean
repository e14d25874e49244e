import Mathlib.Data.List.Basic
import Muduo.Lib.Outcome

/-!
# `Muduo.Lib.Decoder`: decoders of a stream that arrives in pieces

A `Decoder` looks at the elements it has and makes one move: it asks for
more, it consumes some of them and goes on, or it halts with a verdict.
Its fields say that a move looks at a prefix only, so that elements which
arrive later do not change it. `decode` makes moves until one asks for
more or halts.

* `decode_append`: decoding a stream in two pieces is decoding it at
  once. The second piece goes to `feed`, which puts it behind the
  undecoded rest and, when no verdict is there yet, decodes again.
* `decode_again`: a decoder whose verdicts consume nothing gives the same
  verdict when it is asked again, so a caller that does not look at the
  verdict and decodes after every piece gets to the same place.

The second half is about code. `loop` is a `while` loop whose body can
fault, with fuel, and it has two rules.

* `loop_ends`: a loop whose rounds make a measure smaller ends within the
  number of rounds that the measure allows.
* `loop_decodes`: a body that makes the decoder's moves computes `decode`,
  and it never runs out of fuel when there is more of it than there are
  elements.
-/

set_option autoImplicit false

namespace Muduo.Lib

variable {α Q V : Type}

/-- What a decoder does with the elements it has. -/
inductive Move (Q V : Type) where
  | need
  | take (n : Nat) (q : Q)
  | halt (n : Nat) (q : Q) (v : V)

/-- A decoder with states `Q` and verdicts `V`. -/
structure Decoder (α Q V : Type) where
  next : Q → List α → Move Q V
  next_nil : ∀ q, next q [] = .need
  take_bounds : ∀ {q xs n r}, next q xs = .take n r → 0 < n ∧ n ≤ xs.length
  halt_bound : ∀ {q xs n r v}, next q xs = .halt n r v → n ≤ xs.length
  take_append : ∀ {q xs n r}, next q xs = .take n r → ∀ ys, next q (xs ++ ys) = .take n r
  halt_append : ∀ {q xs n r v}, next q xs = .halt n r v → ∀ ys, next q (xs ++ ys) = .halt n r v

/-- Where decoding has come to: the state, the elements not consumed and
the verdict, if there is one. -/
structure Parsed (α Q V : Type) where
  state : Q
  rest : List α
  verdict : Option V
  deriving DecidableEq

namespace Decoder

variable (D : Decoder α Q V)

/-- Moves until the decoder asks for more or halts. -/
def decode (q : Q) (xs : List α) : Parsed α Q V :=
  match _h : D.next q xs with
  | .need => ⟨q, xs, none⟩
  | .take n r => decode r (xs.drop n)
  | .halt n r v => ⟨r, xs.drop n, some v⟩
termination_by xs.length
decreasing_by
  have hn := D.take_bounds _h
  rw [List.length_drop]
  omega

/-- More elements for a decoder that may have halted. -/
def feed (p : Parsed α Q V) (ys : List α) : Parsed α Q V :=
  match p.verdict with
  | some _ => { p with rest := p.rest ++ ys }
  | none => D.decode p.state (p.rest ++ ys)

variable {D} {q r : Q} {xs : List α} {n : Nat} {v : V}

/-- Nothing complete is there: decoding stops and keeps what it has. -/
theorem decode_need (h : D.next q xs = .need) : D.decode q xs = ⟨q, xs, none⟩ := by
  rw [decode]
  split <;> simp_all

/-- A complete item is taken, and decoding goes on behind it. -/
theorem decode_take (h : D.next q xs = .take n r) :
    D.decode q xs = D.decode r (xs.drop n) := by
  rw [decode]
  split <;> simp_all

/-- A verdict ends the decoding. -/
theorem decode_halt (h : D.next q xs = .halt n r v) :
    D.decode q xs = ⟨r, xs.drop n, some v⟩ := by
  rw [decode]
  split <;> simp_all

theorem decode_nil (q : Q) : D.decode q [] = ⟨q, [], none⟩ := decode_need (D.next_nil q)

/-- The induction rule: `P` holds where decoding stops, and holds before
a move that consumes when it holds after it. -/
theorem decode_induct {P : Q → List α → Parsed α Q V → Prop}
    (need : ∀ q xs, D.next q xs = .need → P q xs ⟨q, xs, none⟩)
    (take : ∀ q xs n r, D.next q xs = .take n r →
      P r (xs.drop n) (D.decode r (xs.drop n)) → P q xs (D.decode r (xs.drop n)))
    (halt : ∀ q xs n r v, D.next q xs = .halt n r v → P q xs ⟨r, xs.drop n, some v⟩)
    (q : Q) (xs : List α) : P q xs (D.decode q xs) := by
  -- Induction on the number of elements left, which every `take` makes smaller.
  induction hk : xs.length using Nat.strongRecOn generalizing q xs with
  | ind k ih =>
      cases h : D.next q xs with
      | need => exact decode_need h ▸ need q xs h
      | take n r =>
          have hn := D.take_bounds h
          have hlt : (xs.drop n).length < k := by
            rw [List.length_drop]
            omega
          exact decode_take h ▸ take q xs n r h (ih _ hlt r _ rfl)
      | halt n r v => exact decode_halt h ▸ halt q xs n r v h

/-- What is not consumed is the end of the elements. -/
theorem decode_rest_suffix (q : Q) (xs : List α) : (D.decode q xs).rest <:+ xs := by
  refine decode_induct (P := fun _ xs p => p.rest <:+ xs) ?_ ?_ ?_ q xs
  · intro q xs _
    exact List.suffix_refl xs
  · intro q xs n r _ ih
    exact ih.trans (List.drop_suffix n xs)
  · intro q xs n r v _
    exact List.drop_suffix n xs

/-! ### Pieces -/

/-- Without a verdict, more input continues where decoding stopped. -/
theorem feed_none {p : Parsed α Q V} (h : p.verdict = none) (ys : List α) :
    D.feed p ys = D.decode p.state (p.rest ++ ys) := by
  rw [feed, h]

/-- Behind a verdict input is only collected. -/
theorem feed_some {p : Parsed α Q V} (h : p.verdict = some v) (ys : List α) :
    D.feed p ys = { p with rest := p.rest ++ ys } := by
  rw [feed, h]

/-- A stream in two pieces is decoded as at once. -/
theorem decode_append (q : Q) (xs ys : List α) :
    D.decode q (xs ++ ys) = D.feed (D.decode q xs) ys := by
  refine decode_induct (P := fun q xs p => D.decode q (xs ++ ys) = D.feed p ys) ?_ ?_ ?_ q xs
  · intro q xs _
    rfl
  · intro q xs n r h ih
    rw [decode_take (D.take_append h ys), List.drop_append_of_le_length (D.take_bounds h).2]
    exact ih
  · intro q xs n r v h
    rw [decode_halt (D.halt_append h ys), List.drop_append_of_le_length (D.halt_bound h)]
    rfl

/-- Without a verdict on the whole there is none on a first piece. -/
theorem verdict_of_append {xs ys : List α} (h : (D.decode q (xs ++ ys)).verdict = none) :
    (D.decode q xs).verdict = none := by
  rw [decode_append] at h
  cases hv : (D.decode q xs).verdict with
  | none => rfl
  | some v =>
      rw [feed_some hv] at h
      exact hv.symm.trans h

/-- What stands at the place where a verdict was given, when verdicts
consume nothing. -/
theorem next_of_verdict (hsticky : ∀ q xs n r v, D.next q xs = .halt n r v → n = 0 ∧ r = q) (q : Q)
    (xs : List α) : ∀ v, (D.decode q xs).verdict = some v →
      D.next (D.decode q xs).state (D.decode q xs).rest = .halt 0 (D.decode q xs).state v := by
  refine decode_induct
    (P := fun _ _ p => ∀ v, p.verdict = some v → D.next p.state p.rest = .halt 0 p.state v)
    ?_ ?_ ?_ q xs
  · intro q xs _ v hv
    cases hv
  · intro q xs n r _ ih
    exact ih
  · intro q xs n r v h w hw
    obtain ⟨rfl, rfl⟩ := hsticky q xs n r v h
    cases hw
    exact h

/-- When verdicts consume nothing, to decode again is to keep the verdict. -/
theorem decode_again (hsticky : ∀ q xs n r v, D.next q xs = .halt n r v → n = 0 ∧ r = q) (q : Q)
    (xs ys : List α) :
    D.decode (D.decode q xs).state ((D.decode q xs).rest ++ ys) = D.feed (D.decode q xs) ys := by
  cases hv : (D.decode q xs).verdict with
  | none => exact (feed_none hv ys).symm
  | some v =>
      have hnext := next_of_verdict hsticky q xs v hv
      rw [feed_some hv, decode_halt (D.halt_append hnext ys), List.drop_zero, hv]

end Decoder

/-! ### Loops -/

/-- How one round of a loop ends: with another round or with a result. -/
inductive Next (σ ρ : Type) where
  | again (s : σ)
  | stop (r : ρ)

variable {φ σ ρ : Type}

/-- The state of the next round has `A`, or the result has `R`. -/
def Next.Holds (A : σ → Prop) (R : ρ → Prop) : Next σ ρ → Prop
  | .again s => A s
  | .stop r => R r

/-- A loop of at most `fuel` rounds. `limit` is the fault of a loop that
has made them all. -/
def loop (body : σ → Except φ (Next σ ρ)) (limit : φ) : Nat → σ → Except φ ρ
  | 0, _ => .error limit
  | fuel + 1, s => do
      match ← body s with
      | .again s' => loop body limit fuel s'
      | .stop r => return r

/-- One round of a loop that goes on. -/
theorem loop_again {body : σ → Except φ (Next σ ρ)} {limit : φ} {s s' : σ} (fuel : Nat)
    (h : body s = .ok (.again s')) :
    loop body limit (fuel + 1) s = loop body limit fuel s' := by
  rw [loop, h]
  rfl

/-- The last round. -/
theorem loop_stop {body : σ → Except φ (Next σ ρ)} {limit : φ} {s : σ} {r : ρ} (fuel : Nat)
    (h : body s = .ok (.stop r)) : loop body limit (fuel + 1) s = .ok r := by
  rw [loop, h]
  rfl

/-- A round that faults ends the loop with its fault. -/
theorem loop_error {body : σ → Except φ (Next σ ρ)} {limit f : φ} {s : σ} (fuel : Nat)
    (h : body s = .error f) : loop body limit (fuel + 1) s = .error f := by
  rw [loop, h]
  rfl

/-- The rule for a loop that makes progress: `I` is its invariant, and every
further round makes `μ` smaller. It ends like one of its rounds. -/
theorem loop_ends {body : σ → Except φ (Next σ ρ)} {limit : φ} {I : σ → Prop} {μ : σ → Nat}
    {E : φ → Prop} {Q : ρ → Prop}
    (hbody : ∀ s, I s → Ends (body s) E (Next.Holds (fun s' => I s' ∧ μ s' < μ s) Q)) :
    ∀ (fuel : Nat) (s : σ), I s → μ s < fuel → Ends (loop body limit fuel s) E Q := by
  intro fuel
  induction fuel with
  | zero =>
      intro s _ hlt
      omega
  | succ fuel ih =>
      intro s hs hlt
      rw [loop]
      refine (hbody s hs).bind ?_
      intro next hnext
      cases next with
      | again s' =>
          have hless := hnext.2
          exact ih s' hnext.1 (by omega)
      | stop r => exact hnext

/-- `body` makes the moves of `D`: `A` relates its states to those of the
decoder, and `R` its results. -/
structure Makes (D : Decoder α Q V) (A : σ → Q → List α → Prop) (R : ρ → Parsed α Q V → Prop)
    (body : σ → Except φ (Next σ ρ)) : Prop where
  need : ∀ {s q xs}, A s q xs → D.next q xs = .need →
    ∃ r, body s = .ok (.stop r) ∧ R r ⟨q, xs, none⟩
  take : ∀ {s q xs n q'}, A s q xs → D.next q xs = .take n q' →
    ∃ s', body s = .ok (.again s') ∧ A s' q' (xs.drop n)
  halt : ∀ {s q xs n q' v}, A s q xs → D.next q xs = .halt n q' v →
    ∃ r, body s = .ok (.stop r) ∧ R r ⟨q', xs.drop n, some v⟩

/-- The rule for a loop that decodes. -/
theorem loop_decodes {D : Decoder α Q V} {A : σ → Q → List α → Prop} {R : ρ → Parsed α Q V → Prop}
    {body : σ → Except φ (Next σ ρ)} {limit : φ} (hbody : Makes D A R body) :
    ∀ (fuel : Nat) (s : σ) (q : Q) (xs : List α), A s q xs → xs.length < fuel →
      ∃ r, loop body limit fuel s = .ok r ∧ R r (D.decode q xs) := by
  intro fuel
  induction fuel with
  | zero =>
      intro s q xs _ hlt
      omega
  | succ fuel ih =>
      intro s q xs hA hlt
      cases h : D.next q xs with
      | need =>
          obtain ⟨r, hr, hR⟩ := hbody.need hA h
          exact ⟨r, loop_stop fuel hr, Decoder.decode_need h ▸ hR⟩
      | take n q' =>
          have hn := D.take_bounds h
          obtain ⟨s', hs', hA'⟩ := hbody.take hA h
          have hlt' : (xs.drop n).length < fuel := by
            rw [List.length_drop]
            omega
          rw [loop_again fuel hs', Decoder.decode_take h]
          exact ih s' q' (xs.drop n) hA' hlt'
      | halt n q' v =>
          obtain ⟨r, hr, hR⟩ := hbody.halt hA h
          exact ⟨r, loop_stop fuel hr, Decoder.decode_halt h ▸ hR⟩

end Muduo.Lib
