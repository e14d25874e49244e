import Muduo.Lib.Transition

/-!
# `Muduo.Lib.Outcome`: postconditions for code that can fault

`Ends x E Q` says how the computation `x` ends: it returns a value with
`Q`, or it stops with a fault in `E`. It is a postcondition for total
code. `Returns x Q` is `Ends x E Q` with an empty `E`: there is no fault.

The rules follow the shape of the code: one for a returned value, for a
sequence, for an `assert`, for a renamed fault and for a fold over a list.
The fold rules are the loop rules, with an invariant.
-/

set_option autoImplicit false

namespace Muduo.Lib

variable {φ ψ α β : Type}

/-- `x` returns a value with `Q` or stops with a fault in `E`. -/
def Ends (x : Except φ α) (E : φ → Prop) (Q : α → Prop) : Prop :=
  match x with
  | .ok a => Q a
  | .error e => E e

/-- `x` returns a value with `Q`. -/
abbrev Returns (x : Except φ α) (Q : α → Prop) : Prop := Ends x (fun _ => False) Q

namespace Ends

variable {x : Except φ α} {E E' : φ → Prop} {Q Q' : α → Prop}

theorem ok {a : α} (h : Q a) : Ends (.ok a : Except φ α) E Q := h

theorem error {e : φ} (h : E e) : Ends (.error e : Except φ α) E Q := h

/-- The postcondition of a computation that is known to return. -/
theorem of_eq_ok {a : α} (hx : x = .ok a) (h : Q a) : Ends x E Q := by
  rw [hx]
  exact h

theorem of_eq_error {e : φ} (hx : x = .error e) (h : E e) : Ends x E Q := by
  rw [hx]
  exact h

/-- What a call that returned has reached. -/
theorem post {a : α} (h : Ends x E Q) (hx : x = .ok a) : Q a := by
  rw [hx] at h
  exact h

/-- Why a call that stopped has stopped. -/
theorem fault {e : φ} (h : Ends x E Q) (hx : x = .error e) : E e := by
  rw [hx] at h
  exact h

/-- Weaker reasons to stop and a weaker result. -/
theorem mono (h : Ends x E Q) (hE : ∀ e, E e → E' e) (hQ : ∀ a, Q a → Q' a) : Ends x E' Q' := by
  cases x with
  | ok a => exact hQ a h
  | error e => exact hE e h

/-- A call that cannot stop returns. -/
theorem exists_ok (h : Returns x Q) : ∃ a, x = .ok a ∧ Q a := by
  cases x with
  | ok a => exact ⟨a, rfl, h⟩
  | error e => exact h.elim

/-- What returns meets any condition on the faults. -/
theorem of_returns (h : Returns x Q) : Ends x E Q := h.mono (fun _ hf => hf.elim) fun _ hq => hq

/-- Weaken the postcondition only. -/
theorem imp (h : Ends x E Q) (hQ : ∀ a, Q a → Q' a) : Ends x E Q' := h.mono (fun _ he => he) hQ

/-- The rule for a sequence. -/
theorem bind {f : α → Except φ β} {R : β → Prop} (h : Ends x E Q)
    (hf : ∀ a, Q a → Ends (f a) E R) : Ends (x >>= f) E R := by
  cases x with
  | ok a => exact hf a h
  | error e => exact h

/-- The rule for an `assert` that holds. -/
theorem assert {c : Prop} [Decidable c] {f : φ} {k : Unit → Except φ β} {R : β → Prop} (hc : c)
    (hk : Ends (k ()) E R) : Ends (assertThat c f >>= k) E R := by
  rw [assertThat_pos hc]
  exact hk

/-- A fault under a new name. -/
theorem mapError {g : φ → ψ} {F : ψ → Prop} (h : Ends x (fun e => F (g e)) Q) :
    Ends (x.mapError g) F Q := by
  cases x with
  | ok a => exact h
  | error e => exact h

/-- The rule for a loop over a list: `I` is its invariant. -/
theorem foldlM {f : β → α → Except φ β} {I : β → Prop} {E : φ → Prop} {l : List α}
    (hf : ∀ b a, a ∈ l → I b → Ends (f b a) E I) {b : β} (h : I b) :
    Ends (l.foldlM f b) E I := by
  induction l generalizing b with
  | nil => exact h
  | cons a l ih =>
      rw [List.foldlM_cons]
      refine Ends.bind (hf b a List.mem_cons_self h) ?_
      intro b' hb'
      exact ih (fun b₁ a₁ ha => hf b₁ a₁ (List.mem_cons_of_mem _ ha)) hb'

/-- The rule for a loop over a list whose invariant and faults speak of the
elements so far. -/
theorem foldlM_history {f : β → α → Except φ β} {I : List α → β → Prop} {E : List α → φ → Prop}
    (hf : ∀ done b a, I done b → Ends (f b a) (E (done ++ [a])) (I (done ++ [a])))
    (hE : ∀ done more e, E done e → E (done ++ more) e) (l done : List α) {b : β} (h : I done b) :
    Ends (l.foldlM f b) (E (done ++ l)) (I (done ++ l)) := by
  induction l generalizing done b with
  | nil =>
      rw [List.append_nil]
      exact h
  | cons a l ih =>
      have hsplit : done ++ a :: l = done ++ [a] ++ l := List.append_cons done a l
      rw [List.foldlM_cons, hsplit]
      have hfirst := (hf done b a h).mono (fun e he => hE (done ++ [a]) l e he) (fun _ hb => hb)
      exact hfirst.bind fun b' hb' => ih (done ++ [a]) hb'

end Ends

/-- A loop over a list faults at one of its elements. -/
theorem foldlM_eq_error {f : β → α → Except φ β} {l : List α} {b : β} {e : φ} :
    l.foldlM f b = .error e ↔
      ∃ before a after b', l = before ++ a :: after ∧ before.foldlM f b = .ok b' ∧
        f b' a = .error e := by
  induction l generalizing b with
  | nil =>
      constructor
      · intro h
        cases h
      · intro h
        obtain ⟨before, a, after, b', hl, _⟩ := h
        cases before with
        | nil => cases hl
        | cons a' before => cases hl
  | cons x l ih =>
      rw [List.foldlM_cons]
      constructor
      · intro h
        cases hx : f b x with
        | error e' =>
            rw [hx, error_bind] at h
            exact ⟨[], x, l, b, rfl, rfl, hx.trans h⟩
        | ok b₁ =>
            rw [hx, ok_bind] at h
            obtain ⟨before, a, after, b', hl, hbefore, ha⟩ := ih.mp h
            refine ⟨x :: before, a, after, b', by rw [hl, List.cons_append], ?_, ha⟩
            rw [List.foldlM_cons, hx, ok_bind, hbefore]
      · intro h
        obtain ⟨before, a, after, b', hl, hbefore, ha⟩ := h
        cases before with
        | nil =>
            cases hl
            cases hbefore
            rw [ha, error_bind]
        | cons x' before =>
            cases hl
            rw [List.foldlM_cons] at hbefore
            obtain ⟨b₁, hx, hbefore⟩ := except_bind_eq_ok.mp hbefore
            rw [hx, ok_bind]
            exact ih.mpr ⟨before, a, after, b', rfl, hbefore, ha⟩

end Muduo.Lib
