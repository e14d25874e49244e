import Mathlib.Data.List.Basic

/-!
# `Muduo.Lib.Transition`: guarded machines with faults

A `Machine` is a step function on a state type. `enabled` says which
events the environment can produce in a state, and `step` is what the
program does with one. A step can fault: the program aborts there, and
the run has no later state.

`Run M s es t` says that `M`, started in `s`, takes the events `es` in
order without a fault and is then in `t`. The list grows at its end, so
an induction on a run is an induction on its last step.

* `Run.invariant`: what every step keeps holds after every run.
* `Run.append`: runs compose.
* `Machine.seen`: the list of what is seen along a run, with
  `Run.invariant_seen`.
* `Machine.restrict`: the machine whose steps all meet a further
  condition. A result about the runs of `M.restrict C` is a result about
  the runs of `M` in which no step breaks `C`.
* `Machine.exec`: the executable form of a run, with `Run.of_exec` and
  the `exists_run_of_…` lemmas back.

Nothing here names a program. The modules under `Muduo.Proofs`
instantiate it.
-/

set_option autoImplicit false

namespace Muduo.Lib

/-- An `assert`: nothing when `c` holds, the fault `f` otherwise. -/
def assertThat {φ : Type} (c : Prop) [Decidable c] (f : φ) : Except φ Unit :=
  if c then .ok () else .error f

@[simp] theorem assertThat_pos {φ : Type} {c : Prop} [Decidable c] {f : φ} (h : c) :
    assertThat c f = .ok () := if_pos h

@[simp] theorem assertThat_neg {φ : Type} {c : Prop} [Decidable c] {f : φ} (h : ¬ c) :
    assertThat c f = .error f := if_neg h

@[simp] theorem except_pure {φ α : Type} (a : α) : (pure a : Except φ α) = .ok a := by
  rfl

@[simp] theorem ok_bind {φ α β : Type} (a : α) (f : α → Except φ β) :
    ((Except.ok a : Except φ α) >>= f) = f a := by
  rfl

@[simp] theorem error_bind {φ α β : Type} (e : φ) (f : α → Except φ β) :
    ((Except.error e : Except φ α) >>= f) = .error e := by
  rfl

@[simp] theorem mapError_ok {φ ψ α : Type} (g : φ → ψ) (a : α) :
    (Except.ok a : Except φ α).mapError g = .ok a := by
  rfl

@[simp] theorem mapError_error {φ ψ α : Type} (g : φ → ψ) (e : φ) :
    (Except.error e : Except φ α).mapError g = .error (g e) := by
  rfl

/-- A sequence of two computations returns exactly when both do. -/
theorem except_bind_eq_ok {φ α β : Type} {x : Except φ α} {f : α → Except φ β} {b : β} :
    (x >>= f) = .ok b ↔ ∃ a, x = .ok a ∧ f a = .ok b := by
  cases x with
  | error e =>
      constructor
      · intro h
        cases h
      · rintro ⟨a, ha, -⟩
        cases ha
  | ok a =>
      constructor
      · intro h
        exact ⟨a, rfl, h⟩
      · rintro ⟨a', ha, hf⟩
        cases ha
        exact hf

theorem mapError_eq_ok {φ ψ α : Type} {x : Except φ α} {g : φ → ψ} {a : α}
    (h : x.mapError g = .ok a) : x = .ok a := by
  cases x with
  | ok a' =>
      cases h
      rfl
  | error e => cases h

/-- An `assert` that has let the program go on. -/
theorem of_assertThat {φ : Type} {c : Prop} [Decidable c] {f : φ} {u : Unit}
    (h : assertThat c f = .ok u) : c := by
  by_contra hc
  rw [assertThat_neg hc] at h
  cases h

/-- The fault a computation stops with. -/
def faultOf {φ α : Type} : Except φ α → Option φ
  | .ok _ => none
  | .error e => some e

/-- A result found by evaluation, and what comes after it. -/
theorem exists_ok_of_bind {φ α β : Type} {x : Except φ α} {f : α → Option β} {b : β}
    (h : x.toOption.bind f = some b) : ∃ a, x = .ok a ∧ f a = some b := by
  cases x with
  | error e => cases h
  | ok a => exact ⟨a, rfl, h⟩

theorem eq_error_of_faultOf {φ α : Type} {x : Except φ α} {e : φ} (h : faultOf x = some e) :
    x = .error e := by
  cases x with
  | ok a => cases h
  | error e' =>
      cases h
      rfl

/-- A machine over the states `σ`, with the events `ε` and the faults
`φ`. -/
structure Machine (σ ε φ : Type) where
  /-- The events the environment can produce in a state. -/
  enabled : σ → ε → Prop
  /-- What the program does with an event. -/
  step : σ → ε → Except φ σ

namespace Machine

variable {σ ε φ : Type}

/-- The runs of `M` from `s`: the events taken and the state reached. -/
inductive Run (M : Machine σ ε φ) (s : σ) : List ε → σ → Prop where
  | nil : Run M s [] s
  | snoc {es : List ε} {t u : σ} {e : ε} :
      Run M s es t → M.enabled t e → M.step t e = .ok u → Run M s (es ++ [e]) u

/-- The machine `M` in which every step also meets `C`. -/
def restrict (M : Machine σ ε φ) (C : σ → ε → Prop) : Machine σ ε φ where
  enabled s e := M.enabled s e ∧ C s e
  step := M.step

instance (M : Machine σ ε φ) (C : σ → ε → Prop) [∀ s e, Decidable (M.enabled s e)]
    [∀ s e, Decidable (C s e)] (s : σ) (e : ε) : Decidable ((M.restrict C).enabled s e) :=
  inferInstanceAs (Decidable (M.enabled s e ∧ C s e))

variable {M : Machine σ ε φ} {s t u : σ} {es : List ε}

/-- What every step keeps holds after every run. -/
theorem Run.invariant {I : σ → Prop} (h0 : I s)
    (hstep : ∀ t e u, I t → M.enabled t e → M.step t e = .ok u → I u)
    (h : Run M s es t) : I t := by
  induction h with
  | nil => exact h0
  | snoc _ hen hst ih => exact hstep _ _ _ ih hen hst

/-- One enabled step is a run. -/
theorem Run.single {e : ε} (hen : M.enabled s e) (hst : M.step s e = .ok t) :
    Run M s [e] t := Run.snoc Run.nil hen hst

/-- Runs compose. -/
theorem Run.append {fs : List ε} (h : Run M s es t) (h' : Run M t fs u) :
    Run M s (es ++ fs) u := by
  induction h' with
  | nil => rwa [List.append_nil]
  | snoc _ hen hst ih =>
      rw [← List.append_assoc]
      exact Run.snoc ih hen hst

/-- What is seen along the events `es` from `s`, where `out t e` is what is
seen of the event `e` in the state `t`. -/
def seen {β : Type} (M : Machine σ ε φ) (out : σ → ε → List β) : σ → List ε → List β
  | _, [] => []
  | s, e :: es =>
      out s e ++
        match M.step s e with
        | .ok t => seen M out t es
        | .error _ => []

/-- Along a run what is seen adds up. -/
theorem Run.seen_append {β : Type} (out : σ → ε → List β) (h : Run M s es t) (fs : List ε) :
    M.seen out s (es ++ fs) = M.seen out s es ++ M.seen out t fs := by
  induction h generalizing fs with
  | nil => rfl
  | snoc _ _ hst ih =>
      rw [List.append_assoc, ih, ih, List.append_assoc]
      simp only [List.singleton_append, seen, hst, List.append_nil]

/-- What every step keeps of the state and of what has been seen. -/
theorem Run.invariant_seen {β : Type} {out : σ → ε → List β} {I : List β → σ → Prop} (h0 : I [] s)
    (hstep : ∀ l t e u, I l t → M.enabled t e → M.step t e = .ok u → I (l ++ out t e) u)
    (h : Run M s es t) : I (M.seen out s es) t := by
  induction h with
  | nil => exact h0
  | snoc hrun hen hst ih =>
      have hone := hstep _ _ _ _ ih hen hst
      rw [hrun.seen_append]
      simp only [seen, hst, List.append_nil]
      exact hone

/-- A run of the restricted machine is a run of the machine. -/
theorem Run.of_restrict {C : σ → ε → Prop} (h : Run (M.restrict C) s es t) : Run M s es t := by
  induction h with
  | nil => exact Run.nil
  | snoc _ hen hst ih => exact Run.snoc ih hen.1 hst

/-- The run of `M` over a list of events, `none` where an event is not
enabled or the program faults. -/
def exec (M : Machine σ ε φ) [∀ s e, Decidable (M.enabled s e)] : σ → List ε → Option σ
  | s, [] => some s
  | s, e :: es =>
      if M.enabled s e then
        match M.step s e with
        | .ok t => exec M t es
        | .error _ => none
      else none

/-- The executable run is a run. -/
theorem Run.of_exec [∀ s e, Decidable (M.enabled s e)] :
    ∀ (es : List ε) (s t : σ), M.exec s es = some t → Run M s es t := by
  intro es
  induction es with
  | nil =>
      intro s t h
      cases h
      exact Run.nil
  | cons e es ih =>
      intro s t h
      rw [exec] at h
      split at h
      · rename_i hen
        split at h
        · rename_i v hst
          exact Run.append (Run.single hen hst) (ih v t h)
        · cases h
      · cases h

/-- A run found by evaluation: `M` takes the events `es` from `s`, and `f`
of the state reached is `v`. -/
theorem exists_run_of_exec [∀ s e, Decidable (M.enabled s e)] {β : Type} {f : σ → β} {v : β}
    (h : (M.exec s es).map f = some v) : ∃ t, Run M s es t ∧ f t = v := by
  obtain ⟨t, ht, hv⟩ := Option.map_eq_some_iff.mp h
  exact ⟨t, Run.of_exec es s t ht, hv⟩

/-- The same from the state `g a` of a computed `a`. -/
theorem exists_run_of_eval [∀ s e, Decidable (M.enabled s e)] {ψ α β : Type} {x : Except ψ α}
    {g : α → σ} {f : σ → β} {v : β}
    (h : (x.toOption.bind fun a => (M.exec (g a) es).map f) = some v) :
    ∃ a t, x = .ok a ∧ Run M (g a) es t ∧ f t = v := by
  obtain ⟨a, ha, hrest⟩ := exists_ok_of_bind h
  obtain ⟨t, ht⟩ := exists_run_of_exec hrest
  exact ⟨a, t, ha, ht⟩

/-- A run with a look at the state before one of its events. -/
theorem exists_runs_of_exec [∀ s e, Decidable (M.enabled s e)] {β : Type} {f : σ → σ → β} {v : β}
    {e : ε} {fs : List ε}
    (h : ((M.exec s es).bind fun t => (M.exec t (e :: fs)).map (f t)) = some v) :
    ∃ t u w, Run M s es t ∧ M.enabled t e ∧ M.step t e = .ok u ∧ Run M u fs w ∧ f t w = v := by
  obtain ⟨t, ht, hrest⟩ := Option.bind_eq_some_iff.mp h
  obtain ⟨w, hw, hv⟩ := Option.map_eq_some_iff.mp hrest
  rw [exec] at hw
  split at hw
  · rename_i hen
    split at hw
    · rename_i u hst
      exact ⟨t, u, w, Run.of_exec es s t ht, hen, hst, Run.of_exec fs u w hw, hv⟩
    · cases hw
  · cases hw

end Machine

end Muduo.Lib
