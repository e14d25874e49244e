import Mathlib.Data.List.Nodup
import Mathlib.Logic.Function.Basic

/-!
# `Muduo.Lib.Ledger`: who owns a heap cell

A heap is a partial map from addresses to values. Code with raw pointers
frees every cell once when each live cell has one owner at every moment.
`Ledger heap owners` says so: `owners` lists the addresses that the parts
of a program hold, without a repetition, and they are the live ones.

The rules are for the four things a program does: allocate, free, write to
a cell, and hand cells from one owner to another.
-/

set_option autoImplicit false

namespace Muduo.Lib

variable {α β : Type}

/-- A live cell after a write is the one written to or one from before. -/
theorem update_cases [DecidableEq α] {heap : α → Option β} {a x : α} {v : Option β} {b : β}
    (h : Function.update heap a v x = some b) :
    (x = a ∧ v = some b) ∨ (x ≠ a ∧ heap x = some b) := by
  by_cases hx : x = a
  · subst hx
    rw [Function.update_self] at h
    exact Or.inl ⟨rfl, h⟩
  · rw [Function.update_of_ne hx] at h
    exact Or.inr ⟨hx, h⟩

/-- The live cells of `heap` are those in `owners`, each there once. -/
structure Ledger (heap : α → Option β) (owners : List α) : Prop where
  nodup : owners.Nodup
  live : ∀ a, (heap a).isSome ↔ a ∈ owners

namespace Ledger

variable {heap : α → Option β} {owners owners' : List α} {a : α} {b : β}

/-- An owner's address is allocated. -/
theorem get (h : Ledger heap owners) (ha : a ∈ owners) : ∃ b, heap a = some b :=
  Option.isSome_iff_exists.mp ((h.live a).mpr ha)

/-- An allocated address has an owner. -/
theorem mem (h : Ledger heap owners) (ha : heap a = some b) : a ∈ owners :=
  (h.live a).mp (Option.isSome_iff_exists.mpr ⟨b, ha⟩)

/-- Cells change hands. -/
theorem perm (h : Ledger heap owners) (hp : owners.Perm owners') : Ledger heap owners' where
  nodup := hp.nodup_iff.mp h.nodup
  live a := (h.live a).trans hp.mem_iff

variable [DecidableEq α]

/-- `new` gives the block to an owner. -/
theorem alloc (h : Ledger heap owners) (ha : heap a = none) :
    Ledger (Function.update heap a (some b)) (a :: owners) where
  nodup := by
    refine List.nodup_cons.mpr ⟨?_, h.nodup⟩
    intro hmem
    obtain ⟨c, hc⟩ := h.get hmem
    rw [ha] at hc
    cases hc
  live x := by
    by_cases hx : x = a
    · subst hx
      simp
    · simp [hx, h.live x]

/-- `delete` by the owner. No other owner has the address, so none is left with a dangling one. -/
theorem free (h : Ledger heap (a :: owners)) : Ledger (Function.update heap a none) owners where
  nodup := (List.nodup_cons.mp h.nodup).2
  live x := by
    by_cases hx : x = a
    · subst hx
      simp [(List.nodup_cons.mp h.nodup).1]
    · simp [hx, h.live x]

/-- A write by an owner keeps the accounts. -/
theorem write (h : Ledger heap owners) (ha : a ∈ owners) :
    Ledger (Function.update heap a (some b)) owners where
  nodup := h.nodup
  live x := by
    by_cases hx : x = a
    · subst hx
      simp [ha]
    · simp [hx, h.live x]

end Ledger

end Muduo.Lib
