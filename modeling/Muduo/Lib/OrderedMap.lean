import Mathlib.Data.List.Basic

/-!
# `Muduo.Lib.OrderedMap`: lookups in an ordered map

`Std.ExtTreeMap` is the model of `std::map`. Its lookup lemmas compare keys
with the order of the map. Here the order is lawful, so the lookups after
`insert` and `erase` are stated with equality of keys.

`flatMap_toList` is for a traversal of the map: when only one key
contributes, the traversal is what this key contributes. `foldl_insert_toList`
builds a map from its entries, in any order.

`entry` is for a map of maps, where `m[a][b]` makes an empty inner map when
there is none yet.
-/

set_option autoImplicit false

namespace Muduo.Lib

open Std (ExtTreeMap)

variable {α β γ : Type} {cmp : α → α → Ordering} [Std.TransCmp cmp] {m : ExtTreeMap α β cmp}
  {k : α} {v : β}

theorem size_insert_new (h : m[k]? = none) : (m.insert k v).size = m.size + 1 := by
  have hnot : m.contains k = false := by
    rw [ExtTreeMap.contains_eq_isSome_getElem?, h]
    rfl
  rw [ExtTreeMap.size_insert, hnot]
  rfl

theorem size_erase_old (h : m[k]? = some v) : (m.erase k).size = m.size - 1 := by
  have hcontains : m.contains k = true := by
    rw [ExtTreeMap.contains_eq_isSome_getElem?, h]
    rfl
  rw [ExtTreeMap.size_erase, if_pos hcontains]

variable [Std.LawfulEqCmp cmp]

/-- Looking up after an insertion. -/
theorem getElem?_insert_eq [DecidableEq α] (m : ExtTreeMap α β cmp) (k a : α) (v : β) :
    (m.insert k v)[a]? = if k = a then some v else m[a]? := by
  rw [ExtTreeMap.getElem?_insert]
  simp only [Std.LawfulEqCmp.compare_eq_iff_eq]

/-- Looking up after an erasure. -/
theorem getElem?_erase_eq [DecidableEq α] (m : ExtTreeMap α β cmp) (k a : α) :
    (m.erase k)[a]? = if k = a then none else m[a]? := by
  rw [ExtTreeMap.getElem?_erase]
  simp only [Std.LawfulEqCmp.compare_eq_iff_eq]

/-- A list with distinct keys, of which one contributes. -/
theorem flatMap_of_key {l : List (α × β)} {f : α × β → List γ}
    (hl : l.Pairwise fun x y => x.1 ≠ y.1) (hv : (k, v) ∈ l)
    (hf : ∀ x ∈ l, x.1 ≠ k → f x = []) : l.flatMap f = f (k, v) := by
  induction l with
  | nil => cases hv
  | cons x l ih =>
      obtain ⟨hx, hl⟩ := List.pairwise_cons.mp hl
      rw [List.flatMap_cons]
      cases List.mem_cons.mp hv with
      | inl heq =>
          subst heq
          have hrest : l.flatMap f = [] := by
            rw [List.flatMap_eq_nil_iff]
            intro y hy
            exact hf y (List.mem_cons_of_mem _ hy) (hx y hy).symm
          rw [hrest, List.append_nil]
      | inr hmem =>
          rw [hf x List.mem_cons_self (hx _ hmem), List.nil_append]
          exact ih hl hmem fun y hy => hf y (List.mem_cons_of_mem _ hy)

theorem distinct_toList (m : ExtTreeMap α β cmp) : m.toList.Pairwise fun x y => x.1 ≠ y.1 :=
  ExtTreeMap.distinct_keys_toList.imp fun hne heq =>
    hne (Std.LawfulEqCmp.compare_eq_iff_eq.mpr heq)

/-- What is gathered over all entries comes from the one entry that gives anything. -/
theorem flatMap_toList {f : α × β → List γ} (h : m[k]? = some v)
    (hf : ∀ a b, m[a]? = some b → a ≠ k → f (a, b) = []) : m.toList.flatMap f = f (k, v) := by
  apply flatMap_of_key (distinct_toList m) (ExtTreeMap.mem_toList_iff_getElem?_eq_some.mpr h)
  intro x hx hne
  exact hf x.1 x.2 (ExtTreeMap.mem_toList_iff_getElem?_eq_some.mp hx) hne

/-- What a map holds after entries with distinct keys were inserted. -/
theorem getElem?_foldl_insert [DecidableEq α] {l : List (α × β)}
    (hl : l.Pairwise fun x y => x.1 ≠ y.1) (m : ExtTreeMap α β cmp) :
    (l.foldl (fun m x => m.insert x.1 x.2) m)[k]? = some v ↔
      (k, v) ∈ l ∨ (∀ x ∈ l, x.1 ≠ k) ∧ m[k]? = some v := by
  induction l generalizing m with
  | nil => simp
  | cons x l ih =>
      obtain ⟨hx, hl⟩ := List.pairwise_cons.mp hl
      rw [List.foldl_cons, ih hl, getElem?_insert_eq]
      by_cases hk : x.1 = k
      · -- No later entry has the key of `x`.
        have hlater : ∀ y ∈ l, y.1 ≠ k := fun y hy heq => hx y hy (hk.trans heq.symm)
        have hnot : (k, v) ∉ l := fun hmem => hlater _ hmem rfl
        have hself : (k, v) = x ↔ x.2 = v := by
          rw [← hk, Prod.ext_iff]
          exact ⟨fun h => h.2.symm, fun h => ⟨rfl, h.symm⟩⟩
        rw [if_pos hk, Option.some.injEq, List.mem_cons, hself]
        constructor
        · rintro (hmem | ⟨-, hv⟩)
          · exact absurd hmem hnot
          · exact .inl (.inl hv)
        · rintro ((hv | hmem) | ⟨hnone, -⟩)
          · exact .inr ⟨hlater, hv⟩
          · exact absurd hmem hnot
          · exact absurd hk (hnone x List.mem_cons_self)
      · have hself : (k, v) ≠ x := fun heq => hk (heq ▸ rfl)
        rw [if_neg hk, List.mem_cons, or_iff_right hself, List.forall_mem_cons,
          and_iff_right hk]

/-- A map is made of its entries, in whatever order they are inserted. -/
theorem foldl_insert_toList [DecidableEq α] {l : List (α × β)} (h : l.Perm m.toList) :
    l.foldl (fun m x => m.insert x.1 x.2) ∅ = m := by
  have hkeys : l.Pairwise fun x y => x.1 ≠ y.1 :=
    (distinct_toList m).perm h.symm fun hne => hne.symm
  apply ExtTreeMap.ext_getElem?
  intro k
  apply Option.ext
  intro v
  have hempty : (∅ : ExtTreeMap α β cmp)[k]? ≠ some v := by
    rw [ExtTreeMap.getElem?_empty]
    exact (Option.some_ne_none v).symm
  rw [getElem?_foldl_insert hkeys, or_iff_left (fun hold => hempty hold.2), h.mem_iff,
    ExtTreeMap.mem_toList_iff_getElem?_eq_some]

/-! ### Maps of maps -/

section
variable {δ : Type} {cmp' : β → β → Ordering} [Std.TransCmp cmp']

/-- The entry of `a` and `b`, if there is one. -/
def entry (m : ExtTreeMap α (ExtTreeMap β δ cmp') cmp) (a : α) (b : β) : Option δ :=
  m[a]?.bind (·[b]?)

omit [Std.LawfulEqCmp cmp] in
theorem getElem?_getD_empty (m : ExtTreeMap α (ExtTreeMap β δ cmp') cmp) (a : α) (b : β) :
    (m[a]?.getD ∅)[b]? = entry m a b := by
  rw [entry]
  cases m[a]? with
  | none => exact ExtTreeMap.getElem?_empty
  | some inner => rfl

/-- Another inner map for `a`, which differs from the old one at `b` only. -/
theorem entry_insert [DecidableEq α] [DecidableEq β] {m : ExtTreeMap α (ExtTreeMap β δ cmp') cmp}
    {inner : ExtTreeMap β δ cmp'} {a : α} {b : β} {x : Option δ}
    (hinner : ∀ b', inner[b']? = if b = b' then x else (m[a]?.getD ∅)[b']?) (a' : α) (b' : β) :
    entry (m.insert a inner) a' b' = if a = a' ∧ b = b' then x else entry m a' b' := by
  rw [entry, getElem?_insert_eq]
  by_cases ha : a = a'
  · subst ha
    rw [if_pos rfl, Option.bind_some, hinner, getElem?_getD_empty]
    simp only [true_and]
  · rw [if_neg ha, if_neg fun h => ha h.1]
    rfl

variable [Std.LawfulEqCmp cmp'] [DecidableEq α] [DecidableEq β]

/-- `m[a][b] = v`. -/
theorem entry_set (m : ExtTreeMap α (ExtTreeMap β δ cmp') cmp) (a a' : α) (b b' : β) (v : δ) :
    entry (m.insert a ((m[a]?.getD ∅).insert b v)) a' b'
      = if a = a' ∧ b = b' then some v else entry m a' b' :=
  entry_insert (fun _ => getElem?_insert_eq _ _ _ _) a' b'

/-- `m[a].erase(b)`. -/
theorem entry_erase (m : ExtTreeMap α (ExtTreeMap β δ cmp') cmp) (a a' : α) (b b' : β) :
    entry (m.insert a ((m[a]?.getD ∅).erase b)) a' b'
      = if a = a' ∧ b = b' then none else entry m a' b' :=
  entry_insert (fun _ => getElem?_erase_eq _ _ _) a' b'

end

end Muduo.Lib
