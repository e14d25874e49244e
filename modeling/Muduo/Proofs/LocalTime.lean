import Mathlib.Data.List.TakeWhile
import Muduo.Proofs.UtcTime

/-!
# `Muduo.Proofs.LocalTime`: local time and back

`Usable` is what zone data must be for the two conversions to stay in bounds:
there is a record of local time, and every index points into its table. For
usable data `findLocaltime` always returns a record of the zone, also when
the transitions are not in order (`findLocaltime_mem`).

For transitions in order it is the record in force. `RecordAfter data A l`
says that `l` is the record behind the transitions `A`, and `findLocaltime_at`
that it is found when `A` are the transitions up to the time that is looked
for. The search is made by UTC in one direction and by local time in the
other, so the lemma is about both. `findLocaltime_inForce` is the same without
the cut: there always is one.

`local_round_trip` follows from that. In the hour before a change back from
daylight saving time, the search by local time finds the record behind the
change. The `tm_isdst` of the broken-down time and the second conversion show
this, and the hour is taken off. `RoundTripZone` is what the argument needs:
other changes back would not be noticed, and changes that are too close
together would hide each other.
-/

set_option autoImplicit false

namespace Muduo.Base.TimeZone

open Muduo.Lib

/-- Every access of the two conversions stays in bounds. -/
structure Usable (data : Data) : Prop where
  localtimes_ne : data.localtimes ≠ []
  localtimeIdx_lt : ∀ transition ∈ data.transitions,
    transition.localtimeIdx < data.localtimes.length
  arrbIdx_le : ∀ l ∈ data.localtimes, l.arrbIdx ≤ data.abbreviation.length

instance (data : Data) : Decidable (Usable data) :=
  decidable_of_iff (data.localtimes ≠ [] ∧
      (∀ transition ∈ data.transitions, transition.localtimeIdx < data.localtimes.length) ∧
      ∀ l ∈ data.localtimes, l.arrbIdx ≤ data.abbreviation.length)
    ⟨fun h => ⟨h.1, h.2.1, h.2.2⟩, fun h => ⟨h.localtimes_ne, h.localtimeIdx_lt, h.arrbIdx_le⟩⟩

/-! ### The comparison -/

/-- What the transitions are compared by. -/
def key (comp : Comp) (x : Transition) : Int := if comp.compareGmt then x.gmttime else x.localtime

theorem less_iff {comp : Comp} {x y : Transition} : comp.less x y = true ↔ key comp x < key comp y := by
  rw [Comp.less, key, key]
  split_ifs <;> exact decide_eq_true_iff

theorem less_eq_false_iff {comp : Comp} {x y : Transition} :
    comp.less x y = false ↔ key comp y ≤ key comp x := by
  rw [← Bool.not_eq_true, less_iff, Int.not_lt]

theorem equal_iff {comp : Comp} {x y : Transition} :
    comp.equal x y = true ↔ key comp x = key comp y := by
  rw [Comp.equal, key, key]
  split_ifs <;> exact decide_eq_true_iff

section
variable {data : Data} {l : Localtime} {comp : Comp} {sentry : Transition}

theorem localtimeAt_eq {i : Nat} (h : data.localtimes[i]? = some l) :
    data.localtimeAt i = .ok l := by
  rw [Data.localtimeAt, h]

/-! ### Whatever the order -/

/-- The search returns a transition. When it ends at the first one, the
sentry is neither before it nor behind it, so the `assert` holds. -/
theorem findTransition_mem {front : Transition} (rest : List Transition)
    (h : comp.less sentry front = false) :
    ∃ found ∈ front :: rest, findTransition front rest sentry comp = .ok found := by
  have hle := less_eq_false_iff.mp h
  simp only [findTransition]
  generalize hI : lowerBound (comp.less · sentry) (front :: rest) = transI
  cases hget : (front :: rest)[transI]? with
  | none => exact ⟨rest.getLastD front, List.getLastD_mem_cons, rfl⟩
  | some found =>
      by_cases heq : comp.equal sentry found = true
      · refine ⟨found, List.mem_of_getElem? hget, ?_⟩
        simp only [if_pos heq]
      · have hne : transI ≠ 0 := by
          -- The first transition would not be less than the sentry, and so equal to it.
          intro hzero
          rw [hzero] at hI hget
          cases hget
          have hless : comp.less front sentry = false :=
            lowerBound_zero (comp.less · sentry) hI
          exact heq (equal_iff.mpr (Int.le_antisymm (less_eq_false_iff.mp hless) hle))
        have hlt : transI - 1 < (front :: rest).length := by
          have hbound := (List.getElem?_eq_some_iff.mp hget).1
          omega
        refine ⟨(front :: rest)[transI - 1], List.getElem_mem hlt, ?_⟩
        simp only [if_neg heq, assertThat_pos hne, ok_bind, List.getElem?_eq_getElem hlt]

/-- The record that is found is one of the zone. -/
theorem findLocaltime_mem (h : Usable data) (sentry : Transition) (comp : Comp) :
    ∃ l ∈ data.localtimes, findLocaltime data sentry comp = .ok l := by
  have hfirst : ∃ l ∈ data.localtimes, data.localtimeAt 0 = .ok l := by
    have hlen := List.length_pos_iff.mpr h.localtimes_ne
    exact ⟨data.localtimes[0], List.getElem_mem hlen, localtimeAt_eq (List.getElem?_eq_getElem hlen)⟩
  rw [findLocaltime]
  cases htransitions : data.transitions with
  | nil => exact hfirst
  | cons front rest =>
      by_cases hless : comp.less sentry front = true
      · simp only [if_pos hless]
        exact hfirst
      · obtain ⟨found, hmem, hfound⟩ := findTransition_mem rest (Bool.not_eq_true _ ▸ hless)
        have hidx := h.localtimeIdx_lt found (htransitions ▸ hmem)
        simp only [if_neg hless, hfound, ok_bind]
        exact ⟨_, List.getElem_mem hidx, localtimeAt_eq (List.getElem?_eq_getElem hidx)⟩

/-! ### The transitions in order -/

/-- `l` is the record behind the transitions `A`, with the first record of
the zone before all transitions. -/
def RecordAfter (data : Data) (A : List Transition) (l : Localtime) : Prop :=
  A = [] ∧ data.localtimes[0]? = some l ∨
    ∃ pre last, A = pre ++ [last] ∧ data.localtimes[last.localtimeIdx]? = some l

/-- The search ends at a transition with the key of the sentry. -/
theorem findTransition_equal {front : Transition} {rest pre post : List Transition} {last : Transition}
    (hsplit : front :: rest = pre ++ last :: post)
    (hpre : ∀ x ∈ pre, key comp x < key comp last) (hkey : key comp sentry = key comp last)
    (hpost : ∀ x ∈ post, key comp sentry < key comp x) :
    findTransition front rest sentry comp = .ok last := by
  have hbound : lowerBound (comp.less · sentry) (pre ++ last :: post) = pre.length := by
    apply lowerBound_split
    · intro x hx
      exact less_iff.mpr (hkey ▸ hpre x hx)
    · intro x hx
      rw [less_eq_false_iff]
      cases List.mem_cons.mp hx with
      | inl heq => exact Int.le_of_eq (heq ▸ hkey)
      | inr hin => exact Int.le_of_lt (hpost x hin)
  have hget : (pre ++ last :: post)[pre.length]? = some last := by
    rw [List.getElem?_append_right (Nat.le_refl _), Nat.sub_self]
    rfl
  simp only [findTransition, hsplit, hbound, hget, if_pos (equal_iff.mpr hkey)]

/-- Between two transitions the search ends at the second one and goes back
to the first. Behind all transitions it takes the last one. -/
theorem findTransition_between {front : Transition} {rest pre post : List Transition}
    {last : Transition} (hsplit : front :: rest = pre ++ last :: post)
    (hpre : ∀ x ∈ pre, key comp x < key comp last) (hlast : key comp last < key comp sentry)
    (hpost : ∀ x ∈ post, key comp sentry < key comp x) :
    findTransition front rest sentry comp = .ok last := by
  have hbound : lowerBound (comp.less · sentry) (pre ++ last :: post) = pre.length + 1 := by
    have hall := lowerBound_split (comp.less · sentry) (pre ++ [last]) post ?_ ?_
    · rw [List.append_assoc, List.length_append] at hall
      exact hall
    · intro x hx
      rw [less_iff]
      cases List.mem_append.mp hx with
      | inl hin => exact Int.lt_trans (hpre x hin) hlast
      | inr heq => rw [List.mem_singleton.mp heq]; exact hlast
    · intro x hx
      exact less_eq_false_iff.mpr (Int.le_of_lt (hpost x hx))
  have hprevious : (pre ++ last :: post)[pre.length + 1 - 1]? = some last := by
    rw [Nat.add_sub_cancel, List.getElem?_append_right (Nat.le_refl _), Nat.sub_self]
    rfl
  have hnext : (pre ++ last :: post)[pre.length + 1]? = post[0]? := by
    rw [List.getElem?_append_right (Nat.le_add_right _ _), Nat.add_sub_cancel_left]
    rfl
  simp only [findTransition, hsplit]
  rw [hbound, hnext]
  cases post with
  | nil =>
      have hend : rest.getLastD front = last := by
        have hlasts := congrArg List.getLast? hsplit
        rw [List.getLast?_cons, List.getLast?_concat] at hlasts
        rw [List.getLastD_eq_getLast?]
        exact Option.some.inj hlasts
      exact congrArg Except.ok hend
  | cons next post =>
      have hne : ¬ comp.equal sentry next = true := by
        rw [equal_iff]
        exact Int.ne_of_lt (hpost next List.mem_cons_self)
      simp only [List.getElem?_cons_zero, if_neg hne, assertThat_pos (Nat.succ_ne_zero _), ok_bind,
        hprevious]

/-- The search ends at the last transition that is not behind the sentry. -/
theorem findTransition_at {front : Transition} {rest pre post : List Transition} {last : Transition}
    (hsplit : front :: rest = pre ++ last :: post)
    (hpre : ∀ x ∈ pre, key comp x < key comp last) (hlast : key comp last ≤ key comp sentry)
    (hpost : ∀ x ∈ post, key comp sentry < key comp x) :
    findTransition front rest sentry comp = .ok last := by
  cases Int.lt_or_eq_of_le hlast with
  | inl hlt => exact findTransition_between hsplit hpre hlt hpost
  | inr heq => exact findTransition_equal hsplit hpre heq.symm hpost

/-- The record that is found is the one behind the transitions up to the sentry. -/
theorem findLocaltime_at (sentry : Transition) {A B : List Transition}
    (htransitions : data.transitions = A ++ B)
    (hsorted : A.Pairwise fun x y => key comp x < key comp y)
    (hA : ∀ x ∈ A, key comp x ≤ key comp sentry) (hB : ∀ x ∈ B, key comp sentry < key comp x)
    (hl : RecordAfter data A l) : findLocaltime data sentry comp = .ok l := by
  obtain ⟨rfl, hfirst⟩ | ⟨pre, last, rfl, hlast⟩ := hl
  · have hat := localtimeAt_eq hfirst
    rw [List.nil_append] at htransitions
    rw [findLocaltime, htransitions]
    cases B with
    | nil => exact hat
    | cons front rest =>
        simp only [if_pos (less_iff.mpr (hB front List.mem_cons_self))]
        exact hat
  · rw [List.append_assoc, List.singleton_append] at htransitions
    have hbefore : ∀ x ∈ pre, key comp x < key comp last := fun x hx =>
      (List.pairwise_append.mp hsorted).2.2 x hx last (List.mem_singleton_self last)
    have hnot := hA last (by simp)
    rw [findLocaltime]
    cases hcons : data.transitions with
    | nil =>
        rw [htransitions] at hcons
        exact absurd hcons (by simp)
    | cons front rest =>
        have hsplit := hcons.symm.trans htransitions
        have hfront : ¬ comp.less sentry front = true := by
          have hmem : front ∈ pre ++ [last] := by
            cases pre with
            | nil => exact (List.cons.inj hsplit).1 ▸ List.mem_cons_self
            | cons x pre => exact (List.cons.inj hsplit).1 ▸ List.mem_cons_self
          rw [less_iff, Int.not_lt]
          exact hA front hmem
        have hfound := findTransition_at hsplit hbefore hnot hB
        simp only [if_neg hfront, hfound, ok_bind]
        exact localtimeAt_eq hlast

/-- There is a record behind every first part of the transitions. -/
theorem exists_recordAfter (hne : data.localtimes ≠ [])
    (hidx : ∀ transition ∈ data.transitions, transition.localtimeIdx < data.localtimes.length)
    {A B : List Transition} (htransitions : data.transitions = A ++ B) :
    ∃ l ∈ data.localtimes, RecordAfter data A l := by
  cases List.eq_nil_or_concat' A with
  | inl hnil =>
      have hlen := List.length_pos_iff.mpr hne
      exact ⟨data.localtimes[0], List.getElem_mem hlen, .inl ⟨hnil, List.getElem?_eq_getElem hlen⟩⟩
  | inr hconcat =>
      obtain ⟨pre, last, rfl⟩ := hconcat
      have hlt := hidx last (by rw [htransitions]; simp)
      exact ⟨_, List.getElem_mem hlt, .inr ⟨pre, last, rfl, List.getElem?_eq_getElem hlt⟩⟩

/-- Transitions in order are cut at the key `t`. -/
theorem exists_cut {transitions : List Transition}
    (hsorted : transitions.Pairwise fun x y => key comp x < key comp y) (t : Int) :
    ∃ A B, transitions = A ++ B ∧ (∀ x ∈ A, key comp x ≤ t) ∧ ∀ x ∈ B, t < key comp x := by
  refine ⟨transitions.takeWhile (key comp · ≤ t), transitions.dropWhile (key comp · ≤ t),
    List.takeWhile_append_dropWhile.symm, ?_, ?_⟩
  · intro x hx
    have hle := List.mem_takeWhile_imp (p := fun x : Transition => decide (key comp x ≤ t)) hx
    exact of_decide_eq_true hle
  · intro x hx
    have hrest := hsorted.sublist (List.dropWhile_sublist (key comp · ≤ t))
    have hhead := List.head?_dropWhile_not (key comp · ≤ t) transitions
    cases hdrop : transitions.dropWhile (key comp · ≤ t) with
    | nil =>
        rw [hdrop] at hx
        cases hx
    | cons y rest =>
        rw [hdrop] at hx hrest hhead
        have hy : t < key comp y := by simpa using hhead
        cases List.mem_cons.mp hx with
        | inl heq => exact heq ▸ hy
        | inr hin => exact Int.lt_trans hy ((List.pairwise_cons.mp hrest).1 x hin)

end

/-- For every zone data with a record of local time and indices in range, in
which the transitions are in order by what is compared, and for every sentry:
the search returns, so that its `assert` holds. When the sentry is before all
transitions, which is so when there are none, the first record is found.
Otherwise there is a last transition that is not behind the sentry, and its
record is found. -/
theorem findLocaltime_inForce (data : Data) (comp : Comp) (hne : data.localtimes ≠ [])
    (hidx : ∀ transition ∈ data.transitions, transition.localtimeIdx < data.localtimes.length)
    (hsorted : data.transitions.Pairwise fun x y => key comp x < key comp y) (sentry : Transition) :
    ∃ l, findLocaltime data sentry comp = .ok l ∧
      ((∀ x ∈ data.transitions, key comp sentry < key comp x) ∧ data.localtimes[0]? = some l ∨
        ∃ pre last post, data.transitions = pre ++ last :: post ∧
          key comp last ≤ key comp sentry ∧ (∀ x ∈ post, key comp sentry < key comp x) ∧
          data.localtimes[last.localtimeIdx]? = some l) := by
  obtain ⟨A, B, hcut, hA, hB⟩ := exists_cut hsorted (key comp sentry)
  obtain ⟨l, -, hl⟩ := exists_recordAfter hne hidx hcut
  have hbefore := hsorted
  rw [hcut] at hbefore
  refine ⟨l, findLocaltime_at sentry hcut (List.pairwise_append.mp hbefore).1 hA hB hl, ?_⟩
  obtain ⟨rfl, hfirst⟩ | ⟨pre, last, rfl, hlast⟩ := hl
  · rw [hcut]
    exact .inl ⟨hB, hfirst⟩
  · refine .inr ⟨pre, last, B, ?_, hA last (by simp), hB, hlast⟩
    rw [hcut, List.append_assoc, List.singleton_append]

/-- Daylight saving time from 10000000 to 20000000, an hour ahead. -/
def summerZone : Data where
  transitions := [⟨10000000, 10007200, 1⟩, ⟨20000000, 20003600, 0⟩]
  localtimes := [⟨3600, false, 0⟩, ⟨7200, true, 4⟩]
  abbreviation := ascii ['C', 'E', 'T', '\x00', 'C', 'E', 'S', 'T', '\x00']

/-- Exactly at the change back, by UTC. -/
theorem findLocaltime_inForce_summer :
    ∃ l, findLocaltime summerZone ⟨20000000, 0, 0⟩ ⟨true⟩ = .ok l ∧
      ((∀ x ∈ summerZone.transitions, key ⟨true⟩ ⟨20000000, 0, 0⟩ < key ⟨true⟩ x) ∧
          summerZone.localtimes[0]? = some l ∨
        ∃ pre last post, summerZone.transitions = pre ++ last :: post ∧
          key ⟨true⟩ last ≤ key ⟨true⟩ ⟨20000000, 0, 0⟩ ∧
          (∀ x ∈ post, key ⟨true⟩ ⟨20000000, 0, 0⟩ < key ⟨true⟩ x) ∧
          summerZone.localtimes[last.localtimeIdx]? = some l) :=
  findLocaltime_inForce summerZone ⟨true⟩ (by decide) (by decide) (by decide) ⟨20000000, 0, 0⟩

/-! ### Zones in which no local time is lost -/

/-- Zone data as `readTimeZoneFile` builds it, with the transitions in order
and farther apart than two offsets of the zone can differ, in which every
change back goes from daylight saving time to another record, by an hour. -/
structure RoundTripZone (data : Data) : Prop where
  usable : Usable data
  localtime_eq : ∀ x ∈ data.transitions, ∀ l, data.localtimes[x.localtimeIdx]? = some l →
    x.localtime = x.gmttime + l.gmtOffset
  increasing : data.transitions.IsChain fun x y => x.gmttime < y.gmttime
  apart : data.transitions.IsChain fun x y => ∀ l ∈ data.localtimes, ∀ l' ∈ data.localtimes,
    l.gmtOffset - l'.gmtOffset < y.gmttime - x.gmttime
  backward : ∀ A next B l l', data.transitions = A ++ next :: B → RecordAfter data A l →
    data.localtimes[next.localtimeIdx]? = some l' → l'.gmtOffset < l.gmtOffset →
    l.isDst = true ∧ l'.isDst = false ∧ l.gmtOffset - l'.gmtOffset = 3600

section
variable {data : Data} {libc : Libc} {l : Localtime} {t : Int}

/-- Any two transitions are apart, the earlier one first. -/
theorem RoundTripZone.pairwise (h : RoundTripZone data) :
    data.transitions.Pairwise fun x y => ∀ l ∈ data.localtimes, ∀ l' ∈ data.localtimes,
      l.gmtOffset - l'.gmtOffset < y.gmttime - x.gmttime := by
  have htrans : IsTrans Transition fun x y => ∀ l ∈ data.localtimes, ∀ l' ∈ data.localtimes,
      l.gmtOffset - l'.gmtOffset < y.gmttime - x.gmttime := by
    constructor
    intro x y z hxy hyz l hl l' hl'
    have hfirst := hxy l hl l hl
    have hsecond := hyz l hl l' hl'
    omega
  exact List.isChain_iff_pairwise.mp h.apart

/-- The local time of `t` under the record `l`. -/
def localTm (libc : Libc) (data : Data) (t : Int) (l : Localtime) : Tm :=
  { libc.gmtime_r (t + l.gmtOffset) with
    tm_isdst := l.isDst
    tm_gmtoff := l.gmtOffset
    tm_zone := (data.abbreviation.drop l.arrbIdx).takeWhile (· ≠ 0) }

/-- The transitions by UTC are in order. -/
theorem RoundTripZone.sorted_gmt (h : RoundTripZone data) :
    data.transitions.Pairwise fun x y => key ⟨true⟩ x < key ⟨true⟩ y :=
  List.isChain_iff_pairwise.mp h.increasing

/-- So they are by local time: the changes are farther apart than the offsets. -/
theorem RoundTripZone.sorted_local (h : RoundTripZone data) :
    data.transitions.Pairwise fun x y => key ⟨false⟩ x < key ⟨false⟩ y := by
  refine h.pairwise.imp_of_mem ?_
  intro x y hx hy hapart
  have hix := h.usable.localtimeIdx_lt x hx
  have hiy := h.usable.localtimeIdx_lt y hy
  have hlx := h.localtime_eq x hx _ (List.getElem?_eq_getElem hix)
  have hly := h.localtime_eq y hy _ (List.getElem?_eq_getElem hiy)
  have hgap := hapart _ (List.getElem_mem hix) _ (List.getElem_mem hiy)
  show x.localtime < y.localtime
  omega

theorem toLocalTime_at (libc : Libc) (h : RoundTripZone data) {A B : List Transition}
    (htransitions : data.transitions = A ++ B) (hA : ∀ x ∈ A, x.gmttime ≤ t)
    (hB : ∀ x ∈ B, t < x.gmttime) (hl : RecordAfter data A l) (hmem : l ∈ data.localtimes) :
    data.toLocalTime libc t = .ok (localTm libc data t l) := by
  have hsorted := h.sorted_gmt
  rw [htransitions] at hsorted
  have hfind := findLocaltime_at ⟨t, 0, 0⟩ htransitions
    (List.pairwise_append.mp hsorted).1 hA hB hl
  simp only [Data.toLocalTime, hfind, ok_bind, assertThat_pos (h.usable.arrbIdx_le l hmem),
    except_pure, localTm]

/-- Transitions that are behind `t` in UTC are behind its local time, but for
the next one after a change back. -/
theorem local_lt_of_behind (h : RoundTripZone data) {A B : List Transition} {next : Transition}
    (htransitions : data.transitions = A ++ next :: B) (hnext : t < next.gmttime)
    (hmem : l ∈ data.localtimes) : ∀ x ∈ B, t + l.gmtOffset < x.localtime := by
  intro x hx
  have hin : x ∈ data.transitions := by
    rw [htransitions]
    simp [hx]
  have hidx := h.usable.localtimeIdx_lt x hin
  have hlocal := h.localtime_eq x hin _ (List.getElem?_eq_getElem hidx)
  have hpairs := h.pairwise
  rw [htransitions] at hpairs
  have hgap := (List.pairwise_cons.mp (List.pairwise_append.mp hpairs).2.1).1 x hx l hmem _
    (List.getElem_mem hidx)
  omega

/-- Transitions up to `t` in UTC are not behind its local time. -/
theorem local_le_of_before (h : RoundTripZone data) {A B : List Transition}
    (htransitions : data.transitions = A ++ B) (hA : ∀ x ∈ A, x.gmttime ≤ t)
    (hl : RecordAfter data A l) : ∀ x ∈ A, x.localtime ≤ t + l.gmtOffset := by
  obtain ⟨rfl, -⟩ | ⟨pre, last, rfl, hlast⟩ := hl
  · intro x hx
    cases hx
  · have hin : last ∈ data.transitions := by
      rw [htransitions]
      simp
    have hlocal := h.localtime_eq last hin l hlast
    have htime := hA last (by simp)
    have hsorted := h.sorted_local
    rw [htransitions] at hsorted
    intro x hx
    cases List.mem_append.mp hx with
    | inl hpre =>
        have hlt : x.localtime < last.localtime :=
          (List.pairwise_append.mp (List.pairwise_append.mp hsorted).1).2.2 x hpre last
            (List.mem_singleton_self last)
        omega
    | inr heq =>
        rw [List.mem_singleton.mp heq]
        omega

/-- The search by local time finds the record in force, unless the next
change goes back and its local time has been reached. -/
theorem fromLocalTime_plain (h : RoundTripZone data) {A B : List Transition}
    (hinverse : ∀ s, libc.timegm (libc.gmtime_r s) = s)
    (htransitions : data.transitions = A ++ B) (hA : ∀ x ∈ A, x.gmttime ≤ t)
    (hB : ∀ x ∈ B, t < x.gmttime) (hlocal : ∀ x ∈ B, t + l.gmtOffset < x.localtime)
    (hl : RecordAfter data A l) (hmem : l ∈ data.localtimes) :
    data.fromLocalTime libc (localTm libc data t l) = .ok t := by
  have hsorted := h.sorted_local
  rw [htransitions] at hsorted
  have hseconds : libc.timegm (localTm libc data t l).toBrokenDown = t + l.gmtOffset := hinverse _
  have hfind := findLocaltime_at ⟨0, t + l.gmtOffset, 0⟩ htransitions
    (List.pairwise_append.mp hsorted).1 (local_le_of_before h htransitions hA hl) hlocal hl
  have hback : t + l.gmtOffset - l.gmtOffset = t := by omega
  have hagain := toLocalTime_at libc h htransitions hA hB hl hmem
  have hdst : (localTm libc data t l).tm_isdst = l.isDst := rfl
  simp only [Data.fromLocalTime, hseconds, hfind, ok_bind, hback, hagain, hdst, except_pure]
  -- The second conversion is made in daylight saving time only, and it shows the same flag.
  cases l.isDst with
  | false => rfl
  | true => rfl

/-- In the hour that a change back repeats, the record behind the change is
found, and the second conversion shows that the hour has to be taken off. -/
theorem fromLocalTime_repeated (h : RoundTripZone data) {A B : List Transition} {next : Transition}
    {l' : Localtime} (hinverse : ∀ s, libc.timegm (libc.gmtime_r s) = s)
    (htransitions : data.transitions = A ++ next :: B) (hA : ∀ x ∈ A, x.gmttime ≤ t)
    (hnext : t < next.gmttime) (hreached : next.localtime ≤ t + l.gmtOffset)
    (hl : RecordAfter data A l) (hmem : l ∈ data.localtimes)
    (hl' : data.localtimes[next.localtimeIdx]? = some l') :
    data.fromLocalTime libc (localTm libc data t l) = .ok t := by
  have hmem' : l' ∈ data.localtimes := List.mem_of_getElem? hl'
  have hin : next ∈ data.transitions := by
    rw [htransitions]
    simp
  have hlocal := h.localtime_eq next hin l' hl'
  obtain ⟨hdst, hdst', hhour⟩ := h.backward A next B l l' htransitions hl hl' (by omega)
  -- The change is the last one, both by local time and an hour later by UTC.
  have hshift : data.transitions = (A ++ [next]) ++ B := by rw [htransitions]; simp
  have hafter : RecordAfter data (A ++ [next]) l' := .inr ⟨A, next, rfl, hl'⟩
  have hA' : ∀ x ∈ A ++ [next], x.gmttime ≤ t + 3600 := by
    intro x hx
    cases List.mem_append.mp hx with
    | inl hpre =>
        have hbefore := hA x hpre
        omega
    | inr heq =>
        rw [List.mem_singleton.mp heq]
        omega
  have hB' : ∀ x ∈ B, t + 3600 < x.gmttime := by
    intro x hx
    have hpairs := h.pairwise
    rw [htransitions] at hpairs
    have hgap := (List.pairwise_cons.mp (List.pairwise_append.mp hpairs).2.1).1 x hx l hmem l' hmem'
    omega
  have hsame : t + 3600 + l'.gmtOffset = t + l.gmtOffset := by omega
  have hbefore := local_le_of_before h hshift hA' hafter
  rw [hsame] at hbefore
  have hsorted := h.sorted_local
  rw [hshift] at hsorted
  have hfind := findLocaltime_at ⟨0, t + l.gmtOffset, 0⟩ hshift
    (List.pairwise_append.mp hsorted).1 hbefore (local_lt_of_behind h htransitions hnext hmem) hafter
  have hseconds : libc.timegm (localTm libc data t l).toBrokenDown = t + l.gmtOffset := hinverse _
  have htry : t + l.gmtOffset - l'.gmtOffset = t + 3600 := by omega
  have hagain := toLocalTime_at libc h hshift hA' hB' hafter hmem'
  have hback : t + l.gmtOffset - 3600 - l'.gmtOffset = t := by omega
  have hflag : (localTm libc data t l).tm_isdst = true := hdst
  have hclock : ¬ (localTm libc data (t + 3600) l').tm_isdst = true ∧
      (localTm libc data (t + 3600) l').tm_hour = (localTm libc data t l).tm_hour ∧
      (localTm libc data (t + 3600) l').tm_min = (localTm libc data t l).tm_min := by
    simp only [localTm, hsame, hdst', Bool.false_eq_true, not_false_eq_true, and_self]
  simp only [Data.fromLocalTime, hseconds, hfind, ok_bind, hflag, if_true, htry, hagain,
    if_pos hclock, hback, except_pure]

end

/-- For every zone of this kind and every time, the local time is taken back
to the time, also in the repeated hour, before the first and behind the last
transition and exactly at a transition. -/
theorem local_round_trip {data : Data} (h : RoundTripZone data) (libc : Libc)
    (hinverse : ∀ s, libc.timegm (libc.gmtime_r s) = s) (t : Int) :
    ∃ tm, toLocalTime libc ⟨some data⟩ t = .ok tm ∧ fromLocalTime libc ⟨some data⟩ tm = .ok t := by
  obtain ⟨A, B, htransitions, hA, hB⟩ := exists_cut h.sorted_gmt t
  obtain ⟨l, hmem, hl⟩ :=
    exists_recordAfter h.usable.localtimes_ne h.usable.localtimeIdx_lt htransitions
  have hderef : deref ⟨some data⟩ = .ok data := rfl
  simp only [toLocalTime, fromLocalTime, hderef, ok_bind]
  refine ⟨localTm libc data t l, toLocalTime_at libc h htransitions hA hB hl hmem, ?_⟩
  cases B with
  | nil => exact fromLocalTime_plain h hinverse htransitions hA hB (fun x hx => nomatch hx) hl hmem
  | cons next B =>
      have hnext := hB next List.mem_cons_self
      have hlater := local_lt_of_behind h htransitions hnext hmem
      by_cases hreached : next.localtime ≤ t + l.gmtOffset
      · have hidx := h.usable.localtimeIdx_lt next (by rw [htransitions]; simp)
        exact fromLocalTime_repeated h hinverse htransitions hA hnext hreached hl hmem
          (List.getElem?_eq_getElem hidx)
      · refine fromLocalTime_plain h hinverse htransitions hA hB ?_ hl hmem
        exact List.forall_mem_cons.mpr ⟨Int.not_le.mp hreached, hlater⟩

theorem summerZone_roundTrip : RoundTripZone summerZone where
  usable := by decide
  localtime_eq := by
    intro x hx l hl
    simp only [summerZone, List.mem_cons, List.not_mem_nil, or_false] at hx
    obtain rfl | rfl := hx
    · cases hl
      rfl
    · cases hl
      rfl
  increasing := by decide
  apart := by decide
  backward := by
    intro A next B l l' hsplit hl hl' hback
    cases A with
    | nil =>
        -- The change forward.
        cases hsplit
        obtain ⟨-, hfirst⟩ | ⟨pre, last, hnil, -⟩ := hl
        · cases hfirst
          cases hl'
          exact absurd hback (by decide)
        · exact absurd hnil (by simp)
    | cons x A =>
        cases A with
        | nil =>
            cases hsplit
            obtain ⟨hnil, -⟩ | ⟨pre, last, hconcat, hlast⟩ := hl
            · cases hnil
            · obtain ⟨-, hsame⟩ := List.append_inj' (show [] ++ [_] = pre ++ [last] from hconcat) rfl
              cases hsame
              cases hlast
              cases hl'
              decide
        | cons y A =>
            have hlen := congrArg List.length hsplit
            simp [summerZone] at hlen

/-- A time in the repeated hour, and the time an hour later, which the clock shows as the same
hour and minute. -/
theorem local_round_trip_summer :
    ∃ libc : Libc, (∀ t, IsTime t (libc.gmtime_r t)) ∧
      (∃ tm, toLocalTime libc ⟨some summerZone⟩ 19998000 = .ok tm ∧
        fromLocalTime libc ⟨some summerZone⟩ tm = .ok 19998000) ∧
      ∃ tm, toLocalTime libc ⟨some summerZone⟩ 20001600 = .ok tm ∧
        fromLocalTime libc ⟨some summerZone⟩ tm = .ok 20001600 := by
  obtain ⟨libc, hlibc, hinverse⟩ := exists_libc
  exact ⟨libc, hlibc, local_round_trip summerZone_roundTrip libc hinverse 19998000,
    local_round_trip summerZone_roundTrip libc hinverse 20001600⟩

end Muduo.Base.TimeZone
