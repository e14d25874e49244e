import Muduo.Lib.Outcome
import Muduo.Proofs.LocalTime

/-!
# `Muduo.Proofs.TimeZoneFile`: which zone files give usable data

`readTimeZoneFile` returns `true` whatever it reads, so every `TimeZone` that
is made from a file is valid, also when the file is missing or the data ends
somewhere in the middle. `UsableFile` says which files give data that the
conversions can be used with. It is a condition on the bytes: the header is
whole, there is a record of local time, the indices of the transitions are
below the number of records, and each record points into the text of the
abbreviations. A file that ends early can be usable too, since the records up
to its end are kept. The abbreviations are then missing, and all records have
to point to their start.

`Reads` is a reader of a fixed number of bytes, which is all that a zone file
is made of. `Reads.then` is the rule for what follows it. With it the proof
goes down the file once, and at every place where the file can end it compares
what has been filled in with the condition (`readZone_usable_iff`).
-/

set_option autoImplicit false

namespace Muduo.Base.TimeZone

open Muduo.Lib

/-! ### Reading -/

namespace Reader

variable {α β : Type} {s s' : Reading} {data : Data} {rest : List UInt8}

theorem bind_ok {x : Reader α} {f : α → Reader β} {a : α} (h : x s = .ok a s') :
    (x >>= f) s = f a s' := by
  show EStateM.bind x f s = _
  rw [EStateM.bind, h]

theorem bind_error {x : Reader α} {f : α → Reader β} {e : Stop} (h : x s = .error e s') :
    (x >>= f) s = .error e s' := by
  show EStateM.bind x f s = _
  rw [EStateM.bind, h]

theorem get_eq (s : Reading) : (get : Reader Reading) s = .ok s s := rfl

/-- `x` takes `k` bytes, and its value is `f` of what is there. When there
are less than `k` bytes it is a `logic_error`. The data stays as it is. -/
structure Reads (x : Reader α) (k : Nat) (f : List UInt8 → α) : Prop where
  whole : ∀ rest data, k ≤ rest.length → x ⟨rest, data⟩ = .ok (f rest) ⟨rest.drop k, data⟩
  short : ∀ rest data, rest.length < k → ∃ rest', x ⟨rest, data⟩ = .error .logicError ⟨rest', data⟩

/-- What holds of a read and of what follows it: it is enough to look at the
case in which there are bytes enough and at the one in which there are not. -/
theorem Reads.then {x : Reader α} {k : Nat} {f : List UInt8 → α} (hx : Reads x k f)
    {g : α → Reader β} {P : EStateM.Result Stop Reading β → Prop}
    (hshort : rest.length < k → ∀ rest', P (.error .logicError ⟨rest', data⟩))
    (hwhole : k ≤ rest.length → P (g (f rest) ⟨rest.drop k, data⟩)) :
    P ((x >>= g) ⟨rest, data⟩) := by
  by_cases hk : k ≤ rest.length
  · rw [bind_ok (hx.whole rest data hk)]
    exact hwhole hk
  · obtain ⟨rest', hstop⟩ := hx.short rest data (by omega)
    rw [bind_error hstop]
    exact hshort (by omega) rest'

theorem reads_fread (n : Nat) : Reads (fread n) n (List.take n) where
  whole := by
    intro rest data h
    show (if n ≤ rest.length then _ else _ : Reader (List UInt8)) _ = _
    rw [if_pos h]
    rfl
  short := by
    intro rest data h
    refine ⟨rest, ?_⟩
    show (if n ≤ rest.length then _ else _ : Reader (List UInt8)) _ = _
    rw [if_neg (by omega)]
    rfl

/-- What was read can be computed with. -/
theorem Reads.map {x : Reader α} {k : Nat} {f : List UInt8 → α} (hx : Reads x k f) (g : α → β) :
    Reads (do let a ← x; return g a) k (fun rest => g (f rest)) where
  whole := by
    intro rest data h
    rw [bind_ok (hx.whole rest data h)]
    rfl
  short := by
    intro rest data h
    obtain ⟨rest', hstop⟩ := hx.short rest data h
    exact ⟨rest', bind_error hstop⟩

/-- One read after the other. -/
theorem Reads.bind {x : Reader α} {k m : Nat} {f : List UInt8 → α} (hx : Reads x k f)
    {y : α → Reader β} {g : α → List UInt8 → β} (hy : ∀ a, Reads (y a) m (g a)) :
    Reads (x >>= y) (k + m) (fun rest => g (f rest) (rest.drop k)) where
  whole := by
    intro rest data h
    have hthen := (hy (f rest)).whole (rest.drop k) data (by rw [List.length_drop]; omega)
    rw [bind_ok (hx.whole rest data (by omega)), hthen, List.drop_drop]
  short := by
    intro rest data h
    refine hx.then (P := fun r => ∃ rest', r = .error .logicError ⟨rest', data⟩) ?_ ?_
    · intro _ rest'
      exact ⟨rest', rfl⟩
    · intro _
      exact (hy (f rest)).short (rest.drop k) data (by rw [List.length_drop]; omega)

theorem reads_bytes {n : Int} (h : 0 ≤ n) : Reads (readBytes n) n.toNat (List.take n.toNat) := by
  rw [readBytes, if_pos h]
  exact reads_fread _

end Reader

/-- The `int32_t` at the start of the bytes. -/
def int32Of (bytes : List UInt8) : Int :=
  (BitVec.ofNat 32 (BigEndian.ofBytes (bytes.take 4))).toInt

/-- The `uint8_t` at the start of the bytes. -/
def uint8Of (bytes : List UInt8) : Nat := BigEndian.ofBytes (bytes.take 1)

/-- The record of local time at the start of the bytes. -/
def localtimeOf (bytes : List UInt8) : Localtime :=
  ⟨int32Of bytes, uint8Of (bytes.drop 4) ≠ 0, uint8Of (bytes.drop 5)⟩

namespace Reader

variable {α β : Type} {data : Data} {rest bytes : List UInt8}

theorem reads_int32 : Reads readInt32 4 int32Of := (reads_fread 4).map _

theorem reads_uint8 : Reads readUInt8 1 uint8Of := (reads_fread 1).map _

/-- `n` values of `k` bytes each. -/
theorem reads_many {x : Reader α} {k : Nat} {f : List UInt8 → α} (hx : Reads x k f) (n : Nat) :
    Reads (readMany x n) (n * k) fun rest => (List.range n).map fun i => f (rest.drop (i * k)) := by
  induction n with
  | zero =>
      constructor
      · intro rest data _
        rw [Nat.zero_mul]
        rfl
      · intro rest data h
        omega
  | succ n ih =>
      have hseq := hx.bind fun a => ih.map (a :: ·)
      have hlen : (n + 1) * k = k + n * k := by rw [Nat.succ_mul, Nat.add_comm]
      have hvalues : ∀ rest : List UInt8, (List.range (n + 1)).map (fun i => f (rest.drop (i * k)))
          = f rest :: (List.range n).map fun i => f ((rest.drop k).drop (i * k)) := by
        intro rest
        simp only [List.range_succ_eq_map, List.map_cons, List.map_map, Nat.zero_mul,
          List.drop_zero, Function.comp_def, List.drop_drop, Nat.succ_mul, Nat.add_comm]
      simp only [hlen, hvalues]
      exact hseq

/-! ### The records -/

/-- The data with the first `n` records of the bytes behind the others. -/
def withLocaltimes (data : Data) (bytes : List UInt8) (n : Nat) : Data :=
  { data with localtimes := data.localtimes
      ++ (List.range n).map fun k => localtimeOf (bytes.drop (6 * k)) }

theorem withLocaltimes_zero (data : Data) (bytes : List UInt8) : withLocaltimes data bytes 0 = data := by
  rw [withLocaltimes, List.range_zero, List.map_nil, List.append_nil]

/-- One record more, at the front of the bytes. -/
theorem withLocaltimes_succ (data : Data) (bytes : List UInt8) (n : Nat) :
    withLocaltimes (withLocaltimes data bytes 1) (bytes.drop 6) n
      = withLocaltimes data bytes (n + 1) := by
  have hvalues : (List.range n).map (fun k => localtimeOf ((bytes.drop 6).drop (6 * k)))
      = (List.range n).map (fun k => localtimeOf (bytes.drop (6 * (k + 1)))) := by
    apply List.map_congr_left
    intro k _
    rw [List.drop_drop, Nat.mul_succ, Nat.add_comm]
  simp only [withLocaltimes, hvalues, List.range_succ_eq_map, List.map_cons, List.map_map,
    List.range_zero, List.map_nil, List.append_assoc, List.singleton_append]
  rfl

/-- The fields of a record, as one value of six bytes. -/
theorem reads_localtime : Reads (do
    let gmtoff ← readInt32
    let isdst ← readUInt8
    let abbrind ← readUInt8
    return (⟨gmtoff, isdst ≠ 0, abbrind⟩ : Localtime)) 6 localtimeOf := by
  have hseq := reads_int32.bind fun gmtoff => reads_uint8.bind fun isdst =>
    reads_uint8.map fun abbrind => (⟨gmtoff, isdst ≠ 0, abbrind⟩ : Localtime)
  simp only [List.drop_drop, Nat.reduceAdd] at hseq
  exact hseq

theorem readLocaltime_eq : readLocaltime = (do
    let l ← (do
      let gmtoff ← readInt32
      let isdst ← readUInt8
      let abbrind ← readUInt8
      return (⟨gmtoff, isdst ≠ 0, abbrind⟩ : Localtime))
    modify fun s => { s with data := { s.data with localtimes := s.data.localtimes ++ [l] } }) := by
  simp only [readLocaltime, bind_assoc, pure_bind]

/-- A record that is whole goes into the data. -/
theorem readLocaltime_whole (rest : List UInt8) (data : Data) (h : 6 ≤ rest.length) :
    readLocaltime ⟨rest, data⟩ = .ok () ⟨rest.drop 6, withLocaltimes data rest 1⟩ := by
  rw [readLocaltime_eq, bind_ok (reads_localtime.whole rest data h)]
  rfl

/-- Of a record that is not whole nothing goes into the data. -/
theorem readLocaltime_short (rest : List UInt8) (data : Data) (h : rest.length < 6) :
    ∃ rest', readLocaltime ⟨rest, data⟩ = .error .logicError ⟨rest', data⟩ := by
  obtain ⟨rest', hstop⟩ := reads_localtime.short rest data h
  rw [readLocaltime_eq]
  exact ⟨rest', bind_error hstop⟩

theorem readLocaltimes_whole (n : Nat) : ∀ rest data, 6 * n ≤ rest.length →
    readLocaltimes n ⟨rest, data⟩ = .ok () ⟨rest.drop (6 * n), withLocaltimes data rest n⟩ := by
  induction n with
  | zero =>
      intro rest data _
      rw [withLocaltimes_zero]
      rfl
  | succ n ih =>
      intro rest data h
      have hfirst := readLocaltime_whole rest data (by omega)
      have hmore := ih (rest.drop 6) (withLocaltimes data rest 1) (by rw [List.length_drop]; omega)
      rw [readLocaltimes, bind_ok hfirst, hmore, withLocaltimes_succ, List.drop_drop, Nat.mul_succ,
        Nat.add_comm]

/-- The records up to the end of the file are kept. -/
theorem readLocaltimes_short (n : Nat) : ∀ rest data, rest.length < 6 * n →
    ∃ rest', readLocaltimes n ⟨rest, data⟩
      = .error .logicError ⟨rest', withLocaltimes data rest (rest.length / 6)⟩ := by
  induction n with
  | zero =>
      intro rest data h
      omega
  | succ n ih =>
      intro rest data h
      by_cases hwhole : 6 ≤ rest.length
      · obtain ⟨rest', hstop⟩ :=
          ih (rest.drop 6) (withLocaltimes data rest 1) (by rw [List.length_drop]; omega)
        have hcount : (rest.drop 6).length / 6 + 1 = rest.length / 6 := by
          rw [List.length_drop]
          omega
        rw [withLocaltimes_succ, hcount] at hstop
        exact ⟨rest', (bind_ok (readLocaltime_whole rest data hwhole)).trans hstop⟩
      · obtain ⟨rest', hstop⟩ := readLocaltime_short rest data (by omega)
        have hcount : rest.length / 6 = 0 := by omega
        rw [hcount, withLocaltimes_zero]
        exact ⟨rest', bind_error hstop⟩

/-! ### The transitions -/

theorem pushTransition_eq (gmttime : Int) (localIdx : Nat) {l : Localtime}
    (h : data.localtimes[localIdx]? = some l) :
    pushTransition gmttime localIdx ⟨rest, data⟩ = .ok () ⟨rest, { data with
      transitions := data.transitions ++ [⟨gmttime, gmttime + l.gmtOffset, localIdx⟩] }⟩ := by
  rw [pushTransition, bind_ok (get_eq _)]
  simp only [localtimeAt_eq h]
  rfl

theorem pushTransition_fault (gmttime : Int) {localIdx : Nat}
    (h : data.localtimes.length ≤ localIdx) :
    pushTransition gmttime localIdx ⟨rest, data⟩ = .error (.fault .localtimes) ⟨rest, data⟩ := by
  have hnone : data.localtimeAt localIdx = .error .localtimes := by
    rw [Data.localtimeAt, List.getElem?_eq_none h]
  rw [pushTransition, bind_ok (get_eq _)]
  simp only [hnone]
  rfl

/-- With all indices below the number of records the transitions are built,
and they have such indices. -/
theorem pushTransitions_whole (times : List Int) : ∀ (indices : List Nat) (data : Data),
    (∀ i ∈ indices, i < data.localtimes.length) →
    (∀ x ∈ data.transitions, x.localtimeIdx < data.localtimes.length) →
    ∃ transitions, pushTransitions times indices ⟨rest, data⟩
        = .ok () ⟨rest, { data with transitions := transitions }⟩ ∧
      ∀ x ∈ transitions, x.localtimeIdx < data.localtimes.length := by
  induction times with
  | nil =>
      intro indices data _ hold
      exact ⟨data.transitions, rfl, hold⟩
  | cons gmttime times ih =>
      intro indices data hindices hold
      cases indices with
      | nil => exact ⟨data.transitions, rfl, hold⟩
      | cons localIdx indices =>
          have hlt := hindices localIdx List.mem_cons_self
          have hget := List.getElem?_eq_getElem hlt
          rw [pushTransitions, bind_ok (pushTransition_eq gmttime localIdx hget)]
          refine ih indices { data with transitions := _ }
            (fun i hi => hindices i (List.mem_cons_of_mem _ hi)) ?_
          intro x hx
          cases List.mem_append.mp hx with
          | inl hin => exact hold x hin
          | inr hnew =>
              rw [List.mem_singleton.mp hnew]
              exact hlt

/-- An index that is too large is an access out of bounds. -/
theorem pushTransitions_fault (rest : List UInt8) (times : List Int) : ∀ (indices : List Nat) (data : Data),
    times.length = indices.length → (∃ i ∈ indices, data.localtimes.length ≤ i) →
    ∃ s, pushTransitions times indices ⟨rest, data⟩ = .error (.fault .localtimes) s := by
  induction times with
  | nil =>
      intro indices data hlen hbad
      rw [List.length_eq_zero_iff.mp hlen.symm] at hbad
      obtain ⟨i, hi, -⟩ := hbad
      cases hi
  | cons gmttime times ih =>
      intro indices data hlen hbad
      cases indices with
      | nil => cases hlen
      | cons localIdx indices =>
          rw [pushTransitions]
          by_cases hlt : localIdx < data.localtimes.length
          · rw [bind_ok (pushTransition_eq gmttime localIdx (List.getElem?_eq_getElem hlt))]
            refine ih indices { data with transitions := _ } (Nat.succ.inj hlen) ?_
            obtain ⟨i, hi, hge⟩ := hbad
            cases List.mem_cons.mp hi with
            | inl heq => omega
            | inr hin => exact ⟨i, hin, hge⟩
          · exact ⟨_, bind_error (pushTransition_fault gmttime (by omega))⟩

end Reader

/-! ### The layout of a file -/

section
variable (bytes : List UInt8)

/-- The fields of the header. -/
def timecnt : Int := int32Of (bytes.drop 32)
def typecnt : Int := int32Of (bytes.drop 36)
def charcnt : Int := int32Of (bytes.drop 40)

/-- Where the indices of the transitions begin. -/
def indexStart : Nat := 44 + 4 * (timecnt bytes).toNat

/-- The index of the `i`-th transition. -/
def indexAt (i : Nat) : Nat := uint8Of (bytes.drop (indexStart bytes + i))

/-- Where the records begin. -/
def recordStart : Nat := 44 + 5 * (timecnt bytes).toNat

/-- The `k`-th record. -/
def recordAt (k : Nat) : Localtime := localtimeOf (bytes.drop (recordStart bytes + 6 * k))

/-- The number of records that are whole. -/
def recordsIn : Nat := min (typecnt bytes).toNat ((bytes.length - recordStart bytes) / 6)

/-- Where the text of the abbreviations begins. -/
def textStart : Nat := recordStart bytes + 6 * (typecnt bytes).toNat

/-- The length of the text. A text that is not whole is not read. -/
def textIn : Nat :=
  if textStart bytes + (charcnt bytes).toNat ≤ bytes.length then (charcnt bytes).toNat else 0

/-- The files that give usable data. -/
structure UsableFile : Prop where
  magic : bytes.take 4 = ascii ['T', 'Z', 'i', 'f']
  header : 44 ≤ bytes.length
  timecnt_nonneg : 0 ≤ timecnt bytes
  record : 0 < recordsIn bytes
  index_lt : textStart bytes ≤ bytes.length →
    ∀ i < (timecnt bytes).toNat, indexAt bytes i < (typecnt bytes).toNat
  charcnt_nonneg : textStart bytes ≤ bytes.length → 0 ≤ charcnt bytes
  text : ∀ k < recordsIn bytes, (recordAt bytes k).arrbIdx ≤ textIn bytes

end

-- The file of a zone that has always been on UTC: one transition and one record.
example : UsableFile (ascii ['T', 'Z', 'i', 'f'] ++ List.replicate 28 0
    ++ [0, 0, 0, 1] ++ [0, 0, 0, 1] ++ [0, 0, 0, 4] ++ [0, 0, 0, 0] ++ [0] ++ [0, 0, 0, 0, 0, 0]
    ++ ascii ['U', 'T', 'C'] ++ [0]) := by
  constructor <;> decide +kernel

theorem UsableFile.recordStart_lt {bytes : List UInt8} (h : UsableFile bytes) :
    recordStart bytes < bytes.length := by
  have hrecord := h.record
  rw [recordsIn] at hrecord
  omega

/-! ### Going down the file -/

namespace Reader

variable {data : Data} {bytes : List UInt8}

/-- What follows the first four bytes of the header. -/
theorem reads_counts : Reads (do
    let _version ← readBytes 1
    let _ ← readBytes 15
    let _isgmtcnt ← readInt32
    let _isstdcnt ← readInt32
    let _leapcnt ← readInt32
    let timecnt ← readInt32
    let typecnt ← readInt32
    let charcnt ← readInt32
    return (timecnt, typecnt, charcnt)) 40
    (fun rest => (int32Of (rest.drop 28), int32Of (rest.drop 32), int32Of (rest.drop 36))) := by
  have hseq := (reads_bytes (n := 1) (by decide)).bind fun _ =>
    (reads_bytes (n := 15) (by decide)).bind fun _ =>
    reads_int32.bind fun _ => reads_int32.bind fun _ => reads_int32.bind fun _ =>
    reads_int32.bind fun timecnt => reads_int32.bind fun typecnt =>
    reads_int32.map fun charcnt => (timecnt, typecnt, charcnt)
  simpa only [List.drop_drop, Int.reduceToNat, Nat.reduceAdd] using hseq

theorem readHeader_whole (data : Data) (hmagic : bytes.take 4 = ascii ['T', 'Z', 'i', 'f'])
    (hlen : 44 ≤ bytes.length) :
    readHeader ⟨bytes, data⟩
      = .ok (timecnt bytes, typecnt bytes, charcnt bytes) ⟨bytes.drop 44, data⟩ := by
  have hcounts := reads_counts.whole (bytes.drop 4) data (by rw [List.length_drop]; omega)
  simp only [List.drop_drop] at hcounts
  rw [readHeader, bind_ok ((reads_bytes (n := 4) (by decide)).whole bytes data (by omega))]
  simp only [Int.reduceToNat, hmagic, ne_eq, not_true, if_false]
  exact hcounts

/-- A file without a header leaves no data. -/
theorem readHeader_short (data : Data)
    (h : ¬ (bytes.take 4 = ascii ['T', 'Z', 'i', 'f'] ∧ 44 ≤ bytes.length)) :
    ∃ rest', readHeader ⟨bytes, data⟩ = .error .logicError ⟨rest', data⟩ := by
  rw [readHeader]
  refine (reads_bytes (n := 4) (by decide)).then
    (P := fun r => ∃ rest', r = .error .logicError ⟨rest', data⟩) ?_ ?_
  · intro _ rest'
    exact ⟨rest', rfl⟩
  · intro _
    by_cases hmagic : bytes.take 4 = ascii ['T', 'Z', 'i', 'f']
    · have hlen : (bytes.drop 4).length < 40 := by
        rw [List.length_drop]
        by_contra hlong
        exact h ⟨hmagic, by omega⟩
      simp only [Int.reduceToNat, hmagic, ne_eq, not_true, if_false]
      exact reads_counts.short (bytes.drop 4) data hlen
    · simp only [Int.reduceToNat, hmagic, ne_eq, not_false_iff, if_true]
      exact ⟨_, bind_error rfl⟩

end Reader

/-- Reading ends without a fault, and the data it leaves is usable. -/
def LeavesUsable : EStateM.Result Stop Reading Unit → Prop
  | .ok _ s => Usable s.data
  | .error .logicError s => Usable s.data
  | .error (.fault _) _ => False

theorem not_usable_empty : ¬ Usable {} := fun h => h.localtimes_ne rfl

/-- The records of the file, with any text and with transitions that point to them. -/
theorem usable_records_iff (bytes : List UInt8) {transitions : List Transition} {text : List UInt8}
    (htransitions : ∀ x ∈ transitions, x.localtimeIdx < recordsIn bytes)
    (htext : text.length = textIn bytes) :
    Usable ⟨transitions, (List.range (recordsIn bytes)).map (recordAt bytes), text⟩
      ↔ 0 < recordsIn bytes ∧ ∀ k < recordsIn bytes, (recordAt bytes k).arrbIdx ≤ textIn bytes := by
  have hlen : ((List.range (recordsIn bytes)).map (recordAt bytes)).length = recordsIn bytes := by
    rw [List.length_map, List.length_range]
  constructor
  · intro h
    refine ⟨hlen ▸ List.length_pos_iff.mpr h.localtimes_ne, ?_⟩
    intro k hk
    exact htext ▸ h.arrbIdx_le _ (List.mem_map_of_mem (List.mem_range.mpr hk))
  · rintro ⟨hpos, hle⟩
    refine ⟨List.length_pos_iff.mp (hlen.symm ▸ hpos), ?_, ?_⟩
    · intro x hx
      exact hlen.symm ▸ htransitions x hx
    · intro l hl
      obtain ⟨k, hk, rfl⟩ := List.mem_map.mp hl
      exact htext.symm ▸ hle k (List.mem_range.mp hk)

theorem withLocaltimes_file (bytes : List UInt8) :
    Reader.withLocaltimes {} (bytes.drop (recordStart bytes)) (recordsIn bytes)
      = ⟨[], (List.range (recordsIn bytes)).map (recordAt bytes), []⟩ := by
  simp only [Reader.withLocaltimes, List.nil_append, List.drop_drop]
  rfl

/-- The abbreviations, when the records and the transitions are there. -/
theorem readText_usable_iff (bytes : List UInt8) {transitions : List Transition}
    (hwhole : textStart bytes ≤ bytes.length)
    (htransitions : ∀ x ∈ transitions, x.localtimeIdx < recordsIn bytes) :
    LeavesUsable ((do
        let abbreviation ← Reader.readBytes (charcnt bytes)
        modify fun s => { s with data := { s.data with abbreviation := abbreviation } } : Reader Unit)
      ⟨bytes.drop (textStart bytes),
        ⟨transitions, (List.range (recordsIn bytes)).map (recordAt bytes), []⟩⟩)
      ↔ 0 ≤ charcnt bytes ∧ 0 < recordsIn bytes ∧
        ∀ k < recordsIn bytes, (recordAt bytes k).arrbIdx ≤ textIn bytes := by
  by_cases hcharcnt : 0 ≤ charcnt bytes
  · rw [and_iff_right hcharcnt]
    refine (Reader.reads_bytes hcharcnt).then (P := fun r => LeavesUsable r ↔ _) ?_ ?_
    · intro hshort rest'
      rw [List.length_drop] at hshort
      exact usable_records_iff bytes htransitions (by rw [textIn, if_neg (by omega)]; rfl)
    · intro hin
      rw [List.length_drop] at hin
      refine usable_records_iff bytes htransitions ?_
      rw [textIn, if_pos (by omega), List.length_take, List.length_drop]
      omega
  · -- The array would have a negative size.
    rw [Reader.readBytes, if_neg hcharcnt]
    constructor
    · exact False.elim
    · exact fun h => absurd h.1 hcharcnt

/-- What follows the records. -/
theorem readRest_usable_iff (bytes : List UInt8) {times : List Int}
    (hwhole : textStart bytes ≤ bytes.length) (htimes : times.length = (timecnt bytes).toNat) :
    LeavesUsable ((do
        Reader.pushTransitions times ((List.range (timecnt bytes).toNat).map (indexAt bytes))
        let abbreviation ← Reader.readBytes (charcnt bytes)
        modify fun s => { s with data := { s.data with abbreviation := abbreviation } } : Reader Unit)
      ⟨bytes.drop (textStart bytes), ⟨[], (List.range (recordsIn bytes)).map (recordAt bytes), []⟩⟩)
      ↔ (∀ i < (timecnt bytes).toNat, indexAt bytes i < recordsIn bytes) ∧ 0 ≤ charcnt bytes ∧
        0 < recordsIn bytes ∧ ∀ k < recordsIn bytes, (recordAt bytes k).arrbIdx ≤ textIn bytes := by
  have hlen : ((List.range (recordsIn bytes)).map (recordAt bytes)).length = recordsIn bytes := by
    rw [List.length_map, List.length_range]
  by_cases hindex : ∀ i < (timecnt bytes).toNat, indexAt bytes i < recordsIn bytes
  · have hindices : ∀ j ∈ (List.range (timecnt bytes).toNat).map (indexAt bytes),
        j < ((List.range (recordsIn bytes)).map (recordAt bytes)).length := by
      intro j hj
      obtain ⟨i, hi, rfl⟩ := List.mem_map.mp hj
      exact hlen.symm ▸ hindex i (List.mem_range.mp hi)
    obtain ⟨transitions, hpush, htransitions⟩ := Reader.pushTransitions_whole times _
      ⟨[], (List.range (recordsIn bytes)).map (recordAt bytes), []⟩ hindices (fun x hx => nomatch hx)
    rw [Reader.bind_ok hpush, and_iff_right hindex]
    exact readText_usable_iff bytes hwhole fun x hx => hlen ▸ htransitions x hx
  · obtain ⟨i, hi, hbad⟩ : ∃ i < (timecnt bytes).toNat, recordsIn bytes ≤ indexAt bytes i := by
      push Not at hindex
      exact hindex
    obtain ⟨s, hfault⟩ := Reader.pushTransitions_fault (bytes.drop (textStart bytes)) times
      ((List.range (timecnt bytes).toNat).map (indexAt bytes))
      ⟨[], (List.range (recordsIn bytes)).map (recordAt bytes), []⟩
      (by rw [List.length_map, List.length_range, htimes])
      ⟨indexAt bytes i, List.mem_map_of_mem (List.mem_range.mpr hi), hlen.symm ▸ hbad⟩
    rw [Reader.bind_error hfault]
    constructor
    · exact False.elim
    · exact fun h => absurd h.1 hindex

/-- The records and what follows them, in a file with a header. -/
theorem readRecords_usable_iff (bytes : List UInt8) (times : List Int)
    (hmagic : bytes.take 4 = ascii ['T', 'Z', 'i', 'f']) (hheader : 44 ≤ bytes.length)
    (htimecnt : 0 ≤ timecnt bytes) (htimes : times.length = (timecnt bytes).toNat)
    (hstart : recordStart bytes ≤ bytes.length) :
    LeavesUsable ((do
        Reader.readLocaltimes (typecnt bytes).toNat
        Reader.pushTransitions times ((List.range (timecnt bytes).toNat).map (indexAt bytes))
        let abbreviation ← Reader.readBytes (charcnt bytes)
        modify fun s => { s with data := { s.data with abbreviation := abbreviation } } : Reader Unit)
      ⟨bytes.drop (recordStart bytes), {}⟩) ↔ UsableFile bytes := by
  have hlen : (bytes.drop (recordStart bytes)).length = bytes.length - recordStart bytes :=
    List.length_drop
  by_cases hwhole : textStart bytes ≤ bytes.length
  · have hrecords : recordsIn bytes = (typecnt bytes).toNat := by
      rw [recordsIn]
      rw [textStart] at hwhole
      omega
    have hread := Reader.readLocaltimes_whole (recordsIn bytes) (bytes.drop (recordStart bytes)) {}
      (by rw [hlen, hrecords]; rw [textStart] at hwhole; omega)
    rw [withLocaltimes_file, List.drop_drop, hrecords, ← textStart, ← hrecords] at hread
    rw [← hrecords, Reader.bind_ok hread, readRest_usable_iff bytes hwhole htimes]
    constructor
    · rintro ⟨hindex, hcharcnt, hrecord, htext⟩
      exact ⟨hmagic, hheader, htimecnt, hrecord, fun _ i hi => hrecords ▸ hindex i hi,
        fun _ => hcharcnt, htext⟩
    · intro h
      exact ⟨fun i hi => hrecords.symm ▸ h.index_lt hwhole i hi, h.charcnt_nonneg hwhole, h.record,
        h.text⟩
  · -- The file ends in the records. Those that are whole were kept.
    have hshort : bytes.length - recordStart bytes < 6 * (typecnt bytes).toNat := by
      rw [textStart] at hwhole
      omega
    have hrecords : recordsIn bytes = (bytes.length - recordStart bytes) / 6 := by
      rw [recordsIn]
      omega
    have htext : textIn bytes = 0 := by
      rw [textIn, if_neg (by omega)]
    obtain ⟨rest', hstop⟩ :=
      Reader.readLocaltimes_short (typecnt bytes).toNat (bytes.drop (recordStart bytes)) {} (by omega)
    rw [hlen, ← hrecords, withLocaltimes_file] at hstop
    rw [Reader.bind_error hstop]
    have hno : ∀ x ∈ ([] : List Transition), x.localtimeIdx < recordsIn bytes := fun x hx => nomatch hx
    have hnone : ([] : List UInt8).length = textIn bytes := htext.symm
    refine (usable_records_iff bytes hno hnone).trans ?_
    constructor
    · rintro ⟨hrecord, hle⟩
      exact ⟨hmagic, hheader, htimecnt, hrecord, fun h => absurd h hwhole,
        fun h => absurd h hwhole, hle⟩
    · intro h
      exact ⟨h.record, h.text⟩

/-- The data is usable exactly when the file is. -/
theorem readZone_usable_iff (bytes : List UInt8) :
    LeavesUsable (Reader.readZone ⟨bytes, {}⟩) ↔ UsableFile bytes := by
  -- As long as no record was read the data is empty.
  have hempty : ¬ UsableFile bytes → ∀ rest',
      (LeavesUsable (.error .logicError ⟨rest', {}⟩) ↔ UsableFile bytes) :=
    fun hnot _ => iff_of_false not_usable_empty hnot
  rw [Reader.readZone]
  by_cases hheader : bytes.take 4 = ascii ['T', 'Z', 'i', 'f'] ∧ 44 ≤ bytes.length
  · rw [Reader.bind_ok (Reader.readHeader_whole _ hheader.1 hheader.2)]
    by_cases hneg : timecnt bytes < 0
    · simp only [if_pos hneg]
      exact hempty (fun h => absurd h.timecnt_nonneg (by omega)) _
    · simp only [if_neg hneg]
      refine (Reader.reads_many Reader.reads_int32 _).then (P := fun r => LeavesUsable r ↔ _) ?_ ?_
      · intro hshort
        rw [List.length_drop] at hshort
        exact hempty fun h => absurd h.recordStart_lt (by rw [recordStart]; omega)
      intro htimes
      refine (Reader.reads_many Reader.reads_uint8 _).then (P := fun r => LeavesUsable r ↔ _) ?_ ?_
      · intro hshort
        rw [List.length_drop, List.length_drop] at hshort
        exact hempty fun h => absurd h.recordStart_lt (by rw [recordStart]; omega)
      intro hindices
      rw [List.length_drop, List.length_drop] at hindices
      have hrest := readRecords_usable_iff bytes
        ((List.range (timecnt bytes).toNat).map fun i => int32Of (bytes.drop (44 + i * 4)))
        hheader.1 hheader.2 (by omega) (by rw [List.length_map, List.length_range])
        (by rw [recordStart]; omega)
      have hindexStart : 44 + (timecnt bytes).toNat * 4 = indexStart bytes := by
        rw [indexStart]
        omega
      have hrecordStart : indexStart bytes + (timecnt bytes).toNat = recordStart bytes := by
        rw [indexStart, recordStart]
        omega
      simp only [List.drop_drop, Nat.mul_one, hindexStart, hrecordStart]
      exact hrest
  · obtain ⟨rest', hstop⟩ := Reader.readHeader_short {} hheader
    rw [Reader.bind_error hstop]
    exact hempty (fun h => hheader ⟨h.magic, h.header⟩) rest'

/-! ### The conversions -/

section
variable {data : Data} (libc : Libc)

/-- For usable data `toLocalTime` returns. -/
theorem Data.toLocalTime_returns (h : Usable data) (seconds : Int) :
    Returns (data.toLocalTime libc seconds) fun _ => True := by
  obtain ⟨l, hmem, hfound⟩ := findLocaltime_mem h ⟨seconds, 0, 0⟩ ⟨true⟩
  rw [Data.toLocalTime, hfound]
  exact Ends.assert (h.arrbIdx_le l hmem) trivial

/-- For usable data `fromLocalTime` returns. -/
theorem Data.fromLocalTime_returns (h : Usable data) (localTm : Tm) :
    Returns (data.fromLocalTime libc localTm) fun _ => True := by
  obtain ⟨l, hmem, hfound⟩ := findLocaltime_mem h ⟨0, libc.timegm localTm.toBrokenDown, 0⟩ ⟨false⟩
  rw [Data.fromLocalTime]
  simp only [hfound, ok_bind]
  split_ifs
  · refine (Data.toLocalTime_returns libc h _).bind fun tryTm _ => ?_
    split_ifs <;> trivial
  · trivial

end

/-- Whether a `TimeZone` can be used: if it is valid, its data is usable and
the conversions return for every argument. -/
def UsableWhenValid (tz : TimeZone) : Prop :=
  tz.valid = true → (∃ data, tz.data_ = some data ∧ Usable data) ∧
    ∀ libc, (∀ seconds, Returns (tz.toLocalTime libc seconds) fun _ => True) ∧
      ∀ localTm, Returns (tz.fromLocalTime libc localTm) fun _ => True

theorem usableWhenValid_iff (data : Data) : UsableWhenValid ⟨some data⟩ ↔ Usable data := by
  constructor
  · intro h
    obtain ⟨⟨data', hdata, husable⟩, -⟩ := h rfl
    exact Option.some.inj hdata ▸ husable
  · intro h _
    exact ⟨⟨data, rfl, h⟩, fun libc =>
      ⟨Data.toLocalTime_returns libc h, Data.fromLocalTime_returns libc h⟩⟩

/-- Loading a zone file stays in bounds and gives a zone that can be used if it
is valid, exactly for the files with `UsableFile`. A file that is missing gives
a valid zone without a record of local time. -/
theorem zonefile_usable_iff (content : Option (List UInt8)) :
    Returns (ofZonefile content) UsableWhenValid ↔ ∃ bytes, content = some bytes ∧ UsableFile bytes := by
  cases content with
  | none =>
      constructor
      · intro h
        exact absurd ((usableWhenValid_iff {}).mp h) not_usable_empty
      · rintro ⟨bytes, hnone, -⟩
        cases hnone
  | some bytes =>
      have hload : Returns (ofZonefile (some bytes)) UsableWhenValid
          ↔ LeavesUsable (Reader.readZone ⟨bytes, {}⟩) := by
        rw [ofZonefile, readTimeZoneFile]
        cases Reader.readZone ⟨bytes, {}⟩ with
        | ok _ s => exact usableWhenValid_iff s.data
        | error stop s =>
            cases stop with
            | logicError => exact usableWhenValid_iff s.data
            | fault f => exact Iff.rfl
      rw [hload, readZone_usable_iff]
      constructor
      · intro h
        exact ⟨bytes, rfl, h⟩
      · rintro ⟨bytes', hbytes, h⟩
        exact Option.some.inj hbytes ▸ h

/-- A file that is missing. The zone is valid, and the first conversion reads
past the end of `localtimes`. -/
theorem zonefile_missing_valid : ∃ tz, ofZonefile none = .ok tz ∧ tz.valid = true ∧
    tz.data_ = some {} ∧ ∀ libc seconds, tz.toLocalTime libc seconds = .error .localtimes :=
  ⟨⟨some {}⟩, rfl, rfl, rfl, fun _ _ => rfl⟩

end Muduo.Base.TimeZone
