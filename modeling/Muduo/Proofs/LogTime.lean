import Mathlib.Data.List.TakeWhile
import Muduo.Base.Logging
import Muduo.Proofs.LogStream

/-!
# `Muduo.Proofs.LogTime`: the time of a log record and its cache

`formatTime` computes the text of a second once and then takes it from
`t_time`. The second is the only key of this cache, but the text depends on the
zone as well, and `setTimeZone` leaves the cache alone. So the first records
after a change of the zone can have the time of the old zone. Whether the
`Z` behind the microseconds is there is not cached, which makes such a record
look like one of the new zone.

`freshText` is the text without a cache. `stamp_miss` and `stamp_hit` say what
a record gets, and `Filled` is the invariant of the cache: it holds the text
for its second in the zone `filledBy`. A record is right exactly when its
second is a new one or the two zones agree on it (`Agrees`).
-/

set_option autoImplicit false

namespace Muduo.Base

open Muduo.Lib

namespace Logger

/-! ### Texts without a zero byte -/

/-- `str` has no terminating byte inside. -/
def NoNul (str : List UInt8) : Prop := ∀ c ∈ str, c ≠ 0

instance (str : List UInt8) : Decidable (NoNul str) :=
  decidable_of_iff (str.all (· != 0) = true) (by
    rw [List.all_eq_true]
    exact forall₂_congr fun _ _ => bne_iff_ne)

theorem NoNul.append {a b : List UInt8} (ha : NoNul a) (hb : NoNul b) : NoNul (a ++ b) := by
  intro c hc
  exact (List.mem_append.mp hc).elim (ha c) (hb c)

theorem NoNul.strlen_eq {str : List UInt8} (h : NoNul str) : LogStream.strlen str = str.length := by
  rw [LogStream.strlen, List.takeWhile_eq_self_iff.mpr]
  intro c hc
  exact decide_eq_true (h c hc)

theorem noNul_replicate {n : Nat} {c : UInt8} (h : c ≠ 0) : NoNul (List.replicate n c) := by
  intro d hd
  rw [List.eq_of_mem_replicate hd]
  exact h

theorem noNul_decimal (n : Nat) : NoNul (decimal.text n) := by
  intro c hc
  obtain ⟨d, hd, rfl⟩ := Glyphs.mem_text (by decide) hc
  have hglyph : ∀ d < 10, decimal.glyph d ≠ 0 := by decide
  exact hglyph d hd

theorem noNul_minus : NoNul [minus] := by decide

theorem noNul_decimalText (v : Int) : NoNul (decimalText v) := by
  unfold decimalText
  split
  · exact noNul_minus.append (noNul_decimal _)
  · exact noNul_decimal _

theorem noNul_padSpace (width : Nat) (v : Int) : NoNul (padSpace width v) :=
  (noNul_replicate (by decide)).append (noNul_decimalText v)

theorem noNul_padZero (width : Nat) (v : Int) : NoNul (padZero width v) := by
  unfold padZero
  split
  · exact noNul_minus.append ((noNul_replicate (by decide)).append (noNul_decimal _))
  · exact (noNul_replicate (by decide)).append (noNul_decimalText v)

/-- Six digits for a number of microseconds. -/
theorem length_padZero_six {v : Int} (h0 : 0 ≤ v) (h : v < 1000000) : (padZero 6 v).length = 6 := by
  have hlen := length_decimalText_le (v := v) (k := 6) (by decide) (by omega)
  rw [if_neg (by omega)] at hlen
  rw [padZero, if_neg (by omega), List.length_append, List.length_replicate]
  omega

/-! ### The parts of the text -/

variable {libc : TimeZone.Libc} {zone : TimeZone} {time : Timestamp}

/-- After the epoch second the microseconds are not negative. -/
theorem microsecondsOf_bounds (h : 1 ≤ secondsOf time) :
    0 ≤ microsecondsOf time ∧ microsecondsOf time < 1000000 := by
  unfold secondsOf kMicroSecondsPerSecond at h
  unfold microsecondsOf kMicroSecondsPerSecond castInt
  obtain ⟨_, hdiv, hmod⟩ | ⟨_, hdiv, hmod⟩ := Checked.tdiv_tmod_cases time (1000 * 1000)
  · rw [hmod, Int.bmod_def]
    split <;> omega
  · omega

/-- The bytes behind the second. -/
def suffix (zone : TimeZone) (time : Timestamp) : List UInt8 :=
  [46] ++ padZero 6 (microsecondsOf time) ++ if zone.valid then [32] else [90, 32]

/-- The length that `formatTime` gives for them. -/
def suffixLength (zone : TimeZone) : Nat := if zone.valid then 8 else 9

/-- The fraction and the `Z` have a fixed length, since the microseconds have six digits. -/
theorem length_suffix (h : 1 ≤ secondsOf time) : (suffix zone time).length = suffixLength zone := by
  obtain ⟨h0, hlt⟩ := microsecondsOf_bounds h
  unfold suffix suffixLength
  split <;> simp [length_padZero_six h0 hlt]

theorem noNul_suffix : NoNul (suffix zone time) := by
  have hdot : NoNul [46] := by decide
  have hend : NoNul (if zone.valid then [32] else [90, 32]) := by
    split <;> decide
  exact (hdot.append (noNul_padZero 6 _)).append hend

/-- The `assert` on the length of the text holds. -/
theorem microText_eq (h : 1 ≤ secondsOf time) :
    microText zone (microsecondsOf time) = .ok (suffix zone time) := by
  have hlen : (suffix zone time).length = suffixLength zone := length_suffix h
  unfold suffix suffixLength at hlen
  unfold microText suffix
  split
  · rename_i hvalid
    rw [if_pos hvalid, if_pos hvalid] at hlen
    dsimp only
    rw [assertThat_pos hlen]
    rfl
  · rename_i hvalid
    rw [if_neg hvalid, if_neg hvalid] at hlen
    dsimp only
    rw [assertThat_pos hlen]
    rfl

/-- A text for `t_time` has 17 bytes, none of them zero. -/
theorem timeText_spec {seconds : Int} {text : List UInt8}
    (h : timeText libc zone seconds = .ok text) : text.length = 17 ∧ NoNul text := by
  unfold timeText at h
  obtain ⟨tm, _, h⟩ := except_bind_eq_ok.mp h
  obtain ⟨year, _, h⟩ := except_bind_eq_ok.mp h
  obtain ⟨month, _, h⟩ := except_bind_eq_ok.mp h
  obtain ⟨_, hassert, h⟩ := except_bind_eq_ok.mp h
  have hlen := of_assertThat hassert
  cases h
  refine ⟨hlen, ?_⟩
  have hblank : NoNul [32] := by decide
  have hcolon : NoNul [58] := by decide
  exact ((((((((noNul_padSpace 4 year).append (noNul_padZero 2 month)).append
    (noNul_padZero 2 _)).append hblank).append (noNul_padZero 2 _)).append hcolon).append
    (noNul_padZero 2 _)).append hcolon).append (noNul_padZero 2 _)

/-! ### What is written -/

/-- `T` with the right length adds its text. -/
theorem insertT_returns {s : LogStream} (h : LogStream.Inv s) {str : List UInt8} (hstr : NoNul str)
    {n : BitVec 32} (hlen : str.length = n.toNat) (hn : n.toNat < kSmallBuffer) :
    Returns (insertT s str n) fun t =>
      LogStream.Inv t ∧ t.contents = (LogStream.Piece.text str str.length).addTo s.contents := by
  have hint : n.toInt = (n.toNat : Int) := by
    rw [kSmallBuffer] at hn
    rw [BitVec.toInt_eq_toNat_cond]
    split <;> omega
  have hsize : intToSize n.toInt = str.length := by
    rw [hint, hlen, intToSize_eq (by rw [sizeModulus]; omega)]
  rw [insertT, assertThat_pos (hstr.strlen_eq.trans hlen), ok_bind, LogStream.appendInt, hsize]
  exact Ends.mapError (Ends.of_returns (h.append fun _ => le_refl _))

/-- Two texts that are short enough both go into a new stream. -/
theorem insertT_two {data_ : List UInt8} (hdata : data_.length = kSmallBuffer) {a b : List UInt8}
    (ha : NoNul a) (hb : NoNul b) {m n : BitVec 32} (hm : a.length = m.toNat)
    (hn : b.length = n.toNat) (hroom : a.length + b.length < kSmallBuffer) :
    Returns (insertT (LogStream.new data_) a m >>= fun stream => insertT stream b n) fun t =>
      LogStream.Inv t ∧ t.contents = a ++ b := by
  have hnew := LogStream.inv_new hdata
  have hempty : (LogStream.new data_).contents = [] := List.take_zero
  refine Ends.bind (insertT_returns hnew ha hm (by omega)) ?_
  intro s hs
  have hfirst : s.contents = a := by
    rw [hs.2, hempty, LogStream.Piece.addTo_all (by rw [List.length_nil]; omega), List.nil_append]
  refine (insertT_returns hs.1 hb hn (by omega)).imp ?_
  intro t ht
  refine ⟨ht.1, ?_⟩
  rw [ht.2, hfirst, LogStream.Piece.addTo_all hroom]

/-- What `formatTime` does with a cache that is up to date. -/
theorem formatTime_returns {data_ : List UInt8} (hdata : data_.length = kSmallBuffer)
    {cache cache' : TimeCache} (h : 1 ≤ secondsOf time)
    (hcache : cache.update libc zone (secondsOf time) = .ok cache')
    (hlen : cache'.t_time.length = 17) (hnul : NoNul cache'.t_time) :
    Returns (formatTime libc zone cache time (LogStream.new data_)) fun r =>
      r.1 = cache' ∧ LogStream.Inv r.2 ∧ r.2.contents = cache'.t_time ++ suffix zone time := by
  have hsuffix : (suffix zone time).length = suffixLength zone := length_suffix h
  have hbound : suffixLength zone ≤ 9 := by
    unfold suffixLength
    split <;> omega
  have hnine : (suffix zone time).length = (if zone.valid then 8 else 9 : BitVec 32).toNat := by
    rw [hsuffix, suffixLength]
    split <;> rfl
  have htwo := insertT_two hdata hnul noNul_suffix (m := 17) hlen hnine
    (by rw [kSmallBuffer]; omega)
  obtain ⟨s, hs, hinv, hcontents⟩ := Ends.exists_ok htwo
  obtain ⟨s₁, hs₁, hs₂⟩ := except_bind_eq_ok.mp hs
  rw [formatTime, hcache, ok_bind, microText_eq h, ok_bind, hs₁, ok_bind, hs₂, ok_bind]
  exact Ends.ok ⟨rfl, hinv, hcontents⟩

/-! ### The cache -/

variable {data_ : List UInt8} {t : Thread}

/-- The text of a record without a cache: from its time and the zone in force. -/
def freshText (libc : TimeZone.Libc) (zone : TimeZone) (time : Timestamp) :
    Except Fault (List UInt8) := do
  let text ← timeText libc zone (secondsOf time)
  let us ← microText zone (microsecondsOf time)
  return text ++ us

/-- The text of a record, as the code writes it. -/
def stampText (libc : TimeZone.Libc) (data_ : List UInt8) (t : Thread) (time : Timestamp) :
    Except Fault (List UInt8) := (stamp libc data_ t time).map Prod.snd

/-- The text of a record when nothing is cached. -/
theorem freshText_ok {text : List UInt8} (h : 1 ≤ secondsOf time)
    (htext : timeText libc zone (secondsOf time) = .ok text) :
    freshText libc zone time = .ok (text ++ suffix zone time) := by
  rw [freshText, htext, ok_bind, microText_eq h]
  rfl

theorem freshText_error {f : Fault} (htext : timeText libc zone (secondsOf time) = .error f) :
    freshText libc zone time = .error f := by
  rw [freshText, htext]
  rfl

/-- Whatever the cache holds after the update, with 17 bytes it is inserted in front of the suffix.
-/
theorem stamp_eq (hdata : data_.length = kSmallBuffer) {cache' : TimeCache}
    (h : 1 ≤ secondsOf time)
    (hcache : t.cache.update libc t.g_logTimeZone (secondsOf time) = .ok cache')
    (hlen : cache'.t_time.length = 17) (hnul : NoNul cache'.t_time) :
    stamp libc data_ t time = .ok (cache', cache'.t_time ++ suffix t.g_logTimeZone time) := by
  obtain ⟨⟨cache, stream⟩, hr, rfl, _, hcontents⟩ :=
    Ends.exists_ok (formatTime_returns hdata h hcache hlen hnul)
  rw [stamp, hr, ok_bind]
  show Except.ok (cache, stream.contents) = _
  rw [hcontents]

/-- A new second: the text is computed in the zone in force. -/
theorem stamp_miss (hdata : data_.length = kSmallBuffer) (h : 1 ≤ secondsOf time)
    (hnew : secondsOf time ≠ t.cache.t_lastSecond) {text : List UInt8}
    (htext : timeText libc t.g_logTimeZone (secondsOf time) = .ok text) :
    stamp libc data_ t time
      = .ok (⟨text, secondsOf time⟩, text ++ suffix t.g_logTimeZone time) := by
  obtain ⟨hlen, hnul⟩ := timeText_spec htext
  refine stamp_eq hdata h ?_ hlen hnul
  rw [TimeCache.update, if_pos hnew, htext]
  rfl

/-- In a new second the time text is made, and its fault is the fault of the record. -/
theorem stamp_miss_error (hnew : secondsOf time ≠ t.cache.t_lastSecond) {f : Fault}
    (htext : timeText libc t.g_logTimeZone (secondsOf time) = .error f) :
    stamp libc data_ t time = .error f := by
  rw [stamp, formatTime, TimeCache.update, if_pos hnew, htext]
  rfl

/-- The second of the cache: the text is the one that is there. -/
theorem stamp_hit (hdata : data_.length = kSmallBuffer) (h : 1 ≤ secondsOf time)
    (hold : secondsOf time = t.cache.t_lastSecond)
    (hfilled : timeText libc t.filledBy t.cache.t_lastSecond = .ok t.cache.t_time) :
    stamp libc data_ t time = .ok (t.cache, t.cache.t_time ++ suffix t.g_logTimeZone time) := by
  obtain ⟨hlen, hnul⟩ := timeText_spec hfilled
  refine stamp_eq hdata h ?_ hlen hnul
  rw [TimeCache.update, if_neg (not_not.mpr hold)]

/-- The cache is empty, or it has the text of its second in the zone `filledBy`. -/
def Filled (libc : TimeZone.Libc) (t : Thread) : Prop :=
  t.cache.t_lastSecond = 0 ∨ timeText libc t.filledBy t.cache.t_lastSecond = .ok t.cache.t_time

/-- A record fills the cache for its second, and a change of the zone leaves it. -/
theorem filled_step (hdata : data_.length = kSmallBuffer) {e : Step} {u : Thread}
    (hfilled : Filled libc t) (hen : (threadMachine libc data_).enabled t e)
    (hst : (threadMachine libc data_).step t e = .ok u) : Filled libc u := by
  cases e with
  | setTimeZone tz =>
      cases hst
      exact hfilled
  | log time =>
      have h : 1 ≤ secondsOf time := hen.2
      obtain ⟨⟨cache, text⟩, hstamp, hu⟩ := except_bind_eq_ok.mp hst
      by_cases hold : secondsOf time = t.cache.t_lastSecond
      · have hnow : timeText libc t.filledBy t.cache.t_lastSecond = .ok t.cache.t_time := by
          obtain hzero | hnow := hfilled
          · omega
          · exact hnow
        rw [stamp_hit hdata h hold hnow] at hstamp
        cases hstamp
        cases hu
        rw [Filled, if_neg (not_not.mpr hold)]
        exact .inr hnow
      · cases htext : timeText libc t.g_logTimeZone (secondsOf time) with
        | error f =>
            rw [stamp_miss_error hold htext] at hstamp
            cases hstamp
        | ok fresh =>
            rw [stamp_miss hdata h hold htext] at hstamp
            cases hstamp
            cases hu
            rw [Filled, if_pos hold]
            exact .inr htext

/-- The record of a new second, or of one on which the zone in force and the zone of the cache
agree. -/
def Agrees (libc : TimeZone.Libc) (t : Thread) (time : Timestamp) : Prop :=
  secondsOf time ≠ t.cache.t_lastSecond ∨
    timeText libc t.g_logTimeZone (secondsOf time) = timeText libc t.filledBy (secondsOf time)

/-- One record gets the fresh text exactly when it agrees with the cache. -/
theorem stampText_eq_iff (hdata : data_.length = kSmallBuffer) (h : 1 ≤ secondsOf time)
    (hfilled : Filled libc t) :
    stampText libc data_ t time = freshText libc t.g_logTimeZone time ↔ Agrees libc t time := by
  by_cases hold : secondsOf time = t.cache.t_lastSecond
  · have hnow : timeText libc t.filledBy (secondsOf time) = .ok t.cache.t_time := by
      obtain hzero | hnow := hfilled
      · omega
      · rw [hold]
        exact hnow
    rw [stampText, stamp_hit hdata h hold (hold ▸ hnow), Agrees, hnow]
    cases htext : timeText libc t.g_logTimeZone (secondsOf time) with
    | error f =>
        rw [freshText_error htext]
        simp [hold, Except.map]
    | ok fresh =>
        rw [freshText_ok h htext]
        simp [hold, Except.map, eq_comm]
  · have hagrees : Agrees libc t time := .inl hold
    refine iff_of_true ?_ hagrees
    cases htext : timeText libc t.g_logTimeZone (secondsOf time) with
    | error f =>
        rw [stampText, stamp_miss_error hold htext, freshText_error htext]
        rfl
    | ok fresh =>
        rw [stampText, stamp_miss hdata h hold htext, freshText_ok h htext]
        rfl

/-- The texts that the steps of a run write. -/
def written (libc : TimeZone.Libc) (data_ : List UInt8) (t : Thread) :
    Step → List (Except Fault (List UInt8))
  | .log time => [stampText libc data_ t time]
  | .setTimeZone _ => []

/-- The texts that they write when nothing is cached. -/
def writtenFresh (libc : TimeZone.Libc) (t : Thread) : Step → List (Except Fault (List UInt8))
  | .log time => [freshText libc t.g_logTimeZone time]
  | .setTimeZone _ => []

/-- Every record agrees with the cache it finds. -/
def StepAgrees (libc : TimeZone.Libc) (t : Thread) : Step → Prop
  | .log time => Agrees libc t time
  | .setTimeZone _ => True

/-- A thread that has not logged yet. -/
def Thread.start (zone : TimeZone) : Thread := { g_logTimeZone := zone }

/-- In every reachable state the cache holds the text of its second, in some zone. -/
theorem filled_of_run (hdata : data_.length = kSmallBuffer) {es : List Step}
    (hrun : Machine.Run (threadMachine libc data_) (Thread.start zone) es t) : Filled libc t :=
  hrun.invariant (.inl rfl) fun _ _ _ hfilled hen hst => filled_step hdata hfilled hen hst

/-- The time cache is transparent for exactly the records that agree with it. In a run whose
records all agree, each gets the text that is computed afresh from its time and the zone in force.
A record that does not agree, after any run, gets another text. -/
theorem time_cache_transparent_iff (libc : TimeZone.Libc) (data_ : List UInt8)
    (hdata : data_.length = kSmallBuffer) (zone : TimeZone) :
    (∀ es t, Machine.Run ((threadMachine libc data_).restrict (StepAgrees libc))
        (Thread.start zone) es t →
      (threadMachine libc data_).seen (written libc data_) (Thread.start zone) es
        = (threadMachine libc data_).seen (writtenFresh libc) (Thread.start zone) es) ∧
    ∀ es t, Machine.Run (threadMachine libc data_) (Thread.start zone) es t →
      ∀ time, (threadMachine libc data_).enabled t (.log time) →
        (stampText libc data_ t time = freshText libc t.g_logTimeZone time ↔
          Agrees libc t time) := by
  constructor
  · intro es t hrun
    -- Induction on the run: the texts so far agree, and the last step writes one text or none.
    induction hrun with
    | nil => rfl
    | snoc hrun hen hst ih =>
        rename_i es t u e
        have hplain := hrun.of_restrict
        rw [hplain.seen_append, hplain.seen_append, ih]
        have hout : written libc data_ t e = writtenFresh libc t e := by
          cases e with
          | setTimeZone tz => rfl
          | log time =>
              have hone := (stampText_eq_iff hdata hen.1.2 (filled_of_run hdata hplain)).mpr hen.2
              exact congrArg (fun x => [x]) hone
        simp only [Machine.seen, hout]
  · intro es t hrun time hen
    exact stampText_eq_iff hdata hen.2 (filled_of_run hdata hrun)

/-- A C library with the calendar of `toUtcTime`. -/
def utcLibc : TimeZone.Libc where
  gmtime_r seconds :=
    match toUtcTime seconds false with
    | .ok utc => utc.toBrokenDown
    | .error _ => {}
  timegm _ := 0

/-- China Standard Time. -/
def cst : TimeZone := TimeZone.ofFixed (8 * 3600) (ascii ['C', 'S', 'T'])

/-- The text of the first second after the epoch, in UTC. -/
def firstSecond : List UInt8 :=
  ascii ['1', '9', '7', '0', '0', '1', '0', '1', ' ', '0', '0', ':', '0', '0', ':', '0', '1']

/-- A thread that has logged in that second in UTC, with `zone` in force now. -/
def logged (zone : TimeZone) : Thread := ⟨⟨firstSecond, 1⟩, zone, {}⟩

theorem timeText_firstSecond : timeText utcLibc {} (secondsOf 1000000) = .ok firstSecond := by
  decide +kernel

/-- The first record of a thread fills the cache. -/
theorem run_firstSecond :
    Machine.Run (threadMachine utcLibc (List.replicate kSmallBuffer 0)) (Thread.start {})
      [.log 1000000] (logged {}) := by
  have hdata : (List.replicate kSmallBuffer (0 : UInt8)).length = kSmallBuffer :=
    List.length_replicate
  have hstamp := stamp_miss (t := Thread.start {}) hdata (by decide) (by decide)
    timeText_firstSecond
  refine Machine.Run.single (show InRange 64 1000000 ∧ 1 ≤ secondsOf 1000000 by decide) ?_
  rw [threadMachine]
  dsimp only
  rw [hstamp]
  rfl

/-- A record, a change of the zone and a record in the same second: the second record has the hour
of UTC, without the `Z`. -/
theorem time_cache_stale :
    Machine.Run (threadMachine utcLibc (List.replicate kSmallBuffer 0)) (Thread.start {})
        [.log 1000000, .setTimeZone cst] (logged cst) ∧
      stampText utcLibc (List.replicate kSmallBuffer 0) (logged cst) 1500000
        = .ok (ascii ['1', '9', '7', '0', '0', '1', '0', '1', ' ', '0', '0', ':', '0', '0', ':',
            '0', '1', '.', '5', '0', '0', '0', '0', '0', ' ']) ∧
      freshText utcLibc cst 1500000
        = .ok (ascii ['1', '9', '7', '0', '0', '1', '0', '1', ' ', '0', '8', ':', '0', '0', ':',
            '0', '1', '.', '5', '0', '0', '0', '0', '0', ' ']) := by
  refine ⟨Machine.Run.snoc run_firstSecond trivial rfl, ?_, by decide +kernel⟩
  rw [stampText, stamp_hit List.length_replicate (by decide) (by decide) timeText_firstSecond]
  decide +kernel

/-- A record that fills the cache and one half a second later that finds it filled. -/
theorem time_cache_transparent_iff_hit :
    Machine.Run (threadMachine utcLibc (List.replicate kSmallBuffer 0)) (Thread.start {})
        [.log 1000000] (logged {}) ∧
      secondsOf 1500000 = (logged {}).cache.t_lastSecond ∧
      stampText utcLibc (List.replicate kSmallBuffer 0) (logged {}) 1500000
        = freshText utcLibc {} 1500000 :=
  ⟨run_firstSecond, by decide,
    ((time_cache_transparent_iff utcLibc (List.replicate kSmallBuffer 0) List.length_replicate {}).2
      [.log 1000000] (logged {}) run_firstSecond 1500000 ⟨by decide, by decide⟩).mpr (.inr rfl)⟩

end Logger

end Muduo.Base
