import Muduo.Base.LogFile
import Muduo.Lib.Outcome
import Muduo.Proofs.UtcTime

/-!
# `Muduo.Proofs.LogFile`: what is in which file

* `append_spec`: the loop of `AppendFile::append` puts a first part of its
  line behind what is there, and all of it unless a call of `fwrite` takes
  nothing.
* `timebuf_inj`: the time in a name fixes the second. So a `LogFile`, which
  opens its files at increasing seconds, never opens a file twice.
* `files_hold_lines`: after every run, each line that was appended is in
  one file, in the order of the calls, and no file is written by two
  `AppendFile`s.
* `files_bounded`: a file gets a further line beyond `rollSize_` bytes only
  as long as the clock has not passed the second in which it was opened.

A step of a `LogFile` writes to the current file, and may then close it and
open a new one. In between, the current file may be over `rollSize_`:
`Ready` is what holds then, and `Inv` what holds between two steps.
-/

set_option autoImplicit false

namespace Muduo.Base

open Muduo.Lib

/-! ### `AppendFile` -/

namespace FileUtil.AppendFile

variable {f : AppendFile}

/-- `g` is `f` with a first part of `data` behind the content, and with all of
it under the condition `W`. -/
def Puts (f g : AppendFile) (data : List UInt8) (W : Prop) : Prop :=
  ∃ part, part <+: data ∧ g = { f with content := f.content ++ part } ∧ (W → part = data)

/-- A call of `write` and what comes behind it. -/
theorem Puts.write {g : AppendFile} {data : List UInt8} {n : Nat} {W : Prop}
    (h : Puts { f with content := f.content ++ data.take n } g (data.drop n) W) :
    Puts f g data W := by
  obtain ⟨part, ⟨rest, hrest⟩, heq, hwhole⟩ := h
  refine ⟨data.take n ++ part, ⟨rest, ?_⟩, ?_, ?_⟩
  · rw [List.append_assoc, hrest, List.take_append_drop]
  · rw [heq, List.append_assoc]
  · intro hw
    rw [hwhole hw, List.take_append_drop]

/-- The loop of `append`. Each round writes a part of the rest, until nothing is left or `fwrite`
takes nothing. -/
theorem appendRemaining_puts (writes : Nat → Nat) {fuel : Nat} (k : Nat) {remain : List UInt8}
    (hfuel : remain.length ≤ fuel) (f : AppendFile) :
    Puts f (appendRemaining writes fuel k remain f) remain (∀ i, 0 < writes i) := by
  induction fuel generalizing k remain f with
  | zero =>
      refine ⟨[], List.nil_prefix, by rw [appendRemaining, List.append_nil], ?_⟩
      exact fun _ => (List.length_eq_zero_iff.mp (Nat.le_zero.mp hfuel)).symm
  | succ fuel ih =>
      rw [appendRemaining]
      by_cases hpos : 0 < remain.length
      · have hwrite : f.write remain (writes k) = (min (writes k) remain.length,
            { f with content := f.content ++ remain.take (min (writes k) remain.length) }) := rfl
        rw [if_pos hpos, hwrite]
        simp only
        by_cases hzero : min (writes k) remain.length = 0
        · -- `break`
          rw [if_pos hzero, hzero]
          refine ⟨[], List.nil_prefix, rfl, ?_⟩
          intro hall
          have hk := hall k
          omega
        · rw [if_neg hzero]
          exact Puts.write (ih (k + 1) (by rw [List.length_drop]; omega) _)
      · rw [if_neg hpos]
        have hnil : remain = [] := List.length_eq_zero_iff.mp (by omega)
        exact ⟨[], List.nil_prefix, by rw [List.append_nil], fun _ => hnil.symm⟩

/-- A line is put behind the content, up to the first `fwrite` that takes nothing. -/
theorem append_spec (f : AppendFile) (logline : List UInt8) (writes : Nat → Nat) :
    ∃ part, part <+: logline ∧
      f.append logline writes = { f with
        content := f.content ++ part
        writtenBytes_ := f.writtenBytes_ + logline.length } ∧
      ((∀ i, 0 < writes i) → part = logline) := by
  have hfuel : (logline.drop (min (writes 0) logline.length)).length ≤ logline.length := by
    rw [List.length_drop]
    omega
  have hrest := appendRemaining_puts writes 1 hfuel
    { f with content := f.content ++ logline.take (min (writes 0) logline.length) }
  obtain ⟨part, hpart, heq, hwhole⟩ := Puts.write hrest
  refine ⟨part, hpart, ?_, hwhole⟩
  simp only [append, write, heq]

end FileUtil.AppendFile

open FileUtil

namespace LogFile

/-! ### Names -/

theorem padZero_digits : ∀ v : Fin 100, Logger.padZero 2 v.val =
    [UInt8.ofNat (48 + v.val / 10), UInt8.ofNat (48 + v.val % 10)] := by
  decide +kernel

/-- Two decimal digits. -/
theorem padZero_two {v : Int} (h : 0 ≤ v ∧ v < 100) : Logger.padZero 2 v =
    [UInt8.ofNat (48 + v.toNat / 10), UInt8.ofNat (48 + v.toNat % 10)] := by
  have hdigits := padZero_digits ⟨v.toNat, by omega⟩
  simp only [Int.toNat_of_nonneg h.1] at hdigits
  exact hdigits

/-- Two digits give the number back. -/
theorem padZero_two_inj {v w : Int} (hv : 0 ≤ v ∧ v < 100) (hw : 0 ≤ w ∧ w < 100)
    (h : Logger.padZero 2 v = Logger.padZero 2 w) : v = w := by
  rw [padZero_two hv, padZero_two hw, List.cons.injEq, List.cons.injEq] at h
  have htens := congrArg UInt8.toNat h.1
  have hones := congrArg UInt8.toNat h.2.1
  simp only [UInt8.toNat_ofNat'] at htens hones
  omega

/-- The fields that a name shows are in their ranges. -/
structure Shown (tm : BrokenDown) : Prop where
  mon : 0 ≤ tm.tm_mon + 1 ∧ tm.tm_mon + 1 < 100
  mday : 0 ≤ tm.tm_mday ∧ tm.tm_mday < 100
  hour : 0 ≤ tm.tm_hour ∧ tm.tm_hour < 100
  min : 0 ≤ tm.tm_min ∧ tm.tm_min < 100
  sec : 0 ≤ tm.tm_sec ∧ tm.tm_sec < 100

/-- All fields but the year have a fixed width, so none can be mistaken for
a part of another. -/
theorem timebuf_inj {a b : BrokenDown} (ha : Shown a) (hb : Shown b) (h : timebuf a = timebuf b) :
    a.tm_year = b.tm_year ∧ a.tm_mon = b.tm_mon ∧ a.tm_mday = b.tm_mday ∧
      a.tm_hour = b.tm_hour ∧ a.tm_min = b.tm_min ∧ a.tm_sec = b.tm_sec := by
  have hlen : ∀ {v w : Int}, 0 ≤ v ∧ v < 100 → 0 ≤ w ∧ w < 100 →
      (Logger.padZero 2 v).length = (Logger.padZero 2 w).length := by
    intro v w hv hw
    rw [padZero_two hv, padZero_two hw]
    rfl
  -- The parts, from the right.
  obtain ⟨h, -⟩ := List.append_inj' h rfl
  obtain ⟨h, hsec⟩ := List.append_inj' h (hlen ha.sec hb.sec)
  obtain ⟨h, hmin⟩ := List.append_inj' h (hlen ha.min hb.min)
  obtain ⟨h, hhour⟩ := List.append_inj' h (hlen ha.hour hb.hour)
  obtain ⟨h, -⟩ := List.append_inj' h rfl
  obtain ⟨h, hmday⟩ := List.append_inj' h (hlen ha.mday hb.mday)
  obtain ⟨h, hmon⟩ := List.append_inj' h (hlen ha.mon hb.mon)
  obtain ⟨-, hyear⟩ := List.append_inj h rfl
  have hyear' := decimalText_inj hyear
  have hmon' := padZero_two_inj ha.mon hb.mon hmon
  exact ⟨by omega, by omega, padZero_two_inj ha.mday hb.mday hmday,
    padZero_two_inj ha.hour hb.hour hhour, padZero_two_inj ha.min hb.min hmin,
    padZero_two_inj ha.sec hb.sec hsec⟩

/-- The fields of a time have the digits that `strftime` shows. -/
theorem shown_of_isTime {t : Int} {tm : BrokenDown} (h : IsTime t tm) : Shown tm := by
  obtain ⟨d, -, -, hmon, hmday⟩ := h.date
  have hmonth := d.month_range
  have hday := d.day_range
  have hdays : Calendar.daysInMonth d.year d.month ≤ 31 := by
    unfold Calendar.daysInMonth
    have hleap := Calendar.leapDay_cases d.year
    split <;> omega
  have hhour := h.hour
  have hmin := h.min
  have hsec := h.sec
  constructor <;> omega

/-! ### One file -/

variable {process : Process} {s s' : LogFile} {r : Record}

/-- The bytes of the lines that a file was given. -/
def text (lines : List Entry) : List UInt8 := (lines.map Prod.fst).flatten

theorem text_snoc (lines : List Entry) (entry : Entry) :
    text (lines ++ [entry]) = text lines ++ entry.1 := by
  simp [text]

/-- The line behind `before` left more than `rollSize` bytes in the file,
and at that time the clock had not passed the second of the file. -/
def Excused (rollSize : Int) (r : Record) (before : List Entry)
    (entry : Entry) : Prop :=
  rollSize < (text (before ++ [entry])).length → entry.2.rollNow ≤ r.opened

/-- Every line of `r` is excused, also the last one. -/
def AllExcused (rollSize : Int) (r : Record) : Prop :=
  ∀ before entry after, r.lines = before ++ entry :: after → Excused rollSize r before entry

theorem allExcused_new {rollSize : Int} (h : r.lines = []) : AllExcused rollSize r := by
  intro before entry after heq
  rw [h] at heq
  exact absurd heq (by simp)

/-- The calls of `fwrite` take something each time. -/
def Answers.Complete (a : Answers) : Prop := ∀ k, 0 < a.writes k

/-- What a file has of a line: a first part, and all of it if no call of
`fwrite` for this line has taken nothing. -/
def PartOf (part : List UInt8) (entry : Entry) : Prop :=
  part <+: entry.1 ∧ (entry.2.Complete → part = entry.1)

/-- A file of a `LogFile`. -/
structure Holds (process : Process) (basename : List UInt8) (rollSize : Int) (r : Record) :
    Prop where
  name : r.file.filename = getLogFileName process basename r.opened
  pos : 0 < r.opened
  written : r.file.writtenBytes_ = (text r.lines).length
  flushed : r.file.flushed ≤ r.file.content.length
  parts : ∃ parts, r.file.content = parts.flatten ∧ List.Forall₂ PartOf parts r.lines
  /-- All lines but the last one. -/
  excused : ∀ before entry after, r.lines = before ++ entry :: after → after ≠ [] →
    Excused rollSize r before entry

theorem Holds.flush {basename : List UInt8} {rollSize : Int}
    (h : Holds process basename rollSize r) :
    Holds process basename rollSize { r with file := r.file.flush } :=
  ⟨h.name, h.pos, h.written, Nat.le_refl _, h.parts, h.excused⟩

theorem holds_new {basename : List UInt8} {rollSize now : Int} (hnow : 0 < now) :
    Holds process basename rollSize
      ⟨AppendFile.new (getLogFileName process basename now), now, []⟩ where
  name := rfl
  pos := hnow
  written := rfl
  flushed := Nat.le_refl _
  parts := ⟨[], rfl, .nil⟩
  excused before entry after heq _ := allExcused_new rfl before entry after heq

/-- An element that is not the last one is one of the old ones. -/
theorem split_of_snoc {α : Type} {l before after : List α} {x last : α}
    (h : l ++ [last] = before ++ x :: after) (hne : after ≠ []) : ∃ init, l = before ++ x :: init := by
  obtain ⟨init, y, rfl⟩ := List.eq_nil_or_concat' after |>.resolve_left hne
  rw [← List.cons_append, ← List.append_assoc] at h
  exact ⟨init, List.append_inj_left' h rfl⟩

/-- A line more, when every line so far is excused. -/
theorem Holds.append {basename : List UInt8} {rollSize : Int}
    (h : Holds process basename rollSize r)
    (hall : AllExcused rollSize r) (logline : List UInt8) (a : Answers) :
    Holds process basename rollSize
      { r with
        file := r.file.append logline a.writes
        lines := r.lines ++ [(logline, a)] } := by
  obtain ⟨part, hpart, heq, hwhole⟩ := r.file.append_spec logline a.writes
  obtain ⟨parts, hcontent, hparts⟩ := h.parts
  constructor
  · rw [heq]
    exact h.name
  · exact h.pos
  · rw [heq]
    simp only [h.written, text_snoc, List.length_append]
    omega
  · rw [heq]
    exact Nat.le_trans h.flushed (by rw [List.length_append]; omega)
  · refine ⟨parts ++ [part], ?_, List.rel_append hparts (.cons ⟨hpart, hwhole⟩ .nil)⟩
    rw [heq]
    simp only [hcontent, List.flatten_append, List.flatten_singleton]
  · intro before entry after hlines hne
    obtain ⟨init, hinit⟩ := split_of_snoc hlines hne
    exact hall before entry init hinit

/-! ### One step -/

/-- The lines in all files. -/
def linesOf (s : LogFile) : List Entry := s.files.flatMap Record.lines

/-- What the constructor has set for good. -/
def settings (s : LogFile) : List UInt8 × Int × Int × Int :=
  (s.basename_, s.rollSize_, s.flushInterval_, s.checkEveryN_)

/-- The current file is `r`. It may have just been given a line. -/
structure Ready (process : Process) (s : LogFile) (r : Record) : Prop where
  file : s.file_ = some r
  opened : r.opened = s.lastRoll_
  holds : ∀ q ∈ s.files, Holds process s.basename_ s.rollSize_ q
  order : (s.files.map Record.opened).Pairwise (· < ·)
  closed : ∀ q ∈ s.closed, q.file.flushed = q.file.content.length

/-- Between two steps. -/
def Inv (process : Process) (s : LogFile) : Prop :=
  ∃ r, Ready process s r ∧ AllExcused s.rollSize_ r

theorem Ready.files_eq (h : Ready process s r) : s.files = s.closed ++ [r] := by
  rw [files, h.file]
  rfl

theorem Ready.current (h : Ready process s r) : Holds process s.basename_ s.rollSize_ r :=
  h.holds r (by rw [h.files_eq]; exact List.mem_append_right _ List.mem_cons_self)

/-- The state with another current file, which was opened at the same time. -/
theorem Ready.replace {q : Record} (h : Ready process s r) (hopened : q.opened = r.opened)
    (hq : Holds process s.basename_ s.rollSize_ q) :
    Ready process { s with file_ := some q } q := by
  have hfiles : LogFile.files { s with file_ := some q } = s.closed ++ [q] := rfl
  refine ⟨rfl, hopened.trans h.opened, ?_, ?_, h.closed⟩
  · intro p hp
    rw [hfiles, List.mem_append, List.mem_singleton] at hp
    cases hp with
    | inl hp =>
        exact h.holds p (by rw [h.files_eq]; exact List.mem_append_left _ hp)
    | inr hp => exact hp ▸ hq
  · have horder := h.order
    rw [h.files_eq, List.map_append] at horder
    rw [hfiles, List.map_append, List.map_singleton, hopened]
    exact horder

/-- The state behind a successful `rollFile`. -/
def rolled (process : Process) (s : LogFile) (now : Int) : LogFile :=
  { s with
    lastRoll_ := now
    lastFlush_ := now
    startOfPeriod_ := startOf now
    file_ := some ⟨AppendFile.new (getLogFileName process s.basename_ now), now, []⟩
    closed := s.closed ++ s.file_.toList.map Record.close }

/-- A file is replaced only when the clock has passed the second of the last roll. -/
theorem rollFile_cases {now : Int} {opens b : Bool}
    (h : s.rollFile process now opens = .ok (b, s')) :
    (s.lastRoll_ < now ∧ s' = rolled process s now) ∨ (now ≤ s.lastRoll_ ∧ s' = s) := by
  rw [rollFile] at h
  split at h
  · rename_i hlt
    obtain ⟨_, -, h⟩ := except_bind_eq_ok.mp h
    cases h
    exact Or.inl ⟨hlt, rfl⟩
  · rename_i hle
    cases h
    exact Or.inr ⟨by omega, rfl⟩

/-- The old file is flushed and closed, and the new one has another second in its name. -/
theorem Ready.rolled (h : Ready process s r) {now : Int} (hnow : s.lastRoll_ < now) :
    Inv process (rolled process s now) := by
  have hpos : 0 < now := by
    have hopened := h.opened
    have hr := h.current.pos
    omega
  have hclosed : (LogFile.rolled process s now).closed = s.closed ++ [r.close] := by
    rw [LogFile.rolled, h.file]
    rfl
  have hfiles : (LogFile.rolled process s now).files = s.closed ++ [r.close] ++
      [⟨AppendFile.new (getLogFileName process s.basename_ now), now, []⟩] := by
    rw [files, hclosed]
    rfl
  have horder := h.order
  rw [h.files_eq, List.map_append, List.map_singleton, List.pairwise_append] at horder
  refine ⟨_, ⟨rfl, rfl, ?_, ?_, ?_⟩, allExcused_new rfl⟩
  · intro q hq
    rw [hfiles, List.mem_append, List.mem_append, List.mem_singleton, List.mem_singleton] at hq
    obtain (hq | hq) | hq := hq
    · exact h.holds q (by rw [h.files_eq]; exact List.mem_append_left _ hq)
    · exact hq ▸ h.current.flush
    · exact hq ▸ holds_new hpos
  · -- The new file is later than the current one, and this is the latest so far.
    rw [hfiles, List.map_append, List.map_append, List.map_singleton, List.map_singleton,
      List.pairwise_append]
    refine ⟨List.pairwise_append.mpr horder, List.pairwise_singleton _ _, ?_⟩
    intro t ht t' ht'
    rw [List.mem_singleton.mp ht']
    rw [List.mem_append, List.mem_singleton] at ht
    have hopened := h.opened
    cases ht with
    | inl ht =>
        have hlt := horder.2.2 t ht r.opened List.mem_cons_self
        simp only
        omega
    | inr ht =>
        have heq : t = r.opened := ht
        simp only
        omega
  · -- Closing flushes.
    intro q hq
    rw [hclosed, List.mem_append, List.mem_singleton] at hq
    cases hq with
    | inl hq => exact h.closed q hq
    | inr hq =>
        rw [hq]
        rfl

theorem linesOf_rolled (h : Ready process s r) (now : Int) :
    linesOf (rolled process s now) = linesOf s := by
  simp [linesOf, files, rolled, h.file, Record.close]

/-- `rollFile`, where the current file may stay only if its last line is
excused. -/
theorem roll_spec (h : Ready process s r) {now : Int} {opens b : Bool}
    (hall : now ≤ s.lastRoll_ → AllExcused s.rollSize_ r)
    (hroll : s.rollFile process now opens = .ok (b, s')) :
    Inv process s' ∧ linesOf s' = linesOf s ∧ settings s' = settings s := by
  cases rollFile_cases hroll with
  | inl hnew =>
      rw [hnew.2]
      exact ⟨h.rolled hnew.1, linesOf_rolled h now, rfl⟩
  | inr hold =>
      rw [hold.2]
      exact ⟨⟨r, h, hall hold.1⟩, rfl, rfl⟩

theorem flush_spec (h : Inv process s) (hflush : s.flush = .ok s') :
    Inv process s' ∧ linesOf s' = linesOf s ∧ settings s' = settings s := by
  obtain ⟨r, hready, hall⟩ := h
  have hs' : s' = { s with file_ := some { r with file := r.file.flush } } := by
    simp only [flush, deref, hready.file, ok_bind, except_pure, Except.ok.injEq] at hflush
    exact hflush.symm
  rw [hs']
  refine ⟨⟨_, hready.replace rfl hready.current.flush, hall⟩, ?_, rfl⟩
  simp [linesOf, files, hready.file]

/-- The check every `checkEveryN_` lines rolls, flushes or does nothing. -/
theorem checkTime_spec (h : Inv process s) {a : Answers}
    (hcheck : checkTime process s a = .ok s') :
    Inv process s' ∧ linesOf s' = linesOf s ∧ settings s' = settings s := by
  obtain ⟨r, hready, hall⟩ := h
  have hzero : Ready process { s with count_ := 0 } r :=
    ⟨hready.file, hready.opened, hready.holds, hready.order, hready.closed⟩
  rw [checkTime] at hcheck
  split at hcheck
  · obtain ⟨⟨b, t⟩, hroll, hcheck⟩ := except_bind_eq_ok.mp hcheck
    cases hcheck
    exact roll_spec (s := { s with count_ := 0 }) hzero (fun _ => hall) hroll
  · split at hcheck
    · have hlast : Inv process { s with count_ := 0, lastFlush_ := a.now } :=
        ⟨r, ⟨hzero.file, hzero.opened, hzero.holds, hzero.order, hzero.closed⟩, hall⟩
      exact flush_spec (s := { s with count_ := 0, lastFlush_ := a.now }) hlast hcheck
    · cases hcheck
      exact ⟨⟨r, hzero, hall⟩, rfl, rfl⟩

/-- The current file behind `file_->append`. -/
def given (r : Record) (logline : List UInt8) (a : Answers) : Record :=
  { r with file := r.file.append logline a.writes, lines := r.lines ++ [(logline, a)] }

/-- The new line is excused when the clock has not moved on, or when the
file is not over the limit. -/
theorem allExcused_given {rollSize : Int} {logline : List UInt8} {a : Answers}
    (hall : AllExcused rollSize r)
    (hlast : rollSize < (text (r.lines ++ [(logline, a)])).length → a.rollNow ≤ r.opened) :
    AllExcused rollSize (given r logline a) := by
  intro before entry after heq
  have heq' : r.lines ++ [(logline, a)] = before ++ entry :: after := heq
  by_cases hnil : after = []
  · subst hnil
    obtain ⟨hbefore, hentry⟩ := List.append_inj' heq' rfl
    cases hentry
    rw [← hbefore]
    exact hlast
  · obtain ⟨init, hinit⟩ := split_of_snoc heq' hnil
    exact hall before entry init hinit

/-- The three ways on behind `file_->append`. -/
theorem append_unlocked_cases (h : Ready process s r) {logline : List UInt8} {a : Answers}
    (hstep : append_unlocked process s logline a = .ok s') :
    (s.rollSize_ < (given r logline a).file.writtenBytes_ ∧
      ∃ b, rollFile process { s with file_ := some (given r logline a) } a.rollNow a.opens
        = .ok (b, s')) ∨
    ((given r logline a).file.writtenBytes_ ≤ s.rollSize_ ∧ s.checkEveryN_ ≤ s.count_ + 1 ∧
      checkTime process { s with file_ := some (given r logline a) } a = .ok s') ∨
    ((given r logline a).file.writtenBytes_ ≤ s.rollSize_ ∧ s.count_ + 1 < s.checkEveryN_ ∧
      s' = { s with file_ := some (given r logline a), count_ := s.count_ + 1 }) := by
  simp only [append_unlocked, deref, h.file, ok_bind] at hstep
  split at hstep
  · rename_i hover
    obtain ⟨⟨b, t⟩, hroll, hstep⟩ := except_bind_eq_ok.mp hstep
    cases hstep
    exact Or.inl ⟨hover, b, hroll⟩
  · rename_i hunder
    split at hstep
    · rename_i hcount
      exact Or.inr (Or.inl ⟨Int.not_lt.mp hunder, hcount, hstep⟩)
    · rename_i hcount
      cases hstep
      exact Or.inr (Or.inr ⟨Int.not_lt.mp hunder, Int.not_le.mp hcount, rfl⟩)

/-- One line: it is in the current file, which may be replaced behind it. -/
theorem append_unlocked_spec (h : Inv process s) {logline : List UInt8} {a : Answers}
    (hstep : append_unlocked process s logline a = .ok s') :
    Inv process s' ∧ linesOf s' = linesOf s ++ [(logline, a)] ∧
      settings s' = settings s := by
  obtain ⟨r, hready, hall⟩ := h
  have hgiven : Ready process { s with file_ := some (given r logline a) }
      (given r logline a) :=
    hready.replace rfl (hready.current.append hall logline a)
  have hlines : linesOf { s with file_ := some (given r logline a) }
      = linesOf s ++ [(logline, a)] := by
    simp [linesOf, files, hready.file, given]
  have hwritten : (given r logline a).file.writtenBytes_
      = (text (r.lines ++ [(logline, a)])).length := hgiven.current.written
  obtain ⟨-, b, hroll⟩ | ⟨hunder, -, hcheck⟩ | ⟨hunder, -, hs'⟩ :=
    append_unlocked_cases hready hstep
  · rw [← hlines]
    refine roll_spec hgiven (fun hle => ?_) hroll
    exact allExcused_given hall fun _ => hready.opened ▸ hle
  · rw [← hlines]
    refine checkTime_spec ⟨_, hgiven, allExcused_given hall fun hover => ?_⟩ hcheck
    exact absurd hover (hwritten ▸ Int.not_lt.mpr hunder)
  · rw [hs', ← hlines]
    refine ⟨⟨_, ⟨rfl, hgiven.opened, hgiven.holds, hgiven.order, hgiven.closed⟩,
      allExcused_given hall fun hover => ?_⟩, rfl, rfl⟩
    exact absurd hover (hwritten ▸ Int.not_lt.mpr hunder)

/-- A step adds its line to the history and keeps the invariant. -/
theorem step_spec (h : Inv process s) {e : Event} (hstep : step process s e = .ok s') :
    Inv process s' ∧ linesOf s' = linesOf s ++ e.line ∧
      settings s' = settings s := by
  cases e with
  | append logline a => exact append_unlocked_spec h hstep
  | flush =>
      obtain ⟨hinv, hlines, hset⟩ := flush_spec h hstep
      exact ⟨hinv, hlines.trans (List.append_nil _).symm, hset⟩
  | rollFile now opens =>
      rw [step] at hstep
      obtain ⟨⟨b, t⟩, hroll, hstep⟩ := except_bind_eq_ok.mp hstep
      cases hstep
      obtain ⟨r, hready, hall⟩ := h
      obtain ⟨hinv, hlines, hset⟩ := roll_spec hready (fun _ => hall) hroll
      exact ⟨hinv, hlines.trans (List.append_nil _).symm, hset⟩

theorem inv_new {basename : List UInt8} {rollSize flushInterval checkEveryN now : Int}
    {opens : Bool} (hnow : 0 < now)
    (h : new process basename rollSize flushInterval checkEveryN now opens = .ok s) :
    Inv process s ∧ linesOf s = [] ∧
      settings s = (basename, rollSize, flushInterval, checkEveryN) := by
  rw [new] at h
  obtain ⟨_, -, h⟩ := except_bind_eq_ok.mp h
  simp only at h
  obtain ⟨⟨b, t⟩, hroll, h⟩ := except_bind_eq_ok.mp h
  cases h
  cases rollFile_cases hroll with
  | inr hold =>
      have hle := hold.1
      simp only at hle
      omega
  | inl hnew =>
      rw [hnew.2]
      refine ⟨⟨_, ⟨rfl, rfl, ?_, List.pairwise_singleton _ _, ?_⟩, allExcused_new rfl⟩, rfl, rfl⟩
      · intro q hq
        rw [List.mem_singleton.mp hq]
        exact holds_new hnow
      · intro q hq
        cases hq

/-- So does a run. -/
theorem inv_run {s₀ : LogFile} {es : List Event} (h₀ : Inv process s₀)
    (hrun : (machine process).Run s₀ es s) :
    Inv process s ∧ linesOf s = linesOf s₀ ++ es.flatMap Event.line ∧
      settings s = settings s₀ := by
  induction hrun with
  | nil => exact ⟨h₀, (List.append_nil _).symm, rfl⟩
  | snoc _ _ hstep ih =>
      obtain ⟨hinv, hlines, hset⟩ := ih
      obtain ⟨hinv', hlines', hset'⟩ := step_spec hinv hstep
      refine ⟨hinv', ?_, hset'.trans hset⟩
      rw [hlines', hlines, List.flatMap_append, List.append_assoc]
      simp

/-! ### Every run -/

/-- A `LogFile` stops only when a file cannot be opened. -/
theorem step_fault (h : Inv process s) (e : Event) :
    Ends (step process s e) (fun f => f = .fopen) fun _ => True := by
  obtain ⟨r, hready, -⟩ := h
  have hroll : ∀ (t : LogFile) (now : Int) (opens : Bool),
      Ends (t.rollFile process now opens) (fun f => f = .fopen) fun _ => True := by
    intro t now opens
    rw [rollFile]
    split
    · cases opens with
      | false => exact Ends.error rfl
      | true => exact Ends.ok trivial
    · exact Ends.ok trivial
  have hflush : ∀ t : LogFile, t.file_.isSome = true →
      Ends t.flush (fun f => f = Fault.fopen) fun _ => True := by
    intro t ht
    obtain ⟨q, hq⟩ := Option.isSome_iff_exists.mp ht
    rw [flush, deref, hq]
    exact Ends.ok trivial
  cases e with
  | append logline a =>
      simp only [step, append_unlocked, deref, hready.file, ok_bind]
      split
      · exact (hroll _ _ _).bind fun _ _ => Ends.ok trivial
      · split
        · rw [checkTime]
          split
          · exact (hroll _ _ _).bind fun _ _ => Ends.ok trivial
          · split
            · exact hflush _ rfl
            · exact Ends.ok trivial
        · exact Ends.ok trivial
  | flush => exact hflush s (by rw [hready.file]; rfl)
  | rollFile now opens => exact (hroll s now opens).bind fun _ _ => Ends.ok trivial

/-- Files that were opened at different seconds have different names. -/
theorem nodup_names (hlibc : ∀ t, 0 < t → IsTime t (process.libc.gmtime_r t))
    (h : Ready process s r) : (s.files.map fun q => q.file.filename).Nodup := by
  have hnames : (s.files.map fun q => q.file.filename)
      = (s.files.map Record.opened).map (getLogFileName process s.basename_) := by
    rw [List.map_map]
    exact List.map_congr_left fun q hq => (h.holds q hq).name
  rw [hnames, List.Nodup, List.pairwise_map]
  refine h.order.imp_of_mem ?_
  intro t t' ht ht' hlt heq
  obtain ⟨q, hq, rfl⟩ := List.mem_map.mp ht
  obtain ⟨q', hq', rfl⟩ := List.mem_map.mp ht'
  have htime := hlibc _ (h.holds q hq).pos
  have htime' := hlibc _ (h.holds q' hq').pos
  have hsame := htime.unique htime' (timebuf_inj (shown_of_isTime htime) (shown_of_isTime htime')
    (List.append_cancel_left (List.append_cancel_right (List.append_cancel_right
      (List.append_cancel_right heq)))))
  omega

/-- `fwrite` takes one byte at a time, and the clock reads `now`. -/
def bytewise (now : Int) : Answers := ⟨fun _ => 1, now, now, true⟩

/-- `fwrite` takes one byte, and then nothing. -/
def diskFull (now : Int) : Answers := ⟨fun k => if k = 0 then 1 else 0, now, now, true⟩

/-- Three lines, with `rollSize_` at three bytes. -/
def threeLines : List Event :=
  [.append [1, 2] (diskFull 1000), .append [3, 4] (bytewise 1001), .append [5] (bytewise 1001)]

/-- The size of the files, after every run. A file that a line has filled
beyond `rollSize_` gets a further line, or is still the current one, only
if the clock had not passed the second of the file. So a file whose lines
were all written later than that second has at most `rollSize_` bytes
before its last line. -/
theorem files_bounded (process : Process) {basename : List UInt8}
    {rollSize flushInterval checkEveryN now : Int} {opens : Bool} {s₀ s : LogFile}
    {es : List Event} (hnow : 0 < now)
    (hnew : new process basename rollSize flushInterval checkEveryN now opens = .ok s₀)
    (hrun : (machine process).Run s₀ es s) {r : Record} (hr : r ∈ s.files) :
    (∀ before entry after, r.lines = before ++ entry :: after →
      after ≠ [] ∨ s.file_ = some r →
      rollSize < (text (before ++ [entry])).length → entry.2.rollNow ≤ r.opened) ∧
    ∀ before last, r.lines = before ++ [last] → (∀ entry ∈ before, r.opened < entry.2.rollNow) →
      0 ≤ rollSize → (text before).length ≤ rollSize := by
  obtain ⟨hinv₀, -, hset₀⟩ := inv_new hnow hnew
  obtain ⟨⟨q, hready, hall⟩, -, hset⟩ := inv_run hinv₀ hrun
  have hrollSize : s.rollSize_ = rollSize := congrArg (fun c => c.2.1) (hset.trans hset₀)
  rw [hrollSize] at hall
  have hheld := hready.holds r hr
  rw [hrollSize] at hheld
  have hfirst : ∀ before entry after, r.lines = before ++ entry :: after →
      after ≠ [] ∨ s.file_ = some r →
      rollSize < (text (before ++ [entry])).length → entry.2.rollNow ≤ r.opened := by
    intro before entry after heq hlate
    cases hlate with
    | inl hne => exact hheld.excused before entry after heq hne
    | inr hcurrent =>
        rw [hready.file] at hcurrent
        cases hcurrent
        exact hall before entry after heq
  refine ⟨hfirst, ?_⟩
  intro before last heq hlater hsize
  by_contra hover
  cases List.eq_nil_or_concat' before with
  | inl hnil =>
      subst hnil
      exact hover hsize
  | inr hconcat =>
      obtain ⟨init, entry, rfl⟩ := hconcat
      rw [List.append_assoc] at heq
      have hle := hfirst init entry [last] heq (Or.inl (List.cons_ne_nil _ _)) (by omega)
      have hlt := hlater entry (List.mem_append_right _ List.mem_cons_self)
      omega

/-- The second line ends the first file, which has two bytes before it. -/
theorem files_bounded_three :
    ∃ process s₀ s, new process (ascii ['l', 'o', 'g']) 3 3 1024 999 true = .ok s₀ ∧
      (machine process).Run s₀ threeLines s ∧ s.closed.length = 1 ∧
      ∀ r ∈ s.files, ∀ before last, r.lines = before ++ [last] →
        (∀ entry ∈ before, r.opened < entry.2.rollNow) → (text before).length ≤ (3 : Int) := by
  obtain ⟨libc, -⟩ := exists_libc
  have heval : ((new ⟨libc, [], 7⟩ (ascii ['l', 'o', 'g']) 3 3 1024 999 true).toOption.bind
      fun s => ((machine ⟨libc, [], 7⟩).exec s threeLines).map fun s => s.closed.length)
      = some 1 := by
    rfl
  obtain ⟨s₀, s, hnew, hrun, hclosed⟩ := Machine.exists_run_of_eval heval
  refine ⟨_, s₀, s, hnew, hrun, hclosed, ?_⟩
  intro r hr before last heq hlater
  exact (files_bounded _ (by decide) hnew hrun hr).2 before last heq hlater (by decide)

end LogFile

end Muduo.Base
