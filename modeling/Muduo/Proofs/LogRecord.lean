import Muduo.Proofs.LogTime

/-!
# `Muduo.Proofs.LogRecord`: the end of a log record

`finish` inserts `" - "`, the name of the source file, a colon, the line and a
newline, each for itself. When the stream is nearly full, an insertion can be
left out and a shorter one behind it can still fit. So the free bytes decide
how a record ends.

Only what is left after the name matters. The colon takes one byte if it leaves
one. The line asks for `kMaxNumericSize` bytes and uses at most 20 of them, so
it never takes the place of the newline. The newline then needs two free
bytes, one of them to stay free. With three free bytes there is a newline at
the end, with two there is a colon, and with one the record ends as it did
before (`getLast?_tail`).
-/

set_option autoImplicit false

namespace Muduo.Base

open Muduo.Lib

namespace LogStream.Piece

/-- The bytes in use stay below the length of the array. -/
theorem length_addTo_lt {p : Piece} {c : List UInt8} (hp : p.Valid)
    (hc : c.length < kSmallBuffer) : (p.addTo c).length < kSmallBuffer := by
  by_cases hfit : p.Fits (kSmallBuffer - c.length)
  · rw [addTo_pos hfit, List.length_append]
    cases p with
    | text data len =>
        have hlen : len < kSmallBuffer - c.length := hfit
        have htake : (data.take len).length ≤ len := List.length_take_le len data
        rw [bytes]
        omega
    | number all =>
        have hlen : (all.length : Int) < kMaxNumericSize := hp
        have hroom : kMaxNumericSize ≤ ((kSmallBuffer - c.length : Nat) : Int) := hfit
        rw [bytes]
        omega
  · rwa [addTo_neg hfit]

end LogStream.Piece

namespace Logger

open LogStream (Piece)

/-! ### The tail -/

/-- The colon, the line and the newline. -/
def tail (line : Int) (c : List UInt8) : List UInt8 :=
  (Piece.text [10] 1).addTo ((Piece.number (decimalText line)).addTo ((Piece.text [58] 1).addTo c))

/-- How a record ends, by the number of free bytes before the colon. -/
theorem getLast?_tail {line : Int} (hline : (decimalText line).length ≤ 20) {c : List UInt8}
    (hc : c.length < kSmallBuffer) :
    (tail line c).getLast? = some 10 ↔
      3 ≤ kSmallBuffer - c.length ∨ (kSmallBuffer - c.length = 1 ∧ c.getLast? = some 10) := by
  have hcolon : (Piece.text [58] 1).Fits (kSmallBuffer - c.length) ↔ 1 < kSmallBuffer - c.length :=
    Iff.rfl
  have hline' : ∀ d : List UInt8, (Piece.number (decimalText line)).Fits (kSmallBuffer - d.length) ↔
      (32 : Int) ≤ ((kSmallBuffer - d.length : Nat) : Int) := fun _ => Iff.rfl
  have hnewline : ∀ d : List UInt8, (Piece.text [10] 1).Fits (kSmallBuffer - d.length) ↔
      1 < kSmallBuffer - d.length := fun _ => Iff.rfl
  unfold tail
  by_cases hone : kSmallBuffer - c.length = 1
  · -- Nothing fits any more.
    rw [Piece.addTo_neg (mt hcolon.mp (by omega)), Piece.addTo_neg (mt (hline' c).mp (by omega)),
      Piece.addTo_neg (mt (hnewline c).mp (by omega))]
    simp [hone]
  · have hlen : (c ++ [58]).length = c.length + 1 := List.length_append
    have hfirst : (Piece.text [58] 1).addTo c = c ++ [58] :=
      Piece.addTo_pos (hcolon.mpr (by omega))
    rw [hfirst]
    by_cases htwo : kSmallBuffer - c.length = 2
    · -- The colon has taken the last byte that can be used.
      rw [Piece.addTo_neg (mt (hline' _).mp (by omega)),
        Piece.addTo_neg (mt (hnewline _).mp (by omega))]
      simp [htwo]
    · have hthree : 3 ≤ kSmallBuffer - c.length := by omega
      have hroom : 1 < kSmallBuffer -
          ((Piece.number (decimalText line)).addTo (c ++ [58])).length := by
        by_cases hfit : (Piece.number (decimalText line)).Fits (kSmallBuffer - (c ++ [58]).length)
        · have hbytes := (hline' _).mp hfit
          rw [Piece.addTo_pos hfit, List.length_append, Piece.bytes]
          omega
        · rw [Piece.addTo_neg hfit]
          omega
      rw [Piece.addTo_pos ((hnewline _).mpr hroom)]
      simp [Piece.bytes, hthree]

/-! ### The destructor -/

/-- What a `SourceFile` is: the length is an `int`, and as many bytes are there. -/
def SourceFile.Valid (file : SourceFile) : Prop :=
  InRange 32 file.size_ ∧ file.size_ ≤ file.data_.length

/-- The bytes in use after `" - "` and the name. -/
def afterName (file : SourceFile) (c : List UInt8) : List UInt8 :=
  (Piece.text file.data_ (intToSize file.size_)).addTo ((Piece.text (ascii [' ', '-', ' ']) 3).addTo c)

/-- The newline fits behind the bytes `c`, or it is there already and nothing fits behind it. -/
def NewlineFits (file : SourceFile) (c : List UInt8) : Prop :=
  3 ≤ kSmallBuffer - (afterName file c).length ∨
    (kSmallBuffer - (afterName file c).length = 1 ∧ (afterName file c).getLast? = some 10)

/-- The name of a file is not longer than its path. -/
theorem length_basename_le (path : List UInt8) : (basename path).length ≤ path.length := by
  have hle := (List.takeWhile_sublist (· ≠ 47) (l := path.reverse)).length_le
  rw [List.length_reverse] at hle
  rwa [basename, List.length_reverse]

theorem SourceFile.ofPath_valid (filename : List UInt8) : (SourceFile.ofPath filename).Valid := by
  rw [SourceFile.Valid, SourceFile.ofPath, inRange_32]
  dsimp only
  rw [Int.bmod_def]
  split <;> omega

theorem SourceFile.ofArray_valid {arr : List UInt8} (h : arr.length < 2 ^ 31) :
    (SourceFile.ofArray arr).Valid := by
  have hpath := (List.takeWhile_sublist (· ≠ 0) (l := arr)).length_le
  have hname := length_basename_le (arr.takeWhile (· ≠ 0))
  rw [SourceFile.Valid, SourceFile.ofArray, inRange_32]
  dsimp only
  rw [List.length_drop]
  omega

theorem insertInto_returns {s : LogStream} (h : LogStream.Inv s) {i : LogStream.Insertion}
    (hi : i.Valid) :
    Returns (insertInto s i) fun t => LogStream.Inv t ∧ t.contents = i.piece.addTo s.contents :=
  Ends.mapError (Ends.of_returns (h.insert hi))

theorem finish_returns {impl : Impl} (h : LogStream.Inv impl.stream_)
    (hfile : impl.basename_.Valid) :
    Returns impl.finish fun impl' => LogStream.Inv impl'.stream_ ∧
      impl'.stream_.contents
        = tail impl.line_.toInt (afterName impl.basename_ impl.stream_.contents) := by
  rw [Impl.finish]
  refine Ends.bind (insertInto_returns h trivial) fun s₁ h₁ => ?_
  refine Ends.bind (insertInto_returns h₁.1 hfile) fun s₂ h₂ => ?_
  refine Ends.bind (insertInto_returns h₂.1 trivial) fun s₃ h₃ => ?_
  refine Ends.bind (insertInto_returns h₃.1 trivial) fun s₄ h₄ => ?_
  refine Ends.bind (insertInto_returns h₄.1 trivial) fun s₅ h₅ => ?_
  refine Ends.ok ⟨h₅.1, ?_⟩
  show s₅.contents = _
  rw [h₅.2, h₄.2, h₃.2, h₂.2, h₁.2]
  rfl

theorem length_contents_lt {s : LogStream} (h : LogStream.Inv s) :
    s.contents.length < kSmallBuffer := by
  rw [h.length_contents]
  exact h.cur_lt

theorem length_afterName_lt {file : SourceFile} (hfile : file.Valid) {c : List UInt8}
    (hc : c.length < kSmallBuffer) : (afterName file c).length < kSmallBuffer :=
  Piece.length_addTo_lt (fun hlt => LogStream.intToSize_le hfile.1 hfile.2 hlt)
    (Piece.length_addTo_lt (fun _ => le_refl 3) hc)

/-- The destructor hands over bytes that end with a newline if and only if it fits. -/
theorem destroy_returns {impl : Impl} (h : LogStream.Inv impl.stream_)
    (hfile : impl.basename_.Valid) :
    Returns (destroy impl) fun out =>
      out.getLast? = some 10 ↔ NewlineFits impl.basename_ impl.stream_.contents := by
  rw [destroy]
  refine (finish_returns h hfile).bind fun impl' h' => ?_
  have hlen : impl'.stream_.length.toNat = impl'.stream_.cur_ := by
    rw [h'.1.length_eq_cur, Int.toNat_natCast]
  have hline : (decimalText impl.line_.toInt).length ≤ 20 :=
    (LogStream.contains_toInt impl.line_).length_decimalText_le (by decide)
  refine Ends.ok ?_
  rw [hlen, show impl'.stream_.data_.take impl'.stream_.cur_ = impl'.stream_.contents from rfl,
    h'.2]
  exact getLast?_tail hline (length_afterName_lt hfile (length_contents_lt h))

/-! ### The constructor -/

/-- `T` keeps the invariant, whatever text and length it is given. -/
theorem insertT_inv {s t : LogStream} (h : LogStream.Inv s) {str : List UInt8} {n : BitVec 32}
    (ht : insertT s str n = .ok t) : LogStream.Inv t := by
  rw [insertT] at ht
  obtain ⟨_, hassert, ht⟩ := except_bind_eq_ok.mp ht
  have hlen : LogStream.strlen str ≤ str.length := (List.takeWhile_sublist _).length_le
  have hint : n.toInt ≤ str.length := by
    have hequal := of_assertThat hassert
    rw [BitVec.toInt_eq_toNat_cond]
    split <;> omega
  have happend := h.append fun hlt => LogStream.intToSize_le (LogStream.contains_toInt n) hint hlt
  exact (happend.post (mapError_eq_ok ht)).1

theorem formatTime_inv {libc : TimeZone.Libc} {zone : TimeZone} {cache cache' : TimeCache}
    {time : Timestamp} {s t : LogStream} (h : LogStream.Inv s)
    (ht : formatTime libc zone cache time s = .ok (cache', t)) : LogStream.Inv t := by
  rw [formatTime] at ht
  obtain ⟨_, _, ht⟩ := except_bind_eq_ok.mp ht
  obtain ⟨_, _, ht⟩ := except_bind_eq_ok.mp ht
  obtain ⟨s₁, hs₁, ht⟩ := except_bind_eq_ok.mp ht
  obtain ⟨s₂, hs₂, ht⟩ := except_bind_eq_ok.mp ht
  cases ht
  exact insertT_inv (insertT_inv h hs₁) hs₂

theorem insertErrno_inv {s t : LogStream} (h : LogStream.Inv s) {savedErrno : BitVec 32}
    {strerror : List UInt8} (ht : insertErrno s savedErrno strerror = .ok t) :
    LogStream.Inv t := by
  have hreturns : Returns (insertErrno s savedErrno strerror) LogStream.Inv := by
    unfold insertErrno
    split
    · refine Ends.bind (insertInto_returns h trivial) fun s₁ h₁ => ?_
      refine Ends.bind (insertInto_returns h₁.1 trivial) fun s₂ h₂ => ?_
      refine Ends.bind (insertInto_returns h₂.1 trivial) fun s₃ h₃ => ?_
      exact Ends.imp (insertInto_returns h₃.1 trivial) fun _ h₄ => h₄.1
    · exact h
  exact hreturns.post ht

/-- What the constructor has made: a stream with the invariant, for the file that was given. -/
structure Made (file : SourceFile) (line : BitVec 32) (impl : Impl) : Prop where
  inv : LogStream.Inv impl.stream_
  basename_eq : impl.basename_ = file
  line_eq : impl.line_ = line

variable {env : Env} {cache cache' : TimeCache} {file : SourceFile} {line : BitVec 32} {impl : Impl}

theorem Impl.new_made (hdata : env.data_.length = kSmallBuffer) {level : LogLevel}
    {savedErrno : BitVec 32} {strerror : List UInt8}
    (hnew : Impl.new env cache level savedErrno strerror file line = .ok (cache', impl)) :
    Made file line impl := by
  rw [Impl.new] at hnew
  obtain ⟨⟨cache₁, s₁⟩, hs₁, hnew⟩ := except_bind_eq_ok.mp hnew
  obtain ⟨s₂, hs₂, hnew⟩ := except_bind_eq_ok.mp hnew
  obtain ⟨s₃, hs₃, hnew⟩ := except_bind_eq_ok.mp hnew
  obtain ⟨s₄, hs₄, hnew⟩ := except_bind_eq_ok.mp hnew
  cases hnew
  have h₁ := formatTime_inv (LogStream.inv_new hdata) hs₁
  exact ⟨insertErrno_inv (insertT_inv (insertT_inv h₁ hs₂) hs₃) hs₄, rfl, rfl⟩

theorem new_made (hdata : env.data_.length = kSmallBuffer) {ctor : Ctor}
    (hnew : new env cache file line ctor = .ok (cache', impl)) : Made file line impl := by
  cases ctor with
  | info => exact Impl.new_made hdata hnew
  | level level => exact Impl.new_made hdata hnew
  | toAbort toAbort errno strerror => exact Impl.new_made hdata hnew
  | func level func =>
      obtain ⟨⟨cache₁, impl₁⟩, himpl, hnew⟩ := except_bind_eq_ok.mp hnew
      obtain ⟨s₁, hs₁, hnew⟩ := except_bind_eq_ok.mp hnew
      obtain ⟨s₂, hs₂, hnew⟩ := except_bind_eq_ok.mp hnew
      cases hnew
      have hmade := Impl.new_made hdata himpl
      have h₁ := (Ends.post (insertInto_returns hmade.inv (by trivial)) hs₁).1
      exact ⟨(Ends.post (insertInto_returns h₁ (by trivial)) hs₂).1, hmade.basename_eq, hmade.line_eq⟩

/-! ### The record -/

/-- A statement whose constructor has returned writes its record, and the record ends with a
newline if and only if the newline fits. -/
theorem record_spec (hdata : env.data_.length = kSmallBuffer) (hfile : file.Valid) {ctor : Ctor}
    {events : List LogStream.Event} (hevents : ∀ e ∈ events, e.Valid)
    (hnew : new env cache file line ctor = .ok (cache', impl)) :
    ∃ s out, impl.stream_.calls events = .ok s ∧
      record env cache file line ctor events = .ok (cache', out) ∧
      (out.getLast? = some 10 ↔ NewlineFits file s.contents) := by
  have hmade := new_made hdata hnew
  obtain ⟨s, hs, hinv⟩ := Ends.exists_ok (hmade.inv.calls hevents)
  have hvalid : impl.basename_.Valid := by
    rw [hmade.basename_eq]
    exact hfile
  have hdestroy : Returns (destroy { impl with stream_ := s }) fun out =>
      out.getLast? = some 10 ↔ NewlineFits impl.basename_ s.contents := destroy_returns hinv hvalid
  obtain ⟨out, hout, hiff⟩ := Ends.exists_ok hdestroy
  refine ⟨s, out, hs, ?_, ?_⟩
  · rw [record, hnew, ok_bind]
    dsimp only
    rw [hs, mapError_ok, ok_bind, hout]
    rfl
  · rw [hiff, hmade.basename_eq]

/-- Six bytes besides the name are room enough. -/
theorem newlineFits_of_room {c : List UInt8}
    (hroom : c.length + file.data_.length + 6 ≤ kSmallBuffer) : NewlineFits file c := by
  have hadd : ∀ (data : List UInt8) (len : Nat) (d : List UInt8),
      ((Piece.text data len).addTo d).length ≤ d.length + data.length := by
    intro data len d
    rw [Piece.addTo]
    split
    · rw [List.length_append, Piece.bytes]
      have htake := List.length_take_le' len data
      omega
    · omega
  have hdash := hadd (ascii [' ', '-', ' ']) 3 c
  have hname := hadd file.data_ (intToSize file.size_)
    ((Piece.text (ascii [' ', '-', ' ']) 3).addTo c)
  have hthree : (ascii [' ', '-', ' ']).length = 3 := rfl
  left
  rw [afterName]
  omega

/-- When a log record ends with a newline. For every constructor and every sequence of calls on
the stream, the bytes for `g_output` end with a newline if and only if it fits behind what the
calls have left in the stream. It fits when six bytes are free besides the name of the file. -/
theorem record_newline_iff (env : Env) (hdata : env.data_.length = kSmallBuffer)
    (cache : TimeCache) (file : SourceFile) (hfile : file.Valid) (line : BitVec 32) (ctor : Ctor)
    (events : List LogStream.Event) (hevents : ∀ e ∈ events, e.Valid) (cache' : TimeCache)
    (impl : Impl) (hnew : new env cache file line ctor = .ok (cache', impl)) :
    ∃ s out, impl.stream_.calls events = .ok s ∧
      record env cache file line ctor events = .ok (cache', out) ∧
      (out.getLast? = some 10 ↔ NewlineFits file s.contents) ∧
      (s.contents.length + file.data_.length + 6 ≤ kSmallBuffer → out.getLast? = some 10) := by
  obtain ⟨s, out, hs, hout, hiff⟩ := record_spec hdata hfile hevents hnew
  exact ⟨s, out, hs, hout, hiff, fun hroom => hiff.mpr (newlineFits_of_room hroom)⟩

/-! ### A full stream -/

/-- The prefix of a statement without an error. -/
theorem Impl.new_eq (hdata : env.data_.length = kSmallBuffer) (htime : 1 ≤ secondsOf env.now)
    (hcache : cache.update env.libc env.g_logTimeZone (secondsOf env.now) = .ok cache')
    (hlen : cache'.t_time.length = 17) (hnul : NoNul cache'.t_time) (htid : NoNul env.tidString)
    (htidLen : env.tidString.length = env.tidStringLength.toNat) (hshort : env.tidString.length < 32)
    (level : LogLevel) :
    ∃ impl, Impl.new env cache level 0 [] file line = .ok (cache', impl) ∧
      impl.stream_.contents = cache'.t_time ++ suffix env.g_logTimeZone env.now ++ env.tidString ++
        LogLevelName level := by
  have hsuffix : (suffix env.g_logTimeZone env.now).length = suffixLength env.g_logTimeZone :=
    length_suffix htime
  have hbound : suffixLength env.g_logTimeZone ≤ 9 := by
    unfold suffixLength
    split <;> omega
  have hsize : kSmallBuffer = 4000 := rfl
  have hname : (LogLevelName level).length = 6 := by cases level <;> rfl
  have hnameNul : NoNul (LogLevelName level) := by
    cases level <;> decide
  obtain ⟨⟨_, s₁⟩, hs₁, rfl, hinv, hcontents⟩ :=
    Ends.exists_ok (formatTime_returns hdata htime hcache hlen hnul)
  dsimp only at hlen hinv hcontents
  obtain ⟨s₂, hs₂, h₂⟩ := Ends.exists_ok (insertT_returns hinv htid htidLen (by omega))
  obtain ⟨s₃, hs₃, h₃⟩ := Ends.exists_ok (insertT_returns h₂.1 hnameNul (n := 6) hname (by decide))
  have hstart := congrArg List.length hcontents
  rw [List.length_append] at hstart
  have htid' : s₂.contents = s₁.contents ++ env.tidString := by
    rw [h₂.2, Piece.addTo_all (by omega)]
  have hused : s₂.contents.length ≤ 58 := by
    rw [htid', List.length_append]
    omega
  refine ⟨⟨s₃, level, line, file⟩, ?_, ?_⟩
  · rw [Impl.new, hs₁, ok_bind]
    dsimp only
    rw [hs₂, ok_bind, hs₃, ok_bind, insertErrno, if_neg (not_not.mpr rfl)]
    rfl
  · show s₃.contents = _
    rw [h₃.2, Piece.addTo_all (by omega), htid', hcontents]

/-- A program that logs in the first second after the epoch. -/
def sampleEnv : Env where
  libc := utcLibc
  g_logTimeZone := {}
  now := 1000000
  tidString := ascii [' ', '1', '2', '3', '4', ' ']
  tidStringLength := 6
  data_ := List.replicate kSmallBuffer 0

/-- The prefix of its first record. -/
def samplePrefix : List UInt8 :=
  firstSecond ++ ascii ['.', '0', '0', '0', '0', '0', '0', 'Z', ' '] ++
    ascii [' ', '1', '2', '3', '4', ' '] ++ ascii ['I', 'N', 'F', 'O', ' ', ' ']

/-- The file of a statement, from the array that `__FILE__` is. -/
def sampleFile : SourceFile := SourceFile.ofArray (ascii ['b', 'a', 's', 'e', '/', 'a', '.', 'c', 'c'])

theorem length_sampleEnv_data : sampleEnv.data_.length = kSmallBuffer := List.length_replicate

/-- The constructor writes the prefix, whatever the file is called. -/
theorem sample_new (file : SourceFile) :
    ∃ cache' impl, new sampleEnv {} file 1 .info = .ok (cache', impl) ∧
      impl.stream_.contents = samplePrefix := by
  have hcache : TimeCache.update {} sampleEnv.libc sampleEnv.g_logTimeZone
      (secondsOf sampleEnv.now) = .ok ⟨firstSecond, 1⟩ := by
    rw [TimeCache.update, if_pos (by decide), show timeText sampleEnv.libc sampleEnv.g_logTimeZone
      (secondsOf sampleEnv.now) = .ok firstSecond from timeText_firstSecond]
    rfl
  have hnul : NoNul firstSecond := (timeText_spec timeText_firstSecond).2
  have htid : NoNul sampleEnv.tidString := by decide
  have htime : 1 ≤ secondsOf sampleEnv.now := by decide
  have hlen : firstSecond.length = 17 := by decide
  have htidLen : sampleEnv.tidString.length = sampleEnv.tidStringLength.toNat := by decide
  have hshort : sampleEnv.tidString.length < 32 := by decide
  obtain ⟨impl, hnew, hcontents⟩ := @Impl.new_eq sampleEnv {} ⟨firstSecond, 1⟩ file 1
    length_sampleEnv_data htime hcache hlen hnul htid htidLen hshort .INFO
  exact ⟨_, impl, hnew, hcontents.trans (by decide +kernel)⟩

theorem length_message_le : (List.replicate 3960 (120 : UInt8)).length ≤ maxSize := by
  rw [List.length_replicate, maxSize]
  omega

/-- A message that leaves two free bytes. -/
def longMessage : StdString := ⟨List.replicate 3960 120, length_message_le⟩

/-- A message behind the prefix. -/
theorem calls_message {impl : Impl} {s : LogStream} (hinv : LogStream.Inv impl.stream_)
    (hstart : impl.stream_.contents = samplePrefix) {message : StdString}
    (hle : message.bytes.length ≤ 3960)
    (hs : impl.stream_.calls [.insert (.string message)] = .ok s) :
    s.contents = samplePrefix ++ message.bytes := by
  have hshort : samplePrefix.length = 38 := by decide
  have hsize : kSmallBuffer = 4000 := rfl
  have hinsert : impl.stream_.insert (.string message) = .ok s := by
    obtain ⟨s₁, hs₁, hs₂⟩ := except_bind_eq_ok.mp (List.foldlM_cons.symm.trans hs)
    cases hs₂
    exact hs₁
  rw [(Ends.post (hinv.insert (by trivial)) hinsert).2, hstart]
  exact Piece.addTo_all (by omega)

/-- A record without a newline: the message leaves two bytes, and the colon takes the one that can
be used. -/
theorem record_without_newline :
    ∃ cache' out, record sampleEnv {} sampleFile 1 .info [.insert (.string longMessage)]
        = .ok (cache', out) ∧ out.getLast? ≠ some 10 := by
  obtain ⟨cache', impl, hnew, hstart⟩ := sample_new sampleFile
  have hvalid : ∀ e ∈ [LogStream.Event.insert (.string longMessage)], e.Valid := by
    simp [LogStream.Event.Valid, LogStream.Insertion.Valid]
  have hfile : sampleFile.Valid := SourceFile.ofArray_valid (by decide)
  obtain ⟨s, out, hs, hout, hiff⟩ := record_spec length_sampleEnv_data hfile hvalid hnew
  have hmade := new_made length_sampleEnv_data hnew
  have hshort : samplePrefix.length = 38 := by decide
  have hlong : longMessage.bytes.length = 3960 := List.length_replicate
  have hsize : kSmallBuffer = 4000 := rfl
  have hcontents := calls_message hmade.inv hstart (Nat.le_of_eq hlong) hs
  have hused : s.contents.length = 3998 := by
    rw [hcontents, List.length_append, hshort, hlong]
  refine ⟨cache', out, hout, fun hnewline => ?_⟩
  have hfits := hiff.mp hnewline
  have hdash : (Piece.text (ascii [' ', '-', ' ']) 3).addTo s.contents = s.contents :=
    Piece.addTo_neg (show ¬ 3 < kSmallBuffer - s.contents.length by omega)
  have hname : (Piece.text sampleFile.data_ (intToSize sampleFile.size_)).addTo s.contents
      = s.contents :=
    Piece.addTo_neg (show ¬ intToSize sampleFile.size_ < kSmallBuffer - s.contents.length by
      rw [show intToSize sampleFile.size_ = 4 by decide]
      omega)
  rw [NewlineFits, afterName, hdash, hname] at hfits
  omega

/-- A short message leaves room enough. The file comes from a path. -/
theorem record_newline_iff_message :
    ∃ cache' out, record sampleEnv {} (.ofPath (ascii ['/', 'b', '.', 'c', 'c'])) 1 .info
        [.insert (.string ⟨ascii ['h', 'i'], by decide⟩)] = .ok (cache', out) ∧
      out.getLast? = some 10 := by
  obtain ⟨cache', impl, hnew, hstart⟩ := sample_new (.ofPath (ascii ['/', 'b', '.', 'c', 'c']))
  obtain ⟨s, out, hs, hout, _, hroom⟩ := record_newline_iff sampleEnv length_sampleEnv_data {}
    _ (SourceFile.ofPath_valid _) 1 .info [.insert (.string ⟨ascii ['h', 'i'], by decide⟩)]
    (by simp [LogStream.Event.Valid, LogStream.Insertion.Valid]) cache' impl hnew
  refine ⟨cache', out, hout, hroom ?_⟩
  rw [calls_message (new_made length_sampleEnv_data hnew).inv hstart (by decide) hs]
  decide

end Logger

end Muduo.Base
