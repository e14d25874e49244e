import Muduo.Proofs.TcpConnection

/-!
# `Muduo.Proofs.FlowControl`: when the two callbacks of flow control are queued

`sendInLoop` and `handleWrite` decide about the high water mark callback and
the write complete callback from what they see in one call. `callbacksOf` says
what they queue in terms of the level, which is the number of unsent bytes:

* the high water mark callback when a `sendInLoop` takes the level from below
  the mark to the mark or above it, with the new level;
* the write complete callback when a direct write takes a whole message, or
  when a `handleWrite` empties the output buffer.

`step_callbacks` proves that they queue this and nothing else. A direct write
is tried only with the level 0, since the channel waits for writability
exactly while bytes are unsent. So in both cases of the write complete
callback the level is 0 afterwards, and the kernel has all bytes.
-/

set_option autoImplicit false

namespace Muduo.Net.TcpConnection

open Muduo.Base
open Muduo.Lib

/-! ### The level -/

/-- The number of unsent bytes. -/
def level (c : TcpConnection) : Nat := c.outputBuffer_.readable.length

/-- The two functions of the loop thread that move bytes, with what `::write`
does. -/
inductive Move where
  | sendInLoop (message : StdString) (w : WriteOutcome)
  | handleWrite (w : WriteOutcome)
  deriving DecidableEq

/-- The connection under these two functions. No direct write fails with
`EPIPE` or `ECONNRESET`. -/
def sending : Machine TcpConnection Move Fault where
  enabled _ := fun
    | .sendInLoop _ w => w ≠ .fail .EPIPE ∧ w ≠ .fail .ECONNRESET
    | .handleWrite _ => True
  step c := fun
    | .sendInLoop message w => c.sendInLoop message w
    | .handleWrite w => c.handleWrite w

instance (c : TcpConnection) : (e : Move) → Decidable (sending.enabled c e)
  | .sendInLoop _ w => inferInstanceAs (Decidable (w ≠ .fail .EPIPE ∧ w ≠ .fail .ECONNRESET))
  | .handleWrite _ => isTrue trivial

/-- A `sendInLoop` takes the level to the mark or above it. -/
def crossesMark (mark : Nat) (c c' : TcpConnection) : Move → Bool
  | .sendInLoop _ _ => decide (c.level < mark ∧ mark ≤ c'.level)
  | .handleWrite _ => false

/-- `::write` takes the whole message. -/
def takesAll (message : StdString) (w : WriteOutcome) : Bool :=
  match sockets.write w message.bytes with
  | .ok nwrote => nwrote == message.bytes.length
  | .error _ => false

/-- A direct write takes the whole message, or a `handleWrite` empties the
output buffer. -/
def writesAll (c c' : TcpConnection) : Move → Bool
  | .sendInLoop message w => decide (c.level = 0) && takesAll message w
  | .handleWrite _ => decide (c.level ≠ 0 ∧ c'.level = 0)

/-- The callbacks that belong to a step from `c` to `c'`. -/
def callbacksOf (mark : Nat) (c c' : TcpConnection) (e : Move) : List Functor :=
  (if writesAll c c' e then [.writeCompleteCallback] else [])
    ++ (if crossesMark mark c c' e then [.highWaterMarkCallback c'.level] else [])

/-- A connection that is up, with both callbacks set and the mark at `mark`. -/
structure Live (mark : Nat) (c : TcpConnection) : Prop where
  inv : Inv c
  up : c.isUp = true
  writeComplete : c.writeCompleteCallback_ = true
  highWater : c.highWaterMarkCallback_ = true
  mark : c.highWaterMark_ = mark
  clean : .directFault ∉ c.log

/-- The parts of `Live` that `Good` does not have. -/
structure Settings (c c' : TcpConnection) : Prop where
  writeComplete : c'.writeCompleteCallback_ = c.writeCompleteCallback_
  highWater : c'.highWaterMarkCallback_ = c.highWaterMarkCallback_
  mark : c'.highWaterMark_ = c.highWaterMark_
  clean : .directFault ∈ c'.log → .directFault ∈ c.log

theorem Settings.refl (c : TcpConnection) : Settings c c := ⟨rfl, rfl, rfl, fun h => h⟩

theorem Settings.trans {c c' c'' : TcpConnection} (h : Settings c c') (h' : Settings c' c'') :
    Settings c c'' where
  writeComplete := h'.writeComplete.trans h.writeComplete
  highWater := h'.highWater.trans h.highWater
  mark := h'.mark.trans h.mark
  clean hmem := h.clean (h'.clean hmem)

theorem Settings.emit (c : TcpConnection) {e : Effect} (he : e ≠ .directFault) :
    Settings c (c.emit e) where
  writeComplete := rfl
  highWater := rfl
  mark := rfl
  clean hmem := by
    cases List.mem_append.mp hmem with
    | inl hold => exact hold
    | inr hnew => exact absurd (List.mem_singleton.mp hnew).symm he

theorem Live.of_good {mark : Nat} {c c' : TcpConnection} (h : Live mark c) (hgood : Good c c')
    (hset : Settings c c') : Live mark c' where
  inv := hgood.inv
  up := hgood.keeps.up h.up
  writeComplete := hset.writeComplete.trans h.writeComplete
  highWater := hset.highWater.trans h.highWater
  mark := hset.mark.trans h.mark
  clean hmem := h.clean (hset.clean hmem)

section
variable {mark : Nat} {c c' : TcpConnection}

/-- A connection that is up is not closed. -/
theorem Live.state_ne (h : Live mark c) : c.state_ ≠ .kDisconnected := by
  rcases isUp_iff.mp h.up with hst | hst <;> rw [hst] <;> decide

/-- The channel waits for writability exactly while bytes are unsent. -/
theorem Live.isWriting_iff (h : Live mark c) : c.channel_.isWriting = true ↔ c.level ≠ 0 := by
  rw [h.inv.interest h.state_ne, level, Ne, Ne, List.length_eq_zero_iff]

/-- The level is what the output buffer holds. -/
theorem Live.readableBytes_eq (h : Live mark c) : c.outputBuffer_.readableBytes = c.level :=
  h.inv.output.length_readable.symm

/-- At the level 0 the kernel has all bytes. -/
theorem Live.accepted_eq (h : Live mark c) (hzero : c.level = 0) : accepted c.log = sent c.log := by
  have hall := h.inv.stream.conserved h.clean
  rw [List.length_eq_zero_iff.mp hzero, List.append_nil] at hall
  exact hall

/-! ### `sendInLoop` -/

/-- The direct write of `sendInLoop`. -/
structure DirectFlow (c : TcpConnection) (message : StdString) (w : WriteOutcome) (d : DirectWrite) :
    Prop where
  ok : d.faultError = false
  settings : Settings c d.conn
  pending : d.conn.pendingFunctors_ = c.pendingFunctors_
    ++ if (decide (c.level = 0) && takesAll message w) = true then [.writeCompleteCallback] else []
  rest : (decide (c.level = 0) && takesAll message w) = true → d.remaining = 0

/-- Nothing is written, and nothing is queued. -/
theorem directFlow_skip {message : StdString} {w : WriteOutcome}
    (hnot : (decide (c.level = 0) && takesAll message w) = false) :
    DirectFlow c message w ⟨c.emit (.sent message), 0, message.bytes.length, false⟩ where
  ok := rfl
  settings := Settings.emit c (by simp)
  pending := by
    rw [hnot]
    exact (List.append_nil _).symm
  rest hall := by
    rw [hnot] at hall
    cases hall

/-- The code tries a direct write exactly at the level 0. -/
theorem Live.canWrite_eq (h : Live mark c) (message : StdString) :
    (!(c.emit (.sent message)).channel_.isWriting &&
      (c.emit (.sent message)).outputBuffer_.readableBytes == 0) = decide (c.level = 0) := by
  show (!c.channel_.isWriting && c.outputBuffer_.readableBytes == 0) = _
  rw [h.readableBytes_eq]
  by_cases hzero : c.level = 0
  · have hwriting : c.channel_.isWriting = false :=
      Bool.eq_false_of_not_eq_true fun hon => h.isWriting_iff.mp hon hzero
    rw [hwriting, hzero]
    rfl
  · rw [h.isWriting_iff.mpr hzero, decide_eq_false hzero]
    rfl

/-- `::write` takes some bytes of the message. -/
theorem directFlow_accept (h : Live mark c) (hzero : c.level = 0) (message : StdString) (n : Nat) :
    DirectFlow c message (.accept n)
      (writeDirectly (c.emit (.sent message)) message.bytes (.accept n)) := by
  rw [writeDirectly, h.canWrite_eq, if_pos (decide_eq_true hzero)]
  have hle := Nat.min_le_right n message.bytes.length
  have hlen : message.bytes.length < sizeModulus :=
    Nat.lt_of_le_of_lt message.length_le Buffer.maxSize_lt
  have hsettings : Settings c ((c.emit (.sent message)).emit
      (.wrote (message.bytes.take (min n message.bytes.length)))) :=
    (Settings.emit c (by simp)).trans (Settings.emit _ (by simp))
  -- The code tests the rest, which is 0 exactly when the whole message was taken.
  have htest : (message.bytes.length - min n message.bytes.length == 0)
      = (decide (c.level = 0) && takesAll message (.accept n)) := by
    rw [decide_eq_true hzero, Bool.true_and, takesAll, sockets.write]
    exact Bool.eq_iff_iff.mpr (by rw [beq_iff_eq, beq_iff_eq]; omega)
  have hcallback : ((c.emit (.sent message)).emit
      (.wrote (message.bytes.take (min n message.bytes.length)))).writeCompleteCallback_ = true :=
    h.writeComplete
  simp only [sockets.write, subSize_eq hle hlen, htest, hcallback, Bool.and_true]
  cases hall : decide (c.level = 0) && takesAll message (.accept n) with
  | true =>
      rw [hall] at htest
      rw [if_pos rfl]
      refine ⟨rfl, ⟨hsettings.writeComplete, rfl, rfl, hsettings.clean⟩, ?_,
        fun _ => eq_of_beq htest⟩
      rw [if_pos hall]
      rfl
  | false =>
      rw [if_neg (by simp)]
      refine ⟨rfl, hsettings, ?_, fun hyes => ?_⟩
      · rw [hall]
        exact (List.append_nil _).symm
      · rw [hall] at hyes
        cases hyes

theorem writeDirectly_flow (h : Live mark c) (message : StdString) {w : WriteOutcome}
    (hw : w ≠ .fail .EPIPE ∧ w ≠ .fail .ECONNRESET) :
    DirectFlow c message w (writeDirectly (c.emit (.sent message)) message.bytes w) := by
  by_cases hzero : c.level = 0
  · cases w with
    | accept n => exact directFlow_accept h hzero message n
    | fail e =>
        have hother : (e != .EWOULDBLOCK && (e == .EPIPE || e == .ECONNRESET)) = false := by
          cases e with
          | EPIPE => exact absurd rfl hw.1
          | ECONNRESET => exact absurd rfl hw.2
          | EWOULDBLOCK | other => rfl
        rw [writeDirectly, h.canWrite_eq, if_pos (decide_eq_true hzero)]
        simp only [sockets.write, hother]
        exact directFlow_skip (Bool.and_false _)
  · rw [writeDirectly, h.canWrite_eq, decide_eq_false hzero]
    refine directFlow_skip ?_
    rw [decide_eq_false hzero]
    rfl

/-! The rest of the message goes to the output buffer. -/

theorem onChannel_eq_ok {f : Channel → Except Channel.Fault Channel} (h : c.onChannel f = .ok c') :
    ∃ ch, c' = { c with channel_ := ch } := by
  obtain ⟨ch, -, hreturn⟩ := except_bind_eq_ok.mp h
  cases hreturn
  exact ⟨ch, rfl⟩

/-- The level after `append` is the sum that the test of the mark computes. -/
theorem checkHighWaterMark_flow (remaining : Nat) (hout : c.outputBuffer_.Inv)
    (hmax : remaining ≤ maxSize) (hcallback : c.highWaterMarkCallback_ = true) :
    Settings c (c.checkHighWaterMark remaining) ∧
    (c.checkHighWaterMark remaining).pendingFunctors_ = c.pendingFunctors_
      ++ if c.level < c.highWaterMark_ ∧ c.highWaterMark_ ≤ c.level + remaining then
        [.highWaterMarkCallback (c.level + remaining)] else [] := by
  have hbytes : c.outputBuffer_.readableBytes = c.level := hout.length_readable.symm
  have hsum : addSize c.level remaining = c.level + remaining := by
    refine addSize_eq ?_
    have hlevel : c.level ≤ maxSize := by
      have hsize := hout.size_le
      have hwriter := hout.writer_le
      rw [← hbytes, hout.readableBytes_eq]
      omega
    have htwo := maxSize_add_maxSize_lt
    omega
  simp only [checkHighWaterMark, hbytes, hsum, hcallback, and_true]
  by_cases hcross : c.highWaterMark_ ≤ c.level + remaining ∧ c.level < c.highWaterMark_
  · rw [if_pos hcross, if_pos ⟨hcross.2, hcross.1⟩]
    exact ⟨⟨rfl, rfl, rfl, fun hmem => hmem⟩, rfl⟩
  · rw [if_neg hcross, if_neg fun hboth => hcross ⟨hboth.2, hboth.1⟩]
    exact ⟨Settings.refl c, (List.append_nil _).symm⟩

/-- What `bufferRest` does to the level and to the queue. -/
theorem bufferRest_flow {d : DirectWrite} {data : List UInt8} (hout : d.conn.outputBuffer_.Inv)
    (hok : d.faultError = false) (hsplit : d.nwrote + d.remaining = data.length)
    (hmax : data.length ≤ maxSize) (hcallback : d.conn.highWaterMarkCallback_ = true)
    (hrest : bufferRest d data = .ok c') :
    Settings d.conn c' ∧ c'.level = d.conn.level + d.remaining ∧
    c'.pendingFunctors_ = d.conn.pendingFunctors_
      ++ if d.conn.level < d.conn.highWaterMark_ ∧ d.conn.highWaterMark_ ≤ c'.level then
        [.highWaterMarkCallback c'.level] else [] := by
  rw [bufferRest, hok] at hrest
  by_cases hpos : 0 < d.remaining
  · -- The mark is tested before `append`, with the level that there will be.
    obtain ⟨hset, hpending⟩ := checkHighWaterMark_flow d.remaining hout (by omega) hcallback
    have houtput := (checkHighWaterMark_spec d.conn d.remaining).1.output
    rw [if_pos (by simp [hpos])] at hrest
    generalize d.conn.checkHighWaterMark d.remaining = c₁ at hset hpending houtput hrest
    have hlen : (slice data d.nwrote d.remaining).length = d.remaining :=
      length_slice (Nat.le_of_eq hsplit)
    obtain ⟨c₂, happend, hrest⟩ := except_bind_eq_ok.mp hrest
    obtain ⟨b, rfl, -, hread⟩ := (onOutput_append (houtput ▸ hout) (by omega)).post happend
    have hlevel : b.readable.length = d.conn.level + d.remaining := by
      rw [hread, List.length_append, hlen, houtput]
      rfl
    have hc' : ∃ ch, c' = { c₁ with outputBuffer_ := b, channel_ := ch } := by
      split at hrest
      · exact onChannel_eq_ok hrest
      · cases hrest
        exact ⟨c₁.channel_, rfl⟩
    obtain ⟨ch, hc'⟩ := hc'
    have hafter : c'.level = d.conn.level + d.remaining := by
      rw [hc']
      exact hlevel
    simp only [hafter]
    rw [hc']
    exact ⟨⟨hset.writeComplete, hset.highWater, hset.mark, hset.clean⟩, trivial, hpending⟩
  · rw [if_neg (by simp [hpos])] at hrest
    cases hrest
    refine ⟨Settings.refl _, by omega, ?_⟩
    rw [if_neg (by omega), List.append_nil]

/-- `sendInLoop` queues what `callbacksOf` says. -/
theorem sendInLoop_callbacks (h : Live mark c) (message : StdString) {w : WriteOutcome}
    (hw : w ≠ .fail .EPIPE ∧ w ≠ .fail .ECONNRESET) (hok : c.sendInLoop message w = .ok c') :
    Live mark c' ∧
    c'.pendingFunctors_ = c.pendingFunctors_ ++ callbacksOf mark c c' (.sendInLoop message w) ∧
    (writesAll c c' (.sendInLoop message w) = true → c'.level = 0) := by
  have hgood := (sendInLoop_spec message w h.inv).post hok
  have hflow := writeDirectly_flow h message hw
  have hdirect := writeDirectly_spec message w h.inv
  rw [sendInLoop, if_neg h.state_ne] at hok
  generalize writeDirectly (c.emit (.sent message)) message.bytes w = d at hflow hdirect hok
  obtain ⟨-, -, hrest⟩ := except_bind_eq_ok.mp hok
  -- The direct write leaves the output buffer and so the level alone.
  have hout : d.conn.outputBuffer_.Inv := hdirect.logged.output ▸ h.inv.output
  have hlevel : d.conn.level = c.level := by rw [level, level, hdirect.logged.output]
  obtain ⟨hset, hafter, hpending⟩ := bufferRest_flow hout hflow.ok hdirect.split message.length_le
    (hflow.settings.highWater.trans h.highWater) hrest
  rw [hlevel] at hafter hpending
  refine ⟨h.of_good hgood (hflow.settings.trans hset), ?_, ?_⟩
  · have hmark : d.conn.highWaterMark_ = mark := hflow.settings.mark.trans h.mark
    rw [hpending, hflow.pending, hmark, List.append_assoc, callbacksOf, writesAll, crossesMark]
    simp only [decide_eq_true_eq]
  · intro hall
    have hzero : c.level = 0 := of_decide_eq_true (Bool.and_eq_true_iff.mp hall).1
    rw [hafter, hflow.rest hall, hzero]

/-! ### `handleWrite` -/

theorem shutdownInLoop_flow (c : TcpConnection) :
    Settings c c.shutdownInLoop ∧ c.shutdownInLoop.outputBuffer_ = c.outputBuffer_ ∧
    c.shutdownInLoop.pendingFunctors_ = c.pendingFunctors_ := by
  rw [shutdownInLoop]
  split
  · exact ⟨Settings.emit c (by simp), rfl, rfl⟩
  · exact ⟨Settings.refl c, rfl, rfl⟩

/-- The end of `handleWrite` with an empty output buffer. -/
theorem outputDrained_flow (hok : c.outputDrained = .ok c')
    (hcallback : c.writeCompleteCallback_ = true) :
    Settings c c' ∧ c'.outputBuffer_ = c.outputBuffer_ ∧
    c'.pendingFunctors_ = c.pendingFunctors_ ++ [.writeCompleteCallback] := by
  obtain ⟨c₁, hchannel, hok⟩ := except_bind_eq_ok.mp hok
  obtain ⟨ch, hc₁⟩ := onChannel_eq_ok hchannel
  have hqueued : (if c₁.writeCompleteCallback_ then c₁.queueInLoop .writeCompleteCallback else c₁)
      = c₁.queueInLoop .writeCompleteCallback := if_pos (hc₁ ▸ hcallback)
  have hset : Settings c (c₁.queueInLoop .writeCompleteCallback) := by
    rw [hc₁]
    exact ⟨rfl, rfl, rfl, fun hmem => hmem⟩
  have houtput : c₁.outputBuffer_ = c.outputBuffer_ := by rw [hc₁]
  have hpending : c₁.pendingFunctors_ = c.pendingFunctors_ := by rw [hc₁]
  simp only [hqueued] at hok
  split at hok
  · cases hok
    obtain ⟨hset', houtput', hpending'⟩ := shutdownInLoop_flow (c₁.queueInLoop .writeCompleteCallback)
    refine ⟨hset.trans hset', houtput'.trans houtput, hpending'.trans ?_⟩
    exact congrArg (· ++ _) hpending
  · cases hok
    exact ⟨hset, houtput, congrArg (· ++ _) hpending⟩

/-- `handleWrite` queues what `callbacksOf` says. -/
theorem handleWrite_callbacks (h : Live mark c) {w : WriteOutcome}
    (hok : c.handleWrite w = .ok c') :
    Live mark c' ∧ c'.pendingFunctors_ = c.pendingFunctors_ ++ callbacksOf mark c c' (.handleWrite w) := by
  have hgood := (handleWrite_spec w h.inv).post hok
  have hcallbacks : callbacksOf mark c c' (.handleWrite w)
      = if c.level ≠ 0 ∧ c'.level = 0 then [.writeCompleteCallback] else [] := by
    rw [callbacksOf, writesAll, crossesMark, if_neg Bool.false_ne_true, List.append_nil]
    simp only [decide_eq_true_eq]
  rw [hcallbacks]
  -- Nothing is written, a part of the output, or all of it.
  rcases handleWrite_cases w h.inv with hsame | ⟨m, c₁, hwrote, hne, heq⟩ |
    ⟨n, m, c₁, -, -, hwrote, hnil, heq⟩
  · cases hsame.symm.trans hok
    rw [if_neg (fun hboth => hboth.1 hboth.2), List.append_nil]
    exact ⟨h, rfl⟩
  · cases heq.symm.trans hok
    have hleft : c'.level ≠ 0 := fun hzero => hne (List.length_eq_zero_iff.mp hzero)
    obtain ⟨b, rfl⟩ := hwrote.conn
    have hset := Settings.emit c (e := .wrote (c.outputBuffer_.readable.take m)) (by simp)
    rw [if_neg (fun hboth => hleft hboth.2), List.append_nil]
    exact ⟨h.of_good hgood ⟨hset.writeComplete, hset.highWater, hset.mark, hset.clean⟩, rfl⟩
  · rw [heq] at hok
    have hsome : c.level ≠ 0 := h.isWriting_iff.mp hwrote.writing
    obtain ⟨b, rfl⟩ := hwrote.conn
    have hset := Settings.emit c (e := .wrote (c.outputBuffer_.readable.take m)) (by simp)
    obtain ⟨hset', houtput, hpending⟩ := outputDrained_flow hok h.writeComplete
    have hempty : c'.level = 0 := by
      rw [level, houtput]
      exact List.length_eq_zero_iff.mpr hnil
    rw [if_pos ⟨hsome, hempty⟩]
    refine ⟨h.of_good hgood (Settings.trans ?_ hset'), hpending⟩
    exact ⟨hset.writeComplete, hset.highWater, hset.mark, hset.clean⟩

/-! ### Runs -/

/-- A step queues what `callbacksOf` says. -/
theorem step_callbacks (h : Live mark c) {e : Move} (hen : sending.enabled c e)
    (hstep : sending.step c e = .ok c') :
    Live mark c' ∧ c'.pendingFunctors_ = c.pendingFunctors_ ++ callbacksOf mark c c' e ∧
    (writesAll c c' e = true → c'.level = 0) := by
  cases e with
  | sendInLoop message w => exact sendInLoop_callbacks h message hen hstep
  | handleWrite w =>
      obtain ⟨hlive, hpending⟩ := handleWrite_callbacks h hstep
      exact ⟨hlive, hpending, fun hall => (of_decide_eq_true hall).2⟩

/-- The write-complete callback is queued exactly when all is written. -/
theorem writeComplete_mem_iff {e : Move} :
    .writeCompleteCallback ∈ callbacksOf mark c c' e ↔ writesAll c c' e = true := by
  rw [callbacksOf]
  split_ifs <;> simp [*]

/-- The high-water callback is queued exactly when the level crosses the mark. -/
theorem highWaterMark_mem_iff {e : Move} {n : Nat} :
    .highWaterMarkCallback n ∈ callbacksOf mark c c' e
      ↔ crossesMark mark c c' e = true ∧ n = c'.level := by
  rw [callbacksOf]
  split_ifs <;> simp [*]

/-- The level was below the mark and has reached it. -/
theorem crossesMark_bounds {e : Move} (h : crossesMark mark c c' e = true) :
    c.level < mark ∧ mark ≤ c'.level := by
  cases e with
  | sendInLoop message w => exact of_decide_eq_true h
  | handleWrite w => cases h

/-- What a step queues. -/
def queued (mark : Nat) (c : TcpConnection) (e : Move) : List Functor :=
  match sending.step c e with
  | .ok c' => callbacksOf mark c c' e
  | .error _ => []

/-- The functors that were queued between two states. -/
def queuedSince (c c' : TcpConnection) : List Functor :=
  c'.pendingFunctors_.drop c.pendingFunctors_.length

/-- Flow control in every run of `sendInLoop` and `handleWrite`.

- Each step queues what `callbacksOf` says, and so does the run as a whole.
- When the write complete callback is queued, the kernel has accepted all
  bytes that were given to `sendInLoop`.
- After a step that queued the high water mark callback the level is not below
  the mark, and before the next such step it is.
- A step faults only when the output buffer would pass `max_size()`. -/
theorem flow_control {c₀ : TcpConnection} {es : List Move} (h₀ : Live mark c₀)
    (hrun : sending.Run c₀ es c) :
    c.pendingFunctors_ = c₀.pendingFunctors_ ++ sending.seen (queued mark) c₀ es ∧
    (∀ e c', sending.enabled c e → sending.step c e = .ok c' →
      c'.pendingFunctors_ = c.pendingFunctors_ ++ callbacksOf mark c c' e ∧
      (.writeCompleteCallback ∈ queuedSince c c' → accepted c'.log = sent c'.log)) ∧
    (∀ e c₁ fs c₂ e' c₃ m n, sending.enabled c e → sending.step c e = .ok c₁ →
      sending.Run c₁ fs c₂ → sending.enabled c₂ e' → sending.step c₂ e' = .ok c₃ →
      .highWaterMarkCallback m ∈ queuedSince c c₁ → .highWaterMarkCallback n ∈ queuedSince c₂ c₃ →
      mark ≤ c₁.level ∧ c₂.level < mark) ∧
    ∀ e f, sending.enabled c e → sending.step c e = .error f → Throws f := by
  have hlive : ∀ {u v : TcpConnection} {fs : List Move}, Live mark u → sending.Run u fs v →
      Live mark v := fun hu hfs =>
    hfs.invariant hu fun _ _ _ ht hen hstep => (step_callbacks ht hen hstep).1
  have hsince : ∀ {u v : TcpConnection} {e : Move}, Live mark u → sending.enabled u e →
      sending.step u e = .ok v → queuedSince u v = callbacksOf mark u v e := by
    intro u v e hu hen hstep
    rw [queuedSince, (step_callbacks hu hen hstep).2.1, List.drop_left]
  have h := hlive h₀ hrun
  refine ⟨?_, ?_, ?_, ?_⟩
  · have hall : Live mark c ∧
        c.pendingFunctors_ = c₀.pendingFunctors_ ++ sending.seen (queued mark) c₀ es := by
      refine hrun.invariant_seen
        (I := fun l t => Live mark t ∧ t.pendingFunctors_ = c₀.pendingFunctors_ ++ l)
        ⟨h₀, (List.append_nil _).symm⟩ ?_
      intro l t e u ht hen hstep
      obtain ⟨hu, hpending, -⟩ := step_callbacks ht.1 hen hstep
      refine ⟨hu, ?_⟩
      rw [hpending, ht.2, List.append_assoc, queued, hstep]
    exact hall.2
  · intro e c' hen hstep
    obtain ⟨h', hpending, hzero⟩ := step_callbacks h hen hstep
    refine ⟨hpending, fun hmem => h'.accepted_eq (hzero ?_)⟩
    rw [hsince h hen hstep] at hmem
    exact writeComplete_mem_iff.mp hmem
  · intro e c₁ fs c₂ e' c₃ m n hen hstep hfs hen' hstep' hfirst hnext
    have h₂ := hlive (step_callbacks h hen hstep).1 hfs
    rw [hsince h hen hstep] at hfirst
    rw [hsince h₂ hen' hstep'] at hnext
    exact ⟨(crossesMark_bounds (highWaterMark_mem_iff.mp hfirst).1).2,
      (crossesMark_bounds (highWaterMark_mem_iff.mp hnext).1).1⟩
  · intro e f hen hfault
    cases e with
    | sendInLoop message w => exact (sendInLoop_spec message w h.inv).fault hfault
    | handleWrite w => exact (handleWrite_spec w h.inv).fault hfault

/-- A new connection with both callbacks. -/
theorem live_established (mark : Nat) :
    ∃ c₀, (ctor true true mark).connectEstablished [] = .ok c₀ ∧ Live mark c₀ := by
  obtain ⟨ch, hchannel, -⟩ := onChannel_spec (c := { ctor true true mark with state_ := .kConnected })
    (f := Channel.enableReading) (inv_ctor true true mark).entry rfl
  have hok : (ctor true true mark).connectEstablished [] = .ok
      (emit { ctor true true mark with state_ := .kConnected, channel_ := ch }
        (.connectionCallback .kConnected)) := by
    rw [connectEstablished, assertThat_pos (show (ctor true true mark).state_ = .kConnecting from rfl),
      ok_bind]
    exact congrArg (· >>= fun c => runCallback [] (c.emit (.connectionCallback c.state_))) hchannel
  exact ⟨_, hok, (connectEstablished_inv [] (inv_ctor true true mark)).post hok, rfl, rfl, rfl, rfl,
    by simp [TcpConnection.emit, ctor]⟩

/-- The level goes to 3, to 1, to 3 again and to 0, with the mark 2. -/
theorem flow_control_twice :
    ∃ c₀ c, Live 2 c₀ ∧ sending.Run c₀ [.sendInLoop ⟨[1, 2, 3], by decide⟩ (.fail .EWOULDBLOCK),
        .handleWrite (.accept 2), .sendInLoop ⟨[4, 5], by decide⟩ (.accept 2),
        .handleWrite (.accept 9)] c ∧
      c.pendingFunctors_
        = [.highWaterMarkCallback 3, .highWaterMarkCallback 3, .writeCompleteCallback] ∧
      c.pendingFunctors_ = c₀.pendingFunctors_ ++ sending.seen (queued 2) c₀
        [.sendInLoop ⟨[1, 2, 3], by decide⟩ (.fail .EWOULDBLOCK), .handleWrite (.accept 2),
          .sendInLoop ⟨[4, 5], by decide⟩ (.accept 2), .handleWrite (.accept 9)] := by
  have heval : (((ctor true true 2).connectEstablished []).toOption.bind fun c₀ =>
      (sending.exec c₀ [.sendInLoop ⟨[1, 2, 3], by decide⟩ (.fail .EWOULDBLOCK),
        .handleWrite (.accept 2), .sendInLoop ⟨[4, 5], by decide⟩ (.accept 2),
        .handleWrite (.accept 9)]).map (·.pendingFunctors_))
      = some [.highWaterMarkCallback 3, .highWaterMarkCallback 3, .writeCompleteCallback] := by
    decide +kernel
  obtain ⟨c₀, c, hup, hrun, hpending⟩ := Machine.exists_run_of_eval heval
  obtain ⟨c₁, hup₁, hlive⟩ := live_established 2
  cases Except.ok.inj (hup.symm.trans hup₁)
  exact ⟨c₀, c, hlive, hrun, hpending, (flow_control hlive hrun).1⟩

end

end Muduo.Net.TcpConnection
