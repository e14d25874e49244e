import Muduo.Net.TcpConnection
import Muduo.Proofs.Buffer
import Muduo.Proofs.Channel

/-!
# `Muduo.Proofs.TcpConnection`: the output stream of a connection

`Stream log unsent` relates the effects of a connection to the bytes it
still holds. Without a failed direct write, what the kernel accepted
followed by `unsent` is what was sent. After one, what the kernel had
accepted before the first failure is a prefix of what was sent.

A message passes through three moves, and `Stream` has one lemma for
each: it is offered (`Stream.offer`), the kernel accepts some bytes from
the front (`Stream.wrote`), or a fault drops what is left
(`Stream.fault`). `sendInLoop` and `handleWrite` are sequences of these
moves. Short writes need no extra argument, as the accepted bytes are
always cut from the front.

`Inv` adds the two buffers, the poller's entry and the write interest.
`Keeps` says what a function leaves alone in the life of the connection.
Every function has one specification with both.
-/

set_option autoImplicit false

namespace Muduo.Net.TcpConnection

open Muduo.Base
open Muduo.Lib

variable {c : TcpConnection}

/-! ### The stream of a log -/

/-- The bytes an effect adds to the messages sent. -/
def Effect.sentBytes : Effect → List UInt8
  | .sent message => message.bytes
  | _ => []

/-- The bytes an effect adds to those the kernel accepted. -/
def Effect.acceptedBytes : Effect → List UInt8
  | .wrote bytes => bytes
  | _ => []

/-- The messages of the `sendInLoop` calls that found the connection not
disconnected, in execution order. -/
def sent (log : List Effect) : List UInt8 := log.flatMap Effect.sentBytes

/-- The bytes the kernel accepted. -/
def accepted (log : List Effect) : List UInt8 := log.flatMap Effect.acceptedBytes

/-- The effects before the first failed direct write. -/
def beforeFault (log : List Effect) : List Effect := log.takeWhile (· ≠ .directFault)

theorem sent_append (log log' : List Effect) : sent (log ++ log') = sent log ++ sent log' :=
  List.flatMap_append

theorem accepted_append (log log' : List Effect) :
    accepted (log ++ log') = accepted log ++ accepted log' := List.flatMap_append

theorem sent_snoc (log : List Effect) (e : Effect) : sent (log ++ [e]) = sent log ++ e.sentBytes := by
  rw [sent_append]
  simp [sent]

theorem accepted_snoc (log : List Effect) (e : Effect) :
    accepted (log ++ [e]) = accepted log ++ e.acceptedBytes := by
  rw [accepted_append]
  simp [accepted]

/-- Nothing that follows a fault changes what came before it. -/
theorem beforeFault_append_of_mem {log : List Effect} (h : .directFault ∈ log) (log' : List Effect) :
    beforeFault (log ++ log') = beforeFault log := by
  induction log with
  | nil => simp at h
  | cons e log ih =>
      simp only [beforeFault, List.cons_append, List.takeWhile_cons]
      split
      · rename_i hne
        -- `takeWhile` goes on past `e`, so the fault is further behind.
        have hmem : .directFault ∈ log := by
          rcases List.mem_cons.mp h with heq | hmem
          · simp [heq] at hne
          · exact hmem
        have := ih hmem
        simp only [beforeFault] at this
        rw [this]
      · rfl

theorem beforeFault_of_notMem {before : List Effect} (h : .directFault ∉ before)
    (after : List Effect) : beforeFault (before ++ .directFault :: after) = before := by
  rw [beforeFault, List.takeWhile_append_of_pos]
  · simp
  · intro e he
    have hne : e ≠ .directFault := fun heq => h (heq ▸ he)
    simp [hne]

/-- The bytes of a log and the bytes still held. -/
structure Stream (log : List Effect) (unsent : List UInt8) : Prop where
  conserved : .directFault ∉ log → accepted log ++ unsent = sent log
  faulted : .directFault ∈ log → accepted (beforeFault log) <+: sent (beforeFault log)

namespace Stream

variable {log : List Effect} {unsent : List UInt8}

theorem nil : Stream [] [] where
  conserved _ := rfl
  faulted h := by simp at h

/-- An effect other than a fault, with the bytes held changing from
`unsent` to `unsent'`. -/
theorem snoc {e : Effect} {unsent' : List UInt8} (h : Stream log unsent) (he : e ≠ .directFault)
    (hbytes : e.acceptedBytes ++ unsent' = unsent ++ e.sentBytes) : Stream (log ++ [e]) unsent' where
  conserved hno := by
    have hno' : .directFault ∉ log := fun hmem => hno (List.mem_append_left _ hmem)
    rw [accepted_snoc, sent_snoc, ← h.conserved hno', List.append_assoc, List.append_assoc, hbytes]
  faulted hmem := by
    have hmem' : .directFault ∈ log := by
      rcases List.mem_append.mp hmem with hm | hm
      · exact hm
      · exact absurd (List.mem_singleton.mp hm).symm he
    rw [beforeFault_append_of_mem hmem']
    exact h.faulted hmem'

/-- A message is offered: its bytes are held behind the others. -/
theorem offer (h : Stream log unsent) (message : StdString) :
    Stream (log ++ [.sent message]) (unsent ++ message.bytes) :=
  h.snoc (by simp) (by simp [Effect.acceptedBytes, Effect.sentBytes])

/-- The kernel accepts bytes from the front. -/
theorem wrote {bytes : List UInt8} (h : Stream log (bytes ++ unsent)) :
    Stream (log ++ [.wrote bytes]) unsent :=
  h.snoc (by simp) (by simp [Effect.acceptedBytes, Effect.sentBytes])

/-- An effect that moves no bytes. -/
theorem silent {e : Effect} (h : Stream log unsent) (he : e ≠ .directFault)
    (hs : e.sentBytes = []) (ha : e.acceptedBytes = []) : Stream (log ++ [e]) unsent :=
  h.snoc he (by simp [hs, ha])

/-- A direct write fails. From here on only the bytes before the first
fault matter, so `unsent'` is free. -/
theorem fault (h : Stream log unsent) (unsent' : List UInt8) :
    Stream (log ++ [.directFault]) unsent' where
  conserved hno := by simp at hno
  faulted _ := by
    by_cases hmem : .directFault ∈ log
    · rw [beforeFault_append_of_mem hmem]
      exact h.faulted hmem
    · rw [beforeFault_of_notMem hmem]
      exact ⟨unsent, h.conserved hmem⟩

/-- When the kernel accepts nothing after the first fault, it accepted a
prefix of what was sent. -/
theorem accepted_isPrefix {before after : List Effect} (h : Stream log unsent)
    (hlog : log = before ++ .directFault :: after) (hbefore : .directFault ∉ before)
    (hafter : accepted after = []) : accepted log <+: sent log := by
  have hmem : .directFault ∈ log := by simp [hlog]
  have hpre := h.faulted hmem
  rw [hlog, beforeFault_of_notMem hbefore] at hpre
  have hacc : accepted log = accepted before := by
    rw [hlog, accepted_append]
    simp only [accepted, List.flatMap_cons, Effect.acceptedBytes, List.nil_append] at hafter ⊢
    rw [hafter, List.append_nil]
  rw [hacc, hlog, sent_append]
  exact hpre.trans (List.prefix_append _ _)

end Stream

/-! ### The invariant of a connection -/

/-- What holds of a connection at every moment, whatever its owner and its
loop do. -/
structure Inv (c : TcpConnection) : Prop where
  input : c.inputBuffer_.Inv
  output : c.outputBuffer_.Inv
  entry : c.channel_.Entry
  stream : Stream c.log c.outputBuffer_.readable
  /-- The channel waits for writability exactly while bytes are unsent. -/
  interest : c.state_ ≠ .kDisconnected →
    (c.channel_.isWriting = true ↔ c.outputBuffer_.readable ≠ [])
  /-- The write side was shut down with nothing unsent. -/
  shutdowns : ∀ state unsent, .shutdownWrite state unsent ∈ c.log → state ≠ .kDisconnected →
    unsent = []

/-- The states the connection callback was told, in order. -/
def callbacks (log : List Effect) : List StateE :=
  log.filterMap fun
    | .connectionCallback state => some state
    | _ => none

/-- The number of close callbacks. -/
def closes (log : List Effect) : Nat := log.count .closeCallback

/-- The parts of a connection's life that only establishing, closing and
destroying it change. -/
structure Keeps (c c' : TcpConnection) : Prop where
  up : c.isUp = true → c'.isUp = true
  callbacks : callbacks c'.log = callbacks c.log
  closes : closes c'.log = closes c.log
  registered : c.channel_.registered = true → c'.channel_.registered = true
  destroys : .connectDestroyed ∈ c'.pendingFunctors_ → .connectDestroyed ∈ c.pendingFunctors_

theorem Keeps.refl (c : TcpConnection) : Keeps c c where
  up h := h
  callbacks := rfl
  closes := rfl
  registered h := h
  destroys h := h

theorem Keeps.trans {c c' c'' : TcpConnection} (h : Keeps c c') (h' : Keeps c' c'') : Keeps c c'' where
  up hup := h'.up (h.up hup)
  callbacks := h'.callbacks.trans h.callbacks
  closes := h'.closes.trans h.closes
  registered hreg := h'.registered (h.registered hreg)
  destroys hmem := h.destroys (h'.destroys hmem)

/-- `Inv` holds of `c'`, and it keeps what `c` had. -/
structure Good (c c' : TcpConnection) : Prop where
  inv : Inv c'
  keeps : Keeps c c'

theorem Good.refl (h : Inv c) : Good c c := ⟨h, Keeps.refl c⟩

theorem Good.trans {c c' c'' : TcpConnection} (h : Good c c') (h' : Good c' c'') : Good c c'' :=
  ⟨h'.inv, h.keeps.trans h'.keeps⟩

/-- The one fault a good connection can meet in a function without an
`assert` on its state: a vector would pass `max_size()`. -/
def Throws (f : Fault) : Prop := f = .buffer .lengthError

/-! ### The small steps -/

/-- `c'` differs from `c` in its log and its queue only, and what was added
to them is not about the life cycle. -/
structure Logged (c c' : TcpConnection) : Prop where
  state : c'.state_ = c.state_
  input : c'.inputBuffer_ = c.inputBuffer_
  output : c'.outputBuffer_ = c.outputBuffer_
  channel : c'.channel_ = c.channel_
  keeps : Keeps c c'
  shutdowns : ∀ state unsent, .shutdownWrite state unsent ∈ c'.log →
    .shutdownWrite state unsent ∈ c.log

namespace Logged

variable {c c' c'' : TcpConnection}

theorem refl (c : TcpConnection) : Logged c c where
  state := rfl
  input := rfl
  output := rfl
  channel := rfl
  keeps := Keeps.refl c
  shutdowns _ _ h := h

theorem trans (h : Logged c c') (h' : Logged c' c'') : Logged c c'' where
  state := h'.state.trans h.state
  input := h'.input.trans h.input
  output := h'.output.trans h.output
  channel := h'.channel.trans h.channel
  keeps := h.keeps.trans h'.keeps
  shutdowns state unsent hmem := h.shutdowns state unsent (h'.shutdowns state unsent hmem)

/-- Recording an effect that moves bytes. -/
theorem emit (c : TcpConnection) {e : Effect}
    (he : (∃ m, e = .sent m) ∨ (∃ b, e = .wrote b) ∨ e = .directFault) : Logged c (c.emit e) := by
  have hcb : TcpConnection.callbacks (c.log ++ [e]) = TcpConnection.callbacks c.log := by
    rcases he with ⟨m, rfl⟩ | ⟨b, rfl⟩ | rfl <;> simp [TcpConnection.callbacks]
  have hcl : TcpConnection.closes (c.log ++ [e]) = TcpConnection.closes c.log := by
    rcases he with ⟨m, rfl⟩ | ⟨b, rfl⟩ | rfl <;> simp [TcpConnection.closes]
  refine ⟨rfl, rfl, rfl, rfl, ⟨fun h => h, hcb, hcl, fun h => h, fun h => h⟩, ?_⟩
  intro state unsent hmem
  rcases List.mem_append.mp hmem with hm | hm
  · exact hm
  · have heq := List.mem_singleton.mp hm
    rcases he with ⟨m, rfl⟩ | ⟨b, rfl⟩ | rfl <;> cases heq

/-- Queueing a functor other than the one that destroys the connection. -/
theorem queueInLoop (c : TcpConnection) {f : Functor} (hf : f ≠ .connectDestroyed) :
    Logged c (c.queueInLoop f) := by
  refine ⟨rfl, rfl, rfl, rfl, ⟨fun h => h, rfl, rfl, fun h => h, ?_⟩, fun _ _ h => h⟩
  intro hmem
  rcases List.mem_append.mp hmem with hm | hm
  · exact hm
  · exact absurd (List.mem_singleton.mp hm).symm hf

end Logged

/-- The invariant after such a change, when the stream still agrees. -/
theorem Inv.of_logged {c c' : TcpConnection} (h : Inv c) (hl : Logged c c')
    (hs : Stream c'.log c.outputBuffer_.readable) : Inv c' where
  input := hl.input ▸ h.input
  output := hl.output ▸ h.output
  entry := hl.channel ▸ h.entry
  stream := hl.output ▸ hs
  interest := by
    rw [hl.state, hl.channel, hl.output]
    exact h.interest
  shutdowns state unsent hmem := h.shutdowns state unsent (hl.shutdowns state unsent hmem)

theorem queueInLoop_good {f : Functor} (h : Inv c)
    (hf : f ≠ .connectDestroyed) : Good c (c.queueInLoop f) :=
  ⟨h.of_logged (Logged.queueInLoop c hf) h.stream, (Logged.queueInLoop c hf).keeps⟩

/-- A change of interest returns, and touches only the channel. -/
theorem onChannel_spec {f : Channel → Except Channel.Fault Channel}
    {events : EventMask} (h : c.channel_.Entry)
    (hf : f c.channel_ = Channel.update { c.channel_ with events_ := events }) :
    ∃ ch, c.onChannel f = .ok { c with channel_ := ch } ∧
      Channel.Updated { c.channel_ with events_ := events } ch := by
  obtain ⟨ch, hup, hch⟩ := Channel.change_spec h events
  refine ⟨ch, ?_, hch⟩
  rw [onChannel, hf, hup]
  rfl

/-- `append` on the output buffer. -/
theorem onOutput_append {data : List UInt8} (h : c.outputBuffer_.Inv)
    (hlen : data.length ≤ maxSize) :
    Ends (c.onOutput (·.append data)) Throws fun c' =>
      ∃ b, c' = { c with outputBuffer_ := b } ∧ b.Inv ∧
        b.readable = c.outputBuffer_.readable ++ data := by
  have hsz : c.outputBuffer_.buffer_.length + data.length < sizeModulus := by
    have hmax := h.size_le
    have hsum : maxSize + maxSize < sizeModulus := by decide
    omega
  rcases Buffer.append_spec h hsz with ⟨b, happ, hb, hread, -, -⟩ | ⟨happ, -⟩
  · refine Ends.of_eq_ok ?_ ⟨b, rfl, hb, hread⟩
    rw [onOutput, happ]
    rfl
  · refine Ends.of_eq_error ?_ rfl
    rw [onOutput, happ]
    rfl

/-- `retrieve` on the output buffer. -/
theorem onOutput_retrieve {n : Nat} (h : c.outputBuffer_.Inv)
    (hn : n ≤ c.outputBuffer_.readable.length) :
    ∃ b, c.onOutput (·.retrieve n) = .ok { c with outputBuffer_ := b } ∧ b.Inv ∧
      b.readable = c.outputBuffer_.readable.drop n := by
  rw [h.length_readable] at hn
  obtain ⟨b, hret, hb, hread, -⟩ := Buffer.retrieve_spec h hn
  refine ⟨b, ?_, hb, hread⟩
  rw [onOutput, hret]
  rfl

/-! ### Sending -/

/-- What the first half of `sendInLoop` leaves to the second. -/
structure Direct (c : TcpConnection) (data : List UInt8) (d : DirectWrite) : Prop where
  logged : Logged c d.conn
  split : d.nwrote + d.remaining = data.length
  stream : Stream d.conn.log (c.outputBuffer_.readable ++
    if d.faultError = true then [] else slice data d.nwrote d.remaining)

/-- No direct write: everything remains. -/
theorem direct_of_skip {c c' : TcpConnection} {data : List UInt8} (hl : Logged c c')
    (hs : Stream c'.log (c.outputBuffer_.readable ++ data)) :
    Direct c data ⟨c', 0, data.length, false⟩ where
  logged := hl
  split := Nat.zero_add _
  stream := by
    have hall : slice data 0 data.length = data := by simp [slice]
    simpa [hall] using hs

/-- A direct write that the kernel took `n` bytes of, with an empty output
buffer. -/
theorem direct_of_accept {c c' : TcpConnection} {data : List UInt8} {n : Nat} (hl : Logged c c')
    (hempty : c.outputBuffer_.readable = []) (hn : n ≤ data.length)
    (hs : Stream c'.log (data.drop n)) : Direct c data ⟨c', n, data.length - n, false⟩ where
  logged := hl
  split := Nat.add_sub_cancel' hn
  stream := by
    have hrest : slice data n (data.length - n) = data.drop n := by simp [slice]
    simpa [hempty, hrest] using hs

/-- The direct write of `sendInLoop`, whatever the kernel answers. -/
theorem writeDirectly_spec (message : StdString) (w : WriteOutcome)
    (h : Inv c) : Direct c message.bytes (writeDirectly (c.emit (.sent message)) message.bytes w) := by
  have hoffer := h.stream.offer message
  have hsent : Logged c (c.emit (.sent message)) := Logged.emit c (Or.inl ⟨message, rfl⟩)
  have hskip : Direct c message.bytes ⟨c.emit (.sent message), 0, message.bytes.length, false⟩ :=
    direct_of_skip hsent hoffer
  rw [writeDirectly]
  split
  · rename_i hidle
    -- The test of `sendInLoop`: nothing is held in front of the message.
    have hempty : c.outputBuffer_.readable = [] := by
      simp only [Bool.and_eq_true, beq_iff_eq] at hidle
      exact h.output.readableBytes_eq_zero.mp hidle.2
    rw [hempty, List.nil_append] at hoffer
    cases w with
    | accept n =>
        -- The kernel takes a front piece, possibly all of it.
        have hn : min n message.bytes.length ≤ message.bytes.length := Nat.min_le_right _ _
        have hlen : message.bytes.length < sizeModulus :=
          Nat.lt_of_le_of_lt message.length_le Buffer.maxSize_lt
        have hwrote : Stream ((c.emit (.sent message)).emit
            (.wrote (message.bytes.take (min n message.bytes.length)))).log
            (message.bytes.drop (min n message.bytes.length)) := by
          refine Stream.wrote ?_
          rw [List.take_append_drop]
          exact hoffer
        have hl := hsent.trans (Logged.emit (c.emit (.sent message))
          (Or.inr (Or.inl ⟨message.bytes.take (min n message.bytes.length), rfl⟩)))
        simp only [sockets.write, subSize_eq hn hlen]
        split
        · exact direct_of_accept (hl.trans (Logged.queueInLoop _ (by simp))) hempty hn hwrote
        · exact direct_of_accept hl hempty hn hwrote
    | fail e =>
        simp only [sockets.write]
        split
        · -- The message is dropped, and `Stream.fault` allows that.
          exact
            { logged := hsent.trans (Logged.emit _ (Or.inr (Or.inr rfl)))
              split := Nat.zero_add _
              stream := hoffer.fault _ }
        · exact hskip
  · exact hskip

theorem checkHighWaterMark_spec (c : TcpConnection) (remaining : Nat) :
    Logged c (c.checkHighWaterMark remaining) ∧ (c.checkHighWaterMark remaining).log = c.log := by
  simp only [checkHighWaterMark]
  split
  · exact ⟨Logged.queueInLoop c (by simp), rfl⟩
  · exact ⟨Logged.refl c, rfl⟩

/-- Bytes were put behind the unsent ones, so the channel has to wait for
writability, which it may do already. -/
theorem enableWriting_good (c₁ : TcpConnection) {b : Buffer} (h : Inv c)
    (hl : Logged c c₁) (hb : b.Inv) (hne : b.readable ≠ []) (hstream : Stream c₁.log b.readable) :
    Ends (if !c₁.channel_.isWriting then
        onChannel { c₁ with outputBuffer_ := b } Channel.enableWriting
      else return { c₁ with outputBuffer_ := b }) Throws (Good c) := by
  split
  · have hentry : c₁.channel_.Entry := hl.channel ▸ h.entry
    obtain ⟨ch, hup, hch⟩ := onChannel_spec (c := { c₁ with outputBuffer_ := b })
      (f := Channel.enableWriting) hentry rfl
    refine Ends.of_eq_ok hup ⟨?_, ?_⟩
    · exact
        { input := hl.input ▸ h.input
          output := hb
          entry := hch.entry
          stream := hstream
          interest := fun _ => by
            have hbit : ch.isWriting = true := by
              rw [Channel.isWriting_eq, hch.events]
              simp [Channel.getLsbD_kWriteEvent]
            simp [hbit, hne]
          shutdowns := fun st u hm => h.shutdowns st u (hl.shutdowns st u hm) }
    · exact
        { up := hl.keeps.up
          callbacks := hl.keeps.callbacks
          closes := hl.keeps.closes
          registered := fun _ => hch.registered
          destroys := hl.keeps.destroys }
  · rename_i hwriting
    refine Ends.ok ⟨?_, ?_⟩
    · exact
        { input := hl.input ▸ h.input
          output := hb
          entry := hl.channel ▸ h.entry
          stream := hstream
          interest := fun _ => by
            have hbit : c₁.channel_.isWriting = true := by simpa using hwriting
            simp [hbit, hne]
          shutdowns := fun st u hm => h.shutdowns st u (hl.shutdowns st u hm) }
    · exact hl.keeps.trans ⟨fun hu => hu, rfl, rfl, fun hr => hr, fun hm => hm⟩

/-- What is left goes behind the unsent bytes, and the channel waits for
writability. -/
theorem bufferRest_spec {message : StdString} {d : DirectWrite} (h : Inv c)
    (hd : Direct c message.bytes d) : Ends (bufferRest d message.bytes) Throws (Good c) := by
  rw [bufferRest]
  split
  · rename_i hrest
    simp only [Bool.and_eq_true, Bool.not_eq_true', decide_eq_true_eq] at hrest
    obtain ⟨hok, hpos⟩ := hrest
    have hlen : (slice message.bytes d.nwrote d.remaining).length = d.remaining :=
      length_slice (Nat.le_of_eq hd.split)
    have hmax : (slice message.bytes d.nwrote d.remaining).length ≤ maxSize := by
      have := message.length_le
      have := hd.split
      omega
    have hstream := hd.stream
    rw [if_neg (by simp [hok])] at hstream
    -- The high water mark callback is queued or not, which changes nothing below.
    obtain ⟨hmark, hlog⟩ := checkHighWaterMark_spec d.conn d.remaining
    generalize d.conn.checkHighWaterMark d.remaining = c₁ at hmark hlog
    have hl : Logged c c₁ := hd.logged.trans hmark
    have hout : c₁.outputBuffer_.Inv := hl.output ▸ h.output
    refine Ends.bind (onOutput_append hout hmax) ?_
    rintro c₂ ⟨b, rfl, hb, hread⟩
    have hne : b.readable ≠ [] := by
      intro hnil
      rw [hread] at hnil
      have := (List.append_eq_nil_iff.mp hnil).2
      rw [this] at hlen
      simp at hlen
      omega
    have hstream' : Stream c₁.log b.readable := by
      rw [hlog, hread, hl.output]
      exact hstream
    exact enableWriting_good c₁ h hl hb hne hstream'
  · rename_i hrest
    refine Ends.ok ⟨h.of_logged hd.logged ?_, hd.logged.keeps⟩
    have hstream := hd.stream
    split at hstream
    · rwa [List.append_nil] at hstream
    · rename_i hok
      -- No fault, so the kernel took the whole message.
      have hzero : d.remaining = 0 := by
        simp only [Bool.and_eq_true, Bool.not_eq_true', decide_eq_true_eq, not_and] at hrest
        have := hrest (by simpa using hok)
        omega
      rwa [hzero, slice_zero, List.append_nil] at hstream

theorem sendInLoop_spec (message : StdString) (w : WriteOutcome) (h : Inv c) :
    Ends (c.sendInLoop message w) Throws (Good c) := by
  rw [sendInLoop]
  split
  · exact Ends.ok (Good.refl h)
  · have hd := writeDirectly_spec message w h
    have hle : (writeDirectly (c.emit (.sent message)) message.bytes w).remaining
        ≤ message.bytes.length := by
      have := hd.split
      omega
    exact Ends.assert hle (bufferRest_spec h hd)

/-! ### The other functions of the loop thread -/

theorem isUp_iff :
    c.isUp = true ↔ c.state_ = .kConnected ∨ c.state_ = .kDisconnecting := by
  simp [isUp]

/-- An effect that moves no bytes, recorded when it is no `shutdownWrite`
or one with nothing unsent. -/
theorem Inv.emit {e : Effect} (h : Inv c) (he : e ≠ .directFault)
    (hs : e.sentBytes = []) (ha : e.acceptedBytes = [])
    (hsh : ∀ state unsent, e = .shutdownWrite state unsent → state ≠ .kDisconnected →
      unsent = []) : Inv (c.emit e) where
  input := h.input
  output := h.output
  entry := h.entry
  stream := h.stream.silent he hs ha
  interest := h.interest
  shutdowns state unsent hmem := by
    rcases List.mem_append.mp hmem with hm | hm
    · exact h.shutdowns state unsent hm
    · exact hsh state unsent (List.mem_singleton.mp hm).symm

/-- Leaving `kConnected` for `kDisconnecting`. -/
theorem setDisconnecting_good {n : Nat} (h : Inv c) (hup : c.isUp = true) :
    Good c { c with state_ := .kDisconnecting, delayed := n } where
  inv :=
    { input := h.input
      output := h.output
      entry := h.entry
      stream := h.stream
      interest := fun _ => h.interest (by
        rcases isUp_iff.mp hup with hst | hst <;> rw [hst] <;> decide)
      shutdowns := h.shutdowns }
  keeps := ⟨fun _ => rfl, rfl, rfl, fun hr => hr, fun hm => hm⟩

/-- With no write interest there is nothing unsent, as long as the
connection is not closed. -/
theorem shutdownInLoop_good (h : Inv c) : Good c c.shutdownInLoop := by
  rw [shutdownInLoop]
  split
  · rename_i hidle
    refine ⟨h.emit (by simp) rfl rfl ?_, ⟨fun hup => hup, ?_, ?_, fun hr => hr, fun hm => hm⟩⟩
    · intro state unsent heq hst
      cases heq
      by_contra hne
      -- Unsent bytes would keep the channel writing.
      have := (h.interest hst).mpr hne
      simp [this] at hidle
    · simp [callbacks, TcpConnection.emit]
    · simp [closes, TcpConnection.emit]
  · exact Good.refl h

theorem shutdown_good (inLoop : Bool) (h : Inv c) :
    Good c (c.shutdown inLoop) := by
  rw [shutdown]
  split
  · rename_i hst
    have hset : Good c { c with state_ := .kDisconnecting } :=
      setDisconnecting_good h (isUp_iff.mpr (Or.inl hst))
    cases inLoop with
    | true => exact hset.trans (shutdownInLoop_good hset.inv)
    | false => exact hset.trans (queueInLoop_good hset.inv (by simp))
  · exact Good.refl h

theorem forceClose_good (h : Inv c) : Good c c.forceClose := by
  rw [forceClose]
  split
  · rename_i hup
    have hset : Good c { c with state_ := .kDisconnecting } := setDisconnecting_good h hup
    exact hset.trans (queueInLoop_good hset.inv (by simp))
  · exact Good.refl h

theorem forceCloseWithDelay_good (h : Inv c) :
    Good c c.forceCloseWithDelay := by
  rw [forceCloseWithDelay]
  split
  · rename_i hup
    exact setDisconnecting_good h hup
  · exact Good.refl h

theorem delayedForceClose_good (h : Inv c) : Good c c.delayedForceClose := by
  have hset : Good c { c with delayed := c.delayed - 1 } :=
    ⟨⟨h.input, h.output, h.entry, h.stream, h.interest, h.shutdowns⟩,
      ⟨fun hup => hup, rfl, rfl, fun hr => hr, fun hm => hm⟩⟩
  exact hset.trans (forceClose_good hset.inv)

/-- A change of the read interest. The write bit stays, so `Inv` does. -/
theorem setReading_spec {f : Channel → Except Channel.Fault Channel}
    {events : EventMask} (h : Inv c)
    (hf : f c.channel_ = Channel.update { c.channel_ with events_ := events })
    (hbit : events.getLsbD 2 = c.channel_.events_.getLsbD 2) (reading : Bool) :
    ∃ ch, c.onChannel f = .ok { c with channel_ := ch } ∧
      Good c { c with channel_ := ch, reading_ := reading } := by
  obtain ⟨ch, hup, hch⟩ := onChannel_spec h.entry hf
  have hwriting : ch.isWriting = c.channel_.isWriting := by
    rw [Channel.isWriting_eq, Channel.isWriting_eq, hch.events]
    exact hbit
  -- The one field that reads the channel is `interest`.
  refine ⟨ch, hup, ⟨h.input, h.output, hch.entry, h.stream, ?_, h.shutdowns⟩,
    ⟨fun hu => hu, rfl, rfl, fun _ => hch.registered, fun hm => hm⟩⟩
  show c.state_ ≠ .kDisconnected → (ch.isWriting = true ↔ c.outputBuffer_.readable ≠ [])
  rw [hwriting]
  exact h.interest

theorem startReadInLoop_spec (h : Inv c) :
    Ends c.startReadInLoop Throws (Good c) := by
  rw [startReadInLoop]
  split
  · obtain ⟨ch, hup, hgood⟩ := setReading_spec (f := Channel.enableReading) h rfl
      (by rw [BitVec.getLsbD_or, Channel.getLsbD_kReadEvent, Bool.or_false]) true
    rw [hup]
    exact Ends.ok hgood
  · exact Ends.ok (Good.refl h)

theorem stopReadInLoop_spec (h : Inv c) :
    Ends c.stopReadInLoop Throws (Good c) := by
  rw [stopReadInLoop]
  split
  · obtain ⟨ch, hup, hgood⟩ := setReading_spec (f := Channel.disableReading) h rfl
      (by rw [BitVec.getLsbD_and, BitVec.getLsbD_not, Channel.getLsbD_kReadEvent]; simp) false
    rw [hup]
    exact Ends.ok hgood
  · exact Ends.ok (Good.refl h)

/-- Any call of user code, from any thread. -/
theorem call_spec (inLoop : Bool) (k : Call) (h : Inv c) :
    Ends (c.call inLoop k) Throws (Good c) := by
  cases k with
  | send message w =>
      simp only [call, send]
      split
      · cases inLoop with
        | true => exact sendInLoop_spec message w h
        | false => exact Ends.ok (queueInLoop_good h (by simp))
      · exact Ends.ok (Good.refl h)
  | shutdown => exact Ends.ok (shutdown_good inLoop h)
  | forceClose => exact Ends.ok (forceClose_good h)
  | forceCloseWithDelay => exact Ends.ok (forceCloseWithDelay_good h)
  | startRead =>
      cases inLoop with
      | true => exact startReadInLoop_spec h
      | false => exact Ends.ok (queueInLoop_good h (by simp))
  | stopRead =>
      cases inLoop with
      | true => exact stopReadInLoop_spec h
      | false => exact Ends.ok (queueInLoop_good h (by simp))

/-- A callback of the user: its calls one after the other. -/
theorem runCallback_spec (cb : List Call) (h : Inv c) :
    Ends (c.runCallback cb) Throws (Good c) := by
  refine Ends.foldlM ?_ (Good.refl h)
  intro c' k _ hgood
  exact (call_spec true k hgood.inv).imp fun c'' hnext => hgood.trans hnext

/-! ### Writing what is buffered -/

/-- A write event that moves bytes leaves `c₁`: the kernel took `m` bytes
from the front of the output buffer. -/
structure Wrote (c : TcpConnection) (m : Nat) (c₁ : TcpConnection) : Prop where
  writing : c.channel_.isWriting = true
  conn : ∃ b, c₁ = { c.emit (.wrote (c.outputBuffer_.readable.take m)) with outputBuffer_ := b }
  output : c₁.outputBuffer_.Inv
  readable : c₁.outputBuffer_.readable = c.outputBuffer_.readable.drop m

/-- Every outcome of a write event. It changes nothing, or it moves bytes.
In the second case it ends there when bytes are left, and otherwise goes
on to `outputDrained`. -/
theorem handleWrite_cases (w : WriteOutcome) (h : Inv c) :
    c.handleWrite w = .ok c ∨
    (∃ m c₁, Wrote c m c₁ ∧ c₁.outputBuffer_.readable ≠ [] ∧ c.handleWrite w = .ok c₁) ∨
    (∃ n m c₁, w = .accept n ∧ m ≤ n ∧ Wrote c m c₁ ∧ c₁.outputBuffer_.readable = [] ∧
      c.handleWrite w = c₁.outputDrained) := by
  cases hwriting : c.channel_.isWriting with
  | false => exact Or.inl (by simp [handleWrite, hwriting])
  | true =>
      cases w with
      | fail e => exact Or.inl (by simp [handleWrite, hwriting, sockets.write])
      | accept n =>
          have hle : min n c.outputBuffer_.readable.length ≤ c.outputBuffer_.readable.length :=
            Nat.min_le_right _ _
          have hmn : min n c.outputBuffer_.readable.length ≤ n := Nat.min_le_left _ _
          simp only [handleWrite, hwriting, sockets.write, if_true]
          -- From here on only the bounds of the count matter.
          generalize min n c.outputBuffer_.readable.length = m at hle hmn ⊢
          by_cases hpos : 0 < m
          · obtain ⟨b, hret, hb, hread⟩ := onOutput_retrieve
              (c := c.emit (.wrote (c.outputBuffer_.readable.take m))) h.output hle
            rw [if_pos hpos, hret, ok_bind]
            by_cases hzero : b.readableBytes = 0
            · rw [if_pos hzero]
              exact Or.inr (Or.inr ⟨n, m, _, rfl, hmn, ⟨hwriting, ⟨b, rfl⟩, hb, hread⟩,
                hb.readableBytes_eq_zero.mp hzero, rfl⟩)
            · rw [if_neg hzero]
              exact Or.inr (Or.inl ⟨m, _, ⟨hwriting, ⟨b, rfl⟩, hb, hread⟩,
                fun hnil => hzero (hb.readableBytes_eq_zero.mpr hnil), rfl⟩)
          · -- `::write` took nothing, which the source treats as an error.
            rw [if_neg hpos]
            exact Or.inl rfl

/-- What a write event that moved bytes has kept. -/
theorem Wrote.spec {c c₁ : TcpConnection} {m : Nat} (h : Inv c) (hw : Wrote c m c₁) :
    Stream c₁.log c₁.outputBuffer_.readable ∧ Keeps c c₁ ∧
      (∀ state unsent, .shutdownWrite state unsent ∈ c₁.log → state ≠ .kDisconnected →
        unsent = []) := by
  have hl := Logged.emit c (Or.inr (Or.inl ⟨c.outputBuffer_.readable.take m, rfl⟩))
  have hread := hw.readable
  obtain ⟨b, rfl⟩ := hw.conn
  refine ⟨Stream.wrote ?_, ?_, fun st u hm => h.shutdowns st u (hl.shutdowns st u hm)⟩
  · rw [hread, List.take_append_drop]
    exact h.stream
  · exact hl.keeps.trans ⟨fun hu => hu, rfl, rfl, fun hr => hr, fun hm => hm⟩

/-- The output buffer has drained: the write interest goes, and a
connection that was shut down meanwhile shuts its write side down. -/
theorem outputDrained_spec {c c₁ : TcpConnection} {m : Nat} (h : Inv c) (hw : Wrote c m c₁)
    (hempty : c₁.outputBuffer_.readable = []) : Ends c₁.outputDrained Throws (Good c) := by
  obtain ⟨hstream, hkeeps, hsh⟩ := hw.spec h
  have hentry : c₁.channel_.Entry := by
    obtain ⟨b, rfl⟩ := hw.conn
    exact h.entry
  have hin : c₁.inputBuffer_.Inv := by
    obtain ⟨b, rfl⟩ := hw.conn
    exact h.input
  obtain ⟨ch, hup, hch⟩ := onChannel_spec (f := Channel.disableWriting) hentry rfl
  have hbit : ch.isWriting = false := by
    rw [Channel.isWriting_eq, hch.events]
    simp [Channel.getLsbD_kWriteEvent]
  -- `isWriting` and the readable bytes go to false and empty together.
  have hgood : Good c { c₁ with channel_ := ch } := by
    refine ⟨⟨hin, hw.output, hch.entry, hstream, fun _ => ?_, hsh⟩,
      hkeeps.trans ⟨fun hu => hu, rfl, rfl, fun _ => hch.registered, fun hm => hm⟩⟩
    simp [hbit, hempty]
  rw [outputDrained, hup, ok_bind]
  generalize { c₁ with channel_ := ch } = c₂ at hgood
  have hqueued : Good c (if c₂.writeCompleteCallback_ = true then
      c₂.queueInLoop .writeCompleteCallback else c₂) := by
    split
    · exact hgood.trans (queueInLoop_good hgood.inv (by simp))
    · exact hgood
  generalize (if c₂.writeCompleteCallback_ = true then
    c₂.queueInLoop .writeCompleteCallback else c₂) = c₃ at hqueued
  show Ends (if c₃.state_ = .kDisconnecting then pure c₃.shutdownInLoop else pure c₃) Throws (Good c)
  split
  · exact Ends.ok (hqueued.trans (shutdownInLoop_good hqueued.inv))
  · exact Ends.ok hqueued

theorem handleWrite_spec (w : WriteOutcome) (h : Inv c) :
    Ends (c.handleWrite w) Throws (Good c) := by
  rcases handleWrite_cases w h with hsame | ⟨m, c₁, hw, hne, hok⟩ | ⟨n, m, c₁, -, -, hw, hnil, hok⟩
  · exact Ends.of_eq_ok hsame (Good.refl h)
  · -- A short write: the interest stays.
    obtain ⟨hstream, hkeeps, hsh⟩ := hw.spec h
    refine Ends.of_eq_ok hok ⟨?_, hkeeps⟩
    have hwriting := hw.writing
    have hout := hw.output
    obtain ⟨b, rfl⟩ := hw.conn
    refine ⟨h.input, hout, h.entry, hstream, fun _ => ?_, hsh⟩
    show c.channel_.isWriting = true ↔ b.readable ≠ []
    exact iff_of_true hwriting hne
  · rw [hok]
    exact outputDrained_spec h hw hnil

/-! ### Establishing, closing and destroying -/

/-- `setState(kDisconnected); channel_->disableAll();`. -/
theorem goDown_spec (h : Inv c) :
    ∃ ch, onChannel { c with state_ := .kDisconnected } Channel.disableAll
        = .ok { c with state_ := .kDisconnected, channel_ := ch } ∧
      Channel.Updated { c.channel_ with events_ := Channel.kNoneEvent } ch ∧
      Inv { c with state_ := .kDisconnected, channel_ := ch } := by
  obtain ⟨ch, hup, hch⟩ := onChannel_spec (c := { c with state_ := .kDisconnected })
    (f := Channel.disableAll) h.entry rfl
  refine ⟨ch, hup, hch, ?_⟩
  exact
    { input := h.input
      output := h.output
      entry := hch.entry
      stream := h.stream
      -- In `kDisconnected` the buffer may keep bytes nobody waits for.
      interest := fun hne => absurd rfl hne
      shutdowns := h.shutdowns }

theorem connectEstablished_inv (cb : List Call) (h : Inv c) :
    Ends (c.connectEstablished cb) (fun f => Throws f ∨ f = .connectEstablished) Inv := by
  rw [connectEstablished]
  by_cases hst : c.state_ = .kConnecting
  · refine Ends.assert hst ?_
    have hset : Inv { c with state_ := .kConnected } :=
      ⟨h.input, h.output, h.entry, h.stream, fun _ => h.interest (by rw [hst]; decide), h.shutdowns⟩
    obtain ⟨ch, hup, hgood⟩ := setReading_spec (f := Channel.enableReading) hset rfl
      (by rw [BitVec.getLsbD_or, Channel.getLsbD_kReadEvent, Bool.or_false]) c.reading_
    rw [hup]
    have hcb := runCallback_spec cb (hgood.inv.emit (e := .connectionCallback .kConnected)
      (by simp) rfl rfl (by simp))
    exact hcb.mono (fun _ hf => Or.inl hf) fun c' hc' => hc'.inv
  · rw [assertThat_neg hst]
    exact Ends.error (Or.inr rfl)

theorem handleClose_inv (cb : List Call) (h : Inv c) :
    Ends (c.handleClose cb) (fun f => Throws f ∨ (f = .handleClose ∧ c.isUp = false)) Inv := by
  rw [handleClose]
  by_cases hst : c.state_ = .kConnected ∨ c.state_ = .kDisconnecting
  · refine Ends.assert hst ?_
    obtain ⟨ch, hup, -, hinv⟩ := goDown_spec h
    rw [hup, ok_bind]
    have hcb := runCallback_spec cb (hinv.emit (e := .connectionCallback .kDisconnected)
      (by simp) rfl rfl (by simp))
    refine Ends.bind (hcb.mono (fun _ hf => Or.inl hf) fun _ hc => hc) ?_
    intro c' hc'
    exact Ends.ok (hc'.inv.emit (by simp) rfl rfl (by simp))
  · rw [assertThat_neg hst]
    refine Ends.error (Or.inr ⟨rfl, ?_⟩)
    cases hup : c.isUp with
    | false => rfl
    | true => exact absurd (isUp_iff.mp hup) hst

theorem forceCloseInLoop_inv (cb : List Call) (h : Inv c) :
    Ends (c.forceCloseInLoop cb) Throws Inv := by
  rw [forceCloseInLoop]
  split
  · rename_i hst
    refine (handleClose_inv cb h).mono ?_ fun _ hc => hc
    rintro f (hf | ⟨-, hdown⟩)
    · exact hf
    · rw [isUp_iff.mpr hst] at hdown
      cases hdown
  · exact Ends.ok h

/-- Removing the channel from the poller, at the end of
`connectDestroyed`. -/
theorem remove_inv (h : Inv c) :
    Ends (c.onChannel Channel.remove)
      (fun f => (f = .channel .removeInterest ∧ c.channel_.events_ ≠ Channel.kNoneEvent) ∨
        (f = .channel .removeChannelUnknown ∧ c.channel_.registered = false))
      (fun c' => Inv c' ∧ ∃ ch, c' = { c with channel_ := ch } ∧
        ch.events_ = Channel.kNoneEvent ∧ ch.epoll = none) := by
  refine Ends.bind (Ends.mapError ((Channel.remove_ends h.entry).mono ?_ fun _ hch => hch)) ?_
  · rintro f (⟨rfl, hev⟩ | ⟨rfl, hreg⟩)
    · exact Or.inl ⟨rfl, hev⟩
    · exact Or.inr ⟨rfl, hreg⟩
  · rintro ch ⟨hentry, hnone, hev, hep⟩
    refine Ends.ok ⟨⟨h.input, h.output, hentry, h.stream, ?_, h.shutdowns⟩, ch, rfl, hev, hep⟩
    -- `remove` passed its `assert`, so there was no interest to lose.
    have hbit : ch.isWriting = c.channel_.isWriting := by
      rw [Channel.isWriting_of_none hev, Channel.isWriting_of_none hnone]
    show c.state_ ≠ .kDisconnected → (ch.isWriting = true ↔ c.outputBuffer_.readable ≠ [])
    rw [hbit]
    exact h.interest

theorem connectDestroyed_inv (cb : List Call) (h : Inv c) :
    Ends (c.connectDestroyed cb) (fun _ => True) Inv := by
  rw [connectDestroyed]
  have hremove : ∀ c', Inv c' → Ends (c'.onChannel Channel.remove) (fun _ => True) Inv :=
    fun c' hc' => (remove_inv hc').mono (fun _ _ => trivial) fun _ hc => hc.1
  split
  · obtain ⟨ch, hup, -, hinv⟩ := goDown_spec h
    rw [hup, ok_bind]
    have hcb := runCallback_spec cb (hinv.emit (e := .connectionCallback .kDisconnected)
      (by simp) rfl rfl (by simp))
    refine Ends.bind (hcb.mono (fun _ _ => trivial) fun _ hc => hc) ?_
    intro c' hc'
    exact hremove c' hc'.inv
  · exact hremove c h

/-- The input side of a connection is no part of its output stream. -/
theorem Inv.withInput {b : Buffer} (h : Inv c) (hb : b.Inv) :
    Inv { c with inputBuffer_ := b } :=
  ⟨hb, h.output, h.entry, h.stream, h.interest, h.shutdowns⟩

/-- Every outcome of a read event: the input buffer throws, the stream has
ended, bytes have come, or the read failed. -/
theorem handleRead_cases (r : Buffer.ReadResult) (taken : Nat)
    (cb : List Call) (h : Inv c) :
    (∃ f, Throws f ∧ c.handleRead r taken cb = .error f) ∨
    (∃ b, b.Inv ∧ r = .delivered [] ∧
      c.handleRead r taken cb = handleClose cb { c with inputBuffer_ := b }) ∨
    (∃ b, b.Inv ∧ r ≠ .delivered [] ∧ c.handleRead r taken cb
      = runCallback cb ({ c with inputBuffer_ := b }.emit .messageCallback)) ∨
    (∃ b, b.Inv ∧ r ≠ .delivered [] ∧
      c.handleRead r taken cb = .ok { c with inputBuffer_ := b }) := by
  have hread := Buffer.readFd_spec h.input r
  rw [handleRead]
  cases hfd : c.inputBuffer_.readFd r with
  | error f =>
      have hthrow := hread.fault hfd
      exact Or.inl ⟨.buffer f, by rw [hthrow]; rfl, rfl⟩
  | ok p =>
      obtain ⟨hb, -, hcount⟩ := hread.post hfd
      obtain ⟨input, n⟩ := p
      simp only [Except.mapError, ok_bind]
      split
      · rename_i hpos
        obtain ⟨b, hret, hb', -, -⟩ := @Buffer.retrieve_spec input
          (min taken input.readableBytes) hb (Nat.min_le_right _ _)
        -- A positive count is not the end of the stream.
        refine Or.inr (Or.inr (Or.inl ⟨b, hb', ?_, ?_⟩))
        · intro heof
          have := hcount.mpr heof
          omega
        · rw [hret]
          rfl
      · split
        · rename_i hzero
          exact Or.inr (Or.inl ⟨input, hb, hcount.mp hzero, rfl⟩)
        · rename_i hzero
          exact Or.inr (Or.inr (Or.inr ⟨input, hb, fun heof => hzero (hcount.mpr heof), rfl⟩))

theorem handleRead_inv (r : Buffer.ReadResult) (taken : Nat) (cb : List Call)
    (h : Inv c) :
    Ends (c.handleRead r taken cb) (fun f => Throws f ∨ (f = .handleClose ∧ c.isUp = false))
      Inv := by
  rcases handleRead_cases r taken cb h with ⟨f, hf, heq⟩ | ⟨b, hb, -, heq⟩ | ⟨b, hb, -, heq⟩ |
    ⟨b, hb, -, heq⟩ <;> rw [heq]
  · exact Ends.error (Or.inl hf)
  · exact handleClose_inv cb (h.withInput hb)
  · have hmsg := (h.withInput hb).emit (e := .messageCallback) (by simp) rfl rfl (by simp)
    exact (runCallback_spec cb hmsg).mono (fun _ hf => Or.inl hf) fun _ hc => hc.inv
  · exact Ends.ok (h.withInput hb)

theorem runFunctor_inv (f : Functor) (w : WriteOutcome) (cb : List Call)
    (h : Inv c) : Ends (c.runFunctor f w cb) (fun _ => True) Inv := by
  have hgood : ∀ {x : Except Fault TcpConnection}, Ends x Throws (Good c) →
      Ends x (fun _ => True) Inv :=
    fun hx => hx.mono (fun _ _ => trivial) fun _ hc => hc.inv
  cases f with
  | sendInLoop message => exact hgood (sendInLoop_spec message w h)
  | shutdownInLoop => exact Ends.ok (shutdownInLoop_good h).inv
  | forceCloseInLoop => exact (forceCloseInLoop_inv cb h).mono (fun _ _ => trivial) fun _ hc => hc
  | startReadInLoop => exact hgood (startReadInLoop_spec h)
  | stopReadInLoop => exact hgood (stopReadInLoop_spec h)
  | connectDestroyed => exact connectDestroyed_inv cb h
  | writeCompleteCallback => exact hgood (runCallback_spec cb h)
  | highWaterMarkCallback len => exact hgood (runCallback_spec cb h)

/-! ### Every interleaving -/

/-- Whatever happens to a connection keeps its invariant. -/
theorem act_inv (a : Act) (h : Inv c) :
    Ends (c.act a) (fun _ => True) Inv := by
  cases a with
  | call inLoop k => exact (call_spec inLoop k h).mono (fun _ _ => trivial) fun _ hc => hc.inv
  | connectEstablished cb =>
      exact (connectEstablished_inv cb h).mono (fun _ _ => trivial) fun _ hc => hc
  | handleRead r taken cb =>
      exact (handleRead_inv r taken cb h).mono (fun _ _ => trivial) fun _ hc => hc
  | handleWrite w => exact (handleWrite_spec w h).mono (fun _ _ => trivial) fun _ hc => hc.inv
  | handleClose cb => exact (handleClose_inv cb h).mono (fun _ _ => trivial) fun _ hc => hc
  | runFunctor f w cb => exact runFunctor_inv f w cb h
  | delayedForceClose => exact Ends.ok (delayedForceClose_good h).inv

theorem inv_ctor (writeComplete highWater : Bool) (mark : Nat) :
    Inv (ctor writeComplete highWater mark) where
  input := Buffer.inv_default
  output := Buffer.inv_default
  entry := Channel.entry_ctor
  stream := by
    show Stream [] Buffer.default.readable
    rw [Buffer.readable_default]
    exact Stream.nil
  interest _ := by
    show Channel.ctor.isWriting = true ↔ Buffer.default.readable ≠ []
    rw [Buffer.readable_default, Channel.isWriting_of_none rfl]
    simp
  shutdowns state unsent hmem := by simp [ctor] at hmem

/-- The connection under every interleaving of what can happen to it. Any
`Act` can come at any moment. -/
def interleaving : Machine TcpConnection Act Fault where
  enabled _ _ := True
  step := act

instance (c : TcpConnection) (a : Act) : Decidable (interleaving.enabled c a) := isTrue trivial

/-- The output stream of an established connection. In every run:

- as long as no direct write of `sendInLoop` failed with `EPIPE` or
  `ECONNRESET`, the bytes the kernel accepted followed by the bytes in the
  output buffer are the messages sent;
- if one failed and the kernel accepts no byte after the first failure,
  the accepted bytes are a prefix of the messages sent;
- in `kConnected` and `kDisconnecting` the channel waits for writability
  exactly while the output buffer has bytes, and the write side is shut
  down only with an empty output buffer.

A run ends where a function faults. Besides the `assert`s this is a
`std::length_error`, from an output buffer beyond `max_size()`. -/
theorem outputStream_integrity (writeComplete highWater : Bool) (mark : Nat) (up : List Call)
    (c₀ c : TcpConnection) (acts : List Act)
    (hestablished : (ctor writeComplete highWater mark).connectEstablished up = .ok c₀)
    (hrun : interleaving.Run c₀ acts c) :
    (.directFault ∉ c.log → accepted c.log ++ c.outputBuffer_.readable = sent c.log) ∧
    (∀ before after, c.log = before ++ .directFault :: after → .directFault ∉ before →
      accepted after = [] → accepted c.log <+: sent c.log) ∧
    (c.state_ = .kConnected ∨ c.state_ = .kDisconnecting →
      (c.channel_.isWriting = true ↔ c.outputBuffer_.readable ≠ [])) ∧
    (∀ state unsent, .shutdownWrite state unsent ∈ c.log →
      state = .kConnected ∨ state = .kDisconnecting → unsent = []) := by
  have h₀ : Inv c₀ := (connectEstablished_inv up (inv_ctor _ _ _)).post hestablished
  have h : Inv c := by
    refine hrun.invariant h₀ ?_
    intro c₁ a c₂ h₁ _ hstep
    exact (act_inv a h₁).post hstep
  refine ⟨h.stream.conserved, ?_, ?_, ?_⟩
  · intro before after hlog hbefore hafter
    exact h.stream.accepted_isPrefix hlog hbefore hafter
  · intro hst
    refine h.interest ?_
    rcases hst with hst | hst <;> rw [hst] <;> decide
  · intro state unsent hmem hst
    refine h.shutdowns state unsent hmem ?_
    rcases hst with hst | hst <;> rw [hst] <;> decide

/-- Three bytes are sent, and the kernel takes one of them at first and one
more later. The third is in the output buffer. -/
theorem outputStream_integrity_shortWrites :
    ∃ c₀ c, (ctor true true 2).connectEstablished [] = .ok c₀ ∧
      interleaving.Run c₀ [.call true (.send ⟨[1, 2, 3], by decide⟩ (.accept 1)),
        .handleWrite (.accept 1)] c ∧
      accepted c.log = [1, 2] ∧ accepted c.log ++ c.outputBuffer_.readable = [1, 2, 3] := by
  have heval : (((ctor true true 2).connectEstablished []).toOption.bind fun c₀ =>
      (interleaving.exec c₀ [.call true (.send ⟨[1, 2, 3], by decide⟩ (.accept 1)),
        .handleWrite (.accept 1)]).map fun c =>
          (decide (.directFault ∈ c.log), accepted c.log, sent c.log))
      = some (false, [1, 2], [1, 2, 3]) := by decide +kernel
  obtain ⟨c₀, c, hup, hrun, hval⟩ := Machine.exists_run_of_eval heval
  simp only [Prod.mk.injEq, decide_eq_false_iff_not] at hval
  obtain ⟨hno, hacc, hsent⟩ := hval
  have hall := (outputStream_integrity true true 2 [] c₀ c _ hup hrun).1 hno
  exact ⟨c₀, c, hup, hrun, hacc, hall.trans hsent⟩

end Muduo.Net.TcpConnection
