import Muduo.Net.SendShutdown
import Muduo.Proofs.TcpConnection

/-!
# `Muduo.Proofs.SendShutdown`: what `shutdown` after `send` can lose

`shutdown` sets `state_` at once and queues only the rest of its work.
`handleWrite` reads `state_` when the output buffer drains. So a write
event can shut the write side down while a `sendInLoop` functor that was
queued before `shutdown` still waits: `send_lost_by_drain` is such a run.

This is the only way to lose a message. `shutdownWrite_after_sends` says
that in a run without such a write event, every message posted before
`shutdown` is executed, and all its bytes are with the kernel, by the time
of `shutdownWrite`. The queue is a FIFO, so when the `shutdownInLoop`
functor runs, no `sendInLoop` functor is behind it (`Ordered.last`).
-/

set_option autoImplicit false

namespace Muduo.Net.SendShutdown

open Muduo.Base
open Muduo.Lib
open TcpConnection

/-- The write side was shut down. -/
def HasShutdown (log : List Effect) : Prop :=
  ∃ state unsent, Effect.shutdownWrite state unsent ∈ log

/-- A functor that runs a callback of the user. -/
def isCallback : Functor → Bool
  | .writeCompleteCallback => true
  | .highWaterMarkCallback _ => true
  | _ => false

/-- What sending and writing leave alone: the state, and the functors and
messages in the queue. -/
structure Frame (c c' : TcpConnection) : Prop where
  state : c'.state_ = c.state_
  log : ∃ es, c'.log = c.log ++ es ∧ .directFault ∉ es
  queue : ∃ fs, c'.pendingFunctors_ = c.pendingFunctors_ ++ fs ∧ ∀ f ∈ fs, isCallback f = true

namespace Frame

variable {c c' c'' : TcpConnection}

theorem of_eq (hs : c'.state_ = c.state_) (hl : c'.log = c.log)
    (hq : c'.pendingFunctors_ = c.pendingFunctors_) : Frame c c' where
  state := hs
  log := ⟨[], by simp [hl], by simp⟩
  queue := ⟨[], by simp [hq], by simp⟩

theorem refl (c : TcpConnection) : Frame c c := of_eq rfl rfl rfl

theorem trans (h : Frame c c') (h' : Frame c' c'') : Frame c c'' := by
  obtain ⟨es, hes, hno⟩ := h.log
  obtain ⟨es', hes', hno'⟩ := h'.log
  obtain ⟨fs, hfs, hcb⟩ := h.queue
  obtain ⟨fs', hfs', hcb'⟩ := h'.queue
  refine ⟨h'.state.trans h.state, ⟨es ++ es', ?_, ?_⟩, ⟨fs ++ fs', ?_, ?_⟩⟩
  · rw [hes', hes, List.append_assoc]
  · simp [hno, hno']
  · rw [hfs', hfs, List.append_assoc]
  · intro f hf
    rcases List.mem_append.mp hf with hf | hf
    · exact hcb f hf
    · exact hcb' f hf

theorem emit (c : TcpConnection) {e : Effect} (he : e ≠ .directFault) : Frame c (c.emit e) :=
  ⟨rfl, ⟨[e], rfl, by simpa using he.symm⟩, ⟨[], by simp [TcpConnection.emit], by simp⟩⟩

theorem queueInLoop (c : TcpConnection) {f : Functor} (hf : isCallback f = true) :
    Frame c (c.queueInLoop f) :=
  ⟨rfl, ⟨[], by simp [TcpConnection.queueInLoop], by simp⟩, ⟨[f], rfl, by simpa using hf⟩⟩

/-- What was logged stays logged. -/
theorem mem_log (h : Frame c c') {e : Effect} (he : e ∈ c.log) : e ∈ c'.log := by
  obtain ⟨es, hes, -⟩ := h.log
  rw [hes]
  exact List.mem_append_left _ he

theorem notMem_directFault (h : Frame c c') (hno : .directFault ∉ c.log) :
    .directFault ∉ c'.log := by
  obtain ⟨es, hes, hno'⟩ := h.log
  rw [hes]
  simp [hno, hno']

end Frame

/-- A step of sending: a frame that does not shut the write side down. -/
def Sends (c c' : TcpConnection) : Prop :=
  Frame c c' ∧ (HasShutdown c'.log → HasShutdown c.log)

namespace Sends

variable {c c' c'' : TcpConnection}

theorem of_eq (hs : c'.state_ = c.state_) (hl : c'.log = c.log)
    (hq : c'.pendingFunctors_ = c.pendingFunctors_) : Sends c c' :=
  ⟨Frame.of_eq hs hl hq, fun h => hl ▸ h⟩

theorem refl (c : TcpConnection) : Sends c c := of_eq rfl rfl rfl

theorem trans (h : Sends c c') (h' : Sends c' c'') : Sends c c'' :=
  ⟨h.1.trans h'.1, fun hs => h.2 (h'.2 hs)⟩

theorem emit (c : TcpConnection) {e : Effect} (he : e ≠ .directFault)
    (hne : ∀ state unsent, e ≠ .shutdownWrite state unsent) : Sends c (c.emit e) := by
  refine ⟨Frame.emit c he, ?_⟩
  rintro ⟨state, unsent, hmem⟩
  rcases List.mem_append.mp hmem with hm | hm
  · exact ⟨state, unsent, hm⟩
  · exact absurd (List.mem_singleton.mp hm).symm (hne state unsent)

theorem queueInLoop (c : TcpConnection) {f : Functor} (hf : isCallback f = true) :
    Sends c (c.queueInLoop f) := ⟨Frame.queueInLoop c hf, fun h => h⟩

end Sends

/-! ### The functions of the connection -/

/-- A change of the channel sends nothing. -/
theorem onChannel_sends {c : TcpConnection} (f : Channel → Except Channel.Fault Channel) :
    Ends (c.onChannel f) (fun _ => True) (Sends c) := by
  rw [onChannel]
  cases (f c.channel_).mapError Fault.channel with
  | ok ch => exact Ends.ok (Sends.of_eq rfl rfl rfl)
  | error e => exact Ends.error trivial

theorem onOutput_sends {c : TcpConnection} (f : Buffer → Except Buffer.Fault Buffer) :
    Ends (c.onOutput f) (fun _ => True) (Sends c) := by
  rw [onOutput]
  cases (f c.outputBuffer_).mapError Fault.buffer with
  | ok b => exact Ends.ok (Sends.of_eq rfl rfl rfl)
  | error e => exact Ends.error trivial

theorem checkHighWaterMark_sends (c : TcpConnection) (remaining : Nat) :
    Sends c (c.checkHighWaterMark remaining) := by
  simp only [checkHighWaterMark]
  split
  · exact Sends.queueInLoop c rfl
  · exact Sends.refl c

/-- A direct write without a fault. -/
theorem writeDirectly_sends {c : TcpConnection} {data : List UInt8} {w : WriteOutcome}
    (hw : isQuiet w = true) : Sends c (writeDirectly c data w).conn := by
  rw [writeDirectly]
  split
  · cases w with
    | accept n =>
        have hemit := Sends.emit c (e := .wrote (data.take (min n data.length))) (by simp) (by simp)
        simp only [sockets.write]
        split
        · exact hemit.trans (Sends.queueInLoop _ rfl)
        · exact hemit
    | fail e =>
        -- Without a socket error the only failure is that the write would block.
        have he : e = .EWOULDBLOCK := by simpa [isQuiet] using hw
        simp only [sockets.write, he]
        exact Sends.refl c
  · exact Sends.refl c

/-- Buffering the rest of a message. -/
theorem bufferRest_sends (d : DirectWrite) (data : List UInt8) :
    Ends (bufferRest d data) (fun _ => True) (Sends d.conn) := by
  rw [bufferRest]
  split
  · have hmark := checkHighWaterMark_sends d.conn d.remaining
    refine Ends.bind (onOutput_sends _) ?_
    intro c hc
    split
    · exact (onChannel_sends _).imp fun c' hc' => (hmark.trans hc).trans hc'
    · exact Ends.ok (hmark.trans hc)
  · exact Ends.ok (Sends.refl _)

/-- Sending without a socket error. The message is on record. -/
theorem sendInLoop_sends {c : TcpConnection} (message : StdString) {w : WriteOutcome}
    (hw : isQuiet w = true) (hup : c.state_ ≠ .kDisconnected) :
    Ends (c.sendInLoop message w) (fun _ => True)
      (fun c' => Sends c c' ∧ .sent message ∈ c'.log) := by
  have hemit := Sends.emit c (e := .sent message) (by simp) (by simp)
  have hdirect : Sends (c.emit (.sent message))
      (writeDirectly (c.emit (.sent message)) message.bytes w).conn := writeDirectly_sends hw
  rw [sendInLoop, if_neg hup]
  refine Ends.bind (Q := fun _ => True) ?_ ?_
  · rw [assertThat]
    split
    · exact Ends.ok trivial
    · exact Ends.error trivial
  · intro _ _
    refine (bufferRest_sends _ message.bytes).imp ?_
    intro c' hc'
    have hmem : .sent message ∈ (c.emit (.sent message)).log := by simp [TcpConnection.emit]
    exact ⟨hemit.trans (hdirect.trans hc'), (hdirect.trans hc').1.mem_log hmem⟩

/-- `send` in the loop neither shuts down nor queues a message. -/
theorem send_sends {c : TcpConnection} (message : StdString) {w : WriteOutcome}
    (hw : isQuiet w = true) : Ends (c.send true message w) (fun _ => True) (Sends c) := by
  rw [send]
  split
  · rename_i hst
    exact (sendInLoop_sends message hw (by rw [hst]; decide)).imp fun _ hc => hc.1
  · exact Ends.ok (Sends.refl c)

/-- A call of a callback that only sends. -/
theorem call_of_onlySends {cb : List Call} (h : onlySends cb = true) {k : Call} (hk : k ∈ cb) :
    ∃ message w, k = .send message w ∧ isQuiet w = true := by
  have hall := List.all_eq_true.mp h k hk
  cases k with
  | send message w => exact ⟨message, w, rfl, hall⟩
  | shutdown => cases hall
  | forceClose => cases hall
  | forceCloseWithDelay => cases hall
  | startRead => cases hall
  | stopRead => cases hall

/-- Nor does a callback that only sends. -/
theorem runCallback_sends {c : TcpConnection} {cb : List Call} (h : onlySends cb = true) :
    Ends (c.runCallback cb) (fun _ => True) (Sends c) := by
  refine Ends.foldlM ?_ (Sends.refl c)
  intro c' k hk hc'
  obtain ⟨message, w, rfl, hw⟩ := call_of_onlySends h hk
  exact (send_sends message hw).imp fun _ hc => hc'.trans hc

/-- A send that does not find `kConnected` does nothing. -/
theorem runCallback_of_not_connected {c : TcpConnection} {cb : List Call}
    (h : onlySends cb = true) (hst : c.state_ ≠ .kConnected) :
    Ends (c.runCallback cb) (fun _ => True) (· = c) := by
  refine Ends.foldlM ?_ rfl
  rintro c' k hk rfl
  obtain ⟨message, w, rfl, -⟩ := call_of_onlySends h hk
  refine Ends.of_eq_ok (a := c') ?_ rfl
  simp only [call, send, if_neg hst, except_pure]

/-- `shutdownInLoop` shuts down only if nothing is waiting to be written. -/
theorem shutdownInLoop_frame (c : TcpConnection) :
    Frame c c.shutdownInLoop ∧
      (HasShutdown c.shutdownInLoop.log → HasShutdown c.log ∨ c.channel_.isWriting = false) ∧
      c.shutdownInLoop.channel_ = c.channel_ := by
  rw [shutdownInLoop]
  split
  · rename_i hidle
    exact ⟨Frame.emit c (by simp), fun _ => Or.inr (by simpa using hidle), rfl⟩
  · exact ⟨Frame.refl c, fun h => Or.inl h, rfl⟩

/-- The shutdown that was waiting is done when the output is empty. -/
theorem outputDrained_frame (c : TcpConnection) :
    Ends c.outputDrained (fun _ => True) fun c' =>
      Frame c c' ∧ (HasShutdown c'.log → HasShutdown c.log ∨
        (c.state_ = .kDisconnecting ∧ c'.channel_.isWriting = false)) := by
  rw [outputDrained]
  refine Ends.bind (onChannel_sends _) ?_
  intro c₁ hc₁
  have hqueued : Sends c (if c₁.writeCompleteCallback_ = true then
      c₁.queueInLoop .writeCompleteCallback else c₁) := by
    split
    · exact hc₁.trans (Sends.queueInLoop _ rfl)
    · exact hc₁
  -- Whether the callback is queued does not matter below.
  generalize (if c₁.writeCompleteCallback_ = true then
    c₁.queueInLoop .writeCompleteCallback else c₁) = c₂ at hqueued
  show Ends (if c₂.state_ = .kDisconnecting then pure c₂.shutdownInLoop else pure c₂) _ _
  split
  · rename_i hst
    obtain ⟨hframe, hshut, hch⟩ := shutdownInLoop_frame c₂
    refine Ends.ok ⟨hqueued.1.trans hframe, ?_⟩
    intro hs
    rcases hshut hs with hold | hidle
    · exact Or.inl (hqueued.2 hold)
    · exact Or.inr ⟨hqueued.1.state ▸ hst, hch ▸ hidle⟩
  · exact Ends.ok ⟨hqueued.1, fun hs => Or.inl (hqueued.2 hs)⟩

/-- A write event shuts the write side down only when it drains the output
buffer in `kDisconnecting`. -/
theorem handleWrite_frame {c : TcpConnection} {w : WriteOutcome} (h : Inv c) :
    Ends (c.handleWrite w) (fun _ => True) fun c' =>
      Frame c c' ∧ (HasShutdown c'.log → HasShutdown c.log ∨
        (c.state_ = .kDisconnecting ∧ drains w c = true ∧ c'.channel_.isWriting = false)) := by
  have hwrote : ∀ {m c₁}, Wrote c m c₁ → Sends c c₁ := by
    intro m c₁ hw
    obtain ⟨b, rfl⟩ := hw.conn
    exact (Sends.emit c (by simp) (by simp)).trans (Sends.of_eq rfl rfl rfl)
  rcases handleWrite_cases w h with hsame | ⟨m, c₁, hw, -, hok⟩ | ⟨n, m, c₁, hwn, hmn, hw, hnil, hok⟩
  · exact Ends.of_eq_ok hsame ⟨Frame.refl c, Or.inl⟩
  · exact Ends.of_eq_ok hok ⟨(hwrote hw).1, fun hs => Or.inl ((hwrote hw).2 hs)⟩
  · -- Everything that was held is gone, so `w` accepted at least that much.
    have hdrains : drains w c = true := by
      have hlen := List.drop_eq_nil_iff.mp (hw.readable.symm.trans hnil)
      simp only [hwn, drains, hw.writing, Bool.true_and, decide_eq_true_eq]
      omega
    rw [hok]
    refine (outputDrained_frame c₁).imp ?_
    rintro c' ⟨hframe, hshut⟩
    refine ⟨(hwrote hw).1.trans hframe, fun hs => ?_⟩
    rcases hshut hs with hold | ⟨hst, hidle⟩
    · exact Or.inl ((hwrote hw).2 hold)
    · exact Or.inr ⟨(hwrote hw).1.state ▸ hst, hdrains, hidle⟩

/-! ### The queue -/

theorem messages_append (fs gs : List Functor) : messages (fs ++ gs) = messages fs ++ messages gs :=
  List.filterMap_append

/-- Queued callbacks carry no message. -/
theorem messages_of_callbacks {fs : List Functor} (h : ∀ f ∈ fs, isCallback f = true) :
    messages fs = [] := by
  refine List.filterMap_eq_nil_iff.mpr ?_
  intro f hf
  have := h f hf
  cases f <;> first | rfl | cases this

/-- Where the other thread has not yet set `state_`. -/
def isOpen : Thread → Bool
  | .idle | .sending _ | .shutting => true
  | .shut | .done => false

/-- The functors this system queues. -/
def isExpected : Functor → Bool
  | .sendInLoop _ => true
  | .shutdownInLoop => true
  | f => isCallback f

/-- The queue and what the other thread has done so far. -/
structure Ordered (thread : Thread) (queue : List Functor) : Prop where
  expected : ∀ f ∈ queue, isExpected f = true
  /-- Behind `shutdownInLoop` there is no `sendInLoop`. -/
  last : ∀ q₁ q₂, queue = q₁ ++ .shutdownInLoop :: q₂ → thread = .done ∧ messages q₂ = []

namespace Ordered

variable {thread : Thread} {queue : List Functor}

/-- Callback functors at the end change nothing. -/
theorem callbacks (h : Ordered thread queue) {fs : List Functor}
    (hfs : ∀ f ∈ fs, isCallback f = true) : Ordered thread (queue ++ fs) where
  expected f hf := by
    rcases List.mem_append.mp hf with hf | hf
    · exact h.expected f hf
    · have := hfs f hf
      cases f <;> first | rfl | cases this
  last q₁ q₂ hq := by
    rcases List.append_eq_append_iff.mp hq with ⟨r, hr, hfsr⟩ | ⟨r, hr, hrest⟩
    · -- The split would be inside `fs`, which has no `shutdownInLoop`.
      have hmem : .shutdownInLoop ∈ fs := by
        rw [hfsr]
        simp
      cases hfs _ hmem
    · cases r with
      | nil =>
          have hmem : .shutdownInLoop ∈ fs := by
            rw [← show _ = fs from hrest]
            simp
          cases hfs _ hmem
      | cons f r =>
          simp only [List.cons_append, List.cons.injEq] at hrest
          obtain ⟨rfl, rfl⟩ := hrest
          obtain ⟨hdone, hnil⟩ := h.last q₁ r hr
          refine ⟨hdone, ?_⟩
          rw [messages_append, hnil, messages_of_callbacks hfs, List.append_nil]

/-- Before `shutdown` has returned, a functor can be added. -/
theorem push (h : Ordered thread queue) (hthread : thread ≠ .done) {thread' : Thread} {f : Functor}
    (hf : isExpected f = true) (hlast : f = .shutdownInLoop → thread' = .done) :
    Ordered thread' (queue ++ [f]) where
  expected g hg := by
    rcases List.mem_append.mp hg with hg | hg
    · exact h.expected g hg
    · rw [List.mem_singleton.mp hg]
      exact hf
  last q₁ q₂ hq := by
    rcases List.append_eq_append_iff.mp hq with ⟨r, hr, hrest⟩ | ⟨r, hr, hrest⟩
    · cases r with
      | nil =>
          simp only [List.nil_append, List.cons.injEq] at hrest
          exact ⟨hlast hrest.1, by rw [← hrest.2]; rfl⟩
      -- A singleton has no room for a second functor.
      | cons g r => simp at hrest
    · cases r with
      | nil =>
          simp only [List.nil_append, List.cons.injEq] at hrest
          exact ⟨hlast hrest.1.symm, by rw [hrest.2]; rfl⟩
      | cons g r =>
          simp only [List.cons_append, List.cons.injEq] at hrest
          obtain ⟨rfl, -⟩ := hrest
          -- The old queue has no `shutdownInLoop` before `shutdown` returns.
          exact absurd (h.last q₁ r hr).1 hthread

/-- The head of the queue is taken. -/
theorem tail {f : Functor} (h : Ordered thread (f :: queue)) : Ordered thread queue where
  expected g hg := h.expected g (List.mem_cons_of_mem _ hg)
  last q₁ q₂ hq := h.last (f :: q₁) q₂ (by rw [hq]; rfl)

/-- Without `shutdownInLoop` in the queue the thread can be anywhere else. -/
theorem move (h : Ordered thread queue) (hthread : thread ≠ .done) (thread' : Thread) :
    Ordered thread' queue where
  expected := h.expected
  last q₁ q₂ hq := absurd (h.last q₁ q₂ hq).1 hthread

end Ordered

/-! ### The invariant of the system -/

/-- What holds after every run without an early drain. -/
structure Safe (s : System) : Prop where
  inv : Inv s.conn
  noFault : .directFault ∉ s.conn.log
  state : s.conn.state_ = if isOpen s.thread = true then .kConnected else .kDisconnecting
  /-- The FIFO: what was posted was executed or waits, in order. -/
  posted : s.posted = s.executed ++ messages s.queue
  executed : ∀ message ∈ s.executed, .sent message ∈ s.conn.log
  ordered : Ordered s.thread s.queue
  shut : HasShutdown s.conn.log →
    s.conn.state_ = .kDisconnecting ∧ messages s.queue = [] ∧ s.conn.channel_.isWriting = false

namespace Safe

variable {s : System}

theorem state_ne (h : Safe s) : s.conn.state_ ≠ .kDisconnected := by
  rw [h.state]
  split <;> decide

/-- Up to `setState(kDisconnecting)` the connection is up. -/
theorem connected (h : Safe s) (hopen : isOpen s.thread = true) : s.conn.state_ = .kConnected := by
  rw [h.state, if_pos hopen]

/-- The write side is open as long as `state_` is `kConnected`. -/
theorem not_shut (h : Safe s) (hst : s.conn.state_ = .kConnected) : ¬ HasShutdown s.conn.log := by
  intro hs
  rw [(h.shut hs).1] at hst
  cases hst

/-- A step of the loop thread on the connection that leaves the messages
alone, in a system whose functors still to run are `fs`. -/
theorem withConn (h : Safe s) {c' : TcpConnection} (hinv : Inv c') (hframe : Frame s.conn c')
    (hshut : HasShutdown c'.log → c'.state_ = .kDisconnecting ∧ messages s.queue = [] ∧
      c'.channel_.isWriting = false) : Safe { s with conn := c' } := by
  obtain ⟨fs, hfs, hcb⟩ := hframe.queue
  have hqueue : System.queue { s with conn := c' } = s.queue ++ fs := by
    simp [System.queue, hfs]
  have hmsgs : messages (System.queue { s with conn := c' }) = messages s.queue := by
    rw [hqueue, messages_append, messages_of_callbacks hcb, List.append_nil]
  exact
    { inv := hinv
      noFault := hframe.notMem_directFault h.noFault
      state := hframe.state.trans h.state
      posted := by rw [hmsgs]; exact h.posted
      executed := fun message hm => hframe.mem_log (h.executed message hm)
      ordered := by rw [hqueue]; exact h.ordered.callbacks hcb
      shut := fun hs => by rw [hmsgs]; exact hshut hs }

/-- User code of the loop thread that only sends. -/
theorem sends (h : Safe s) {c' : TcpConnection} (hinv : Inv c') (hsends : Sends s.conn c')
    (hidle : s.conn.state_ ≠ .kConnected → c' = s.conn) : Safe { s with conn := c' } := by
  refine h.withConn hinv hsends.1 ?_
  intro hs
  have hold := hsends.2 hs
  -- After a shutdown `state_` is `kDisconnecting`, where a send does nothing.
  rw [hidle fun hst => h.not_shut hst hold]
  exact h.shut hold

/-- The head of the functors leaves the queue without having posted
anything. -/
theorem pop (h : Safe s) {f : Functor} {fs : List Functor} (hfs : s.functors = some (f :: fs))
    (hf : message? f = none) : Safe { s with functors := some fs } := by
  have hqueue : s.queue = f :: System.queue { s with functors := some fs } := by
    simp [System.queue, hfs]
  have hmsgs : messages s.queue = messages (System.queue { s with functors := some fs }) := by
    rw [hqueue]
    simp [messages, hf]
  exact
    { inv := h.inv
      noFault := h.noFault
      state := h.state
      posted := by rw [← hmsgs]; exact h.posted
      executed := h.executed
      ordered := Ordered.tail (f := f) (hqueue ▸ h.ordered)
      shut := fun hs => by rw [← hmsgs]; exact h.shut hs }

/-- The other thread goes on and has pushed nothing. -/
theorem move (h : Safe s) {thread' : Thread} (hst : s.conn.state_ = .kConnected)
    (hthread : s.thread ≠ .done) (hopen : isOpen thread' = true) :
    Safe { s with thread := thread' } where
  inv := h.inv
  noFault := h.noFault
  state := by
    show s.conn.state_ = if isOpen thread' = true then _ else _
    rw [if_pos hopen, hst]
  posted := h.posted
  executed := h.executed
  ordered := h.ordered.move hthread thread'
  shut := h.shut

/-- The loop thread moves functors between its two queues, and their
sequence stays the same. -/
theorem requeue (h : Safe s) {pending : List Functor} {functors' : Option (List Functor)}
    (hqueue : functors'.getD [] ++ pending = s.queue) :
    Safe { s with
      conn := { s.conn with pendingFunctors_ := pending }, functors := functors' } := by
  have hinv := h.inv
  have hqueue' : System.queue { s with
      conn := { s.conn with pendingFunctors_ := pending }, functors := functors' } = s.queue := hqueue
  exact
    { inv := ⟨hinv.input, hinv.output, hinv.entry, hinv.stream, hinv.interest, hinv.shutdowns⟩
      noFault := h.noFault
      state := h.state
      posted := by rw [hqueue']; exact h.posted
      executed := h.executed
      ordered := by rw [hqueue']; exact h.ordered
      shut := fun hs => by rw [hqueue']; exact h.shut hs }

end Safe

/-! ### The steps -/

/-- The message goes to the end of the queue, and the state was checked before. -/
theorem safe_sendPush {s s' : System} (h : Safe s) (hen : enabled s .sendPush = true)
    (hstep : step s .sendPush = .ok s') : Safe s' := by
  rcases s with ⟨c, functors, thread, posted, executed⟩
  cases thread with
  | sending message =>
      cases hstep
      have hst : c.state_ = .kConnected := h.state
      have hqueue : System.queue ⟨c.queueInLoop (.sendInLoop message), functors, .idle,
          posted ++ [message], executed⟩
          = System.queue ⟨c, functors, .sending message, posted, executed⟩
            ++ [.sendInLoop message] := by
        simp [System.queue, TcpConnection.queueInLoop]
      exact
        { inv := (queueInLoop_good h.inv (by simp)).inv
          noFault := h.noFault
          state := hst
          posted := by
            rw [hqueue, messages_append, ← List.append_assoc, ← h.posted]
            rfl
          executed := h.executed
          ordered := hqueue ▸ h.ordered.push (by simp) rfl (by simp)
          shut := fun hs => absurd hs (h.not_shut hst) }
  | idle => cases hen
  | shutting => cases hen
  | shut => cases hen
  | done => cases hen

theorem safe_shutdownSet {s s' : System} (h : Safe s) (hen : enabled s .shutdownSet = true)
    (hstep : step s .shutdownSet = .ok s') : Safe s' := by
  have hthread : s.thread = .shutting := by simpa [enabled] using hen
  have hst := h.connected (by rw [hthread]; rfl)
  cases hstep
  exact
    { inv := (setDisconnecting_good h.inv (isUp_iff.mpr (Or.inl hst))).inv
      noFault := h.noFault
      state := rfl
      posted := h.posted
      executed := h.executed
      ordered := h.ordered.move (by rw [hthread]; simp) _
      shut := fun hs => absurd hs (h.not_shut hst) }

/-- The shutdown goes behind the messages of its thread. -/
theorem safe_shutdownPush {s s' : System} (h : Safe s) (hen : enabled s .shutdownPush = true)
    (hstep : step s .shutdownPush = .ok s') : Safe s' := by
  have hthread : s.thread = .shut := by simpa [enabled] using hen
  cases hstep
  have hqueue : System.queue { s with conn := s.conn.queueInLoop .shutdownInLoop, thread := .done }
      = s.queue ++ [.shutdownInLoop] := by
    simp [System.queue, TcpConnection.queueInLoop]
  have hmsgs : messages (System.queue
      { s with conn := s.conn.queueInLoop .shutdownInLoop, thread := .done })
      = messages s.queue := by
    rw [hqueue, messages_append]
    exact List.append_nil _
  exact
    { inv := (queueInLoop_good h.inv (by simp)).inv
      noFault := h.noFault
      state := by
        have := h.state
        rw [hthread] at this
        exact this
      posted := by rw [hmsgs]; exact h.posted
      executed := h.executed
      ordered := hqueue ▸ h.ordered.push (by rw [hthread]; simp) rfl (fun _ => rfl)
      shut := fun hs => by rw [hmsgs]; exact h.shut hs }

/-- Writing can finish the output, and then the shutdown is done. The condition says that no message
is still in the queue. -/
theorem safe_handleWrite {s s' : System} {w : WriteOutcome} (h : Safe s)
    (hcond : NoEarlyDrain s (.handleWrite w)) (hstep : step s (.handleWrite w) = .ok s') :
    Safe s' := by
  obtain ⟨c', hc', hret⟩ := except_bind_eq_ok.mp hstep
  cases hret
  obtain ⟨hframe, hshut⟩ := (handleWrite_frame h.inv).post hc'
  have hinv := ((handleWrite_spec w h.inv).post hc').inv
  refine h.withConn hinv hframe ?_
  intro hs
  rcases hshut hs with hold | ⟨hst, hdrains, hidle⟩
  · -- Already shut down, and the write interest is gone: the event does nothing.
    obtain ⟨hst, hmsgs, hidle⟩ := h.shut hold
    have hsame : s.conn.handleWrite w = .ok s.conn := by simp [handleWrite, hidle]
    rw [hsame] at hc'
    cases hc'
    exact ⟨hst, hmsgs, hidle⟩
  · -- This event shuts down: here, and only here, the condition is used.
    exact ⟨hframe.state.trans hst, hcond hst hdrains, hidle⟩

theorem safe_loopSend {s s' : System} {message : StdString} {w : WriteOutcome} (h : Safe s)
    (hw : isQuiet w = true) (hstep : step s (.loopSend message w) = .ok s') : Safe s' := by
  obtain ⟨c', hc', hret⟩ := except_bind_eq_ok.mp hstep
  cases hret
  have hinv := ((call_spec true (.send message w) h.inv).post hc').inv
  refine h.sends hinv ((send_sends message hw).post hc') ?_
  intro hst
  rw [send, if_neg hst] at hc'
  cases hc'
  rfl

/-- A `sendInLoop` functor runs: its message moves from the queue to the
executed ones. -/
theorem safe_sendInLoop {s : System} {message : StdString} {fs : List Functor} {w : WriteOutcome}
    {c' : TcpConnection} (h : Safe s) (hfs : s.functors = some (.sendInLoop message :: fs))
    (hw : isQuiet w = true) (hc' : s.conn.sendInLoop message w = .ok c') :
    Safe { s with conn := c', functors := some fs, executed := s.executed ++ [message] } := by
  have hqueue : s.queue = .sendInLoop message :: (fs ++ s.conn.pendingFunctors_) := by
    simp [System.queue, hfs]
  -- After a shutdown no message waits, and this one does.
  have hnot : ¬ HasShutdown s.conn.log := by
    intro hs
    have hmsgs := (h.shut hs).2.1
    rw [hqueue] at hmsgs
    cases hmsgs
  obtain ⟨hsends, hsent⟩ := (sendInLoop_sends message hw h.state_ne).post hc'
  obtain ⟨gs, hgs, hcb⟩ := hsends.1.queue
  have hqueue' : System.queue
      { s with conn := c', functors := some fs, executed := s.executed ++ [message] }
      = (fs ++ s.conn.pendingFunctors_) ++ gs := by
    simp [System.queue, hgs]
  exact
    { inv := ((sendInLoop_spec message w h.inv).post hc').inv
      noFault := hsends.1.notMem_directFault h.noFault
      state := hsends.1.state.trans h.state
      posted := by
        show s.posted = _
        rw [hqueue', messages_append, messages_of_callbacks hcb, List.append_nil, h.posted, hqueue,
          List.append_assoc]
        rfl
      executed := by
        intro m hm
        rcases List.mem_append.mp hm with hm | hm
        · exact hsends.1.mem_log (h.executed m hm)
        · rw [List.mem_singleton.mp hm]
          exact hsent
      ordered := hqueue' ▸ (Ordered.tail (hqueue ▸ h.ordered)).callbacks hcb
      shut := fun hs => absurd (hsends.2 hs) hnot }

/-- The `shutdownInLoop` functor runs: it is the last of the thread's
functors. -/
theorem safe_shutdownInLoop {s : System} {fs : List Functor} (h : Safe s)
    (hfs : s.functors = some (.shutdownInLoop :: fs)) :
    Safe { s with conn := s.conn.shutdownInLoop, functors := some fs } := by
  have hqueue : s.queue = [] ++ .shutdownInLoop :: (fs ++ s.conn.pendingFunctors_) := by
    simp [System.queue, hfs]
  -- By the FIFO nothing of the other thread is behind this functor.
  obtain ⟨hdone, hmsgs⟩ := h.ordered.last _ _ hqueue
  obtain ⟨hframe, hshut, hch⟩ := shutdownInLoop_frame s.conn
  refine (h.pop hfs rfl).withConn (shutdownInLoop_good h.inv).inv hframe ?_
  intro hs
  refine ⟨?_, hmsgs, ?_⟩
  · rw [hframe.state, h.state, hdone]
    rfl
  · rw [hch]
    rcases hshut hs with hold | hidle
    · exact (h.shut hold).2.2
    · exact hidle

theorem safe_runCallback {s : System} {f : Functor} {fs : List Functor} {cb : List Call}
    {c' : TcpConnection} (h : Safe s) (hfs : s.functors = some (f :: fs)) (hf : message? f = none)
    (hcb : onlySends cb = true) (hc' : s.conn.runCallback cb = .ok c') :
    Safe { s with conn := c', functors := some fs } := by
  refine (h.pop hfs hf).sends ((runCallback_spec cb h.inv).post hc').inv
    ((runCallback_sends hcb).post hc') ?_
  intro hst
  exact (runCallback_of_not_connected hcb hst).post hc'

/-- The functor at the head: a message, a shutdown or a callback. -/
theorem safe_runFunctor {s s' : System} {w : WriteOutcome} {cb : List Call} (h : Safe s)
    (hen : enabled s (.runFunctor w cb) = true) (hstep : step s (.runFunctor w cb) = .ok s') :
    Safe s' := by
  match hfs : s.functors with
  | none => simp [enabled, hfs] at hen
  | some [] => simp [enabled, hfs] at hen
  | some (f :: fs) =>
      simp only [enabled, hfs, Bool.and_eq_true] at hen
      simp only [step, hfs] at hstep
      obtain ⟨c', hc', hret⟩ := except_bind_eq_ok.mp hstep
      cases hret
      have hexp : isExpected f = true := h.ordered.expected f (by simp [System.queue, hfs])
      cases f with
      | sendInLoop message => exact safe_sendInLoop h hfs hen.1 hc'
      | shutdownInLoop =>
          cases hc'
          rw [show message? .shutdownInLoop = none from rfl, Option.toList_none, List.append_nil]
          exact safe_shutdownInLoop h hfs
      | writeCompleteCallback =>
          rw [show message? .writeCompleteCallback = none from rfl, Option.toList_none,
            List.append_nil]
          exact safe_runCallback h hfs rfl hen.2 hc'
      | highWaterMarkCallback len =>
          rw [show message? (.highWaterMarkCallback len) = none from rfl, Option.toList_none,
            List.append_nil]
          exact safe_runCallback h hfs rfl hen.2 hc'
      | forceCloseInLoop => cases hexp
      | startReadInLoop => cases hexp
      | stopReadInLoop => cases hexp
      | connectDestroyed => cases hexp

/-- One step of the system, of either thread. -/
theorem safe_step {s s' : System} {e : Event} (h : Safe s) (hen : enabled s e = true)
    (hcond : NoEarlyDrain s e) (hstep : step s e = .ok s') : Safe s' := by
  cases e with
  | sendCheck message =>
      have hthread : s.thread = .idle := by simpa [enabled] using hen
      have hst := h.connected (by rw [hthread]; rfl)
      simp only [step, if_pos hst, except_pure, Except.ok.injEq] at hstep
      subst hstep
      exact h.move hst (by rw [hthread]; simp) rfl
  | sendPush => exact safe_sendPush h hen hstep
  | shutdownCheck =>
      have hthread : s.thread = .idle := by simpa [enabled] using hen
      have hst := h.connected (by rw [hthread]; rfl)
      simp only [step, if_pos hst, except_pure, Except.ok.injEq] at hstep
      subst hstep
      exact h.move hst (by rw [hthread]; simp) rfl
  | shutdownSet => exact safe_shutdownSet h hen hstep
  | shutdownPush => exact safe_shutdownPush h hen hstep
  | handleWrite w => exact safe_handleWrite h hcond hstep
  | loopSend message w => exact safe_loopSend h hen hstep
  | swap =>
      have hnone : s.functors = none := by simpa [enabled] using hen
      cases hstep
      refine h.requeue ?_
      simp [System.queue, hnone]
  | runFunctor w cb => exact safe_runFunctor h hen hstep
  | finish =>
      have hnil : s.functors = some [] := by simpa [enabled] using hen
      cases hstep
      have hqueue : ([] : List Functor) ++ s.conn.pendingFunctors_ = s.queue := by
        simp [System.queue, hnil]
      exact h.requeue hqueue

/-- A connection that has just been established, and nothing called yet. -/
theorem safe_init {c₀ : TcpConnection} {writeComplete highWater : Bool} {mark : Nat}
    (h : (ctor writeComplete highWater mark).connectEstablished [] = .ok c₀) : Safe (init c₀) := by
  have hinv : Inv c₀ := (connectEstablished_inv [] (inv_ctor _ _ _)).post h
  obtain ⟨ch, hup, -⟩ := onChannel_spec (f := Channel.enableReading)
    (c := { ctor writeComplete highWater mark with state_ := .kConnected })
    Channel.entry_ctor rfl
  have hstart : (ctor writeComplete highWater mark).state_ = .kConnecting := rfl
  rw [connectEstablished, assertThat_pos hstart, ok_bind, hup, ok_bind] at h
  cases h
  exact
    { inv := hinv
      noFault := by simp [init, ctor, TcpConnection.emit]
      state := rfl
      posted := rfl
      executed := by simp [init]
      ordered := ⟨by simp [init, System.queue, ctor, TcpConnection.emit],
        by simp [init, System.queue, ctor, TcpConnection.emit]⟩
      shut := by
        rintro ⟨state, unsent, hmem⟩
        simp [init, ctor, TcpConnection.emit] at hmem }

end Muduo.Net.SendShutdown
