import Mathlib.Data.Int.CardIntervalMod
import Muduo.Proofs.TcpServer

/-!
# `Muduo.Proofs.RoundRobin`: how the connections are spread over the loops

`EventLoopThreadPool::getNextLoop` goes round the I/O loops. A connection
gets its loop in `newConnection` and keeps it, so where the connection of a
number lives depends on the number and on the pool only (`loopOf`), whatever
else happens to the connections (`Placed`). The loops then have equally many
of the connections that were made, up to one, and what waits in the queue of
an I/O loop is for connections of this loop.
-/

set_option autoImplicit false

namespace Muduo.Net.TcpServer

open Muduo.Lib

variable {s : TcpServer} {n : Nat} {c : ConnPtr} {k : Conn}

/-- The loop of the connection of a number. -/
def loopOf (n : Nat) (c : ConnPtr) : LoopId := if n = 0 then baseLoop else c % n + 1

/-- How many of the connections that were made live in the loop. -/
def load (s : TcpServer) (l : LoopId) : Nat :=
  Nat.count (fun c => (s.heap c).map Conn.loop_ = some l) s.created

/-- `next_` goes with the number of connections, and each is where it
belongs. -/
structure Placed (n : Nat) (s : TcpServer) : Prop where
  threads : s.numThreads_ = n
  next : s.next_ = if n = 0 then 0 else s.created % n
  loops : ∀ c k, s.heap c = some k → k.loop_ = loopOf n c

/-! ### One step -/

theorem Placed.setConn (h : Placed n s) (hk : s.heap c = some k) (state : TcpConnection.StateE) :
    Placed n (s.setConn c { k with state_ := state }) where
  threads := h.threads
  next := h.next
  loops d k' hk' := by
    rcases update_cases hk' with ⟨rfl, hnew⟩ | ⟨-, hold⟩
    · cases hnew
      exact h.loops _ k hk
    · exact h.loops d k' hold

theorem deref_ends (s : TcpServer) (c : ConnPtr) :
    Ends (s.deref c) (fun _ => True) fun k => s.heap c = some k := by
  rw [deref]
  cases hk : s.heap c with
  | none => exact trivial
  | some k => exact Ends.ok rfl

/-- Behind an `assert`. -/
theorem ends_assert {p : Prop} [Decidable p] {f : Fault} {x : Unit → Except Fault TcpServer}
    {Q : TcpServer → Prop} (hx : Ends (x ()) (fun _ => True) Q) :
    Ends (assertThat p f >>= x) (fun _ => True) Q := by
  by_cases hp : p
  · exact Ends.assert hp hx
  · rw [assertThat_neg hp]
    exact trivial

/-- A functor never moves a connection to another loop. -/
theorem Placed.call (h : Placed n s) (cur : LoopId) (f : Functor) :
    Ends (s.call cur f) (fun _ => True) (Placed n) := by
  cases f with
  | connectEstablished c =>
      refine (deref_ends s c).bind fun k hk => ends_assert (ends_assert (Ends.ok ?_))
      exact ⟨h.threads, h.next, (h.setConn hk _).loops⟩
  | removeConnectionInLoop c =>
      refine ends_assert ((deref_ends s c).bind fun k hk => ends_assert (Ends.ok ?_))
      exact ⟨h.threads, h.next, h.loops⟩
  | connectDestroyed c =>
      refine (deref_ends s c).bind fun k hk => ends_assert (Ends.ok ?_)
      exact ⟨h.threads, h.next, (h.setConn hk _).loops⟩

/-- Nor does it when it is run at once or queued. -/
theorem Placed.runInLoop (h : Placed n s) (cur l : LoopId) (f : Functor) :
    Ends (s.runInLoop cur l f) (fun _ => True) (Placed n) := by
  rw [TcpServer.runInLoop]
  split
  · exact h.call cur f
  · exact ⟨h.threads, h.next, h.loops⟩

/-- `getNextLoop` gives the loop of the next number and moves on. -/
theorem Placed.getNextLoop (h : Placed n s) :
    s.getNextLoop = (loopOf n s.created, if n = 0 then 0 else (s.created + 1) % n) := by
  rw [TcpServer.getNextLoop, h.threads, h.next, loopOf]
  by_cases hn : n = 0
  · rw [if_pos hn, if_pos hn, if_pos hn, if_pos hn]
  · have hlt : s.created % n < n := Nat.mod_lt _ (Nat.pos_of_ne_zero hn)
    rw [if_neg hn, if_neg hn, if_neg hn, if_neg hn]
    have hmod : (s.created + 1) % n = (s.created % n + 1) % n := (Nat.mod_add_mod _ _ _).symm
    by_cases hwrap : s.created % n + 1 = n
    · rw [if_pos (Nat.le_of_eq hwrap.symm), hmod, hwrap, Nat.mod_self]
    · have hnext : (s.created % n + 1) % n = s.created % n + 1 := Nat.mod_eq_of_lt (by omega)
      rw [if_neg (by omega), hmod, hnext]

/-- The new connection gets the loop whose turn it is. -/
theorem Placed.addConnection (h : Placed n s) : Placed n s.addConnection where
  threads := h.threads
  next := congrArg Prod.snd h.getNextLoop
  loops d k' hk' := by
    rcases update_cases hk' with ⟨rfl, hnew⟩ | ⟨-, hold⟩
    · cases hnew
      exact congrArg Prod.fst h.getNextLoop
    · exact h.loops d k' hold

/-- One step keeps every connection in its loop. -/
theorem Placed.step (h : Placed n s) (e : Event) :
    Ends (s.step e) (fun _ => True) (Placed n) := by
  cases e with
  | newConnection => exact h.addConnection.runInLoop _ _ _
  | disconnect c => exact (deref_ends s c).bind fun k hk => Ends.ok (h.setConn hk _)
  | handleClose c =>
      refine (deref_ends s c).bind fun k hk => ?_
      refine (deref_ends s c).bind fun k' hk' => ends_assert (ends_assert ?_)
      have hclosed : Placed n ((s.setConn c { k' with state_ := .kDisconnected }).emit c .closed) :=
        ⟨h.threads, h.next, (h.setConn hk' _).loops⟩
      exact hclosed.runInLoop _ _ _
  | runFunctor l =>
      rw [TcpServer.step]
      cases s.pendingFunctors_ l with
      | nil => exact h
      | cons f fs =>
          have hpopped : Placed n
              { s with pendingFunctors_ := Function.update s.pendingFunctors_ l fs } :=
            ⟨h.threads, h.next, h.loops⟩
          exact hpopped.call l f

/-! ### Runs -/

/-- The load of a loop counts the connections that `loopOf` gives it. -/
theorem Placed.load_eq (h : Placed n s) (hpresent : ∀ c : Nat, (s.heap c).isSome ↔ c < s.created)
    (l : LoopId) : s.load l = Nat.count (fun c => loopOf n c = l) s.created := by
  rw [load, Nat.count_eq_card_filter_range, Nat.count_eq_card_filter_range]
  refine congrArg Finset.card (Finset.filter_congr ?_)
  intro c hc
  obtain ⟨k, hk⟩ := Option.isSome_iff_exists.mp ((hpresent c).mpr (Finset.mem_range.mp hc))
  rw [hk, Option.map_some, Option.some.injEq, h.loops c k hk]

/-- In every run of a server with any number of I/O loops, the connection
of a number lives in the loop that its number gives, as long as it is there.
Of the connections that were made, the I/O loop `l` has the quotient of
their number by that of the loops, and one more when `l` is among the loops
that the last round has reached. The queue of an I/O loop has functors of
its connections only. -/
theorem connections_spread (name : List Char) (addr : InetAddress) (numThreads : Nat)
    (es : List Event) (s : TcpServer) (hrun : machine.Run (ctor name addr numThreads) es s) :
    (∀ c k, s.heap c = some k → k.loop_ = loopOf numThreads c) ∧
    (∀ l, l < numThreads → s.load (l + 1) =
      s.created / numThreads + if l < s.created % numThreads then 1 else 0) ∧
    ∀ l f, f ∈ s.pendingFunctors_ l → l ≠ baseLoop → l = loopOf numThreads f.conn := by
  have hinv : Inv s := by
    refine hrun.invariant (inv_ctor name addr numThreads) ?_
    intro t e u ht hen hstep
    exact (step_spec ht hen).post hstep
  have hplaced : Placed numThreads s := by
    refine hrun.invariant ⟨rfl, ?_, fun c k hk => by cases hk⟩ ?_
    · show 0 = if numThreads = 0 then 0 else 0 % numThreads
      rw [Nat.zero_mod, ite_self]
    · intro t e u ht _ hstep
      exact (ht.step e).post hstep
  refine ⟨hplaced.loops, ?_, ?_⟩
  · intro l hl
    have hsame : ∀ c : Nat, loopOf numThreads c = l + 1 ↔ c ≡ l [MOD numThreads] := by
      intro c
      rw [loopOf, if_neg (by omega), Nat.add_right_cancel_iff, Nat.ModEq, Nat.mod_eq_of_lt hl]
    simp only [hplaced.load_eq hinv.present, hsame]
    rw [Nat.count_modEq_card _ (by omega), Nat.mod_eq_of_lt hl]
  · intro l f hf hbase
    have hqueued : f ∈ s.queued l f.conn := List.mem_filter.mpr ⟨hf, beq_self_eq_true _⟩
    have hlt : (f.conn : Nat) < s.created := by
      by_contra hge
      rw [(hinv.absent f.conn (Nat.not_lt.mp hge)).2 l] at hqueued
      cases hqueued
    obtain ⟨p, k, hrests⟩ := hinv.rests f.conn hlt
    rw [hrests.queue l] at hqueued
    -- What is due in a loop other than the base loop is due in the loop of the connection.
    cases p with
    | created | erased =>
        rw [due, dueIn] at hqueued
        split at hqueued
        · next hl => exact hl.trans (hplaced.loops _ k hrests.heap)
        · cases hqueued
    | closed =>
        rw [due, dueIn, if_neg hbase] at hqueued
        cases hqueued
    | established | destroyed => cases hqueued

/-- Three connections to a server with two I/O loops. -/
theorem connections_spread_three :
    ∃ s, machine.Run (ctor ['s'] ⟨['1'], 80, by decide⟩ 2)
        [.newConnection, .newConnection, .runFunctor 1, .handleClose 0, .newConnection] s ∧
      s.created = 3 ∧ s.load 1 = 2 ∧ s.load 2 = 1 := by
  have heval : (machine.exec (ctor ['s'] ⟨['1'], 80, by decide⟩ 2)
      [.newConnection, .newConnection, .runFunctor 1, .handleClose 0, .newConnection]).map
        (fun s => s.created) = some 3 := by decide +kernel
  obtain ⟨s, hrun, hval⟩ := Machine.exists_run_of_exec heval
  have hload := (connections_spread _ _ _ _ s hrun).2.1
  refine ⟨s, hrun, hval, ?_, ?_⟩
  · rw [hload 0 (by omega), hval]
    rfl
  · rw [hload 1 (by omega), hval]
    rfl

end Muduo.Net.TcpServer
