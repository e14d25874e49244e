import Muduo.Lib.Ledger
import Muduo.Lib.Outcome
import Muduo.Net.TcpServer

/-!
# `Muduo.Proofs.TcpServer`: the life of a connection

A connection goes through five stages, and at most one functor moves it on:
it waits in one queue, or nobody queues it. `Rests s c p k` says that the
connection `c` is in the stage `p` and that the functor which the stage asks
for is in the queue it belongs to, and no other functor of `c` anywhere.

Between the steps of the loops every connection rests (`Inv`). Inside a step
one connection is in the hands of the loop thread, with no functor queued
(`Busy`). The rules of `Busy` follow the code: a functor leaves its queue, a
stage is passed, a functor is queued or nothing is left to do. `runInLoop`
needs no case of its own, as a call and a later run of the queued functor
meet the same rule.

Names are unique because the counter is in the name and the buffer of
`snprintf` holds all of it: with an address of 45 characters, a port of five
and a counter of ten digits the text has 63 characters, and the buffer has
room for 63.
-/

set_option autoImplicit false

namespace Muduo.Net

open Muduo.Lib

/-! ### Names -/

theorem length_toIpPort (addr : InetAddress) : addr.toIpPort.length ≤ 51 := by
  have hip := addr.ip_length
  have hport : (Nat.toDigits 10 addr.port.toNat).length ≤ 5 := by
    rw [Nat.length_toDigits_le_iff (by omega) (by omega)]
    have hlt := addr.port.toNat_lt
    omega
  unfold InetAddress.toIpPort snprintf
  rw [List.length_append, List.length_take, List.length_cons]
  omega

theorem decimal_natCast (n : Nat) : decimal (n : Int) = Nat.toDigits 10 n := by
  unfold decimal
  rw [if_neg (by omega), Int.natAbs_natCast]

theorem toDigits_injective {m n : Nat} (h : Nat.toDigits 10 m = Nat.toDigits 10 n) : m = n := by
  have hval := congrArg (fun digits => Nat.ofDigitChars 10 digits 0) h
  simpa only [Nat.ofDigitChars_toDigits (show 1 < 10 by omega) (show 10 ≤ 10 by omega)] using hval

namespace TcpServer

/-- `snprintf` cuts nothing off the name of a connection. -/
theorem connName_eq {name ipPort : List Char} {n : Nat} (hlen : ipPort.length ≤ 51)
    (hn : n < 2 ^ 31) :
    connName name ipPort n = name ++ ('-' :: ipPort ++ '#' :: Nat.toDigits 10 n) := by
  have hdigits : (Nat.toDigits 10 n).length ≤ 10 := by
    rw [Nat.length_toDigits_le_iff (by omega) (by omega)]
    omega
  unfold connName snprintf
  rw [decimal_natCast, List.take_of_length_le]
  simp only [List.length_append, List.length_cons]
  omega

theorem connName_injective {name ipPort : List Char} {m n : Nat} (hlen : ipPort.length ≤ 51)
    (hm : m < 2 ^ 31) (hn : n < 2 ^ 31) (h : connName name ipPort m = connName name ipPort n) :
    m = n := by
  rw [connName_eq hlen hm, connName_eq hlen hn] at h
  -- Both names have the same front, up to the `#`.
  have htail := List.append_cancel_left (List.append_cancel_left h)
  exact toDigits_injective (List.cons.inj htail).2

/-! ### Stages -/

/-- The stages in their order. -/
def lifecycle : List Stage := [.created, .established, .closed, .erased, .destroyed]

/-- The stages up to the given one. -/
def Stage.upTo : Stage → List Stage
  | .created => [.created]
  | .established => [.created, .established]
  | .closed => [.created, .established, .closed]
  | .erased => [.created, .established, .closed, .erased]
  | .destroyed => [.created, .established, .closed, .erased, .destroyed]

theorem Stage.upTo_prefix (p : Stage) : p.upTo <+: lifecycle := by
  cases p with
  | created => exact ⟨[.established, .closed, .erased, .destroyed], rfl⟩
  | established => exact ⟨[.closed, .erased, .destroyed], rfl⟩
  | closed => exact ⟨[.erased, .destroyed], rfl⟩
  | erased => exact ⟨[.destroyed], rfl⟩
  | destroyed => exact ⟨[], rfl⟩

/-- The values of `state_` in a stage. -/
def Stage.allows : Stage → TcpConnection.StateE → Bool
  | .created, state => state == .kConnecting
  | .established, state => state == .kConnected || state == .kDisconnecting
  | _, state => state == .kDisconnected

/-- The functor that moves a connection on, and the loop to run it. -/
def due (c : ConnPtr) (k : Conn) : Stage → Option (LoopId × Functor)
  | .created => some (k.loop_, .connectEstablished c)
  | .closed => some (baseLoop, .removeConnectionInLoop c)
  | .erased => some (k.loop_, .connectDestroyed c)
  | .established | .destroyed => none

/-- The functors of a connection in the queue of a loop. -/
def queued (s : TcpServer) (l : LoopId) (c : ConnPtr) : List Functor :=
  (s.pendingFunctors_ l).filter fun f => f.conn == c

/-- The queue of `l` with nothing but what is due. -/
def dueIn (d : Option (LoopId × Functor)) (l : LoopId) : List Functor :=
  match d with
  | some (l', f) => if l = l' then [f] else []
  | none => []

/-- The connection `c` is in the stage `p`. -/
structure At (s : TcpServer) (c : ConnPtr) (p : Stage) (k : Conn) : Prop where
  heap : s.heap c = some k
  state : p.allows k.state_ = true
  history : s.history c = p.upTo

/-- What is due is queued, and nothing else. -/
structure Rests (s : TcpServer) (c : ConnPtr) (p : Stage) (k : Conn) : Prop extends At s c p k where
  queue : ∀ l, s.queued l c = dueIn (due c k p) l

/-- Nothing is queued: the loop thread has the connection in its hands. -/
structure Held (s : TcpServer) (c : ConnPtr) (p : Stage) (k : Conn) : Prop extends At s c p k where
  queue : ∀ l, s.queued l c = []

/-- The facts about the server that do not mention the queues of present
connections. -/
structure Sound (s : TcpServer) : Prop where
  ipPort : s.ipPort_.length ≤ 51
  created : s.created < 2 ^ 31
  counter : s.created + 1 < 2 ^ 31 → s.nextConnId_ = ((s.created + 1 : Nat) : Int)
  present : ∀ c : Nat, (s.heap c).isSome ↔ c < s.created
  absent : ∀ c : Nat, s.created ≤ c → s.history c = [] ∧ ∀ l, s.queued l c = []
  names : ∀ c k, s.heap c = some k → k.name_ = connName s.name_ s.ipPort_ ((c + 1 : Nat) : Int)
  map : ∀ name c, s.connections_ name = some c ↔
    ∃ k, s.heap c = some k ∧ k.name_ = name ∧ .erased ∉ s.history c

/-- Between two steps. -/
structure Inv (s : TcpServer) : Prop extends Sound s where
  rests : ∀ c : Nat, c < s.created → ∃ p k, Rests s c p k

/-- Inside a step, with the connection `c` in hand. -/
structure Busy (s : TcpServer) (c : ConnPtr) (p : Stage) (k : Conn) : Prop extends Sound s where
  held : Held s c p k
  others : ∀ d : Nat, d < s.created → d ≠ c → ∃ p k, Rests s d p k

/-! ### Small facts -/

theorem history_emit (s : TcpServer) (c d : ConnPtr) (stage : Stage) :
    (s.emit c stage).history d = if d = c then s.history d ++ [stage] else s.history d := by
  unfold history emit
  by_cases h : d = c
  · subst h
    simp
  · have hne : ¬ c = d := fun heq => h heq.symm
    simp [h, hne]

theorem queued_queueInLoop (s : TcpServer) (l l' : LoopId) (f : Functor) (d : ConnPtr) :
    (s.queueInLoop l f).queued l' d =
      if l' = l ∧ f.conn = d then s.queued l' d ++ [f] else s.queued l' d := by
  unfold queued queueInLoop
  by_cases hl : l' = l
  · subst hl
    by_cases hd : f.conn = d
    · simp [hd]
    · simp [hd]
  · simp [hl]

theorem deref_eq {s : TcpServer} {c : ConnPtr} {k : Conn} (h : s.heap c = some k) :
    s.deref c = .ok k := by
  simp [deref, h]

theorem due_conn {c : ConnPtr} {k : Conn} {p : Stage} {l : LoopId} {f : Functor}
    (h : due c k p = some (l, f)) : f.conn = c := by
  cases p with
  | created | closed | erased =>
      cases h
      rfl
  | established | destroyed => cases h

variable {s s' : TcpServer} {c d : Nat} {p : Stage} {k : Conn}

theorem Sound.name_inj (h : Sound s) {k' : Conn} (hc : s.heap c = some k) (hd : s.heap d = some k')
    (hname : k.name_ = k'.name_) : c = d := by
  have hlt : c < s.created := (h.present c).mp (by simp [hc])
  have hlt' : d < s.created := (h.present d).mp (by simp [hd])
  have hbound := h.created
  rw [h.names c k hc, h.names d k' hd] at hname
  have heq := connName_injective h.ipPort (by omega) (by omega) hname
  omega

theorem At.lt (h : At s c p k) (hs : Sound s) : c < s.created :=
  (hs.present c).mp (by rw [h.heap]; rfl)

/-- A step on `c` leaves the other connections where they are. -/
theorem Rests.frame (h : Rests s d p k) (hheap : s'.heap d = s.heap d)
    (hhistory : s'.history d = s.history d) (hqueue : ∀ l, s'.queued l d = s.queued l d) :
    Rests s' d p k where
  heap := hheap.trans h.heap
  state := h.state
  history := hhistory.trans h.history
  queue l := (hqueue l).trans (h.queue l)

/-! ### The rules of a step -/

/-- A connection of which nothing is due is taken in hand. -/
theorem Inv.take (h : Inv s) (hr : Rests s c p k) (hdue : due c k p = none) : Busy s c p k where
  toSound := h.toSound
  held := { hr.toAt with queue := fun l => by rw [hr.queue l, hdue]; rfl }
  others d hd _ := h.rests d hd

/-- A connection of which nothing is due is released. -/
theorem Busy.release (h : Busy s c p k) (hdue : due c k p = none) : Inv s where
  toSound := h.toSound
  rests d hd := by
    by_cases hdc : d = c
    · subst hdc
      refine ⟨p, k, { h.held.toAt with queue := fun l => ?_ }⟩
      rw [h.held.queue l, hdue]
      rfl
    · exact h.others d hd hdc

/-- A change of the queues that concerns the functors of `c` only. -/
theorem Sound.requeue {pending : LoopId → List Functor} (h : Sound s) (hc : c < s.created)
    (hother : ∀ d, d ≠ c → ∀ l,
      queued { s with pendingFunctors_ := pending } l d = s.queued l d) :
    Sound { s with pendingFunctors_ := pending } where
  ipPort := h.ipPort
  created := h.created
  counter := h.counter
  present := h.present
  absent d hd := by
    have hne : d ≠ c := fun heq => absurd (heq ▸ hc) (Nat.not_lt.mpr hd)
    obtain ⟨hhistory, hqueue⟩ := h.absent d hd
    exact ⟨hhistory, fun l => (hother d hne l).trans (hqueue l)⟩
  names := h.names
  map := h.map

/-- The functor that is due is queued. -/
theorem Busy.queueInLoop {l : LoopId} {f : Functor} (h : Busy s c p k)
    (hdue : due c k p = some (l, f)) : Inv (s.queueInLoop l f) := by
  have hconn := due_conn hdue
  have hother : ∀ d, d ≠ c → ∀ l', (s.queueInLoop l f).queued l' d = s.queued l' d := by
    intro d hd l'
    rw [queued_queueInLoop, if_neg]
    rintro ⟨-, heq⟩
    exact hd (heq.symm.trans hconn)
  have hsound : Sound (s.queueInLoop l f) :=
    h.toSound.requeue (h.held.toAt.lt h.toSound) hother
  refine { hsound with rests := ?_ }
  intro d hd
  by_cases hdc : d = c
  · subst hdc
    refine ⟨p, k, ⟨h.held.heap, h.held.state, h.held.history⟩, ?_⟩
    intro l'
    rw [queued_queueInLoop, h.held.queue l', hdue]
    by_cases hl : l' = l
    · simp [dueIn, hl, hconn]
    · simp [dueIn, hl]
  · obtain ⟨p', k', hrests⟩ := h.others d hd hdc
    exact ⟨p', k', hrests.frame rfl rfl (hother d hdc)⟩

/-- The first functor of a queue is what is due of its connection. -/
theorem Inv.pop {l : LoopId} {f : Functor} {fs : List Functor} (h : Inv s)
    (hqueue : s.pendingFunctors_ l = f :: fs) :
    ∃ p k, due f.conn k p = some (l, f) ∧
      Busy { s with pendingFunctors_ := Function.update s.pendingFunctors_ l fs } f.conn p k := by
  have hhead : s.queued l f.conn = f :: fs.filter fun g => g.conn == f.conn := by
    simp [queued, hqueue]
  have hlt : (f.conn : Nat) < s.created := by
    by_contra hge
    have hnone := (h.absent f.conn (Nat.not_lt.mp hge)).2 l
    rw [hhead] at hnone
    cases hnone
  obtain ⟨p, k, hrests⟩ := h.rests f.conn hlt
  -- The queue of `l` has what is due of the connection and nothing else, and `f` is in it.
  have hdue : due f.conn k p = some (l, f) ∧ (fs.filter fun g => g.conn == f.conn) = [] := by
    have hq := hrests.queue l
    rw [hhead] at hq
    cases hd : due f.conn k p with
    | none =>
        rw [hd] at hq
        cases hq
    | some lf =>
        obtain ⟨l', f'⟩ := lf
        rw [hd] at hq
        simp only [dueIn] at hq
        split at hq
        · rename_i hl
          obtain ⟨hf, hnil⟩ := List.cons.inj hq
          rw [hl, hf]
          exact ⟨rfl, hf ▸ hnil⟩
        · cases hq
  refine ⟨p, k, hdue.1, ?_⟩
  -- The queue loses one functor of `f.conn` and none of another connection.
  have hself : ∀ l', queued { s with
      pendingFunctors_ := Function.update s.pendingFunctors_ l fs } l' f.conn = [] := by
    intro l'
    by_cases hl : l' = l
    · subst hl
      simpa [queued] using hdue.2
    · have hq := hrests.queue l'
      rw [hdue.1] at hq
      simpa [queued, dueIn, hl] using hq
  have hother : ∀ d, d ≠ f.conn → ∀ l', queued { s with
      pendingFunctors_ := Function.update s.pendingFunctors_ l fs } l' d = s.queued l' d := by
    intro d hd l'
    by_cases hl : l' = l
    · subst hl
      have hne : ¬ f.conn = d := fun heq => hd heq.symm
      simp [queued, hqueue, hne]
    · simp [queued, hl]
  exact
    { h.toSound.requeue hlt hother with
      held := ⟨⟨hrests.heap, hrests.state, hrests.history⟩, hself⟩
      others := fun d hd hdc => by
        obtain ⟨p', k', hr⟩ := h.rests d hd
        exact ⟨p', k', hr.frame rfl rfl (hother d hdc)⟩ }

/-- The connection takes the record `k'` and may pass to another stage. The
entry in `connections_` goes with the stage `erased`. -/
theorem Busy.update {p' : Stage} {k' : Conn} {connections : List Char → Option ConnPtr}
    {log : List (ConnPtr × Stage)} (h : Busy s c p k) (hname : k'.name_ = k.name_)
    (hstate : p'.allows k'.state_ = true) (hinit : p.upTo <+: p'.upTo)
    (hhistory : ∀ d, history { s with log := log } d = if d = c then p'.upTo else s.history d)
    (hmap : ∀ name d, connections name = some d ↔
      s.connections_ name = some d ∧ (d = c → .erased ∉ p'.upTo)) :
    Busy { s.setConn c k' with connections_ := connections, log := log } c p' k' := by
  have hlt := h.held.toAt.lt h.toSound
  constructor
  case toSound =>
    constructor
    case ipPort => exact h.ipPort
    case created => exact h.created
    case counter => exact h.counter
    case present =>
      intro d
      show (Function.update s.heap c (some k') d).isSome ↔ d < s.created
      by_cases hdc : d = c
      · subst hdc
        simp [hlt]
      · rw [Function.update_of_ne hdc]
        exact h.present d
    case absent =>
      intro d hd
      have hdc : d ≠ c := fun heq => absurd (heq ▸ hlt) (Nat.not_lt.mpr hd)
      refine ⟨?_, (h.absent d hd).2⟩
      exact (hhistory d).trans ((if_neg hdc).trans (h.absent d hd).1)
    case names =>
      intro d k₁ hk₁
      rcases update_cases hk₁ with ⟨rfl, hk⟩ | ⟨-, hold⟩
      · cases hk
        exact hname.trans (h.names _ k h.held.heap)
      · exact h.names d k₁ hold
    case map =>
      intro name d
      refine (hmap name d).trans ?_
      rw [h.map]
      show _ ↔ ∃ k₁, Function.update s.heap c (some k') d = some k₁ ∧ k₁.name_ = name ∧
        .erased ∉ history { s with log := log } d
      rw [hhistory]
      by_cases hdc : d = c
      · subst hdc
        -- Both sides say that the name is that of `c` and that `c` is not erased.
        have hmono : Stage.erased ∉ p'.upTo → .erased ∉ p.upTo :=
          fun hnot hmem => hnot (hinit.subset hmem)
        rw [h.held.history, if_pos rfl]
        simp only [h.held.heap, Function.update_self, Option.some.injEq, exists_eq_left', hname,
          forall_const]
        constructor
        · exact fun hx => ⟨hx.1.1, hx.2⟩
        · exact fun hx => ⟨⟨hx.1, hmono hx.2⟩, hx.2⟩
      · rw [if_neg hdc, Function.update_of_ne hdc]
        simp [hdc]
  case held =>
    refine ⟨⟨Function.update_self _ _ _, hstate, ?_⟩, h.held.queue⟩
    exact (hhistory c).trans (if_pos rfl)
  case others =>
    intro d hd hdc
    obtain ⟨p₁, k₁, hrests⟩ := h.others d hd hdc
    refine ⟨p₁, k₁, hrests.frame (Function.update_of_ne hdc _ _) ?_ fun l => rfl⟩
    exact (hhistory d).trans (if_neg hdc)

/-- The connection passes to the next stage. -/
theorem Busy.advance {p' : Stage} {k' : Conn} {connections : List Char → Option ConnPtr}
    (h : Busy s c p k) (hname : k'.name_ = k.name_) (hstate : p'.allows k'.state_ = true)
    (hnext : p'.upTo = p.upTo ++ [p'])
    (hmap : ∀ name d, connections name = some d ↔
      s.connections_ name = some d ∧ (d = c → .erased ∉ p'.upTo)) :
    Busy { s.setConn c k' with
      connections_ := connections, log := s.log ++ [(c, p')] } c p' k' := by
  refine h.update hname hstate ⟨[p'], hnext.symm⟩ ?_ hmap
  intro d
  refine (history_emit s c d p').trans ?_
  by_cases hdc : d = c
  · subst hdc
    rw [if_pos rfl, if_pos rfl, hnext, h.held.history]
  · rw [if_neg hdc, if_neg hdc]

/-- The map without a change. An erased connection is not in it. -/
theorem Busy.map_same (h : Busy s c p k) {p' : Stage} (herased : .erased ∈ p'.upTo → .erased ∈ p.upTo)
    (name : List Char) (d : ConnPtr) :
    s.connections_ name = some d ↔
      s.connections_ name = some d ∧ (d = c → .erased ∉ p'.upTo) := by
  constructor
  · intro hsome
    refine ⟨hsome, ?_⟩
    rintro rfl hmem
    obtain ⟨-, -, -, hnot⟩ := (h.map name _).mp hsome
    rw [h.held.history] at hnot
    exact hnot (herased hmem)
  · exact fun hsome => hsome.1

/-- A stage that leaves `connections_` alone. -/
theorem Busy.pass {p' : Stage} {state : TcpConnection.StateE} (h : Busy s c p k)
    (hstate : p'.allows state = true) (hnext : p'.upTo = p.upTo ++ [p'])
    (herased : .erased ∈ p'.upTo → .erased ∈ p.upTo) :
    Busy ((s.setConn c { k with state_ := state }).emit c p') c p' { k with state_ := state } :=
  h.advance rfl hstate hnext (h.map_same herased)

/-! ### The functions -/

theorem connectEstablished_spec (h : Busy s c .created k) :
    Returns (s.connectEstablished k.loop_ c) Inv := by
  have hstate : k.state_ = .kConnecting := by simpa [Stage.allows] using h.held.state
  simp only [connectEstablished, deref_eq h.held.heap, ok_bind, assertThat_pos, hstate,
    except_pure]
  exact (h.pass (by decide) rfl (by decide)).release rfl

theorem connectDestroyed_spec (h : Busy s c .erased k) :
    Returns (s.connectDestroyed k.loop_ c) Inv := by
  have hstate : k.state_ = .kDisconnected := by simpa [Stage.allows] using h.held.state
  simp only [connectDestroyed, deref_eq h.held.heap, ok_bind, assertThat_pos, except_pure]
  refine (h.pass ?_ rfl (by decide)).release rfl
  rw [hstate]
  rfl

/-- `removeConnectionInLoop` finds the entry of its connection, and only
that one goes. -/
theorem removeConnectionInLoop_spec (h : Busy s c .closed k) :
    Returns (s.removeConnectionInLoop baseLoop c) Inv := by
  have hnot : Stage.erased ∉ s.history c := by
    rw [h.held.history]
    decide
  -- The stage is not erased yet, so the map has the connection under its name.
  have hentry : s.connections_ k.name_ = some c := (h.map _ _).mpr ⟨k, h.held.heap, rfl, hnot⟩
  have hconn : s.setConn c k = s := by
    unfold setConn
    rw [← h.held.heap, Function.update_eq_self]
  have hmap : ∀ name d, Function.update s.connections_ k.name_ none name = some d ↔
      s.connections_ name = some d ∧ (d = c → .erased ∉ Stage.erased.upTo) := by
    intro name d
    by_cases hname : name = k.name_
    · subst hname
      simp [hentry, Stage.upTo, eq_comm]
    · rw [Function.update_of_ne hname]
      constructor
      · -- Under another name there is another connection.
        intro hsome
        refine ⟨hsome, ?_⟩
        rintro rfl
        obtain ⟨k', hk', hname', -⟩ := (h.map name _).mp hsome
        rw [h.held.heap] at hk'
        cases hk'
        exact absurd hname'.symm hname
      · exact fun hsome => hsome.1
  have hbusy : Busy { s.setConn c k with
      connections_ := Function.update s.connections_ k.name_ none
      log := s.log ++ [(c, .erased)] } c .erased k := h.advance rfl h.held.state rfl hmap
  rw [hconn] at hbusy
  simp only [removeConnectionInLoop, deref_eq h.held.heap, ok_bind, hentry, Option.isSome_some,
    if_true, assertThat_pos, except_pure]
  exact hbusy.queueInLoop rfl

/-- A functor that is due meets what its function asks for. -/
theorem call_spec {l : LoopId} {f : Functor} (h : Busy s c p k)
    (hdue : due c k p = some (l, f)) : Returns (s.call l f) Inv := by
  cases p with
  | created =>
      cases hdue
      exact connectEstablished_spec h
  | closed =>
      cases hdue
      exact removeConnectionInLoop_spec h
  | erased =>
      cases hdue
      exact connectDestroyed_spec h
  | established => cases hdue
  | destroyed => cases hdue

theorem runInLoop_spec {cur l : LoopId} {f : Functor} (h : Busy s c p k)
    (hdue : due c k p = some (l, f)) : Returns (s.runInLoop cur l f) Inv := by
  unfold runInLoop
  split
  · rename_i hcur
    rw [hcur]
    exact call_spec h hdue
  · exact h.queueInLoop hdue

theorem isUp_iff : s.isUp c = true ↔
    ∃ k, s.heap c = some k ∧ (k.state_ = .kConnected ∨ k.state_ = .kDisconnecting) := by
  unfold isUp
  cases hheap : s.heap c with
  | none => simp
  | some k => simp

/-- A connection that can be closed is established. -/
theorem Inv.established (h : Inv s) (hup : s.isUp c = true) :
    ∃ k, Busy s c .established k ∧ (k.state_ = .kConnected ∨ k.state_ = .kDisconnecting) := by
  obtain ⟨k, hheap, hstate⟩ := isUp_iff.mp hup
  obtain ⟨p, k', hrests⟩ := h.rests c ((h.present c).mp (by rw [hheap]; rfl))
  cases hheap.symm.trans hrests.heap
  have hp : p = .established := by
    have hallows := hrests.state
    cases p with
    | established => rfl
    | created | closed | erased | destroyed =>
        rcases hstate with hst | hst
        · rw [hst] at hallows
          cases hallows
        · rw [hst] at hallows
          cases hallows
  subst hp
  exact ⟨k, h.take hrests rfl, hstate⟩

theorem handleClose_spec (h : Busy s c .established k)
    (hstate : k.state_ = .kConnected ∨ k.state_ = .kDisconnecting) :
    Returns (s.handleClose k.loop_ c) Inv := by
  simp only [handleClose, deref_eq h.held.heap, ok_bind, assertThat_pos, hstate]
  exact runInLoop_spec (h.pass rfl rfl (by decide)) rfl

theorem disconnect_spec (h : Busy s c .established k) :
    Inv (s.setConn c { k with state_ := .kDisconnecting }) := by
  have hbusy : Busy { s.setConn c { k with state_ := .kDisconnecting } with
      connections_ := s.connections_, log := s.log } c .established
      { k with state_ := .kDisconnecting } := by
    refine h.update rfl rfl List.prefix_rfl ?_ (h.map_same fun hmem => hmem)
    intro d
    show s.history d = _
    split
    · rename_i hdc
      rw [hdc, h.held.history]
    · rfl
  exact hbusy.release rfl

theorem incrementInt_natCast {n : Nat} (h : n + 1 < 2 ^ 31) :
    incrementInt (n : Int) = ((n + 1 : Nat) : Int) := by
  unfold incrementInt
  omega

/-- The name of a new connection is not taken. -/
theorem Sound.connName_fresh (h : Sound s) (hlt : s.created + 1 < 2 ^ 31) (hd : s.heap d = some k) :
    k.name_ ≠ connName s.name_ s.ipPort_ s.nextConnId_ := by
  rw [h.names d k hd, h.counter hlt]
  intro heq
  have hdlt : d < s.created := (h.present d).mp (by rw [hd]; rfl)
  have := connName_injective h.ipPort (by omega) hlt heq
  omega

/-- The history of the new connection begins. -/
theorem history_addConnection (h : Sound s) (d : ConnPtr) :
    s.addConnection.history d = if d = s.created then [.created] else s.history d := by
  have hemit : s.addConnection.history d
      = if d = s.created then s.history d ++ [.created] else s.history d :=
    history_emit s s.created d .created
  rw [hemit]
  split_ifs with hdc
  · rw [hdc, (h.absent s.created (Nat.le_refl _)).1]
    rfl
  · rfl

/-- The new connection goes into `connections_`, and no older one has its name. -/
theorem map_addConnection (h : Sound s) (hlt : s.created + 1 < 2 ^ 31) (name : List Char) (d : ConnPtr) :
    s.addConnection.connections_ name = some d ↔
      ∃ k, s.addConnection.heap d = some k ∧ k.name_ = name ∧ .erased ∉ s.addConnection.history d := by
  have hnone : s.heap s.created = none := by
    cases hheap : s.heap s.created with
    | none => rfl
    | some k => exact absurd ((h.present _).mp (by rw [hheap]; rfl)) (Nat.lt_irrefl _)
  rw [history_addConnection h]
  show Function.update s.connections_ _ (some s.created) name = some d ↔
    ∃ k, Function.update s.heap s.created _ d = some k ∧ k.name_ = name ∧ _
  by_cases hdc : d = s.created
  · subst hdc
    rw [if_pos rfl, Function.update_self]
    by_cases hname : name = connName s.name_ s.ipPort_ s.nextConnId_
    · subst hname
      simp
    · rw [Function.update_of_ne hname, h.map]
      simp [hnone, Ne.symm hname]
  · rw [if_neg hdc, Function.update_of_ne hdc, ← h.map]
    by_cases hname : name = connName s.name_ s.ipPort_ s.nextConnId_
    · subst hname
      rw [Function.update_self]
      constructor
      · intro heq
        exact absurd (Option.some.inj heq).symm hdc
      · intro hold
        obtain ⟨k, hk, hname, -⟩ := (h.map _ _).mp hold
        exact absurd hname (h.connName_fresh hlt hk)
    · rw [Function.update_of_ne hname]

/-- A new connection is in hand, created. -/
theorem addConnection_spec (h : Inv s) (hlt : s.created + 1 < 2 ^ 31) :
    Busy s.addConnection s.created .created
      ⟨connName s.name_ s.ipPort_ s.nextConnId_, s.getNextLoop.1, .kConnecting⟩ := by
  have hhistory := history_addConnection h.toSound
  constructor
  case toSound =>
    constructor
    case ipPort => exact h.ipPort
    case created => exact hlt
    case counter =>
      intro hlt'
      show incrementInt s.nextConnId_ = _
      rw [h.counter hlt]
      exact incrementInt_natCast hlt'
    case present =>
      intro d
      show (Function.update s.heap s.created _ d).isSome ↔ d < s.created + 1
      by_cases hdc : d = s.created
      · subst hdc
        simp
      · rw [Function.update_of_ne hdc, h.present]
        omega
    case absent =>
      intro d hd
      have hd' : s.created + 1 ≤ d := hd
      have hne : d ≠ s.created := by omega
      have hold := h.absent d (by omega)
      refine ⟨?_, hold.2⟩
      rw [hhistory, if_neg hne]
      exact hold.1
    case names =>
      intro d k hk
      rcases update_cases hk with ⟨rfl, hself⟩ | ⟨-, hold⟩
      · cases hself
        show connName s.name_ s.ipPort_ s.nextConnId_ = _
        rw [h.counter hlt]
        rfl
      · exact h.names d k hold
    case map => exact map_addConnection h.toSound hlt
  case held =>
    refine ⟨⟨Function.update_self _ _ _, rfl, ?_⟩, (h.absent s.created (Nat.le_refl _)).2⟩
    rw [hhistory, if_pos rfl]
    rfl
  case others =>
    intro d hd hdc
    have hd' : d < s.created + 1 := hd
    obtain ⟨p, k, hrests⟩ := h.rests d (by omega)
    refine ⟨p, k, hrests.frame (Function.update_of_ne hdc _ _) ?_ fun l => rfl⟩
    rw [hhistory, if_neg hdc]

/-! ### Runs -/

/-- Every enabled step returns and keeps the invariant. -/
theorem step_spec {e : Event} (h : Inv s) (hen : enabled s e = true) : Returns (step s e) Inv := by
  cases e with
  | newConnection =>
      have hlt : s.created + 1 < 2 ^ 31 := of_decide_eq_true hen
      exact runInLoop_spec (addConnection_spec h hlt) rfl
  | disconnect c =>
      obtain ⟨k, hbusy, -⟩ := h.established hen
      simp only [step, deref_eq hbusy.held.heap, ok_bind, except_pure]
      exact disconnect_spec hbusy
  | handleClose c =>
      obtain ⟨k, hbusy, hstate⟩ := h.established hen
      simp only [step, deref_eq hbusy.held.heap, ok_bind]
      exact handleClose_spec hbusy hstate
  | runFunctor l =>
      cases hqueue : s.pendingFunctors_ l with
      | nil => simp [enabled, hqueue] at hen
      | cons f fs =>
          obtain ⟨p, k, hdue, hbusy⟩ := h.pop hqueue
          simp only [step, hqueue]
          exact call_spec hbusy hdue

theorem inv_ctor (name : List Char) (addr : InetAddress) (numThreads : Nat) :
    Inv (ctor name addr numThreads) where
  ipPort := length_toIpPort addr
  created := Nat.two_pow_pos 31
  counter _ := rfl
  present c := by simp [ctor]
  absent c _ := ⟨rfl, fun l => rfl⟩
  names c k hk := by cases hk
  map name c := by simp [ctor]
  rests c hc := absurd hc (Nat.not_lt_zero c)

/-- A server with any name, address and number of I/O loops, in every run
of its loops.

- What happened to a connection is an initial part of `lifecycle`: created,
  established, closed, erased, destroyed.
- `connections_` has the connections that were created and not yet erased,
  each under its own name.
- Different connections have different names.
- No `assert` fails. In particular `removeConnectionInLoop` erases one
  entry, and by the second point it is that of its connection. -/
theorem connection_lifecycle (name : List Char) (addr : InetAddress) (numThreads : Nat)
    (es : List Event) (s : TcpServer) (hrun : machine.Run (ctor name addr numThreads) es s) :
    (∀ c, s.history c <+: lifecycle) ∧
    (∀ name c, s.connections_ name = some c ↔
      (∃ k, s.heap c = some k ∧ k.name_ = name) ∧
        .created ∈ s.history c ∧ .erased ∉ s.history c) ∧
    (∀ c d k k', s.heap c = some k → s.heap d = some k' → k.name_ = k'.name_ → c = d) ∧
    (∀ e, machine.enabled s e → ∃ s', machine.step s e = .ok s') := by
  have h : Inv s := by
    refine hrun.invariant (inv_ctor name addr numThreads) ?_
    intro t e u ht hen hstep
    exact (step_spec ht hen).post hstep
  have hstage : ∀ c k, s.heap c = some k → ∃ p : Stage, s.history c = p.upTo := by
    intro c k hk
    obtain ⟨p, k', hrests⟩ := h.rests c ((h.present c).mp (by rw [hk]; rfl))
    exact ⟨p, hrests.history⟩
  refine ⟨?_, ?_, ?_, ?_⟩
  · intro c
    by_cases hc : (c : Nat) < s.created
    · obtain ⟨p, k, hrests⟩ := h.rests c hc
      rw [hrests.history]
      exact p.upTo_prefix
    · rw [(h.absent c (Nat.not_lt.mp hc)).1]
      exact List.nil_prefix
  · intro name c
    rw [h.map]
    constructor
    · rintro ⟨k, hk, hname, hnot⟩
      obtain ⟨p, hp⟩ := hstage c k hk
      refine ⟨⟨k, hk, hname⟩, ?_, hnot⟩
      rw [hp]
      cases p <;> decide
    · rintro ⟨⟨k, hk, hname⟩, -, hnot⟩
      exact ⟨k, hk, hname, hnot⟩
  · intro c d k k' hk hk' hname
    exact h.name_inj hk hk' hname
  · intro e hen
    obtain ⟨s', hs', -⟩ := (step_spec h hen).exists_ok
    exact ⟨s', hs'⟩

/-- Two connections to a server with one I/O loop. The first one is closed
and goes through all stages while the second one is made. -/
theorem connection_lifecycle_one_thread :
    ∃ s, machine.Run (ctor ['s'] ⟨['1'], 80, by decide⟩ 1) [.newConnection, .runFunctor 1,
        .handleClose 0, .newConnection, .runFunctor 0, .runFunctor 1, .runFunctor 1] s ∧
      s.history 0 = lifecycle ∧ s.connections_ ['s', '-', '1', ':', '8', '0', '#', '1'] = none ∧
      s.connections_ ['s', '-', '1', ':', '8', '0', '#', '2'] = some 1 ∧
      .erased ∉ s.history 1 := by
  have heval : (machine.exec (ctor ['s'] ⟨['1'], 80, by decide⟩ 1) [.newConnection, .runFunctor 1,
        .handleClose 0, .newConnection, .runFunctor 0, .runFunctor 1, .runFunctor 1]).map
          (fun s => (s.history 0, s.connections_ ['s', '-', '1', ':', '8', '0', '#', '1'],
            s.connections_ ['s', '-', '1', ':', '8', '0', '#', '2']))
      = some (lifecycle, none, some 1) := by decide +kernel
  obtain ⟨s, hrun, hval⟩ := Machine.exists_run_of_exec heval
  simp only [Prod.mk.injEq] at hval
  obtain ⟨hhistory, hfirst, hsecond⟩ := hval
  have hmain := connection_lifecycle _ _ _ _ s hrun
  exact ⟨s, hrun, hhistory, hfirst, hsecond, ((hmain.2.1 _ _).mp hsecond).2.2⟩

end TcpServer

end Muduo.Net
