import Mathlib.Algebra.BigOperators.Group.Finset.Piecewise
import Mathlib.Algebra.Order.BigOperators.Group.Finset
import Mathlib.Logic.Relation

/-!
# The life of a Redis server

A server is an accept loop, one goroutine for each client and the body of `Close`, which
run in any interleaving. A step below is one action of one of them on what they share: the
registered connections and the closed flag (under the server's mutex), the semaphore that
bounds the clients, the wait group, the listener and the connections. `Close` goes through
`sync.Once`, so that its body runs once and every caller returns after it.
-/

namespace KVLite.Redis

open Function

/-- Where the accept loop stands: in `Accept`, with a connection `Accept` has returned, or
after the loop, before and after its `wg.Done`. -/
inductive AcceptLoop (C : Type)
  | accepting
  | busy (conn : C)
  | returning
  | ended

/-- Where a connection stands. -/
inductive ConnPhase
  | unseen
  /-- `Accept` has returned it. -/
  | accepted
  /-- It has its place in the semaphore. -/
  | admitted
  | registered
  /-- `register` has refused it. -/
  | rejected
  /-- It is refused and its place is given back. -/
  | dropping
  /-- Its goroutine serves it. -/
  | serving
  -- The goroutine runs its deferred calls, in this order.
  | closing
  | unregistering
  | leaving
  | gone
  deriving DecidableEq

/-- Where the body of `Close` stands; `connections` are those it still has to close. -/
inductive ClosePhase (C : Type)
  | idle
  /-- The `done` channel is closed. -/
  | signalled
  /-- `server.closed` is set and the registered connections are collected. -/
  | collected (connections : Finset C)
  /-- The listener is closed. -/
  | closing (connections : Finset C)
  | waiting
  | returned

/-- `server.closed`. -/
def ClosePhase.closed {C : Type} : ClosePhase C → Bool
  | idle | signalled => false
  | _ => true

/-- The listener is open. -/
def ClosePhase.listening {C : Type} : ClosePhase C → Bool
  | idle | signalled | collected _ => true
  | _ => false

structure Server (C : Type) where
  loop : AcceptLoop C
  phase : C → ConnPhase
  close : ClosePhase C
  conns : Finset C
  /-- The number of places taken in the semaphore. -/
  sem : ℕ
  wg : ℕ
  /-- The connections that `Accept` has returned. -/
  accepted : Finset C
  /-- The connections that have been closed. -/
  closedConns : Finset C

/-- The server that `Serve` returns: the accept loop runs. -/
def Server.initial (C : Type) : Server C := ⟨.accepting, fun _ => .unseen, .idle, ∅, 0, 1, ∅, ∅⟩

variable {C : Type} [DecidableEq C]

/-- The steps the server takes by itself; `max` is `MaxClients`. Without a limit there is
no semaphore and `sem` stays zero. -/
inductive Server.OwnStep (max : ℕ) (server : Server C) : Server C → Prop
  /-- `Accept` fails on the closed listener. -/
  | acceptFails : server.loop = .accepting → server.close.listening = false →
    OwnStep max server { server with loop := .returning }
  | enter (conn : C) : server.phase conn = .accepted → max = 0 ∨ server.sem < max →
    OwnStep max server { server with
      phase := update server.phase conn .admitted
      sem := if max = 0 then 0 else server.sem + 1 }
  /-- The semaphore is full: the connection gets an error and is closed. -/
  | refuse (conn : C) : server.phase conn = .accepted → 0 < max → max ≤ server.sem →
    OwnStep max server { server with
      loop := .accepting, phase := update server.phase conn .gone
      closedConns := insert conn server.closedConns }
  | register (conn : C) : server.phase conn = .admitted → server.close.closed = false →
    OwnStep max server { server with
      phase := update server.phase conn .registered, conns := insert conn server.conns }
  | reject (conn : C) : server.phase conn = .admitted → server.close.closed = true →
    OwnStep max server { server with phase := update server.phase conn .rejected }
  | giveBack (conn : C) : server.phase conn = .rejected →
    OwnStep max server
      { server with phase := update server.phase conn .dropping, sem := server.sem - 1 }
  | drop (conn : C) : server.phase conn = .dropping →
    OwnStep max server { server with
      loop := .returning, phase := update server.phase conn .gone
      closedConns := insert conn server.closedConns }
  | loopDone : server.loop = .returning →
    OwnStep max server { server with loop := .ended, wg := server.wg - 1 }
  /-- `wg.Add(1)` and the start of the connection's goroutine. -/
  | start (conn : C) : server.phase conn = .registered →
    OwnStep max server { server with
      loop := .accepting, phase := update server.phase conn .serving, wg := server.wg + 1 }
  /-- A read or a write fails on a closed connection. -/
  | connFails (conn : C) : server.phase conn = .serving → conn ∈ server.closedConns →
    OwnStep max server
      { server with phase := update server.phase conn .closing, sem := server.sem - 1 }
  | closeConn (conn : C) : server.phase conn = .closing →
    OwnStep max server { server with
      phase := update server.phase conn .unregistering
      closedConns := insert conn server.closedConns }
  | unregister (conn : C) : server.phase conn = .unregistering →
    OwnStep max server { server with
      phase := update server.phase conn .leaving, conns := server.conns.erase conn }
  | handlerDone (conn : C) : server.phase conn = .leaving →
    OwnStep max server { server with phase := update server.phase conn .gone, wg := server.wg - 1 }
  | collect : server.close = .signalled →
    OwnStep max server { server with close := .collected server.conns }
  | closeListener {connections : Finset C} : server.close = .collected connections →
    OwnStep max server { server with close := .closing connections }
  /-- The loop of `Close` takes the collected connections in any order. -/
  | closeCollected {connections : Finset C} (conn : C) : server.close = .closing connections →
    conn ∈ connections →
    OwnStep max server { server with
      close := .closing (connections.erase conn)
      closedConns := insert conn server.closedConns }
  | wait : server.close = .closing ∅ → OwnStep max server { server with close := .waiting }
  | closeReturns : server.close = .waiting → server.wg = 0 →
    OwnStep max server { server with close := .returned }

/-- The steps that come from outside: clients, the network and the caller of `Close`. -/
inductive Server.OutsideStep (server : Server C) : Server C → Prop
  | connect (conn : C) : server.loop = .accepting → server.close.listening = true →
    server.phase conn = .unseen →
    OutsideStep server { server with
      loop := .busy conn, phase := update server.phase conn .accepted
      accepted := insert conn server.accepted }
  /-- `Accept` fails with an error that is not temporary. After a temporary one the loop
  goes on, which changes nothing here. -/
  | acceptBreaks : server.loop = .accepting → OutsideStep server { server with loop := .returning }
  /-- The session ends: QUIT, a protocol error, or the client is gone. -/
  | sessionEnds (conn : C) : server.phase conn = .serving →
    OutsideStep server
      { server with phase := update server.phase conn .closing, sem := server.sem - 1 }
  | callClose : server.close = .idle → OutsideStep server { server with close := .signalled }

def Server.Step (max : ℕ) (server server' : Server C) : Prop :=
  server.OwnStep max server' ∨ server.OutsideStep server'

/-! ### The invariant -/

/-- What the accept loop counts for in the wait group. -/
def AcceptLoop.running : AcceptLoop C → ℕ
  | ended => 0
  | _ => 1

namespace ConnPhase

/-- The accept loop holds the connection. -/
def inLoop : ConnPhase → Bool
  | accepted | admitted | registered | rejected | dropping => true
  | _ => false

/-- What the connection's goroutine counts for in the wait group. -/
def running : ConnPhase → ℕ
  | serving | closing | unregistering | leaving => 1
  | _ => 0

/-- The places of the connection in the semaphore. -/
def places : ConnPhase → ℕ
  | admitted | registered | rejected | serving => 1
  | _ => 0

/-- The connection is in `server.conns`. -/
def tracked : ConnPhase → Bool
  | registered | serving | closing | unregistering => true
  | _ => false

/-- Who holds the connection has not closed it yet. -/
def unclosed : ConnPhase → Bool
  | unregistering | leaving | gone => false
  | _ => true

end ConnPhase

/-- `Close` has closed the connection or is going to. -/
def ClosePhase.Reaches (closedConns : Finset C) (conn : C) : ClosePhase C → Prop
  | idle | signalled => True
  | collected connections | closing connections => conn ∈ connections ∨ conn ∈ closedConns
  | waiting | returned => conn ∈ closedConns

theorem ClosePhase.Reaches.insert {closedConns : Finset C} {conn : C} {close : ClosePhase C}
    (h : close.Reaches closedConns conn) (conn' : C) :
    close.Reaches (insert conn' closedConns) conn := by
  cases close <;> grind [ClosePhase.Reaches]

namespace Server

/-- The sum of `f` over the phases of the connections that `Accept` has returned. -/
def total (f : ConnPhase → ℕ) (conns : Finset C) (phase : C → ConnPhase) : ℕ :=
  ∑ conn ∈ conns, f (phase conn)

structure Sound (max : ℕ) (server : Server C) : Prop where
  held : ∀ conn, (server.phase conn).inLoop ↔ server.loop = .busy conn
  seen : ∀ conn, conn ∈ server.accepted ↔ server.phase conn ≠ .unseen
  counted : server.wg = server.loop.running + total ConnPhase.running server.accepted server.phase
  places : server.sem = if max = 0 then 0 else total ConnPhase.places server.accepted server.phase
  limited : server.sem ≤ max
  tracked : ∀ conn, conn ∈ server.conns ↔ (server.phase conn).tracked
  closed : ∀ conn, (server.phase conn).unclosed ∨ conn ∈ server.closedConns
  reached : ∀ conn ∈ server.conns, server.close.Reaches server.closedConns conn
  returned : server.close = .returned → server.wg = 0

variable {max : ℕ} {server server' : Server C}

theorem total_update (f : ConnPhase → ℕ) {conns : Finset C} {conn : C} (h : conn ∈ conns)
    (phase : C → ConnPhase) (next : ConnPhase) :
    total f conns (update phase conn next) + f (phase conn) = total f conns phase + f next := by
  have hrest : ∀ c ∈ conns.erase conn, f (update phase conn next c) = f (phase c) := fun c hc => by
    rw [update_of_ne (Finset.ne_of_mem_erase hc)]
  rw [total, total, ← Finset.add_sum_erase _ _ h, Finset.sum_congr rfl hrest, update_self,
    ← Finset.add_sum_erase conns (fun c => f (phase c)) h]
  omega

theorem total_insert (f : ConnPhase → ℕ) {conns : Finset C} {conn : C} (h : conn ∉ conns)
    (phase : C → ConnPhase) (next : ConnPhase) :
    total f (insert conn conns) (update phase conn next) = total f conns phase + f next := by
  have hrest : ∀ c ∈ conns, f (update phase conn next c) = f (phase c) := fun c hc => by
    rw [update_of_ne (ne_of_mem_of_not_mem hc h)]
  rw [total, total, Finset.sum_insert h, Finset.sum_congr rfl hrest, update_self]
  omega

theorem Sound.held_step (h : server.Sound max) (hstep : server.Step max server') (conn : C) :
    (server'.phase conn).inLoop ↔ server'.loop = .busy conn := by
  have held := h.held
  clear h
  obtain hstep | hstep := hstep <;> cases hstep <;> grind [ConnPhase.inLoop]

theorem Sound.seen_step (h : server.Sound max) (hstep : server.Step max server') (conn : C) :
    conn ∈ server'.accepted ↔ server'.phase conn ≠ .unseen := by
  have seen := h.seen
  clear h
  obtain hstep | hstep := hstep <;> cases hstep <;> grind

theorem Sound.counted_step (h : server.Sound max) (hstep : server.Step max server') :
    server'.wg = server'.loop.running +
      total ConnPhase.running server'.accepted server'.phase := by
  have held := h.held
  have seen := h.seen
  have counted := h.counted
  clear h
  obtain hstep | hstep := hstep <;> cases hstep <;>
    grind [total_update, total_insert, ConnPhase.running, AcceptLoop.running, ConnPhase.inLoop]

theorem Sound.places_step (h : server.Sound max) (hstep : server.Step max server') :
    server'.sem = (if max = 0 then 0 else total ConnPhase.places server'.accepted server'.phase) ∧
      server'.sem ≤ max := by
  have seen := h.seen
  have places := h.places
  have limited := h.limited
  clear h
  obtain hstep | hstep := hstep <;> cases hstep <;>
    grind [total_update, total_insert, ConnPhase.places]

theorem Sound.tracked_step (h : server.Sound max) (hstep : server.Step max server') (conn : C) :
    conn ∈ server'.conns ↔ (server'.phase conn).tracked := by
  have tracked := h.tracked
  clear h
  obtain hstep | hstep := hstep <;> cases hstep <;> grind [ConnPhase.tracked]

theorem Sound.closed_step (h : server.Sound max) (hstep : server.Step max server') (conn : C) :
    (server'.phase conn).unclosed ∨ conn ∈ server'.closedConns := by
  have closed := h.closed conn
  clear h
  obtain hstep | hstep := hstep <;> cases hstep <;> grind [ConnPhase.unclosed]

theorem Sound.reached_step (h : server.Sound max) (hstep : server.Step max server') (conn : C)
    (hconn : conn ∈ server'.conns) : server'.close.Reaches server'.closedConns conn := by
  have reached := h.reached conn
  clear h
  obtain hstep | hstep := hstep <;> cases hstep
  case inl.register conn' hphase hclosed =>
    -- Only a server that is not closed registers, and then `Close` has collected nothing.
    cases hclose : server.close <;> simp_all [ClosePhase.Reaches, ClosePhase.closed]
  all_goals grind [ClosePhase.Reaches, ClosePhase.Reaches.insert]

theorem Sound.returned_step (h : server.Sound max) (hstep : server.Step max server')
    (hclose : server'.close = .returned) : server'.wg = 0 := by
  have held := h.held
  have counted := h.counted
  have returned := h.returned
  clear h
  obtain hstep | hstep := hstep <;> cases hstep <;> grind [AcceptLoop.running, ConnPhase.inLoop]

theorem Sound.step (h : server.Sound max) (hstep : server.Step max server') : server'.Sound max where
  held := h.held_step hstep
  seen := h.seen_step hstep
  counted := h.counted_step hstep
  places := (h.places_step hstep).1
  limited := (h.places_step hstep).2
  tracked := h.tracked_step hstep
  closed := h.closed_step hstep
  reached := h.reached_step hstep
  returned := h.returned_step hstep

/-- The states a server can be in. -/
abbrev Reachable (max : ℕ) (server : Server C) : Prop :=
  Relation.ReflTransGen (Step max) (initial C) server

theorem Reachable.sound (h : server.Reachable max) : server.Sound max := by
  induction h with
  | refl =>
    constructor <;> simp [initial, ConnPhase.inLoop, total, AcceptLoop.running, ConnPhase.tracked,
      ConnPhase.unclosed]
  | tail _ hstep ih => exact ih.step hstep

omit [DecidableEq C] in
theorem eq_zero_of_total_eq_zero {f : ConnPhase → ℕ} {conns : Finset C} {phase : C → ConnPhase}
    (h : total f conns phase = 0) {conn : C} (hconn : conn ∈ conns) : f (phase conn) = 0 :=
  Finset.sum_eq_zero_iff.mp h conn hconn

omit [DecidableEq C] in
/-- When the wait group is empty, nothing runs and nothing is left open. -/
theorem Sound.of_wg_eq_zero (h : server.Sound max) (hwg : server.wg = 0) :
    server.loop = .ended ∧ server.conns = ∅ ∧
      ∀ conn ∈ server.accepted, server.phase conn = .gone ∧ conn ∈ server.closedConns := by
  have hcounted := h.counted
  have hloop : server.loop = .ended := by grind [AcceptLoop.running]
  have htotal : total ConnPhase.running server.accepted server.phase = 0 := by omega
  have hgone : ∀ conn, server.phase conn = .unseen ∨ server.phase conn = .gone := by
    intro conn
    by_contra hconn
    have hrunning := eq_zero_of_total_eq_zero htotal ((h.seen conn).mpr (by tauto))
    have hheld := h.held conn
    cases hphase : server.phase conn <;> simp_all [ConnPhase.running, ConnPhase.inLoop]
  refine ⟨hloop, Finset.eq_empty_of_forall_notMem fun conn hconn => ?_, fun conn hconn => ?_⟩
  · have htracked := (h.tracked conn).mp hconn
    rcases hgone conn with hphase | hphase <;> simp [hphase, ConnPhase.tracked] at htracked
  · have hphase := (hgone conn).resolve_left ((h.seen conn).mp hconn)
    exact ⟨hphase, (h.closed conn).resolve_left (by simp [hphase, ConnPhase.unclosed])⟩

/-! ### Shutting down without the clients -/

/-- The own steps that are left for the accept loop. -/
def loopRank : AcceptLoop C → ℕ
  | .accepting | .busy _ => 2
  | .returning => 1
  | .ended => 0

/-- The own steps that are left for a connection. -/
def connRank : ConnPhase → ℕ
  | .registered => 6
  | .accepted | .serving => 4
  | .admitted | .closing => 3
  | .rejected | .unregistering => 2
  | .dropping | .leaving => 1
  | .unseen | .gone => 0

/-- The own steps that are left for `Close`. -/
def closeRank (server : Server C) : ℕ :=
  match server.close with
  | .signalled => server.conns.card + 4
  | .collected connections => connections.card + 3
  | .closing connections => connections.card + 2
  | .waiting => 1
  | .idle | .returned => 0

def rank (server : Server C) : ℕ :=
  loopRank server.loop + total connRank server.accepted server.phase + closeRank server

/-- An own step of the server brings it nearer to the end of `Close`. -/
def Advances (max : ℕ) (server : Server C) : Prop :=
  ∃ server', server.OwnStep max server' ∧ server'.close ≠ .idle ∧ server'.rank < server.rank

/-- The goroutine of a connection that `Close` has closed gets on by itself. -/
theorem Sound.exists_step_of_running (h : server.Sound max) (hclose : server.close = .waiting)
    {conn : C} (hconn : conn ∈ server.accepted) (hrunning : (server.phase conn).running ≠ 0) :
    server.Advances max := by
  have hmoved := fun next => total_update connRank hconn server.phase next
  have htracked := h.tracked conn
  cases hphase : server.phase conn <;> simp_all only [ConnPhase.running, ne_eq, not_true, connRank]
  case serving =>
    have hclosed := h.reached conn (by simp [htracked, ConnPhase.tracked])
    rw [hclose] at hclosed
    refine ⟨_, .connFails conn hphase hclosed, ?_, ?_⟩ <;> grind [rank, closeRank]
  case closing => refine ⟨_, .closeConn conn hphase, ?_, ?_⟩ <;> grind [rank, closeRank]
  case unregistering => refine ⟨_, .unregister conn hphase, ?_, ?_⟩ <;> grind [rank, closeRank]
  case leaving => refine ⟨_, .handlerDone conn hphase, ?_, ?_⟩ <;> grind [rank, closeRank]

/-- The accept loop of a server that waits in `Close` gets on by itself. -/
theorem Sound.exists_step_of_loop (h : server.Sound max) (hclose : server.close = .waiting)
    (hloop : server.loop ≠ .ended) : server.Advances max := by
  cases hphase : server.loop with
  | accepting =>
    refine ⟨_, .acceptFails hphase (by simp [hclose, ClosePhase.listening]), ?_, ?_⟩ <;>
      grind [rank, closeRank, loopRank]
  | busy conn =>
    have hheld := (h.held conn).mpr hphase
    have hconn : conn ∈ server.accepted := (h.seen conn).mpr (by grind [ConnPhase.inLoop])
    have hmoved := fun next => total_update connRank hconn server.phase next
    cases hconn : server.phase conn <;> simp only [hconn, ConnPhase.inLoop, connRank] at hheld hmoved
    case accepted =>
      by_cases hroom : max = 0 ∨ server.sem < max
      · refine ⟨_, .enter conn hconn hroom, ?_, ?_⟩ <;> grind [rank, closeRank, connRank]
      · refine ⟨_, .refuse conn hconn (by omega) (by omega), ?_, ?_⟩ <;>
          grind [rank, closeRank, loopRank, connRank]
    case admitted =>
      refine ⟨_, .reject conn hconn (by simp [hclose, ClosePhase.closed]), ?_, ?_⟩ <;>
        grind [rank, closeRank, connRank]
    case registered =>
      refine ⟨_, .start conn hconn, ?_, ?_⟩ <;> grind [rank, closeRank, loopRank, connRank]
    case rejected => refine ⟨_, .giveBack conn hconn, ?_, ?_⟩ <;> grind [rank, closeRank, connRank]
    case dropping =>
      refine ⟨_, .drop conn hconn, ?_, ?_⟩ <;> grind [rank, closeRank, loopRank, connRank]
    all_goals cases hheld
  | returning =>
    refine ⟨_, .loopDone hphase, ?_, ?_⟩ <;> grind [rank, closeRank, loopRank]
  | ended => exact absurd hphase hloop

/-- Once `Close` is called and until it returns, the server gets on by itself. -/
theorem Sound.exists_ownStep (h : server.Sound max) (hidle : server.close ≠ .idle)
    (hreturned : server.close ≠ .returned) : server.Advances max := by
  cases hclose : server.close with
  | idle => exact absurd hclose hidle
  | signalled => refine ⟨_, .collect hclose, ?_, ?_⟩ <;> grind [rank, closeRank]
  | collected connections => refine ⟨_, .closeListener hclose, ?_, ?_⟩ <;> grind [rank, closeRank]
  | closing connections =>
    obtain rfl | ⟨conn, hconn⟩ := connections.eq_empty_or_nonempty
    · refine ⟨_, .wait hclose, ?_, ?_⟩ <;> grind [rank, closeRank]
    · refine ⟨_, .closeCollected conn hclose hconn, ?_, ?_⟩ <;> grind [rank, closeRank]
  | waiting =>
    by_cases hloop : server.loop = .ended
    · by_cases hwg : server.wg = 0
      · refine ⟨_, .closeReturns hclose hwg, ?_, ?_⟩ <;> grind [rank, closeRank]
      · have htotal : total ConnPhase.running server.accepted server.phase ≠ 0 := by
          have hcounted := h.counted
          simp only [hloop, AcceptLoop.running] at hcounted
          omega
        obtain ⟨conn, hconn, hrunning⟩ := Finset.exists_ne_zero_of_sum_ne_zero htotal
        exact h.exists_step_of_running hclose hconn hrunning
    · exact h.exists_step_of_loop hclose hloop
  | returned => exact absurd hclose hreturned

theorem Sound.exists_returned (h : server.Sound max) (hclose : server.close ≠ .idle) :
    ∃ server', Relation.ReflTransGen (OwnStep max) server server' ∧ server'.close = .returned := by
  induction hrank : server.rank using Nat.strong_induction_on generalizing server with
  | _ n ih =>
    by_cases hreturned : server.close = .returned
    · exact ⟨server, .refl, hreturned⟩
    · obtain ⟨next, hstep, hidle, hlt⟩ := h.exists_ownStep hclose hreturned
      obtain ⟨last, hrun, hlast⟩ := ih _ (hrank ▸ hlt) (h.step (.inl hstep)) hidle rfl
      exact ⟨last, .head hstep hrun, hlast⟩

/-- A run that ends while a connection is served. -/
theorem exists_serving : ∃ server : Server Bool, server.Reachable 1 ∧ server.close = .idle ∧
    server.phase true = .serving :=
  ⟨_, Relation.ReflTransGen.refl.tail (.inr (.connect true rfl rfl rfl))
    |>.tail (.inl (.enter true rfl (.inr Nat.one_pos))) |>.tail (.inl (.register true rfl rfl))
    |>.tail (.inl (.start true rfl)), rfl, rfl⟩

end Server

/-- After `Close` has returned, the accept loop and every goroutine of a connection have
ended, no connection is registered, and every connection that was ever accepted is closed. -/
theorem close_leaves_nothing_running {max : ℕ} {server : Server C} (hrun : server.Reachable max)
    (hclose : server.close = .returned) :
    server.loop = .ended ∧ server.conns = ∅ ∧
      ∀ conn ∈ server.accepted, server.phase conn = .gone ∧ conn ∈ server.closedConns :=
  hrun.sound.of_wg_eq_zero (hrun.sound.returned hclose)

theorem close_leaves_nothing_running_serving : ∃ server : Server Bool, server.Reachable 1 ∧
    server.close = .returned ∧ server.loop = .ended ∧ server.conns = ∅ := by
  obtain ⟨first, hfirst, hidle, -⟩ := Server.exists_serving
  have hcalled := hfirst.tail (.inr (.callClose hidle))
  obtain ⟨last, hrun, hlast⟩ := (Server.Reachable.sound hcalled).exists_returned (by simp)
  have hreachable : last.Reachable 1 := hcalled.trans (hrun.lift id fun _ _ => .inl)
  obtain ⟨hloop, hconns, -⟩ := close_leaves_nothing_running hreachable hlast
  exact ⟨last, hreachable, hlast, hloop, hconns⟩

/-- With a limit, at most that many connections are served at a time. -/
theorem serves_at_most_max_clients {max : ℕ} {server : Server C} (hrun : server.Reachable max)
    (hmax : 0 < max) : (server.accepted.filter (server.phase · = .serving)).card ≤ max := by
  have hplaces := hrun.sound.places
  rw [if_neg (by omega)] at hplaces
  calc (server.accepted.filter (server.phase · = .serving)).card
      = ∑ conn ∈ server.accepted, if server.phase conn = .serving then 1 else 0 :=
        Finset.card_filter _ _
    _ ≤ Server.total ConnPhase.places server.accepted server.phase := by
        refine Finset.sum_le_sum fun conn _ => ?_
        split <;> simp_all [ConnPhase.places]
    _ ≤ max := hplaces ▸ hrun.sound.limited

theorem serves_at_most_max_clients_one : ∃ server : Server Bool, server.phase true = .serving ∧
    (server.accepted.filter (server.phase · = .serving)).card ≤ 1 := by
  obtain ⟨server, hrun, -, hserving⟩ := Server.exists_serving
  exact ⟨server, hserving, serves_at_most_max_clients hrun Nat.one_pos⟩

/-- Once `Close` is called, in whatever state the clients are, the server's own steps lead
to its return: every connection that is still served has been closed by `Close`. -/
theorem close_can_return {max : ℕ} {server : Server C} (hrun : server.Reachable max)
    (hclose : server.close ≠ .idle) :
    ∃ server', Relation.ReflTransGen (Server.OwnStep max) server server' ∧
      server'.close = .returned :=
  hrun.sound.exists_returned hclose

theorem close_can_return_serving : ∃ server server' : Server Bool, server.phase true = .serving ∧
    Relation.ReflTransGen (Server.OwnStep 1) server server' ∧ server'.close = .returned := by
  obtain ⟨first, hfirst, hidle, hserving⟩ := Server.exists_serving
  obtain ⟨last, hrun, hlast⟩ := close_can_return (hfirst.tail (.inr (.callClose hidle))) (by simp)
  exact ⟨{ first with close := .signalled }, last, hserving, hrun, hlast⟩

end KVLite.Redis
