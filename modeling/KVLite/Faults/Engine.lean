import KVLite.Core.Collections

/-!
# An engine whose calls may fail

The engine calls of an operation are numbered from the start of a run, and a plan
says which of them fail and with which error. A failing call has no effect; a
failing scan may have delivered some records first. Closing the handle shows up as
calls that fail with the closed error and as a closed flag between calls.
-/

namespace KVLite

open Semantics Fallible

/-- The failure of one engine call: its error, and how many records a scan delivers
before it fails. -/
structure Fault where
  err : GoError
  delivered : ℕ
  deriving DecidableEq, Repr

/-- Which numbered engine calls fail, and whether the handle is closed when that many
calls have been made. -/
structure FaultPlan where
  fault : ℕ → Option Fault
  closed : ℕ → Bool

/-- A store with the number of engine calls made on it. -/
structure FaultState where
  calls : ℕ
  store : Store

namespace FaultPlan

variable (plan : FaultPlan)

/-- One engine call that follows the plan. -/
def attempt {α : Type} (st : FaultState) (effect : Store → α × Store) :
    Except GoError α × FaultState :=
  match plan.fault st.calls with
  | some fault => (.error fault.err, ⟨st.calls + 1, st.store⟩)
  | none => (.ok (effect st.store).1, ⟨st.calls + 1, (effect st.store).2⟩)

/-- A test of the closed flag, which makes no engine call. -/
def whileOpen {α : Type} (st : FaultState) (result : Except GoError α) :
    Except GoError α × FaultState :=
  (if plan.closed st.calls then .error (.of .closed) else result, st)

/-- What the numbered scan delivers of the records under its prefix. -/
def delivered (call : ℕ) (records : List (Bytes × Bytes)) : List (Bytes × Bytes) :=
  match plan.fault call with
  | some fault => records.take fault.delivered
  | none => records

end FaultPlan

/-- The handler of an embedded engine whose calls fail by plan, with the clock at
`time`. -/
def faulty (plan : FaultPlan) (time : ℤ) : Handler Calls FaultState
  | .ensureOpen, st => plan.whileOpen st (.ok ())
  | .get key, st => plan.attempt st fun s => (s[key]?, s)
  | .put key value, st => plan.attempt st fun s => ((), s.insert key value)
  | .delete key, st => plan.attempt st fun s => ((), s.erase key)
  | .scanPrefix pre, st =>
    ((plan.delivered st.calls (st.store.scan pre), (plan.fault st.calls).map Fault.err),
      ⟨st.calls + 1, st.store⟩)
  | .pushList _ _ _, st => plan.whileOpen st (.error (.of .atomicListPushUnsupported))
  | .addSet _ _, st => plan.whileOpen st (.error (.of .atomicSetAddUnsupported))
  | .removeSet _ _, st => plan.whileOpen st (.error (.of .atomicSetRemoveUnsupported))
  | .deleteHashFields _ _, st => plan.whileOpen st (.error (.of .atomicHashDeleteUnsupported))
  | .replaceLogicalValue _ _, st => plan.whileOpen st (.error (.of .atomicReplaceUnsupported))
  | .now, st => (time, st)
  | .lock _, st => ((), st)
  | .unlock _, st => ((), st)

/-- The error of a status code returned by a module's library; status zero is success. -/
def nativeModuleStatusError (status : ℤ) (message operation : Bytes) : Option GoError :=
  if status = 0 then
    none
  else
    let message :=
      if message = [] then
        text "module " ++ operation ++ text " failed with status " ++ text (toString status)
      else
        message
    if status = 1 then some (.detail .notFound message)
    else if status = 2 then some (.detail .invalidArgument message)
    else some (.detail .driverUnavailable message)

section Run

variable {α : Type} {plan : FaultPlan} {time : ℤ} {st : FaultState}

theorem run_ensureOpen_faulty (hopen : plan.closed st.calls = false) :
    run (faulty plan time) ensureOpen st = (.ok (), st) := by
  change plan.whileOpen st (.ok ()) = _
  rw [FaultPlan.whileOpen, hopen]
  rfl

theorem run_now_faulty : run (faulty plan time) now st = (.ok time, st) := rfl

theorem run_withLock_faulty (mutex : Mutex) (x : Action α) :
    run (faulty plan time) (withLock mutex x) st =
      run (faulty plan time) x st := by
  rw [withLock, run_mk, locked, Program.perform_bind, Program.run_call, Program.run_bind]
  rfl

theorem run_wrapping_faulty (context : String) (x : Action α) :
    run (faulty plan time) (wrapping context x) st =
      ((run (faulty plan time) x st).1.mapError (GoError.wrap (text context)),
        (run (faulty plan time) x st).2) := by
  rw [wrapping, run_mk, Program.run_bind]
  rfl

variable {calls : ℕ} {s : Store} {fault : Fault}

theorem run_get_of_none {key : Bytes} (h : plan.fault calls = none) :
    run (faulty plan time) (Engine.get key) ⟨calls, s⟩ =
      (.ok s[key]?, ⟨calls + 1, s⟩) := by
  change plan.attempt ⟨calls, s⟩ (fun s => (s[key]?, s)) = _
  simp only [FaultPlan.attempt, h]

theorem run_get_of_fault {key : Bytes} (h : plan.fault calls = some fault) :
    run (faulty plan time) (Engine.get key) ⟨calls, s⟩ =
      (.error fault.err, ⟨calls + 1, s⟩) := by
  change plan.attempt ⟨calls, s⟩ (fun s => (s[key]?, s)) = _
  simp only [FaultPlan.attempt, h]

theorem run_put_of_none {key value : Bytes} (h : plan.fault calls = none) :
    run (faulty plan time) (Engine.put key value) ⟨calls, s⟩ =
      (.ok (), ⟨calls + 1, s.insert key value⟩) := by
  change plan.attempt ⟨calls, s⟩ (fun s => ((), s.insert key value)) = _
  simp only [FaultPlan.attempt, h]

theorem run_put_of_fault {key value : Bytes} (h : plan.fault calls = some fault) :
    run (faulty plan time) (Engine.put key value) ⟨calls, s⟩ =
      (.error fault.err, ⟨calls + 1, s⟩) := by
  change plan.attempt ⟨calls, s⟩ (fun s => ((), s.insert key value)) = _
  simp only [FaultPlan.attempt, h]

theorem run_delete_of_none {key : Bytes} (h : plan.fault calls = none) :
    run (faulty plan time) (Engine.delete key) ⟨calls, s⟩ =
      (.ok (), ⟨calls + 1, s.erase key⟩) := by
  change plan.attempt ⟨calls, s⟩ (fun s => ((), s.erase key)) = _
  simp only [FaultPlan.attempt, h]

theorem run_delete_of_fault {key : Bytes} (h : plan.fault calls = some fault) :
    run (faulty plan time) (Engine.delete key) ⟨calls, s⟩ =
      (.error fault.err, ⟨calls + 1, s⟩) := by
  change plan.attempt ⟨calls, s⟩ (fun s => ((), s.erase key)) = _
  simp only [FaultPlan.attempt, h]

end Run

/-! ### The records of a logical key -/

namespace FaultPlan

variable (plan : FaultPlan)

/-- The keys the removal of a logical key collects when its first engine call has
number `call`. -/
def collected (call : ℕ) (key : Bytes) (s : Store) : List Bytes :=
  exactKeys key s ++
    (plan.delivered (call + 3) (s.scan (namespacePrefix kindHash key))).map Prod.fst ++
    (plan.delivered (call + 4) (s.scan (namespacePrefix kindSet key))).map Prod.fst

/-- The engine call `n` of a removal that starts at `call` fails and its error is
reported: the removal passes over a failing scan whose driver is unavailable. -/
def ReportsAt (call n : ℕ) : Prop :=
  ∃ fault, plan.fault n = some fault ∧
    ¬ ((n = call + 3 ∨ n = call + 4) ∧ fault.err.is .driverUnavailable = true)

/-- One of the five reads of a removal that starts at `call` fails with a reported
error. -/
def ReadFails (call : ℕ) : Prop := ∃ n, call ≤ n ∧ n < call + 5 ∧ plan.ReportsAt call n

end FaultPlan

end KVLite
