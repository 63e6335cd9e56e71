import KVLite.Core.Collections

/-!
# The record store of the protocol extensions

The view of a handle that the HTTP and the Redis extension work on: the engine's
record operations, each behind a test that the handle is open.
-/

namespace KVLite.Transport

open Semantics Fallible

def get (key : Bytes) : Action (Option Bytes) := do
  ensureOpen
  Engine.get key

def put (key value : Bytes) : Action Unit := do
  ensureOpen
  Engine.put key value

def delete (key : Bytes) : Action Unit := do
  ensureOpen
  Engine.delete key

def scanPrefix (pre : Bytes) : Action Scanned := do
  ensureOpen
  Engine.scanPrefix pre

/-- A scan whose callback collects the records: those delivered, or the error. -/
def scanAll (pre : Bytes) : Action (List (Bytes × Bytes)) := do
  let (records, err) ← scanPrefix pre
  match err with
  | none => return records
  | some err => throw err

def pushList {V T : Type} (db : DB V T) (key : Bytes) (items : List Bytes) (left : Bool) :
    Action ℕ := do
  ensureOpen
  db.pushEncodedList key items left

def deleteLogicalKey (key : Bytes) : Action Bool := do
  ensureOpen
  KVLite.deleteLogicalKey key

/-- A loop of deletes that ends at the first error. -/
def deleteEach : List Bytes → Action Unit
  | [] => return ()
  | key :: keys => do
    delete key
    deleteEach keys

section Run

variable {time : ℤ} {s : Store} {key value pre : Bytes}

@[simp] theorem run_get : run (embedded time) (get key) s = (.ok s[key]?, s) := rfl

@[simp] theorem run_put :
    run (embedded time) (put key value) s = (.ok (), s.insert key value) := rfl

@[simp] theorem run_delete :
    run (embedded time) (delete key) s = (.ok (), s.erase key) := rfl

@[simp] theorem run_scanPrefix :
    run (embedded time) (scanPrefix pre) s = (.ok (s.scan pre, none), s) := rfl

@[simp] theorem run_scanAll :
    run (embedded time) (scanAll pre) s = (.ok (s.scan pre), s) := rfl

@[simp] theorem run_deleteEach (keys : List Bytes) :
    run (embedded time) (deleteEach keys) s = (.ok (), s.eraseAll keys) := by
  induction keys generalizing s with
  | nil => rfl
  | cons key keys ih => rw [deleteEach, run_bind_ok run_delete, ih, Store.eraseAll_cons]

end Run

end KVLite.Transport
