import KVLite.Core.Collections

/-!
# The operations of a handle

One request is one call of a public operation of the database handle. The results of
the operations differ in type, so a request determines the type of its answer.
`ticking` is the embedded engine that never fails with any sequence of clock readings:
the readings inside one request may differ.
-/

namespace KVLite

open Semantics

/-- A call of an operation on a handle for values `V` and decode targets `T`. -/
inductive Request (V T : Type)
  | put (key : Bytes) (value : V) (options : PutOptions)
  | putBytes (key value : Bytes) (options : PutOptions)
  | putStoredValue (key codec value : Bytes) (options : PutOptions)
  | get (key : Bytes) (target : T)
  | getBytes (key : Bytes)
  | getStoredValue (key : Bytes)
  | has (key : Bytes)
  | delete (key : Bytes)
  | hSet (name field : Bytes) (value : V) (options : PutOptions)
  | hGet (name field : Bytes) (target : T)
  | hDelete (name : Bytes) (fields : Variadic)
  | hGetAll (name : Bytes) (target : Option T)
  | sAdd (name : Bytes) (members : Variadic)
  | sRemove (name : Bytes) (members : Variadic)
  | sContains (name member : Bytes)
  | sMembers (name : Bytes)
  | rPush (name : Bytes) (values : List V)
  | lPush (name : Bytes) (values : List V)
  | lRange (name : Bytes) (start stop : ℤ) (target : Option T)

/-- The Go results of a request. -/
abbrev Request.Answer {V T : Type} : Request V T → Type
  | .put .. | .putBytes .. | .putStoredValue .. | .delete .. | .hSet .. => Except GoError Unit
  | .get .. | .hGet .. => Except GoError V
  | .getBytes _ => Except GoError Bytes
  | .getStoredValue _ => Except GoError StoredValue
  | .has _ | .sContains .. => Except GoError Bool
  | .hDelete .. | .sAdd .. | .sRemove .. => Counted
  | .hGetAll .. => Except GoError (List (Bytes × V))
  | .sMembers _ => Except GoError (List Bytes × Option GoError)
  | .rPush .. | .lPush .. => Except GoError ℕ
  | .lRange .. => Except GoError (List V)

/-- The code of a request on a handle. -/
def DB.serve {V T : Type} (db : DB V T) : (request : Request V T) → Program Calls request.Answer
  | .put key value options => ExceptT.run (db.put key value options)
  | .putBytes key value options => ExceptT.run (db.putBytes key value options)
  | .putStoredValue key codec value options =>
    ExceptT.run (db.putStoredValue key codec value options)
  | .get key target => ExceptT.run (db.get key target)
  | .getBytes key => ExceptT.run (db.getBytes key)
  | .getStoredValue key => ExceptT.run (db.getStoredValue key)
  | .has key => ExceptT.run (db.has key)
  | .delete key => ExceptT.run (db.delete key)
  | .hSet name field value options => ExceptT.run (db.hSet name field value options)
  | .hGet name field target => ExceptT.run (db.hGet name field target)
  | .hDelete name fields => db.hDelete name fields
  | .hGetAll name target => ExceptT.run (db.hGetAll name target)
  | .sAdd name members => db.sAdd name members
  | .sRemove name members => db.sRemove name members
  | .sContains name member => ExceptT.run (DB.sContains name member)
  | .sMembers name => ExceptT.run (DB.sMembers name)
  | .rPush name values => ExceptT.run (db.rPush name values)
  | .lPush name values => ExceptT.run (db.lPush name values)
  | .lRange name start stop target => ExceptT.run (db.lRange name start stop target)

/-- The engine that never fails, with the clock readings `clock 0`, `clock 1` and so on:
the state is the number of the next reading and the store. -/
def ticking (clock : ℕ → ℤ) : Handler Calls (ℕ × Store)
  | .now, (tick, s) => (clock tick, (tick + 1, s))
  | request, (tick, s) => ((embedded 0 request s).1, (tick, (embedded 0 request s).2))

/-- What holds for all clock readings from now on holds for a given sequence of them. -/
theorem run_ticking_of_wp {α : Type} (times : ℤ → Prop) {clock : ℕ → ℤ} {p : Program Calls α}
    {post : α → Store → Prop} {tick : ℕ} {s : Store} (htimes : ∀ n ≥ tick, times (clock n))
    (h : p.wp (embeddedAt times) post s) :
    post (p.run (ticking clock) (tick, s)).1 (p.run (ticking clock) (tick, s)).2.2 := by
  induction p generalizing tick s with
  | done value => exact h
  | call request rest ih =>
    cases request with
    | now =>
      exact ih (clock tick) (fun n hn => htimes n (by omega)) (h (clock tick) (htimes tick le_rfl))
    | _ => exact ih _ htimes h

/-- Code that does not look at the clock runs as under a clock that stands still. -/
theorem run_ticking_of_uses {α : Type} {clock : ℕ → ℤ} {p : Program Calls α}
    (hp : p.Uses fun call : Call => call ≠ .now) (tick : ℕ) (s : Store) :
    p.run (ticking clock) (tick, s) =
      ((p.run (embedded 0) s).1, (tick, (p.run (embedded 0) s).2)) := by
  induction p generalizing s with
  | done value => rfl
  | call request rest ih =>
    -- Every call but `now` answers as the embedded engine does.
    cases request with
    | now => exact absurd rfl hp.1
    | _ => exact ih _ (hp.2 _) _

/-- A clock that stands still. -/
theorem run_ticking_const {α : Type} (time : ℤ) (p : Program Calls α) (tick : ℕ) (s : Store) :
    (p.run (ticking fun _ => time) (tick, s)).1 = (p.run (embedded time) s).1 ∧
      (p.run (ticking fun _ => time) (tick, s)).2.2 = (p.run (embedded time) s).2 := by
  induction p generalizing tick s with
  | done value => exact ⟨rfl, rfl⟩
  | call request rest ih => cases request <;> exact ih _ _ _

end KVLite
