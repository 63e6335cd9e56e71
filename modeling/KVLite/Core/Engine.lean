import KVLite.Core.ListCodec
import KVLite.Semantics.Program

/-!
# The engine and the calls of the database code

The database code is a program over the calls below: the engine's four record
operations, the owner-side operations a transport can offer, the clock, the mutexes
of a handle and the test whether the handle is open. The code is written once, over
these calls, and read by the semantics each result needs.

An engine that never fails keeps its records in a sorted byte map, `Store`. It offers
none of the owner-side operations, so each of them answers with the error that makes
the caller fall back to single record operations.
-/

namespace KVLite

open Semantics Fallible BigEndian

/-- The two mutexes of a handle that its operations take. -/
inductive MutexKind
  | protocolMu
  | collectionMu
  deriving DecidableEq, Repr

/-- A mutex of one handle. -/
structure Mutex where
  handle : ℕ
  kind : MutexKind
  deriving DecidableEq, Repr

/-- A variadic Go argument: `none` is the nil slice a call without arguments passes. -/
abbrev Variadic := Option (List Bytes)

/-- The items of a variadic argument. -/
def Variadic.items (items : Variadic) : List Bytes := items.getD []

inductive Call
  | ensureOpen
  | get (key : Bytes)
  | put (key value : Bytes)
  | delete (key : Bytes)
  | scanPrefix (pre : Bytes)
  | pushList (key : Bytes) (items : List Bytes) (left : Bool)
  | addSet (name : Bytes) (members : Variadic)
  | removeSet (name : Bytes) (members : Variadic)
  | deleteHashFields (name : Bytes) (fields : Variadic)
  | replaceLogicalValue (key encoded : Bytes)
  | now
  | lock (mutex : Mutex)
  | unlock (mutex : Mutex)
  deriving DecidableEq, Repr

/-- A Go result of a count and an error, where the count also means something when
there is an error. -/
abbrev Counted := ℕ × Option GoError

/-- What a scan delivers to its callback, and the error it ends with. -/
abbrev Scanned := List (Bytes × Bytes) × Option GoError

/-- The answer to a call; `now` answers in nanoseconds since the epoch. -/
abbrev Call.Answer : Call → Type
  | .ensureOpen => Except GoError Unit
  | .get _ => Except GoError (Option Bytes)
  | .put _ _ => Except GoError Unit
  | .delete _ => Except GoError Unit
  | .scanPrefix _ => Scanned
  | .pushList _ _ _ => Except GoError ℕ
  | .addSet _ _ => Except GoError ℕ
  | .removeSet _ _ => Except GoError ℕ
  | .deleteHashFields _ _ => Except GoError ℕ
  | .replaceLogicalValue _ _ => Except GoError Unit
  | .now => ℤ
  | .lock _ => Unit
  | .unlock _ => Unit

/-- The calls of the database code. -/
abbrev Calls : Signature := ⟨Call, Call.Answer⟩

/-- A piece of database code that returns a result or an error. -/
abbrev Action (α : Type) : Type := Fallible Calls GoError α

/-! ### The calls as code -/

def ensureOpen : Action Unit := ExceptT.mk (Program.perform (S := Calls) .ensureOpen)

namespace Engine

def get (key : Bytes) : Action (Option Bytes) :=
  ExceptT.mk (Program.perform (S := Calls) (.get key))

def put (key value : Bytes) : Action Unit :=
  ExceptT.mk (Program.perform (S := Calls) (.put key value))

def delete (key : Bytes) : Action Unit :=
  ExceptT.mk (Program.perform (S := Calls) (.delete key))

/-- A prefix scan: the delivered records and the error, which the caller handles. -/
def scanPrefix (pre : Bytes) : Action Scanned :=
  ExceptT.lift (Program.perform (S := Calls) (.scanPrefix pre))

def pushList (key : Bytes) (items : List Bytes) (left : Bool) : Action ℕ :=
  ExceptT.mk (Program.perform (S := Calls) (.pushList key items left))

def replaceLogicalValue (key encoded : Bytes) : Action Unit :=
  ExceptT.mk (Program.perform (S := Calls) (.replaceLogicalValue key encoded))

end Engine

def now : Action ℤ := ExceptT.lift (Program.perform (S := Calls) .now)

/-- A pure Go function that can fail. -/
def liftExcept {α : Type} (x : Except GoError α) : Action α := ExceptT.mk (pure x)

/-- The result of `x` as a value, for a caller that looks at the error. -/
def caught {α : Type} (x : Action α) : Action (Except GoError α) := ExceptT.lift (ExceptT.run x)

/-- `_ = x`: the error of `x` is dropped. -/
def ignoringError {α : Type} (x : Action α) : Action Unit := do
  let _ ← caught x
  return ()

/-- `mutex.Lock(); defer mutex.Unlock()` around the rest of a function. -/
def locked {α : Type} (mutex : Mutex) (p : Program Calls α) : Program Calls α := do
  Program.perform (S := Calls) (.lock mutex)
  let result ← p
  Program.perform (S := Calls) (.unlock mutex)
  return result

@[inherit_doc locked]
def withLock {α : Type} (mutex : Mutex) (x : Action α) : Action α :=
  ExceptT.mk (locked mutex (ExceptT.run x))

/-- The error of a Go function wrapped by its caller. -/
def wrapping {α : Type} (context : String) (x : Action α) : Action α :=
  ExceptT.mk do
    let result ← ExceptT.run x
    return result.mapError (GoError.wrap (text context))

/-- A loop of `Delete` calls that ends at the first error. -/
def deleteEach : List Bytes → Action Unit
  | [] => return ()
  | key :: keys => do
    Engine.delete key
    deleteEach keys

/-- A loop of `Delete` calls whose errors are dropped. -/
def deleteEachIgnoringErrors : List Bytes → Action Unit
  | [] => return ()
  | key :: keys => do
    ignoringError (Engine.delete key)
    deleteEachIgnoringErrors keys

/-- The expiry test of a reader, which looks at the clock only when the record has a
deadline. -/
def expiredNow (expiresAt : ℤ) : Action Bool := do
  if expiresAt > 0 then
    return wrapInt64 (← now) ≥ expiresAt
  else
    return false

/-! ### The byte map -/

/-- The records of an engine, sorted by key. -/
abbrev Store := Std.ExtTreeMap Bytes Bytes compare

namespace Store

theorem getElem?_insert (s : Store) (key value key' : Bytes) :
    (s.insert key value)[key']? = if key = key' then some value else s[key']? := by
  rw [Std.ExtTreeMap.getElem?_insert]
  simp only [Std.LawfulEqCmp.compare_eq_iff_eq]

theorem getElem?_erase (s : Store) (key key' : Bytes) :
    (s.erase key)[key']? = if key = key' then none else s[key']? := by
  rw [Std.ExtTreeMap.getElem?_erase]
  simp only [Std.LawfulEqCmp.compare_eq_iff_eq]

theorem getElem?_insert_of_ne (s : Store) {key key' : Bytes} (value : Bytes) (h : key ≠ key') :
    (s.insert key value)[key']? = s[key']? := by
  simp [getElem?_insert, h]

theorem getElem?_of_erase {s : Store} {key key' data : Bytes}
    (h : (s.erase key)[key']? = some data) : s[key']? = some data := by
  rw [getElem?_erase] at h
  split at h
  · cases h
  · exact h

theorem getElem?_erase_of_ne (s : Store) {key key' : Bytes} (h : key ≠ key') :
    (s.erase key)[key']? = s[key']? := by
  simp [getElem?_erase, h]

/-- The store without the given keys. -/
def eraseAll (s : Store) (keys : List Bytes) : Store := keys.foldl (fun s key => s.erase key) s

@[simp] theorem eraseAll_nil (s : Store) : s.eraseAll [] = s := rfl

@[simp] theorem eraseAll_cons (s : Store) (key : Bytes) (keys : List Bytes) :
    s.eraseAll (key :: keys) = Store.eraseAll (s.erase key) keys := rfl

theorem getElem?_eraseAll (s : Store) (keys : List Bytes) (key : Bytes) :
    (s.eraseAll keys)[key]? = if key ∈ keys then none else s[key]? := by
  induction keys generalizing s with
  | nil => simp
  | cons head keys ih =>
    rw [eraseAll_cons, ih, getElem?_erase]
    by_cases hmem : key ∈ keys
    · simp [hmem]
    · by_cases hhead : head = key
      · simp [hhead]
      · simp [hmem, hhead, Ne.symm hhead]

/-- The records under a prefix, in key order. -/
def scan (s : Store) (pre : Bytes) : List (Bytes × Bytes) :=
  s.toList.filter fun record => pre.isPrefixOf record.1

theorem mem_scan {s : Store} {pre : Bytes} {record : Bytes × Bytes} :
    record ∈ s.scan pre ↔ pre <+: record.1 ∧ s[record.1]? = some record.2 := by
  rw [scan, List.mem_filter, List.isPrefixOf_iff_prefix,
    Std.ExtTreeMap.mem_toList_iff_getElem?_eq_some]
  exact and_comm

theorem mem_map_fst_scan {s : Store} {pre key : Bytes} :
    key ∈ (s.scan pre).map Prod.fst ↔ pre <+: key ∧ (s[key]?).isSome := by
  rw [List.mem_map, Option.isSome_iff_exists]
  constructor
  · rintro ⟨record, hmem, rfl⟩
    obtain ⟨hpre, hget⟩ := mem_scan.mp hmem
    exact ⟨hpre, record.2, hget⟩
  · rintro ⟨hpre, value, hget⟩
    exact ⟨(key, value), mem_scan.mpr ⟨hpre, hget⟩, rfl⟩

theorem nodup_map_fst_scan (s : Store) (pre : Bytes) : ((s.scan pre).map Prod.fst).Nodup := by
  have hdistinct := s.distinct_keys_toList.sublist
    (List.filter_sublist (p := fun record => pre.isPrefixOf record.1))
  rw [List.Nodup, List.pairwise_map]
  refine List.Pairwise.imp (fun {a b} hne heq => hne ?_) hdistinct
  rw [heq]
  exact Std.ReflCmp.compare_self

theorem pairwise_scan (s : Store) (pre : Bytes) :
    (s.scan pre).Pairwise fun a b => compare a.1 b.1 = .lt :=
  s.ordered_keys_toList.sublist List.filter_sublist

/-- Two listings that are sorted by key and have the same members are equal. -/
theorem eq_of_pairwise {α : Type} {key : α → Bytes} {records records' : List α}
    (h : records.Pairwise fun a b => compare (key a) (key b) = .lt)
    (h' : records'.Pairwise fun a b => compare (key a) (key b) = .lt)
    (hmem : ∀ record, record ∈ records ↔ record ∈ records') : records = records' := by
  have hne : ∀ {a b : α}, compare (key a) (key b) = .lt → a ≠ b := by
    rintro a _ hcompare rfl
    simp at hcompare
  refine List.Perm.eq_of_pairwise (fun a b _ _ hab hba => ?_) h h' ?_
  · exact absurd hba (Std.OrientedCmp.not_lt_of_lt hab)
  · exact (List.perm_ext_iff_of_nodup (h.imp hne) (h'.imp hne)).mpr hmem

/-- A scan after a removal delivers the records that were not removed. -/
theorem scan_eraseAll (s : Store) (keys : List Bytes) (pre : Bytes) :
    (s.eraseAll keys).scan pre = (s.scan pre).filter fun record => record.1 ∉ keys := by
  apply eq_of_pairwise (pairwise_scan _ _) ((pairwise_scan s pre).sublist List.filter_sublist)
  intro record
  rw [mem_scan, List.mem_filter, mem_scan, getElem?_eraseAll, decide_eq_true_eq]
  by_cases hmem : record.1 ∈ keys <;> simp [hmem]

theorem scan_eq_nil_iff {s : Store} {pre : Bytes} :
    s.scan pre = [] ↔ ∀ key, pre <+: key → s[key]? = none := by
  rw [List.eq_nil_iff_forall_not_mem]
  constructor
  · intro h key hpre
    by_contra hsome
    obtain ⟨value, hget⟩ := Option.ne_none_iff_exists'.mp hsome
    exact h (key, value) (mem_scan.mpr ⟨hpre, hget⟩)
  · intro h record hmem
    obtain ⟨hpre, hget⟩ := mem_scan.mp hmem
    simp [h _ hpre] at hget

end Store

/-! ### An engine that never fails -/

/-- The handler of an embedded engine that never fails, with the clock at `time`. -/
def embedded (time : ℤ) : Handler Calls Store
  | .ensureOpen, s => (.ok (), s)
  | .get key, s => (.ok s[key]?, s)
  | .put key value, s => (.ok (), s.insert key value)
  | .delete key, s => (.ok (), s.erase key)
  | .scanPrefix pre, s => ((s.scan pre, none), s)
  | .pushList _ _ _, s => (.error (.of .atomicListPushUnsupported), s)
  | .addSet _ _, s => (.error (.of .atomicSetAddUnsupported), s)
  | .removeSet _ _, s => (.error (.of .atomicSetRemoveUnsupported), s)
  | .deleteHashFields _ _, s => (.error (.of .atomicHashDeleteUnsupported), s)
  | .replaceLogicalValue _ _, s => (.error (.of .atomicReplaceUnsupported), s)
  | .now, s => (time, s)
  | .lock _, s => ((), s)
  | .unlock _, s => ((), s)

/-- The same engine when a clock reading may be any of `times`. -/
def embeddedAt (times : ℤ → Prop) : Program.Environment Calls Store where
  admits
    | .now, post, s => ∀ time, times time → post time s
    | request, post, s => post (embedded 0 request s).1 (embedded 0 request s).2
  mono request P Q s weaken holds := by
    cases request with
    | now => exact fun time htime => weaken _ _ (holds time htime)
    | _ => exact weaken _ _ holds

section Run

variable {α : Type} {time : ℤ} {s : Store} {key value pre : Bytes}

@[simp] theorem run_ensureOpen : run (embedded time) ensureOpen s = (.ok (), s) := rfl

@[simp] theorem run_get :
    run (embedded time) (Engine.get key) s = (.ok s[key]?, s) := rfl

@[simp] theorem run_put :
    run (embedded time) (Engine.put key value) s = (.ok (), s.insert key value) := rfl

@[simp] theorem run_delete :
    run (embedded time) (Engine.delete key) s = (.ok (), s.erase key) := rfl

@[simp] theorem run_scanPrefix :
    run (embedded time) (Engine.scanPrefix pre) s = (.ok (s.scan pre, none), s) := rfl

@[simp] theorem run_now : run (embedded time) now s = (.ok time, s) := rfl

@[simp] theorem run_expiredNow (expiresAt : ℤ) :
    run (embedded time) (expiredNow expiresAt) s =
      (.ok (expiresAt > 0 && wrapInt64 time ≥ expiresAt), s) := by
  unfold expiredNow
  by_cases h : expiresAt > 0
  · simp [h, Except.map]
  · simp [h]

section Handler

variable {σ : Type} {handler : Handler Calls σ} {state : σ}

@[simp] theorem run_liftExcept (x : Except GoError α) :
    run handler (liftExcept x) state = (x, state) := rfl

@[simp] theorem run_caught (x : Action α) :
    run handler (caught x) state =
      (.ok (run handler x state).1, (run handler x state).2) := by
  rw [caught, run_lift]
  rfl

@[simp] theorem run_ignoringError (x : Action α) :
    run handler (ignoringError x) state = (.ok (), (run handler x state).2) := by
  rw [ignoringError, run_bind_ok (run_caught x)]
  rfl

@[simp] theorem run_wrapping (context : String) (x : Action α) :
    run handler (wrapping context x) state =
      ((run handler x state).1.mapError (GoError.wrap (text context)),
        (run handler x state).2) := by
  rw [wrapping, run_mk, Program.run_bind]
  rfl

end Handler

section Environment

variable {σ : Type} {E : Program.Environment Calls σ} {state : σ} {fail : GoError → σ → Prop}

theorem ensures_caught {x : Action α} {post : Except GoError α → σ → Prop}
    (h : Ensures E x state (fun result => post (.ok result)) fun err => post (.error err)) :
    Ensures E (caught x) state post fail := by
  refine (ensures_lift _).mpr (Program.wp_mono (fun result state' hresult => ?_) h)
  cases result <;> exact hresult

theorem ensures_ignoringError {x : Action α} {post : Unit → σ → Prop}
    (h : Ensures E x state (fun _ => post ()) (fun _ => post ())) :
    Ensures E (ignoringError x) state post fail :=
  .seq (ensures_caught h)

theorem ensures_wrapping {context : String} {x : Action α} {post : α → σ → Prop}
    (h : Ensures E x state post fun err => fail (err.wrap (text context))) :
    Ensures E (wrapping context x) state post fail := by
  refine (Program.wp_bind _ _ _ _).mpr (Program.wp_mono (fun result state' hresult => ?_) h)
  cases result <;> exact hresult

end Environment

@[simp] theorem run_locked (mutex : Mutex) (p : Program Calls α) :
    (locked mutex p).run (embedded time) s = p.run (embedded time) s := by
  rw [locked, Program.perform_bind, Program.run_call, Program.run_bind]
  rfl

@[simp] theorem run_withLock (mutex : Mutex) (x : Action α) :
    run (embedded time) (withLock mutex x) s = run (embedded time) x s := by
  rw [withLock, run_mk, run_locked]
  rfl

@[simp] theorem run_deleteEach (keys : List Bytes) :
    run (embedded time) (deleteEach keys) s = (.ok (), s.eraseAll keys) := by
  induction keys generalizing s with
  | nil => rfl
  | cons key keys ih => rw [deleteEach, run_bind_ok run_delete, ih, Store.eraseAll_cons]

@[simp] theorem run_deleteEachIgnoringErrors (keys : List Bytes) :
    run (embedded time) (deleteEachIgnoringErrors keys) s =
      (.ok (), s.eraseAll keys) := by
  induction keys generalizing s with
  | nil => rfl
  | cons key keys ih =>
    rw [deleteEachIgnoringErrors, run_bind_ok (run_ignoringError _), run_delete, ih,
      Store.eraseAll_cons]

end Run

end KVLite
