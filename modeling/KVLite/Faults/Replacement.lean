import KVLite.Faults.Removal
import KVLite.Http.Server
import KVLite.Redis.Strings

/-!
# Replacement of a scalar value when engine calls fail

Every replacement of a scalar removes the records of the key first, the old value
before the others, and writes the new value last. A failure before the old value is
deleted leaves the store as it was; a failure after that leaves the key without its
old value.
-/

namespace KVLite

open Semantics Fallible

/-- If `x` ends with an error, the key still has the value record `data`. -/
def KeptOnError {ε α : Type} (plan : FaultPlan) (time : ℤ) (key data : Bytes)
    (x : Fallible Calls ε α) (st : FaultState) : Prop :=
  ∀ err st', run (faulty plan time) x st = (.error err, st') →
    st'.store[valueKey key]? = some data

section Rules

variable {ε α β : Type} {plan : FaultPlan} {time : ℤ} {key data : Bytes} {st : FaultState}

theorem keptOnError_of_ok {x : Fallible Calls ε α} {value : α} {st' : FaultState}
    (h : run (faulty plan time) x st = (.ok value, st')) :
    KeptOnError plan time key data x st := by
  intro err st'' h'
  rw [h] at h'
  cases h'

theorem keptOnError_iff_of_error {x : Fallible Calls ε α} {err : ε} {st' : FaultState}
    (h : run (faulty plan time) x st = (.error err, st')) :
    KeptOnError plan time key data x st ↔ st'.store[valueKey key]? = some data := by
  constructor
  · exact fun hkept => hkept err st' h
  · intro hdata err' st'' h'
    rw [h] at h'
    cases h'
    exact hdata

theorem keptOnError_bind_of_ok {x : Fallible Calls ε α} {f : α → Fallible Calls ε β} {value : α}
    {st' : FaultState} (h : run (faulty plan time) x st = (.ok value, st')) :
    KeptOnError plan time key data (x >>= f) st ↔ KeptOnError plan time key data (f value) st' := by
  unfold KeptOnError
  rw [run_bind_ok h]

theorem keptOnError_bind_of_error {x : Fallible Calls ε α} {f : α → Fallible Calls ε β} {err : ε}
    {st' : FaultState} (h : run (faulty plan time) x st = (.error err, st')) :
    KeptOnError plan time key data (x >>= f) st ↔ st'.store[valueKey key]? = some data :=
  keptOnError_iff_of_error (run_bind_error h)

/-- What follows `x` does not matter where it never fails. -/
theorem keptOnError_bind_pure {x : Fallible Calls ε α} {f : α → β} :
    KeptOnError plan time key data (x >>= fun value => pure (f value)) st ↔
      KeptOnError plan time key data x st := by
  cases h : run (faulty plan time) x st with
  | mk result st' =>
    cases result with
    | ok value =>
      rw [keptOnError_bind_of_ok h]
      exact iff_of_true (keptOnError_of_ok (run_pure _)) (keptOnError_of_ok h)
    | error err => rw [keptOnError_bind_of_error h, keptOnError_iff_of_error h]

theorem keptOnError_withLock {mutex : Mutex} {x : Action α} :
    KeptOnError plan time key data (withLock mutex x) st ↔ KeptOnError plan time key data x st := by
  unfold KeptOnError
  rw [run_withLock_faulty]

/-- Renaming the errors of an operation does not change what it keeps. -/
theorem keptOnError_mapError {ε' : Type} {x : Fallible Calls ε α} {y : Fallible Calls ε' α}
    {g : ε → ε'}
    (h : run (faulty plan time) y st =
      ((run (faulty plan time) x st).1.mapError g,
        (run (faulty plan time) x st).2)) :
    KeptOnError plan time key data y st ↔ KeptOnError plan time key data x st := by
  cases hx : run (faulty plan time) x st with
  | mk result st' =>
    rw [hx] at h
    cases result with
    | ok value => exact iff_of_true (keptOnError_of_ok h) (keptOnError_of_ok hx)
    | error err => rw [keptOnError_iff_of_error h, keptOnError_iff_of_error hx]

theorem keptOnError_wrapping {context : String} {x : Action α} :
    KeptOnError plan time key data (wrapping context x) st ↔
      KeptOnError plan time key data x st :=
  keptOnError_mapError (run_wrapping_faulty context x)

theorem keptOnError_bind_mapError {ε' : Type} {x : Fallible Calls ε α} {y : Fallible Calls ε' α}
    {g : ε → ε'} {f : α → Fallible Calls ε β} {f' : α → Fallible Calls ε' β}
    (h : run (faulty plan time) y st =
      ((run (faulty plan time) x st).1.mapError g,
        (run (faulty plan time) x st).2))
    (hf : ∀ value st', KeptOnError plan time key data (f' value) st' ↔
      KeptOnError plan time key data (f value) st') :
    KeptOnError plan time key data (y >>= f') st ↔ KeptOnError plan time key data (x >>= f) st := by
  cases hx : run (faulty plan time) x st with
  | mk result st' =>
    rw [hx] at h
    cases result with
    | ok value => rw [keptOnError_bind_of_ok hx, keptOnError_bind_of_ok h, hf]
    | error err => rw [keptOnError_bind_of_error hx, keptOnError_bind_of_error h]

/-- Code that only reads the clock behaves as it does without faults. -/
theorem run_onlyReadsClock {x : Action α} (hx : OnlyReadsClock x) :
    run (faulty plan time) x st = (atTime time x, st) := by
  refine Program.run_eq_of_uses (fun request hrequest state state' => ?_) hx st ∅
  subst hrequest
  exact ⟨rfl, rfl, rfl⟩

end Rules

/-! ### Removal of a key that has a value -/

section Removal

variable {α : Type} {plan : FaultPlan} {time : ℤ} {key data : Bytes} {st : FaultState}

/-- The value is the first key a removal collects. -/
theorem collected_eq_cons (plan : FaultPlan) (call : ℕ) {s : Store}
    (hvalue : s[valueKey key]? = some data) :
    ∃ rest, plan.collected call key s = valueKey key :: rest := by
  rw [FaultPlan.collected, exactKeys, List.filter_cons, hvalue, Option.isSome_some,
    if_pos rfl]
  exact ⟨_, rfl⟩

/-- A removal that starts at `call` fails before it has deleted the value: at a read
or at the first delete. -/
def FaultPlan.FailsEarly (plan : FaultPlan) (call : ℕ) : Prop :=
  plan.ReadFails call ∨ plan.fault (call + 5) ≠ none

variable (time) in
theorem run_deleteLogicalKey_of_failsEarly (hvalue : st.store[valueKey key]? = some data)
    (h : plan.FailsEarly st.calls) :
    ∃ err calls, run (faulty plan time) (deleteLogicalKey key) st =
      (.error err, ⟨calls, st.store⟩) := by
  by_cases hreads : plan.ReadFails st.calls
  · exact run_deleteLogicalKey_of_readFails time st hreads
  · obtain ⟨fault, hfault⟩ := Option.ne_none_iff_exists'.mp (h.resolve_left hreads)
    obtain ⟨rest, hrest⟩ := collected_eq_cons plan st.calls hvalue
    rw [run_deleteLogicalKey_of_reads hreads, hrest, deleteEach]
    have hdelete : run (faulty plan time) (Engine.delete (valueKey key))
        ⟨st.calls + 5, st.store⟩ = (.error fault.err, ⟨st.calls + 5 + 1, st.store⟩) :=
      run_delete_of_fault hfault
    rw [run_bind_error (run_bind_error hdelete)]
    exact ⟨_, _, rfl⟩

/-- A removal that starts at `call` fails after it has deleted the value. -/
def FaultPlan.FailsLate (plan : FaultPlan) (call : ℕ) (key : Bytes) (s : Store) : Prop :=
  plan.FailsWithin (call + 6) ((plan.collected call key s).length - 1)

/-- The number of the first engine call after a removal that starts at `call`. -/
def FaultPlan.removalEnd (plan : FaultPlan) (call : ℕ) (key : Bytes) (s : Store) : ℕ :=
  call + 5 + (plan.collected call key s).length

/-- The store after a removal that starts at `call` and meets no failure. -/
def FaultPlan.removed (plan : FaultPlan) (call : ℕ) (key : Bytes) (s : Store) : Store :=
  s.eraseAll (plan.collected call key s)

theorem getElem?_removed (call : ℕ) {s : Store} (hvalue : s[valueKey key]? = some data) :
    (plan.removed call key s)[valueKey key]? = none := by
  obtain ⟨rest, hrest⟩ := collected_eq_cons plan call hvalue
  rw [FaultPlan.removed, Store.getElem?_eraseAll, hrest, if_pos (by simp)]

variable (time) in
/-- Past the first delete, a removal loses the value or runs to its end. -/
theorem run_deleteLogicalKey_of_not_failsEarly (hvalue : st.store[valueKey key]? = some data)
    (h : ¬ plan.FailsEarly st.calls) :
    (plan.FailsLate st.calls key st.store ∧
      ∃ err st', run (faulty plan time) (deleteLogicalKey key) st = (.error err, st') ∧
        st'.store[valueKey key]? = none) ∨
    (¬ plan.FailsLate st.calls key st.store ∧
      ∃ found, run (faulty plan time) (deleteLogicalKey key) st =
        (.ok found, ⟨plan.removalEnd st.calls key st.store,
          plan.removed st.calls key st.store⟩)) := by
  obtain ⟨hreads, hfirst⟩ := not_or.mp h
  rw [not_not] at hfirst
  obtain ⟨rest, hrest⟩ := collected_eq_cons plan st.calls hvalue
  rw [run_deleteLogicalKey_of_reads hreads]
  rcases run_deleteEach_faulty (plan.collected st.calls key st.store)
      ⟨st.calls + 5, st.store⟩ with
    ⟨hnone, hrun⟩ | ⟨fault, deleted, failing, left, calls, hkeys, hfault, -, hrun⟩
  · refine .inr ⟨?_, ?_⟩
    · rintro ⟨n, hlow, hhigh, hn⟩
      exact hnone ⟨n, by dsimp only; omega, by dsimp only; omega, hn⟩
    · rw [run_bind_ok hrun]
      exact ⟨_, rfl⟩
  · -- The first delete went through, so the failing one comes after the value's.
    cases deleted with
    | nil => simp [hfirst] at hfault
    | cons head deleted =>
      have hhead : head = valueKey key := by
        rw [hrest] at hkeys
        exact (List.cons.inj hkeys).1.symm
      refine .inl ⟨⟨st.calls + 5 + (deleted.length + 1), by omega, ?_, ?_⟩, ?_⟩
      · rw [hkeys]
        simp only [List.length_append, List.length_cons]
        omega
      · simp only [List.length_cons] at hfault
        simp [hfault]
      · rw [run_bind_error hrun]
        refine ⟨_, _, rfl, ?_⟩
        rw [Store.getElem?_eraseAll, if_pos (by simp [hhead])]

/-- An operation that starts with a removal keeps the value when the removal fails
early; else it must get through the removal and keep the value in what follows, where
the value is already gone. -/
theorem keptOnError_removal_bind_iff {x : Action α}
    (hvalue : st.store[valueKey key]? = some data) :
    KeptOnError plan time key data (deleteLogicalKey key >>= fun _ => x) st ↔
      plan.FailsEarly st.calls ∨
      (¬ plan.FailsLate st.calls key st.store ∧
        KeptOnError plan time key data x
          ⟨plan.removalEnd st.calls key st.store, plan.removed st.calls key st.store⟩) := by
  by_cases hearly : plan.FailsEarly st.calls
  · obtain ⟨err, calls, hrun⟩ := run_deleteLogicalKey_of_failsEarly time hvalue hearly
    rw [keptOnError_bind_of_error hrun]
    exact iff_of_true hvalue (.inl hearly)
  · rcases run_deleteLogicalKey_of_not_failsEarly time hvalue hearly with
      ⟨hlate, err, st', hrun, hgone⟩ | ⟨hlate, found, hrun⟩
    · rw [keptOnError_bind_of_error hrun, hgone]
      simp [hearly, hlate]
    · rw [keptOnError_bind_of_ok hrun]
      simp [hearly, hlate]

/-- Writing the new value after the old one is gone keeps nothing if it fails. -/
theorem keptOnError_put_iff {calls : ℕ} {s : Store} {encoded : Bytes}
    (hgone : s[valueKey key]? = none) :
    KeptOnError plan time key data (Engine.put (valueKey key) encoded) ⟨calls, s⟩ ↔
      plan.fault calls = none := by
  cases hfault : plan.fault calls with
  | none =>
    exact iff_of_true (keptOnError_of_ok (run_put_of_none hfault)) rfl
  | some fault =>
    rw [keptOnError_iff_of_error (run_put_of_fault hfault), hgone]
    simp

end Removal

/-! ### The core routes -/

section Core

variable {V T : Type} {plan : FaultPlan} {time : ℤ} {key data : Bytes} {st : FaultState}

/-- A replacement that starts at `call` keeps the old value if it fails: it fails
before the value is deleted, or neither the removal nor the write after it fails. -/
def FaultPlan.ReplacementSafe (plan : FaultPlan) (call : ℕ) (key : Bytes) (s : Store) : Prop :=
  plan.closed call = true ∨ plan.FailsEarly call ∨
    (¬ plan.FailsLate call key s ∧ plan.fault (plan.removalEnd call key s) = none)

theorem run_caught_replaceLogicalValue_faulty (encoded : Bytes) :
    run (faulty plan time) (caught (Engine.replaceLogicalValue key encoded)) st =
      (.ok (if plan.closed st.calls then .error (.of .closed)
        else .error (.of .atomicReplaceUnsupported)), st) := rfl

theorem keptOnError_replaceLogicalValue_iff {encoded : Bytes}
    (hvalue : st.store[valueKey key]? = some data) :
    KeptOnError plan time key data (replaceLogicalValue key encoded) st ↔
      plan.ReplacementSafe st.calls key st.store := by
  rw [replaceLogicalValue, keptOnError_bind_of_ok (run_caught_replaceLogicalValue_faulty encoded)]
  by_cases hclosed : plan.closed st.calls = true
  · simp only [if_pos hclosed]
    exact iff_of_true ((keptOnError_iff_of_error (run_throw _)).mpr hvalue) (.inl hclosed)
  · simp only [if_neg hclosed, GoError.is_of, decide_true, if_true]
    rw [keptOnError_bind_mapError (run_wrapping_faulty "kvlite: put" (deleteLogicalKey key))
      (fun _ _ => keptOnError_wrapping), keptOnError_removal_bind_iff hvalue,
      keptOnError_put_iff (getElem?_removed st.calls hvalue), FaultPlan.ReplacementSafe,
      or_iff_right hclosed]

theorem DB.atTime_encodeValue (db : DB V T) (value : V) (options : PutOptions) :
    (∃ err, atTime time (db.encodeValue value options) = .error err) ↔
      db.EncodingFails value options := by
  unfold atTime DB.encodeValue DB.EncodingFails
  rw [run_bind, run_liftExcept]
  cases httl : options.ttl with
  | error err => simp
  | ok ttl =>
    simp only [run_bind, run_liftExcept]
    cases hpayload : db.codec.marshal value with
    | error err => simp
    | ok payload =>
      simp only [run_deadlineAfter, marshalEnvelope]
      split <;> simp_all

/-- What an encoding that only reads the clock and a replacement keep together. -/
theorem keptOnError_encode_replace_iff {encode : Action Bytes} (hencode : OnlyReadsClock encode)
    (hvalue : st.store[valueKey key]? = some data) :
    KeptOnError plan time key data (encode >>= replaceLogicalValue key) st ↔
      (∃ err, atTime time encode = .error err) ∨ plan.ReplacementSafe st.calls key st.store := by
  have hrun := @run_onlyReadsClock _ plan time st encode hencode
  cases hresult : atTime time encode with
  | error err =>
    rw [hresult] at hrun
    rw [keptOnError_bind_of_error hrun]
    exact iff_of_true hvalue (.inl ⟨err, rfl⟩)
  | ok encoded =>
    rw [hresult] at hrun
    rw [keptOnError_bind_of_ok hrun, keptOnError_replaceLogicalValue_iff hvalue]
    simp

/-- An operation that first tests the closed flag and then keeps what `x` keeps. -/
theorem keptOnError_ensureOpen_bind {α : Type} {x : Action α}
    (hvalue : st.store[valueKey key]? = some data) :
    KeptOnError plan time key data (ensureOpen >>= fun _ => x) st ↔
      plan.closed st.calls = true ∨ KeptOnError plan time key data x st := by
  by_cases hclosed : plan.closed st.calls = true
  · have hrun : run (faulty plan time) ensureOpen st = (.error (.of .closed), st) := by
      change plan.whileOpen st (.ok ()) = _
      rw [FaultPlan.whileOpen, if_pos hclosed]
    rw [keptOnError_bind_of_error hrun]
    exact iff_of_true hvalue (.inl hclosed)
  · rw [keptOnError_bind_of_ok (run_ensureOpen_faulty (by simpa using hclosed))]
    simp [hclosed]

theorem DB.keptOnError_put_iff (db : DB V T) (value : V) (options : PutOptions)
    (hvalue : st.store[valueKey key]? = some data) :
    KeptOnError plan time key data (db.put key value options) st ↔
      key = [] ∨ db.EncodingFails value options ∨
        plan.ReplacementSafe st.calls key st.store := by
  unfold DB.put
  by_cases hkey : key = []
  · rw [if_pos hkey]
    exact iff_of_true ((keptOnError_iff_of_error (run_throw _)).mpr hvalue) (.inl hkey)
  · rw [if_neg hkey, keptOnError_ensureOpen_bind hvalue, keptOnError_withLock,
      keptOnError_encode_replace_iff (db.onlyReadsClock_encodeValue value options) hvalue,
      DB.atTime_encodeValue]
    simp only [hkey, false_or]
    constructor
    · rintro (hclosed | h)
      · exact .inr (.inl hclosed)
      · exact h
    · exact .inr

/-- The payload cannot be stored: an option is invalid or the codec name is empty or
too long. -/
def PayloadRefused (codec : Bytes) (options : PutOptions) : Prop :=
  codec = [] ∨ (∃ err, options.ttl = .error err) ∨ codec.length > 65535

theorem atTime_encodePayload (codec payload : Bytes) (ttl : ℤ) :
    (∃ err, atTime time (DB.encodePayload codec payload ttl) = .error err) ↔
      codec.length > 65535 := by
  unfold atTime DB.encodePayload
  simp only [run_bind, run_deadlineAfter, run_liftExcept, marshalEnvelope]
  split <;> simp_all

theorem DB.keptOnError_putStoredValue_iff (db : DB V T) (codec payload : Bytes)
    (options : PutOptions) (hvalue : st.store[valueKey key]? = some data) :
    KeptOnError plan time key data (db.putStoredValue key codec payload options) st ↔
      key = [] ∨ PayloadRefused codec options ∨ plan.ReplacementSafe st.calls key st.store := by
  unfold DB.putStoredValue PayloadRefused
  by_cases hkey : key = []
  · rw [if_pos hkey]
    exact iff_of_true ((keptOnError_iff_of_error (run_throw _)).mpr hvalue) (.inl hkey)
  by_cases hcodec : codec = []
  · rw [if_neg hkey, if_pos hcodec]
    exact iff_of_true ((keptOnError_iff_of_error (run_throw _)).mpr hvalue)
      (.inr (.inl (.inl hcodec)))
  rw [if_neg hkey, if_neg hcodec, keptOnError_ensureOpen_bind hvalue, keptOnError_withLock]
  simp only [hkey, hcodec, false_or]
  cases httl : options.ttl with
  | error err =>
    rw [keptOnError_bind_of_error (run_onlyReadsClock (onlyReadsClock_liftExcept _))]
    simp [hvalue]
  | ok ttl =>
    rw [keptOnError_bind_of_ok (run_onlyReadsClock (onlyReadsClock_liftExcept (.ok ttl))),
      keptOnError_encode_replace_iff (DB.onlyReadsClock_encodePayload _ _ _) hvalue,
      atTime_encodePayload]
    simp only [reduceCtorEq, exists_false, false_or]
    constructor
    · rintro (hclosed | h)
      · exact .inr (.inl hclosed)
      · exact h
    · exact .inr

end Core

end KVLite
