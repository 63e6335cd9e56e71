import KVLite.Faults.Engine
import KVLite.Redis.Storage

/-!
# Removal of a logical key when engine calls fail

A removal makes five reads (three lookups and two scans), collects the keys it found
and deletes them one by one. It reports the error of every failing call but one: a
scan that fails because the driver is unavailable ends early without a word.
-/

namespace KVLite

open Semantics Fallible

variable {plan : FaultPlan} {time : ℤ} {st : FaultState}

/-! ### The five reads -/

theorem run_foundKey_of_fault {storageKey : Bytes} {fault : Fault}
    (h : plan.fault st.calls = some fault) :
    run (faulty plan time) (foundKey storageKey) st =
      (.error fault.err, ⟨st.calls + 1, st.store⟩) := by
  rw [foundKey, run_bind_error (run_get_of_fault h)]

theorem run_foundKey_of_none {storageKey : Bytes} (h : plan.fault st.calls = none) :
    run (faulty plan time) (foundKey storageKey) st =
      (.ok ([storageKey].filter fun key => (st.store[key]?).isSome),
        ⟨st.calls + 1, st.store⟩) := by
  rw [foundKey, run_bind_ok (run_get_of_none h)]
  cases hget : st.store[storageKey]? with
  | none => simp only [List.filter_cons, hget, List.filter_nil]; rfl
  | some data => simp only [List.filter_cons, hget, List.filter_nil]; rfl

theorem run_scanPrefix_faulty (pre : Bytes) :
    run (faulty plan time) (Engine.scanPrefix pre) st =
      (.ok (plan.delivered st.calls (st.store.scan pre), (plan.fault st.calls).map Fault.err),
        ⟨st.calls + 1, st.store⟩) := rfl

theorem run_foundKeys_of_reported {pre : Bytes} {fault : Fault}
    (h : plan.fault st.calls = some fault)
    (hreported : fault.err.is .driverUnavailable = false) :
    run (faulty plan time) (foundKeys pre) st =
      (.error fault.err, ⟨st.calls + 1, st.store⟩) := by
  rw [foundKeys, run_bind_ok (run_scanPrefix_faulty pre)]
  simp [h, hreported]

theorem run_foundKeys_of_passed {pre : Bytes}
    (h : ∀ fault, plan.fault st.calls = some fault →
      fault.err.is .driverUnavailable = true) :
    run (faulty plan time) (foundKeys pre) st =
      (.ok ((plan.delivered st.calls (st.store.scan pre)).map Prod.fst),
        ⟨st.calls + 1, st.store⟩) := by
  rw [foundKeys, run_bind_ok (run_scanPrefix_faulty pre)]
  cases hfault : plan.fault st.calls with
  | none => simp
  | some fault => simp [h fault hfault]

/-- The scan at call `n` of a removal is passed over unless its error is reported. -/
theorem scan_passed {call n : ℕ} (h : ¬ plan.ReportsAt call n) {fault : Fault} (hfault : plan.fault n = some fault) :
    fault.err.is .driverUnavailable = true := by
  by_contra hreported
  exact h ⟨fault, hfault, fun hpassed => hreported hpassed.2⟩

/-- A lookup of a removal reports every failure. -/
theorem lookup_reports {call n : ℕ} (hn : n < call + 3) (h : ¬ plan.ReportsAt call n) :
    plan.fault n = none := by
  cases hfault : plan.fault n with
  | none => rfl
  | some fault => exact absurd ⟨fault, hfault, by omega⟩ h

variable (time) (st) in
/-- When a read fails with a reported error, the removal ends with it and has changed
nothing. -/
theorem run_deleteLogicalKey_of_readFails {key : Bytes} (h : plan.ReadFails st.calls) :
    ∃ err calls, run (faulty plan time) (deleteLogicalKey key) st =
      (.error err, ⟨calls, st.store⟩) := by
  obtain ⟨calls, store⟩ := st
  unfold deleteLogicalKey
  by_cases h0 : plan.ReportsAt calls calls
  · obtain ⟨fault, hfault, -⟩ := h0
    rw [run_bind_error (run_foundKey_of_fault hfault)]
    exact ⟨_, _, rfl⟩
  have e0 : plan.fault calls = none := lookup_reports (by omega) h0
  rw [run_bind_ok (run_foundKey_of_none e0)]
  by_cases h1 : plan.ReportsAt calls (calls + 1)
  · obtain ⟨fault, hfault, -⟩ := h1
    rw [run_bind_error (run_foundKey_of_fault hfault)]
    exact ⟨_, _, rfl⟩
  have e1 : plan.fault (calls + 1) = none := lookup_reports (by omega) h1
  rw [run_bind_ok (run_foundKey_of_none e1)]
  by_cases h2 : plan.ReportsAt calls (calls + 2)
  · obtain ⟨fault, hfault, -⟩ := h2
    rw [run_bind_error (run_foundKey_of_fault hfault)]
    exact ⟨_, _, rfl⟩
  have e2 : plan.fault (calls + 2) = none := lookup_reports (by omega) h2
  rw [run_bind_ok (run_foundKey_of_none e2)]
  by_cases h3 : plan.ReportsAt calls (calls + 3)
  · obtain ⟨fault, hfault, hreported⟩ := h3
    rw [run_bind_error (run_foundKeys_of_reported hfault (by simpa using hreported))]
    exact ⟨_, _, rfl⟩
  rw [run_bind_ok
    (run_foundKeys_of_passed fun fault hfault => scan_passed h3 hfault)]
  by_cases h4 : plan.ReportsAt calls (calls + 4)
  · obtain ⟨fault, hfault, hreported⟩ := h4
    rw [run_bind_error (run_foundKeys_of_reported hfault (by simpa using hreported))]
    exact ⟨_, _, rfl⟩
  -- No read is left that could be the reported one.
  obtain ⟨n, hlow, hhigh, hn⟩ := h
  dsimp only at hlow hhigh hn
  obtain rfl | rfl | rfl | rfl | rfl : n = calls ∨ n = calls + 1 ∨ n = calls + 2 ∨
      n = calls + 3 ∨ n = calls + 4 := by omega
  all_goals contradiction

/-- When every read goes through, the removal deletes the keys it collected. -/
theorem run_deleteLogicalKey_of_reads {key : Bytes} (h : ¬ plan.ReadFails st.calls) :
    run (faulty plan time) (deleteLogicalKey key) st =
      run (faulty plan time)
        (do deleteEach (plan.collected st.calls key st.store)
            return decide ((plan.collected st.calls key st.store).length > 0))
        ⟨st.calls + 5, st.store⟩ := by
  obtain ⟨calls, store⟩ := st
  have hread : ∀ n, calls ≤ n → n < calls + 5 → ¬ plan.ReportsAt calls n :=
    fun n hlow hhigh hn => h ⟨n, hlow, hhigh, hn⟩
  have hlookup : ∀ n, calls ≤ n → n < calls + 3 → plan.fault n = none :=
    fun n hlow hhigh => lookup_reports hhigh (hread n hlow (by omega))
  unfold deleteLogicalKey
  rw [run_bind_ok (run_foundKey_of_none (hlookup calls (by omega) (by omega))),
    run_bind_ok (run_foundKey_of_none (hlookup (calls + 1) (by omega) (by omega))),
    run_bind_ok (run_foundKey_of_none (hlookup (calls + 2) (by omega) (by omega))),
    run_bind_ok (run_foundKeys_of_passed fun fault hfault =>
      scan_passed (hread (calls + 3) (by omega) (by omega)) hfault),
    run_bind_ok (run_foundKeys_of_passed fun fault hfault =>
      scan_passed (hread (calls + 4) (by omega) (by omega)) hfault)]
  have hexact : ([valueKey key].filter fun key => (store[key]?).isSome) ++
      ([listKey key].filter fun key => (store[key]?).isSome) ++
      ([collectionTTLKey key].filter fun key => (store[key]?).isSome) = exactKeys key store := by
    rw [exactKeys, ← List.filter_append, ← List.filter_append]
    rfl
  simp only [hexact]
  rfl

/-! ### The delete loop -/

/-- Does one of the `count` engine calls from number `call` fail? -/
def FaultPlan.FailsWithin (plan : FaultPlan) (call count : ℕ) : Prop :=
  ∃ n, call ≤ n ∧ n < call + count ∧ plan.fault n ≠ none

/-- The loop ends with the first failing delete; the keys before it are gone. -/
theorem run_deleteEach_faulty (keys : List Bytes) (st : FaultState) :
    (¬ plan.FailsWithin st.calls keys.length ∧
      run (faulty plan time) (deleteEach keys) st =
        (.ok (), ⟨st.calls + keys.length, st.store.eraseAll keys⟩)) ∨
    ∃ fault deleted failing rest calls, keys = deleted ++ failing :: rest ∧
      plan.fault (st.calls + deleted.length) = some fault ∧
      (∀ n < deleted.length, plan.fault (st.calls + n) = none) ∧
      run (faulty plan time) (deleteEach keys) st =
        (.error fault.err, ⟨calls, st.store.eraseAll deleted⟩) := by
  induction keys generalizing st with
  | nil =>
    refine .inl ⟨?_, rfl⟩
    rintro ⟨n, hlow, hhigh, -⟩
    simp only [List.length_nil] at hhigh
    omega
  | cons key keys ih =>
    rw [deleteEach]
    cases hfault : plan.fault st.calls with
    | some fault =>
      rw [run_bind_error (run_delete_of_fault hfault)]
      exact .inr ⟨fault, [], key, keys, _, rfl, hfault, by simp, rfl⟩
    | none =>
      rw [run_bind_ok (run_delete_of_none hfault)]
      rcases ih ⟨st.calls + 1, st.store.erase key⟩ with
        ⟨hnone, hrun⟩ | ⟨fault, deleted, failing, rest, calls, rfl, hfail, hbefore, hrun⟩
      · refine .inl ⟨?_, ?_⟩
        · rintro ⟨n, hlow, hhigh, hn⟩
          rw [List.length_cons] at hhigh
          obtain rfl | hlt := eq_or_lt_of_le hlow
          · exact hn hfault
          · exact hnone ⟨n, hlt, by dsimp only; omega, hn⟩
        · rw [hrun, List.length_cons, Store.eraseAll_cons]
          congr 2
          dsimp only
          omega
      · refine .inr ⟨fault, key :: deleted, failing, rest, calls, rfl, ?_, ?_, hrun⟩
        · rw [List.length_cons, ← hfail]
          congr 1
          dsimp only
          omega
        · intro n hn
          rw [List.length_cons] at hn
          cases n with
          | zero => exact hfault
          | succ n =>
            rw [← hbefore n (by omega)]
            congr 1
            dsimp only
            omega

/-! ### Completeness of a reported removal -/

namespace FaultPlan

variable (plan : FaultPlan)

/-- A removal of `key` that starts at `call` meets a failure that it reports. -/
def RemovalFails (call : ℕ) (key : Bytes) (s : Store) : Prop :=
  plan.ReadFails call ∨ plan.FailsWithin (call + 5) (plan.collected call key s).length

/-- Both scans of a removal deliver every record under their prefix, also where they
fail afterwards. -/
def ScansDeliverAll (call : ℕ) (key : Bytes) (s : Store) : Prop :=
  (∀ fault, plan.fault (call + 3) = some fault →
    (s.scan (namespacePrefix kindHash key)).length ≤ fault.delivered) ∧
  ∀ fault, plan.fault (call + 4) = some fault →
    (s.scan (namespacePrefix kindSet key)).length ≤ fault.delivered

theorem delivered_subset (call : ℕ) (records : List (Bytes × Bytes)) :
    plan.delivered call records ⊆ records := by
  unfold delivered
  split
  · exact List.take_subset _ _
  · exact List.Subset.refl _

theorem delivered_eq_self {plan : FaultPlan} {call : ℕ} {records : List (Bytes × Bytes)}
    (h : ∀ fault, plan.fault call = some fault → records.length ≤ fault.delivered) :
    plan.delivered call records = records := by
  unfold delivered
  split
  · rename_i fault hfault
    exact List.take_of_length_le (h fault hfault)
  · rfl

/-- A scan that delivers the key of every record delivers all of them. -/
theorem length_le_of_delivered {plan : FaultPlan} {call : ℕ} {s : Store} {pre : Bytes}
    {fault : Fault} (hfault : plan.fault call = some fault)
    (h : ∀ record ∈ s.scan pre, record.1 ∈ (plan.delivered call (s.scan pre)).map Prod.fst) :
    (s.scan pre).length ≤ fault.delivered := by
  have hdelivered : plan.delivered call (s.scan pre) = (s.scan pre).take fault.delivered := by
    simp only [delivered, hfault]
  -- The keys are distinct, so as many are delivered as there are.
  have hsubset : (s.scan pre).map Prod.fst ⊆
      ((s.scan pre).take fault.delivered).map Prod.fst := by
    intro key hkey
    obtain ⟨record, hrecord, rfl⟩ := List.mem_map.mp hkey
    exact hdelivered ▸ h record hrecord
  have hle := (List.subperm_of_subset (s.nodup_map_fst_scan pre) hsubset).length_le
  simp only [List.length_map, List.length_take] at hle
  omega

end FaultPlan

theorem mem_collected {call : ℕ} {key storageKey : Bytes} {s : Store} :
    storageKey ∈ plan.collected call key s ↔ storageKey ∈ exactKeys key s ∨
      storageKey ∈ (plan.delivered (call + 3) (s.scan (namespacePrefix kindHash key))).map
        Prod.fst ∨
      storageKey ∈ (plan.delivered (call + 4) (s.scan (namespacePrefix kindSet key))).map
        Prod.fst := by
  simp only [FaultPlan.collected, List.mem_append, or_assoc]

/-- A delivered key has the prefix of its scan. -/
theorem isPrefix_of_delivered {call : ℕ} {s : Store} {pre storageKey : Bytes}
    (h : storageKey ∈ (plan.delivered call (s.scan pre)).map Prod.fst) : pre <+: storageKey := by
  obtain ⟨record, hrecord, rfl⟩ := List.mem_map.mp h
  exact (Store.mem_scan.mp (plan.delivered_subset _ _ hrecord)).1

/-- A hash field that a removal collects was delivered by the hash scan. -/
theorem hashKey_mem_collected {call : ℕ} {key field : Bytes} {s : Store}
    (h : hashKey key field ∈ plan.collected call key s) :
    hashKey key field ∈
      (plan.delivered (call + 3) (s.scan (namespacePrefix kindHash key))).map Prod.fst := by
  rcases mem_collected.mp h with hexact | hhash | hset
  · exact absurd (mem_exactKeys.mp hexact).1 (by simp)
  · exact hhash
  · obtain ⟨member, hmember⟩ := namespacePrefix_isPrefix_iff.mp (isPrefix_of_delivered hset)
    exact absurd hmember (by simp)

/-- A set member that a removal collects was delivered by the set scan. -/
theorem setKey_mem_collected {call : ℕ} {key member : Bytes} {s : Store}
    (h : setKey key member ∈ plan.collected call key s) :
    setKey key member ∈
      (plan.delivered (call + 4) (s.scan (namespacePrefix kindSet key))).map Prod.fst := by
  rcases mem_collected.mp h with hexact | hhash | hset
  · exact absurd (mem_exactKeys.mp hexact).1 (by simp)
  · obtain ⟨field, hfield⟩ := namespacePrefix_isPrefix_iff.mp (isPrefix_of_delivered hhash)
    exact absurd hfield (by simp)
  · exact hset

/-- Whenever `x` reports success, no record of `key` is left. -/
def CompleteWhenOk {α : Type} (plan : FaultPlan) (time : ℤ) (key : Bytes) (x : Action α)
    (st : FaultState) : Prop :=
  ∀ value st', run (faulty plan time) x st = (.ok value, st') →
    NoRecordOf key st'.store

variable (time) (st) in
/-- A removal without a reported failure deletes what it collected. -/
theorem run_deleteLogicalKey_of_not_fails {key : Bytes}
    (h : ¬ plan.RemovalFails st.calls key st.store) :
    ∃ found calls, run (faulty plan time) (deleteLogicalKey key) st =
      (.ok found, ⟨calls, st.store.eraseAll (plan.collected st.calls key st.store)⟩) := by
  obtain ⟨hreads, hdeletes⟩ := not_or.mp h
  rw [run_deleteLogicalKey_of_reads hreads]
  rcases run_deleteEach_faulty (plan.collected st.calls key st.store)
      ⟨st.calls + 5, st.store⟩ with
    ⟨-, hrun⟩ | ⟨fault, deleted, failing, rest, -, hkeys, hfault, -, -⟩
  · rw [run_bind_ok hrun]
    exact ⟨_, _, rfl⟩
  · have hlength : deleted.length < (plan.collected st.calls key st.store).length := by
      rw [hkeys, List.length_append, List.length_cons]
      omega
    exact absurd ⟨st.calls + 5 + deleted.length, by omega, by omega, by simp [hfault]⟩ hdeletes

variable (time) (st) in
/-- A removal with a reported failure ends with an error. -/
theorem run_deleteLogicalKey_of_fails {key : Bytes}
    (h : plan.RemovalFails st.calls key st.store) :
    ∃ err st', run (faulty plan time) (deleteLogicalKey key) st = (.error err, st') := by
  by_cases hreads : plan.ReadFails st.calls
  · obtain ⟨err, calls, hrun⟩ := run_deleteLogicalKey_of_readFails time st hreads
    exact ⟨err, _, hrun⟩
  · rw [run_deleteLogicalKey_of_reads hreads]
    rcases run_deleteEach_faulty (plan.collected st.calls key st.store)
        ⟨st.calls + 5, st.store⟩ with
      ⟨hnone, -⟩ | ⟨fault, deleted, failing, rest, calls, -, -, -, hrun⟩
    · exact absurd (h.resolve_left hreads) hnone
    · rw [run_bind_error hrun]
      exact ⟨_, _, rfl⟩

/-- What is left after everything collected has been deleted: nothing exactly when the
scans delivered everything. -/
theorem noRecordOf_eraseAll_collected_iff {call : ℕ} {key : Bytes} {s : Store} :
    NoRecordOf key (s.eraseAll (plan.collected call key s)) ↔ plan.ScansDeliverAll call key s := by
  constructor
  · intro h
    -- A record that is gone was collected, and a record of the scans only by its scan.
    have hgone : ∀ storageKey, RecordOf key storageKey → s[storageKey]? ≠ none →
        storageKey ∈ plan.collected call key s := by
      intro storageKey hrecord hsome
      by_contra hnot
      have := h storageKey hrecord
      rw [Store.getElem?_eraseAll, if_neg hnot] at this
      exact hsome this
    refine ⟨fun fault hfault => FaultPlan.length_le_of_delivered hfault ?_,
      fun fault hfault => FaultPlan.length_le_of_delivered hfault ?_⟩
    · intro record hrecord
      obtain ⟨hpre, hget⟩ := Store.mem_scan.mp hrecord
      have hmem := hgone record.1 (.inr (.inr (.inr (.inl hpre)))) (by simp [hget])
      obtain ⟨field, hfield⟩ := namespacePrefix_isPrefix_iff.mp hpre
      rw [hfield] at hmem ⊢
      exact hashKey_mem_collected hmem
    · intro record hrecord
      obtain ⟨hpre, hget⟩ := Store.mem_scan.mp hrecord
      have hmem := hgone record.1 (.inr (.inr (.inr (.inr hpre)))) (by simp [hget])
      obtain ⟨member, hmember⟩ := namespacePrefix_isPrefix_iff.mp hpre
      rw [hmember] at hmem ⊢
      exact setKey_mem_collected hmem
  · rintro ⟨hhash, hset⟩ storageKey hrecord
    rw [Store.getElem?_eraseAll]
    split
    · rfl
    · rename_i hnot
      by_contra hsome
      have hisSome : (s[storageKey]?).isSome := Option.isSome_iff_ne_none.mpr hsome
      rw [mem_collected, FaultPlan.delivered_eq_self hhash, FaultPlan.delivered_eq_self hset,
        Store.mem_map_fst_scan, Store.mem_map_fst_scan, mem_exactKeys] at hnot
      unfold RecordOf at hrecord
      tauto

theorem completeWhenOk_deleteLogicalKey_iff {key : Bytes} :
    CompleteWhenOk plan time key (deleteLogicalKey key) st ↔
      plan.RemovalFails st.calls key st.store ∨ plan.ScansDeliverAll st.calls key st.store := by
  by_cases hfails : plan.RemovalFails st.calls key st.store
  · simp only [hfails, true_or, iff_true]
    obtain ⟨err, st', hrun⟩ := run_deleteLogicalKey_of_fails time st hfails
    intro value st'' h
    rw [hrun] at h
    cases h
  · simp only [hfails, false_or]
    obtain ⟨found, calls, hrun⟩ := run_deleteLogicalKey_of_not_fails time st hfails
    rw [← noRecordOf_eraseAll_collected_iff]
    constructor
    · exact fun h => h found _ hrun
    · intro h value st'' h'
      rw [hrun] at h'
      cases h'
      exact h

/-- An operation that only passes the result of a removal on is complete when the
removal is. -/
theorem completeWhenOk_congr {α : Type} {key : Bytes} {x : Action α} {f : Bool → α}
    {g : GoError → GoError}
    (h : run (faulty plan time) x st =
      (((run (faulty plan time) (deleteLogicalKey key) st).1.map f).mapError g,
        (run (faulty plan time) (deleteLogicalKey key) st).2)) :
    CompleteWhenOk plan time key x st ↔ CompleteWhenOk plan time key (deleteLogicalKey key) st := by
  unfold CompleteWhenOk
  rw [h]
  cases run (faulty plan time) (deleteLogicalKey key) st with
  | mk result st' =>
    cases result with
    | ok value => simp [Except.map, Except.mapError]
    | error err => simp [Except.map, Except.mapError]

/-- A removal that reports success has removed every record of the key exactly when a
reported failure kept it from reporting success, or both scans delivered every record
before they failed. The same holds of the operations that report what the removal
reports, on an open handle. -/
theorem deleteLogicalKey_complete_iff (plan : FaultPlan) (time : ℤ) (key : Bytes)
    (st : FaultState) :
    (CompleteWhenOk plan time key (deleteLogicalKey key) st ↔
      plan.RemovalFails st.calls key st.store ∨ plan.ScansDeliverAll st.calls key st.store) ∧
    (plan.closed st.calls = false →
      (CompleteWhenOk plan time key (Redis.redisDeleteRaw key) st ↔
        plan.RemovalFails st.calls key st.store ∨ plan.ScansDeliverAll st.calls key st.store) ∧
      ∀ (V T : Type) (db : DB V T), key ≠ [] →
        (CompleteWhenOk plan time key (db.delete key) st ↔
          plan.RemovalFails st.calls key st.store ∨
            plan.ScansDeliverAll st.calls key st.store)) := by
  refine ⟨completeWhenOk_deleteLogicalKey_iff, fun hopen => ⟨?_, fun V T db hkey => ?_⟩⟩
  · have hrun : run (faulty plan time) (Redis.redisDeleteRaw key) st =
        run (faulty plan time) (deleteLogicalKey key) st := by
      rw [Redis.redisDeleteRaw, Transport.deleteLogicalKey,
        run_bind_ok (run_ensureOpen_faulty hopen)]
    unfold CompleteWhenOk at *
    rw [hrun]
    exact completeWhenOk_deleteLogicalKey_iff
  · have hrun : run (faulty plan time) (db.delete key) st =
        (((run (faulty plan time) (deleteLogicalKey key) st).1.map fun _ => ()).mapError
          (GoError.wrap (text "kvlite: delete")),
          (run (faulty plan time) (deleteLogicalKey key) st).2) := by
      rw [DB.delete, if_neg hkey, run_bind_ok (run_ensureOpen_faulty hopen),
        run_withLock_faulty, run_bind, run_wrapping_faulty]
      cases run (faulty plan time) (deleteLogicalKey key) st with
      | mk result st' => cases result <;> rfl
    rw [completeWhenOk_congr hrun]
    exact completeWhenOk_deleteLogicalKey_iff

/-- The plan under which the hash scan of a removal fails with a storage error of the
driver's library. -/
def hashScanUnavailable : FaultPlan where
  fault n :=
    if n = 3 then
      (nativeModuleStatusError 5 [] (text "scan open")).map fun err => ⟨err, 0⟩
    else
      none
  closed _ := false

/-- A store whose only record is a field of the hash `h`. -/
def oneFieldStore : Store := (∅ : Store).insert (hashKey (text "h") (text "f")) (text "v")

/-- The failed scan is passed over: the removal reports success and the field stays. -/
theorem deleteLogicalKey_passes_over_failed_scan :
    run (faulty hashScanUnavailable 0) (deleteLogicalKey (text "h"))
        ⟨0, oneFieldStore⟩ = (.ok false, ⟨5, oneFieldStore⟩) ∧
      oneFieldStore[hashKey (text "h") (text "f")]? = some (text "v") :=
  ⟨rfl, rfl⟩

/-- The hypotheses are met by an open handle and a non-empty key. -/
theorem deleteLogicalKey_complete_iff_at_oneFieldStore :
    (CompleteWhenOk hashScanUnavailable 0 (text "h") (Redis.redisDeleteRaw (text "h"))
        ⟨0, oneFieldStore⟩ ↔
      hashScanUnavailable.RemovalFails 0 (text "h") oneFieldStore ∨
        hashScanUnavailable.ScansDeliverAll 0 (text "h") oneFieldStore) ∧
    (CompleteWhenOk hashScanUnavailable 0 (text "h") ((bytesHandle 0).delete (text "h"))
        ⟨0, oneFieldStore⟩ ↔
      hashScanUnavailable.RemovalFails 0 (text "h") oneFieldStore ∨
        hashScanUnavailable.ScansDeliverAll 0 (text "h") oneFieldStore) :=
  have h := (deleteLogicalKey_complete_iff hashScanUnavailable 0 (text "h") ⟨0, oneFieldStore⟩).2 rfl
  ⟨h.1, h.2 _ _ (bytesHandle 0) (by decide)⟩

end KVLite
