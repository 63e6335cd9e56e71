import KVLite.Redis.Collections

/-!
# The type probe at one clock reading

What each part of the type probe answers and what it removes when the clock does not
move during the probe, for every store.
-/

namespace KVLite

open Semantics Fallible BigEndian

/-- A store is determined by its records. -/
theorem Store.ext {s s' : Store} (h : ∀ key : Bytes, s[key]? = s'[key]?) : s = s' :=
  Std.ExtTreeMap.ext_getElem? fun {key} => h key

theorem Store.insert_insert (s : Store) (key value value' : Bytes) :
    (s.insert key value).insert key value' = s.insert key value' := by
  refine Store.ext fun other => ?_
  simp only [Store.getElem?_insert]
  split <;> rfl

theorem Store.erase_insert_of_ne {key other : Bytes} (s : Store) (value : Bytes) (h : key ≠ other) :
    (s.insert key value).erase other = (s.erase other).insert key value := by
  refine Store.ext fun storageKey => ?_
  rw [Store.getElem?_erase, Store.getElem?_insert, Store.getElem?_insert, Store.getElem?_erase]
  split_ifs with hother hkey
  · exact absurd (hkey.trans hother.symm) h
  all_goals rfl

theorem Store.erase_of_none {s : Store} {key : Bytes} (h : s[key]? = none) : s.erase key = s := by
  refine Store.ext fun key' => ?_
  rw [Store.getElem?_erase]
  split
  · next heq => rw [← heq, h]
  · rfl

/-- The expiry metadata of a collection has a deadline that has passed. -/
def TTLPassed (time : ℤ) (s : Store) (key : Bytes) : Prop :=
  ∃ data, s[collectionTTLKey key]? = some data ∧ data.length = 8 ∧
    toInt64 (ofBigEndian data) ≤ wrapInt64 time

/-- The key has no expiry metadata, or its deadline is ahead. -/
def TTLAhead (time : ℤ) (s : Store) (key : Bytes) : Prop :=
  ∀ data, s[collectionTTLKey key]? = some data → data.length = 8 ∧
    wrapInt64 time < toInt64 (ofBigEndian data)

theorem TTLAhead.not_passed {time : ℤ} {s : Store} {key : Bytes} (h : TTLAhead time s key) :
    ¬ TTLPassed time s key := by
  rintro ⟨data, hdata, -, hpassed⟩
  have := (h data hdata).2
  omega

namespace Redis

variable {time : ℤ} {s : Store} {key : Bytes}

theorem run_redisDeleteRaw :
    run (embedded time) (redisDeleteRaw key) s =
      (.ok ((recordKeys key s).length > 0), s.without key) := by
  rw [redisDeleteRaw, Transport.deleteLogicalKey, run_bind_ok run_ensureOpen,
    run_deleteLogicalKey]

/-! ### The deadline of a collection -/

theorem run_redisKeyExpired_of_ahead (h : TTLAhead time s key) :
    run (embedded time) (redisKeyExpired key) s = (.ok false, s) := by
  unfold redisKeyExpired redisMetadataExpiry
  rw [bind_assoc, run_bind_ok Transport.run_get]
  cases hget : s[collectionTTLKey key]? with
  | none => rfl
  | some data =>
    obtain ⟨hlength, hahead⟩ := h data hget
    simp only [hlength, ne_eq, not_true_eq_false, if_false, pure_bind]
    rw [run_bind_ok run_unixNano, if_pos hahead]
    rfl

theorem run_redisKeyExpired_of_passed (h : TTLPassed time s key) :
    run (embedded time) (redisKeyExpired key) s = (.ok true, s.without key) := by
  obtain ⟨data, hget, hlength, hpassed⟩ := h
  unfold redisKeyExpired redisMetadataExpiry
  rw [bind_assoc, run_bind_ok Transport.run_get, hget]
  simp only [hlength, ne_eq, not_true_eq_false, if_false, pure_bind]
  rw [run_bind_ok run_unixNano, if_neg (by omega),
    run_bind_ok run_redisDeleteRaw]
  rfl

/-- Metadata of the wrong size is reported. -/
theorem run_redisKeyExpired_of_malformed (hahead : ¬ TTLAhead time s key)
    (hpassed : ¬ TTLPassed time s key) :
    ∃ err, run (embedded time) (redisKeyExpired key) s = (.error err, s) := by
  unfold TTLAhead at hahead
  push Not at hahead
  obtain ⟨data, hget, hdata⟩ := hahead
  have hlength : data.length ≠ 8 := by
    intro hlength
    exact hpassed ⟨data, hget, hlength, by have := hdata hlength; omega⟩
  unfold redisKeyExpired redisMetadataExpiry
  rw [bind_assoc, run_bind_ok Transport.run_get, hget]
  simp only [ne_eq, hlength, not_false_eq_true, if_true]
  exact ⟨_, rfl⟩

/-! ### The value -/

theorem run_probeValue_of_none (h : s[valueKey key]? = none) :
    run (embedded time) (probeValue key) s = (.ok false, s) := by
  rw [probeValue, run_bind_ok Transport.run_get, h]
  rfl

theorem run_probeValue_of_malformed {data : Bytes} {err : GoError}
    (h : s[valueKey key]? = some data) (hdata : unmarshalEnvelope data = .error err) :
    run (embedded time) (probeValue key) s = (.error err, s) := by
  rw [probeValue, run_bind_ok Transport.run_get, h]
  refine run_bind_error ?_
  rw [run_liftExcept, hdata]

theorem run_probeValue_of_live {data : Bytes} {value : Envelope}
    (h : s[valueKey key]? = some data) (hdata : unmarshalEnvelope data = .ok value)
    (hlive : value.expired time = false) :
    run (embedded time) (probeValue key) s = (.ok true, s) := by
  have htest : run (embedded time) (expiredNow value.expiresAt) s = (.ok false, s) := by
    rw [run_expiredNow, ← Envelope.expired, hlive]
  rw [probeValue, run_bind_ok Transport.run_get, h]
  simp only [hdata]
  rw [run_bind_ok (run_liftExcept _), run_bind_ok htest]
  rfl

theorem run_probeValue_of_expired {data : Bytes} {value : Envelope}
    (h : s[valueKey key]? = some data) (hdata : unmarshalEnvelope data = .ok value)
    (hexpired : value.expired time = true) :
    run (embedded time) (probeValue key) s = (.ok false, s.erase (valueKey key)) := by
  have htest : run (embedded time) (expiredNow value.expiresAt) s = (.ok true, s) := by
    rw [run_expiredNow, ← Envelope.expired, hexpired]
  rw [probeValue, run_bind_ok Transport.run_get, h]
  simp only [hdata]
  rw [run_bind_ok (run_liftExcept _), run_bind_ok htest]
  simp only [if_true]
  rw [run_bind_ok (run_ignoringError _)]
  rfl

/-! ### The hash fields -/

/-- The payload of a record; empty if the record does not decode. -/
def payloadOf (data : Bytes) : Bytes :=
  match unmarshalEnvelope data with
  | .ok value => value.payload
  | .error _ => []

theorem run_redisHashEntriesLoop_of_decodes {pre : Bytes} {records : List (Bytes × Bytes)}
    (h : ∀ record ∈ records, ∃ value, unmarshalEnvelope record.2 = .ok value) :
    run (embedded time) (redisHashEntriesLoop pre records) s =
      (.ok ((records.filter fun record => !envelopeExpired record.2 time).map
          fun record => (record.1.drop pre.length, payloadOf record.2),
        (records.filter fun record => envelopeExpired record.2 time).map Prod.fst), s) := by
  induction records with
  | nil => rfl
  | cons record records ih =>
    obtain ⟨storageKey, data⟩ := record
    rw [List.forall_mem_cons] at h
    obtain ⟨⟨value, hvalue⟩, hrest⟩ := h
    have htest : run (embedded time) (expiredNow value.expiresAt) s =
        (.ok (envelopeExpired data time), s) := by
      rw [run_expiredNow, ← Envelope.expired, envelopeExpired, hvalue]
    have hpayload : payloadOf data = value.payload := by
      rw [payloadOf, hvalue]
    unfold redisHashEntriesLoop
    rw [hvalue, run_bind_ok (run_liftExcept _), run_bind_ok htest]
    cases hexpired : envelopeExpired data time with
    | true =>
      simp only [if_true]
      rw [run_bind_ok (ih hrest)]
      simp [hexpired]
    | false =>
      simp only [Bool.false_eq_true, if_false]
      rw [run_bind_ok (ih hrest)]
      simp [hexpired, hpayload]

variable (time s) in
theorem run_redisHashEntriesLoop_of_malformed {pre : Bytes} {records : List (Bytes × Bytes)}
    (h : ¬ ∀ record ∈ records, ∃ value, unmarshalEnvelope record.2 = .ok value) :
    ∃ err, run (embedded time) (redisHashEntriesLoop pre records) s = (.error err, s) := by
  induction records with
  | nil => exact absurd (fun _ hmem => by cases hmem) h
  | cons record records ih =>
    obtain ⟨storageKey, data⟩ := record
    unfold redisHashEntriesLoop
    cases hvalue : unmarshalEnvelope data with
    | error err => exact ⟨err, run_bind_error (run_liftExcept _)⟩
    | ok value =>
      obtain ⟨err, hrun⟩ := ih fun hrest => h (List.forall_mem_cons.mpr ⟨⟨value, hvalue⟩, hrest⟩)
      refine ⟨err, ?_⟩
      rw [run_bind_ok (run_liftExcept _), run_bind_ok (run_expiredNow _)]
      split <;> exact run_bind_error hrun

/-- The callback of the probe is the loop over the fields, and keeps whether there is one. -/
theorem probeFields_eq_map (pre : Bytes) (records : List (Bytes × Bytes)) :
    probeFields records =
      (fun found => (!found.1.isEmpty, found.2)) <$> redisHashEntriesLoop pre records := by
  induction records with
  | nil => rfl
  | cons record records ih =>
    rw [probeFields, redisHashEntriesLoop, ih]
    simp only [map_eq_pure_bind, bind_assoc, pure_bind]
    refine bind_congr fun value => bind_congr fun expired => ?_
    cases expired <;> simp

theorem run_probeFields_of_decodes {records : List (Bytes × Bytes)}
    (h : ∀ record ∈ records, ∃ value, unmarshalEnvelope record.2 = .ok value) :
    run (embedded time) (probeFields records) s =
      (.ok (records.any fun record => !envelopeExpired record.2 time,
        (records.filter fun record => envelopeExpired record.2 time).map Prod.fst), s) := by
  rw [probeFields_eq_map [], map_eq_pure_bind,
    run_bind_ok (run_redisHashEntriesLoop_of_decodes h), List.isEmpty_map]
  refine congrArg (fun found => (Except.ok (found, _), s)) (Bool.eq_iff_iff.mpr ?_)
  simp

variable (time s) in
theorem run_probeFields_of_malformed {records : List (Bytes × Bytes)}
    (h : ¬ ∀ record ∈ records, ∃ value, unmarshalEnvelope record.2 = .ok value) :
    ∃ err, run (embedded time) (probeFields records) s = (.error err, s) := by
  obtain ⟨err, hrun⟩ := run_redisHashEntriesLoop_of_malformed time s h
  exact ⟨err, by rw [probeFields_eq_map [], map_eq_pure_bind, run_bind_error hrun]⟩

/-- The field records of a hash. -/
abbrev fieldRecords (s : Store) (key : Bytes) : List (Bytes × Bytes) :=
  s.scan (namespacePrefix kindHash key)

/-- The store without the expired fields of a hash. -/
def withoutExpiredFields (time : ℤ) (s : Store) (key : Bytes) : Store :=
  s.eraseAll (((fieldRecords s key).filter fun record => envelopeExpired record.2 time).map
    Prod.fst)

theorem getElem?_withoutExpiredFields_of_expired {storageKey data : Bytes}
    (hpre : namespacePrefix kindHash key <+: storageKey) (hget : s[storageKey]? = some data)
    (hexpired : envelopeExpired data time = true) :
    (withoutExpiredFields time s key)[storageKey]? = none := by
  rw [withoutExpiredFields, Store.getElem?_eraseAll, if_pos]
  exact List.mem_map.mpr ⟨(storageKey, data),
    List.mem_filter.mpr ⟨Store.mem_scan.mpr ⟨hpre, hget⟩, hexpired⟩, rfl⟩

theorem getElem?_withoutExpiredFields_of_not {storageKey : Bytes}
    (h : ∀ data, namespacePrefix kindHash key <+: storageKey → s[storageKey]? = some data →
      envelopeExpired data time = false) :
    (withoutExpiredFields time s key)[storageKey]? = s[storageKey]? := by
  rw [withoutExpiredFields, Store.getElem?_eraseAll, if_neg]
  intro hmem
  obtain ⟨⟨_, data⟩, hrecord, rfl⟩ := List.mem_map.mp hmem
  obtain ⟨hscan, hexpired⟩ := List.mem_filter.mp hrecord
  obtain ⟨hpre, hget⟩ := Store.mem_scan.mp hscan
  rw [h data hpre hget] at hexpired
  cases hexpired

variable (time) in
theorem run_probeHash_of_malformed
    (h : ¬ ∀ record ∈ fieldRecords s key, ∃ value, unmarshalEnvelope record.2 = .ok value) :
    ∃ err, run (embedded time) (probeHash key) s = (.error err, s) := by
  obtain ⟨err, hrun⟩ := run_probeFields_of_malformed time s h
  refine ⟨err, ?_⟩
  rw [probeHash, run_bind_ok Transport.run_scanPrefix]
  exact run_bind_error hrun

/-- A hash with a live field loses its expired fields. -/
theorem run_probeHash_of_live
    (h : ∀ record ∈ fieldRecords s key, ∃ value, unmarshalEnvelope record.2 = .ok value)
    (hlive : ∃ record ∈ fieldRecords s key, envelopeExpired record.2 time = false) :
    run (embedded time) (probeHash key) s =
      (.ok true, withoutExpiredFields time s key) := by
  have hany : ((fieldRecords s key).any fun record => !envelopeExpired record.2 time) = true := by
    obtain ⟨record, hmem, hrecord⟩ := hlive
    exact List.any_eq_true.mpr ⟨record, hmem, by simp [hrecord]⟩
  rw [probeHash, run_bind_ok Transport.run_scanPrefix]
  simp only
  rw [run_bind_ok (run_probeFields_of_decodes h)]
  simp only
  rw [run_bind_ok (Transport.run_deleteEach _)]
  simp only [hany, if_true]
  rfl

variable (time) in
/-- Without field records the probe changes nothing. -/
theorem run_probeHash_of_nil (h : fieldRecords s key = []) :
    run (embedded time) (probeHash key) s = (.ok false, s) := by
  rw [fieldRecords] at h
  rw [probeHash, run_bind_ok Transport.run_scanPrefix, h]
  rfl

/-- A hash whose fields have all expired loses every record of its key. -/
theorem run_probeHash_of_expired
    (h : ∀ record ∈ fieldRecords s key, ∃ value, unmarshalEnvelope record.2 = .ok value)
    (hexpired : ∀ record ∈ fieldRecords s key, envelopeExpired record.2 time = true)
    (hne : fieldRecords s key ≠ []) :
    run (embedded time) (probeHash key) s = (.ok false, s.without key) := by
  have hany : ((fieldRecords s key).any fun record => !envelopeExpired record.2 time) = false := by
    simpa [List.any_eq_false] using fun a b hmem => hexpired (a, b) hmem
  have hfilter : (fieldRecords s key).filter (fun record => envelopeExpired record.2 time) =
      fieldRecords s key := List.filter_eq_self.mpr hexpired
  have hwithout : (s.eraseAll ((fieldRecords s key).map Prod.fst)).without key = s.without key := by
    refine Store.ext fun storageKey => ?_
    by_cases hrecord : RecordOf key storageKey
    · rw [Store.getElem?_without_of_recordOf hrecord, Store.getElem?_without_of_recordOf hrecord]
    · rw [Store.getElem?_without_of_not_recordOf hrecord,
        Store.getElem?_without_of_not_recordOf hrecord, Store.getElem?_eraseAll, if_neg]
      rw [Store.mem_map_fst_scan]
      exact fun hmem => hrecord (.inr (.inr (.inr (.inl hmem.1))))
  rw [probeHash, run_bind_ok Transport.run_scanPrefix]
  simp only
  rw [run_bind_ok (run_probeFields_of_decodes h)]
  simp only
  rw [run_bind_ok (Transport.run_deleteEach _)]
  have hlength : ((s.scan (namespacePrefix kindHash key)).map Prod.fst).length > 0 := by
    rw [List.length_map]
    exact List.length_pos_iff.mpr hne
  simp only [hany, hfilter, Bool.false_eq_true, if_false, hlength, if_true]
  rw [run_bind_ok run_redisDeleteRaw, hwithout]
  rfl

/-! ### The set and the list -/

theorem run_probeSet :
    run (embedded time) (probeSet key) s =
      (.ok (decide ((s.scan (namespacePrefix kindSet key)).length > 0)), s) := rfl

theorem run_probeList_of_none (h : s[listKey key]? = none) :
    run (embedded time) (probeList key) s = (.ok false, s) := by
  rw [probeList, run_bind_ok Transport.run_get, h]
  rfl

theorem run_probeList_of_malformed {data : Bytes} {err : GoError}
    (h : s[listKey key]? = some data) (hdata : decodeList data = .error err) :
    run (embedded time) (probeList key) s = (.error err, s) := by
  rw [probeList, run_bind_ok Transport.run_get, h]
  refine run_bind_error ?_
  rw [run_liftExcept, hdata]

theorem run_probeList_of_items {data : Bytes} {items : List Bytes}
    (h : s[listKey key]? = some data) (hdata : decodeList data = .ok items) (hne : items ≠ []) :
    run (embedded time) (probeList key) s = (.ok true, s) := by
  rw [probeList, run_bind_ok Transport.run_get, h]
  simp only [hdata]
  rw [run_bind_ok (run_liftExcept _), if_pos (List.length_pos_iff.mpr hne)]
  rfl

/-- An empty list takes every record of its key with it. -/
theorem run_probeList_of_empty {data : Bytes} (h : s[listKey key]? = some data)
    (hdata : decodeList data = .ok []) :
    run (embedded time) (probeList key) s = (.ok false, s.without key) := by
  rw [probeList, run_bind_ok Transport.run_get, h]
  simp only [hdata]
  rw [run_bind_ok (run_liftExcept _), if_neg (by simp),
    run_bind_ok (run_ignoringError _), run_redisDeleteRaw]
  rfl

/-! ### The type -/

section TypeOf

variable {s₁ s₂ s₃ : Store} {err : GoError}

theorem run_redisType_of_passed (h : TTLPassed time s key) :
    run (embedded time) (redisType key) s = (.ok .none, s.without key) := by
  rw [redisType, run_bind_ok (run_redisKeyExpired_of_passed h)]
  rfl

theorem run_redisType_of_malformed
    (h : run (embedded time) (redisKeyExpired key) s = (.error err, s)) :
    run (embedded time) (redisType key) s = (.error err, s) :=
  run_bind_error h

variable (hahead : TTLAhead time s key)

include hahead

theorem run_redisType_of_value_error
    (hvalue : run (embedded time) (probeValue key) s = (.error err, s₁)) :
    run (embedded time) (redisType key) s = (.error err, s₁) := by
  rw [redisType, run_bind_ok (run_redisKeyExpired_of_ahead hahead)]
  exact run_bind_error hvalue

theorem run_redisType_of_value
    (hvalue : run (embedded time) (probeValue key) s = (.ok true, s₁)) :
    run (embedded time) (redisType key) s = (.ok .string, s₁) := by
  rw [redisType, run_bind_ok (run_redisKeyExpired_of_ahead hahead)]
  simp only [Bool.false_eq_true, if_false]
  rw [run_bind_ok hvalue]
  rfl

variable (hvalue : run (embedded time) (probeValue key) s = (.ok false, s₁))

include hvalue

theorem run_redisType_of_hash_error
    (hhash : run (embedded time) (probeHash key) s₁ = (.error err, s₂)) :
    run (embedded time) (redisType key) s = (.error err, s₂) := by
  rw [redisType, run_bind_ok (run_redisKeyExpired_of_ahead hahead)]
  simp only [Bool.false_eq_true, if_false]
  rw [run_bind_ok hvalue]
  exact run_bind_error hhash

theorem run_redisType_of_hash
    (hhash : run (embedded time) (probeHash key) s₁ = (.ok true, s₂)) :
    run (embedded time) (redisType key) s = (.ok .hash, s₂) := by
  rw [redisType, run_bind_ok (run_redisKeyExpired_of_ahead hahead)]
  simp only [Bool.false_eq_true, if_false]
  rw [run_bind_ok hvalue]
  simp only [Bool.false_eq_true, if_false]
  rw [run_bind_ok hhash]
  rfl

variable (hhash : run (embedded time) (probeHash key) s₁ = (.ok false, s₂))

include hhash

private theorem run_redisType_of_no_hash :
    run (embedded time) (redisType key) s = run (embedded time)
      (probeSet key >>= fun found => if found = true then pure .set else
        probeList key >>= fun found => if found = true then pure .list else pure .none) s₂ := by
  rw [redisType, run_bind_ok (run_redisKeyExpired_of_ahead hahead)]
  simp only [Bool.false_eq_true, if_false]
  rw [run_bind_ok hvalue]
  simp only [Bool.false_eq_true, if_false]
  rw [run_bind_ok hhash]
  rfl

theorem run_redisType_of_set (hset : s₂.scan (namespacePrefix kindSet key) ≠ []) :
    run (embedded time) (redisType key) s = (.ok .set, s₂) := by
  rw [run_redisType_of_no_hash hahead hvalue hhash, run_bind_ok run_probeSet]
  simp only [List.length_pos_iff.mpr hset, decide_true, if_true]
  rfl

theorem run_redisType_of_list_error (hset : s₂.scan (namespacePrefix kindSet key) = [])
    (hlist : run (embedded time) (probeList key) s₂ = (.error err, s₃)) :
    run (embedded time) (redisType key) s = (.error err, s₃) := by
  rw [run_redisType_of_no_hash hahead hvalue hhash, run_bind_ok run_probeSet, hset]
  exact run_bind_error hlist

theorem run_redisType_of_list {found : Bool} (hset : s₂.scan (namespacePrefix kindSet key) = [])
    (hlist : run (embedded time) (probeList key) s₂ = (.ok found, s₃)) :
    run (embedded time) (redisType key) s =
      (.ok (if found then .list else .none), s₃) := by
  rw [run_redisType_of_no_hash hahead hvalue hhash, run_bind_ok run_probeSet, hset]
  simp only [List.length_nil, gt_iff_lt, Nat.lt_irrefl, decide_false, Bool.false_eq_true, if_false]
  rw [run_bind_ok hlist]
  cases found <;> rfl

end TypeOf

end Redis

end KVLite
