import KVLite.TypedMap.Serves

/-!
# The hash commands serve their operations

A hash field is a record of its own, so a command that writes fields one by one does on
the records what the fold of its pairs does on the map.
-/

namespace KVLite.TypedMap

open Semantics BigEndian Redis

section Storage

variable {now : ℤ} {s₀ : Store} {key : Bytes} {fields : Hash} {deadline : Option ℤ}

theorem update_records_field (fields : Hash) (deadline : Option ℤ) (field value : Bytes) :
    Function.update ((Value.hash fields).records deadline) (.field field)
      (some (bytesRecord value 0)) = (Value.hash (fields.insert field value)).records deadline := by
  funext slot
  rw [Function.update_apply]
  cases slot with
  | field name =>
    simp only [Value.records, Std.ExtTreeMap.getElem?_insert, Slot.field.injEq,
      Std.LawfulEqCmp.compare_eq_iff_eq, eq_comm (a := field)]
    split <;> rfl
  | _ => rfl

theorem update_records_field_none (fields : Hash) (deadline : Option ℤ) (field : Bytes) :
    Function.update ((Value.hash fields).records deadline) (.field field) none =
      (Value.hash (fields.erase field)).records deadline := by
  funext slot
  rw [Function.update_apply]
  cases slot with
  | field name =>
    simp only [Value.records, Std.ExtTreeMap.getElem?_erase, Slot.field.injEq,
      Std.LawfulEqCmp.compare_eq_iff_eq, eq_comm (a := field)]
    split <;> rfl
  | _ => rfl

variable (hclock : Clock now) (hstore : Storable (.hash fields) deadline)
  (hahead : Ahead now deadline)

include hclock hstore hahead

theorem does_redisHashField (field : Bytes) :
    Does now s₀ key (redisHashField key field) ((Value.hash fields).records deadline)
      (.ok fields[field]?) ((Value.hash fields).records deadline) := by
  have hread : (Value.hash fields).readAs .hash none fields[field]? = .ok fields[field]? := by
    refine Value.readAs_eq rfl fun hempty => ?_
    obtain rfl := Std.ExtTreeMap.isEmpty_iff.mp hempty
    exact Std.ExtTreeMap.getElem?_empty.symm
  rw [← hread]
  exact (reads_redisHashField hstore.recordable field).does hclock hahead

theorem does_redisHashEntries :
    Does now s₀ key (redisHashEntries key) ((Value.hash fields).records deadline)
      (.ok fields.toList) ((Value.hash fields).records deadline) :=
  (reads_fields hstore.recordable.deadline).does hclock hahead

end Storage

/-! ### The loops -/

section Loops

variable {times : ℤ → Prop} {s₀ : Store} {key : Bytes} {deadline : Option ℤ}
  {post : Except GoError ℕ → Records → Prop}

theorem insertAll_cons (fields : Hash) (pair : Bytes × Bytes) (pairs : List (Bytes × Bytes)) :
    insertAll fields (pair :: pairs) = insertAll (fields.insert pair.1 pair.2) pairs := rfl

theorem eraseFields_cons (fields : Hash) (field : Bytes) (removed : List Bytes) :
    eraseFields fields (field :: removed) = eraseFields (fields.erase field) removed := rfl

theorem eraseFields_empty (removed : List Bytes) : eraseFields ∅ removed = ∅ := by
  induction removed with
  | nil => rfl
  | cons field removed ih => rw [eraseFields_cons, Std.ExtTreeMap.erase_empty, ih]

theorem size_le_size_insertAll (fields : Hash) (pairs : List (Bytes × Bytes)) :
    fields.size ≤ (insertAll fields pairs).size := by
  induction pairs generalizing fields with
  | nil => exact le_rfl
  | cons pair pairs ih => exact fields.size_le_size_insert.trans (ih _)

theorem size_insertAll_cons_ne_zero (fields : Hash) (pair : Bytes × Bytes)
    (pairs : List (Bytes × Bytes)) : (insertAll fields (pair :: pairs)).size ≠ 0 := by
  have hsize : (fields.insert pair.1 pair.2).size ≠ 0 := by
    rw [ne_eq, ← Std.ExtTreeMap.eq_empty_iff_size_eq_zero]
    exact Std.ExtTreeMap.insert_ne_empty
  have hle := size_le_size_insertAll (fields.insert pair.1 pair.2) pairs
  rw [insertAll_cons]
  omega

/-- The loop of `HSET` counts the fields by which the hash grows. -/
theorem leads_redisHSetLoop (fields : Hash) (added : ℕ) (pairs : List (Bytes × Bytes))
    (h : ∀ count, count + fields.size = added + (insertAll fields pairs).size →
      post (.ok count) ((Value.hash (insertAll fields pairs)).records deadline)) :
    Leads times s₀ key (redisHSetLoop key added pairs) ((Value.hash fields).records deadline)
      post := by
  induction pairs generalizing fields added with
  | nil => exact .pure (h added rfl)
  | cons pair pairs ih =>
    refine .seq (leads_get (.field pair.1) ?_)
    refine (.seq (leads_putPayload (.field pair.1) 0 fun d _ hzero => ?_) : Leads times s₀ key _ _ _)
    rw [hzero le_rfl, update_records_field]
    refine ih _ _ fun count hcount => h count ?_
    have hsize := fields.size_insert (k := pair.1) (v := pair.2)
    rw [← Std.ExtTreeMap.isSome_getElem?_eq_contains] at hsize
    rw [insertAll_cons]
    simp only [Value.records, Option.isNone_map] at hcount
    cases hget : fields[pair.1]? with
    | none =>
      simp only [hget, Option.isSome_none, Bool.false_eq_true, if_false] at hsize
      simp only [hget, Option.isNone_none, if_true] at hcount
      omega
    | some value =>
      simp only [hget, Option.isSome_some, if_true] at hsize
      simp only [hget, Option.isNone_some, Bool.false_eq_true, if_false] at hcount
      omega

/-- The loop of `HDEL` counts the fields by which the hash shrinks. -/
theorem leads_redisHDelLoop (fields : Hash) (count : ℕ) (removed : List Bytes)
    (h : ∀ count', count' + (eraseFields fields removed).size = count + fields.size →
      post (.ok count') ((Value.hash (eraseFields fields removed)).records deadline)) :
    Leads times s₀ key (redisHDelLoop key count removed) ((Value.hash fields).records deadline)
      post := by
  induction removed generalizing fields count with
  | nil => exact .pure (h count rfl)
  | cons field removed ih =>
    rw [eraseFields_cons] at h
    refine .seq (leads_get (.field field) ?_)
    cases hget : fields[field]? with
    | none =>
      rw [show fields.erase field = fields from Store.erase_of_none hget] at h
      simp only [Value.records, hget]
      exact ih fields count h
    | some value =>
      simp only [Value.records, hget]
      refine .seq (leads_liftExcept ?_)
      rw [unmarshalEnvelope_bytesRecord (by decide)]
      refine .seq (leads_expiredNow (.seq (leads_delete (.field field) ?_)) (by simp))
      rw [update_records_field_none]
      refine ih _ _ fun count' hcount => h count' ?_
      have hsize := fields.size_erase (k := field)
      have hpos : 0 < fields.size := by
        rw [Nat.pos_iff_ne_zero, ne_eq, ← Std.ExtTreeMap.eq_empty_iff_size_eq_zero]
        rintro rfl
        simp at hget
      rw [← Std.ExtTreeMap.isSome_getElem?_eq_contains] at hsize
      simp only [hget, Option.isSome_some, if_true] at hsize
      omega

end Loops

/-! ### The commands -/

section Commands

variable {now : ℤ} {s₀ : Store} {key : Bytes} {entry : Option Entry}
variable (hclock : Clock now) (hstore : StorableEntry entry)

include hclock hstore

theorem serves_hGet (name field : Bytes) :
    Serves now s₀ key (redisHGet [name, key, field]) ((KeyOperation.hget field).apply now) entry := by
  refine serves_onHash hclock hstore ((probing_redisHashField field).bind _)
    fun fields deadline h => ?_
  rw [h.recordsOf_of]
  exact (does_redisHashField hclock h.storable h.ahead field).bind (.pure _)

theorem serves_hExists (name field : Bytes) :
    Serves now s₀ key (redisHExists [name, key, field]) ((KeyOperation.hexists field).apply now)
      entry := by
  refine serves_onHash hclock hstore ((probing_redisHashField field).bind _)
    fun fields deadline h => ?_
  rw [h.recordsOf_of]
  refine (does_redisHashField hclock h.storable h.ahead field).bind ?_
  cases fields[field]? <;> exact .pure _

theorem serves_hLen (name : Bytes) :
    Serves now s₀ key (redisHLen [name, key]) (KeyOperation.hlen.apply now) entry := by
  refine serves_onHash hclock hstore (probing_redisHashEntries.bind _) fun fields deadline h => ?_
  rw [h.recordsOf_of]
  refine (does_redisHashEntries hclock h.storable h.ahead).bind ?_
  rw [Std.ExtTreeMap.length_toList]
  exact .pure _

theorem serves_hGetAll (name : Bytes) :
    Serves now s₀ key (redisHGetAll [name, key]) (KeyOperation.hgetall.apply now) entry := by
  refine serves_onHash hclock hstore (probing_redisHashEntries.bind _) fun fields deadline h => ?_
  rw [h.recordsOf_of]
  exact (does_redisHashEntries hclock h.storable h.ahead).bind (.pure _)

theorem serves_hSet (name : Bytes) {rest : List Bytes} {pair : Bytes × Bytes}
    {pairs : List (Bytes × Bytes)} (hpairs : argPairs rest = some (pair :: pairs)) :
    Serves now s₀ key (redisHSet (name :: key :: rest))
      ((KeyOperation.hset (pair :: pairs)).apply now) entry := by
  unfold redisHSet
  simp only [hpairs]
  refine serves_onHash hclock hstore ⟨_, rfl, fun typ hnone hne records => ?_⟩
    fun fields deadline h => ?_
  · rw [if_pos ⟨hnone, hne⟩]
    exact .throw _
  refine (does_redisType_of_ahead hclock h.storable h.ahead).bind (Does.of_leads ?_)
  refine leads_growing rfl (by decide) h.empty (.seq (leads_redisHSetLoop _ _ _ fun count hcount => ?_))
  refine .pure ⟨by simp only [Except.ok.injEq, Resp.integer.injEq]; omega, ?_⟩
  -- Growing keeps a hash with a deadline from being empty.
  refine (recordsOf_of_eq fun hempty => h.empty (Value.isEmpty_hash.mpr ?_)).symm
  have hsize := Value.isEmpty_hash.mp hempty
  omega

theorem serves_hDel (name field : Bytes) (fields : List Bytes) :
    Serves now s₀ key (redisHDel (name :: key :: field :: fields))
      ((KeyOperation.hdel (field :: fields)).apply now) entry := by
  refine serves_onHash hclock hstore (.of_throw fun typ _ _ => by cases typ <;> first | rfl | contradiction)
    fun hash deadline h => ?_
  refine (does_redisType_of_ahead hclock h.storable h.ahead).bind (Does.of_leads ?_)
  by_cases hempty : (Value.hash hash).isEmpty = true
  · -- Nothing is there, so nothing is counted and nothing is left.
    obtain rfl := h.empty hempty
    obtain rfl := Std.ExtTreeMap.isEmpty_iff.mp hempty
    rw [eraseFields_empty, recordsOf_of, if_pos hempty, if_pos hempty, records_hash_empty]
    exact .pure ⟨rfl, rfl⟩
  · rw [if_neg hempty]
    refine .seq (leads_redisHDelLoop _ _ _ fun count hcount => ?_)
    exact leads_shrunk (reads_fields h.storable.recordable.deadline)
      (List.length_eq_zero_iff.trans toList_fields_eq_nil)
      ⟨by simp only [Except.ok.injEq, Resp.integer.injEq]; omega, rfl⟩
      fun hpassed => absurd hpassed (h.ahead.not_mayPass hclock)

end Commands

end KVLite.TypedMap
