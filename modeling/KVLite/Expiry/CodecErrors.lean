import KVLite.Expiry.CoreDeadlines

/-!
# Reads and the errors of codecs

`Get`, `HGet` and `HGetAll` learn from the error of a decode that a record has expired, and
then remove it. The codec that decodes the payload is supplied by the application, and may
return the same error for a record that is alive.
-/

namespace KVLite

open Semantics Fallible

variable {V T : Type}

/-- The reads of the core that decode values. -/
inductive DecodingRead (T : Type)
  | get (key : Bytes) (target : T)
  | hGet (name field : Bytes) (target : T)
  | hGetAll (name : Bytes) (target : Option T)

/-- The store after a read. -/
def DecodingRead.after (db : DB V T) (time : ℤ) (s : Store) : DecodingRead T → Store
  | get key target => (run (embedded time) (db.get key target) s).2
  | hGet name field target => (run (embedded time) (db.hGet name field target) s).2
  | hGetAll name target => (run (embedded time) (db.hGetAll name target) s).2

/-- The record is alive, and its codec reports a missing key. -/
def Deceives (db : DB V T) (time : ℤ) (target : T) (data : Bytes) : Prop :=
  ∃ value err, unmarshalEnvelope data = .ok value ∧ value.expired time = false ∧
    db.decoded value.codec value.payload target = .error err ∧ err.is .notFound = true

/-- The record cannot be decoded, for another reason than a missing key. -/
def FailsOtherwise (db : DB V T) (time : ℤ) (target : T) (data : Bytes) : Prop :=
  (∃ err, unmarshalEnvelope data = .error err) ∨
    ∃ value err, unmarshalEnvelope data = .ok value ∧ value.expired time = false ∧
      db.decoded value.codec value.payload target = .error err ∧ err.is .notFound = false

/-- The read comes across a live record that deceives it. `HGetAll` removes what it came across
only when no record fails otherwise. -/
def DecodingRead.Deceived (db : DB V T) (time : ℤ) (s : Store) : DecodingRead T → Prop
  | get key target =>
    key ≠ [] ∧ ∃ data, s[valueKey key]? = some data ∧ Deceives db time target data
  | hGet name field target =>
    ∃ data, s[hashKey name field]? = some data ∧ Deceives db time target data
  | hGetAll _ none => False
  | hGetAll name (some target) =>
    (∃ record ∈ s.scan (namespacePrefix kindHash name), Deceives db time target record.2) ∧
      ∀ record ∈ s.scan (namespacePrefix kindHash name), ¬ FailsOtherwise db time target record.2

/-- The read removes only records whose deadline has passed, and `HGetAll` shows every field
whose deadline has not. -/
structure DeletesOnlyExpired (db : DB V T) (time : ℤ) (s : Store) (read : DecodingRead T) :
    Prop where
  removed : ∀ storageKey data : Bytes, s[storageKey]? = some data →
    (read.after db time s)[storageKey]? ≠ some data → envelopeExpired data time = true
  shown : ∀ name target fields, read = .hGetAll name target →
    (run (embedded time) (db.hGetAll name target) s).1 = .ok fields →
      ∀ record ∈ s.scan (namespacePrefix kindHash name), envelopeExpired record.2 time = false →
        record.1.drop (namespacePrefix kindHash name).length ∈ fields.map Prod.fst

section Decoding

variable {db : DB V T} {time : ℤ} {target : T} {data : Bytes} {s : Store}

/-- The outcome of a decode. -/
theorem atTime_decode :
    atTime time (db.decode data target) =
      match unmarshalEnvelope data with
      | .error err => .error err
      | .ok value =>
        if value.expired time then .error (.of .notFound)
        else db.decoded value.codec value.payload target := by
  rw [atTime, DB.decode]
  cases unmarshalEnvelope data with
  | error err => rfl
  | ok value =>
    dsimp only
    rw [run_bind_ok (run_liftExcept _), run_bind_ok (run_expiredNow _),
      ← Envelope.expired]
    cases value.expired time with
    | true => rfl
    | false =>
      simp only [Bool.false_eq_true, if_false, DB.decoded]
      cases db.codecs value.codec <;> rfl

theorem is_notFound_of_unmarshalEnvelope {err : GoError} (h : unmarshalEnvelope data = .error err) :
    err.is .notFound = false := by
  unfold unmarshalEnvelope at h
  split at h
  · cases h
    rfl
  · dsimp only at h
    split at h
    · cases h
      rfl
    · cases h

/-- A decode reports a missing key for an expired record and for one that deceives. -/
theorem reports_missing_iff :
    (∃ err, atTime time (db.decode data target) = .error err ∧ err.is .notFound = true) ↔
      envelopeExpired data time = true ∨ Deceives db time target data := by
  rw [atTime_decode, envelopeExpired]
  cases hvalue : unmarshalEnvelope data with
  | error err => simp [Deceives, hvalue, is_notFound_of_unmarshalEnvelope hvalue]
  | ok value => cases hexpired : value.expired time <;> simp [Deceives, hvalue, hexpired]

/-- A decode fails with another error. -/
theorem reports_other_iff :
    (∃ err, atTime time (db.decode data target) = .error err ∧ err.is .notFound = false) ↔
      FailsOtherwise db time target data := by
  rw [atTime_decode]
  cases hvalue : unmarshalEnvelope data with
  | error err => simp [FailsOtherwise, hvalue, is_notFound_of_unmarshalEnvelope hvalue]
  | ok value => cases hexpired : value.expired time <;> simp [FailsOtherwise, hvalue, hexpired]

theorem Deceives.not_expired (h : Deceives db time target data) :
    envelopeExpired data time = false := by
  obtain ⟨value, err, hvalue, hlive, -⟩ := h
  rw [envelopeExpired, hvalue]
  exact hlive

/-! ### Single records -/

/-- A read of one record removes it when the decode reports a missing key. -/
theorem run_getRecord_snd (key : Bytes) :
    (run (embedded time) (db.getRecord key target) s).2 =
      match s[key]? with
      | none => s
      | some data =>
        match atTime time (db.decode data target) with
        | .ok _ => s
        | .error err => if err.is .notFound then s.erase key else s := by
  rw [DB.getRecord, run_bind_ok run_ensureOpen, run_withLock,
    run_bind_ok (run_wrapped_get _ _)]
  cases s[key]? with
  | none => rfl
  | some data =>
    dsimp only
    rw [run_bind_ok (run_caught _), db.run_decode_eq_atTime]
    cases atTime time (db.decode data target) with
    | ok value => rfl
    | error err =>
      dsimp only
      split
      · rfl
      · rfl

/-- Only expired records are removed by the read of a record that does not deceive. -/
theorem getRecord_removes_only_expired_iff (key : Bytes) :
    (∀ storageKey data : Bytes, s[storageKey]? = some data →
      (run (embedded time) (db.getRecord key target) s).2[storageKey]? ≠ some data →
        envelopeExpired data time = true) ↔
      ¬ ∃ data, s[key]? = some data ∧ Deceives db time target data := by
  rw [run_getRecord_snd]
  constructor
  · rintro h ⟨data, hget, hdeceives⟩
    obtain ⟨err, hdecode, hmissing⟩ := reports_missing_iff.mpr (.inr hdeceives)
    have hexpired := h key data hget (by
      simp only [hget, hdecode, hmissing, if_true]
      rw [Store.getElem?_erase, if_pos rfl]
      simp)
    rw [hdeceives.not_expired] at hexpired
    cases hexpired
  · intro h storageKey data hget hgone
    cases hrecord : s[key]? with
    | none =>
      simp only [hrecord] at hgone
      exact absurd hget hgone
    | some found =>
      simp only [hrecord] at hgone
      cases hdecode : atTime time (db.decode found target) with
      | ok value =>
        simp only [hdecode] at hgone
        exact absurd hget hgone
      | error err =>
        simp only [hdecode] at hgone
        split at hgone
        · next hmissing =>
          rw [Store.getElem?_erase] at hgone
          split at hgone
          · next heq =>
            subst heq
            rw [hrecord] at hget
            cases hget
            rcases reports_missing_iff.mp ⟨err, hdecode, hmissing⟩ with hexpired | hdeceives
            · exact hexpired
            · exact absurd ⟨_, hrecord, hdeceives⟩ h
          · exact absurd hget hgone
        · exact absurd hget hgone

/-! ### All fields -/

/-- The decode of the record reports a missing key. -/
def reportsMissing (db : DB V T) (time : ℤ) (target : T) (record : Bytes × Bytes) : Bool :=
  match atTime time (db.decode record.2 target) with
  | .ok _ => false
  | .error err => err.is .notFound

theorem reportsMissing_iff {record : Bytes × Bytes} :
    reportsMissing db time target record = true ↔
      envelopeExpired record.2 time = true ∨ Deceives db time target record.2 := by
  rw [← reports_missing_iff, reportsMissing]
  cases atTime time (db.decode record.2 target) with
  | ok value => simp
  | error err => simp

theorem run_decodeFields (pre : Bytes) (records : List (Bytes × Bytes)) :
    run (embedded time) (db.decodeFields pre target records) s =
      ((db.fieldsAt time pre target records).map fun fields =>
        (fields, (records.filter (reportsMissing db time target)).map Prod.fst), s) := by
  induction records with
  | nil => rfl
  | cons record records ih =>
    obtain ⟨key, data⟩ := record
    rw [DB.decodeFields, DB.fieldsAt, run_bind_ok (run_caught _),
      db.run_decode_eq_atTime, List.filter_cons, reportsMissing]
    cases atTime time (db.decode data target) with
    | ok value =>
      dsimp only
      rw [run_bind, ih]
      cases db.fieldsAt time pre target records <;> rfl
    | error err =>
      dsimp only
      by_cases hmissing : err.is .notFound = true
      · rw [if_pos hmissing, if_pos hmissing, if_pos hmissing, run_bind, ih]
        cases db.fieldsAt time pre target records <;> rfl
      · rw [if_neg hmissing, if_neg hmissing, if_neg hmissing]
        rfl

/-- The fields are shown unless some record fails otherwise. -/
theorem fieldsAt_isOk_iff (pre : Bytes) (records : List (Bytes × Bytes)) :
    (∃ fields, db.fieldsAt time pre target records = .ok fields) ↔
      ∀ record ∈ records, ¬ FailsOtherwise db time target record.2 := by
  induction records with
  | nil => simp [DB.fieldsAt]
  | cons record records ih =>
    rw [List.forall_mem_cons, ← ih, ← reports_other_iff, DB.fieldsAt]
    cases atTime time (db.decode record.2 target) with
    | ok value => cases db.fieldsAt time pre target records <;> simp [Except.map]
    | error err =>
      dsimp only
      by_cases hmissing : err.is .notFound = true
      · rw [if_pos hmissing]
        simp [hmissing]
      · rw [if_neg hmissing]
        simp [hmissing]

/-- The fields that are shown. -/
theorem mem_of_fieldsAt {pre : Bytes} {records : List (Bytes × Bytes)} {fields : List (Bytes × V)}
    (h : db.fieldsAt time pre target records = .ok fields) {record : Bytes × Bytes}
    (hrecord : record ∈ records) (hfound : reportsMissing db time target record = false) :
    record.1.drop pre.length ∈ fields.map Prod.fst := by
  induction records generalizing fields with
  | nil => exact absurd hrecord List.not_mem_nil
  | cons head records ih =>
    rw [DB.fieldsAt] at h
    cases hdecode : atTime time (db.decode head.2 target) with
    | ok value =>
      rw [hdecode] at h
      dsimp only at h
      cases hrest : db.fieldsAt time pre target records with
      | error err =>
        rw [hrest] at h
        cases h
      | ok rest =>
        rw [hrest] at h
        cases h
        rw [List.map_cons]
        rcases List.mem_cons.mp hrecord with rfl | hmem
        · exact List.mem_cons_self
        · exact List.mem_cons_of_mem _ (ih hrest hmem)
    | error err =>
      rw [hdecode] at h
      dsimp only at h
      split at h
      · next hmissing =>
        rcases List.mem_cons.mp hrecord with rfl | hmem
        · rw [reportsMissing, hdecode] at hfound
          dsimp only at hfound
          rw [hmissing] at hfound
          cases hfound
        · exact ih h hmem
      · cases h

theorem run_hGetAll_snd (name : Bytes) :
    (run (embedded time) (db.hGetAll name (some target)) s).2 =
      match db.fieldsAt time (namespacePrefix kindHash name) target
        (s.scan (namespacePrefix kindHash name)) with
      | .error _ => s
      | .ok _ => s.eraseAll (((s.scan (namespacePrefix kindHash name)).filter
          (reportsMissing db time target)).map Prod.fst) := by
  rw [DB.hGetAll, run_bind_ok run_ensureOpen]
  dsimp only
  rw [run_bind_ok run_scanPrefix, run_bind, run_decodeFields]
  cases db.fieldsAt time (namespacePrefix kindHash name) target
    (s.scan (namespacePrefix kindHash name)) with
  | error err => rfl
  | ok fields =>
    simp only [Except.map]
    rw [run_bind_ok (run_deleteEachIgnoringErrors _)]
    rfl

/-- `HGetAll` removes a live field exactly when it is deceived. -/
theorem hGetAll_deletes_only_expired_iff (name : Bytes) :
    DeletesOnlyExpired db time s (.hGetAll name (some target)) ↔
      ¬ (DecodingRead.hGetAll name (some target)).Deceived db time s := by
  have hafter : (DecodingRead.hGetAll name (some target)).after db time s = _ := run_hGetAll_snd name
  constructor
  · rintro h ⟨⟨record, hrecord, hdeceives⟩, hothers⟩
    obtain ⟨fields, hfields⟩ := (fieldsAt_isOk_iff (namespacePrefix kindHash name) _).mpr hothers
    have hget := (Store.mem_scan.mp hrecord).2
    have hexpired := h.removed record.1 record.2 hget (by
      rw [hafter, hfields]
      dsimp only
      rw [Store.getElem?_eraseAll, if_pos]
      · simp
      · exact List.mem_map_of_mem (List.mem_filter.mpr
          ⟨hrecord, reportsMissing_iff.mpr (.inr hdeceives)⟩))
    rw [hdeceives.not_expired] at hexpired
    cases hexpired
  · intro hdeceived
    refine ⟨fun storageKey data hget hgone => ?_, ?_⟩
    · rw [hafter] at hgone
      cases hfields : db.fieldsAt time (namespacePrefix kindHash name) target
        (s.scan (namespacePrefix kindHash name)) with
      | error err =>
        rw [hfields] at hgone
        exact absurd hget hgone
      | ok fields =>
        rw [hfields] at hgone
        dsimp only at hgone
        rw [Store.getElem?_eraseAll] at hgone
        split at hgone
        · next hmem =>
          obtain ⟨record, hrecord, rfl⟩ := List.mem_map.mp hmem
          obtain ⟨hscan, hmissing⟩ := List.mem_filter.mp hrecord
          rw [(Store.mem_scan.mp hscan).2] at hget
          cases hget
          rcases reportsMissing_iff.mp hmissing with hexpired | hdeceives
          · exact hexpired
          · have hothers := (fieldsAt_isOk_iff _ _).mp ⟨fields, hfields⟩
            exact absurd ⟨⟨record, hscan, hdeceives⟩, hothers⟩ hdeceived
        · exact absurd hget hgone
    · rintro _ _ fields ⟨⟩ hresult record hrecord hlive
      rw [db.run_hGetAll_fst] at hresult
      refine mem_of_fieldsAt hresult hrecord ?_
      cases hmissing : reportsMissing db time target record with
      | false => rfl
      | true =>
        rcases reportsMissing_iff.mp hmissing with hexpired | hdeceives
        · rw [hlive] at hexpired
          cases hexpired
        · have hothers := (fieldsAt_isOk_iff _ _).mp ⟨fields, hresult⟩
          exact absurd ⟨⟨record, hrecord, hdeceives⟩, hothers⟩ hdeceived

/-- A read that is not `HGetAll` shows nothing else. -/
theorem deletesOnlyExpired_iff_removed {read : DecodingRead T}
    (hsingle : ∀ name target, read ≠ .hGetAll name target) :
    DeletesOnlyExpired db time s read ↔
      ∀ storageKey data : Bytes, s[storageKey]? = some data →
        (read.after db time s)[storageKey]? ≠ some data → envelopeExpired data time = true :=
  ⟨DeletesOnlyExpired.removed, fun h => ⟨h, fun _ _ _ heq => absurd heq (hsingle _ _)⟩⟩

/-- A read that changes nothing. -/
theorem deletesOnlyExpired_of_after_eq {read : DecodingRead T} (hafter : read.after db time s = s)
    (hshown : ∀ name target fields, read = .hGetAll name target →
      (run (embedded time) (db.hGetAll name target) s).1 ≠ .ok fields) :
    DeletesOnlyExpired db time s read where
  removed storageKey data hget hgone := by
    rw [hafter] at hgone
    exact absurd hget hgone
  shown name target fields heq hresult := absurd hresult (hshown name target fields heq)

/-- For all codecs, whatever errors they return, every store and clock reading: a read removes
only records whose deadline has passed, and shows the others, if and only if no codec reports
a missing key for a live record that the read comes across. -/
theorem reads_delete_only_expired_iff (db : DB V T) (time : ℤ) (s : Store) (read : DecodingRead T) :
    DeletesOnlyExpired db time s read ↔ ¬ read.Deceived db time s := by
  cases read with
  | get key target =>
    by_cases hkey : key = []
    · have hafter : (DecodingRead.get key target).after db time s = s := by
        rw [DecodingRead.after, DB.get, if_pos hkey]
        rfl
      exact iff_of_true (deletesOnlyExpired_of_after_eq hafter nofun) fun h => h.1 hkey
    · have hafter : (DecodingRead.get key target).after db time s =
          (run (embedded time) (db.getRecord (valueKey key) target) s).2 := by
        rw [DecodingRead.after, DB.get, if_neg hkey]
      rw [deletesOnlyExpired_iff_removed (fun _ _ => by simp), hafter,
        getRecord_removes_only_expired_iff, DecodingRead.Deceived, and_iff_right hkey]
  | hGet name field target =>
    rw [deletesOnlyExpired_iff_removed (fun _ _ => by simp)]
    exact getRecord_removes_only_expired_iff (hashKey name field)
  | hGetAll name target =>
    cases target with
    | none =>
      refine iff_of_true (deletesOnlyExpired_of_after_eq rfl ?_) id
      rintro _ _ fields ⟨⟩ ⟨⟩
    | some target => exact hGetAll_deletes_only_expired_iff name

end Decoding

/-- A codec that reports every payload as missing. -/
def missingCodec : Codec Bytes Unit := ⟨bytesCodecName, .ok, fun _ _ => .error (.of .notFound)⟩

/-- The records have no deadline, and the codec reports a missing key: `Get` removes the value,
and `HGetAll` omits the field and removes it. -/
theorem reads_remove_live_records :
    let db : DB Bytes Unit := ⟨0, missingCodec, fun _ => some missingCodec⟩
    let data := Redis.bytesRecord (text "v") 0
    let s : Store := ((∅ : Store).insert (valueKey (text "k")) data).insert
      (hashKey (text "h") (text "f")) data
    envelopeExpired data 0 = false ∧
      (run (embedded 0) (db.get (text "k") ()) s).2[valueKey (text "k")]? = none ∧
      (run (embedded 0) (db.hGetAll (text "h") (some ())) s).1 = .ok [] ∧
      (run (embedded 0) (db.hGetAll (text "h") (some ())) s).2[
        hashKey (text "h") (text "f")]? = none :=
  ⟨rfl, rfl, rfl, rfl⟩

end KVLite
