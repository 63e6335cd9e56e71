import KVLite.Expiry.Amounts
import KVLite.Keyspace.LiveMembers

/-!
# Commands that change only a deadline

The `EXPIRE` family, `PERSIST` and `GETEX` change the deadline of a key that exists. A string
carries it in its own record, which is written again; a collection carries it in a record
beside its fields, members or items. Either way the data of the key stays, and so does every
other key. The record of a string is written with the time that is left, and a deadline that is
not positive counts as none: only a clock that stands before 1970 tells the difference.
-/

namespace KVLite

open Semantics Fallible BigEndian Redis TypedMap Expiry

/-! ### What a command leaves as it was -/

/-- The codec name and the payload of a live value. -/
def liveScalar (now : ℤ) (s : Store) (key : Bytes) : Option (Bytes × Bytes) :=
  match (s[valueKey key]?).map unmarshalEnvelope with
  | some (.ok held) => if held.expired now then none else some (held.codec, held.payload)
  | _ => none

/-- The live fields of a hash, as they are stored. -/
def liveFieldRecords (now : ℤ) (s : Store) (key : Bytes) : List (Bytes × Bytes) :=
  (fieldRecords s key).filter fun record => !envelopeExpired record.2 now

/-- The live data of the key and all other records are the same. -/
structure SameData (now : ℤ) (key : Bytes) (s s' : Store) : Prop where
  scalar : liveScalar now s' key = liveScalar now s key
  fields : liveFieldRecords now s' key = liveFieldRecords now s key
  members : s'.scan (namespacePrefix kindSet key) = s.scan (namespacePrefix kindSet key)
  list : s'[listKey key]? = s[listKey key]?
  elsewhere : SameElsewhere key s s'

/-- Of the key only the deadline has changed, to the given one. -/
structure OnlyDeadline (now : ℤ) (key : Bytes) (deadline : Option ℤ) (s s' : Store) : Prop
    extends SameData now key s s' where
  type : (run (embedded now) (redisType key) s').1 =
    (run (embedded now) (redisType key) s).1
  deadline : storedDeadline s' key = deadline

/-- The key is gone, and nothing else is. -/
structure Removed (key : Bytes) (s s' : Store) : Prop where
  gone : NoRecordOf key s'
  elsewhere : SameElsewhere key s s'

/-- The change of the deadline has been made, and no other. -/
def ChangesDeadline (now : ℤ) (key : Bytes) (change : GetExChange) (s s' : Store) : Prop :=
  match change with
  | .keep => OnlyDeadline now key (storedDeadline s key) s s'
  | .persist => OnlyDeadline now key none s s'
  | .expireAt deadline =>
    if deadline ≤ now then Removed key s s' else OnlyDeadline now key (some deadline) s s'

section SameData

variable {now : ℤ} {s s' s'' : Store} {key : Bytes} {typ : RedisType}

theorem SameData.refl (now : ℤ) (key : Bytes) (s : Store) : SameData now key s s :=
  ⟨rfl, rfl, rfl, rfl, SameElsewhere.refl key s⟩

theorem SameData.trans (h : SameData now key s s') (h' : SameData now key s' s'') :
    SameData now key s s'' where
  scalar := h'.scalar.trans h.scalar
  fields := h'.fields.trans h.fields
  members := h'.members.trans h.members
  list := h'.list.trans h.list
  elsewhere storageKey hnot := (h'.elsewhere storageKey hnot).trans (h.elsewhere storageKey hnot)

/-- The stores differ in the value of the key and its expiry metadata at most. -/
theorem SameData.of_scalar (hscalar : liveScalar now s' key = liveScalar now s key)
    (hsame : ∀ storageKey, storageKey ≠ valueKey key → storageKey ≠ collectionTTLKey key →
      s'[storageKey]? = s[storageKey]?) : SameData now key s s' where
  scalar := hscalar
  fields := by
    have hfields : fieldRecords s' key = fieldRecords s key := by
      refine Store.scan_congr fun storageKey hpre => hsame storageKey ?_ ?_
      · rintro rfl
        exact absurd (belongs_valueKey key .hash hpre).2 (by decide)
      · rintro rfl
        exact not_owns_collectionTTLKey key .hash hpre
    rw [liveFieldRecords, hfields, liveFieldRecords]
  members := by
    refine Store.scan_congr fun storageKey hpre => hsame storageKey ?_ ?_
    · rintro rfl
      exact absurd (belongs_valueKey key .set hpre).2 (by decide)
    · rintro rfl
      exact not_owns_collectionTTLKey key .set hpre
  list := hsame _ (listKey_ne_valueKey _ _) (listKey_ne_collectionTTLKey _ _)
  elsewhere storageKey hnot := by
    refine hsame storageKey ?_ ?_
    · rintro rfl
      exact hnot (.inl rfl)
    · rintro rfl
      exact hnot (.inr (.inr (.inl rfl)))

theorem liveScalar_congr (h : s'[valueKey key]? = s[valueKey key]?) :
    liveScalar now s' key = liveScalar now s key := by
  rw [liveScalar, h, liveScalar]

/-- The stores differ in expiry metadata at most. -/
theorem SameData.of_metadata (hsame : ∀ storageKey, storageKey ≠ collectionTTLKey key →
    s'[storageKey]? = s[storageKey]?) : SameData now key s s' :=
  .of_scalar (liveScalar_congr (hsame _ (valueKey_ne_collectionTTLKey _ _)))
    fun storageKey _ => hsame storageKey

theorem sameData_insert_metadata (data : Bytes) :
    SameData now key s (s.insert (collectionTTLKey key) data) :=
  .of_metadata fun _ hne => Store.getElem?_insert_of_ne _ _ hne.symm

theorem sameData_erase_metadata : SameData now key s (s.erase (collectionTTLKey key)) :=
  .of_metadata fun _ hne => Store.getElem?_erase_of_ne _ hne.symm

theorem ValuePassed.liveScalar_eq (h : ValuePassed now s key) : liveScalar now s key = none := by
  rw [liveScalar]
  cases hget : s[valueKey key]? with
  | none => rfl
  | some data =>
    have hexpired := h data hget
    rw [envelopeExpired] at hexpired
    cases hdata : unmarshalEnvelope data with
    | error err => rw [Option.map_some, hdata]
    | ok held =>
      rw [hdata] at hexpired
      rw [Option.map_some, hdata]
      exact if_pos hexpired

/-- A value that has passed is removed. -/
theorem ValuePassed.sameData (h : ValuePassed now s key) :
    SameData now key s (s.erase (valueKey key)) := by
  have hgone : (s.erase (valueKey key))[valueKey key]? = none := by
    rw [Store.getElem?_erase, if_pos rfl]
  apply SameData.of_scalar
  · rw [h.liveScalar_eq, liveScalar, hgone]
    rfl
  · intro storageKey hne _
    exact Store.getElem?_erase_of_ne _ hne.symm

/-- Expired fields are removed. -/
theorem sameData_withoutExpiredFields : SameData now key s (withoutExpiredFields now s key) := by
  have hother : ∀ storageKey, ¬ namespacePrefix kindHash key <+: storageKey →
      (withoutExpiredFields now s key)[storageKey]? = s[storageKey]? := fun storageKey hnot =>
    getElem?_withoutExpiredFields_of_not fun _ hpre => absurd hpre hnot
  refine ⟨liveScalar_congr (hother _ fun hpre => ?_), ?_, ?_, hother _ fun hpre => ?_, ?_⟩
  · exact absurd (belongs_valueKey key .hash hpre).2 (by decide)
  · refine Store.eq_of_pairwise ((Store.pairwise_scan _ _).sublist List.filter_sublist)
      ((Store.pairwise_scan _ _).sublist List.filter_sublist) fun record => ?_
    rw [liveFieldRecords, liveFieldRecords, List.mem_filter, List.mem_filter, Store.mem_scan,
      Store.mem_scan]
    refine and_congr_left fun hlive => and_congr_right fun hpre => ?_
    -- A live field is found before exactly when it is found afterwards.
    constructor
    · exact fun hget => lost_withoutExpiredFields.getElem? hget
    · intro hget
      rw [getElem?_withoutExpiredFields_of_not, hget]
      intro data _ hdata
      obtain rfl : record.2 = data := Option.some.inj (hget.symm.trans hdata)
      simpa using hlive
  · refine Store.scan_congr fun storageKey hpre => hother storageKey fun hhash => ?_
    obtain ⟨member, rfl⟩ := namespacePrefix_isPrefix_iff.mp hpre
    have howns : Owns key .hash (setKey key member) := hhash
    exact absurd (owns_setKey_kind howns) (by decide)
  · exact absurd (belongs_listKey key .hash hpre).2 (by decide)
  · exact fun storageKey hnot => hother storageKey fun hpre =>
      hnot (.inr (.inr (.inr (.inl hpre))))

/-- The probe that finds a key has removed only what had expired. -/
theorem TypeOutcome.sameData (h : TypeOutcome now s key typ s') (hne : typ ≠ .none) :
    SameData now key s s' := by
  cases h with
  | passed _ => exact absurd rfl hne
  | string _ _ => exact .refl now key s
  | hash _ hvalue _ _ => exact hvalue.sameData.trans sameData_withoutExpiredFields
  | set _ hvalue _ _ => exact hvalue.sameData
  | list _ hvalue _ _ _ _ _ => exact hvalue.sameData
  | swept _ _ _ _ => exact absurd rfl hne
  | absent _ _ _ _ _ => exact absurd rfl hne

end SameData

/-! ### Collections -/

/-- The key holds a collection, and the probe has nothing to remove. -/
inductive Collection (now : ℤ) (s : Store) (key : Bytes) : RedisType → Prop
  | hash (h : LiveHash now s key) : Collection now s key .hash
  | set (hahead : TTLAhead now s key) (hvalue : s[valueKey key]? = none)
    (hfields : fieldRecords s key = []) (hmembers : s.scan (namespacePrefix kindSet key) ≠ []) :
    Collection now s key .set
  | list {data : Bytes} {items : List Bytes} (hahead : TTLAhead now s key)
    (hvalue : s[valueKey key]? = none) (hfields : fieldRecords s key = [])
    (hmembers : s.scan (namespacePrefix kindSet key) = []) (hget : s[listKey key]? = some data)
    (hdecode : decodeList data = .ok items) (hne : items ≠ []) : Collection now s key .list

section Collections

variable {now : ℤ} {s s' : Store} {key : Bytes} {typ : RedisType} {deadline : ℤ}

theorem TypeOutcome.collection (h : TypeOutcome now s key typ s') (hnone : typ ≠ .none)
    (hstring : typ ≠ .string) : Collection now s' key typ := by
  have hgone : (s.erase (valueKey key))[valueKey key]? = none := by
    rw [Store.getElem?_erase, if_pos rfl]
  cases h with
  | passed _ => exact absurd rfl hnone
  | string _ _ => exact absurd rfl hstring
  | hash hahead hvalue hdecodes hlive => exact .hash (TypeOutcome.hash hahead hvalue hdecodes hlive).liveHash
  | set hahead _ hfields hmembers =>
    exact .set hahead.erase hgone (fieldRecords_erase_value.trans hfields)
      (members_erase_value.trans_ne hmembers)
  | list hahead _ hfields hmembers hget hdecode hne =>
    refine .list hahead.erase hgone (fieldRecords_erase_value.trans hfields)
      (members_erase_value.trans hmembers) ?_ hdecode hne
    rw [Store.getElem?_erase_of_ne _ (valueKey_ne_listKey _ _), hget]
  | swept _ _ _ _ => exact absurd rfl hnone
  | absent _ _ _ _ _ => exact absurd rfl hnone

namespace Collection

theorem run_redisType (h : Collection now s key typ) :
    run (embedded now) (redisType key) s = (.ok typ, s) := by
  cases h with
  | hash h => exact h.run_redisType
  | set hahead hvalue hfields hmembers =>
    exact run_redisType_of_set hahead (run_probeValue_of_none hvalue)
      (run_probeHash_of_nil now hfields) hmembers
  | list hahead hvalue hfields hmembers hget hdecode hne =>
    exact run_redisType_of_list hahead (run_probeValue_of_none hvalue)
      (run_probeHash_of_nil now hfields) hmembers (run_probeList_of_items hget hdecode hne)

theorem no_value (h : Collection now s key typ) : s[valueKey key]? = none := by
  cases h with
  | hash h => exact h.no_value
  | set _ hvalue _ _ => exact hvalue
  | list _ hvalue _ _ _ _ _ => exact hvalue

theorem ahead (h : Collection now s key typ) : TTLAhead now s key := by
  cases h with
  | hash h => exact h.ahead
  | set hahead _ _ _ => exact hahead
  | list hahead _ _ _ _ _ _ => exact hahead

theorem not_scalar (h : Collection now s key typ) : typ ≠ .none ∧ typ ≠ .string := by
  cases h <;> exact ⟨by decide, by decide⟩

/-- Only the records of the collection count, and that its deadline is ahead. -/
theorem congr (h : Collection now s key typ) (hahead : TTLAhead now s' key)
    (hsame : ∀ storageKey, storageKey ≠ collectionTTLKey key → s'[storageKey]? = s[storageKey]?) :
    Collection now s' key typ := by
  have hvalue := hsame _ (valueKey_ne_collectionTTLKey key key)
  have hlist := hsame _ (listKey_ne_collectionTTLKey key key)
  have hfields : fieldRecords s' key = fieldRecords s key := by
    refine Store.scan_congr fun storageKey hpre => hsame storageKey ?_
    rintro rfl
    exact not_owns_collectionTTLKey key .hash hpre
  have hmembers : s'.scan (namespacePrefix kindSet key) = s.scan (namespacePrefix kindSet key) := by
    refine Store.scan_congr fun storageKey hpre => hsame storageKey ?_
    rintro rfl
    exact not_owns_collectionTTLKey key .set hpre
  cases h with
  | hash h =>
    refine .hash ⟨⟨hahead, hvalue.trans h.no_value, fun storageKey data hpre hget => ?_⟩, ?_⟩
    · refine h.live storageKey data hpre ?_
      rw [← hget, hsame]
      rintro rfl
      exact not_owns_collectionTTLKey key .hash hpre
    · exact hfields.trans_ne h.nonempty
  | set _ hnone hnil hne =>
    exact .set hahead (hvalue.trans hnone) (hfields.trans hnil) (hmembers.trans_ne hne)
  | list _ hnone hnil hempty hget hdecode hne =>
    exact .list hahead (hvalue.trans hnone) (hfields.trans hnil) (hmembers.trans hempty)
      (hlist.trans hget) hdecode hne

theorem insert_metadata (h : Collection now s key typ) (hfits : IsInt64 deadline)
    (hahead : wrapInt64 now < deadline) :
    Collection now (s.insert (collectionTTLKey key) (encodeRedisExpiry deadline)) key typ := by
  refine h.congr (fun data hget => ?_) fun _ hne => Store.getElem?_insert_of_ne _ _ hne.symm
  rw [Store.getElem?_insert, if_pos rfl] at hget
  cases hget
  exact ⟨length_encodeRedisExpiry _, by rwa [toInt64_encodeRedisExpiry hfits]⟩

theorem erase_metadata (h : Collection now s key typ) :
    Collection now (s.erase (collectionTTLKey key)) key typ :=
  h.congr h.ahead.erase fun _ hne => Store.getElem?_erase_of_ne _ hne.symm

theorem storedDeadline_eq (h : Collection now s key typ) :
    storedDeadline s key = (s[collectionTTLKey key]?).map fun data => toInt64 (ofBigEndian data) := by
  rw [storedDeadline, h.no_value]

/-- A deadline ahead is set. -/
theorem run_redisSetExpiry (hcoll : Collection now s' key typ)
    (hrun : run (embedded now) (redisType key) s = (.ok typ, s'))
    (hahead : wrapInt64 now < deadline) :
    run (embedded now) (redisSetExpiry key deadline) s =
      (.ok true, s'.insert (collectionTTLKey key) (encodeRedisExpiry deadline)) := by
  obtain ⟨hnone, hstring⟩ := hcoll.not_scalar
  rw [redisSetExpiry, run_bind_ok hrun, if_neg hnone,
    run_bind_ok run_unixNano, if_neg (not_le.mpr hahead), if_neg hstring,
    run_bind_ok Transport.run_put]
  rfl

theorem run_redisExpiry (h : Collection now s key typ) :
    run (embedded now) (redisExpiry key) s = (.ok (storedDeadline s key), s) := by
  rw [redisExpiry, run_bind_ok h.run_redisType, h.storedDeadline_eq]
  have hmetadata : run (embedded now) (redisMetadataExpiry key) s =
      (.ok ((s[collectionTTLKey key]?).map fun data => toInt64 (ofBigEndian data)), s) := by
    rw [redisMetadataExpiry, run_bind_ok Transport.run_get]
    cases hget : s[collectionTTLKey key]? with
    | none => rfl
    | some data =>
      dsimp only
      rw [if_neg (not_not.mpr (h.ahead data hget).1)]
      rfl
  cases h <;> exact hmetadata

/-- The deadline is taken away. -/
theorem run_redisPersist (hcoll : Collection now s' key typ)
    (hrun : run (embedded now) (redisType key) s = (.ok typ, s')) :
    ∃ found, run (embedded now) (redisPersist key) s =
      (.ok found, s'.erase (collectionTTLKey key)) := by
  obtain ⟨hnone, hstring⟩ := hcoll.not_scalar
  rw [redisPersist, run_bind_ok hrun, if_neg hnone,
    run_bind_ok hcoll.run_redisExpiry, hcoll.storedDeadline_eq]
  cases hget : s'[collectionTTLKey key]? with
  | none =>
    refine ⟨false, ?_⟩
    rw [Store.erase_of_none hget]
    rfl
  | some data =>
    refine ⟨true, ?_⟩
    rw [Option.map_some]
    dsimp only
    rw [if_neg hstring, run_bind_ok Transport.run_delete]
    rfl

end Collection

end Collections

section Strings

variable {now : ℤ} {s s' : Store} {key data : Bytes} {held : Envelope} {deadline : ℤ}

theorem exists_marshalEnvelope (h : LiveValue now s key held) (deadline : ℤ) :
    ∃ data, marshalEnvelope held.codec held.payload deadline = .ok data := by
  obtain ⟨_, -, hheld⟩ := h.record
  obtain ⟨hcodec, -⟩ := marshalEnvelope_eq_ok.mp (marshalEnvelope_unmarshalEnvelope hheld)
  exact ⟨_, marshalEnvelope_eq_ok.mpr ⟨hcodec, rfl⟩⟩

theorem LiveValue.liveScalar_eq (h : LiveValue now s key held) :
    liveScalar now s key = some (held.codec, held.payload) := by
  obtain ⟨data, hget, hheld⟩ := h.record
  rw [liveScalar, hget, Option.map_some, hheld]
  exact if_neg (by rw [h.live]; exact Bool.false_ne_true)

theorem LiveValue.storedDeadline_eq (h : LiveValue now s key held) :
    storedDeadline s key = if held.expiresAt > 0 then some held.expiresAt else none := by
  obtain ⟨data, hget, hheld⟩ := h.record
  simp only [storedDeadline, hget, hheld]

/-- The value is written again, and it is still live: nothing but the deadline has changed. -/
theorem LiveValue.onlyDeadline (h : LiveValue now s key held)
    (h' : LiveValue now s' key { held with expiresAt := deadline })
    (hsame : ∀ storageKey, storageKey ≠ valueKey key → storageKey ≠ collectionTTLKey key →
      s'[storageKey]? = s[storageKey]?) :
    OnlyDeadline now key (if deadline > 0 then some deadline else none) s s' where
  toSameData := .of_scalar (by rw [h'.liveScalar_eq, h.liveScalar_eq]) hsame
  type := by rw [h.run_redisType, h'.run_redisType]
  deadline := h'.storedDeadline_eq

/-- A record of the value with another deadline. -/
theorem LiveValue.insert (h : LiveValue now s key held) (hfits : IsInt64 deadline)
    (hdata : marshalEnvelope held.codec held.payload deadline = .ok data)
    (hlive : deadline ≤ 0 ∨ wrapInt64 now < deadline) :
    LiveValue now (s.insert (valueKey key) data) key { held with expiresAt := deadline } where
  ahead := h.ahead.insert_of_ne (valueKey_ne_collectionTTLKey _ _)
  record := ⟨data, by rw [Store.getElem?_insert, if_pos rfl],
    unmarshalEnvelope_marshalEnvelope hfits hdata⟩
  live := by
    simp only [Envelope.expired, Bool.and_eq_false_iff, decide_eq_false_iff_not]
    omega

theorem run_putPayload_zero {storageKey codec payload : Bytes}
    (hdata : marshalEnvelope codec payload 0 = .ok data) :
    run (embedded now) (putPayload storageKey codec payload 0) s =
      (.ok (), s.insert storageKey data) := by
  have hzero : deadlineAt now 0 = 0 := rfl
  rw [putPayload, run_bind_ok (run_deadlineAfter _), hzero, hdata,
    run_bind_ok (run_liftExcept _), Transport.run_put]

/-- A deadline ahead is set: the time that is left is added to the clock reading again. -/
theorem LiveValue.run_redisSetExpiry (h : LiveValue now s key held)
    (hnow : IsInt64 now) (hahead : now < deadline)
    (hdata : marshalEnvelope held.codec held.payload (writtenDeadline deadline now now) =
      .ok data) :
    run (embedded now) (redisSetExpiry key deadline) s =
      (.ok true, (s.insert (valueKey key) data).erase (collectionTTLKey key)) := by
  obtain ⟨old, hget, hheld⟩ := h.record
  have hwrite : ∃ s₁, run (embedded now)
      (redisWriteStringWithCodec key held.payload held.codec deadline) s = (.ok (), s₁) ∧
        s₁.erase (collectionTTLKey key) =
          (s.insert (valueKey key) data).erase (collectionTTLKey key) := by
    rw [writtenDeadline] at hdata
    by_cases hpos : deadline ≤ 0
    · -- No deadline is stored, and the metadata goes twice.
      rw [if_pos hpos] at hdata
      refine ⟨(s.insert (valueKey key) data).erase (collectionTTLKey key), ?_, ?_⟩
      · rw [redisWriteStringWithCodec, if_pos hpos, run_bind_ok (run_putPayload_zero hdata),
          Transport.run_delete]
      · exact Store.erase_of_none (by rw [Store.getElem?_erase, if_pos rfl])
    · rw [if_neg hpos] at hdata
      exact ⟨_, run_redisWriteStringWithCodec_of_ahead (not_le.mp hpos) hahead hdata, rfl⟩
  obtain ⟨s₁, hrun, herase⟩ := hwrite
  rw [redisSetExpiry, run_bind_ok h.run_redisType, if_neg (by decide),
    run_bind_ok run_unixNano, wrapInt64_eq hnow, if_neg (not_le.mpr hahead), if_pos rfl,
    run_bind_ok Transport.run_get, hget]
  dsimp only
  rw [hheld, run_bind_ok (run_liftExcept _), run_bind_ok hrun, ← herase]
  rfl

/-- The deadline is taken away. -/
theorem LiveValue.run_redisPersist (h : LiveValue now s key held)
    (hdata : marshalEnvelope held.codec held.payload 0 = .ok data) :
    run (embedded now) (redisPersist key) s =
      if held.expiresAt > 0 then (.ok true, s.insert (valueKey key) data) else (.ok false, s) := by
  obtain ⟨old, hget, hheld⟩ := h.record
  rw [redisPersist, run_bind_ok h.run_redisType, if_neg (by decide),
    run_bind_ok h.run_redisExpiry]
  by_cases hpos : held.expiresAt > 0
  · rw [if_pos hpos, if_pos hpos]
    dsimp only
    rw [if_pos rfl, run_bind_ok Transport.run_get, hget]
    dsimp only
    rw [hheld, run_bind_ok (run_liftExcept _),
      run_bind_ok (run_putPayload_zero hdata)]
    rfl
  · rw [if_neg hpos, if_neg hpos]
    rfl

end Strings

/-! ### The two changes -/

/-- A string can carry the deadline: it is positive, and the time that is left is a duration. -/
def Storable (now : ℤ) (typ : RedisType) : GetExChange → Prop
  | .expireAt deadline => typ = .string → now < deadline → 0 < deadline ∧ deadline - now < 2 ^ 63
  | _ => True

/-- The code of the change runs without an error. -/
def Makes (now : ℤ) (key : Bytes) (change : GetExChange) (s s' : Store) : Prop :=
  match change with
  | .keep => s' = s
  | .persist => ∃ found, run (embedded now) (redisPersist key) s = (.ok found, s')
  | .expireAt deadline =>
    run (embedded now) (redisSetExpiry key deadline) s = (.ok true, s')

section Changes

variable {now : ℤ} {s s₁ : Store} {key : Bytes} {typ : RedisType} {deadline : ℤ}

/-- A deadline that has passed takes the key away. -/
theorem run_redisSetExpiry_of_passed
    (hrun : run (embedded now) (redisType key) s = (.ok typ, s₁)) (hne : typ ≠ .none)
    (hpassed : deadline ≤ wrapInt64 now) :
    run (embedded now) (redisSetExpiry key deadline) s = (.ok true, s₁.without key) := by
  rw [redisSetExpiry, run_bind_ok hrun, if_neg hne,
    run_bind_ok run_unixNano, if_pos hpassed, run_bind_ok run_redisDeleteRaw]
  rfl

/-- The deadline of a string is set, as far as its record can carry it. -/
theorem LiveValue.setExpiry_iff {held : Envelope} (h : LiveValue now s key held)
    (hnow : IsInt64 now) (hfits : IsInt64 deadline) (hahead : now < deadline) :
    ∃ s', run (embedded now) (redisSetExpiry key deadline) s = (.ok true, s') ∧
      (OnlyDeadline now key (some deadline) s s' ↔ 0 < deadline ∧ deadline - now < 2 ^ 63) := by
  obtain ⟨data, hdata⟩ := exists_marshalEnvelope h (writtenDeadline deadline now now)
  refine ⟨_, h.run_redisSetExpiry hnow hahead hdata, ?_, ?_⟩
  · intro honly
    have hstored := honly.deadline
    have hget : ((s.insert (valueKey key) data).erase (collectionTTLKey key))[valueKey key]? =
        some data := by
      rw [Store.getElem?_erase_of_ne _ (collectionTTLKey_ne_valueKey _ _), Store.getElem?_insert,
        if_pos rfl]
    simp only [storedDeadline, hget,
      unmarshalEnvelope_marshalEnvelope (isInt64_writtenDeadline _ _ _) hdata] at hstored
    split_ifs at hstored with hpos
    have hwritten := Option.some.inj hstored
    have hzero : 0 < deadline := by omega
    have hsteady := (writtenDeadline_eq_iff hzero hfits hahead hnow).mp hwritten
    unfold redisMaxInt64 at hsteady
    omega
  · rintro ⟨hpos, hduration⟩
    have hwritten : writtenDeadline deadline now now = deadline := by
      refine (writtenDeadline_eq_iff hpos hfits hahead hnow).mpr ?_
      unfold redisMaxInt64
      omega
    rw [hwritten] at hdata
    have hlive := h.insert hfits hdata (.inr (by rwa [wrapInt64_eq hnow]))
    have honly := h.onlyDeadline hlive.erase_metadata fun storageKey hvalue hmetadata => by
      rw [Store.getElem?_erase_of_ne _ hmetadata.symm, Store.getElem?_insert_of_ne _ _ hvalue.symm]
    rwa [if_pos hpos] at honly

/-- A deadline is set, as far as the records of the key can carry it. -/
theorem setExpiry_iff (hnow : IsInt64 now) (hfits : IsInt64 deadline)
    (hrun : run (embedded now) (redisType key) s = (.ok typ, s₁)) (hne : typ ≠ .none) :
    ∃ s', run (embedded now) (redisSetExpiry key deadline) s = (.ok true, s') ∧
      (ChangesDeadline now key (.expireAt deadline) s s' ↔ Storable now typ (.expireAt deadline)) := by
  have houtcome := typeOutcome_of_run hrun
  have hdata := houtcome.sameData hne
  unfold ChangesDeadline
  dsimp only
  by_cases hpassed : deadline ≤ now
  · refine ⟨_, run_redisSetExpiry_of_passed hrun hne (by rwa [wrapInt64_eq hnow]), ?_⟩
    rw [if_pos hpassed]
    refine iff_of_true ⟨Store.noRecordOf_without _ _, hdata.elsewhere.without⟩ fun _ hahead => ?_
    omega
  · have hahead : now < deadline := not_le.mp hpassed
    simp only [if_neg hpassed]
    by_cases hstring : typ = .string
    · subst hstring
      obtain ⟨rfl, held, hlive⟩ := houtcome.liveValue
      obtain ⟨s', hset, hiff⟩ := hlive.setExpiry_iff hnow hfits hahead
      exact ⟨s', hset, hiff.trans ⟨fun h _ _ => h, fun h => h rfl hahead⟩⟩
    · have hcoll := houtcome.collection hne hstring
      have hwrap : wrapInt64 now < deadline := by rwa [wrapInt64_eq hnow]
      have hnew := hcoll.insert_metadata hfits hwrap
      refine ⟨_, hcoll.run_redisSetExpiry hrun hwrap, iff_of_true ?_ fun h => absurd h hstring⟩
      refine ⟨hdata.trans (sameData_insert_metadata _), by rw [hnew.run_redisType, hrun], ?_⟩
      rw [hnew.storedDeadline_eq, Store.getElem?_insert, if_pos rfl, Option.map_some,
        toInt64_encodeRedisExpiry hfits]

/-- The deadline is taken away. -/
theorem changesDeadline_persist
    (hrun : run (embedded now) (redisType key) s = (.ok typ, s₁)) (hne : typ ≠ .none) :
    ∃ found s', run (embedded now) (redisPersist key) s = (.ok found, s') ∧
      ChangesDeadline now key .persist s s' := by
  have houtcome := typeOutcome_of_run hrun
  by_cases hstring : typ = .string
  · subst hstring
    obtain ⟨rfl, held, hlive⟩ := houtcome.liveValue
    obtain ⟨data, hdata⟩ := exists_marshalEnvelope hlive 0
    rw [hlive.run_redisPersist hdata]
    by_cases hpos : held.expiresAt > 0
    · rw [if_pos hpos]
      refine ⟨true, _, rfl, ?_⟩
      exact hlive.onlyDeadline (hlive.insert (by decide) hdata (.inl le_rfl))
        fun storageKey hvalue _ => Store.getElem?_insert_of_ne _ _ hvalue.symm
    · rw [if_neg hpos]
      refine ⟨false, _, rfl, .refl now key _, rfl, ?_⟩
      rw [hlive.storedDeadline_eq, if_neg hpos]
  · have hcoll := houtcome.collection hne hstring
    obtain ⟨found, hpersist⟩ := hcoll.run_redisPersist hrun
    refine ⟨found, _, hpersist, (houtcome.sameData hne).trans sameData_erase_metadata, ?_, ?_⟩
    · rw [hcoll.erase_metadata.run_redisType, hrun]
    · rw [hcoll.erase_metadata.storedDeadline_eq, Store.getElem?_erase, if_pos rfl]
      rfl

end Changes

/-! ### The commands -/

/-- A command that changes the deadline of a key. -/
inductive DeadlineCommand
  | expire (milliseconds absolute : Bool) (amount : Bytes)
  | getEx (options : List Bytes)
  | persist

def DeadlineCommand.program (go : GoRuntime) (key : Bytes) : DeadlineCommand → Program Calls Resp
  | .expire milliseconds absolute amount =>
    redisExpireCommand (expireName milliseconds absolute)
      [expireName milliseconds absolute, key, amount]
  | .getEx options => redisGetEx go (text "GETEX" :: key :: options)
  | .persist => redisPersistCommand [text "PERSIST", key]

/-- The amount and the deadline that it stands for are 64-bit integers. -/
structure Amount (now : ℤ) (milliseconds absolute : Bool) (amount : Bytes) (count : ℤ) : Prop where
  parsed : redisParseInt amount = .ok count
  product : IsInt64 (count * amountUnit milliseconds)
  deadline : IsInt64 (amountDeadline milliseconds absolute now count)

/-- The change that a command asks for on a key of the type. `GETEX` is for strings only. -/
inductive Asks (go : GoRuntime) (now : ℤ) (typ : RedisType) : DeadlineCommand → GetExChange → Prop
  | expire {milliseconds absolute : Bool} {amount : Bytes} {count : ℤ}
    (hamount : Amount now milliseconds absolute amount count) :
    Asks go now typ (.expire milliseconds absolute amount)
      (.expireAt (amountDeadline milliseconds absolute now count))
  | persist : Asks go now typ .persist .persist
  | getExKeep (hstring : typ = .string) : Asks go now typ (.getEx []) .keep
  | getExPersist (hstring : typ = .string) {option : Bytes}
    (hoption : go.equalFold option (text "PERSIST") = true) :
    Asks go now typ (.getEx [option]) .persist
  | getExExpire (hstring : typ = .string) {milliseconds absolute : Bool} {option amount : Bytes}
    {count : ℤ} (hoption : go.toUpper option = setOptionName milliseconds absolute)
    (hpos : absolute = false → 0 < count)
    (hamount : Amount now milliseconds absolute amount count) :
    Asks go now typ (.getEx [option, amount])
      (.expireAt (amountDeadline milliseconds absolute now count))

section Commands

variable {go : GoRuntime} {now : ℤ} {s s₁ : Store} {key : Bytes} {typ : RedisType}
  {milliseconds absolute : Bool} {amount : Bytes} {count : ℤ}

theorem setOptionName_spec (milliseconds absolute : Bool) :
    (text "AT").isSuffixOf (setOptionName milliseconds absolute) = absolute ∧
      (if (text "P").isPrefixOf (setOptionName milliseconds absolute) then millisecond else second) =
        amountUnit milliseconds := by
  cases milliseconds <;> cases absolute <;> decide

/-- The deadline of a command is computed without wrapping around. -/
theorem Amount.redisExpiryFromCommand_eq (h : Amount now milliseconds absolute amount count)
    (hnow : IsInt64 now) {command : Bytes}
    (hspec : (text "AT").isSuffixOf command = absolute ∧
      (if (text "P").isPrefixOf command then millisecond else second) = amountUnit milliseconds) :
    redisExpiryFromCommand now command count =
      .ok (amountDeadline milliseconds absolute now count) := by
  have hunit := amountUnit_cases milliseconds
  have hrange := (isInt64_mul_iff hunit).mp h.product
  have hdeadline := h.deadline
  unfold amountDeadline at hdeadline ⊢
  unfold redisExpiryFromCommand
  rw [hspec.1, hspec.2, wrapInt64_eq hnow, if_neg hrange]
  cases absolute with
  | true => rw [if_pos rfl, if_pos rfl, zero_add]
  | false =>
    simp only [Bool.false_eq_true, if_false] at hdeadline ⊢
    unfold IsInt64 at hdeadline
    rw [if_neg (by unfold redisMaxInt64; omega), if_neg (by unfold redisMinInt64 redisMaxInt64; omega)]

/-- The options of `GETEX` with an amount. -/
theorem Amount.run_redisGetExChange (h : Amount now milliseconds absolute amount count)
    (hnow : IsInt64 now) {option : Bytes}
    (hoption : go.toUpper option = setOptionName milliseconds absolute)
    (hpos : absolute = false → 0 < count) :
    run (embedded now) (redisGetExChange go [option, amount]) s =
      (.ok (some (.expireAt (amountDeadline milliseconds absolute now count))), s) := by
  have hknown : setOptionName milliseconds absolute ∈
      [text "EX", text "PX", text "EXAT", text "PXAT"] := by
    cases milliseconds <;> cases absolute <;> decide
  have hnotzero : ¬ ((setOptionName milliseconds absolute = text "EX" ∨
      setOptionName milliseconds absolute = text "PX") ∧ count ≤ 0) := by
    rintro ⟨hname, hzero⟩
    cases absolute with
    | false =>
      have := hpos rfl
      omega
    | true => cases milliseconds <;> exact absurd hname (by decide)
  rw [redisGetExChange, h.parsed]
  dsimp only
  rw [hoption, if_neg hnotzero, if_neg (not_not.mpr hknown), run_bind_ok run_now,
    h.redisExpiryFromCommand_eq hnow (setOptionName_spec _ _)]
  rfl

/-- `GETEX` on a string with options that are accepted. -/
theorem LiveValue.run_redisGetEx {held : Envelope} (h : LiveValue now s key held)
    {options : List Bytes} {change : GetExChange} {s' : Store}
    (hoptions : run (embedded now) (redisGetExChange go options) s =
      (.ok (some change), s)) (hmakes : Makes now key change s s') :
    (redisGetEx go (text "GETEX" :: key :: options)).run (embedded now) s =
      (.bulk held.payload, s') := by
  refine run_replying ((run_bind_ok h.run_redisString).trans ?_)
  dsimp only
  rw [run_bind_ok hoptions]
  cases change with
  | keep =>
    cases hmakes
    rfl
  | persist =>
    obtain ⟨found, hrun⟩ := hmakes
    exact (run_bind_ok hrun).trans rfl
  | expireAt deadline => exact (run_bind_ok hmakes).trans rfl

/-- Every key that exists can be given the deadline, or be relieved of it. -/
theorem exists_makes (hnow : IsInt64 now)
    (hrun : run (embedded now) (redisType key) s = (.ok typ, s₁)) (hne : typ ≠ .none)
    {change : GetExChange} (hfits : ∀ deadline, change = .expireAt deadline → IsInt64 deadline)
    (hkeep : change = .keep → typ = .string) :
    ∃ s', Makes now key change s s' ∧
      (ChangesDeadline now key change s s' ↔ Storable now typ change) := by
  cases change with
  | keep =>
    obtain rfl := hkeep rfl
    obtain ⟨rfl, held, hlive⟩ := (typeOutcome_of_run hrun).liveValue
    exact ⟨_, rfl, iff_of_true ⟨.refl now key _, rfl, rfl⟩ trivial⟩
  | persist =>
    obtain ⟨found, s', hpersist, hchanges⟩ := changesDeadline_persist hrun hne
    exact ⟨s', ⟨found, hpersist⟩, iff_of_true hchanges trivial⟩
  | expireAt deadline => exact setExpiry_iff hnow (hfits deadline rfl) hrun hne

/-- At every clock reading, in every store and for every key that exists: a command that is
accepted changes the deadline to what it asks for and nothing else, if and only if the deadline
is one that the key can carry. -/
theorem changes_deadline_iff (hnow : IsInt64 now)
    (htype : (run (embedded now) (redisType key) s).1 = .ok typ) (hexists : typ ≠ .none)
    {command : DeadlineCommand} {change : GetExChange} (hasks : Asks go now typ command change) :
    ChangesDeadline now key change s ((command.program go key).run (embedded now) s).2 ↔
      Storable now typ change := by
  obtain ⟨s₁, hrun⟩ : ∃ s₁, run (embedded now) (redisType key) s = (.ok typ, s₁) :=
    ⟨_, Prod.ext htype rfl⟩
  have hfits : ∀ deadline, change = .expireAt deadline → IsInt64 deadline := by
    intro deadline heq
    cases hasks with
    | expire hamount =>
      cases heq
      exact hamount.deadline
    | getExExpire _ _ _ hamount =>
      cases heq
      exact hamount.deadline
    | _ => cases heq
  have hkeep : change = .keep → typ = .string := by
    intro heq
    cases hasks with
    | getExKeep hstring => exact hstring
    | _ => cases heq
  obtain ⟨s', hmakes, hiff⟩ := exists_makes hnow hrun hexists hfits hkeep
  suffices ((command.program go key).run (embedded now) s).2 = s' by rwa [this]
  have hgetEx : typ = .string → ∀ options, run (embedded now) (redisGetExChange go options) s =
      (.ok (some change), s) →
        ((DeadlineCommand.program go key (.getEx options)).run (embedded now) s).2 = s' := by
    rintro rfl options hoptions
    obtain ⟨-, held, hlive⟩ := (typeOutcome_of_run hrun).liveValue
    exact congrArg Prod.snd (hlive.run_redisGetEx hoptions hmakes)
  cases hasks with
  | expire hamount =>
    rw [DeadlineCommand.program, run_redisExpireCommand_of_ok hamount.parsed
      (hamount.redisExpiryFromCommand_eq hnow (expireName_spec _ _)) hmakes]
  | persist =>
    obtain ⟨found, hpersist⟩ := hmakes
    rw [DeadlineCommand.program]
    cases found <;> exact congrArg Prod.snd (run_replying (run_bind_ok hpersist))
  | getExKeep hstring => exact hgetEx hstring _ rfl
  | getExPersist hstring hoption =>
    refine hgetEx hstring _ ?_
    rw [redisGetExChange, hoption]
    rfl
  | getExExpire hstring hoption hpos hamount =>
    exact hgetEx hstring _ (hamount.run_redisGetExChange hnow hoption hpos)

end Commands

/-- One string that a command has written before 1970 began, by a nanosecond. -/
def stringBefore1970 : Store :=
  ((redisSet .upperCase [text "SET", text "k", text "v"]).run (embedded (-1)) ∅).2

/-- A deadline ahead that is not positive is not stored: the string never expires. -/
theorem deadline_before_1970_is_lost :
    let s' := ((DeadlineCommand.expire true true (text "0")).program .upperCase (text "k")).run
      (embedded (-1)) stringBefore1970
    Asks .upperCase (-1) .string (.expire true true (text "0")) (.expireAt 0) ∧
      s'.1 = .integer 1 ∧ storedDeadline s'.2 (text "k") = none ∧
      ¬ ChangesDeadline (-1) (text "k") (.expireAt 0) stringBefore1970 s'.2 := by
  intro s'
  have hamount : Amount (-1) true true (text "0") 0 :=
    ⟨redisParseInt_eq_ok_iff.mpr ⟨rfl, by decide⟩, by decide, by decide⟩
  have hstored : storedDeadline s'.2 (text "k") = none := rfl
  refine ⟨.expire hamount, rfl, hstored, fun h => ?_⟩
  have hdeadline := OnlyDeadline.deadline h
  rw [hstored] at hdeadline
  cases hdeadline

/-- The same command at the start of 1970, for the next millisecond. -/
theorem changes_deadline_of_string :
    let s := ((redisSet .upperCase [text "SET", text "k", text "v"]).run (embedded 0) ∅).2
    let command : DeadlineCommand := .expire true true (text "1")
    ChangesDeadline 0 (text "k") (.expireAt 1000000) s
      ((command.program .upperCase (text "k")).run (embedded 0) s).2 := by
  intro s command
  have hamount : Amount 0 true true (text "1") 1 :=
    ⟨redisParseInt_eq_ok_iff.mpr ⟨rfl, by decide⟩, by decide, by decide⟩
  have hasks : Asks .upperCase 0 .string command (.expireAt 1000000) := .expire hamount
  refine (changes_deadline_iff (by decide) rfl (by decide) hasks).mpr ?_
  intro _ _
  exact ⟨by decide, by decide⟩

end KVLite
