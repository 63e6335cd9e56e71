import KVLite.Keyspace.Probe
import KVLite.TypedMap.Records

/-!
# The records of a key under a running clock

What the Redis code does on the records of one key when every clock reading may be a
different one. The probe then either finds the type of the entry and leaves it, or
removes it; a write may store any deadline.
-/

namespace KVLite.TypedMap

open Semantics BigEndian Redis

/-- Every outcome of `x` on the given records of the key, whatever the clock shows. -/
abbrev Leads {α : Type} (times : ℤ → Prop) (s₀ : Store) (key : Bytes) (x : Action α)
    (records : Records) (post : Except GoError α → Records → Prop) : Prop :=
  Fallible.Leads (embeddedAt times) (At s₀ key) x records post

section Rules

variable {α β : Type} {times : ℤ → Prop} {s₀ : Store} {key : Bytes} {records : Records}

theorem leads_get (slot : Slot) {post : Except GoError (Option Bytes) → Records → Prop}
    (h : post (.ok (records slot)) records) :
    Leads times s₀ key (Transport.get (slot.storageKey key)) records post :=
  .of_ensures fun _ hs => ensures_get.mpr ⟨records, hs, (hs.records slot).symm ▸ h⟩

theorem leads_put (slot : Slot) {data : Bytes} {post : Except GoError Unit → Records → Prop}
    (h : post (.ok ()) (Function.update records slot (some data))) :
    Leads times s₀ key (Transport.put (slot.storageKey key) data) records post :=
  .of_ensures fun _ hs => ensures_put.mpr ⟨_, hs.insert slot data, h⟩

theorem leads_delete (slot : Slot) {post : Except GoError Unit → Records → Prop}
    (h : post (.ok ()) (Function.update records slot none)) :
    Leads times s₀ key (Transport.delete (slot.storageKey key)) records post :=
  .of_ensures fun _ hs => ensures_delete.mpr ⟨_, hs.erase slot, h⟩

theorem leads_now {post : Except GoError ℤ → Records → Prop}
    (h : ∀ time, post (.ok time) records) : Leads times s₀ key now records post :=
  .of_ensures fun _ hs => ensures_now.mpr fun time _ => ⟨records, hs, h time⟩

theorem leads_unixNano_of_times {post : Except GoError ℤ → Records → Prop}
    (h : ∀ time, times time → post (.ok (wrapInt64 time)) records) :
    Leads times s₀ key unixNano records post :=
  .of_ensures fun _ hs time htime => ⟨records, hs, h time htime⟩

theorem leads_unixNano {post : Except GoError ℤ → Records → Prop}
    (h : ∀ time, post (.ok time) records) : Leads times s₀ key unixNano records post :=
  leads_unixNano_of_times fun time _ => h (wrapInt64 time)

/-- Only a positive deadline can have passed, and only at one of the readings. -/
theorem leads_expiredNow_of_times {expiresAt : ℤ} {post : Except GoError Bool → Records → Prop}
    (hlive : expiresAt ≤ 0 ∨ (∃ time, times time ∧ wrapInt64 time < expiresAt) →
      post (.ok false) records)
    (hexpired : 0 < expiresAt → (∃ time, times time ∧ expiresAt ≤ wrapInt64 time) →
      post (.ok true) records) :
    Leads times s₀ key (expiredNow expiresAt) records post := by
  unfold expiredNow
  split
  · next hpos =>
    refine .seq (.of_ensures fun s hs time htime => ⟨records, hs, .pure ?_⟩)
    by_cases hpassed : wrapInt64 time ≥ expiresAt
    · rw [decide_eq_true hpassed]
      exact hexpired hpos ⟨time, htime, hpassed⟩
    · rw [decide_eq_false hpassed]
      exact hlive (.inr ⟨time, htime, not_le.mp hpassed⟩)
  · next hpos => exact .pure (hlive (.inl (not_lt.mp hpos)))

theorem leads_expiredNow {expiresAt : ℤ} {post : Except GoError Bool → Records → Prop}
    (hlive : post (.ok false) records) (hexpired : 0 < expiresAt → post (.ok true) records) :
    Leads times s₀ key (expiredNow expiresAt) records post :=
  leads_expiredNow_of_times (fun _ => hlive) fun hpos _ => hexpired hpos

theorem leads_liftExcept {x : Except GoError α} {post : Except GoError α → Records → Prop}
    (h : post x records) : Leads times s₀ key (liftExcept x) records post := by
  cases x with
  | ok value => exact .pure h
  | error err => exact .throw h

theorem leads_ignoringError {x : Action α} {post : Except GoError Unit → Records → Prop}
    (h : Leads times s₀ key x records fun _ records' => post (.ok ()) records') :
    Leads times s₀ key (ignoringError x) records post :=
  .of_ensures fun s hs => ensures_ignoringError (Program.wp_mono
    (fun result s' hresult => by cases result <;> exact hresult) (h s hs))

theorem leads_redisDeleteRaw {post : Except GoError Bool → Records → Prop}
    (h : ∀ found, post (.ok found) noRecords) :
    Leads times s₀ key (redisDeleteRaw key) records post :=
  .of_ensures fun _ hs => ensures_redisDeleteRaw fun found => ⟨noRecords, hs.without, h found⟩

/-- A value is written with any deadline. -/
theorem leads_putPayload (slot : Slot) {payload : Bytes} (ttl : ℤ)
    {post : Except GoError Unit → Records → Prop}
    (h : ∀ expiresAt, IsInt64 expiresAt → (ttl ≤ 0 → expiresAt = 0) →
      post (.ok ()) (Function.update records slot (some (bytesRecord payload expiresAt)))) :
    Leads times s₀ key (putPayload (slot.storageKey key) Redis.bytesCodec payload ttl) records post := by
  refine .seq (?_ : Leads times s₀ key (deadlineAfter ttl) records _)
  unfold deadlineAfter
  split
  · refine .seq (leads_now fun time => .pure ?_)
    exact .seq (leads_liftExcept (leads_put slot (h _ (isInt64_wrapInt64 _) (by omega))))
  · exact .pure (.seq (leads_liftExcept (leads_put slot (h 0 (by decide) fun _ => rfl))))

end Rules

/-! ### The probe -/

/-- The items of a list record. -/
abbrev itemRecords (items : List Bytes) : List Bytes := items.map (bytesRecord · 0)

/-- A list whose count and items fit the length fields of its record. -/
def FittingList (items : List Bytes) : Prop :=
  items.length < 2 ^ 32 ∧ ShortItems (items.map (bytesRecord · 0))

theorem length_encodeRedisExpiry (expiresAt : ℤ) : (encodeRedisExpiry expiresAt).length = 8 :=
  length_bigEndian 8 _

theorem toInt64_encodeRedisExpiry {expiresAt : ℤ} (h : IsInt64 expiresAt) :
    toInt64 (ofBigEndian (encodeRedisExpiry expiresAt)) = expiresAt := by
  rw [encodeRedisExpiry, ofBigEndian_bigEndian_of_lt (toUInt64_lt _), toInt64_toUInt64 h]

/-- What the records can keep at any clock reading: a deadline of 64 bits, and a list
whose count and items fit the length fields of its record. -/
structure Recordable (value : Value) (deadline : Option ℤ) : Prop where
  deadline : ∀ d ∈ deadline, IsInt64 d
  list : ∀ items, value = .list items → FittingList items

theorem Recordable.of_typ_ne_list {value : Value} {deadline : Option ℤ}
    (hdeadline : ∀ d ∈ deadline, IsInt64 d) (htyp : value.typ ≠ .list) :
    Recordable value deadline :=
  ⟨hdeadline, by rintro items rfl; exact absurd rfl htyp⟩

theorem Recordable.isInt64 {value : Value} {deadline : Option ℤ} (h : Recordable value deadline) :
    IsInt64 (deadline.getD 0) := by
  cases deadline with
  | none => decide
  | some d => exact h.deadline d rfl

section Probe

variable {times : ℤ → Prop} {s₀ : Store} {key : Bytes} {value : Value} {deadline : Option ℤ}

theorem leads_redisMetadataExpiry {records : Records}
    (hrecord : records .ttl = deadline.map encodeRedisExpiry)
    {post : Except GoError (Option ℤ) → Records → Prop}
    (h : post (.ok (deadline.map fun d => toInt64 (ofBigEndian (encodeRedisExpiry d)))) records) :
    Leads times s₀ key (redisMetadataExpiry key) records post := by
  refine .seq (leads_get .ttl ?_)
  rw [hrecord]
  cases deadline with
  | none => exact .pure h
  | some d =>
    exact .ite (fun hlength => absurd (length_encodeRedisExpiry d) hlength) fun _ => .pure h

/-- The deadline that is in a record of its own: that of a collection. -/
def Value.ttl (value : Value) (deadline : Option ℤ) : Option ℤ :=
  if value.typ = .string then none else deadline

theorem Value.records_ttl (value : Value) (deadline : Option ℤ) :
    value.records deadline .ttl = (value.ttl deadline).map encodeRedisExpiry := by
  cases value <;> rfl

/-- The value is alive at one of the readings: its deadline lies ahead. The deadline of a
string is none when it is not positive. -/
def MayLive (times : ℤ → Prop) (value : Value) (deadline : Option ℤ) : Prop :=
  ∀ d ∈ deadline, value.typ = .string ∧ d ≤ 0 ∨ ∃ time, times time ∧ wrapInt64 time < d

/-- The deadline of the value has passed at one of the readings. -/
def MayPass (times : ℤ → Prop) (value : Value) (deadline : Option ℤ) : Prop :=
  ∃ d ∈ deadline, (value.typ = .string → 0 < d) ∧ ∃ time, times time ∧ d ≤ wrapInt64 time

theorem mayPass_string {data : Bytes} (hpos : 0 < deadline.getD 0)
    (hpast : ∃ time, times time ∧ deadline.getD 0 ≤ wrapInt64 time) :
    MayPass times (.string data) deadline := by
  cases deadline with
  | none => exact absurd hpos (lt_irrefl 0)
  | some d => exact ⟨d, rfl, fun _ => hpos, hpast⟩

theorem leads_redisKeyExpired (hdeadline : ∀ d ∈ deadline, IsInt64 d)
    {post : Except GoError Bool → Records → Prop}
    (hlive : (value.typ ≠ .string → MayLive times value deadline) →
      post (.ok false) (value.records deadline))
    (hpassed : MayPass times value deadline → post (.ok true) noRecords) :
    Leads times s₀ key (redisKeyExpired key) (value.records deadline) post := by
  refine .seq (leads_redisMetadataExpiry (value.records_ttl deadline) ?_)
  by_cases htyp : value.typ = .string
  · rw [Value.ttl, if_pos htyp]
    exact .pure (hlive (absurd htyp))
  · rw [Value.ttl, if_neg htyp]
    cases deadline with
    | none => exact .pure (hlive fun _ => by simp [MayLive])
    | some d =>
      have hround := toInt64_encodeRedisExpiry (hdeadline d rfl)
      refine .seq (leads_unixNano_of_times fun time htime => .ite (fun hahead => .pure (hlive fun _ => ?_))
        fun hnot => .seq (leads_redisDeleteRaw fun _ => .pure (hpassed ?_)))
      · rintro _ ⟨⟩
        exact .inr ⟨time, htime, hahead.trans_eq hround⟩
      · exact ⟨d, rfl, (absurd · htyp), time, htime, hround.symm.trans_le (not_lt.mp hnot)⟩

theorem leads_probeValue (hvalue : Recordable value deadline)
    {post : Except GoError Bool → Records → Prop}
    (hstring : value.typ = .string → MayLive times value deadline →
      post (.ok true) (value.records deadline))
    (hpassed : value.typ = .string → MayPass times value deadline → post (.ok false) noRecords)
    (hother : value.typ ≠ .string → post (.ok false) (value.records deadline)) :
    Leads times s₀ key (probeValue key) (value.records deadline) post := by
  refine .seq (leads_get .value ?_)
  cases value with
  | string data =>
    have herased : Function.update ((Value.string data).records deadline) .value none = noRecords := by
      funext slot
      cases slot <;> rfl
    refine .seq (leads_liftExcept ?_)
    rw [unmarshalEnvelope_bytesRecord hvalue.isInt64]
    refine .seq (leads_expiredNow_of_times (fun hahead => .pure (hstring rfl ?_)) fun hpos hpast => ?_)
    · rintro d ⟨⟩
      exact hahead.imp (⟨rfl, ·⟩) id
    · refine .seq (leads_ignoringError (leads_delete .value (.pure ?_)))
      rw [herased]
      exact hpassed rfl (mayPass_string hpos hpast)
  | _ => exact .pure (hother (by simp [Value.typ]))

theorem leads_redisHashEntriesLoop {records : Records} (fields : List (Bytes × Bytes))
    {post : Except GoError (List (Bytes × Bytes) × List Bytes) → Records → Prop}
    (h : post (.ok (fields, [])) records) :
    Leads times s₀ key (redisHashEntriesLoop (namespacePrefix kindHash key)
      (fields.map fun field => (hashKey key field.1, bytesRecord field.2 0))) records post := by
  induction fields generalizing post with
  | nil => exact .pure h
  | cons field fields ih =>
    have hname : (hashKey key field.1).drop (namespacePrefix kindHash key).length = field.1 :=
      List.drop_left' rfl
    refine .seq (leads_liftExcept ?_)
    rw [unmarshalEnvelope_bytesRecord (show IsInt64 0 by decide)]
    refine .seq (leads_expiredNow (.seq (ih (.pure ?_))) (by simp))
    rwa [hname]

/-- The loop of the hash probe: no field has expired. -/
theorem leads_probeFields {fields : List (Bytes × Bytes)} {records : Records}
    {post : Except GoError (Bool × List Bytes) → Records → Prop}
    (h : post (.ok (!fields.isEmpty, [])) records) :
    Leads times s₀ key
      (probeFields (fields.map fun field => (hashKey key field.1, bytesRecord field.2 0)))
      records post := by
  rw [probeFields_eq_map (namespacePrefix kindHash key), map_eq_pure_bind]
  exact .seq (leads_redisHashEntriesLoop fields (.pure h))

/-- The bytes of a string, and none of another value. -/
def Value.data : Value → Bytes
  | .string data => data
  | _ => []

/-- The fields of a hash, and none of another value. -/
def Value.fields : Value → Hash
  | .hash fields => fields
  | _ => ∅

/-- The members of a set, and none of another value. -/
def Value.members : Value → Members
  | .set members => members
  | _ => ∅

/-- The items of a list, and none of another value. -/
def Value.items : Value → List Bytes
  | .list items => items
  | _ => []

theorem At.scan_hash {s : Store} (h : At s₀ key s (value.records deadline)) :
    s.scan (namespacePrefix kindHash key) =
      value.fields.toList.map fun field => (hashKey key field.1, bytesRecord field.2 0) := by
  have hfield : ∀ name, value.records deadline (.field name) =
      value.fields[name]?.map (bytesRecord · 0) := by
    cases value <;> simp [Value.records, Value.fields]
  have hscan := h.scan_eq kindHash .field (fun _ => rfl)
    (value.fields.toList.map fun field => (field.1, bytesRecord field.2 0)) ?_ ?_
  · rw [hscan, List.map_map]
    rfl
  · rw [List.pairwise_map]
    exact value.fields.ordered_keys_toList
  · intro name data
    simp only [List.mem_map, Prod.exists, Prod.mk.injEq, hfield, Option.map_eq_some_iff,
      Std.ExtTreeMap.mem_toList_iff_getElem?_eq_some]
    constructor
    · rintro ⟨_, payload, hpayload, rfl, rfl⟩
      exact ⟨payload, hpayload, rfl⟩
    · rintro ⟨payload, hpayload, rfl⟩
      exact ⟨name, payload, hpayload, rfl, rfl⟩

theorem At.scan_set {s : Store} (h : At s₀ key s (value.records deadline)) :
    s.scan (namespacePrefix kindSet key) =
      value.members.toList.map fun member => (setKey key member, [1]) := by
  have hmember : ∀ name, value.records deadline (.member name) =
      if value.members.contains name then some [1] else none := by
    cases value <;> simp [Value.records, Value.members]
  have hscan := h.scan_eq kindSet .member (fun _ => rfl)
    (value.members.toList.map fun member => (member, [1])) ?_ ?_
  · rw [hscan, List.map_map]
    rfl
  · rw [List.pairwise_map]
    exact value.members.ordered_toList
  · intro name data
    simp only [List.mem_map, Prod.mk.injEq, hmember, Std.ExtTreeSet.mem_toList,
      Option.ite_none_right_eq_some, Option.some.injEq]
    constructor
    · rintro ⟨_, hname, rfl, rfl⟩
      exact ⟨hname, rfl⟩
    · rintro ⟨hname, rfl⟩
      exact ⟨name, hname, rfl, rfl⟩

theorem leads_scanAll_hash {post : Except GoError (List (Bytes × Bytes)) → Records → Prop}
    (h : post (.ok (value.fields.toList.map fun field => (hashKey key field.1, bytesRecord field.2 0)))
      (value.records deadline)) :
    Leads times s₀ key (Transport.scanAll (namespacePrefix kindHash key)) (value.records deadline)
      post :=
  .of_ensures fun _ hs => ensures_scanAll.mpr ⟨_, hs, hs.scan_hash.symm ▸ h⟩

theorem leads_scanAll_set {post : Except GoError (List (Bytes × Bytes)) → Records → Prop}
    (h : post (.ok (value.members.toList.map fun member => (setKey key member, [1])))
      (value.records deadline)) :
    Leads times s₀ key (Transport.scanAll (namespacePrefix kindSet key)) (value.records deadline)
      post :=
  .of_ensures fun _ hs => ensures_scanAll.mpr ⟨_, hs, hs.scan_set.symm ▸ h⟩

theorem leads_scanPrefix_hash {post : Except GoError Scanned → Records → Prop}
    (h : post (.ok (value.fields.toList.map fun field =>
      (hashKey key field.1, bytesRecord field.2 0), none)) (value.records deadline)) :
    Leads times s₀ key (Transport.scanPrefix (namespacePrefix kindHash key)) (value.records deadline)
      post :=
  .of_ensures fun _ hs => ensures_scanPrefix.mpr ⟨_, hs, hs.scan_hash.symm ▸ h⟩

theorem leads_probeHash {post : Except GoError Bool → Records → Prop}
    (h : post (.ok (!value.fields.isEmpty)) (value.records deadline)) :
    Leads times s₀ key (probeHash key) (value.records deadline) post := by
  refine .seq (leads_scanPrefix_hash (.seq (leads_probeFields (.seq ?_))))
  refine (.pure ?_ : Leads times s₀ key (pure ()) (value.records deadline) _)
  rw [Std.ExtTreeMap.isEmpty_toList]
  cases hempty : value.fields.isEmpty with
  | true =>
    rw [hempty] at h
    exact .pure h
  | false =>
    rw [hempty] at h
    exact .pure h

theorem leads_probeSet {post : Except GoError Bool → Records → Prop}
    (h : post (.ok (!value.members.isEmpty)) (value.records deadline)) :
    Leads times s₀ key (probeSet key) (value.records deadline) post := by
  have hfound : decide (value.members.size > 0) = !value.members.isEmpty := by
    rw [Bool.eq_iff_iff, decide_eq_true_eq, Bool.not_eq_true', ← Bool.not_eq_true,
      Std.ExtTreeSet.isEmpty_iff, Std.ExtTreeSet.eq_empty_iff_size_eq_zero, gt_iff_lt,
      Nat.pos_iff_ne_zero]
  refine .seq (leads_scanAll_set (.pure ?_))
  rwa [List.length_map, Std.ExtTreeSet.length_toList, hfound]

theorem decodeList_itemRecords {items : List Bytes} (h : FittingList items) :
    decodeList (encodeList (itemRecords items)) = .ok (itemRecords items) :=
  decodeList_encodeList (by rw [List.length_map]; exact h.1) h.2

theorem leads_probeList (hvalue : Recordable value deadline)
    {post : Except GoError Bool → Records → Prop}
    (h : post (.ok (!value.items.isEmpty)) (value.records deadline)) :
    Leads times s₀ key (probeList key) (value.records deadline) post := by
  refine .seq (leads_get .list ?_)
  cases value with
  | list items =>
    cases items with
    | nil => exact .pure h
    | cons item items =>
      refine .seq (leads_liftExcept ?_)
      rw [decodeList_itemRecords (hvalue.list _ rfl)]
      exact .pure h
  | _ => exact .pure h

/-- The probe after the value has been looked for. -/
theorem leads_probeCollections (hvalue : Recordable value deadline) (htyp : value.typ ≠ .string)
    {post : Except GoError RedisType → Records → Prop}
    (h : post (.ok (if value.isEmpty then .none else value.typ)) (value.records deadline)) :
    Leads times s₀ key (do
      if ← probeHash key then return .hash
      else if ← probeSet key then return .set
      else if ← probeList key then return .list
      else return .none) (value.records deadline) post := by
  refine .seq (leads_probeHash ?_)
  cases value with
  | string data => exact absurd rfl htyp
  | hash fields =>
    cases hempty : fields.isEmpty with
    | false =>
      simp only [Value.isEmpty, hempty] at h
      simp only [Value.fields, hempty]
      exact .pure h
    | true =>
      simp only [Value.isEmpty, hempty] at h
      simp only [Value.fields, hempty]
      exact .seq (leads_probeSet (.seq (leads_probeList hvalue (.pure h))))
  | set members =>
    refine (.seq (leads_probeSet ?_) : Leads times s₀ key _ _ _)
    cases hempty : members.isEmpty with
    | false =>
      simp only [Value.isEmpty, hempty] at h
      simp only [Value.members, hempty]
      exact .pure h
    | true =>
      simp only [Value.isEmpty, hempty] at h
      simp only [Value.members, hempty]
      exact .seq (leads_probeList hvalue (.pure h))
  | list items =>
    refine (.seq (leads_probeSet ?_) : Leads times s₀ key _ _ _)
    refine (.seq (leads_probeList hvalue ?_) : Leads times s₀ key _ _ _)
    cases items with
    | nil => exact .pure h
    | cons item items => exact .pure h

theorem records_none_eq : noRecords = (Value.list []).records none := records_list_empty.symm

theorem recordable_empty : Recordable (.list []) none :=
  ⟨nofun, by rintro _ ⟨⟩; exact ⟨by decide, by simp⟩⟩

/-- The probe finds the type of a value and leaves it, or removes it. -/
theorem leads_redisType_of_records (hvalue : Recordable value deadline)
    {post : Except GoError RedisType → Records → Prop}
    (hlive : MayLive times value deadline →
      post (.ok (if value.isEmpty then .none else value.typ)) (value.records deadline))
    (hpassed : MayPass times value deadline → post (.ok .none) noRecords) :
    Leads times s₀ key (redisType key) (value.records deadline) post := by
  refine .seq (leads_redisKeyExpired hvalue.deadline (fun hahead => .seq (leads_probeValue hvalue
    (fun htyp hmay => ?_) (fun _ hmay => ?_)
    fun htyp => leads_probeCollections hvalue htyp (hlive (hahead htyp))))
    fun hmay => .pure (hpassed hmay))
  · cases value with
    | string data => exact .pure (hlive hmay)
    | _ => cases htyp
  · have hnone := hpassed hmay
    rw [records_none_eq] at hnone ⊢
    exact leads_probeCollections recordable_empty (by simp [Value.typ]) hnone

end Probe

/-! ### Entries -/

def RecordableEntry (entry : Option Entry) : Prop :=
  ∀ e ∈ entry, Recordable e.value e.deadline

/-- The records of an entry. -/
def Kept (records : Records) : Prop := ∃ entry, RecordableEntry entry ∧ records = recordsOf entry

theorem recordableEntry_none : RecordableEntry none := nofun

theorem kept_noRecords : Kept noRecords := ⟨none, recordableEntry_none, rfl⟩

theorem Recordable.kept_of {value : Value} {deadline : Option ℤ} (h : Recordable value deadline) :
    Kept (recordsOf (Entry.of value deadline)) := by
  refine ⟨Entry.of value deadline, ?_, rfl⟩
  unfold Entry.of
  split
  · rintro _ ⟨⟩
    exact h
  · exact recordableEntry_none

theorem Recordable.kept {value : Value} {deadline : Option ℤ} (h : Recordable value deadline)
    (hempty : value.isEmpty = true → deadline = none) : Kept (value.records deadline) :=
  recordsOf_of_eq hempty ▸ h.kept_of

section Entries

variable {α β : Type} {times : ℤ → Prop} {s₀ : Store} {key : Bytes} {entry : Option Entry}

/-- The probe finds the entry if it is alive at one of the readings, and removes it if it
has passed at one of them. -/
theorem leads_redisType_of_times (hentry : RecordableEntry entry)
    {post : Except GoError RedisType → Records → Prop}
    (hlive : (∀ e ∈ entry, MayLive times e.value e.deadline) →
      post (.ok (typeOf entry)) (recordsOf entry))
    (hpassed : (∃ e ∈ entry, MayPass times e.value e.deadline) → post (.ok .none) noRecords) :
    Leads times s₀ key (redisType key) (recordsOf entry) post := by
  cases entry with
  | none =>
    rw [recordsOf, records_none_eq]
    refine leads_redisType_of_records recordable_empty (fun _ => ?_) (by simp [MayPass])
    rw [← records_none_eq]
    exact hlive (by simp)
  | some e =>
    refine leads_redisType_of_records (hentry e rfl) (fun hmay => ?_) fun hmay => hpassed ⟨e, rfl, hmay⟩
    rw [e.nonempty]
    refine hlive ?_
    rintro _ ⟨⟩
    exact hmay

/-- Code after the probe finds an entry of the type that the probe reports. -/
theorem leads_redisType_bind (hentry : RecordableEntry entry) {f : RedisType → Action α}
    {post : Except GoError α → Records → Prop}
    (hf : ∀ entry', RecordableEntry entry' → entry' = entry ∨ entry' = none →
      Leads times s₀ key (f (typeOf entry')) (recordsOf entry') post) :
    Leads times s₀ key (redisType key >>= f) (recordsOf entry) post :=
  .seq (leads_redisType_of_times hentry (fun _ => hf entry hentry (.inl rfl))
    fun _ => hf none recordableEntry_none (.inr rfl))

end Entries

/-! ### Readers -/

theorem toList_fields_eq_nil {fields : Hash} :
    fields.toList = [] ↔ (Value.hash fields).isEmpty = true :=
  Std.ExtTreeMap.toList_eq_nil_iff.trans Std.ExtTreeMap.isEmpty_iff.symm

theorem toList_members_eq_nil {members : Members} :
    members.toList = [] ↔ (Value.set members).isEmpty = true :=
  Std.ExtTreeSet.toList_eq_nil_iff.trans Std.ExtTreeSet.isEmpty_iff.symm

/-- What code that reads values of one type finds on a value that is alive: an empty
collection is absent, and another type is refused. -/
def Value.readAs {α : Type} (value : Value) (typ : RedisType) (absent found : α) :
    Except GoError α :=
  if value.isEmpty then .ok absent
  else if value.typ = typ then .ok found
  else .error (wrongType value.typ)

theorem Value.readAs_eq {α : Type} {value : Value} {typ : RedisType} {absent found : α}
    (htyp : value.typ = typ) (hempty : value.isEmpty = true → absent = found) :
    value.readAs typ absent found = .ok found := by
  by_cases h : value.isEmpty = true
  · rw [Value.readAs, if_pos h, hempty h]
  · rw [Value.readAs, if_neg h, if_pos htyp]

/-- Code that reads the value of a key: it finds a value that is alive and leaves it, or
the value has passed and is removed. -/
def Reads {α : Type} (times : ℤ → Prop) (s₀ : Store) (key : Bytes) (x : Action α) (value : Value)
    (deadline : Option ℤ) (found gone : Except GoError α) : Prop :=
  Leads times s₀ key x (value.records deadline) fun result records =>
    MayLive times value deadline ∧ result = found ∧ records = value.records deadline ∨
      MayPass times value deadline ∧ result = gone ∧ records = noRecords

section Readers

variable {α β : Type} {times : ℤ → Prop} {s₀ : Store} {key : Bytes} {value : Value}
  {deadline : Option ℤ} {found gone : Except GoError α}

theorem Reads.leads {x : Action α} (h : Reads times s₀ key x value deadline found gone)
    {post : Except GoError α → Records → Prop}
    (hfound : MayLive times value deadline → post found (value.records deadline))
    (hgone : MayPass times value deadline → post gone noRecords) :
    Leads times s₀ key x (value.records deadline) post := by
  refine Fallible.Leads.mono h ?_
  rintro _ _ (⟨hlive, rfl, rfl⟩ | ⟨hpassed, rfl, rfl⟩)
  exacts [hfound hlive, hgone hpassed]

theorem reads_redisType (hvalue : Recordable value deadline) :
    Reads times s₀ key (redisType key) value deadline
      (.ok (if value.isEmpty then .none else value.typ)) (.ok .none) :=
  leads_redisType_of_records hvalue (fun hlive => .inl ⟨hlive, rfl, rfl⟩)
    fun hpassed => .inr ⟨hpassed, rfl, rfl⟩

/-- Code that reads the values of one type after the probe. -/
theorem reads_of_type {typ : RedisType} {f : RedisType → Action α} {absent found : α}
    (hvalue : Recordable value deadline) (hnone : f .none = pure absent)
    (hother : ∀ typ', typ' ≠ .none → typ' ≠ typ → f typ' = throw (wrongType typ'))
    (hbody : value.typ = typ → value.isEmpty = false → MayLive times value deadline →
      Reads times s₀ key (f typ) value deadline (.ok found) (.ok absent)) :
    Reads times s₀ key (redisType key >>= f) value deadline (value.readAs typ absent found)
      (.ok absent) := by
  refine .seq (leads_redisType_of_records hvalue (fun hlive => ?_) fun hpassed => ?_)
  · refine Fallible.Leads.continues_ok.mpr ?_
    unfold Value.readAs
    cases hempty : value.isEmpty with
    | true =>
      rw [if_pos rfl, if_pos rfl, hnone]
      exact .pure (.inl ⟨hlive, rfl, rfl⟩)
    | false =>
      rw [if_neg Bool.false_ne_true, if_neg Bool.false_ne_true]
      by_cases htyp : value.typ = typ
      · rw [if_pos htyp, htyp]
        exact hbody htyp hempty hlive
      · rw [if_neg htyp, hother _ value.typ_ne_none htyp]
        exact .throw (.inl ⟨hlive, rfl, rfl⟩)
  · refine Fallible.Leads.continues_ok.mpr ?_
    rw [hnone]
    exact .pure (.inr ⟨hpassed, rfl, rfl⟩)

theorem reads_redisString (hvalue : Recordable value deadline) :
    Reads times s₀ key (redisString key) value deadline (value.readAs .string none (some value.data))
      (.ok none) := by
  refine reads_of_type hvalue rfl (fun typ _ _ => by cases typ <;> first | rfl | contradiction)
    fun htyp _ hlive => ?_
  cases value with
  | string data =>
    refine .seq (leads_get .value (.seq (leads_liftExcept ?_)))
    rw [unmarshalEnvelope_bytesRecord hvalue.isInt64]
    exact .seq (leads_expiredNow_of_times (fun _ => .pure (.inl ⟨hlive, rfl, rfl⟩)) fun hpos hpast =>
      .seq (leads_ignoringError (leads_redisDeleteRaw fun _ =>
        .pure (.inr ⟨mayPass_string hpos hpast, rfl, rfl⟩))))
  | _ => cases htyp

/-- The deadline that counts: that of a string only when it is positive. -/
def Value.expiry (value : Value) (deadline : Option ℤ) : Option ℤ :=
  deadline.filter fun d => decide (value.typ = .string → 0 < d)

theorem Value.expiry_string (data : Bytes) (deadline : Option ℤ) :
    (Value.string data).expiry deadline =
      if deadline.getD 0 > 0 then some (deadline.getD 0) else none := by
  cases deadline <;> simp [Value.expiry, Option.filter, Value.typ]

theorem reads_redisExpiry (hvalue : Recordable value deadline) :
    Reads times s₀ key (redisExpiry key) value deadline
      (.ok (if value.isEmpty then none else value.expiry deadline)) (.ok none) := by
  refine .seq (leads_redisType_of_records hvalue (fun hlive => ?_)
    fun hpassed => .pure (.inr ⟨hpassed, rfl, rfl⟩))
  cases hempty : value.isEmpty with
  | true => exact .pure (.inl ⟨hlive, rfl, rfl⟩)
  | false =>
    cases value with
    | string data =>
      refine .seq (leads_get .value (.seq (leads_liftExcept ?_)))
      rw [unmarshalEnvelope_bytesRecord hvalue.isInt64, Value.expiry_string]
      exact .ite (fun hpos => .pure (.inl ⟨hlive, by rw [if_pos hpos]; rfl, rfl⟩))
        fun hpos => .pure (.inl ⟨hlive, by rw [if_neg hpos]; rfl, rfl⟩)
    | _ =>
      refine leads_redisMetadataExpiry (Value.records_ttl _ deadline) (.inl ⟨hlive, ?_, rfl⟩)
      cases deadline with
      | none => rfl
      | some d =>
        exact congrArg (fun d => Except.ok (some d)) (toInt64_encodeRedisExpiry (hvalue.deadline d rfl))

theorem reads_redisHashField (hvalue : Recordable value deadline) (field : Bytes) :
    Reads times s₀ key (redisHashField key field) value deadline
      (value.readAs .hash none value.fields[field]?) (.ok none) := by
  refine reads_of_type hvalue rfl (fun typ _ _ => by cases typ <;> first | rfl | contradiction)
    fun htyp _ hlive => ?_
  cases value with
  | hash fields =>
    refine .seq (leads_get (.field field) ?_)
    cases hfield : fields[field]? with
    | none =>
      simp only [Value.records, hfield]
      exact .pure (.inl ⟨hlive, congrArg Except.ok hfield.symm, rfl⟩)
    | some data =>
      simp only [Value.records, hfield]
      refine .seq (leads_liftExcept ?_)
      rw [unmarshalEnvelope_bytesRecord (by decide)]
      exact .seq (leads_expiredNow (.pure (.inl ⟨hlive, congrArg Except.ok hfield.symm, rfl⟩)) (by simp))
  | _ => cases htyp

/-- The fields of a hash are read in byte order. -/
theorem reads_redisHashEntries (hvalue : Recordable value deadline) :
    Reads times s₀ key (redisHashEntries key) value deadline
      (value.readAs .hash [] value.fields.toList) (.ok []) := by
  refine reads_of_type hvalue rfl (fun typ _ _ => by cases typ <;> first | rfl | contradiction)
    fun htyp hempty hlive => ?_
  cases value with
  | hash fields =>
    have hlength : fields.toList.length ≠ 0 := fun hzero =>
      Bool.false_ne_true (hempty.symm.trans (toList_fields_eq_nil.mp (List.length_eq_zero_iff.mp hzero)))
    have hsorted : fields.toList.Pairwise fun left right => (compare left.1 right.1).isLE = true :=
      fields.ordered_keys_toList.imp fun h => by rw [h]; rfl
    refine .seq (leads_scanAll_hash (.seq (leads_redisHashEntriesLoop _ (.seq (.pure ?_)))))
    exact .ite (absurd · hlength) fun _ =>
      .pure (.inl ⟨hlive, congrArg Except.ok hsorted.insertionSort_eq, rfl⟩)
  | _ => cases htyp

/-- The fields of a hash that may have lost all of them. -/
theorem reads_fields {fields : Hash} (hdeadline : ∀ d ∈ deadline, IsInt64 d) :
    Reads times s₀ key (redisHashEntries key) (.hash fields) deadline (.ok fields.toList) (.ok []) := by
  have hread : (Value.hash fields).readAs .hash [] fields.toList = .ok fields.toList :=
    Value.readAs_eq rfl fun hempty => (toList_fields_eq_nil.mpr hempty).symm
  rw [← hread]
  exact reads_redisHashEntries (.of_typ_ne_list hdeadline (by simp [Value.typ]))

theorem names_members (members : Members) :
    ((members.toList.map fun member => (setKey key member, ([1] : Bytes))).map fun record =>
      record.1.drop (namespacePrefix kindSet key).length) = members.toList := by
  rw [List.map_map]
  exact List.map_id'' (fun _ => List.drop_left' rfl) _

theorem sortStrings_toList (members : Members) : sortStrings members.toList = members.toList := by
  have hsorted : members.toList.Pairwise fun left right => (compare left right).isLE = true :=
    members.ordered_toList.imp fun h => by rw [h]; rfl
  exact hsorted.insertionSort_eq

/-- The members of a set are read in byte order. -/
theorem reads_redisSetMembers (hvalue : Recordable value deadline) :
    Reads times s₀ key (redisSetMembers key) value deadline
      (value.readAs .set [] value.members.toList) (.ok []) := by
  refine reads_of_type hvalue rfl (fun typ _ _ => by cases typ <;> first | rfl | contradiction)
    fun htyp hempty hlive => ?_
  cases value with
  | set members =>
    have hlength : members.toList.length ≠ 0 := fun hzero =>
      Bool.false_ne_true (hempty.symm.trans (toList_members_eq_nil.mp (List.length_eq_zero_iff.mp hzero)))
    refine .seq (leads_scanAll_set (Fallible.Leads.continues_ok.mpr ?_))
    simp only [Value.members, names_members]
    exact .ite (absurd · hlength) fun _ =>
      .pure (.inl ⟨hlive, congrArg Except.ok (sortStrings_toList members), rfl⟩)
  | _ => cases htyp

/-- The members of a set that may have lost all of them. -/
theorem reads_members {members : Members} (hdeadline : ∀ d ∈ deadline, IsInt64 d) :
    Reads times s₀ key (redisSetMembers key) (.set members) deadline (.ok members.toList)
      (.ok []) := by
  have hread : (Value.set members).readAs .set [] members.toList = .ok members.toList :=
    Value.readAs_eq rfl fun hempty => (toList_members_eq_nil.mpr hempty).symm
  rw [← hread]
  exact reads_redisSetMembers (.of_typ_ne_list hdeadline (by simp [Value.typ]))

theorem redisItemPayload_bytesRecord (item : Bytes) (time : ℤ) :
    redisItemPayload (bytesRecord item 0) time = .ok (some item) := by
  have hlive : (⟨0, Redis.bytesCodec, item⟩ : Envelope).expired time = false :=
    Envelope.expired_of_nonpos le_rfl time
  rw [redisItemPayload_of_decodes (unmarshalEnvelope_bytesRecord (by decide)), hlive]
  rfl

theorem leads_redisLiveItems {records : Records} (items : List Bytes)
    {post : Except GoError (List Bytes) → Records → Prop}
    (h : post (.ok (itemRecords items)) records) :
    Leads times s₀ key (redisLiveItems (itemRecords items)) records post := by
  induction items generalizing post with
  | nil => exact .pure h
  | cons item items ih =>
    refine .seq (leads_now fun time => .seq (leads_liftExcept ?_))
    rw [redisItemPayload_bytesRecord]
    exact .seq (ih (.pure h))

theorem reads_redisListValues (hvalue : Recordable value deadline) :
    Reads times s₀ key (redisListValues key) value deadline
      (value.readAs .list [] (itemRecords value.items)) (.ok []) := by
  rw [redisListValues, redisList, bind_assoc]
  refine reads_of_type hvalue rfl (fun typ _ _ => by cases typ <;> first | rfl | contradiction)
    fun htyp hempty hlive => ?_
  cases value with
  | list items =>
    cases items with
    | nil => cases hempty
    | cons item items =>
      refine .seq (.seq (leads_get .list (.seq (leads_liftExcept ?_))))
      rw [decodeList_itemRecords (hvalue.list _ rfl)]
      exact .pure (.seq (leads_redisLiveItems _ (.ite (fun hne => absurd rfl hne) fun _ =>
        .pure (.inl ⟨hlive, rfl, rfl⟩))))
  | _ => cases htyp

end Readers

end KVLite.TypedMap
