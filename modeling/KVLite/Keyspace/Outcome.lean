import KVLite.Keyspace.Confined
import KVLite.Keyspace.LiveData
import KVLite.Redis.Collections

/-!
# The outcomes of the type probe

At one clock reading, the type that the probe reports and the store that it leaves follow
from the records of the key. `TypeOutcome` lists the cases; proofs about commands go through
them instead of the code of the probe.
-/

namespace KVLite

open Semantics Fallible BigEndian Redis

/-- The key has no value, or one that has expired. -/
def ValuePassed (time : ℤ) (s : Store) (key : Bytes) : Prop :=
  ∀ data, s[valueKey key]? = some data → envelopeExpired data time = true

/-- What the probe of a key reports, and the store it leaves. -/
inductive TypeOutcome (time : ℤ) (s : Store) (key : Bytes) : RedisType → Store → Prop
  /-- The deadline of the key has passed. -/
  | passed (hpassed : TTLPassed time s key) : TypeOutcome time s key .none (s.without key)
  | string (hahead : TTLAhead time s key) (hfound : Found time s key .string) :
    TypeOutcome time s key .string s
  | hash (hahead : TTLAhead time s key) (hvalue : ValuePassed time s key)
    (hdecodes : ∀ record ∈ fieldRecords s key, ∃ value, unmarshalEnvelope record.2 = .ok value)
    (hlive : ∃ record ∈ fieldRecords s key, envelopeExpired record.2 time = false) :
    TypeOutcome time s key .hash (withoutExpiredFields time (s.erase (valueKey key)) key)
  | set (hahead : TTLAhead time s key) (hvalue : ValuePassed time s key)
    (hfields : fieldRecords s key = []) (hmembers : s.scan (namespacePrefix kindSet key) ≠ []) :
    TypeOutcome time s key .set (s.erase (valueKey key))
  | list {data : Bytes} {items : List Bytes} (hahead : TTLAhead time s key)
    (hvalue : ValuePassed time s key) (hfields : fieldRecords s key = [])
    (hmembers : s.scan (namespacePrefix kindSet key) = []) (hget : s[listKey key]? = some data)
    (hdecode : decodeList data = .ok items) (hne : items ≠ []) :
    TypeOutcome time s key .list (s.erase (valueKey key))
  /-- Every field has expired, or the list is empty: the whole key goes. -/
  | swept (hahead : TTLAhead time s key) (hvalue : ValuePassed time s key)
    (hrecords : fieldRecords s key ≠ [] ∨ s.scan (namespacePrefix kindSet key) = [] ∧
      ∃ data, s[listKey key]? = some data ∧ decodeList data = .ok [])
    (hfields : ∀ record ∈ fieldRecords s key, envelopeExpired record.2 time = true) :
    TypeOutcome time s key .none (s.without key)
  /-- There is nothing but perhaps expiry metadata. -/
  | absent (hahead : TTLAhead time s key) (hvalue : ValuePassed time s key)
    (hfields : fieldRecords s key = []) (hmembers : s.scan (namespacePrefix kindSet key) = [])
    (hlist : s[listKey key]? = none) :
    TypeOutcome time s key .none (s.erase (valueKey key))

section Outcome

variable {time : ℤ} {s s' : Store} {key : Bytes} {typ : RedisType}

theorem without_erase_value : Store.without (s.erase (valueKey key)) key = s.without key :=
  ((SameElsewhere.refl key s).erase (.inl rfl)).without_eq

/-- The probe removes a value that has passed. -/
theorem ValuePassed.run_probeValue (h : ValuePassed time s key) :
    run (embedded time) (probeValue key) s = (.ok false, s.erase (valueKey key)) := by
  cases hget : s[valueKey key]? with
  | none => rw [run_probeValue_of_none hget, Store.erase_of_none hget]
  | some data =>
    obtain ⟨value, hdata, hexpired⟩ := exists_of_envelopeExpired (h data hget)
    exact run_probeValue_of_expired hget hdata hexpired

/-- When every field has expired, nothing is left for the later probes. -/
theorem run_redisType_of_expired_fields (hahead : TTLAhead time s key)
    (hvalue : ValuePassed time s key) (hne : fieldRecords s key ≠ [])
    (hexpired : ∀ record ∈ fieldRecords s key, envelopeExpired record.2 time = true) :
    run (embedded time) (redisType key) s = (.ok .none, s.without key) := by
  have hfields : fieldRecords (s.erase (valueKey key)) key = fieldRecords s key :=
    fieldRecords_erase_value
  rw [← hfields] at hne hexpired
  have hhash := run_probeHash_of_expired (fun record hmem =>
    let ⟨value, hvalue, _⟩ := exists_of_envelopeExpired (hexpired record hmem)
    ⟨value, hvalue⟩) hexpired hne
  rw [without_erase_value] at hhash
  have hgone := Store.noRecordOf_without s key
  exact run_redisType_of_list hahead hvalue.run_probeValue hhash
    (Store.scan_eq_nil_iff.mpr fun r hpre => hgone r (.inr (.inr (.inr (.inr hpre)))))
    (run_probeList_of_none (hgone _ (.inr (.inl rfl))))

/-- The probe of the key ends with one of the outcomes, or it fails and has removed nothing but
a value that has passed. -/
def ProbeEnds (time : ℤ) (s : Store) (key : Bytes) : Prop :=
  (∃ typ s', run (embedded time) (redisType key) s = (.ok typ, s') ∧
    TypeOutcome time s key typ s') ∨
  ∃ err s', run (embedded time) (redisType key) s = (.error err, s') ∧
    (s' = s ∨ ValuePassed time s key ∧ s' = s.erase (valueKey key))

theorem ProbeEnds.ok (hrun : run (embedded time) (redisType key) s = (.ok typ, s'))
    (h : TypeOutcome time s key typ s') : ProbeEnds time s key :=
  .inl ⟨typ, s', hrun, h⟩

/-- The probe of a key without a live value and without fields. -/
theorem probeEnds_of_no_fields (hahead : TTLAhead time s key)
    (hvalue : ValuePassed time s key) (hfields : fieldRecords s key = []) :
    ProbeEnds time s key := by
  have hrun := hvalue.run_probeValue
  have hhash := run_probeHash_of_nil time (fieldRecords_erase_value.trans hfields)
  have hlistKey : (s.erase (valueKey key))[listKey key]? = s[listKey key]? :=
    Store.getElem?_erase_of_ne _ (valueKey_ne_listKey _ _)
  by_cases hmembers : s.scan (namespacePrefix kindSet key) = []
  swap
  · exact .ok (run_redisType_of_set hahead hrun hhash (members_erase_value.trans_ne hmembers))
      (.set hahead hvalue hfields hmembers)
  have hset := members_erase_value.trans hmembers
  cases hget : s[listKey key]? with
  | none =>
    exact .ok (run_redisType_of_list hahead hrun hhash hset
      (run_probeList_of_none (hlistKey.trans hget))) (.absent hahead hvalue hfields hmembers hget)
  | some data =>
    cases hdecode : decodeList data with
    | error err =>
      exact .inr ⟨_, _, run_redisType_of_list_error hahead hrun hhash hset
        (run_probeList_of_malformed (hlistKey.trans hget) hdecode), .inr ⟨hvalue, rfl⟩⟩
    | ok items =>
      by_cases hne : items = []
      · subst hne
        have hswept := run_redisType_of_list hahead hrun hhash hset
          (run_probeList_of_empty (hlistKey.trans hget) hdecode)
        rw [without_erase_value] at hswept
        refine .ok hswept (.swept hahead hvalue (.inr ⟨hmembers, data, hget, hdecode⟩) ?_)
        rw [hfields]
        exact fun _ hmem => by cases hmem
      · exact .ok (run_redisType_of_list hahead hrun hhash hset
          (run_probeList_of_items (hlistKey.trans hget) hdecode hne))
          (.list hahead hvalue hfields hmembers hget hdecode hne)

/-- The outcomes are all there are. -/
theorem probeEnds (time : ℤ) (s : Store) (key : Bytes) : ProbeEnds time s key := by
  by_cases hpassed : TTLPassed time s key
  · exact .ok (run_redisType_of_passed hpassed) (.passed hpassed)
  by_cases hahead : TTLAhead time s key
  swap
  · obtain ⟨err, hrun⟩ := run_redisKeyExpired_of_malformed hahead hpassed
    exact .inr ⟨_, _, run_redisType_of_malformed hrun, .inl rfl⟩
  rcases probed_probeValue time s key with ⟨err, hrun⟩ | ⟨hrun, hfound⟩ | ⟨hrun, hvalue⟩
  · exact .inr ⟨_, _, run_redisType_of_value_error hahead hrun, .inl rfl⟩
  · exact .ok (run_redisType_of_value hahead hrun) (.string hahead hfound)
  by_cases hnil : fieldRecords s key = []
  · exact probeEnds_of_no_fields hahead hvalue hnil
  have hfields : fieldRecords (s.erase (valueKey key)) key = fieldRecords s key :=
    fieldRecords_erase_value
  by_cases hdecodes : ∀ record ∈ fieldRecords s key, ∃ value, unmarshalEnvelope record.2 = .ok value
  swap
  · obtain ⟨err, hhash⟩ := run_probeHash_of_malformed time (hfields.symm ▸ hdecodes)
    exact .inr ⟨_, _, run_redisType_of_hash_error hahead hrun hhash, .inr ⟨hvalue, rfl⟩⟩
  by_cases hlive : ∃ record ∈ fieldRecords s key, envelopeExpired record.2 time = false
  · exact .ok (run_redisType_of_hash hahead hrun
      (run_probeHash_of_live (hfields.symm ▸ hdecodes) (hfields.symm ▸ hlive)))
      (.hash hahead hvalue hdecodes hlive)
  · have hexpired : ∀ record ∈ fieldRecords s key, envelopeExpired record.2 time = true := by
      intro record hmem
      by_contra hnot
      exact hlive ⟨record, hmem, by simpa using hnot⟩
    exact .ok (run_redisType_of_expired_fields hahead hvalue hnil hexpired)
      (.swept hahead hvalue (.inl hnil) hexpired)

theorem typeOutcome_of_run (h : run (embedded time) (redisType key) s = (.ok typ, s')) :
    TypeOutcome time s key typ s' := by
  rcases probeEnds time s key with ⟨_, _, hrun, houtcome⟩ | ⟨_, _, hrun, -⟩ <;> rw [h] at hrun <;> cases hrun
  exact houtcome

theorem TTLAhead.erase (h : TTLAhead time s key) {storageKey : Bytes} :
    TTLAhead time (s.erase storageKey) key :=
  fun data hget => h data (Store.getElem?_of_erase hget)

/-- A key that is not endangered is swept only when nothing of it is live. -/
theorem probed_swept (hs : ¬ Endangered time s key) (hahead : TTLAhead time s key)
    (hvalue : ValuePassed time s key)
    (hrecords : fieldRecords s key ≠ [] ∨ s.scan (namespacePrefix kindSet key) = [] ∧
      ∃ data, s[listKey key]? = some data ∧ decodeList data = .ok [])
    (hfields : ∀ record ∈ fieldRecords s key, envelopeExpired record.2 time = true) :
    Probed time key s (s.without key) := by
  have hrest : ¬ HasKind s key .set ∧
      ∀ data, s[listKey key]? = some data → decodeList data = .ok [] := by
    rcases hrecords with hne | ⟨hmembers, data, hget, hempty⟩
    · have hrest := not_or.mp fun hrest => hs ⟨hahead, hvalue, hne, hfields, hrest⟩
      exact ⟨hrest.1, fun data hget => by_contra fun hlist => hrest.2 ⟨data, hget, hlist⟩⟩
    · constructor
      · rintro ⟨storageKey, data, hpre, hget⟩
        rw [Store.scan_eq_nil_iff.mp hmembers storageKey hpre] at hget
        cases hget
      · intro data' hget'
        cases hget.symm.trans hget'
        exact hempty
  exact probed_without_of_empty hvalue hfields hrest.1 hrest.2

/-- The probe of a key that is not endangered removes only what may be removed. -/
theorem probed_redisType (hs : ¬ Endangered time s key) :
    ∃ result s', run (embedded time) (redisType key) s = (result, s') ∧
      Probed time key s s' ∧ ∀ typ, result = .ok typ → Found time s' key typ := by
  rcases probeEnds time s key with ⟨typ, s', hrun, houtcome⟩ | ⟨err, s', hrun, hstore⟩
  · refine ⟨_, _, hrun, ?_⟩
    cases houtcome with
    | passed hpassed =>
      exact ⟨.without fun _ _ hrecord _ => .collection hrecord hpassed, by rintro _ ⟨⟩; trivial⟩
    | string hahead hfound => exact ⟨.refl _ _, by rintro _ ⟨⟩; exact hfound⟩
    | hash hahead hvalue hdecodes hlive =>
      refine ⟨(probed_erase_value hvalue).trans probed_withoutExpiredFields, ?_⟩
      rintro _ ⟨⟩
      exact found_withoutExpiredFields (fieldRecords_erase_value.symm ▸ hlive)
    | set hahead hvalue hfields hmembers =>
      exact ⟨probed_erase_value hvalue, by rintro _ ⟨⟩; exact members_erase_value.trans_ne hmembers⟩
    | list hahead hvalue => exact ⟨probed_erase_value hvalue, by rintro _ ⟨⟩; trivial⟩
    | swept hahead hvalue hrecords hfields =>
      exact ⟨probed_swept hs hahead hvalue hrecords hfields, by rintro _ ⟨⟩; trivial⟩
    | absent hahead hvalue => exact ⟨probed_erase_value hvalue, by rintro _ ⟨⟩; trivial⟩
  · refine ⟨_, _, hrun, ?_, nofun⟩
    rcases hstore with rfl | ⟨hvalue, rfl⟩
    · exact .refl _ _
    · exact probed_erase_value hvalue

/-- The key has no record but perhaps expiry metadata whose deadline is ahead. -/
structure Cleared (time : ℤ) (s : Store) (key : Bytes) : Prop where
  ahead : TTLAhead time s key
  gone : ∀ storageKey, RecordOf key storageKey → storageKey ≠ collectionTTLKey key →
    s[storageKey]? = none

theorem NoRecordOf.cleared (h : NoRecordOf key s) : Cleared time s key where
  ahead data hdata := by
    rw [h _ (.inr (.inr (.inl rfl)))] at hdata
    cases hdata
  gone storageKey hrecord _ := h storageKey hrecord

theorem cleared_of_parts (hahead : TTLAhead time s key) (hvalue : s[valueKey key]? = none)
    (hfields : fieldRecords s key = []) (hmembers : s.scan (namespacePrefix kindSet key) = [])
    (hlist : s[listKey key]? = none) : Cleared time s key where
  ahead := hahead
  gone storageKey hrecord hne := by
    rcases hrecord with rfl | rfl | rfl | hpre | hpre
    · exact hvalue
    · exact hlist
    · exact absurd rfl hne
    · exact Store.scan_eq_nil_iff.mp hfields storageKey hpre
    · exact Store.scan_eq_nil_iff.mp hmembers storageKey hpre

/-- A key of type `none` is cleared. -/
theorem TypeOutcome.cleared (h : TypeOutcome time s key .none s') : Cleared time s' key := by
  cases h with
  | passed _ => exact (Store.noRecordOf_without s key).cleared
  | swept _ _ _ _ => exact (Store.noRecordOf_without s key).cleared
  | absent hahead hvalue hfields hmembers hlist =>
    refine cleared_of_parts hahead.erase ?_ (fieldRecords_erase_value.trans hfields)
      (members_erase_value.trans hmembers) ?_
    · rw [Store.getElem?_erase, if_pos rfl]
    · rw [Store.getElem?_erase_of_ne _ (valueKey_ne_listKey _ _), hlist]

/-- A list that is read was there before the probe, with nothing live beside it. -/
theorem outcome_of_run_redisList {found : Option (List Bytes)}
    (h : run (embedded time) (redisList key) s = (.ok found, s')) :
    found = none ∧ Cleared time s' key ∨
    ∃ items, found = some items ∧ s' = s.erase (valueKey key) ∧ TTLAhead time s key ∧
      ValuePassed time s key ∧ fieldRecords s key = [] ∧ s.scan (namespacePrefix kindSet key) = [] ∧
      ∃ data, s[listKey key]? = some data ∧ decodeList data = .ok items ∧ items ≠ [] := by
  obtain ⟨typ, probed, htype, hread⟩ := exists_of_run_bind_eq_ok h
  have houtcome := typeOutcome_of_run htype
  cases typ with
  | none =>
    cases hread
    exact .inl ⟨rfl, houtcome.cleared⟩
  | list =>
    cases houtcome with
    | @list data stored hahead hvalue hfields hmembers hget hdecode hne =>
      dsimp only at hread
      rw [run_bind_ok Transport.run_get,
        Store.getElem?_erase_of_ne _ (valueKey_ne_listKey _ _), hget] at hread
      dsimp only at hread
      rw [hdecode, run_bind_ok (run_liftExcept _)] at hread
      cases hread
      exact .inr ⟨stored, rfl, rfl, hahead, hvalue, hfields, hmembers, data, hget, hdecode, hne⟩
  | _ => cases hread

theorem Cleared.no_fields (h : Cleared time s key) : fieldRecords s key = [] :=
  Store.scan_eq_nil_iff.mpr fun r hpre => h.gone r (.inr (.inr (.inr (.inl hpre)))) (by
    rintro rfl
    exact not_owns_collectionTTLKey key .hash hpre)

theorem Cleared.no_members (h : Cleared time s key) : s.scan (namespacePrefix kindSet key) = [] :=
  Store.scan_eq_nil_iff.mpr fun r hpre => h.gone r (.inr (.inr (.inr (.inr hpre)))) (by
    rintro rfl
    exact not_owns_collectionTTLKey key .set hpre)

theorem Cleared.no_value (h : Cleared time s key) : s[valueKey key]? = none :=
  h.gone _ (.inl rfl) (valueKey_ne_collectionTTLKey _ _)

theorem Cleared.no_list (h : Cleared time s key) : s[listKey key]? = none :=
  h.gone _ (.inr (.inl rfl)) (listKey_ne_collectionTTLKey _ _)

/-- The probe of a cleared key. -/
theorem Cleared.run_redisType (h : Cleared time s key) :
    run (embedded time) (redisType key) s = (.ok .none, s) := by
  exact run_redisType_of_list h.ahead (run_probeValue_of_none h.no_value)
    (run_probeHash_of_nil time h.no_fields) h.no_members (run_probeList_of_none h.no_list)

/-! ### Strings -/

/-- The key holds a live string. -/
structure LiveValue (time : ℤ) (s : Store) (key : Bytes) (held : Envelope) : Prop where
  ahead : TTLAhead time s key
  record : ∃ data, s[valueKey key]? = some data ∧ unmarshalEnvelope data = .ok held
  live : held.expired time = false

/-- The probe that reports a string has found it live and has changed nothing. -/
theorem TypeOutcome.liveValue (h : TypeOutcome time s key .string s') :
    s' = s ∧ ∃ held, LiveValue time s key held := by
  cases h with
  | string hahead hfound =>
    obtain ⟨data, held, hget, hheld, hlive⟩ := hfound
    exact ⟨rfl, held, hahead, ⟨data, hget, hheld⟩, hlive⟩

section Strings

variable {held : Envelope}

theorem LiveValue.run_redisType (h : LiveValue time s key held) :
    run (embedded time) (redisType key) s = (.ok .string, s) := by
  obtain ⟨data, hget, hheld⟩ := h.record
  exact run_redisType_of_value h.ahead (run_probeValue_of_live hget hheld h.live)

theorem LiveValue.run_redisString (h : LiveValue time s key held) :
    run (embedded time) (redisString key) s = (.ok (some held.payload), s) := by
  obtain ⟨data, hget, hheld⟩ := h.record
  have htest : run (embedded time) (expiredNow held.expiresAt) s = (.ok false, s) := by
    rw [run_expiredNow, ← Envelope.expired, h.live]
  rw [redisString, run_bind_ok h.run_redisType]
  dsimp only
  rw [run_bind_ok Transport.run_get, hget]
  dsimp only
  rw [hheld, run_bind_ok (run_liftExcept _), run_bind_ok htest]
  rfl

theorem LiveValue.run_redisExpiry (h : LiveValue time s key held) :
    run (embedded time) (redisExpiry key) s =
      (.ok (if held.expiresAt > 0 then some held.expiresAt else none), s) := by
  obtain ⟨data, hget, hheld⟩ := h.record
  rw [redisExpiry, run_bind_ok h.run_redisType]
  dsimp only
  rw [run_bind_ok Transport.run_get, hget]
  dsimp only
  rw [hheld, run_bind_ok (run_liftExcept _)]
  split <;> rfl

theorem Cleared.run_redisString (h : Cleared time s key) :
    run (embedded time) (redisString key) s = (.ok none, s) := by
  rw [redisString, run_bind_ok h.run_redisType]
  rfl

theorem Cleared.run_redisExpiry (h : Cleared time s key) :
    run (embedded time) (redisExpiry key) s = (.ok none, s) := by
  rw [redisExpiry, run_bind_ok h.run_redisType]
  rfl

/-- A read of a string that succeeds: the string is live, or the key is cleared. -/
theorem liveValue_or_cleared_of_run {found : Option Bytes}
    (h : run (embedded time) (redisString key) s = (.ok found, s')) :
    (∃ held, LiveValue time s key held ∧ found = some held.payload ∧ s' = s) ∨
      (Cleared time s' key ∧ found = none) := by
  rw [redisString] at h
  obtain ⟨typ, mid, htype, hrest⟩ := exists_of_run_bind_eq_ok h
  have houtcome := typeOutcome_of_run htype
  cases typ with
  | none =>
    cases hrest
    exact .inr ⟨houtcome.cleared, rfl⟩
  | string =>
    obtain ⟨rfl, held, hlive⟩ := houtcome.liveValue
    rw [← redisString, hlive.run_redisString] at h
    cases h
    exact .inl ⟨held, hlive, rfl, rfl⟩
  | hash => cases hrest
  | set => cases hrest
  | list => cases hrest

variable {codec payload data : Bytes} {expiresAt : ℤ}

/-- A string is written with a deadline that is ahead: the time that is left is added to the
clock reading again. -/
theorem run_redisWriteStringWithCodec_of_ahead (hpos : 0 < expiresAt) (hahead : time < expiresAt)
    (hdata : marshalEnvelope codec payload (wrapInt64 (time + timeSub expiresAt time)) = .ok data) :
    run (embedded time) (redisWriteStringWithCodec key payload codec expiresAt) s =
      (.ok (), s.insert (valueKey key) data) := by
  have hduration : 0 < timeSub expiresAt time := by
    unfold timeSub
    omega
  rw [redisWriteStringWithCodec, if_neg (not_le.mpr hpos), run_bind_ok run_now]
  dsimp only
  rw [if_neg (not_le.mpr hduration), putPayload, run_bind_ok (run_deadlineAfter _),
    deadlineAt_of_pos hduration, hdata, run_bind_ok (run_liftExcept _), Transport.run_put]

/-- A string is written without a deadline. -/
theorem run_redisWriteString_zero :
    run (embedded time) (redisWriteString key payload 0) s =
      (.ok (), (s.insert (valueKey key) (bytesRecord payload 0)).erase (collectionTTLKey key)) :=
  rfl

theorem liveValue_insert (hahead : TTLAhead time s key) (hfits : IsInt64 expiresAt)
    (hlive : expiresAt ≤ 0 ∨ wrapInt64 time < expiresAt) :
    LiveValue time (s.insert (valueKey key) (bytesRecord payload expiresAt)) key
      ⟨expiresAt, Redis.bytesCodec, payload⟩ where
  ahead ttl hget := by
    rw [Store.getElem?_insert_of_ne _ _ (valueKey_ne_collectionTTLKey _ _)] at hget
    exact hahead ttl hget
  record := ⟨bytesRecord payload expiresAt, by rw [Store.getElem?_insert, if_pos rfl],
    unmarshalEnvelope_bytesRecord hfits⟩
  live := by
    simp only [Envelope.expired, Bool.and_eq_false_iff, decide_eq_false_iff_not]
    omega

theorem LiveValue.erase_metadata (h : LiveValue time s key held) :
    LiveValue time (s.erase (collectionTTLKey key)) key held where
  ahead ttl hget := by
    rw [Store.getElem?_erase, if_pos rfl] at hget
    cases hget
  record := by
    obtain ⟨data, hget, hheld⟩ := h.record
    exact ⟨data, by rw [Store.getElem?_erase_of_ne _ (collectionTTLKey_ne_valueKey _ _), hget], hheld⟩
  live := h.live

end Strings

/-! ### Hashes -/

/-- The key has no value, and the fields it has are live. -/
structure LiveFields (time : ℤ) (s : Store) (key : Bytes) : Prop where
  ahead : TTLAhead time s key
  no_value : s[valueKey key]? = none
  live : ∀ storageKey data, namespacePrefix kindHash key <+: storageKey →
    s[storageKey]? = some data → ∃ value, unmarshalEnvelope data = .ok value ∧
      value.expired time = false

/-- The key holds a hash without expired fields, and no value beside it. -/
structure LiveHash (time : ℤ) (s : Store) (key : Bytes) : Prop extends LiveFields time s key where
  nonempty : fieldRecords s key ≠ []

theorem Cleared.liveFields (h : Cleared time s key) : LiveFields time s key where
  ahead := h.ahead
  no_value := h.no_value
  live storageKey data hpre hget := by
    rw [Store.scan_eq_nil_iff.mp h.no_fields storageKey hpre] at hget
    cases hget

/-- A field is written. -/
theorem LiveFields.insert (h : LiveFields time s key) (field : Bytes) {data : Bytes}
    {value : Envelope} (hvalue : unmarshalEnvelope data = .ok value)
    (hlive : value.expired time = false) :
    LiveHash time (s.insert (hashKey key field) data) key where
  ahead := by
    intro ttl hget
    rw [Store.getElem?_insert_of_ne _ _ (hashKey_ne_collectionTTLKey _ _ _)] at hget
    exact h.ahead ttl hget
  no_value := by
    rw [Store.getElem?_insert_of_ne _ _ (hashKey_ne_valueKey _ _ _), h.no_value]
  live storageKey other hpre hget := by
    rw [Store.getElem?_insert] at hget
    split at hget
    · cases hget
      exact ⟨value, hvalue, hlive⟩
    · exact h.live storageKey other hpre hget
  nonempty := by
    have hmem : (hashKey key field, data) ∈ fieldRecords (s.insert (hashKey key field) data) key :=
      Store.mem_scan.mpr ⟨namespacePrefix_isPrefix_iff.mpr ⟨field, rfl⟩, by rw [Store.getElem?_insert, if_pos rfl]⟩
    exact List.ne_nil_of_mem hmem

theorem envelopeExpired_of_live {data : Bytes} {value : Envelope}
    (hvalue : unmarshalEnvelope data = .ok value) (hlive : value.expired time = false) :
    envelopeExpired data time = false := by
  rw [envelopeExpired, hvalue]
  exact hlive

theorem LiveHash.run_redisType (h : LiveHash time s key) :
    run (embedded time) (redisType key) s = (.ok .hash, s) := by
  have hfield : ∀ record ∈ fieldRecords s key, ∃ value, unmarshalEnvelope record.2 = .ok value ∧
      value.expired time = false := by
    intro record hmem
    obtain ⟨hpre, hget⟩ := Store.mem_scan.mp hmem
    exact h.live record.1 record.2 hpre hget
  have hkept : withoutExpiredFields time s key = s := by
    refine Store.ext fun storageKey => getElem?_withoutExpiredFields_of_not fun data hpre hget => ?_
    obtain ⟨value, hvalue, hlive⟩ := h.live storageKey data hpre hget
    exact envelopeExpired_of_live hvalue hlive
  obtain ⟨record, hmem⟩ := List.exists_mem_of_ne_nil _ h.nonempty
  obtain ⟨value, hvalue, hlive⟩ := hfield record hmem
  rw [run_redisType_of_hash h.ahead (run_probeValue_of_none h.no_value)
    (run_probeHash_of_live (fun record hmem => (hfield record hmem).imp fun _ => And.left)
      ⟨record, hmem, envelopeExpired_of_live hvalue hlive⟩), hkept]

/-- A record that is left beside a hash was there before. -/
theorem TypeOutcome.getElem?_of_hash (h : TypeOutcome time s key .hash s') {storageKey data : Bytes}
    (hget : s'[storageKey]? = some data) : s[storageKey]? = some data := by
  cases h with
  | hash _ _ _ _ =>
    have hkept := lost_withoutExpiredFields.getElem? hget
    exact Store.getElem?_of_erase hkept

/-- The probe leaves the live fields of a hash. -/
theorem TypeOutcome.liveHash (h : TypeOutcome time s key .hash s') : LiveHash time s' key := by
  cases h with
  | hash hahead hvalue hdecodes hlive =>
    have hother : ∀ storageKey, ¬ namespacePrefix kindHash key <+: storageKey →
        (withoutExpiredFields time (s.erase (valueKey key)) key)[storageKey]? =
          (s.erase (valueKey key))[storageKey]? := fun storageKey hnot =>
      getElem?_withoutExpiredFields_of_not fun _ hpre => absurd hpre hnot
    have hfields : fieldRecords (s.erase (valueKey key)) key = fieldRecords s key :=
      fieldRecords_erase_value
    refine ⟨⟨fun data hdata => ?_, ?_, fun storageKey data hpre hget => ?_⟩, ?_⟩
    · rw [hother _ (not_owns_collectionTTLKey key .hash),
        Store.getElem?_erase_of_ne _ (valueKey_ne_collectionTTLKey _ _)] at hdata
      exact hahead data hdata
    · rw [hother _ fun hpre => absurd (belongs_valueKey key .hash hpre).2 (by decide),
        Store.getElem?_erase, if_pos rfl]
    · -- A field that was left is one of the key's fields, and has not expired.
      have hkept : (s.erase (valueKey key))[storageKey]? = some data :=
        lost_withoutExpiredFields.getElem? hget
      have hmem : (storageKey, data) ∈ fieldRecords s key :=
        hfields ▸ Store.mem_scan.mpr ⟨hpre, hkept⟩
      obtain ⟨value, hdecode⟩ := hdecodes _ hmem
      refine ⟨value, hdecode, ?_⟩
      by_contra hexpired
      have hdead : envelopeExpired data time = true := by
        rw [envelopeExpired, hdecode]
        simpa using hexpired
      rw [getElem?_withoutExpiredFields_of_expired hpre hkept hdead] at hget
      cases hget
    · obtain ⟨record, hmem, hrecord⟩ := found_withoutExpiredFields (hfields.symm ▸ hlive)
      exact List.ne_nil_of_mem hmem

/-- The field of a hash. -/
theorem LiveHash.run_redisHashField (h : LiveHash time s key) {field data : Bytes} {held : Envelope}
    (hget : s[hashKey key field]? = some data) (hheld : unmarshalEnvelope data = .ok held) :
    run (embedded time) (redisHashField key field) s = (.ok (some held.payload), s) := by
  obtain ⟨value, hvalue, hlive⟩ := h.live _ data (namespacePrefix_isPrefix_iff.mpr ⟨field, rfl⟩) hget
  obtain rfl : held = value := Except.ok.inj (hheld.symm.trans hvalue)
  have htest : run (embedded time) (expiredNow held.expiresAt) s = (.ok false, s) := by
    rw [run_expiredNow, ← Envelope.expired, hlive]
  rw [redisHashField, run_bind_ok h.run_redisType]
  dsimp only
  rw [run_bind_ok Transport.run_get, hget]
  dsimp only
  rw [hheld, run_bind_ok (run_liftExcept _), run_bind_ok htest]
  rfl

theorem LiveHash.run_redisHashField_none (h : LiveHash time s key) {field : Bytes}
    (hget : s[hashKey key field]? = none) :
    run (embedded time) (redisHashField key field) s = (.ok none, s) := by
  rw [redisHashField, run_bind_ok h.run_redisType]
  dsimp only
  rw [run_bind_ok Transport.run_get, hget]
  rfl

theorem Cleared.run_redisHashField (h : Cleared time s key) (field : Bytes) :
    run (embedded time) (redisHashField key field) s = (.ok none, s) := by
  rw [redisHashField, run_bind_ok h.run_redisType]
  rfl

end Outcome

end KVLite
