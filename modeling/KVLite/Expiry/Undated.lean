import KVLite.Keyspace.LiveMembers
import KVLite.Keyspace.LiveLists

/-!
# Keys without a deadline

A key is undated when it has a record and none of its records has a deadline. Then it is alive
at every time, and `TTL` replies `-1`.
-/

namespace KVLite

open Semantics Fallible BigEndian Redis

/-- The record decodes and has no deadline. -/
def UndatedRecord (data : Bytes) : Prop :=
  ∃ held, unmarshalEnvelope data = .ok held ∧ held.expiresAt ≤ 0

/-- No record of the key has a deadline. -/
structure NoDeadline (s : Store) (key : Bytes) : Prop where
  no_metadata : s[collectionTTLKey key]? = none
  value : ∀ data, s[valueKey key]? = some data → UndatedRecord data
  fields : ∀ storageKey data, namespacePrefix kindHash key <+: storageKey →
    s[storageKey]? = some data → UndatedRecord data
  list : ∀ data, s[listKey key]? = some data →
    ∃ items, decodeList data = .ok items ∧ items ≠ [] ∧ ∀ item ∈ items, UndatedRecord item

/-- The key has a record, and no record of it has a deadline. -/
structure Undated (s : Store) (key : Bytes) : Prop extends NoDeadline s key where
  present : ¬ NoRecordOf key s

/-- The call does not give a record of the key a deadline: what it writes for the key is a
record without one, or a list of such items. -/
def Call.SetsNoExpiry (key : Bytes) : Call → Prop
  | .put storageKey data => RecordOf key storageKey → storageKey ≠ collectionTTLKey key ∧
    (storageKey = valueKey key ∨ namespacePrefix kindHash key <+: storageKey → UndatedRecord data) ∧
    (storageKey = listKey key →
      ∃ items, decodeList data = .ok items ∧ items ≠ [] ∧ ∀ item ∈ items, UndatedRecord item)
  | _ => True

section Undated

variable {s s' : Store} {key storageKey data : Bytes}

theorem undatedRecord_bytesRecord (payload : Bytes) : UndatedRecord (bytesRecord payload 0) :=
  ⟨_, unmarshalEnvelope_bytesRecord (by decide), le_rfl⟩

theorem UndatedRecord.live (h : UndatedRecord data) (time : ℤ) :
    ∃ held, unmarshalEnvelope data = .ok held ∧ held.expired time = false := by
  obtain ⟨held, hdecode, hzero⟩ := h
  refine ⟨held, hdecode, ?_⟩
  rw [Envelope.expired, decide_eq_false (not_lt.mpr hzero), Bool.false_and]

theorem NoRecordOf.noDeadline (h : NoRecordOf key s) : NoDeadline s key where
  no_metadata := h _ (.inr (.inr (.inl rfl)))
  value data hget := by
    rw [h _ (.inl rfl)] at hget
    cases hget
  fields storageKey data hpre hget := by
    rw [h _ (.inr (.inr (.inr (.inl hpre))))] at hget
    cases hget
  list data hget := by
    rw [h _ (.inr (.inl rfl))] at hget
    cases hget

/-- Only the records of the key count. -/
theorem NoDeadline.congr (h : NoDeadline s key)
    (hsame : ∀ storageKey, RecordOf key storageKey → s'[storageKey]? = s[storageKey]?) :
    NoDeadline s' key where
  no_metadata := (hsame _ (.inr (.inr (.inl rfl)))).trans h.no_metadata
  value data hget := h.value data ((hsame _ (.inl rfl)).symm.trans hget)
  fields storageKey data hpre hget :=
    h.fields storageKey data hpre ((hsame _ (.inr (.inr (.inr (.inl hpre))))).symm.trans hget)
  list data hget := h.list data ((hsame _ (.inr (.inl rfl))).symm.trans hget)

theorem Undated.congr (h : Undated s key)
    (hsame : ∀ storageKey, RecordOf key storageKey → s'[storageKey]? = s[storageKey]?) :
    Undated s' key where
  toNoDeadline := h.toNoDeadline.congr hsame
  present hnone := h.present fun storageKey hrecord =>
    (hsame storageKey hrecord).symm.trans (hnone storageKey hrecord)

theorem NoDeadline.erase (h : NoDeadline s key) (storageKey : Bytes) :
    NoDeadline (s.erase storageKey) key where
  no_metadata := by
    rw [Store.getElem?_erase, h.no_metadata, ite_self]
  value data hget := h.value data (Store.getElem?_of_erase hget)
  fields storageKey data hpre hget := h.fields storageKey data hpre (Store.getElem?_of_erase hget)
  list data hget := h.list data (Store.getElem?_of_erase hget)

/-- A record without a deadline is added. -/
theorem NoDeadline.insert (h : NoDeadline s key) (hrecord : RecordOf key storageKey)
    (hne : storageKey ≠ collectionTTLKey key)
    (hvalue : storageKey = valueKey key ∨ namespacePrefix kindHash key <+: storageKey →
      UndatedRecord data)
    (hlist : storageKey = listKey key →
      ∃ items, decodeList data = .ok items ∧ items ≠ [] ∧ ∀ item ∈ items, UndatedRecord item) :
    Undated (s.insert storageKey data) key where
  no_metadata := by rw [Store.getElem?_insert_of_ne _ _ hne, h.no_metadata]
  value found hget := by
    rw [Store.getElem?_insert] at hget
    split at hget
    · next heq =>
      cases hget
      exact hvalue (.inl heq)
    · exact h.value found hget
  fields other found hpre hget := by
    rw [Store.getElem?_insert] at hget
    split at hget
    · next heq =>
      cases hget
      exact hvalue (.inr (heq ▸ hpre))
    · exact h.fields other found hpre hget
  list found hget := by
    rw [Store.getElem?_insert] at hget
    split at hget
    · next heq =>
      cases hget
      exact hlist heq
    · exact h.list found hget
  present hnone := by
    have hget := hnone storageKey hrecord
    rw [Store.getElem?_insert, if_pos rfl] at hget
    cases hget

theorem NoDeadline.insert_field (h : NoDeadline s key) (field payload : Bytes) :
    Undated (s.insert (hashKey key field) (bytesRecord payload 0)) key :=
  h.insert (.inr (.inr (.inr (.inl (namespacePrefix_isPrefix_iff.mpr ⟨field, rfl⟩)))))
    (hashKey_ne_collectionTTLKey _ _ _) (fun _ => undatedRecord_bytesRecord payload)
    fun heq => absurd heq (hashKey_ne_listKey _ _ _)

theorem NoDeadline.insert_value (h : NoDeadline s key) (payload : Bytes) :
    Undated (s.insert (valueKey key) (bytesRecord payload 0)) key :=
  h.insert (.inl rfl) (valueKey_ne_collectionTTLKey _ _) (fun _ => undatedRecord_bytesRecord payload)
    fun heq => absurd heq (valueKey_ne_listKey _ _)

theorem NoDeadline.insert_member (h : NoDeadline s key) (member : Bytes) :
    Undated (s.insert (setKey key member) data) key := by
  have hpre : namespacePrefix kindSet key <+: setKey key member :=
    namespacePrefix_isPrefix_iff.mpr ⟨member, rfl⟩
  refine h.insert (.inr (.inr (.inr (.inr hpre)))) (setKey_ne_collectionTTLKey _ _ _) ?_
    fun heq => absurd heq (setKey_ne_listKey _ _ _)
  rintro (heq | hfield)
  · exact absurd heq (setKey_ne_valueKey _ _ _)
  · have howns : Owns key .hash (setKey key member) := hfield
    exact absurd (owns_setKey_kind howns) (by decide)

theorem NoDeadline.insert_list (h : NoDeadline s key) {items : List Bytes}
    (hdecode : decodeList (encodeList items) = .ok items) (hne : items ≠ [])
    (hitems : ∀ item ∈ items, UndatedRecord item) :
    Undated (s.insert (listKey key) (encodeList items)) key := by
  refine h.insert (.inr (.inl rfl)) (listKey_ne_collectionTTLKey _ _) ?_
    fun _ => ⟨items, hdecode, hne, hitems⟩
  rintro (heq | hfield)
  · exact absurd heq (listKey_ne_valueKey _ _)
  · exact absurd (belongs_listKey key .hash hfield).2 (by decide)

/-- Operations that give no record of the key a deadline leave it without one. -/
theorem NoDeadline.run {α : Type} {p : Program Calls α} {clock : ℕ → ℤ} {st : ℕ × Store}
    (h : NoDeadline st.2 key) (hp : p.Asks (ticking clock) (Call.SetsNoExpiry key) st) :
    NoDeadline (p.run (ticking clock) st).2.2 key := by
  induction p generalizing st with
  | done => exact h
  | call request rest ih =>
    refine ih _ ?_ hp.2
    cases request with
    | put storageKey data =>
      by_cases hrecord : RecordOf key storageKey
      · obtain ⟨hne, hvalue, hlist⟩ := hp.1 hrecord
        exact (h.insert hrecord hne hvalue hlist).toNoDeadline
      · refine h.congr fun other hother => Store.getElem?_insert_of_ne _ _ ?_
        rintro rfl
        exact hrecord hother
    | delete storageKey => exact h.erase storageKey
    | _ => exact h

/-- A key without a deadline is alive at every time. -/
theorem Undated.run_redisType (h : Undated s key) :
    ∃ typ, typ ≠ .none ∧ ∀ time, run (embedded time) (redisType key) s = (.ok typ, s) ∧
      run (embedded time) (redisExpiry key) s = (.ok none, s) := by
  have hahead : ∀ time, TTLAhead time s key := by
    intro time data hget
    rw [h.no_metadata] at hget
    cases hget
  have hmetadata : ∀ time, run (embedded time) (redisMetadataExpiry key) s = (.ok none, s) := by
    intro time
    rw [redisMetadataExpiry, run_bind_ok Transport.run_get, h.no_metadata]
    rfl
  cases hvalue : s[valueKey key]? with
  | some data =>
    obtain ⟨held, hdecode, hzero⟩ := h.value data hvalue
    have hlive : ∀ time, LiveValue time s key held := by
      intro time
      obtain ⟨held', hdecode', hnot⟩ := (h.value data hvalue).live time
      cases hdecode.symm.trans hdecode'
      exact ⟨hahead time, ⟨data, hvalue, hdecode⟩, hnot⟩
    refine ⟨.string, nofun, fun time => ⟨(hlive time).run_redisType, ?_⟩⟩
    rw [(hlive time).run_redisExpiry, if_neg (not_lt.mpr hzero)]
  | none =>
    by_cases hfields : fieldRecords s key = []
    swap
    · refine ⟨.hash, nofun, fun time => ?_⟩
      have htype : run (embedded time) (redisType key) s = (.ok .hash, s) :=
        LiveHash.run_redisType ⟨⟨hahead time, hvalue, fun storageKey data hpre hget =>
          (h.fields storageKey data hpre hget).live time⟩, hfields⟩
      exact ⟨htype, (run_bind_ok htype).trans (hmetadata time)⟩
    by_cases hmembers : s.scan (namespacePrefix kindSet key) = []
    swap
    · refine ⟨.set, nofun, fun time => ?_⟩
      have htype := run_redisType_of_set (hahead time) (run_probeValue_of_none hvalue)
        (run_probeHash_of_nil time hfields) hmembers
      exact ⟨htype, (run_bind_ok htype).trans (hmetadata time)⟩
    cases hlist : s[listKey key]? with
    | none =>
      refine absurd (fun storageKey hrecord => ?_) h.present
      rcases hrecord with rfl | rfl | rfl | hpre | hpre
      · exact hvalue
      · exact hlist
      · exact h.no_metadata
      · exact Store.scan_eq_nil_iff.mp hfields storageKey hpre
      · exact Store.scan_eq_nil_iff.mp hmembers storageKey hpre
    | some data =>
      obtain ⟨items, hdecode, hne, -⟩ := h.list data hlist
      refine ⟨.list, nofun, fun time => ?_⟩
      have htype : run (embedded time) (redisType key) s = (.ok .list, s) :=
        run_redisType_of_list (hahead time) (run_probeValue_of_none hvalue)
          (run_probeHash_of_nil time hfields) hmembers (run_probeList_of_items hlist hdecode hne)
      exact ⟨htype, (run_bind_ok htype).trans (hmetadata time)⟩

theorem Undated.reply_ttl (h : Undated s key) (time : ℤ) :
    ((redisTTLCommand second [text "TTL", key]).run (embedded time) s).1 = .integer (-1) := by
  obtain ⟨typ, hne, hrun⟩ := h.run_redisType
  have hcode : (redisTTLCommand second [text "TTL", key]).run (embedded time) s =
      (.integer (-1), s) := by
    refine run_replying ((run_bind_ok (hrun time).2).trans ?_)
    dsimp only
    rw [run_bind_ok (hrun time).1, if_neg hne]
    rfl
  rw [hcode]

theorem Undated.reply_type (h : Undated s key) (time : ℤ) :
    ∃ typ : RedisType, typ ≠ .none ∧
      (redisTypeCommand [text "TYPE", key]).run (embedded time) s = (.simpleString typ.name, s) := by
  obtain ⟨typ, hne, hrun⟩ := h.run_redisType
  exact ⟨typ, hne, run_replying (run_bind_ok (hrun time).1)⟩

end Undated

end KVLite
