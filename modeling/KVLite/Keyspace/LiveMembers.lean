import KVLite.Keyspace.Outcome
import KVLite.Keyspace.ReadersAt

/-!
# Hashes and sets at one clock reading

A key that holds a hash or a set and nothing else, and what is left of it when its fields
or members are removed one by one.
-/

namespace KVLite

open Semantics Fallible Redis

/-- The key holds a hash without expired fields and nothing else. -/
structure SoleHash (time : ℤ) (s : Store) (key : Bytes) : Prop extends LiveHash time s key where
  no_members : s.scan (namespacePrefix kindSet key) = []
  no_list : s[listKey key]? = none

/-- The key holds a set and nothing else. -/
structure SoleSet (time : ℤ) (s : Store) (key : Bytes) : Prop where
  ahead : TTLAhead time s key
  no_value : s[valueKey key]? = none
  no_fields : fieldRecords s key = []
  no_list : s[listKey key]? = none
  nonempty : s.scan (namespacePrefix kindSet key) ≠ []

section Stores

variable {time : ℤ} {s s' : Store} {key storageKey data : Bytes}

theorem TTLAhead.insert_of_ne (h : TTLAhead time s key) (hne : storageKey ≠ collectionTTLKey key) :
    TTLAhead time (s.insert storageKey data) key := by
  intro ttl hget
  rw [Store.getElem?_insert_of_ne _ _ hne] at hget
  exact h ttl hget

theorem Cleared.erase (h : Cleared time s key) : Cleared time (s.erase storageKey) key where
  ahead := h.ahead.erase
  gone other hrecord hne := by
    rw [Store.getElem?_erase]
    split
    · rfl
    · exact h.gone other hrecord hne

/-- A record of the key's own kind excludes the others. -/
theorem OneKind.none_of_hasKind {kind : Kind} (hs : OneKind s) (h : HasKind s key kind) (kind' : Kind)
    (hne : kind ≠ kind') (howns : Owns key kind' storageKey) : s[storageKey]? = none := by
  by_contra hsome
  obtain ⟨data, hget⟩ := Option.ne_none_iff_exists'.mp hsome
  exact hne (hs key kind kind' h ⟨storageKey, data, howns, hget⟩)

/-! ### The probe -/

theorem TypeOutcome.soleHash (hs : OneKind s) (h : TypeOutcome time s key .hash s') :
    SoleHash time s' key := by
  have hlive := h.liveHash
  obtain ⟨⟨field, data⟩, hmem⟩ := List.exists_mem_of_ne_nil _ hlive.nonempty
  obtain ⟨hpre, hget⟩ := Store.mem_scan.mp hmem
  have hkind : HasKind s key .hash := ⟨field, data, hpre, h.getElem?_of_hash hget⟩
  have hgone : ∀ storageKey : Bytes, s[storageKey]? = none → s'[storageKey]? = none := by
    intro storageKey hnone
    by_contra hsome
    obtain ⟨found, hfound⟩ := Option.ne_none_iff_exists'.mp hsome
    rw [h.getElem?_of_hash hfound] at hnone
    cases hnone
  refine ⟨hlive, ?_, ?_⟩
  · exact Store.scan_eq_nil_iff.mpr fun storageKey hpre =>
      hgone _ (hs.none_of_hasKind hkind .set (by decide) hpre)
  · exact hgone _ (hs.none_of_hasKind hkind .list (by decide) rfl)

theorem TypeOutcome.soleSet (hs : OneKind s) (h : TypeOutcome time s key .set s') :
    SoleSet time s' key := by
  cases h with
  | set hahead hvalue hfields hmembers =>
    obtain ⟨⟨member, data⟩, hmem⟩ := List.exists_mem_of_ne_nil _ hmembers
    obtain ⟨hpre, hget⟩ := Store.mem_scan.mp hmem
    have hkind : HasKind s key .set := ⟨member, data, hpre, hget⟩
    refine ⟨hahead.erase, ?_, fieldRecords_erase_value.trans hfields, ?_,
      members_erase_value.trans_ne hmembers⟩
    · rw [Store.getElem?_erase, if_pos rfl]
    · rw [Store.getElem?_erase_of_ne _ (valueKey_ne_listKey _ _)]
      exact hs.none_of_hasKind hkind .list (by decide) rfl

theorem SoleSet.run_redisType (h : SoleSet time s key) :
    run (embedded time) (redisType key) s = (.ok .set, s) :=
  run_redisType_of_set h.ahead (run_probeValue_of_none h.no_value)
    (run_probeHash_of_nil time h.no_fields) h.nonempty

/-! ### Changes -/

theorem fieldRecords_insert_setKey (member : Bytes) :
    fieldRecords (s.insert (setKey key member) data) key = fieldRecords s key := by
  refine Store.scan_insert_of_not fun hpre => ?_
  have howns : Owns key .hash (setKey key member) := hpre
  exact absurd (owns_setKey_kind howns) (by decide)

/-- A member is added to a set, or to a key without records. -/
theorem soleSet_insert (member : Bytes) (h : SoleSet time s key ∨ Cleared time s key) :
    SoleSet time (s.insert (setKey key member) data) key := by
  have hfields : fieldRecords s key = [] := h.elim (·.no_fields) (·.no_fields)
  have hvalue : s[valueKey key]? = none := h.elim (·.no_value) (·.no_value)
  have hlist : s[listKey key]? = none := h.elim (·.no_list) (·.no_list)
  have hahead : TTLAhead time s key := h.elim (·.ahead) (·.ahead)
  refine ⟨hahead.insert_of_ne (setKey_ne_collectionTTLKey _ _ _), ?_,
    (fieldRecords_insert_setKey member).trans hfields, ?_, ?_⟩
  · rw [Store.getElem?_insert_of_ne _ _ (setKey_ne_valueKey _ _ _), hvalue]
  · rw [Store.getElem?_insert_of_ne _ _ (setKey_ne_listKey _ _ _), hlist]
  · have hmem : (setKey key member, data) ∈
        Store.scan (s.insert (setKey key member) data) (namespacePrefix kindSet key) :=
      Store.mem_scan.mpr ⟨namespacePrefix_isPrefix_iff.mpr ⟨member, rfl⟩, by
        rw [Store.getElem?_insert, if_pos rfl]⟩
    exact List.ne_nil_of_mem hmem

/-- A field is added to a hash, or to a key without records. -/
theorem soleHash_insert (field payload : Bytes) (h : SoleHash time s key ∨ Cleared time s key) :
    SoleHash time (s.insert (hashKey key field) (bytesRecord payload 0)) key := by
  have hfields : LiveFields time s key := h.elim (·.toLiveFields) (·.liveFields)
  have hmembers : s.scan (namespacePrefix kindSet key) = [] := h.elim (·.no_members) (·.no_members)
  have hlist : s[listKey key]? = none := h.elim (·.no_list) (·.no_list)
  refine ⟨hfields.insert field (unmarshalEnvelope_bytesRecord (by decide)) rfl, ?_, ?_⟩
  · rw [Store.scan_insert_of_not, hmembers]
    intro hpre
    have howns : Owns key .set (hashKey key field) := hpre
    exact absurd (owns_hashKey_kind howns) (by decide)
  · rw [Store.getElem?_insert_of_ne _ _ (hashKey_ne_listKey _ _ _), hlist]

theorem Store.scan_erase_eq_nil {pre : Bytes} (h : s.scan pre = []) :
    Store.scan (s.erase storageKey) pre = [] := by
  refine Store.scan_eq_nil_iff.mpr fun other hpre => ?_
  rw [Store.getElem?_erase, Store.scan_eq_nil_iff.mp h other hpre, ite_self]

theorem Store.getElem?_erase_eq_none {other : Bytes} (h : s[other]? = none) :
    (s.erase storageKey)[other]? = none := by
  rw [Store.getElem?_erase, h, ite_self]

/-- A record less: the set is left, or no record. -/
theorem SoleSet.erase (h : SoleSet time s key) :
    SoleSet time (s.erase storageKey) key ∨
      Cleared time (s.erase storageKey) key ∧
        Store.scan (s.erase storageKey) (namespacePrefix kindSet key) = [] := by
  have hfields : fieldRecords (s.erase storageKey) key = [] := Store.scan_erase_eq_nil h.no_fields
  by_cases hmembers : Store.scan (s.erase storageKey) (namespacePrefix kindSet key) = []
  · exact .inr ⟨cleared_of_parts h.ahead.erase (Store.getElem?_erase_eq_none h.no_value) hfields
      hmembers (Store.getElem?_erase_eq_none h.no_list), hmembers⟩
  · exact .inl ⟨h.ahead.erase, Store.getElem?_erase_eq_none h.no_value, hfields,
      Store.getElem?_erase_eq_none h.no_list, hmembers⟩

theorem SoleHash.erase (h : SoleHash time s key) :
    SoleHash time (s.erase storageKey) key ∨
      Cleared time (s.erase storageKey) key ∧ fieldRecords (s.erase storageKey) key = [] := by
  have hmembers : Store.scan (s.erase storageKey) (namespacePrefix kindSet key) = [] :=
    Store.scan_erase_eq_nil h.no_members
  by_cases hfields : fieldRecords (s.erase storageKey) key = []
  · exact .inr ⟨cleared_of_parts h.ahead.erase (Store.getElem?_erase_eq_none h.no_value) hfields
      hmembers (Store.getElem?_erase_eq_none h.no_list), hfields⟩
  · refine .inl ⟨⟨⟨h.ahead.erase, Store.getElem?_erase_eq_none h.no_value, ?_⟩, hfields⟩, hmembers,
      Store.getElem?_erase_eq_none h.no_list⟩
    intro other data hpre hget
    exact h.live other data hpre (Store.getElem?_of_erase hget)

/-! ### The second look -/

/-- A hash has entries. -/
theorem LiveHash.run_redisHashEntries (h : LiveHash time s key) :
    ∃ entries, run (embedded time) (redisHashEntries key) s = (.ok entries, s) ∧
      entries.length ≠ 0 := by
  have hdecodes : ∀ record ∈ s.scan (namespacePrefix kindHash key),
      ∃ value, unmarshalEnvelope record.2 = .ok value ∧ value.expired time = false := by
    intro record hmem
    obtain ⟨hpre, hget⟩ := Store.mem_scan.mp hmem
    exact h.live record.1 record.2 hpre hget
  have hlive : ∀ record ∈ s.scan (namespacePrefix kindHash key),
      envelopeExpired record.2 time = false := by
    intro record hmem
    obtain ⟨value, hvalue, hnot⟩ := hdecodes record hmem
    exact envelopeExpired_of_live hvalue hnot
  have hkept : ((s.scan (namespacePrefix kindHash key)).filter fun record =>
      !envelopeExpired record.2 time) = s.scan (namespacePrefix kindHash key) :=
    List.filter_eq_self.mpr fun record hmem => by rw [hlive record hmem]; rfl
  have hdropped : ((s.scan (namespacePrefix kindHash key)).filter fun record =>
      envelopeExpired record.2 time) = [] :=
    List.filter_eq_nil_iff.mpr fun record hmem => by rw [hlive record hmem]; exact Bool.false_ne_true
  have hne : s.scan (namespacePrefix kindHash key) ≠ [] := h.nonempty
  rw [redisHashEntries, run_bind_ok h.run_redisType]
  dsimp only
  rw [run_bind_ok Transport.run_scanAll,
    run_bind_ok (run_redisHashEntriesLoop_of_decodes fun record hmem =>
      (hdecodes record hmem).imp fun _ => And.left), hkept, hdropped]
  dsimp only
  rw [run_bind_ok (Transport.run_deleteEach _),
    if_neg (by rw [List.length_map, List.length_eq_zero_iff]; exact hne)]
  refine ⟨_, rfl, ?_⟩
  rw [List.length_insertionSort, List.length_map, ne_eq, List.length_eq_zero_iff]
  exact hne

theorem Cleared.run_redisHashEntries (h : Cleared time s key) :
    run (embedded time) (redisHashEntries key) s = (.ok [], s) := by
  rw [redisHashEntries, run_bind_ok h.run_redisType]
  rfl

/-- A set has members. -/
theorem SoleSet.run_redisSetMembers (h : SoleSet time s key) :
    ∃ members, run (embedded time) (redisSetMembers key) s = (.ok members, s) ∧
      members.length ≠ 0 := by
  rw [redisSetMembers, run_bind_ok h.run_redisType]
  dsimp only
  rw [run_bind_ok Transport.run_scanAll,
    if_neg (by rw [List.length_map, List.length_eq_zero_iff]; exact h.nonempty)]
  refine ⟨_, rfl, ?_⟩
  rw [sortStrings, List.length_insertionSort, List.length_map, ne_eq, List.length_eq_zero_iff]
  exact h.nonempty

theorem Cleared.run_redisSetMembers (h : Cleared time s key) :
    run (embedded time) (redisSetMembers key) s = (.ok [], s) := by
  rw [redisSetMembers, run_bind_ok h.run_redisType]
  rfl

end Stores

end KVLite
