import KVLite.Keyspace.Outcome
import KVLite.Keyspace.ReadersAt

/-!
# Lists at one clock reading

A read of a list drops the items that have expired. What is left is a list of live items,
with no other record of the key but its deadline, or nothing.
-/

namespace KVLite

open Semantics Fallible Redis

/-- Every item decodes and has not expired. -/
def LiveItems (time : ℤ) (items : List Bytes) : Prop :=
  ∀ item ∈ items, ∃ value, unmarshalEnvelope item = .ok value ∧ value.expired time = false

/-- No record of the key but its list and its deadline, which is ahead. -/
structure OnlyList (time : ℤ) (s : Store) (key : Bytes) : Prop where
  ahead : TTLAhead time s key
  no_value : s[valueKey key]? = none
  no_fields : fieldRecords s key = []
  no_members : s.scan (namespacePrefix kindSet key) = []

/-- The key holds a list of live items. -/
structure LiveList (time : ℤ) (s : Store) (key : Bytes) (items : List Bytes) : Prop
    extends OnlyList time s key where
  record : ∃ data, s[listKey key]? = some data ∧ decodeList data = .ok items
  nonempty : items ≠ []
  live : LiveItems time items

/-- The store after the items of a list have been written; without items the key is gone. -/
def afterWrite (s : Store) (key : Bytes) (items : List Bytes) : Store :=
  if items = [] then s.without key else s.insert (listKey key) (encodeList items)

section Lists

variable {time : ℤ} {s s' : Store} {key : Bytes} {items rest : List Bytes}

/-! ### Writing -/

theorem run_redisWriteList :
    run (embedded time) (redisWriteList key items) s = (.ok (), afterWrite s key items) := by
  rw [redisWriteList, afterWrite]
  by_cases hitems : items = []
  · subst hitems
    rw [if_pos rfl, if_pos List.length_nil, run_bind_ok run_redisDeleteRaw]
    rfl
  · rw [if_neg (by simpa using hitems), if_neg hitems, Transport.run_put]

/-- Only the last write counts. -/
theorem afterWrite_afterWrite (hitems : items ≠ []) :
    afterWrite (afterWrite s key items) key rest = afterWrite s key rest := by
  rw [afterWrite, afterWrite, afterWrite, if_neg hitems]
  split
  · exact ((SameElsewhere.refl key s).insert (.inr (.inl rfl))).without_eq
  · exact Store.insert_insert _ _ _ _

theorem Cleared.onlyList (h : Cleared time s key) : OnlyList time s key :=
  ⟨h.ahead, h.no_value, h.no_fields, h.no_members⟩

theorem OnlyList.insert_list (h : OnlyList time s key) (data : Bytes) :
    OnlyList time (s.insert (listKey key) data) key where
  ahead := by
    intro ttl hget
    rw [Store.getElem?_insert_of_ne _ _ (listKey_ne_collectionTTLKey _ _)] at hget
    exact h.ahead ttl hget
  no_value := by
    rw [Store.getElem?_insert_of_ne _ _ (listKey_ne_valueKey _ _), h.no_value]
  no_fields := by
    rw [fieldRecords, Store.scan_insert_of_not, ← fieldRecords, h.no_fields]
    exact fun hpre => absurd (belongs_listKey key .hash hpre).2 (by decide)
  no_members := by
    rw [Store.scan_insert_of_not, h.no_members]
    exact fun hpre => absurd (belongs_listKey key .set hpre).2 (by decide)

/-- Items that the record can hold are written. -/
theorem OnlyList.insert (h : OnlyList time s key) (hne : items ≠ []) (hlive : LiveItems time items)
    (hdecode : decodeList (encodeList items) = .ok items) :
    LiveList time (s.insert (listKey key) (encodeList items)) key items where
  toOnlyList := h.insert_list _
  record := ⟨_, by rw [Store.getElem?_insert, if_pos rfl], hdecode⟩
  nonempty := hne
  live := hlive

/-! ### Reading -/

theorem LiveItems.filter_eq (h : LiveItems time items) :
    items.filter (fun item => !envelopeExpired item time) = items := by
  refine List.filter_eq_self.mpr fun item hitem => ?_
  obtain ⟨value, hvalue, hlive⟩ := h item hitem
  rw [envelopeExpired_of_live hvalue hlive]
  rfl

theorem LiveList.run_redisType (h : LiveList time s key items) :
    run (embedded time) (redisType key) s = (.ok .list, s) := by
  obtain ⟨data, hget, hdecode⟩ := h.record
  exact run_redisType_of_list h.ahead (run_probeValue_of_none h.no_value)
    (run_probeHash_of_nil time h.no_fields) h.no_members
    (run_probeList_of_items hget hdecode h.nonempty)

theorem LiveList.run_redisListValues (h : LiveList time s key items) :
    run (embedded time) (redisListValues key) s = (.ok items, s) := by
  obtain ⟨data, hget, hdecode⟩ := h.record
  have hlist : run (embedded time) (redisList key) s = (.ok (some items), s) := by
    rw [redisList, run_bind_ok h.run_redisType]
    dsimp only
    rw [run_bind_ok Transport.run_get, hget]
    dsimp only
    rw [hdecode, run_bind_ok (run_liftExcept _)]
    rfl
  have hitems : run (embedded time) (redisLiveItems items) s = (.ok items, s) := by
    rw [run_redisLiveItems_of_decodes fun item hitem => (h.live item hitem).imp fun _ => And.left,
      h.live.filter_eq]
  rw [redisListValues, run_bind_ok hlist]
  dsimp only
  rw [run_bind_ok hitems, if_neg (not_not_intro rfl)]
  rfl

theorem Cleared.run_redisListValues (h : Cleared time s key) :
    run (embedded time) (redisListValues key) s = (.ok [], s) := by
  have hlist : run (embedded time) (redisList key) s = (.ok none, s) := by
    rw [redisList, run_bind_ok h.run_redisType]
    rfl
  rw [redisListValues, run_bind_ok hlist]
  rfl

/-- The items that are left of a list that decodes. -/
theorem decodeList_encodeList_of_sublist {data : Bytes} (hdecode : decodeList data = .ok items)
    (hsub : rest.Sublist items) : decodeList (encodeList rest) = .ok rest := by
  obtain ⟨-, hcount, hshort⟩ := encodeList_decodeList hdecode
  exact decodeList_encodeList (hsub.length_le.trans_lt hcount)
    fun item hitem => hshort item (hsub.subset hitem)

/-- A read of a list that succeeds leaves its live items, or a key without records. -/
theorem liveList_or_cleared_of_run
    (h : run (embedded time) (redisListValues key) s = (.ok items, s')) :
    LiveList time s' key items ∨ (Cleared time s' key ∧ items = []) := by
  obtain ⟨found, mid, hlist, hrest⟩ := exists_of_run_bind_eq_ok h
  obtain ⟨rfl, hcleared⟩ |
    ⟨stored, rfl, rfl, hahead, hvalue, hfields, hmembers, data, hget, hdecode, hne⟩ :=
      outcome_of_run_redisList hlist
  · cases hrest
    exact .inr ⟨hcleared, rfl⟩
  have honly : OnlyList time (s.erase (valueKey key)) key :=
    ⟨hahead.erase, by rw [Store.getElem?_erase, if_pos rfl],
      fieldRecords_erase_value.trans hfields, members_erase_value.trans hmembers⟩
  have hrecord : (s.erase (valueKey key))[listKey key]? = some data := by
    rw [Store.getElem?_erase_of_ne _ (valueKey_ne_listKey _ _), hget]
  dsimp only at hrest
  by_cases hdecodes : ∀ item ∈ stored, ∃ value, unmarshalEnvelope item = .ok value
  swap
  · obtain ⟨err, hrun⟩ := run_redisLiveItems_of_malformed time (s.erase (valueKey key)) hdecodes
    rw [run_bind_error hrun] at hrest
    cases hrest
  rw [run_bind_ok (run_redisLiveItems_of_decodes hdecodes)] at hrest
  -- The live items, which are written back when some item has expired.
  have hsub := List.filter_sublist (p := fun item => !envelopeExpired item time) (l := stored)
  have hlive : LiveItems time (stored.filter fun item => !envelopeExpired item time) := by
    intro item hitem
    obtain ⟨hmem, hnot⟩ := List.mem_filter.mp hitem
    obtain ⟨value, hvalue⟩ := hdecodes item hmem
    refine ⟨value, hvalue, ?_⟩
    rw [envelopeExpired, hvalue] at hnot
    simpa using hnot
  generalize stored.filter (fun item => !envelopeExpired item time) = kept at hsub hlive hrest
  by_cases hlength : kept.length = stored.length
  · obtain rfl : kept = stored := hsub.eq_of_length hlength
    rw [if_neg (not_not_intro rfl)] at hrest
    cases hrest
    exact .inl ⟨honly, ⟨data, hrecord, hdecode⟩, hne, hlive⟩
  · rw [if_pos hlength, run_bind_ok run_redisWriteList] at hrest
    cases hrest
    by_cases hkept : items = []
    · subst hkept
      exact .inr ⟨(Store.noRecordOf_without _ key).cleared, rfl⟩
    · rw [afterWrite, if_neg hkept]
      exact .inl (honly.insert hkept hlive (decodeList_encodeList_of_sublist hdecode hsub))

end Lists

end KVLite
