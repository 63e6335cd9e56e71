import KVLite.Core.Database

/-!
# The slots of a logical key

A logical key has five kinds of slots in the byte keyspace: its value, its list, the
deadline of its collection, its hash fields and its set members. The slot and the name
are read back from the storage key, so the removal of a name takes its own records and
no other.
-/

namespace KVLite

open Semantics Fallible BigEndian

/-- The places in which a key can have a record. -/
inductive Slot
  | value
  | list
  | ttl
  | field (name : Bytes)
  | member (name : Bytes)
  deriving DecidableEq

def Slot.storageKey (key : Bytes) : Slot → Bytes
  | .value => valueKey key
  | .list => listKey key
  | .ttl => collectionTTLKey key
  | .field name => hashKey key name
  | .member name => setKey key name

@[simp] theorem Slot.storageKey_inj {key : Bytes} {slot slot' : Slot} :
    slot.storageKey key = slot'.storageKey key ↔ slot = slot' := by
  cases slot <;> cases slot' <;> simp [Slot.storageKey]

theorem recordOf_iff {key storageKey : Bytes} :
    RecordOf key storageKey ↔ ∃ slot : Slot, slot.storageKey key = storageKey := by
  constructor
  · rintro (rfl | rfl | rfl | hpre | hpre)
    · exact ⟨.value, rfl⟩
    · exact ⟨.list, rfl⟩
    · exact ⟨.ttl, rfl⟩
    · obtain ⟨name, rfl⟩ := namespacePrefix_isPrefix_iff.mp hpre
      exact ⟨.field name, rfl⟩
    · obtain ⟨name, rfl⟩ := namespacePrefix_isPrefix_iff.mp hpre
      exact ⟨.member name, rfl⟩
  · rintro ⟨slot, rfl⟩
    cases slot with
    | value => exact .inl rfl
    | list => exact .inr (.inl rfl)
    | ttl => exact .inr (.inr (.inl rfl))
    | field name => exact .inr (.inr (.inr (.inl ⟨name, rfl⟩)))
    | member name => exact .inr (.inr (.inr (.inr ⟨name, rfl⟩)))

section LogicalKey

variable {key key' storageKey : Bytes}

theorem Slot.logicalKeyFromStorage_storageKey (hkey : ShortName key) (slot : Slot) :
    logicalKeyFromStorage (slot.storageKey key) = some key := by
  cases slot with
  | value => exact logicalKeyFromStorage_valueKey key
  | list => exact logicalKeyFromStorage_listKey key
  | ttl => exact logicalKeyFromStorage_collectionTTLKey key
  | field name => exact logicalKeyFromStorage_namespacedKey name (.inl rfl) hkey
  | member name => exact logicalKeyFromStorage_namespacedKey name (.inr rfl) hkey

/-- The bytes after the kind byte of a namespaced key, when the length they begin with
is that of the name after them. -/
theorem eq_bigEndian_append_of_take {rest : Bytes} (hrest : 4 + ofBigEndian (rest.take 4) ≤ rest.length)
    (hname : (rest.drop 4).take (ofBigEndian (rest.take 4)) = key) :
    rest = bigEndian 4 key.length ++ key ++ rest.drop (4 + key.length) := by
  have hlength : key.length = ofBigEndian (rest.take 4) := by
    rw [← hname, List.length_take, List.length_drop]
    omega
  have hcount : bigEndian 4 key.length = rest.take 4 := by
    rw [hlength, bigEndian_of_length (by rw [List.length_take]; omega)]
  rw [← hlength] at hname
  rw [hcount, ← List.drop_drop, List.append_assoc]
  conv_lhs => rw [← List.take_append_drop 4 rest, ← List.take_append_drop key.length (rest.drop 4)]
  rw [hname]

theorem exists_slot_of_logicalKeyFromStorage (h : logicalKeyFromStorage storageKey = some key) :
    ∃ slot : Slot, slot.storageKey key = storageKey := by
  unfold logicalKeyFromStorage at h
  split at h
  · cases h
  · next kind rest =>
    split at h
    · next hkind =>
      obtain rfl := Option.some.inj h
      rcases hkind with rfl | rfl | rfl
      exacts [⟨.value, rfl⟩, ⟨.list, rfl⟩, ⟨.ttl, rfl⟩]
    · split at h
      · next hkind =>
        split at h
        · cases h
        simp only at h
        split at h
        · cases h
        next hlength =>
        have hrest := eq_bigEndian_append_of_take
          (by rw [List.length_cons] at hlength; omega) (Option.some.inj h)
        rw [hrest, ← namespacedKey_eq_cons]
        rcases hkind with rfl | rfl
        exacts [⟨.field _, rfl⟩, ⟨.member _, rfl⟩]
      · cases h

theorem logicalKeyFromStorage_eq_some_iff (hkey : ShortName key) :
    logicalKeyFromStorage storageKey = some key ↔ RecordOf key storageKey := by
  rw [recordOf_iff]
  constructor
  · exact exists_slot_of_logicalKeyFromStorage
  · rintro ⟨slot, rfl⟩
    exact slot.logicalKeyFromStorage_storageKey hkey

/-- No storage key belongs to two short names. -/
theorem eq_of_recordOf (hkey : ShortName key) (hkey' : ShortName key')
    (h : RecordOf key storageKey) (h' : RecordOf key' storageKey) : key = key' := by
  rw [← logicalKeyFromStorage_eq_some_iff hkey] at h
  rw [← logicalKeyFromStorage_eq_some_iff hkey', h] at h'
  exact Option.some.inj h'

theorem Slot.storageKey_eq_iff (hkey : ShortName key) (hkey' : ShortName key') {slot slot' : Slot} :
    slot.storageKey key = slot'.storageKey key' ↔ key = key' ∧ slot = slot' := by
  constructor
  · intro heq
    obtain rfl := eq_of_recordOf hkey hkey' (recordOf_iff.mpr ⟨slot, rfl⟩)
      (recordOf_iff.mpr ⟨slot', heq.symm⟩)
    exact ⟨rfl, Slot.storageKey_inj.mp heq⟩
  · rintro ⟨rfl, rfl⟩
    rfl

/-- The layout is unambiguous for names shorter than `2 ^ 32` bytes, and the removal of
a name takes exactly the records whose storage keys belong to it. -/
theorem storage_layout (hkey : ShortName key) :
    (∀ kind storageKey, namespacePrefix kind key <+: storageKey ↔
      ∃ member, storageKey = namespacedKey kind key member) ∧
    (∀ storageKey, logicalKeyFromStorage storageKey = some key ↔
      storageKey = valueKey key ∨ storageKey = listKey key ∨ storageKey = collectionTTLKey key ∨
        (∃ member, storageKey = namespacedKey kindHash key member) ∨
        ∃ member, storageKey = namespacedKey kindSet key member) ∧
    (∀ key', ShortName key' → ∀ slot slot' : Slot,
      slot.storageKey key = slot'.storageKey key' ↔ key = key' ∧ slot = slot') ∧
    ∀ (time : ℤ) (s : Store), ∃ found s',
      run (embedded time) (deleteLogicalKey key) s = (.ok found, s') ∧
      (∀ storageKey, s'[storageKey]? =
        if logicalKeyFromStorage storageKey = some key then none else s[storageKey]?) ∧
      (found = true ↔ ∃ storageKey data, s[storageKey]? = some data ∧
        logicalKeyFromStorage storageKey = some key) := by
  refine ⟨fun kind storageKey => namespacePrefix_isPrefix_iff, fun storageKey => ?_,
    fun key' hkey' slot slot' => Slot.storageKey_eq_iff hkey hkey', fun time s => ?_⟩
  · rw [logicalKeyFromStorage_eq_some_iff hkey, RecordOf, namespacePrefix_isPrefix_iff,
      namespacePrefix_isPrefix_iff]
  · refine ⟨_, _, run_deleteLogicalKey key, fun storageKey => ?_, ?_⟩
    · split
      · next hname =>
        exact Store.getElem?_without_of_recordOf ((logicalKeyFromStorage_eq_some_iff hkey).mp hname)
      · next hname =>
        exact Store.getElem?_without_of_not_recordOf
          (hname ∘ (logicalKeyFromStorage_eq_some_iff hkey).mpr)
    · rw [decide_eq_true_eq, gt_iff_lt, List.length_pos_iff_exists_mem]
      simp only [mem_recordKeys, logicalKeyFromStorage_eq_some_iff hkey, Option.isSome_iff_exists]
      constructor
      · rintro ⟨storageKey, hrecord, data, hget⟩
        exact ⟨storageKey, data, hget, hrecord⟩
      · rintro ⟨storageKey, data, hget, hrecord⟩
        exact ⟨storageKey, hrecord, data, hget⟩

/-- The layout of the name `k`, and its records beside those of `kk`. -/
theorem storage_layout_k :
    ShortName (text "k") ∧ (∀ storageKey, logicalKeyFromStorage storageKey = some (text "k") ↔
      storageKey = valueKey (text "k") ∨ storageKey = listKey (text "k") ∨
        storageKey = collectionTTLKey (text "k") ∨
        (∃ member, storageKey = namespacedKey kindHash (text "k") member) ∨
        ∃ member, storageKey = namespacedKey kindSet (text "k") member) ∧
    ∀ slot slot' : Slot, slot.storageKey (text "k") = slot'.storageKey (text "kk") ↔
      text "k" = text "kk" ∧ slot = slot' :=
  have h := @storage_layout (text "k") (by decide)
  ⟨by decide, h.2.1, h.2.2.1 (text "kk") (by decide)⟩

end LogicalKey

end KVLite
