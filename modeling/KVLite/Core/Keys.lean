import KVLite.Core.Errors
import KVLite.Math.BigEndian

/-!
# The storage-key layout

One byte keyspace holds every record: a scalar value, a list and the expiry metadata
of a collection under their kind byte and the name, a hash field and a set member
under their kind byte, the length of the name in four bytes, the name and the member.
The four length bytes truncate a name of `2 ^ 32` bytes or more; the results that
tell two names apart therefore ask for shorter ones.
-/

namespace KVLite

open BigEndian

def kindValue : UInt8 := 1
def kindHash : UInt8 := 2
def kindSet : UInt8 := 3
def kindList : UInt8 := 4
def kindCollectionTTL : UInt8 := 5

def valueKey (key : Bytes) : Bytes := kindValue :: key

def namespacePrefix (kind : UInt8) (name : Bytes) : Bytes :=
  kind :: bigEndian 4 name.length ++ name

def namespacedKey (kind : UInt8) (name member : Bytes) : Bytes :=
  namespacePrefix kind name ++ member

def listKey (name : Bytes) : Bytes := kindList :: name

def collectionTTLKey (key : Bytes) : Bytes := kindCollectionTTL :: key

/-- The logical key a storage key belongs to. -/
def logicalKeyFromStorage (storageKey : Bytes) : Option Bytes :=
  match storageKey with
  | [] => none
  | kind :: rest =>
    if kind = kindValue ∨ kind = kindList ∨ kind = kindCollectionTTL then some rest
    else if kind = kindHash ∨ kind = kindSet then
      if storageKey.length < 5 then none
      else
        let length := ofBigEndian (rest.take 4)
        if storageKey.length < 5 + length then none
        else some ((rest.drop 4).take length)
    else none

/-- The key of one field of a hash. -/
abbrev hashKey (name field : Bytes) : Bytes := namespacedKey kindHash name field

/-- The key of one member of a set. -/
abbrev setKey (name member : Bytes) : Bytes := namespacedKey kindSet name member

/-- A name whose length fits the four length bytes of a namespaced key. -/
def ShortName (name : Bytes) : Prop := name.length < 2 ^ 32

instance (name : Bytes) : Decidable (ShortName name) := inferInstanceAs (Decidable (_ < _))

/-! ### Distinct forms never collide -/

theorem namespacedKey_eq_cons (kind : UInt8) (name member : Bytes) :
    namespacedKey kind name member = kind :: (bigEndian 4 name.length ++ name ++ member) := by
  simp [namespacedKey, namespacePrefix]

@[simp] theorem valueKey_inj {k k' : Bytes} : valueKey k = valueKey k' ↔ k = k' := by
  simp [valueKey]

@[simp] theorem listKey_inj {k k' : Bytes} : listKey k = listKey k' ↔ k = k' := by
  simp [listKey]

@[simp] theorem collectionTTLKey_inj {k k' : Bytes} :
    collectionTTLKey k = collectionTTLKey k' ↔ k = k' := by
  simp [collectionTTLKey]

@[simp] theorem valueKey_ne_listKey (k k' : Bytes) : valueKey k ≠ listKey k' := by
  simp [valueKey, listKey, kindValue, kindList]

@[simp] theorem listKey_ne_valueKey (k k' : Bytes) : listKey k ≠ valueKey k' :=
  (valueKey_ne_listKey k' k).symm

@[simp] theorem valueKey_ne_collectionTTLKey (k k' : Bytes) :
    valueKey k ≠ collectionTTLKey k' := by
  simp [valueKey, collectionTTLKey, kindValue, kindCollectionTTL]

@[simp] theorem collectionTTLKey_ne_valueKey (k k' : Bytes) :
    collectionTTLKey k ≠ valueKey k' := (valueKey_ne_collectionTTLKey k' k).symm

@[simp] theorem listKey_ne_collectionTTLKey (k k' : Bytes) :
    listKey k ≠ collectionTTLKey k' := by
  simp [listKey, collectionTTLKey, kindList, kindCollectionTTL]

@[simp] theorem collectionTTLKey_ne_listKey (k k' : Bytes) :
    collectionTTLKey k ≠ listKey k' := (listKey_ne_collectionTTLKey k' k).symm

@[simp] theorem hashKey_ne_valueKey (n f k : Bytes) : hashKey n f ≠ valueKey k := by
  simp [namespacedKey_eq_cons, valueKey, kindHash, kindValue]

@[simp] theorem hashKey_ne_listKey (n f k : Bytes) : hashKey n f ≠ listKey k := by
  simp [namespacedKey_eq_cons, listKey, kindHash, kindList]

@[simp] theorem hashKey_ne_collectionTTLKey (n f k : Bytes) :
    hashKey n f ≠ collectionTTLKey k := by
  simp [namespacedKey_eq_cons, collectionTTLKey, kindHash, kindCollectionTTL]

@[simp] theorem hashKey_ne_setKey (n f n' m : Bytes) : hashKey n f ≠ setKey n' m := by
  simp [namespacedKey_eq_cons, kindHash, kindSet]

@[simp] theorem setKey_ne_valueKey (n m k : Bytes) : setKey n m ≠ valueKey k := by
  simp [namespacedKey_eq_cons, valueKey, kindSet, kindValue]

@[simp] theorem setKey_ne_listKey (n m k : Bytes) : setKey n m ≠ listKey k := by
  simp [namespacedKey_eq_cons, listKey, kindSet, kindList]

@[simp] theorem setKey_ne_collectionTTLKey (n m k : Bytes) :
    setKey n m ≠ collectionTTLKey k := by
  simp [namespacedKey_eq_cons, collectionTTLKey, kindSet, kindCollectionTTL]

@[simp] theorem setKey_ne_hashKey (n m n' f : Bytes) : setKey n m ≠ hashKey n' f :=
  (hashKey_ne_setKey n' f n m).symm

@[simp] theorem valueKey_ne_hashKey (k n f : Bytes) : valueKey k ≠ hashKey n f :=
  (hashKey_ne_valueKey n f k).symm

@[simp] theorem valueKey_ne_setKey (k n m : Bytes) : valueKey k ≠ setKey n m :=
  (setKey_ne_valueKey n m k).symm

@[simp] theorem listKey_ne_hashKey (k n f : Bytes) : listKey k ≠ hashKey n f :=
  (hashKey_ne_listKey n f k).symm

@[simp] theorem listKey_ne_setKey (k n m : Bytes) : listKey k ≠ setKey n m :=
  (setKey_ne_listKey n m k).symm

@[simp] theorem collectionTTLKey_ne_hashKey (k n f : Bytes) :
    collectionTTLKey k ≠ hashKey n f := (hashKey_ne_collectionTTLKey n f k).symm

@[simp] theorem collectionTTLKey_ne_setKey (k n m : Bytes) :
    collectionTTLKey k ≠ setKey n m := (setKey_ne_collectionTTLKey n m k).symm

/-- The length bytes of a short name determine its length. -/
theorem bigEndian_length_inj {n n' : Bytes} (hn : ShortName n) (hn' : ShortName n')
    (h : bigEndian 4 n.length = bigEndian 4 n'.length) : n.length = n'.length := by
  have := congrArg ofBigEndian h
  rwa [ofBigEndian_bigEndian_of_lt hn, ofBigEndian_bigEndian_of_lt hn'] at this

/-- A namespaced key determines its kind, its name and its member. -/
theorem namespacedKey_inj {kind kind' : UInt8} {n n' m m' : Bytes} (hn : ShortName n)
    (hn' : ShortName n') :
    namespacedKey kind n m = namespacedKey kind' n' m' ↔ kind = kind' ∧ n = n' ∧ m = m' := by
  constructor
  · intro h
    rw [namespacedKey_eq_cons, namespacedKey_eq_cons, List.cons.injEq, List.append_assoc,
      List.append_assoc] at h
    obtain ⟨hkind, hrest⟩ := h
    obtain ⟨hlen, hrest⟩ := List.append_inj hrest (by simp)
    obtain ⟨hname, hmember⟩ := List.append_inj hrest (bigEndian_length_inj hn hn' hlen)
    exact ⟨hkind, hname, hmember⟩
  · rintro ⟨rfl, rfl, rfl⟩
    rfl

/-- The members of one name differ by their member part only. -/
@[simp] theorem namespacedKey_right_inj {kind : UInt8} {n m m' : Bytes} :
    namespacedKey kind n m = namespacedKey kind n m' ↔ m = m' := by
  simp [namespacedKey]

/-! ### Prefix scans -/

/-- The storage keys under a name's prefix are the keys of its members. -/
theorem namespacePrefix_isPrefix_iff {kind : UInt8} {n s : Bytes} :
    namespacePrefix kind n <+: s ↔ ∃ m, s = namespacedKey kind n m :=
  ⟨fun ⟨m, h⟩ => ⟨m, h.symm⟩, fun ⟨m, h⟩ => ⟨m, h.symm⟩⟩

theorem namespacePrefix_isPrefix_namespacedKey {kind kind' : UInt8} {n n' m : Bytes}
    (hn : ShortName n) (hn' : ShortName n') :
    namespacePrefix kind n <+: namespacedKey kind' n' m ↔ kind = kind' ∧ n = n' := by
  rw [namespacePrefix_isPrefix_iff]
  constructor
  · rintro ⟨m', h⟩
    obtain ⟨rfl, rfl, -⟩ := (namespacedKey_inj hn' hn).mp h
    exact ⟨rfl, rfl⟩
  · rintro ⟨rfl, rfl⟩
    exact ⟨m, rfl⟩

/-! ### Reading the logical key back -/

@[simp] theorem logicalKeyFromStorage_valueKey (k : Bytes) :
    logicalKeyFromStorage (valueKey k) = some k := by
  simp [logicalKeyFromStorage, valueKey]

@[simp] theorem logicalKeyFromStorage_listKey (k : Bytes) :
    logicalKeyFromStorage (listKey k) = some k := by
  simp [logicalKeyFromStorage, listKey]

@[simp] theorem logicalKeyFromStorage_collectionTTLKey (k : Bytes) :
    logicalKeyFromStorage (collectionTTLKey k) = some k := by
  simp [logicalKeyFromStorage, collectionTTLKey]

theorem logicalKeyFromStorage_namespacedKey {kind : UInt8} {n : Bytes} (m : Bytes)
    (hkind : kind = kindHash ∨ kind = kindSet) (hn : ShortName n) :
    logicalKeyFromStorage (namespacedKey kind n m) = some n := by
  have hother : ¬ (kind = kindValue ∨ kind = kindList ∨ kind = kindCollectionTTL) := by
    rcases hkind with rfl | rfl <;> decide
  have hlen : ofBigEndian (bigEndian 4 n.length) = n.length := ofBigEndian_bigEndian_of_lt hn
  rw [namespacedKey_eq_cons, logicalKeyFromStorage]
  simp only [if_neg hother, if_pos hkind, List.length_cons, List.length_append,
    length_bigEndian, List.append_assoc]
  rw [List.take_left' (length_bigEndian 4 n.length), List.drop_left' (length_bigEndian 4 n.length),
    hlen, if_neg (by omega), if_neg (by omega), List.take_left' rfl]

end KVLite
