import KVLite.Keyspace.Layout
import KVLite.Keyspace.ReadersAt
import KVLite.TypedMap.Machine

/-!
# The records of an entry

The records that stand for an entry of the typed map, and what the Redis code does on
the records of one key. A fact `Does x records result records'` says what `x` returns
and leaves, from every store with the given records of the key, and that it touches no
other record.
-/

namespace KVLite.TypedMap

open Semantics Fallible BigEndian Redis

/-- A common beginning does not matter for the byte order. -/
theorem compare_append_left (pre a b : Bytes) : compare (pre ++ a) (pre ++ b) = compare a b := by
  induction pre with
  | nil => rfl
  | cons byte pre ih =>
    rw [List.cons_append, List.cons_append, List.compare_cons_cons, ih]
    simp

/-- The records of one key. -/
abbrev Records := Slot → Option Bytes

/-- A key without records. -/
def noRecords : Records := fun _ => none

/-- A store has the given records of a key, and those of `s₀` elsewhere. -/
structure At (s₀ : Store) (key : Bytes) (s : Store) (records : Records) : Prop where
  records : ∀ slot : Slot, s[slot.storageKey key]? = records slot
  frame : ∀ storageKey, ¬ RecordOf key storageKey → s[storageKey]? = s₀[storageKey]?

section At

variable {s₀ s : Store} {key : Bytes} {records : Records}

theorem At.unique {s' : Store} (h : At s₀ key s records) (h' : At s₀ key s' records) : s = s' :=
  Store.ext fun storageKey => by
    by_cases hrecord : RecordOf key storageKey
    · obtain ⟨slot, rfl⟩ := recordOf_iff.mp hrecord
      rw [h.records, h'.records]
    · rw [h.frame storageKey hrecord, h'.frame storageKey hrecord]

theorem At.insert (h : At s₀ key s records) (slot : Slot) (data : Bytes) :
    At s₀ key (s.insert (slot.storageKey key) data) (Function.update records slot (some data)) where
  records slot' := by
    rw [Store.getElem?_insert, h.records, Function.update_apply]
    simp only [Slot.storageKey_inj, eq_comm (a := slot)]
  frame storageKey hother := by
    rw [Store.getElem?_insert_of_ne, h.frame storageKey hother]
    exact fun heq => hother (recordOf_iff.mpr ⟨slot, heq⟩)

theorem At.erase (h : At s₀ key s records) (slot : Slot) :
    At s₀ key (s.erase (slot.storageKey key)) (Function.update records slot none) where
  records slot' := by
    rw [Store.getElem?_erase, h.records, Function.update_apply]
    simp only [Slot.storageKey_inj, eq_comm (a := slot)]
  frame storageKey hother := by
    rw [Store.getElem?_erase_of_ne, h.frame storageKey hother]
    exact fun heq => hother (recordOf_iff.mpr ⟨slot, heq⟩)

theorem At.without (h : At s₀ key s records) : At s₀ key (s.without key) noRecords where
  records slot := Store.getElem?_without_of_recordOf (recordOf_iff.mpr ⟨slot, rfl⟩)
  frame storageKey hother := by
    rw [Store.getElem?_without_of_not_recordOf hother, h.frame storageKey hother]

/-- A scan delivers the records of a sorted list of names in the order of the list. -/
theorem At.scan_eq (h : At s₀ key s records) (kind : UInt8) (slot : Bytes → Slot)
    (hslot : ∀ name, (slot name).storageKey key = namespacedKey kind key name)
    (entries : List (Bytes × Bytes))
    (hsorted : entries.Pairwise fun a b => compare a.1 b.1 = .lt)
    (hmem : ∀ name data, (name, data) ∈ entries ↔ records (slot name) = some data) :
    s.scan (namespacePrefix kind key) =
      entries.map fun entry => (namespacedKey kind key entry.1, entry.2) := by
  have hentries : (entries.map fun entry => (namespacedKey kind key entry.1, entry.2)).Pairwise
      fun a b => compare a.1 b.1 = .lt := by
    rw [List.pairwise_map]
    refine hsorted.imp fun {a b} hcompare => ?_
    simpa only [namespacedKey, compare_append_left] using hcompare
  -- Both lists are sorted by storage key and have the same records.
  apply Store.eq_of_pairwise (Store.pairwise_scan _ _) hentries
  rintro ⟨storageKey, data⟩
  rw [Store.mem_scan, List.mem_map]
  constructor
  · rintro ⟨hpre, hget⟩
    obtain ⟨name, rfl⟩ := namespacePrefix_isPrefix_iff.mp hpre
    refine ⟨(name, data), ?_, rfl⟩
    rw [hmem, ← h.records, hslot, hget]
  · rintro ⟨⟨name, data'⟩, hentry, heq⟩
    obtain ⟨rfl, rfl⟩ := Prod.mk.injEq .. ▸ heq
    refine ⟨⟨name, rfl⟩, ?_⟩
    rw [← hslot, h.records, (hmem _ _).mp hentry]

end At

/-! ### The records of a value -/

/-- The records that stand for a value with a deadline. The deadline of a string is in
its record, that of a collection in a record of its own. -/
def Value.records (value : Value) (deadline : Option ℤ) : Records
  | .value => match value with
    | .string data => some (bytesRecord data (deadline.getD 0))
    | _ => none
  | .list => match value with
    | .list items => if items.isEmpty then none else some (encodeList (items.map (bytesRecord · 0)))
    | _ => none
  | .ttl => match value with
    | .string _ => none
    | _ => deadline.map encodeRedisExpiry
  | .field name => match value with
    | .hash fields => fields[name]?.map (bytesRecord · 0)
    | _ => none
  | .member name => match value with
    | .set members => if members.contains name then some [1] else none
    | _ => none

theorem Value.records_list {items : List Bytes} (h : items ≠ []) (deadline : Option ℤ) :
    (Value.list items).records deadline .list = some (encodeList (items.map (bytesRecord · 0))) := by
  cases items with
  | nil => exact absurd rfl h
  | cons item items => rfl

def recordsOf : Option Entry → Records
  | none => noRecords
  | some entry => entry.value.records entry.deadline

theorem Value.records_of_isEmpty {value : Value} (h : value.isEmpty = true) :
    value.records none = noRecords := by
  funext slot
  cases value with
  | string data => cases h
  | hash fields =>
    obtain rfl := Std.ExtTreeMap.isEmpty_iff.mp h
    cases slot <;> simp [Value.records, noRecords]
  | set members =>
    obtain rfl := Std.ExtTreeSet.isEmpty_iff.mp h
    cases slot <;> simp [Value.records, noRecords]
  | list items =>
    obtain rfl := List.isEmpty_iff.mp h
    cases slot <;> rfl

/-- The deadline of a collection is one record. -/
theorem Value.update_records_ttl {value : Value} (h : value.typ ≠ .string)
    (deadline deadline' : Option ℤ) :
    Function.update (value.records deadline) .ttl (deadline'.map encodeRedisExpiry) =
      value.records deadline' := by
  funext slot
  cases value with
  | string data => exact absurd rfl h
  | _ => cases slot <;> rfl

theorem records_hash_empty : (Value.hash ∅).records none = noRecords :=
  Value.records_of_isEmpty Std.ExtTreeMap.isEmpty_empty

theorem records_set_empty : (Value.set ∅).records none = noRecords :=
  Value.records_of_isEmpty Std.ExtTreeSet.isEmpty_empty

theorem records_list_empty : (Value.list []).records none = noRecords :=
  Value.records_of_isEmpty rfl

theorem recordsOf_of (value : Value) (deadline : Option ℤ) :
    recordsOf (Entry.of value deadline) =
      if value.isEmpty then noRecords else value.records deadline := by
  unfold Entry.of
  by_cases h : value.isEmpty = false
  · rw [dif_pos h, h]
    rfl
  · rw [dif_neg h, if_pos (by simpa using h)]
    rfl

/-- The entry of a value, when an empty collection has no deadline. -/
theorem recordsOf_of_eq {value : Value} {deadline : Option ℤ}
    (h : value.isEmpty = true → deadline = none) :
    recordsOf (Entry.of value deadline) = value.records deadline := by
  rw [recordsOf_of]
  split
  · next hempty => rw [h hempty, Value.records_of_isEmpty hempty]
  · rfl

/-- What the records can keep: a deadline of 63 bits, and a list whose count and items
fit the length fields of its record. -/
structure Storable (value : Value) (deadline : Option ℤ) : Prop where
  deadline : ∀ d ∈ deadline, 0 < d ∧ d < 2 ^ 63
  count : ∀ items, value = .list items → items.length < 2 ^ 32
  items : ∀ items, value = .list items → ShortItems (items.map (bytesRecord · 0))

/-- The deadline is ahead, if there is one. -/
def Ahead (now : ℤ) (deadline : Option ℤ) : Prop := ∀ d ∈ deadline, now < d

/-! ### Code on the records of a key -/

/-- From every store with the given records of the key, `x` ends with `result`, leaves
`records'` and touches nothing else. -/
abbrev Does {α : Type} (now : ℤ) (s₀ : Store) (key : Bytes) (x : Action α) (records : Records)
    (result : Except GoError α) (records' : Records) : Prop :=
  Fallible.Computes (embedded now) (At s₀ key) x records result records'

section Does

variable {α : Type} {now : ℤ} {s₀ : Store} {key : Bytes} {records records' : Records}

/-- Code that leaves the store as it is. -/
theorem Does.of_run {x : Action α} {result : Except GoError α}
    (h : ∀ s, At s₀ key s records → run (embedded now) x s = (result, s)) :
    Does now s₀ key x records result records := fun s hs => ⟨s, h s hs, hs⟩

theorem does_get (slot : Slot) :
    Does now s₀ key (Transport.get (slot.storageKey key)) records (.ok (records slot)) records :=
  .of_run fun s hs => by rw [Transport.run_get, hs.records]

theorem does_put (slot : Slot) (data : Bytes) :
    Does now s₀ key (Transport.put (slot.storageKey key) data) records (.ok ())
      (Function.update records slot (some data)) :=
  fun _ hs => ⟨_, Transport.run_put, hs.insert slot data⟩

theorem does_delete (slot : Slot) :
    Does now s₀ key (Transport.delete (slot.storageKey key)) records (.ok ())
      (Function.update records slot none) :=
  fun _ hs => ⟨_, Transport.run_delete, hs.erase slot⟩

theorem does_liftExcept (x : Except GoError α) : Does now s₀ key (liftExcept x) records x records :=
  .of_run fun _ _ => run_liftExcept x

theorem does_now : Does now s₀ key KVLite.now records (.ok now) records :=
  .of_run fun _ _ => run_now

theorem Does.ignoringError {x : Action α} {result : Except GoError α}
    (h : Does now s₀ key x records result records') :
    Does now s₀ key (ignoringError x) records (.ok ()) records' := by
  intro s hs
  obtain ⟨s', hrun, hs'⟩ := h s hs
  exact ⟨s', by rw [run_ignoringError, hrun], hs'⟩

/-- The removal of a key before the rest of a command. -/
theorem Does.redisDeleteRaw_bind {f : Bool → Action α} {result : Except GoError α}
    (h : ∀ found, Does now s₀ key (f found) noRecords result records') :
    Does now s₀ key (redisDeleteRaw key >>= f) records result records' := by
  intro s hs
  obtain ⟨s', hrun, hs'⟩ := h _ _ hs.without
  exact ⟨s', (run_bind_ok run_redisDeleteRaw).trans hrun, hs'⟩

/-- A value is written without a deadline. -/
theorem does_putPayload (slot : Slot) (payload : Bytes) :
    Does now s₀ key (putPayload (slot.storageKey key) Redis.bytesCodec payload 0) records (.ok ())
      (Function.update records slot (some (bytesRecord payload 0))) :=
  fun _ hs => ⟨_, rfl, hs.insert slot _⟩

/-- A value is written with the time that is left to its deadline. -/
theorem does_putPayload_of_deadline {expiresAt : ℤ} (slot : Slot) (payload : Bytes)
    (hahead : now < expiresAt) (hdeadline : IsInt64 expiresAt) :
    Does now s₀ key (putPayload (slot.storageKey key) Redis.bytesCodec payload (expiresAt - now)) records
      (.ok ()) (Function.update records slot (some (bytesRecord payload expiresAt))) := by
  have hafter : Does now s₀ key (deadlineAfter (expiresAt - now)) records (.ok expiresAt) records := by
    rw [deadlineAfter, if_pos (by omega)]
    refine does_now.bind ?_
    rw [show now + (expiresAt - now) = expiresAt by omega, wrapInt64_eq hdeadline]
    exact .pure _
  exact hafter.bind ((does_liftExcept (.ok _)).bind (does_put slot _))

end Does

end KVLite.TypedMap
