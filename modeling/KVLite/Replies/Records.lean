import KVLite.Keyspace.LiveData
import KVLite.Keyspace.Stored
import KVLite.Semantics.FailSafe
import KVLite.TypedMap.Invariant

/-!
# The records of the Redis commands

The records in a store that only Redis commands have written, whatever the commands
and however long its lists: storage keys are short, hash fields and list items have no
deadline, a list is not empty and the expiry metadata of a collection has eight bytes.
A list record need not decode, since its count wraps around at `2 ^ 32` items; but if it
decodes, it gives the items that were written.
-/

namespace KVLite

open Semantics Fallible BigEndian Redis TypedMap

/-! ### The invariant -/

/-- The items of a list that the commands have written. -/
structure PlainItems (items : List Bytes) : Prop where
  short : ShortItems items
  undated : ∀ item ∈ items, ∃ payload, item = bytesRecord payload 0

/-- A record that the commands write. -/
structure RedisRecord (storageKey data : Bytes) : Prop where
  short : storageKey.length < 2 ^ 32
  field : ∀ name field, storageKey = hashKey name field → ∃ payload, data = bytesRecord payload 0
  list : ∀ name, storageKey = listKey name →
    ∃ items, data = encodeList items ∧ items ≠ [] ∧ PlainItems items
  ttl : ∀ name, storageKey = collectionTTLKey name → data.length = 8

/-- A store that has only records of the commands. -/
def RedisStore (s : Store) : Prop := HoldsOnly RedisRecord s

section Items

variable {items items' : List Bytes}

theorem PlainItems.nil : PlainItems [] where
  short _ hmem := by cases hmem
  undated _ hmem := by cases hmem

theorem PlainItems.of_subset (h : PlainItems items) (hsubset : items' ⊆ items) :
    PlainItems items' :=
  ⟨fun item hmem => h.short item (hsubset hmem), fun item hmem => h.undated item (hsubset hmem)⟩

theorem PlainItems.append (h : PlainItems items) (h' : PlainItems items') :
    PlainItems (items ++ items') := by
  constructor <;> intro item hmem <;> rcases List.mem_append.mp hmem with hmem | hmem
  · exact h.short item hmem
  · exact h'.short item hmem
  · exact h.undated item hmem
  · exact h'.undated item hmem

theorem plainItems_itemRecords {values : List Bytes}
    (h : ∀ value ∈ values, value.length ≤ maxRESPBulk) : PlainItems (itemRecords values) := by
  constructor <;> intro item hmem <;> obtain ⟨value, hvalue, rfl⟩ := List.mem_map.mp hmem
  · rw [length_bytesRecord]
    have hbound : maxRESPBulk + 19 < 2 ^ 32 := by decide
    have := h value hvalue
    omega
  · exact ⟨value, rfl⟩

theorem PlainItems.redisItemPayload (h : PlainItems items) {item : Bytes} (hmem : item ∈ items)
    (time : ℤ) : ∃ payload, Redis.redisItemPayload item time = .ok (some payload) := by
  obtain ⟨payload, rfl⟩ := h.undated item hmem
  exact ⟨payload, redisItemPayload_bytesRecord payload time⟩

theorem PlainItems.redisListReply (h : PlainItems items) (time : ℤ) :
    ∃ replies, Redis.redisListReply time items = .ok replies := by
  induction items with
  | nil => exact ⟨_, rfl⟩
  | cons item items ih =>
    obtain ⟨payload, hpayload⟩ := h.redisItemPayload List.mem_cons_self time
    obtain ⟨replies, hreplies⟩ := ih (h.of_subset (List.subset_cons_self _ _))
    rw [Redis.redisListReply, hpayload, hreplies]
    exact ⟨_, rfl⟩

/-- The read-back of the items. -/
theorem RedisStore.plainItems {s : Store} (hs : RedisStore s) {key data : Bytes}
    (hget : s[listKey key]? = some data) (hdata : decodeList data = .ok items) :
    items ≠ [] ∧ PlainItems items := by
  obtain ⟨written, rfl, hne, hplain⟩ := (hs _ _ hget).list key rfl
  rw [eq_of_decodeList_encodeList hplain.short hdata]
  exact ⟨hne, hplain⟩

end Items

section Store

variable {s : Store} {key : Bytes}

theorem RedisStore.erase (hs : RedisStore s) (storageKey : Bytes) :
    RedisStore (s.erase storageKey) := HoldsOnly.erase hs storageKey

/-- The fields of a hash have no deadline. -/
theorem RedisStore.field (hs : RedisStore s) {record : Bytes × Bytes}
    (hmem : record ∈ fieldRecords s key) :
    ∃ payload, unmarshalEnvelope record.2 = .ok ⟨0, Redis.bytesCodec, payload⟩ := by
  obtain ⟨hpre, hget⟩ := Store.mem_scan.mp hmem
  obtain ⟨field, hfield⟩ := namespacePrefix_isPrefix_iff.mp hpre
  obtain ⟨payload, hdata⟩ := (hs _ _ hget).field key field hfield
  exact ⟨payload, hdata ▸ unmarshalEnvelope_bytesRecord (by decide)⟩

theorem RedisStore.field_decodes (hs : RedisStore s) {record : Bytes × Bytes}
    (hmem : record ∈ fieldRecords s key) : ∃ value, unmarshalEnvelope record.2 = .ok value :=
  let ⟨_, h⟩ := hs.field hmem
  ⟨_, h⟩

theorem RedisStore.field_live (hs : RedisStore s) {record : Bytes × Bytes}
    (hmem : record ∈ fieldRecords s key) (time : ℤ) : envelopeExpired record.2 time = false := by
  obtain ⟨payload, hpayload⟩ := hs.field hmem
  rw [envelopeExpired, hpayload]
  exact Envelope.expired_of_nonpos le_rfl time

/-- A key without a live field has no field at all. -/
theorem RedisStore.not_endangered (hs : RedisStore s) (time : ℤ) :
    ¬ Endangered time s key := by
  intro h
  obtain ⟨record, hmem⟩ := List.exists_mem_of_ne_nil _ h.field
  have hexpired := h.fields record hmem
  rw [hs.field_live hmem] at hexpired
  cases hexpired

/-- The storage key of a key is longer than the key. -/
theorem length_lt_of_recordOf {storageKey : Bytes} (h : RecordOf key storageKey) :
    key.length < storageKey.length := by
  obtain ⟨slot, rfl⟩ := recordOf_iff.mp h
  cases slot <;>
    simp only [Slot.storageKey, valueKey, listKey, collectionTTLKey, hashKey, setKey, namespacedKey,
      namespacePrefix, List.length_cons, List.length_append, length_bigEndian] <;> omega

/-- A record belongs to one key. -/
theorem RedisStore.eq_of_recordOf (hs : RedisStore s) {key' storageKey data : Bytes}
    (hget : s[storageKey]? = some data) (h : RecordOf key storageKey)
    (h' : RecordOf key' storageKey) : key = key' := by
  have hshort := (hs _ _ hget).short
  exact KVLite.eq_of_recordOf ((length_lt_of_recordOf h).trans hshort)
    ((length_lt_of_recordOf h').trans hshort) h h'

theorem RedisStore.ttlAhead (hs : RedisStore s) {time : ℤ} (h : ¬ TTLPassed time s key) :
    TTLAhead time s key := by
  intro data hget
  have hlength := (hs _ _ hget).ttl key rfl
  refine ⟨hlength, ?_⟩
  by_contra hpassed
  exact h ⟨data, hget, hlength, by omega⟩

end Store

/-! ### Reading a list -/

section Lists

variable {times : ℤ → Prop} {I : Store → Prop} {key : Bytes} {items : List Bytes}

theorem ensures_redisLiveItems_plain (h : PlainItems items) {s : Store}
    {fail : GoError → Store → Prop} :
    Ensures (embeddedAt times) (redisLiveItems items) s
      (fun live s' => live = items ∧ s' = s) fail := by
  induction items with
  | nil => exact ⟨rfl, rfl⟩
  | cons item items ih =>
    unfold redisLiveItems
    rw [ensures_bind, ensures_now]
    intro time _
    obtain ⟨payload, hpayload⟩ := h.redisItemPayload List.mem_cons_self time
    rw [hpayload, ensures_bind]
    refine .seq ?_
    refine (ih (h.of_subset (List.subset_cons_self _ _))).mono ?_ fun _ _ h => h
    rintro live s' ⟨rfl, rfl⟩
    exact ⟨rfl, rfl⟩

variable (hI : ∀ s, I s → RedisStore s)
  (hprobe : Fallible.Keeps (embeddedAt times) I (redisType key))

include hI hprobe

theorem ensures_redisList_plain (s : Store) (hs : I s) :
    Ensures (embeddedAt times) (redisList key) s
      (fun found s' => I s' ∧ ∀ items, found = some items → PlainItems items) (fun _ => I) := by
  unfold redisList
  rw [ensures_bind]
  refine (hprobe s hs).mono (fun typ s' hs' => ?_) fun _ _ h => h
  cases typ with
  | none => exact ⟨hs', fun _ h => by cases h⟩
  | list =>
    dsimp only
    rw [ensures_bind, ensures_get]
    cases hget : s'[listKey key]? with
    | none => exact ⟨hs', fun _ h => by cases h⟩
    | some data =>
      refine .seq (ensures_liftExcept (fun items hitems => ?_)
        fun _ => hs')
      refine ⟨hs', ?_⟩
      rintro _ ⟨⟩
      exact ((hI s' hs').plainItems hget hitems).2
  | _ => exact hs'

/-- Reading a list drops no item, and gives the items that were written. -/
theorem ensures_redisListValues_plain (s : Store) (hs : I s) :
    Ensures (embeddedAt times) (redisListValues key) s
      (fun items s' => I s' ∧ PlainItems items) (fun _ => I) := by
  unfold redisListValues
  rw [ensures_bind]
  refine (ensures_redisList_plain hI hprobe s hs).mono ?_ fun _ _ h => h
  rintro found s' ⟨hs', hfound⟩
  cases found with
  | none => exact ⟨hs', .nil⟩
  | some items =>
    have hplain := hfound items rfl
    refine .seq ?_
    refine (ensures_redisLiveItems_plain hplain).mono ?_ fun _ _ h => h
    rintro live s'' ⟨rfl, rfl⟩
    rw [if_neg (by simp)]
    exact ⟨hs', hplain⟩

end Lists

/-! ### The commands -/

namespace Redis

variable {times : ℤ → Prop} {key : Bytes} {args : List Bytes}

theorem keeps_of_puts {α : Type} {x : Action α} (hx : Puts (fun _ => False) x) :
    Fallible.Keeps (embeddedAt times) RedisStore x := fun _ hs =>
  ensures_of_writesNothing (fun _ storageKey hs => hs.erase storageKey) hx hs

/-- The storage keys of deliverable arguments are short. -/
theorem Deliverable.short_storageKey (hargs : Deliverable args) {key : Bytes} (hkey : key ∈ args)
    (slot : Slot) (hslot : ∀ name, slot = .field name ∨ slot = .member name → name ∈ args) :
    (slot.storageKey key).length < 2 ^ 32 := by
  have hbound : 2 * maxRESPBulk + 5 < 2 ^ 32 := by decide
  have hsize := hargs.size key hkey
  cases slot with
  | field name | member name =>
    have hname := hargs.size name (hslot name (by simp))
    simp only [Slot.storageKey, hashKey, setKey, namespacedKey, namespacePrefix, List.length_cons,
      List.length_append, length_bigEndian]
    omega
  | _ =>
    simp only [Slot.storageKey, valueKey, listKey, collectionTTLKey, List.length_cons]
    omega

theorem covers_redisRecord (hargs : Deliverable args) : Covers (Writes RedisRecord) args where
  value key hkey data :=
    ⟨hargs.short_storageKey hkey .value (by simp),
      fun _ _ h => absurd h (valueKey_ne_hashKey _ _ _),
      fun _ h => absurd h (valueKey_ne_listKey _ _),
      fun _ h => absurd h (valueKey_ne_collectionTTLKey _ _)⟩
  field name hname field hfield payload :=
    ⟨hargs.short_storageKey hname (.field field) (by simpa using hfield),
      fun _ _ _ => ⟨payload, rfl⟩, fun _ h => absurd h (hashKey_ne_listKey _ _ _),
      fun _ h => absurd h (hashKey_ne_collectionTTLKey _ _ _)⟩
  member name hname member hmember :=
    ⟨hargs.short_storageKey hname (.member member) (by simpa using hmember),
      fun _ _ h => absurd h (setKey_ne_hashKey _ _ _ _),
      fun _ h => absurd h (setKey_ne_listKey _ _ _),
      fun _ h => absurd h (setKey_ne_collectionTTLKey _ _ _)⟩
  ttl key hkey expiresAt :=
    ⟨hargs.short_storageKey hkey .ttl (by simp),
      fun _ _ h => absurd h (collectionTTLKey_ne_hashKey _ _ _),
      fun _ h => absurd h (collectionTTLKey_ne_listKey _ _),
      fun _ _ => length_encodeRedisExpiry expiresAt⟩

section ListCommands

variable (hargs : Deliverable args) (hkey : key ∈ args)

include hargs hkey

theorem keeps_redisWriteList {items : List Bytes} (hitems : PlainItems items) :
    Fallible.Keeps (embeddedAt times) RedisStore (redisWriteList key items) := by
  unfold redisWriteList
  split
  · exact (keeps_of_puts (uses_redisDeleteRaw key)).bind fun _ => .pure _
  · next hlength =>
    intro s hs
    have hrecord : RedisRecord (listKey key) (encodeList items) :=
      ⟨hargs.short_storageKey hkey .list (by simp),
        fun _ _ h => absurd h (listKey_ne_hashKey _ _ _),
        fun _ _ => ⟨items, rfl, fun h => hlength (by rw [h]; rfl), hitems⟩,
        fun _ h => absurd h (listKey_ne_collectionTTLKey _ _)⟩
    exact ensures_put.mpr (HoldsOnly.insert hs hrecord)

omit hargs hkey in
/-- Code that reads a list and may rely on the form of its items. -/
theorem keeps_redisListValues_bind {α : Type} {f : List Bytes → Action α}
    (hf : ∀ items, PlainItems items → Fallible.Keeps (embeddedAt times) RedisStore (f items)) :
    Fallible.Keeps (embeddedAt times) RedisStore (redisListValues key >>= f) :=
  .bind_of_ensures
    (ensures_redisListValues_plain (fun _ hs => hs) (keeps_of_puts (uses_redisType key))) hf

theorem keeps_redisPushValues {values : List Bytes} (hvalues : values ⊆ args)
    (left onlyIfExists : Bool) :
    Fallible.Keeps (embeddedAt times) RedisStore
      (redisPushValues key values left onlyIfExists) := by
  refine (keeps_of_puts (uses_redisType key)).bind fun typ => .ite (.throw _) (.ite (.pure _) ?_)
  refine keeps_redisListValues_bind fun items hitems => .ite (.pure _) ?_
  rw [redisEncodeItems_eq]
  have hvalues : PlainItems (itemRecords values) :=
    plainItems_itemRecords fun value hmem => hargs.size value (hvalues hmem)
  have hpushed : PlainItems
      (if left then (itemRecords values).reverse ++ items else items ++ itemRecords values) := by
    split
    · exact (hvalues.of_subset fun _ => List.mem_reverse.mp).append hitems
    · exact hitems.append hvalues
  refine .bind_of_ensures (K := (· = itemRecords values)) (fun s hs => ⟨hs, rfl⟩) ?_
  rintro _ rfl
  refine (keeps_redisWriteList hargs hkey hpushed).bind fun _ => keeps_of_puts ?_
  exact .ite ((Transport.uses_delete _).ignoringError.bind fun _ => trivial) trivial

omit hargs hkey in
theorem splitPopped_subset (left : Bool) (count : ℕ) (items : List Bytes) :
    (splitPopped left count items).1 ⊆ items ∧ (splitPopped left count items).2 ⊆ items := by
  unfold splitPopped
  split
  · exact ⟨List.take_subset _ _, List.drop_subset _ _⟩
  · exact ⟨List.drop_subset _ _, List.take_subset _ _⟩

theorem keeps_redisPopOne (left : Bool) :
    Fallible.Keeps (embeddedAt times) RedisStore (redisPopOne left key) := by
  refine keeps_redisListValues_bind fun items hitems => .ite (.pure _) ?_
  refine (keeps_redisWriteList hargs hkey (hitems.of_subset
    (splitPopped_subset _ _ _).2)).bind fun _ => keeps_of_puts ?_
  refine Passive.now.bind fun _ => (Passive.liftExcept _).bind fun payload => ?_
  cases payload <;> trivial

theorem keeps_redisPopCount (left : Bool) (count : Bytes) :
    Fallible.Keeps (embeddedAt times) RedisStore (redisPopCount left key count) := by
  refine keeps_redisListValues_bind fun items hitems => .ite (.pure _) ?_
  split
  · exact .throw _
  · refine .ite (.pure _) ((keeps_redisWriteList hargs hkey (hitems.of_subset
      (splitPopped_subset _ _ _).2)).bind fun _ => keeps_of_puts ?_)
    exact Passive.now.bind fun _ => (Passive.liftExcept _).bind fun _ => trivial

end ListCommands

theorem wp_reply_of_keeps {I : Store → Prop} {x : Action Resp} {s : Store}
    (hx : Fallible.Keeps (embeddedAt times) I x) (hs : I s) :
    (some <$> replying x).wp (embeddedAt times) (fun _ => I) s := by
  rw [map_eq_pure_bind, Program.wp_bind, replying, Program.wp_bind]
  refine Program.wp_mono (fun result s' h => ?_) (hx s hs)
  cases result <;> exact h

theorem wp_listCommand_records (go : GoRuntime) (session : Session) (hargs : Deliverable args)
    {command : Command} (hlist : command.writesList = true) {s : Store} (hs : RedisStore s) :
    (redisCommand go session args command).wp (embeddedAt times) (fun _ => RedisStore) s := by
  cases command with
  | lpush | rpush | lpushx | rpushx =>
    refine wp_reply_of_keeps ?_ hs
    split
    · refine keeps_redisPushValues hargs (by simp) ?_ _ _
      exact fun _ hmem => List.mem_cons_of_mem _ (List.mem_cons_of_mem _ hmem)
    · exact .pure _
  | lrange =>
    refine wp_reply_of_keeps ?_ hs
    split
    · refine (keeps_of_puts (Passive.liftExcept _)).bind fun _ =>
        (keeps_of_puts (Passive.liftExcept _)).bind fun _ =>
          keeps_redisListValues_bind fun items _ => keeps_of_puts ?_
      exact .ite (Passive.now.bind fun _ => (Passive.liftExcept _).bind fun _ => trivial) trivial
    · exact .pure _
  | llen =>
    refine wp_reply_of_keeps ?_ hs
    split
    · exact keeps_redisListValues_bind fun _ _ => .pure _
    · exact .pure _
  | lpop | rpop =>
    refine wp_reply_of_keeps ?_ hs
    split
    · exact keeps_redisPopOne hargs (by simp) _
    · exact keeps_redisPopCount hargs (by simp) _ _
    · exact .pure _
  | ltrim =>
    refine wp_reply_of_keeps ?_ hs
    split
    · refine (keeps_of_puts (Passive.liftExcept _)).bind fun _ =>
        (keeps_of_puts (Passive.liftExcept _)).bind fun _ =>
          keeps_redisListValues_bind fun items hitems => .ite ?_ ?_
      · refine (keeps_redisWriteList hargs (by simp) (hitems.of_subset ?_)).bind fun _ => .pure _
        exact (inclusiveRange_sublist _ _ _).subset
      · exact (keeps_of_puts (uses_redisDeleteRaw _)).bind fun _ => .pure _
    · exact .pure _
  | _ => cases hlist

/-- A request that the reader of a connection delivers writes records of the commands. -/
theorem wp_redisDispatch_records (go : GoRuntime) (password : Bytes) (session : Session)
    (hargs : Deliverable args) {s : Store} (hs : RedisStore s) :
    (redisDispatch go password session args).wp (embeddedAt times) (fun _ => RedisStore) s := by
  refine wp_dispatch_of_commands go password session (fun _ => hs) fun command => ?_
  cases hlist : command.writesList with
  | false => exact HoldsOnly.wp hs (uses_redisCommand go session (covers_redisRecord hargs) hlist)
  | true => exact wp_listCommand_records go session hargs hlist hs

end Redis

section Runs

variable {go : GoRuntime} {password : Bytes} {clock : ℕ → ℤ}

theorem redisStore_receive {received : Received} {st : ℕ × Store}
    (h : RedisStore st.2 ∧ OneKind st.2) (hargs : Deliverable received.args) :
    RedisStore (receive go password clock received st).2.2 ∧
      OneKind (receive go password clock received st).2.2 :=
  ⟨run_ticking_of_wp (fun _ => True) (fun _ _ => trivial)
      (wp_redisDispatch_records go password received.session hargs h.1),
    run_ticking_of_wp (fun _ => True) (fun _ _ => trivial)
      (preservesReply_redisDispatch go password received.session hargs _ h.2)⟩

/-- Every store that requests reach, from a store of such records. -/
theorem redisStore_after {inputs : List Received}
    (hinputs : ∀ received ∈ inputs, Deliverable received.args) {st : ℕ × Store}
    (h : RedisStore st.2 ∧ OneKind st.2) :
    RedisStore (Machine.after (receive go password clock) inputs st).2 ∧
      OneKind (Machine.after (receive go password clock) inputs st).2 := by
  induction inputs generalizing st with
  | nil => exact h
  | cons received inputs ih =>
    rw [List.forall_mem_cons] at hinputs
    exact ih hinputs.2 (redisStore_receive h hinputs.1)

/-- Every store that requests reach from the empty store. -/
theorem redisStore_reached {inputs : List Received}
    (hinputs : ∀ received ∈ inputs, Deliverable received.args) (tick : ℕ) :
    RedisStore (Machine.after (receive go password clock) inputs (tick, ∅)).2 ∧
      OneKind (Machine.after (receive go password clock) inputs (tick, ∅)).2 :=
  redisStore_after hinputs ⟨holdsOnly_empty, oneKind_empty⟩

end Runs

end KVLite
