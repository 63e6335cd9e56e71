import KVLite.Keyspace.Stored

/-!
# The shape of a record

A storage key tells the kind of its record, and the record has the shape of its kind:
a set member is the byte 1, a list is an encoded list and the expiry metadata of a
collection has eight bytes. Scalars and hash fields are envelopes, of which nothing is
asked here. The core and the Redis commands write only such records, whatever the engine
answers, so the records of every store that a run reaches have the shape of their kind.
-/

namespace KVLite

open Semantics BigEndian

variable {V T : Type}

/-- The record has the shape of the kind that its storage key tells. -/
structure Shaped (storageKey data : Bytes) : Prop where
  member : ∀ name member, storageKey = setKey name member → data = [1]
  list : ∀ name, storageKey = listKey name → ∃ items, data = encodeList items
  ttl : ∀ name, storageKey = collectionTTLKey name → data.length = 8

theorem free_valueKey (key : Bytes) : Free Shaped (valueKey key) := fun _ =>
  ⟨fun _ _ h => absurd h (valueKey_ne_setKey _ _ _), fun _ h => absurd h (valueKey_ne_listKey _ _),
    fun _ h => absurd h (valueKey_ne_collectionTTLKey _ _)⟩

theorem free_hashKey (name field : Bytes) : Free Shaped (hashKey name field) := fun _ =>
  ⟨fun _ _ h => absurd h (hashKey_ne_setKey _ _ _ _), fun _ h => absurd h (hashKey_ne_listKey _ _ _),
    fun _ h => absurd h (hashKey_ne_collectionTTLKey _ _ _)⟩

theorem shaped_setKey (name member : Bytes) : Shaped (setKey name member) [1] :=
  ⟨fun _ _ _ => rfl, fun _ h => absurd h (setKey_ne_listKey _ _ _),
    fun _ h => absurd h (setKey_ne_collectionTTLKey _ _ _)⟩

theorem shaped_listKey (name : Bytes) (items : List Bytes) :
    Shaped (listKey name) (encodeList items) :=
  ⟨fun _ _ h => absurd h (listKey_ne_setKey _ _ _), fun _ _ => ⟨items, rfl⟩,
    fun _ h => absurd h (listKey_ne_collectionTTLKey _ _)⟩

theorem shaped_collectionTTLKey (name : Bytes) (expiresAt : ℤ) :
    Shaped (collectionTTLKey name) (Redis.encodeRedisExpiry expiresAt) :=
  ⟨fun _ _ h => absurd h (collectionTTLKey_ne_setKey _ _ _),
    fun _ h => absurd h (collectionTTLKey_ne_listKey _ _), fun _ _ => length_bigEndian _ _⟩

theorem covers_shaped (args : List Bytes) : Redis.Covers (Writes Shaped) args where
  value key _ := free_valueKey key
  field name _ field _ _ := free_hashKey name field _
  member name _ member _ := shaped_setKey name member
  ttl key _ := shaped_collectionTTLKey key

/-- Every record of the store has the shape of its kind. -/
def Shapes (s : Store) : Prop := HoldsOnly Shaped s

theorem shapes_empty : Shapes ∅ := holdsOnly_empty

/-! ### The operations of a handle -/

/-- `R` allows what the operations of a handle store. -/
structure CoreCovers (R : Bytes → Bytes → Prop) : Prop where
  value : ∀ key, Free R (valueKey key)
  field : ∀ name field codec payload data expiresAt,
    marshalEnvelope codec payload expiresAt = .ok data → R (hashKey name field) data
  member : ∀ name member, R (setKey name member) [1]
  list : ∀ name items, R (listKey name) (encodeList items)

theorem coreCovers_shaped : CoreCovers Shaped where
  value := free_valueKey
  field name field _ _ _ _ _ := free_hashKey name field _
  member := shaped_setKey
  list := shaped_listKey

namespace DB

variable (db : DB V T) {R : Bytes → Bytes → Prop} (hR : CoreCovers R)

include hR

theorem writes_replaceLogicalValue (key encoded : Bytes) :
    Fallible.Uses (Writes R) (replaceLogicalValue key encoded) := by
  refine (Writes.replaceLogicalValue _ _).caught.bind fun result => ?_
  cases result with
  | ok _ => trivial
  | error err =>
    exact .ite ((Passive.deleteLogicalKey key).wrapping.bind fun _ =>
      (Passive.put (hR.value key encoded)).wrapping) trivial

theorem writes_putStoredValue (key codec value : Bytes) (options : PutOptions) :
    Fallible.Uses (Writes R) (db.putStoredValue key codec value options) :=
  .ite trivial <| .ite trivial <| Passive.ensureOpen.bind fun _ => .withLock <|
    (Passive.liftExcept _).bind fun _ => (uses_encodePayload _ _ _).bind fun _ =>
      writes_replaceLogicalValue hR _ _

/-- Every operation stores only what `R` allows. -/
theorem writes_serve (request : Request V T) : (db.serve request).Uses (Writes R) := by
  cases request with
  | put key value options =>
    exact Fallible.Uses.ite trivial <| Passive.ensureOpen.bind fun _ => .withLock <|
      (db.uses_encodeValue value options).bind fun _ => writes_replaceLogicalValue hR _ _
  | putBytes key value options | putStoredValue key codec value options =>
    exact db.writes_putStoredValue hR _ _ _ _
  | get key target => exact Passive.of_onlyReads (db.onlyReads_get key target)
  | getBytes key => exact Passive.of_onlyReads (db.onlyReads_getBytes key)
  | getStoredValue key => exact Passive.of_onlyReads (db.onlyReads_getStoredValue key)
  | has key => exact Passive.of_onlyReads (db.onlyReads_has key)
  | delete key =>
    exact Fallible.Uses.ite trivial <| Passive.ensureOpen.bind fun _ => .withLock <|
      (Passive.deleteLogicalKey key).wrapping.bind fun _ => trivial
  | hSet name field value options =>
    exact db.writes_hSet name field value options (hR.field name field)
  | hGet name field target => exact Passive.of_onlyReads (db.onlyReads_getRecord _ target)
  | hDelete name fields | sRemove name fields =>
    exact uses_ownerSideOr ⟨trivial, fun _ => trivial⟩ (uses_removeEach _ _)
  | hGetAll name target => exact Passive.of_onlyReads (db.onlyReads_hGetAll name target)
  | sAdd name members =>
    refine uses_ownerSideOr ⟨trivial, fun _ => trivial⟩ (uses_addEach _ _ fun key hkey => ?_)
    obtain ⟨member, -, rfl⟩ := List.mem_map.mp hkey
    exact hR.member name member
  | sContains name member => exact Passive.of_onlyReads (DB.onlyReads_sContains name member)
  | sMembers name => exact Passive.of_onlyReads (DB.onlyReads_sMembers name)
  | rPush name values | lPush name values => exact db.writes_push name _ values (hR.list name)
  | lRange name start stop target =>
    exact Passive.of_onlyReads (db.onlyReads_lRange name start stop target)

end DB

section Runs

variable {db : DB V T} {go : Redis.GoRuntime} {clock : ℕ → ℤ} {R : Bytes → Bytes → Prop}

variable (hcore : CoreCovers R) (hredis : ∀ args, Redis.Covers (Writes R) args)

include hcore hredis

theorem Step.holdsOnly_run {step : Step V T} {st : ℕ × Store} (hs : HoldsOnly R st.2) :
    HoldsOnly R (step.run db go clock st).2 := by
  cases step with
  | core request =>
    exact run_ticking_of_wp (fun _ => True) (fun _ _ => trivial)
      (hs.wp (db.writes_serve hcore request))
  | redis password session args =>
    refine run_ticking_of_wp (fun _ => True) (fun _ _ => trivial)
      (Redis.wp_dispatch_of_commands go password session (fun _ => hs) fun command => hs.wp ?_)
    cases hlist : command.writesList with
    | false => exact Redis.uses_redisCommand go session (hredis args) hlist
    | true => exact Redis.uses_listCommand go session (fun key _ => hcore.list key) hlist

/-- Every store that a run reaches has only records that `R` allows. -/
theorem holdsOnly_runSteps {steps : List (Step V T)} {st : ℕ × Store} (hs : HoldsOnly R st.2) :
    HoldsOnly R (runSteps db go clock steps st).2 := by
  induction steps generalizing st with
  | nil => exact hs
  | cons step steps ih => exact ih (Step.holdsOnly_run hcore hredis hs)

end Runs

/-- Every record of every store that a run reaches has the shape of its kind. -/
theorem shapes_runSteps {db : DB V T} {go : Redis.GoRuntime} {clock : ℕ → ℤ}
    {steps : List (Step V T)} {st : ℕ × Store} (hs : Shapes st.2) :
    Shapes (runSteps db go clock steps st).2 :=
  holdsOnly_runSteps coreCovers_shaped covers_shaped hs

/-- A hash field is an envelope. -/
def FieldEnvelope (storageKey data : Bytes) : Prop :=
  ∀ name field, storageKey = hashKey name field → ∃ value, unmarshalEnvelope data = .ok value

theorem coreCovers_fieldEnvelope : CoreCovers FieldEnvelope where
  value _ _ _ _ h := absurd h (valueKey_ne_hashKey _ _ _)
  field _ _ _ _ _ _ hdata _ _ _ := ⟨_, unmarshalEnvelope_of_marshalEnvelope hdata⟩
  member _ _ _ _ h := absurd h (setKey_ne_hashKey _ _ _ _)
  list _ _ _ _ h := absurd h (listKey_ne_hashKey _ _ _)

theorem covers_fieldEnvelope (args : List Bytes) : Redis.Covers (Writes FieldEnvelope) args where
  value _ _ _ _ _ h := absurd h (valueKey_ne_hashKey _ _ _)
  field _ _ _ _ payload _ _ _ := ⟨_, Redis.unmarshalEnvelope_bytesRecord (by decide)⟩
  member _ _ _ _ _ _ h := absurd h (setKey_ne_hashKey _ _ _ _)
  ttl _ _ _ _ _ h := absurd h (collectionTTLKey_ne_hashKey _ _ _)

/-- Every hash field of every store that a run reaches is an envelope. -/
theorem fieldEnvelopes_runSteps {db : DB V T} {go : Redis.GoRuntime} {clock : ℕ → ℤ}
    {steps : List (Step V T)} {st : ℕ × Store} (hs : HoldsOnly FieldEnvelope st.2) :
    HoldsOnly FieldEnvelope (runSteps db go clock steps st).2 :=
  holdsOnly_runSteps coreCovers_fieldEnvelope covers_fieldEnvelope hs

end KVLite
