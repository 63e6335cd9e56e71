import KVLite.Core.Engine

/-!
# The database handle: scalar values

The scalar operations of a handle and the removal of a logical key. A handle knows
the codec it writes with and the codecs it can read with; both are supplied by the
application, so values and decode targets are parameters. What the codecs do is
assumed nowhere here.

The exported and the unexported Go function of one name are told apart by what they
work on: `DB.put` and `DB.get` take a logical key, `DB.putRecord` and `DB.getRecord`
a storage key.
-/

namespace KVLite

open Semantics Fallible BigEndian

/-- A codec for values of type `V`, which decodes into targets described by `T`. -/
structure Codec (V T : Type) where
  name : Bytes
  marshal : V → Except GoError Bytes
  unmarshal : T → Bytes → Except GoError V

/-- A database handle: its identity, which tells its mutexes from those of other
handles, and its configuration. -/
structure DB (V T : Type) where
  handle : ℕ
  codec : Codec V T
  codecs : Bytes → Option (Codec V T)

/-- The name of the codec that stores byte slices as they are. -/
def bytesCodecName : Bytes := text "bytes"

/-- `BytesCodec`; its only target is a byte slice. -/
def bytesCodec : Codec Bytes Unit := ⟨bytesCodecName, .ok, fun _ data => .ok data⟩

/-- A handle that reads and writes byte slices. -/
def bytesHandle (handle : ℕ) : DB Bytes Unit where
  handle := handle
  codec := bytesCodec
  codecs name := if name = bytesCodecName then some bytesCodec else none

/-- `TTL(duration)`, the only option of a write. -/
inductive PutOption
  | ttl (duration : ℤ)
  deriving DecidableEq, Repr

/-- The options of a write in order; a nil option is skipped. -/
abbrev PutOptions := List (Option PutOption)

/-- `cfg.ttl` after all options have been applied to a fresh `putConfig`. -/
def PutOptions.ttl (options : PutOptions) : Except GoError ℤ :=
  options.foldlM (fun ttl option =>
    match option with
    | none => .ok ttl
    | some (.ttl duration) =>
      if duration ≤ 0 then .error (.detail .invalidArgument (text "ttl must be positive"))
      else .ok duration) 0

/-- The deadline of a value written now with the given time to live. -/
def deadlineAfter (ttl : ℤ) : Action ℤ :=
  if ttl > 0 then do
    return wrapInt64 ((← now) + ttl)
  else
    return 0

/-- The deadline of a value written at a clock reading; zero without a time to live. -/
def deadlineAt (time ttl : ℤ) : ℤ := if ttl > 0 then wrapInt64 (time + ttl) else 0

theorem deadlineAt_of_pos {time ttl : ℤ} (httl : 0 < ttl) :
    deadlineAt time ttl = wrapInt64 (time + ttl) :=
  if_pos httl

theorem isInt64_deadlineAt (time ttl : ℤ) : IsInt64 (deadlineAt time ttl) := by
  unfold deadlineAt
  split
  · exact isInt64_wrapInt64 _
  · decide

/-- The exact lookup of `deleteLogicalKey`: the key, if there is a record under it. -/
def foundKey (storageKey : Bytes) : Action (List Bytes) := do
  match ← Engine.get storageKey with
  | none => return []
  | some _ => return [storageKey]

/-- The prefix scan of `deleteLogicalKey`: the keys delivered, also when the scan then
fails because the driver is unavailable. -/
def foundKeys (pre : Bytes) : Action (List Bytes) := do
  let (records, err) ← Engine.scanPrefix pre
  match err with
  | none => return records.map Prod.fst
  | some err =>
    if err.is .driverUnavailable then
      return records.map Prod.fst
    else
      throw err

/-- Remove every record of a logical key; true if there was one. -/
def deleteLogicalKey (key : Bytes) : Action Bool := do
  let value ← foundKey (valueKey key)
  let list ← foundKey (listKey key)
  let ttl ← foundKey (collectionTTLKey key)
  let fields ← foundKeys (namespacePrefix kindHash key)
  let members ← foundKeys (namespacePrefix kindSet key)
  let keys := value ++ list ++ ttl ++ fields ++ members
  deleteEach keys
  return keys.length > 0

def replaceLogicalValue (key encoded : Bytes) : Action Unit := do
  match ← caught (Engine.replaceLogicalValue key encoded) with
  | .ok () => return ()
  | .error err =>
    if err.is .atomicReplaceUnsupported then do
      let _ ← wrapping "kvlite: put" (deleteLogicalKey key)
      wrapping "kvlite: put" (Engine.put (valueKey key) encoded)
    else
      throw err

/-- The serialized form of a value. -/
abbrev StoredValue := Envelope

/-- The error of an operation that was given an empty key. -/
def keyIsRequired : GoError := .detail .invalidArgument (text "key is required")

namespace DB

variable {V T : Type} (db : DB V T)

def protocolMu : Mutex := ⟨db.handle, .protocolMu⟩

def collectionMu : Mutex := ⟨db.handle, .collectionMu⟩

def encodeValue (value : V) (options : PutOptions) : Action Bytes := do
  let ttl ← liftExcept options.ttl
  let payload ← liftExcept (db.codec.marshal value)
  let expiresAt ← deadlineAfter ttl
  liftExcept (marshalEnvelope db.codec.name payload expiresAt)

def encodePayload (codec payload : Bytes) (ttl : ℤ) : Action Bytes := do
  let expiresAt ← deadlineAfter ttl
  liftExcept (marshalEnvelope codec payload expiresAt)

def put (key : Bytes) (value : V) (options : PutOptions) : Action Unit :=
  if key = [] then
    throw keyIsRequired
  else do
    ensureOpen
    withLock db.protocolMu do
      let encoded ← db.encodeValue value options
      replaceLogicalValue key encoded

def putStoredValue (key codec value : Bytes) (options : PutOptions) : Action Unit :=
  if key = [] then
    throw keyIsRequired
  else if codec = [] then
    throw (.detail .invalidArgument (text "codec is required"))
  else do
    ensureOpen
    withLock db.protocolMu do
      let ttl ← liftExcept options.ttl
      let encoded ← encodePayload codec value ttl
      replaceLogicalValue key encoded

def putBytes (key value : Bytes) (options : PutOptions) : Action Unit :=
  db.putStoredValue key bytesCodecName value options

/-- The unexported `put`: one record under a storage key. -/
def putRecord (key : Bytes) (value : V) (options : PutOptions) : Action Unit := do
  ensureOpen
  if key.length = 0 then
    throw keyIsRequired
  else do
    let encoded ← db.encodeValue value options
    wrapping "kvlite: put" (Engine.put key encoded)

def decode (data : Bytes) (target : T) : Action V := do
  let value ← liftExcept (unmarshalEnvelope data)
  if ← expiredNow value.expiresAt then
    throw (.of .notFound)
  else
    match db.codecs value.codec with
    | none => throw (.detail .codecUnavailable value.codec)
    | some codec => liftExcept (codec.unmarshal target value.payload)

/-- The unexported `get`: one record under a storage key, decoded. The record is
removed when decoding reports a missing key, which an expired record does. -/
def getRecord (key : Bytes) (target : T) : Action V := do
  ensureOpen
  withLock db.protocolMu do
    match ← wrapping "kvlite: get" (Engine.get key) with
    | none => throw (.of .notFound)
    | some data =>
      match ← caught (db.decode data target) with
      | .ok value => return value
      | .error err =>
        if err.is .notFound then do
          ignoringError (Engine.delete key)
          throw err
        else
          throw err

def get (key : Bytes) (target : T) : Action V :=
  if key = [] then throw keyIsRequired else db.getRecord (valueKey key) target

def getStoredValue (key : Bytes) : Action StoredValue :=
  if key = [] then
    throw keyIsRequired
  else do
    ensureOpen
    withLock db.protocolMu do
      match ← wrapping "kvlite: get" (Engine.get (valueKey key)) with
      | none => throw (.of .notFound)
      | some data =>
        let value ← liftExcept (unmarshalEnvelope data)
        if ← expiredNow value.expiresAt then do
          ignoringError (Engine.delete (valueKey key))
          throw (.of .notFound)
        else
          return value

def getBytes (key : Bytes) : Action Bytes := do
  return (← db.getStoredValue key).payload

def has (key : Bytes) : Action Bool :=
  if key = [] then
    throw keyIsRequired
  else do
    ensureOpen
    withLock db.protocolMu do
      match ← Engine.get (valueKey key) with
      | none => return false
      | some data =>
        let value ← liftExcept (unmarshalEnvelope data)
        if ← expiredNow value.expiresAt then do
          ignoringError (Engine.delete (valueKey key))
          return false
        else
          return true

def delete (key : Bytes) : Action Unit :=
  if key = [] then
    throw keyIsRequired
  else do
    ensureOpen
    withLock db.protocolMu do
      let _ ← wrapping "kvlite: delete" (deleteLogicalKey key)
      return ()

/-- The value cannot be encoded: an option is invalid, the codec refuses the value or
the codec name is too long. -/
def EncodingFails (value : V) (options : PutOptions) : Prop :=
  (∃ err, options.ttl = .error err) ∨ (∃ err, db.codec.marshal value = .error err) ∨
    db.codec.name.length > 65535

end DB

/-- The result at clock reading `time` of code that only reads the clock. -/
def atTime {α : Type} (time : ℤ) (x : Action α) : Except GoError α :=
  (run (embedded time) x ∅).1

/-- Code that makes no call but to the clock. -/
abbrev OnlyReadsClock {α : Type} (x : Action α) : Prop :=
  Fallible.Uses (fun call : Call => call = .now) x

theorem onlyReadsClock_now : OnlyReadsClock now := ⟨rfl, fun _ => trivial⟩

theorem onlyReadsClock_liftExcept {α : Type} (x : Except GoError α) :
    OnlyReadsClock (liftExcept x) := trivial

theorem onlyReadsClock_deadlineAfter (ttl : ℤ) : OnlyReadsClock (deadlineAfter ttl) := by
  unfold deadlineAfter
  split
  · exact onlyReadsClock_now.bind fun _ => trivial
  · trivial

theorem DB.onlyReadsClock_encodeValue {V T : Type} (db : DB V T) (value : V)
    (options : PutOptions) : OnlyReadsClock (db.encodeValue value options) :=
  (onlyReadsClock_liftExcept _).bind fun _ => (onlyReadsClock_liftExcept _).bind fun _ =>
    (onlyReadsClock_deadlineAfter _).bind fun _ => onlyReadsClock_liftExcept _

theorem DB.onlyReadsClock_encodePayload (codec payload : Bytes) (ttl : ℤ) :
    OnlyReadsClock (DB.encodePayload codec payload ttl) :=
  (onlyReadsClock_deadlineAfter _).bind fun _ => onlyReadsClock_liftExcept _

/-! ### The records of a logical key -/

/-- The storage keys of a logical key: its value, list and expiry metadata, its hash
fields and its set members. -/
def RecordOf (key storageKey : Bytes) : Prop :=
  storageKey = valueKey key ∨ storageKey = listKey key ∨ storageKey = collectionTTLKey key ∨
    namespacePrefix kindHash key <+: storageKey ∨ namespacePrefix kindSet key <+: storageKey

/-- No record of a logical key is left in a store. -/
def NoRecordOf (key : Bytes) (s : Store) : Prop :=
  ∀ storageKey, RecordOf key storageKey → s[storageKey]? = none

/-- The exact keys of a logical key that have a record, in lookup order. -/
def exactKeys (key : Bytes) (s : Store) : List Bytes :=
  [valueKey key, listKey key, collectionTTLKey key].filter fun storageKey =>
    (s[storageKey]?).isSome

theorem mem_exactKeys {key storageKey : Bytes} {s : Store} :
    storageKey ∈ exactKeys key s ↔
      (storageKey = valueKey key ∨ storageKey = listKey key ∨
        storageKey = collectionTTLKey key) ∧ (s[storageKey]?).isSome := by
  simp [exactKeys]

/-- The storage keys under which a logical key has records. -/
def recordKeys (key : Bytes) (s : Store) : List Bytes :=
  exactKeys key s ++ (s.scan (namespacePrefix kindHash key)).map Prod.fst ++
    (s.scan (namespacePrefix kindSet key)).map Prod.fst

theorem mem_recordKeys {key storageKey : Bytes} {s : Store} :
    storageKey ∈ recordKeys key s ↔ RecordOf key storageKey ∧ (s[storageKey]?).isSome := by
  rw [recordKeys, List.mem_append, List.mem_append, mem_exactKeys, Store.mem_map_fst_scan,
    Store.mem_map_fst_scan, RecordOf, ← or_and_right, ← or_and_right]
  simp only [or_assoc]

/-- The store without the records of a logical key. -/
def Store.without (s : Store) (key : Bytes) : Store := s.eraseAll (recordKeys key s)

theorem Store.getElem?_without_of_recordOf {s : Store} {key storageKey : Bytes}
    (h : RecordOf key storageKey) : (s.without key)[storageKey]? = none := by
  rw [Store.without, Store.getElem?_eraseAll]
  split
  · rfl
  · next hmem =>
    by_contra hsome
    exact hmem (mem_recordKeys.mpr ⟨h, Option.isSome_iff_ne_none.mpr hsome⟩)

theorem Store.getElem?_without_of_not_recordOf {s : Store} {key storageKey : Bytes}
    (h : ¬ RecordOf key storageKey) : (s.without key)[storageKey]? = s[storageKey]? := by
  rw [Store.without, Store.getElem?_eraseAll, if_neg]
  exact fun hmem => h (mem_recordKeys.mp hmem).1

theorem Store.noRecordOf_without (s : Store) (key : Bytes) : NoRecordOf key (s.without key) :=
  fun _ => Store.getElem?_without_of_recordOf

section Run

variable {time : ℤ} {s : Store}

theorem run_deadlineAfter (ttl : ℤ) :
    run (embedded time) (deadlineAfter ttl) s = (.ok (deadlineAt time ttl), s) := by
  unfold deadlineAfter deadlineAt
  split <;> rfl

theorem run_foundKey (storageKey : Bytes) :
    run (embedded time) (foundKey storageKey) s =
      (.ok ([storageKey].filter fun key => (s[key]?).isSome), s) := by
  rw [foundKey, run_bind_ok run_get]
  cases hget : s[storageKey]? with
  | none => simp only [List.filter_cons, hget, List.filter_nil]; rfl
  | some data => simp only [List.filter_cons, hget, List.filter_nil]; rfl

theorem run_foundKeys (pre : Bytes) :
    run (embedded time) (foundKeys pre) s = (.ok ((s.scan pre).map Prod.fst), s) := by
  rw [foundKeys, run_bind_ok run_scanPrefix]
  rfl

/-- An engine that never fails loses every record of a removed key. -/
@[simp] theorem run_deleteLogicalKey (key : Bytes) :
    run (embedded time) (deleteLogicalKey key) s =
      (.ok ((recordKeys key s).length > 0), s.without key) := by
  have hexact : ([valueKey key].filter fun key => (s[key]?).isSome) ++
      ([listKey key].filter fun key => (s[key]?).isSome) ++
      ([collectionTTLKey key].filter fun key => (s[key]?).isSome) = exactKeys key s := by
    rw [exactKeys, ← List.filter_append, ← List.filter_append]
    rfl
  unfold deleteLogicalKey
  rw [run_bind_ok (run_foundKey _), run_bind_ok (run_foundKey _),
    run_bind_ok (run_foundKey _), run_bind_ok (run_foundKeys _),
    run_bind_ok (run_foundKeys _)]
  simp only [hexact]
  rw [run_bind_ok (run_deleteEach _)]
  rfl

end Run

end KVLite
