import KVLite.Redis.Reply

/-!
# The Redis view of the records

The type of a key is probed by looking for its records in a fixed order: the expiry
metadata of a collection, the scalar value, the hash fields, the set members and the
list. The probe removes what it finds expired, and every command starts with it.
-/

namespace KVLite.Redis

open Semantics BigEndian

/-- The type of a key. -/
inductive RedisType
  | none
  | string
  | hash
  | set
  | list
  deriving DecidableEq, Repr

def RedisType.name : RedisType → Bytes
  | .none => text "none"
  | .string => text "string"
  | .hash => text "hash"
  | .set => text "set"
  | .list => text "list"

/-- The error of a command on a key of another type. -/
def wrongType (typ : RedisType) : GoError := .detail .redisWrongType typ.name

def redisDeleteRaw (key : Bytes) : Action Bool := Transport.deleteLogicalKey key

def putPayload (key codec payload : Bytes) (ttl : ℤ) : Action Unit := do
  let expiresAt ← deadlineAfter ttl
  let encoded ← liftExcept (marshalEnvelope codec payload expiresAt)
  Transport.put key encoded

/-! ### The type probe -/

def redisMetadataExpiry (key : Bytes) : Action (Option ℤ) := do
  match ← Transport.get (collectionTTLKey key) with
  | none => return none
  | some data =>
    if data.length ≠ 8 then
      throw (.new (text "kvlite: invalid Redis expiry metadata"))
    else
      return some (toInt64 (ofBigEndian data))

def encodeRedisExpiry (expiresAt : ℤ) : Bytes := bigEndian 8 (toUInt64 expiresAt)

def redisKeyExpired (key : Bytes) : Action Bool := do
  match ← redisMetadataExpiry key with
  | none => return false
  | some expiresAt =>
    if (← unixNano) < expiresAt then
      return false
    else do
      let _ ← redisDeleteRaw key
      return true

/-- The probe for a scalar value; an expired one is removed. -/
def probeValue (key : Bytes) : Action Bool := do
  match ← Transport.get (valueKey key) with
  | none => return false
  | some data =>
    let value ← liftExcept (unmarshalEnvelope data)
    if ← expiredNow value.expiresAt then do
      ignoringError (Transport.delete (valueKey key))
      return false
    else
      return true

/-- The callback of the hash probe: is a field live, and which ones have expired. -/
def probeFields : List (Bytes × Bytes) → Action (Bool × List Bytes)
  | [] => return (false, [])
  | (storageKey, data) :: records => do
    let value ← liftExcept (unmarshalEnvelope data)
    if ← expiredNow value.expiresAt then do
      let (found, expired) ← probeFields records
      return (found, storageKey :: expired)
    else do
      let (_, expired) ← probeFields records
      return (true, expired)

/-- The probe for a hash; expired fields are removed, and when no field is left every
record of the key is. -/
def probeHash (key : Bytes) : Action Bool := do
  let (records, err) ← Transport.scanPrefix (namespacePrefix kindHash key)
  let (found, expired) ← probeFields records
  match err with
  | some err => throw err
  | none =>
    Transport.deleteEach expired
    if found then
      return true
    else if expired.length > 0 then do
      let _ ← redisDeleteRaw key
      return false
    else
      return false

/-- The probe for a set. -/
def probeSet (key : Bytes) : Action Bool := do
  let records ← Transport.scanAll (namespacePrefix kindSet key)
  return records.length > 0

/-- The probe for a list; when the list record is empty every record of the key is
removed. -/
def probeList (key : Bytes) : Action Bool := do
  match ← Transport.get (listKey key) with
  | none => return false
  | some data =>
    let items ← liftExcept (decodeList data)
    if items.length > 0 then
      return true
    else do
      ignoringError (redisDeleteRaw key)
      return false

def redisType (key : Bytes) : Action RedisType := do
  if ← redisKeyExpired key then
    return .none
  else if ← probeValue key then
    return .string
  else if ← probeHash key then
    return .hash
  else if ← probeSet key then
    return .set
  else if ← probeList key then
    return .list
  else
    return .none

/-! ### Reading and writing by type -/

def redisString (key : Bytes) : Action (Option Bytes) := do
  match ← redisType key with
  | .none => return none
  | .string =>
    match ← Transport.get (valueKey key) with
    | none => return none
    | some data =>
      let value ← liftExcept (unmarshalEnvelope data)
      if ← expiredNow value.expiresAt then do
        ignoringError (redisDeleteRaw key)
        return none
      else
        return some value.payload
  | typ => throw (wrongType typ)

def redisWriteStringWithCodec (key payload codec : Bytes) (expiresAt : ℤ) : Action Unit :=
  if expiresAt ≤ 0 then do
    putPayload (valueKey key) codec payload 0
    Transport.delete (collectionTTLKey key)
  else do
    let duration := timeSub expiresAt (← now)
    if duration ≤ 0 then do
      let _ ← redisDeleteRaw key
      return ()
    else
      putPayload (valueKey key) codec payload duration

/-- The codec name of every value the Redis commands write. -/
def bytesCodec : Bytes := text "bytes"

/-- The record of a payload that a Redis command writes. -/
def bytesRecord (payload : Bytes) (expiresAt : ℤ) : Bytes :=
  envelopeMagic ++ bigEndian 8 (toUInt64 expiresAt) ++ bigEndian 2 bytesCodec.length ++
    bytesCodec ++ payload

theorem marshalEnvelope_bytesCodec (payload : Bytes) (expiresAt : ℤ) :
    marshalEnvelope bytesCodec payload expiresAt = .ok (bytesRecord payload expiresAt) := rfl

theorem unmarshalEnvelope_bytesRecord {payload : Bytes} {expiresAt : ℤ} (h : IsInt64 expiresAt) :
    unmarshalEnvelope (bytesRecord payload expiresAt) = .ok ⟨expiresAt, bytesCodec, payload⟩ :=
  unmarshalEnvelope_marshalEnvelope h (marshalEnvelope_bytesCodec payload expiresAt)

theorem length_bytesRecord (payload : Bytes) (expiresAt : ℤ) :
    (bytesRecord payload expiresAt).length = payload.length + 19 := by
  have hmagic : envelopeMagic.length = 4 := rfl
  have hcodec : bytesCodec.length = 5 := rfl
  simp only [bytesRecord, List.length_append, length_bigEndian, hmagic, hcodec]
  omega

def redisWriteString (key value : Bytes) (expiresAt : ℤ) : Action Unit :=
  redisWriteStringWithCodec key value bytesCodec expiresAt

def redisExpiry (key : Bytes) : Action (Option ℤ) := do
  match ← redisType key with
  | .none => return none
  | .string =>
    match ← Transport.get (valueKey key) with
    | none => return none
    | some data =>
      let value ← liftExcept (unmarshalEnvelope data)
      if value.expiresAt > 0 then
        return some value.expiresAt
      else
        return none
  | _ => redisMetadataExpiry key

def redisSetExpiry (key : Bytes) (expiresAt : ℤ) : Action Bool := do
  let typ ← redisType key
  if typ = .none then
    return false
  else if expiresAt ≤ (← unixNano) then do
    let _ ← redisDeleteRaw key
    return true
  else if typ = .string then
    match ← Transport.get (valueKey key) with
    | none => return false
    | some data =>
      let value ← liftExcept (unmarshalEnvelope data)
      redisWriteStringWithCodec key value.payload value.codec expiresAt
      ignoringError (Transport.delete (collectionTTLKey key))
      return true
  else do
    Transport.put (collectionTTLKey key) (encodeRedisExpiry expiresAt)
    return true

def redisPersist (key : Bytes) : Action Bool := do
  let typ ← redisType key
  if typ = .none then
    return false
  else
    match ← redisExpiry key with
    | none => return false
    | some _ =>
      if typ = .string then
        match ← Transport.get (valueKey key) with
        | none => return false
        | some data =>
          let value ← liftExcept (unmarshalEnvelope data)
          putPayload (valueKey key) value.codec value.payload 0
          return true
      else do
        Transport.delete (collectionTTLKey key)
        return true

def redisHashField (key field : Bytes) : Action (Option Bytes) := do
  match ← redisType key with
  | .none => return none
  | .hash =>
    match ← Transport.get (hashKey key field) with
    | none => return none
    | some data =>
      let value ← liftExcept (unmarshalEnvelope data)
      if ← expiredNow value.expiresAt then do
        ignoringError (Transport.delete (hashKey key field))
        return none
      else
        return some value.payload
  | typ => throw (wrongType typ)

def redisList (key : Bytes) : Action (Option (List Bytes)) := do
  match ← redisType key with
  | .none => return none
  | .list =>
    match ← Transport.get (listKey key) with
    | none => return none
    | some data => return some (← liftExcept (decodeList data))
  | typ => throw (wrongType typ)

/-- The payload of a list item, absent when the item has expired. -/
def redisItemPayload (data : Bytes) (time : ℤ) : Except GoError (Option Bytes) := do
  let value ← unmarshalEnvelope data
  return if value.expired time then none else some value.payload

def redisWriteList (key : Bytes) (items : List Bytes) : Action Unit :=
  if items.length = 0 then do
    let _ ← redisDeleteRaw key
    return ()
  else
    Transport.put (listKey key) (encodeList items)

end KVLite.Redis
