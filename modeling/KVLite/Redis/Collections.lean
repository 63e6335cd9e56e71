import KVLite.Redis.Strings

/-!
# Hash, set and list commands

The commands on collections. The Go helpers that return a list together with a flag
whether the key was found return the list alone where the flag is set exactly when
the list is not empty.
-/

namespace KVLite.Redis

open Semantics BigEndian

/-! ### Hashes -/

/-- The loop of `redisHashEntries` over the records: the live entries and the keys of
the expired ones. -/
def redisHashEntriesLoop (pre : Bytes) :
    List (Bytes × Bytes) → Action (List (Bytes × Bytes) × List Bytes)
  | [] => return ([], [])
  | (storageKey, data) :: records => do
    let value ← liftExcept (unmarshalEnvelope data)
    if ← expiredNow value.expiresAt then do
      let (entries, expired) ← redisHashEntriesLoop pre records
      return (entries, storageKey :: expired)
    else do
      let (entries, expired) ← redisHashEntriesLoop pre records
      return ((storageKey.drop pre.length, value.payload) :: entries, expired)

/-- The live fields of a hash with their values, ordered by field. -/
def redisHashEntries (key : Bytes) : Action (List (Bytes × Bytes)) := do
  match ← redisType key with
  | .none => return []
  | .hash =>
    let records ← Transport.scanAll (namespacePrefix kindHash key)
    let (entries, expired) ← redisHashEntriesLoop (namespacePrefix kindHash key) records
    Transport.deleteEach expired
    if entries.length = 0 then do
      if expired.length > 0 then
        ignoringError (redisDeleteRaw key)
      return []
    else
      return entries.insertionSort fun left right => (compare left.1 right.1).isLE
  | typ => throw (wrongType typ)

/-- The loop of `HSET`: how many fields are new. -/
def redisHSetLoop (key : Bytes) (added : ℕ) : List (Bytes × Bytes) → Action ℕ
  | [] => return added
  | (field, value) :: pairs => do
    let found ← Transport.get (hashKey key field)
    putPayload (hashKey key field) bytesCodec value 0
    redisHSetLoop key (if found.isNone then added + 1 else added) pairs

def redisHSet (args : List Bytes) : Program Calls Resp := replying do
  match args with
  | _ :: key :: rest =>
    match argPairs rest with
    | some (pair :: pairs) =>
      let typ ← redisType key
      if typ ≠ .none ∧ typ ≠ .hash then
        throw (wrongType typ)
      else do
        if typ = .none then
          ignoringError (Transport.delete (collectionTTLKey key))
        return .integer (← redisHSetLoop key 0 (pair :: pairs))
    | _ => return redisSyntaxError
  | _ => return redisSyntaxError

def redisHGet (args : List Bytes) : Program Calls Resp := replying do
  match args with
  | [_, key, field] => return bulkOrNull (← redisHashField key field)
  | _ => return redisSyntaxError

/-- The loop of `HMGET`. -/
def redisHMGetLoop (key : Bytes) : List Bytes → Action (List Resp)
  | [] => return []
  | field :: fields => do
    let value ← redisHashField key field
    let items ← redisHMGetLoop key fields
    return bulkOrNull value :: items

def redisHMGet (args : List Bytes) : Program Calls Resp := replying do
  match args with
  | _ :: key :: field :: fields => return .array (← redisHMGetLoop key (field :: fields))
  | _ => return redisSyntaxError

def redisHGetAll (args : List Bytes) : Program Calls Resp := replying do
  match args with
  | [_, key] =>
    let entries ← redisHashEntries key
    return .array (entries.flatMap fun entry => [.bulk entry.1, .bulk entry.2])
  | _ => return redisSyntaxError

/-- The loop of `HDEL`: how many live fields were removed. -/
def redisHDelLoop (key : Bytes) (removed : ℕ) : List Bytes → Action ℕ
  | [] => return removed
  | field :: fields => do
    match ← Transport.get (hashKey key field) with
    | none => redisHDelLoop key removed fields
    | some data =>
      let value ← liftExcept (unmarshalEnvelope data)
      if ← expiredNow value.expiresAt then do
        ignoringError (Transport.delete (hashKey key field))
        redisHDelLoop key removed fields
      else do
        Transport.delete (hashKey key field)
        redisHDelLoop key (removed + 1) fields

def redisHDel (args : List Bytes) : Program Calls Resp := replying do
  match args with
  | _ :: key :: field :: fields =>
    match ← redisType key with
    | .none => return .integer 0
    | .hash =>
      let removed ← redisHDelLoop key 0 (field :: fields)
      let entries ← redisHashEntries key
      if entries.length = 0 then
        ignoringError (redisDeleteRaw key)
      return .integer removed
    | typ => throw (wrongType typ)
  | _ => return redisSyntaxError

def redisHExists (args : List Bytes) : Program Calls Resp := replying do
  match args with
  | [_, key, field] =>
    if (← redisHashField key field).isSome then
      return .integer 1
    else
      return .integer 0
  | _ => return redisSyntaxError

def redisHLen (args : List Bytes) : Program Calls Resp := replying do
  match args with
  | [_, key] => return .integer (← redisHashEntries key).length
  | _ => return redisSyntaxError

def redisHKeys (args : List Bytes) : Program Calls Resp := replying do
  match args with
  | [_, key] => return .array ((← redisHashEntries key).map fun entry => .bulk entry.1)
  | _ => return redisSyntaxError

def redisHVals (args : List Bytes) : Program Calls Resp := replying do
  match args with
  | [_, key] => return .array ((← redisHashEntries key).map fun entry => .bulk entry.2)
  | _ => return redisSyntaxError

def redisHIncrBy (args : List Bytes) : Program Calls Resp := replying do
  match args with
  | [_, key, field, amount] =>
    let delta ← liftExcept (redisParseInt amount)
    let typ ← redisType key
    if typ ≠ .none ∧ typ ≠ .hash then
      throw (wrongType typ)
    else do
      let current := match ← redisHashField key field with
        | none => some 0
        | some value => parseDecimal value
      match current with
      | none => return .errorString (text "ERR hash value is not an integer")
      | some current =>
        if ¬ IsInt64 (current + delta) then
          return .errorString (text "ERR increment or decrement would overflow")
        else do
          putPayload (hashKey key field) bytesCodec (formatInt (current + delta)) 0
          return .integer (current + delta)
  | _ => return redisSyntaxError

/-! ### Sets -/

/-- The members of a set in byte order. -/
def redisSetMembers (key : Bytes) : Action (List Bytes) := do
  match ← redisType key with
  | .none => return []
  | .set =>
    let records ← Transport.scanAll (namespacePrefix kindSet key)
    let members := records.map fun record => record.1.drop (namespacePrefix kindSet key).length
    if members.length = 0 then do
      ignoringError (redisDeleteRaw key)
      return []
    else
      return sortStrings members
  | typ => throw (wrongType typ)

/-- The loop of `SADD`: how many members are new. -/
def redisSAddLoop (key : Bytes) (added : ℕ) : List Bytes → Action ℕ
  | [] => return added
  | member :: members => do
    match ← Transport.get (setKey key member) with
    | some _ => redisSAddLoop key added members
    | none =>
      Transport.put (setKey key member) [1]
      redisSAddLoop key (added + 1) members

def redisSAdd (args : List Bytes) : Program Calls Resp := replying do
  match args with
  | _ :: key :: member :: members =>
    let typ ← redisType key
    if typ ≠ .none ∧ typ ≠ .set then
      throw (wrongType typ)
    else do
      if typ = .none then
        ignoringError (Transport.delete (collectionTTLKey key))
      return .integer (← redisSAddLoop key 0 (member :: members))
  | _ => return redisSyntaxError

/-- The loop of `SREM`: how many members were removed. -/
def redisSRemLoop (key : Bytes) (removed : ℕ) : List Bytes → Action ℕ
  | [] => return removed
  | member :: members => do
    match ← Transport.get (setKey key member) with
    | none => redisSRemLoop key removed members
    | some _ =>
      Transport.delete (setKey key member)
      redisSRemLoop key (removed + 1) members

def redisSRem (args : List Bytes) : Program Calls Resp := replying do
  match args with
  | _ :: key :: member :: members =>
    match ← redisType key with
    | .none => return .integer 0
    | .set =>
      let removed ← redisSRemLoop key 0 (member :: members)
      let left ← redisSetMembers key
      if left.length = 0 then
        ignoringError (redisDeleteRaw key)
      return .integer removed
    | typ => throw (wrongType typ)
  | _ => return redisSyntaxError

def redisSIsMember (args : List Bytes) : Program Calls Resp := replying do
  match args with
  | [_, key, member] =>
    match ← redisType key with
    | .none => return .integer 0
    | .set =>
      if (← Transport.get (setKey key member)).isSome then
        return .integer 1
      else
        return .integer 0
    | typ => throw (wrongType typ)
  | _ => return redisSyntaxError

/-- The loop of `SMISMEMBER`, which ends at the first error reply. -/
def redisSMIsMemberLoop (key : Bytes) (items : List Resp) : List Bytes → Program Calls Resp
  | [] => return .array items
  | member :: members => do
    match ← redisSIsMember [text "SISMEMBER", key, member] with
    | .errorString data => return .errorString data
    | reply => redisSMIsMemberLoop key (items ++ [reply]) members

def redisSMIsMember (args : List Bytes) : Program Calls Resp :=
  match args with
  | _ :: key :: member :: members => redisSMIsMemberLoop key [] (member :: members)
  | _ => return redisSyntaxError

def redisSMembers (args : List Bytes) : Program Calls Resp := replying do
  match args with
  | [_, key] => return .array ((← redisSetMembers key).map .bulk)
  | _ => return redisSyntaxError

def redisSCard (args : List Bytes) : Program Calls Resp := replying do
  match args with
  | [_, key] => return .integer (← redisSetMembers key).length
  | _ => return redisSyntaxError

/-! ### Lists -/

/-- The loop of `redisListValues`: the items that have not expired. -/
def redisLiveItems : List Bytes → Action (List Bytes)
  | [] => return []
  | item :: items => do
    match ← liftExcept (redisItemPayload item (← now)) with
    | none => redisLiveItems items
    | some _ =>
      let live ← redisLiveItems items
      return item :: live

/-- The items of a list; expired ones are dropped from the record first. -/
def redisListValues (key : Bytes) : Action (List Bytes) := do
  match ← redisList key with
  | none => return []
  | some items =>
    let live ← redisLiveItems items
    if live.length ≠ items.length then
      redisWriteList key live
    return live

/-- The payloads of the items that have not expired at clock reading `time`. -/
def redisListReply (time : ℤ) : List Bytes → Except GoError (List Resp)
  | [] => .ok []
  | item :: items => do
    let payload ← redisItemPayload item time
    let replies ← redisListReply time items
    match payload with
    | none => return replies
    | some payload => return .bulk payload :: replies

/-- The items of a push: each value in an envelope without a deadline. -/
def redisEncodeItems : List Bytes → Except GoError (List Bytes)
  | [] => .ok []
  | value :: values => do
    let item ← marshalEnvelope bytesCodec value 0
    let items ← redisEncodeItems values
    return item :: items

def redisPushValues (key : Bytes) (values : List Bytes) (left onlyIfExists : Bool) :
    Action Resp := do
  let typ ← redisType key
  if typ ≠ .none ∧ typ ≠ .list then
    throw (wrongType typ)
  else if onlyIfExists ∧ typ = .none then
    return .integer 0
  else do
    let items ← redisListValues key
    if onlyIfExists ∧ items.length = 0 then
      return .integer 0
    else do
      let encoded ← liftExcept (redisEncodeItems values)
      let pushed := if left then encoded.reverse ++ items else items ++ encoded
      redisWriteList key pushed
      if items.length = 0 then
        ignoringError (Transport.delete (collectionTTLKey key))
      return .integer pushed.length

def redisPush (left : Bool) (args : List Bytes) : Program Calls Resp := replying do
  match args with
  | _ :: key :: value :: values => redisPushValues key (value :: values) left false
  | _ => return redisSyntaxError

def redisPushX (left : Bool) (args : List Bytes) : Program Calls Resp := replying do
  match args with
  | _ :: key :: value :: values => redisPushValues key (value :: values) left true
  | _ => return redisSyntaxError

def redisLRange (args : List Bytes) : Program Calls Resp := replying do
  match args with
  | [_, key, start, stop] =>
    let start ← liftExcept (redisParseInt start)
    let stop ← liftExcept (redisParseInt stop)
    let items ← redisListValues key
    let (first, last, ok) := normalizeRange items.length start stop
    if ok then
      return .array (← liftExcept (redisListReply (← now) (inclusiveRange items first last)))
    else
      return .array []
  | _ => return redisSyntaxError

def redisLLen (args : List Bytes) : Program Calls Resp := replying do
  match args with
  | [_, key] => return .integer (← redisListValues key).length
  | _ => return redisSyntaxError

/-- The items a pop of `count` takes, and those it leaves. -/
def splitPopped (left : Bool) (count : ℕ) (items : List Bytes) : List Bytes × List Bytes :=
  if left then (items.take count, items.drop count)
  else (items.drop (items.length - count), items.take (items.length - count))

/-- `LPOP key` and `RPOP key`. -/
def redisPopOne (left : Bool) (key : Bytes) : Action Resp := do
  let items ← redisListValues key
  if items.length = 0 then
    return .null
  else do
    let (removed, rest) := splitPopped left 1 items
    redisWriteList key rest
    match ← liftExcept (redisItemPayload (removed.headD []) (← now)) with
    | none => return .null
    | some payload => return .bulk payload

/-- `LPOP key count` and `RPOP key count`. -/
def redisPopCount (left : Bool) (key count : Bytes) : Action Resp := do
  let items ← redisListValues key
  if items.length = 0 then
    return .array []
  else
    match redisParseNonNegative count with
    | .error _ => throw notAnInteger
    | .ok count =>
      if count = 0 then
        return .array []
      else do
        let (removed, rest) := splitPopped left (min count.toNat items.length) items
        redisWriteList key rest
        return .array (← liftExcept (redisListReply (← now) removed))

def redisPop (left : Bool) (args : List Bytes) : Program Calls Resp := replying do
  match args with
  | [_, key] => redisPopOne left key
  | [_, key, count] => redisPopCount left key count
  | _ => return redisSyntaxError

def redisLTrim (args : List Bytes) : Program Calls Resp := replying do
  match args with
  | [_, key, start, stop] =>
    let start ← liftExcept (redisParseInt start)
    let stop ← liftExcept (redisParseInt stop)
    let items ← redisListValues key
    let (first, last, inRange) := normalizeRange items.length start stop
    if inRange then do
      redisWriteList key (inclusiveRange items first last)
      return ok
    else do
      let _ ← redisDeleteRaw key
      return ok
  | _ => return redisSyntaxError

end KVLite.Redis
