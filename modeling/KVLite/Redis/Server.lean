import KVLite.Redis.Collections

/-!
# The keyspace commands and the command dispatch

`redisDispatch` takes one argument vector of a session. A connection runs it between
`Lock` and `Unlock` of the protocol mutex (`serveCommand`). The page that `SCAN` cuts
out of the key list is taken with Go's slice bounds checks, so a dispatch can end in
a panic; it is then without a reply.
-/

namespace KVLite.Redis

open Semantics BigEndian

/-! ### The keyspace -/

/-- The loop of `redisLogicalKeys`: the candidates that exist. -/
def redisExistingKeys : List Bytes → Action (List Bytes)
  | [] => return []
  | key :: candidates => do
    let typ ← redisType key
    let keys ← redisExistingKeys candidates
    return if typ = .none then keys else key :: keys

def redisLogicalKeys (go : GoRuntime) : Action (List Bytes) := do
  let records ← Transport.scanAll []
  let candidates := (records.filterMap fun record => logicalKeyFromStorage record.1).dedup
  let keys ← redisExistingKeys (go.rangeOrder candidates)
  return sortStrings keys

def redisPatternMatch (go : GoRuntime) (pattern value : Bytes) : Bool :=
  go.pathMatch pattern value = some true

def redisKeysCommand (go : GoRuntime) (args : List Bytes) : Program Calls Resp := replying do
  match args with
  | [_, pattern] =>
    let keys ← redisLogicalKeys go
    return .array ((keys.filter (redisPatternMatch go pattern)).map .bulk)
  | _ => return redisSyntaxError

/-- The options of `SCAN`: its pattern and count; absent for a syntax error. -/
def redisScanOptions (go : GoRuntime) (pattern : Bytes) (count : ℤ) :
    List Bytes → Except GoError (Option (Bytes × ℤ))
  | [] => .ok (some (pattern, count))
  | [_] => .ok none
  | option :: value :: rest =>
    if go.toUpper option = text "MATCH" then
      redisScanOptions go value count rest
    else if go.toUpper option = text "COUNT" then
      match redisParseNonNegative value with
      | .error err => .error err
      | .ok 0 => redisScanOptions go pattern 10 rest
      | .ok count => redisScanOptions go pattern count rest
    else if go.toUpper option = text "TYPE" then
      redisScanOptions go pattern count rest
    else
      .ok none

/-- The page of `SCAN`: the next cursor and the keys; absent when a slice bound is out
of range. -/
def redisScanPage (filtered : List Bytes) (cursor count : ℤ) : Option (ℤ × List Bytes) :=
  if cursor ≥ filtered.length then
    some (0, [])
  else
    let stop := wrapInt64 (cursor + count)
    let stop := if stop > filtered.length then (filtered.length : ℤ) else stop
    let next := if stop < filtered.length then stop else 0
    if cursor ≤ stop then
      some (next, (filtered.drop cursor.toNat).take (stop - cursor).toNat)
    else
      none

/-- `SCAN` up to its reply; the error of a step ends it. -/
def redisScanReply (go : GoRuntime) (args : List Bytes) : Action (Option Resp) :=
  match args with
  | _ :: cursor :: rest => do
    let cursor ← liftExcept (redisParseNonNegative cursor)
    match ← liftExcept (redisScanOptions go (text "*") 10 rest) with
    | none => return some redisSyntaxError
    | some (pattern, count) =>
      let keys ← redisLogicalKeys go
      match redisScanPage (keys.filter (redisPatternMatch go pattern)) cursor count with
      | none => return none
      | some (next, items) =>
        return some (.array [.bulk (formatInt next), .array (items.map .bulk)])
  | _ => return some redisSyntaxError

def redisScan (go : GoRuntime) (args : List Bytes) : Program Calls (Option Resp) := do
  match ← ExceptT.run (redisScanReply go args) with
  | .ok reply => return reply
  | .error err => return some (redisErrorReply err)

def redisDBSize (go : GoRuntime) (args : List Bytes) : Program Calls Resp := replying do
  match args with
  | [_] => return .integer (← redisLogicalKeys go).length
  | _ => return redisSyntaxError

def redisFlush (args : List Bytes) : Program Calls Resp := replying do
  if args.length > 2 then
    return redisSyntaxError
  else do
    let records ← Transport.scanAll []
    Transport.deleteEach (records.map Prod.fst)
    return ok

/-! ### Commands that do not look at the store -/

/-- A connection's state. -/
structure Session where
  authed : Bool
  id : ℕ
  proto : ℕ
  deriving DecidableEq, Repr

def wrongPass : Resp :=
  .errorString (text "WRONGPASS invalid username-password pair or user is disabled.")

def redisAuth (args : List Bytes) (password : Bytes) (session : Session) : Resp × Session :=
  if password = [] then
    (.errorString (text "ERR AUTH called without any password configured"), session)
  else
    match args with
    | [_, supplied] | [_, _, supplied] =>
      if supplied = password then (ok, { session with authed := true }) else (wrongPass, session)
    | _ => (redisSyntaxError, session)

/-- The option loop of `HELLO`: the error reply it ends with, if any. -/
def redisHelloOptions (go : GoRuntime) (password : Bytes) (session : Session) :
    List Bytes → Option Resp × Session
  | [] => (none, session)
  | option :: rest =>
    if go.toUpper option = text "AUTH" then
      match rest with
      | _ :: supplied :: rest =>
        if password = [] ∨ supplied ≠ password then (some wrongPass, session)
        else redisHelloOptions go password { session with authed := true } rest
      | _ => (some redisSyntaxError, session)
    else if go.toUpper option = text "SETNAME" then
      match rest with
      | _ :: rest => redisHelloOptions go password session rest
      | [] => (some redisSyntaxError, session)
    else
      (some redisSyntaxError, session)

def noAuth : Resp := .errorString (text "NOAUTH Authentication required.")

/-- The fields of a `HELLO` reply. -/
def helloFields (session : Session) : List Resp :=
  [.bulk (text "server"), .bulk (text "kvlite"), .bulk (text "version"), .bulk (text "0.1.0"),
    .bulk (text "proto"), .integer 2, .bulk (text "id"), .integer session.id,
    .bulk (text "mode"), .bulk (text "standalone"), .bulk (text "role"), .bulk (text "master"),
    .bulk (text "modules"), .array []]

def redisHello (go : GoRuntime) (args : List Bytes) (password : Bytes) (session : Session) :
    Resp × Session :=
  let version := (args.drop 1).headD (text "2")
  if version ≠ text "2" ∧ version ≠ text "3" then
    (.errorString (text "NOPROTO unsupported RESP version"), session)
  else
    match redisHelloOptions go password session (args.drop 2) with
    | (some reply, session) => (reply, session)
    | (none, session) =>
      if password ≠ [] ∧ ¬ session.authed then
        (noAuth, session)
      else if version = text "3" then
        (.map (helloFields session), { session with proto := 3 })
      else
        (.array (helloFields session), { session with proto := 2 })

def redisClient (go : GoRuntime) (args : List Bytes) (session : Session) : Resp :=
  match args with
  | _ :: subcommand :: rest =>
    let name := go.toUpper subcommand
    if name = text "ID" then
      if rest = [] then .integer session.id else redisSyntaxError
    else if name ∈ [text "SETNAME", text "SETINFO", text "NO-EVICT", text "REPLY", text "PAUSE",
        text "UNPAUSE", text "TRACKING", text "CACHING"] then
      ok
    else
      .errorString (text "ERR unknown subcommand '" ++ name ++ text "'")
  | _ => redisSyntaxError

def redisConfigCommand (go : GoRuntime) (args : List Bytes) : Resp :=
  match args with
  | _ :: subcommand :: _ => if go.equalFold subcommand (text "GET") then .array [] else ok
  | _ => redisSyntaxError

def redisInfo (args : List Bytes) : Resp :=
  if args.length > 2 then redisSyntaxError
  else .bulk (text ("# Server\r\nredis_version:7.2.0\r\nredis_mode:standalone\r\n\r\n" ++
    "# KVLite\r\nkvlite_version:0.1.0\r\n"))

/-! ### The dispatch -/

/-- The commands of the dispatch after authentication. -/
inductive Command
  | ping | echo | hello | select | client | commandInfo | role | readonly | readwrite
  | get | set | setnx | setex | psetex | getset | getdel | getex | mget | mset | msetnx
  | strlen | append | incr | incrby | decr | decrby
  | del | unlink | existsKeys | type | expire | pexpire | expireat | pexpireat | ttl | pttl | persist
  | hset | hmset | hget | hmget | hgetall | hdel | hexists | hlen | hkeys | hvals | hincrby
  | sadd | srem | sismember | smismember | smembers | scard
  | lpush | rpush | lpushx | rpushx | lrange | llen | lpop | rpop | ltrim
  | scan | keys | dbsize | flushdb | flushall | config | info | time
  deriving DecidableEq, Repr

/-- The command names, as the dispatch compares them. -/
def commandTable : List (Bytes × Command) :=
  [(text "PING", .ping), (text "ECHO", .echo), (text "HELLO", .hello), (text "SELECT", .select),
    (text "CLIENT", .client), (text "COMMAND", .commandInfo), (text "ROLE", .role),
    (text "READONLY", .readonly), (text "READWRITE", .readwrite),
    (text "GET", .get), (text "SET", .set), (text "SETNX", .setnx), (text "SETEX", .setex),
    (text "PSETEX", .psetex), (text "GETSET", .getset), (text "GETDEL", .getdel),
    (text "GETEX", .getex), (text "MGET", .mget), (text "MSET", .mset), (text "MSETNX", .msetnx),
    (text "STRLEN", .strlen), (text "APPEND", .append), (text "INCR", .incr),
    (text "INCRBY", .incrby), (text "DECR", .decr), (text "DECRBY", .decrby),
    (text "DEL", .del), (text "UNLINK", .unlink), (text "EXISTS", .existsKeys), (text "TYPE", .type),
    (text "EXPIRE", .expire), (text "PEXPIRE", .pexpire), (text "EXPIREAT", .expireat),
    (text "PEXPIREAT", .pexpireat), (text "TTL", .ttl), (text "PTTL", .pttl),
    (text "PERSIST", .persist),
    (text "HSET", .hset), (text "HMSET", .hmset), (text "HGET", .hget), (text "HMGET", .hmget),
    (text "HGETALL", .hgetall), (text "HDEL", .hdel), (text "HEXISTS", .hexists),
    (text "HLEN", .hlen), (text "HKEYS", .hkeys), (text "HVALS", .hvals),
    (text "HINCRBY", .hincrby),
    (text "SADD", .sadd), (text "SREM", .srem), (text "SISMEMBER", .sismember),
    (text "SMISMEMBER", .smismember), (text "SMEMBERS", .smembers), (text "SCARD", .scard),
    (text "LPUSH", .lpush), (text "RPUSH", .rpush), (text "LPUSHX", .lpushx),
    (text "RPUSHX", .rpushx), (text "LRANGE", .lrange), (text "LLEN", .llen),
    (text "LPOP", .lpop), (text "RPOP", .rpop), (text "LTRIM", .ltrim),
    (text "SCAN", .scan), (text "KEYS", .keys), (text "DBSIZE", .dbsize),
    (text "FLUSHDB", .flushdb), (text "FLUSHALL", .flushall), (text "CONFIG", .config),
    (text "INFO", .info), (text "TIME", .time)]

def redisTime : Action Resp := do
  let current ← now
  return .array [.bulk (formatInt (current / second)),
    .bulk (formatInt (current % second / 1000))]

/-- One command of an authenticated session; `none` is a panic. -/
def redisCommand (go : GoRuntime) (session : Session) (args : List Bytes) (command : Command) :
    Program Calls (Option Resp) :=
  match command with
  | .ping => return match args with
    | [_] => some (.simpleString (text "PONG"))
    | [_, message] => some (.bulk message)
    | _ => some redisSyntaxError
  | .echo => return match args with
    | [_, message] => some (.bulk message)
    | _ => some redisSyntaxError
  | .hello => return some redisSyntaxError
  | .select => return if args.tail = [text "0"] then some ok
      else some (.errorString (text "ERR DB index is out of range"))
  | .client => return some (redisClient go args session)
  | .commandInfo => return some (.array [])
  | .role => return some (.array [.bulk (text "master"), .array []])
  | .readonly | .readwrite => return some ok
  | .get => some <$> redisGet args
  | .set => some <$> redisSet go args
  | .setnx => some <$> redisSetNX args
  | .setex => some <$> redisSetEX false args
  | .psetex => some <$> redisSetEX true args
  | .getset => some <$> redisGetSet args
  | .getdel => some <$> redisGetDel args
  | .getex => some <$> redisGetEx go args
  | .mget => some <$> redisMGet args
  | .mset => some <$> redisMSet args
  | .msetnx => some <$> redisMSetNX args
  | .strlen => some <$> redisStrLen args
  | .append => some <$> redisAppend args
  | .incr => some <$> redisIncrementCommand 1 args
  | .incrby => some <$> redisIncrementByCommand false args
  | .decr => some <$> redisIncrementCommand (-1) args
  | .decrby => some <$> redisIncrementByCommand true args
  | .del | .unlink => some <$> redisDelete args
  | .existsKeys => some <$> redisExists args
  | .type => some <$> redisTypeCommand args
  | .expire => some <$> redisExpireCommand (text "EXPIRE") args
  | .pexpire => some <$> redisExpireCommand (text "PEXPIRE") args
  | .expireat => some <$> redisExpireCommand (text "EXPIREAT") args
  | .pexpireat => some <$> redisExpireCommand (text "PEXPIREAT") args
  | .ttl => some <$> redisTTLCommand second args
  | .pttl => some <$> redisTTLCommand millisecond args
  | .persist => some <$> redisPersistCommand args
  | .hset | .hmset => some <$> redisHSet args
  | .hget => some <$> redisHGet args
  | .hmget => some <$> redisHMGet args
  | .hgetall => some <$> redisHGetAll args
  | .hdel => some <$> redisHDel args
  | .hexists => some <$> redisHExists args
  | .hlen => some <$> redisHLen args
  | .hkeys => some <$> redisHKeys args
  | .hvals => some <$> redisHVals args
  | .hincrby => some <$> redisHIncrBy args
  | .sadd => some <$> redisSAdd args
  | .srem => some <$> redisSRem args
  | .sismember => some <$> redisSIsMember args
  | .smismember => some <$> redisSMIsMember args
  | .smembers => some <$> redisSMembers args
  | .scard => some <$> redisSCard args
  | .lpush => some <$> redisPush true args
  | .rpush => some <$> redisPush false args
  | .lpushx => some <$> redisPushX true args
  | .rpushx => some <$> redisPushX false args
  | .lrange => some <$> redisLRange args
  | .llen => some <$> redisLLen args
  | .lpop => some <$> redisPop true args
  | .rpop => some <$> redisPop false args
  | .ltrim => some <$> redisLTrim args
  | .scan => redisScan go args
  | .keys => some <$> redisKeysCommand go args
  | .dbsize => some <$> redisDBSize go args
  | .flushdb | .flushall => some <$> redisFlush args
  | .config => return some (redisConfigCommand go args)
  | .info => return some (redisInfo args)
  | .time => some <$> replying redisTime

def maxRESPBulk : ℕ := 64 * 2 ^ 20

def maxRESPArgs : ℕ := 1024

/-- The reader of a connection can deliver the argument vector: it has at most
`maxRESPArgs` arguments of at most `maxRESPBulk` bytes. -/
structure Deliverable (args : List Bytes) : Prop where
  count : args.length ≤ maxRESPArgs
  size : ∀ arg ∈ args, arg.length ≤ maxRESPBulk

instance (args : List Bytes) : Decidable (Deliverable args) :=
  decidable_of_iff (args.length ≤ maxRESPArgs ∧ ∀ arg ∈ args, arg.length ≤ maxRESPBulk)
    ⟨fun h => ⟨h.1, h.2⟩, fun h => ⟨h.count, h.size⟩⟩

theorem Deliverable.shortName {args : List Bytes} (hargs : Deliverable args) {arg : Bytes}
    (hmem : arg ∈ args) : ShortName arg :=
  lt_of_le_of_lt (hargs.size arg hmem) (by decide)

/-- What a dispatch ends with: the reply, absent after a panic, whether the connection
ends, and the session. -/
structure Dispatched where
  reply : Option Resp
  quit : Bool
  session : Session

def redisDispatch (go : GoRuntime) (password : Bytes) (session : Session) (args : List Bytes) :
    Program Calls Dispatched := do
  let command := go.toUpper (args.headD [])
  if command = text "HELLO" then
    let (reply, session) := redisHello go args password session
    return ⟨some reply, false, session⟩
  else if command = text "AUTH" then
    let (reply, session) := redisAuth args password session
    return ⟨some reply, false, session⟩
  else if command = text "QUIT" then
    return ⟨some ok, true, session⟩
  else if password ≠ [] ∧ ¬ session.authed then
    return ⟨some noAuth, false, session⟩
  else
    match commandTable.lookup command with
    | none =>
      return ⟨some (.errorString (text "ERR unknown command '" ++ command ++ text "'")), false,
        session⟩
    | some command => return ⟨← redisCommand go session args command, false, session⟩

/-- One request of a connection, under the protocol mutex of the owner. -/
def serveCommand (mutex : Mutex) (go : GoRuntime) (password : Bytes) (session : Session)
    (args : List Bytes) : Program Calls Dispatched :=
  locked mutex (redisDispatch go password session args)

end KVLite.Redis
