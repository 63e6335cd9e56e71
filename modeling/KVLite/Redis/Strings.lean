import KVLite.Redis.Storage

/-!
# String and expiry commands

The commands on scalar values and those that look at or change the deadline of a
key. A command is given its whole argument vector, name first.
-/

namespace KVLite.Redis

open Semantics BigEndian

/-- The nanoseconds of a second and of a millisecond. -/
def second : ℤ := 1000000000

@[inherit_doc second]
def millisecond : ℤ := 1000000

def ok : Resp := .simpleString (text "OK")

def syntaxError : GoError := .new (text "syntax error")

/-- The argument pairs of a command that takes them; absent for an odd number. -/
def argPairs : List Bytes → Option (List (Bytes × Bytes))
  | [] => some []
  | [_] => none
  | key :: value :: rest => (argPairs rest).map ((key, value) :: ·)

theorem mem_of_mem_argPairs {args : List Bytes} {pairs : List (Bytes × Bytes)}
    {pair : Bytes × Bytes} (h : argPairs args = some pairs) (hmem : pair ∈ pairs) :
    pair.1 ∈ args := by
  fun_induction argPairs args generalizing pairs with
  | case1 => cases h; cases hmem
  | case2 => cases h
  | case3 key value rest ih =>
    obtain ⟨pairs', hpairs', rfl⟩ := Option.map_eq_some_iff.mp h
    rcases List.mem_cons.mp hmem with rfl | hmem
    · exact List.mem_cons_self
    · exact List.mem_cons_of_mem _ (List.mem_cons_of_mem _ (ih hpairs' hmem))

/-! ### SET and its options -/

structure SetOptions where
  expiresAt : ℤ := 0
  hasExpiry : Bool := false
  nx : Bool := false
  xx : Bool := false
  get : Bool := false
  keepTTL : Bool := false
  deriving DecidableEq, Repr

def invalidExpireInSet : GoError := .new (text "invalid expire time in set")

/-- The deadline of an `EX`, `PX`, `EXAT` or `PXAT` option. -/
def redisSetDeadline (option amount : Bytes) : Action ℤ := do
  let amount ← liftExcept (redisParseInt amount)
  let unit := if option = text "PX" ∨ option = text "PXAT" then millisecond else second
  if amount ≤ 0 ∨ amount > redisMaxInt64 / unit then
    throw invalidExpireInSet
  else if option = text "EXAT" ∨ option = text "PXAT" then
    return amount * unit
  else do
    let current ← unixNano
    if current > redisMaxInt64 - amount * unit then
      throw invalidExpireInSet
    else
      return current + amount * unit

/-- The loop over the option arguments of `SET`. -/
def redisSetOptions (go : GoRuntime) : SetOptions → List Bytes → Action SetOptions
  | options, [] => return options
  | options, arg :: rest =>
    let option := go.toUpper arg
    if option = text "NX" then
      if options.xx then throw syntaxError
      else redisSetOptions go { options with nx := true } rest
    else if option = text "XX" then
      if options.nx then throw syntaxError
      else redisSetOptions go { options with xx := true } rest
    else if option = text "GET" then
      redisSetOptions go { options with get := true } rest
    else if option = text "KEEPTTL" then
      if options.hasExpiry then throw syntaxError
      else redisSetOptions go { options with keepTTL := true } rest
    else if option ∈ [text "EX", text "PX", text "EXAT", text "PXAT"] then
      if options.hasExpiry then
        throw syntaxError
      else
        match rest with
        | [] => throw syntaxError
        | amount :: rest => do
          let expiresAt ← redisSetDeadline option amount
          redisSetOptions go { options with expiresAt := expiresAt, hasExpiry := true } rest
    else
      throw syntaxError

def redisDeleteAndWriteString (key value : Bytes) (expiresAt : ℤ) : Action Unit := do
  let _ ← redisDeleteRaw key
  redisWriteString key value expiresAt

/-- The old value `SET` replies with when it was asked for it. -/
def redisSetOld (key : Bytes) (options : SetOptions) (typ : RedisType) : Action Resp :=
  if options.get ∧ typ ≠ .none then do
    match ← redisString key with
    | none => return .null
    | some oldValue => return .bulk oldValue
  else
    return .null

/-- The deadline `SET` writes: the one of its options, or the old one with `KEEPTTL`. -/
def redisSetExpiresAt (key : Bytes) (options : SetOptions) (typ : RedisType) : Action ℤ :=
  if options.keepTTL ∧ typ ≠ .none ∧ ¬ options.hasExpiry then do
    return (← redisExpiry key).getD 0
  else
    return options.expiresAt

/-- The part of `SET` after its arguments have been parsed. -/
def redisSetWith (key value : Bytes) (options : SetOptions) : Action Resp := do
  let typ ← redisType key
  if options.nx ∧ typ ≠ .none then
    return .null
  else if options.xx ∧ typ = .none then
    return .null
  else do
    let old ← redisSetOld key options typ
    let expiresAt ← redisSetExpiresAt key options typ
    redisDeleteAndWriteString key value expiresAt
    return if options.get then old else ok

def redisSet (go : GoRuntime) (args : List Bytes) : Program Calls Resp := replying do
  match args with
  | _ :: key :: value :: rest =>
    let options ← redisSetOptions go {} rest
    redisSetWith key value options
  | _ => return redisSyntaxError

/-! ### The other string commands -/

/-- The reply that carries a value, or a null reply. -/
def bulkOrNull : Option Bytes → Resp
  | none => .null
  | some value => .bulk value

def redisGet (args : List Bytes) : Program Calls Resp := replying do
  match args with
  | [_, key] => return bulkOrNull (← redisString key)
  | _ => return redisSyntaxError

def redisSetNX (args : List Bytes) : Program Calls Resp := replying do
  match args with
  | [_, key, value] =>
    if (← redisType key) ≠ .none then
      return .integer 0
    else do
      redisWriteString key value 0
      return .integer 1
  | _ => return redisSyntaxError

def redisSetEX (milliseconds : Bool) (args : List Bytes) : Program Calls Resp := replying do
  match args with
  | [_, key, amount, value] =>
    match redisParseInt amount with
    | .error _ => throw invalidExpireInSet
    | .ok amount =>
      let unit := if milliseconds then millisecond else second
      if amount ≤ 0 ∨ amount > redisMaxInt64 / unit then
        throw invalidExpireInSet
      else do
        let current ← unixNano
        if current > redisMaxInt64 - amount * unit then
          throw invalidExpireInSet
        else do
          redisDeleteAndWriteString key value (current + amount * unit)
          return ok
  | _ => return redisSyntaxError

def redisGetSet (args : List Bytes) : Program Calls Resp := replying do
  match args with
  | [_, key, value] =>
    let old ← redisString key
    redisDeleteAndWriteString key value 0
    return bulkOrNull old
  | _ => return redisSyntaxError

def redisGetDel (args : List Bytes) : Program Calls Resp := replying do
  match args with
  | [_, key] =>
    match ← redisString key with
    | none => return .null
    | some value =>
      let _ ← redisDeleteRaw key
      return .bulk value
  | _ => return redisSyntaxError

/-- The loop of `MGET`, which ends at the first error. -/
def redisMGetLoop : List Bytes → Action (List Resp)
  | [] => return []
  | key :: keys => do
    let value ← redisString key
    let items ← redisMGetLoop keys
    return bulkOrNull value :: items

def redisMGet (args : List Bytes) : Program Calls Resp := replying do
  match args with
  | _ :: key :: keys => return .array (← redisMGetLoop (key :: keys))
  | _ => return redisSyntaxError

/-- The loop of `MSET`. -/
def redisMSetLoop : List (Bytes × Bytes) → Action Unit
  | [] => return ()
  | (key, value) :: pairs => do
    redisDeleteAndWriteString key value 0
    redisMSetLoop pairs

def redisMSet (args : List Bytes) : Program Calls Resp := replying do
  match argPairs args.tail with
  | some (pair :: pairs) =>
    redisMSetLoop (pair :: pairs)
    return ok
  | _ => return redisSyntaxError

/-- The first loop of `MSETNX`: is every key absent? -/
def redisAllAbsent : List (Bytes × Bytes) → Action Bool
  | [] => return true
  | (key, _) :: pairs => do
    if (← redisType key) ≠ .none then
      return false
    else
      redisAllAbsent pairs

/-- The second loop of `MSETNX`. -/
def redisWriteStrings : List (Bytes × Bytes) → Action Unit
  | [] => return ()
  | (key, value) :: pairs => do
    redisWriteString key value 0
    redisWriteStrings pairs

def redisMSetNX (args : List Bytes) : Program Calls Resp := replying do
  match argPairs args.tail with
  | some (pair :: pairs) =>
    if ← redisAllAbsent (pair :: pairs) then do
      redisWriteStrings (pair :: pairs)
      return .integer 1
    else
      return .integer 0
  | _ => return redisSyntaxError

def redisStrLen (args : List Bytes) : Program Calls Resp := replying do
  match args with
  | [_, key] =>
    match ← redisString key with
    | none => return .integer 0
    | some value => return .integer value.length
  | _ => return redisSyntaxError

def redisAppend (args : List Bytes) : Program Calls Resp := replying do
  match args with
  | [_, key, suffix] =>
    let old ← redisString key
    let expiresAt := (← redisExpiry key).getD 0
    let value := old.getD [] ++ suffix
    redisWriteString key value expiresAt
    match old with
    | none => return .integer suffix.length
    | some _ => return .integer value.length
  | _ => return redisSyntaxError

def redisIncrementBig (key : Bytes) (delta : ℤ) : Action Resp := do
  let current := match ← redisString key with
    | none => some 0
    | some value => parseDecimal value
  match current with
  | none => return .errorString (text "ERR value is not an integer or out of range")
  | some current =>
    if ¬ IsInt64 (current + delta) then
      return .errorString (text "ERR increment or decrement would overflow")
    else do
      let expiresAt := (← redisExpiry key).getD 0
      redisWriteString key (formatInt (current + delta)) expiresAt
      return .integer (current + delta)

def redisIncrementCommand (delta : ℤ) (args : List Bytes) : Program Calls Resp := replying do
  match args with
  | [_, key] => redisIncrementBig key delta
  | _ => return redisSyntaxError

def redisIncrementByCommand (decrement : Bool) (args : List Bytes) : Program Calls Resp :=
  replying do
    match args with
    | [_, key, amount] =>
      let delta ← liftExcept (redisParseInt amount)
      redisIncrementBig key (if decrement then -delta else delta)
    | _ => return redisSyntaxError

/-! ### Keys and deadlines -/

/-- The loop of `DEL`: how many keys had a record. -/
def redisDeleteLoop (count : ℕ) : List Bytes → Action ℕ
  | [] => return count
  | key :: keys => do
    if ← redisDeleteRaw key then
      redisDeleteLoop (count + 1) keys
    else
      redisDeleteLoop count keys

def redisDelete (args : List Bytes) : Program Calls Resp := replying do
  match args with
  | _ :: key :: keys => return .integer (← redisDeleteLoop 0 (key :: keys))
  | _ => return redisSyntaxError

/-- The loop of `EXISTS`. -/
def redisExistsLoop (count : ℕ) : List Bytes → Action ℕ
  | [] => return count
  | key :: keys => do
    if (← redisType key) ≠ .none then
      redisExistsLoop (count + 1) keys
    else
      redisExistsLoop count keys

def redisExists (args : List Bytes) : Program Calls Resp := replying do
  match args with
  | _ :: key :: keys => return .integer (← redisExistsLoop 0 (key :: keys))
  | _ => return redisSyntaxError

def redisTypeCommand (args : List Bytes) : Program Calls Resp := replying do
  match args with
  | [_, key] => return .simpleString (← redisType key).name
  | _ => return redisSyntaxError

def invalidExpireTime : GoError := .new (text "invalid expire time")

/-- The deadline of an expiry command at clock reading `time`. -/
def redisExpiryFromCommand (time : ℤ) (command : Bytes) (amount : ℤ) : Except GoError ℤ :=
  let unit := if (text "P").isPrefixOf command then millisecond else second
  if amount > redisMaxInt64.tdiv unit ∨ amount < redisMinInt64.tdiv unit then
    .error invalidExpireTime
  else if (text "AT").isSuffixOf command then
    .ok (amount * unit)
  else
    let delta := amount * unit
    let current := wrapInt64 time
    if delta > 0 ∧ current > redisMaxInt64 - delta then
      .error invalidExpireTime
    else if delta < 0 ∧ current < redisMinInt64 - delta then
      .error invalidExpireTime
    else
      .ok (current + delta)

def redisExpireCommand (command : Bytes) (args : List Bytes) : Program Calls Resp :=
  replying do
    match args with
    | [_, key, amount] =>
      let amount ← liftExcept (redisParseInt amount)
      let expiresAt ← liftExcept (redisExpiryFromCommand (← now) command amount)
      if ← redisSetExpiry key expiresAt then
        return .integer 1
      else
        return .integer 0
    | _ => return redisSyntaxError

def invalidExpireInGetEx : GoError := .new (text "invalid expire time in getex")

/-- What `GETEX` does to the deadline: nothing, remove it or set it. -/
inductive GetExChange
  | keep
  | persist
  | expireAt (deadline : ℤ)

/-- The arguments of `GETEX` after the key; absent for a syntax error. -/
def redisGetExChange (go : GoRuntime) (rest : List Bytes) : Action (Option GetExChange) :=
  match rest with
  | [] => return some .keep
  | [option] => return if go.equalFold option (text "PERSIST") then some .persist else none
  | [option, amount] =>
    match redisParseInt amount with
    | .error _ => throw invalidExpireInGetEx
    | .ok amount =>
      let option := go.toUpper option
      if (option = text "EX" ∨ option = text "PX") ∧ amount ≤ 0 then
        throw invalidExpireInGetEx
      else if option ∉ [text "EX", text "PX", text "EXAT", text "PXAT"] then
        return none
      else do
        match redisExpiryFromCommand (← now) option amount with
        | .error _ => throw invalidExpireInGetEx
        | .ok expiresAt => return some (.expireAt expiresAt)
  | _ => return none

def redisGetEx (go : GoRuntime) (args : List Bytes) : Program Calls Resp := replying do
  match args with
  | _ :: key :: rest =>
    match ← redisString key with
    | none => return .null
    | some value =>
      match ← redisGetExChange go rest with
      | none => return redisSyntaxError
      | some .keep => return .bulk value
      | some .persist =>
        let _ ← redisPersist key
        return .bulk value
      | some (.expireAt expiresAt) =>
        let _ ← redisSetExpiry key expiresAt
        return .bulk value
  | _ => return redisSyntaxError

def redisTTLCommand (divisor : ℤ) (args : List Bytes) : Program Calls Resp := replying do
  match args with
  | [_, key] =>
    match ← redisExpiry key with
    | none =>
      if (← redisType key) = .none then
        return .integer (-2)
      else
        return .integer (-1)
    | some expiresAt =>
      let remaining := wrapInt64 (expiresAt - (← unixNano))
      if remaining ≤ 0 then
        return .integer (-2)
      else
        return .integer (max 1 (remaining / divisor))
  | _ => return redisSyntaxError

def redisPersistCommand (args : List Bytes) : Program Calls Resp := replying do
  match args with
  | [_, key] =>
    if ← redisPersist key then
      return .integer 1
    else
      return .integer 0
  | _ => return redisSyntaxError

end KVLite.Redis
