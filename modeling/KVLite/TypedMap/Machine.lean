import KVLite.Redis.Server
import KVLite.Semantics.Simulation

/-!
# The typed-map machine

What the Redis commands are for: a map from keys to strings, hashes, sets and lists,
each with an optional deadline. A collection in the map is never empty, and a key
whose deadline has passed is absent. A command on a collection takes an absent key for
an empty collection, keeps the deadline of the collection it changes, and removes the
key when it leaves the collection empty.
-/

namespace KVLite.TypedMap

open Redis BigEndian

abbrev Hash := Std.ExtTreeMap Bytes Bytes compare

abbrev Members := Std.ExtTreeSet Bytes compare

inductive Value
  | string (data : Bytes)
  | hash (fields : Hash)
  | set (members : Members)
  | list (items : List Bytes)

def Value.typ : Value → RedisType
  | .string _ => .string
  | .hash _ => .hash
  | .set _ => .set
  | .list _ => .list

theorem Value.typ_ne_none (value : Value) : value.typ ≠ .none := by
  cases value <;> simp [Value.typ]

def Value.isEmpty : Value → Bool
  | .string _ => false
  | .hash fields => fields.isEmpty
  | .set members => members.isEmpty
  | .list items => items.isEmpty

theorem Value.isEmpty_hash {fields : Hash} : (Value.hash fields).isEmpty = true ↔ fields.size = 0 := by
  rw [Value.isEmpty, Std.ExtTreeMap.isEmpty_iff, Std.ExtTreeMap.eq_empty_iff_size_eq_zero]

theorem Value.isEmpty_set {members : Members} :
    (Value.set members).isEmpty = true ↔ members.size = 0 := by
  rw [Value.isEmpty, Std.ExtTreeSet.isEmpty_iff, Std.ExtTreeSet.eq_empty_iff_size_eq_zero]

/-- What a key holds: a value that is not an empty collection, and its deadline. -/
@[ext] structure Entry where
  value : Value
  deadline : Option ℤ
  nonempty : value.isEmpty = false

/-- The entry of a value; an empty collection has none. -/
def Entry.of (value : Value) (deadline : Option ℤ) : Option Entry :=
  if h : value.isEmpty = false then some ⟨value, deadline, h⟩ else none

def Entry.string (data : Bytes) (deadline : Option ℤ) : Entry := ⟨.string data, deadline, rfl⟩

abbrev State := Bytes → Option Entry

/-- What a key holds at clock reading `now`. -/
def live (now : ℤ) (entry : Option Entry) : Option Entry :=
  entry.filter fun entry => entry.deadline.all (now < ·)

def typeOf : Option Entry → RedisType
  | none => .none
  | some entry => entry.value.typ

theorem typeOf_some_ne_none (entry : Entry) : typeOf (some entry) ≠ .none := entry.value.typ_ne_none

/-! ### Operations on one key -/

def wrongTypeReply : Resp := .errorString Sentinel.redisWrongType.message

/-- The entry of a string that may be absent. -/
def Entry.ofString (string : Option (Bytes × Option ℤ)) : Option Entry :=
  string.map fun (data, deadline) => .string data deadline

/-- An operation on a string and its deadline. -/
def onString (entry : Option Entry)
    (f : Option (Bytes × Option ℤ) → Resp × Option (Bytes × Option ℤ)) : Resp × Option Entry :=
  match entry with
  | none => ((f none).1, Entry.ofString (f none).2)
  | some ⟨.string data, deadline, _⟩ =>
    ((f (some (data, deadline))).1, Entry.ofString (f (some (data, deadline))).2)
  | some _ => (wrongTypeReply, entry)

/-- An operation on the fields of a hash. -/
def onHash (entry : Option Entry) (f : Hash → Resp × Hash) : Resp × Option Entry :=
  match entry with
  | none => ((f ∅).1, Entry.of (.hash (f ∅).2) none)
  | some ⟨.hash fields, deadline, _⟩ => ((f fields).1, Entry.of (.hash (f fields).2) deadline)
  | some _ => (wrongTypeReply, entry)

/-- An operation on the members of a set. -/
def onSet (entry : Option Entry) (f : Members → Resp × Members) : Resp × Option Entry :=
  match entry with
  | none => ((f ∅).1, Entry.of (.set (f ∅).2) none)
  | some ⟨.set members, deadline, _⟩ => ((f members).1, Entry.of (.set (f members).2) deadline)
  | some _ => (wrongTypeReply, entry)

/-- An operation on the items of a list. -/
def onList (entry : Option Entry) (f : List Bytes → Resp × List Bytes) : Resp × Option Entry :=
  match entry with
  | none => ((f []).1, Entry.of (.list (f []).2) none)
  | some ⟨.list items, deadline, _⟩ => ((f items).1, Entry.of (.list (f items).2) deadline)
  | some _ => (wrongTypeReply, entry)

/-- The items from index `start` to index `stop`, both included; a negative index counts
from the end. -/
def rangeOf (items : List Bytes) (start stop : ℤ) : List Bytes :=
  let index (i : ℤ) : ℤ := if i < 0 then items.length + i else i
  (items.take (index stop + 1).toNat).drop (index start).toNat

/-- The items after the values have been pushed one by one. -/
def pushed (left : Bool) (items values : List Bytes) : List Bytes :=
  if left then values.reverse ++ items else items ++ values

/-- The fields after the pairs have been written. -/
def insertAll (fields : Hash) (pairs : List (Bytes × Bytes)) : Hash :=
  pairs.foldl (fun fields pair => fields.insert pair.1 pair.2) fields

/-- The fields that are left. -/
def eraseFields (fields : Hash) (removed : List Bytes) : Hash :=
  removed.foldl (fun fields field => fields.erase field) fields

/-- The members after the given ones have been added. -/
def addMembers (members : Members) (added : List Bytes) : Members :=
  added.foldl (fun members member => members.insert member) members

/-- The members that are left. -/
def eraseMembers (members : Members) (removed : List Bytes) : Members :=
  removed.foldl (fun members member => members.erase member) members

inductive KeyOperation
  | get
  | set (value : Bytes)
  | setnx (value : Bytes)
  | getset (value : Bytes)
  | getdel
  | strlen
  | append (suffix : Bytes)
  | hset (pairs : List (Bytes × Bytes))
  | hget (field : Bytes)
  | hdel (fields : List Bytes)
  | hexists (field : Bytes)
  | hlen
  | hgetall
  | sadd (members : List Bytes)
  | srem (members : List Bytes)
  | sismember (member : Bytes)
  | scard
  | smembers
  | push (left onlyIfExists : Bool) (values : List Bytes)
  | pop (left : Bool)
  | llen
  | lrange (start stop : ℤ)
  | ltrim (start stop : ℤ)
  | type
  | expireAt (deadline : ℤ)
  | persist

/-- The reply of a command that answers yes or no. -/
def flag (yes : Bool) : Resp := .integer (if yes then 1 else 0)

/-- One operation on what a key holds at clock reading `now`. -/
def KeyOperation.apply (now : ℤ) (operation : KeyOperation) (entry : Option Entry) :
    Resp × Option Entry :=
  match operation with
  | .get => onString entry fun old => (bulkOrNull (old.map Prod.fst), old)
  | .set value => (ok, some (.string value none))
  | .setnx value =>
    if entry.isSome then (flag false, entry) else (flag true, some (.string value none))
  | .getset value => onString entry fun old => (bulkOrNull (old.map Prod.fst), some (value, none))
  | .getdel => onString entry fun old => (bulkOrNull (old.map Prod.fst), none)
  | .strlen => onString entry fun old => (.integer (old.elim [] Prod.fst).length, old)
  | .append suffix => onString entry fun old =>
    (.integer (old.elim [] Prod.fst ++ suffix).length,
      some (old.elim [] Prod.fst ++ suffix, old.bind Prod.snd))
  | .hset pairs => onHash entry fun fields =>
    (.integer ((insertAll fields pairs).size - fields.size), insertAll fields pairs)
  | .hget field => onHash entry fun fields => (bulkOrNull fields[field]?, fields)
  | .hdel removed => onHash entry fun fields =>
    (.integer (fields.size - (eraseFields fields removed).size), eraseFields fields removed)
  | .hexists field => onHash entry fun fields => (flag (fields[field]?).isSome, fields)
  | .hlen => onHash entry fun fields => (.integer fields.size, fields)
  | .hgetall => onHash entry fun fields =>
    (.array (fields.toList.flatMap fun field => [.bulk field.1, .bulk field.2]), fields)
  | .sadd added => onSet entry fun members =>
    (.integer ((addMembers members added).size - members.size), addMembers members added)
  | .srem removed => onSet entry fun members =>
    (.integer (members.size - (eraseMembers members removed).size), eraseMembers members removed)
  | .sismember member => onSet entry fun members => (flag (members.contains member), members)
  | .scard => onSet entry fun members => (.integer members.size, members)
  | .smembers => onSet entry fun members => (.array (members.toList.map .bulk), members)
  | .push left onlyIfExists values => onList entry fun items =>
    if onlyIfExists ∧ items = [] then
      (.integer 0, items)
    else
      (.integer (pushed left items values).length, pushed left items values)
  | .pop left => onList entry fun items =>
    if left then (bulkOrNull items.head?, items.tail) else (bulkOrNull items.getLast?, items.dropLast)
  | .llen => onList entry fun items => (.integer items.length, items)
  | .lrange start stop => onList entry fun items =>
    (.array ((rangeOf items start stop).map .bulk), items)
  | .ltrim start stop => onList entry fun items => (ok, rangeOf items start stop)
  | .type => (.simpleString (typeOf entry).name, entry)
  | .expireAt deadline =>
    match entry with
    | none => (flag false, none)
    | some entry =>
      (flag true, if deadline ≤ now then none else some { entry with deadline := some deadline })
  | .persist =>
    match entry with
    | some ⟨value, some _, nonempty⟩ => (flag true, some ⟨value, none, nonempty⟩)
    | entry => (flag false, entry)

/-! ### Operations on the map -/

inductive Operation
  | onKey (key : Bytes) (operation : KeyOperation)
  | mset (pairs : List (Bytes × Bytes))
  | msetnx (pairs : List (Bytes × Bytes))
  | existsKeys (keys : List Bytes)
  | del (keys : List Bytes)

/-- Every pair is stored as a string without a deadline. -/
def setAll (state : State) (pairs : List (Bytes × Bytes)) : State :=
  pairs.foldl (fun state pair => Function.update state pair.1 (some (.string pair.2 none))) state

/-- The keys are removed, and those that held something are counted. -/
def removeAll (now : ℤ) (count : ℕ) (state : State) : List Bytes → ℕ × State
  | [] => (count, state)
  | key :: keys =>
    removeAll now (if (live now (state key)).isSome then count + 1 else count)
      (Function.update state key none) keys

def Operation.apply (now : ℤ) (operation : Operation) (state : State) : Resp × State :=
  match operation with
  | .onKey key operation =>
    let (reply, entry) := operation.apply now (live now (state key))
    (reply, Function.update state key entry)
  | .mset pairs => (ok, setAll state pairs)
  | .msetnx pairs =>
    if pairs.all fun pair => (live now (state pair.1)).isNone then (flag true, setAll state pairs)
    else (flag false, state)
  | .existsKeys keys => (.integer (keys.countP fun key => (live now (state key)).isSome), state)
  | .del keys => (.integer (removeAll now 0 state keys).1, (removeAll now 0 state keys).2)

/-! ### Argument vectors -/

section Parse

variable (args : List Bytes)

/-- The operation of a command that takes a key. -/
def withKey (operation : KeyOperation) : Except Resp Operation :=
  match args with
  | [_, key] => .ok (.onKey key operation)
  | _ => .error redisSyntaxError

/-- The operation of a command that takes a key and one more argument. -/
def withArg (operation : Bytes → KeyOperation) : Except Resp Operation :=
  match args with
  | [_, key, arg] => .ok (.onKey key (operation arg))
  | _ => .error redisSyntaxError

/-- The operation of a command that takes a key and at least one more argument. -/
def withArgs (operation : List Bytes → KeyOperation) : Except Resp Operation :=
  match args with
  | _ :: key :: arg :: rest => .ok (.onKey key (operation (arg :: rest)))
  | _ => .error redisSyntaxError

/-- The operation of a command that takes at least one pair. -/
def withPairs (operation : List (Bytes × Bytes) → Operation) : Except Resp Operation :=
  match argPairs args.tail with
  | some (pair :: pairs) => .ok (operation (pair :: pairs))
  | _ => .error redisSyntaxError

/-- The operation of a command that takes at least one key. -/
def withKeys (operation : List Bytes → Operation) : Except Resp Operation :=
  match args with
  | _ :: key :: keys => .ok (operation (key :: keys))
  | _ => .error redisSyntaxError

def integerArg (arg : Bytes) : Except Resp ℤ := (redisParseInt arg).mapError redisErrorReply

/-- The operation of a command that takes a key and two indexes. -/
def withRange (operation : ℤ → ℤ → KeyOperation) : Except Resp Operation :=
  match args with
  | [_, key, start, stop] => do
    let start ← integerArg start
    let stop ← integerArg stop
    return .onKey key (operation start stop)
  | _ => .error redisSyntaxError

/-- The operation of `PEXPIREAT`, whose argument is in milliseconds. -/
def withDeadline : Except Resp Operation :=
  match args with
  | [_, key, amount] => do
    let amount ← integerArg amount
    if IsInt64 (amount * millisecond) then
      return .onKey key (.expireAt (amount * millisecond))
    else
      throw (redisErrorReply invalidExpireTime)
  | _ => .error redisSyntaxError

/-- The operation an argument vector stands for, or the reply that refuses it. Commands
outside the machine are refused. -/
def parse (command : Command) : Except Resp Operation :=
  match command with
  | .get => withKey args .get
  | .set => withArg args .set
  | .setnx => withArg args .setnx
  | .getset => withArg args .getset
  | .getdel => withKey args .getdel
  | .mset => withPairs args .mset
  | .msetnx => withPairs args .msetnx
  | .strlen => withKey args .strlen
  | .append => withArg args .append
  | .hset =>
    match args with
    | _ :: key :: rest => withPairs (key :: rest) fun pairs => .onKey key (.hset pairs)
    | _ => .error redisSyntaxError
  | .hget => withArg args .hget
  | .hdel => withArgs args .hdel
  | .hexists => withArg args .hexists
  | .hlen => withKey args .hlen
  | .hgetall => withKey args .hgetall
  | .sadd => withArgs args .sadd
  | .srem => withArgs args .srem
  | .sismember => withArg args .sismember
  | .scard => withKey args .scard
  | .smembers => withKey args .smembers
  | .lpush => withArgs args (.push true false)
  | .rpush => withArgs args (.push false false)
  | .lpushx => withArgs args (.push true true)
  | .rpushx => withArgs args (.push false true)
  | .lpop => withKey args (.pop true)
  | .rpop => withKey args (.pop false)
  | .llen => withKey args .llen
  | .lrange => withRange args .lrange
  | .ltrim => withRange args .ltrim
  | .type => withKey args .type
  | .existsKeys => withKeys args .existsKeys
  | .pexpireat => withDeadline args
  | .persist => withKey args .persist
  | .del => withKeys args .del
  | _ => .error redisSyntaxError

end Parse

/-! ### The machine -/

/-- One command: its clock reading, the session it came from and its arguments. -/
structure Input where
  now : ℤ
  session : Session
  args : List Bytes

/-- The command of an argument vector. -/
def commandOf (go : GoRuntime) (args : List Bytes) : Option Command :=
  commandTable.lookup (go.toUpper (args.headD []))

/-- A reply without the count that `DEL` answers. -/
def withoutCount (command : Option Command) (reply : Resp) : Resp :=
  match command, reply with
  | some .del, .integer _ => .integer 0
  | _, reply => reply

/-- One step of the machine, whose state keeps the last clock reading. -/
def step (go : GoRuntime) (input : Input) (state : ℤ × State) : Option Resp × (ℤ × State) :=
  match commandOf go input.args with
  | none => (none, input.now, state.2)
  | some command =>
    match parse input.args command with
    | .error reply => (some reply, input.now, state.2)
    | .ok operation =>
      let (reply, entries) := operation.apply input.now state.2
      (some (withoutCount command reply), input.now, entries)

/-- The machine before the first command. -/
def start : ℤ × State := (0, fun _ => none)

end KVLite.TypedMap
