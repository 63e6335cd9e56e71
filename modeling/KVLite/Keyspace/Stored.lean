import KVLite.Keyspace.Reachable

/-!
# What the Redis commands store

For each command: which records it stores under which keys, whatever the engine
answers. Strings are stored under the value key, with any deadline; fields of a hash
and items of a list never have a deadline; a set member is the byte 1. What a command on
a list stores depends on the list it read, and is left to the results that look at the
store.
-/

namespace KVLite

open Semantics Fallible BigEndian

/-- Any record may be written under the storage key. -/
def Free (R : Bytes → Bytes → Prop) (storageKey : Bytes) : Prop := ∀ data, R storageKey data

section Stores

variable {α : Type} {R : Bytes → Bytes → Prop} {storageKey data : Bytes}

/-- The store has only records that `R` allows under their storage keys. -/
def HoldsOnly (R : Bytes → Bytes → Prop) (s : Store) : Prop :=
  ∀ storageKey data, s[storageKey]? = some data → R storageKey data

theorem holdsOnly_empty : HoldsOnly R ∅ := by
  intro storageKey data hget
  cases hget

theorem HoldsOnly.erase {s : Store} (h : HoldsOnly R s) (key : Bytes) :
    HoldsOnly R (s.erase key) :=
  fun storageKey data hget => h storageKey data (Store.getElem?_of_erase hget)

theorem HoldsOnly.insert {s : Store} (h : HoldsOnly R s) (hallowed : R storageKey data) :
    HoldsOnly R (s.insert storageKey data) := by
  intro storageKey' data' hget
  rw [Store.getElem?_insert] at hget
  split at hget
  · next heq =>
    cases hget
    exact heq ▸ hallowed
  · exact h storageKey' data' hget

theorem HoldsOnly.wp {times : ℤ → Prop} {p : Program Calls α} {s : Store} (hs : HoldsOnly R s)
    (hp : p.Uses (Writes R)) : p.wp (embeddedAt times) (fun _ => HoldsOnly R) s :=
  wp_of_writes (fun _ key hs => hs.erase key) (fun _ _ _ hallowed hs => hs.insert hallowed) hp hs

end Stores

namespace Redis

variable {P : Call → Prop} [Passive P] {key : Bytes}

/-! ### Strings and deadlines -/

section Strings

variable (h : ∀ data, P (.put (valueKey key) data))

include h

theorem uses_redisDeleteAndWriteString {payload : Bytes} {expiresAt : ℤ} :
    Uses P (redisDeleteAndWriteString key payload expiresAt) :=
  (uses_redisDeleteRaw key).bind fun _ => uses_redisWriteString h

theorem uses_redisSetExpiry {expiresAt : ℤ}
    (httl : ∀ expiresAt, P (.put (collectionTTLKey key) (encodeRedisExpiry expiresAt))) :
    Uses P (redisSetExpiry key expiresAt) := by
  refine (uses_redisType key).bind fun typ => .ite trivial ?_
  refine uses_unixNano.bind fun _ => .ite ?_ (.ite ?_ ?_)
  · exact (uses_redisDeleteRaw key).bind fun _ => trivial
  · refine (Transport.uses_get _).bind fun found => ?_
    cases found with
    | none => trivial
    | some data =>
      exact (Passive.liftExcept _).bind fun value =>
        (uses_redisWriteStringWithCodec h).bind fun _ =>
          (Transport.uses_delete _).ignoringError.bind fun _ => trivial
  · exact (Transport.uses_put (httl _)).bind fun _ => trivial

theorem uses_redisPersist : Uses P (redisPersist key) := by
  refine (uses_redisType key).bind fun typ => .ite trivial ?_
  refine (uses_redisExpiry key).bind fun deadline => ?_
  cases deadline with
  | none => trivial
  | some _ =>
    refine .ite ((Transport.uses_get _).bind fun found => ?_)
      ((Transport.uses_delete _).bind fun _ => trivial)
    cases found with
    | none => trivial
    | some data =>
      exact (Passive.liftExcept _).bind fun value => (uses_putPayload h).bind fun _ => trivial

theorem uses_redisSetWith {payload : Bytes} {options : SetOptions} :
    Uses P (redisSetWith key payload options) := by
  refine (uses_redisType key).bind fun typ => .ite trivial (.ite trivial ?_)
  refine Uses.bind (?_ : Uses P (redisSetOld key options typ)) fun old =>
    Uses.bind (?_ : Uses P (redisSetExpiresAt key options typ)) fun expiresAt =>
      (uses_redisDeleteAndWriteString h).bind fun _ => trivial
  · refine .ite ((uses_redisString key).bind fun value => ?_) trivial
    cases value <;> trivial
  · exact .ite ((uses_redisExpiry key).bind fun _ => trivial) trivial

theorem uses_redisIncrementBig (delta : ℤ) : Uses P (redisIncrementBig key delta) := by
  refine (uses_redisString key).bind fun value => ?_
  dsimp only
  split
  · trivial
  · exact .ite trivial <| (uses_redisExpiry key).bind fun _ =>
      (uses_redisWriteString h).bind fun _ => trivial

end Strings

theorem uses_redisMSetLoop {pairs : List (Bytes × Bytes)}
    (h : ∀ pair ∈ pairs, ∀ data, P (.put (valueKey pair.1) data)) :
    Uses P (redisMSetLoop pairs) := by
  induction pairs with
  | nil => trivial
  | cons pair pairs ih =>
    rw [List.forall_mem_cons] at h
    exact (uses_redisDeleteAndWriteString h.1).bind fun _ => ih h.2

theorem uses_redisAllAbsent (pairs : List (Bytes × Bytes)) : Uses P (redisAllAbsent pairs) := by
  induction pairs with
  | nil => trivial
  | cons pair pairs ih => exact (uses_redisType _).bind fun _ => .ite trivial ih

theorem uses_redisWriteStrings {pairs : List (Bytes × Bytes)}
    (h : ∀ pair ∈ pairs, ∀ data, P (.put (valueKey pair.1) data)) :
    Uses P (redisWriteStrings pairs) := by
  induction pairs with
  | nil => trivial
  | cons pair pairs ih =>
    rw [List.forall_mem_cons] at h
    exact (uses_redisWriteString h.1).bind fun _ => ih h.2

section Lists

variable (h : ∀ items, P (.put (listKey key) (encodeList items)))

include h

theorem uses_redisListValues : Uses P (redisListValues key) := by
  refine (uses_redisList key).bind fun found => ?_
  cases found with
  | none => trivial
  | some items =>
    exact (uses_redisLiveItems items).bind fun live =>
      .ite ((uses_redisWriteList (h _)).bind fun _ => trivial) trivial

theorem uses_redisPushValues (values : List Bytes) (left onlyIfExists : Bool) :
    Uses P (redisPushValues key values left onlyIfExists) := by
  refine (uses_redisType key).bind fun typ => .ite trivial (.ite trivial ?_)
  refine (uses_redisListValues h).bind fun items => .ite trivial ?_
  exact (Passive.liftExcept _).bind fun encoded => (uses_redisWriteList (h _)).bind fun _ =>
    .ite ((Transport.uses_delete _).ignoringError.bind fun _ => trivial) trivial

theorem uses_redisPopOne (left : Bool) : Uses P (redisPopOne left key) := by
  refine (uses_redisListValues h).bind fun items => .ite trivial ?_
  refine (uses_redisWriteList (h _)).bind fun _ => Passive.now.bind fun _ =>
    (Passive.liftExcept _).bind fun payload => ?_
  cases payload <;> trivial

theorem uses_redisPopCount (left : Bool) (count : Bytes) :
    Uses P (redisPopCount left key count) := by
  refine (uses_redisListValues h).bind fun items => .ite trivial ?_
  split
  · trivial
  · exact .ite trivial <| (uses_redisWriteList (h _)).bind fun _ => Passive.now.bind fun _ =>
      (Passive.liftExcept _).bind fun _ => trivial

end Lists

/-! ### Commands -/

/-- The commands that can write a list. -/
def Command.writesList : Command → Bool
  | .lpush | .rpush | .lpushx | .rpushx | .lrange | .llen | .lpop | .rpop | .ltrim => true
  | _ => false

/-- `P` allows what commands with these arguments store outside lists. -/
structure Covers (P : Call → Prop) (args : List Bytes) : Prop where
  value : ∀ key ∈ args, ∀ data, P (.put (valueKey key) data)
  field : ∀ name ∈ args, ∀ field ∈ args, ∀ payload,
    P (.put (hashKey name field) (bytesRecord payload 0))
  member : ∀ name ∈ args, ∀ member ∈ args, P (.put (setKey name member) [1])
  ttl : ∀ key ∈ args, ∀ expiresAt,
    P (.put (collectionTTLKey key) (encodeRedisExpiry expiresAt))

variable {args : List Bytes}

theorem Covers.setExpiry (hP : Covers P args) (hkey : key ∈ args) {expiresAt : ℤ} :
    Uses P (redisSetExpiry key expiresAt) :=
  uses_redisSetExpiry (hP.value key hkey) (hP.ttl key hkey)

theorem uses_redisCommand (go : GoRuntime) (session : Session) (hP : Covers P args)
    {command : Command} (hlist : command.writesList = false) :
    (redisCommand go session args command).Uses P := by
  cases command with
  | set =>
    apply uses_reply
    split
    · exact (uses_redisSetOptions go _ _).bind fun _ => uses_redisSetWith (hP.value _ (by simp))
    · trivial
  | setnx =>
    apply uses_reply
    split
    · exact (uses_redisType _).bind fun _ => .ite trivial
        ((uses_redisWriteString (hP.value _ (by simp))).bind fun _ => trivial)
    · trivial
  | setex | psetex =>
    apply uses_reply
    split
    · split
      · trivial
      · exact .ite trivial <| uses_unixNano.bind fun _ => .ite trivial
          ((uses_redisDeleteAndWriteString (hP.value _ (by simp))).bind fun _ => trivial)
    · trivial
  | getset =>
    apply uses_reply
    split
    · exact (uses_redisString _).bind fun _ =>
        (uses_redisDeleteAndWriteString (hP.value _ (by simp))).bind fun _ => trivial
    · trivial
  | getex =>
    apply uses_reply
    split
    · refine (uses_redisString _).bind fun value => ?_
      cases value with
      | none => trivial
      | some value =>
        refine (uses_redisGetExChange go _).bind fun change => ?_
        split
        · trivial
        · trivial
        · exact (uses_redisPersist (hP.value _ (by simp))).bind fun _ => trivial
        · exact (hP.setExpiry (by simp)).bind fun _ => trivial
    · trivial
  | mset =>
    apply uses_reply
    split
    · next hpairs =>
      refine (uses_redisMSetLoop fun pair hmem => ?_).bind fun _ => trivial
      exact hP.value _ (List.mem_of_mem_tail (mem_of_mem_argPairs hpairs hmem))
    · trivial
  | msetnx =>
    apply uses_reply
    split
    · next hpairs =>
      refine (uses_redisAllAbsent _).bind fun _ => .ite
        ((uses_redisWriteStrings fun pair hmem => ?_).bind fun _ => trivial) trivial
      exact hP.value _ (List.mem_of_mem_tail (mem_of_mem_argPairs hpairs hmem))
    · trivial
  | append =>
    apply uses_reply
    split
    · refine (uses_redisString _).bind fun old => (uses_redisExpiry _).bind fun _ =>
        (uses_redisWriteString (hP.value _ (by simp))).bind fun _ => ?_
      cases old <;> trivial
    · trivial
  | incr | decr =>
    apply uses_reply
    split
    · exact uses_redisIncrementBig (hP.value _ (by simp)) _
    · trivial
  | incrby | decrby =>
    apply uses_reply
    split
    · exact (Passive.liftExcept _).bind fun _ => uses_redisIncrementBig (hP.value _ (by simp)) _
    · trivial
  | expire | pexpire | expireat | pexpireat =>
    apply uses_reply
    split
    · exact (Passive.liftExcept _).bind fun _ => Passive.now.bind fun _ =>
        (Passive.liftExcept _).bind fun _ => (hP.setExpiry (by simp)).bind fun _ =>
          .ite trivial trivial
    · trivial
  | persist =>
    apply uses_reply
    split
    · exact (uses_redisPersist (hP.value _ (by simp))).bind fun _ => .ite trivial trivial
    · trivial
  | hset | hmset =>
    apply uses_reply
    split
    · next key rest =>
      split
      · next pair pairs hpairs =>
        have hloop : Uses P (redisHSetLoop key 0 (pair :: pairs)) :=
          uses_redisHSetLoop 0 fun pair hmem => hP.field _ (by simp) _ <| by
            simp [mem_of_mem_argPairs hpairs hmem]
        exact (uses_redisType _).bind fun typ => .ite trivial <|
          .ite ((Transport.uses_delete _).ignoringError.bind fun _ => hloop.bind fun _ => trivial)
            (hloop.bind fun _ => trivial)
      · trivial
    · trivial
  | hincrby =>
    apply uses_reply
    split
    · refine (Passive.liftExcept _).bind fun _ => (uses_redisType _).bind fun typ =>
        .ite trivial ((uses_redisHashField _ _).bind fun found => ?_)
      dsimp only
      split
      · trivial
      · exact .ite trivial ((Transport.uses_put (hP.field _ (by simp) _ (by simp) _)).bind
          fun _ => trivial)
    · trivial
  | sadd =>
    apply uses_reply
    split
    · next key member members =>
      have hloop : Uses P (redisSAddLoop key 0 (member :: members)) :=
        uses_redisSAddLoop 0 fun m hmem => hP.member _ (by simp) _ <|
          List.mem_cons_of_mem _ (List.mem_cons_of_mem _ hmem)
      exact (uses_redisType _).bind fun typ => .ite trivial <|
        .ite ((Transport.uses_delete _).ignoringError.bind fun _ => hloop.bind fun _ => trivial)
          (hloop.bind fun _ => trivial)
    · trivial
  | lpush | rpush | lpushx | rpushx | lrange | llen | lpop | rpop | ltrim => cases hlist
  | _ => exact uses_redisCommand_of_not_writes go session args rfl

theorem uses_listCommand (go : GoRuntime) (session : Session)
    (hP : ∀ key ∈ args, ∀ items, P (.put (listKey key) (encodeList items))) {command : Command}
    (hlist : command.writesList = true) : (redisCommand go session args command).Uses P := by
  cases command with
  | lpush | rpush | lpushx | rpushx =>
    apply uses_reply
    split
    · exact uses_redisPushValues (hP _ (by simp)) _ _ _
    · trivial
  | lrange =>
    apply uses_reply
    split
    · exact (Passive.liftExcept _).bind fun _ => (Passive.liftExcept _).bind fun _ =>
        (uses_redisListValues (hP _ (by simp))).bind fun _ =>
          .ite (Passive.now.bind fun _ => (Passive.liftExcept _).bind fun _ => trivial) trivial
    · trivial
  | llen =>
    apply uses_reply
    split
    · exact (uses_redisListValues (hP _ (by simp))).bind fun _ => trivial
    · trivial
  | lpop | rpop =>
    apply uses_reply
    split
    · exact uses_redisPopOne (hP _ (by simp)) _
    · exact uses_redisPopCount (hP _ (by simp)) _ _
    · trivial
  | ltrim =>
    apply uses_reply
    split
    · exact (Passive.liftExcept _).bind fun _ => (Passive.liftExcept _).bind fun _ =>
        (uses_redisListValues (hP _ (by simp))).bind fun _ =>
          .ite ((uses_redisWriteList (hP _ (by simp) _)).bind fun _ => trivial)
            ((uses_redisDeleteRaw _).bind fun _ => trivial)
    · trivial
  | _ => cases hlist

/-- A dispatch does nothing to the store but what its command does, and its reply is that
of the command. -/
theorem wp_dispatch_of_commands (go : GoRuntime) (password : Bytes) (session : Session)
    {times : ℤ → Prop} {post : Option Resp → Store → Prop} {s : Store}
    (hidle : ∀ reply, post reply s)
    (h : ∀ command, (redisCommand go session args command).wp (embeddedAt times) post s) :
    (redisDispatch go password session args).wp (embeddedAt times)
      (fun dispatched => post dispatched.reply) s := by
  unfold redisDispatch
  dsimp only
  split
  · exact hidle _
  split
  · exact hidle _
  split
  · exact hidle _
  split
  · exact hidle _
  split
  · exact hidle _
  · exact (Program.wp_bind _ _ _ _).mpr (h _)

end Redis

end KVLite
