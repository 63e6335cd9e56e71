import KVLite.Keyspace.OneKind

/-!
# Stores reached by the core and the Redis commands

Runs that mix operations of a handle and Redis commands, one at a time, with any
sequence of clock readings. Every Redis command keeps every key at one kind of
records; of the core's operations `HSet`, `SAdd`, `RPush` and `LPush` do so only for
keys that have no records of another kind.
-/

namespace KVLite

open Semantics

variable {V T : Type} {times : ℤ → Prop}

namespace Redis

theorem PreservesReply.of_writesNothing {α : Type} {p : Program Calls α} (hp : WritesNothing p) :
    PreservesReply times p := fun _ hs => hs.wp_of_writesNothing hp

/-- The commands that can write a record; the others read or remove. -/
def Command.writes : Command → Bool
  | .set | .setnx | .setex | .psetex | .getset | .getex | .mset | .msetnx | .append | .incr
  | .incrby | .decr | .decrby | .expire | .pexpire | .expireat | .pexpireat | .persist | .hset
  | .hmset | .hincrby | .sadd | .lpush | .rpush | .lpushx | .rpushx | .lrange | .llen | .lpop
  | .rpop | .ltrim => true
  | _ => false

section Readers

variable {P : Call → Prop}

theorem uses_map {α β : Type} {f : α → β} {p : Program Calls α} (hp : p.Uses P) :
    (f <$> p).Uses P := by
  rw [map_eq_pure_bind]
  exact hp.bind fun _ => trivial

/-- A command that replies with the result of code. -/
theorem uses_reply {x : Action Resp} (hx : Fallible.Uses P x) : (some <$> replying x).Uses P :=
  uses_map (uses_replying hx)

theorem uses_redisCommand_of_not_writes [Passive P] (go : GoRuntime) (session : Session)
    (args : List Bytes) {command : Command} (h : command.writes = false) :
    (redisCommand go session args command).Uses P := by
  cases command with
  | ping | echo | hello | select | client | commandInfo | role | readonly | readwrite | config
    | info => trivial
  | get =>
    apply uses_reply
    split
    · exact (uses_redisString _).bind fun _ => trivial
    · trivial
  | getdel =>
    apply uses_reply
    split
    · refine (uses_redisString _).bind fun value => ?_
      cases value with
      | none => trivial
      | some value => exact (uses_redisDeleteRaw _).bind fun _ => trivial
    · trivial
  | mget =>
    apply uses_reply
    split
    · exact (uses_redisMGetLoop _).bind fun _ => trivial
    · trivial
  | strlen =>
    apply uses_reply
    split
    · refine (uses_redisString _).bind fun value => ?_
      cases value <;> trivial
    · trivial
  | del | unlink =>
    apply uses_reply
    split
    · exact (uses_redisDeleteLoop _ _).bind fun _ => trivial
    · trivial
  | existsKeys =>
    apply uses_reply
    split
    · exact (uses_redisExistsLoop _ _).bind fun _ => trivial
    · trivial
  | type =>
    apply uses_reply
    split
    · exact (uses_redisType _).bind fun _ => trivial
    · trivial
  | ttl | pttl =>
    apply uses_reply
    split
    · refine (uses_redisExpiry _).bind fun deadline => ?_
      cases deadline with
      | none => exact (uses_redisType _).bind fun _ => .ite trivial trivial
      | some expiresAt => exact uses_unixNano.bind fun _ => .ite trivial trivial
    · trivial
  | hget =>
    apply uses_reply
    split
    · exact (uses_redisHashField _ _).bind fun _ => trivial
    · trivial
  | hmget =>
    apply uses_reply
    split
    · exact (uses_redisHMGetLoop _).bind fun _ => trivial
    · trivial
  | hdel =>
    apply uses_reply
    split
    · refine (uses_redisType _).bind fun typ => ?_
      cases typ with
      | hash =>
        exact (uses_redisHDelLoop _ _).bind fun _ => (uses_redisHashEntries _).bind fun _ =>
          .ite ((uses_redisDeleteRaw _).ignoringError.bind fun _ => trivial) trivial
      | _ => trivial
    · trivial
  | hexists =>
    apply uses_reply
    split
    · exact (uses_redisHashField _ _).bind fun _ => .ite trivial trivial
    · trivial
  | hgetall | hlen | hkeys | hvals =>
    apply uses_reply
    split
    · exact (uses_redisHashEntries _).bind fun _ => trivial
    · trivial
  | srem =>
    apply uses_reply
    split
    · refine (uses_redisType _).bind fun typ => ?_
      cases typ with
      | set =>
        exact (uses_redisSRemLoop _ _).bind fun _ => (uses_redisSetMembers _).bind fun _ =>
          .ite ((uses_redisDeleteRaw _).ignoringError.bind fun _ => trivial) trivial
      | _ => trivial
    · trivial
  | sismember => exact uses_map (uses_redisSIsMember args)
  | smismember =>
    apply uses_map
    unfold redisSMIsMember
    split
    · exact uses_redisSMIsMemberLoop _ _
    · trivial
  | smembers | scard =>
    apply uses_reply
    split
    · exact (uses_redisSetMembers _).bind fun _ => trivial
    · trivial
  | scan => exact uses_redisScan go args
  | keys | dbsize =>
    apply uses_reply
    split
    · exact (uses_redisLogicalKeys go).bind fun _ => trivial
    · trivial
  | flushdb | flushall =>
    apply uses_reply
    exact .ite trivial <| (Transport.uses_scanAll _).bind fun _ =>
      (Transport.uses_deleteEach _).bind fun _ => trivial
  | time => exact uses_reply (Passive.now.bind fun _ => trivial)
  | _ => cases h

end Readers

/-- Every command keeps every key at one kind of records. -/
theorem preservesReply_redisCommand (go : GoRuntime) (session : Session) {args : List Bytes}
    (hargs : Deliverable args) (command : Command) :
    PreservesReply times (redisCommand go session args command) := by
  cases command with
  | set => exact (preservesReply_redisSet go args).map
  | setnx => exact (preservesReply_redisSetNX args).map
  | setex => exact (preservesReply_redisSetEX false args).map
  | psetex => exact (preservesReply_redisSetEX true args).map
  | getset => exact (preservesReply_redisGetSet args).map
  | getex => exact (preservesReply_redisGetEx go args).map
  | mset => exact (preservesReply_redisMSet args).map
  | msetnx => exact (preservesReply_redisMSetNX args).map
  | append => exact (preservesReply_redisAppend args).map
  | incr | decr =>
    refine (preservesReply_replying ?_).map
    split
    · exact preserves_redisIncrementBig _
    · exact .pure _
  | incrby | decrby =>
    refine (preservesReply_replying ?_).map
    split
    · exact (Preserves.of_puts (Passive.liftExcept _)).bind fun _ => preserves_redisIncrementBig _
    · exact .pure _
  | expire | pexpire | expireat | pexpireat => exact (preservesReply_redisExpireCommand _ args).map
  | persist =>
    refine (preservesReply_replying ?_).map
    split
    · exact preserves_redisPersist.bind fun _ => .ite (.pure _) (.pure _)
    · exact .pure _
  | hset | hmset => exact (preservesReply_redisHSet hargs).map
  | hincrby => exact (preservesReply_redisHIncrBy hargs).map
  | sadd => exact (preservesReply_redisSAdd hargs).map
  | lpush | rpush | lpushx | rpushx =>
    refine (preservesReply_replying ?_).map
    split
    · exact preserves_redisPushValues _ _ _
    · exact .pure _
  | lrange => exact (preservesReply_redisLRange args).map
  | llen =>
    refine (preservesReply_replying ?_).map
    split
    · exact preserves_redisListValues.bind fun _ => .pure _
    · exact .pure _
  | lpop => exact (preservesReply_redisPop true args).map
  | rpop => exact (preservesReply_redisPop false args).map
  | ltrim => exact (preservesReply_redisLTrim args).map
  | _ => exact .of_writesNothing (uses_redisCommand_of_not_writes go session args rfl)

theorem preservesReply_redisDispatch (go : GoRuntime) (password : Bytes) (session : Session)
    {args : List Bytes} (hargs : Deliverable args) :
    PreservesReply times (redisDispatch go password session args) := by
  unfold redisDispatch
  dsimp only
  split
  · exact .pure _
  split
  · exact .pure _
  split
  · exact .pure _
  split
  · exact .pure _
  split
  · exact .pure _
  · exact (preservesReply_redisCommand go session hargs _).map

end Redis

/-! ### The core's operations -/

/-- There is room for records of one kind: no key that owns one of the storage keys in
`W` has records of another kind. -/
structure Room (s : Store) (kind : Kind) (W : Bytes → Prop) : Prop where
  oneKind : OneKind s
  only : ∀ key storageKey, W storageKey → Owns key kind storageKey → Only s key kind

section Room

variable {s : Store} {kind : Kind} {W : Bytes → Prop}

theorem Room.erase (h : Room s kind W) (storageKey : Bytes) : Room (s.erase storageKey) kind W :=
  ⟨h.oneKind.erase, fun key r hr howns => (h.only key r hr howns).erase⟩

theorem Room.insert (hW : ∀ r, W r → ∀ key kind', Owns key kind' r → kind' = kind)
    (h : Room s kind W) {storageKey : Bytes} (hkey : W storageKey) (data : Bytes) :
    Room (s.insert storageKey data) kind W := by
  refine ⟨h.oneKind.insert fun key kind' howns => ?_, fun key r hr howns kind' hne hkind => ?_⟩
  · obtain rfl := hW _ hkey _ _ howns
    exact h.only key storageKey hkey howns
  · rcases hkind.of_insert with hold | howns'
    · exact h.only key r hr howns kind' hne hold
    · exact hne (hW _ hkey _ _ howns')

variable (kind W) in
theorem Room.wp {α : Type} {p : Program Calls α}
    (hW : ∀ r, W r → ∀ key kind', Owns key kind' r → kind' = kind) (h : Room s kind W)
    (hp : p.Uses (PutsOnly W)) : p.wp (embeddedAt times) (fun _ => OneKind) s :=
  Program.wp_mono (fun _ _ h => Room.oneKind h)
    (wp_of_writes (I := fun s => Room s kind W) (fun _ r h => h.erase r)
      (fun _ _ data hr h => h.insert hW hr data) hp h)

end Room

theorem owns_hashKey_kind {name field key : Bytes} {kind : Kind}
    (h : Owns key kind (hashKey name field)) : kind = .hash := by
  cases kind with
  | hash => rfl
  | value => exact absurd h (hashKey_ne_valueKey _ _ _)
  | list => exact absurd h (hashKey_ne_listKey _ _ _)
  | set =>
    obtain ⟨member, hmember⟩ := namespacePrefix_isPrefix_iff.mp h
    exact absurd hmember (hashKey_ne_setKey _ _ _ _)

theorem owns_setKey_kind {name member key : Bytes} {kind : Kind}
    (h : Owns key kind (setKey name member)) : kind = .set := by
  cases kind with
  | set => rfl
  | value => exact absurd h (setKey_ne_valueKey _ _ _)
  | list => exact absurd h (setKey_ne_listKey _ _ _)
  | hash =>
    obtain ⟨field, hfield⟩ := namespacePrefix_isPrefix_iff.mp h
    exact absurd hfield (setKey_ne_hashKey _ _ _ _)

namespace DB

variable (db : DB V T) {P : Call → Prop} [Passive P]

theorem uses_encodeValue (value : V) (options : PutOptions) :
    Fallible.Uses P (db.encodeValue value options) :=
  Passive.of_onlyReadsClock (db.onlyReadsClock_encodeValue value options)

theorem uses_encodePayload (codec payload : Bytes) (ttl : ℤ) :
    Fallible.Uses P (DB.encodePayload codec payload ttl) :=
  Passive.of_onlyReadsClock (DB.onlyReadsClock_encodePayload codec payload ttl)

/-- Code that asks the engine for an owner-side operation first. -/
theorem uses_ownerSideOr {p : Program Calls (Except GoError ℕ)} {unsupported : Sentinel}
    {mutex : Mutex} {loop : Program Calls Counted} (hp : p.Uses P)
    (hloop : loop.Uses P) : (ownerSideOr p unsupported mutex loop).Uses P := by
  refine Program.Uses.bind Passive.ensureOpen fun opened => ?_
  cases opened with
  | error err => trivial
  | ok _ =>
    refine hp.bind fun result => ?_
    cases result with
    | ok count => trivial
    | error err =>
      dsimp only
      split
      · exact hloop.locked
      · trivial

theorem uses_addEach (added : ℕ) (keys : List Bytes) (h : ∀ key ∈ keys, P (.put key [1])) :
    (addEach added keys).Uses P := by
  induction keys generalizing added with
  | nil => trivial
  | cons key keys ih =>
    rw [List.forall_mem_cons] at h
    refine Program.Uses.bind (Passive.get key) fun found => ?_
    split
    · trivial
    · exact ih _ h.2
    · refine Program.Uses.bind (Passive.put h.1) fun written => ?_
      cases written with
      | error err => trivial
      | ok _ => exact ih _ h.2

theorem uses_removeEach (removed : ℕ) (keys : List Bytes) :
    (removeEach removed keys).Uses P :=
  (uses_ofReader_removeEach removed keys).mono Passive.of_ofReader

variable {R : Bytes → Bytes → Prop}

/-- A field is stored in an envelope. -/
theorem writes_hSet (name field : Bytes) (value : V) (options : PutOptions)
    (h : ∀ codec payload data expiresAt, marshalEnvelope codec payload expiresAt = .ok data →
      R (hashKey name field) data) :
    Fallible.Uses (Writes R) (db.hSet name field value options) := by
  refine .ite trivial (Passive.ensureOpen.bind fun _ => .ite trivial ?_)
  rw [encodeValue, bind_assoc]
  refine (Passive.liftExcept _).bind fun ttl => ?_
  rw [bind_assoc]
  refine (Passive.liftExcept _).bind fun payload => ?_
  rw [bind_assoc]
  refine (Passive.deadlineAfter ttl).bind fun expiresAt => ?_
  cases hdata : marshalEnvelope db.codec.name payload expiresAt with
  | error err => trivial
  | ok data => exact (Passive.put (h _ _ data _ hdata)).wrapping

theorem writes_push (name : Bytes) (left : Bool) (values : List V)
    (h : ∀ items, R (listKey name) (encodeList items)) :
    Fallible.Uses (Writes R) (db.push name left values) := by
  refine Passive.ensureOpen.bind fun _ => (Passive.liftExcept _).bind fun encoded => ?_
  refine (Writes.pushList _ _ _).caught.bind fun result => ?_
  cases result with
  | ok length => trivial
  | error err =>
    exact .ite (.withLock <| (Passive.of_onlyReads (onlyReads_readList _)).bind fun items =>
      (Passive.put (h _)).bind fun _ => trivial) trivial

end DB

/-! ### Replacement of a scalar -/

section Replacement

variable {α : Type} {key : Bytes}

theorem wp_locked {mutex : Mutex} {p : Program Calls α} {post : α → Store → Prop} {s : Store}
    (h : p.wp (embeddedAt times) post s) : (locked mutex p).wp (embeddedAt times) post s := by
  unfold locked
  rw [Program.perform_bind]
  exact (Program.wp_bind _ _ _ _).mpr (Program.wp_mono (fun _ _ h => h) h)

theorem Preserves.withLock {mutex : Mutex} {x : Action α} (hx : Preserves times x) :
    Preserves times (withLock mutex x) := fun s hs => wp_locked (hx s hs)

theorem preserves_replaceLogicalValue (encoded : Bytes) :
    Preserves times (replaceLogicalValue key encoded) := by
  refine (Preserves.of_puts (Writes.replaceLogicalValue _ _).caught).bind fun result => ?_
  cases result with
  | ok _ => exact .pure _
  | error err =>
    refine .ite (Preserves.of_fits (fun s hs => ensures_wrapping ?_) fun _ =>
      (Passive.put belongs_valueKey).wrapping) (.throw _)
    refine (ensures_deleteLogicalKey key).mono ?_ fun _ _ => False.elim
    rintro found s' rfl
    exact (hs.without key).fits_of_noRecordOf (Store.noRecordOf_without _ _) _

theorem DB.preserves_put (db : DB V T) (value : V) (options : PutOptions) :
    Preserves times (db.put key value options) :=
  .ite (.throw _) <| (Preserves.of_puts Passive.ensureOpen).bind fun _ => Preserves.withLock <|
    (Preserves.of_puts (db.uses_encodeValue value options)).bind fun _ =>
      preserves_replaceLogicalValue _

theorem DB.preserves_putStoredValue (db : DB V T) (codec value : Bytes) (options : PutOptions) :
    Preserves times (db.putStoredValue key codec value options) :=
  .ite (.throw _) <| .ite (.throw _) <| (Preserves.of_puts Passive.ensureOpen).bind fun _ =>
    Preserves.withLock <| (Preserves.of_puts (Passive.liftExcept _)).bind fun _ =>
      (Preserves.of_puts (DB.uses_encodePayload _ _ _)).bind fun _ =>
        preserves_replaceLogicalValue _

end Replacement

/-! ### Runs -/

/-- One step of a run on a database: an operation of the core or a Redis command. -/
inductive Step (V T : Type)
  | core (request : Request V T)
  | redis (password : Bytes) (session : Redis.Session) (args : List Bytes)

/-- The core's collection writes are issued for keys without records of another kind,
and the arguments of a command are such as the reader of a connection delivers. -/
def Step.LooksOut (s : Store) : Step V T → Prop
  | .core (.hSet name field _ _) => name = [] ∨ field = [] ∨
      ∀ key, Owns key .hash (hashKey name field) → Only s key .hash
  | .core (.sAdd name members) => ∀ member ∈ members.items, ∀ key,
      Owns key .set (setKey name member) → Only s key .set
  | .core (.rPush name _) | .core (.lPush name _) => Only s name .list
  | .core _ => True
  | .redis _ _ args => Redis.Deliverable args

variable (db : DB V T) (go : Redis.GoRuntime) (clock : ℕ → ℤ)

/-- The state after a step: the number of the next clock reading and the store. -/
def Step.run : Step V T → ℕ × Store → ℕ × Store
  | .core request, st => ((db.serve request).run (ticking clock) st).2
  | .redis password session args, st =>
    ((Redis.redisDispatch go password session args).run (ticking clock) st).2

def runSteps (steps : List (Step V T)) (st : ℕ × Store) : ℕ × Store :=
  steps.foldl (fun st step => step.run db go clock st) st

/-- Every step of a run from `st` looks out for the other kinds when it is issued. -/
def LookOut : List (Step V T) → ℕ × Store → Prop
  | [], _ => True
  | step :: steps, st => step.LooksOut st.2 ∧ LookOut steps (step.run db go clock st)

variable {db}

theorem DB.wp_serve {request : Request V T} {s : Store} (hs : OneKind s)
    (h : (Step.core request).LooksOut s) :
    (db.serve request).wp (embeddedAt times) (fun _ => OneKind) s := by
  have hread : ∀ {α : Type} {x : Action α}, OnlyReads x →
      Program.wp (embeddedAt times) (ExceptT.run x) (fun _ => OneKind) s :=
    fun hx => hs.wp_of_writesNothing (Passive.of_onlyReads hx)
  have hwrite : ∀ {α : Type} {x : Action α}, Preserves times x →
      Program.wp (embeddedAt times) (ExceptT.run x) (fun _ => OneKind) s := by
    intro α x hx
    refine Program.wp_mono (fun result s' hresult => ?_) (hx s hs)
    cases result <;> exact hresult
  cases request with
  | put key value options => exact hwrite (db.preserves_put value options)
  | putBytes key value options => exact hwrite (db.preserves_putStoredValue _ value options)
  | putStoredValue key codec value options =>
    exact hwrite (db.preserves_putStoredValue codec value options)
  | get key target => exact hread (db.onlyReads_get key target)
  | getBytes key => exact hread (db.onlyReads_getBytes key)
  | getStoredValue key => exact hread (db.onlyReads_getStoredValue key)
  | has key => exact hread (db.onlyReads_has key)
  | delete key =>
    exact hs.wp_of_writesNothing (Fallible.Uses.ite trivial <| Passive.ensureOpen.bind fun _ => .withLock <|
      (Passive.deleteLogicalKey key).wrapping.bind fun _ => trivial)
  | hSet name field value options =>
    rcases h with hname | hfield | honly
    · rw [DB.serve, DB.hSet, if_pos (.inl hname)]
      exact hs
    · rw [DB.serve, DB.hSet, if_pos (.inr hfield)]
      exact hs
    · exact Room.wp .hash (· = hashKey name field)
        (fun r hr _ _ howns => owns_hashKey_kind (hr ▸ howns))
        ⟨hs, fun key r hr howns => honly key (hr ▸ howns)⟩
        (db.writes_hSet name field value options fun _ _ _ _ _ => rfl)
  | hGet name field target => exact hread (db.onlyReads_getRecord _ target)
  | hDelete name fields =>
    exact hs.wp_of_writesNothing (DB.uses_ownerSideOr ⟨trivial, fun _ => trivial⟩
      (DB.uses_removeEach _ _))
  | hGetAll name target => exact hread (db.onlyReads_hGetAll name target)
  | sAdd name members =>
    refine Room.wp .set (fun r => ∃ member ∈ members.items, r = setKey name member) ?_
      ⟨hs, ?_⟩ (DB.uses_ownerSideOr ⟨trivial, fun _ => trivial⟩
        (DB.uses_addEach _ _ ?_))
    · rintro r ⟨member, -, rfl⟩ key kind' howns
      exact owns_setKey_kind howns
    · rintro key r ⟨member, hmember, rfl⟩ howns
      exact h member hmember key howns
    · intro key hkey
      obtain ⟨member, hmember, rfl⟩ := List.mem_map.mp hkey
      exact ⟨member, hmember, rfl⟩
  | sRemove name members =>
    exact hs.wp_of_writesNothing (DB.uses_ownerSideOr ⟨trivial, fun _ => trivial⟩
      (DB.uses_removeEach _ _))
  | sContains name member => exact hread (DB.onlyReads_sContains name member)
  | sMembers name => exact hread (DB.onlyReads_sMembers name)
  | rPush name values | lPush name values =>
    refine Room.wp .list (· = listKey name) ?_ ⟨hs, ?_⟩
      (db.writes_push name _ values fun _ => rfl)
    · rintro r rfl key kind' howns
      exact (belongs_listKey key kind' howns).2
    · rintro key r rfl howns
      rw [(belongs_listKey key _ howns).1]
      exact h
  | lRange name start stop target => exact hread (db.onlyReads_lRange name start stop target)

/-- One step that looks out keeps every key at one kind of records. -/
theorem Step.oneKind_run {step : Step V T} {st : ℕ × Store} (hs : OneKind st.2)
    (h : step.LooksOut st.2) : OneKind (step.run db go clock st).2 := by
  cases step with
  | core request =>
    exact run_ticking_of_wp (fun _ => True) (fun _ _ => trivial) (DB.wp_serve hs h)
  | redis password session args =>
    exact run_ticking_of_wp (fun _ => True) (fun _ _ => trivial)
      (Redis.preservesReply_redisDispatch go password session h _ hs)

theorem oneKind_runSteps {steps : List (Step V T)} {st : ℕ × Store} (hs : OneKind st.2)
    (h : LookOut db go clock steps st) : OneKind (runSteps db go clock steps st).2 := by
  induction steps generalizing st with
  | nil => exact hs
  | cons step steps ih => exact ih (Step.oneKind_run go clock hs h.1) h.2

theorem LookOut.of_isPrefix {pre steps : List (Step V T)} {st : ℕ × Store} (hpre : pre <+: steps)
    (h : LookOut db go clock steps st) : LookOut db go clock pre st := by
  obtain ⟨rest, rfl⟩ := hpre
  induction pre generalizing st with
  | nil => trivial
  | cons step pre ih => exact ⟨h.1, ih h.2⟩

/-- In a run from the empty store whose steps all look out for the other kinds, every
key has records of at most one kind in every store that the run reaches. -/
theorem oneKind_of_lookOut {steps : List (Step V T)} {tick : ℕ}
    (h : LookOut db go clock steps (tick, ∅)) {pre : List (Step V T)} (hpre : pre <+: steps) :
    OneKind (runSteps db go clock pre (tick, ∅)).2 :=
  oneKind_runSteps go clock oneKind_empty (h.of_isPrefix go clock hpre)

/-- `HSet` on a key with a scalar value: the key has records of two kinds. -/
theorem hSet_on_scalar_has_two_kinds :
    let s := (runSteps (bytesHandle 0) .upperCase (fun _ => 0)
      [.core (.put (text "k") (text "v") []),
        .core (.hSet (text "k") (text "f") (text "w") [])] (0, ∅)).2
    HasKind s (text "k") .value ∧ HasKind s (text "k") .hash :=
  ⟨⟨valueKey (text "k"), _, rfl, rfl⟩,
    ⟨hashKey (text "k") (text "f"), _, ⟨text "f", rfl⟩, rfl⟩⟩

/-- A store with one value has room for a hash under another name. -/
theorem only_hash_of_oneValue {key data name : Bytes} (hne : name ≠ key) :
    Only ((∅ : Store).insert (valueKey key) data) name .hash := by
  intro kind _ hkind
  rcases hkind.of_insert with ⟨_, _, -, hget⟩ | howns
  · cases hget
  · exact hne (belongs_valueKey name kind howns).1

/-- A scalar, then a hash under another name, then a Redis list. -/
theorem oneKind_of_lookOut_at_three_steps :
    OneKind (runSteps (bytesHandle 0) .upperCase (fun _ => 0)
      [.core (.put (text "k") (text "v") []),
        .core (.hSet (text "h") (text "f") (text "w") []),
        .redis [] ⟨true, 1, 2⟩ [text "RPUSH", text "l", text "x"]] (0, ∅)).2 := by
  have hroom : (Step.core (V := Bytes) (T := Unit)
      (.hSet (text "h") (text "f") (text "w") [])).LooksOut
        ((Step.core (.put (text "k") (text "v") [])).run (bytesHandle 0) .upperCase (fun _ => 0)
          (0, ∅)).2 := by
    refine .inr (.inr fun key howns => ?_)
    obtain ⟨rfl, -⟩ := belongs_hashKey (by decide) key _ howns
    exact only_hash_of_oneValue (by decide)
  have hlook : LookOut (bytesHandle 0) .upperCase (fun _ => 0)
      [.core (.put (text "k") (text "v") []),
        .core (.hSet (text "h") (text "f") (text "w") []),
        .redis [] ⟨true, 1, 2⟩ [text "RPUSH", text "l", text "x"]] (0, ∅) :=
    ⟨trivial, hroom, (by decide : Redis.Deliverable [text "RPUSH", text "l", text "x"]), trivial⟩
  exact oneKind_of_lookOut _ _ hlook List.prefix_rfl

end KVLite
