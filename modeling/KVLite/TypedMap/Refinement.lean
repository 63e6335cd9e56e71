import KVLite.TypedMap.Represents

/-!
# The Redis commands refine the typed map

Every command of the machine, dispatched on a store that represents a map, replies what
the machine replies and leaves a store that represents the machine's next map. A run of
the server is therefore a run of the machine, as long as no push brings a list to
`2 ^ 32` items: the record of such a list does not decode, because its count is written
in four bytes.
-/

namespace KVLite.TypedMap

open Semantics Fallible BigEndian Redis

/-- The commands of the machine, with the options it knows. -/
def inScope (command : Command) (args : List Bytes) : Bool :=
  match command with
  | .set => args.length ≤ 3
  | .lpop | .rpop => args.length ≠ 3
  | .get | .setnx | .getset | .getdel | .mset | .msetnx | .strlen | .append
  | .hset | .hget | .hdel | .hexists | .hlen | .hgetall
  | .sadd | .srem | .sismember | .scard | .smembers
  | .lpush | .rpush | .lpushx | .rpushx | .llen | .lrange | .ltrim
  | .type | .existsKeys | .pexpireat | .persist | .del => true
  | _ => false

/-- A push leaves fewer than `2 ^ 32` items. -/
def Operation.Room (now : ℤ) (entries : State) : Operation → Prop
  | .onKey key (.push _ _ values) => ∀ e ∈ live now (entries key), ∀ items,
    e.value = .list items → items.length + values.length < 2 ^ 32
  | _ => True

/-- On every store that represents a map the program does what the machine does for the
arguments: it executes the operation, or refuses them. -/
def Implements (now : ℤ) (command : Command) (args : List Bytes) (p : Program Calls Resp) : Prop :=
  ∀ s entries, Represents s entries →
    match parse args command with
    | .error reply => p.run (embedded now) s = (reply, s)
    | .ok operation => operation.Room now entries → Executes now command p s entries operation

section Families

variable {now : ℤ} {command : Command} {args : List Bytes} {p : List Bytes → Program Calls Resp}

/-- The values of a push fit their list when they can be delivered and the list has
room. -/
theorem fits_push {left onlyIfExists : Bool} {values : List Bytes} {entries : State} {key : Bytes}
    (hvalues : Deliverable values)
    (hroom : Operation.Room now entries (.onKey key (.push left onlyIfExists values))) :
    (KeyOperation.push left onlyIfExists values).Fits (live now (entries key)) :=
  ⟨shortItems_of_deliverable hvalues, lt_of_le_of_lt hvalues.count (by decide), hroom⟩

variable (hclock : Clock now) (hargs : Deliverable args)

include hclock hargs

theorem implements_withKey {operation : KeyOperation}
    (hparse : parse args command = withKey args operation)
    (hfits : ∀ entry, operation.Fits entry)
    (hserves : ∀ name key s entry, StorableEntry entry →
      Serves now s key (p [name, key]) (operation.apply now) entry)
    (hnil : p [] = pure redisSyntaxError) (hone : ∀ name, p [name] = pure redisSyntaxError)
    (hmore : ∀ name key arg rest, args = name :: key :: arg :: rest →
      p args = pure redisSyntaxError) :
    Implements now command args (p args) := by
  intro s entries h
  rw [hparse]
  match args with
  | [] => rw [hnil]; rfl
  | [name] => rw [hone]; rfl
  | [name, key] =>
    exact fun _ => executes_onKey hclock h (hargs.shortName (by simp))
      (hserves name key s _ (h.storable key)) (hfits _)
  | name :: key :: arg :: rest => rw [hmore name key arg rest rfl]; rfl

theorem implements_withArg {operation : Bytes → KeyOperation}
    (hparse : parse args command = withArg args operation)
    (hfits : ∀ arg entry, (operation arg).Fits entry)
    (hserves : ∀ name key arg s entry, StorableEntry entry →
      Serves now s key (p [name, key, arg]) ((operation arg).apply now) entry)
    (hnil : p [] = pure redisSyntaxError) (hone : ∀ name, p [name] = pure redisSyntaxError)
    (htwo : ∀ name key, p [name, key] = pure redisSyntaxError)
    (hmore : ∀ name key arg arg' rest, args = name :: key :: arg :: arg' :: rest →
      p args = pure redisSyntaxError) :
    Implements now command args (p args) := by
  intro s entries h
  rw [hparse]
  match args with
  | [] => rw [hnil]; rfl
  | [name] => rw [hone]; rfl
  | [name, key] => rw [htwo]; rfl
  | [name, key, arg] =>
    exact fun _ => executes_onKey hclock h (hargs.shortName (by simp))
      (hserves name key arg s _ (h.storable key)) (hfits arg _)
  | name :: key :: arg :: arg' :: rest => rw [hmore name key arg arg' rest rfl]; rfl

theorem implements_withArgs {operation : List Bytes → KeyOperation}
    (hparse : parse args command = withArgs args operation)
    (hfits : ∀ values entries key, Deliverable values →
      Operation.Room now entries (.onKey key (operation values)) →
        (operation values).Fits (live now (entries key)))
    (hserves : ∀ name key arg rest s entry, StorableEntry entry →
      Serves now s key (p (name :: key :: arg :: rest)) ((operation (arg :: rest)).apply now) entry)
    (hnil : p [] = pure redisSyntaxError) (hone : ∀ name, p [name] = pure redisSyntaxError)
    (htwo : ∀ name key, p [name, key] = pure redisSyntaxError) :
    Implements now command args (p args) := by
  intro s entries h
  rw [hparse]
  match args with
  | [] => rw [hnil]; rfl
  | [name] => rw [hone]; rfl
  | [name, key] => rw [htwo]; rfl
  | name :: key :: arg :: rest =>
    have hvalues : Deliverable (arg :: rest) :=
      ⟨by have := hargs.count; simp only [List.length_cons] at this ⊢; omega,
        fun value hmem => hargs.size value (by simp_all)⟩
    exact fun hroom => executes_onKey hclock h (hargs.shortName (by simp))
      (hserves name key arg rest s _ (h.storable key)) (hfits _ entries key hvalues hroom)

omit hclock in
/-- `MSET` and `MSETNX`, which refuse arguments that are no pairs. -/
theorem implements_withPairs {operation : List (Bytes × Bytes) → Operation}
    (hparse : parse args command = withPairs args operation)
    (hexecutes : ∀ name rest pair pairs s entries, Represents s entries →
      argPairs rest = some (pair :: pairs) → (∀ pair' ∈ pair :: pairs, ShortName pair'.1) →
        Executes now command (p (name :: rest)) s entries (operation (pair :: pairs)))
    (hnil : p [] = pure redisSyntaxError)
    (hrest : ∀ name rest, argPairs rest = none ∨ argPairs rest = some [] →
      p (name :: rest) = pure redisSyntaxError) :
    Implements now command args (p args) := by
  intro s entries h
  rw [hparse]
  match args with
  | [] => rw [hnil]; rfl
  | name :: rest =>
    simp only [withPairs, List.tail_cons]
    cases hpairs : argPairs rest with
    | none => rw [hrest name rest (.inl hpairs)]; rfl
    | some pairs =>
      cases pairs with
      | nil => rw [hrest name rest (.inr hpairs)]; rfl
      | cons pair pairs =>
        refine fun _ => hexecutes name rest pair pairs s entries h hpairs fun pair' hmem => ?_
        exact hargs.shortName
          (List.mem_cons_of_mem _ (mem_of_mem_argPairs hpairs hmem))

omit hclock in
theorem implements_withKeys {operation : List Bytes → Operation}
    (hparse : parse args command = withKeys args operation)
    (hexecutes : ∀ name key keys s entries, Represents s entries →
      (∀ key' ∈ key :: keys, ShortName key') →
        Executes now command (p (name :: key :: keys)) s entries (operation (key :: keys)))
    (hnil : p [] = pure redisSyntaxError) (hone : ∀ name, p [name] = pure redisSyntaxError) :
    Implements now command args (p args) := by
  intro s entries h
  rw [hparse]
  match args with
  | [] => rw [hnil]; rfl
  | [name] => rw [hone]; rfl
  | name :: key :: keys =>
    exact fun _ => hexecutes name key keys s entries h fun key' hmem =>
      hargs.shortName (List.mem_cons_of_mem _ hmem)

theorem implements_hset : Implements now .hset args (redisHSet args) := by
  intro s entries h
  match args with
  | [] => rfl
  | [name] => rfl
  | name :: key :: rest =>
    simp only [parse, withPairs, List.tail_cons]
    cases hpairs : argPairs rest with
    | none => unfold redisHSet; simp only [hpairs]; rfl
    | some pairs =>
      cases pairs with
      | nil => unfold redisHSet; simp only [hpairs]; rfl
      | cons pair pairs =>
        exact fun _ => executes_onKey hclock h (hargs.shortName (by simp))
          (serves_hSet hclock (h.storable key) name hpairs) trivial

/-- `LRANGE` and `LTRIM`, which read their indexes before they look at the key. -/
theorem implements_withRange {operation : ℤ → ℤ → KeyOperation}
    (hparse : parse args command = withRange args operation)
    (hfits : ∀ first last entry, (operation first last).Fits entry)
    (hserves : ∀ name key start stop first last s entry, StorableEntry entry →
      redisParseInt start = .ok first → redisParseInt stop = .ok last →
        Serves now s key (p [name, key, start, stop]) ((operation first last).apply now) entry)
    (hbad : ∀ name key start stop err, (redisParseInt start = .error err ∨
        (∃ first, redisParseInt start = .ok first) ∧ redisParseInt stop = .error err) →
      p [name, key, start, stop] = pure (redisErrorReply err))
    (hnil : p [] = pure redisSyntaxError) (hone : ∀ name, p [name] = pure redisSyntaxError)
    (htwo : ∀ name key, p [name, key] = pure redisSyntaxError)
    (hthree : ∀ name key arg, p [name, key, arg] = pure redisSyntaxError)
    (hmore : ∀ name key start stop arg rest,
      p (name :: key :: start :: stop :: arg :: rest) = pure redisSyntaxError) :
    Implements now command args (p args) := by
  intro s entries h
  rw [hparse]
  match args with
  | [] => rw [hnil]; rfl
  | [name] => rw [hone]; rfl
  | [name, key] => rw [htwo]; rfl
  | [name, key, arg] => rw [hthree]; rfl
  | name :: key :: start :: stop :: arg :: rest => rw [hmore]; rfl
  | [name, key, start, stop] =>
    cases hstart : redisParseInt start with
    | error err =>
      simp only [withRange, integerArg, hstart]
      rw [hbad name key start stop err (.inl hstart)]
      rfl
    | ok first =>
      cases hstop : redisParseInt stop with
      | error err =>
        simp only [withRange, integerArg, hstart, hstop]
        rw [hbad name key start stop err (.inr ⟨⟨first, hstart⟩, hstop⟩)]
        rfl
      | ok last =>
        simp only [withRange, integerArg, hstart, hstop]
        exact fun _ => executes_onKey hclock h (hargs.shortName (by simp))
          (hserves name key start stop first last s _ (h.storable key) hstart hstop) (hfits _ _ _)

theorem implements_pexpireat :
    Implements now .pexpireat args (redisExpireCommand (text "PEXPIREAT") args) := by
  intro s entries h
  match args with
  | [] => rfl
  | [name] => rfl
  | [name, key] => rfl
  | name :: key :: amount :: arg :: rest => rfl
  | [name, key, amount] =>
    cases hamount : redisParseInt amount with
    | error err =>
      simp only [parse, withDeadline, integerArg, redisExpireCommand, hamount]
      rfl
    | ok ms =>
      have hparse : parse [name, key, amount] .pexpireat =
          if IsInt64 (ms * millisecond) then .ok (.onKey key (.expireAt (ms * millisecond)))
          else .error (redisErrorReply invalidExpireTime) := by
        simp only [parse, withDeadline, integerArg, hamount]
        rfl
      rw [hparse]
      by_cases hfits : IsInt64 (ms * millisecond)
      · rw [if_pos hfits]
        exact fun _ => executes_onKey hclock h (hargs.shortName (by simp))
          (serves_pexpireat hclock (h.storable key) name hamount hfits) hfits
      · rw [if_neg hfits]
        refine run_replying_error ?_
        simp only [hamount]
        rw [run_bind_ok (run_liftExcept _), run_bind_ok run_now,
          redisExpiryFromCommand_pexpireat, if_neg hfits]
        rfl

end Families

section Commands

variable {now : ℤ} {args : List Bytes} (hclock : Clock now) (hargs : Deliverable args)

include hclock hargs

/-- Every command of the machine does what the machine does. -/
theorem implements_redisCommand (go : GoRuntime) (session : Session) {command : Command}
    (hscope : inScope command args = true) :
    ∃ p, redisCommand go session args command = some <$> p ∧ Implements now command args p := by
  cases command with
  | get =>
    exact ⟨_, rfl, implements_withKey hclock hargs rfl (fun _ => trivial)
      (fun name key s entry h => serves_get hclock h name) rfl (fun _ => rfl)
      (by rintro _ _ _ _ rfl; rfl)⟩
  | strlen =>
    exact ⟨_, rfl, implements_withKey hclock hargs rfl (fun _ => trivial)
      (fun name key s entry h => serves_strLen hclock h name) rfl (fun _ => rfl)
      (by rintro _ _ _ _ rfl; rfl)⟩
  | getdel =>
    exact ⟨_, rfl, implements_withKey hclock hargs rfl (fun _ => trivial)
      (fun name key s entry h => serves_getDel hclock h name) rfl (fun _ => rfl)
      (by rintro _ _ _ _ rfl; rfl)⟩
  | hlen =>
    exact ⟨_, rfl, implements_withKey hclock hargs rfl (fun _ => trivial)
      (fun name key s entry h => serves_hLen hclock h name) rfl (fun _ => rfl)
      (by rintro _ _ _ _ rfl; rfl)⟩
  | hgetall =>
    exact ⟨_, rfl, implements_withKey hclock hargs rfl (fun _ => trivial)
      (fun name key s entry h => serves_hGetAll hclock h name) rfl (fun _ => rfl)
      (by rintro _ _ _ _ rfl; rfl)⟩
  | scard =>
    exact ⟨_, rfl, implements_withKey hclock hargs rfl (fun _ => trivial)
      (fun name key s entry h => serves_sCard hclock h name) rfl (fun _ => rfl)
      (by rintro _ _ _ _ rfl; rfl)⟩
  | smembers =>
    exact ⟨_, rfl, implements_withKey hclock hargs rfl (fun _ => trivial)
      (fun name key s entry h => serves_sMembers hclock h name) rfl (fun _ => rfl)
      (by rintro _ _ _ _ rfl; rfl)⟩
  | llen =>
    exact ⟨_, rfl, implements_withKey hclock hargs rfl (fun _ => trivial)
      (fun name key s entry h => serves_lLen hclock h name) rfl (fun _ => rfl)
      (by rintro _ _ _ _ rfl; rfl)⟩
  | type =>
    exact ⟨_, rfl, implements_withKey hclock hargs rfl (fun _ => trivial)
      (fun name key s entry h => serves_type hclock h name) rfl (fun _ => rfl)
      (by rintro _ _ _ _ rfl; rfl)⟩
  | persist =>
    exact ⟨_, rfl, implements_withKey hclock hargs rfl (fun _ => trivial)
      (fun name key s entry h => serves_persist hclock h name) rfl (fun _ => rfl)
      (by rintro _ _ _ _ rfl; rfl)⟩
  | lpop =>
    -- With a count the command is outside the machine.
    refine ⟨_, rfl, implements_withKey hclock hargs rfl (fun _ => trivial)
      (fun name key s entry h => serves_pop hclock h name true) rfl (fun _ => rfl) ?_⟩
    rintro name key arg (_ | ⟨arg', rest⟩) rfl
    · simp [inScope] at hscope
    · rfl
  | rpop =>
    refine ⟨_, rfl, implements_withKey hclock hargs rfl (fun _ => trivial)
      (fun name key s entry h => serves_pop hclock h name false) rfl (fun _ => rfl) ?_⟩
    rintro name key arg (_ | ⟨arg', rest⟩) rfl
    · simp [inScope] at hscope
    · rfl
  | set =>
    refine ⟨_, rfl, implements_withArg hclock hargs rfl (fun _ _ => trivial)
      (fun name key value s entry h => serves_set hclock h go name value) rfl (fun _ => rfl)
      (fun _ _ => rfl) ?_⟩
    rintro name key arg arg' rest rfl
    have hshort : (name :: key :: arg :: arg' :: rest).length ≤ 3 := of_decide_eq_true hscope
    simp only [List.length_cons] at hshort
    omega
  | setnx =>
    exact ⟨_, rfl, implements_withArg hclock hargs rfl (fun _ _ => trivial)
      (fun name key value s entry h => serves_setNX hclock h name value) rfl (fun _ => rfl)
      (fun _ _ => rfl) (by rintro _ _ _ _ _ rfl; rfl)⟩
  | getset =>
    exact ⟨_, rfl, implements_withArg hclock hargs rfl (fun _ _ => trivial)
      (fun name key value s entry h => serves_getSet hclock h name value) rfl (fun _ => rfl)
      (fun _ _ => rfl) (by rintro _ _ _ _ _ rfl; rfl)⟩
  | append =>
    exact ⟨_, rfl, implements_withArg hclock hargs rfl (fun _ _ => trivial)
      (fun name key value s entry h => serves_append hclock h name value) rfl (fun _ => rfl)
      (fun _ _ => rfl) (by rintro _ _ _ _ _ rfl; rfl)⟩
  | hget =>
    exact ⟨_, rfl, implements_withArg hclock hargs rfl (fun _ _ => trivial)
      (fun name key field s entry h => serves_hGet hclock h name field) rfl (fun _ => rfl)
      (fun _ _ => rfl) (by rintro _ _ _ _ _ rfl; rfl)⟩
  | hexists =>
    exact ⟨_, rfl, implements_withArg hclock hargs rfl (fun _ _ => trivial)
      (fun name key field s entry h => serves_hExists hclock h name field) rfl (fun _ => rfl)
      (fun _ _ => rfl) (by rintro _ _ _ _ _ rfl; rfl)⟩
  | sismember =>
    exact ⟨_, rfl, implements_withArg hclock hargs rfl (fun _ _ => trivial)
      (fun name key member s entry h => serves_sIsMember hclock h name member) rfl (fun _ => rfl)
      (fun _ _ => rfl) (by rintro _ _ _ _ _ rfl; rfl)⟩
  | hdel =>
    exact ⟨_, rfl, implements_withArgs hclock hargs rfl (fun _ _ _ _ _ => trivial)
      (fun name key field fields s entry h => serves_hDel hclock h name field fields) rfl
      (fun _ => rfl) (fun _ _ => rfl)⟩
  | sadd =>
    exact ⟨_, rfl, implements_withArgs hclock hargs rfl (fun _ _ _ _ _ => trivial)
      (fun name key member members s entry h => serves_sAdd hclock h name member members) rfl
      (fun _ => rfl) (fun _ _ => rfl)⟩
  | srem =>
    exact ⟨_, rfl, implements_withArgs hclock hargs rfl (fun _ _ _ _ _ => trivial)
      (fun name key member members s entry h => serves_sRem hclock h name member members) rfl
      (fun _ => rfl) (fun _ _ => rfl)⟩
  | lpush =>
    exact ⟨_, rfl, implements_withArgs hclock hargs rfl (fun _ _ _ => fits_push)
      (fun name key value values s entry h => serves_push hclock h name value values true) rfl
      (fun _ => rfl) (fun _ _ => rfl)⟩
  | rpush =>
    exact ⟨_, rfl, implements_withArgs hclock hargs rfl (fun _ _ _ => fits_push)
      (fun name key value values s entry h => serves_push hclock h name value values false) rfl
      (fun _ => rfl) (fun _ _ => rfl)⟩
  | lpushx =>
    exact ⟨_, rfl, implements_withArgs hclock hargs rfl (fun _ _ _ => fits_push)
      (fun name key value values s entry h => serves_pushX hclock h name value values true) rfl
      (fun _ => rfl) (fun _ _ => rfl)⟩
  | rpushx =>
    exact ⟨_, rfl, implements_withArgs hclock hargs rfl (fun _ _ _ => fits_push)
      (fun name key value values s entry h => serves_pushX hclock h name value values false) rfl
      (fun _ => rfl) (fun _ _ => rfl)⟩
  | mset =>
    refine ⟨_, rfl, implements_withPairs hargs rfl
      (fun name rest pair pairs s entries h => executes_mset h) rfl ?_⟩
    rintro name rest (hpairs | hpairs) <;> unfold redisMSet <;> simp only [List.tail_cons, hpairs] <;>
      rfl
  | msetnx =>
    refine ⟨_, rfl, implements_withPairs hargs rfl
      (fun name rest pair pairs s entries h => executes_msetnx hclock h) rfl ?_⟩
    rintro name rest (hpairs | hpairs) <;> unfold redisMSetNX <;>
      simp only [List.tail_cons, hpairs] <;> rfl
  | existsKeys =>
    exact ⟨_, rfl, implements_withKeys hargs rfl
      (fun name key keys s entries h => executes_existsKeys hclock h) rfl fun _ => rfl⟩
  | del =>
    exact ⟨_, rfl, implements_withKeys hargs rfl
      (fun name key keys s entries h => executes_del h) rfl fun _ => rfl⟩
  | hset => exact ⟨_, rfl, implements_hset hclock hargs⟩
  | lrange =>
    refine ⟨_, rfl, implements_withRange hclock hargs rfl (fun _ _ _ => trivial)
      (fun name key start stop first last s entry h => serves_lRange hclock h name start stop) ?_
      rfl (fun _ => rfl) (fun _ _ => rfl) (fun _ _ _ => rfl) fun _ _ _ _ _ _ => rfl⟩
    rintro name key start stop err (hstart | ⟨⟨first, hstart⟩, hstop⟩)
    · simp only [redisLRange, hstart]
      rfl
    · simp only [redisLRange, hstart, hstop]
      rfl
  | ltrim =>
    refine ⟨_, rfl, implements_withRange hclock hargs rfl (fun _ _ _ => trivial)
      (fun name key start stop first last s entry h => serves_lTrim hclock h name start stop) ?_
      rfl (fun _ => rfl) (fun _ _ => rfl) (fun _ _ _ => rfl) fun _ _ _ _ _ _ => rfl⟩
    rintro name key start stop err (hstart | ⟨⟨first, hstart⟩, hstop⟩)
    · simp only [redisLTrim, hstart]
      rfl
    · simp only [redisLTrim, hstart, hstop]
      rfl
  | pexpireat => exact ⟨_, rfl, implements_pexpireat hclock hargs⟩
  | _ => cases hscope

end Commands

/-! ### Runs -/

/-- One command of the server; the count that `DEL` answers is left out. -/
def serve (go : GoRuntime) (password : Bytes) (input : Input) (s : Store) : Option Resp × Store :=
  let (dispatched, s') :=
    (redisDispatch go password input.session input.args).run (embedded input.now) s
  (dispatched.reply.map (withoutCount (commandOf go input.args)), s')

/-- What a client may send: one of the machine's commands, deliverable and from a session
that is let in, at a clock reading that is not before the last one. -/
structure Admits (go : GoRuntime) (password : Bytes) (input : Input) (state : ℤ × State) :
    Prop where
  clock : state.1 ≤ input.now ∧ input.now < 2 ^ 63
  session : password = [] ∨ input.session.authed = true
  deliverable : Deliverable input.args
  command : ∃ command, commandOf go input.args = some command ∧ inScope command input.args = true

/-- The command does not bring a list to `2 ^ 32` items. -/
def HasRoom (go : GoRuntime) (input : Input) (state : ℤ × State) : Prop :=
  ∀ command operation, commandOf go input.args = some command →
    parse input.args command = .ok operation → operation.Room input.now state.2

/-- The store represents the machine's map, up to entries whose deadline has passed. -/
def Simulates (s : Store) (state : ℤ × State) : Prop :=
  0 ≤ state.1 ∧ ∃ entries, Represents s entries ∧ SameLive state.1 entries state.2

section Runs

variable {go : GoRuntime} {password : Bytes} {input : Input}

/-- The dispatch of a command of the machine. -/
theorem redisDispatch_of_command {command : Command} (session : Session) {args : List Bytes}
    (hcommand : commandOf go args = some command) (hscope : inScope command args = true)
    (hsession : password = [] ∨ session.authed = true) :
    redisDispatch go password session args =
      redisCommand go session args command >>= fun reply => pure ⟨reply, false, session⟩ := by
  have hne : ∀ name, commandTable.lookup name = none ∨ commandTable.lookup name = some .hello →
      go.toUpper (args.headD []) ≠ name := by
    rintro name hname rfl
    rcases hname with hname | hname
    · rw [commandOf, hname] at hcommand
      cases hcommand
    · rw [commandOf, hname] at hcommand
      cases hcommand
      cases hscope
  have hauth : ¬ (password ≠ [] ∧ ¬ session.authed = true) := by
    rintro ⟨hpassword, hauthed⟩
    exact hsession.elim hpassword hauthed
  unfold redisDispatch
  simp only
  rw [if_neg (hne _ (.inr (by decide))), if_neg (hne _ (.inl (by decide))),
    if_neg (hne _ (.inl (by decide))), if_neg hauth]
  rw [commandOf] at hcommand
  simp only [hcommand]

theorem Operation.Room.congr {now : ℤ} {entries entries' : State}
    (h : SameLive now entries entries') {operation : Operation}
    (hroom : operation.Room now entries') : operation.Room now entries := by
  cases operation with
  | onKey key operation =>
    cases operation with
    | push left onlyIfExists values => exact fun e he items => hroom e (h key ▸ he) items
    | _ => trivial
  | _ => trivial

/-- The replies that refuse arguments are no counts. -/
theorem withoutCount_of_parse_error {args : List Bytes} {command : Command} {reply : Resp}
    (h : parse args command = .error reply) : withoutCount (some command) reply = reply := by
  cases command with
  | del =>
    match args with
    | [] | [_] =>
      cases h
      rfl
    | _ :: _ :: _ => cases h
  | _ => rfl

theorem serve_eq {command : Command} {p : Program Calls Resp} (s : Store)
    (hcommand : commandOf go input.args = some command)
    (hscope : inScope command input.args = true)
    (hsession : password = [] ∨ input.session.authed = true)
    (hp : redisCommand go input.session input.args command = some <$> p) :
    serve go password input s =
      (some (withoutCount (some command) (p.run (embedded input.now) s).1),
        (p.run (embedded input.now) s).2) := by
  rw [serve, redisDispatch_of_command input.session hcommand hscope hsession, hp, hcommand,
    Program.run_bind, map_eq_pure_bind, Program.run_bind]
  rfl

/-- One command of the server is one step of the machine. -/
theorem serve_simulates {s : Store} {state : ℤ × State} (h : Simulates s state)
    (hadmits : Admits go password input state) (hroom : HasRoom go input state) :
    (serve go password input s).1 = (step go input state).1 ∧
      Simulates (serve go password input s).2 (step go input state).2 := by
  obtain ⟨hnonneg, entries, hs, hsame⟩ := h
  obtain ⟨command, hcommand, hscope⟩ := hadmits.command
  have hnow : 0 ≤ input.now := hnonneg.trans hadmits.clock.1
  have hsame : SameLive input.now entries state.2 := hsame.mono hadmits.clock.1
  obtain ⟨p, hp, himplements⟩ := implements_redisCommand ⟨hnow, hadmits.clock.2⟩
    hadmits.deliverable go input.session hscope
  have himplemented := himplements s entries hs
  rw [serve_eq s hcommand hscope hadmits.session hp]
  simp only [step, hcommand]
  cases hparse : parse input.args command with
  | error reply =>
    rw [hparse] at himplemented
    simp only at himplemented
    simp only [himplemented, withoutCount_of_parse_error hparse]
    exact ⟨trivial, hnow, entries, hs, hsame⟩
  | ok operation =>
    rw [hparse] at himplemented
    obtain ⟨reply, s', entries', hrun, hreply, hs', hsame'⟩ :=
      himplemented ((hroom command operation hcommand hparse).congr hsame)
    obtain ⟨hreplies, hentries⟩ := hsame.apply operation
    simp only [hrun]
    rw [hreply, hreplies]
    exact ⟨rfl, hnow, entries', hs', hsame'.trans hentries⟩

theorem simulates_start : Simulates ∅ start := ⟨le_rfl, _, represents_empty, .refl _⟩

theorem run_simulates {inputs : List Input} {s : Store} {state : ℤ × State}
    (h : Simulates s state)
    (halong : Machine.Along (step go) (fun input state =>
      Admits go password input state ∧ HasRoom go input state) inputs state) :
    Machine.outputs (serve go password) inputs s = Machine.outputs (step go) inputs state ∧
      Simulates (Machine.after (serve go password) inputs s)
        (Machine.after (step go) inputs state) := by
  have hstep : ∀ input s state, Simulates s state →
      Admits go password input state ∧ HasRoom go input state → _ :=
    fun input s state h hcondition => serve_simulates h hcondition.1 hcondition.2
  exact Machine.outputs_eq_of_simulation hstep h halong

/-- The server replies what the machine replies in every run that leaves room in its
lists. -/
theorem replies_eq_of_room (go : GoRuntime) (password : Bytes) (inputs : List Input)
    (halong : Machine.Along (step go) (fun input state =>
      Admits go password input state ∧ HasRoom go input state) inputs start) :
    Machine.outputs (serve go password) inputs ∅ = Machine.outputs (step go) inputs start := by
  exact (run_simulates simulates_start halong).1

end Runs

/-! ### A list of `2 ^ 32` items -/

/-- The machine after `count` pushes of the empty item to the list with the empty name. -/
def filled (count : ℕ) : ℤ × State :=
  (0, Function.update (fun _ => none) [] (Entry.of (.list (List.replicate count [])) none))

def pushInput : Input := ⟨0, ⟨false, 1, 2⟩, [text "RPUSH", [], []]⟩

def lengthInput : Input := ⟨0, ⟨false, 1, 2⟩, [text "LLEN", []]⟩

section Overflow

theorem filled_zero : filled 0 = start := by
  have hnone : Entry.of (.list (List.replicate 0 [])) none = none := rfl
  rw [filled, hnone, Function.update_eq_self_iff.mpr rfl]
  rfl

theorem live_filled (count : ℕ) :
    live 0 ((filled count).2 []) = Entry.of (.list (List.replicate count [])) none := by
  have hentry : (filled count).2 [] = Entry.of (.list (List.replicate count [])) none := by
    simp only [filled, Function.update_self]
  rw [hentry, Entry.of]
  split <;> rfl

/-- An operation on a list that may be absent. -/
theorem onList_of (items : List Bytes) (f : List Bytes → Resp × List Bytes) :
    onList (Entry.of (.list items) none) f = ((f items).1, Entry.of (.list (f items).2) none) := by
  cases items <;> rfl

theorem pushed_replicate (count : ℕ) :
    pushed false (List.replicate count []) [[]] = List.replicate (count + 1) [] :=
  List.replicate_succ'.symm

theorem commandOf_pushInput : commandOf .upperCase pushInput.args = some .rpush := by decide

theorem commandOf_lengthInput : commandOf .upperCase lengthInput.args = some .llen := by decide

theorem admits_pushInput (count : ℕ) : Admits .upperCase [] pushInput (filled count) where
  clock := ⟨le_rfl, by decide⟩
  session := .inl rfl
  deliverable := by decide
  command := ⟨.rpush, commandOf_pushInput, rfl⟩

theorem admits_lengthInput (count : ℕ) : Admits .upperCase [] lengthInput (filled count) where
  clock := ⟨le_rfl, by decide⟩
  session := .inl rfl
  deliverable := by decide
  command := ⟨.llen, commandOf_lengthInput, rfl⟩

theorem apply_push (count : ℕ) :
    (KeyOperation.push false false [[]]).apply 0 (live 0 ((filled count).2 [])) =
      (.integer (count + 1), Entry.of (.list (List.replicate (count + 1) [])) none) := by
  rw [live_filled, KeyOperation.apply, onList_of, if_neg (by simp), pushed_replicate,
    List.length_replicate]
  rfl

theorem step_pushInput (count : ℕ) :
    step .upperCase pushInput (filled count) = (some (.integer (count + 1)), filled (count + 1)) := by
  have hparse : parse pushInput.args .rpush = .ok (.onKey [] (.push false false [[]])) := rfl
  have hupdate : ∀ entry, Function.update (filled count).2 [] entry =
      Function.update (fun _ => none) [] entry := fun entry => Function.update_idem ..
  have hnow : pushInput.now = 0 := rfl
  simp only [step, commandOf_pushInput, hparse, Operation.apply, hnow, apply_push, hupdate]
  rfl

theorem hasRoom_pushInput {count : ℕ} (h : count + 1 < 2 ^ 32) :
    HasRoom .upperCase pushInput (filled count) := by
  intro command operation hcommand hparse
  rw [commandOf_pushInput] at hcommand
  cases hcommand
  cases hparse
  rintro e he items hvalue
  rw [show pushInput.now = 0 from rfl, live_filled] at he
  unfold Entry.of at he
  split at he
  · cases he
    cases hvalue
    simpa using h
  · cases he

theorem along_pushInput (count pushes : ℕ) (h : count + pushes < 2 ^ 32) :
    Machine.Along (step .upperCase) (fun input state =>
        Admits .upperCase [] input state ∧ HasRoom .upperCase input state)
      (List.replicate pushes pushInput) (filled count) ∧
    Machine.after (step .upperCase) (List.replicate pushes pushInput) (filled count) =
      filled (count + pushes) := by
  induction pushes generalizing count with
  | zero => exact ⟨trivial, rfl⟩
  | succ pushes ih =>
    obtain ⟨halong, hafter⟩ := ih (count + 1) (by omega)
    rw [List.replicate_succ, Machine.Along, Machine.after, step_pushInput]
    refine ⟨⟨⟨admits_pushInput count, hasRoom_pushInput (by omega)⟩, halong⟩, ?_⟩
    rw [hafter, Nat.add_right_comm, Nat.add_assoc]

/-- The store after the push that overflows. -/
theorem at_of_push_overflow {count : ℕ} {s : Store} (h : Simulates s (filled count)) :
    At s [] (serve .upperCase [] pushInput s).2
      ((Value.list (List.replicate (count + 1) [])).records none) := by
  obtain ⟨-, entries, hs, hsame⟩ := h
  obtain ⟨s', hrun, hs'⟩ : ∃ s', _ ∧ At s [] s' _ :=
    serves_push ⟨le_rfl, by decide⟩ (hs.storable []) (text "RPUSH") [] [] false s (hs.at (by decide))
  have hlive : live 0 (entries []) = live 0 ((filled count).2 []) := hsame []
  rw [hlive, apply_push, recordsOf_of_eq fun _ => rfl] at hs'
  have hserve : (serve .upperCase [] pushInput s).2 = s' := by
    rw [serve_eq s commandOf_pushInput rfl (.inl rfl) rfl]
    exact congrArg Prod.snd hrun
  rwa [hserve]

/-- The length of a list that has overflowed cannot be read. -/
theorem serve_lengthInput_of_overflow {s₀ s : Store} {items : List Bytes}
    (hitems : items.length = 2 ^ 32) (hs : At s₀ [] s ((Value.list items).records none)) :
    (serve .upperCase [] lengthInput s).1 =
      some (redisErrorReply (.new (text "kvlite: trailing list data"))) := by
  have hrun : (redisLLen lengthInput.args).run (embedded 0) s = (_, s) :=
    run_replying_error (run_bind_error (run_bind_error
      (run_bind_error (run_redisType_of_overflow hitems hs))))
  rw [serve_eq s commandOf_lengthInput rfl (.inl rfl) rfl]
  exact congrArg (fun result => some (withoutCount (some .llen) result.1)) hrun

theorem step_lengthInput (count : ℕ) :
    (step .upperCase lengthInput (filled count)).1 = some (.integer count) := by
  have hparse : parse lengthInput.args .llen = .ok (.onKey [] .llen) := rfl
  have hnow : lengthInput.now = 0 := rfl
  simp only [step, commandOf_lengthInput, hparse, Operation.apply, hnow, live_filled,
    KeyOperation.apply, onList_of, List.length_replicate]
  rfl

/-- The pushes that fill a list of `count + 1` items, and the command that reads its
length. -/
def overflowInputs (count : ℕ) : List Input :=
  List.replicate count pushInput ++ [pushInput, lengthInput]

theorem outputs_overflowInputs {count : ℕ} (hcount : count + 1 = 2 ^ 32) :
    Machine.outputs (serve .upperCase []) (overflowInputs count) ∅ ≠
      Machine.outputs (step .upperCase) (overflowInputs count) start := by
  obtain ⟨halong, hafter⟩ := along_pushInput 0 count (by omega)
  rw [filled_zero, Nat.zero_add] at hafter
  rw [filled_zero] at halong
  obtain ⟨houtputs, hsimulates⟩ := run_simulates simulates_start halong
  rw [hafter] at hsimulates
  intro heq
  rw [overflowInputs, Machine.outputs_append, Machine.outputs_append, houtputs, hafter,
    List.append_cancel_left_eq] at heq
  -- Both machines take the last push; the length is where they differ.
  obtain ⟨-, heq⟩ := List.cons_eq_cons.mp heq
  obtain ⟨hlength, -⟩ := List.cons_eq_cons.mp heq
  rw [step_pushInput, step_lengthInput, serve_lengthInput_of_overflow
    (by rw [List.length_replicate, hcount]) (at_of_push_overflow hsimulates)] at hlength
  cases hlength

/-- A run that fills a list with `2 ^ 32` items: the server cannot read its length. -/
theorem push_overflow_ne_machine :
    ∃ inputs, Machine.Along (step .upperCase) (Admits .upperCase []) inputs start ∧
      Machine.outputs (serve .upperCase []) inputs ∅ ≠
        Machine.outputs (step .upperCase) inputs start := by
  refine ⟨overflowInputs (2 ^ 32 - 1), ?_, outputs_overflowInputs rfl⟩
  obtain ⟨halong, hafter⟩ := along_pushInput 0 (2 ^ 32 - 1) (by decide)
  rw [filled_zero] at halong hafter
  rw [overflowInputs, Machine.along_append, hafter]
  refine ⟨halong.mono fun _ _ h => h.1, admits_pushInput _, ?_, trivial⟩
  rw [step_pushInput]
  exact admits_lengthInput _

theorem hasRoom_lengthInput (state : ℤ × State) : HasRoom .upperCase lengthInput state := by
  intro command operation hcommand hparse
  rw [commandOf_lengthInput] at hcommand
  cases hcommand
  cases hparse
  trivial

/-- A run of one push. -/
theorem replies_eq_of_one_push :
    Machine.Along (step .upperCase) (fun input state =>
        Admits .upperCase [] input state ∧ HasRoom .upperCase input state)
      [pushInput, lengthInput] start ∧
    Machine.outputs (serve .upperCase []) [pushInput, lengthInput] ∅ =
      [some (.integer 1), some (.integer 1)] := by
  have halong : Machine.Along (step .upperCase) (fun input state =>
        Admits .upperCase [] input state ∧ HasRoom .upperCase input state)
      [pushInput, lengthInput] start := by
    rw [← filled_zero, Machine.Along, Machine.Along, step_pushInput]
    exact ⟨⟨admits_pushInput 0, hasRoom_pushInput (by decide)⟩,
      ⟨admits_lengthInput 1, hasRoom_lengthInput _⟩, trivial⟩
  refine ⟨halong, (replies_eq_of_room .upperCase [] _ halong).trans ?_⟩
  rw [← filled_zero, Machine.outputs, Machine.outputs, Machine.outputs, step_pushInput,
    step_lengthInput]
  rfl

end Overflow

end KVLite.TypedMap
