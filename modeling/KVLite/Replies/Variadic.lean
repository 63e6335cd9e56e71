import KVLite.Replies.Pushes

/-!
# Commands with several elements

`HSET`, `HDEL`, `SADD`, `SREM`, `MSET`, `LPUSH` and `RPUSH` take any number of elements. Each
is compared with the commands for the single elements, one after the other, at one clock
reading.
-/

namespace KVLite

open Semantics Fallible BigEndian Redis TypedMap

/-- A command with several elements. -/
inductive VariadicWrite
  | hSet (key : Bytes) (pairs : List (Bytes × Bytes))
  | hDel (key : Bytes) (fields : List Bytes)
  | sAdd (key : Bytes) (members : List Bytes)
  | sRem (key : Bytes) (members : List Bytes)
  | mSet (pairs : List (Bytes × Bytes))
  | push (left : Bool) (key : Bytes) (values : List Bytes)

def mSetCommand (pairs : List (Bytes × Bytes)) : Program Calls Resp :=
  redisMSet (text "MSET" :: pairs.flatMap fun pair => [pair.1, pair.2])

namespace VariadicWrite

def program : VariadicWrite → Program Calls Resp
  | hSet key pairs => hSetCommand key pairs
  | hDel key fields => hDelCommand key fields
  | sAdd key members => sAddCommand key members
  | sRem key members => sRemCommand key members
  | mSet pairs => mSetCommand pairs
  | push left key values => pushCommand left key values

/-- The commands for the single elements. -/
def singles : VariadicWrite → List (Program Calls Resp)
  | hSet key pairs => pairs.map fun pair => hSetCommand key [pair]
  | hDel key fields => fields.map fun field => hDelCommand key [field]
  | sAdd key members => members.map fun member => sAddCommand key [member]
  | sRem key members => members.map fun member => sRemCommand key [member]
  | mSet pairs => pairs.map fun pair => mSetCommand [pair]
  | push left key values => values.map fun value => pushCommand left key [value]

/-- The values of a push are values that a connection can deliver. -/
def Deliverable : VariadicWrite → Prop
  | push _ _ values => ∀ value ∈ values, value.length ≤ maxRESPBulk
  | _ => True

/-- The reply of a command that counts is the sum of the single replies; the reply of a push
is the last single reply. -/
def RepliesAgree (w : VariadicWrite) (reply : Resp) (replies : List Resp) : Prop :=
  match w with
  | mSet _ => True
  | push _ _ _ => replies.getLast? = some reply
  | _ => ∃ counts : List ℕ, (replies = counts.map fun n : ℕ => .integer n) ∧
    reply = .integer counts.sum

/-- The command does what the single commands do. -/
structure Agrees (w : VariadicWrite) (time : ℤ) (s : Store) : Prop where
  store : (w.program.run (embedded time) s).2 = (runEach time w.singles s).2
  reply : w.RepliesAgree (w.program.run (embedded time) s).1 (runEach time w.singles s).1

/-- The items of the list and the values pushed are at most `2 ^ 32`. -/
def HasRoom (time : ℤ) (s : Store) : VariadicWrite → Prop
  | push _ key values => ∀ items s₁,
    run (embedded time) (redisListValues key) s = (.ok items, s₁) →
      items.length + values.length ≤ 2 ^ 32
  | _ => True

end VariadicWrite

section Agreement

variable {time : ℤ} {s : Store} {key : Bytes}

theorem agrees_hSet (hs : OneKind s) {pairs : List (Bytes × Bytes)}
    (hreply : ¬ ((hSetCommand key pairs).run (embedded time) s).1.IsError) :
    (VariadicWrite.hSet key pairs).Agrees time s := by
  cases pairs with
  | nil => exact absurd trivial hreply
  | cons pair pairs =>
    rw [hSetCommand_eq] at hreply
    obtain ⟨s₂, hopens⟩ := opens_of_reply hreply
    have hheld : ∀ pair s, SoleHash time s key ∨ Cleared time s key →
        SoleHash time (stepHSet key pair s).2 key := fun pair s h => soleHash_insert _ _ h
    have hrun := hopens.run_hSet (List.cons_ne_nil pair pairs)
    have heach := runEach_of_opened (fun h hne => h.run_hSet hne)
      (fun s h => .found (h : SoleHash time s key).toLiveHash.run_redisType)
      (fun pair s h => hheld pair s (.inl h)) hopens
      (fun pair => hheld pair s₂ (hopens.cleared_or_soleHash hs)) (pair :: pairs)
      (List.cons_ne_nil _ _)
    refine ⟨?_, _, congrArg Prod.fst heach, congrArg Prod.fst hrun⟩
    exact (congrArg Prod.snd hrun).trans (congrArg Prod.snd heach).symm

theorem agrees_sAdd (hs : OneKind s) {members : List Bytes}
    (hreply : ¬ ((sAddCommand key members).run (embedded time) s).1.IsError) :
    (VariadicWrite.sAdd key members).Agrees time s := by
  cases members with
  | nil => exact absurd trivial hreply
  | cons member members =>
    rw [sAddCommand_eq] at hreply
    obtain ⟨s₂, hopens⟩ := opens_of_reply hreply
    have hrun := hopens.run_sAdd (List.cons_ne_nil member members)
    have heach := runEach_of_opened (fun h hne => h.run_sAdd hne)
      (fun s h => .found (h : SoleSet time s key).run_redisType)
      (fun member s h => soleSet_stepSAdd member (.inl h)) hopens
      (fun member => soleSet_stepSAdd member (hopens.cleared_or_soleSet hs)) (member :: members)
      (List.cons_ne_nil _ _)
    refine ⟨?_, _, congrArg Prod.fst heach, congrArg Prod.fst hrun⟩
    exact (congrArg Prod.snd hrun).trans (congrArg Prod.snd heach).symm

theorem agrees_hDel (hs : OneKind s) {fields : List Bytes}
    (hreply : ¬ ((hDelCommand key fields).run (embedded time) s).1.IsError) :
    (VariadicWrite.hDel key fields).Agrees time s := by
  cases fields with
  | nil => exact absurd trivial hreply
  | cons field fields =>
    obtain ⟨found, s₁, hrun, hfound⟩ := found_of_reply .hash
      (fun found hnone hne => by cases found <;> first | rfl | contradiction) hreply
    have habsent : ∀ {fields : List Bytes} {s s₁ : Store}, fields ≠ [] →
        run (embedded time) (redisType key) s = (.ok .none, s₁) →
          (hDelCommand key fields).run (embedded time) s = (.integer 0, s₁) := by
      intro fields s s₁ hne htype
      obtain ⟨field, fields, rfl⟩ := List.exists_cons_of_ne_nil hne
      exact run_replying (run_bind_ok htype)
    obtain ⟨counts, heach, hsum⟩ := runEach_of_removing habsent
      (fun hne htype h => run_hDel htype h hne) (fun s h => h.toLiveHash.run_redisType)
      (fun field => namespacePrefix_isPrefix_iff.mpr ⟨field, rfl⟩) (fun s h => h.nonempty)
      (fun field s h => h.erase) hrun
      (hfound.imp_right fun h => ⟨h, (typeOutcome_of_run (h ▸ hrun)).soleHash hs⟩)
      (List.cons_ne_nil field fields)
    exact ⟨(congrArg Prod.snd heach).symm, counts, congrArg Prod.fst heach, hsum⟩

theorem agrees_sRem (hs : OneKind s) {members : List Bytes}
    (hreply : ¬ ((sRemCommand key members).run (embedded time) s).1.IsError) :
    (VariadicWrite.sRem key members).Agrees time s := by
  cases members with
  | nil => exact absurd trivial hreply
  | cons member members =>
    obtain ⟨found, s₁, hrun, hfound⟩ := found_of_reply .set
      (fun found hnone hne => by cases found <;> first | rfl | contradiction) hreply
    have habsent : ∀ {members : List Bytes} {s s₁ : Store}, members ≠ [] →
        run (embedded time) (redisType key) s = (.ok .none, s₁) →
          (sRemCommand key members).run (embedded time) s = (.integer 0, s₁) := by
      intro members s s₁ hne htype
      obtain ⟨member, members, rfl⟩ := List.exists_cons_of_ne_nil hne
      exact run_replying (run_bind_ok htype)
    obtain ⟨counts, heach, hsum⟩ := runEach_of_removing habsent
      (fun hne htype h => run_sRem htype h hne) (fun s h => h.run_redisType)
      (fun member => namespacePrefix_isPrefix_iff.mpr ⟨member, rfl⟩) (fun s h => h.nonempty)
      (fun member s h => h.erase) hrun
      (hfound.imp_right fun h => ⟨h, (typeOutcome_of_run (h ▸ hrun)).soleSet hs⟩)
      (List.cons_ne_nil member members)
    exact ⟨(congrArg Prod.snd heach).symm, counts, congrArg Prod.fst heach, hsum⟩

/-- The store after a string has been written in place of what the key held. -/
def afterMSet (pair : Bytes × Bytes) (s : Store) : Store :=
  ((s.without pair.1).insert (valueKey pair.1) (bytesRecord pair.2 0)).erase
    (collectionTTLKey pair.1)

theorem run_redisMSetLoop (pairs : List (Bytes × Bytes)) (s : Store) :
    run (embedded time) (redisMSetLoop pairs) s =
      (.ok (), pairs.foldl (fun s pair => afterMSet pair s) s) := by
  induction pairs generalizing s with
  | nil => rfl
  | cons pair pairs ih =>
    have hwrite : run (embedded time) (redisDeleteAndWriteString pair.1 pair.2 0) s =
        (.ok (), afterMSet pair s) :=
      (run_bind_ok run_redisDeleteRaw).trans run_redisWriteString_zero
    rw [redisMSetLoop, run_bind_ok hwrite, ih, List.foldl_cons]

theorem run_mSet {pairs : List (Bytes × Bytes)} (hne : pairs ≠ []) (s : Store) :
    (mSetCommand pairs).run (embedded time) s =
      (ok, pairs.foldl (fun s pair => afterMSet pair s) s) := by
  obtain ⟨pair, pairs, rfl⟩ := List.exists_cons_of_ne_nil hne
  rw [mSetCommand, redisMSet, List.tail_cons, argPairs_flatMap]
  exact run_replying (run_bind_ok (run_redisMSetLoop _ s))

theorem agrees_mSet {pairs : List (Bytes × Bytes)}
    (hreply : ¬ ((mSetCommand pairs).run (embedded time) s).1.IsError) :
    (VariadicWrite.mSet pairs).Agrees time s := by
  have heach : ∀ s, (runEach time (pairs.map fun pair => mSetCommand [pair]) s).2 =
      pairs.foldl (fun s pair => afterMSet pair s) s := by
    intro s
    clear hreply
    induction pairs generalizing s with
    | nil => rfl
    | cons pair pairs ih =>
      rw [List.map_cons, runEach, run_mSet (List.cons_ne_nil _ _)]
      exact ih _
  have hne : pairs ≠ [] := by
    rintro rfl
    exact hreply trivial
  exact ⟨(congrArg Prod.snd (run_mSet hne s)).trans (heach s).symm, trivial⟩

/-- A push agrees with the single pushes if and only if the record has room. -/
theorem agrees_push_iff {left : Bool} {values : List Bytes}
    (hvalues : ∀ value ∈ values, value.length ≤ maxRESPBulk)
    (hreply : ¬ ((pushCommand left key values).run (embedded time) s).1.IsError) :
    (VariadicWrite.push left key values).Agrees time s ↔
      (VariadicWrite.push left key values).HasRoom time s := by
  have hne : values ≠ [] := by
    rintro rfl
    exact hreply trivial
  rcases hread : run (embedded time) (redisListValues key) s with ⟨err | items, s₁⟩
  · exact absurd (push_isError hread) hreply
  have hrun := run_push left hread hne
  constructor
  · intro hagrees items' s₁' hread'
    cases hread.symm.trans hread'
    by_contra hover
    obtain ⟨reply, herror, hlast⟩ := runEach_push_overflow left hread hvalues
      (not_le.mp hover)
    have hsame : some reply = some ((pushCommand left key values).run (embedded time) s).1 :=
      hlast.symm.trans hagrees.reply
    cases hsame
    exact hreply herror
  · intro hroom
    obtain ⟨hstore, hlast⟩ := runEach_push left hread hvalues hne (hroom items s₁ hread)
    refine ⟨(congrArg Prod.snd hrun).trans hstore.symm, hlast.trans ?_⟩
    exact congrArg some (congrArg Prod.fst hrun).symm

end Agreement

/-- In every store that requests reach from the empty store, at every clock reading and for
every command with several elements whose reply is not an error: the command does what the
single commands do if and only if a list that is pushed to has room. -/
theorem variadic_agrees_iff {go : GoRuntime} {password : Bytes} {clock : ℕ → ℤ}
    {inputs : List Received} (hinputs : ∀ received ∈ inputs, Deliverable received.args)
    (tick : ℕ) (time : ℤ) {s : Store}
    (hs : s = (Machine.after (receive go password clock) inputs (tick, ∅)).2) {w : VariadicWrite}
    (hw : w.Deliverable) (hreply : ¬ (w.program.run (embedded time) s).1.IsError) :
    w.Agrees time s ↔ w.HasRoom time s := by
  have hkinds : OneKind s := hs ▸ (redisStore_reached hinputs tick).2
  cases w with
  | hSet key pairs => exact iff_of_true (agrees_hSet hkinds hreply) trivial
  | hDel key fields => exact iff_of_true (agrees_hDel hkinds hreply) trivial
  | sAdd key members => exact iff_of_true (agrees_sAdd hkinds hreply) trivial
  | sRem key members => exact iff_of_true (agrees_sRem hkinds hreply) trivial
  | mSet pairs => exact iff_of_true (agrees_mSet hreply) trivial
  | push left key values => exact agrees_push_iff hw hreply

/-- Requests that push to one list are single pushes. -/
theorem runEach_of_pushRequests (count tick : ℕ) (s : Store) :
    (Machine.after (receive .upperCase [] fun _ => 0) (List.replicate count pushRequest)
        (tick, s)).2 =
      (runEach 0 ((List.replicate count []).map fun value => pushCommand false [] [value]) s).2 := by
  rw [after_pushRequest]
  induction count generalizing s with
  | zero => rfl
  | succ count ih =>
    have hserve : (serve .upperCase [] pushInput s).2 =
        ((pushCommand false [] [[]]).run (embedded 0) s).2 := by
      rw [serve_eq s commandOf_pushInput rfl (.inl rfl) rfl]
      rfl
    rw [List.replicate_succ, List.replicate_succ, Machine.after, hserve, ih]
    rfl

theorem deliverable_push_two : (VariadicWrite.push false [] [[], []]).Deliverable :=
  (by decide : ∀ value ∈ [([] : Bytes), []], value.length ≤ maxRESPBulk)

theorem disagrees_of_pushes {count : ℕ} (hcount : count + 1 = 2 ^ 32) :
    let s := (Machine.after (receive .upperCase [] fun _ => 0) (List.replicate count pushRequest)
      (0, ∅)).2
    ¬ ((pushCommand false [] [[], []]).run (embedded 0) s).1.IsError ∧
      ¬ (VariadicWrite.push false [] [[], []]).Agrees 0 s := by
  intro s
  have hvalues : ∀ value ∈ List.replicate count ([] : Bytes), value.length ≤ maxRESPBulk := by
    intro value hvalue
    rw [List.eq_of_mem_replicate hvalue]
    exact Nat.zero_le _
  have hne : List.replicate count ([] : Bytes) ≠ [] := by
    rw [ne_eq, List.replicate_eq_nil_iff]
    omega
  have hempty : run (embedded 0) (redisListValues []) ∅ = (.ok [], ∅) := rfl
  obtain ⟨hstore, -⟩ := runEach_push false hempty hvalues hne
    (by rw [List.length_replicate, List.length_nil]; omega)
  have hs : s = afterPush false [] [] (List.replicate count []) ∅ :=
    (runEach_of_pushRequests count 0 ∅).trans hstore
  have hlist := (liveList_afterPush false hempty hvalues hne).2
    (by rw [List.length_replicate, List.length_nil]; omega)
  rw [← hs] at hlist
  have hread := hlist.run_redisListValues
  have hreply : ¬ ((pushCommand false [] [[], []]).run (embedded 0) s).1.IsError := by
    rw [run_push false hread (List.cons_ne_nil _ _)]
    exact id
  refine ⟨hreply, fun hagrees => ?_⟩
  have hroom := (agrees_push_iff deliverable_push_two hreply).mp hagrees _ _ hread
  rw [length_pushed, List.length_map, List.length_replicate] at hroom
  simp only [List.length_nil, List.length_cons] at hroom
  omega

/-- A list of `2 ^ 32 - 1` items takes two values in one push; of two single pushes it takes
the first only. -/
theorem push_of_two_disagrees :
    ∃ inputs : List Received, (∀ received ∈ inputs, Deliverable received.args) ∧
      ∃ s, s = (Machine.after (receive .upperCase [] fun _ => 0) inputs (0, ∅)).2 ∧
        ¬ ((VariadicWrite.push false [] [[], []]).program.run (embedded 0) s).1.IsError ∧
        ¬ (VariadicWrite.push false [] [[], []]).Agrees 0 s :=
  ⟨List.replicate (2 ^ 32 - 1) pushRequest, fun _ => deliverable_of_mem_pushes, _, rfl,
    disagrees_of_pushes rfl⟩

/-- Two values are pushed to a list of one item. -/
theorem push_of_two_agrees :
    (∀ received ∈ [pushRequest], Deliverable received.args) ∧
    (VariadicWrite.push false [] [[], []]).Agrees 0
      (Machine.after (receive .upperCase [] fun _ => 0) [pushRequest] (0, ∅)).2 := by
  have hinputs : ∀ received ∈ List.replicate 1 pushRequest, Deliverable received.args :=
    fun _ => deliverable_of_mem_pushes
  have hread : run (embedded 0) (redisListValues [])
      (Machine.after (receive .upperCase [] fun _ => 0) [pushRequest] (0, ∅)).2 =
        (.ok [bytesRecord [] 0], _) := rfl
  refine ⟨hinputs, (variadic_agrees_iff hinputs 0 0 rfl deliverable_push_two id).mpr ?_⟩
  intro items s₁ hrun
  cases hread.symm.trans hrun
  decide

end KVLite
