import KVLite.Keyspace.LiveMembers
import KVLite.Replies.Errors

/-!
# Fields and members one by one

`HSET`, `SADD`, `HDEL` and `SREM` loop over their elements. Each loop is a fold of a step on
the store; the commands for the single elements do the same steps, although they probe the
key again before every element, and those that remove look at what is left after every
element.
-/

namespace KVLite

open Semantics Fallible BigEndian Redis TypedMap

/-- Commands one after the other: the replies and the store. -/
def runEach (time : ℤ) : List (Program Calls Resp) → Store → List Resp × Store
  | [], s => ([], s)
  | p :: ps, s =>
    ((p.run (embedded time) s).1 :: (runEach time ps (p.run (embedded time) s).2).1,
      (runEach time ps (p.run (embedded time) s).2).2)

/-- Steps one after the other: what each of them counts, and the store. -/
def foldSteps {ι : Type} (step : ι → Store → ℕ × Store) : List ι → Store → List ℕ × Store
  | [], s => ([], s)
  | x :: xs, s =>
    ((step x s).1 :: (foldSteps step xs (step x s).2).1, (foldSteps step xs (step x s).2).2)

section Steps

variable {ι : Type} {one : ι → Program Calls Resp} {step : ι → Store → ℕ × Store}
  {settle : Store → Store} {time : ℤ} {Held Drained : Store → Prop}

/-- Commands for single elements that each do one step and settle the store. Once the
collection is drained, they find no key. -/
theorem runEach_of_steps
    (hone : ∀ x s, Held s → (one x).run (embedded time) s =
      (.integer (step x s).1, settle (step x s).2))
    (hheld : ∀ s, Held s → settle s = s)
    (hdrained : ∀ x s, Drained s → step x s = (0, s) ∧
      (one x).run (embedded time) (settle s) = (.integer 0, settle s))
    (hstep : ∀ x s, Held s → Held (step x s).2 ∨ Drained (step x s).2)
    (xs : List ι) {s : Store} (hs : Held s) :
    runEach time (xs.map one) s =
      ((foldSteps step xs s).1.map fun n : ℕ => .integer n, settle (foldSteps step xs s).2) := by
  have hrest : ∀ (xs : List ι) (s : Store), Drained s → runEach time (xs.map one) (settle s) =
      ((foldSteps step xs s).1.map fun n : ℕ => .integer n, settle (foldSteps step xs s).2) := by
    intro xs
    induction xs with
    | nil => exact fun _ _ => rfl
    | cons x xs ih =>
      intro s hs
      obtain ⟨hzero, hrun⟩ := hdrained x s hs
      rw [List.map_cons, runEach, hrun, ih s hs, foldSteps, hzero]
      rfl
  induction xs generalizing s with
  | nil =>
    rw [foldSteps, hheld s hs]
    rfl
  | cons x xs ih =>
    rw [List.map_cons, runEach, hone x s hs, foldSteps]
    rcases hstep x s hs with hnext | hnext
    · rw [hheld _ hnext, ih hnext]
      rfl
    · rw [hrest xs _ hnext]
      rfl

theorem foldSteps_induct {P : Store → Prop} (hstep : ∀ x s, P s → P (step x s).2) (xs : List ι)
    {s : Store} (hs : P s) : P (foldSteps step xs s).2 := by
  induction xs generalizing s with
  | nil => exact hs
  | cons x xs ih => exact ih (hstep x s hs)

end Steps

/-! ### Opening a collection -/

/-- The key holds the type, or nothing; then its expiry metadata is removed. -/
inductive Opens (time : ℤ) (s : Store) (key : Bytes) (typ : RedisType) : Store → Prop
  | absent {s₁ : Store} (h : run (embedded time) (redisType key) s = (.ok .none, s₁)) :
    Opens time s key typ (s₁.erase (collectionTTLKey key))
  | found {s₁ : Store} (h : run (embedded time) (redisType key) s = (.ok typ, s₁)) :
    Opens time s key typ s₁

/-- The code that opens a collection. -/
def opening (key : Bytes) (typ : RedisType) (code : Action Resp) : Action Resp := do
  let found ← redisType key
  if found ≠ .none ∧ found ≠ typ then
    throw (wrongType found)
  else do
    if found = .none then
      ignoringError (Transport.delete (collectionTTLKey key))
    code

section Opening

variable {time : ℤ} {s s₁ s₂ : Store} {key : Bytes} {typ : RedisType} {code : Action Resp}

theorem Opens.run_opening (htyp : typ ≠ .none) (h : Opens time s key typ s₂) :
    run (embedded time) (opening key typ code) s = run (embedded time) code s₂ := by
  cases h with
  | absent h =>
    rw [opening, run_bind_ok h, if_neg fun hwrong => hwrong.1 rfl, if_pos rfl]
    exact run_bind_ok (run_ignoringError _)
  | found h =>
    rw [opening, run_bind_ok h, if_neg fun hwrong => hwrong.2 rfl, if_neg htyp]

theorem isError_redisErrorReply (err : GoError) : (redisErrorReply err).IsError := by
  obtain ⟨message, hmessage⟩ := exists_redisErrorReply_eq err
  rw [hmessage]
  trivial

variable (typ) in
/-- A command that probes the type and whose reply is not an error found the type it is for,
or nothing. -/
theorem found_of_reply {code : RedisType → Action Resp}
    (hwrong : ∀ found, found ≠ .none → found ≠ typ → code found = throw (wrongType found))
    (hreply : ¬ ((replying (redisType key >>= code)).run (embedded time) s).1.IsError) :
    ∃ found s₁, run (embedded time) (redisType key) s = (.ok found, s₁) ∧
      (found = .none ∨ found = typ) := by
  rcases hrun : run (embedded time) (redisType key) s with ⟨err | found, s₁⟩
  · rw [run_replying_error (run_bind_error hrun)] at hreply
    exact absurd (isError_redisErrorReply err) hreply
  · refine ⟨found, s₁, rfl, ?_⟩
    by_contra hne
    obtain ⟨hnone, htyp⟩ := not_or.mp hne
    rw [run_replying_error ((run_bind_ok hrun).trans (by rw [hwrong found hnone htyp]; rfl))] at hreply
    exact hreply (isError_redisErrorReply (wrongType found))

/-- Where the reply is not an error, the collection was opened. -/
theorem opens_of_reply
    (hreply : ¬ ((replying (opening key typ code)).run (embedded time) s).1.IsError) :
    ∃ s₂, Opens time s key typ s₂ := by
  obtain ⟨found, s₁, hrun, hfound⟩ :=
    found_of_reply typ (fun found hnone hne => if_pos ⟨hnone, hne⟩) hreply
  rcases hfound with rfl | rfl
  · exact ⟨_, .absent hrun⟩
  · exact ⟨_, .found hrun⟩

end Opening

/-! ### Adding fields and members -/

theorem argPairs_flatMap (pairs : List (Bytes × Bytes)) :
    argPairs (pairs.flatMap fun pair => [pair.1, pair.2]) = some pairs := by
  induction pairs with
  | nil => rfl
  | cons pair pairs ih =>
    rw [List.flatMap_cons]
    exact congrArg (Option.map ((pair.1, pair.2) :: ·)) ih

def hSetCommand (key : Bytes) (pairs : List (Bytes × Bytes)) : Program Calls Resp :=
  redisHSet (text "HSET" :: key :: pairs.flatMap fun pair => [pair.1, pair.2])

def sAddCommand (key : Bytes) (members : List Bytes) : Program Calls Resp :=
  redisSAdd (text "SADD" :: key :: members)

/-- One round of the loop of `HSET`. -/
def stepHSet (key : Bytes) (pair : Bytes × Bytes) (s : Store) : ℕ × Store :=
  (if (s[hashKey key pair.1]?).isNone then 1 else 0,
    s.insert (hashKey key pair.1) (bytesRecord pair.2 0))

/-- One round of the loop of `SADD`. -/
def stepSAdd (key member : Bytes) (s : Store) : ℕ × Store :=
  match s[setKey key member]? with
  | some _ => (0, s)
  | none => (1, s.insert (setKey key member) [1])

section Adding

variable {time : ℤ} {s s₂ : Store} {key : Bytes}

theorem run_redisHSetLoop (added : ℕ) (pairs : List (Bytes × Bytes)) (s : Store) :
    run (embedded time) (redisHSetLoop key added pairs) s =
      (.ok (added + (foldSteps (stepHSet key) pairs s).1.sum),
        (foldSteps (stepHSet key) pairs s).2) := by
  induction pairs generalizing added s with
  | nil => rfl
  | cons pair pairs ih =>
    have hput : run (embedded time)
        (putPayload (hashKey key pair.1) Redis.bytesCodec pair.2 0) s =
          (.ok (), s.insert (hashKey key pair.1) (bytesRecord pair.2 0)) := rfl
    rw [redisHSetLoop, run_bind_ok Transport.run_get, run_bind_ok hput, ih,
      foldSteps, List.sum_cons, ← add_assoc]
    simp only [stepHSet]
    split <;> rfl

theorem run_redisSAddLoop (added : ℕ) (members : List Bytes) (s : Store) :
    run (embedded time) (redisSAddLoop key added members) s =
      (.ok (added + (foldSteps (stepSAdd key) members s).1.sum),
        (foldSteps (stepSAdd key) members s).2) := by
  induction members generalizing added s with
  | nil => rfl
  | cons member members ih =>
    rw [redisSAddLoop, run_bind_ok Transport.run_get, foldSteps, List.sum_cons,
      ← add_assoc, stepSAdd]
    cases hget : s[setKey key member]? with
    | some data => exact ih added s
    | none => exact (run_bind_ok Transport.run_put).trans (ih (added + 1) _)

theorem hSetCommand_eq (pair : Bytes × Bytes) (pairs : List (Bytes × Bytes)) :
    hSetCommand key (pair :: pairs) = replying (opening key .hash do
      return .integer (← redisHSetLoop key 0 (pair :: pairs))) := by
  rw [hSetCommand, redisHSet, argPairs_flatMap]
  rfl

theorem sAddCommand_eq (member : Bytes) (members : List Bytes) :
    sAddCommand key (member :: members) = replying (opening key .set do
      return .integer (← redisSAddLoop key 0 (member :: members))) := rfl

theorem Opens.run_hSet (h : Opens time s key .hash s₂) {pairs : List (Bytes × Bytes)}
    (hne : pairs ≠ []) : (hSetCommand key pairs).run (embedded time) s =
      (.integer (foldSteps (stepHSet key) pairs s₂).1.sum, (foldSteps (stepHSet key) pairs s₂).2) := by
  obtain ⟨pair, pairs, rfl⟩ := List.exists_cons_of_ne_nil hne
  rw [hSetCommand_eq]
  refine run_replying ((h.run_opening (by decide)).trans ?_)
  rw [run_bind_ok (run_redisHSetLoop 0 _ _), Nat.zero_add]
  rfl

theorem Opens.run_sAdd (h : Opens time s key .set s₂) {members : List Bytes} (hne : members ≠ []) :
    (sAddCommand key members).run (embedded time) s =
      (.integer (foldSteps (stepSAdd key) members s₂).1.sum,
        (foldSteps (stepSAdd key) members s₂).2) := by
  obtain ⟨member, members, rfl⟩ := List.exists_cons_of_ne_nil hne
  rw [sAddCommand_eq]
  refine run_replying ((h.run_opening (by decide)).trans ?_)
  rw [run_bind_ok (run_redisSAddLoop 0 _ _), Nat.zero_add]
  rfl

theorem Opens.cleared_or_soleHash (hs : OneKind s) (h : Opens time s key .hash s₂) :
    SoleHash time s₂ key ∨ Cleared time s₂ key := by
  cases h with
  | absent h => exact .inr (typeOutcome_of_run h).cleared.erase
  | found h => exact .inl ((typeOutcome_of_run h).soleHash hs)

theorem Opens.cleared_or_soleSet (hs : OneKind s) (h : Opens time s key .set s₂) :
    SoleSet time s₂ key ∨ Cleared time s₂ key := by
  cases h with
  | absent h => exact .inr (typeOutcome_of_run h).cleared.erase
  | found h => exact .inl ((typeOutcome_of_run h).soleSet hs)

theorem soleSet_stepSAdd (member : Bytes) (h : SoleSet time s key ∨ Cleared time s key) :
    SoleSet time (stepSAdd key member s).2 key := by
  rw [stepSAdd]
  cases hget : s[setKey key member]? with
  | none => exact soleSet_insert member h
  | some data =>
    rcases h with h | h
    · exact h
    · have hpre : namespacePrefix kindSet key <+: setKey key member :=
        namespacePrefix_isPrefix_iff.mpr ⟨member, rfl⟩
      rw [Store.scan_eq_nil_iff.mp h.no_members _ hpre] at hget
      cases hget

/-- Single elements, after the first has been added. -/
theorem runEach_of_opened {ι : Type} {command : List ι → Program Calls Resp}
    {step : ι → Store → ℕ × Store} {Held : Store → Prop} {typ : RedisType}
    (hrun : ∀ {s s₂ : Store} {xs : List ι}, Opens time s key typ s₂ → xs ≠ [] →
      (command xs).run (embedded time) s =
        (.integer (foldSteps step xs s₂).1.sum, (foldSteps step xs s₂).2))
    (hopens : ∀ s, Held s → Opens time s key typ s) (hheld : ∀ x s, Held s → Held (step x s).2)
    (hopen : Opens time s key typ s₂) (hfirst : ∀ x, Held (step x s₂).2) (xs : List ι) :
    xs ≠ [] → runEach time (xs.map fun x => command [x]) s =
      ((foldSteps step xs s₂).1.map fun n : ℕ => .integer n, (foldSteps step xs s₂).2) := by
  intro hne
  obtain ⟨x, xs, rfl⟩ := List.exists_cons_of_ne_nil hne
  have hone : ∀ x s, Held s → (command [x]).run (embedded time) s =
      (.integer (step x s).1, id (step x s).2) := by
    intro x s hs
    rw [hrun (hopens s hs) (List.cons_ne_nil _ _)]
    simp only [foldSteps, List.sum_cons, List.sum_nil, Nat.add_zero, id]
  have hrest := runEach_of_steps hone (fun _ _ => rfl) (fun _ _ h => False.elim h)
    (fun x s hs => .inl (hheld x s hs)) xs (hfirst x)
  rw [List.map_cons, runEach, hrun hopen (List.cons_ne_nil _ _), foldSteps]
  simp only [foldSteps, List.sum_cons, List.sum_nil, Nat.add_zero]
  rw [hrest]
  rfl

end Adding

/-! ### Removing fields and members -/

def hDelCommand (key : Bytes) (fields : List Bytes) : Program Calls Resp :=
  redisHDel (text "HDEL" :: key :: fields)

def sRemCommand (key : Bytes) (members : List Bytes) : Program Calls Resp :=
  redisSRem (text "SREM" :: key :: members)

/-- One round of a loop that removes. -/
def stepErase (storageKey : Bytes → Bytes) (x : Bytes) (s : Store) : ℕ × Store :=
  (if (s[storageKey x]?).isSome then 1 else 0, s.erase (storageKey x))

/-- A key whose last record has been removed is removed with its deadline. -/
def settled (key pre : Bytes) (s : Store) : Store := if s.scan pre = [] then s.without key else s

section Removing

variable {time : ℤ} {s s₁ : Store} {key : Bytes}

theorem LiveFields.erase (h : LiveFields time s key) (storageKey : Bytes) :
    LiveFields time (s.erase storageKey) key where
  ahead := h.ahead.erase
  no_value := Store.getElem?_erase_eq_none h.no_value
  live other data hpre hget := by
    exact h.live other data hpre (Store.getElem?_of_erase hget)

theorem run_redisHDelLoop (removed : ℕ) (fields : List Bytes) (h : LiveFields time s key) :
    run (embedded time) (redisHDelLoop key removed fields) s =
      (.ok (removed + (foldSteps (stepErase (hashKey key)) fields s).1.sum),
        (foldSteps (stepErase (hashKey key)) fields s).2) := by
  induction fields generalizing removed s with
  | nil => rfl
  | cons field fields ih =>
    rw [redisHDelLoop, run_bind_ok Transport.run_get, foldSteps, List.sum_cons,
      ← add_assoc, stepErase]
    cases hget : s[hashKey key field]? with
    | none =>
      rw [Store.erase_of_none hget]
      exact ih removed h
    | some data =>
      obtain ⟨value, hvalue, hlive⟩ :=
        h.live _ data (namespacePrefix_isPrefix_iff.mpr ⟨field, rfl⟩) hget
      have htest : run (embedded time) (expiredNow value.expiresAt) s = (.ok false, s) := by
        rw [run_expiredNow, ← Envelope.expired, hlive]
      dsimp only
      rw [hvalue, run_bind_ok (run_liftExcept _), run_bind_ok htest]
      exact (run_bind_ok Transport.run_delete).trans (ih (removed + 1) (h.erase _))

theorem run_redisSRemLoop (removed : ℕ) (members : List Bytes) (s : Store) :
    run (embedded time) (redisSRemLoop key removed members) s =
      (.ok (removed + (foldSteps (stepErase (setKey key)) members s).1.sum),
        (foldSteps (stepErase (setKey key)) members s).2) := by
  induction members generalizing removed s with
  | nil => rfl
  | cons member members ih =>
    rw [redisSRemLoop, run_bind_ok Transport.run_get, foldSteps, List.sum_cons,
      ← add_assoc, stepErase]
    cases hget : s[setKey key member]? with
    | none =>
      rw [Store.erase_of_none hget]
      exact ih removed s
    | some data => exact (run_bind_ok Transport.run_delete).trans (ih (removed + 1) _)

/-- What is left of a hash or a set while records are removed. -/
theorem SoleHash.foldErase (h : SoleHash time s key) (fields : List Bytes) :
    SoleHash time (foldSteps (stepErase (hashKey key)) fields s).2 key ∨
      Cleared time (foldSteps (stepErase (hashKey key)) fields s).2 key := by
  refine foldSteps_induct (P := fun s => SoleHash time s key ∨ Cleared time s key)
    (fun field s hs => ?_) fields (.inl h)
  rcases hs with hs | hs
  · exact hs.erase.imp id And.left
  · exact .inr hs.erase

theorem SoleSet.foldErase (h : SoleSet time s key) (members : List Bytes) :
    SoleSet time (foldSteps (stepErase (setKey key)) members s).2 key ∨
      Cleared time (foldSteps (stepErase (setKey key)) members s).2 key := by
  refine foldSteps_induct (P := fun s => SoleSet time s key ∨ Cleared time s key)
    (fun member s hs => ?_) members (.inl h)
  rcases hs with hs | hs
  · exact hs.erase.imp id And.left
  · exact .inr hs.erase

theorem run_hDel (hrun : run (embedded time) (redisType key) s = (.ok .hash, s₁))
    (h : SoleHash time s₁ key) {fields : List Bytes} (hne : fields ≠ []) :
    (hDelCommand key fields).run (embedded time) s =
      (.integer (foldSteps (stepErase (hashKey key)) fields s₁).1.sum,
        settled key (namespacePrefix kindHash key)
          (foldSteps (stepErase (hashKey key)) fields s₁).2) := by
  obtain ⟨field, fields, rfl⟩ := List.exists_cons_of_ne_nil hne
  refine run_replying ((run_bind_ok hrun).trans ?_)
  dsimp only
  rw [run_bind_ok (run_redisHDelLoop 0 _ h.toLiveFields), Nat.zero_add, settled]
  rcases h.foldErase (field :: fields) with hleft | hleft
  · obtain ⟨entries, hentries, hlength⟩ := hleft.toLiveHash.run_redisHashEntries
    rw [run_bind_ok hentries, if_neg hlength, if_neg hleft.nonempty]
    rfl
  · have hnil : Store.scan (foldSteps (stepErase (hashKey key)) (field :: fields) s₁).2
        (namespacePrefix kindHash key) = [] := hleft.no_fields
    rw [run_bind_ok hleft.run_redisHashEntries, if_pos List.length_nil, if_pos hnil,
      run_bind_ok (run_ignoringError _), run_redisDeleteRaw]
    rfl

theorem run_sRem (hrun : run (embedded time) (redisType key) s = (.ok .set, s₁))
    (h : SoleSet time s₁ key) {members : List Bytes} (hne : members ≠ []) :
    (sRemCommand key members).run (embedded time) s =
      (.integer (foldSteps (stepErase (setKey key)) members s₁).1.sum,
        settled key (namespacePrefix kindSet key)
          (foldSteps (stepErase (setKey key)) members s₁).2) := by
  obtain ⟨member, members, rfl⟩ := List.exists_cons_of_ne_nil hne
  refine run_replying ((run_bind_ok hrun).trans ?_)
  dsimp only
  rw [run_bind_ok (run_redisSRemLoop 0 _ _), Nat.zero_add, settled]
  rcases h.foldErase (member :: members) with hleft | hleft
  · obtain ⟨left, hmembers, hlength⟩ := hleft.run_redisSetMembers
    rw [run_bind_ok hmembers, if_neg hlength, if_neg hleft.nonempty]
    rfl
  · rw [run_bind_ok hleft.run_redisSetMembers, if_pos List.length_nil,
      if_pos hleft.no_members, run_bind_ok (run_ignoringError _), run_redisDeleteRaw]
    rfl

/-- Elements are removed, all at once and one by one, from a key that holds the collection or
nothing. -/
theorem runEach_of_removing {remove : List Bytes → Program Calls Resp} {storageKey : Bytes → Bytes}
    {pre : Bytes} {typ : RedisType} {Held : Store → Prop}
    (habsent : ∀ {xs : List Bytes} {s s₁ : Store}, xs ≠ [] →
      run (embedded time) (redisType key) s = (.ok .none, s₁) →
        (remove xs).run (embedded time) s = (.integer 0, s₁))
    (hremove : ∀ {xs : List Bytes} {s s₁ : Store}, xs ≠ [] →
      run (embedded time) (redisType key) s = (.ok typ, s₁) → Held s₁ →
        (remove xs).run (embedded time) s =
          (.integer (foldSteps (stepErase storageKey) xs s₁).1.sum,
            settled key pre (foldSteps (stepErase storageKey) xs s₁).2))
    (hprobe : ∀ s, Held s → run (embedded time) (redisType key) s = (.ok typ, s))
    (hpre : ∀ x, pre <+: storageKey x) (hne : ∀ s, Held s → s.scan pre ≠ [])
    (herase : ∀ x s, Held s → Held (s.erase (storageKey x)) ∨
      Cleared time (s.erase (storageKey x)) key ∧ Store.scan (s.erase (storageKey x)) pre = [])
    {found : RedisType} (hrun : run (embedded time) (redisType key) s = (.ok found, s₁))
    (hfound : found = .none ∨ found = typ ∧ Held s₁) {xs : List Bytes} (hxs : xs ≠ []) :
    ∃ counts : List ℕ, runEach time (xs.map fun x => remove [x]) s =
        (counts.map fun n : ℕ => .integer n, ((remove xs).run (embedded time) s).2) ∧
      ((remove xs).run (embedded time) s).1 = .integer counts.sum := by
  have hcleared : ∀ x s, Cleared time s key → (remove [x]).run (embedded time) s =
      (.integer 0, s) := fun x s hs => habsent (List.cons_ne_nil _ _) hs.run_redisType
  -- Only the first command sees the store before the probe.
  have hfirst : ∀ x xs, (remove [x]).run (embedded time) s = (remove [x]).run (embedded time) s₁ →
      runEach time ((x :: xs).map fun x => remove [x]) s =
        runEach time ((x :: xs).map fun x => remove [x]) s₁ := by
    intro x xs hx
    rw [List.map_cons, runEach, runEach, hx]
  obtain ⟨x, xs, rfl⟩ := List.exists_cons_of_ne_nil hxs
  rcases hfound with rfl | ⟨rfl, hheld⟩
  · have hgone := (typeOutcome_of_run hrun).cleared
    have heach : ∀ xs : List Bytes, runEach time (xs.map fun x => remove [x]) s₁ =
        ((List.replicate xs.length 0).map fun n : ℕ => .integer n, s₁) := by
      intro xs
      induction xs with
      | nil => rfl
      | cons x xs ih =>
        rw [List.map_cons, runEach, hcleared x s₁ hgone, ih]
        rfl
    refine ⟨List.replicate (x :: xs).length 0, ?_, ?_⟩
    · rw [hfirst x xs ((habsent (List.cons_ne_nil _ _) hrun).trans (hcleared x s₁ hgone).symm), heach,
        habsent (List.cons_ne_nil _ _) hrun]
    · rw [habsent (List.cons_ne_nil _ _) hrun, List.sum_replicate_nat, Nat.mul_zero]
      rfl
  · have hone : ∀ x s, Held s → (remove [x]).run (embedded time) s =
        (.integer (stepErase storageKey x s).1, settled key pre (stepErase storageKey x s).2) := by
      intro x s hs
      rw [hremove (List.cons_ne_nil _ _) (hprobe s hs) hs]
      simp only [foldSteps, List.sum_cons, List.sum_nil, Nat.add_zero]
    have hdrained : ∀ x s, Cleared time s key ∧ s.scan pre = [] → stepErase storageKey x s = (0, s) ∧
        (remove [x]).run (embedded time) (settled key pre s) = (.integer 0, settled key pre s) := by
      rintro x s ⟨-, hnil⟩
      have hnone : s[storageKey x]? = none := Store.scan_eq_nil_iff.mp hnil _ (hpre x)
      rw [stepErase, hnone, Store.erase_of_none hnone, settled, if_pos hnil]
      exact ⟨rfl, hcleared x _ (Store.noRecordOf_without s key).cleared⟩
    have heach := runEach_of_steps hone (fun s hs => if_neg (hne s hs)) hdrained herase (x :: xs) hheld
    have hsame : (remove [x]).run (embedded time) s = (remove [x]).run (embedded time) s₁ := by
      rw [hremove (List.cons_ne_nil _ _) hrun hheld,
        hremove (List.cons_ne_nil _ _) (hprobe s₁ hheld) hheld]
    rw [hfirst x xs hsame, heach, hremove (List.cons_ne_nil _ _) hrun hheld]
    exact ⟨_, rfl, rfl⟩

end Removing

end KVLite
