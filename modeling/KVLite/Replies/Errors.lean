import KVLite.Replies.LiveKeys

/-!
# Error replies

A command that replies with an error has changed what no key shows. Every command first
looks at the keys and parses its arguments, which can fail but changes nothing that is
live, and then writes, which cannot fail: after the first write no error is left to
report. The code that removes hash fields or set members looks at the key again after
its loop; it finds the records it knows, since a key has records of one kind. The code
that pops list items decodes them after they have been removed; items have no deadline
and decode.
-/

namespace KVLite

open Semantics Fallible BigEndian Redis TypedMap

/-- The reply is an error. -/
def Redis.Resp.IsError : Resp → Prop
  | .errorString _ => True
  | _ => False

/-! ### Code that cannot fail -/

/-- On an engine that does not fail, the code does not fail. -/
def Infallible {α : Type} (x : Action α) : Prop :=
  ∀ times s, Ensures (embeddedAt times) x s (fun _ _ => True) (fun _ _ => False)

section Infallible

variable {α β : Type} {x : Action α} {f : α → Action β} {key : Bytes}

theorem Infallible.pure (value : α) : Infallible (pure value) := fun _ _ => trivial

theorem Infallible.bind (hx : Infallible x) (hf : ∀ value, Infallible (f value)) :
    Infallible (x >>= f) := by
  intro times s
  rw [ensures_bind]
  exact (hx times s).mono (fun value s' _ => hf value times s') fun _ _ h => h

theorem Infallible.ite {p : Prop} [Decidable p] {y : Action α} (hx : Infallible x)
    (hy : Infallible y) : Infallible (if p then x else y) := by
  split
  · exact hx
  · exact hy

theorem wp_trivial (times : ℤ → Prop) (p : Program Calls α) (s : Store) :
    p.wp (embeddedAt times) (fun _ _ => True) s := by
  induction p generalizing s with
  | done value => trivial
  | call request rest ih =>
    cases request with
    | now => exact fun time _ => ih time s
    | _ => exact ih _ _

theorem infallible_ignoringError (x : Action α) : Infallible (ignoringError x) := fun times s =>
  ensures_ignoringError (Program.wp_mono (fun result _ _ => by cases result <;> trivial)
    (wp_trivial times (ExceptT.run x) s))

theorem infallible_now : Infallible now := fun _ _ _ _ => trivial

theorem infallible_get (key : Bytes) : Infallible (Transport.get key) := fun _ _ => trivial

theorem infallible_put (key data : Bytes) : Infallible (Transport.put key data) :=
  fun _ _ => trivial

theorem infallible_delete (key : Bytes) : Infallible (Transport.delete key) := fun _ _ => trivial

theorem infallible_deleteEach (keys : List Bytes) : Infallible (Transport.deleteEach keys) :=
  fun _ _ => ensures_deleteEach trivial

theorem infallible_scanAll (pre : Bytes) : Infallible (Transport.scanAll pre) :=
  fun _ _ => ensures_scanAll.mpr trivial

theorem infallible_redisDeleteRaw (key : Bytes) : Infallible (redisDeleteRaw key) := fun _ _ =>
  ensures_redisDeleteRaw fun _ => trivial

theorem infallible_deadlineAfter (ttl : ℤ) : Infallible (deadlineAfter ttl) :=
  .ite (infallible_now.bind fun _ => .pure _) (.pure _)

theorem infallible_putPayload (storageKey payload : Bytes) (ttl : ℤ) :
    Infallible (putPayload storageKey Redis.bytesCodec payload ttl) :=
  (infallible_deadlineAfter ttl).bind fun _ => infallible_put _ _

theorem infallible_redisWriteString (key value : Bytes) (expiresAt : ℤ) :
    Infallible (redisWriteString key value expiresAt) :=
  .ite ((infallible_putPayload _ _ _).bind fun _ => infallible_delete _)
    (infallible_now.bind fun _ => .ite ((infallible_redisDeleteRaw key).bind fun _ => .pure _)
      (infallible_putPayload _ _ _))

theorem infallible_redisDeleteAndWriteString (key value : Bytes) (expiresAt : ℤ) :
    Infallible (redisDeleteAndWriteString key value expiresAt) :=
  (infallible_redisDeleteRaw key).bind fun _ => infallible_redisWriteString _ _ _

theorem infallible_redisMSetLoop (pairs : List (Bytes × Bytes)) :
    Infallible (redisMSetLoop pairs) := by
  induction pairs with
  | nil => exact .pure _
  | cons pair pairs ih => exact (infallible_redisDeleteAndWriteString _ _ _).bind fun _ => ih

theorem infallible_redisWriteStrings (pairs : List (Bytes × Bytes)) :
    Infallible (redisWriteStrings pairs) := by
  induction pairs with
  | nil => exact .pure _
  | cons pair pairs ih => exact (infallible_redisWriteString _ _ _).bind fun _ => ih

theorem infallible_redisDeleteLoop (count : ℕ) (keys : List Bytes) :
    Infallible (redisDeleteLoop count keys) := by
  induction keys generalizing count with
  | nil => exact .pure _
  | cons key keys ih => exact (infallible_redisDeleteRaw key).bind fun _ => .ite (ih _) (ih _)

theorem infallible_redisHSetLoop (added : ℕ) (pairs : List (Bytes × Bytes)) :
    Infallible (redisHSetLoop key added pairs) := by
  induction pairs generalizing added with
  | nil => exact .pure _
  | cons pair pairs ih =>
    exact (infallible_get _).bind fun _ => (infallible_putPayload _ _ _).bind fun _ => ih _

theorem infallible_redisSAddLoop (added : ℕ) (members : List Bytes) :
    Infallible (redisSAddLoop key added members) := by
  induction members generalizing added with
  | nil => exact .pure _
  | cons member members ih =>
    refine (infallible_get _).bind fun found => ?_
    cases found with
    | some _ => exact ih _
    | none => exact (infallible_put _ _).bind fun _ => ih _

theorem infallible_redisWriteList (items : List Bytes) : Infallible (redisWriteList key items) :=
  .ite ((infallible_redisDeleteRaw key).bind fun _ => .pure _) (infallible_put _ _)

theorem infallible_liftExcept {result : Except GoError α} {value : α} (h : result = .ok value) :
    Infallible (liftExcept result) := by
  subst h
  exact .pure _

theorem Infallible.succeeds {times : ℤ → Prop} {J : Store → Prop} (hx : Infallible x) :
    Fallible.Succeeds (embeddedAt times) J (fun _ => False) x :=
  fun s _ => (hx times s).mono (fun _ _ _ h => h) fun _ _ h => h

/-- Code that ends with a reply that is not an error, and cannot fail before. -/
theorem Infallible.replies {f : α → Action Resp} {times : ℤ → Prop} {J : Store → Prop}
    (hx : Infallible x)
    (hf : ∀ value, Fallible.Succeeds (embeddedAt times) (fun _ => True) Resp.IsError (f value)) :
    Fallible.Succeeds (embeddedAt times) J Resp.IsError (x >>= f) :=
  .bind_of_ensures (K := fun _ _ => True) (fun s _ => hx times s) hf

end Infallible

/-! ### Code that only looks -/

/-- At the clock reading, the code changes what no key shows. -/
abbrev Looks {α : Type} (time : ℤ) (s₀ : Store) (x : Action α) : Prop :=
  Fallible.Keeps (embeddedAt (· = time)) (Unchanged time s₀) x

/-- At the clock reading, the code changes what no key shows if it fails. -/
abbrev FailsUnchanged {α : Type} (time : ℤ) (s₀ : Store) (Failure : α → Prop) (x : Action α) :
    Prop :=
  Fallible.FailSafe (embeddedAt (· = time)) (Unchanged time s₀) (Unchanged time s₀) Failure x

/-- At the clock reading, the code changes what no key shows if it replies with an error. -/
abbrev ErrorSafe (time : ℤ) (s₀ : Store) (x : Action Resp) : Prop :=
  FailsUnchanged time s₀ Resp.IsError x

section Looks

variable {α : Type} {time : ℤ} {s₀ : Store} (key : Bytes)

variable {key} in
theorem looks_of_visits {x : Action α} (hx : Visits time key (ExceptT.run x)) :
    Looks time s₀ x := by
  intro s hs
  refine wp_embeddedAt_eq_iff.mpr ?_
  have hs' := hs.visit hx
  split <;> exact hs'

theorem looks_of_reading {x : Action α} (hx : Reading x) : Looks time s₀ x :=
  looks_of_visits (Visits.of_reading hx : Visits time [] (ExceptT.run x))

theorem looks_liftExcept (result : Except GoError α) : Looks time s₀ (liftExcept result) :=
  looks_of_reading trivial

theorem looks_get : Looks time s₀ (Transport.get key) := looks_of_reading (Reading.get key)

theorem looks_now : Looks time s₀ now := looks_of_reading ⟨trivial, fun _ => trivial⟩

theorem looks_unixNano : Looks time s₀ unixNano := looks_now.bind fun _ => .pure _

theorem looks_redisType : Looks time s₀ (redisType key) :=
  looks_of_visits (probesFirst_redisType key).visits

theorem looks_redisString : Looks time s₀ (redisString key) :=
  looks_of_visits (probesFirst_redisString key).visits

theorem looks_redisExpiry : Looks time s₀ (redisExpiry key) :=
  looks_of_visits (probesFirst_redisExpiry key).visits

theorem looks_redisHashField (field : Bytes) : Looks time s₀ (redisHashField key field) :=
  looks_of_visits (probesFirst_redisHashField key field).visits

/-- Reading a list. -/
theorem ensures_redisListValues_unchanged (s : Store) (hs : Unchanged time s₀ s) :
    Ensures (embeddedAt (· = time)) (redisListValues key) s
      (fun items s' => Unchanged time s₀ s' ∧ PlainItems items) (fun _ => Unchanged time s₀) :=
  ensures_redisListValues_plain (fun _ hs => hs.records) (looks_redisType key) s hs

theorem looks_redisListValues : Looks time s₀ (redisListValues key) := fun s hs =>
  (ensures_redisListValues_unchanged key s hs).mono (fun _ _ h => h.1) fun _ _ h => h

theorem looks_redisAllAbsent (pairs : List (Bytes × Bytes)) :
    Looks time s₀ (redisAllAbsent pairs) := by
  induction pairs with
  | nil => exact .pure _
  | cons pair pairs ih => exact (looks_redisType _).bind fun _ => .ite (.pure _) ih

theorem looks_redisLogicalKeys (go : GoRuntime) : Looks time s₀ (redisLogicalKeys go) := by
  refine (looks_of_reading ?_).bind fun records => ?_
  · exact Fallible.Uses.bind (x := Transport.scanPrefix []) (Fallible.Uses.bind (x := ensureOpen)
      ⟨trivial, fun _ => trivial⟩ fun _ => ⟨trivial, fun _ => trivial⟩) fun scanned => by
        obtain ⟨records, err⟩ := scanned
        cases err <;> trivial
  · refine Fallible.Keeps.bind ?_ fun _ => .pure _
    induction go.rangeOrder (records.filterMap fun record => logicalKeyFromStorage record.1).dedup with
    | nil => exact .pure _
    | cons key candidates ih => exact (looks_redisType key).bind fun _ => ih.bind fun _ => .pure _

theorem looks_redisMGetLoop (keys : List Bytes) : Looks time s₀ (redisMGetLoop keys) := by
  induction keys with
  | nil => exact .pure _
  | cons key keys ih => exact (looks_redisString key).bind fun _ => ih.bind fun _ => .pure _

theorem looks_redisExistsLoop (count : ℕ) (keys : List Bytes) :
    Looks time s₀ (redisExistsLoop count keys) := by
  induction keys generalizing count with
  | nil => exact .pure _
  | cons key keys ih => exact (looks_redisType key).bind fun _ => .ite (ih _) (ih _)

theorem reading_redisSetDeadline (option amount : Bytes) :
    Reading (redisSetDeadline option amount) :=
  Fallible.Uses.bind trivial fun _ => .ite trivial <| .ite trivial <|
    Fallible.Uses.bind (x := unixNano) ⟨trivial, fun _ => trivial⟩ fun _ => .ite trivial trivial

theorem reading_redisSetOptions (go : GoRuntime) (options : SetOptions) (args : List Bytes) :
    Reading (redisSetOptions go options args) := by
  fun_induction redisSetOptions go options args <;>
    first
      | trivial
      | assumption
      | exact (reading_redisSetDeadline _ _).bind (by assumption)

theorem reading_redisGetExChange (go : GoRuntime) (rest : List Bytes) :
    Reading (redisGetExChange go rest) := by
  unfold redisGetExChange
  split
  · trivial
  · trivial
  · split
    · trivial
    · refine .ite trivial (.ite trivial ?_)
      refine Fallible.Uses.bind (x := now) ⟨trivial, fun _ => trivial⟩ fun _ => ?_
      split <;> trivial
  · trivial

end Looks

/-! ### Strings and deadlines -/

section Strings

variable {time : ℤ} {s₀ : Store} (key : Bytes)

theorem failsUnchanged_putPayload (storageKey codec payload : Bytes) (ttl : ℤ) :
    FailsUnchanged time s₀ (fun _ => False) (putPayload storageKey codec payload ttl) := by
  refine .bind (looks_of_reading ?_) fun _ => .bind (looks_liftExcept _) fun _ => ?_
  · exact .ite (Fallible.Uses.bind (x := now) ⟨trivial, fun _ => trivial⟩ fun _ => trivial) trivial
  · exact .of_succeeds (infallible_put _ _).succeeds

theorem failsUnchanged_redisWriteStringWithCodec (payload codec : Bytes) (expiresAt : ℤ) :
    FailsUnchanged time s₀ (fun _ => False)
      (redisWriteStringWithCodec key payload codec expiresAt) := by
  refine .ite (.bind_succeeds (failsUnchanged_putPayload _ _ _ _) fun _ =>
    (infallible_delete _).succeeds)
    (.bind looks_now fun _ => .ite ?_ (failsUnchanged_putPayload _ _ _ _))
  exact .of_succeeds ((infallible_redisDeleteRaw key).bind fun _ => .pure _).succeeds

theorem failsUnchanged_redisSetExpiry (expiresAt : ℤ) :
    FailsUnchanged time s₀ (fun _ => False) (redisSetExpiry key expiresAt) := by
  refine .bind (looks_redisType key) fun typ => .ite (.pure _) ?_
  refine .bind looks_unixNano fun _ => .ite ?_ (.ite ?_ ?_)
  · exact .of_succeeds ((infallible_redisDeleteRaw key).bind fun _ => .pure _).succeeds
  · refine .bind (looks_get _) fun found => ?_
    cases found with
    | none => exact .pure _
    | some data =>
      refine .bind (looks_liftExcept _) fun value =>
        .bind_succeeds (failsUnchanged_redisWriteStringWithCodec _ _ _ _) fun _ => ?_
      exact ((infallible_ignoringError _).bind fun _ => .pure _).succeeds
  · exact .of_succeeds ((infallible_put _ _).bind fun _ => .pure _).succeeds

theorem failsUnchanged_redisPersist :
    FailsUnchanged time s₀ (fun _ => False) (redisPersist key) := by
  refine .bind (looks_redisType key) fun typ => .ite (.pure _) ?_
  refine .bind (looks_redisExpiry key) fun deadline => ?_
  cases deadline with
  | none => exact .pure _
  | some _ =>
    refine .ite (.bind (looks_get _) fun found => ?_) ?_
    · cases found with
      | none => exact .pure _
      | some data =>
        exact .bind (looks_liftExcept _) fun value =>
          .bind_succeeds (failsUnchanged_putPayload _ _ _ _) fun _ => .pure not_false
    · exact .of_succeeds ((infallible_delete _).bind fun _ => .pure _).succeeds

theorem errorSafe_redisSetWith (value : Bytes) (options : SetOptions) :
    ErrorSafe time s₀ (redisSetWith key value options) := by
  refine .bind (looks_redisType key) fun typ => .ite (.pure _) (.ite (.pure _) ?_)
  -- The old value is a bulk or null reply.
  have hold : ∀ s, Unchanged time s₀ s → Ensures (embeddedAt (· = time))
      (redisSetOld key options typ) s
      (fun old s' => Unchanged time s₀ s' ∧ ¬ old.IsError) (fun _ => Unchanged time s₀) := by
    intro s hs
    unfold redisSetOld
    split
    · rw [ensures_bind]
      refine (looks_redisString key s hs).mono (fun value s' hs' => ?_) fun _ _ h => h
      cases value <;> exact ⟨hs', not_false⟩
    · exact ⟨hs, not_false⟩
  refine .bind_of_ensures hold fun old => ?_
  refine .bind_of_ensures (K := fun _ _ => ¬ old.IsError) (fun s hs => ?_) fun expiresAt s hs => ?_
  · unfold redisSetExpiresAt
    split
    · rw [ensures_bind]
      exact (looks_redisExpiry key s hs.1).mono (fun _ _ _ => hs.2) fun _ _ h => h
    · exact hs.2
  · rw [ensures_bind]
    refine (infallible_redisDeleteAndWriteString key value expiresAt _ s).mono (fun _ s' _ => ?_)
      fun _ _ => False.elim
    refine (ensures_pure _).mpr fun herror => absurd herror ?_
    split
    · exact hs
    · exact not_false

theorem errorSafe_redisIncrementBig (delta : ℤ) :
    ErrorSafe time s₀ (redisIncrementBig key delta) := by
  refine .bind (looks_redisString key) fun value => ?_
  dsimp only
  split
  · exact .pure _
  · refine .ite (.pure _) (.bind (looks_redisExpiry key) fun _ => .of_succeeds ?_)
    exact (infallible_redisWriteString _ _ _).replies fun _ => .pure not_false

end Strings

/-! ### Hashes and sets -/

section Collections

variable {time : ℤ} {s₀ : Store} (key : Bytes)

/-- The key has records of no other kind, and its deadline is ahead. -/
structure Sole (time : ℤ) (key : Bytes) (kind : Kind) (s : Store) : Prop where
  records : RedisStore s
  ahead : TTLAhead time s key
  only : Only s key kind

variable {key} in
theorem Sole.erase {kind : Kind} {s : Store} (h : Sole time key kind s) (storageKey : Bytes) :
    Sole time key kind (s.erase storageKey) where
  records := h.records.erase storageKey
  ahead data hget := by
    exact h.ahead data (Store.getElem?_of_erase hget)
  only kind' hne hkind := h.only kind' hne hkind.of_erase

/-- A probe that finds a hash or a set finds nothing else. -/
theorem ensures_redisType_sole (s : Store) (hs : Unchanged time s₀ s) :
    Ensures (embeddedAt (· = time)) (redisType key) s
      (fun typ s' => Unchanged time s₀ s' ∧ (typ = .hash → Sole time key .hash s') ∧
        (typ = .set → Sole time key .set s')) (fun _ => Unchanged time s₀) := by
  have hfits : Ensures (embeddedAt (· = time)) (redisType key) s
      (fun typ s' => FitsType s' key typ) (fun _ => OneKind) := ensures_redisType hs.oneKind
  have hahead : Ensures (embeddedAt (· = time)) (redisType key) s
      (fun typ s' => typ ≠ .none → TTLAhead time s' key) (fun _ _ => True) := by
    by_cases hpassed : TTLPassed time s key
    · refine wp_embeddedAt_eq_iff.mpr ?_
      rw [program_run, run_redisType_of_passed hpassed]
      exact fun hne => absurd rfl hne
    · refine (ensures_of_writesNothing (I := fun s => TTLAhead time s key) (fun s r h => ?_)
        (uses_redisType key) (hs.records.ttlAhead hpassed)).mono (fun _ _ h _ => h)
          fun _ _ _ => trivial
      intro data hget
      exact h data (Store.getElem?_of_erase hget)
  refine (ensures_and (looks_redisType key s hs) (ensures_and hfits hahead)).mono ?_
    fun _ _ h => h.1
  rintro typ s' ⟨hs', hfits, hahead⟩
  refine ⟨hs', ?_, ?_⟩
  · rintro rfl
    exact ⟨hs'.records, hahead (by decide), (hfits .hash rfl).only⟩
  · rintro rfl
    exact ⟨hs'.records, hahead (by decide), (hfits .set rfl).only⟩

variable {key} {s : Store}

theorem Sole.no_value {kind : Kind} (h : Sole time key kind s) (hkind : kind ≠ .value) :
    s[valueKey key]? = none := by
  cases hget : s[valueKey key]? with
  | none => rfl
  | some data => exact absurd ⟨_, data, rfl, hget⟩ (h.only .value hkind.symm)

theorem Sole.no_list {kind : Kind} (h : Sole time key kind s) (hkind : kind ≠ .list) :
    s[listKey key]? = none := by
  cases hget : s[listKey key]? with
  | none => rfl
  | some data => exact absurd ⟨_, data, rfl, hget⟩ (h.only .list hkind.symm)

theorem Sole.no_fields {kind : Kind} (h : Sole time key kind s) (hkind : kind ≠ .hash) :
    fieldRecords s key = [] := by
  refine Store.scan_eq_nil_iff.mpr fun storageKey hpre => ?_
  cases hget : s[storageKey]? with
  | none => rfl
  | some data => exact absurd ⟨storageKey, data, hpre, hget⟩ (h.only .hash hkind.symm)

theorem Sole.no_members {kind : Kind} (h : Sole time key kind s) (hkind : kind ≠ .set) :
    s.scan (namespacePrefix kindSet key) = [] := by
  refine Store.scan_eq_nil_iff.mpr fun storageKey hpre => ?_
  cases hget : s[storageKey]? with
  | none => rfl
  | some data => exact absurd ⟨storageKey, data, hpre, hget⟩ (h.only .set hkind.symm)

/-- The probe of a key without fields: it finds members or nothing. -/
theorem Sole.run_redisType_of_no_fields {kind : Kind} (h : Sole time key kind s)
    (hvalue : kind ≠ .value) (hlist : kind ≠ .list) (hfields : fieldRecords s key = []) :
    run (embedded time) (redisType key) s =
      (.ok (if s.scan (namespacePrefix kindSet key) = [] then .none else .set), s) := by
  have hprobe : run (embedded time) (probeValue key) s = (.ok false, s) :=
    run_probeValue_of_none (h.no_value hvalue)
  have hhash := run_probeHash_of_nil time hfields
  split
  · next hset =>
    exact run_redisType_of_list h.ahead hprobe hhash hset (run_probeList_of_none (h.no_list hlist))
  · next hset => exact run_redisType_of_set h.ahead hprobe hhash hset

/-- A store of the commands has no expired field. -/
theorem RedisStore.withoutExpiredFields_eq (hs : RedisStore s) (time : ℤ) (key : Bytes) :
    withoutExpiredFields time s key = s := by
  refine Store.ext fun storageKey => getElem?_withoutExpiredFields_of_not fun data hpre hget => ?_
  have hmem : (storageKey, data) ∈ fieldRecords s key := Store.mem_scan.mpr ⟨hpre, hget⟩
  exact hs.field_live hmem time

theorem Sole.run_redisType_of_fields (h : Sole time key .hash s) (hfields : fieldRecords s key ≠ []) :
    run (embedded time) (redisType key) s = (.ok .hash, s) := by
  obtain ⟨record, hmem⟩ := List.exists_mem_of_ne_nil _ hfields
  rw [run_redisType_of_hash h.ahead (run_probeValue_of_none (h.no_value (by decide)))
    (run_probeHash_of_live (fun record hmem => h.records.field_decodes hmem)
      ⟨record, hmem, h.records.field_live hmem time⟩), h.records.withoutExpiredFields_eq]

/-- The second look at a hash does not fail. -/
theorem Sole.run_redisHashEntries (h : Sole time key .hash s) :
    ∃ entries s', run (embedded time) (redisHashEntries key) s = (.ok entries, s') := by
  unfold redisHashEntries
  by_cases hfields : fieldRecords s key = []
  · rw [run_bind_ok (h.run_redisType_of_no_fields (by decide) (by decide) hfields),
      if_pos (h.no_members (by decide))]
    exact ⟨_, _, rfl⟩
  · rw [run_bind_ok (h.run_redisType_of_fields hfields)]
    simp only
    rw [run_bind_ok Transport.run_scanAll,
      run_bind_ok (run_redisHashEntriesLoop_of_decodes
        fun record hmem => h.records.field_decodes hmem)]
    simp only
    rw [run_bind_ok (Transport.run_deleteEach _)]
    split
    · split
      · rw [run_bind_ok (run_ignoringError _)]
        exact ⟨_, _, rfl⟩
      · exact ⟨_, _, rfl⟩
    · exact ⟨_, _, rfl⟩

/-- The second look at a set does not fail. -/
theorem Sole.run_redisSetMembers (h : Sole time key .set s) :
    ∃ members s', run (embedded time) (redisSetMembers key) s = (.ok members, s') := by
  unfold redisSetMembers
  rw [run_bind_ok (h.run_redisType_of_no_fields (by decide) (by decide)
    (h.no_fields (by decide)))]
  by_cases hset : s.scan (namespacePrefix kindSet key) = []
  · rw [if_pos hset]
    exact ⟨_, _, rfl⟩
  · rw [if_neg hset]
    simp only
    rw [run_bind_ok Transport.run_scanAll]
    split
    · rw [run_bind_ok (run_ignoringError _)]
      exact ⟨_, _, rfl⟩
    · exact ⟨_, _, rfl⟩

theorem ensures_redisHDelLoop_sole (removed : ℕ) (fields : List Bytes) (s : Store)
    (hs : Sole time key .hash s) :
    Ensures (embeddedAt (· = time)) (redisHDelLoop key removed fields) s
      (fun _ => Sole time key .hash) (fun _ _ => False) := by
  induction fields generalizing removed s with
  | nil => exact hs
  | cons field fields ih =>
    unfold redisHDelLoop
    rw [ensures_bind, ensures_get]
    cases hget : s[hashKey key field]? with
    | none => exact ih removed s hs
    | some data =>
      obtain ⟨payload, rfl⟩ := (hs.records _ _ hget).field key field rfl
      dsimp only
      rw [unmarshalEnvelope_bytesRecord (by decide)]
      refine .seq ?_
      refine .seq (ensures_expiredNow fun expired => ?_)
      cases expired with
      | true =>
        refine .seq (ensures_ignoringError (ensures_delete.mpr ?_))
        exact ih _ _ (hs.erase _)
      | false =>
        exact .seq (ensures_delete.mpr (ih _ _ (hs.erase _)))

theorem ensures_redisSRemLoop_sole (removed : ℕ) (members : List Bytes) (s : Store)
    (hs : Sole time key .set s) :
    Ensures (embeddedAt (· = time)) (redisSRemLoop key removed members) s
      (fun _ => Sole time key .set) (fun _ _ => False) := by
  induction members generalizing removed s with
  | nil => exact hs
  | cons member members ih =>
    unfold redisSRemLoop
    rw [ensures_bind, ensures_get]
    cases s[setKey key member]? with
    | none => exact ih removed s hs
    | some data => exact .seq (ensures_delete.mpr (ih _ _ (hs.erase _)))

end Collections

/-! ### The commands -/

/-- At the clock reading, the program changes what no key shows if it replies with an error. -/
def ErrorKeeps (time : ℤ) (s₀ : Store) (p : Program Calls (Option Resp)) : Prop :=
  ∀ s, Unchanged time s₀ s → p.wp (embeddedAt (· = time))
    (fun reply s' => (∃ r, reply = some r ∧ r.IsError) → Unchanged time s₀ s') s

section Commands

variable {time : ℤ} {s₀ : Store} {args : List Bytes} {go : GoRuntime} {session : Session}

theorem ErrorKeeps.reply {x : Action Resp} (hx : ErrorSafe time s₀ x) :
    ErrorKeeps time s₀ (some <$> replying x) := by
  intro s hs
  rw [map_eq_pure_bind, Program.wp_bind, replying, Program.wp_bind]
  refine Program.wp_mono (fun result s' h => ?_) (hx s hs)
  cases result with
  | error err => exact fun _ => h
  | ok reply =>
    rintro ⟨_, ⟨⟩, herror⟩
    exact h herror

/-- A command that the store has no part in. -/
theorem ErrorKeeps.pure (reply : Option Resp) : ErrorKeeps time s₀ (pure reply) :=
  fun _ hs _ => hs

/-- The reading commands on one key. -/
theorem errorKeeps_reader {command : Command}
    (hread : (readKeys go time s₀ args command).isSome)
    (hlist : command ≠ .lrange ∧ command ≠ .llen)
    (hloop : command ≠ .mget ∧ command ≠ .existsKeys)
    (hkeyspace : command ≠ .keys ∧ command ≠ .scan ∧ command ≠ .dbsize) :
    ErrorKeeps time s₀ (redisCommand go session args command) := by
  obtain ⟨keys, hkeys⟩ := Option.isSome_iff_exists.mp hread
  intro s hs
  refine wp_embeddedAt_eq_iff.mpr fun _ => ?_
  have hprobes : ProbesKeys time (redisCommand go session args command) keys :=
    probesKeys_redisCommand hkeys hlist hloop hkeyspace
  cases hprobes with
  | none h =>
    rw [h s]
    exact hs
  | one h => exact hs.visit h.visits

theorem errorKeeps_redisScan : ErrorKeeps time s₀ (redisScan go args) := by
  have hlooks : Looks time s₀ (redisScanReply go args) := by
    unfold redisScanReply
    split
    · refine (looks_liftExcept _).bind fun _ => (looks_liftExcept _).bind fun options => ?_
      cases options with
      | none => exact .pure _
      | some options =>
        refine (looks_redisLogicalKeys go).bind fun keys => ?_
        split <;> exact .pure _
    · exact .pure _
  intro s hs
  refine (Program.wp_bind _ _ _ _).mpr (Program.wp_mono (fun result s' h => ?_) (hlooks s hs))
  cases result <;> exact fun _ => h

section Lists

variable (key : Bytes)

theorem errorSafe_redisPushValues (values : List Bytes) (left onlyIfExists : Bool) :
    ErrorSafe time s₀ (redisPushValues key values left onlyIfExists) := by
  refine .bind (looks_redisType key) fun typ => .ite (.throw _) (.ite (.pure _) ?_)
  refine .bind (looks_redisListValues key) fun items => .ite (.pure _) ?_
  refine .bind (looks_liftExcept _) fun encoded => .of_succeeds ?_
  refine (infallible_redisWriteList _).replies fun _ => .ite ?_
    (Fallible.Succeeds.pure not_false)
  exact (infallible_ignoringError _).replies fun _ => .pure not_false

/-- Code that reads a list, and whose reply may rely on the form of its items. -/
theorem errorSafe_redisListValues_bind {f : List Bytes → Action Resp}
    (hf : ∀ items, PlainItems items → ErrorSafe time s₀ (f items)) :
    ErrorSafe time s₀ (redisListValues key >>= f) :=
  .bind_of_ensures (ensures_redisListValues_unchanged key) fun items s hs => hf items hs.2 s hs.1

theorem errorSafe_redisPopOne (left : Bool) : ErrorSafe time s₀ (redisPopOne left key) := by
  refine errorSafe_redisListValues_bind key fun items hitems => ?_
  split
  · exact .pure _
  next hlength =>
  refine .of_succeeds ((infallible_redisWriteList _).replies fun _ =>
    infallible_now.replies fun now => ?_)
  -- The item that was removed is one of the list, so it decodes.
  have hmem : (splitPopped left 1 items).1.headD [] ∈ items := by
    have hsubset := (splitPopped_subset left 1 items).1
    cases hremoved : (splitPopped left 1 items).1 with
    | nil =>
      have hcount : (splitPopped left 1 items).1.length = 1 := by
        unfold splitPopped
        split <;> simp <;> omega
      rw [hremoved] at hcount
      cases hcount
    | cons item rest =>
      rw [hremoved] at hsubset
      exact hsubset List.mem_cons_self
  obtain ⟨payload, hpayload⟩ := hitems.redisItemPayload hmem now
  refine (infallible_liftExcept hpayload).replies fun payload => ?_
  cases payload <;> exact .pure not_false

theorem errorSafe_redisPopCount (left : Bool) (count : Bytes) :
    ErrorSafe time s₀ (redisPopCount left key count) := by
  refine errorSafe_redisListValues_bind key fun items hitems => .ite (.pure _) ?_
  split
  · exact .throw _
  · refine .ite (.pure _) (.of_succeeds ((infallible_redisWriteList _).replies fun _ =>
      infallible_now.replies fun now => ?_))
    obtain ⟨replies, hreplies⟩ :=
      (hitems.of_subset (splitPopped_subset left _ items).1).redisListReply now
    exact (infallible_liftExcept hreplies).replies fun _ => .pure not_false

end Lists

/-- A command that replies with an error has changed what no key shows. -/
theorem errorKeeps_redisCommand (command : Command) :
    ErrorKeeps time s₀ (redisCommand go session args command) := by
  cases command with
  | ping | echo | hello | select | client | commandInfo | role | readonly | readwrite | config
  | info => exact .pure _
  | get | strlen | type | ttl | pttl | hgetall | hlen | hkeys | hvals | smembers | scard
  | hget | hexists | sismember | hmget | smismember =>
    exact errorKeeps_reader (by simp only [readKeys]; split <;> rfl) (by simp) (by simp) (by simp)
  | mget =>
    apply ErrorKeeps.reply
    split
    · exact .bind (looks_redisMGetLoop _) fun _ => .pure _
    · exact .pure _
  | existsKeys =>
    apply ErrorKeeps.reply
    split
    · exact .bind (looks_redisExistsLoop _ _) fun _ => .pure _
    · exact .pure _
  | set =>
    apply ErrorKeeps.reply
    split
    · exact .bind (looks_of_reading (reading_redisSetOptions _ _ _)) fun _ =>
        errorSafe_redisSetWith _ _ _
    · exact .pure _
  | setnx =>
    apply ErrorKeeps.reply
    split
    · exact .bind (looks_redisType _) fun _ => .ite (.pure _) (.of_succeeds
        ((infallible_redisWriteString _ _ _).replies fun _ => .pure not_false))
    · exact .pure _
  | setex | psetex =>
    apply ErrorKeeps.reply
    split
    · split
      · exact .throw _
      · exact .ite (.throw _) (.bind looks_unixNano fun _ => .ite (.throw _) (.of_succeeds
          ((infallible_redisDeleteAndWriteString _ _ _).replies fun _ => .pure not_false)))
    · exact .pure _
  | getset =>
    apply ErrorKeeps.reply
    split
    · refine .bind (looks_redisString _) fun old => .of_succeeds
        ((infallible_redisDeleteAndWriteString _ _ _).replies fun _ => .pure ?_)
      cases old <;> exact not_false
    · exact .pure _
  | getdel =>
    apply ErrorKeeps.reply
    split
    · refine .bind (looks_redisString _) fun value => ?_
      cases value with
      | none => exact .pure _
      | some _ =>
        exact .of_succeeds ((infallible_redisDeleteRaw _).replies fun _ => .pure not_false)
    · exact .pure _
  | getex =>
    apply ErrorKeeps.reply
    split
    · refine .bind (looks_redisString _) fun value => ?_
      cases value with
      | none => exact .pure _
      | some value =>
        refine .bind (looks_of_reading (reading_redisGetExChange _ _)) fun change => ?_
        split
        · exact .pure _
        · exact .pure _
        · exact .bind_succeeds (failsUnchanged_redisPersist _) fun _ => .pure not_false
        · exact .bind_succeeds (failsUnchanged_redisSetExpiry _ _) fun _ => .pure not_false
    · exact .pure _
  | mset =>
    apply ErrorKeeps.reply
    split
    · exact .of_succeeds ((infallible_redisMSetLoop _).replies fun _ => .pure not_false)
    · exact .pure _
  | msetnx =>
    apply ErrorKeeps.reply
    split
    · exact .bind (looks_redisAllAbsent _) fun _ => .ite (.of_succeeds
        ((infallible_redisWriteStrings _).replies fun _ => .pure not_false)) (.pure _)
    · exact .pure _
  | append =>
    apply ErrorKeeps.reply
    split
    · refine .bind (looks_redisString _) fun old => .bind (looks_redisExpiry _) fun _ =>
        .of_succeeds ((infallible_redisWriteString _ _ _).replies fun _ => ?_)
      cases old <;> exact .pure not_false
    · exact .pure _
  | incr | decr =>
    apply ErrorKeeps.reply
    split
    · exact errorSafe_redisIncrementBig _ _
    · exact .pure _
  | incrby | decrby =>
    apply ErrorKeeps.reply
    split
    · exact .bind (looks_liftExcept _) fun _ => errorSafe_redisIncrementBig _ _
    · exact .pure _
  | del | unlink =>
    apply ErrorKeeps.reply
    split
    · exact .of_succeeds ((infallible_redisDeleteLoop _ _).replies fun _ => .pure not_false)
    · exact .pure _
  | expire | pexpire | expireat | pexpireat =>
    apply ErrorKeeps.reply
    split
    · exact .bind (looks_liftExcept _) fun _ => .bind looks_now fun _ =>
        .bind (looks_liftExcept _) fun _ => .bind_succeeds (failsUnchanged_redisSetExpiry _ _)
          fun _ => .ite (Fallible.Succeeds.pure not_false) (Fallible.Succeeds.pure not_false)
    · exact .pure _
  | persist =>
    apply ErrorKeeps.reply
    split
    · exact .bind_succeeds (failsUnchanged_redisPersist _) fun _ =>
        .ite (Fallible.Succeeds.pure not_false) (Fallible.Succeeds.pure not_false)
    · exact .pure _
  | hset | hmset =>
    apply ErrorKeeps.reply
    split
    · split
      · refine .bind (looks_redisType _) fun typ => .ite (.throw _) (.of_succeeds (.ite ?_ ?_))
        · exact (infallible_ignoringError _).replies fun _ =>
            (infallible_redisHSetLoop _ _).replies fun _ => .pure not_false
        · exact (infallible_redisHSetLoop _ _).replies fun _ => .pure not_false
      · exact .pure _
    · exact .pure _
  | hincrby =>
    apply ErrorKeeps.reply
    split
    · refine .bind (looks_liftExcept _) fun _ => .bind (looks_redisType _) fun typ =>
        .ite (.throw _) (.bind (looks_redisHashField _ _) fun found => ?_)
      dsimp only
      split
      · exact .pure _
      · exact .ite (.pure _) (.of_succeeds
          ((infallible_putPayload _ _ _).replies fun _ => .pure not_false))
    · exact .pure _
  | hdel =>
    apply ErrorKeeps.reply
    split
    · refine .bind_of_ensures (ensures_redisType_sole _) fun typ => ?_
      cases typ with
      | none => exact fun s hs _ => hs.1
      | hash =>
        -- The fields are read again once the loop has written. The key is a hash and nothing
        -- else then, which is what keeps this read from failing.
        refine .of_succeeds (.bind_of_ensures (K := fun _ => Sole time _ .hash)
          (fun s hs => ensures_redisHDelLoop_sole _ _ s (hs.2.1 rfl)) fun removed => ?_)
        refine .bind_of_ensures (K := fun _ _ => True) (fun s hs => ?_) fun entries =>
          .ite ((infallible_ignoringError _).replies fun _ => .pure not_false)
            (Fallible.Succeeds.pure not_false)
        obtain ⟨entries, s', hrun⟩ := hs.run_redisHashEntries
        refine wp_embeddedAt_eq_iff.mpr ?_
        rw [program_run, hrun]
        trivial
      | _ => exact fun s hs => hs.1
    · exact .pure _
  | sadd =>
    apply ErrorKeeps.reply
    split
    · refine .bind (looks_redisType _) fun typ => .ite (.throw _) (.of_succeeds (.ite ?_ ?_))
      · exact (infallible_ignoringError _).replies fun _ =>
          (infallible_redisSAddLoop _ _).replies fun _ => .pure not_false
      · exact (infallible_redisSAddLoop _ _).replies fun _ => .pure not_false
    · exact .pure _
  | srem =>
    apply ErrorKeeps.reply
    split
    · refine .bind_of_ensures (ensures_redisType_sole _) fun typ => ?_
      cases typ with
      | none => exact fun s hs _ => hs.1
      | set =>
        refine .of_succeeds (.bind_of_ensures (K := fun _ => Sole time _ .set)
          (fun s hs => ensures_redisSRemLoop_sole _ _ s (hs.2.2 rfl)) fun removed => ?_)
        refine .bind_of_ensures (K := fun _ _ => True) (fun s hs => ?_) fun members =>
          .ite ((infallible_ignoringError _).replies fun _ => .pure not_false)
            (Fallible.Succeeds.pure not_false)
        obtain ⟨members, s', hrun⟩ := hs.run_redisSetMembers
        refine wp_embeddedAt_eq_iff.mpr ?_
        rw [program_run, hrun]
        trivial
      | _ => exact fun s hs => hs.1
    · exact .pure _
  | lpush | rpush | lpushx | rpushx =>
    apply ErrorKeeps.reply
    split
    · exact errorSafe_redisPushValues _ _ _ _
    · exact .pure _
  | lrange =>
    apply ErrorKeeps.reply
    split
    · refine .bind (looks_liftExcept _) fun _ => .bind (looks_liftExcept _) fun _ =>
        .bind (looks_redisListValues _) fun _ => .ite (.bind looks_now fun _ => ?_) (.pure _)
      exact .bind (looks_liftExcept _) fun _ => .pure _
    · exact .pure _
  | llen =>
    apply ErrorKeeps.reply
    split
    · exact .bind (looks_redisListValues _) fun _ => .pure _
    · exact .pure _
  | lpop | rpop =>
    apply ErrorKeeps.reply
    split
    · exact errorSafe_redisPopOne _ _
    · exact errorSafe_redisPopCount _ _ _
    · exact .pure _
  | ltrim =>
    apply ErrorKeeps.reply
    split
    · refine .bind (looks_liftExcept _) fun _ => .bind (looks_liftExcept _) fun _ =>
        .bind (looks_redisListValues _) fun _ => .of_succeeds (.ite ?_ ?_)
      · exact (infallible_redisWriteList _).replies fun _ => .pure not_false
      · exact (infallible_redisDeleteRaw _).replies fun _ => .pure not_false
    · exact .pure _
  | scan => exact errorKeeps_redisScan
  | keys | dbsize =>
    apply ErrorKeeps.reply
    split
    · exact .bind (looks_redisLogicalKeys go) fun _ => .pure _
    · exact .pure _
  | flushdb | flushall =>
    apply ErrorKeeps.reply
    exact .ite (.pure _) (.of_succeeds ((infallible_scanAll _).replies fun _ =>
      (infallible_deleteEach _).replies fun _ => .pure not_false))
  | time => exact .reply (.bind looks_now fun _ => .pure _)

end Commands

section Requests

variable {go : GoRuntime} {password : Bytes} {clock : ℕ → ℤ}

/-- A request that replies with an error has changed what no key shows. -/
theorem Unchanged.redisDispatch {time : ℤ} {s₀ s : Store} (hs : Unchanged time s₀ s)
    (session : Session) (args : List Bytes)
    (herror : ∃ reply, ((redisDispatch go password session args).run (embedded time) s).1.reply =
      some reply ∧ reply.IsError) :
    Unchanged time s₀ ((redisDispatch go password session args).run (embedded time) s).2 := by
  have hcommands : ∀ command, (redisCommand go session args command).wp (embeddedAt (· = time))
      (fun reply s' => (∃ r, reply = some r ∧ r.IsError) → Unchanged time s₀ s') s :=
    fun command => errorKeeps_redisCommand command s hs
  exact wp_embeddedAt_eq_iff.mp
    (wp_dispatch_of_commands go password session (fun _ _ => hs) hcommands) herror

/-- In every store that requests reach from the empty store, and at every clock reading, a
request with any arguments that replies with an error leaves the live records of every key
as they were, and so its type, its content and its deadline. -/
theorem error_reply_changes_nothing {inputs : List Received}
    (hinputs : ∀ received ∈ inputs, Deliverable received.args) (tick : ℕ) (time : ℤ)
    (session : Session) (args : List Bytes)
    (herror : ∃ reply, ((redisDispatch go password session args).run (embedded time)
      (Machine.after (receive go password clock) inputs (tick, ∅)).2).1.reply = some reply ∧
        reply.IsError) (key : Bytes) :
    liveKey time ((redisDispatch go password session args).run (embedded time)
      (Machine.after (receive go password clock) inputs (tick, ∅)).2).2 key =
        liveKey time (Machine.after (receive go password clock) inputs (tick, ∅)).2 key := by
  obtain ⟨hrecords, hkinds⟩ := redisStore_reached hinputs tick
  exact (Unchanged.redisDispatch ⟨hrecords, hkinds, fun _ => rfl⟩ session args herror).live key

def setRequest : Received := ⟨⟨true, 1, 2⟩, [text "SET", text "k", text "v"]⟩

/-- `INCR` of a string that is not a number. -/
theorem incr_of_text_changes_nothing :
    (∃ reply, ((redisDispatch .upperCase [] ⟨true, 1, 2⟩ [text "INCR", text "k"]).run (embedded 5)
      (Machine.after (receive .upperCase [] fun _ => 0) [setRequest] (0, ∅)).2).1.reply =
        some reply ∧ reply.IsError) ∧
    liveKey 5 ((redisDispatch .upperCase [] ⟨true, 1, 2⟩ [text "INCR", text "k"]).run (embedded 5)
      (Machine.after (receive .upperCase [] fun _ => 0) [setRequest] (0, ∅)).2).2 (text "k") =
        liveKey 5 (Machine.after (receive .upperCase [] fun _ => 0) [setRequest] (0, ∅)).2
          (text "k") := by
  have hinputs : ∀ received ∈ [setRequest], Deliverable received.args := by
    intro received hmem
    rw [List.mem_singleton.mp hmem]
    exact (by decide : Deliverable setRequest.args)
  have herror : ∃ reply, ((redisDispatch .upperCase [] ⟨true, 1, 2⟩ [text "INCR", text "k"]).run
      (embedded 5) (Machine.after (receive .upperCase [] fun _ => 0) [setRequest]
        (0, ∅)).2).1.reply = some reply ∧ reply.IsError := ⟨_, rfl, trivial⟩
  exact ⟨herror, error_reply_changes_nothing hinputs 0 5 _ _ herror _⟩

end Requests

end KVLite
