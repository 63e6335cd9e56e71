import KVLite.Expiry.Crossing
import KVLite.Expiry.Undated
import KVLite.Keyspace.Reachable
import KVLite.Replies.Variadic

/-!
# The deadline of a new key

The expiry metadata of a collection is a record of its own. The core removes fields, members
and items without it, so it can outlive the collection: the key is absent and still has
metadata. A command that creates the key has to remove what is left, or the new data expires
with the old deadline.
-/

namespace KVLite

open Semantics Fallible BigEndian Redis

/-! ### Commands that create a key -/

/-- A command that creates keys that are absent. -/
inductive Creation
  | set (key value : Bytes) (options : List Bytes)
  | setNX (key value : Bytes)
  | getSet (key value : Bytes)
  | mSet (pairs : List (Bytes × Bytes))
  | mSetNX (pairs : List (Bytes × Bytes))
  | update (key : Bytes) (change : Expiry.InPlace)
  | hSet (key : Bytes) (pairs : List (Bytes × Bytes))
  | hIncrBy (key field amount : Bytes)
  | sAdd (key : Bytes) (members : List Bytes)
  | push (left : Bool) (key : Bytes) (values : List Bytes)

namespace Creation

def program (go : GoRuntime) : Creation → Program Calls Resp
  | set key value options => redisSet go (text "SET" :: key :: value :: options)
  | setNX key value => redisSetNX [text "SETNX", key, value]
  | getSet key value => redisGetSet [text "GETSET", key, value]
  | mSet pairs => mSetCommand pairs
  | mSetNX pairs => redisMSetNX (text "MSETNX" :: pairs.flatMap fun pair => [pair.1, pair.2])
  | update key change => change.program key
  | hSet key pairs => hSetCommand key pairs
  | hIncrBy key field amount => redisHIncrBy [text "HINCRBY", key, field, amount]
  | sAdd key members => sAddCommand key members
  | push left key values => pushCommand left key values

/-- The keys that the command creates. -/
def keys : Creation → List Bytes
  | mSet pairs | mSetNX pairs => pairs.map Prod.fst
  | set key _ _ | setNX key _ | getSet key _ | update key _ | hSet key _ | hIncrBy key _ _ |
    sAdd key _ | push _ key _ => [key]

/-- The names and values are such as the reader of a connection delivers. -/
def Deliverable : Creation → Prop
  | mSet pairs | mSetNX pairs => ∀ pair ∈ pairs, ShortName pair.1
  | push _ _ values => values.length ≤ maxRESPArgs ∧ ∀ value ∈ values, value.length ≤ maxRESPBulk
  | _ => True

/-- `SET` has no option for a deadline, and none that forbids it to create a key. -/
def Plain (go : GoRuntime) : Creation → Prop
  | set _ _ options => ∀ option ∈ options,
    go.toUpper option ∉ [text "EX", text "PX", text "EXAT", text "PXAT", text "XX"]
  | _ => True

/-- What the reply is when the keys have been created. -/
def Succeeds (reply : Resp) : Creation → Prop
  | mSetNX _ => reply = .integer 1
  | _ => ¬ reply.IsError

/-- `HINCRBY` on a key of which only expiry metadata is left, with a deadline that is ahead. -/
def Inherits (time : ℤ) (s : Store) : Creation → Prop
  | hIncrBy key _ _ => s[collectionTTLKey key]? ≠ none ∧ ¬ TTLPassed time s key ∧
    fieldRecords s key = [] ∧ s[listKey key]? = none
  | _ => False

end Creation

section Creating

variable {time : ℤ} {s s₁ : Store} {key : Bytes}

theorem Cleared.noRecordOf_erase (h : Cleared time s key) :
    NoRecordOf key (s.erase (collectionTTLKey key)) := by
  intro storageKey hrecord
  rw [Store.getElem?_erase]
  split
  · rfl
  · next hne => exact h.gone storageKey hrecord fun heq => hne heq.symm

/-- A string is written to a key that is absent. -/
theorem Cleared.undated_string (h : Cleared time s key) (payload : Bytes) :
    Undated ((s.insert (valueKey key) (bytesRecord payload 0)).erase (collectionTTLKey key)) key := by
  rw [Store.erase_insert_of_ne _ _ (valueKey_ne_collectionTTLKey _ _)]
  exact h.noRecordOf_erase.noDeadline.insert_value payload

theorem undated_afterMSet (pair : Bytes × Bytes) (s : Store) : Undated (afterMSet pair s) pair.1 := by
  have hcleared : Cleared 0 (s.without pair.1) pair.1 := (Store.noRecordOf_without s pair.1).cleared
  exact hcleared.undated_string pair.2

theorem run_redisSetOptions_plain {go : GoRuntime} {rest : List Bytes} (time : ℤ)
    (hplain : ∀ option ∈ rest,
      go.toUpper option ∉ [text "EX", text "PX", text "EXAT", text "PXAT", text "XX"])
    (options : SetOptions) (s : Store) :
    (∃ err, run (embedded time) (redisSetOptions go options rest) s = (.error err, s)) ∨
      ∃ options' : SetOptions,
        run (embedded time) (redisSetOptions go options rest) s = (.ok options', s) ∧
          options'.expiresAt = options.expiresAt ∧ options'.xx = options.xx := by
  induction rest generalizing options with
  | nil => exact .inr ⟨options, rfl, rfl, rfl⟩
  | cons option rest ih =>
    obtain ⟨hoption, hrest⟩ := List.forall_mem_cons.mp hplain
    simp only [List.mem_cons, List.not_mem_nil, or_false, not_or] at hoption
    obtain ⟨hex, hpx, hexat, hpxat, hxx⟩ := hoption
    rw [redisSetOptions.eq_def]
    dsimp only
    by_cases hnx : go.toUpper option = text "NX"
    · rw [if_pos hnx]
      by_cases hboth : options.xx = true
      · rw [if_pos hboth]
        exact .inl ⟨_, rfl⟩
      · rw [if_neg hboth]
        exact ih hrest _
    rw [if_neg hnx, if_neg hxx]
    by_cases hget : go.toUpper option = text "GET"
    · rw [if_pos hget]
      exact ih hrest _
    rw [if_neg hget]
    by_cases hkeep : go.toUpper option = text "KEEPTTL"
    · rw [if_pos hkeep]
      by_cases hexpiry : options.hasExpiry = true
      · rw [if_pos hexpiry]
        exact .inl ⟨_, rfl⟩
      · rw [if_neg hexpiry]
        exact ih hrest _
    rw [if_neg hkeep, if_neg (by simp [hex, hpx, hexat, hpxat])]
    exact .inl ⟨_, rfl⟩

theorem run_replacedString {value : Bytes} :
    run (embedded time) (redisDeleteAndWriteString key value 0) s₁ =
      (.ok (), afterMSet (key, value) s₁) :=
  (run_bind_ok run_redisDeleteRaw).trans run_redisWriteString_zero

/-- `SET` writes a string without a deadline. -/
theorem undated_set {go : GoRuntime} {value : Bytes} {options : List Bytes}
    (hplain : (Creation.set key value options).Plain go)
    (hnone : run (embedded time) (redisType key) s = (.ok .none, s₁))
    (hreply : ¬ (((Creation.set key value options).program go).run (embedded time) s).1.IsError) :
    Undated (((Creation.set key value options).program go).run (embedded time) s).2 key := by
  rcases run_redisSetOptions_plain time hplain {} s with ⟨err, hrun⟩ | ⟨parsed, hrun, hzero, hxx⟩
  · have herror : ((Creation.set key value options).program go).run (embedded time) s =
        (redisErrorReply err, s) := run_replying_error (run_bind_error hrun)
    rw [herror] at hreply
    exact absurd (isError_redisErrorReply err) hreply
  · have hold : run (embedded time) (redisSetOld key parsed .none) s₁ = (.ok .null, s₁) := by
      rw [redisSetOld, if_neg fun h => h.2 rfl]
      rfl
    have hexpires : run (embedded time) (redisSetExpiresAt key parsed .none) s₁ =
        (.ok 0, s₁) := by
      rw [redisSetExpiresAt, if_neg fun h => h.2.1 rfl, hzero]
      rfl
    have hcode : ((Creation.set key value options).program go).run (embedded time) s =
        (if parsed.get then .null else ok, afterMSet (key, value) s₁) := by
      refine run_replying ((run_bind_ok hrun).trans ?_)
      rw [redisSetWith, run_bind_ok hnone, if_neg fun h => h.2 rfl,
        if_neg (by rw [hxx]; exact fun h => Bool.false_ne_true h.1), run_bind_ok hold,
        run_bind_ok hexpires, run_bind_ok run_replacedString]
      rfl
    rw [hcode]
    exact undated_afterMSet (key, value) s₁

theorem undated_setNX {value : Bytes}
    (hnone : run (embedded time) (redisType key) s = (.ok .none, s₁)) :
    Undated ((redisSetNX [text "SETNX", key, value]).run (embedded time) s).2 key := by
  have hcode : (redisSetNX [text "SETNX", key, value]).run (embedded time) s = (.integer 1, _) :=
    run_replying ((run_bind_ok hnone).trans
      (run_bind_ok run_redisWriteString_zero))
  rw [hcode]
  exact (typeOutcome_of_run hnone).cleared.undated_string value

theorem run_redisString_of_none
    (hnone : run (embedded time) (redisType key) s = (.ok .none, s₁)) :
    run (embedded time) (redisString key) s = (.ok none, s₁) := by
  rw [redisString, run_bind_ok hnone]
  rfl

theorem undated_getSet {value : Bytes}
    (hnone : run (embedded time) (redisType key) s = (.ok .none, s₁)) :
    Undated ((redisGetSet [text "GETSET", key, value]).run (embedded time) s).2 key := by
  have hcode : (redisGetSet [text "GETSET", key, value]).run (embedded time) s =
      (bulkOrNull none, afterMSet (key, value) s₁) :=
    run_replying ((run_bind_ok (run_redisString_of_none hnone)).trans
      (run_bind_ok run_replacedString))
  rw [hcode]
  exact undated_afterMSet (key, value) s₁

/-- `APPEND` and the commands that count write a string without a deadline. -/
theorem undated_update {change : Expiry.InPlace}
    (hnone : run (embedded time) (redisType key) s = (.ok .none, s₁))
    (hreply : ¬ ((change.program key).run (embedded time) s).1.IsError) :
    Undated ((change.program key).run (embedded time) s).2 key := by
  have hcleared := (typeOutcome_of_run hnone).cleared
  cases hresult : change.result none with
  | none =>
    obtain ⟨message, s', hrun, -⟩ :=
      Expiry.InPlace.run_of_result_none hresult (run_redisString_of_none hnone)
    rw [hrun] at hreply
    exact absurd trivial hreply
  | some payload =>
    rw [Expiry.InPlace.run_of_result_some hresult (run_redisString_of_none hnone)
      hcleared.run_redisExpiry run_redisWriteString_zero]
    exact hcleared.undated_string payload

theorem undated_hSet {pairs : List (Bytes × Bytes)} (hne : pairs ≠ [])
    (hnone : run (embedded time) (redisType key) s = (.ok .none, s₁)) :
    Undated ((hSetCommand key pairs).run (embedded time) s).2 key := by
  have hopens : Opens time s key .hash (s₁.erase (collectionTTLKey key)) := .absent hnone
  rw [hopens.run_hSet hne]
  obtain ⟨pair, pairs, rfl⟩ := List.exists_cons_of_ne_nil hne
  have hfirst := (typeOutcome_of_run hnone).cleared.noRecordOf_erase.noDeadline.insert_field
    pair.1 pair.2
  exact foldSteps_induct (P := fun s => Undated s key)
    (fun pair s hs => hs.toNoDeadline.insert_field pair.1 pair.2) pairs hfirst

theorem undated_stepSAdd (member : Bytes) (h : NoDeadline s key) :
    Undated (stepSAdd key member s).2 key := by
  rw [stepSAdd]
  cases hget : s[setKey key member]? with
  | none => exact h.insert_member member
  | some data =>
    refine ⟨h, fun hnone => ?_⟩
    rw [hnone _ (.inr (.inr (.inr (.inr (namespacePrefix_isPrefix_iff.mpr ⟨member, rfl⟩)))))] at hget
    cases hget

theorem undated_sAdd {members : List Bytes} (hne : members ≠ [])
    (hnone : run (embedded time) (redisType key) s = (.ok .none, s₁)) :
    Undated ((sAddCommand key members).run (embedded time) s).2 key := by
  have hopens : Opens time s key .set (s₁.erase (collectionTTLKey key)) := .absent hnone
  rw [hopens.run_sAdd hne]
  obtain ⟨member, members, rfl⟩ := List.exists_cons_of_ne_nil hne
  have hfirst := undated_stepSAdd member (typeOutcome_of_run hnone).cleared.noRecordOf_erase.noDeadline
  exact foldSteps_induct (P := fun s => Undated s key)
    (fun member s hs => undated_stepSAdd member hs.toNoDeadline) members hfirst

theorem undated_push {left : Bool} {values : List Bytes} (hne : values ≠ [])
    (hw : (Creation.push left key values).Deliverable)
    (hnone : run (embedded time) (redisType key) s = (.ok .none, s₁)) :
    Undated ((pushCommand left key values).run (embedded time) s).2 key := by
  obtain ⟨hcount, hvalues⟩ := hw
  have hcleared := (typeOutcome_of_run hnone).cleared
  have hread : run (embedded time) (redisListValues key) s = (.ok [], s₁) := by
    rw [← run_redisListValues_of_probed hnone (.inl rfl), hcleared.run_redisListValues]
  have hplain := plainItems_itemRecords hvalues
  have hmem : ∀ item ∈ TypedMap.pushed left [] (TypedMap.itemRecords values), item ∈ TypedMap.itemRecords values := by
    intro item hmem
    cases left <;> simpa [TypedMap.pushed] using hmem
  have hlength : (TypedMap.pushed left [] (TypedMap.itemRecords values)).length = values.length := by
    rw [length_pushed, List.length_map, List.length_nil, Nat.zero_add]
  rw [run_push left hread hne, afterPush, if_pos rfl]
  refine hcleared.noRecordOf_erase.noDeadline.insert_list (decodeList_encodeList ?_ ?_) ?_ ?_
  · have hbound : maxRESPArgs < 2 ^ 32 := by decide
    omega
  · exact fun item hitem => hplain.short item (hmem item hitem)
  · rw [← List.length_pos_iff, hlength]
    exact List.length_pos_iff.mpr hne
  · intro item hitem
    obtain ⟨payload, rfl⟩ := hplain.undated item (hmem item hitem)
    exact undatedRecord_bytesRecord payload

/-! Several strings at once -/

/-- The key has no deadline but perhaps expiry metadata. -/
def Writable (s : Store) (key : Bytes) : Prop := NoDeadline (s.erase (collectionTTLKey key)) key

theorem Undated.writable (h : Undated s key) : Writable s key := by
  rw [Writable, Store.erase_of_none h.no_metadata]
  exact h.toNoDeadline

theorem Writable.undated_string (h : Writable s key) (payload : Bytes) :
    Undated ((s.insert (valueKey key) (bytesRecord payload 0)).erase (collectionTTLKey key)) key := by
  rw [Store.erase_insert_of_ne _ _ (valueKey_ne_collectionTTLKey _ _)]
  exact h.insert_value payload

theorem Writable.congr (h : Writable s key)
    (hsame : ∀ storageKey, RecordOf key storageKey → s₁[storageKey]? = s[storageKey]?) :
    Writable s₁ key := by
  refine NoDeadline.congr h fun storageKey hrecord => ?_
  rw [Store.getElem?_erase, Store.getElem?_erase, hsame storageKey hrecord]

/-- Strings are written one after the other; each key is written at least once, and the others
leave it alone. -/
theorem undated_foldl {write : Bytes × Bytes → Store → Store} {Ready : Store → Prop}
    (hkey : ShortName key) (hwrite : ∀ value s, Ready s → Undated (write (key, value) s) key)
    (hready : ∀ s, Undated s key → Ready s)
    (hcongr : ∀ s s', Ready s →
      (∀ storageKey, RecordOf key storageKey → s'[storageKey]? = s[storageKey]?) → Ready s')
    (helsewhere : ∀ pair s, SameElsewhere pair.1 s (write pair s)) {pairs : List (Bytes × Bytes)}
    (hshort : ∀ pair ∈ pairs, ShortName pair.1)
    (h : Undated s key ∨ Ready s ∧ key ∈ pairs.map Prod.fst) :
    Undated (pairs.foldl (fun s pair => write pair s) s) key := by
  induction pairs generalizing s with
  | nil =>
    rcases h with h | ⟨-, hmem⟩
    · exact h
    · cases hmem
  | cons pair pairs ih =>
    rw [List.forall_mem_cons] at hshort
    refine ih hshort.2 ?_
    by_cases heq : pair.1 = key
    · obtain ⟨name, value⟩ := pair
      obtain rfl : name = key := heq
      exact .inl (hwrite value s (h.elim (hready s) And.left))
    · have hsame : ∀ storageKey, RecordOf key storageKey → (write pair s)[storageKey]? = s[storageKey]? :=
        fun storageKey => (helsewhere pair s).getElem?_of_ne hshort.1 hkey heq
      rcases h with h | ⟨h, hmem⟩
      · exact .inl (h.congr hsame)
      · exact .inr ⟨hcongr _ _ h hsame, (List.mem_cons.mp hmem).resolve_left fun hhead => heq hhead.symm⟩

theorem undated_mSet {pairs : List (Bytes × Bytes)} (hshort : ∀ pair ∈ pairs, ShortName pair.1)
    (hmem : key ∈ pairs.map Prod.fst) : Undated ((mSetCommand pairs).run (embedded time) s).2 key := by
  have hkey : ShortName key := by
    obtain ⟨pair, hpair, rfl⟩ := List.mem_map.mp hmem
    exact hshort pair hpair
  have hne : pairs ≠ [] := by
    rintro rfl
    cases hmem
  rw [run_mSet hne]
  have hwrite : ∀ value s, True → Undated (afterMSet (key, value) s) key :=
    fun value s _ => undated_afterMSet (key, value) s
  refine undated_foldl hkey hwrite (fun _ _ => trivial) (fun _ _ _ _ => trivial)
    (fun pair s => ?_) hshort (.inr ⟨trivial, hmem⟩)
  exact ((SameElsewhere.refl pair.1 s).without.insert (.inl rfl)).erase (.inr (.inr (.inl rfl)))

/-- Every key was found absent, and is. -/
theorem cleared_of_redisAllAbsent {pairs : List (Bytes × Bytes)}
    (hrun : run (embedded time) (redisAllAbsent pairs) s = (.ok true, s₁))
    (hmem : key ∈ pairs.map Prod.fst) : Cleared time s₁ key := by
  induction pairs generalizing s with
  | nil => cases hmem
  | cons pair pairs ih =>
    obtain ⟨name, value⟩ := pair
    rw [redisAllAbsent] at hrun
    obtain ⟨typ, mid, htype, hrest⟩ := exists_of_run_bind_eq_ok hrun
    by_cases hnone : typ = .none
    swap
    · rw [if_pos hnone] at hrest
      cases hrest
    rw [if_neg (not_not_intro hnone)] at hrest
    subst hnone
    rcases List.mem_cons.mp hmem with rfl | hmem
    · have hkeeps : Fallible.Keeps (embeddedAt (· = time)) (fun s => Cleared time s key)
          (redisAllAbsent pairs) := fun s hs =>
        ensures_of_writesNothing (fun _ _ h => h.erase) (uses_redisAllAbsent pairs) hs
      have hkept := run_of_keeps hkeeps (typeOutcome_of_run htype).cleared
      rwa [hrest] at hkept
    · exact ih hrest hmem

/-- `MSETNX` writes the strings of keys that are absent. -/
theorem undated_mSetNX {pairs : List (Bytes × Bytes)} (hshort : ∀ pair ∈ pairs, ShortName pair.1)
    (hmem : key ∈ pairs.map Prod.fst) {go : GoRuntime}
    (hreply : (((Creation.mSetNX pairs).program go).run (embedded time) s).1 = .integer 1) :
    Undated (((Creation.mSetNX pairs).program go).run (embedded time) s).2 key := by
  have hkey : ShortName key := by
    obtain ⟨pair, hpair, rfl⟩ := List.mem_map.mp hmem
    exact hshort pair hpair
  have hloop : ∀ (pairs : List (Bytes × Bytes)) (s : Store),
      run (embedded time) (redisWriteStrings pairs) s =
        (.ok (), pairs.foldl (fun s pair => (s.insert (valueKey pair.1) (bytesRecord pair.2 0)).erase
          (collectionTTLKey pair.1)) s) := by
    intro pairs
    induction pairs with
    | nil => exact fun _ => rfl
    | cons pair pairs ih =>
      intro s
      rw [redisWriteStrings, run_bind_ok run_redisWriteString_zero, ih, List.foldl_cons]
  have hprogram : (Creation.mSetNX pairs).program go = replying (do
      if ← redisAllAbsent pairs then do
        redisWriteStrings pairs
        return .integer 1
      else
        return .integer 0) := by
    cases pairs with
    | nil => cases hmem
    | cons pair pairs =>
      rw [Creation.program, redisMSetNX, List.tail_cons, argPairs_flatMap]
  rw [hprogram] at hreply ⊢
  rcases hrun : run (embedded time) (redisAllAbsent pairs) s with ⟨err | absent, s₁⟩
  · rw [run_replying_error (run_bind_error hrun)] at hreply
    have herror := isError_redisErrorReply err
    rw [show redisErrorReply err = .integer 1 from hreply] at herror
    exact herror.elim
  cases absent with
  | false =>
    rw [run_replying ((run_bind_ok hrun).trans rfl)] at hreply
    cases hreply
  | true =>
    rw [run_replying ((run_bind_ok hrun).trans (run_bind_ok (hloop pairs s₁)))]
    have hwritable : Writable s₁ key :=
      (cleared_of_redisAllAbsent hrun hmem).noRecordOf_erase.noDeadline
    refine undated_foldl hkey (fun value s h => Writable.undated_string h value)
      (fun _ h => h.writable) (fun _ _ h hsame => h.congr hsame) (fun pair s => ?_) hshort
      (.inr ⟨hwritable, hmem⟩)
    exact ((SameElsewhere.refl pair.1 s).insert (.inl rfl)).erase (.inr (.inr (.inl rfl)))

/-- `HINCRBY` adds a field and leaves expiry metadata as it is. -/
theorem exists_run_hIncrBy {field amount : Bytes}
    (hnone : run (embedded time) (redisType key) s = (.ok .none, s₁))
    (hreply : ¬ ((redisHIncrBy [text "HINCRBY", key, field, amount]).run (embedded time) s).1.IsError) :
    ∃ payload, ((redisHIncrBy [text "HINCRBY", key, field, amount]).run (embedded time) s).2 =
      s₁.insert (hashKey key field) (bytesRecord payload 0) := by
  have hcleared := (typeOutcome_of_run hnone).cleared
  cases hparse : redisParseInt amount with
  | error err =>
    have hrun : (redisHIncrBy [text "HINCRBY", key, field, amount]).run (embedded time) s =
        (redisErrorReply err, s) := by
      refine run_replying_error ?_
      dsimp only
      rw [hparse]
      exact run_bind_error (run_liftExcept _)
    rw [hrun] at hreply
    exact absurd (isError_redisErrorReply err) hreply
  | ok delta =>
    have hput : run (embedded time)
        (putPayload (hashKey key field) Redis.bytesCodec (formatInt (0 + delta)) 0) s₁ =
          (.ok (), s₁.insert (hashKey key field) (bytesRecord (formatInt (0 + delta)) 0)) := rfl
    have hfits : IsInt64 (0 + delta) := by
      rw [zero_add]
      exact (redisParseInt_eq_ok_iff.mp hparse).2
    have hrun : (redisHIncrBy [text "HINCRBY", key, field, amount]).run (embedded time) s =
        (.integer (0 + delta), s₁.insert (hashKey key field) (bytesRecord (formatInt (0 + delta)) 0)) := by
      refine run_replying ?_
      dsimp only
      rw [hparse, run_bind_ok (run_liftExcept _), run_bind_ok hnone,
        if_neg fun h => h.1 rfl, run_bind_ok (hcleared.run_redisHashField field)]
      dsimp only
      rw [if_neg (not_not_intro hfits), run_bind_ok hput]
      rfl
    exact ⟨_, by rw [hrun]⟩

/-- What the probe of an absent key leaves: only metadata that `HINCRBY` inherits. -/
theorem TypeOutcome.metadata_of_none (h : TypeOutcome time s key .none s₁) (field amount : Bytes) :
    s₁[collectionTTLKey key]? ≠ none ↔ (Creation.hIncrBy key field amount).Inherits time s := by
  cases h with
  | passed hpassed =>
    have hgone := Store.noRecordOf_without s key _ (.inr (.inr (.inl rfl)))
    exact iff_of_false (not_not_intro hgone) fun h => h.2.1 hpassed
  | swept _ _ hrecords _ =>
    have hgone := Store.noRecordOf_without s key _ (.inr (.inr (.inl rfl)))
    refine iff_of_false (not_not_intro hgone) fun h => ?_
    rcases hrecords with hne | ⟨-, data, hget, -⟩
    · exact hne h.2.2.1
    · cases h.2.2.2.symm.trans hget
  | absent hahead _ hfields _ hlist =>
    rw [Store.getElem?_erase_of_ne _ (valueKey_ne_collectionTTLKey _ _)]
    exact ⟨fun h => ⟨h, hahead.not_passed, hfields, hlist⟩, And.left⟩

/-- The `TTL` of a hash with metadata is not `-1`. -/
theorem LiveHash.reply_ttl_ne (h : LiveHash time s key) (hmetadata : s[collectionTTLKey key]? ≠ none) :
    ((redisTTLCommand second [text "TTL", key]).run (embedded time) s).1 ≠ .integer (-1) := by
  obtain ⟨data, hget⟩ := Option.ne_none_iff_exists'.mp hmetadata
  obtain ⟨hlength, -⟩ := h.ahead data hget
  have hexpiry : run (embedded time) (redisExpiry key) s =
      (.ok (some (toInt64 (ofBigEndian data))), s) := by
    rw [redisExpiry, run_bind_ok h.run_redisType]
    dsimp only
    rw [redisMetadataExpiry, run_bind_ok Transport.run_get, hget]
    dsimp only
    rw [if_neg (not_not_intro hlength)]
    rfl
  have hcode : ∃ reply : ℤ, (redisTTLCommand second [text "TTL", key]).run (embedded time) s =
      (.integer reply, s) ∧ reply ≠ -1 := by
    by_cases hpassed : wrapInt64 (toInt64 (ofBigEndian data) - wrapInt64 time) ≤ 0
    · refine ⟨-2, run_replying ((run_bind_ok hexpiry).trans ?_), by decide⟩
      dsimp only
      rw [run_bind_ok run_unixNano, if_pos hpassed]
      rfl
    · refine ⟨max 1 (wrapInt64 (toInt64 (ofBigEndian data) - wrapInt64 time) / second),
        run_replying ((run_bind_ok hexpiry).trans ?_), by omega⟩
      dsimp only
      rw [run_bind_ok run_unixNano, if_neg hpassed]
      rfl
  obtain ⟨reply, hcode, hne⟩ := hcode
  rw [hcode]
  exact fun heq => hne (Resp.integer.inj heq)

end Creating

/-- The key that was created has no deadline. Whatever operations follow, as long as none of
them gives a record of the key a deadline and the key has a record: `TYPE` reports a type at
every time, and removes nothing. -/
structure StartsUndated (time : ℤ) (s : Store) (key : Bytes) : Prop where
  ttl : ((redisTTLCommand second [text "TTL", key]).run (embedded time) s).1 = .integer (-1)
  undated : Undated s key
  alive : ∀ {α : Type} (later : Program Calls α) (clock : ℕ → ℤ) (tick : ℕ),
    later.Asks (ticking clock) (Call.SetsNoExpiry key) (tick, s) →
    ∀ s', s' = (later.run (ticking clock) (tick, s)).2.2 → ¬ NoRecordOf key s' →
    ∀ time, ∃ typ : RedisType, typ ≠ .none ∧
      (redisTypeCommand [text "TYPE", key]).run (embedded time) s' = (.simpleString typ.name, s')

theorem Undated.startsUndated {s : Store} {key : Bytes} (h : Undated s key) (time : ℤ) :
    StartsUndated time s key where
  ttl := h.reply_ttl time
  undated := h
  alive later clock tick hlater s' hs' hpresent time := by
    subst hs'
    have hundated : Undated (later.run (ticking clock) (tick, s)).2.2 key :=
      ⟨h.toNoDeadline.run hlater, hpresent⟩
    exact hundated.reply_type time

theorem run_redisType_of_reply {time : ℤ} {s : Store} {key : Bytes}
    (h : ((redisTypeCommand [text "TYPE", key]).run (embedded time) s).1 =
      .simpleString (text "none")) :
    ∃ s₁, run (embedded time) (redisType key) s = (.ok .none, s₁) := by
  rcases hrun : run (embedded time) (redisType key) s with ⟨err | typ, s₁⟩
  · have hcode : (redisTypeCommand [text "TYPE", key]).run (embedded time) s =
        (redisErrorReply err, s₁) := run_replying_error (run_bind_error hrun)
    obtain ⟨message, hmessage⟩ := exists_redisErrorReply_eq err
    rw [hcode, hmessage] at h
    cases h
  · have hcode : (redisTypeCommand [text "TYPE", key]).run (embedded time) s =
        (.simpleString typ.name, s₁) := run_replying (run_bind_ok hrun)
    rw [hcode] at h
    cases typ with
    | none => exact ⟨s₁, rfl⟩
    | _ => exact absurd (Resp.simpleString.inj h) (by decide)

/-- In every store, at every clock reading, for every key that is absent and every command
that creates it without an option for a deadline: the new key has no deadline, unless
`HINCRBY` finds expiry metadata that is left. -/
theorem created_without_deadline_iff {go : GoRuntime} {time : ℤ} {s : Store} {key : Bytes}
    (hnone : ((redisTypeCommand [text "TYPE", key]).run (embedded time) s).1 =
      .simpleString (text "none"))
    {creation : Creation} (hkey : key ∈ creation.keys) (hargs : creation.Deliverable)
    (hplain : creation.Plain go)
    (hcreated : creation.Succeeds ((creation.program go).run (embedded time) s).1) :
    StartsUndated time ((creation.program go).run (embedded time) s).2 key ↔
      ¬ creation.Inherits time s := by
  obtain ⟨s₁, hnone⟩ := run_redisType_of_reply hnone
  have hundated : Undated ((creation.program go).run (embedded time) s).2 key →
      ¬ creation.Inherits time s →
        (StartsUndated time ((creation.program go).run (embedded time) s).2 key ↔
          ¬ creation.Inherits time s) := fun h => iff_of_true (h.startsUndated time)
  cases creation with
  | set name value options =>
    obtain rfl := List.mem_singleton.mp hkey
    exact hundated (undated_set hplain hnone hcreated) id
  | setNX name value =>
    obtain rfl := List.mem_singleton.mp hkey
    exact hundated (undated_setNX hnone) id
  | getSet name value =>
    obtain rfl := List.mem_singleton.mp hkey
    exact hundated (undated_getSet hnone) id
  | mSet pairs => exact hundated (undated_mSet hargs hkey) id
  | mSetNX pairs => exact hundated (undated_mSetNX hargs hkey hcreated) id
  | update name change =>
    obtain rfl := List.mem_singleton.mp hkey
    exact hundated (undated_update hnone hcreated) id
  | hSet name pairs =>
    obtain rfl := List.mem_singleton.mp hkey
    have hne : pairs ≠ [] := by
      rintro rfl
      exact hcreated trivial
    exact hundated (undated_hSet hne hnone) id
  | sAdd name members =>
    obtain rfl := List.mem_singleton.mp hkey
    have hne : members ≠ [] := by
      rintro rfl
      exact hcreated trivial
    exact hundated (undated_sAdd hne hnone) id
  | push left name values =>
    obtain rfl := List.mem_singleton.mp hkey
    have hne : values ≠ [] := by
      rintro rfl
      exact hcreated trivial
    exact hundated (undated_push hne hargs hnone) id
  | hIncrBy name field amount =>
    obtain rfl := List.mem_singleton.mp hkey
    obtain ⟨payload, hafter⟩ := exists_run_hIncrBy hnone hcreated
    have hcleared := (typeOutcome_of_run hnone).cleared
    have hstore : (((Creation.hIncrBy key field amount).program go).run (embedded time) s).2 =
        s₁.insert (hashKey key field) (bytesRecord payload 0) := hafter
    rw [hstore, ← (typeOutcome_of_run hnone).metadata_of_none field amount, not_not]
    constructor
    · intro hstarts
      by_contra hmetadata
      refine LiveHash.reply_ttl_ne (soleHash_insert field payload (.inr hcleared)).toLiveHash ?_
        hstarts.ttl
      rwa [Store.getElem?_insert_of_ne _ _ (hashKey_ne_collectionTTLKey _ _ _)]
    · intro hmetadata
      have hnothing := hcleared.noRecordOf_erase
      rw [Store.erase_of_none hmetadata] at hnothing
      exact (hnothing.noDeadline.insert_field field payload).startsUndated time

/-- A hash with a deadline whose only field the core has removed. -/
def leftMetadata : Store :=
  (runSteps (bytesHandle 0) .upperCase (fun _ => 0)
    [.core (.hSet (text "k") (text "f") (text "v") []),
      .redis [] ⟨true, 1, 2⟩ [text "EXPIRE", text "k", text "100"],
      .core (.hDelete (text "k") (some [text "f"]))] (0, ∅)).2

set_option maxRecDepth 8192 in
/-- The field that `HINCRBY` adds expires with the old deadline. -/
theorem hIncrBy_inherits_deadline :
    ∃ s, s = ((Creation.hIncrBy (text "k") (text "f") (text "1")).program .upperCase).run (embedded 0)
        leftMetadata ∧
      ((redisTypeCommand [text "TYPE", text "k"]).run (embedded 0) leftMetadata).1 =
        .simpleString (text "none") ∧
      s.1 = .integer 1 ∧
      ((redisTTLCommand second [text "TTL", text "k"]).run (embedded 0) s.2).1 = .integer 100 ∧
      ((redisTypeCommand [text "TYPE", text "k"]).run (embedded (100 * second)) s.2).1 =
        .simpleString (text "none") := by
  exact ⟨_, rfl, rfl, rfl, rfl, rfl⟩

set_option maxRecDepth 8192 in
/-- `HSET` over the same metadata: the new hash has no deadline. -/
theorem hSet_over_metadata_creates_undated :
    StartsUndated 0 (((Creation.hSet (text "k") [(text "f", text "v")]).program .upperCase).run
      (embedded 0) leftMetadata).2 (text "k") := by
  have hcreated : (Creation.hSet (text "k") [(text "f", text "v")]).Succeeds
      (((Creation.hSet (text "k") [(text "f", text "v")]).program .upperCase).run (embedded 0)
        leftMetadata).1 := id
  have hargs : (Creation.hSet (text "k") [(text "f", text "v")]).Deliverable := trivial
  exact (created_without_deadline_iff rfl (List.mem_singleton.mpr rfl) hargs trivial hcreated).mpr id

end KVLite
