import KVLite.Keyspace.Outcome
import KVLite.Replies.Records
import Mathlib.Data.Finset.Dedup
import Mathlib.Data.Finset.Card

/-!
# What `DEL` counts

`DEL` removes the records of its keys and counts the keys that had one. A key exists if the
type probe finds something live. The two differ for a key whose records have expired but
are still there: it does not exist, and `DEL` counts it.
-/

namespace KVLite

open Semantics Fallible BigEndian Redis TypedMap

/-- The key has a record, live or not. -/
def hasRecord (s : Store) (key : Bytes) : Bool := decide (0 < (recordKeys key s).length)

/-- `EXISTS` of the one key replies one. -/
def existsOne (time : ℤ) (s : Store) (key : Bytes) : Bool :=
  match ((redisExists [text "EXISTS", key]).run (embedded time) s).1 with
  | .integer count => decide (count = 1)
  | _ => false

/-- The key has something live: a value that has not expired, or a field, a member or a list
that decodes, and no deadline that has passed. -/
def Lives (time : ℤ) (s : Store) (key : Bytes) : Prop :=
  TTLAhead time s key ∧ (Found time s key .string ∨ ValuePassed time s key ∧
    (fieldRecords s key ≠ [] ∨ s.scan (namespacePrefix kindSet key) ≠ [] ∨
      ∃ data items, s[listKey key]? = some data ∧ decodeList data = .ok items))

section Counting

variable {time : ℤ} {s s' : Store} {key : Bytes} {keys : List Bytes}

/-! ### Records -/

theorem hasRecord_eq_false : hasRecord s key = false ↔ NoRecordOf key s := by
  rw [hasRecord, decide_eq_false_iff_not, not_lt, Nat.le_zero, List.length_eq_zero_iff,
    List.eq_nil_iff_forall_not_mem]
  constructor
  · intro h storageKey hrecord
    by_contra hsome
    exact h storageKey (mem_recordKeys.mpr ⟨hrecord, Option.isSome_iff_ne_none.mpr hsome⟩)
  · intro h storageKey hmem
    obtain ⟨hrecord, hsome⟩ := mem_recordKeys.mp hmem
    rw [h storageKey hrecord] at hsome
    cases hsome

theorem RedisStore.without (hs : RedisStore s) (key : Bytes) : RedisStore (s.without key) := by
  intro storageKey data hget
  rw [Store.without, Store.getElem?_eraseAll] at hget
  split at hget
  · cases hget
  · exact hs storageKey data hget

/-- Removing a key takes nothing from another one. -/
theorem RedisStore.hasRecord_without (hs : RedisStore s) (key key' : Bytes) :
    hasRecord (s.without key) key' = (hasRecord s key' && decide (key' ≠ key)) := by
  by_cases heq : key' = key
  · subst heq
    rw [decide_eq_false (not_not_intro rfl), Bool.and_false]
    exact hasRecord_eq_false.mpr (Store.noRecordOf_without s key')
  · rw [decide_eq_true heq, Bool.and_true, Bool.eq_iff_iff, ← not_iff_not, Bool.not_eq_true,
      Bool.not_eq_true, hasRecord_eq_false, hasRecord_eq_false]
    refine forall₂_congr fun storageKey hrecord' => ?_
    by_cases hrecord : RecordOf key storageKey
    · -- No record belongs to both keys.
      have hnone : s[storageKey]? = none := by
        by_contra hsome
        obtain ⟨data, hget⟩ := Option.ne_none_iff_exists'.mp hsome
        exact heq (hs.eq_of_recordOf hget hrecord' hrecord)
      rw [Store.getElem?_without_of_recordOf hrecord, hnone]
    · rw [Store.getElem?_without_of_not_recordOf hrecord]

theorem NoRecordOf.without (h : NoRecordOf key s) (key' : Bytes) :
    NoRecordOf key (s.without key') := by
  intro storageKey hrecord
  rw [Store.without, Store.getElem?_eraseAll, h storageKey hrecord, ite_self]

/-! ### The count -/

/-- The distinct keys of a list with one more key, after that key has been removed. -/
theorem RedisStore.card_hasRecord_cons (hs : RedisStore s) (key : Bytes) (keys : List Bytes) :
    ((key :: keys).toFinset.filter fun key => hasRecord s key).card =
      (if hasRecord s key then 1 else 0) +
        (keys.toFinset.filter fun key' => hasRecord (s.without key) key').card := by
  have hrest : (keys.toFinset.filter fun key' => hasRecord (s.without key) key') =
      (keys.toFinset.filter fun key' => hasRecord s key').erase key := by
    ext key'
    simp only [Finset.mem_filter, Finset.mem_erase, hs.hasRecord_without, Bool.and_eq_true,
      decide_eq_true_eq]
    tauto
  rw [hrest, List.toFinset_cons, Finset.filter_insert]
  split
  · rw [← Finset.erase_insert_eq_erase, add_comm,
      Finset.card_erase_add_one (Finset.mem_insert_self _ _)]
  · next hnot =>
    rw [Finset.erase_eq_of_notMem, zero_add]
    rw [Finset.mem_filter]
    exact fun hmem => hnot hmem.2

/-- `DEL` counts the distinct keys with a record, and leaves none. -/
theorem RedisStore.run_redisDeleteLoop (hs : RedisStore s) (time : ℤ) (count : ℕ) (keys : List Bytes) :
    ∃ s', run (embedded time) (redisDeleteLoop count keys) s =
        (.ok (count + (keys.toFinset.filter fun key => hasRecord s key).card), s') ∧
      (∀ key ∈ keys, NoRecordOf key s') ∧ ∀ key, NoRecordOf key s → NoRecordOf key s' := by
  -- One key at a time: what it had is gone for the keys that follow.
  induction keys generalizing s count with
  | nil => exact ⟨s, rfl, fun key hkey => absurd hkey List.not_mem_nil, fun _ h => h⟩
  | cons key keys ih =>
    obtain ⟨s', hrun, hgone, hkept⟩ :=
      ih (hs.without key) (count + if hasRecord s key then 1 else 0)
    refine ⟨s', ?_, ?_, fun key' h => hkept key' (h.without key)⟩
    · rw [hs.card_hasRecord_cons, ← add_assoc, ← hrun, redisDeleteLoop,
        run_bind_ok run_redisDeleteRaw]
      change run (embedded time) (if hasRecord s key then redisDeleteLoop (count + 1) keys
        else redisDeleteLoop count keys) (s.without key) = _
      cases hasRecord s key <;> rfl
    · intro key' hkey'
      rcases List.mem_cons.mp hkey' with rfl | hmem
      · exact hkept key' (Store.noRecordOf_without s key')
      · exact hgone key' hmem

/-! ### The keys that exist -/

/-- What `EXISTS` of one key replies. -/
theorem run_redisExists_of_run {typ : RedisType}
    (h : run (embedded time) (redisType key) s = (.ok typ, s')) :
    (redisExists [text "EXISTS", key]).run (embedded time) s =
      (.integer (if typ = .none then 0 else 1), s') := by
  refine run_replying ?_
  have hloop : run (embedded time) (redisExistsLoop 0 [key]) s =
      (.ok (if typ = .none then 0 else 1), s') := by
    rw [redisExistsLoop, run_bind_ok h]
    by_cases htyp : typ = .none
    · rw [if_pos htyp, if_neg (not_not_intro htyp)]
      rfl
    · rw [if_neg htyp, if_pos htyp]
      rfl
  rw [run_bind_ok hloop]
  split <;> rfl

theorem run_redisExists_of_error {err : GoError}
    (h : run (embedded time) (redisType key) s = (.error err, s')) :
    (redisExists [text "EXISTS", key]).run (embedded time) s = (redisErrorReply err, s') := by
  refine run_replying_error (run_bind_error ?_)
  rw [redisExistsLoop]
  exact run_bind_error h

/-- A key exists if the probe finds a type. -/
theorem existsOne_eq_true :
    existsOne time s key = true ↔
      ∃ typ s', run (embedded time) (redisType key) s = (.ok typ, s') ∧ typ ≠ .none := by
  rcases hrun : run (embedded time) (redisType key) s with ⟨err | typ, s'⟩
  · rw [existsOne, run_redisExists_of_error hrun]
    obtain ⟨message, hmessage⟩ := exists_redisErrorReply_eq err
    rw [hmessage]
    refine iff_of_false Bool.false_ne_true ?_
    · rintro ⟨typ, s'', heq, -⟩
      cases heq
  · rw [existsOne, run_redisExists_of_run hrun]
    dsimp only
    rw [decide_eq_true_iff]
    by_cases htyp : typ = .none
    · rw [if_pos htyp]
      refine iff_of_false (by decide) ?_
      rintro ⟨typ', s'', heq, hne⟩
      cases heq
      exact hne htyp
    · rw [if_neg htyp]
      exact iff_of_true rfl ⟨typ, s', rfl, htyp⟩

theorem NoRecordOf.redisExists (h : NoRecordOf key s) (time : ℤ) :
    ((redisExists [text "EXISTS", key]).run (embedded time) s).1 = .integer 0 := by
  rw [run_redisExists_of_run (h.cleared).run_redisType]
  rfl

/-- The keys that exist, in a store of the commands. -/
theorem RedisStore.existsOne_iff (hs : RedisStore s) :
    existsOne time s key = true ↔ Lives time s key := by
  rw [existsOne_eq_true]
  constructor
  · rintro ⟨typ, s', hrun, hne⟩
    cases typeOutcome_of_run hrun with
    | passed _ => exact absurd rfl hne
    | string hahead hfound => exact ⟨hahead, .inl hfound⟩
    | hash hahead hvalue _ hlive =>
      obtain ⟨record, hmem, -⟩ := hlive
      exact ⟨hahead, .inr ⟨hvalue, .inl (List.ne_nil_of_mem hmem)⟩⟩
    | set hahead hvalue _ hmembers => exact ⟨hahead, .inr ⟨hvalue, .inr (.inl hmembers)⟩⟩
    | list hahead hvalue _ _ hget hdecode _ =>
      exact ⟨hahead, .inr ⟨hvalue, .inr (.inr ⟨_, _, hget, hdecode⟩)⟩⟩
    | swept _ _ _ _ => exact absurd rfl hne
    | absent _ _ _ _ _ => exact absurd rfl hne
  · rintro ⟨hahead, ⟨data, value, hget, hdata, hlive⟩ | ⟨hvalue, hrest⟩⟩
    · exact ⟨.string, _, run_redisType_of_value hahead (run_probeValue_of_live hget hdata hlive), nofun⟩
    · have hprobe := hvalue.run_probeValue
      by_cases hnil : fieldRecords s key = []
      swap
      · obtain ⟨record, hmem⟩ := List.exists_mem_of_ne_nil _ (fieldRecords_erase_value.trans_ne hnil)
        exact ⟨.hash, _, run_redisType_of_hash hahead hprobe (run_probeHash_of_live
          (fun record hmem => (hs.erase _).field_decodes hmem)
          ⟨record, hmem, (hs.erase _).field_live hmem time⟩), nofun⟩
      have hhash := run_probeHash_of_nil time (fieldRecords_erase_value.trans hnil)
      by_cases hmembers : s.scan (namespacePrefix kindSet key) = []
      swap
      · exact ⟨.set, _, run_redisType_of_set hahead hprobe hhash
          (members_erase_value.trans_ne hmembers), nofun⟩
      rcases hrest with hfields | hset | ⟨data, items, hget, hdecode⟩
      · exact absurd hnil hfields
      · exact absurd hmembers hset
      · have hlist : (s.erase (valueKey key))[listKey key]? = some data := by
          rw [Store.getElem?_erase_of_ne _ (valueKey_ne_listKey _ _), hget]
        exact ⟨.list, _, run_redisType_of_list hahead hprobe hhash (members_erase_value.trans hmembers)
          (run_probeList_of_items hlist hdecode (hs.plainItems hget hdecode).1), nofun⟩

end Counting

/-! ### `DEL` -/

/-- The reply of `DEL` is the number of distinct keys that existed, and afterwards none of
them exists. -/
structure CountsLiveKeys (time : ℤ) (s : Store) (keys : List Bytes) : Prop where
  reply : ((redisDelete (text "DEL" :: keys)).run (embedded time) s).1 =
    .integer (keys.toFinset.filter fun key => existsOne time s key).card
  gone : ∀ key ∈ keys, ((redisExists [text "EXISTS", key]).run (embedded time)
    ((redisDelete (text "DEL" :: keys)).run (embedded time) s).2).1 = .integer 0

/-- In every store that requests reach from the empty store, at every clock reading and for
every list of keys: `DEL` counts the keys that exist if and only if each of them that has a
record has something live. -/
theorem del_counts_live_keys_iff {go : GoRuntime} {password : Bytes} {clock : ℕ → ℤ}
    {inputs : List Received} (hinputs : ∀ received ∈ inputs, Deliverable received.args)
    (tick : ℕ) (time : ℤ) {s : Store}
    (hs : s = (Machine.after (receive go password clock) inputs (tick, ∅)).2) {keys : List Bytes}
    (hkeys : keys ≠ []) :
    CountsLiveKeys time s keys ↔ ∀ key ∈ keys, ¬ NoRecordOf key s → Lives time s key := by
  have hstore : RedisStore s := hs ▸ (redisStore_reached hinputs tick).1
  obtain ⟨s', hloop, hgone, -⟩ := hstore.run_redisDeleteLoop time 0 keys
  have hrun : (redisDelete (text "DEL" :: keys)).run (embedded time) s =
      (.integer (keys.toFinset.filter fun key => hasRecord s key).card, s') := by
    obtain ⟨key, rest, rfl⟩ := List.exists_cons_of_ne_nil hkeys
    refine run_replying ((run_bind_ok hloop).trans ?_)
    rw [zero_add]
    rfl
  -- A key that exists has a record.
  have hsubset : (keys.toFinset.filter fun key => existsOne time s key) ⊆
      keys.toFinset.filter fun key => hasRecord s key := by
    refine Finset.monotone_filter_right _ fun key _ hexists => ?_
    by_contra hnot
    have hnone := hasRecord_eq_false.mp (Bool.not_eq_true _ ▸ hnot)
    obtain ⟨typ, s'', htype, hne⟩ := existsOne_eq_true.mp hexists
    rw [hnone.cleared.run_redisType] at htype
    cases htype
    exact hne rfl
  constructor
  · intro hcounts key hkey hrecord
    have hreply := hcounts.reply
    rw [hrun, Resp.integer.injEq, Nat.cast_inj] at hreply
    have hsame := Finset.eq_of_subset_of_card_le hsubset hreply.le
    have hmem : key ∈ keys.toFinset.filter fun key => hasRecord s key := by
      refine Finset.mem_filter.mpr ⟨List.mem_toFinset.mpr hkey, ?_⟩
      by_contra hnot
      exact hrecord (hasRecord_eq_false.mp (Bool.not_eq_true _ ▸ hnot))
    rw [← hsame] at hmem
    exact hstore.existsOne_iff.mp (Finset.mem_filter.mp hmem).2
  · intro hlives
    refine ⟨?_, fun key hkey => ?_⟩
    · have hsame : (keys.toFinset.filter fun key => existsOne time s key) =
          keys.toFinset.filter fun key => hasRecord s key := by
        refine hsubset.antisymm fun key hmem => ?_
        obtain ⟨hkey, hrecord⟩ := Finset.mem_filter.mp hmem
        refine Finset.mem_filter.mpr ⟨hkey, hstore.existsOne_iff.mpr ?_⟩
        refine hlives key (List.mem_toFinset.mp hkey) fun hnone => ?_
        rw [hasRecord_eq_false.mpr hnone] at hrecord
        cases hrecord
      rw [hrun, hsame]
    · rw [hrun]
      exact (hgone key hkey).redisExists time

/-- A string with a deadline of one millisecond. -/
def briefRequest : Received :=
  ⟨⟨true, 1, 2⟩, [text "SET", text "k", text "v", text "PX", text "1"]⟩

/-- After its deadline the string does not exist, and `DEL` counts it. -/
theorem del_counts_expired_key :
    ∃ s : Store, s = (Machine.after (receive .upperCase [] fun _ => 0) [briefRequest] (0, ∅)).2 ∧
      existsOne 2000000 s (text "k") = false ∧
      ((redisDelete [text "DEL", text "k"]).run (embedded 2000000) s).1 = .integer 1 :=
  ⟨_, rfl, rfl, rfl⟩

/-- Before its deadline it is counted and exists. -/
theorem del_counts_live_key :
    (∀ received ∈ [briefRequest], Deliverable received.args) ∧
    CountsLiveKeys 5 (Machine.after (receive .upperCase [] fun _ => 0) [briefRequest] (0, ∅)).2
      [text "k", text "k"] := by
  have hinputs : ∀ received ∈ [briefRequest], Deliverable received.args := by
    intro received hmem
    rw [List.mem_singleton.mp hmem]
    exact (by decide : Deliverable briefRequest.args)
  refine ⟨hinputs, (del_counts_live_keys_iff hinputs 0 5 rfl (by decide)).mpr ?_⟩
  intro key hkey _
  have hlives : Lives 5 (Machine.after (receive .upperCase [] fun _ => 0) [briefRequest] (0, ∅)).2
      (text "k") :=
    (redisStore_reached hinputs 0).1.existsOne_iff.mp rfl
  obtain rfl | hkey := List.mem_cons.mp hkey
  · exact hlives
  · rw [List.mem_singleton.mp hkey]
    exact hlives

end KVLite
