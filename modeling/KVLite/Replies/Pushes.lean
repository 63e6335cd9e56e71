import KVLite.Keyspace.LiveLists
import KVLite.Replies.Elements

/-!
# Values pushed one by one

A list record has a 32-bit count. Single pushes find out that a list with `2 ^ 32` items does
not decode when they push to it; one push with several values does not look.
-/

namespace KVLite

open Semantics Fallible BigEndian Redis TypedMap

def pushCommand (left : Bool) (key : Bytes) (values : List Bytes) : Program Calls Resp :=
  redisPush left ((if left then text "LPUSH" else text "RPUSH") :: key :: values)

/-- The store after a push; a list that had no items loses its deadline. -/
def afterPush (left : Bool) (key : Bytes) (items values : List Bytes) (s : Store) : Store :=
  (if items = [] then s.erase (collectionTTLKey key) else s).insert (listKey key)
    (encodeList (pushed left items (itemRecords values)))

section Pushing

variable {time : ℤ} {s s₁ : Store} {key : Bytes} {left : Bool} {items values : List Bytes}

theorem length_pushed (left : Bool) (items values : List Bytes) :
    (pushed left items values).length = items.length + values.length := by
  rw [pushed]
  split
  · rw [List.length_append, List.length_reverse, Nat.add_comm]
  · exact List.length_append

theorem pushed_pushed (left : Bool) (items values values' : List Bytes) :
    pushed left (pushed left items values) values' = pushed left items (values ++ values') := by
  cases left <;> simp [pushed]

theorem TypeOutcome.run_redisType_of_list (h : TypeOutcome time s key .list s₁) :
    run (embedded time) (redisType key) s₁ = (.ok .list, s₁) := by
  cases h with
  | @list data stored hahead hvalue hfields hmembers hget hdecode hne =>
    have hnone : (s.erase (valueKey key))[valueKey key]? = none := by
      rw [Store.getElem?_erase, if_pos rfl]
    have hrecord : (s.erase (valueKey key))[listKey key]? = some data := by
      rw [Store.getElem?_erase_of_ne _ (valueKey_ne_listKey _ _), hget]
    exact run_redisType_of_list hahead.erase (run_probeValue_of_none hnone)
      (run_probeHash_of_nil time (fieldRecords_erase_value.trans hfields))
      (members_erase_value.trans hmembers) (run_probeList_of_items hrecord hdecode hne)

/-- The items are read after the type has been probed. -/
theorem run_redisListValues_of_probed {typ : RedisType}
    (hrun : run (embedded time) (redisType key) s = (.ok typ, s₁))
    (htyp : typ = .none ∨ typ = .list) :
    run (embedded time) (redisListValues key) s₁ =
      run (embedded time) (redisListValues key) s := by
  have hagain : run (embedded time) (redisType key) s₁ = (.ok typ, s₁) := by
    rcases htyp with rfl | rfl
    · exact (typeOutcome_of_run hrun).cleared.run_redisType
    · exact (typeOutcome_of_run hrun).run_redisType_of_list
  have hlist : run (embedded time) (redisList key) s₁ =
      run (embedded time) (redisList key) s := by
    rw [redisList, run_bind_ok hrun, run_bind_ok hagain]
  rw [redisListValues, run_bind, run_bind, hlist]

theorem run_push (left : Bool)
    (hread : run (embedded time) (redisListValues key) s = (.ok items, s₁))
    (hne : values ≠ []) : (pushCommand left key values).run (embedded time) s =
      (.integer (items.length + values.length), afterPush left key items values s₁) := by
  obtain ⟨value, values, rfl⟩ := List.exists_cons_of_ne_nil hne
  have hfound : ∃ typ s₀, run (embedded time) (redisType key) s = (.ok typ, s₀) ∧
      (typ = .none ∨ typ = .list) := by
    obtain ⟨found, mid, hlist, -⟩ := exists_of_run_bind_eq_ok hread
    obtain ⟨typ, s₀, htype, hrest⟩ := exists_of_run_bind_eq_ok hlist
    refine ⟨typ, s₀, htype, ?_⟩
    cases typ with
    | none => exact .inl rfl
    | list => exact .inr rfl
    | string => cases hrest
    | hash => cases hrest
    | set => cases hrest
  obtain ⟨typ, s₀, htype, htyp⟩ := hfound
  rw [← run_redisListValues_of_probed htype htyp] at hread
  have hlength : (pushed left items (itemRecords (value :: values))).length =
      items.length + (value :: values).length := by
    rw [length_pushed, List.length_map]
  have hwritten : afterWrite s₁ key (pushed left items (itemRecords (value :: values))) =
      s₁.insert (listKey key) (encodeList (pushed left items (itemRecords (value :: values)))) :=
    if_neg (pushed_cons_ne_nil left items _ _)
  refine run_replying ((run_bind_ok htype).trans ?_)
  rw [if_neg fun hwrong => htyp.elim hwrong.1 hwrong.2, if_neg fun hx => Bool.false_ne_true hx.1,
    run_bind_ok hread, if_neg fun hx => Bool.false_ne_true hx.1, redisEncodeItems_eq,
    run_bind_ok (run_liftExcept _), ← pushed, run_bind_ok run_redisWriteList,
    hwritten, hlength, afterPush]
  by_cases hitems : items = []
  · rw [if_pos hitems, if_pos (List.length_eq_zero_iff.mpr hitems),
      run_bind_ok (run_ignoringError _), Transport.run_delete,
      Store.erase_insert_of_ne _ _ (listKey_ne_collectionTTLKey _ _)]
    rfl
  · rw [if_neg hitems, if_neg (mt List.length_eq_zero_iff.mp hitems)]
    rfl

/-- A list that cannot be read is not pushed to. -/
theorem push_isError {err : GoError}
    (hread : run (embedded time) (redisListValues key) s = (.error err, s₁)) :
    ((pushCommand left key values).run (embedded time) s).1.IsError := by
  cases values with
  | nil => trivial
  | cons value values =>
    rcases htype : run (embedded time) (redisType key) s with ⟨err | typ, s₀⟩
    · have hrun : (pushCommand left key (value :: values)).run (embedded time) s = _ :=
        run_replying_error (run_bind_error htype)
      rw [hrun]
      exact isError_redisErrorReply err
    by_cases htyp : typ = .none ∨ typ = .list
    · rw [← run_redisListValues_of_probed htype htyp] at hread
      have hrun : (pushCommand left key (value :: values)).run (embedded time) s =
          (redisErrorReply err, s₁) := by
        refine run_replying_error ((run_bind_ok htype).trans ?_)
        rw [if_neg fun hwrong => htyp.elim hwrong.1 hwrong.2, if_neg fun hx => Bool.false_ne_true hx.1,
          run_bind_error hread]
      rw [hrun]
      exact isError_redisErrorReply err
    · have hrun : (pushCommand left key (value :: values)).run (embedded time) s =
          (redisErrorReply (wrongType typ), s₀) := by
        refine run_replying_error ((run_bind_ok htype).trans ?_)
        rw [if_pos (not_or.mp htyp)]
        rfl
      rw [hrun]
      exact isError_redisErrorReply (wrongType typ)

theorem items_of_run (hread : run (embedded time) (redisListValues key) s = (.ok items, s₁)) :
    items.length < 2 ^ 32 ∧ ShortItems items ∧ LiveItems time items := by
  rcases liveList_or_cleared_of_run hread with h | ⟨-, rfl⟩
  · obtain ⟨data, -, hdecode⟩ := h.record
    obtain ⟨-, hcount, hshort⟩ := encodeList_decodeList hdecode
    exact ⟨hcount, hshort, h.live⟩
  · exact ⟨by decide, nofun, nofun⟩

/-- What a push leaves for the next one. -/
theorem liveList_afterPush (left : Bool)
    (hread : run (embedded time) (redisListValues key) s = (.ok items, s₁))
    (hvalues : ∀ value ∈ values, value.length ≤ maxRESPBulk) (hne : values ≠ []) :
    OnlyList time (afterPush left key items values s₁) key ∧
      (items.length + values.length < 2 ^ 32 → LiveList time (afterPush left key items values s₁) key
        (pushed left items (itemRecords values))) := by
  have honly : OnlyList time (if items = [] then s₁.erase (collectionTTLKey key) else s₁) key := by
    rcases liveList_or_cleared_of_run hread with h | ⟨h, rfl⟩
    · rw [if_neg h.nonempty]
      exact h.toOnlyList
    · rw [if_pos rfl]
      exact h.erase.onlyList
  obtain ⟨-, hshort, hlive⟩ := items_of_run hread
  have hplain := plainItems_itemRecords hvalues
  refine ⟨honly.insert_list _, fun hroom => ?_⟩
  have hmem : ∀ item ∈ pushed left items (itemRecords values), item ∈ items ∨ item ∈ itemRecords values := by
    intro item hmem
    rw [pushed] at hmem
    split at hmem
    · exact (List.mem_append.mp hmem).symm.imp_right List.mem_reverse.mp
    · exact List.mem_append.mp hmem
  have hlength : (pushed left items (itemRecords values)).length = items.length + values.length := by
    rw [length_pushed, List.length_map]
  refine honly.insert ?_ ?_ (decodeList_encodeList (by rwa [hlength]) ?_)
  · rw [← List.length_pos_iff, hlength]
    exact Nat.add_pos_right _ (List.length_pos_iff.mpr hne)
  · intro item hitem
    rcases hmem item hitem with hitem | hitem
    · exact hlive item hitem
    · obtain ⟨payload, rfl⟩ := hplain.undated item hitem
      exact ⟨_, unmarshalEnvelope_bytesRecord (by decide), rfl⟩
  · intro item hitem
    exact (hmem item hitem).elim (hshort item) (hplain.short item)

theorem afterPush_afterPush {value : Bytes} :
    afterPush left key (pushed left items (itemRecords [value])) values
        (afterPush left key items [value] s) = afterPush left key items (value :: values) s := by
  have hne : pushed left items (itemRecords [value]) ≠ [] := pushed_cons_ne_nil left items _ _
  rw [afterPush, if_neg hne, pushed_pushed, afterPush, Store.insert_insert]
  rfl

/-- Single pushes that the record has room for. -/
theorem runEach_push (left : Bool)
    (hread : run (embedded time) (redisListValues key) s = (.ok items, s₁))
    (hvalues : ∀ value ∈ values, value.length ≤ maxRESPBulk) (hne : values ≠ [])
    (hfits : items.length + values.length ≤ 2 ^ 32) :
    (runEach time (values.map fun value => pushCommand left key [value]) s).2 =
        afterPush left key items values s₁ ∧
      (runEach time (values.map fun value => pushCommand left key [value]) s).1.getLast? =
        some (.integer (items.length + values.length)) := by
  induction values generalizing s s₁ items with
  | nil => exact absurd rfl hne
  | cons value values ih =>
    have hvalue : ∀ x ∈ [value], x.length ≤ maxRESPBulk := fun x hx =>
      hvalues x (List.mem_singleton.mp hx ▸ List.mem_cons_self)
    rw [List.map_cons, runEach, run_push left hread (List.cons_ne_nil _ _)]
    cases values with
    | nil => exact ⟨rfl, rfl⟩
    | cons next values =>
      obtain ⟨-, hlist⟩ := liveList_afterPush left hread hvalue (List.cons_ne_nil value [])
      simp only [List.length_cons] at hfits
      have hlength : (pushed left items (itemRecords [value])).length = items.length + 1 := by
        rw [length_pushed]
        rfl
      obtain ⟨hstore, hlast⟩ := ih (hlist (by rw [List.length_singleton]; omega)).run_redisListValues
        (fun x hx => hvalues x (List.mem_cons_of_mem _ hx)) (List.cons_ne_nil _ _)
        (by rw [hlength, List.length_cons]; omega)
      refine ⟨hstore.trans afterPush_afterPush, ?_⟩
      rw [List.getLast?_cons, hlast, hlength, Option.getD_some]
      simp only [List.length_cons]
      push_cast
      ring_nf

/-- A list that does not decode takes no pushes. -/
theorem runEach_push_broken {err : GoError} (left : Bool)
    (htype : run (embedded time) (redisType key) s = (.error err, s)) (hne : values ≠ []) :
    (runEach time (values.map fun value => pushCommand left key [value]) s).1.getLast? =
      some (redisErrorReply err) := by
  have hrun : ∀ value, (pushCommand left key [value]).run (embedded time) s =
      (redisErrorReply err, s) := fun value =>
    run_replying_error (run_bind_error htype)
  induction values with
  | nil => exact absurd rfl hne
  | cons value values ih =>
    rw [List.map_cons, runEach, hrun value]
    cases values with
    | nil => rfl
    | cons next values =>
      rw [List.getLast?_cons, ih (List.cons_ne_nil _ _), Option.getD_some]

/-- Single pushes that the record has no room for end with an error. -/
theorem runEach_push_overflow (left : Bool)
    (hread : run (embedded time) (redisListValues key) s = (.ok items, s₁))
    (hvalues : ∀ value ∈ values, value.length ≤ maxRESPBulk)
    (hover : 2 ^ 32 < items.length + values.length) :
    ∃ reply : Resp, reply.IsError ∧
      (runEach time (values.map fun value => pushCommand left key [value]) s).1.getLast? =
        some reply := by
  induction values generalizing s s₁ items with
  | nil => exact absurd (items_of_run hread).1 hover.le.not_gt
  | cons value values ih =>
    have hvalue : ∀ x ∈ [value], x.length ≤ maxRESPBulk := fun x hx =>
      hvalues x (List.mem_singleton.mp hx ▸ List.mem_cons_self)
    obtain ⟨honly, hlist⟩ := liveList_afterPush left hread hvalue (List.cons_ne_nil value [])
    have hcount := (items_of_run hread).1
    rw [List.length_cons] at hover
    have hlength : (pushed left items (itemRecords [value])).length = items.length + 1 := by
      rw [length_pushed]
      rfl
    rw [List.map_cons, runEach, run_push left hread (List.cons_ne_nil _ _)]
    by_cases hfull : items.length + 1 = 2 ^ 32
    · -- The list is full, and the next push cannot read it.
      have hrecord : (afterPush left key items [value] s₁)[listKey key]? =
          some (encodeList (pushed left items (itemRecords [value]))) := by
        rw [afterPush, Store.getElem?_insert, if_pos rfl]
      have htype := run_redisType_of_list_error honly.ahead (run_probeValue_of_none honly.no_value)
        (run_probeHash_of_nil time honly.no_fields) honly.no_members
        (run_probeList_of_malformed hrecord (decodeList_encodeList_overflow (hlength.trans hfull)))
      have hne : values ≠ [] := by
        rintro rfl
        simp only [List.length_nil] at hover
        omega
      have hlast := runEach_push_broken left htype hne
      refine ⟨_, isError_redisErrorReply (.new (text "kvlite: trailing list data")), ?_⟩
      rw [List.getLast?_cons, hlast]
      rfl
    · obtain ⟨reply, herror, hlast⟩ := ih
        (hlist (by rw [List.length_singleton]; omega)).run_redisListValues
        (fun x hx => hvalues x (List.mem_cons_of_mem _ hx)) (by rw [hlength]; omega)
      refine ⟨reply, herror, ?_⟩
      rw [List.getLast?_cons, hlast, Option.getD_some]

end Pushing

end KVLite
