import KVLite.TypedMap.Serves

/-!
# The list commands serve their operations

A list is one record. A command reads the items, and writes them back in one piece or
removes the key when none is left.
-/

namespace KVLite.TypedMap

open Semantics BigEndian Redis

/-! ### Items -/

theorem redisListReply_itemRecords (items : List Bytes) (time : ℤ) :
    redisListReply time (itemRecords items) = .ok (items.map .bulk) := by
  induction items with
  | nil => rfl
  | cons item items ih =>
    rw [itemRecords, List.map_cons, redisListReply, redisItemPayload_bytesRecord, ih]
    rfl

/-- `LRANGE` with indexes that are integers. -/
theorem redisLRange_eq (name key : Bytes) {start stop : Bytes} {first last : ℤ}
    (hstart : redisParseInt start = .ok first) (hstop : redisParseInt stop = .ok last) :
    redisLRange [name, key, start, stop] = replying (redisListValues key >>= fun items =>
      if (normalizeRange items.length first last).2.2 then do
        return .array (← liftExcept (redisListReply (← KVLite.now) (inclusiveRange items
          (normalizeRange items.length first last).1 (normalizeRange items.length first last).2.1)))
      else
        return .array []) := by
  rw [redisLRange, hstart, hstop]
  rfl

theorem redisEncodeItems_eq (values : List Bytes) :
    redisEncodeItems values = .ok (itemRecords values) := by
  induction values with
  | nil => rfl
  | cons value values ih =>
    rw [redisEncodeItems, ih]
    rfl

theorem inclusiveRange_map {α β : Type} (f : α → β) (items : List α) (first last : ℤ) :
    inclusiveRange (items.map f) first last = (inclusiveRange items first last).map f := by
  rw [inclusiveRange, inclusiveRange, List.map_take, List.map_drop]

/-- The range of a list is the slice between the normalized indexes. -/
theorem rangeOf_eq (items : List Bytes) (start stop : ℤ) :
    rangeOf items start stop =
      if (normalizeRange items.length start stop).2.2 then
        inclusiveRange items (normalizeRange items.length start stop).1
          (normalizeRange items.length start stop).2.1
      else [] := by
  unfold rangeOf normalizeRange inclusiveRange
  simp only [Bool.and_eq_true, decide_eq_true_eq]
  generalize (if start < 0 then (items.length : ℤ) + start else start) = first
  generalize (if stop < 0 then (items.length : ℤ) + stop else stop) = last
  have hfirst : (if first < 0 then 0 else first) = max 0 first := by split <;> omega
  have hlast : (if last ≥ (items.length : ℤ) then (items.length : ℤ) - 1 else last) =
      min ((items.length : ℤ) - 1) last := by split <;> omega
  rw [hfirst, hlast, List.drop_take, show (max 0 first).toNat = first.toNat by omega]
  split
  · rw [List.take_eq_take_iff, List.length_drop]
    omega
  · refine List.eq_nil_of_length_eq_zero ?_
    rw [List.length_take, List.length_drop]
    omega

section Storage

variable {now : ℤ} {s₀ : Store} {key : Bytes} {items : List Bytes} {deadline : Option ℤ}

theorem does_redisListValues (hclock : Clock now) (hstore : Storable (.list items) deadline)
    (hahead : Ahead now deadline) :
    Does now s₀ key (redisListValues key) ((Value.list items).records deadline)
      (.ok (itemRecords items)) ((Value.list items).records deadline) := by
  have hread : (Value.list items).readAs .list [] (itemRecords items) = .ok (itemRecords items) := by
    refine Value.readAs_eq rfl fun hempty => ?_
    obtain rfl := List.isEmpty_iff.mp hempty
    rfl
  rw [← hread]
  exact (reads_redisListValues hstore.recordable).does hclock hahead

/-- The items are written in one piece; without items the key is removed. -/
theorem does_redisWriteList (old items : List Bytes) :
    Does now s₀ key (redisWriteList key (itemRecords items)) ((Value.list old).records deadline)
      (.ok ()) (recordsOf (Entry.of (.list items) deadline)) := by
  rw [recordsOf_of]
  cases items with
  | nil => exact Does.redisDeleteRaw_bind fun _ => .pure _
  | cons item items =>
    have hrecords : Function.update ((Value.list old).records deadline) .list
        (some (encodeList (itemRecords (item :: items)))) =
          (Value.list (item :: items)).records deadline := by
      funext slot
      cases slot <;> rfl
    have hempty : (Value.list (item :: items)).isEmpty = false := rfl
    rw [hempty, ← hrecords]
    exact does_put .list _

end Storage

/-! ### The commands -/

theorem pushed_map {left : Bool} (f : Bytes → Bytes) (items values : List Bytes) :
    (if left then (values.map f).reverse ++ items.map f else items.map f ++ values.map f) =
      (pushed left items values).map f := by
  cases left <;> simp [pushed]

theorem pushed_cons_ne_nil (left : Bool) (items : List Bytes) (value : Bytes) (values : List Bytes) :
    pushed left items (value :: values) ≠ [] := by
  cases left <;> simp [pushed]

/-- What a pop takes off a list with items, in the list and in its record. -/
theorem splitPopped_one {items : List Bytes} (left : Bool) (hitems : items ≠ []) :
    ∃ item rest,
      (if left then (bulkOrNull items.head?, items.tail)
        else (bulkOrNull items.getLast?, items.dropLast)) = (.bulk item, rest) ∧
      splitPopped left 1 (itemRecords items) = ([bytesRecord item 0], itemRecords rest) := by
  cases left with
  | true =>
    obtain ⟨item, rest, rfl⟩ := List.exists_cons_of_ne_nil hitems
    exact ⟨item, rest, rfl, rfl⟩
  | false =>
    obtain rfl | ⟨rest, item, rfl⟩ := List.eq_nil_or_concat items
    · exact absurd rfl hitems
    rw [List.concat_eq_append]
    refine ⟨item, rest, by simp [bulkOrNull], ?_⟩
    simp [splitPopped, itemRecords]

section Commands

variable {now : ℤ} {s₀ : Store} {key : Bytes} {entry : Option Entry}

/-- The values are appended and written back; a list that was absent has no deadline. -/
theorem does_redisPushValues_of_allowed (hclock : Clock now) {items : List Bytes}
    {deadline : Option ℤ} (h : Fresh now (.list items) deadline) (value : Bytes)
    (values : List Bytes) {left onlyIfExists : Bool} (hallowed : ¬(onlyIfExists ∧ items = [])) :
    Does now s₀ key (redisPushValues key (value :: values) left onlyIfExists)
      ((Value.list items).records deadline)
      (.ok (.integer (pushed left items (value :: values)).length))
      (recordsOf (Entry.of (.list (pushed left items (value :: values))) deadline)) := by
  have hread : Does now s₀ key (redisListValues key) _ _ _ :=
    does_redisListValues hclock h.storable h.ahead
  have hwrite : Does now s₀ key (redisWriteList key _) ((Value.list items).records deadline) _ _ :=
    does_redisWriteList items (pushed left items (value :: values))
  have hnonempty : (Value.list (pushed left items (value :: values))).isEmpty = true →
      deadline = none :=
    fun hempty => absurd (List.isEmpty_iff.mp hempty) (pushed_cons_ne_nil left items value values)
  refine (does_redisType_of_ahead hclock h.storable h.ahead).bind ?_
  rw [if_neg (by split <;> simp [Value.typ]), if_neg]
  swap
  · rintro ⟨honly, htyp⟩
    refine hallowed ⟨honly, List.isEmpty_iff.mp ?_⟩
    by_contra hitems
    exact Value.typ_ne_none _ (if_neg hitems ▸ htyp)
  refine hread.bind ?_
  rw [if_neg (by simpa using hallowed), redisEncodeItems_eq]
  refine (does_liftExcept _).bind ?_
  simp only [pushed_map]
  refine hwrite.bind ?_
  rw [List.length_map]
  cases items with
  | nil =>
    obtain rfl := h.empty rfl
    have hsame : Function.update ((Value.list (pushed left [] (value :: values))).records none)
        .ttl none = (Value.list (pushed left [] (value :: values))).records none :=
      Value.update_records_ttl (by simp [Value.typ]) none none
    rw [recordsOf_of_eq hnonempty]
    refine (does_delete .ttl).ignoringError.bind ?_
    rw [hsame, List.length_map]
    exact .pure _
  | cons item items =>
    rw [List.length_map]
    exact .pure _

/-- A push that needs the list to exist leaves an absent key absent. -/
theorem does_redisPushValues_of_absent (hclock : Clock now) {deadline : Option ℤ}
    (h : Fresh now (.list []) deadline) (values : List Bytes) (left : Bool) :
    Does now s₀ key (redisPushValues key values left true) ((Value.list []).records deadline)
      (.ok (.integer 0)) (recordsOf (Entry.of (.list []) deadline)) := by
  rw [h.recordsOf_of]
  exact (does_redisType_of_ahead hclock h.storable h.ahead).bind (.pure _)

variable (hclock : Clock now) (hstore : StorableEntry entry)

include hclock hstore

theorem serves_pushValues (value : Bytes) (values : List Bytes) (left onlyIfExists : Bool) :
    Serves now s₀ key (replying (redisPushValues key (value :: values) left onlyIfExists))
      ((KeyOperation.push left onlyIfExists (value :: values)).apply now) entry := by
  refine serves_onList hclock hstore ⟨_, rfl, fun typ hnone hne records => ?_⟩
    fun items deadline h => ?_
  · rw [if_pos ⟨hnone, hne⟩]
    exact .throw _
  by_cases hrefused : onlyIfExists ∧ items = []
  · simp only [if_pos hrefused]
    obtain ⟨rfl, rfl⟩ := hrefused
    exact does_redisPushValues_of_absent hclock h _ left
  · simp only [if_neg hrefused]
    exact does_redisPushValues_of_allowed hclock h value values hrefused

theorem serves_push (name value : Bytes) (values : List Bytes) (left : Bool) :
    Serves now s₀ key (redisPush left (name :: key :: value :: values))
      ((KeyOperation.push left false (value :: values)).apply now) entry :=
  serves_pushValues hclock hstore value values left false

theorem serves_pushX (name value : Bytes) (values : List Bytes) (left : Bool) :
    Serves now s₀ key (redisPushX left (name :: key :: value :: values))
      ((KeyOperation.push left true (value :: values)).apply now) entry :=
  serves_pushValues hclock hstore value values left true

theorem serves_lLen (name : Bytes) :
    Serves now s₀ key (redisLLen [name, key]) (KeyOperation.llen.apply now) entry := by
  refine serves_onList hclock hstore (probing_redisListValues.bind _) fun items deadline h => ?_
  rw [h.recordsOf_of]
  refine (does_redisListValues hclock h.storable h.ahead).bind ?_
  rw [List.length_map]
  exact .pure _

theorem serves_pop (name : Bytes) (left : Bool) :
    Serves now s₀ key (redisPop left [name, key]) ((KeyOperation.pop left).apply now) entry := by
  refine serves_onList hclock hstore (probing_redisListValues.bind _) fun items deadline h => ?_
  refine (does_redisListValues hclock h.storable h.ahead).bind ?_
  by_cases hitems : items = []
  · subst hitems
    obtain rfl := h.empty rfl
    rw [recordsOf_of, ← records_list_empty]
    cases left <;> exact .pure _
  · obtain ⟨item, rest, hpop, hsplit⟩ := splitPopped_one left hitems
    rw [if_neg (by simpa using hitems), hsplit, hpop]
    refine (does_redisWriteList items rest).bind (does_now.bind ?_)
    rw [List.headD_cons, redisItemPayload_bytesRecord]
    exact (does_liftExcept _).bind (.pure _)

/-- `LRANGE` and `LTRIM` read their indexes before they look at the key. -/
theorem serves_lRange (name start stop : Bytes) {first last : ℤ}
    (hstart : redisParseInt start = .ok first) (hstop : redisParseInt stop = .ok last) :
    Serves now s₀ key (redisLRange [name, key, start, stop])
      ((KeyOperation.lrange first last).apply now) entry := by
  rw [redisLRange_eq name key hstart hstop]
  refine serves_onList hclock hstore (probing_redisListValues.bind _) fun items deadline h => ?_
  rw [h.recordsOf_of]
  refine (does_redisListValues hclock h.storable h.ahead).bind ?_
  rw [List.length_map, rangeOf_eq]
  split
  · refine does_now.bind ?_
    rw [inclusiveRange_map, redisListReply_itemRecords]
    exact (does_liftExcept _).bind (.pure _)
  · exact .pure _

theorem serves_lTrim (name start stop : Bytes) {first last : ℤ}
    (hstart : redisParseInt start = .ok first) (hstop : redisParseInt stop = .ok last) :
    Serves now s₀ key (redisLTrim [name, key, start, stop])
      ((KeyOperation.ltrim first last).apply now) entry := by
  have hparsed : redisLTrim [name, key, start, stop] = replying (redisListValues key >>= fun items =>
      if (normalizeRange items.length first last).2.2 then do
        redisWriteList key (inclusiveRange items
          (normalizeRange items.length first last).1 (normalizeRange items.length first last).2.1)
        return ok
      else do
        let _ ← redisDeleteRaw key
        return ok) := by
    rw [redisLTrim, hstart, hstop]
    rfl
  rw [hparsed]
  refine serves_onList hclock hstore (probing_redisListValues.bind _) fun items deadline h => ?_
  refine (does_redisListValues hclock h.storable h.ahead).bind ?_
  rw [List.length_map, rangeOf_eq]
  split
  · rw [inclusiveRange_map]
    exact (does_redisWriteList items _).bind (.pure _)
  · rw [recordsOf_of]
    exact Does.redisDeleteRaw_bind fun _ => .pure _

end Commands

end KVLite.TypedMap
