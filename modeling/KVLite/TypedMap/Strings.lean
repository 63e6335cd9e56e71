import KVLite.TypedMap.Serves

/-!
# The string commands serve their operations

Each command on a scalar value, and each command that looks at or changes the deadline
of a key, does on the records what its operation does on the typed map.
-/

namespace KVLite.TypedMap

open Semantics BigEndian Redis

/-! ### Reading and writing a string -/

section Storage

variable {now : ℤ} {s₀ : Store} {key data : Bytes} {deadline : Option ℤ} {records : Records}

theorem does_redisType_none (hclock : Clock now) :
    Does now s₀ key (redisType key) noRecords (.ok .none) noRecords := by
  rw [← records_list_empty]
  exact does_redisType_of_ahead hclock storable_empty (by simp [Ahead])

theorem does_redisString_none (hclock : Clock now) :
    Does now s₀ key (redisString key) noRecords (.ok none) noRecords :=
  (does_redisType_none hclock).bind (.pure none)

theorem does_redisString (hclock : Clock now) (h : Fresh now (.string data) deadline) :
    Does now s₀ key (redisString key) ((Value.string data).records deadline) (.ok (some data))
      ((Value.string data).records deadline) :=
  (reads_redisString h.storable.recordable).does hclock h.ahead

theorem does_redisExpiry_none (hclock : Clock now) :
    Does now s₀ key (redisExpiry key) noRecords (.ok none) noRecords :=
  (does_redisType_none hclock).bind (.pure none)

theorem Storable.expiry_eq {value : Value} (h : Storable value deadline) :
    value.expiry deadline = deadline := by
  cases deadline with
  | none => rfl
  | some d => exact Option.filter_some_pos (decide_eq_true fun _ => (h.deadline d rfl).1)

theorem does_redisExpiry {value : Value} (hclock : Clock now) (h : Fresh now value deadline)
    (hempty : value.isEmpty = false) :
    Does now s₀ key (redisExpiry key) (value.records deadline) (.ok deadline)
      (value.records deadline) := by
  have hdoes : Does now s₀ key (redisExpiry key) _ _ _ :=
    (reads_redisExpiry h.storable.recordable).does hclock h.ahead
  rwa [hempty, if_neg Bool.false_ne_true, h.storable.expiry_eq] at hdoes

/-- A string written without a deadline also clears the deadline of a collection. -/
theorem does_redisWriteString (payload : Bytes) :
    Does now s₀ key (redisWriteString key payload 0) records (.ok ())
      (Function.update (Function.update records .value (some (bytesRecord payload 0))) .ttl none) :=
  (does_putPayload .value payload).bind (does_delete .ttl)

theorem does_redisWriteString_of_deadline {d : ℤ} (payload : Bytes) (hclock : Clock now)
    (hahead : now < d) (hdeadline : d < 2 ^ 63) :
    Does now s₀ key (redisWriteString key payload d) records (.ok ())
      (Function.update records .value (some (bytesRecord payload d))) := by
  obtain ⟨hnow, -⟩ := hclock
  have hsub : timeSub d now = d - now := by
    unfold timeSub
    omega
  rw [redisWriteString, redisWriteStringWithCodec, if_neg (by omega)]
  refine does_now.bind ?_
  simp only [hsub]
  rw [if_neg (by omega)]
  exact does_putPayload_of_deadline .value payload hahead ⟨by omega, hdeadline⟩

/-- A string written on a key that is absent or holds a string. -/
theorem does_redisWriteString_of_string (payload : Bytes) {old : Option Entry}
    (h : old = none ∨ ∃ data deadline, old = some (.string data deadline)) :
    Does now s₀ key (redisWriteString key payload 0) (recordsOf old) (.ok ())
      ((Value.string payload).records none) := by
  have hrecords : Function.update (Function.update (recordsOf old) .value
      (some (bytesRecord payload 0))) .ttl none = (Value.string payload).records none := by
    funext slot
    rcases h with rfl | ⟨data, deadline, rfl⟩ <;> cases slot <;> rfl
  rw [← hrecords]
  exact does_redisWriteString payload

/-- A string is rewritten in place. -/
theorem does_redisWriteString_of_fresh (hclock : Clock now) (h : Fresh now (.string data) deadline)
    (payload : Bytes) :
    Does now s₀ key (redisWriteString key payload (deadline.getD 0))
      ((Value.string data).records deadline) (.ok ()) ((Value.string payload).records deadline) := by
  cases deadline with
  | none => exact does_redisWriteString_of_string payload (.inr ⟨data, none, rfl⟩)
  | some d =>
    have hrecords : Function.update ((Value.string data).records (some d)) .value
        (some (bytesRecord payload d)) = (Value.string payload).records (some d) := by
      funext slot
      cases slot <;> rfl
    rw [← hrecords]
    exact does_redisWriteString_of_deadline payload hclock (h.ahead d rfl)
      (h.storable.deadline d rfl).2

end Storage

/-! ### The commands -/

section Commands

variable {now : ℤ} {s₀ : Store} {key : Bytes} {entry : Option Entry}
variable (hclock : Clock now) (hstore : StorableEntry entry)

include hclock hstore

theorem serves_get (name : Bytes) :
    Serves now s₀ key (redisGet [name, key]) (KeyOperation.get.apply now) entry :=
  serves_onString hclock hstore (probing_redisString.bind _)
    ((does_redisString_none hclock).bind (.pure _))
    fun _ _ h => (does_redisString hclock h).bind (.pure _)

theorem serves_strLen (name : Bytes) :
    Serves now s₀ key (redisStrLen [name, key]) (KeyOperation.strlen.apply now) entry :=
  serves_onString hclock hstore (probing_redisString.bind _)
    ((does_redisString_none hclock).bind (.pure _))
    fun _ _ h => (does_redisString hclock h).bind (.pure _)

theorem serves_getDel (name : Bytes) :
    Serves now s₀ key (redisGetDel [name, key]) (KeyOperation.getdel.apply now) entry :=
  serves_onString hclock hstore (probing_redisString.bind _)
    ((does_redisString_none hclock).bind (.pure _))
    fun _ _ h => (does_redisString hclock h).bind (Does.redisDeleteRaw_bind fun _ => .pure _)

omit hclock hstore in
theorem does_redisDeleteAndWriteString (payload : Bytes) {records : Records} :
    Does now s₀ key (redisDeleteAndWriteString key payload 0) records (.ok ())
      ((Value.string payload).records none) :=
  Does.redisDeleteRaw_bind fun _ => does_redisWriteString_of_string payload (.inl rfl)

theorem serves_getSet (name value : Bytes) :
    Serves now s₀ key (redisGetSet [name, key, value]) ((KeyOperation.getset value).apply now)
      entry :=
  serves_onString hclock hstore (probing_redisString.bind _)
    ((does_redisString_none hclock).bind ((does_redisDeleteAndWriteString value).bind (.pure _)))
    fun _ _ h => (does_redisString hclock h).bind
      ((does_redisDeleteAndWriteString value).bind (.pure _))

theorem serves_set (go : GoRuntime) (name value : Bytes) :
    Serves now s₀ key (redisSet go [name, key, value]) ((KeyOperation.set value).apply now)
      entry := by
  refine Does.replying (Fallible.Computes.bind (.pure _) ?_)
  exact (does_redisType hclock hstore).bind (Fallible.Computes.bind (.pure _)
    (Fallible.Computes.bind (.pure _) ((does_redisDeleteAndWriteString value).bind (.pure _))))

theorem serves_setNX (name value : Bytes) :
    Serves now s₀ key (redisSetNX [name, key, value]) ((KeyOperation.setnx value).apply now)
      entry := by
  refine Does.replying ((does_redisType hclock hstore).bind ?_)
  cases live now entry with
  | none => exact (does_redisWriteString_of_string value (.inl rfl)).bind (.pure _)
  | some e =>
    rw [if_pos (typeOf_some_ne_none e)]
    exact .pure _

theorem serves_append (name suffix : Bytes) :
    Serves now s₀ key (redisAppend [name, key, suffix]) ((KeyOperation.append suffix).apply now)
      entry := by
  refine serves_onString hclock hstore (probing_redisString.bind _) ?_ fun data deadline h => ?_
  · exact (does_redisString_none hclock).bind ((does_redisExpiry_none hclock).bind
      ((does_redisWriteString_of_string _ (.inl rfl)).bind (.pure _)))
  · exact (does_redisString hclock h).bind ((does_redisExpiry hclock h rfl).bind
      ((does_redisWriteString_of_fresh hclock h _).bind (.pure _)))

theorem serves_type (name : Bytes) :
    Serves now s₀ key (redisTypeCommand [name, key]) (KeyOperation.type.apply now) entry :=
  Does.replying ((does_redisType hclock hstore).bind (.pure _))

end Commands

/-! ### Deadlines -/

/-- `PEXPIREAT` takes every number of milliseconds whose nanoseconds fit 64 bits. -/
theorem redisExpiryFromCommand_pexpireat (time amount : ℤ) :
    redisExpiryFromCommand time (text "PEXPIREAT") amount =
      if IsInt64 (amount * millisecond) then .ok (amount * millisecond)
      else .error invalidExpireTime := by
  have hunit : (text "P").isPrefixOf (text "PEXPIREAT") = true := by decide
  have hat : (text "AT").isSuffixOf (text "PEXPIREAT") = true := by decide
  have hmax : redisMaxInt64.tdiv millisecond = 9223372036854 := by decide
  have hmin : redisMinInt64.tdiv millisecond = -9223372036854 := by decide
  have hfits : (amount > 9223372036854 ∨ amount < -9223372036854) ↔
      ¬ IsInt64 (amount * millisecond) := by
    unfold IsInt64 millisecond
    omega
  unfold redisExpiryFromCommand
  simp only [hunit, hat, if_true, hmax, hmin, hfits]
  by_cases h : IsInt64 (amount * millisecond)
  · rw [if_neg (not_not.mpr h), if_pos h]
  · rw [if_pos h, if_neg h]

section Deadlines

variable {now : ℤ} {s₀ : Store} {key : Bytes} {entry : Option Entry}
variable (hclock : Clock now)

include hclock

theorem does_unixNano {records : Records} :
    Does now s₀ key unixNano records (.ok now) records := by
  have hdoes : Does now s₀ key unixNano records (.ok (wrapInt64 now)) records :=
    .of_run fun _ _ => run_unixNano
  rwa [hclock.wrap] at hdoes

/-- A new deadline on a live entry. -/
theorem does_redisSetExpiry {e : Entry} {d : ℤ} (h : Fresh now e.value e.deadline)
    (hd : IsInt64 d) (hahead : now < d) :
    Does now s₀ key (redisSetExpiry key d) (e.value.records e.deadline) (.ok true)
      (e.value.records (some d)) := by
  obtain ⟨value, deadline, hnonempty⟩ := e
  have hprobe : Does now s₀ key (redisType key) (value.records deadline) (.ok value.typ)
      (value.records deadline) := by
    have hdoes : Does now s₀ key (redisType key) _ _ _ :=
      does_redisType_of_ahead hclock h.storable h.ahead
    rwa [hnonempty] at hdoes
  refine hprobe.bind ?_
  rw [if_neg (Value.typ_ne_none value)]
  refine (does_unixNano hclock).bind ?_
  rw [if_neg (by omega)]
  have hcollection (htyp : value.typ ≠ .string) : Does now s₀ key
      (do Transport.put (collectionTTLKey key) (encodeRedisExpiry d); return true)
      (value.records deadline) (.ok true) (value.records (some d)) := by
    rw [← Value.update_records_ttl htyp deadline (some d)]
    exact (does_put .ttl (encodeRedisExpiry d)).bind (.pure _)
  cases value with
  | string data =>
    refine (does_get .value).bind ?_
    simp only [Value.records, unmarshalEnvelope_bytesRecord h.storable.recordable.isInt64]
    refine (does_liftExcept _).bind ((does_redisWriteString_of_deadline data hclock hahead hd.2).bind
      ((does_delete .ttl).ignoringError.bind ?_))
    rw [show Function.update (Function.update ((Value.string data).records deadline) .value
      (some (bytesRecord data d))) .ttl none = (Value.string data).records (some d) by
        funext slot; cases slot <;> rfl]
    exact .pure _
  | _ => exact hcollection (by simp [Value.typ])

theorem serves_pexpireat (hstore : StorableEntry entry) (name : Bytes) {amount : Bytes} {ms : ℤ}
    (hparse : redisParseInt amount = .ok ms) (hfits : IsInt64 (ms * millisecond)) :
    Serves now s₀ key (redisExpireCommand (text "PEXPIREAT") [name, key, amount])
      ((KeyOperation.expireAt (ms * millisecond)).apply now) entry := by
  refine Does.replying ?_
  simp only [hparse]
  refine (does_liftExcept _).bind (does_now.bind ?_)
  rw [redisExpiryFromCommand_pexpireat, if_pos hfits]
  refine (does_liftExcept _).bind ?_
  cases hlive : live now entry with
  | none =>
    have hset : Does now s₀ key (redisSetExpiry key (ms * millisecond)) (recordsOf entry)
        (.ok false) noRecords := by
      have hprobe : Does now s₀ key (redisType key) _ _ _ := does_redisType hclock hstore
      rw [hlive] at hprobe
      exact hprobe.bind (.pure _)
    exact hset.bind (.pure _)
  | some e =>
    have hset : Does now s₀ key (redisSetExpiry key (ms * millisecond)) (recordsOf entry)
        (.ok true) (recordsOf (if ms * millisecond ≤ now then none
          else some { e with deadline := some (ms * millisecond) })) := by
      by_cases hpassed : ms * millisecond ≤ now
      · have hprobe : Does now s₀ key (redisType key) _ _ _ := does_redisType hclock hstore
        rw [hlive] at hprobe
        refine hprobe.bind ?_
        rw [if_neg (typeOf_some_ne_none e)]
        refine (does_unixNano hclock).bind ?_
        rw [if_pos hpassed, if_pos hpassed]
        exact Does.redisDeleteRaw_bind fun _ => .pure _
      · rw [if_neg hpassed]
        refine Does.of_live hclock hstore ?_
        rw [hlive]
        exact does_redisSetExpiry hclock (fresh_of_live hstore hlive) hfits (by omega)
    exact hset.bind (.pure _)

/-- The deadline of a live entry is removed. -/
theorem does_redisPersist {e : Entry} {d : ℤ} (h : Fresh now e.value e.deadline)
    (hd : e.deadline = some d) :
    Does now s₀ key (redisPersist key) (e.value.records e.deadline) (.ok true)
      (e.value.records none) := by
  obtain ⟨value, deadline, hnonempty⟩ := e
  simp only at hd
  subst hd
  have hprobe : Does now s₀ key (redisType key) (value.records (some d)) (.ok value.typ)
      (value.records (some d)) := by
    have hdoes : Does now s₀ key (redisType key) _ _ _ :=
      does_redisType_of_ahead hclock h.storable h.ahead
    rwa [hnonempty] at hdoes
  refine hprobe.bind ?_
  rw [if_neg (Value.typ_ne_none value)]
  refine (does_redisExpiry hclock h hnonempty).bind ?_
  have hcollection (htyp : value.typ ≠ .string) : Does now s₀ key
      (do Transport.delete (collectionTTLKey key); return true)
      (value.records (some d)) (.ok true) (value.records none) := by
    rw [← Value.update_records_ttl htyp (some d) none]
    exact (does_delete .ttl).bind (.pure _)
  cases value with
  | string data =>
    refine (does_get .value).bind ?_
    simp only [Value.records, unmarshalEnvelope_bytesRecord h.storable.recordable.isInt64]
    refine (does_liftExcept _).bind ((does_putPayload .value data).bind ?_)
    rw [show Function.update ((Value.string data).records (some d)) .value
      (some (bytesRecord data 0)) = (Value.string data).records none by
        funext slot; cases slot <;> rfl]
    exact .pure _
  | _ => exact hcollection (by simp [Value.typ])

theorem serves_persist (hstore : StorableEntry entry) (name : Bytes) :
    Serves now s₀ key (redisPersistCommand [name, key]) (KeyOperation.persist.apply now) entry := by
  refine Does.replying ?_
  cases hlive : live now entry with
  | none =>
    have hpersist : Does now s₀ key (redisPersist key) (recordsOf entry) (.ok false) noRecords := by
      have hprobe : Does now s₀ key (redisType key) _ _ _ := does_redisType hclock hstore
      rw [hlive] at hprobe
      exact hprobe.bind (.pure _)
    exact hpersist.bind (.pure _)
  | some e =>
    have hfresh := fresh_of_live hstore hlive
    have hprobe : Does now s₀ key (redisType key) _ _ _ := does_redisType hclock hstore
    rw [hlive] at hprobe
    cases hd : e.deadline with
    | some d =>
      have hpersist : Does now s₀ key (redisPersist key) (recordsOf entry) (.ok true)
          (e.value.records none) := by
        refine Does.of_live hclock hstore ?_
        rw [hlive]
        exact does_redisPersist hclock hfresh hd
      obtain ⟨value, deadline, hnonempty⟩ := e
      simp only at hd
      subst hd
      exact hpersist.bind (.pure _)
    | none =>
      have hpersist : Does now s₀ key (redisPersist key) (recordsOf entry) (.ok false)
          (e.value.records e.deadline) := by
        refine hprobe.bind ?_
        rw [if_neg (typeOf_some_ne_none e)]
        refine (does_redisExpiry hclock hfresh e.nonempty).bind ?_
        rw [hd]
        exact .pure _
      obtain ⟨value, deadline, hnonempty⟩ := e
      simp only at hd
      subst hd
      exact hpersist.bind (.pure _)

end Deadlines

end KVLite.TypedMap
