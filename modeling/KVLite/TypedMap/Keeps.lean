import KVLite.TypedMap.Represents

/-!
# Code that keeps the records of an entry

What the writing code of the Redis commands leaves when it starts from the records of an
entry: the records of an entry again, whatever the clock shows. A store is typed when
every record belongs to a key and every key has the records of an entry, and code on one
key keeps a store typed.
-/

namespace KVLite.TypedMap

open Semantics Fallible BigEndian Redis

/-- After `x`, the key has the records of an entry again. -/
def Keeps {α : Type} (times : ℤ → Prop) (s₀ : Store) (key : Bytes) (x : Action α) : Prop :=
  ∀ entry, RecordableEntry entry → Leads times s₀ key x (recordsOf entry) fun _ => Kept

section Keeps

variable {α β : Type} {times : ℤ → Prop} {s₀ : Store} {key : Bytes}

theorem RecordableEntry.kept {entry : Option Entry} (h : RecordableEntry entry) :
    Kept (recordsOf entry) := ⟨entry, h, rfl⟩

/-- The entry of a key as a value, an absent key being an empty list. -/
theorem exists_recordable {entry : Option Entry} (h : RecordableEntry entry) :
    ∃ value deadline, recordsOf entry = value.records deadline ∧ Recordable value deadline := by
  cases entry with
  | none => exact ⟨.list [], none, records_none_eq, recordable_empty⟩
  | some e => exact ⟨e.value, e.deadline, rfl, h e rfl⟩

theorem Keeps.leads {x : Action α} (hx : Keeps times s₀ key x) {records : Records}
    (h : Kept records) : Leads times s₀ key x records fun _ => Kept := by
  obtain ⟨entry, hentry, rfl⟩ := h
  exact hx entry hentry

namespace Keeps

theorem pure (value : α) : Keeps times s₀ key (pure value) := fun _ h => .pure h.kept

theorem throw (err : GoError) : Keeps times s₀ key (throw err : Action α) := fun _ h => .throw h.kept

theorem bind {x : Action α} {f : α → Action β} (hx : Keeps times s₀ key x)
    (hf : ∀ value, Keeps times s₀ key (f value)) : Keeps times s₀ key (x >>= f) := fun entry h =>
  (hx entry h).bind (fun value _ hkept => (hf value).leads hkept) fun _ _ hkept => hkept

theorem ite {p : Prop} [Decidable p] {x y : Action α} (hx : Keeps times s₀ key x)
    (hy : Keeps times s₀ key y) : Keeps times s₀ key (if p then x else y) := by
  split
  exacts [hx, hy]

theorem liftExcept (x : Except GoError α) : Keeps times s₀ key (liftExcept x) := fun _ h =>
  leads_liftExcept h.kept

theorem liftExcept_bind {x : Except GoError α} {f : α → Action β}
    (hf : ∀ value, x = .ok value → Keeps times s₀ key (f value)) :
    Keeps times s₀ key (KVLite.liftExcept x >>= f) := by
  intro entry h
  cases x with
  | ok value => exact .seq (leads_liftExcept (hf value rfl entry h))
  | error err => exact .seq (leads_liftExcept h.kept)

theorem now : Keeps times s₀ key KVLite.now := fun _ h => leads_now fun _ => h.kept

theorem unixNano : Keeps times s₀ key Redis.unixNano := fun _ h => leads_unixNano fun _ => h.kept

theorem redisDeleteRaw : Keeps times s₀ key (redisDeleteRaw key) := fun _ _ =>
  leads_redisDeleteRaw fun _ => kept_noRecords

theorem ignoringError {x : Action α} (hx : Keeps times s₀ key x) :
    Keeps times s₀ key (ignoringError x) := fun entry h => leads_ignoringError (hx entry h)

/-- Code that only reads the clock. -/
theorem of_clockOnly {x : Action α} (hx : Fallible.Uses (fun call : Call => call = .now) x) :
    Keeps times s₀ key x := fun entry h s hs => by
  have hkeeps := Program.wp_of_uses (E := embeddedAt times)
    (I := fun s => At s₀ key s (recordsOf entry)) (fun call hcall s hs => ?_) hx hs
  · exact Program.wp_mono (fun _ s' hs' => ⟨_, hs', h.kept⟩) hkeeps
  · subst hcall
    exact fun _ _ => hs

/-- Code that reads a record and goes on. -/
theorem get_bind (slot : Slot) {f : Option Bytes → Action α}
    (hf : ∀ found, Keeps times s₀ key (f found)) :
    Keeps times s₀ key (Transport.get (slot.storageKey key) >>= f) := fun entry h =>
  .seq (leads_get slot (hf _ entry h))

/-- Code after a probe. -/
theorem redisType_bind {f : RedisType → Action α} (hf : ∀ typ, Keeps times s₀ key (f typ)) :
    Keeps times s₀ key (redisType key >>= f) := fun _ h =>
  leads_redisType_bind h fun entry' hentry' _ => hf _ entry' hentry'

theorem redisType : Keeps times s₀ key (redisType key) := by
  have h : Keeps times s₀ key (Redis.redisType key >>= Pure.pure) :=
    redisType_bind fun typ => .pure typ
  rwa [bind_pure] at h

/-- Code that only reads. -/
theorem of_reads {x : Action α} (h : ∀ value deadline, Recordable value deadline →
    ∃ found gone, Reads times s₀ key x value deadline found gone) : Keeps times s₀ key x := by
  intro entry hentry
  obtain ⟨value, deadline, hrecords, hvalue⟩ := exists_recordable hentry
  obtain ⟨found, gone, hreads⟩ := h value deadline hvalue
  rw [hrecords]
  exact hreads.leads (fun _ => hrecords ▸ hentry.kept) fun _ => kept_noRecords

theorem redisString : Keeps times s₀ key (redisString key) :=
  .of_reads fun _ _ h => ⟨_, _, reads_redisString h⟩

theorem redisExpiry : Keeps times s₀ key (redisExpiry key) :=
  .of_reads fun _ _ h => ⟨_, _, reads_redisExpiry h⟩

theorem redisHashField (field : Bytes) : Keeps times s₀ key (redisHashField key field) :=
  .of_reads fun _ _ h => ⟨_, _, reads_redisHashField h field⟩

theorem redisHashEntries : Keeps times s₀ key (redisHashEntries key) :=
  .of_reads fun _ _ h => ⟨_, _, reads_redisHashEntries h⟩

theorem redisSetMembers : Keeps times s₀ key (redisSetMembers key) :=
  .of_reads fun _ _ h => ⟨_, _, reads_redisSetMembers h⟩

theorem redisListValues : Keeps times s₀ key (redisListValues key) :=
  .of_reads fun _ _ h => ⟨_, _, reads_redisListValues h⟩

end Keeps

/-- Code that reads the values of one type, on an entry. -/
theorem leads_of_readAs {x : Action α} {typ : RedisType} {absent : α} {found : Value → α}
    (hreads : ∀ {value deadline}, Recordable value deadline → Reads times s₀ key x value deadline
      (value.readAs typ absent (found value)) (.ok absent))
    {entry : Option Entry} (hentry : RecordableEntry entry) {post : Except GoError α → Records → Prop}
    (hnone : post (.ok absent) noRecords)
    (hfound : ∀ e ∈ entry, e.value.typ = typ → post (.ok (found e.value)) (recordsOf entry))
    (herror : ∀ err, post (.error err) (recordsOf entry)) :
    Leads times s₀ key x (recordsOf entry) post := by
  cases entry with
  | none =>
    rw [recordsOf, records_none_eq]
    exact (hreads recordable_empty).leads (fun _ => records_none_eq ▸ hnone) fun _ => hnone
  | some e =>
    refine (hreads (hentry e rfl)).leads (fun _ => ?_) fun _ => hnone
    rw [Value.readAs, e.nonempty, if_neg Bool.false_ne_true]
    split
    exacts [hfound e rfl ‹_›, herror _]

theorem exists_string_of_typ {e : Entry} (h : e.value.typ = .string) :
    ∃ data deadline, e = .string data deadline := by
  obtain ⟨value, deadline, hnonempty⟩ := e
  cases value with
  | string data => exact ⟨data, deadline, rfl⟩
  | _ => cases h

theorem leads_redisString {entry : Option Entry} (hentry : RecordableEntry entry)
    {post : Except GoError (Option Bytes) → Records → Prop}
    (hnone : post (.ok none) noRecords)
    (hstring : ∀ data deadline, entry = some (.string data deadline) →
      post (.ok (some data)) (recordsOf entry))
    (herror : ∀ err, post (.error err) (recordsOf entry)) :
    Leads times s₀ key (redisString key) (recordsOf entry) post := by
  refine leads_of_readAs reads_redisString hentry hnone (fun e he htyp => ?_) herror
  obtain ⟨data, deadline, rfl⟩ := exists_string_of_typ htyp
  exact hstring data deadline he

theorem leads_redisExpiry {entry : Option Entry} (hentry : RecordableEntry entry)
    {post : Except GoError (Option ℤ) → Records → Prop}
    (h : ∀ expiresAt entry', entry' = entry ∨ entry' = none →
      post (.ok expiresAt) (recordsOf entry')) :
    Leads times s₀ key (redisExpiry key) (recordsOf entry) post := by
  obtain ⟨value, deadline, hrecords, hvalue⟩ := exists_recordable hentry
  rw [hrecords]
  exact (reads_redisExpiry hvalue).leads (fun _ => hrecords ▸ h _ entry (.inl rfl))
    fun _ => h _ none (.inr rfl)

/-! ### Writing strings -/

theorem kept_string {payload : Bytes} {expiresAt : ℤ} (h : IsInt64 expiresAt) :
    Kept ((Value.string payload).records (some expiresAt)) :=
  Recordable.kept (.of_typ_ne_list (by rintro _ ⟨⟩; exact h) (by simp [Value.typ])) nofun

/-- The record of a string takes the place of the record of another one. -/
theorem update_recordsOf_value {entry : Option Entry}
    (hold : entry = none ∨ ∃ data deadline, entry = some (.string data deadline))
    (payload : Bytes) (d : ℤ) :
    Function.update (recordsOf entry) .value (some (bytesRecord payload d)) =
      (Value.string payload).records (some d) := by
  funext slot
  rcases hold with rfl | ⟨data, deadline, rfl⟩ <;> cases slot <;> rfl

/-- A string is written to a key that is absent or holds a string, or the key is removed
because its deadline has passed. -/
theorem leads_redisWriteString {entry : Option Entry}
    (hold : entry = none ∨ ∃ data deadline, entry = some (.string data deadline))
    (payload : Bytes) (expiresAt : ℤ) {post : Except GoError Unit → Records → Prop}
    (hnone : post (.ok ()) noRecords)
    (hstring : ∀ d, IsInt64 d → post (.ok ()) ((Value.string payload).records (some d))) :
    Leads times s₀ key (redisWriteString key payload expiresAt) (recordsOf entry) post := by
  have hcleared : ∀ d, Function.update ((Value.string payload).records (some d)) .ttl none =
      (Value.string payload).records (some d) := by
    intro d
    funext slot
    cases slot <;> rfl
  refine .ite (fun _ => ?_) fun _ => ?_
  · refine .seq (leads_putPayload .value 0 fun d hd _ => leads_delete .ttl ?_)
    rw [update_recordsOf_value hold, hcleared]
    exact hstring d hd
  · refine .seq (leads_now fun time => .ite (fun _ => ?_) fun _ => ?_)
    · exact .seq (leads_redisDeleteRaw fun _ => .pure hnone)
    · refine leads_putPayload .value _ fun d hd _ => ?_
      rw [update_recordsOf_value hold]
      exact hstring d hd

/-- A string is written before the rest of a command. -/
theorem leads_redisWriteString_bind {entry : Option Entry}
    (hold : entry = none ∨ ∃ data deadline, entry = some (.string data deadline))
    (payload : Bytes) (expiresAt : ℤ) {f : Unit → Action α} (hf : Keeps times s₀ key (f ())) :
    Leads times s₀ key (redisWriteString key payload expiresAt >>= f) (recordsOf entry)
      fun _ => Kept :=
  .seq (leads_redisWriteString hold payload expiresAt (hf.leads kept_noRecords)
    fun _ hd => hf.leads (kept_string hd))

theorem Keeps.redisDeleteAndWriteString (payload : Bytes) (expiresAt : ℤ) :
    Keeps times s₀ key (redisDeleteAndWriteString key payload expiresAt) := fun _ _ =>
  .seq (leads_redisDeleteRaw fun _ =>
    leads_redisWriteString (.inl rfl) payload expiresAt kept_noRecords fun _ hd => kept_string hd)

/-- The deadline of a string is read, and a string is written. -/
theorem leads_redisExpiry_bind_of_string {entry : Option Entry} (h : RecordableEntry entry)
    (hold : entry = none ∨ ∃ data deadline, entry = some (.string data deadline))
    {f : Option ℤ → Action α} {post : Except GoError α → Records → Prop}
    (hf : ∀ expiresAt entry', entry' = none ∨ (∃ data deadline, entry' = some (.string data deadline)) →
      Leads times s₀ key (f expiresAt) (recordsOf entry') post) :
    Leads times s₀ key (Redis.redisExpiry key >>= f) (recordsOf entry) post :=
  .seq (leads_redisExpiry h fun expiresAt entry' heq => hf expiresAt entry' <| by
    rcases heq with rfl | rfl
    exacts [hold, .inl rfl])

/-! ### Deadlines -/

/-- A key without its deadline record. -/
theorem Kept.delete_ttl {records : Records} (h : Kept records) :
    Kept (Function.update records .ttl none) := by
  obtain ⟨entry, hentry, rfl⟩ := h
  cases entry with
  | none =>
    have hsame : Function.update (recordsOf none) .ttl none = recordsOf none := by
      funext slot
      cases slot <;> rfl
    rw [hsame]
    exact hentry.kept
  | some e =>
    obtain ⟨value, deadline, hnonempty⟩ := e
    have hvalue := hentry _ rfl
    cases value with
    | string data =>
      have hsame : Function.update ((Value.string data).records deadline) .ttl none =
          (Value.string data).records deadline := by
        funext slot
        cases slot <;> rfl
      rw [recordsOf, hsame]
      exact hentry.kept
    | _ =>
      rw [recordsOf, show (none : Option Bytes) = Option.map encodeRedisExpiry none from rfl,
        Value.update_records_ttl (by simp [Value.typ])]
      exact Recordable.kept ⟨by simp, hvalue.list⟩ fun _ => rfl

theorem Keeps.deleteTTL : Keeps times s₀ key (Transport.delete (collectionTTLKey key)) :=
  fun _ h => leads_delete .ttl h.kept.delete_ttl

theorem Keeps.redisSetExpiry {expiresAt : ℤ} (hexpires : IsInt64 expiresAt) :
    Keeps times s₀ key (redisSetExpiry key expiresAt) := by
  intro entry h
  refine leads_redisType_bind h fun entry' hentry' _ => ?_
  refine .ite (fun _ => .pure hentry'.kept) fun hne => .seq (leads_unixNano fun time => ?_)
  refine .ite (fun _ => .seq (leads_redisDeleteRaw fun _ => .pure kept_noRecords)) fun _ => ?_
  cases entry' with
  | none => exact absurd rfl hne
  | some e =>
    obtain ⟨value, deadline, hnonempty⟩ := e
    have hvalue := hentry' _ rfl
    cases value with
    | string data =>
      refine .ite (fun _ => .seq (leads_get .value (.seq (leads_liftExcept ?_)))) (absurd rfl)
      rw [unmarshalEnvelope_bytesRecord hvalue.isInt64]
      exact leads_redisWriteString_bind (.inr ⟨data, deadline, rfl⟩) data expiresAt
        (Keeps.deleteTTL.ignoringError.bind fun _ => .pure true)
    | _ =>
      refine .ite (fun htyp => by cases htyp) fun _ => .seq (leads_put .ttl (.pure ?_))
      rw [recordsOf, show some (encodeRedisExpiry expiresAt) =
        Option.map encodeRedisExpiry (some expiresAt) from rfl,
        Value.update_records_ttl (by simp [Value.typ])]
      exact Recordable.kept ⟨by rintro _ ⟨⟩; exact hexpires, hvalue.list⟩
        fun hempty => by rw [hnonempty] at hempty; cases hempty

theorem Keeps.redisPersist : Keeps times s₀ key (redisPersist key) := by
  intro entry h
  refine leads_redisType_bind h fun entry' hentry' _ => ?_
  refine .ite (fun _ => .pure hentry'.kept) fun _ => ?_
  refine .seq (leads_redisExpiry hentry' fun expiresAt entry'' heq => ?_)
  have hentry'' : RecordableEntry entry'' := by
    rcases heq with rfl | rfl
    exacts [hentry', recordableEntry_none]
  cases expiresAt with
  | none => exact .pure hentry''.kept
  | some d =>
    refine .ite (fun htyp => .seq (leads_get .value ?_)) fun _ => ?_
    · rcases heq with rfl | rfl
      · cases entry'' with
        | none => cases htyp
        | some e =>
          obtain ⟨value, deadline, hnonempty⟩ := e
          cases value with
          | string data =>
            refine .seq (leads_liftExcept ?_)
            rw [unmarshalEnvelope_bytesRecord (hentry'' _ rfl).isInt64]
            refine .seq (leads_putPayload .value 0 fun d hd _ => .pure ?_)
            exact (update_recordsOf_value (.inr ⟨data, deadline, rfl⟩) data d).symm ▸ kept_string hd
          | _ => cases htyp
      · exact .pure kept_noRecords
    · exact (Keeps.deleteTTL.bind fun _ => .pure true).leads hentry''.kept

/-! ### Hashes and sets -/

theorem kept_hash {fields : Hash} {deadline : Option ℤ} (hdeadline : ∀ d ∈ deadline, IsInt64 d)
    (hfields : fields.size ≠ 0) : Kept ((Value.hash fields).records deadline) :=
  Recordable.kept (.of_typ_ne_list hdeadline (by simp [Value.typ]))
    fun hempty => absurd (Value.isEmpty_hash.mp hempty) hfields

theorem kept_set {members : Members} {deadline : Option ℤ} (hdeadline : ∀ d ∈ deadline, IsInt64 d)
    (hmembers : members.size ≠ 0) : Kept ((Value.set members).records deadline) :=
  Recordable.kept (.of_typ_ne_list hdeadline (by simp [Value.typ]))
    fun hempty => absurd (Value.isEmpty_set.mp hempty) hmembers

/-! ### Lists -/

theorem isEmpty_list_of_ne_nil {items : List Bytes} (h : items ≠ []) :
    (Value.list items).isEmpty = false := by
  cases items with
  | nil => exact absurd rfl h
  | cons item items => rfl

theorem Recordable.kept_of_ne_nil {items : List Bytes} {deadline : Option ℤ}
    (h : Recordable (.list items) deadline) (hitems : items ≠ []) :
    Kept ((Value.list items).records deadline) :=
  h.kept fun hempty => by rw [isEmpty_list_of_ne_nil hitems] at hempty; cases hempty

/-- The items of a list, and what they are when there is one. -/
theorem leads_redisListValues_bind {entry : Option Entry} (hentry : RecordableEntry entry)
    {f : List Bytes → Action α} {post : Except GoError α → Records → Prop}
    (hnone : Leads times s₀ key (f []) noRecords post)
    (hlist : ∀ items deadline nonempty, entry = some ⟨.list items, deadline, nonempty⟩ → items ≠ [] →
      Recordable (.list items) deadline →
      Leads times s₀ key (f (itemRecords items)) ((Value.list items).records deadline) post)
    (herror : ∀ err, post (.error err) (recordsOf entry)) :
    Leads times s₀ key (redisListValues key >>= f) (recordsOf entry) post := by
  refine .seq (leads_of_readAs reads_redisListValues hentry hnone (fun e he htyp => ?_) herror)
  cases he
  obtain ⟨value, deadline, hnonempty⟩ := e
  cases value with
  | list items =>
    exact hlist items deadline hnonempty rfl (by rintro rfl; cases hnonempty) (hentry _ rfl)
  | _ => cases htyp

/-- The items are written in one piece; without items the key is removed. -/
theorem leads_redisWriteList {old : List Bytes} {deadline : Option ℤ} (items : List Bytes)
    {post : Except GoError Unit → Records → Prop}
    (h : post (.ok ()) (recordsOf (Entry.of (.list items) deadline))) :
    Leads times s₀ key (redisWriteList key (itemRecords items)) ((Value.list old).records deadline)
      post := by
  rw [recordsOf_of] at h
  cases items with
  | nil => exact .ite (fun _ => .seq (leads_redisDeleteRaw fun _ => .pure h)) (absurd rfl)
  | cons item items =>
    refine .ite (fun hzero => by cases hzero) fun _ => leads_put .list ?_
    have hrecords : Function.update ((Value.list old).records deadline) .list
        (some (encodeList (itemRecords (item :: items)))) =
          (Value.list (item :: items)).records deadline := by
      funext slot
      cases slot <;> rfl
    rw [hrecords]
    exact h

/-- A hash, or an absent key as one without fields. -/
theorem exists_hash_of_typeOf {entry : Option Entry}
    (h : ¬(typeOf entry ≠ .none ∧ typeOf entry ≠ .hash)) :
    ∃ fields deadline, recordsOf entry = (Value.hash fields).records deadline ∧
      typeOf entry = (if (Value.hash fields).isEmpty then .none else .hash) ∧
        ((Value.hash fields).isEmpty = true → deadline = none) ∧
          (RecordableEntry entry → ∀ d ∈ deadline, IsInt64 d) := by
  cases entry with
  | none =>
    exact ⟨∅, none, records_hash_empty.symm, (if_pos Std.ExtTreeMap.isEmpty_empty).symm, fun _ => rfl,
      by simp⟩
  | some e =>
    obtain ⟨value, deadline, hnonempty⟩ := e
    cases value with
    | hash fields =>
      refine ⟨fields, deadline, rfl, by rw [hnonempty]; rfl, fun hempty => ?_,
        fun hentry => (hentry _ rfl).deadline⟩
      rw [hnonempty] at hempty
      cases hempty
    | _ => exact absurd ⟨typeOf_some_ne_none _, by simp [typeOf, Value.typ]⟩ h

@[inherit_doc exists_hash_of_typeOf]
theorem exists_set_of_typeOf {entry : Option Entry}
    (h : ¬(typeOf entry ≠ .none ∧ typeOf entry ≠ .set)) :
    ∃ members deadline, recordsOf entry = (Value.set members).records deadline ∧
      typeOf entry = (if (Value.set members).isEmpty then .none else .set) ∧
        ((Value.set members).isEmpty = true → deadline = none) ∧
          (RecordableEntry entry → ∀ d ∈ deadline, IsInt64 d) := by
  cases entry with
  | none =>
    exact ⟨∅, none, records_set_empty.symm, (if_pos Std.ExtTreeSet.isEmpty_empty).symm, fun _ => rfl,
      by simp⟩
  | some e =>
    obtain ⟨value, deadline, hnonempty⟩ := e
    cases value with
    | set members =>
      refine ⟨members, deadline, rfl, by rw [hnonempty]; rfl, fun hempty => ?_,
        fun hentry => (hentry _ rfl).deadline⟩
      rw [hnonempty] at hempty
      cases hempty
    | _ => exact absurd ⟨typeOf_some_ne_none _, by simp [typeOf, Value.typ]⟩ h

theorem eq_none_of_typeOf {entry : Option Entry} (h : typeOf entry = .none) : entry = none := by
  cases entry with
  | none => rfl
  | some e => exact absurd h (typeOf_some_ne_none e)

end Keeps

/-! ### The store -/

/-- Every record belongs to a short key, and the records of every short key are those of
an entry. -/
structure TypedStore (s : Store) : Prop where
  layout : ∀ storageKey, (s[storageKey]?).isSome → ∃ key, ShortName key ∧ RecordOf key storageKey
  entry : ∀ key, ShortName key → ∃ entry, RecordableEntry entry ∧ At s key s (recordsOf entry)

theorem typedStore_of_no_record {s : Store} (h : ∀ storageKey : Bytes, s[storageKey]? = none) :
    TypedStore s where
  layout storageKey hsome := by
    rw [h] at hsome
    cases hsome
  entry _ _ := ⟨none, recordableEntry_none, fun _ => h _, fun _ _ => rfl⟩

theorem typedStore_empty : TypedStore ∅ :=
  typedStore_of_no_record fun _ => Std.ExtTreeMap.getElem?_empty

/-- Code on one key leaves the records of the others. -/
theorem At.of_ne {s s' : Store} {key key' : Bytes} {records records' : Records}
    (hs' : At s key s' records) (hkey : ShortName key) (hkey' : ShortName key') (hne : key' ≠ key)
    (hs : At s key' s records') : At s' key' s' records' where
  records slot := by
    rw [hs'.frame, hs.records]
    exact fun hrecord => hne (eq_of_recordOf hkey' hkey (recordOf_iff.mpr ⟨slot, rfl⟩) hrecord)
  frame _ _ := rfl

/-- The records of one key change, and no others. -/
theorem TypedStore.update {s s' : Store} {key : Bytes} {records : Records} (h : TypedStore s)
    (hkey : ShortName key) (hs' : At s key s' records) (hkept : Kept records) : TypedStore s' where
  layout storageKey hsome := by
    by_cases hrecord : RecordOf key storageKey
    · exact ⟨key, hkey, hrecord⟩
    · rw [hs'.frame storageKey hrecord] at hsome
      exact h.layout storageKey hsome
  entry key' hkey' := by
    by_cases heq : key' = key
    · subst heq
      obtain ⟨entry, hentry, rfl⟩ := hkept
      exact ⟨entry, hentry, hs'.records, fun _ _ => rfl⟩
    · obtain ⟨entry, hentry, hs⟩ := h.entry key' hkey'
      exact ⟨entry, hentry, hs'.of_ne hkey hkey' heq hs⟩

/-- Code that keeps a store typed, whatever the clock shows. -/
def Maintains {α : Type} (times : ℤ → Prop) (x : Action α) : Prop :=
  ∀ s, TypedStore s →
    Ensures (embeddedAt times) x s (fun _ => TypedStore) (fun _ => TypedStore)

/-- A program that keeps a store typed. -/
def MaintainsReply {α : Type} (times : ℤ → Prop) (p : Program Calls α) : Prop :=
  ∀ s, TypedStore s → p.wp (embeddedAt times) (fun _ => TypedStore) s

section Maintains

variable {α β : Type} {times : ℤ → Prop} {key : Bytes}

theorem TypedStore.ensures_of_leads {s : Store} {x : Action α} (h : TypedStore s)
    (hkey : ShortName key) {P : Except GoError α → Records → Prop}
    (hx : ∀ entry, RecordableEntry entry → At s key s (recordsOf entry) →
      Leads times s key x (recordsOf entry) fun result records => Kept records ∧ P result records) :
    Ensures (embeddedAt times) x s
      (fun value s' => TypedStore s' ∧ ∃ records, At s key s' records ∧ P (.ok value) records)
      (fun err s' => TypedStore s' ∧ ∃ records, At s key s' records ∧ P (.error err) records) := by
  obtain ⟨entry, hentry, hs⟩ := h.entry key hkey
  refine Program.wp_mono ?_ (hx entry hentry hs s hs)
  rintro (err | value) s' ⟨records, hs', hkept, hP⟩ <;>
    exact ⟨h.update hkey hs' hkept, records, hs', hP⟩

theorem TypedStore.ensures {s : Store} {x : Action α} (h : TypedStore s) (hkey : ShortName key)
    (hx : ∀ entry, RecordableEntry entry → At s key s (recordsOf entry) →
      Leads times s key x (recordsOf entry) fun _ => Kept) :
    Ensures (embeddedAt times) x s (fun _ => TypedStore) (fun _ => TypedStore) := by
  have hboth := h.ensures_of_leads (P := fun _ _ => True) hkey fun entry hentry hs =>
    (hx entry hentry hs).mono fun _ _ hkept => ⟨hkept, trivial⟩
  exact hboth.mono (fun _ _ h => h.1) fun _ _ h => h.1

namespace Maintains

theorem of_keeps {x : Action α} (hkey : ShortName key) (hx : ∀ s₀, Keeps times s₀ key x) :
    Maintains times x := fun s h => h.ensures hkey fun entry hentry _ => hx s entry hentry

theorem pure (value : α) : Maintains times (pure value) := fun _ h => h

theorem bind {x : Action α} {f : α → Action β} (hx : Maintains times x)
    (hf : ∀ value, Maintains times (f value)) : Maintains times (x >>= f) := fun s h =>
  .seq ((hx s h).mono (fun value s' hs' => hf value s' hs') fun _ _ => id)

theorem ite {p : Prop} [Decidable p] {x y : Action α} (hx : Maintains times x)
    (hy : Maintains times y) : Maintains times (if p then x else y) := by
  split
  exacts [hx, hy]

theorem liftExcept (x : Except GoError α) : Maintains times (liftExcept x) := fun _ h =>
  ensures_liftExcept (fun _ _ => h) fun _ => h

theorem now : Maintains times KVLite.now := fun _ h => ensures_now.mpr fun _ _ => h

theorem redisType {key : Bytes} (hkey : ShortName key) : Maintains times (Redis.redisType key) :=
  of_keeps hkey fun _ => .redisType

end Maintains

theorem wp_replying_of_ensures {x : Action Resp} {s : Store}
    (h : Ensures (embeddedAt times) x s (fun _ => TypedStore) (fun _ => TypedStore)) :
    (replying x).wp (embeddedAt times) (fun _ => TypedStore) s := by
  refine (Program.wp_bind _ _ _ _).mpr (Program.wp_mono (fun result s' hresult => ?_) h)
  cases result <;> exact hresult

theorem MaintainsReply.replying {x : Action Resp} (hx : Maintains times x) :
    MaintainsReply times (replying x) := fun s h => wp_replying_of_ensures (hx s h)

theorem MaintainsReply.pure (value : α) : MaintainsReply times (pure value) := fun _ h => h

end Maintains

end KVLite.TypedMap
