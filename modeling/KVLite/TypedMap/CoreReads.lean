import KVLite.TypedMap.Existence

/-!
# The core reads of a server's collections

The handle reads the records of a collection without looking at the deadline record that
the server keeps beside them, while every read of the server starts with the probe. On a
store of the server the two agree on a name exactly when its deadline record, if it has
one, has not passed.
-/

namespace KVLite.TypedMap

open Semantics Fallible BigEndian Redis

/-- The members of an entry, its fields and its items; none if it has another type. -/
def membersOf (entry : Option Entry) : Members := entry.elim ∅ (·.value.members)

@[inherit_doc membersOf]
def fieldsOf (entry : Option Entry) : Hash := entry.elim ∅ (·.value.fields)

@[inherit_doc membersOf]
def itemsOf (entry : Option Entry) : List Bytes := entry.elim [] (·.value.items)

/-- The entry of a key as a value, an absent key being an empty collection. -/
theorem exists_value (entry : Option Entry) : ∃ value deadline,
    recordsOf entry = value.records deadline ∧ membersOf entry = value.members ∧
      fieldsOf entry = value.fields ∧ itemsOf entry = value.items ∧
        (RecordableEntry entry → Recordable value deadline) := by
  cases entry with
  | none => exact ⟨.list [], none, records_none_eq, rfl, rfl, rfl, fun _ => recordable_empty⟩
  | some e => exact ⟨e.value, e.deadline, rfl, rfl, rfl, rfl, fun h => h e rfl⟩

/-! ### The core reads -/

section Names

variable {key : Bytes}

theorem toList_members_empty : (∅ : Members).toList = [] := Std.ExtTreeSet.toList_eq_nil_iff.mpr rfl

theorem toList_fields_empty : (∅ : Hash).toList = [] := Std.ExtTreeMap.toList_eq_nil_iff.mpr rfl

theorem normalizeRange_all {length : ℕ} (h : length ≠ 0) :
    normalizeRange length 0 (-1) = (0, (length : ℤ) - 1, true) := by
  have hlast : ¬ (length : ℤ) + -1 ≥ length := by omega
  have hfound : (decide (length > 0) && decide ((0 : ℤ) < length) && decide ((length : ℤ) + -1 ≥ 0)) =
      true := by
    simp only [Bool.and_eq_true, decide_eq_true_eq]
    omega
  simp only [normalizeRange, show ¬ (0 : ℤ) < 0 by decide, show (-1 : ℤ) < 0 by decide, if_true, if_false,
    hlast, hfound]
  rfl

theorem inclusiveRange_all {α : Type} (items : List α) :
    inclusiveRange items 0 ((items.length : ℤ) - 1) = items := by
  rw [inclusiveRange, show ((items.length : ℤ) - 1 + 1 - 0).toNat = items.length by omega]
  exact List.take_length

end Names

section CoreReads

variable {V T : Type} {now : ℤ} {s s₀ : Store} {key : Bytes} {entry : Option Entry}

theorem run_sMembers (hs : At s₀ key s (recordsOf entry)) :
    run (embedded now) (DB.sMembers key) s = (.ok ((membersOf entry).toList, none), s) := by
  obtain ⟨value, deadline, hrecords, hmembers, -⟩ := exists_value entry
  rw [hrecords] at hs
  rw [DB.sMembers, run_bind_ok run_ensureOpen, run_bind_ok run_scanPrefix,
    hs.scan_set, hmembers, run_pure, names_members, sortStrings_toList]

theorem run_sContains (hs : At s₀ key s (recordsOf entry)) (member : Bytes) :
    run (embedded now) (DB.sContains key member) s =
      (.ok ((membersOf entry).contains member), s) := by
  obtain ⟨value, deadline, hrecords, hmembers, -⟩ := exists_value entry
  rw [hrecords] at hs
  have hrecord : (s[setKey key member]?).isSome = value.members.contains member := by
    rw [show s[setKey key member]? = _ from hs.records (.member member)]
    cases value with
    | set members =>
      simp only [Value.records, Value.members]
      split
      · next hmember => rw [hmember]; rfl
      · next hmember => rw [Bool.eq_false_iff.mpr hmember]; rfl
    | _ => exact Std.ExtTreeSet.contains_empty.symm
  rw [DB.sContains, run_bind_ok run_ensureOpen, run_bind_ok run_get,
    run_pure, hrecord, hmembers]

/-- The handle can decode what the server writes. -/
def DecodesBytes (db : DB V T) (target : T) : Prop :=
  ∃ codec, db.codecs Redis.bytesCodec = some codec ∧
    ∀ payload, ∃ value, codec.unmarshal target payload = .ok value

variable {db : DB V T} {target : T} (hdecodes : DecodesBytes db target) (now)

include hdecodes

theorem run_decode_bytesRecord (s : Store) (payload : Bytes) :
    ∃ value, run (embedded now) (db.decode (bytesRecord payload 0) target) s =
      (.ok value, s) := by
  obtain ⟨codec, hcodec, hunmarshal⟩ := hdecodes
  obtain ⟨value, hvalue⟩ := hunmarshal payload
  refine ⟨value, ?_⟩
  rw [DB.decode, unmarshalEnvelope_bytesRecord (by decide), run_bind_ok (run_liftExcept _),
    run_bind_ok (run_expiredNow 0)]
  simp only [lt_irrefl, decide_false, Bool.false_and, Bool.false_eq_true, if_false, hcodec,
    run_liftExcept, hvalue]

theorem run_decodeFields (s : Store) (key : Bytes) (fields : List (Bytes × Bytes)) :
    ∃ values, run (embedded now) (db.decodeFields (namespacePrefix kindHash key) target
        (fields.map fun field => (hashKey key field.1, bytesRecord field.2 0))) s =
          (.ok (values, []), s) ∧
      values.map Prod.fst = fields.map Prod.fst := by
  induction fields with
  | nil => exact ⟨[], rfl, rfl⟩
  | cons field fields ih =>
    obtain ⟨value, hvalue⟩ := run_decode_bytesRecord now hdecodes s field.2
    obtain ⟨values, hvalues, hnames⟩ := ih
    have hname : (hashKey key field.1).drop (namespacePrefix kindHash key).length = field.1 :=
      List.drop_left' rfl
    refine ⟨(field.1, value) :: values, ?_, by rw [List.map_cons, List.map_cons, hnames]⟩
    rw [List.map_cons, DB.decodeFields, run_bind_ok (run_caught _), hvalue]
    refine (run_bind_ok hvalues).trans ?_
    rw [hname]
    rfl

/-- The handle finds the fields of the hash. -/
theorem run_hGetAll (hs : At s₀ key s (recordsOf entry)) :
    ∃ fields, run (embedded now) (db.hGetAll key (some target)) s = (.ok fields, s) ∧
      fields.map Prod.fst = (fieldsOf entry).toList.map Prod.fst := by
  obtain ⟨value, deadline, hrecords, -, hfields, -⟩ := exists_value entry
  rw [hrecords] at hs
  obtain ⟨fields, hrun, hnames⟩ := run_decodeFields now hdecodes s key value.fields.toList
  refine ⟨fields, ?_, by rw [hnames, hfields]⟩
  rw [DB.hGetAll, run_bind_ok run_ensureOpen]
  refine (run_bind_ok run_scanPrefix).trans ?_
  rw [hs.scan_hash]
  refine (run_bind_ok hrun).trans ?_
  rfl

theorem run_decodeItems (s : Store) (items : List Bytes) :
    ∃ values, run (embedded now) (db.decodeItems target (itemRecords items)) s =
        (.ok values, s) ∧ values.length = items.length := by
  induction items with
  | nil => exact ⟨[], rfl, rfl⟩
  | cons item items ih =>
    obtain ⟨value, hvalue⟩ := run_decode_bytesRecord now hdecodes s item
    obtain ⟨values, hvalues, hlength⟩ := ih
    refine ⟨value :: values, ?_, by rw [List.length_cons, List.length_cons, hlength]⟩
    rw [itemRecords, List.map_cons, DB.decodeItems, run_bind_ok hvalue, run_bind_ok hvalues,
      run_pure]

omit hdecodes in
theorem run_readList (hentry : RecordableEntry entry) (hs : At s₀ key s (recordsOf entry)) :
    run (embedded now) (readList (listKey key)) s = (.ok (itemRecords (itemsOf entry)), s) := by
  obtain ⟨value, deadline, hrecords, -, -, hitems, hrecordable⟩ := exists_value entry
  rw [hrecords] at hs
  have hrecord : s[listKey key]? = _ := hs.records .list
  rw [readList, run_bind_ok run_get, hrecord, hitems]
  cases value with
  | list items =>
    cases items with
    | nil => rfl
    | cons item items =>
      exact congrArg (·, s) (decodeList_itemRecords ((hrecordable hentry).list _ rfl))
  | _ => rfl

/-- The handle finds the items of the list. -/
theorem run_lRange (hentry : RecordableEntry entry) (hs : At s₀ key s (recordsOf entry)) :
    ∃ items, run (embedded now) (db.lRange key 0 (-1) (some target)) s = (.ok items, s) ∧
      items.length = (itemsOf entry).length := by
  obtain ⟨values, hvalues, hlength⟩ := run_decodeItems now hdecodes s (itemsOf entry)
  rw [DB.lRange, run_bind_ok run_ensureOpen]
  by_cases hempty : itemsOf entry = []
  · refine ⟨[], (run_bind_ok (run_readList now hentry hs)).trans ?_, by rw [hempty]; rfl⟩
    rw [hempty]
    rfl
  · refine ⟨values, (run_bind_ok (run_readList now hentry hs)).trans ?_, hlength⟩
    have hne : (itemRecords (itemsOf entry)).length ≠ 0 := by
      rwa [List.length_map, ne_eq, List.length_eq_zero_iff]
    rw [normalizeRange_all hne]
    exact (congrArg (fun items => run (embedded now) (db.decodeItems target items) s)
      (inclusiveRange_all _)).trans hvalues

end CoreReads

/-! ### The reads of the server -/

section ServerReads

variable {now : ℤ} {s s₀ : Store} {key : Bytes} {entry : Option Entry}

variable (hnow : IsInt64 now) (hentry : RecordableEntry entry)

include hnow hentry

/-- What a reader of one type finds; nothing on a value of another type. -/
theorem leads_readAs_at {α : Type} {x : Action (List α)} {typ : RedisType} {found : Value → List α}
    (hreads : ∀ {value deadline}, Recordable value deadline → Reads (· = now) s₀ key x value deadline
      (value.readAs typ [] (found value)) (.ok []))
    (hother : ∀ value : Value, value.typ ≠ typ → found value = []) :
    Leads (· = now) s₀ key x (recordsOf entry) fun result _ =>
      result.toOption.getD [] = (aliveAt now entry).elim [] fun e => found e.value := by
  cases entry with
  | none =>
    rw [recordsOf, records_none_eq]
    exact (hreads recordable_empty).leads (fun _ => rfl) fun _ => rfl
  | some e =>
    refine Fallible.Leads.mono ((hreads (hentry e rfl)).leads_at hnow) ?_
    rintro _ _ ⟨rfl, -⟩
    cases halive : e.aliveAt now with
    | false =>
      rw [aliveAt_eq_none rfl halive]
      rfl
    | true =>
      rw [aliveAt_eq_self (by rintro _ ⟨⟩; exact halive), if_pos rfl, Value.readAs, e.nonempty,
        if_neg Bool.false_ne_true]
      split
      · rfl
      · next htyp => exact (hother e.value htyp).symm

theorem leads_redisSetMembers_at :
    Leads (· = now) s₀ key (redisSetMembers key) (recordsOf entry) fun result _ =>
      result.toOption.getD [] = (membersOf (aliveAt now entry)).toList := by
  refine (leads_readAs_at hnow hentry reads_redisSetMembers fun value htyp => ?_).mono ?_
  · cases value with
    | set members => exact absurd rfl htyp
    | _ => exact toList_members_empty
  · rintro result _ hresult
    rw [hresult]
    cases aliveAt now entry
    exacts [toList_members_empty.symm, rfl]

theorem leads_redisHashEntries_at :
    Leads (· = now) s₀ key (redisHashEntries key) (recordsOf entry) fun result _ =>
      result.toOption.getD [] = (fieldsOf (aliveAt now entry)).toList := by
  refine (leads_readAs_at hnow hentry reads_redisHashEntries fun value htyp => ?_).mono ?_
  · cases value with
    | hash fields => exact absurd rfl htyp
    | _ => exact toList_fields_empty
  · rintro result _ hresult
    rw [hresult]
    cases aliveAt now entry
    exacts [toList_fields_empty.symm, rfl]

theorem leads_redisListValues_at :
    Leads (· = now) s₀ key (redisListValues key) (recordsOf entry) fun result _ =>
      result.toOption.getD [] = itemRecords (itemsOf (aliveAt now entry)) := by
  refine (leads_readAs_at hnow hentry reads_redisListValues fun value htyp => ?_).mono ?_
  · cases value with
    | list items => exact absurd rfl htyp
    | _ => rfl
  · rintro result _ hresult
    rw [hresult]
    cases aliveAt now entry <;> rfl

end ServerReads

/-! ### Agreement -/

/-- The bulk strings of a reply; an error reply has none. -/
def bulks : Resp → List Bytes
  | .array items => items.filterMap fun
    | .bulk data => some data
    | _ => none
  | _ => []

theorem bulks_map_bulk (items : List Bytes) : bulks (.array (items.map .bulk)) = items := by
  rw [bulks, List.filterMap_map]
  exact List.filterMap_some

theorem bulks_redisErrorReply (err : GoError) : bulks (redisErrorReply err) = [] := by
  obtain ⟨message, hmessage⟩ := exists_redisErrorReply_eq err
  rw [hmessage]
  rfl

/-- The field names in the alternating names and values of a `HGETALL` reply. -/
def fieldNames : List Bytes → List Bytes
  | name :: _ :: rest => name :: fieldNames rest
  | _ => []

/-- The core reads of a name and the reads of the server find the same members, fields
and number of items. -/
structure ReadsAgree {V T : Type} (db : DB V T) (target : T) (now : ℤ) (s : Store) (name : Bytes) :
    Prop where
  members : ∃ members, (run (embedded now) (DB.sMembers name) s).1 = .ok (members, none) ∧
    ∀ member, member ∈ members ↔
      member ∈ bulks ((redisSMembers [text "SMEMBERS", name]).run (embedded now) s).1
  contains : ∀ member, ∃ found, (run (embedded now) (DB.sContains name member) s).1 = .ok found ∧
    (found = true ↔
      ((redisSIsMember [text "SISMEMBER", name, member]).run (embedded now) s).1 = .integer 1)
  fields : ∃ fields, (run (embedded now) (db.hGetAll name (some target)) s).1 = .ok fields ∧
    ∀ field, field ∈ fields.map Prod.fst ↔
      field ∈ fieldNames (bulks ((redisHGetAll [text "HGETALL", name]).run (embedded now) s).1)
  items : ∃ items, (run (embedded now) (db.lRange name 0 (-1) (some target)) s).1 = .ok items ∧
    items.length =
      (bulks ((redisLRange [text "LRANGE", name, text "0", text "-1"]).run (embedded now) s).1).length

section Replies

variable {now : ℤ} {s s₀ : Store} {key : Bytes} {entry : Option Entry}

/-- What every result of a command leads to, an error being its reply. -/
theorem reply_of_leads {x : Action Resp} {P : Resp → Prop} (hs : At s₀ key s (recordsOf entry))
    (h : Leads (· = now) s₀ key x (recordsOf entry) fun result _ =>
      P (match result with
        | .ok reply => reply
        | .error err => redisErrorReply err)) :
    P ((replying x).run (embedded now) s).1 := by
  obtain ⟨_, -, hresult⟩ := h.run (admitted_embedded now) hs
  cases hrun : run (embedded now) x s with
  | mk result s' =>
    rw [hrun] at hresult
    cases result with
    | ok reply => rwa [run_replying hrun]
    | error err => rwa [run_replying_error hrun]

variable (hnow : IsInt64 now) (hentry : RecordableEntry entry) (hs : At s₀ key s (recordsOf entry))

include hnow hentry hs

theorem bulks_redisSMembers (name : Bytes) :
    bulks ((redisSMembers [name, key]).run (embedded now) s).1 =
      (membersOf (aliveAt now entry)).toList := by
  refine reply_of_leads (P := fun reply => bulks reply = _) hs
    ((leads_redisSetMembers_at hnow hentry).bind (fun members _ hmembers => .pure ?_)
      fun err _ hmembers => ?_)
  · exact (bulks_map_bulk members).trans hmembers
  · exact (bulks_redisErrorReply err).trans hmembers

theorem redisSIsMember_eq_one_iff (name member : Bytes) :
    ((redisSIsMember [name, key, member]).run (embedded now) s).1 = .integer 1 ↔
      (membersOf (aliveAt now entry)).contains member = true := by
  refine reply_of_leads (P := fun reply => reply = .integer 1 ↔ _) hs
    (leads_redisType_at_bind hnow hentry ?_)
  cases aliveAt now entry with
  | none => exact .pure (by simp [membersOf])
  | some e =>
    obtain ⟨value, deadline, hnonempty⟩ := e
    cases value with
    | set members =>
      refine .seq (leads_get (.member member) ?_)
      cases hmember : members.contains member with
      | true =>
        simp only [recordsOf, Value.records, hmember]
        exact .pure (by simp [membersOf, Value.members, hmember])
      | false =>
        simp only [recordsOf, Value.records, hmember]
        exact .pure (by simp [membersOf, Value.members, hmember])
    | _ => exact .throw (by simp [membersOf, Value.members, redisErrorReply_wrongType, wrongTypeReply])

theorem fieldNames_redisHGetAll (name : Bytes) :
    fieldNames (bulks ((redisHGetAll [name, key]).run (embedded now) s).1) =
      (fieldsOf (aliveAt now entry)).toList.map Prod.fst := by
  have hreply : ∀ entries : List (Bytes × Bytes), fieldNames (bulks (.array
      (entries.flatMap fun entry => [.bulk entry.1, .bulk entry.2]))) = entries.map Prod.fst := by
    intro entries
    induction entries with
    | nil => rfl
    | cons entry entries ih => exact congrArg (entry.1 :: ·) ih
  refine reply_of_leads (P := fun reply => fieldNames (bulks reply) = _) hs
    ((leads_redisHashEntries_at hnow hentry).bind (fun entries _ hentries => .pure ?_)
      fun err _ hentries => ?_)
  · exact (hreply entries).trans (congrArg (List.map Prod.fst) hentries)
  · rw [← hentries]
    exact congrArg fieldNames (bulks_redisErrorReply err)

theorem length_redisLRange (name : Bytes) :
    (bulks ((redisLRange [name, key, text "0", text "-1"]).run (embedded now) s).1).length =
      (itemsOf (aliveAt now entry)).length := by
  rw [redisLRange_eq name key (show redisParseInt (text "0") = .ok 0 by decide)
    (show redisParseInt (text "-1") = .ok (-1) by decide)]
  refine reply_of_leads (P := fun reply => (bulks reply).length = _) hs
    ((leads_redisListValues_at hnow hentry).bind (fun items _ hitems => ?_) fun err _ hitems => ?_)
  · obtain rfl : items = itemRecords (itemsOf (aliveAt now entry)) := hitems
    generalize itemsOf (aliveAt now entry) = items
    by_cases hempty : items = []
    · subst hempty
      exact .pure rfl
    · have hne : (itemRecords items).length ≠ 0 := by
        rwa [List.length_map, ne_eq, List.length_eq_zero_iff]
      rw [normalizeRange_all hne]
      simp only [if_true, inclusiveRange_all]
      refine .seq (leads_now fun time => .seq (leads_liftExcept ?_))
      rw [redisListReply_itemRecords]
      exact .pure (congrArg List.length (bulks_map_bulk items))
  · rw [bulks_redisErrorReply, List.length_nil]
    exact (congrArg List.length hitems).trans (List.length_map _)

end Replies

/-- The deadline record of a name has not passed. -/
def DeadlineAhead (now : ℤ) (s : Store) (name : Bytes) : Prop :=
  ∀ data ∈ s[collectionTTLKey name]?, now < toInt64 (ofBigEndian data)

instance (now : ℤ) (s : Store) (name : Bytes) : Decidable (DeadlineAhead now s name) :=
  inferInstanceAs (Decidable (∀ data ∈ s[collectionTTLKey name]?, _))

section Agreement

variable {V T : Type} {now : ℤ} {s s₀ : Store} {key : Bytes} {entry : Option Entry}

/-- A collection is alive exactly when its deadline record has not passed. -/
theorem deadlineAhead_iff (hentry : RecordableEntry entry) (hs : At s₀ key s (recordsOf entry)) :
    DeadlineAhead now s key ↔ ∀ e ∈ entry, e.value.typ ≠ .string → e.aliveAt now = true := by
  have httl : s[collectionTTLKey key]? = _ := hs.records .ttl
  rw [DeadlineAhead, httl]
  cases entry with
  | none => exact iff_of_true (by simp [recordsOf, noRecords]) (by simp)
  | some e =>
    obtain ⟨value, deadline, hnonempty⟩ := e
    rw [recordsOf, Value.records_ttl, Value.ttl]
    by_cases htyp : value.typ = .string
    · simp [htyp]
    · cases deadline with
      | none => simp [htyp, Entry.aliveAt]
      | some d =>
        have hround := toInt64_encodeRedisExpiry ((hentry _ rfl).deadline d rfl)
        simp [htyp, Entry.aliveAt, hround]

variable {db : DB V T} {target : T} (hdecodes : DecodesBytes db target) (hnow : IsInt64 now)
  (hentry : RecordableEntry entry) (hs : At s₀ key s (recordsOf entry))

include hdecodes hnow hentry hs

/-- The reads agree when the contents of the entry are those of what is alive of it. -/
theorem readsAgree_iff : ReadsAgree db target now s key ↔
    (∀ member, member ∈ membersOf entry ↔ member ∈ membersOf (aliveAt now entry)) ∧
      (∀ field, field ∈ (fieldsOf entry).toList.map Prod.fst ↔
        field ∈ (fieldsOf (aliveAt now entry)).toList.map Prod.fst) ∧
      (itemsOf entry).length = (itemsOf (aliveAt now entry)).length := by
  obtain ⟨fields, hfields, hnames⟩ := run_hGetAll now hdecodes hs
  obtain ⟨items, hitems, hlength⟩ := run_lRange now hdecodes hentry hs
  have hreplies := And.intro (bulks_redisSMembers hnow hentry hs (text "SMEMBERS"))
    (And.intro (fieldNames_redisHGetAll hnow hentry hs (text "HGETALL"))
      (length_redisLRange hnow hentry hs (text "LRANGE")))
  constructor
  · rintro ⟨⟨members', hmembers', hsameMembers⟩, -, ⟨fields', hfields', hsameFields⟩, items', hitems',
      hsameItems⟩
    rw [run_sMembers hs] at hmembers'
    rw [hfields] at hfields'
    rw [hitems] at hitems'
    cases hmembers'
    cases hfields'
    cases hitems'
    rw [hreplies.1] at hsameMembers
    rw [hreplies.2.1, hnames] at hsameFields
    rw [hreplies.2.2, hlength] at hsameItems
    simp only [Std.ExtTreeSet.mem_toList] at hsameMembers
    exact ⟨hsameMembers, hsameFields, hsameItems⟩
  · rintro ⟨hsameMembers, hsameFields, hsameItems⟩
    refine ⟨⟨_, congrArg Prod.fst (run_sMembers hs), fun member => ?_⟩,
      fun member => ⟨_, congrArg Prod.fst (run_sContains hs member), ?_⟩,
      ⟨fields, congrArg Prod.fst hfields, fun field => ?_⟩, items, congrArg Prod.fst hitems, ?_⟩
    · rw [hreplies.1, Std.ExtTreeSet.mem_toList, Std.ExtTreeSet.mem_toList, hsameMembers]
    · rw [redisSIsMember_eq_one_iff hnow hentry hs]
      exact hsameMembers member
    · rw [hreplies.2.1, hnames, hsameFields]
    · rw [hreplies.2.2, hlength, hsameItems]

/-- What has not expired is seen by every read, and a core read still finds a collection
that has expired. -/
theorem readsAgree_iff_deadlineAhead :
    ReadsAgree db target now s key ↔ DeadlineAhead now s key := by
  rw [readsAgree_iff hdecodes hnow hentry hs, deadlineAhead_iff hentry hs]
  cases entry with
  | none => simp [aliveAt]
  | some e =>
    by_cases halive : e.aliveAt now = true
    · rw [aliveAt_eq_self (by rintro _ ⟨⟩; exact halive)]
      exact iff_of_true ⟨fun _ => .rfl, fun _ => .rfl, rfl⟩ (by rintro _ ⟨⟩ _; exact halive)
    · rw [aliveAt_eq_none rfl (Bool.eq_false_iff.mpr halive)]
      obtain ⟨value, deadline, hnonempty⟩ := e
      -- Only a string can be gone, and it has neither members nor fields nor items.
      cases value with
      | string data =>
        exact iff_of_true ⟨fun _ => .rfl, fun _ => .rfl, rfl⟩ (by rintro _ ⟨⟩ htyp; exact absurd rfl htyp)
      | set members =>
        refine iff_of_false (fun h => ?_) fun h => halive (h _ rfl (by simp [Value.typ]))
        obtain rfl : members = ∅ := Std.ExtTreeSet.ext_mem h.1
        cases hnonempty
      | hash fields =>
        refine iff_of_false (fun h => ?_) fun h => halive (h _ rfl (by simp [Value.typ]))
        have hnames : fields.toList.map Prod.fst = [] :=
          List.eq_nil_iff_forall_not_mem.mpr fun field hfield => by
            have hmem := (h.2.1 field).mp hfield
            rw [fieldsOf, Option.elim_none, toList_fields_empty] at hmem
            cases hmem
        obtain rfl := Std.ExtTreeMap.toList_eq_nil_iff.mp (List.map_eq_nil_iff.mp hnames)
        cases hnonempty
      | list items =>
        refine iff_of_false (fun h => ?_) fun h => halive (h _ rfl (by simp [Value.typ]))
        obtain rfl := List.length_eq_zero_iff.mp h.2.2
        cases hnonempty

end Agreement

/-- In every store that commands reach, and at every clock reading, the core reads of a
name agree with the reads of the server exactly when the deadline record of the name, if
there is one, has not passed. -/
theorem core_reads_agree_iff {V T : Type} {db : DB V T} {target : T}
    (hdecodes : DecodesBytes db target) {go : GoRuntime} {password : Bytes} {clock : ℕ → ℤ}
    {inputs : List Received} {tick : ℕ}
    (halong : Machine.Along (receive go password clock) (Fitting go password clock) inputs (tick, ∅))
    {reached : List Received} (hreached : reached <+: inputs) {now : ℤ} (hnow : IsInt64 now)
    {name : Bytes} (hname : ShortName name) :
    let s := (Machine.after (receive go password clock) reached (tick, ∅)).2
    ReadsAgree db target now s name ↔ DeadlineAhead now s name := by
  obtain ⟨entry, hentry, hs⟩ := (typed_reached halong hreached).1.entry name hname
  exact readsAgree_iff_deadlineAhead hdecodes hnow hentry hs

/-- A set of one member that expires after a millisecond. -/
def expiringSet : List Received :=
  [⟨⟨false, 1, 2⟩, [text "SADD", text "k", text "m"]⟩, ⟨⟨false, 1, 2⟩, [text "PEXPIRE", text "k", text "1"]⟩]

/-- At the deadline the server has no member, and the core read still returns it. -/
theorem core_read_after_deadline :
    (∀ received ∈ expiringSet, Deliverable received.args) ∧
      let s := (Machine.after (receive .upperCase [] fun _ => 0) expiringSet (0, ∅)).2
      (run (embedded 1000000) (DB.sMembers (text "k")) s).1 = .ok ([text "m"], none) ∧
        ((redisSMembers [text "SMEMBERS", text "k"]).run (embedded 1000000) s).1 = .array [] :=
  ⟨by decide, rfl, rfl⟩

theorem decodesBytes_bytesHandle (handle : ℕ) : DecodesBytes (bytesHandle handle) () :=
  ⟨KVLite.bytesCodec, rfl, fun payload => ⟨payload, rfl⟩⟩

theorem fitting_of_not_push {received : Received} {st : ℕ × Store} (hargs : Deliverable received.args)
    (hpush : ∀ command ∈ commandOf .upperCase received.args,
      command ∉ [Command.lpush, .rpush, .lpushx, .rpushx]) :
    Fitting .upperCase [] (fun _ => 0) received st :=
  ⟨hargs, fun _ command hcommand hmem => absurd hmem (hpush command hcommand)⟩

/-- The same set, before its deadline. -/
theorem core_reads_agree_before_deadline :
    ReadsAgree (bytesHandle 0) () 999999
      (Machine.after (receive .upperCase [] fun _ => 0) expiringSet (0, ∅)).2 (text "k") := by
  have halong : Machine.Along (receive .upperCase [] fun _ => 0) (Fitting .upperCase [] fun _ => 0)
      expiringSet (0, ∅) :=
    ⟨fitting_of_not_push (by decide) (by decide), fitting_of_not_push (by decide) (by decide), trivial⟩
  exact (core_reads_agree_iff (decodesBytes_bytesHandle 0) halong List.prefix_rfl (by decide)
    (by decide)).mpr (by decide +kernel)

end KVLite.TypedMap
