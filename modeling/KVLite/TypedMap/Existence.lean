import KVLite.TypedMap.Invariant

/-!
# Which keys exist

At one clock reading the commands of a server with a typed store agree on which keys
exist: those whose entry is alive. `EXISTS`, `TYPE`, `TTL`, `PTTL`, `SETNX` and the
enumeration of the keyspace are shown to say so one by one.
-/

namespace KVLite.TypedMap

open Semantics Fallible BigEndian Redis

/-! ### The probe at one clock reading -/

/-- The deadline of the entry lies ahead; that of a string counts only when positive. -/
def Entry.aliveAt (now : ℤ) (entry : Entry) : Bool :=
  entry.deadline.all fun d => decide (entry.value.typ = .string ∧ d ≤ 0 ∨ now < d)

/-- The entry, unless it has expired. -/
def aliveAt (now : ℤ) (entry : Option Entry) : Option Entry := entry.filter (Entry.aliveAt now)

/-- The deadline of the entry, if it has one. -/
def Entry.expiry (entry : Entry) : Option ℤ :=
  entry.deadline.filter fun d => decide (entry.value.typ = .string → 0 < d)

section Probe

variable {α : Type} {now : ℤ} {s₀ : Store} {key : Bytes} {entry : Option Entry}

theorem aliveAt_eq_self (h : ∀ e ∈ entry, e.aliveAt now = true) : aliveAt now entry = entry := by
  cases entry with
  | none => rfl
  | some e => exact Option.filter_some_pos (h e rfl)

theorem aliveAt_eq_none {e : Entry} (he : e ∈ entry) (h : e.aliveAt now = false) :
    aliveAt now entry = none := by
  cases he
  exact Option.filter_some_neg (by simp [h])

@[simp] theorem aliveAt_aliveAt : aliveAt now (aliveAt now entry) = aliveAt now entry := by
  cases entry with
  | none => rfl
  | some e => by_cases h : e.aliveAt now = true <;> simp [aliveAt, Option.filter, h]

theorem RecordableEntry.aliveAt (h : RecordableEntry entry) : RecordableEntry (aliveAt now entry) :=
  fun e he => h e (Option.filter_eq_some_iff.mp he).1

variable (hnow : IsInt64 now)

include hnow

theorem aliveAt_of_mayLive {e : Entry} (h : MayLive (· = now) e.value e.deadline) :
    e.aliveAt now = true := by
  rw [Entry.aliveAt, Option.all_eq_true]
  intro d hd
  rw [decide_eq_true_eq]
  refine (h d hd).imp id ?_
  rintro ⟨time, rfl, hahead⟩
  rwa [wrapInt64_eq hnow] at hahead

theorem not_aliveAt_of_mayPass {e : Entry} (h : MayPass (· = now) e.value e.deadline) :
    e.aliveAt now = false := by
  obtain ⟨d, hd, hpos, time, rfl, hpassed⟩ := h
  rw [wrapInt64_eq hnow] at hpassed
  rw [Entry.aliveAt, ← Bool.not_eq_true, Option.all_eq_true]
  intro hall
  rcases of_decide_eq_true (hall d hd) with ⟨hstring, hnonpos⟩ | hahead
  · exact absurd (hpos hstring) (not_lt.mpr hnonpos)
  · exact absurd hahead (not_lt.mpr hpassed)

/-- The probe at one clock reading reports the type of a live entry and removes an
expired one. -/
theorem leads_redisType_at (hentry : RecordableEntry entry) :
    Leads (· = now) s₀ key (redisType key) (recordsOf entry) fun result records =>
      result = .ok (typeOf (aliveAt now entry)) ∧ records = recordsOf (aliveAt now entry) := by
  refine leads_redisType_of_times hentry (fun hmay => ?_) ?_
  · rw [aliveAt_eq_self fun e he => aliveAt_of_mayLive hnow (hmay e he)]
    exact ⟨rfl, rfl⟩
  · rintro ⟨e, he, hmay⟩
    rw [aliveAt_eq_none he (not_aliveAt_of_mayPass hnow hmay)]
    exact ⟨rfl, rfl⟩

/-- Code after the probe at one clock reading. -/
theorem leads_redisType_at_bind (hentry : RecordableEntry entry) {f : RedisType → Action α}
    {post : Except GoError α → Records → Prop}
    (hf : Leads (· = now) s₀ key (f (typeOf (aliveAt now entry))) (recordsOf (aliveAt now entry))
      post) :
    Leads (· = now) s₀ key (redisType key >>= f) (recordsOf entry) post :=
  (leads_redisType_at hnow hentry).bind (by rintro _ _ ⟨⟨⟩, rfl⟩; exact hf) (by rintro _ _ ⟨⟨⟩, -⟩)

/-- Code that reads a value, at one clock reading. -/
theorem Reads.leads_at {x : Action α} {e : Entry} {found gone : Except GoError α}
    (h : Reads (· = now) s₀ key x e.value e.deadline found gone) :
    Leads (· = now) s₀ key x (recordsOf (some e)) fun result records =>
      result = (if e.aliveAt now then found else gone) ∧
        records = recordsOf (KVLite.TypedMap.aliveAt now (some e)) := by
  refine h.leads (fun hmay => ?_) fun hmay => ?_
  · rw [if_pos (aliveAt_of_mayLive hnow hmay), aliveAt_eq_self]
    · exact ⟨rfl, rfl⟩
    · rintro _ ⟨⟩
      exact aliveAt_of_mayLive hnow hmay
  · have hpassed := not_aliveAt_of_mayPass hnow hmay
    rw [hpassed, aliveAt_eq_none rfl hpassed]
    exact ⟨rfl, rfl⟩

theorem leads_redisExpiry_at (hentry : RecordableEntry entry) :
    Leads (· = now) s₀ key (redisExpiry key) (recordsOf entry) fun result records =>
      result = .ok ((aliveAt now entry).bind Entry.expiry) ∧
        records = recordsOf (aliveAt now entry) := by
  cases entry with
  | none => exact leads_redisType_at_bind hnow hentry (.pure ⟨rfl, rfl⟩)
  | some e =>
    refine Fallible.Leads.mono ((reads_redisExpiry (hentry e rfl)).leads_at hnow) ?_
    rintro _ _ ⟨rfl, rfl⟩
    refine ⟨?_, rfl⟩
    rw [e.nonempty]
    cases halive : e.aliveAt now with
    | true =>
      rw [aliveAt_eq_self (by rintro _ ⟨⟩; exact halive)]
      rfl
    | false =>
      rw [aliveAt_eq_none rfl halive]
      rfl

omit hnow in
/-- A deadline that has not passed lies ahead. -/
theorem lt_of_expiry {e : Entry} (halive : e.aliveAt now = true) {d : ℤ} (hd : e.expiry = some d) :
    now < d := by
  obtain ⟨hdeadline, hcounts⟩ := Option.filter_eq_some_iff.mp hd
  rw [Entry.aliveAt, hdeadline] at halive
  rcases of_decide_eq_true halive with ⟨hstring, hnonpos⟩ | hahead
  · exact absurd (of_decide_eq_true hcounts hstring) (not_lt.mpr hnonpos)
  · exact hahead

end Probe

/-! ### The commands on one key -/

/-- What `TTL` (`PTTL`) replies for a key that exists, given its deadline. -/
def remainingTime (now unit : ℤ) : Option ℤ → ℤ
  | none => -1
  | some d => max 1 ((d - now) / unit)

/-- What `TTL` and `PTTL` reply on a live entry. -/
def ttlReply (now unit : ℤ) : Option Entry → ℤ
  | none => -2
  | some e => remainingTime now unit e.expiry

section Commands

variable {now : ℤ} {s s₀ : Store} {key : Bytes} {entry : Option Entry}

/-- The reply of a command that leads to one reply. -/
theorem run_replying_of_leads {x : Action Resp} {reply : Resp} (hs : At s₀ key s (recordsOf entry))
    (h : Leads (· = now) s₀ key x (recordsOf entry) fun result _ => result = .ok reply) :
    ((replying x).run (embedded now) s).1 = reply := by
  obtain ⟨_, -, hresult⟩ := h.run (admitted_embedded now) hs
  exact congrArg Prod.fst (run_replying (Prod.ext hresult rfl))

variable (hnow : IsInt64 now) (hentry : RecordableEntry entry) (hs : At s₀ key s (recordsOf entry))

include hnow hentry hs

theorem reply_redisExists (name : Bytes) :
    ((redisExists [name, key]).run (embedded now) s).1 =
      .integer (if (aliveAt now entry).isSome then 1 else 0) := by
  refine run_replying_of_leads hs (.seq (leads_redisType_at_bind hnow hentry ?_))
  cases aliveAt now entry with
  | none => exact .ite (absurd rfl) fun _ => .pure (.pure rfl)
  | some e =>
    exact .ite (fun _ => .pure (.pure rfl)) fun hnone => absurd (typeOf_some_ne_none e) hnone

theorem reply_redisTypeCommand (name : Bytes) :
    ((redisTypeCommand [name, key]).run (embedded now) s).1 =
      .simpleString (typeOf (aliveAt now entry)).name :=
  run_replying_of_leads hs (leads_redisType_at_bind hnow hentry (.pure rfl))

theorem reply_redisSetNX (name value : Bytes) :
    ((redisSetNX [name, key, value]).run (embedded now) s).1 =
      .integer (if (aliveAt now entry).isSome then 0 else 1) := by
  refine run_replying_of_leads hs (leads_redisType_at_bind hnow hentry ?_)
  cases aliveAt now entry with
  | none =>
    exact .ite (absurd rfl) fun _ => .seq (leads_redisWriteString (.inl rfl) value 0 (.pure rfl)
      fun _ _ => .pure rfl)
  | some e =>
    exact .ite (fun _ => .pure rfl) fun hnone => absurd (typeOf_some_ne_none e) hnone

theorem reply_redisTTLCommand (name : Bytes) {divisor : ℤ}
    (hfits : ∀ d ∈ (aliveAt now entry).bind Entry.expiry, IsInt64 (d - now)) :
    ((redisTTLCommand divisor [name, key]).run (embedded now) s).1 =
      .integer (ttlReply now divisor (aliveAt now entry)) := by
  have hlive : RecordableEntry (aliveAt now entry) := hentry.aliveAt
  refine run_replying_of_leads hs ((leads_redisExpiry_at hnow hentry).bind ?_ (by rintro _ _ ⟨⟨⟩, -⟩))
  rintro _ _ ⟨⟨⟩, rfl⟩
  cases halive : aliveAt now entry with
  | none => exact leads_redisType_at_bind hnow (halive ▸ hlive) (.pure rfl)
  | some e =>
    have he : e.aliveAt now = true := (Option.filter_eq_some_iff.mp halive).2
    rw [halive] at hfits hlive
    rw [Option.bind_some] at hfits ⊢
    cases hexpiry : e.expiry with
    | none =>
      rw [ttlReply, hexpiry]
      refine leads_redisType_at_bind hnow hlive ?_
      rw [aliveAt_eq_self (by rintro _ ⟨⟩; exact he)]
      exact .ite (fun hnone => absurd hnone (typeOf_some_ne_none e)) fun _ => .pure rfl
    | some d =>
      have hahead := lt_of_expiry he hexpiry
      rw [ttlReply, hexpiry]
      refine .seq (leads_unixNano_of_times ?_)
      rintro _ rfl
      refine Fallible.Leads.continues_ok.mpr ?_
      rw [wrapInt64_eq hnow, wrapInt64_eq (hfits d hexpiry)]
      exact .ite (fun hpassed => by omega) fun _ => .pure rfl

end Commands

/-! ### The keyspace -/

/-- The entries of a typed store. -/
structure Holds (s : Store) (entries : Bytes → Option Entry) : Prop where
  layout : ∀ storageKey, (s[storageKey]?).isSome → ∃ key, ShortName key ∧ RecordOf key storageKey
  records : ∀ key, ShortName key → At s key s (recordsOf (entries key))
  recordable : ∀ key, RecordableEntry (entries key)

section Keyspace

variable {now : ℤ} {s s' : Store} {entries : Bytes → Option Entry} {key : Bytes}

theorem TypedStore.exists_holds (h : TypedStore s) : ∃ entries, Holds s entries := by
  have hentry : ∀ key, ∃ entry, RecordableEntry entry ∧
      (ShortName key → At s key s (recordsOf entry)) := by
    intro key
    by_cases hkey : ShortName key
    · obtain ⟨entry, hentry, hs⟩ := h.entry key hkey
      exact ⟨entry, hentry, fun _ => hs⟩
    · exact ⟨none, recordableEntry_none, (absurd · hkey)⟩
  choose entries hrecordable hrecords using hentry
  exact ⟨entries, h.layout, hrecords, hrecordable⟩

theorem Holds.typedStore (h : Holds s entries) : TypedStore s :=
  ⟨h.layout, fun key hkey => ⟨entries key, h.recordable key, h.records key hkey⟩⟩

theorem Holds.update (h : Holds s entries) (hkey : ShortName key) {entry : Option Entry}
    (hentry : RecordableEntry entry) (hs' : At s key s' (recordsOf entry)) :
    Holds s' (Function.update entries key entry) where
  layout := (h.typedStore.update hkey hs' hentry.kept).layout
  records key' hkey' := by
    by_cases heq : key' = key
    · subst heq
      rw [Function.update_self]
      exact ⟨hs'.records, fun _ _ => rfl⟩
    · rw [Function.update_of_ne heq]
      exact hs'.of_ne hkey hkey' heq (h.records key' hkey')
  recordable key' := by
    by_cases heq : key' = key
    · subst heq
      rwa [Function.update_self]
    · rw [Function.update_of_ne heq]
      exact h.recordable key'

variable (hnow : IsInt64 now)

include hnow

theorem Holds.run_redisType (h : Holds s entries) (hkey : ShortName key) :
    ∃ s', run (embedded now) (redisType key) s =
        (.ok (typeOf (aliveAt now (entries key))), s') ∧
      Holds s' (Function.update entries key (aliveAt now (entries key))) := by
  obtain ⟨_, hs', hresult, rfl⟩ :=
    (leads_redisType_at hnow (h.recordable key)).run (admitted_embedded now) (h.records key hkey)
  exact ⟨_, Prod.ext hresult rfl, h.update hkey (h.recordable key).aliveAt hs'⟩

/-- The loop over the candidates keeps those whose entry is alive, and removes entries that
have expired at most. -/
theorem Holds.run_redisExistingKeys (h : Holds s entries) {keys : List Bytes}
    (hkeys : ∀ key ∈ keys, ShortName key) :
    ∃ s', run (embedded now) (redisExistingKeys keys) s =
        (.ok (keys.filter fun key => (aliveAt now (entries key)).isSome), s') ∧
      ∃ entries', Holds s' entries' ∧
        ∀ key, entries' key = entries key ∨ entries' key = aliveAt now (entries key) := by
  induction keys generalizing s entries with
  | nil => exact ⟨s, rfl, entries, h, fun _ => .inl rfl⟩
  | cons key keys ih =>
    rw [List.forall_mem_cons] at hkeys
    obtain ⟨s₁, hrun₁, h₁⟩ := h.run_redisType hnow hkeys.1
    obtain ⟨s₂, hrun₂, entries', h₂, hsame⟩ := ih h₁ hkeys.2
    have hprobed : ∀ key', Function.update entries key (aliveAt now (entries key)) key' = entries key' ∨
        Function.update entries key (aliveAt now (entries key)) key' = aliveAt now (entries key') := by
      intro key'
      by_cases heq : key' = key
      · subst heq
        exact .inr (Function.update_self ..)
      · exact .inl (Function.update_of_ne heq ..)
    have halive : ∀ key', aliveAt now (Function.update entries key (aliveAt now (entries key)) key') =
        aliveAt now (entries key') := fun key' => by
      rcases hprobed key' with heq | heq <;> rw [heq]
      exact aliveAt_aliveAt
    simp only [halive] at hrun₂
    refine ⟨s₂, ?_, entries', h₂, fun key' => ?_⟩
    · rw [redisExistingKeys, run_bind_ok hrun₁, run_bind_ok hrun₂,
        run_pure, List.filter_cons]
      cases aliveAt now (entries key) with
      | none => rfl
      | some e => rw [if_neg (typeOf_some_ne_none e)]; rfl
    · rcases hsame key' with heq | heq <;> rw [heq]
      · exact hprobed key'
      · exact .inr (halive key')

omit hnow in
/-- A key with an entry has a record. -/
theorem Holds.exists_record (h : Holds s entries) (hkey : ShortName key)
    (hsome : (entries key).isSome) :
    ∃ storageKey, RecordOf key storageKey ∧ (s[storageKey]?).isSome := by
  obtain ⟨⟨value, deadline, hnonempty⟩, hentry⟩ := Option.isSome_iff_exists.mp hsome
  have hs := h.records key hkey
  rw [hentry, recordsOf] at hs
  have hof : ∀ kind, HasKind s key kind → ∃ storageKey, RecordOf key storageKey ∧
      (s[storageKey]?).isSome := by
    rintro kind ⟨storageKey, data, howns, hget⟩
    exact ⟨storageKey, howns.recordOf, by rw [hget]; rfl⟩
  by_cases htyp : value.typ = .string
  · cases value with
    | string data => exact hof .value ⟨valueKey key, _, rfl, hs.records .value⟩
    | _ => cases htyp
  · rcases hs.hasKind_of_collection hnonempty htyp with hkind | hkind | hkind <;> exact hof _ hkind

omit hnow in
theorem Holds.mem_candidates (h : Holds s entries) (hkey : ShortName key)
    (hsome : (entries key).isSome) :
    key ∈ (s.scan []).filterMap fun record => logicalKeyFromStorage record.1 := by
  obtain ⟨storageKey, hrecord, hget⟩ := h.exists_record hkey hsome
  obtain ⟨data, hdata⟩ := Option.isSome_iff_exists.mp hget
  exact List.mem_filterMap.mpr ⟨(storageKey, data), Store.mem_scan.mpr ⟨List.nil_prefix, hdata⟩,
    (logicalKeyFromStorage_eq_some_iff hkey).mpr hrecord⟩

omit hnow in
theorem isSome_of_aliveAt {entry : Option Entry} (h : (aliveAt now entry).isSome) : entry.isSome := by
  cases entry with
  | none => cases h
  | some e => rfl

/-- The keys that the server enumerates are those with a live entry, in ascending order. -/
theorem Holds.run_redisLogicalKeys (h : Holds s entries) (go : GoRuntime) :
    ∃ keys s', run (embedded now) (redisLogicalKeys go) s = (.ok keys, s') ∧
      (∀ key, key ∈ keys ↔ ShortName key ∧ (aliveAt now (entries key)).isSome) ∧
      (keys.Pairwise fun a b => compare a b = .lt) ∧
      ∃ entries', Holds s' entries' ∧
        ∀ key, entries' key = entries key ∨ entries' key = aliveAt now (entries key) := by
  let found := (s.scan []).filterMap fun record => logicalKeyFromStorage record.1
  let candidates := go.rangeOrder found.dedup
  have hmem : ∀ key, key ∈ candidates ↔ key ∈ found := fun key =>
    (go.rangeOrder_perm _).mem_iff.trans List.mem_dedup
  have hnodup : candidates.Nodup := (go.rangeOrder_perm _).nodup_iff.mpr (List.nodup_dedup _)
  obtain ⟨s', hrun, hholds⟩ := h.run_redisExistingKeys hnow (show ∀ key ∈ candidates, _ from fun key hkey =>
    h.typedStore.shortName_of_candidate ((hmem key).mp hkey))
  refine ⟨sortStrings (candidates.filter fun key => (aliveAt now (entries key)).isSome), s', ?_,
    fun key => ?_, sortStrings_pairwise_lt (hnodup.filter _), hholds⟩
  · rw [redisLogicalKeys, run_bind_ok Transport.run_scanAll, run_bind_ok hrun,
      run_pure]
  · rw [sortStrings, List.mem_insertionSort, List.mem_filter, hmem]
    refine ⟨fun hkey => ⟨h.typedStore.shortName_of_candidate hkey.1, hkey.2⟩, fun hkey => ?_⟩
    exact ⟨h.mem_candidates hkey.1 (isSome_of_aliveAt hkey.2), hkey.2⟩

end Keyspace

/-! ### Agreement -/

/-- The deadline that the records of a key carry: that of its value, if positive, or that
of its deadline record. -/
def storedDeadline (s : Store) (key : Bytes) : Option ℤ :=
  match s[valueKey key]? with
  | some data => match unmarshalEnvelope data with
    | .ok envelope => if envelope.expiresAt > 0 then some envelope.expiresAt else none
    | .error _ => none
  | none => (s[collectionTTLKey key]?).map fun data => toInt64 (ofBigEndian data)

section Agreement

variable {s : Store} {now : ℤ} {key : Bytes} {entry : Option Entry}

theorem storedDeadline_eq {s₀ : Store} (hentry : RecordableEntry entry)
    (hs : At s₀ key s (recordsOf entry)) : storedDeadline s key = entry.bind Entry.expiry := by
  have hvalue : s[valueKey key]? = _ := hs.records .value
  have httl : s[collectionTTLKey key]? = _ := hs.records .ttl
  rw [storedDeadline, hvalue, httl]
  cases entry with
  | none => rfl
  | some e =>
    obtain ⟨value, deadline, hnonempty⟩ := e
    have hrecordable := hentry _ rfl
    cases value with
    | string data =>
      simp only [recordsOf, Value.records, unmarshalEnvelope_bytesRecord hrecordable.isInt64]
      exact (Value.expiry_string data deadline).symm
    | _ =>
      cases deadline with
      | none => rfl
      | some d => exact congrArg some (toInt64_encodeRedisExpiry (hrecordable.deadline d rfl))

/-- Only a key that does not exist has no type, and `-2` for its remaining time. -/
theorem typeName_ne_none_iff (entry : Option Entry) :
    (typeOf entry).name ≠ RedisType.none.name ↔ entry.isSome = true := by
  cases entry with
  | none => simp [typeOf]
  | some e =>
    refine iff_of_true (fun hname => ?_) rfl
    cases hvalue : e.value <;> simp [typeOf, hvalue, Value.typ] at hname <;> exact absurd hname (by decide)

theorem ttlReply_ne_iff (now unit : ℤ) (entry : Option Entry) :
    ttlReply now unit entry ≠ -2 ↔ entry.isSome = true := by
  cases entry with
  | none => simp [ttlReply]
  | some e =>
    refine iff_of_true ?_ rfl
    rw [ttlReply]
    cases e.expiry with
    | none => simp [remainingTime]
    | some d =>
      have hpos : 1 ≤ remainingTime now unit (some d) := le_max_left _ _
      omega

variable {entries : Bytes → Option Entry} (h : Holds s entries) (hnow : IsInt64 now)
  (hkey : ShortName key) (hfits : ∀ d ∈ storedDeadline s key, IsInt64 (d - now))

include h hkey hfits

theorem Holds.expiry_fits :
    ∀ d ∈ (aliveAt now (entries key)).bind Entry.expiry, IsInt64 (d - now) := by
  intro d hd
  refine hfits d ?_
  rw [storedDeadline_eq (h.recordable key) (h.records key hkey)]
  obtain ⟨e, he, hexpiry⟩ := Option.bind_eq_some_iff.mp hd
  exact Option.bind_eq_some_iff.mpr ⟨e, (Option.filter_eq_some_iff.mp he).1, hexpiry⟩

include hnow

/-- The commands agree on whether a key of the server exists. -/
theorem Holds.existence_tfae (name value : Bytes) :
    List.TFAE [(aliveAt now (entries key)).isSome = true,
      ((redisExists [name, key]).run (embedded now) s).1 = .integer 1,
      ((redisTypeCommand [name, key]).run (embedded now) s).1 ≠ .simpleString RedisType.none.name,
      ((redisTTLCommand second [name, key]).run (embedded now) s).1 ≠ .integer (-2),
      ((redisTTLCommand millisecond [name, key]).run (embedded now) s).1 ≠ .integer (-2),
      ((redisSetNX [name, key, value]).run (embedded now) s).1 = .integer 0] := by
  have hentry := h.recordable key
  have hs := h.records key hkey
  have hfits' := h.expiry_fits hkey hfits
  rw [reply_redisExists hnow hentry hs, reply_redisTypeCommand hnow hentry hs,
    reply_redisTTLCommand hnow hentry hs name hfits', reply_redisTTLCommand hnow hentry hs name hfits',
    reply_redisSetNX hnow hentry hs]
  refine List.tfae_of_forall ((aliveAt now (entries key)).isSome = true) _ ?_
  simp only [List.mem_cons, List.not_mem_nil, or_false, forall_eq_or_imp, forall_eq, true_and, ne_eq,
    Resp.integer.injEq, Resp.simpleString.injEq]
  refine ⟨by split <;> simp_all, typeName_ne_none_iff _, ttlReply_ne_iff now second _,
    ttlReply_ne_iff now millisecond _, by split <;> simp_all⟩

/-- The remaining time of a key that exists. -/
theorem Holds.reply_ttl (halive : (aliveAt now (entries key)).isSome = true) (name : Bytes) (unit : ℤ) :
    ((redisTTLCommand unit [name, key]).run (embedded now) s).1 =
      .integer (remainingTime now unit (storedDeadline s key)) := by
  have hentry := h.recordable key
  have hs := h.records key hkey
  obtain ⟨e, he⟩ := Option.isSome_iff_exists.mp halive
  have hold : entries key = some e := (Option.filter_eq_some_iff.mp he).1
  rw [reply_redisTTLCommand hnow hentry hs name (h.expiry_fits hkey hfits), he, ttlReply,
    storedDeadline_eq hentry hs, hold, Option.bind_some]

end Agreement

/-- In every store that commands reach, and at every clock reading, the commands agree on
which keys exist, the enumeration is strictly ascending and counted by `DBSIZE`, and the
remaining time of a key is that of its deadline. -/
theorem keys_agree {go : GoRuntime} {password : Bytes} {clock : ℕ → ℤ} {inputs : List Received}
    {tick : ℕ} (halong : Machine.Along (receive go password clock) (Fitting go password clock) inputs
      (tick, ∅)) {reached : List Received} (hreached : reached <+: inputs) {now : ℤ}
    (hnow : IsInt64 now) :
    let s := (Machine.after (receive go password clock) reached (tick, ∅)).2
    ∃ keys, (run (embedded now) (redisLogicalKeys go) s).1 = .ok keys ∧
      (keys.Pairwise fun a b => compare a b = .lt) ∧
      (∀ name, ((redisDBSize go [name]).run (embedded now) s).1 = .integer keys.length) ∧
      ∀ key, ShortName key → (∀ d ∈ storedDeadline s key, IsInt64 (d - now)) →
        (∀ name value, List.TFAE [key ∈ keys,
          ((redisExists [name, key]).run (embedded now) s).1 = .integer 1,
          ((redisTypeCommand [name, key]).run (embedded now) s).1 ≠ .simpleString (text "none"),
          ((redisTTLCommand second [name, key]).run (embedded now) s).1 ≠ .integer (-2),
          ((redisTTLCommand millisecond [name, key]).run (embedded now) s).1 ≠ .integer (-2),
          ((redisSetNX [name, key, value]).run (embedded now) s).1 = .integer 0]) ∧
        (key ∈ keys → ∀ name unit, unit = second ∨ unit = millisecond →
          ((redisTTLCommand unit [name, key]).run (embedded now) s).1 =
            .integer (remainingTime now unit (storedDeadline s key))) := by
  intro s
  obtain ⟨entries, h⟩ := (typed_reached halong hreached).1.exists_holds
  obtain ⟨keys, s', hrun, hmem, hsorted, -⟩ := h.run_redisLogicalKeys hnow go
  refine ⟨keys, congrArg Prod.fst hrun, hsorted, fun name => ?_, fun key hkey hfits => ⟨fun name value => ?_,
    fun hkeys name unit _ => ?_⟩⟩
  · have hsize : run (embedded now) (do return Resp.integer (← redisLogicalKeys go).length) s =
        (.ok (.integer keys.length), s') := by
      rw [run_bind_ok hrun, run_pure]
    exact congrArg Prod.fst (run_replying hsize)
  · have hexists : (key ∈ keys) = ((aliveAt now (entries key)).isSome = true) := by
      rw [hmem, and_iff_right hkey]
    rw [hexists]
    exact h.existence_tfae hnow hkey hfits name value
  · exact h.reply_ttl hnow hkey hfits ((hmem key).mp hkeys).2 name unit

theorem disagree_of_pushes {count : ℕ} (hcount : count + 1 = 2 ^ 32) :
    let s := (Machine.after (receive .upperCase [] fun _ => 0)
      (List.replicate (count + 1) pushRequest) (0, ∅)).2
    ((redisExists [text "EXISTS", []]).run (embedded 0) s).1 ≠ .integer 1 ∧
      ((redisTypeCommand [text "TYPE", []]).run (embedded 0) s).1 ≠ .simpleString (text "none") := by
  intro s
  obtain ⟨s₀, hs⟩ := at_of_pushes hcount
  have hprobe : run (embedded 0) (redisType []) s = _ :=
    run_redisType_of_overflow (by rw [List.length_replicate, hcount]) hs
  have hexists : (redisExists [text "EXISTS", []]).run (embedded 0) s = (_, s) :=
    run_replying_error (run_bind_error (run_bind_error hprobe))
  have htype : (redisTypeCommand [text "TYPE", []]).run (embedded 0) s = (_, s) :=
    run_replying_error (run_bind_error hprobe)
  rw [hexists, htype]
  exact ⟨nofun, nofun⟩

/-- A run that fills a list with `2 ^ 32` items: `EXISTS` does not reply `1`, and yet
`TYPE` does not reply `none`. -/
theorem overflow_keys_disagree :
    ∃ inputs : List Received, (∀ received ∈ inputs, Deliverable received.args) ∧
      let s := (Machine.after (receive .upperCase [] fun _ => 0) inputs (0, ∅)).2
      ((redisExists [text "EXISTS", []]).run (embedded 0) s).1 ≠ .integer 1 ∧
        ((redisTypeCommand [text "TYPE", []]).run (embedded 0) s).1 ≠ .simpleString (text "none") :=
  ⟨List.replicate (2 ^ 32 - 1 + 1) pushRequest, fun _ => deliverable_of_mem_pushes,
    disagree_of_pushes rfl⟩

/-- After one push the list exists and has no deadline. -/
theorem keys_agree_after_one_push :
    let s := (Machine.after (receive .upperCase [] fun _ => 0) [pushRequest] (0, ∅)).2
    ((redisTypeCommand [[], []]).run (embedded 0) s).1 = .simpleString (text "list") ∧
      ((redisExists [[], []]).run (embedded 0) s).1 = .integer 1 ∧
      ((redisTTLCommand second [[], []]).run (embedded 0) s).1 = .integer (-1) := by
  intro s
  have halong : Machine.Along (receive .upperCase [] fun _ => 0) (Fitting .upperCase [] fun _ => 0)
      [pushRequest] (0, ∅) := ⟨fitting_pushRequest, trivial⟩
  have hdeadline : storedDeadline s [] = none := rfl
  have htype : ((redisTypeCommand [[], []]).run (embedded 0) s).1 = .simpleString (text "list") := rfl
  obtain ⟨keys, -, -, -, hkeys⟩ := keys_agree halong List.prefix_rfl (by decide : IsInt64 0)
  obtain ⟨htfae, httl⟩ := hkeys [] (by decide) (by simp [s, hdeadline])
  have hnotNone : ((redisTypeCommand [[], []]).run (embedded 0) s).1 ≠ .simpleString (text "none") := by
    rw [htype, ne_eq, Resp.simpleString.injEq]
    decide
  have hmem : [] ∈ keys := ((htfae [] []).out 2 0).mp hnotNone
  refine ⟨htype, ((htfae [] []).out 0 1).mp hmem, ?_⟩
  rw [httl hmem [] second (.inl rfl), hdeadline]
  rfl

end KVLite.TypedMap
