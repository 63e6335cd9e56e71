import KVLite.Keyspace.Reachable
import KVLite.TypedMap.Keeps
import Mathlib.Data.List.Dedup

/-!
# Every command keeps a store typed

Command by command: whatever the clock shows, a command that starts from a typed store
leaves a typed store. A push needs room in its list, because the record of a list counts
its items in 32 bits.
-/

namespace KVLite.TypedMap

open Semantics Fallible BigEndian Redis

/-! ### Strings -/

theorem clockOnly_unixNano : Fallible.Uses (fun call : Call => call = .now) unixNano :=
  ⟨rfl, fun _ => trivial⟩

theorem clockOnly_redisSetDeadline (option amount : Bytes) :
    Fallible.Uses (fun call : Call => call = .now) (redisSetDeadline option amount) := by
  unfold redisSetDeadline
  cases redisParseInt amount with
  | error err => trivial
  | ok amount =>
    refine Fallible.Uses.bind (trivial : Fallible.Uses _ (liftExcept (.ok amount))) fun amount => ?_
    generalize (if option = text "PX" ∨ option = text "PXAT" then millisecond else second) = unit
    dsimp only
    split
    · trivial
    split
    · trivial
    · refine clockOnly_unixNano.bind fun current => ?_
      split <;> trivial

theorem clockOnly_redisSetOptions (go : GoRuntime) (options : SetOptions) (args : List Bytes) :
    Fallible.Uses (fun call : Call => call = .now) (redisSetOptions go options args) := by
  fun_induction redisSetOptions go options args with
  | case1 => trivial
  | _ => first
    | assumption
    | trivial
    | exact (clockOnly_redisSetDeadline _ _).bind (by assumption)

section Strings

variable {times : ℤ → Prop} {s₀ : Store} {key : Bytes}

theorem keeps_redisSetWith (value : Bytes) (options : SetOptions) :
    Keeps times s₀ key (redisSetWith key value options) := by
  refine .redisType_bind fun typ => .ite (.pure _) (.ite (.pure _) ?_)
  refine .bind (.ite (.bind .redisString fun old => ?_) (.pure _)) fun old =>
    .bind (.ite (.bind .redisExpiry fun _ => .pure _) (.pure _)) fun expiresAt =>
      .bind (.redisDeleteAndWriteString _ _) fun _ => .pure _
  cases old <;> exact .pure _

/-- The increments: the string is read, its deadline is read and it is written back. -/
theorem keeps_redisIncrementBig (delta : ℤ) :
    Keeps times s₀ key (redisIncrementBig key delta) := fun entry h => by
  have hwrite : ∀ (current : ℤ) (entry' : Option Entry), RecordableEntry entry' →
      entry' = none ∨ (∃ data deadline, entry' = some (.string data deadline)) →
      Leads times s₀ key (do
        let expiresAt := (← redisExpiry key).getD 0
        redisWriteString key (formatInt (current + delta)) expiresAt
        return Resp.integer (current + delta)) (recordsOf entry') fun _ => Kept :=
    fun current entry' hentry' hold => leads_redisExpiry_bind_of_string hentry' hold
      fun expiresAt entry'' hold' => leads_redisWriteString_bind hold' _ _ (.pure _)
  refine .seq (leads_redisString h ?_ (fun data deadline heq => ?_) fun _ => h.kept)
  · exact .ite (fun _ => .pure kept_noRecords) fun _ =>
      hwrite 0 none recordableEntry_none (.inl rfl)
  · refine Fallible.Leads.continues_ok.mpr ?_
    cases hcurrent : parseDecimal data with
    | none =>
      simp only [hcurrent]
      exact .pure h.kept
    | some current =>
      simp only [hcurrent]
      exact .ite (fun _ => .pure h.kept) fun _ => hwrite current entry h (.inr ⟨data, deadline, heq⟩)

variable {args : List Bytes} (hargs : Deliverable args)

include hargs

theorem maintains_redisGet : MaintainsReply times (redisGet args) := by
  refine .replying ?_
  split
  · exact .of_keeps (hargs.shortName (by simp)) fun _ => .bind .redisString fun _ => .pure _
  · exact .pure _

theorem maintains_redisSet (go : GoRuntime) : MaintainsReply times (redisSet go args) := by
  refine .replying ?_
  split
  · exact .of_keeps (hargs.shortName (by simp)) fun _ =>
      .bind (.of_clockOnly (clockOnly_redisSetOptions go _ _)) fun _ => keeps_redisSetWith _ _
  · exact .pure _

theorem maintains_redisSetNX : MaintainsReply times (redisSetNX args) := by
  refine .replying ?_
  split
  · refine .of_keeps (hargs.shortName (by simp)) fun _ entry h =>
      leads_redisType_bind h fun entry' hentry' _ => .ite (fun _ => .pure hentry'.kept) fun hnone => ?_
    obtain rfl := eq_none_of_typeOf (not_not.mp hnone)
    exact leads_redisWriteString_bind (.inl rfl) _ 0 (.pure _)
  · exact .pure _

theorem maintains_redisSetEX (milliseconds : Bool) :
    MaintainsReply times (redisSetEX milliseconds args) := by
  refine .replying ?_
  split
  · next name key amount value =>
    refine .of_keeps (hargs.shortName (show key ∈ _ by simp)) fun _ => ?_
    split
    · exact .throw _
    · exact .ite (.throw _) (.bind .unixNano fun _ => .ite (.throw _)
        (.bind (.redisDeleteAndWriteString _ _) fun _ => .pure _))
  · exact .pure _

theorem maintains_redisGetSet : MaintainsReply times (redisGetSet args) := by
  refine .replying ?_
  split
  · exact .of_keeps (hargs.shortName (by simp)) fun _ => .bind .redisString fun _ =>
      .bind (.redisDeleteAndWriteString _ _) fun _ => .pure _
  · exact .pure _

theorem maintains_redisGetDel : MaintainsReply times (redisGetDel args) := by
  refine .replying ?_
  split
  · refine .of_keeps (hargs.shortName (by simp)) fun _ => .bind .redisString fun value => ?_
    cases value with
    | none => exact .pure _
    | some value => exact .bind .redisDeleteRaw fun _ => .pure _
  · exact .pure _

theorem maintains_redisStrLen : MaintainsReply times (redisStrLen args) := by
  refine .replying ?_
  split
  · refine .of_keeps (hargs.shortName (by simp)) fun _ => .bind .redisString fun value => ?_
    cases value <;> exact .pure _
  · exact .pure _

theorem maintains_redisAppend : MaintainsReply times (redisAppend args) := by
  refine .replying ?_
  split
  · refine .of_keeps (hargs.shortName (by simp)) fun _ entry h =>
      .seq (leads_redisString h ?_ (fun data deadline heq => ?_) fun _ => h.kept)
    · exact leads_redisExpiry_bind_of_string recordableEntry_none (.inl rfl)
        fun expiresAt entry' hold' => leads_redisWriteString_bind hold' _ _ (.pure _)
    · exact leads_redisExpiry_bind_of_string h (.inr ⟨data, deadline, heq⟩)
        fun expiresAt entry' hold' => leads_redisWriteString_bind hold' _ _ (.pure _)
  · exact .pure _

theorem maintains_redisIncrementCommand (delta : ℤ) :
    MaintainsReply times (redisIncrementCommand delta args) := by
  refine .replying ?_
  split
  · exact .of_keeps (hargs.shortName (by simp)) fun _ => keeps_redisIncrementBig delta
  · exact .pure _

theorem maintains_redisIncrementByCommand (decrement : Bool) :
    MaintainsReply times (redisIncrementByCommand decrement args) := by
  refine .replying ?_
  split
  · exact .of_keeps (hargs.shortName (by simp)) fun _ => .bind (.liftExcept _) fun _ =>
      keeps_redisIncrementBig _
  · exact .pure _

end Strings

/-! ### Deadlines -/

/-- The deadline of an expiry command fits 64 bits. -/
theorem isInt64_redisExpiryFromCommand {time amount expiresAt : ℤ} {command : Bytes}
    (h : redisExpiryFromCommand time command amount = .ok expiresAt) : IsInt64 expiresAt := by
  obtain ⟨hlow, hhigh⟩ := isInt64_wrapInt64 time
  have hunit : ∀ unit, unit = millisecond ∨ unit = second →
      ¬ (amount > redisMaxInt64.tdiv unit ∨ amount < redisMinInt64.tdiv unit) →
      IsInt64 (amount * unit) := by
    have hms : redisMaxInt64.tdiv millisecond = 9223372036854 := by decide
    have hms' : redisMinInt64.tdiv millisecond = -9223372036854 := by decide
    have hs : redisMaxInt64.tdiv second = 9223372036 := by decide
    have hs' : redisMinInt64.tdiv second = -9223372036 := by decide
    rintro unit (rfl | rfl) hrange
    · rw [hms, hms'] at hrange
      unfold IsInt64 millisecond
      omega
    · rw [hs, hs'] at hrange
      unfold IsInt64 second
      omega
  unfold redisExpiryFromCommand at h
  generalize hvalue : (if (text "P").isPrefixOf command = true then millisecond else second) = unit at h
  have hfits := hunit unit (by rw [← hvalue]; split <;> simp)
  dsimp only at h
  split at h
  · cases h
  · next hrange =>
    obtain ⟨hlow', hhigh'⟩ := hfits hrange
    split at h
    · cases h
      exact ⟨hlow', hhigh'⟩
    split at h
    · cases h
    split at h
    · cases h
    · cases h
      unfold redisMinInt64 redisMaxInt64 at *
      unfold IsInt64
      omega

section Deadlines

variable {times : ℤ → Prop} {s₀ : Store} {key : Bytes}

/-- The deadline that `GETEX` sets fits 64 bits. -/
theorem keeps_redisGetExChange_bind {α : Type} (go : GoRuntime) (rest : List Bytes)
    {f : Option GetExChange → Action α}
    (hf : ∀ change, (∀ d, change = some (.expireAt d) → IsInt64 d) → Keeps times s₀ key (f change)) :
    Keeps times s₀ key (redisGetExChange go rest >>= f) := by
  intro entry h
  refine .seq ?_
  unfold redisGetExChange
  split
  · exact .pure (hf _ (by rintro _ ⟨⟩) entry h)
  · refine .pure (hf _ ?_ entry h)
    split <;> nofun
  · split
    · exact .throw h.kept
    · refine .ite (fun _ => .throw h.kept) fun _ => .ite (fun _ => .pure (hf _ (by rintro _ ⟨⟩) entry h))
        fun _ => .seq (leads_now fun time => Fallible.Leads.continues_ok.mpr ?_)
      split
      · exact .throw h.kept
      · next hexpires =>
        refine .pure (hf _ ?_ entry h)
        rintro _ ⟨⟩
        exact isInt64_redisExpiryFromCommand hexpires
  · exact .pure (hf _ (by rintro _ ⟨⟩) entry h)

variable {args : List Bytes} (hargs : Deliverable args)

include hargs

theorem maintains_redisExpireCommand (command : Bytes) :
    MaintainsReply times (redisExpireCommand command args) := by
  refine .replying ?_
  split
  · exact .of_keeps (hargs.shortName (by simp)) fun _ => .bind (.liftExcept _) fun amount =>
      .bind .now fun time => .liftExcept_bind fun expiresAt hexpires =>
        .bind (.redisSetExpiry (isInt64_redisExpiryFromCommand hexpires)) fun _ =>
          .ite (.pure _) (.pure _)
  · exact .pure _

theorem maintains_redisGetEx (go : GoRuntime) : MaintainsReply times (redisGetEx go args) := by
  refine .replying ?_
  split
  · refine .of_keeps (hargs.shortName (by simp)) fun _ => .bind .redisString fun value => ?_
    cases value with
    | none => exact .pure _
    | some value =>
      refine keeps_redisGetExChange_bind go _ fun change hchange => ?_
      split
      · exact .pure _
      · exact .pure _
      · exact .bind .redisPersist fun _ => .pure _
      · exact .bind (.redisSetExpiry (hchange _ rfl)) fun _ => .pure _
  · exact .pure _

theorem maintains_redisTTLCommand (divisor : ℤ) :
    MaintainsReply times (redisTTLCommand divisor args) := by
  refine .replying ?_
  split
  · refine .of_keeps (hargs.shortName (by simp)) fun _ => .bind .redisExpiry fun expiresAt => ?_
    cases expiresAt with
    | none => exact .redisType_bind fun _ => .ite (.pure _) (.pure _)
    | some expiresAt => exact .bind .unixNano fun _ => .ite (.pure _) (.pure _)
  · exact .pure _

theorem maintains_redisPersistCommand : MaintainsReply times (redisPersistCommand args) := by
  refine .replying ?_
  split
  · exact .of_keeps (hargs.shortName (by simp)) fun _ => .bind .redisPersist fun _ =>
      .ite (.pure _) (.pure _)
  · exact .pure _

theorem maintains_redisTypeCommand : MaintainsReply times (redisTypeCommand args) := by
  refine .replying ?_
  split
  · exact .of_keeps (hargs.shortName (by simp)) fun _ => .redisType_bind fun _ => .pure _
  · exact .pure _

end Deadlines

/-! ### Several keys -/

section Keys

variable {times : ℤ → Prop}

theorem maintains_redisMGetLoop {keys : List Bytes} (hkeys : ∀ key ∈ keys, ShortName key) :
    Maintains times (redisMGetLoop keys) := by
  induction keys with
  | nil => exact .pure _
  | cons key keys ih =>
    rw [List.forall_mem_cons] at hkeys
    exact .bind (.of_keeps hkeys.1 fun _ => .redisString) fun _ => .bind (ih hkeys.2) fun _ => .pure _

theorem maintains_redisMSetLoop {pairs : List (Bytes × Bytes)}
    (hpairs : ∀ pair ∈ pairs, ShortName pair.1) : Maintains times (redisMSetLoop pairs) := by
  induction pairs with
  | nil => exact .pure _
  | cons pair pairs ih =>
    rw [List.forall_mem_cons] at hpairs
    exact .bind (.of_keeps hpairs.1 fun _ => .redisDeleteAndWriteString _ _) fun _ => ih hpairs.2

theorem maintains_redisDeleteLoop {keys : List Bytes} (hkeys : ∀ key ∈ keys, ShortName key)
    (count : ℕ) : Maintains times (redisDeleteLoop count keys) := by
  induction keys generalizing count with
  | nil => exact .pure _
  | cons key keys ih =>
    rw [List.forall_mem_cons] at hkeys
    exact .bind (.of_keeps hkeys.1 fun _ => .redisDeleteRaw) fun _ =>
      .ite (ih hkeys.2 _) (ih hkeys.2 _)

theorem maintains_redisExistsLoop {keys : List Bytes} (hkeys : ∀ key ∈ keys, ShortName key)
    (count : ℕ) : Maintains times (redisExistsLoop count keys) := by
  induction keys generalizing count with
  | nil => exact .pure _
  | cons key keys ih =>
    rw [List.forall_mem_cons] at hkeys
    exact .bind (.redisType hkeys.1) fun _ => .ite (ih hkeys.2 _) (ih hkeys.2 _)

theorem maintains_redisExistingKeys {keys : List Bytes} (hkeys : ∀ key ∈ keys, ShortName key) :
    Maintains times (redisExistingKeys keys) := by
  induction keys with
  | nil => exact .pure _
  | cons key keys ih =>
    rw [List.forall_mem_cons] at hkeys
    exact .bind (.redisType hkeys.1) fun _ => .bind (ih hkeys.2) fun _ => .pure _

/-- The keys of a typed store are short. -/
theorem TypedStore.shortName_of_candidate {s : Store} (h : TypedStore s) {key : Bytes}
    (hmem : key ∈ (s.scan []).filterMap fun record => logicalKeyFromStorage record.1) :
    ShortName key := by
  obtain ⟨⟨storageKey, data⟩, hrecord, hkey⟩ := List.mem_filterMap.mp hmem
  obtain ⟨-, hget⟩ := Store.mem_scan.mp hrecord
  obtain ⟨key', hshort, hrecord'⟩ := h.layout storageKey (by rw [hget]; rfl)
  rw [(logicalKeyFromStorage_eq_some_iff hshort).mpr hrecord'] at hkey
  cases hkey
  exact hshort

theorem maintains_redisLogicalKeys (go : GoRuntime) : Maintains times (redisLogicalKeys go) := by
  intro s h
  refine .seq (ensures_scanAll.mpr ?_)
  refine (maintains_redisExistingKeys fun key hmem => ?_).bind (fun _ => .pure _) s h
  rw [(go.rangeOrder_perm _).mem_iff, List.mem_dedup] at hmem
  exact h.shortName_of_candidate hmem

theorem At.noRecordOf {s₀ s : Store} {key : Bytes} (h : At s₀ key s noRecords) :
    NoRecordOf key s := by
  intro storageKey hrecord
  obtain ⟨slot, rfl⟩ := recordOf_iff.mp hrecord
  exact h.records slot

theorem NoRecordOf.erase {s : Store} {key : Bytes} (h : NoRecordOf key s) (storageKey : Bytes) :
    NoRecordOf key (s.erase storageKey) := by
  intro r hr
  rw [Store.getElem?_erase]
  split
  · rfl
  · exact h r hr

/-- A probe that reports no type leaves no record. -/
theorem TypedStore.ensures_redisType {s : Store} {key : Bytes} (h : TypedStore s)
    (hkey : ShortName key) :
    Ensures (embeddedAt times) (redisType key) s
      (fun typ s' => TypedStore s' ∧ (typ = .none → NoRecordOf key s')) (fun _ => TypedStore) := by
  have hprobe : Ensures (embeddedAt times) (redisType key >>= pure) s _ _ :=
    h.ensures_of_leads hkey (P := fun typ records => typ = .ok .none → records = noRecords) fun entry hentry _ =>
      leads_redisType_bind hentry fun entry' hentry' _ => .pure ⟨hentry'.kept, fun hnone => by
        rw [eq_none_of_typeOf (Except.ok.inj hnone)]
        rfl⟩
  rw [bind_pure] at hprobe
  refine hprobe.mono ?_ fun _ _ h => h.1
  rintro typ s' ⟨hs', records, hat, hnone⟩
  refine ⟨hs', ?_⟩
  rintro rfl
  obtain rfl := hnone rfl
  exact hat.noRecordOf

/-- After the first loop of `MSETNX` has found every key absent, no key has a record. -/
theorem ensures_redisAllAbsent_noRecordOf {s : Store} {pairs : List (Bytes × Bytes)}
    (hpairs : ∀ pair ∈ pairs, ShortName pair.1) (h : TypedStore s) {P : Bytes → Prop}
    (hP : ∀ key, P key → NoRecordOf key s) :
    Ensures (embeddedAt times) (redisAllAbsent pairs) s
      (fun absent s' => TypedStore s' ∧ (absent = true → ∀ key, P key ∨ (∃ pair ∈ pairs, pair.1 = key) →
        NoRecordOf key s'))
      (fun _ => TypedStore) := by
  induction pairs generalizing s P with
  | nil =>
    refine ⟨h, fun _ key hkey => ?_⟩
    rcases hkey with hkey | ⟨_, hmem, -⟩
    · exact hP key hkey
    · cases hmem
  | cons pair pairs ih =>
    rw [List.forall_mem_cons] at hpairs
    refine .seq ?_
    refine (ensures_and (h.ensures_redisType hpairs.1)
      (ensures_of_writesNothing (I := fun s => ∀ key, P key → NoRecordOf key s)
        (fun s r h key hkey => NoRecordOf.erase (h key hkey) r) (uses_redisType pair.1) hP)).mono ?_
      fun _ _ h => h.1
    rintro typ s' ⟨⟨hs', hnone⟩, hP'⟩
    by_cases htyp : typ = .none
    · -- The keys found absent are carried through the probes of the others.
      rw [if_neg (not_not.mpr htyp)]
      refine (ih (P := fun key => P key ∨ pair.1 = key) hpairs.2 hs' ?_).mono ?_ fun _ _ h => h
      · rintro key (hkey | rfl)
        exacts [hP' key hkey, hnone htyp]
      · rintro absent s'' ⟨hs'', hrest⟩
        refine ⟨hs'', fun habsent key hkey => hrest habsent key ?_⟩
        rcases hkey with hkey | ⟨pair', hmem, rfl⟩
        · exact .inl (.inl hkey)
        · rcases List.mem_cons.mp hmem with rfl | hmem
          · exact .inl (.inr rfl)
          · exact .inr ⟨pair', hmem, rfl⟩
    · rw [if_pos htyp]
      exact ⟨hs', Bool.noConfusion⟩

/-- The records of a key that is absent or holds a string. -/
def StringOrAbsent (records : Records) : Prop :=
  ∃ entry : Option Entry, RecordableEntry entry ∧ recordsOf entry = records ∧
    (entry = none ∨ ∃ data deadline, entry = some (.string data deadline))

theorem stringOrAbsent_noRecords : StringOrAbsent noRecords :=
  ⟨none, recordableEntry_none, rfl, .inl rfl⟩

theorem stringOrAbsent_string {payload : Bytes} {expiresAt : ℤ} (h : IsInt64 expiresAt) :
    StringOrAbsent ((Value.string payload).records (some expiresAt)) := by
  refine ⟨some (.string payload (some expiresAt)), ?_, rfl, .inr ⟨_, _, rfl⟩⟩
  rintro _ ⟨⟩
  exact .of_typ_ne_list (by rintro _ ⟨⟩; exact h) nofun

/-- The second loop of `MSETNX` writes strings to keys that are absent or hold one. -/
theorem ensures_redisWriteStrings_typed {s : Store} {pairs : List (Bytes × Bytes)}
    (hpairs : ∀ pair ∈ pairs, ShortName pair.1) (h : TypedStore s)
    (hold : ∀ pair ∈ pairs, ∃ records, At s pair.1 s records ∧ StringOrAbsent records) :
    Ensures (embeddedAt times) (redisWriteStrings pairs) s (fun _ => TypedStore)
      (fun _ => TypedStore) := by
  induction pairs generalizing s with
  | nil => exact h
  | cons pair pairs ih =>
    rw [List.forall_mem_cons] at hpairs hold
    obtain ⟨⟨_, hs, entry, hentry, rfl, hstring⟩, hold⟩ := hold
    have hwrite : Leads times s pair.1 (redisWriteString pair.1 pair.2 0) (recordsOf entry)
        fun _ => StringOrAbsent :=
      leads_redisWriteString hstring pair.2 0 stringOrAbsent_noRecords
        fun _ hd => stringOrAbsent_string hd
    refine .seq (Program.wp_mono ?_ (hwrite s hs))
    rintro result s' ⟨records, hs', hnew⟩
    have htyped : TypedStore s' := by
      obtain ⟨entry', hentry', rfl, -⟩ := hnew
      exact h.update hpairs.1 hs' hentry'.kept
    cases result with
    | error err => exact htyped
    | ok value =>
      -- A key that is named twice holds the string written first.
      refine ih hpairs.2 htyped fun other hmem => ?_
      by_cases heq : other.1 = pair.1
      · exact ⟨records, heq ▸ ⟨hs'.records, fun _ _ => rfl⟩, hnew⟩
      · obtain ⟨records', hother, hstring'⟩ := hold other hmem
        exact ⟨records', hs'.of_ne hpairs.1 (hpairs.2 other hmem) heq hother, hstring'⟩

variable {args : List Bytes} (hargs : Deliverable args)

include hargs

theorem shortName_of_argPairs {pairs : List (Bytes × Bytes)} (h : argPairs args.tail = some pairs) :
    ∀ pair ∈ pairs, ShortName pair.1 := fun _ hmem =>
  hargs.shortName (List.mem_of_mem_tail (mem_of_mem_argPairs h hmem))

theorem maintains_redisMGet : MaintainsReply times (redisMGet args) := by
  refine .replying ?_
  split
  · exact .bind (maintains_redisMGetLoop fun _ hmem => hargs.shortName (List.mem_cons_of_mem _ hmem))
      fun _ => .pure _
  · exact .pure _

theorem maintains_redisMSet : MaintainsReply times (redisMSet args) := by
  refine .replying ?_
  split
  · next pair pairs hpairs =>
    exact .bind (maintains_redisMSetLoop (shortName_of_argPairs hargs hpairs)) fun _ => .pure _
  · exact .pure _

theorem maintains_redisMSetNX : MaintainsReply times (redisMSetNX args) := by
  refine .replying ?_
  split
  · next pair pairs hpairs =>
    have hshort := shortName_of_argPairs hargs hpairs
    intro s hs
    refine .seq ((ensures_redisAllAbsent_noRecordOf (P := fun _ => False)
      hshort hs (fun _ => False.elim)).mono ?_ fun _ _ h => h)
    rintro absent s' ⟨hs', habsent⟩
    cases absent with
    | true =>
      refine .seq (ensures_redisWriteStrings_typed hshort hs' ?_)
      refine fun other hmem => ⟨noRecords, ⟨fun slot => ?_, fun _ _ => rfl⟩, stringOrAbsent_noRecords⟩
      exact habsent rfl other.1 (.inr ⟨other, hmem, rfl⟩) _ (recordOf_iff.mpr ⟨slot, rfl⟩)
    | false => exact hs'
  · exact .pure _

theorem maintains_redisDelete : MaintainsReply times (redisDelete args) := by
  refine .replying ?_
  split
  · exact .bind (maintains_redisDeleteLoop
      (fun _ hmem => hargs.shortName (List.mem_cons_of_mem _ hmem)) 0) fun _ => .pure _
  · exact .pure _

theorem maintains_redisExists : MaintainsReply times (redisExists args) := by
  refine .replying ?_
  split
  · exact .bind (maintains_redisExistsLoop
      (fun _ hmem => hargs.shortName (List.mem_cons_of_mem _ hmem)) 0) fun _ => .pure _
  · exact .pure _

omit hargs

theorem maintains_redisKeysCommand (go : GoRuntime) (args : List Bytes) :
    MaintainsReply times (redisKeysCommand go args) := by
  refine .replying ?_
  split
  · exact .bind (maintains_redisLogicalKeys go) fun _ => .pure _
  · exact .pure _

theorem maintains_redisDBSize (go : GoRuntime) (args : List Bytes) :
    MaintainsReply times (redisDBSize go args) := by
  refine .replying ?_
  split
  · exact .bind (maintains_redisLogicalKeys go) fun _ => .pure _
  · exact .pure _

theorem maintains_redisScan (go : GoRuntime) (args : List Bytes) :
    MaintainsReply times (redisScan go args) := by
  have hreply : Maintains times (redisScanReply go args) := by
    unfold redisScanReply
    split
    · refine .bind (.liftExcept _) fun cursor => .bind (.liftExcept _) fun options => ?_
      split
      · exact .pure _
      · refine .bind (maintains_redisLogicalKeys go) fun keys => ?_
        split <;> exact .pure _
    · exact .pure _
  intro s h
  refine (Program.wp_bind _ _ _ _).mpr (Program.wp_mono (fun result s' hresult => ?_) (hreply s h))
  cases result <;> exact hresult

theorem maintains_redisFlush (args : List Bytes) : MaintainsReply times (redisFlush args) := by
  refine .replying (.ite (.pure _) fun s h => ?_)
  refine .seq (ensures_scanAll.mpr ?_)
  refine .seq (ensures_deleteEach (typedStore_of_no_record fun storageKey => ?_))
  rw [Store.getElem?_eraseAll]
  split
  · rfl
  · next hnot => simpa [Store.mem_map_fst_scan] using hnot

end Keys

section Hashes

variable {times : ℤ → Prop} {s₀ : Store} {key : Bytes}

theorem keeps_redisHMGetLoop (fields : List Bytes) :
    Keeps times s₀ key (redisHMGetLoop key fields) := by
  induction fields with
  | nil => exact .pure _
  | cons field fields ih =>
    exact .bind (.redisHashField field) fun _ => .bind ih fun _ => .pure _

/-- The end of `HINCRBY`: the sum takes the place of the field. -/
theorem leads_putPayload_field {fields : Hash} {deadline : Option ℤ}
    (hdeadline : ∀ d ∈ deadline, IsInt64 d) (hkept : Kept ((Value.hash fields).records deadline))
    (field : Bytes) (current : Option ℤ) (delta : ℤ) :
    Leads times s₀ key (match current with
      | none => return .errorString (text "ERR hash value is not an integer")
      | some current =>
        if ¬ IsInt64 (current + delta) then
          return .errorString (text "ERR increment or decrement would overflow")
        else do
          putPayload (hashKey key field) Redis.bytesCodec (formatInt (current + delta)) 0
          return Resp.integer (current + delta)) ((Value.hash fields).records deadline)
      fun _ => Kept := by
  split
  · exact .pure hkept
  · refine .ite (fun _ => .pure hkept) fun _ => .seq (leads_putPayload (.field field) 0 fun d _ hzero => ?_)
    rw [hzero le_rfl, update_records_field]
    exact .pure (kept_hash hdeadline (size_insertAll_cons_ne_zero fields (field, _) []))

variable {args : List Bytes} (hargs : Deliverable args)

include hargs

theorem maintains_redisHSet : MaintainsReply times (redisHSet args) := by
  refine .replying ?_
  split
  · next name key rest =>
    refine .of_keeps (hargs.shortName (show key ∈ _ by simp)) fun s₀ => ?_
    split
    · next pair pairs _ =>
      refine fun entry h => leads_redisType_bind h fun entry' hentry' _ => ?_
      by_cases htyp : typeOf entry' ≠ .none ∧ typeOf entry' ≠ .hash
      · exact .ite (fun _ => .throw hentry'.kept) (absurd htyp)
      · obtain ⟨fields, deadline, hrecords, htype, hempty, hdeadline⟩ := exists_hash_of_typeOf htyp
        rw [hrecords, htype]
        exact leads_growing rfl (by decide) hempty (.seq (leads_redisHSetLoop _ _ _ fun _ _ =>
          .pure (kept_hash (hdeadline hentry') (size_insertAll_cons_ne_zero fields pair pairs))))
    · exact .pure _
  · exact .pure _

theorem maintains_redisHDel : MaintainsReply times (redisHDel args) := by
  refine .replying ?_
  split
  · next name key field fields =>
    refine .of_keeps (hargs.shortName (show key ∈ _ by simp)) fun s₀ entry h =>
      leads_redisType_bind h fun entry' hentry' _ => ?_
    cases htyp : typeOf entry' with
    | none => exact .pure hentry'.kept
    | hash =>
      obtain ⟨fields', deadline, hrecords, -, -, hdeadline⟩ :=
        exists_hash_of_typeOf (fun hother => hother.2 htyp)
      rw [hrecords]
      refine .seq (leads_redisHDelLoop _ _ _ fun count _ => ?_)
      exact leads_shrunk (reads_fields (hdeadline hentry'))
        (List.length_eq_zero_iff.trans toList_fields_eq_nil)
        (Recordable.kept_of (.of_typ_ne_list (hdeadline hentry') (by simp [Value.typ])))
        fun _ => kept_noRecords
    | _ => exact .throw hentry'.kept
  · exact .pure _

theorem maintains_redisHIncrBy : MaintainsReply times (redisHIncrBy args) := by
  refine .replying ?_
  split
  · next name key field amount =>
    refine .of_keeps (hargs.shortName (show key ∈ _ by simp)) fun s₀ => .bind (.liftExcept _)
      fun delta entry h => leads_redisType_bind h fun entry' hentry' _ =>
        .ite (fun _ => .throw hentry'.kept) fun htyp => .seq ?_
    obtain ⟨fields, deadline, hrecords, -, hempty, hdeadline⟩ := exists_hash_of_typeOf htyp
    have hkept : Kept ((Value.hash fields).records deadline) := hrecords ▸ hentry'.kept
    refine leads_of_readAs (reads_redisHashField · field) hentry' ?_ (fun e _ _ => ?_) fun _ => hentry'.kept
    · rw [← records_hash_empty]
      exact leads_putPayload_field (by simp) (records_hash_empty ▸ kept_noRecords) field (some 0) delta
    · rw [hrecords]
      exact leads_putPayload_field (hdeadline hentry') hkept field _ delta
  · exact .pure _

theorem maintains_redisHGet : MaintainsReply times (redisHGet args) := by
  refine .replying ?_
  split
  · exact .of_keeps (hargs.shortName (by simp)) fun _ => .bind (.redisHashField _) fun _ => .pure _
  · exact .pure _

theorem maintains_redisHMGet : MaintainsReply times (redisHMGet args) := by
  refine .replying ?_
  split
  · exact .of_keeps (hargs.shortName (by simp)) fun _ => .bind (keeps_redisHMGetLoop _) fun _ => .pure _
  · exact .pure _

theorem maintains_redisHExists : MaintainsReply times (redisHExists args) := by
  refine .replying ?_
  split
  · exact .of_keeps (hargs.shortName (by simp)) fun _ => .bind (.redisHashField _) fun _ =>
      .ite (.pure _) (.pure _)
  · exact .pure _

theorem maintains_redisHGetAll : MaintainsReply times (redisHGetAll args) := by
  refine .replying ?_
  split
  · exact .of_keeps (hargs.shortName (by simp)) fun _ => .bind .redisHashEntries fun _ => .pure _
  · exact .pure _

theorem maintains_redisHLen : MaintainsReply times (redisHLen args) := by
  refine .replying ?_
  split
  · exact .of_keeps (hargs.shortName (by simp)) fun _ => .bind .redisHashEntries fun _ => .pure _
  · exact .pure _

theorem maintains_redisHKeys : MaintainsReply times (redisHKeys args) := by
  refine .replying ?_
  split
  · exact .of_keeps (hargs.shortName (by simp)) fun _ => .bind .redisHashEntries fun _ => .pure _
  · exact .pure _

theorem maintains_redisHVals : MaintainsReply times (redisHVals args) := by
  refine .replying ?_
  split
  · exact .of_keeps (hargs.shortName (by simp)) fun _ => .bind .redisHashEntries fun _ => .pure _
  · exact .pure _

end Hashes

section Sets

variable {times : ℤ → Prop} {args : List Bytes} (hargs : Deliverable args)

theorem maintains_redisSIsMember_of_short {key : Bytes} (hkey : ShortName key) (name member : Bytes) :
    MaintainsReply times (redisSIsMember [name, key, member]) := by
  refine .replying (.of_keeps hkey fun _ => .redisType_bind fun typ => ?_)
  split
  · exact .pure _
  · exact .get_bind (.member member) fun _ => .ite (.pure _) (.pure _)
  · exact .throw _

theorem maintains_redisSMIsMemberLoop {key : Bytes} (hkey : ShortName key) (items : List Resp)
    (members : List Bytes) : MaintainsReply times (redisSMIsMemberLoop key items members) := by
  induction members generalizing items with
  | nil => exact .pure _
  | cons member members ih =>
    intro s h
    refine (Program.wp_bind _ _ _ _).mpr (Program.wp_mono (fun reply s' hs' => ?_)
      (maintains_redisSIsMember_of_short hkey _ member s h))
    split
    · exact hs'
    · exact ih _ s' hs'

include hargs

theorem maintains_redisSIsMember : MaintainsReply times (redisSIsMember args) := by
  match args, hargs with
  | [name, key, member], hargs =>
    exact maintains_redisSIsMember_of_short (hargs.shortName (by simp)) name member
  | [], _ | [_], _ | [_, _], _ | _ :: _ :: _ :: _ :: _, _ => exact .replying (.pure _)

theorem maintains_redisSMIsMember : MaintainsReply times (redisSMIsMember args) := by
  unfold redisSMIsMember
  split
  · exact maintains_redisSMIsMemberLoop (hargs.shortName (by simp)) _ _
  · exact .pure _

theorem maintains_redisSAdd : MaintainsReply times (redisSAdd args) := by
  refine .replying ?_
  split
  · next name key member members =>
    refine .of_keeps (hargs.shortName (show key ∈ _ by simp)) fun s₀ entry h =>
      leads_redisType_bind h fun entry' hentry' _ => ?_
    by_cases htyp : typeOf entry' ≠ .none ∧ typeOf entry' ≠ .set
    · exact .ite (fun _ => .throw hentry'.kept) (absurd htyp)
    · obtain ⟨set, deadline, hrecords, htype, hempty, hdeadline⟩ := exists_set_of_typeOf htyp
      rw [hrecords, htype]
      exact leads_growing rfl (by decide) hempty (.seq (leads_redisSAddLoop _ _ _ fun _ _ =>
        .pure (kept_set (hdeadline hentry') (size_addMembers_cons_ne_zero set member members))))
  · exact .pure _

theorem maintains_redisSRem : MaintainsReply times (redisSRem args) := by
  refine .replying ?_
  split
  · next name key member members =>
    refine .of_keeps (hargs.shortName (show key ∈ _ by simp)) fun s₀ entry h =>
      leads_redisType_bind h fun entry' hentry' _ => ?_
    cases htyp : typeOf entry' with
    | none => exact .pure hentry'.kept
    | set =>
      obtain ⟨set, deadline, hrecords, -, -, hdeadline⟩ :=
        exists_set_of_typeOf (fun hother => hother.2 htyp)
      rw [hrecords]
      refine .seq (leads_redisSRemLoop _ _ _ fun count _ => ?_)
      exact leads_shrunk (reads_members (hdeadline hentry'))
        (List.length_eq_zero_iff.trans toList_members_eq_nil)
        (Recordable.kept_of (.of_typ_ne_list (hdeadline hentry') (by simp [Value.typ])))
        fun _ => kept_noRecords
    | _ => exact .throw hentry'.kept
  · exact .pure _

theorem maintains_redisSMembers : MaintainsReply times (redisSMembers args) := by
  refine .replying ?_
  split
  · exact .of_keeps (hargs.shortName (by simp)) fun _ => .bind .redisSetMembers fun _ => .pure _
  · exact .pure _

theorem maintains_redisSCard : MaintainsReply times (redisSCard args) := by
  refine .replying ?_
  split
  · exact .of_keeps (hargs.shortName (by simp)) fun _ => .bind .redisSetMembers fun _ => .pure _
  · exact .pure _

end Sets

section Lists

variable {times : ℤ → Prop} {s₀ : Store} {key : Bytes}

/-- A list that has lost some of its items is written, and the command goes on. -/
theorem leads_redisWriteList_bind {α : Type} {old items : List Bytes} {deadline : Option ℤ}
    (hdeadline : ∀ d ∈ deadline, IsInt64 d) (hitems : FittingList items) {f : Unit → Action α}
    (hf : Keeps times s₀ key (f ())) :
    Leads times s₀ key (redisWriteList key (itemRecords items) >>= f)
      ((Value.list old).records deadline) fun _ => Kept :=
  .seq (leads_redisWriteList items (hf.leads (Recordable.kept_of ⟨hdeadline, by rintro _ ⟨⟩; exact hitems⟩)))

theorem splitPopped_map (f : Bytes → Bytes) (left : Bool) (count : ℕ) (items : List Bytes) :
    splitPopped left count (items.map f) =
      ((splitPopped left count items).1.map f, (splitPopped left count items).2.map f) := by
  cases left <;> simp [splitPopped, List.map_take, List.map_drop]

theorem splitPopped_sublist (left : Bool) (count : ℕ) (items : List Bytes) :
    (splitPopped left count items).2.Sublist items := by
  cases left
  exacts [List.take_sublist _ _, List.drop_sublist _ _]

theorem inclusiveRange_sublist (items : List Bytes) (first last : ℤ) :
    (inclusiveRange items first last).Sublist items :=
  (List.take_sublist _ _).trans (List.drop_sublist _ _)

theorem keeps_redisPopOne (left : Bool) : Keeps times s₀ key (redisPopOne left key) := fun _ h =>
  leads_redisListValues_bind h (.pure kept_noRecords)
    (fun items deadline _ _ hitems hlist => .ite (fun _ => .pure (hlist.kept_of_ne_nil hitems)) fun _ => by
      rw [splitPopped_map]
      refine leads_redisWriteList_bind hlist.deadline
        ((hlist.list items rfl).sublist (splitPopped_sublist left 1 items))
        (.bind .now fun time => .bind (.liftExcept _) fun payload => ?_)
      cases payload <;> exact .pure _)
    fun _ => h.kept

theorem keeps_redisPopCount (left : Bool) (count : Bytes) :
    Keeps times s₀ key (redisPopCount left key count) := fun _ h =>
  leads_redisListValues_bind h (.pure kept_noRecords)
    (fun items deadline _ _ hitems hlist => .ite (fun _ => .pure (hlist.kept_of_ne_nil hitems)) fun _ => by
      split
      · exact .throw (hlist.kept_of_ne_nil hitems)
      · refine .ite (fun _ => .pure (hlist.kept_of_ne_nil hitems)) fun _ => ?_
        rw [splitPopped_map]
        exact leads_redisWriteList_bind hlist.deadline
          ((hlist.list items rfl).sublist (splitPopped_sublist left _ items))
          (.bind .now fun time => .bind (.liftExcept _) fun replies => .pure _))
    fun _ => h.kept

theorem keeps_redisLTrim (start stop : Bytes) : Keeps times s₀ key (do
    let start ← liftExcept (redisParseInt start)
    let stop ← liftExcept (redisParseInt stop)
    let items ← redisListValues key
    let (first, last, inRange) := normalizeRange items.length start stop
    if inRange then do
      redisWriteList key (inclusiveRange items first last)
      return ok
    else do
      let _ ← redisDeleteRaw key
      return ok) := by
  refine .bind (.liftExcept _) fun start => .bind (.liftExcept _) fun stop => fun entry h => ?_
  refine leads_redisListValues_bind h ?_ (fun items deadline _ _ hitems hlist => ?_) fun _ => h.kept
  · exact .ite (fun hrange => by simp at hrange) fun _ =>
      .seq (leads_redisDeleteRaw fun _ => .pure kept_noRecords)
  · refine .ite (fun _ => ?_) fun _ => ?_
    · rw [inclusiveRange_map]
      exact leads_redisWriteList_bind hlist.deadline
        ((hlist.list items rfl).sublist (inclusiveRange_sublist items _ _)) (.pure _)
    · exact .seq (leads_redisDeleteRaw fun _ => .pure kept_noRecords)

/-- At one of the readings the deadline lies ahead. -/
def Unpassed (times : ℤ → Prop) (deadline : Option ℤ) : Prop :=
  ∀ d ∈ deadline, ∃ time, times time ∧ wrapInt64 time < d

theorem unpassed_of_mayLive {value : Value} {deadline : Option ℤ} (h : MayLive times value deadline)
    (htyp : value.typ ≠ .string) : Unpassed times deadline := fun d hd =>
  (h d hd).resolve_left fun hstring => htyp hstring.1

/-- The end of a push: the items are written, and a stale deadline is removed. -/
theorem leads_redisPushValues_tail (items : List Bytes) {values : List Bytes} {deadline : Option ℤ}
    (left onlyIfExists : Bool) (hdeadline : ∀ d ∈ deadline, IsInt64 d)
    (hkept : Kept ((Value.list items).records deadline))
    (hfits : FittingList (pushed left items values)) :
    Leads times s₀ key (
      if onlyIfExists ∧ (itemRecords items).length = 0 then
        return .integer 0
      else do
        let encoded ← liftExcept (redisEncodeItems values)
        let pushed := if left then encoded.reverse ++ itemRecords items else itemRecords items ++ encoded
        redisWriteList key pushed
        if (itemRecords items).length = 0 then
          ignoringError (Transport.delete (collectionTTLKey key))
        return Resp.integer pushed.length) ((Value.list items).records deadline) fun _ => Kept := by
  refine .ite (fun _ => .pure hkept) fun _ => .seq (leads_liftExcept ?_)
  rw [redisEncodeItems_eq]
  refine Fallible.Leads.continues_ok.mpr ?_
  simp only [pushed_map]
  exact leads_redisWriteList_bind hdeadline hfits
    (.ite (.bind (.ignoringError .deleteTTL) fun _ => .pure _) (.pure _))

/-- A push that leaves fewer than `2 ^ 32` items in the list it finds. -/
theorem leads_redisPushValues {entry : Option Entry} (hentry : RecordableEntry entry)
    {values : List Bytes} (left onlyIfExists : Bool) (hvalues : Deliverable values)
    (hroom : ∀ e ∈ entry, ∀ items, e.value = .list items → Unpassed times e.deadline →
      items.length + values.length < 2 ^ 32) :
    Leads times s₀ key (redisPushValues key values left onlyIfExists) (recordsOf entry)
      fun _ => Kept := by
  have hcount : values.length < 2 ^ 32 := lt_of_le_of_lt hvalues.count (by decide)
  have hshort := shortItems_of_deliverable hvalues
  have hempty : Leads times s₀ key (_ : Action Resp) ((Value.list []).records none) fun _ => Kept :=
    leads_redisPushValues_tail [] left onlyIfExists (by simp) (records_none_eq ▸ kept_noRecords)
      (fittingList_pushed left (by simp) hshort (by simpa))
  rw [← records_none_eq] at hempty
  refine .seq (leads_redisType_of_times hentry (fun hmay => ?_) fun _ => ?_)
  · refine Fallible.Leads.continues_ok.mpr (.ite (fun _ => .throw hentry.kept) fun htyp =>
      .ite (fun _ => .pure hentry.kept) fun _ => ?_)
    refine leads_redisListValues_bind hentry hempty (fun items deadline _ hmem hitems hlist => ?_)
      fun _ => hentry.kept
    exact leads_redisPushValues_tail items left onlyIfExists hlist.deadline (hlist.kept_of_ne_nil hitems)
      (fittingList_pushed left (hlist.list items rfl).2 hshort
        (hroom _ hmem items rfl (unpassed_of_mayLive (hmay _ hmem) (by simp [Value.typ]))))
  · refine Fallible.Leads.continues_ok.mpr (.ite (fun htyp => absurd rfl htyp.1) fun _ =>
      .ite (fun _ => .pure kept_noRecords) fun _ => ?_)
    exact leads_redisListValues_bind recordableEntry_none hempty
      (fun _ _ _ hsome => by cases hsome) fun _ => kept_noRecords

variable {args : List Bytes} (hargs : Deliverable args)

include hargs

theorem maintains_redisLRange : MaintainsReply times (redisLRange args) := by
  refine .replying ?_
  split
  · exact .of_keeps (hargs.shortName (by simp)) fun _ => .bind (.liftExcept _) fun _ =>
      .bind (.liftExcept _) fun _ => .bind .redisListValues fun _ =>
        .ite (.bind .now fun _ => .bind (.liftExcept _) fun _ => .pure _) (.pure _)
  · exact .pure _

theorem maintains_redisLLen : MaintainsReply times (redisLLen args) := by
  refine .replying ?_
  split
  · exact .of_keeps (hargs.shortName (by simp)) fun _ => .bind .redisListValues fun _ => .pure _
  · exact .pure _

theorem maintains_redisPop (left : Bool) : MaintainsReply times (redisPop left args) := by
  refine .replying ?_
  split
  · exact .of_keeps (hargs.shortName (by simp)) fun _ => keeps_redisPopOne left
  · next name key count =>
    exact .of_keeps (hargs.shortName (show key ∈ _ by simp)) fun _ => keeps_redisPopCount left count
  · exact .pure _

theorem maintains_redisLTrim : MaintainsReply times (redisLTrim args) := by
  refine .replying ?_
  split
  · next name key start stop =>
    exact .of_keeps (hargs.shortName (show key ∈ _ by simp)) fun _ => keeps_redisLTrim start stop
  · exact .pure _

end Lists

/-! ### Every command -/

/-- The arguments of a push leave fewer than `2 ^ 32` items in the list of its key, if
there is one whose deadline lies ahead at a reading to come. -/
def PushFits (times : ℤ → Prop) (s : Store) : List Bytes → Prop
  | _ :: key :: values => ∀ data items, s[listKey key]? = some data → decodeList data = .ok items →
      Unpassed times ((s[collectionTTLKey key]?).map fun data => toInt64 (ofBigEndian data)) →
      items.length + values.length < 2 ^ 32
  | _ => True

/-- The command is not a push, or it leaves room in its list. -/
def LeavesRoom (times : ℤ → Prop) (s : Store) (args : List Bytes) (command : Command) : Prop :=
  command ∈ [.lpush, .rpush, .lpushx, .rpushx] → PushFits times s args

section Commands

variable {times : ℤ → Prop} {s : Store} {args : List Bytes}

/-- What the store says about the list of a push is what its entry says. -/
theorem PushFits.entry {name key : Bytes} {values : List Bytes}
    (hroom : PushFits times s (name :: key :: values)) {entry : Option Entry}
    (hentry : RecordableEntry entry) (hs : At s key s (recordsOf entry)) :
    ∀ e ∈ entry, ∀ items, e.value = .list items → Unpassed times e.deadline →
      items.length + values.length < 2 ^ 32 := by
  rintro ⟨value, deadline, hnonempty⟩ rfl items rfl hunpassed
  have hvalue := hentry _ rfl
  have hdeadlines : deadline.map (fun d => toInt64 (ofBigEndian (encodeRedisExpiry d))) = deadline := by
    cases deadline with
    | none => rfl
    | some d => exact congrArg some (toInt64_encodeRedisExpiry (hvalue.deadline d rfl))
  have hne : items ≠ [] := by
    rintro rfl
    cases hnonempty
  have hlist : s[listKey key]? = some (encodeList (itemRecords items)) :=
    (hs.records .list).trans (Value.records_list hne deadline)
  have httl : s[collectionTTLKey key]? = deadline.map encodeRedisExpiry := hs.records .ttl
  have hcount := hroom _ _ hlist (decodeList_itemRecords (hvalue.list items rfl)) <| by
    rw [httl, Option.map_map]
    exact hdeadlines.symm ▸ hunpassed
  rwa [List.length_map] at hcount

theorem ensures_redisPushValues_typed (left onlyIfExists : Bool) {name key : Bytes}
    {values : List Bytes} (hargs : Deliverable (name :: key :: values)) (h : TypedStore s)
    (hroom : PushFits times s (name :: key :: values)) :
    Ensures (embeddedAt times) (redisPushValues key values left onlyIfExists) s
      (fun _ => TypedStore) (fun _ => TypedStore) :=
  have hvalues : Deliverable values :=
    ⟨le_trans (by simp; omega) hargs.count, fun arg hmem => hargs.size arg (by simp [hmem])⟩
  h.ensures (hargs.shortName (by simp)) fun _ hentry hs =>
    leads_redisPushValues hentry left onlyIfExists hvalues (hroom.entry hentry hs)

theorem wp_redisPush (left : Bool) (hargs : Deliverable args) (h : TypedStore s)
    (hroom : PushFits times s args) :
    (redisPush left args).wp (embeddedAt times) (fun _ => TypedStore) s := by
  refine wp_replying_of_ensures ?_
  split
  · exact ensures_redisPushValues_typed left false hargs h hroom
  · exact h

theorem wp_redisPushX (left : Bool) (hargs : Deliverable args) (h : TypedStore s)
    (hroom : PushFits times s args) :
    (redisPushX left args).wp (embeddedAt times) (fun _ => TypedStore) s := by
  refine wp_replying_of_ensures ?_
  split
  · exact ensures_redisPushValues_typed left true hargs h hroom
  · exact h

/-- Every command keeps a store typed; a push needs room in its list. -/
theorem wp_redisCommand (go : GoRuntime) (session : Session) (command : Command)
    (hargs : Deliverable args) (h : TypedStore s) (hroom : LeavesRoom times s args command) :
    (redisCommand go session args command).wp (embeddedAt times) (fun _ => TypedStore) s := by
  have hmap : ∀ {p : Program Calls Resp}, p.wp (embeddedAt times) (fun _ => TypedStore) s →
      (some <$> p).wp (embeddedAt times) (fun _ => TypedStore) s := fun hp => by
    rw [map_eq_pure_bind]
    exact (Program.wp_bind _ _ _ _).mpr hp
  cases command with
  | ping | echo | hello | select | client | commandInfo | role | readonly | readwrite | config
  | info => exact h
  | get => exact hmap (maintains_redisGet hargs s h)
  | set => exact hmap (maintains_redisSet hargs go s h)
  | setnx => exact hmap (maintains_redisSetNX hargs s h)
  | setex | psetex => exact hmap (maintains_redisSetEX hargs _ s h)
  | getset => exact hmap (maintains_redisGetSet hargs s h)
  | getdel => exact hmap (maintains_redisGetDel hargs s h)
  | getex => exact hmap (maintains_redisGetEx hargs go s h)
  | mget => exact hmap (maintains_redisMGet hargs s h)
  | mset => exact hmap (maintains_redisMSet hargs s h)
  | msetnx => exact hmap (maintains_redisMSetNX hargs s h)
  | strlen => exact hmap (maintains_redisStrLen hargs s h)
  | append => exact hmap (maintains_redisAppend hargs s h)
  | incr | decr => exact hmap (maintains_redisIncrementCommand hargs _ s h)
  | incrby | decrby => exact hmap (maintains_redisIncrementByCommand hargs _ s h)
  | del | unlink => exact hmap (maintains_redisDelete hargs s h)
  | existsKeys => exact hmap (maintains_redisExists hargs s h)
  | type => exact hmap (maintains_redisTypeCommand hargs s h)
  | expire | pexpire | expireat | pexpireat => exact hmap (maintains_redisExpireCommand hargs _ s h)
  | ttl | pttl => exact hmap (maintains_redisTTLCommand hargs _ s h)
  | persist => exact hmap (maintains_redisPersistCommand hargs s h)
  | hset | hmset => exact hmap (maintains_redisHSet hargs s h)
  | hget => exact hmap (maintains_redisHGet hargs s h)
  | hmget => exact hmap (maintains_redisHMGet hargs s h)
  | hgetall => exact hmap (maintains_redisHGetAll hargs s h)
  | hdel => exact hmap (maintains_redisHDel hargs s h)
  | hexists => exact hmap (maintains_redisHExists hargs s h)
  | hlen => exact hmap (maintains_redisHLen hargs s h)
  | hkeys => exact hmap (maintains_redisHKeys hargs s h)
  | hvals => exact hmap (maintains_redisHVals hargs s h)
  | hincrby => exact hmap (maintains_redisHIncrBy hargs s h)
  | sadd => exact hmap (maintains_redisSAdd hargs s h)
  | srem => exact hmap (maintains_redisSRem hargs s h)
  | sismember => exact hmap (maintains_redisSIsMember hargs s h)
  | smismember => exact hmap (maintains_redisSMIsMember hargs s h)
  | smembers => exact hmap (maintains_redisSMembers hargs s h)
  | scard => exact hmap (maintains_redisSCard hargs s h)
  | lpush | rpush => exact hmap (wp_redisPush _ hargs h (hroom (by simp)))
  | lpushx | rpushx => exact hmap (wp_redisPushX _ hargs h (hroom (by simp)))
  | lrange => exact hmap (maintains_redisLRange hargs s h)
  | llen => exact hmap (maintains_redisLLen hargs s h)
  | lpop | rpop => exact hmap (maintains_redisPop hargs _ s h)
  | ltrim => exact hmap (maintains_redisLTrim hargs s h)
  | scan => exact maintains_redisScan go args s h
  | keys => exact hmap (maintains_redisKeysCommand go args s h)
  | dbsize => exact hmap (maintains_redisDBSize go args s h)
  | flushdb | flushall => exact hmap (maintains_redisFlush args s h)
  | time => exact hmap (wp_replying_of_ensures (Maintains.now.bind (fun _ => .pure _) s h))

/-- A request that is dispatched keeps a store typed. -/
theorem wp_redisDispatch (go : GoRuntime) (password : Bytes) (session : Session)
    (hargs : Deliverable args) (h : TypedStore s)
    (hroom : password = [] ∨ session.authed = true → ∀ command, commandOf go args = some command →
      LeavesRoom times s args command) :
    (redisDispatch go password session args).wp (embeddedAt times) (fun _ => TypedStore) s := by
  unfold redisDispatch
  dsimp only
  split
  · exact h
  split
  · exact h
  split
  · exact h
  split
  · exact h
  next hauthed =>
    split
    · exact h
    · next command hcommand =>
      refine (Program.wp_bind _ _ _ _).mpr (wp_redisCommand go session command hargs h ?_)
      refine hroom ?_ command hcommand
      by_contra hnot
      exact hauthed ⟨fun hempty => hnot (.inl hempty), fun hin => hnot (.inr hin)⟩

end Commands

end KVLite.TypedMap
