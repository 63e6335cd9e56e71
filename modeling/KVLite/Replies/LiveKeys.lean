import KVLite.Keyspace.Outcome
import KVLite.Keyspace.Reads
import KVLite.Replies.Records

/-!
# What a key shows

The live records of a key at a clock reading: its value and fields that have not expired,
its set members, its list and its expiry metadata. A key whose collection deadline has
passed has none, and metadata without data is not live. The type of the key is that of its
live records.

A probe may remove records, but it changes the live records of no key.
-/

namespace KVLite

open Semantics Fallible BigEndian Redis

/-- The live records of a key. -/
structure LiveKey where
  value : Option Bytes := none
  fields : List (Bytes × Bytes) := []
  members : List (Bytes × Bytes) := []
  list : Option Bytes := none
  metadata : Option Bytes := none
  deriving DecidableEq

namespace LiveKey

/-- The type of a key with these records, in the order in which the probe looks. -/
def type (live : LiveKey) : RedisType :=
  if live.value.isSome then .string
  else if live.fields ≠ [] then .hash
  else if live.members ≠ [] then .set
  else if live.list.isSome then .list
  else .none

theorem type_eq_none {live : LiveKey} :
    live.type = .none ↔
      live.value = none ∧ live.fields = [] ∧ live.members = [] ∧ live.list = none := by
  obtain ⟨value, fields, members, list, metadata⟩ := live
  unfold type
  cases value <;> cases fields <;> cases members <;> cases list <;> simp

end LiveKey

instance (time : ℤ) (s : Store) (key : Bytes) : Decidable (TTLPassed time s key) :=
  decidable_of_iff (∃ data ∈ s[collectionTTLKey key]?, data.length = 8 ∧
    toInt64 (ofBigEndian data) ≤ wrapInt64 time) (by simp only [TTLPassed, Option.mem_def])

/-- The records of a key that have not expired by themselves. -/
def unexpired (time : ℤ) (s : Store) (key : Bytes) : LiveKey where
  value := (s[valueKey key]?).filter fun data => !envelopeExpired data time
  fields := (fieldRecords s key).filter fun record => !envelopeExpired record.2 time
  members := s.scan (namespacePrefix kindSet key)
  list := s[listKey key]?
  metadata := s[collectionTTLKey key]?

/-- The live records of a key at a clock reading. -/
def liveKey (time : ℤ) (s : Store) (key : Bytes) : LiveKey :=
  if TTLPassed time s key ∨ (unexpired time s key).type = .none then {} else unexpired time s key

section Congr

variable {time : ℤ} {s s' : Store} {key : Bytes}

/-- The live records of a key depend on its records only. -/
theorem liveKey_congr (h : ∀ storageKey, RecordOf key storageKey →
    s'[storageKey]? = s[storageKey]?) : liveKey time s' key = liveKey time s key := by
  have httl : TTLPassed time s' key ↔ TTLPassed time s key := by
    rw [TTLPassed, TTLPassed, h _ (.inr (.inr (.inl rfl)))]
  have hunexpired : unexpired time s' key = unexpired time s key := by
    rw [unexpired, unexpired, fieldRecords, fieldRecords, h _ (.inl rfl), h _ (.inr (.inl rfl)),
      h _ (.inr (.inr (.inl rfl))),
      Store.scan_congr fun _ hpre => h _ (.inr (.inr (.inr (.inl hpre)))),
      Store.scan_congr fun _ hpre => h _ (.inr (.inr (.inr (.inr hpre))))]
  simp only [liveKey, httl, hunexpired]

theorem unexpired_type_eq_none :
    (unexpired time s key).type = .none ↔
      (∀ data, s[valueKey key]? = some data → envelopeExpired data time = true) ∧
      (∀ record ∈ fieldRecords s key, envelopeExpired record.2 time = true) ∧
      s.scan (namespacePrefix kindSet key) = [] ∧ s[listKey key]? = none := by
  rw [LiveKey.type_eq_none]
  refine and_congr ?_ (and_congr ?_ Iff.rfl)
  · rw [unexpired, Option.filter_eq_none_iff]
    simp
  · rw [unexpired, List.filter_eq_nil_iff]
    simp

/-- A key without records shows nothing. -/
theorem liveKey_of_noRecordOf (h : NoRecordOf key s) : liveKey time s key = {} := by
  refine if_pos (.inr (unexpired_type_eq_none.mpr ⟨?_, ?_, ?_, h _ (.inr (.inl rfl))⟩))
  · intro data hget
    rw [h _ (.inl rfl)] at hget
    cases hget
  · rintro ⟨storageKey, data⟩ hmem
    obtain ⟨hpre, hget⟩ := Store.mem_scan.mp hmem
    rw [h _ (.inr (.inr (.inr (.inl hpre))))] at hget
    cases hget
  · exact Store.scan_eq_nil_iff.mpr fun storageKey hpre => h _ (.inr (.inr (.inr (.inr hpre))))

end Congr

/-! ### What a probe removes -/

section Probed

variable {time : ℤ} {s s' : Store} {key : Bytes}

/-- Records that had expired by themselves were not live. -/
theorem unexpired_of_lostBy (h : LostBy (OwnPassed time) s s') (key : Bytes) :
    unexpired time s' key = unexpired time s key := by
  have hother : ∀ storageKey,
      (∀ key', ¬ Owns key' .value storageKey ∧ ¬ Owns key' .hash storageKey) →
      s'[storageKey]? = s[storageKey]? := by
    intro storageKey hnot
    rcases h storageKey with heq | ⟨-, _, -, ⟨key', hkey' | hkey'⟩, -⟩
    · exact heq
    · exact absurd hkey' (hnot key').1
    · exact absurd hkey' (hnot key').2
  have hvalue : (s'[valueKey key]?).filter (fun data => !envelopeExpired data time) =
      (s[valueKey key]?).filter fun data => !envelopeExpired data time := by
    rcases h (valueKey key) with heq | ⟨hnone, data, hget, hpassed⟩
    · rw [heq]
    · rw [hnone, hget, Option.filter_none, Option.filter_some, hpassed.2]
      rfl
  have hfields : (fieldRecords s' key).filter (fun record => !envelopeExpired record.2 time) =
      (fieldRecords s key).filter fun record => !envelopeExpired record.2 time := by
    refine Store.eq_of_pairwise ((s'.pairwise_scan _).filter _) ((s.pairwise_scan _).filter _) ?_
    intro record
    rw [List.mem_filter, List.mem_filter, Store.mem_scan, Store.mem_scan]
    constructor
    · rintro ⟨⟨hpre, hget⟩, hlive⟩
      exact ⟨⟨hpre, h.getElem? hget⟩, hlive⟩
    · rintro ⟨⟨hpre, hget⟩, hlive⟩
      rcases h record.1 with heq | ⟨-, data, hget', hpassed⟩
      · exact ⟨⟨hpre, heq.trans hget⟩, hlive⟩
      · rw [hget] at hget'
        cases hget'
        simp [hpassed.2] at hlive
  have hmembers : s'.scan (namespacePrefix kindSet key) = s.scan (namespacePrefix kindSet key) := by
    refine Store.scan_congr fun storageKey hpre => hother storageKey fun key' => ?_
    obtain ⟨member, rfl⟩ := namespacePrefix_isPrefix_iff.mp hpre
    exact ⟨fun howns => absurd (owns_setKey_kind howns) (by decide),
      fun howns => absurd (owns_setKey_kind howns) (by decide)⟩
  have hlist : s'[listKey key]? = s[listKey key]? := hother _ fun key' =>
    ⟨fun howns => absurd (belongs_listKey key' _ howns).2 (by decide),
      fun howns => absurd (belongs_listKey key' _ howns).2 (by decide)⟩
  have hmetadata : s'[collectionTTLKey key]? = s[collectionTTLKey key]? := hother _ fun key' =>
    ⟨not_owns_collectionTTLKey _ _, not_owns_collectionTTLKey _ _⟩
  rw [unexpired, unexpired, hvalue, hfields, hmembers, hlist, hmetadata]

/-- A dead record of a key whose deadline is ahead has expired itself, unless it is a
list or expiry metadata. -/
theorem Dead.own_of_ahead (hs : RedisStore s) (hahead : ¬ TTLPassed time s key)
    {storageKey data : Bytes} (h : Dead time s storageKey data) (hrecord : RecordOf key storageKey)
    (hget : s[storageKey]? = some data) (httl : ∀ key', storageKey ≠ collectionTTLKey key')
    (hlist : ∀ key', storageKey ≠ listKey key') : OwnPassed time storageKey data := by
  cases h with
  | own hown => exact hown
  | collection hrecord' hpassed =>
    obtain rfl := hs.eq_of_recordOf hget hrecord hrecord'
    exact absurd hpassed hahead
  | metadata key' => exact absurd rfl (httl key')
  | emptyList key' => exact absurd rfl (hlist key')

/-- A key that a probe left without records showed nothing. -/
theorem liveKey_of_dead (hs : RedisStore s) (h : ∀ storageKey data, RecordOf key storageKey →
    s[storageKey]? = some data → Dead time s storageKey data) : liveKey time s key = {} := by
  by_cases hpassed : TTLPassed time s key
  · exact if_pos (.inl hpassed)
  have hown : ∀ {storageKey data : Bytes}, RecordOf key storageKey → s[storageKey]? = some data →
      (∀ key', storageKey ≠ collectionTTLKey key') → (∀ key', storageKey ≠ listKey key') →
      OwnPassed time storageKey data := fun hrecord hget =>
    (h _ _ hrecord hget).own_of_ahead hs hpassed hrecord hget
  refine if_pos (.inr (unexpired_type_eq_none.mpr ⟨?_, ?_, ?_, ?_⟩))
  · exact fun data hget => (hown (.inl rfl) hget (valueKey_ne_collectionTTLKey _)
      (valueKey_ne_listKey _)).2
  · rintro ⟨storageKey, data⟩ hmem
    obtain ⟨hpre, hget⟩ := Store.mem_scan.mp hmem
    obtain ⟨field, rfl⟩ := namespacePrefix_isPrefix_iff.mp hpre
    exact (hown (.inr (.inr (.inr (.inl hpre)))) hget (hashKey_ne_collectionTTLKey _ _)
      (hashKey_ne_listKey _ _)).2
  · refine Store.scan_eq_nil_iff.mpr fun storageKey hpre => ?_
    obtain ⟨member, rfl⟩ := namespacePrefix_isPrefix_iff.mp hpre
    by_contra hsome
    obtain ⟨data, hget⟩ := Option.ne_none_iff_exists'.mp hsome
    obtain ⟨⟨key', howns | howns⟩, -⟩ := hown (.inr (.inr (.inr (.inr hpre)))) hget
      (setKey_ne_collectionTTLKey _ _) (setKey_ne_listKey _ _)
    · exact absurd (owns_setKey_kind howns) (by decide)
    · exact absurd (owns_setKey_kind howns) (by decide)
  · by_contra hsome
    obtain ⟨data, hget⟩ := Option.ne_none_iff_exists'.mp hsome
    have hdead := h (listKey key) data (.inr (.inl rfl)) hget
    generalize hkey : listKey key = storageKey at hget hdead
    cases hdead with
    | own hown =>
      subst hkey
      obtain ⟨⟨key', howns | howns⟩, -⟩ := hown
      · exact absurd (belongs_listKey key' _ howns).2 (by decide)
      · exact absurd (belongs_listKey key' _ howns).2 (by decide)
    | collection hrecord' hpassed' =>
      obtain rfl := hs.eq_of_recordOf hget (.inr (.inl hkey.symm)) hrecord'
      exact hpassed hpassed'
    | metadata key' => exact absurd hkey (listKey_ne_collectionTTLKey _ _)
    | emptyList key' hdata => exact (hs.plainItems hget hdata).1 rfl

/-- A probe changes the live records of no key. -/
theorem Probed.liveKey_eq (hs : RedisStore s) (h : Probed time key s s') (key' : Bytes) :
    liveKey time s' key' = liveKey time s key' := by
  by_cases heq : key' = key
  · subst heq
    rcases h.left with hnone | hown
    · rw [liveKey_of_noRecordOf hnone, liveKey_of_dead hs]
      intro storageKey data hrecord hget
      rcases h.lost storageKey with hsame | ⟨-, data', hget', hdead⟩
      · rw [hnone storageKey hrecord, hget] at hsame
        cases hsame
      · rw [hget] at hget'
        cases hget'
        exact hdead
    · have httl : s'[collectionTTLKey key']? = s[collectionTTLKey key']? :=
        congrArg LiveKey.metadata (unexpired_of_lostBy hown key')
      have hpassed : TTLPassed time s' key' ↔ TTLPassed time s key' := by
        rw [TTLPassed, TTLPassed, httl]
      simp only [liveKey, hpassed, unexpired_of_lostBy hown key']
  · refine liveKey_congr fun storageKey hrecord' => ?_
    by_cases hrecord : RecordOf key storageKey
    · -- No record belongs to two keys, so there is none here.
      cases hget : s[storageKey]? with
      | some data => exact absurd (hs.eq_of_recordOf hget hrecord' hrecord) heq
      | none =>
        rcases h.lost storageKey with hsame | ⟨hnone, -⟩
        · rw [hsame, hget]
        · exact hnone
    · exact h.frame storageKey hrecord

end Probed

/-! ### The reported type -/

section Reported

variable {time : ℤ} {s s' : Store} {key : Bytes}

theorem liveKey_type (h : ¬ TTLPassed time s key) :
    (liveKey time s key).type = (unexpired time s key).type := by
  by_cases hnone : (unexpired time s key).type = .none
  · rw [liveKey, if_pos (.inr hnone), hnone]
    rfl
  · rw [liveKey, if_neg (not_or.mpr ⟨h, hnone⟩)]

theorem ValuePassed.unexpired_value (h : ValuePassed time s key) :
    (unexpired time s key).value = none := by
  rw [unexpired, Option.filter_eq_none_iff]
  intro data hget
  simp [h data hget]

/-- Whatever the probe reports is the type of the live records. -/
theorem type_of_run_redisType (hs : RedisStore s) {typ : RedisType}
    (hrun : Fallible.run (embedded time) (redisType key) s = (.ok typ, s')) :
    typ = (liveKey time s key).type := by
  have hprobed := (probesFirst_redisType key).visits s (hs.not_endangered time)
  rw [program_run, hrun] at hprobed
  have hgone : s' = s.without key → (liveKey time s key).type = .none := by
    rintro rfl
    rw [← hprobed.liveKey_eq hs key, liveKey_of_noRecordOf (Store.noRecordOf_without s key)]
    rfl
  cases typeOutcome_of_run hrun with
  | passed | swept => exact (hgone rfl).symm
  | string hahead hfound =>
    obtain ⟨data, value, hget, hdata, hlive⟩ := hfound
    rw [liveKey_type hahead.not_passed]
    simp [LiveKey.type, unexpired, hget, envelopeExpired, hdata, hlive]
  | hash hahead hvalue _ hlive =>
    obtain ⟨record, hmem, hlive⟩ := hlive
    have hfields : (unexpired time s key).fields ≠ [] :=
      List.ne_nil_of_mem (List.mem_filter.mpr ⟨hmem, by rw [hlive]; rfl⟩)
    rw [liveKey_type hahead.not_passed]
    simp [LiveKey.type, hvalue.unexpired_value, hfields]
  | set hahead hvalue hfields hmembers =>
    rw [liveKey_type hahead.not_passed, LiveKey.type, hvalue.unexpired_value]
    simp [unexpired, hfields, hmembers]
  | list hahead hvalue hfields hmembers hget =>
    rw [liveKey_type hahead.not_passed, LiveKey.type, hvalue.unexpired_value]
    simp [unexpired, hfields, hmembers, hget]
  | absent hahead hvalue hfields hmembers hlist =>
    rw [liveKey_type hahead.not_passed, LiveKey.type, hvalue.unexpired_value]
    simp [unexpired, hfields, hmembers, hlist]

end Reported

/-! ### Stores that show the same -/

/-- The store has records of the commands, and every key shows what it shows in `s₀`. -/
structure Unchanged (time : ℤ) (s₀ s : Store) : Prop where
  records : RedisStore s
  oneKind : OneKind s
  live : ∀ key, liveKey time s key = liveKey time s₀ key

theorem OneKind.of_lostBy {D : Bytes → Bytes → Prop} {s s' : Store} (hs : OneKind s)
    (h : LostBy D s s') : OneKind s' := by
  rintro key kind kind' ⟨r, data, howns, hget⟩ ⟨r', data', howns', hget'⟩
  exact hs key kind kind' ⟨r, data, howns, h.getElem? hget⟩ ⟨r', data', howns', h.getElem? hget'⟩

/-- Code that only visits a key changes what no key shows. -/
theorem Unchanged.visit {time : ℤ} {s₀ s : Store} {key : Bytes} {α : Type} {p : Program Calls α}
    (hp : Visits time key p) (hs : Unchanged time s₀ s) :
    Unchanged time s₀ (p.run (embedded time) s).2 := by
  have hprobed := hp s (hs.records.not_endangered time)
  exact ⟨fun storageKey data hget => hs.records storageKey data (hprobed.lost.getElem? hget),
    hs.oneKind.of_lostBy hprobed.lost,
    fun key => (hprobed.liveKey_eq hs.records key).trans (hs.live key)⟩

end KVLite
