import KVLite.Keyspace.Layout
import KVLite.Keyspace.Outcome
import KVLite.Keyspace.ReadersAt
import Mathlib.Data.List.Dedup

/-!
# The reading commands

A reading command parses its arguments, probes its keys one after the other until a read
fails, and removes at most hash fields and list items that have expired besides. So the
keys that it reaches decide whether it removes only what may be removed.

## Main definitions

* `ProbesFirst` — code that probes a key before it does anything else
* `readKeys` — the keys a reading command reaches

## Main results

* `ProbesFirst.keepsLive_iff`, `keepsLive_readEach_iff` — one key, and a loop over keys
* `reads_keep_live_data_iff` — the reading commands
* `type_removes_live_member` — a store where `TYPE` removes a set member
-/

namespace KVLite

open Semantics Fallible BigEndian

/-- Every record that is gone in `s'` could be removed from `s`. -/
def KeepsLive (time : ℤ) (s s' : Store) : Prop :=
  ∀ storageKey data, s[storageKey]? = some data → s'[storageKey]? = none →
    Dead time s storageKey data

theorem LostBy.keepsLive {time : ℤ} {s s' : Store} (h : Lost time s s') : KeepsLive time s s' := by
  intro storageKey data hget hnone
  rcases h storageKey with heq | ⟨-, data', hget', hdead⟩
  · rw [heq, hget] at hnone
    cases hnone
  · rw [hget] at hget'
    cases hget'
    exact hdead

/-! ### One probe -/

section Exact

variable {time : ℤ} {s : Store} {key : Bytes}

/-- The probe of an endangered key removes every record of the key. -/
theorem Endangered.run_redisType (h : Endangered time s key) :
    run (embedded time) (Redis.redisType key) s = (.ok .none, s.without key) :=
  run_redisType_of_expired_fields h.ahead h.value h.field h.fields

variable (hkey : ShortName key) (hnames : ∀ key', TTLPassed time s key' → ShortName key')

include hkey hnames

/-- A record of a key whose deadline is ahead does not belong to another key whose deadline
has passed. -/
theorem TTLAhead.not_passed_of_recordOf (h : TTLAhead time s key) {key' storageKey : Bytes}
    (hrecord : RecordOf key storageKey) (hrecord' : RecordOf key' storageKey) :
    ¬ TTLPassed time s key' := by
  intro hpassed
  obtain rfl := eq_of_recordOf hkey (hnames key' hpassed) hrecord hrecord'
  exact h.not_passed hpassed

/-- A list that is not empty may not be removed before its key's deadline. -/
theorem TTLAhead.not_dead_listKey (h : TTLAhead time s key) {data : Bytes}
    (hne : decodeList data ≠ .ok []) : ¬ Dead time s (listKey key) data := by
  intro hdead
  generalize hlist : listKey key = storageKey at hdead
  cases hdead with
  | own hown =>
    subst hlist
    obtain ⟨⟨key', hkey' | hkey'⟩, -⟩ := hown
    · exact absurd (belongs_listKey key' _ hkey').2 (by decide)
    · exact absurd (belongs_listKey key' _ hkey').2 (by decide)
  | collection hrecord hpassed =>
    subst hlist
    exact h.not_passed_of_recordOf hkey hnames (.inr (.inl rfl)) hrecord hpassed
  | metadata key' => exact absurd hlist (listKey_ne_collectionTTLKey _ _)
  | emptyList key' hempty => exact hne hempty

/-- An endangered key has a record that may not be removed. -/
theorem Endangered.exists_live (h : Endangered time s key) :
    ∃ storageKey data, RecordOf key storageKey ∧ s[storageKey]? = some data ∧
      ¬ Dead time s storageKey data := by
  rcases h.rest with ⟨storageKey, data, howns, hget⟩ | ⟨data, hget, hne⟩
  · refine ⟨storageKey, data, howns.recordOf, hget, ?_⟩
    obtain ⟨member, rfl⟩ := namespacePrefix_isPrefix_iff.mp howns
    rintro (⟨⟨key', hkey' | hkey'⟩, -⟩ | ⟨hrecord, hpassed⟩)
    · exact absurd (owns_setKey_kind hkey') (by decide)
    · exact absurd (owns_setKey_kind hkey') (by decide)
    · exact h.ahead.not_passed_of_recordOf hkey hnames howns.recordOf hrecord hpassed
  · exact ⟨listKey key, data, .inr (.inl rfl), hget, h.ahead.not_dead_listKey hkey hnames hne⟩

end Exact

/-! ### Code that removes only what may be removed -/

/-- A call that changes no record. -/
def Call.Reading : Call → Prop
  | .ensureOpen | .get _ | .scanPrefix _ | .now => True
  | _ => False

/-- Code that changes no record. -/
abbrev Reading {α : Type} (x : Action α) : Prop := Fallible.Uses Call.Reading x

theorem Reading.get (key : Bytes) : Reading (Transport.get key) :=
  Fallible.Uses.bind (x := ensureOpen) ⟨trivial, fun _ => trivial⟩
    fun _ => ⟨trivial, fun _ => trivial⟩

theorem Reading.run_snd {α : Type} {time : ℤ} {s : Store} {x : Action α} (hx : Reading x) :
    (run (embedded time) x s).2 = s :=
  Program.run_snd_of_uses
    (fun call hcall _ => by cases call <;> first | rfl | exact absurd hcall id) hx s

/-- Code that ends with a part that changes no record. -/
theorem Reading.run_bind_snd {α β : Type} {time : ℤ} {s : Store} {x : Action α}
    {f : α → Action β} (hf : ∀ value, Reading (f value)) :
    (run (embedded time) (x >>= f) s).2 = (run (embedded time) x s).2 := by
  cases hrun : run (embedded time) x s with
  | mk result s' =>
    rcases result with err | value
    · rw [run_bind_error hrun]
    · rw [run_bind_ok hrun, (hf value).run_snd]

theorem Redis.run_replying_snd {time : ℤ} {s : Store} {x : Action Redis.Resp} :
    ((Redis.replying x).run (embedded time) s).2 = (run (embedded time) x s).2 := by
  rw [Redis.replying, Program.run_bind, program_run]
  cases (run (embedded time) x s).1 <;> rfl

theorem run_map_snd {α β : Type} {time : ℤ} {s : Store} (f : α → β) (p : Program Calls α) :
    ((f <$> p).run (embedded time) s).2 = (p.run (embedded time) s).2 := by
  rw [map_eq_pure_bind, Program.run_bind]
  rfl

/-! ### Code that probes a key first -/

/-- From a store in which the key is not endangered, the code removes what a probe of the key
may remove. -/
def Visits (time : ℤ) (key : Bytes) {α : Type} (p : Program Calls α) : Prop :=
  ∀ s, ¬ Endangered time s key → Probed time key s (p.run (embedded time) s).2

/-- The code visits the key, and starts with its probe: an endangered key is removed. -/
structure ProbesFirst (time : ℤ) (key : Bytes) {α : Type} (p : Program Calls α) : Prop where
  visits : Visits time key p
  removes : ∀ s, Endangered time s key → (p.run (embedded time) s).2 = s.without key

section Visits

variable {α β : Type} {time : ℤ} {key : Bytes} {s s' : Store}

theorem not_endangered_of_noRecordOf (h : NoRecordOf key s) : ¬ Endangered time s key := by
  intro hs
  obtain ⟨record, hmem⟩ := List.exists_mem_of_ne_nil _ hs.field
  obtain ⟨hpre, hget⟩ := Store.mem_scan.mp hmem
  rw [h _ (.inr (.inr (.inr (.inl hpre))))] at hget
  cases hget

/-- Of a key without records nothing is removed. -/
theorem Probed.eq_of_noRecordOf (h : Probed time key s s') (hs : NoRecordOf key s) : s' = s := by
  refine Store.ext fun storageKey => ?_
  by_cases hrecord : RecordOf key storageKey
  · rcases h.lost storageKey with heq | ⟨-, data, hget, -⟩
    · exact heq
    · rw [hs storageKey hrecord] at hget
      cases hget
  · exact h.frame storageKey hrecord

theorem Visits.of_reading {x : Action α} (hx : Reading x) : Visits time key (ExceptT.run x) := by
  intro s _
  rw [program_run, hx.run_snd]
  exact .refl _ _

theorem Visits.ok (value : α) : Visits time key (ExceptT.run (Pure.pure value : Action α)) :=
  .of_reading trivial

theorem Visits.ite {p : Prop} [Decidable p] {x y : Action α} (hx : Visits time key (ExceptT.run x))
    (hy : Visits time key (ExceptT.run y)) :
    Visits time key (ExceptT.run (if p then x else y)) := by
  split
  · exact hx
  · exact hy

theorem Visits.bind {x : Action α} {f : α → Action β} (hx : Visits time key (ExceptT.run x))
    (hf : ∀ value, Visits time key (ExceptT.run (f value))) :
    Visits time key (ExceptT.run (x >>= f)) := by
  intro s hs
  have hmid := hx s hs
  rw [program_run] at hmid ⊢
  cases hrun : run (embedded time) x s with
  | mk result s' =>
    rw [hrun] at hmid
    cases result with
    | ok value =>
      rw [run_bind_ok hrun]
      exact hmid.trans (hf value s' (hmid.not_endangered hs))
    | error err =>
      rw [run_bind_error hrun]
      exact hmid

/-- After the probe of an endangered key nothing is left to remove. -/
theorem ProbesFirst.bind {x : Action α} {f : α → Action β} (hx : ProbesFirst time key (ExceptT.run x))
    (hf : ∀ value, Visits time key (ExceptT.run (f value))) :
    ProbesFirst time key (ExceptT.run (x >>= f)) := by
  refine ⟨hx.visits.bind hf, fun s hs => ?_⟩
  have hmid := hx.removes s hs
  rw [program_run] at hmid ⊢
  cases hrun : run (embedded time) x s with
  | mk result s' =>
    rw [hrun] at hmid
    obtain rfl : s' = s.without key := hmid
    have hnone := Store.noRecordOf_without s key
    cases result with
    | ok value =>
      rw [run_bind_ok hrun]
      exact (hf value _ (not_endangered_of_noRecordOf hnone)).eq_of_noRecordOf hnone
    | error err => rw [run_bind_error hrun]

theorem ProbesFirst.congr {p : Program Calls α} {q : Program Calls β} (hp : ProbesFirst time key p)
    (h : ∀ s, (q.run (embedded time) s).2 = (p.run (embedded time) s).2) : ProbesFirst time key q where
  visits s hs := by
    rw [h s]
    exact hp.visits s hs
  removes s hs := (h s).trans (hp.removes s hs)

theorem ProbesFirst.replying {x : Action Redis.Resp} (hx : ProbesFirst time key (ExceptT.run x)) :
    ProbesFirst time key (Redis.replying x) :=
  hx.congr fun _ => Redis.run_replying_snd

theorem ProbesFirst.map {p : Program Calls α} (hp : ProbesFirst time key p) (f : α → β) :
    ProbesFirst time key (f <$> p) :=
  hp.congr fun _ => run_map_snd f p

/-- The code removes only what may be removed exactly if the key is not endangered. -/
theorem ProbesFirst.keepsLive_iff {p : Program Calls α} (hp : ProbesFirst time key p) (hkey : ShortName key)
    (hnames : ∀ key', TTLPassed time s key' → ShortName key') :
    KeepsLive time s (p.run (embedded time) s).2 ↔ ¬ Endangered time s key := by
  constructor
  · intro hkeeps hs
    obtain ⟨storageKey, data, hrecord, hget, hlive⟩ := hs.exists_live hkey hnames
    refine hlive (hkeeps storageKey data hget ?_)
    rw [hp.removes s hs]
    exact Store.noRecordOf_without _ _ storageKey hrecord
  · exact fun hs => (hp.visits s hs).lost.keepsLive

end Visits

/-! ### The readers -/

section Readers

variable {α : Type} {time : ℤ} {s : Store} (key : Bytes)

variable {key} in
/-- A probe followed by code that may rely on what the probe found. -/
theorem ProbesFirst.redisType_bind {f : Redis.RedisType → Action α}
    (hf : ∀ typ s, Found time s key typ → Probed time key s (run (embedded time) (f typ) s).2) :
    ProbesFirst time key (ExceptT.run (Redis.redisType key >>= f)) where
  visits s hs := by
    obtain ⟨result, s', hrun, hprobed, hfound⟩ := probed_redisType hs
    rw [program_run]
    cases result with
    | ok typ =>
      rw [run_bind_ok hrun]
      exact hprobed.trans (hf typ s' (hfound typ rfl))
    | error err =>
      rw [run_bind_error hrun]
      exact hprobed
  removes s hs := by
    rw [program_run, run_bind_ok hs.run_redisType]
    exact (hf .none _ trivial).eq_of_noRecordOf (Store.noRecordOf_without s key)

theorem probesFirst_redisType : ProbesFirst time key (ExceptT.run (Redis.redisType key)) := by
  have h : ProbesFirst time key (ExceptT.run (Redis.redisType key >>= pure)) :=
    .redisType_bind fun _ _ _ => .refl _ _
  rwa [bind_pure] at h

theorem probesFirst_redisString : ProbesFirst time key (ExceptT.run (Redis.redisString key)) := by
  refine .redisType_bind fun typ s hfound => ?_
  cases typ with
  | string =>
    obtain ⟨data, value, hget, hdata, hlive⟩ := hfound
    have htest : run (embedded time) (expiredNow value.expiresAt) s = (.ok false, s) := by
      rw [run_expiredNow, ← Envelope.expired, hlive]
    simp only
    rw [run_bind_ok Transport.run_get, hget]
    simp only [hdata]
    rw [run_bind_ok (run_liftExcept _), run_bind_ok htest]
    exact .refl _ _
  | _ => exact .refl _ _

theorem probesFirst_redisExpiry : ProbesFirst time key (ExceptT.run (Redis.redisExpiry key)) := by
  refine .redisType_bind fun typ s _ => ?_
  rw [Reading.run_snd]
  · exact .refl _ _
  cases typ with
  | none => trivial
  | string =>
    refine (Reading.get _).bind fun found => ?_
    cases found with
    | none => trivial
    | some data => exact Fallible.Uses.bind trivial fun _ => by split <;> trivial
  | _ =>
    refine (Reading.get _).bind fun found => ?_
    cases found with
    | none => trivial
    | some data =>
      dsimp only
      split <;> trivial

variable {key} in
/-- Deleting a field that has expired. -/
theorem probed_erase_field {field data : Bytes} (hget : s[hashKey key field]? = some data)
    (hexpired : envelopeExpired data time = true) :
    Probed time key s (s.erase (hashKey key field)) := by
  have hpre : namespacePrefix kindHash key <+: hashKey key field := ⟨field, rfl⟩
  refine .of_own (fun r hr => ?_) (.erase fun data' hget' => ?_)
  · refine Store.getElem?_erase_of_ne _ fun heq => hr ?_
    rw [← heq]
    exact .inr (.inr (.inr (.inl hpre)))
  · rw [hget] at hget'
    cases hget'
    exact ⟨⟨key, .inr hpre⟩, hexpired⟩

theorem probesFirst_redisHashField (field : Bytes) :
    ProbesFirst time key (ExceptT.run (Redis.redisHashField key field)) := by
  refine .redisType_bind fun typ s _ => ?_
  cases typ with
  | hash =>
    simp only
    rw [run_bind_ok Transport.run_get]
    cases hget : s[hashKey key field]? with
    | none => exact .refl _ _
    | some data =>
      cases hdata : unmarshalEnvelope data with
      | error err =>
        simp only [hdata]
        exact .refl _ _
      | ok value =>
        simp only [hdata]
        rw [run_bind_ok (run_liftExcept _),
          run_bind_ok (run_expiredNow _), ← Envelope.expired]
        cases hexpired : value.expired time with
        | true =>
          refine probed_erase_field hget ?_
          rw [envelopeExpired, hdata]
          exact hexpired
        | false => exact .refl _ _
  | _ => exact .refl _ _

theorem probesFirst_redisHashEntries : ProbesFirst time key (ExceptT.run (Redis.redisHashEntries key)) := by
  refine .redisType_bind fun typ s hfound => ?_
  cases typ with
  | hash =>
    simp only
    rw [run_bind_ok Transport.run_scanAll]
    by_cases hdecodes : ∀ record ∈ Redis.fieldRecords s key,
        ∃ value, unmarshalEnvelope record.2 = .ok value
    · rw [run_bind_ok (Redis.run_redisHashEntriesLoop_of_decodes hdecodes)]
      simp only
      rw [run_bind_ok (Transport.run_deleteEach _)]
      -- The probe found a live field, so there are entries.
      obtain ⟨record, hmem, hlive⟩ := hfound
      have hentries : ((Redis.fieldRecords s key).filter
          fun record => !envelopeExpired record.2 time).length ≠ 0 :=
        Nat.ne_of_gt (List.length_pos_of_mem (List.mem_filter.mpr ⟨hmem, by simp [hlive]⟩))
      simp only [List.length_map]
      rw [if_neg hentries]
      exact probed_withoutExpiredFields
    · obtain ⟨err, hrun⟩ := Redis.run_redisHashEntriesLoop_of_malformed time s hdecodes
      rw [run_bind_error hrun]
      exact .refl _ _
  | _ => exact .refl _ _

theorem probesFirst_redisSetMembers : ProbesFirst time key (ExceptT.run (Redis.redisSetMembers key)) := by
  refine .redisType_bind fun typ s hfound => ?_
  cases typ with
  | set =>
    simp only
    rw [run_bind_ok Transport.run_scanAll, if_neg]
    · exact .refl _ _
    · rw [List.length_map]
      exact Nat.ne_of_gt (List.length_pos_iff.mpr hfound)
  | _ => exact .refl _ _

theorem probesFirst_redisList : ProbesFirst time key (ExceptT.run (Redis.redisList key)) := by
  refine .redisType_bind fun typ s _ => ?_
  rw [Reading.run_snd]
  · exact .refl _ _
  cases typ with
  | list =>
    refine (Reading.get _).bind fun found => ?_
    cases found with
    | none => trivial
    | some data => exact Fallible.Uses.bind trivial fun _ => trivial
  | _ => trivial

theorem probesFirst_redisSIsMember (name member : Bytes) :
    ProbesFirst time key (Redis.redisSIsMember [name, key, member]) := by
  refine .replying (.redisType_bind fun typ s _ => ?_)
  rw [Reading.run_snd]
  · exact .refl _ _
  cases typ with
  | set => exact (Reading.get _).bind fun _ => by split <;> trivial
  | _ => trivial

theorem visits_redisHMGetLoop (fields : List Bytes) :
    Visits time key (ExceptT.run (Redis.redisHMGetLoop key fields)) := by
  induction fields with
  | nil => exact .ok _
  | cons field fields ih =>
    exact (probesFirst_redisHashField key field).visits.bind fun _ => ih.bind fun _ => .ok _

theorem visits_redisSMIsMemberLoop (items : List Redis.Resp) (members : List Bytes) :
    Visits time key (Redis.redisSMIsMemberLoop key items members) := by
  induction members generalizing items with
  | nil => exact fun s _ => .refl _ _
  | cons member members ih =>
    intro s hs
    have hmember := (probesFirst_redisSIsMember key (text "SISMEMBER") member).visits s hs
    rw [Redis.redisSMIsMemberLoop, Program.run_bind]
    split
    · exact hmember
    · exact hmember.trans (ih _ _ (hmember.not_endangered hs))

theorem probesFirst_redisSMIsMemberLoop (items : List Redis.Resp) (member : Bytes)
    (members : List Bytes) :
    ProbesFirst time key (Redis.redisSMIsMemberLoop key items (member :: members)) := by
  refine ⟨visits_redisSMIsMemberLoop key _ _, fun s hs => ?_⟩
  have hmember := (probesFirst_redisSIsMember key (text "SISMEMBER") member).removes s hs
  have hnone := Store.noRecordOf_without s key
  rw [Redis.redisSMIsMemberLoop, Program.run_bind]
  split
  · exact hmember
  · rw [hmember]
    exact (visits_redisSMIsMemberLoop key _ _ _ (not_endangered_of_noRecordOf hnone)).eq_of_noRecordOf
      hnone

end Readers

/-! ### Loops over keys -/

/-- The keys that a loop reads and the store that it leaves: the loop ends at the first read
that fails. -/
def readEach (time : ℤ) {α : Type} (read : Bytes → Action α) : List Bytes → Store → List Bytes × Store
  | [], s => ([], s)
  | key :: keys, s =>
    match run (embedded time) (read key) s with
    | (.error _, s') => ([key], s')
    | (.ok _, s') => (key :: (readEach time read keys s').1, (readEach time read keys s').2)

section Loops

variable {α : Type} {time : ℤ} {s s' s₀ : Store} {key : Bytes} {keys : List Bytes}
  {read : Bytes → Action α}

/-- The form of a key depends on its records only. -/
theorem Endangered.congr (h : ∀ storageKey, RecordOf key storageKey →
    s'[storageKey]? = s[storageKey]?) (hs : Endangered time s key) : Endangered time s' key := by
  have hfields : Redis.fieldRecords s' key = Redis.fieldRecords s key :=
    Store.scan_congr fun _ hpre => h _ (.inr (.inr (.inr (.inl hpre))))
  refine ⟨?_, ?_, hfields ▸ hs.field, hfields ▸ hs.fields, ?_⟩
  · unfold TTLAhead
    rw [h _ (.inr (.inr (.inl rfl)))]
    exact hs.ahead
  · rw [h _ (.inl rfl)]
    exact hs.value
  · rcases hs.rest with ⟨r, data, howns, hget⟩ | hlist
    · exact .inl ⟨r, data, howns, (h r howns.recordOf).trans hget⟩
    · rw [h _ (.inr (.inl rfl))]
      exact .inr hlist

/-- A visit changes the form of no other key. -/
theorem Probed.endangered_iff (h : Probed time key s s') {other : Bytes} (hkey : ShortName key)
    (hother : ShortName other) (hne : other ≠ key) :
    Endangered time s' other ↔ Endangered time s other := by
  have hframe : ∀ r, RecordOf other r → s'[r]? = s[r]? := fun r hr =>
    h.frame r fun hr' => hne (eq_of_recordOf hother hkey hr hr')
  exact ⟨.congr fun r hr => (hframe r hr).symm, .congr hframe⟩

variable (hread : ∀ key, ProbesFirst time key (ExceptT.run (read key)))

include hread

/-- A record that is gone stays so. -/
theorem getElem?_readEach_of_none {storageKey : Bytes} (h : s[storageKey]? = none) :
    (readEach time read keys s).2[storageKey]? = none := by
  induction keys generalizing s with
  | nil => exact h
  | cons key keys ih =>
    have hnone : (run (embedded time) (read key) s).2[storageKey]? = none := by
      by_cases hs : Endangered time s key
      · rw [← program_run, (hread key).removes s hs]
        by_cases hrecord : RecordOf key storageKey
        · exact Store.noRecordOf_without s key storageKey hrecord
        · rw [Store.getElem?_without_of_not_recordOf hrecord, h]
      · rcases ((hread key).visits s hs).lost storageKey with heq | ⟨hnone, -⟩
        · exact heq.trans h
        · exact hnone
    rw [readEach]
    split <;> rename_i hrun <;> rw [hrun] at hnone
    · exact hnone
    · exact ih hnone

/-- The loop removes only what may be removed exactly if no key that it reads is endangered. -/
theorem keepsLive_readEach_iff (hshort : ∀ key ∈ (readEach time read keys s).1, ShortName key)
    (hnames : ∀ key', TTLPassed time s₀ key' → ShortName key') (hlost : Lost time s₀ s)
    (hsame : ∀ key ∈ (readEach time read keys s).1,
      Endangered time s key ↔ Endangered time s₀ key) :
    KeepsLive time s₀ (readEach time read keys s).2 ↔
      ∀ key ∈ (readEach time read keys s).1, ¬ Endangered time s₀ key := by
  induction keys generalizing s with
  | nil => exact iff_of_true hlost.keepsLive fun _ h => by cases h
  | cons key keys ih =>
    have hmem : key ∈ (readEach time read (key :: keys) s).1 := by
      rw [readEach]
      split <;> exact List.mem_cons_self
    by_cases hs₀ : Endangered time s₀ key
    · -- The live record of the key that its probe removes does not come back.
      refine iff_of_false (fun hkeeps => ?_) fun h => h key hmem hs₀
      have hremoved := (hread key).removes s ((hsame key hmem).mpr hs₀)
      obtain ⟨storageKey, data, hrecord, hget, hlive⟩ := hs₀.exists_live (hshort key hmem) hnames
      refine hlive (hkeeps storageKey data hget ?_)
      have hgone := Store.noRecordOf_without s key storageKey hrecord
      rw [← hremoved, program_run] at hgone
      rw [readEach]
      split <;> rename_i hrun <;> rw [hrun] at hgone
      · exact hgone
      · exact getElem?_readEach_of_none hread hgone
    · have hs := (hsame key hmem).not.mpr hs₀
      have hprobed := (hread key).visits s hs
      rw [program_run] at hprobed
      rw [readEach] at hshort hsame ⊢
      split <;> rename_i hrun <;> rw [hrun] at hprobed hshort hsame
      · refine iff_of_true (Lost.trans hlost hprobed.lost).keepsLive fun key' hkey' => ?_
        rwa [List.mem_singleton.mp hkey']
      · rw [List.forall_mem_cons] at hshort
        rw [List.forall_mem_cons, and_iff_right hs₀]
        refine ih hshort.2 (Lost.trans hlost hprobed.lost) fun key' hkey' => ?_
        by_cases heq : key' = key
        · rw [heq]
          exact iff_of_false (hprobed.not_endangered hs) hs₀
        · exact (hprobed.endangered_iff hshort.1 (hshort.2 key' hkey') heq).trans
            (hsame key' (List.mem_cons_of_mem _ hkey'))

end Loops

section LoopStores

variable {time : ℤ} {s : Store}

theorem run_redisMGetLoop_snd (keys : List Bytes) :
    (run (embedded time) (Redis.redisMGetLoop keys) s).2 =
      (readEach time Redis.redisString keys s).2 := by
  induction keys generalizing s with
  | nil => rfl
  | cons key keys ih =>
    rw [Redis.redisMGetLoop, readEach]
    split <;> rename_i hrun
    · rw [run_bind_error hrun]
    · rw [run_bind_ok hrun, Reading.run_bind_snd, ih]
      exact fun _ => trivial

theorem run_redisExistsLoop_snd (count : ℕ) (keys : List Bytes) :
    (run (embedded time) (Redis.redisExistsLoop count keys) s).2 =
      (readEach time Redis.redisType keys s).2 := by
  induction keys generalizing count s with
  | nil => rfl
  | cons key keys ih =>
    rw [Redis.redisExistsLoop, readEach]
    split <;> rename_i hrun
    · rw [run_bind_error hrun]
    · rw [run_bind_ok hrun]
      split <;> exact ih _

theorem run_redisExistingKeys_snd (keys : List Bytes) :
    (run (embedded time) (Redis.redisExistingKeys keys) s).2 =
      (readEach time Redis.redisType keys s).2 := by
  induction keys generalizing s with
  | nil => rfl
  | cons key keys ih =>
    rw [Redis.redisExistingKeys, readEach]
    split <;> rename_i hrun
    · rw [run_bind_error hrun]
    · rw [run_bind_ok hrun, Reading.run_bind_snd, ih]
      exact fun _ => trivial

end LoopStores

/-! ### The lists -/

/-- The key has a list by its type all of whose items have expired. Items get deadlines only
from the raw pushes of the HTTP extension. -/
structure ListSpent (time : ℤ) (s : Store) (key : Bytes) : Prop where
  ahead : TTLAhead time s key
  value : ∀ data, s[valueKey key]? = some data → envelopeExpired data time = true
  fields : Redis.fieldRecords s key = []
  members : s.scan (namespacePrefix kindSet key) = []
  list : ∃ data items, s[listKey key]? = some data ∧ decodeList data = .ok items ∧ items ≠ [] ∧
    ∀ item ∈ items, envelopeExpired item time = true

section Lists

variable {time : ℤ} {s s' : Store} {key : Bytes}

/-- Reading a spent list removes the key. -/
theorem ListSpent.run_redisListValues (h : ListSpent time s key) :
    (run (embedded time) (Redis.redisListValues key) s).2[listKey key]? = none := by
  obtain ⟨data, items, hget, hdata, hne, hexpired⟩ := h.list
  have hget' : (s.erase (valueKey key))[listKey key]? = some data := by
    rw [Store.getElem?_erase_of_ne _ (valueKey_ne_listKey _ _), hget]
  have htype : run (embedded time) (Redis.redisType key) s = (.ok .list, s.erase (valueKey key)) :=
    Redis.run_redisType_of_list h.ahead (ValuePassed.run_probeValue h.value)
      (Redis.run_probeHash_of_nil time (fieldRecords_erase_value.trans h.fields))
      (members_erase_value.trans h.members) (Redis.run_probeList_of_items hget' hdata hne)
  have hlist : run (embedded time) (Redis.redisList key) s =
      (.ok (some items), s.erase (valueKey key)) := by
    rw [Redis.redisList, run_bind_ok htype]
    simp only
    rw [run_bind_ok Transport.run_get, hget']
    simp only [hdata]
    rfl
  have hdecodes : ∀ item ∈ items, ∃ value, unmarshalEnvelope item = .ok value := fun item hmem =>
    let ⟨value, hvalue, _⟩ := exists_of_envelopeExpired (hexpired item hmem)
    ⟨value, hvalue⟩
  have hlive : (items.filter fun item => !envelopeExpired item time) = [] :=
    List.filter_eq_nil_iff.mpr fun item hmem => by simp [hexpired item hmem]
  have hlength : ([] : List Bytes).length ≠ items.length := fun heq =>
    hne (List.length_eq_zero_iff.mp heq.symm)
  rw [Redis.redisListValues, run_bind_ok hlist]
  simp only
  rw [run_bind_ok (Redis.run_redisLiveItems_of_decodes hdecodes), hlive, if_pos hlength,
    Reading.run_bind_snd, Redis.redisWriteList, if_pos List.length_nil,
    run_bind_ok Redis.run_redisDeleteRaw]
  · exact Store.noRecordOf_without _ key _ (.inr (.inl rfl))
  · exact fun _ => trivial

/-- Reading a list drops expired items from the record, and removes the record only
when every item has expired. -/
theorem keepsLive_redisListValues (hsafe : ¬ Endangered time s key)
    (hlist : ¬ ListSpent time s key) :
    KeepsLive time s (run (embedded time) (Redis.redisListValues key) s).2 := by
  have hvisited := (probesFirst_redisList key).visits s hsafe
  rw [program_run] at hvisited
  cases hrun : run (embedded time) (Redis.redisList key) s with
  | mk result s' =>
    rw [hrun] at hvisited
    have hkeeps := hvisited.lost.keepsLive
    rcases result with err | found
    · rw [Redis.redisListValues, run_bind_error hrun]
      exact hkeeps
    rw [Redis.redisListValues, run_bind_ok hrun]
    cases found with
    | none => exact hkeeps
    | some items =>
      obtain ⟨hnone, -⟩ | ⟨_, ⟨⟩, -, hahead, hvalue, hfields, hmembers, data, hget, hdata, hne⟩ :=
        outcome_of_run_redisList hrun
      · cases hnone
      by_cases hdecodes : ∀ item ∈ items, ∃ value, unmarshalEnvelope item = .ok value
      · simp only
        rw [run_bind_ok (Redis.run_redisLiveItems_of_decodes hdecodes)]
        split
        · next hlength =>
          rw [Redis.redisWriteList, if_neg]
          · -- The record is rewritten, not removed.
            intro storageKey data' hget' hnone
            refine hkeeps storageKey data' hget' ?_
            change (s'.insert (listKey key) _)[storageKey]? = none at hnone
            rw [Store.getElem?_insert] at hnone
            split at hnone
            · cases hnone
            · exact hnone
          · intro hnil
            rw [List.length_eq_zero_iff, List.filter_eq_nil_iff] at hnil
            exact hlist ⟨hahead, hvalue, hfields, hmembers, data, items, hget, hdata, hne,
              fun item hmem => by simpa using hnil item hmem⟩
        · exact hkeeps
      · obtain ⟨err, hlive⟩ := Redis.run_redisLiveItems_of_malformed time s' hdecodes
        simp only
        rw [run_bind_error hlive]
        exact hkeeps

/-- A command that reads a list and then only replies. -/
theorem keepsLive_listReader_iff {f : List Bytes → Action Redis.Resp}
    (hf : ∀ items, Reading (f items)) (hkey : ShortName key)
    (hnames : ∀ key', TTLPassed time s key' → ShortName key') :
    KeepsLive time s (run (embedded time) (Redis.redisListValues key >>= f) s).2 ↔
      ¬ Endangered time s key ∧ ¬ ListSpent time s key := by
  rw [Reading.run_bind_snd hf]
  refine ⟨fun hkeeps => ⟨fun hs => ?_, fun hs => ?_⟩, fun h => keepsLive_redisListValues h.1 h.2⟩
  · obtain ⟨storageKey, data, hrecord, hget, hlive⟩ := hs.exists_live hkey hnames
    refine hlive (hkeeps storageKey data hget ?_)
    have hlist : run (embedded time) (Redis.redisList key) s = (.ok none, s.without key) := by
      rw [Redis.redisList, run_bind_ok hs.run_redisType]
      rfl
    rw [Redis.redisListValues, run_bind_ok hlist]
    exact Store.noRecordOf_without s key storageKey hrecord
  · obtain ⟨data, items, hget, hdata, hne, -⟩ := hs.list
    exact hs.ahead.not_dead_listKey hkey hnames (by simpa [hdata] using hne)
      (hkeeps _ data hget hs.run_redisListValues)

end Lists

/-! ### The commands -/

/-- The logical keys that have a record. -/
def logicalKeys (s : Store) : List Bytes :=
  (s.scan []).filterMap fun record => logicalKeyFromStorage record.1

/-- The keys that the listing of all keys reaches. -/
def listedKeys (go : Redis.GoRuntime) (time : ℤ) (s : Store) : List Bytes :=
  (readEach time Redis.redisType (go.rangeOrder (logicalKeys s).dedup) s).1

/-- The keys a reading command probes; absent for the other commands. A command that is
refused for its arguments probes none. -/
def readKeys (go : Redis.GoRuntime) (time : ℤ) (s : Store) (args : List Bytes) :
    Redis.Command → Option (List Bytes)
  | .get | .strlen | .type | .ttl | .pttl | .hgetall | .hlen | .hkeys | .hvals | .smembers
  | .scard | .llen => match args with
    | [_, key] => some [key]
    | _ => some []
  | .hget | .hexists | .sismember => match args with
    | [_, key, _] => some [key]
    | _ => some []
  | .hmget | .smismember => match args with
    | _ :: key :: _ :: _ => some [key]
    | _ => some []
  | .lrange => match args with
    | [_, key, start, stop] => match Redis.redisParseInt start, Redis.redisParseInt stop with
      | .ok _, .ok _ => some [key]
      | _, _ => some []
    | _ => some []
  | .mget => some (readEach time Redis.redisString args.tail s).1
  | .existsKeys => some (readEach time Redis.redisType args.tail s).1
  | .keys => match args with
    | [_, _] => some (listedKeys go time s)
    | _ => some []
  | .scan => match args with
    | _ :: cursor :: rest =>
      match Redis.redisParseNonNegative cursor, Redis.redisScanOptions go (text "*") 10 rest with
      | .ok _, .ok (some _) => some (listedKeys go time s)
      | _, _ => some []
    | _ => some []
  | .dbsize => match args with
    | [_] => some (listedKeys go time s)
    | _ => some []
  | _ => none

/-- The code probes the key of the list, or changes nothing if there is none. -/
inductive ProbesKeys (time : ℤ) {α : Type} (p : Program Calls α) : List Bytes → Prop
  | none (h : ∀ s, (p.run (embedded time) s).2 = s) : ProbesKeys time p []
  | one {key : Bytes} (h : ProbesFirst time key p) : ProbesKeys time p [key]

section Commands

variable {time : ℤ} {s : Store} {keys : List Bytes} {go : Redis.GoRuntime}
  {session : Redis.Session} {args : List Bytes}

/-- The commands that take a key and no other argument. -/
theorem ProbesKeys.of_key {f : Bytes → Action Redis.Resp}
    (hf : ∀ key, ProbesFirst time key (ExceptT.run (f key))) :
    (match args with | [_, key] => some [key] | _ => some []) = some keys →
    ProbesKeys time (some <$> Redis.replying (match args with
      | [_, key] => f key
      | _ => pure Redis.redisSyntaxError)) keys := by
  rcases args with _ | ⟨_, _ | ⟨key, _ | ⟨_, _⟩⟩⟩ <;> rintro ⟨⟩
  exacts [.none fun _ => rfl, .none fun _ => rfl, .one ((hf key).replying.map some),
    .none fun _ => rfl]

/-- The commands that take a key and another argument. -/
theorem ProbesKeys.of_pair {f : Bytes → Bytes → Action Redis.Resp}
    (hf : ∀ key arg, ProbesFirst time key (ExceptT.run (f key arg))) :
    (match args with | [_, key, _] => some [key] | _ => some []) = some keys →
    ProbesKeys time (some <$> Redis.replying (match args with
      | [_, key, arg] => f key arg
      | _ => pure Redis.redisSyntaxError)) keys := by
  rcases args with _ | ⟨_, _ | ⟨key, _ | ⟨arg, _ | ⟨_, _⟩⟩⟩⟩ <;> rintro ⟨⟩
  exacts [.none fun _ => rfl, .none fun _ => rfl, .none fun _ => rfl,
    .one ((hf key arg).replying.map some), .none fun _ => rfl]

/-- The reading commands on one key, but for those that read lists. -/
theorem probesKeys_redisCommand {command : Redis.Command}
    (hread : readKeys go time s args command = some keys)
    (hlist : command ≠ .lrange ∧ command ≠ .llen)
    (hloop : command ≠ .mget ∧ command ≠ .existsKeys)
    (hkeyspace : command ≠ .keys ∧ command ≠ .scan ∧ command ≠ .dbsize) :
    ProbesKeys time (Redis.redisCommand go session args command) keys := by
  cases command with
  | get => exact .of_key (fun key => (probesFirst_redisString key).bind fun _ => .ok _) hread
  | strlen =>
    refine .of_key (fun key => (probesFirst_redisString key).bind fun value => ?_) hread
    cases value <;> exact .ok _
  | type => exact .of_key (fun key => (probesFirst_redisType key).bind fun _ => .ok _) hread
  | ttl | pttl =>
    refine .of_key (fun key => (probesFirst_redisExpiry key).bind fun deadline => ?_) hread
    cases deadline with
    | none => exact (probesFirst_redisType key).visits.bind fun _ => .ite (.ok _) (.ok _)
    | some expiresAt =>
      exact .of_reading (Fallible.Uses.bind (x := Redis.unixNano) ⟨trivial, fun _ => trivial⟩
        fun _ => .ite trivial trivial)
  | hgetall | hlen | hkeys | hvals =>
    exact .of_key (fun key => (probesFirst_redisHashEntries key).bind fun _ => .ok _) hread
  | smembers | scard =>
    exact .of_key (fun key => (probesFirst_redisSetMembers key).bind fun _ => .ok _) hread
  | hget =>
    exact .of_pair (fun key field => (probesFirst_redisHashField key field).bind fun _ => .ok _) hread
  | hexists =>
    exact .of_pair (fun key field => (probesFirst_redisHashField key field).bind fun _ =>
      .ite (.ok _) (.ok _)) hread
  | sismember =>
    rcases args with _ | ⟨name, _ | ⟨key, _ | ⟨member, _ | ⟨_, _⟩⟩⟩⟩ <;> cases hread
    case cons.cons.cons.nil.refl => exact .one ((probesFirst_redisSIsMember key name member).map some)
    all_goals exact .none fun _ => rfl
  | hmget =>
    rcases args with _ | ⟨_, _ | ⟨key, _ | ⟨field, fields⟩⟩⟩ <;> cases hread
    case cons.cons.cons.refl =>
      exact .one (((((probesFirst_redisHashField key field).bind fun _ =>
        (visits_redisHMGetLoop key fields).bind fun _ => .ok _).bind fun _ => .ok _).replying).map some)
    all_goals exact .none fun _ => rfl
  | smismember =>
    rcases args with _ | ⟨_, _ | ⟨key, _ | ⟨member, members⟩⟩⟩ <;> cases hread
    case cons.cons.cons.refl =>
      exact .one ((probesFirst_redisSMIsMemberLoop key [] member members).map some)
    all_goals exact .none fun _ => rfl
  | mget => exact absurd rfl hloop.1
  | existsKeys => exact absurd rfl hloop.2
  | lrange => exact absurd rfl hlist.1
  | llen => exact absurd rfl hlist.2
  | keys => exact absurd rfl hkeyspace.1
  | scan => exact absurd rfl hkeyspace.2.1
  | dbsize => exact absurd rfl hkeyspace.2.2
  | _ => cases hread

/-- The loops over the key arguments. -/
theorem run_redisMGet_snd :
    ((Redis.redisCommand go session args .mget).run (embedded time) s).2 =
      (readEach time Redis.redisString args.tail s).2 := by
  rw [Redis.redisCommand, run_map_snd]
  rcases args with _ | ⟨_, _ | ⟨key, keys⟩⟩
  · rfl
  · rfl
  · rw [Redis.redisMGet, Redis.run_replying_snd, Reading.run_bind_snd, run_redisMGetLoop_snd]
    · rfl
    · exact fun _ => trivial

@[inherit_doc run_redisMGet_snd]
theorem run_redisExists_snd :
    ((Redis.redisCommand go session args .existsKeys).run (embedded time) s).2 =
      (readEach time Redis.redisType args.tail s).2 := by
  rw [Redis.redisCommand, run_map_snd]
  rcases args with _ | ⟨_, _ | ⟨key, keys⟩⟩
  · rfl
  · rfl
  · rw [Redis.redisExists, Redis.run_replying_snd, Reading.run_bind_snd, run_redisExistsLoop_snd]
    · rfl
    · exact fun _ => trivial

/-- The listing of the keys, and code that only replies with it. -/
theorem run_redisLogicalKeys_bind_snd {α : Type} {f : List Bytes → Action α}
    (hf : ∀ keys, Reading (f keys)) :
    (run (embedded time) (Redis.redisLogicalKeys go >>= f) s).2 =
      (readEach time Redis.redisType (go.rangeOrder (logicalKeys s).dedup) s).2 := by
  rw [Reading.run_bind_snd hf, Redis.redisLogicalKeys, run_bind_ok Transport.run_scanAll,
    Reading.run_bind_snd, run_redisExistingKeys_snd]
  · rfl
  · exact fun _ => trivial

/-- The commands on the whole keyspace list the keys, or are refused. -/
theorem keyspace_lists {command : Redis.Command}
    (hcommand : command = .keys ∨ command = .scan ∨ command = .dbsize)
    (hread : readKeys go time s args command = some keys) :
    (keys = [] ∧ ((Redis.redisCommand go session args command).run (embedded time) s).2 = s) ∨
    (keys = listedKeys go time s ∧
      ((Redis.redisCommand go session args command).run (embedded time) s).2 =
        (readEach time Redis.redisType (go.rangeOrder (logicalKeys s).dedup) s).2) := by
  rcases hcommand with rfl | rfl | rfl
  · rcases args with _ | ⟨_, _ | ⟨pattern, _ | ⟨_, _⟩⟩⟩ <;> cases hread
    case cons.cons.nil.refl =>
      refine .inr ⟨rfl, ?_⟩
      rw [Redis.redisCommand, run_map_snd, Redis.redisKeysCommand, Redis.run_replying_snd]
      exact run_redisLogicalKeys_bind_snd fun _ => trivial
    all_goals exact .inl ⟨rfl, rfl⟩
  · have hstore : ((Redis.redisScan go args).run (embedded time) s).2 =
        (run (embedded time) (Redis.redisScanReply go args) s).2 := by
      rw [Redis.redisScan, Program.run_bind, program_run]
      cases (run (embedded time) (Redis.redisScanReply go args) s).1 <;> rfl
    rw [Redis.redisCommand, hstore]
    rcases args with _ | ⟨_, _ | ⟨cursor, rest⟩⟩
    · cases hread
      exact .inl ⟨rfl, rfl⟩
    · cases hread
      exact .inl ⟨rfl, rfl⟩
    simp only [readKeys] at hread
    rw [Redis.redisScanReply]
    cases hcursor : Redis.redisParseNonNegative cursor with
    | error err =>
      rw [hcursor] at hread
      cases hread
      exact .inl ⟨rfl, rfl⟩
    | ok cursor =>
      rw [run_bind_ok (run_liftExcept _)]
      rw [hcursor] at hread
      cases hoptions : Redis.redisScanOptions go (text "*") 10 rest with
      | error err =>
        rw [hoptions] at hread
        cases hread
        exact .inl ⟨rfl, rfl⟩
      | ok options =>
        rw [run_bind_ok (run_liftExcept _)]
        rw [hoptions] at hread
        cases options with
        | none =>
          cases hread
          exact .inl ⟨rfl, rfl⟩
        | some options =>
          cases hread
          refine .inr ⟨rfl, run_redisLogicalKeys_bind_snd fun keys => ?_⟩
          split <;> trivial
  · rcases args with _ | ⟨_, _ | ⟨_, _⟩⟩ <;> cases hread
    case cons.nil.refl =>
      refine .inr ⟨rfl, ?_⟩
      rw [Redis.redisCommand, run_map_snd, Redis.redisDBSize, Redis.run_replying_snd]
      exact run_redisLogicalKeys_bind_snd fun _ => trivial
    all_goals exact .inl ⟨rfl, rfl⟩

/-- The commands on lists read the list of their key, or are refused. -/
theorem lists_read {command : Redis.Command} (hcommand : command = .lrange ∨ command = .llen)
    (hread : readKeys go time s args command = some keys) :
    (keys = [] ∧ ((Redis.redisCommand go session args command).run (embedded time) s).2 = s) ∨
    ∃ key, keys = [key] ∧ ∃ f : List Bytes → Action Redis.Resp, (∀ items, Reading (f items)) ∧
      ((Redis.redisCommand go session args command).run (embedded time) s).2 =
        (run (embedded time) (Redis.redisListValues key >>= f) s).2 := by
  rcases hcommand with rfl | rfl
  · rcases args with _ | ⟨_, _ | ⟨key, _ | ⟨start, _ | ⟨stop, _ | ⟨_, _⟩⟩⟩⟩⟩
    case cons.cons.cons.cons.nil =>
      rw [Redis.redisCommand, run_map_snd, Redis.redisLRange, Redis.run_replying_snd]
      simp only [readKeys] at hread
      cases hstart : Redis.redisParseInt start with
      | error err =>
        rw [hstart] at hread
        cases hread
        exact .inl ⟨rfl, rfl⟩
      | ok first =>
        rw [run_bind_ok (run_liftExcept _)]
        rw [hstart] at hread
        cases hstop : Redis.redisParseInt stop with
        | error err =>
          rw [hstop] at hread
          cases hread
          exact .inl ⟨rfl, rfl⟩
        | ok last =>
          rw [run_bind_ok (run_liftExcept _)]
          rw [hstop] at hread
          cases hread
          refine .inr ⟨key, rfl, _, fun items => ?_, rfl⟩
          dsimp only
          split
          · exact Fallible.Uses.bind (x := now) ⟨trivial, fun _ => trivial⟩ fun _ =>
              Fallible.Uses.bind trivial fun _ => trivial
          · trivial
    all_goals
      cases hread
      exact .inl ⟨rfl, rfl⟩
  · rcases args with _ | ⟨_, _ | ⟨key, _ | ⟨_, _⟩⟩⟩ <;> cases hread
    case cons.cons.nil.refl =>
      rw [Redis.redisCommand, run_map_snd, Redis.redisLLen, Redis.run_replying_snd]
      exact .inr ⟨key, rfl, fun items => pure (.integer items.length), fun _ => trivial, rfl⟩
    all_goals exact .inl ⟨rfl, rfl⟩

/-- A reading command removes only what may be removed exactly if no key that it probes is
endangered, and no list that it reads is spent. -/
theorem reads_keep_live_data_iff (go : Redis.GoRuntime) (session : Redis.Session) (time : ℤ)
    (s : Store) (args : List Bytes) (command : Redis.Command) (keys : List Bytes)
    (hread : readKeys go time s args command = some keys) (hshort : ∀ key ∈ keys, ShortName key)
    (hnames : ∀ key, TTLPassed time s key → ShortName key) :
    KeepsLive time s ((Redis.redisCommand go session args command).run (embedded time) s).2 ↔
      ∀ key ∈ keys, ¬ Endangered time s key ∧
        (command = .lrange ∨ command = .llen → ¬ ListSpent time s key) := by
  have hrefl : KeepsLive time s s := LostBy.keepsLive (LostBy.refl s)
  by_cases hlist : command = .lrange ∨ command = .llen
  · rcases @lists_read time s keys go session args _ hlist hread with ⟨rfl, hrun⟩ | ⟨key, rfl, f, hf, hrun⟩
    · rw [hrun]
      exact iff_of_true hrefl fun _ h => by cases h
    · rw [hrun, keepsLive_listReader_iff hf (hshort key List.mem_cons_self) hnames]
      simp [hlist]
  simp only [hlist, false_implies, and_true]
  by_cases hkeyspace : command = .keys ∨ command = .scan ∨ command = .dbsize
  · rcases @keyspace_lists time s keys go session args _ hkeyspace hread with ⟨rfl, hrun⟩ | ⟨rfl, hrun⟩
    · rw [hrun]
      exact iff_of_true hrefl fun _ h => by cases h
    · rw [hrun]
      exact keepsLive_readEach_iff probesFirst_redisType hshort hnames (LostBy.refl s)
        fun _ _ => Iff.rfl
  by_cases hloop : command = .mget ∨ command = .existsKeys
  · rcases hloop with rfl | rfl <;> cases hread
    · rw [run_redisMGet_snd]
      exact keepsLive_readEach_iff probesFirst_redisString hshort hnames (LostBy.refl s)
        fun _ _ => Iff.rfl
    · rw [run_redisExists_snd]
      exact keepsLive_readEach_iff probesFirst_redisType hshort hnames (LostBy.refl s)
        fun _ _ => Iff.rfl
  · push Not at hlist hkeyspace hloop
    have hkeys : ProbesKeys time (Redis.redisCommand go session args command) keys :=
      probesKeys_redisCommand hread hlist hloop hkeyspace
    cases hkeys with
    | none h =>
      rw [h s]
      exact iff_of_true hrefl fun _ h => by cases h
    | one h =>
      rw [h.keepsLive_iff (hshort _ List.mem_cons_self) hnames]
      simp

end Commands

/-! ### A live member that a read removes -/

/-- A set member and a hash field that expires after a second, both written by the core
under one name. -/
def memberBesideField : Store :=
  (runSteps (bytesHandle 0) .upperCase (fun _ => 0)
    [.core (.sAdd (text "k") (some [text "m"])),
      .core (.hSet (text "k") (text "f") (text "v") [some (.ttl 1000000000)])] (0, ∅)).2

theorem memberBesideField_eq : ∃ data, memberBesideField =
    ((∅ : Store).insert (setKey (text "k") (text "m")) [1]).insert
      (hashKey (text "k") (text "f")) data ∧ envelopeExpired data 0 = false :=
  ⟨_, rfl, rfl⟩

theorem not_ttlPassed_memberBesideField (time : ℤ) (key : Bytes) :
    ¬ TTLPassed time memberBesideField key := by
  rintro ⟨data, hget, -⟩
  obtain ⟨field, hstore, -⟩ := memberBesideField_eq
  rw [hstore, Store.getElem?_insert_of_ne _ _ (hashKey_ne_collectionTTLKey _ _ _),
    Store.getElem?_insert_of_ne _ _ (setKey_ne_collectionTTLKey _ _ _)] at hget
  cases hget

/-- Two seconds later, `TYPE` removes the member, which has no deadline. -/
theorem type_removes_live_member :
    memberBesideField[setKey (text "k") (text "m")]? = some [1] ∧
    ((Redis.redisCommand .upperCase ⟨true, 1, 2⟩ [text "TYPE", text "k"] .type).run
      (embedded 2000000000) memberBesideField).2[setKey (text "k") (text "m")]? = none ∧
    ¬ Dead 2000000000 memberBesideField (setKey (text "k") (text "m")) [1] := by
  refine ⟨rfl, rfl, ?_⟩
  rintro (⟨⟨key, hkey | hkey⟩, -⟩ | ⟨-, hpassed⟩)
  · exact absurd (owns_setKey_kind hkey) (by decide)
  · exact absurd (owns_setKey_kind hkey) (by decide)
  · exact not_ttlPassed_memberBesideField _ _ hpassed

/-- While the field is live, `TYPE` keeps everything; later, so does a command that is refused
before its probe. -/
theorem reads_keep_live_data_at_memberBesideField :
    KeepsLive 0 memberBesideField
      ((Redis.redisCommand .upperCase ⟨true, 1, 2⟩ [text "TYPE", text "k"] .type).run
        (embedded 0) memberBesideField).2 ∧
    KeepsLive 2000000000 memberBesideField
      ((Redis.redisCommand .upperCase ⟨true, 1, 2⟩ [text "LRANGE", text "k", text "x", text "y"]
        .lrange).run (embedded 2000000000) memberBesideField).2 := by
  constructor
  · refine (reads_keep_live_data_iff .upperCase _ 0 memberBesideField _ _ [text "k"] rfl
      (by decide) fun key h => absurd h (not_ttlPassed_memberBesideField 0 key)).mpr fun key hkey => ?_
    obtain rfl := List.mem_singleton.mp hkey
    refine ⟨fun h => ?_, by simp⟩
    obtain ⟨data, hstore, hlive⟩ := memberBesideField_eq
    have hexpired := h.fields (hashKey (text "k") (text "f"), data)
      (Store.mem_scan.mpr ⟨⟨text "f", rfl⟩, by rw [hstore, Store.getElem?_insert, if_pos rfl]⟩)
    rw [hlive] at hexpired
    cases hexpired
  · exact (reads_keep_live_data_iff .upperCase _ 2000000000 memberBesideField _ _ [] rfl
      (by decide) fun key h => absurd h (not_ttlPassed_memberBesideField _ key)).mpr fun _ h => by
        cases h

end KVLite
