import KVLite.Keyspace.ProbeAt
import KVLite.Keyspace.Reachable

/-!
# What reading through Redis removes

A read may remove records whose own deadline has passed, every record of a key whose
collection deadline has passed, and bookkeeping. The type probe removes more from a
key with expired hash fields that also has set members or a list, which the core can
create: when no field is left it removes the whole key.
-/

namespace KVLite

open Semantics Fallible BigEndian

/-! ### Records that may be removed -/

/-- The record is a value or a hash field whose own deadline has passed. -/
def OwnPassed (time : ℤ) (storageKey data : Bytes) : Prop :=
  (∃ key, Owns key .value storageKey ∨ Owns key .hash storageKey) ∧
    envelopeExpired data time = true

/-- The record of the store may be removed: its own deadline has passed, it belongs to
a key whose collection deadline has passed, or it is expiry metadata or an empty list. -/
inductive Dead (time : ℤ) (s : Store) : Bytes → Bytes → Prop
  | own {storageKey data : Bytes} (h : OwnPassed time storageKey data) : Dead time s storageKey data
  | collection {key storageKey data : Bytes} (h : RecordOf key storageKey)
      (hpassed : TTLPassed time s key) : Dead time s storageKey data
  | metadata (key data : Bytes) : Dead time s (collectionTTLKey key) data
  | emptyList {data : Bytes} (key : Bytes) (h : decodeList data = .ok []) :
      Dead time s (listKey key) data

/-- From `s` to `s'` the only records removed satisfy `D`, and no others change. -/
def LostBy (D : Bytes → Bytes → Prop) (s s' : Store) : Prop :=
  ∀ storageKey, s'[storageKey]? = s[storageKey]? ∨
    (s'[storageKey]? = none ∧ ∃ data, s[storageKey]? = some data ∧ D storageKey data)

/-- Only records that may be removed were removed. -/
abbrev Lost (time : ℤ) (s s' : Store) : Prop := LostBy (Dead time s) s s'

namespace LostBy

variable {D D' : Bytes → Bytes → Prop} {s s' s'' : Store} {key : Bytes}

theorem refl (s : Store) : LostBy D s s := fun _ => .inl rfl

theorem getElem? (h : LostBy D s s') {storageKey data : Bytes}
    (hget : s'[storageKey]? = some data) : s[storageKey]? = some data := by
  rcases h storageKey with heq | ⟨hnone, -⟩
  · rw [← heq, hget]
  · rw [hnone] at hget
    cases hget

theorem mono (h : LostBy D s s')
    (himp : ∀ storageKey data, s[storageKey]? = some data → D storageKey data →
      D' storageKey data) : LostBy D' s s' := by
  intro storageKey
  rcases h storageKey with heq | ⟨hnone, data, hget, hdead⟩
  · exact .inl heq
  · exact .inr ⟨hnone, data, hget, himp _ _ hget hdead⟩

theorem trans (h : LostBy D s s') (h' : LostBy D' s' s'')
    (himp : ∀ storageKey data, s'[storageKey]? = some data → D' storageKey data →
      D storageKey data) : LostBy D s s'' := by
  intro storageKey
  rcases h' storageKey with heq | ⟨hnone, data, hget, hdead⟩
  · rw [heq]
    exact h storageKey
  · exact .inr ⟨hnone, data, h.getElem? hget, himp _ _ hget hdead⟩

theorem erase (h : ∀ data, s[key]? = some data → D key data) : LostBy D s (s.erase key) := by
  intro storageKey
  rw [Store.getElem?_erase]
  split
  · next heq =>
    subst heq
    cases hget : s[key]? with
    | none => exact .inl rfl
    | some data => exact .inr ⟨rfl, data, rfl, h data hget⟩
  · exact .inl rfl

theorem eraseAll {keys : List Bytes}
    (h : ∀ key ∈ keys, ∀ data, s[key]? = some data → D key data) : LostBy D s (s.eraseAll keys) := by
  intro storageKey
  rw [Store.getElem?_eraseAll]
  split
  · next hmem =>
    cases hget : s[storageKey]? with
    | none => exact .inl rfl
    | some data => exact .inr ⟨rfl, data, rfl, h storageKey hmem data hget⟩
  · exact .inl rfl

theorem without (h : ∀ storageKey data, RecordOf key storageKey → s[storageKey]? = some data →
    D storageKey data) : LostBy D s (s.without key) :=
  .eraseAll fun storageKey hmem data hget =>
    h storageKey data (mem_recordKeys.mp hmem).1 hget

end LostBy

section Lost

variable {time : ℤ} {s s' s'' : Store} {key : Bytes}

/-- What is dead later was dead before. -/
theorem Dead.of_lost (h : Lost time s s') {storageKey data : Bytes}
    (hdead : Dead time s' storageKey data) : Dead time s storageKey data := by
  cases hdead with
  | own hown => exact .own hown
  | collection hrecord hpassed =>
    obtain ⟨data', hget, hlength, hdeadline⟩ := hpassed
    exact .collection hrecord ⟨data', h.getElem? hget, hlength, hdeadline⟩
  | metadata key data => exact .metadata key data
  | emptyList key hempty => exact .emptyList key hempty

theorem Lost.trans (h : Lost time s s') (h' : Lost time s' s'') : Lost time s s'' :=
  LostBy.trans h h' fun _ _ _ hdead => hdead.of_lost h

theorem LostBy.lost (h : LostBy (OwnPassed time) s s') : Lost time s s' :=
  h.mono fun _ _ _ hown => .own hown

/-- Expiry metadata has no deadline of its own. -/
theorem LostBy.ttl_eq (h : LostBy (OwnPassed time) s s') :
    s'[collectionTTLKey key]? = s[collectionTTLKey key]? := by
  rcases h (collectionTTLKey key) with heq | ⟨-, _, -, ⟨key', hkey' | hkey'⟩, -⟩
  · exact heq
  · exact absurd hkey' (not_owns_collectionTTLKey _ _)
  · exact absurd hkey' (not_owns_collectionTTLKey _ _)

theorem lost_withoutExpiredFields :
    LostBy (OwnPassed time) s (Redis.withoutExpiredFields time s key) := by
  refine .eraseAll fun storageKey hmem data hget => ?_
  obtain ⟨⟨_, data'⟩, hrecord, rfl⟩ := List.mem_map.mp hmem
  obtain ⟨hscan, hexpired⟩ := List.mem_filter.mp hrecord
  obtain ⟨hpre, hget'⟩ := Store.mem_scan.mp hscan
  rw [hget'] at hget
  cases hget
  exact ⟨⟨key, .inr hpre⟩, hexpired⟩

end Lost

/-! ### The form of a key that loses live data -/

/-- The key has expired hash fields and no live one, no live value and no collection
deadline that has passed, but a set member or a list that is not empty. -/
structure Endangered (time : ℤ) (s : Store) (key : Bytes) : Prop where
  ahead : TTLAhead time s key
  value : ∀ data, s[valueKey key]? = some data → envelopeExpired data time = true
  field : Redis.fieldRecords s key ≠ []
  fields : ∀ record ∈ Redis.fieldRecords s key, envelopeExpired record.2 time = true
  rest : HasKind s key .set ∨ ∃ data, s[listKey key]? = some data ∧ decodeList data ≠ .ok []

/-- What is known of the store after a probe: only records of the key have gone, only
such as may be removed, and the key is gone or has lost only records by their own
deadlines. -/
structure Probed (time : ℤ) (key : Bytes) (s s' : Store) : Prop where
  frame : ∀ storageKey, ¬ RecordOf key storageKey → s'[storageKey]? = s[storageKey]?
  lost : Lost time s s'
  left : NoRecordOf key s' ∨ LostBy (OwnPassed time) s s'

section Probed

variable {time : ℤ} {s s' s'' : Store} {key : Bytes}

theorem Probed.refl (key : Bytes) (s : Store) : Probed time key s s :=
  ⟨fun _ _ => rfl, LostBy.refl s, .inr (LostBy.refl s)⟩

theorem Probed.without (h : ∀ storageKey data, RecordOf key storageKey →
    s[storageKey]? = some data → Dead time s storageKey data) : Probed time key s (s.without key) :=
  ⟨fun _ => Store.getElem?_without_of_not_recordOf, .without h,
    .inl (Store.noRecordOf_without s key)⟩

theorem Probed.of_own (hframe : ∀ storageKey, ¬ RecordOf key storageKey →
    s'[storageKey]? = s[storageKey]?) (h : LostBy (OwnPassed time) s s') : Probed time key s s' :=
  ⟨hframe, h.lost, .inr h⟩

theorem Probed.trans (h : Probed time key s s') (h' : Probed time key s' s'') :
    Probed time key s s'' := by
  refine ⟨fun r hr => (h'.frame r hr).trans (h.frame r hr), Lost.trans h.lost h'.lost, ?_⟩
  rcases h'.left with hnone | hown
  · exact .inl hnone
  · rcases h.left with hnone | hown'
    · refine .inl fun r hr => ?_
      rcases hown r with heq | ⟨hgone, -⟩
      · rw [heq, hnone r hr]
      · exact hgone
    · exact .inr (LostBy.trans hown' hown fun _ _ _ h => h)

/-- A probe does not bring its key into the endangered form. -/
theorem Probed.not_endangered (h : Probed time key s s') (hs : ¬ Endangered time s key) :
    ¬ Endangered time s' key := by
  intro hs'
  obtain ⟨⟨storageKey, data⟩, hfield⟩ := List.exists_mem_of_ne_nil _ hs'.field
  obtain ⟨hpre, hget⟩ := Store.mem_scan.mp hfield
  rcases h.left with hnone | hown
  · rw [hnone storageKey (.inr (.inr (.inr (.inl hpre))))] at hget
    cases hget
  · -- The records that went had expired, so the key was in this form before.
    have hexpired : ∀ {storageKey data : Bytes}, s[storageKey]? = some data →
        (∀ data', s'[storageKey]? = some data' → envelopeExpired data' time = true) →
        envelopeExpired data time = true := by
      intro storageKey data hget hlater
      rcases hown storageKey with heq | ⟨-, data', hget', hpassed⟩
      · exact hlater data (heq.trans hget)
      · rw [hget] at hget'
        cases hget'
        exact hpassed.2
    refine hs ⟨fun data hdata => hs'.ahead data (hown.ttl_eq.trans hdata),
      fun data hdata => hexpired hdata hs'.value, ?_, ?_, ?_⟩
    · exact List.ne_nil_of_mem (Store.mem_scan.mpr ⟨hpre, hown.getElem? hget⟩)
    · rintro ⟨storageKey, data⟩ hrecord
      obtain ⟨hpre, hget⟩ := Store.mem_scan.mp hrecord
      exact hexpired hget fun data' hget' =>
        hs'.fields (storageKey, data') (Store.mem_scan.mpr ⟨hpre, hget'⟩)
    · rcases hs'.rest with ⟨storageKey, data, howns, hget⟩ | ⟨data, hget, hne⟩
      · exact .inl ⟨storageKey, data, howns, hown.getElem? hget⟩
      · exact .inr ⟨data, hown.getElem? hget, hne⟩

end Probed

/-! ### The probe -/

/-- The record that made the probe report its type is there and live. -/
def Found (time : ℤ) (s : Store) (key : Bytes) : Redis.RedisType → Prop
  | .string => ∃ data value, s[valueKey key]? = some data ∧
      unmarshalEnvelope data = .ok value ∧ value.expired time = false
  | .hash => ∃ record ∈ Redis.fieldRecords s key, envelopeExpired record.2 time = false
  | .set => s.scan (namespacePrefix kindSet key) ≠ []
  | _ => True

section Probe

variable {time : ℤ} {s s₁ : Store} {key : Bytes}

/-- The value probe: it fails, finds a live value, or leaves the key without a value. -/
theorem probed_probeValue (time : ℤ) (s : Store) (key : Bytes) :
    (∃ err, run (embedded time) (Redis.probeValue key) s = (.error err, s)) ∨
    (run (embedded time) (Redis.probeValue key) s = (.ok true, s) ∧
      Found time s key .string) ∨
    (run (embedded time) (Redis.probeValue key) s =
        (.ok false, s.erase (valueKey key)) ∧
      ∀ data, s[valueKey key]? = some data → envelopeExpired data time = true) := by
  cases hget : s[valueKey key]? with
  | none =>
    refine .inr (.inr ⟨?_, fun _ h => by cases h⟩)
    rw [Redis.run_probeValue_of_none hget, Store.erase_of_none hget]
  | some data =>
    cases hdata : unmarshalEnvelope data with
    | error err => exact .inl ⟨err, Redis.run_probeValue_of_malformed hget hdata⟩
    | ok value =>
      cases hexpired : value.expired time with
      | false =>
        exact .inr (.inl ⟨Redis.run_probeValue_of_live hget hdata hexpired, data, value, hget,
          hdata, hexpired⟩)
      | true =>
        refine .inr (.inr ⟨Redis.run_probeValue_of_expired hget hdata hexpired, ?_⟩)
        rintro _ ⟨⟩
        rw [envelopeExpired, hdata]
        exact hexpired

theorem probed_erase_value
    (h : ∀ data, s[valueKey key]? = some data → envelopeExpired data time = true) :
    Probed time key s (s.erase (valueKey key)) := by
  refine .of_own (fun r hr => Store.getElem?_erase_of_ne _ fun heq => hr (.inl heq.symm)) ?_
  exact .erase fun data hget => ⟨⟨key, .inl rfl⟩, h data hget⟩

theorem probed_withoutExpiredFields :
    Probed time key s (Redis.withoutExpiredFields time s key) := by
  refine .of_own (fun r hr => ?_) lost_withoutExpiredFields
  exact Redis.getElem?_withoutExpiredFields_of_not fun _ hpre =>
    absurd (.inr (.inr (.inr (.inl hpre)))) hr

theorem found_withoutExpiredFields
    (h : ∃ record ∈ Redis.fieldRecords s key, envelopeExpired record.2 time = false) :
    Found time (Redis.withoutExpiredFields time s key) key .hash := by
  obtain ⟨⟨storageKey, data⟩, hmem, hlive⟩ := h
  obtain ⟨hpre, hget⟩ := Store.mem_scan.mp hmem
  refine ⟨(storageKey, data), Store.mem_scan.mpr ⟨hpre, ?_⟩, hlive⟩
  rw [Redis.getElem?_withoutExpiredFields_of_not, hget]
  intro data' _ hget'
  rw [hget] at hget'
  cases hget'
  exact hlive

theorem Store.scan_congr {s s' : Store} {pre : Bytes} (h : ∀ storageKey, pre <+: storageKey →
    s'[storageKey]? = s[storageKey]?) : s'.scan pre = s.scan pre := by
  refine Store.eq_of_pairwise (s'.pairwise_scan pre) (s.pairwise_scan pre) fun record => ?_
  rw [Store.mem_scan, Store.mem_scan]
  exact and_congr_right fun hpre => by rw [h _ hpre]

theorem Store.scan_insert_of_not {s : Store} {pre storageKey data : Bytes} (h : ¬ pre <+: storageKey) :
    Store.scan (s.insert storageKey data) pre = s.scan pre := by
  refine Store.scan_congr fun other hpre => Store.getElem?_insert_of_ne _ _ ?_
  rintro rfl
  exact h hpre

/-- Deleting the value does not touch the fields. -/
theorem fieldRecords_erase_value :
    Redis.fieldRecords (s.erase (valueKey key)) key = Redis.fieldRecords s key := by
  refine Store.scan_congr fun storageKey hpre => Store.getElem?_erase_of_ne _ ?_
  rintro rfl
  exact absurd (belongs_valueKey key .hash hpre).2 (by decide)

/-- Nor the members. -/
theorem members_erase_value : Store.scan (s.erase (valueKey key)) (namespacePrefix kindSet key) =
    s.scan (namespacePrefix kindSet key) := by
  refine Store.scan_congr fun storageKey hpre => Store.getElem?_erase_of_ne _ ?_
  rintro rfl
  exact absurd (belongs_valueKey key .set hpre).2 (by decide)

/-- The whole key may be removed once it has no value, no field that has not expired, no
set member and no list with items. -/
theorem probed_without_of_empty
    (hvalue : ∀ data, s[valueKey key]? = some data → envelopeExpired data time = true)
    (hfields : ∀ record ∈ Redis.fieldRecords s key, envelopeExpired record.2 time = true)
    (hset : ¬ HasKind s key .set)
    (hlist : ∀ data, s[listKey key]? = some data → decodeList data = .ok []) :
    Probed time key s (s.without key) := by
  refine .without fun storageKey data hrecord hget => ?_
  rcases hrecord with rfl | rfl | rfl | hpre | hpre
  · exact .own ⟨⟨key, .inl rfl⟩, hvalue data hget⟩
  · exact .emptyList key (hlist data hget)
  · exact .metadata key data
  · exact .own ⟨⟨key, .inr hpre⟩, hfields (storageKey, data) (Store.mem_scan.mpr ⟨hpre, hget⟩)⟩
  · exact absurd ⟨storageKey, data, hpre, hget⟩ hset

end Probe

end KVLite
