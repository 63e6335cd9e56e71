import KVLite.TypedMap.AnyClock

/-!
# The records of a key at one clock reading

The probe finds the type of a live entry and leaves it alone; it removes an entry whose
deadline has passed. The readers that follow it find the value.
-/

namespace KVLite.TypedMap

open Semantics Fallible BigEndian Redis

/-- A clock reading of a machine whose clock counts nanoseconds in 63 bits. -/
def Clock (now : ℤ) : Prop := 0 ≤ now ∧ now < 2 ^ 63

theorem Clock.wrap {now : ℤ} (h : Clock now) : wrapInt64 now = now :=
  wrapInt64_eq ⟨by have := h.1; omega, h.2⟩

/-! ### The probe -/

section TypeOf

variable {α : Type} {now : ℤ} {s₀ s : Store} {key : Bytes} {value : Value} {deadline : Option ℤ}

theorem isInt64_of_pos {expiresAt : ℤ} (h : 0 < expiresAt ∧ expiresAt < 2 ^ 63) :
    IsInt64 expiresAt := ⟨by omega, h.2⟩

theorem Storable.recordable (h : Storable value deadline) : Recordable value deadline where
  deadline d hd := isInt64_of_pos (h.deadline d hd)
  list items hitems := ⟨h.count items hitems, h.items items hitems⟩

/-- At one clock reading the environment admits what the store does. -/
theorem admitted_embedded (now : ℤ) (request : Call) (post : request.Answer → Store → Prop)
    (s : Store) (h : (embeddedAt (· = now)).admits request post s) :
    post (embedded now request s).1 (embedded now request s).2 := by
  cases request with
  | now => exact h now rfl
  | _ => exact h

theorem Does.of_leads {x : Action α} {records records' : Records} {result : Except GoError α}
    (h : Leads (· = now) s₀ key x records fun result' left => result' = result ∧ left = records') :
    Does now s₀ key x records result records' := by
  intro s hs
  obtain ⟨_, hleft, hresult, rfl⟩ := h.run (admitted_embedded now) hs
  exact ⟨_, Prod.ext hresult rfl, hleft⟩

theorem Ahead.not_mayPass (hclock : Clock now) (h : Ahead now deadline) :
    ¬ MayPass (· = now) value deadline := by
  rintro ⟨d, hd, -, _, rfl, hpassed⟩
  exact absurd (h d hd) (not_lt.mpr (hclock.wrap ▸ hpassed))

/-- A value whose deadline is ahead is found. -/
theorem Reads.does {x : Action α} {found gone : Except GoError α} (hclock : Clock now)
    (hahead : Ahead now deadline) (h : Reads (· = now) s₀ key x value deadline found gone) :
    Does now s₀ key x (value.records deadline) found (value.records deadline) :=
  .of_leads (h.leads (fun _ => ⟨rfl, rfl⟩) fun hpassed => absurd hpassed (hahead.not_mayPass hclock))

/-- A value whose deadline has passed is removed. -/
theorem Reads.does_of_passed {x : Action α} {found gone : Except GoError α} {d : ℤ}
    (hclock : Clock now) (hpos : 0 < d) (hpassed : d ≤ now)
    (h : Reads (· = now) s₀ key x value (some d) found gone) :
    Does now s₀ key x (value.records (some d)) gone noRecords := by
  refine .of_leads (h.leads (fun hlive => ?_) fun _ => ⟨rfl, rfl⟩)
  rcases hlive d rfl with ⟨-, hnonpos⟩ | ⟨_, rfl, hahead⟩
  · exact absurd hpos (not_lt.mpr hnonpos)
  · exact absurd (hclock.wrap ▸ hahead) (not_lt.mpr hpassed)

theorem does_redisType_of_ahead (hclock : Clock now) (hstore : Storable value deadline)
    (hahead : Ahead now deadline) :
    Does now s₀ key (redisType key) (value.records deadline)
      (.ok (if value.isEmpty then .none else value.typ)) (value.records deadline) :=
  (reads_redisType hstore.recordable).does hclock hahead

/-- The record of a list of `2 ^ 32` items does not decode, because its count is zero. -/
theorem run_redisType_of_overflow {items : List Bytes} (hitems : items.length = 2 ^ 32)
    (hs : At s₀ key s ((Value.list items).records none)) :
    run (embedded now) (redisType key) s =
      (.error (.new (text "kvlite: trailing list data")), s) := by
  have hne : items ≠ [] := by
    rw [← List.length_pos_iff, hitems]
    decide
  have hrecord : s[listKey key]? = some (encodeList (items.map (bytesRecord · 0))) :=
    (hs.records .list).trans (Value.records_list hne none)
  have httl : TTLAhead now s key := fun data hget => by
    have hnone := hs.records .ttl
    rw [Slot.storageKey, hget] at hnone
    cases hnone
  exact run_redisType_of_list_error httl (run_probeValue_of_none (hs.records .value))
    (run_probeHash_of_nil now (hs.scan_hash.trans rfl)) (hs.scan_set.trans rfl)
    (run_probeList_of_malformed hrecord
      (decodeList_encodeList_overflow (by rw [List.length_map, hitems])))

end TypeOf

/-! ### Entries -/

/-- A value that the records can keep and that is live. An empty collection stands for
an absent key and has no deadline. -/
structure Fresh (now : ℤ) (value : Value) (deadline : Option ℤ) : Prop where
  storable : Storable value deadline
  ahead : Ahead now deadline
  empty : value.isEmpty = true → deadline = none

theorem Fresh.recordsOf_of {now : ℤ} {value : Value} {deadline : Option ℤ}
    (h : Fresh now value deadline) :
    recordsOf (Entry.of value deadline) = value.records deadline := recordsOf_of_eq h.empty

def StorableEntry (entry : Option Entry) : Prop :=
  ∀ e ∈ entry, Storable e.value e.deadline

theorem live_eq_some_iff {now : ℤ} {entry : Option Entry} {e : Entry} :
    live now entry = some e ↔ entry = some e ∧ Ahead now e.deadline := by
  rw [live, Option.filter_eq_some_iff, Option.all_eq_true]
  simp only [decide_eq_true_eq, Ahead, Option.mem_def]

/-- A key that is absent at a clock reading has no entry or one whose deadline has
passed. -/
theorem passed_of_live_eq_none {now : ℤ} {e : Entry} (h : live now (some e) = none) :
    ∃ d, e.deadline = some d ∧ d ≤ now := by
  have hnot : ¬ Ahead now e.deadline := by
    intro hahead
    rw [live_eq_some_iff.mpr ⟨rfl, hahead⟩] at h
    cases h
  unfold Ahead at hnot
  push Not at hnot
  obtain ⟨d, hd, hle⟩ := hnot
  exact ⟨d, hd, hle⟩

section Entry

variable {α : Type} {now : ℤ} {s₀ : Store} {key : Bytes} {entry : Option Entry}

theorem StorableEntry.live (h : StorableEntry entry) (now : ℤ) :
    StorableEntry (live now entry) := fun e he => h e (live_eq_some_iff.mp he).1

theorem storable_empty : Storable (.list []) none :=
  ⟨by simp, by rintro _ ⟨⟩; decide, by rintro _ ⟨⟩; simp⟩

/-- The probe leaves a live entry alone. -/
theorem does_redisType_of_live (hclock : Clock now) (hstore : StorableEntry entry) :
    Does now s₀ key (redisType key) (recordsOf (live now entry)) (.ok (typeOf (live now entry)))
      (recordsOf (live now entry)) := by
  cases hlive : live now entry with
  | none =>
    rw [recordsOf, ← records_list_empty]
    exact does_redisType_of_ahead hclock storable_empty (by simp [Ahead])
  | some e =>
    obtain ⟨rfl, hahead⟩ := live_eq_some_iff.mp hlive
    have hprobe : Does now s₀ key (redisType key) _ _ _ :=
      does_redisType_of_ahead hclock (hstore e rfl) hahead
    rwa [e.nonempty] at hprobe

theorem does_redisType (hclock : Clock now) (hstore : StorableEntry entry) :
    Does now s₀ key (redisType key) (recordsOf entry) (.ok (typeOf (live now entry)))
      (recordsOf (live now entry)) := by
  cases hlive : live now entry with
  | some e =>
    obtain ⟨rfl, -⟩ := live_eq_some_iff.mp hlive
    have hprobe : Does now s₀ key (redisType key) _ _ _ := does_redisType_of_live hclock hstore
    rwa [hlive] at hprobe
  | none =>
    cases entry with
    | none =>
      have hprobe : Does now s₀ key (redisType key) _ _ _ := does_redisType_of_live hclock hstore
      exact hprobe
    | some e =>
      obtain ⟨d, hd, hpassed⟩ := passed_of_live_eq_none hlive
      have hstorable : Storable e.value (some d) := hd ▸ hstore e rfl
      rw [show recordsOf (some e) = e.value.records (some d) from hd ▸ rfl]
      exact (reads_redisType hstorable.recordable).does_of_passed hclock
        (hstorable.deadline d rfl).1 hpassed

/-- Code that starts with the probe finds the live entry. -/
theorem Does.of_live {f : RedisType → Action α} {result : Except GoError α} {records : Records}
    (hclock : Clock now) (hstore : StorableEntry entry)
    (h : Does now s₀ key (redisType key >>= f) (recordsOf (live now entry)) result records) :
    Does now s₀ key (redisType key >>= f) (recordsOf entry) result records := by
  refine (does_redisType hclock hstore).bind fun s hs => ?_
  obtain ⟨s', hrun, hs'⟩ := h s hs
  obtain ⟨_, hprobe, hleft⟩ := does_redisType_of_live hclock hstore s hs
  rw [run_bind_ok hprobe, hleft.unique hs] at hrun
  exact ⟨s', hrun, hs'⟩

end Entry

end KVLite.TypedMap
