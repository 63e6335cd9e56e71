import KVLite.TypedMap.Maintains
import KVLite.TypedMap.Refinement

/-!
# The storage invariant of the Redis commands

What a store that only Redis commands have written looks like: its records have one of
the five layout forms and decode, a key has records of at most one kind, and a deadline
record stands beside a collection. This holds along every run from the empty store,
whatever the clock shows, as long as no push brings a list to `2 ^ 32` items.
-/

namespace KVLite.TypedMap

open Semantics BigEndian Redis

/-! ### The invariant -/

/-- What the record of a slot looks like. -/
def RecordShape : Slot → Bytes → Prop
  | .value, data | .field _, data => ∃ envelope, unmarshalEnvelope data = .ok envelope
  | .list, data => ∃ items, decodeList data = .ok items ∧ items ≠ [] ∧
      ∀ item ∈ items, ∃ envelope, unmarshalEnvelope item = .ok envelope ∧ envelope.expiresAt = 0
  | .ttl, data => data.length = 8
  | .member _, _ => True

/-- The guarantees of a store that only Redis commands have written. -/
structure StorageInvariant (s : Store) : Prop where
  layout : ∀ storageKey, (s[storageKey]?).isSome → ∃ key, ShortName key ∧ RecordOf key storageKey
  value : ∀ key data, s[valueKey key]? = some data → ∃ envelope, unmarshalEnvelope data = .ok envelope
  field : ∀ key name data, s[hashKey key name]? = some data →
    ∃ envelope, unmarshalEnvelope data = .ok envelope
  list : ∀ key data, s[listKey key]? = some data → ∃ items, decodeList data = .ok items ∧
    items ≠ [] ∧ ∀ item ∈ items, ∃ envelope, unmarshalEnvelope item = .ok envelope ∧
      envelope.expiresAt = 0
  ttl : ∀ key data, s[collectionTTLKey key]? = some data → data.length = 8
  oneKind : OneKind s
  deadline : ∀ key, (s[collectionTTLKey key]?).isSome →
    HasKind s key .hash ∨ HasKind s key .set ∨ HasKind s key .list

/-- The form of a storage key shows which slot it is for. -/
theorem recordShape_congr {key key' : Bytes} {slot slot' : Slot}
    (h : slot.storageKey key = slot'.storageKey key') : RecordShape slot = RecordShape slot' := by
  cases slot <;> cases slot' <;> first
    | rfl
    | simp [Slot.storageKey] at h

theorem recordShape_of_recordable {value : Value} {deadline : Option ℤ}
    (h : Recordable value deadline) {slot : Slot} {data : Bytes}
    (hrecord : value.records deadline slot = some data) : RecordShape slot data := by
  cases slot with
  | value =>
    cases value with
    | string payload =>
      cases hrecord
      exact ⟨_, unmarshalEnvelope_bytesRecord h.isInt64⟩
    | _ => cases hrecord
  | list =>
    cases value with
    | list items =>
      cases items with
      | nil => cases hrecord
      | cons item items =>
        cases hrecord
        refine ⟨_, decodeList_itemRecords (h.list _ rfl), by simp, fun record hmem => ?_⟩
        obtain ⟨payload, -, rfl⟩ := List.mem_map.mp hmem
        exact ⟨_, unmarshalEnvelope_bytesRecord (by decide), rfl⟩
    | _ => cases hrecord
  | ttl =>
    rw [Value.records_ttl] at hrecord
    obtain ⟨d, -, rfl⟩ := Option.map_eq_some_iff.mp hrecord
    exact length_encodeRedisExpiry d
  | field name =>
    cases value with
    | hash fields =>
      obtain ⟨payload, -, rfl⟩ := Option.map_eq_some_iff.mp hrecord
      exact ⟨_, unmarshalEnvelope_bytesRecord (by decide)⟩
    | _ => cases hrecord
  | member name => trivial

section Typed

variable {s : Store} {key : Bytes}

theorem TypedStore.recordShape (h : TypedStore s) (slot : Slot) {data : Bytes}
    (hrecord : s[slot.storageKey key]? = some data) : RecordShape slot data := by
  obtain ⟨key', hkey', hrecordOf⟩ := h.layout _ (by rw [hrecord]; rfl)
  obtain ⟨slot', heq⟩ := recordOf_iff.mp hrecordOf
  obtain ⟨entry, hentry, hs⟩ := h.entry key' hkey'
  have hdata := hs.records slot'
  rw [heq, hrecord] at hdata
  rw [recordShape_congr heq.symm]
  cases entry with
  | none => cases hdata
  | some e => exact recordShape_of_recordable (hentry e rfl) hdata.symm

/-- A hash, set or list that is not empty has a record. -/
theorem At.hasKind_of_collection {s₀ : Store} {value : Value} {deadline : Option ℤ}
    (hs : At s₀ key s (value.records deadline)) (hnonempty : value.isEmpty = false)
    (htyp : value.typ ≠ .string) :
    HasKind s key .hash ∨ HasKind s key .set ∨ HasKind s key .list := by
  have hget : ∀ slot data, value.records deadline slot = some data →
      s[slot.storageKey key]? = some data := fun slot data hrecord => (hs.records slot).trans hrecord
  cases value with
  | string data => exact absurd rfl htyp
  | hash fields =>
    obtain ⟨name, hmem⟩ : ∃ name, name ∈ fields := by
      by_contra hnot
      rw [not_exists, ← Std.ExtTreeMap.eq_empty_iff_forall_not_mem] at hnot
      subst hnot
      cases hnonempty
    obtain ⟨data, hdata⟩ := Option.isSome_iff_exists.mp (Std.ExtTreeMap.mem_iff_isSome_getElem?.mp hmem)
    refine .inl ⟨hashKey key name, _, ⟨name, rfl⟩, hget (.field name) (bytesRecord data 0) ?_⟩
    rw [Value.records, hdata]
    rfl
  | set members =>
    obtain ⟨name, hmem⟩ : ∃ name, name ∈ members := by
      by_contra hnot
      rw [not_exists, ← Std.ExtTreeSet.eq_empty_iff_forall_not_mem] at hnot
      subst hnot
      cases hnonempty
    refine .inr (.inl ⟨setKey key name, _, ⟨name, rfl⟩, hget (.member name) [1] ?_⟩)
    rw [Value.records, if_pos (Std.ExtTreeSet.mem_iff_contains.mp hmem)]
  | list items =>
    cases items with
    | nil => cases hnonempty
    | cons item items => exact .inr (.inr ⟨listKey key, _, rfl, hget .list _ rfl⟩)

/-- A deadline record stands beside a collection. -/
theorem TypedStore.hasKind_of_ttl (h : TypedStore s) (httl : (s[collectionTTLKey key]?).isSome) :
    HasKind s key .hash ∨ HasKind s key .set ∨ HasKind s key .list := by
  obtain ⟨key', hkey', hrecordOf⟩ := h.layout _ httl
  obtain ⟨slot, heq⟩ := recordOf_iff.mp hrecordOf
  obtain ⟨rfl, rfl⟩ : key' = key ∧ slot = .ttl := by
    cases slot <;> simp_all [Slot.storageKey]
  obtain ⟨entry, hentry, hs⟩ := h.entry key' hkey'
  have hrecord := hs.records .ttl
  rw [Slot.storageKey] at hrecord
  rw [hrecord] at httl
  cases entry with
  | none => cases httl
  | some e => exact hs.hasKind_of_collection e.nonempty (fun htyp => by
      obtain ⟨value, deadline, hnonempty⟩ := e
      cases value with
      | string data => cases httl
      | _ => cases htyp)

theorem TypedStore.storageInvariant (h : TypedStore s) (hkinds : OneKind s) :
    StorageInvariant s where
  layout := h.layout
  value _ _ hrecord := h.recordShape .value hrecord
  field _ name _ hrecord := h.recordShape (.field name) hrecord
  list _ _ hrecord := h.recordShape .list hrecord
  ttl _ _ hrecord := h.recordShape .ttl hrecord
  oneKind := hkinds
  deadline _ httl := h.hasKind_of_ttl httl

end Typed

/-! ### Runs -/

/-- A request of a connection. -/
structure Received where
  session : Session
  args : List Bytes

/-- One request; the state is the number of the next clock reading and the store. -/
def receive (go : GoRuntime) (password : Bytes) (clock : ℕ → ℤ) (received : Received)
    (st : ℕ × Store) : Dispatched × (ℕ × Store) :=
  (redisDispatch go password received.session received.args).run (ticking clock) st

/-- The request is one that the reader of a connection delivers, and it is not a push that
brings a list to `2 ^ 32` items. -/
structure Fitting (go : GoRuntime) (password : Bytes) (clock : ℕ → ℤ) (received : Received)
    (st : ℕ × Store) : Prop where
  deliverable : Deliverable received.args
  room : password = [] ∨ received.session.authed = true →
    ∀ command, commandOf go received.args = some command →
      LeavesRoom (fun time => ∃ n ≥ st.1, time = clock n) st.2 received.args command

section Runs

variable {go : GoRuntime} {password : Bytes} {clock : ℕ → ℤ}

theorem typed_receive {received : Received} {st : ℕ × Store} (h : TypedStore st.2 ∧ OneKind st.2)
    (hfitting : Fitting go password clock received st) :
    TypedStore (receive go password clock received st).2.2 ∧
      OneKind (receive go password clock received st).2.2 :=
  ⟨run_ticking_of_wp _ (fun n hn => ⟨n, hn, rfl⟩)
      (wp_redisDispatch go password received.session hfitting.deliverable h.1 hfitting.room),
    run_ticking_of_wp (fun _ => True) (fun _ _ => trivial)
      (preservesReply_redisDispatch go password received.session hfitting.deliverable _ h.2)⟩

/-- Every store that a run of fitting commands reaches is typed. -/
theorem typed_reached {inputs : List Received} {tick : ℕ}
    (halong : Machine.Along (receive go password clock) (Fitting go password clock) inputs
      (tick, ∅)) {reached : List Received} (hreached : reached <+: inputs) :
    TypedStore (Machine.after (receive go password clock) reached (tick, ∅)).2 ∧
      OneKind (Machine.after (receive go password clock) reached (tick, ∅)).2 := by
  obtain ⟨rest, rfl⟩ := hreached
  rw [Machine.along_append] at halong
  have hstep : ∀ (received : Received) (st : ℕ × Store), TypedStore st.2 ∧ OneKind st.2 →
      Fitting go password clock received st → _ := fun _ _ => typed_receive
  exact Machine.after_of_along hstep ⟨typedStore_empty, oneKind_empty⟩ halong.1

/-- Every store that a run of Redis commands from the empty store reaches meets the storage
invariant, if every command finds room for what it pushes. -/
theorem storage_invariant {inputs : List Received} {tick : ℕ}
    (halong : Machine.Along (receive go password clock) (Fitting go password clock) inputs
      (tick, ∅)) {reached : List Received} (hreached : reached <+: inputs) :
    StorageInvariant (Machine.after (receive go password clock) reached (tick, ∅)).2 := by
  obtain ⟨htyped, hkinds⟩ := typed_reached halong hreached
  exact htyped.storageInvariant hkinds

end Runs

/-! ### A list of `2 ^ 32` items -/

section Overflow

def pushRequest : Received := ⟨⟨false, 1, 2⟩, [text "RPUSH", [], []]⟩

/-- Under a clock that stands still the pushes are those of the server's runs. -/
theorem after_pushRequest (count tick : ℕ) (s : Store) :
    (Machine.after (receive .upperCase [] fun _ => 0) (List.replicate count pushRequest)
        (tick, s)).2 =
      Machine.after (serve .upperCase []) (List.replicate count pushInput) s := by
  induction count generalizing tick s with
  | zero => rfl
  | succ count ih =>
    have hstep := (run_ticking_const 0 (redisDispatch .upperCase [] pushRequest.session
      pushRequest.args) tick s).2
    rw [List.replicate_succ, List.replicate_succ, Machine.after, Machine.after]
    refine (ih _ _).trans (congrArg _ hstep)

/-- The records after `count + 1` pushes. -/
theorem at_of_pushes {count : ℕ} (hcount : count + 1 = 2 ^ 32) :
    ∃ s₀, At s₀ [] (Machine.after (receive .upperCase [] fun _ => 0)
      (List.replicate (count + 1) pushRequest) (0, ∅)).2
        ((Value.list (List.replicate (count + 1) [])).records none) := by
  obtain ⟨halong, hafter⟩ := along_pushInput 0 count (by omega)
  rw [filled_zero] at halong hafter
  have hsimulates := (run_simulates simulates_start halong).2
  rw [hafter, Nat.zero_add] at hsimulates
  rw [after_pushRequest, List.replicate_succ', Machine.after_append]
  exact ⟨_, at_of_push_overflow hsimulates⟩

theorem not_storageInvariant_of_pushes {count : ℕ} (hcount : count + 1 = 2 ^ 32) :
    ¬ StorageInvariant (Machine.after (receive .upperCase [] fun _ => 0)
      (List.replicate (count + 1) pushRequest) (0, ∅)).2 := by
  intro hinvariant
  obtain ⟨s₀, hs⟩ := at_of_pushes hcount
  have hne : List.replicate (count + 1) ([] : Bytes) ≠ [] := by simp
  obtain ⟨items, hdecodes, -⟩ := hinvariant.list [] _
    ((hs.records .list).trans (Value.records_list hne none))
  rw [decodeList_encodeList_overflow (by rw [List.length_map, List.length_replicate, hcount])]
    at hdecodes
  cases hdecodes

theorem deliverable_of_mem_pushes {count : ℕ} {received : Received}
    (h : received ∈ List.replicate count pushRequest) : Deliverable received.args := by
  rw [List.eq_of_mem_replicate h]
  exact (by decide : Deliverable pushRequest.args)

/-- A run that fills a list with `2 ^ 32` items, all of them deliverable: its record does
not decode. -/
theorem push_overflow_breaks_invariant :
    ∃ inputs : List Received, (∀ received ∈ inputs, Deliverable received.args) ∧
      ¬ StorageInvariant
        (Machine.after (receive .upperCase [] fun _ => 0) inputs (0, ∅)).2 :=
  ⟨List.replicate (2 ^ 32 - 1 + 1) pushRequest, fun _ => deliverable_of_mem_pushes,
    not_storageInvariant_of_pushes rfl⟩

theorem fitting_pushRequest : Fitting .upperCase [] (fun _ => 0) pushRequest (0, ∅) where
  deliverable := by decide
  room _ command _ _ data items hrecord := by cases hrecord

/-- One push to a new list. -/
theorem storage_invariant_of_one_push :
    Machine.Along (receive .upperCase [] fun _ => 0) (Fitting .upperCase [] fun _ => 0)
        [pushRequest] (0, ∅) ∧
      StorageInvariant
        (Machine.after (receive .upperCase [] fun _ => 0) [pushRequest] (0, ∅)).2 := by
  have halong : Machine.Along (receive .upperCase [] fun _ => 0) (Fitting .upperCase [] fun _ => 0)
      [pushRequest] (0, ∅) := ⟨fitting_pushRequest, trivial⟩
  exact ⟨halong, storage_invariant halong List.prefix_rfl⟩

end Overflow

end KVLite.TypedMap
