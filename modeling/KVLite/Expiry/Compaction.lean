import KVLite.Expiry.Physical
import KVLite.TypedMap.Refinement

/-!
# Compaction under a Redis server

The engine of a server may drop expired records at any moment between two commands, each
time some of those that have expired and not necessarily all. A string whose record is
dropped was absent for the server already, and no record of a hash, a set or a list
is dropped, so the replies are those of the typed map without any compaction.
-/

namespace KVLite.TypedMap

open Semantics Redis BigEndian

section Drop

variable {s : Store} {entries : State} {time : ℤ} {keys : List Bytes}

/-- Of the records of an entry only the record of a string expires, with the entry. -/
theorem expired_record {entry : Option Entry} {slot : Slot} {data : Bytes}
    (hstore : StorableEntry entry) (htime : IsInt64 time)
    (hlists : slot = .list → ∀ items, data = encodeList items → items.length % 2 ^ 32 < 0x4B564C31)
    (hrecord : recordsOf entry slot = some data) (hexpired : envelopeExpired data time = true) :
    slot = .value ∧ live time entry = none ∧ ∀ slot' ≠ .value, recordsOf entry slot' = none := by
  have hdecodes : ¬ ∃ err, unmarshalEnvelope data = .error err := by
    rintro ⟨err, herr⟩
    simp [envelopeExpired_of_error time herr] at hexpired
  obtain _ | ⟨value, deadline, hnonempty⟩ := entry
  · cases hrecord
  cases slot with
  | value =>
    cases value with
    | string payload =>
      cases hrecord
      have hint : IsInt64 (deadline.getD 0) := by
        cases deadline with
        | none => decide
        | some d =>
          obtain ⟨hpos, hlt⟩ := (hstore _ rfl).deadline d rfl
          exact ⟨by simp only [Option.getD_some]; omega, hlt⟩
      simp only [envelopeExpired, unmarshalEnvelope_bytesRecord hint, Envelope.expired,
        wrapInt64_eq htime, Bool.and_eq_true, decide_eq_true_eq] at hexpired
      refine ⟨rfl, ?_, fun slot' hslot' => ?_⟩
      · cases deadline with
        | none => exact absurd hexpired.1 (lt_irrefl 0)
        | some d =>
          have hpassed : ¬ time < d := not_lt.mpr hexpired.2
          simp [live, hpassed]
      · cases slot' with
        | value => exact absurd rfl hslot'
        | _ => rfl
    | _ => cases hrecord
  | list =>
    cases value with
    | list items =>
      rw [recordsOf, Value.records_list (by rintro rfl; cases hnonempty)] at hrecord
      cases hrecord
      exact absurd (unmarshalEnvelope_encodeList (hlists rfl _ rfl)) hdecodes
    | _ => cases hrecord
  | ttl =>
    refine absurd (unmarshalEnvelope_of_short ?_) hdecodes
    cases value <;> cases deadline <;> cases hrecord <;>
      exact (length_encodeRedisExpiry _).trans_lt (by decide)
  | field name =>
    cases value with
    | hash fields =>
      obtain ⟨payload, -, rfl⟩ := Option.map_eq_some_iff.mp hrecord
      rw [envelopeExpired, unmarshalEnvelope_bytesRecord (by decide)] at hexpired
      cases hexpired
    | _ => cases hrecord
  | member name =>
    cases value with
    | set members =>
      obtain ⟨-, rfl⟩ : _ ∧ [1] = data := by simpa [recordsOf, Value.records] using hrecord
      exact absurd (unmarshalEnvelope_of_short (by decide)) hdecodes
    | _ => cases hrecord

/-- Dropping expired records is forgetting entries whose deadline has passed. -/
theorem Represents.compact (h : Represents s entries) (hdropped : AllExpired time s keys)
    (hlists : ∀ name, listKey name ∈ keys → ∀ items, s[listKey name]? = some (encodeList items) →
      items.length % 2 ^ 32 < 0x4B564C31) (htime : IsInt64 time) :
    ∃ entries', Represents (s.eraseAll keys) entries' ∧ SameLive time entries' entries := by
  have hrecord : ∀ key, ShortName key → ∀ slot : Slot, slot.storageKey key ∈ keys →
      slot = .value ∧ live time (entries key) = none ∧
        ∀ slot' ≠ .value, recordsOf (entries key) slot' = none := by
    intro key hkey slot hmem
    obtain ⟨data, hget, hexpired⟩ := hdropped _ hmem
    have hlist : slot = .list → ∀ items, data = encodeList items →
        items.length % 2 ^ 32 < 0x4B564C31 := by
      rintro rfl items rfl
      exact hlists key hmem items hget
    exact expired_record (h.storable key) htime hlist (h.records key hkey slot ▸ hget) hexpired
  let dropped := fun key => ShortName key ∧ (Slot.value).storageKey key ∈ keys
  refine ⟨fun key => if dropped key then none else entries key, ⟨fun key hkey slot => ?_, ?_⟩, ?_⟩
  · rw [Store.getElem?_eraseAll, h.records key hkey]
    by_cases hmem : slot.storageKey key ∈ keys
    · obtain ⟨rfl, -, -⟩ := hrecord key hkey slot hmem
      rw [if_pos hmem, if_pos ⟨hkey, hmem⟩]
      rfl
    · rw [if_neg hmem]
      split
      · next hvalue =>
        refine (hrecord key hkey .value hvalue.2).2.2 slot ?_
        rintro rfl
        exact hmem hvalue.2
      · rfl
  · intro key
    split
    · rintro _ ⟨⟩
    · exact h.storable key
  · intro key
    dsimp only
    split
    · next hvalue => rw [(hrecord key hvalue.1 .value hvalue.2).2.1]; rfl
    · rfl

end Drop

/-! ### Runs -/

/-- What happens to the store of a server: a command, or the engine drops the records of
some storage keys at a clock reading. -/
inductive Event
  | command (input : Input)
  | compact (time : ℤ) (keys : List Bytes)

def Event.input? : Event → Option Input
  | .command input => some input
  | .compact .. => none

/-- The server and its engine; a compaction sends no reply. -/
def serveEvent (go : GoRuntime) (password : Bytes) (event : Event) (s : Store) :
    Option (Option Resp) × Store :=
  match event with
  | .command input => (some (serve go password input s).1, (serve go password input s).2)
  | .compact _ keys => (none, s.eraseAll keys)

/-- A compaction drops records that have expired. A list of `0x4B564C31` items looks like an
envelope, and is not among them. -/
def Event.Drops (event : Event) (s : Store) : Prop :=
  match event with
  | .command _ => True
  | .compact time keys => AllExpired time s keys ∧ ∀ name, listKey name ∈ keys → ∀ items,
      s[listKey name]? = some (encodeList items) → items.length % 2 ^ 32 < 0x4B564C31

/-- The event finds the machine in a state where it may come, and not before the last one. -/
def Event.Timely (go : GoRuntime) (password : Bytes) (event : Event) (state : ℤ × State) : Prop :=
  match event with
  | .command input => Admits go password input state ∧ HasRoom go input state
  | .compact time _ => state.1 ≤ time ∧ time < 2 ^ 63

/-- The machine takes no notice of a compaction, but its clock goes on. -/
def stepEvent (go : GoRuntime) (event : Event) (state : ℤ × State) :
    Option (Option Resp) × (ℤ × State) :=
  match event with
  | .command input => (some (step go input state).1, (step go input state).2)
  | .compact time _ => (none, (time, state.2))

section Runs

variable {go : GoRuntime} {password : Bytes}

theorem serveEvent_simulates {event : Event} {s : Store} {state : ℤ × State} (h : Simulates s state)
    (hdrops : event.Drops s) (htimely : event.Timely go password state) :
    (serveEvent go password event s).1 = (stepEvent go event state).1 ∧
      Simulates (serveEvent go password event s).2 (stepEvent go event state).2 := by
  cases event with
  | command input =>
    obtain ⟨hreply, hnext⟩ := serve_simulates h htimely.1 htimely.2
    exact ⟨congrArg some hreply, hnext⟩
  | compact time keys =>
    obtain ⟨hnonneg, entries, hs, hsame⟩ := h
    obtain ⟨hle, hlt⟩ := htimely
    have htime : IsInt64 time := ⟨by omega, hlt⟩
    obtain ⟨entries', hs', hsame'⟩ := hs.compact hdrops.1 hdrops.2 htime
    exact ⟨rfl, hnonneg.trans hle, entries', hs', hsame'.trans (hsame.mono hle)⟩

theorem outputs_serveEvent {events : List Event} {s : Store} {state : ℤ × State}
    (h : Simulates s state)
    (hdrops : Machine.Along (serveEvent go password) Event.Drops events s)
    (htimely : Machine.Along (stepEvent go) (Event.Timely go password) events state) :
    Machine.outputs (serveEvent go password) events s = Machine.outputs (stepEvent go) events state := by
  induction events generalizing s state with
  | nil => rfl
  | cons event events ih =>
    obtain ⟨hreply, hnext⟩ := serveEvent_simulates h hdrops.1 htimely.1
    rw [Machine.outputs, Machine.outputs, hreply, ih hnext hdrops.2 htimely.2]

/-- The replies of the machine do not depend on its clock but on that of the commands. -/
theorem reduceOption_outputs_stepEvent (events : List Event) (entries : State) (time time' : ℤ) :
    (Machine.outputs (stepEvent go) events (time, entries)).reduceOption =
      Machine.outputs (step go) (events.filterMap Event.input?) (time', entries) := by
  induction events generalizing entries time time' with
  | nil => rfl
  | cons event events ih =>
    cases event with
    | compact now keys => exact ih entries now time'
    | command input =>
      have hstep : step go input (time, entries) = step go input (time', entries) := rfl
      rw [List.filterMap_cons_some (show Event.input? (.command input) = some input from rfl),
        Machine.outputs, Machine.outputs, ← hstep]
      exact congrArg _ (ih _ _ _)

end Runs

/-- Between the commands of a run the engine drops expired records as it likes, and every
reply is that of the typed map on the commands alone. -/
theorem compaction_is_invisible (go : GoRuntime) (password : Bytes) (events : List Event)
    (hdrops : Machine.Along (serveEvent go password) Event.Drops events ∅)
    (htimely : Machine.Along (stepEvent go) (Event.Timely go password) events start) :
    (Machine.outputs (serveEvent go password) events ∅).reduceOption =
      Machine.outputs (step go) (events.filterMap Event.input?) start := by
  rw [outputs_serveEvent simulates_start hdrops htimely]
  exact reduceOption_outputs_stepEvent events _ _ _

/-- A string expires and its record is dropped before it is read. -/
def droppedBeforeRead : List Event :=
  [.command ⟨0, ⟨false, 1, 2⟩, [text "SET", text "k", text "v"]⟩,
    .command ⟨0, ⟨false, 1, 2⟩, [text "PEXPIREAT", text "k", text "1"]⟩,
    .compact 1000000 [valueKey (text "k")],
    .command ⟨1000000, ⟨false, 1, 2⟩, [text "GET", text "k"]⟩]

theorem room_withDeadline {args : List Bytes} {operation : Operation} {now : ℤ} {entries : State}
    (h : withDeadline args = .ok operation) : operation.Room now entries := by
  unfold withDeadline at h
  split at h
  · next amount =>
    cases hamount : integerArg amount with
    | error reply => simp [hamount, bind, Except.bind] at h
    | ok value =>
      simp only [hamount, bind, Except.bind] at h
      split at h <;> cases h
      trivial
  · cases h

theorem compaction_is_invisible_to_get :
    (Machine.outputs (serveEvent .upperCase []) droppedBeforeRead ∅).reduceOption =
      [some ok, some (.integer 1), some .null] := by
  have hroom : ∀ {input : Input} {state : ℤ × State} (command : Command),
      commandOf .upperCase input.args = some command →
      (∀ operation, parse input.args command = .ok operation →
        operation.Room input.now state.2) → HasRoom .upperCase input state := by
    intro input state command hcommand hroom command' operation hcommand' hparse
    rw [hcommand] at hcommand'
    cases hcommand'
    exact hroom operation hparse
  refine (compaction_is_invisible .upperCase [] droppedBeforeRead ?_ ?_).trans rfl
  · refine ⟨trivial, trivial, ⟨?_, ?_⟩, trivial, trivial⟩
    · intro key hkey
      obtain rfl := List.mem_singleton.mp hkey
      exact ⟨bytesRecord (text "v") 1000000, by decide, by decide⟩
    · intro name hname
      exact absurd (List.mem_singleton.mp hname) (listKey_ne_valueKey _ _)
  · refine ⟨⟨⟨by decide, .inl rfl, by decide, .set, rfl, rfl⟩, hroom .set rfl ?_⟩,
      ⟨⟨by decide, .inl rfl, by decide, .pexpireat, rfl, rfl⟩, hroom .pexpireat rfl ?_⟩,
      ⟨by decide, by decide⟩,
      ⟨⟨by decide, .inl rfl, by decide, .get, rfl, rfl⟩, hroom .get rfl ?_⟩, trivial⟩
    · rintro _ ⟨⟩
      trivial
    · intro operation hparse
      simp only [parse] at hparse
      exact room_withDeadline hparse
    · rintro _ ⟨⟩
      trivial

end KVLite.TypedMap
