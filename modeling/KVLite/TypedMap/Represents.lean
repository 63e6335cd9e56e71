import KVLite.TypedMap.Hashes
import KVLite.TypedMap.Lists
import KVLite.TypedMap.Sets
import KVLite.TypedMap.Strings

/-!
# Stores that represent a typed map

A store represents a map when the records of every key are those of its entry. What a
command does on the records of one key then changes one entry of the map, and the
commands on several keys are loops over such changes.
-/

namespace KVLite.TypedMap

open Semantics Fallible BigEndian Redis

/-- The records of every key are those of its entry. -/
structure Represents (s : Store) (entries : State) : Prop where
  records : ∀ key, ShortName key → ∀ slot : Slot,
    s[slot.storageKey key]? = recordsOf (entries key) slot
  storable : ∀ key, StorableEntry (entries key)

theorem represents_empty : Represents ∅ fun _ => none :=
  ⟨fun _ _ _ => Std.ExtTreeMap.getElem?_empty, fun _ => nofun⟩

section OneKey

variable {α : Type} {now : ℤ} {s s' : Store} {entries : State} {key : Bytes} {entry : Option Entry}

theorem Represents.at (h : Represents s entries) (hkey : ShortName key) :
    At s key s (recordsOf (entries key)) := ⟨h.records key hkey, fun _ _ => rfl⟩

/-- The records of one key change, and no others. -/
theorem Represents.update (h : Represents s entries) (hkey : ShortName key)
    (hs' : At s key s' (recordsOf entry)) (hstore : StorableEntry entry) :
    Represents s' (Function.update entries key entry) where
  records key' hkey' slot := by
    rw [Function.update_apply]
    split
    · next heq =>
      subst heq
      exact hs'.records slot
    · next hne =>
      rw [hs'.frame, h.records key' hkey' slot]
      exact fun hrecord => hne (eq_of_recordOf hkey' hkey (recordOf_iff.mpr ⟨slot, rfl⟩) hrecord)
  storable key' := by
    rw [Function.update_apply]
    split
    · exact hstore
    · exact h.storable key'

theorem Represents.does {x : Action α} {result : Except GoError α} (h : Represents s entries)
    (hkey : ShortName key)
    (hdoes : Does now s key x (recordsOf (entries key)) result (recordsOf entry))
    (hstore : StorableEntry entry) :
    ∃ s', run (embedded now) x s = (result, s') ∧
      Represents s' (Function.update entries key entry) := by
  obtain ⟨s', hrun, hs'⟩ := hdoes s (h.at hkey)
  exact ⟨s', hrun, h.update hkey hs' hstore⟩

end OneKey

/-! ### Operations that keep an entry within the records -/

theorem storable_string (data : Bytes) {deadline : Option ℤ}
    (hdeadline : ∀ d ∈ deadline, 0 < d ∧ d < 2 ^ 63) : Storable (.string data) deadline :=
  ⟨hdeadline, nofun, nofun⟩

theorem storableEntry_string (data : Bytes) : StorableEntry (some (.string data none)) := by
  rintro _ ⟨⟩
  exact storable_string data nofun

theorem storableEntry_of {value : Value} {deadline : Option ℤ} (h : Storable value deadline) :
    StorableEntry (Entry.of value deadline) := by
  unfold Entry.of
  split
  · rintro _ ⟨⟩
    exact h
  · rintro _ ⟨⟩

section Storable

variable {entry : Option Entry}

/-- An operation on strings that keeps the deadline or clears it. -/
theorem storable_onString {f : Option (Bytes × Option ℤ) → Resp × Option (Bytes × Option ℤ)}
    (h : StorableEntry entry)
    (hf : ∀ old, ∀ new ∈ (f old).2, new.2 = none ∨ ∃ data, old = some (data, new.2)) :
    StorableEntry (onString entry f).2 := by
  have hnew : ∀ old, (∀ data deadline, old = some (data, deadline) →
      ∀ d ∈ deadline, 0 < d ∧ d < 2 ^ 63) → StorableEntry (Entry.ofString (f old).2) := by
    intro old hold e he
    obtain ⟨⟨data, deadline⟩, hsome, rfl⟩ := Option.map_eq_some_iff.mp he
    refine storable_string data ?_
    rcases hf old _ hsome with hnone | ⟨data', heq⟩
    · obtain rfl : deadline = none := hnone
      nofun
    · exact hold data' deadline heq
  cases entry with
  | none => exact hnew none nofun
  | some e =>
    obtain ⟨value, deadline, hnonempty⟩ := e
    cases value with
    | string data =>
      refine hnew (some (data, deadline)) ?_
      rintro _ _ ⟨⟩
      exact (h _ rfl).deadline
    | _ => exact h

theorem storable_onHash {f : Hash → Resp × Hash} (h : StorableEntry entry) :
    StorableEntry (onHash entry f).2 := by
  cases entry with
  | none => exact storableEntry_of ⟨by simp, nofun, nofun⟩
  | some e =>
    obtain ⟨value, deadline, hnonempty⟩ := e
    cases value with
    | hash fields => exact storableEntry_of ⟨(h _ rfl).deadline, nofun, nofun⟩
    | _ => exact h

theorem storable_onSet {f : Members → Resp × Members} (h : StorableEntry entry) :
    StorableEntry (onSet entry f).2 := by
  cases entry with
  | none => exact storableEntry_of ⟨by simp, nofun, nofun⟩
  | some e =>
    obtain ⟨value, deadline, hnonempty⟩ := e
    cases value with
    | set members => exact storableEntry_of ⟨(h _ rfl).deadline, nofun, nofun⟩
    | _ => exact h

theorem storable_onList {f : List Bytes → Resp × List Bytes} (h : StorableEntry entry)
    (hnone : entry = none → FittingList (f []).2)
    (hsome : ∀ e ∈ entry, ∀ items, e.value = .list items → FittingList items →
      FittingList (f items).2) :
    StorableEntry (onList entry f).2 := by
  have hlist : ∀ {items deadline}, (∀ d ∈ deadline, 0 < d ∧ d < 2 ^ 63) → FittingList items →
      StorableEntry (Entry.of (.list items) deadline) := fun hdeadline hitems =>
    storableEntry_of ⟨hdeadline, by rintro _ ⟨⟩; exact hitems.1, by rintro _ ⟨⟩; exact hitems.2⟩
  cases entry with
  | none => exact hlist (by simp) (hnone rfl)
  | some e =>
    obtain ⟨value, deadline, hnonempty⟩ := e
    have hstore := h _ rfl
    cases value with
    | list items =>
      exact hlist hstore.deadline
        (hsome _ rfl items rfl ⟨hstore.count items rfl, hstore.items items rfl⟩)
    | _ => exact h

theorem FittingList.sublist {items items' : List Bytes} (h : FittingList items')
    (hsub : items.Sublist items') : FittingList items :=
  ⟨lt_of_le_of_lt hsub.length_le h.1, fun _ hmem => h.2 _ ((hsub.map _).subset hmem)⟩

/-- The items of a push that a connection delivers are short. -/
theorem shortItems_of_deliverable {values : List Bytes} (h : Deliverable values) :
    ShortItems (values.map (bytesRecord · 0)) := by
  intro item hmem
  obtain ⟨value, hvalue, rfl⟩ := List.mem_map.mp hmem
  have hsize := h.size value hvalue
  rw [length_bytesRecord]
  unfold maxRESPBulk at hsize
  omega

theorem fittingList_pushed {items values : List Bytes} (left : Bool)
    (hitems : ShortItems (items.map (bytesRecord · 0)))
    (hvalues : ShortItems (values.map (bytesRecord · 0)))
    (hcount : items.length + values.length < 2 ^ 32) : FittingList (pushed left items values) := by
  cases left with
  | true =>
    refine ⟨by simp [pushed]; omega, ?_⟩
    rw [pushed, if_pos rfl, List.map_append, shortItems_append, List.map_reverse]
    exact ⟨fun item hmem => hvalues item (List.mem_reverse.mp hmem), hitems⟩
  | false =>
    refine ⟨by simp [pushed]; omega, ?_⟩
    rw [pushed, if_neg Bool.false_ne_true, List.map_append, shortItems_append]
    exact ⟨hitems, hvalues⟩

/-- The operation leaves what the records can keep: a push leaves fewer than `2 ^ 32`
items. -/
def KeyOperation.Fits (entry : Option Entry) : KeyOperation → Prop
  | .push _ _ values => ShortItems (values.map (bytesRecord · 0)) ∧ values.length < 2 ^ 32 ∧
    ∀ e ∈ entry, ∀ items, e.value = .list items → items.length + values.length < 2 ^ 32
  | .expireAt deadline => IsInt64 deadline
  | _ => True

theorem KeyOperation.storable_apply {now : ℤ} (hclock : Clock now) (h : StorableEntry entry)
    {operation : KeyOperation} (hfits : operation.Fits entry) :
    StorableEntry (operation.apply now entry).2 := by
  cases operation with
  | get | strlen =>
    exact storable_onString h fun old new hnew => .inr ⟨new.1, hnew⟩
  | set value => exact storableEntry_string value
  | setnx value =>
    simp only [KeyOperation.apply]
    split
    · exact h
    · exact storableEntry_string value
  | getset value =>
    refine storable_onString h ?_
    rintro old _ ⟨⟩
    exact .inl rfl
  | getdel =>
    refine storable_onString h ?_
    rintro old _ ⟨⟩
  | append suffix =>
    refine storable_onString h ?_
    rintro old _ ⟨⟩
    cases old with
    | none => exact .inl rfl
    | some old => exact .inr ⟨old.1, rfl⟩
  | hset | hget | hdel | hexists | hlen | hgetall => exact storable_onHash h
  | sadd | srem | sismember | scard | smembers => exact storable_onSet h
  | push left onlyIfExists values =>
    obtain ⟨hvalues, hcount, hroom⟩ := hfits
    refine storable_onList h (fun _ => ?_) fun e he items hvalue hitems => ?_
    · split
      · exact ⟨by decide, by simp⟩
      · exact fittingList_pushed left (by simp) hvalues (by simpa using hcount)
    · split
      · exact hitems
      · exact fittingList_pushed left hitems.2 hvalues (hroom e he items hvalue)
  | pop left =>
    refine storable_onList h (fun _ => ?_) fun e he items hvalue hitems => ?_
    · cases left <;> exact ⟨by decide, by simp⟩
    · cases left
      exacts [hitems.sublist items.dropLast_sublist, hitems.sublist items.tail_sublist]
  | llen | lrange =>
    exact storable_onList h (fun _ => ⟨by simp, by simp⟩) fun e he items hvalue hitems => hitems
  | ltrim start stop =>
    refine storable_onList h (fun _ => ?_) fun e he items hvalue hitems => ?_
    · exact ⟨by simp [rangeOf], by simp [rangeOf]⟩
    · exact hitems.sublist ((List.drop_sublist _ _).trans (List.take_sublist _ _))
  | type => exact h
  | expireAt deadline =>
    cases entry with
    | none => rintro _ ⟨⟩
    | some e =>
      simp only [KeyOperation.apply]
      split
      · rintro _ ⟨⟩
      · next hahead =>
        rintro _ ⟨⟩
        refine ⟨?_, (h e rfl).count, (h e rfl).items⟩
        rintro _ ⟨⟩
        exact ⟨by have := hclock.1; omega, hfits.2⟩
  | persist =>
    cases entry with
    | none => rintro _ ⟨⟩
    | some e =>
      obtain ⟨value, deadline, hnonempty⟩ := e
      cases deadline with
      | none => exact h
      | some d =>
        rintro _ ⟨⟩
        exact ⟨by simp, (h _ rfl).count, (h _ rfl).items⟩

end Storable

/-! ### Maps with the same live entries -/

/-- The maps have the same live entries at clock reading `now`. -/
def SameLive (now : ℤ) (entries entries' : State) : Prop :=
  ∀ key, live now (entries key) = live now (entries' key)

theorem live_live {now now' : ℤ} (hle : now ≤ now') (entry : Option Entry) :
    live now' (live now entry) = live now' entry := by
  refine Option.ext fun e => ?_
  rw [live_eq_some_iff, live_eq_some_iff, live_eq_some_iff]
  constructor
  · rintro ⟨⟨rfl, -⟩, hahead⟩
    exact ⟨rfl, hahead⟩
  · rintro ⟨rfl, hahead⟩
    exact ⟨⟨rfl, fun d hd => lt_of_le_of_lt hle (hahead d hd)⟩, hahead⟩

theorem live_self {now : ℤ} (entry : Option Entry) : live now (live now entry) = live now entry :=
  live_live le_rfl entry

namespace SameLive

variable {now : ℤ} {entries entries' entries'' : State}

theorem refl (entries : State) : SameLive now entries entries := fun _ => rfl

theorem eq (h : SameLive now entries entries') (key : Bytes) :
    live now (entries key) = live now (entries' key) := h key

theorem trans (h : SameLive now entries entries') (h' : SameLive now entries' entries'') :
    SameLive now entries entries'' := fun key => (h key).trans (h' key)

theorem mono {now' : ℤ} (hle : now ≤ now') (h : SameLive now entries entries') :
    SameLive now' entries entries' := fun key => by
  rw [← live_live hle (entries key), h key, live_live hle]

theorem update (h : SameLive now entries entries') (key : Bytes) (entry : Option Entry) :
    SameLive now (Function.update entries key entry) (Function.update entries' key entry) := by
  intro key'
  rw [Function.update_apply, Function.update_apply]
  split
  · rfl
  · exact h key'

/-- A probe drops an entry whose deadline has passed. -/
theorem probed (entries : State) (key : Bytes) :
    SameLive now (Function.update entries key (live now (entries key))) entries := by
  intro key'
  rw [Function.update_apply]
  split
  · next heq => rw [heq, live_self]
  · rfl

theorem setAll (h : SameLive now entries entries') (pairs : List (Bytes × Bytes)) :
    SameLive now (setAll entries pairs) (setAll entries' pairs) := by
  induction pairs generalizing entries entries' with
  | nil => exact h
  | cons pair pairs ih => exact ih (h.update pair.1 _)

theorem removeAll (h : SameLive now entries entries') (count : ℕ) (keys : List Bytes) :
    (removeAll now count entries keys).1 = (removeAll now count entries' keys).1 ∧
      SameLive now (removeAll now count entries keys).2 (removeAll now count entries' keys).2 := by
  induction keys generalizing entries entries' count with
  | nil => exact ⟨rfl, h⟩
  | cons key keys ih =>
    rw [TypedMap.removeAll, TypedMap.removeAll, h key]
    exact ih (h.update key none) _

/-- An operation sees and changes live entries only. -/
theorem apply (h : SameLive now entries entries') (operation : Operation) :
    (operation.apply now entries).1 = (operation.apply now entries').1 ∧
      SameLive now (operation.apply now entries).2 (operation.apply now entries').2 := by
  cases operation with
  | onKey key operation =>
    simp only [Operation.apply, h key]
    exact ⟨trivial, h.update key _⟩
  | mset pairs => exact ⟨rfl, h.setAll pairs⟩
  | msetnx pairs =>
    simp only [Operation.apply, h.eq]
    split
    · exact ⟨rfl, h.setAll pairs⟩
    · exact ⟨rfl, h⟩
  | existsKeys keys =>
    simp only [Operation.apply, h.eq]
    exact ⟨trivial, h⟩
  | del keys =>
    obtain ⟨hcount, hsame⟩ := h.removeAll 0 keys
    exact ⟨by simp only [Operation.apply, hcount], hsame⟩

end SameLive

/-! ### The operations of the map -/

/-- The program executes the operation on a store that represents the entries: its reply
is that of the operation up to the count of `DEL`, and the store then represents the
map the operation leaves, up to entries whose deadline has passed. -/
def Executes (now : ℤ) (command : Command) (p : Program Calls Resp) (s : Store) (entries : State)
    (operation : Operation) : Prop :=
  ∃ reply s' entries', p.run (embedded now) s = (reply, s') ∧
    withoutCount (some command) reply =
      withoutCount (some command) (operation.apply now entries).1 ∧
    Represents s' entries' ∧ SameLive now entries' (operation.apply now entries).2

section Executes

variable {now : ℤ} {s : Store} {entries : State} {command : Command}

theorem executes_onKey {key : Bytes} {p : Program Calls Resp} {operation : KeyOperation}
    (hclock : Clock now) (h : Represents s entries) (hkey : ShortName key)
    (hserves : Serves now s key p (operation.apply now) (entries key))
    (hfits : operation.Fits (live now (entries key))) :
    Executes now command p s entries (.onKey key operation) := by
  obtain ⟨s', hrun, hs'⟩ := hserves s (h.at hkey)
  have hstore := KeyOperation.storable_apply hclock ((h.storable key).live now) hfits
  exact ⟨_, s', _, hrun, rfl, h.update hkey hs' hstore, .refl _⟩

theorem run_redisMSetLoop {pairs : List (Bytes × Bytes)} (h : Represents s entries)
    (hshort : ∀ pair ∈ pairs, ShortName pair.1) :
    ∃ s', run (embedded now) (redisMSetLoop pairs) s = (.ok (), s') ∧
      Represents s' (setAll entries pairs) := by
  induction pairs generalizing s entries with
  | nil => exact ⟨s, rfl, h⟩
  | cons pair pairs ih =>
    obtain ⟨s', hwrite, hs'⟩ : ∃ s', run (embedded now) _ s = _ ∧ Represents s' _ :=
      h.does (hshort pair List.mem_cons_self) (does_redisDeleteAndWriteString pair.2)
        (storableEntry_string pair.2)
    obtain ⟨s'', hloop, hs''⟩ := ih hs' fun pair hmem => hshort pair (List.mem_cons_of_mem _ hmem)
    exact ⟨s'', (run_bind_ok hwrite).trans hloop, hs''⟩

/-- The writes of `MSETNX` find every key absent, or written by the command itself. -/
theorem run_redisWriteStrings {pairs : List (Bytes × Bytes)} (h : Represents s entries)
    (hshort : ∀ pair ∈ pairs, ShortName pair.1)
    (hold : ∀ pair ∈ pairs, entries pair.1 = none ∨
      ∃ data deadline, entries pair.1 = some (.string data deadline)) :
    ∃ s', run (embedded now) (redisWriteStrings pairs) s = (.ok (), s') ∧
      Represents s' (setAll entries pairs) := by
  induction pairs generalizing s entries with
  | nil => exact ⟨s, rfl, h⟩
  | cons pair pairs ih =>
    obtain ⟨s', hwrite, hs'⟩ : ∃ s', run (embedded now) _ s = _ ∧ Represents s' _ :=
      h.does (hshort pair List.mem_cons_self)
        (does_redisWriteString_of_string pair.2 (hold pair List.mem_cons_self))
        (storableEntry_string pair.2)
    obtain ⟨s'', hloop, hs''⟩ := ih hs' (fun pair hmem => hshort pair (List.mem_cons_of_mem _ hmem))
      fun pair' hmem => by
        rw [Function.update_apply]
        split
        · exact .inr ⟨pair.2, none, rfl⟩
        · exact hold pair' (List.mem_cons_of_mem _ hmem)
    exact ⟨s'', (run_bind_ok hwrite).trans hloop, hs''⟩

/-- One probe. -/
theorem Represents.run_redisType {key : Bytes} (hclock : Clock now) (h : Represents s entries)
    (hkey : ShortName key) :
    ∃ s', run (embedded now) (redisType key) s = (.ok (typeOf (live now (entries key))), s') ∧
      Represents s' (Function.update entries key (live now (entries key))) :=
  h.does hkey (does_redisType hclock (h.storable key)) ((h.storable key).live now)

theorem typeOf_ne_none_iff {entry : Option Entry} : typeOf entry ≠ .none ↔ entry.isSome = true := by
  cases entry with
  | none => simp [typeOf]
  | some e => simp [typeOf_some_ne_none]

theorem run_redisExistsLoop (hclock : Clock now) {keys : List Bytes} (count : ℕ)
    (h : Represents s entries) (hshort : ∀ key ∈ keys, ShortName key) :
    ∃ s' entries', run (embedded now) (redisExistsLoop count keys) s =
        (.ok (count + keys.countP fun key => (live now (entries key)).isSome), s') ∧
      Represents s' entries' ∧ SameLive now entries' entries := by
  induction keys generalizing s entries count with
  | nil => exact ⟨s, entries, rfl, h, .refl _⟩
  | cons key keys ih =>
    obtain ⟨s₁, hprobe, hs₁⟩ := h.run_redisType hclock (hshort key List.mem_cons_self)
    have hshort' : ∀ key ∈ keys, ShortName key := fun key hmem =>
      hshort key (List.mem_cons_of_mem _ hmem)
    have hsame : SameLive now (Function.update entries key (live now (entries key))) entries :=
      .probed entries key
    rw [redisExistsLoop, run_bind_ok hprobe]
    by_cases hlive : (live now (entries key)).isSome = true
    · obtain ⟨s', entries', hloop, hs', hsame'⟩ := ih (count + 1) hs₁ hshort'
      refine ⟨s', entries', ?_, hs', hsame'.trans hsame⟩
      rw [if_pos (typeOf_ne_none_iff.mpr hlive), hloop, List.countP_cons, if_pos hlive]
      simp only [hsame.eq]
      rw [Nat.add_assoc, Nat.add_comm 1]
    · obtain ⟨s', entries', hloop, hs', hsame'⟩ := ih count hs₁ hshort'
      refine ⟨s', entries', ?_, hs', hsame'.trans hsame⟩
      rw [if_neg (hlive ∘ typeOf_ne_none_iff.mp), hloop, List.countP_cons, if_neg hlive]
      simp only [hsame.eq, Nat.add_zero]

theorem run_redisAllAbsent (hclock : Clock now) {pairs : List (Bytes × Bytes)}
    (h : Represents s entries) (hshort : ∀ pair ∈ pairs, ShortName pair.1) :
    ∃ s' entries', run (embedded now) (redisAllAbsent pairs) s =
        (.ok (pairs.all fun pair => (live now (entries pair.1)).isNone), s') ∧
      Represents s' entries' ∧ SameLive now entries' entries ∧
      ((∀ pair ∈ pairs, live now (entries pair.1) = none) → ∀ pair ∈ pairs, entries' pair.1 = none) ∧
      ∀ key, entries key = none → entries' key = none := by
  induction pairs generalizing s entries with
  | nil => exact ⟨s, entries, rfl, h, .refl _, nofun, fun _ => id⟩
  | cons pair pairs ih =>
    obtain ⟨s₁, hprobe, hs₁⟩ := h.run_redisType hclock (hshort pair List.mem_cons_self)
    have hsame : SameLive now (Function.update entries pair.1 (live now (entries pair.1))) entries :=
      .probed entries pair.1
    rw [redisAllAbsent, run_bind_ok hprobe]
    cases hlive : live now (entries pair.1) with
    | some e =>
      refine ⟨s₁, _, ?_, hs₁, hsame, fun hall => ?_, fun key hkey => ?_⟩
      · rw [if_pos (typeOf_some_ne_none e), List.all_cons, hlive]
        rfl
      · exact absurd (hall pair List.mem_cons_self) (by simp [hlive])
      · rw [Function.update_apply]
        split
        · next heq => rw [← heq, hkey]; rfl
        · exact hkey
    | none =>
      obtain ⟨s', entries', hloop, hs', hsame', habsent, hkept⟩ := ih hs₁ fun pair hmem =>
        hshort pair (List.mem_cons_of_mem _ hmem)
      refine ⟨s', entries', ?_, hs', hsame'.trans hsame, fun hall pair' hmem => ?_, fun key hkey => ?_⟩
      · rw [if_neg (by simp [typeOf]), hloop]
        simp only [hsame.eq]
        rw [List.all_cons, hlive, Option.isNone_none, Bool.true_and]
      · rcases List.mem_cons.mp hmem with rfl | hmem
        · exact hkept _ (by rw [Function.update_self, hlive])
        · exact habsent (fun pair hmem => by
            rw [hsame pair.1]
            exact hall pair (List.mem_cons_of_mem _ hmem)) pair' hmem
      · refine hkept key ?_
        rw [Function.update_apply]
        split
        · exact hlive
        · exact hkey

theorem run_redisDeleteLoop {keys : List Bytes} (count count' : ℕ) (h : Represents s entries)
    (hshort : ∀ key ∈ keys, ShortName key) :
    ∃ total s', run (embedded now) (redisDeleteLoop count keys) s = (.ok total, s') ∧
      Represents s' (removeAll now count' entries keys).2 := by
  induction keys generalizing s entries count count' with
  | nil => exact ⟨count, s, rfl, h⟩
  | cons key keys ih =>
    have hs₁ : Represents (s.without key) (Function.update entries key none) :=
      h.update (hshort key List.mem_cons_self) (h.at (hshort key List.mem_cons_self)).without nofun
    rw [redisDeleteLoop, run_bind_ok run_redisDeleteRaw, removeAll]
    split
    · exact ih _ _ hs₁ fun key hmem => hshort key (List.mem_cons_of_mem _ hmem)
    · exact ih _ _ hs₁ fun key hmem => hshort key (List.mem_cons_of_mem _ hmem)

theorem executes_mset {name : Bytes} {rest : List Bytes} {pair : Bytes × Bytes}
    {pairs : List (Bytes × Bytes)} (h : Represents s entries)
    (hpairs : argPairs rest = some (pair :: pairs))
    (hshort : ∀ pair' ∈ pair :: pairs, ShortName pair'.1) :
    Executes now command (redisMSet (name :: rest)) s entries (.mset (pair :: pairs)) := by
  obtain ⟨s', hloop, hs'⟩ : ∃ s', run (embedded now) _ s = _ ∧ Represents s' _ :=
    run_redisMSetLoop h hshort
  refine ⟨ok, s', _, run_replying ?_, rfl, hs', .refl _⟩
  simp only [List.tail_cons, hpairs]
  exact run_bind_ok hloop

theorem executes_msetnx {name : Bytes} {rest : List Bytes} {pair : Bytes × Bytes}
    {pairs : List (Bytes × Bytes)} (hclock : Clock now) (h : Represents s entries)
    (hpairs : argPairs rest = some (pair :: pairs))
    (hshort : ∀ pair' ∈ pair :: pairs, ShortName pair'.1) :
    Executes now command (redisMSetNX (name :: rest)) s entries (.msetnx (pair :: pairs)) := by
  obtain ⟨s₁, entries₁, hprobes, hs₁, hsame, habsent, -⟩ :=
    run_redisAllAbsent hclock h hshort
  unfold Executes
  simp only [Operation.apply]
  cases hall : (pair :: pairs).all fun pair => (live now (entries pair.1)).isNone with
  | true =>
    have hnone : ∀ pair' ∈ pair :: pairs, live now (entries pair'.1) = none := fun pair' hmem =>
      Option.isNone_iff_eq_none.mp (List.all_eq_true.mp hall pair' hmem)
    obtain ⟨s', hloop, hs'⟩ : ∃ s', run (embedded now) _ s₁ = _ ∧ Represents s' _ :=
      run_redisWriteStrings hs₁ hshort fun pair' hmem => .inl (habsent hnone pair' hmem)
    refine ⟨flag true, s', _, run_replying ?_, rfl, hs', hsame.setAll _⟩
    simp only [List.tail_cons, hpairs]
    rw [run_bind_ok hprobes, hall]
    exact run_bind_ok hloop
  | false =>
    refine ⟨flag false, s₁, _, run_replying ?_, rfl, hs₁, hsame⟩
    simp only [List.tail_cons, hpairs]
    rw [run_bind_ok hprobes, hall]
    rfl

theorem executes_existsKeys {name key : Bytes} {keys : List Bytes} (hclock : Clock now)
    (h : Represents s entries) (hshort : ∀ key' ∈ key :: keys, ShortName key') :
    Executes now command (redisExists (name :: key :: keys)) s entries
      (.existsKeys (key :: keys)) := by
  obtain ⟨s', entries', hloop, hs', hsame⟩ := run_redisExistsLoop hclock 0 h hshort
  rw [Nat.zero_add] at hloop
  exact ⟨_, s', entries', run_replying (run_bind_ok hloop), rfl, hs', hsame⟩

theorem executes_del {name key : Bytes} {keys : List Bytes} (h : Represents s entries)
    (hshort : ∀ key' ∈ key :: keys, ShortName key') :
    Executes now .del (redisDelete (name :: key :: keys)) s entries (.del (key :: keys)) := by
  obtain ⟨total, s', hloop, hs'⟩ : ∃ total s', run (embedded now) _ s = (.ok total, s') ∧
      Represents s' _ := run_redisDeleteLoop 0 0 h hshort
  exact ⟨_, s', _, run_replying (run_bind_ok hloop), rfl, hs', .refl _⟩

end Executes

end KVLite.TypedMap
