import KVLite.Keyspace.Shapes

/-!
# Physical expiry

A storage engine may drop expired records by itself, for instance while it compacts its
files. It is given the record alone, without its kind, and drops what
`envelopeExpired` says has expired. The filter takes no set member, list or expiry
metadata for an envelope, and every reader of the core treats an expired envelope like
an absent one, so a reader cannot tell which expired records have been dropped.
-/

namespace KVLite

open Semantics Fallible BigEndian

variable {V T V' T' : Type}

/-! ### What the filter drops -/

/-- No list has `0x4B564C31` items or more, the number whose four bytes are the magic of
an envelope. The count field drops the multiples of `2 ^ 32`. -/
def ShortLists (s : Store) : Prop :=
  ∀ name items, s[listKey name]? = some (encodeList items) → items.length % 2 ^ 32 < 0x4B564C31

theorem unmarshalEnvelope_of_short {data : Bytes} (h : data.length < 14) :
    ∃ err, unmarshalEnvelope data = .error err := by
  unfold unmarshalEnvelope envelopeHeaderSize
  rw [if_pos (.inl h)]
  exact ⟨_, rfl⟩

/-- The count of a list stands where an envelope has its magic. -/
theorem unmarshalEnvelope_encodeList {items : List Bytes}
    (h : items.length % 2 ^ 32 < 0x4B564C31) :
    ∃ err, unmarshalEnvelope (encodeList items) = .error err := by
  have hmagic : slice (encodeList items) 0 4 ≠ envelopeMagic := by
    intro heq
    have hvalue : ofBigEndian (bigEndian 4 items.length) = ofBigEndian envelopeMagic := by
      rw [← slice_encodeList_count, heq]
    have hnumber : ofBigEndian envelopeMagic = 0x4B564C31 := by decide
    rw [ofBigEndian_bigEndian, hnumber] at hvalue
    omega
  unfold unmarshalEnvelope
  rw [if_pos (.inr hmagic)]
  exact ⟨_, rfl⟩

theorem envelopeExpired_of_error {data : Bytes} {err : GoError} (time : ℤ)
    (h : unmarshalEnvelope data = .error err) : envelopeExpired data time = false := by
  rw [envelopeExpired, h]

/-- What has expired stays expired. -/
theorem envelopeExpired_mono {data : Bytes} {time later : ℤ} (htime : IsInt64 time)
    (hlater : IsInt64 later) (hle : time ≤ later) (h : envelopeExpired data time = true) :
    envelopeExpired data later = true := by
  obtain ⟨value, hvalue, hexpired⟩ := exists_of_envelopeExpired h
  rw [envelopeExpired, hvalue]
  simp only [Envelope.expired, wrapInt64_eq htime, wrapInt64_eq hlater, Bool.and_eq_true,
    decide_eq_true_eq] at hexpired ⊢
  exact ⟨hexpired.1, hle.trans' hexpired.2⟩

/-- The filter drops no set member, no list and no expiry metadata. -/
theorem not_expired_of_shapes {s : Store} (hs : Shapes s) (hlists : ShortLists s)
    {storageKey data : Bytes} {time : ℤ} (hget : s[storageKey]? = some data)
    (hexpired : envelopeExpired data time = true) :
    (∀ name member, storageKey ≠ setKey name member) ∧ (∀ name, storageKey ≠ listKey name) ∧
      ∀ name, storageKey ≠ collectionTTLKey name := by
  have hshaped := hs storageKey data hget
  have herr : ¬ ∃ err, unmarshalEnvelope data = .error err := by
    rintro ⟨err, herr⟩
    rw [envelopeExpired_of_error time herr] at hexpired
    cases hexpired
  refine ⟨fun name member hkey => herr ?_, fun name hkey => herr ?_, fun name hkey => herr ?_⟩
  · rw [hshaped.member name member hkey]
    exact unmarshalEnvelope_of_short (by decide)
  · obtain ⟨items, rfl⟩ := hshaped.list name hkey
    exact unmarshalEnvelope_encodeList (hlists name items (hkey ▸ hget))
  · apply unmarshalEnvelope_of_short
    rw [hshaped.ttl name hkey]
    decide

/-! ### Reads of one record -/

/-- The answer to the call does not depend on the records. -/
def Call.Blind : Call → Prop
  | .get _ | .scanPrefix _ => False
  | _ => True

section Read

variable {α : Type} {time : ℤ}

/-- Code that reads no record returns the same from every store. -/
theorem run_fst_of_blind {p : Program Calls α} (hp : p.Uses Call.Blind) (s s' : Store) :
    (p.run (embedded time) s).1 = (p.run (embedded time) s').1 := by
  induction p generalizing s s' with
  | done value => rfl
  | call request rest ih =>
    cases request with
    | get _ | scanPrefix _ => exact hp.1.elim
    | _ => exact ih _ (hp.2 _) _ _

theorem blind_of_onlyReadsClock {x : Action α} (hx : OnlyReadsClock x) :
    Fallible.Uses Call.Blind x :=
  hx.mono fun _ hcall => hcall ▸ trivial

theorem blind_ignoringError_delete (key : Bytes) :
    Fallible.Uses Call.Blind (ignoringError (Engine.delete key)) :=
  ⟨trivial, fun _ => trivial⟩

/-- The second store has the record of the first under the key, or has lost it after it
expired. -/
def MayHaveDropped (time : ℤ) (s s' : Store) (key : Bytes) : Prop :=
  s'[key]? = s[key]? ∨
    s'[key]? = none ∧ ∃ data, s[key]? = some data ∧ envelopeExpired data time = true

/-- A reader that looks one record up, treats an expired record like an absent one and
reads nothing else cannot tell whether the record has been dropped. -/
theorem run_lookup_dropped {lookup : Action (Option Bytes)} {rest : Option Bytes → Action α}
    {s s' : Store} {key : Bytes}
    (hlookup : ∀ s, run (embedded time) lookup s = (.ok s[key]?, s))
    (hblind : ∀ found, Fallible.Uses Call.Blind (rest found))
    (hexpired : ∀ data, envelopeExpired data time = true →
      (run (embedded time) (rest (some data)) s).1 =
        (run (embedded time) (rest none) s).1)
    (h : MayHaveDropped time s s' key) :
    (run (embedded time) (lookup >>= rest) s').1 =
      (run (embedded time) (lookup >>= rest) s).1 := by
  rw [run_bind_ok (hlookup s'), run_bind_ok (hlookup s)]
  rcases h with hsame | ⟨hnone, data, hsome, hdata⟩
  · rw [hsame]
    exact run_fst_of_blind (hblind _) s' s
  · rw [hnone, hsome, hexpired data hdata]
    exact run_fst_of_blind (hblind _) s' s

theorem run_wrapped_get (key : Bytes) (s : Store) :
    run (embedded time) (wrapping "kvlite: get" (Engine.get key)) s = (.ok s[key]?, s) :=
  run_wrapping _ _

namespace DB

variable (db : DB V T) {s s' : Store} {key data : Bytes}

theorem onlyReadsClock_decode (data : Bytes) (target : T) :
    OnlyReadsClock (db.decode data target) := by
  refine (onlyReadsClock_liftExcept _).bind fun value => ?_
  refine Fallible.Uses.bind (?_ : OnlyReadsClock (expiredNow _)) fun expired => .ite trivial ?_
  · exact Fallible.Uses.ite (onlyReadsClock_now.bind fun _ => trivial) trivial
  · split <;> trivial

theorem run_decode_of_expired (target : T) (h : envelopeExpired data time = true) (s : Store) :
    run (embedded time) (db.decode data target) s = (.error (.of .notFound), s) := by
  obtain ⟨value, hvalue, hexpired⟩ := exists_of_envelopeExpired h
  unfold DB.decode
  rw [hvalue, run_bind_ok (run_liftExcept _), run_bind_ok (run_expiredNow _)]
  rw [← Envelope.expired, hexpired]
  rfl

theorem run_getRecord_dropped (target : T) (h : MayHaveDropped time s s' key) :
    (run (embedded time) (db.getRecord key target) s').1 =
      (run (embedded time) (db.getRecord key target) s).1 := by
  unfold DB.getRecord
  rw [run_bind_ok run_ensureOpen, run_bind_ok run_ensureOpen,
    run_withLock, run_withLock]
  refine run_lookup_dropped (run_wrapped_get key) (fun found => ?_) (fun data hdata => ?_) h
  · cases found with
    | none => trivial
    | some data =>
      refine Fallible.Uses.bind (?_ : Fallible.Uses Call.Blind (caught _)) fun result => ?_
      · exact Program.Uses.bind (blind_of_onlyReadsClock (db.onlyReadsClock_decode data target))
          fun _ => trivial
      · cases result with
        | ok value => trivial
        | error err =>
          exact .ite ((blind_ignoringError_delete key).bind fun _ => trivial)
            trivial
  · dsimp only
    rw [run_bind_ok (run_caught _), db.run_decode_of_expired target hdata]
    rfl

/-- The reader of an undecoded record that `GetStoredValue` and `Has` share: an expired
one is removed. -/
theorem run_undecoded_dropped {lookup : Action (Option Bytes)} (absent : Action α)
    (present : Envelope → α) (habsent : Fallible.Uses Call.Blind absent)
    (hlookup : ∀ s, run (embedded time) lookup s = (.ok s[key]?, s))
    (h : MayHaveDropped time s s' key) :
    let read : Action α := do
      match ← lookup with
      | none => absent
      | some data =>
        let value ← liftExcept (unmarshalEnvelope data)
        if ← expiredNow value.expiresAt then do
          ignoringError (Engine.delete key)
          absent
        else
          return present value
    (run (embedded time) read s').1 = (run (embedded time) read s).1 := by
  refine run_lookup_dropped hlookup (fun found => ?_) (fun data hdata => ?_) h
  · cases found with
    | none => exact habsent
    | some data =>
      refine Fallible.Uses.bind (x := liftExcept _) trivial fun value => ?_
      refine Fallible.Uses.bind (?_ : Fallible.Uses Call.Blind (expiredNow _)) fun expired => ?_
      · exact .ite (Fallible.Uses.bind ⟨trivial, fun _ => trivial⟩ fun _ => trivial) trivial
      · exact .ite ((blind_ignoringError_delete key).bind fun _ => habsent) trivial
  · obtain ⟨value, hvalue, hexpired⟩ := exists_of_envelopeExpired hdata
    dsimp only
    rw [hvalue, run_bind_ok (run_liftExcept _),
      run_bind_ok (run_expiredNow _), ← Envelope.expired, hexpired, if_pos rfl,
      run_bind_ok (run_ignoringError _)]
    exact run_fst_of_blind habsent _ _

theorem run_getStoredValue_dropped (h : MayHaveDropped time s s' (valueKey key)) :
    (run (embedded time) (db.getStoredValue key) s').1 =
      (run (embedded time) (db.getStoredValue key) s).1 := by
  unfold DB.getStoredValue
  split
  · rfl
  · rw [run_bind_ok run_ensureOpen, run_bind_ok run_ensureOpen,
      run_withLock, run_withLock]
    exact run_undecoded_dropped (throw _) id trivial (run_wrapped_get _) h

theorem run_getBytes_dropped (h : MayHaveDropped time s s' (valueKey key)) :
    (run (embedded time) (db.getBytes key) s').1 =
      (run (embedded time) (db.getBytes key) s).1 := by
  unfold DB.getBytes
  rw [bind_pure_comp, run_map, run_map, db.run_getStoredValue_dropped h]

theorem run_get_dropped (target : T) (h : MayHaveDropped time s s' (valueKey key)) :
    (run (embedded time) (db.get key target) s').1 =
      (run (embedded time) (db.get key target) s).1 := by
  unfold DB.get
  split
  · rfl
  · exact db.run_getRecord_dropped target h

theorem run_has_dropped (h : MayHaveDropped time s s' (valueKey key)) :
    (run (embedded time) (db.has key) s').1 =
      (run (embedded time) (db.has key) s).1 := by
  unfold DB.has
  split
  · rfl
  · rw [run_bind_ok run_ensureOpen, run_bind_ok run_ensureOpen,
      run_withLock, run_withLock]
    exact run_undecoded_dropped (pure false) (fun _ => true) trivial (fun _ => run_get) h

/-! ### Reads of collections -/

theorem run_decode_eq_atTime (target : T) (s : Store) :
    run (embedded time) (db.decode data target) s =
      (atTime time (db.decode data target), s) := by
  refine Program.run_eq_of_uses (fun request hrequest state state' => ?_)
    (db.onlyReadsClock_decode data target) s ∅
  subst hrequest
  exact ⟨rfl, rfl, rfl⟩

/-- The fields that `HGetAll` finds in the delivered records at clock reading `time`. -/
def fieldsAt (time : ℤ) (pre : Bytes) (target : T) :
    List (Bytes × Bytes) → Except GoError (List (Bytes × V))
  | [] => .ok []
  | (key, data) :: records =>
    match atTime time (db.decode data target) with
    | .ok value => (fieldsAt time pre target records).map ((key.drop pre.length, value) :: ·)
    | .error err => if err.is .notFound then fieldsAt time pre target records else .error err

theorem run_decodeFields_fst (pre : Bytes) (target : T) (records : List (Bytes × Bytes))
    (s : Store) :
    (run (embedded time) (db.decodeFields pre target records) s).1.map Prod.fst =
      db.fieldsAt time pre target records := by
  induction records with
  | nil => rfl
  | cons record records ih =>
    obtain ⟨key, data⟩ := record
    rw [fieldsAt, ← ih, decodeFields, run_bind_ok (run_caught _), run_decode_eq_atTime]
    cases hrun : run (embedded time) (db.decodeFields pre target records) s with
    | mk result st =>
      cases atTime time (db.decode data target) with
      | ok value => cases result <;> simp [hrun, Except.map]
      | error err =>
        by_cases hnotFound : err.is .notFound
        · cases result <;> simp [hnotFound, hrun, Except.map]
        · simp [hnotFound, Except.map]

/-- Expired records do not show in the fields. -/
theorem fieldsAt_filter (pre : Bytes) (target : T) (keep : Bytes × Bytes → Bool)
    (records : List (Bytes × Bytes)) (hdropped : ∀ record ∈ records, keep record = false →
      envelopeExpired record.2 time = true) :
    db.fieldsAt time pre target (records.filter keep) = db.fieldsAt time pre target records := by
  induction records with
  | nil => rfl
  | cons record records ih =>
    rw [List.forall_mem_cons] at hdropped
    have hrest := ih hdropped.2
    cases hkeep : keep record with
    | true => rw [List.filter_cons_of_pos hkeep, fieldsAt, fieldsAt, hrest]
    | false =>
      have hdecode : atTime time (db.decode record.2 target) = .error (.of .notFound) := by
        rw [atTime, db.run_decode_of_expired target (hdropped.1 hkeep)]
      rw [List.filter_cons_of_neg (by simp [hkeep]), hrest, fieldsAt, hdecode]
      rfl

theorem run_hGetAll_fst (name : Bytes) (target : T) (s : Store) :
    (run (embedded time) (db.hGetAll name (some target)) s).1 =
      db.fieldsAt time (namespacePrefix kindHash name) target
        (s.scan (namespacePrefix kindHash name)) := by
  rw [← db.run_decodeFields_fst _ _ _ s, hGetAll, run_bind_ok run_ensureOpen,
    run_bind_ok run_scanPrefix, run_bind]
  cases run (embedded time) (db.decodeFields (namespacePrefix kindHash name) target
    (s.scan (namespacePrefix kindHash name))) s with
  | mk result st =>
    cases result with
    | error err => rfl
    | ok found =>
      dsimp only
      rw [run_bind_ok (run_deleteEachIgnoringErrors _)]
      rfl

theorem onlyReadsClock_decodeItems (target : T) (items : List Bytes) :
    OnlyReadsClock (db.decodeItems target items) := by
  induction items with
  | nil => trivial
  | cons item items ih =>
    exact (db.onlyReadsClock_decode item target).bind fun _ => ih.bind fun _ => trivial

theorem run_readList_same (h : s'[key]? = s[key]?) :
    ∃ result, run (embedded time) (readList key) s' = (result, s') ∧
      run (embedded time) (readList key) s = (result, s) := by
  unfold readList
  rw [run_bind_ok run_get, run_bind_ok run_get, h]
  cases s[key]? with
  | none => exact ⟨_, rfl, rfl⟩
  | some data => exact ⟨_, rfl, rfl⟩

theorem run_sContains_same (name member : Bytes) (h : s'[setKey name member]? = s[setKey name member]?) :
    (run (embedded time) (sContains name member) s').1 =
      (run (embedded time) (sContains name member) s).1 := by
  unfold DB.sContains
  rw [run_bind_ok run_ensureOpen, run_bind_ok run_ensureOpen,
    run_bind_ok run_get, run_bind_ok run_get, h]
  rfl

theorem run_sMembers_same (name : Bytes)
    (h : s'.scan (namespacePrefix kindSet name) = s.scan (namespacePrefix kindSet name)) :
    (run (embedded time) (sMembers name) s').1 =
      (run (embedded time) (sMembers name) s).1 := by
  unfold DB.sMembers
  rw [run_bind_ok run_ensureOpen, run_bind_ok run_ensureOpen,
    run_bind_ok run_scanPrefix, run_bind_ok run_scanPrefix, h]
  rfl

theorem run_lRange_same (name : Bytes) (start stop : ℤ) (target : Option T)
    (h : s'[listKey name]? = s[listKey name]?) :
    (run (embedded time) (db.lRange name start stop target) s').1 =
      (run (embedded time) (db.lRange name start stop target) s).1 := by
  unfold DB.lRange
  rw [run_bind_ok run_ensureOpen, run_bind_ok run_ensureOpen]
  cases target with
  | none => rfl
  | some target =>
    obtain ⟨result, hread', hread⟩ := run_readList_same h
    cases result with
    | error err => rw [run_bind_error hread', run_bind_error hread]
    | ok items =>
      rw [run_bind_ok hread', run_bind_ok hread]
      apply run_fst_of_blind
      exact Fallible.Uses.ite
        (blind_of_onlyReadsClock (db.onlyReadsClock_decodeItems target _)) trivial

end DB

end Read

/-! ### Every reachable store -/

/-- The reads of a handle. -/
def Request.IsRead : Request V T → Prop
  | .get .. | .getBytes _ | .getStoredValue _ | .has _ | .hGet .. | .hGetAll .. | .sContains ..
  | .sMembers _ | .lRange .. => True
  | _ => False

/-- Each of the keys has a record that has expired at `time`. -/
def AllExpired (time : ℤ) (s : Store) (keys : List Bytes) : Prop :=
  ∀ key ∈ keys, ∃ data, s[key]? = some data ∧ envelopeExpired data time = true

section Dropped

variable {s : Store} {keys : List Bytes} {time : ℤ}

theorem AllExpired.later {later : ℤ} (htime : IsInt64 time) (hlater : IsInt64 later)
    (hle : time ≤ later) (h : AllExpired time s keys) : AllExpired later s keys := by
  intro key hkey
  obtain ⟨data, hget, hexpired⟩ := h key hkey
  exact ⟨data, hget, envelopeExpired_mono htime hlater hle hexpired⟩

theorem AllExpired.mayHaveDropped (h : AllExpired time s keys) (key : Bytes) :
    MayHaveDropped time s (s.eraseAll keys) key := by
  unfold MayHaveDropped
  rw [Store.getElem?_eraseAll]
  by_cases hkey : key ∈ keys
  · rw [if_pos hkey]
    exact .inr ⟨rfl, h key hkey⟩
  · rw [if_neg hkey]
    exact .inl rfl

theorem DB.run_hGetAll_dropped (db : DB V T) (name : Bytes) (target : T)
    (h : AllExpired time s keys) :
    (run (embedded time) (db.hGetAll name (some target)) (s.eraseAll keys)).1 =
      (run (embedded time) (db.hGetAll name (some target)) s).1 := by
  rw [db.run_hGetAll_fst, db.run_hGetAll_fst, Store.scan_eraseAll]
  refine db.fieldsAt_filter _ _ _ _ fun record hmem hdropped => ?_
  obtain ⟨data, hget, hexpired⟩ := h record.1 (by simpa using hdropped)
  rw [(Store.mem_scan.mp hmem).2] at hget
  cases hget
  exact hexpired

/-- No read tells whether expired values and hash fields have been dropped. -/
theorem DB.run_serve_dropped (db : DB V T) {request : Request V T} (hread : request.IsRead)
    (h : AllExpired time s keys) (hset : ∀ key ∈ keys, ∀ name member, key ≠ setKey name member)
    (hlist : ∀ key ∈ keys, ∀ name, key ≠ listKey name) :
    ((db.serve request).run (embedded time) (s.eraseAll keys)).1 =
      ((db.serve request).run (embedded time) s).1 := by
  have hsame : ∀ key, key ∉ keys → (s.eraseAll keys)[key]? = s[key]? := by
    intro key hkey
    rw [Store.getElem?_eraseAll, if_neg hkey]
  cases request with
  | get key target => exact db.run_get_dropped target (h.mayHaveDropped _)
  | getBytes key => exact db.run_getBytes_dropped (h.mayHaveDropped _)
  | getStoredValue key => exact db.run_getStoredValue_dropped (h.mayHaveDropped _)
  | has key => exact db.run_has_dropped (h.mayHaveDropped _)
  | hGet name field target => exact db.run_getRecord_dropped target (h.mayHaveDropped _)
  | hGetAll name target =>
    cases target with
    | none => rfl
    | some target => exact db.run_hGetAll_dropped name target h
  | sContains name member =>
    exact run_sContains_same name member (hsame _ fun hmem => hset _ hmem name member rfl)
  | sMembers name =>
    apply run_sMembers_same
    rw [Store.scan_eraseAll, List.filter_eq_self]
    intro record hmem
    obtain ⟨member, hkey⟩ := namespacePrefix_isPrefix_iff.mp (Store.mem_scan.mp hmem).1
    simpa using fun hdropped => hset _ hdropped name member hkey
  | lRange name start stop target =>
    exact db.run_lRange_same name start stop target (hsame _ fun hmem => hlist _ hmem name rfl)
  | _ => exact hread.elim

end Dropped

/-- In a store that operations of the core and Redis commands have built, and in which no
list has `0x4B564C31` items, the records that have expired at `time` are values and hash
fields, and no read of any handle from then on depends on which of them have been
dropped. -/
theorem physical_expiry_is_transparent (db : DB V T) (go : Redis.GoRuntime) (clock : ℕ → ℤ)
    (steps : List (Step V T)) (tick : ℕ) {s : Store}
    (hs : s = (runSteps db go clock steps (tick, ∅)).2) (hlists : ShortLists s) {time : ℤ}
    (htime : IsInt64 time) {keys : List Bytes} (hkeys : AllExpired time s keys) :
    (∀ key ∈ keys, (∀ name member, key ≠ setKey name member) ∧ (∀ name, key ≠ listKey name) ∧
      ∀ name, key ≠ collectionTTLKey name) ∧
    ∀ (reader : DB V' T') (request : Request V' T'), request.IsRead →
      ∀ later, time ≤ later → IsInt64 later →
        ((reader.serve request).run (embedded later) (s.eraseAll keys)).1 =
          ((reader.serve request).run (embedded later) s).1 := by
  have hshapes : Shapes s := hs ▸ shapes_runSteps shapes_empty
  have hkinds : ∀ key ∈ keys, (∀ name member, key ≠ setKey name member) ∧
      (∀ name, key ≠ listKey name) ∧ ∀ name, key ≠ collectionTTLKey name := by
    intro key hkey
    obtain ⟨data, hget, hexpired⟩ := hkeys key hkey
    exact not_expired_of_shapes hshapes hlists hget hexpired
  refine ⟨hkinds, fun reader request hread later hle hlater => ?_⟩
  exact reader.run_serve_dropped hread (hkeys.later htime hlater hle)
    (fun key hkey => (hkinds key hkey).1) fun key hkey => (hkinds key hkey).2.1

/-- A value whose deadline 5 has passed at reading 7 may be gone at reading 9. -/
theorem dropped_value_reads_absent :
    let s := (runSteps (bytesHandle 0) .upperCase (fun _ => 1)
      [.core (.put (text "k") (text "v") [some (.ttl 4)])] (0, ∅)).2
    AllExpired 7 s [valueKey (text "k")] ∧
      (((bytesHandle 0).serve (.has (text "k"))).run (embedded 9)
          (s.eraseAll [valueKey (text "k")])).1 =
        (((bytesHandle 0).serve (.has (text "k"))).run (embedded 9) s).1 := by
  intro s
  have hexpired : AllExpired 7 s [valueKey (text "k")] := by
    intro key hkey
    cases List.mem_singleton.mp hkey
    exact ⟨_, rfl, by decide⟩
  have hlists : ShortLists s := by
    intro name items hget
    change ((∅ : Store).insert (valueKey (text "k")) _)[listKey name]? = _ at hget
    rw [Store.getElem?_insert_of_ne _ _ (valueKey_ne_listKey _ _)] at hget
    cases hget
  exact ⟨hexpired, (physical_expiry_is_transparent (bytesHandle 0) .upperCase (fun _ => 1) _ 0 rfl
    hlists (by decide) hexpired).2 (bytesHandle 0) (.has (text "k")) trivial 9 (by decide)
    (by decide)⟩

end KVLite
