import KVLite.Expiry.Physical

/-!
# Deadlines of the core

A write with a time to live stores the deadline `now + ttl` in the record, reduced to a
signed 64-bit word. Every entry point bounds the time to live alone. A sum past
`2 ^ 63 - 1` is stored as a negative word, which every reader takes for no deadline: the
value never expires.
-/

namespace KVLite

open Semantics Fallible BigEndian

variable {V T : Type}

/-! ### The time to live of an HTTP request -/

/-- The largest number of whole seconds of a `time.Duration`. -/
def maxSeconds : ℤ := Redis.redisMaxInt64 / Redis.second

/-- The options of the HTTP parameter `ttl_seconds`. -/
def parseTTLQuery (raw : Bytes) : Except GoError PutOptions :=
  if raw = [] then
    .ok []
  else
    match Redis.redisParseInt raw with
    | .error _ => .error (.new (text "ttl_seconds must be a non-negative integer"))
    | .ok seconds =>
      if seconds < 0 then
        .error (.new (text "ttl_seconds must be a non-negative integer"))
      else if seconds = 0 then
        .ok []
      else if seconds > maxSeconds then
        .error (.new (text "ttl_seconds is too large"))
      else
        .ok [some (.ttl (seconds * Redis.second))]

/-- The time to live of one `TTL` option. -/
theorem ttl_singleton {duration : ℤ} (h : 0 < duration) :
    PutOptions.ttl [some (.ttl duration)] = .ok duration := by
  rw [PutOptions.ttl, List.foldlM_cons]
  dsimp only
  rw [if_neg (not_le.mpr h)]
  rfl

/-- The HTTP parameter delivers the time to live that it names, and none if it is absent. -/
theorem ttl_of_parseTTLQuery {raw : Bytes} {options : PutOptions} {seconds : ℤ}
    (hseconds : Redis.redisParseInt raw = .ok seconds ∨ raw = [] ∧ seconds = 0)
    (h : parseTTLQuery raw = .ok options) :
    0 ≤ seconds ∧ options.ttl = .ok (seconds * Redis.second) := by
  unfold parseTTLQuery at h
  rcases hseconds with hparse | ⟨rfl, rfl⟩
  · have hraw : raw ≠ [] := by
      rintro rfl
      cases hparse
    rw [if_neg hraw, hparse] at h
    dsimp only at h
    split_ifs at h with hneg hzero hmax
    · cases h
      subst hzero
      exact ⟨le_rfl, rfl⟩
    · cases h
      refine ⟨not_lt.mp hneg, ttl_singleton ?_⟩
      unfold Redis.second
      omega
  · cases h
    exact ⟨le_rfl, rfl⟩

/-! ### The writes -/

/-- A write of one record that takes a time to live. -/
inductive TimedWrite (V : Type)
  | put (key : Bytes) (value : V)
  | putBytes (key value : Bytes)
  | putStoredValue (key codec value : Bytes)
  | hSet (name field : Bytes) (value : V)

namespace TimedWrite

/-- The code of a write. -/
def code (db : DB V T) (options : PutOptions) : TimedWrite V → Action Unit
  | .put key value => db.put key value options
  | .putBytes key value => db.putBytes key value options
  | .putStoredValue key codec value => db.putStoredValue key codec value options
  | .hSet name field value => db.hSet name field value options

/-- The storage key of the record. -/
def storageKey : TimedWrite V → Bytes
  | .put key _ | .putBytes key _ | .putStoredValue key _ _ => valueKey key
  | .hSet name field _ => hashKey name field

/-- The codec name and the payload of the record. -/
def encoding (db : DB V T) : TimedWrite V → Except GoError (Bytes × Bytes)
  | .put _ value | .hSet _ _ value => (db.codec.marshal value).map fun payload =>
    (db.codec.name, payload)
  | .putBytes _ value => .ok (bytesCodecName, value)
  | .putStoredValue _ codec value => .ok (codec, value)

end TimedWrite

section Write

variable (db : DB V T) {options : PutOptions} {ttl now : ℤ} {s s' : Store}

theorem run_encodePayload {codec payload : Bytes} :
    run (embedded now) (DB.encodePayload codec payload ttl) s =
      (marshalEnvelope codec payload (deadlineAt now ttl), s) := by
  rw [DB.encodePayload, run_bind_ok (run_deadlineAfter _), run_liftExcept]

/-- A value that was encoded: its payload, and the envelope with the deadline. -/
theorem run_encodeValue_eq_ok {value : V} {data : Bytes} (hoptions : options.ttl = .ok ttl)
    (h : run (embedded now) (db.encodeValue value options) s = (.ok data, s')) :
    s' = s ∧ ∃ payload, db.codec.marshal value = .ok payload ∧
      marshalEnvelope db.codec.name payload (deadlineAt now ttl) = .ok data := by
  rw [DB.encodeValue, hoptions, run_bind_ok (run_liftExcept _)] at h
  cases hmarshal : db.codec.marshal value with
  | error err =>
    rw [hmarshal, run_bind_error (run_liftExcept _)] at h
    cases h
  | ok payload =>
    rw [hmarshal, run_bind_ok (run_liftExcept _),
      run_bind_ok (run_deadlineAfter _), run_liftExcept] at h
    obtain ⟨hdata, hs⟩ := Prod.mk.inj h
    exact ⟨hs.symm, payload, rfl, hdata⟩

/-- The engine has no operation of its own for a replacement. -/
theorem run_replaceLogicalValue (key encoded : Bytes) :
    run (embedded now) (replaceLogicalValue key encoded) s =
      (.ok (), (s.without key).insert (valueKey key) encoded) := by
  have hdelete : run (embedded now) (wrapping "kvlite: put" (deleteLogicalKey key)) s =
      (.ok (decide ((recordKeys key s).length > 0)), s.without key) := by
    rw [run_wrapping, run_deleteLogicalKey]
    rfl
  rw [replaceLogicalValue, run_bind_ok (run_caught _)]
  change run (embedded now) (do
    let _ ← wrapping "kvlite: put" (deleteLogicalKey key)
    wrapping "kvlite: put" (Engine.put (valueKey key) encoded)) s = _
  rw [run_bind_ok hdelete, run_wrapping, KVLite.run_put]
  rfl

/-- A `Put` that succeeded has removed what the key had and written the value. -/
theorem run_put_eq_ok {key : Bytes} {value : V} (hoptions : options.ttl = .ok ttl)
    (h : run (embedded now) (db.put key value options) s = (.ok (), s')) :
    key ≠ [] ∧ ∃ payload data, db.codec.marshal value = .ok payload ∧
      marshalEnvelope db.codec.name payload (deadlineAt now ttl) = .ok data ∧
      s' = (s.without key).insert (valueKey key) data := by
  rw [DB.put] at h
  split_ifs at h with hkey
  · cases h
  · rw [run_bind_ok run_ensureOpen, run_withLock] at h
    obtain ⟨data, mid, hencode, hreplace⟩ := exists_of_run_bind_eq_ok h
    obtain ⟨rfl, payload, hmarshal, hdata⟩ := run_encodeValue_eq_ok db hoptions hencode
    rw [run_replaceLogicalValue] at hreplace
    exact ⟨hkey, payload, data, hmarshal, hdata, (Prod.mk.inj hreplace).2.symm⟩

theorem run_putStoredValue_eq_ok {key codec payload : Bytes} (hoptions : options.ttl = .ok ttl)
    (h : run (embedded now) (db.putStoredValue key codec payload options) s = (.ok (), s')) :
    ∃ data, marshalEnvelope codec payload (deadlineAt now ttl) = .ok data ∧
      s' = (s.without key).insert (valueKey key) data := by
  rw [DB.putStoredValue] at h
  split_ifs at h
  · cases h
  · cases h
  · rw [run_bind_ok run_ensureOpen, run_withLock, hoptions,
      run_bind_ok (run_liftExcept _)] at h
    obtain ⟨data, mid, hencode, hreplace⟩ := exists_of_run_bind_eq_ok h
    rw [run_encodePayload] at hencode
    obtain ⟨hdata, rfl⟩ := Prod.mk.inj hencode
    rw [run_replaceLogicalValue] at hreplace
    exact ⟨data, hdata, (Prod.mk.inj hreplace).2.symm⟩

/-- The record of a write that succeeded. -/
theorem TimedWrite.exists_record (write : TimedWrite V) (hoptions : options.ttl = .ok ttl)
    (h : run (embedded now) (write.code db options) s = (.ok (), s')) :
    ∃ codec payload data, write.encoding db = .ok (codec, payload) ∧
      marshalEnvelope codec payload (deadlineAt now ttl) = .ok data ∧
      s'[write.storageKey]? = some data := by
  cases write with
  | put key value =>
    obtain ⟨-, payload, data, hmarshal, hdata, rfl⟩ := run_put_eq_ok db hoptions h
    refine ⟨db.codec.name, payload, data, ?_, hdata, Std.ExtTreeMap.getElem?_insert_self⟩
    rw [encoding, hmarshal]
    rfl
  | putBytes key value =>
    obtain ⟨data, hdata, rfl⟩ := run_putStoredValue_eq_ok db hoptions h
    exact ⟨bytesCodecName, value, data, rfl, hdata, Std.ExtTreeMap.getElem?_insert_self⟩
  | putStoredValue key codec value =>
    obtain ⟨data, hdata, rfl⟩ := run_putStoredValue_eq_ok db hoptions h
    exact ⟨codec, value, data, rfl, hdata, Std.ExtTreeMap.getElem?_insert_self⟩
  | hSet name field value =>
    rw [code, DB.hSet] at h
    split_ifs at h
    · cases h
    · rw [DB.putRecord, run_bind_ok run_ensureOpen] at h
      split_ifs at h
      · cases h
      · obtain ⟨data, mid, hencode, hput⟩ := exists_of_run_bind_eq_ok h
        obtain ⟨-, payload, hmarshal, hdata⟩ := run_encodeValue_eq_ok db hoptions hencode
        rw [run_wrapping, KVLite.run_put] at hput
        cases hput
        refine ⟨db.codec.name, payload, data, ?_, hdata, Std.ExtTreeMap.getElem?_insert_self⟩
        rw [encoding, hmarshal]
        rfl

end Write

/-! ### The readers -/

/-- What the codecs of a handle make of a payload. -/
def DB.decoded (db : DB V T) (codec payload : Bytes) (target : T) : Except GoError V :=
  match db.codecs codec with
  | none => .error (.detail .codecUnavailable codec)
  | some codec => codec.unmarshal target payload

/-- The read of one record, which `Get` and `HGet` make: nothing from its deadline on. -/
theorem DB.run_getRecord_of_decodes (db : DB V T) {key data : Bytes} {value : Envelope}
    {time : ℤ} {s : Store} (target : T) (hget : s[key]? = some data)
    (hvalue : unmarshalEnvelope data = .ok value) :
    (run (embedded time) (db.getRecord key target) s).1 =
      if value.expired time then .error (.of .notFound)
      else db.decoded value.codec value.payload target := by
  have hdecode : run (embedded time) (db.decode data target) s =
      (if value.expired time then .error (.of .notFound)
        else db.decoded value.codec value.payload target, s) := by
    rw [DB.decode, hvalue, run_bind_ok (run_liftExcept _),
      run_bind_ok (run_expiredNow _), ← Envelope.expired]
    cases value.expired time with
    | true => rfl
    | false =>
      simp only [Bool.false_eq_true, if_false, DB.decoded]
      cases db.codecs value.codec <;> rfl
  rw [DB.getRecord, run_bind_ok run_ensureOpen, run_withLock,
    run_bind_ok (run_wrapped_get _ _), hget]
  dsimp only
  rw [run_bind_ok (run_caught _), hdecode]
  dsimp only
  generalize (if value.expired time then .error (.of .notFound)
    else db.decoded value.codec value.payload target : Except GoError V) = result
  -- A record that decodes to a missing key is removed, with the same result.
  cases result with
  | ok found => rfl
  | error err =>
    dsimp only
    split
    · rfl
    · rfl

/-! ### The deadline of a write -/

/-- A write at `now` has left a record with the exact deadline: a reader gets the value
before it and nothing from then on. -/
structure ExactDeadline (db : DB V T) (write : TimedWrite V) (deadline : ℤ) (s : Store) :
    Prop where
  stored : ∃ codec payload data, write.encoding db = .ok (codec, payload) ∧
    s[write.storageKey]? = some data ∧ unmarshalEnvelope data = .ok ⟨deadline, codec, payload⟩
  read : ∀ codec payload, write.encoding db = .ok (codec, payload) → ∀ time target,
    IsInt64 time → (run (embedded time) (db.getRecord write.storageKey target) s).1 =
      if time < deadline then db.decoded codec payload target else .error (.of .notFound)

/-- For every handle, write, options, clock reading and store: a write that succeeds with a
positive time to live has left the exact deadline if and only if the deadline is a 64-bit
integer. -/
theorem core_deadline_exact_iff (db : DB V T) (write : TimedWrite V) (options : PutOptions)
    (ttl now : ℤ) (s s' : Store) (hnow : 0 ≤ now ∧ now < 2 ^ 63)
    (hoptions : options.ttl = .ok ttl) (httl : 0 < ttl ∧ ttl < 2 ^ 63)
    (hwrite : run (embedded now) (write.code db options) s = (.ok (), s')) :
    ExactDeadline db write (now + ttl) s' ↔ now + ttl < 2 ^ 63 := by
  obtain ⟨codec, payload, data, hencoding, hdata, hget⟩ :=
    write.exists_record db hoptions hwrite
  rw [deadlineAt_of_pos httl.1] at hdata
  have hvalue := unmarshalEnvelope_marshalEnvelope (isInt64_wrapInt64 _) hdata
  constructor
  · intro h
    obtain ⟨codec', payload', data', -, hget', hvalue'⟩ := h.stored
    rw [hget, Option.some.injEq] at hget'
    subst hget'
    rw [hvalue, Except.ok.injEq, Envelope.mk.injEq] at hvalue'
    exact hvalue'.1 ▸ (isInt64_wrapInt64 (now + ttl)).2
  · intro hfits
    have hdeadline : wrapInt64 (now + ttl) = now + ttl := wrapInt64_eq ⟨by omega, hfits⟩
    rw [hdeadline] at hvalue
    refine ⟨⟨codec, payload, data, hencoding, hget, hvalue⟩, ?_⟩
    intro codec' payload' hencoding' time target htime
    rw [hencoding, Except.ok.injEq, Prod.mk.injEq] at hencoding'
    obtain ⟨rfl, rfl⟩ := hencoding'
    rw [db.run_getRecord_of_decodes target hget hvalue]
    have hexpired : (⟨now + ttl, codec, payload⟩ : Envelope).expired time = true ↔
        ¬ time < now + ttl := by
      have hpos : now + ttl > 0 := by omega
      rw [Envelope.expired, wrapInt64_eq htime, decide_eq_true hpos, Bool.true_and,
        decide_eq_true_iff, not_lt]
    by_cases hbefore : time < now + ttl
    · rw [if_neg (fun hpassed => hexpired.mp hpassed hbefore), if_pos hbefore]
    · rw [if_pos (hexpired.mpr hbefore), if_neg hbefore]

/-- At one nanosecond, with the longest duration: the deadline is the least 64-bit integer
and the value is there at the end of time. -/
theorem core_deadline_wraps :
    let write : TimedWrite Bytes := .putBytes (text "k") (text "v")
    let s := (run (embedded 1) (write.code (bytesHandle 0) [some (.ttl (2 ^ 63 - 1))]) ∅).2
    (s[valueKey (text "k")]?).map unmarshalEnvelope =
        some (.ok ⟨-2 ^ 63, bytesCodecName, text "v"⟩) ∧
      (run (embedded (2 ^ 63 - 1)) ((bytesHandle 0).get (text "k") ()) s).1 =
        .ok (text "v") ∧
      ¬ ExactDeadline (bytesHandle 0) write (1 + (2 ^ 63 - 1)) s := by
  intro write s
  have hvalue : (s[valueKey (text "k")]?).map unmarshalEnvelope =
      some (.ok ⟨-2 ^ 63, bytesCodecName, text "v"⟩) := rfl
  refine ⟨hvalue, rfl, fun h => ?_⟩
  obtain ⟨codec, payload, data, -, hget, hdecodes⟩ := h.stored
  have hkey : write.storageKey = valueKey (text "k") := rfl
  rw [hkey] at hget
  rw [hget, Option.map_some, hdecodes, Option.some.injEq, Except.ok.injEq,
    Envelope.mk.injEq] at hvalue
  exact absurd hvalue.1 (by decide)

/-- An hour at the epoch. -/
theorem core_deadline_of_hour :
    ExactDeadline (bytesHandle 0) (.putBytes (text "k") (text "v")) (0 + 3600 * Redis.second)
      (run (embedded 0)
        ((TimedWrite.putBytes (text "k") (text "v")).code (bytesHandle 0)
          [some (.ttl (3600 * Redis.second))]) ∅).2 := by
  refine (core_deadline_exact_iff (bytesHandle 0) (.putBytes (text "k") (text "v"))
    [some (.ttl (3600 * Redis.second))] (3600 * Redis.second) 0 ∅ _ ?_ ?_ ?_ ?_).mpr ?_
  · decide
  · rfl
  · decide
  · rfl
  · decide

end KVLite
