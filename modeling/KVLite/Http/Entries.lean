import KVLite.Expiry.CoreDeadlines
import KVLite.Http.Server

/-!
# The JSON entries of the HTTP owner

The language-neutral routes under `/v1/entries`, which store and return JSON documents as
they are. `json.Valid` and the request size limit are parameters.
-/

namespace KVLite.Http

open Semantics Fallible BigEndian

def unsupportedMediaType : ℕ := 415

/-- `JSONCodec{}.Name()`. -/
def jsonCodecName : Bytes := text "json"

variable {V T : Type} (db : DB V T)

/-- The key of an entry; an empty one is refused. -/
def entryKey (key : Bytes) : Handling Unit :=
  if key = [] then throw ⟨badRequest, text "invalid key"⟩ else return ()

/-- `GET /v1/entries/{key}`: the document and the deadline header. -/
def getEntry (key : Bytes) : Handling (Bytes × Option ℤ) := do
  entryKey key
  match ← ExceptT.lift (ExceptT.run (db.getStoredValue key)) with
  | .error err =>
    if err.is .notFound then throw ⟨notFound, text "not found"⟩
    else throw ⟨internalServerError, text "invalid stored value"⟩
  | .ok value =>
    if value.codec ≠ jsonCodecName then
      throw ⟨unsupportedMediaType, text "stored value is not JSON"⟩
    else
      return (value.payload, if value.expiresAt > 0 then some value.expiresAt else none)

/-- `PUT /v1/entries/{key}?ttl_seconds=...`. -/
def putEntry (maxRequestBytes : ℕ) (validJson : Bytes → Bool) (key payload ttlSeconds : Bytes) :
    Handling Unit := do
  entryKey key
  if maxRequestBytes < payload.length ∨ ¬ validJson payload then
    throw ⟨badRequest, text "request body must be valid JSON and within the size limit"⟩
  else
    match parseTTLQuery ttlSeconds with
    | .error err => throw ⟨badRequest, err.message⟩
    | .ok options =>
      orFail internalServerError (db.putStoredValue key jsonCodecName payload options)

/-- An undecoded value, at any clock reading. -/
theorem run_getStoredValue_of_record {key data : Bytes} {value : Envelope} {time : ℤ} {s : Store}
    (hkey : key ≠ []) (hget : s[valueKey key]? = some data)
    (hvalue : unmarshalEnvelope data = .ok value) :
    (run (embedded time) (db.getStoredValue key) s).1 =
      if value.expired time then .error (.of .notFound) else .ok value := by
  rw [DB.getStoredValue, if_neg hkey, run_bind_ok run_ensureOpen, run_withLock,
    run_bind_ok (run_wrapped_get _ _), hget]
  dsimp only
  rw [hvalue, run_bind_ok (run_liftExcept _), run_bind_ok (run_expiredNow _), ← Envelope.expired]
  split
  · rw [run_bind_ok (run_ignoringError _), run_throw]
  · rfl

/-- What a `PUT` that was accepted has stored. -/
theorem record_of_putEntry {maxRequestBytes : ℕ} {validJson : Bytes → Bool}
    {key payload ttlSeconds : Bytes} {seconds time : ℤ} {s s' : Store}
    (hseconds : Redis.redisParseInt ttlSeconds = .ok seconds ∨ ttlSeconds = [] ∧ seconds = 0)
    (hput : run (embedded time)
      (putEntry db maxRequestBytes validJson key payload ttlSeconds) s = (.ok (), s')) :
    key ≠ [] ∧ 0 ≤ seconds ∧ ∃ data, s'[valueKey key]? = some data ∧ unmarshalEnvelope data =
      .ok ⟨deadlineAt time (seconds * Redis.second), jsonCodecName, payload⟩ := by
  by_cases hkey : key = []
  · rw [putEntry, entryKey, if_pos hkey, run_bind_error (run_throw _)] at hput
    cases hput
  rw [putEntry, entryKey, if_neg hkey, run_bind_ok (run_pure _)] at hput
  split_ifs at hput
  · cases hput
  cases hquery : parseTTLQuery ttlSeconds with
  | error err =>
    rw [hquery] at hput
    cases hput
  | ok options =>
    rw [hquery] at hput
    dsimp only at hput
    obtain ⟨hpos, httl⟩ := ttl_of_parseTTLQuery hseconds hquery
    have hstored : run (embedded time) (db.putStoredValue key jsonCodecName payload options) s =
        (.ok (), s') := by
      rw [orFail, run_mk, Program.run_bind, program_run] at hput
      cases hrun : run (embedded time) (db.putStoredValue key jsonCodecName payload options) s with
      | mk result st =>
        rw [hrun] at hput
        cases result <;> cases hput
        rfl
    obtain ⟨data, hdata, rfl⟩ := run_putStoredValue_eq_ok db httl hstored
    exact ⟨hkey, hpos, data, Std.ExtTreeMap.getElem?_insert_self,
      unmarshalEnvelope_marshalEnvelope (isInt64_deadlineAt time _) hdata⟩

/-- A document that `PUT` has taken is what `GET` returns, with its deadline, at every clock
reading before the deadline; from then on there is none. The deadline has to be a time. -/
theorem entry_reads_back (maxRequestBytes : ℕ) (validJson : Bytes → Bool)
    {key payload ttlSeconds : Bytes} {seconds time later : ℤ} {s s' : Store}
    (hseconds : Redis.redisParseInt ttlSeconds = .ok seconds ∨ ttlSeconds = [] ∧ seconds = 0)
    (htime : 0 ≤ time) (hlater : IsInt64 later) (hdeadline : time + seconds * Redis.second < 2 ^ 63)
    (hput : run (embedded time)
      (putEntry db maxRequestBytes validJson key payload ttlSeconds) s = (.ok (), s')) :
    (run (embedded later) (getEntry db key) s').1 =
      if seconds = 0 then .ok (payload, none)
      else if time + seconds * Redis.second ≤ later then .error ⟨notFound, text "not found"⟩
      else .ok (payload, some (time + seconds * Redis.second)) := by
  obtain ⟨hkey, hpos, data, hget, hvalue⟩ := record_of_putEntry db hseconds hput
  rw [getEntry, entryKey, if_neg hkey, run_bind_ok (run_pure _), run_bind_ok (run_lift _),
    program_run, run_getStoredValue_of_record db hkey hget hvalue]
  by_cases hzero : seconds = 0
  · subst hzero
    rfl
  have hsecond : 0 < seconds * Redis.second := by
    unfold Redis.second
    omega
  -- Neither the deadline nor the clock wraps around in int64.
  rw [if_neg hzero, deadlineAt_of_pos hsecond, wrapInt64_eq ⟨by omega, hdeadline⟩, Envelope.expired,
    wrapInt64_eq hlater]
  by_cases hpassed : time + seconds * Redis.second ≤ later
  · rw [if_pos hpassed, if_pos (by simp only [Bool.and_eq_true, decide_eq_true_eq]; omega)]
    rfl
  · rw [if_neg hpassed, if_neg (by simp only [Bool.and_eq_true, decide_eq_true_eq]; omega)]
    dsimp only
    rw [if_neg (not_not_intro rfl), if_pos (by omega)]
    rfl

/-- A document that is kept for two seconds, one second after it was stored and when the two
have passed. -/
theorem entry_reads_back_true : ∃ s', run (embedded 5) (putEntry (bytesHandle 0) 67108864
      (fun _ => true) (text "k") (text "true") (text "2")) ∅ = (.ok (), s') ∧
    (run (embedded 1000000005) (getEntry (bytesHandle 0) (text "k")) s').1 =
      .ok (text "true", some 2000000005) ∧
    (run (embedded 2000000005) (getEntry (bytesHandle 0) (text "k")) s').1 =
      .error ⟨notFound, text "not found"⟩ := by
  obtain ⟨s', hput⟩ : ∃ s', run (embedded 5) (putEntry (bytesHandle 0) 67108864 (fun _ => true)
      (text "k") (text "true") (text "2")) ∅ = (.ok (), s') := ⟨_, rfl⟩
  have hseconds : Redis.redisParseInt (text "2") = .ok 2 := by decide +kernel
  exact ⟨s', hput,
    entry_reads_back _ _ _ (.inl hseconds) (by decide) (by decide) (by decide) hput,
    entry_reads_back _ _ _ (.inl hseconds) (by decide) (by decide) (by decide) hput⟩

end KVLite.Http
