import KVLite.TypedMap.Existence

/-!
# Updates that keep or set a deadline

A Redis command that writes a string with an absolute deadline turns the deadline into a
duration with one clock reading and back into a deadline with the next one. The deadline
it stores is the one it aims at only if the clock stands still between the two readings.

## Main definitions

* `HeldString` — a key holds a string with a deadline
* `Update`, `Aims` — the commands, the deadline each aims at, and the number of the
  reading from which it computes the duration

## Main results

* `writtenDeadline_eq_iff` — when the stored deadline is the one aimed at
* `Update.rewrites` — what an update stores
* `updates_keep_deadline` — single updates and runs of them
-/

namespace KVLite.Expiry

open Semantics Fallible BigEndian Redis TypedMap

/-! ### Code under a running clock -/

section Ticking

variable {α : Type} {clock : ℕ → ℤ} {tick : ℕ} {s : Store} {key value : Bytes}

/-- The readings are numbered upwards. -/
theorem tick_le_run (clock : ℕ → ℤ) (p : Program Calls α) (tick : ℕ) (s : Store) :
    tick ≤ (p.run (ticking clock) (tick, s)).2.1 := by
  induction p generalizing tick s with
  | done value => exact le_rfl
  | call request rest ih =>
    cases request with
    | now => exact (Nat.le_succ tick).trans (ih _ _ _)
    | _ => exact ih _ _ _

theorem run_get_ticking :
    run (ticking clock) (Transport.get key) (tick, s) = (.ok s[key]?, (tick, s)) := rfl

theorem run_put_ticking :
    run (ticking clock) (Transport.put key value) (tick, s) =
      (.ok (), (tick, s.insert key value)) := rfl

theorem run_delete_ticking :
    run (ticking clock) (Transport.delete key) (tick, s) = (.ok (), (tick, s.erase key)) := rfl

theorem run_now_ticking :
    run (ticking clock) now (tick, s) = (.ok (clock tick), (tick + 1, s)) := rfl

theorem run_unixNano_ticking :
    run (ticking clock) unixNano (tick, s) =
      (.ok (wrapInt64 (clock tick)), (tick + 1, s)) := rfl

theorem run_liftExcept_of_eq {x y : Except GoError α} (h : x = y) :
    run (ticking clock) (liftExcept x) (tick, s) = (y, (tick, s)) := by
  rw [h, run_liftExcept]

theorem run_redisDeleteRaw_ticking :
    run (ticking clock) (redisDeleteRaw key) (tick, s) =
      (.ok ((recordKeys key s).length > 0), (tick, s.without key)) :=
  run_deleteLogicalKey_ticking clock key tick s

/-- A deadline that lies ahead has not passed. -/
theorem run_expiredNow_ticking {expiresAt : ℤ} (hpos : 0 < expiresAt) (hint : IsInt64 (clock tick))
    (hahead : clock tick < expiresAt) :
    run (ticking clock) (expiredNow expiresAt) (tick, s) = (.ok false, (tick + 1, s)) := by
  have hnot : ¬ wrapInt64 (clock tick) ≥ expiresAt := by
    rw [wrapInt64_eq hint]
    omega
  rw [expiredNow, if_pos hpos, run_bind_ok run_now_ticking, run_pure,
    decide_eq_false hnot]

end Ticking

/-! ### A string with a deadline -/

/-- The key holds a string with a deadline. A deadline record beside it has the size that
the server writes. -/
structure HeldString (s : Store) (key : Bytes) (value : StoredValue) : Prop where
  record : ∃ data, s[valueKey key]? = some data ∧ unmarshalEnvelope data = .ok value
  positive : 0 < value.expiresAt
  metadata : ∀ data ∈ s[collectionTTLKey key]?, data.length = 8

/-- A clock reading before the deadline of the string and before that of a deadline
record beside it. -/
structure Before (s : Store) (key : Bytes) (value : StoredValue) (time : ℤ) : Prop where
  fits : IsInt64 time
  deadline : time < value.expiresAt
  metadata : ∀ data ∈ s[collectionTTLKey key]?, time < toInt64 (ofBigEndian data)

/-- The number of clock readings of a probe that finds a string with a deadline. -/
def probeReadings (s : Store) (key : Bytes) : ℕ := if (s[collectionTTLKey key]?).isSome then 2 else 1

section Probe

variable {clock : ℕ → ℤ} {tick : ℕ} {s : Store} {key : Bytes} {value : StoredValue}

variable (h : HeldString s key value) (hbefore : ∀ n ≥ tick, Before s key value (clock n))

include h hbefore

theorem run_redisKeyExpired_ticking :
    run (ticking clock) (redisKeyExpired key) (tick, s) =
      (.ok false, (tick + (probeReadings s key - 1), s)) := by
  have htick := hbefore tick le_rfl
  rw [redisKeyExpired, redisMetadataExpiry, bind_assoc, run_bind_ok run_get_ticking]
  cases hdata : s[collectionTTLKey key]? with
  | none =>
    rw [probeReadings, hdata]
    rfl
  | some data =>
    have hlength : ¬ data.length ≠ 8 := not_not_intro (h.metadata data hdata)
    have hahead : wrapInt64 (clock tick) < toInt64 (ofBigEndian data) := by
      rw [wrapInt64_eq htick.fits]
      exact htick.metadata data hdata
    simp only [if_neg hlength, pure_bind]
    rw [run_bind_ok run_unixNano_ticking, if_pos hahead, probeReadings, hdata]
    rfl

omit hbefore in
theorem HeldString.run_unmarshal (data : Bytes) (hdata : s[valueKey key]? = some data) :
    run (ticking clock) (liftExcept (unmarshalEnvelope data)) (tick, s) =
      (.ok value, (tick, s)) := by
  obtain ⟨data', hdata', hvalue⟩ := h.record
  obtain rfl : data = data' := Option.some.inj (hdata.symm.trans hdata')
  rw [hvalue, run_liftExcept]

theorem run_redisType_ticking :
    run (ticking clock) (redisType key) (tick, s) =
      (.ok .string, (tick + probeReadings s key, s)) := by
  obtain ⟨data, hdata, -⟩ := h.record
  obtain ⟨readings, hreadings⟩ : ∃ readings, probeReadings s key = readings + 1 := by
    unfold probeReadings
    split
    exacts [⟨1, rfl⟩, ⟨0, rfl⟩]
  have hlater := hbefore (tick + readings) (by omega)
  have hprobe : run (ticking clock) (probeValue key) (tick + readings, s) =
      (.ok true, (tick + readings + 1, s)) := by
    rw [probeValue, run_bind_ok run_get_ticking, hdata]
    refine (run_bind_ok (h.run_unmarshal data hdata)).trans ?_
    exact run_bind_ok (run_expiredNow_ticking h.positive hlater.fits hlater.deadline)
  have hexpired := run_redisKeyExpired_ticking h hbefore
  rw [hreadings, Nat.add_sub_cancel] at hexpired
  rw [redisType, run_bind_ok hexpired, hreadings]
  exact run_bind_ok hprobe

theorem run_redisString_ticking :
    run (ticking clock) (redisString key) (tick, s) =
      (.ok (some value.payload), (tick + (probeReadings s key + 1), s)) := by
  obtain ⟨data, hdata, -⟩ := h.record
  have hlater := hbefore (tick + probeReadings s key) (by omega)
  rw [redisString, run_bind_ok (run_redisType_ticking h hbefore)]
  refine (run_bind_ok run_get_ticking).trans ?_
  rw [hdata]
  refine (run_bind_ok (h.run_unmarshal data hdata)).trans ?_
  exact run_bind_ok (run_expiredNow_ticking h.positive hlater.fits hlater.deadline)

theorem run_redisExpiry_ticking :
    run (ticking clock) (redisExpiry key) (tick, s) =
      (.ok (some value.expiresAt), (tick + probeReadings s key, s)) := by
  obtain ⟨data, hdata, -⟩ := h.record
  rw [redisExpiry, run_bind_ok (run_redisType_ticking h hbefore)]
  refine (run_bind_ok run_get_ticking).trans ?_
  rw [hdata]
  refine (run_bind_ok (h.run_unmarshal data hdata)).trans ?_
  rw [if_pos h.positive, run_pure]

end Probe

/-! ### The stored deadline -/

/-- The deadline that is stored for a given one, by the reading from which the duration is
computed and the reading to which it is added. Without a deadline nothing is computed. -/
def writtenDeadline (expiresAt before after : ℤ) : ℤ :=
  if expiresAt ≤ 0 then 0 else wrapInt64 (after + timeSub expiresAt before)

theorem isInt64_writtenDeadline (expiresAt before after : ℤ) :
    IsInt64 (writtenDeadline expiresAt before after) := by
  unfold writtenDeadline
  split
  · decide
  · exact isInt64_wrapInt64 _

/-- The deadline is stored as it is when the clock stands still between the two readings.
Only a duration of more than 63 bits, which is cut off, asks for the rest to pass. -/
theorem writtenDeadline_eq_iff {expiresAt before after : ℤ} (hpos : 0 < expiresAt)
    (hexpires : IsInt64 expiresAt) (hbefore : before < expiresAt) (hafter : IsInt64 after) :
    writtenDeadline expiresAt before after = expiresAt ↔
      after - before = max 0 (expiresAt - before - redisMaxInt64) := by
  have hduration : timeSub expiresAt before = min redisMaxInt64 (expiresAt - before) := by
    rw [timeSub, redisMaxInt64]
    omega
  rw [writtenDeadline, if_neg (not_le.mpr hpos), hduration]
  obtain ⟨-, hfits⟩ := hexpires
  obtain ⟨hlow, hhigh⟩ := hafter
  unfold wrapInt64 toInt64 toUInt64 redisMaxInt64
  split <;> omega

/-- The clock stands still between the reading from which the duration is computed and the
reading to which it is added. A duration of more than 63 bits is cut off, and then the
rest of it passes between the two. -/
def Steady (target before after : ℤ) : Prop :=
  after - before = max 0 (target - before - redisMaxInt64)

instance (target before after : ℤ) : Decidable (Steady target before after) :=
  inferInstanceAs (Decidable (_ = _))

/-- From `s` to `s'` the value of the key was written with deadline `d`, and a deadline
record beside it was kept or removed. -/
structure Rewritten (s s' : Store) (key : Bytes) (d : ℤ) : Prop where
  record : ∃ data codec payload, s'[valueKey key]? = some data ∧
    unmarshalEnvelope data = .ok ⟨d, codec, payload⟩
  metadata : s'[collectionTTLKey key]? = none ∨ s'[collectionTTLKey key]? = s[collectionTTLKey key]?

theorem Rewritten.storedDeadline {s s' : Store} {key : Bytes} {d : ℤ} (h : Rewritten s s' key d) :
    storedDeadline s' key = if d > 0 then some d else none := by
  obtain ⟨data, codec, payload, hdata, hvalue⟩ := h.record
  simp only [TypedMap.storedDeadline, hdata, hvalue]

/-- A value written again in a store without the records of the key. -/
theorem Rewritten.of_without {s s' : Store} {key : Bytes} {d : ℤ}
    (h : Rewritten (s.without key) s' key d) : Rewritten s s' key d where
  record := h.record
  metadata := .inl <| h.metadata.elim id fun hsame => by
    rw [hsame]
    exact Store.getElem?_without_of_recordOf (.inr (.inr (.inl rfl)))

section Write

variable {clock : ℕ → ℤ} {tick : ℕ} {s : Store} {key codec payload data : Bytes} {expiresAt d ttl : ℤ}

theorem rewritten_insert (hd : IsInt64 d) (hdata : marshalEnvelope codec payload d = .ok data) :
    Rewritten s (s.insert (valueKey key) data) key d where
  record := ⟨data, codec, payload, by rw [Store.getElem?_insert, if_pos rfl],
    unmarshalEnvelope_marshalEnvelope hd hdata⟩
  metadata := .inr (Store.getElem?_insert_of_ne s data (valueKey_ne_collectionTTLKey _ _))

theorem Rewritten.erase_metadata {s' : Store} (h : Rewritten s s' key d) :
    Rewritten s (s'.erase (collectionTTLKey key)) key d where
  record := by
    obtain ⟨data, codec, payload, hdata, hvalue⟩ := h.record
    refine ⟨data, codec, payload, ?_, hvalue⟩
    rw [Store.getElem?_erase_of_ne s' (collectionTTLKey_ne_valueKey _ _), hdata]
  metadata := .inl (by rw [Store.getElem?_erase, if_pos rfl])

theorem run_putPayload_ticking (httl : 0 < ttl)
    (hdata : marshalEnvelope codec payload (wrapInt64 (clock tick + ttl)) = .ok data) :
    run (ticking clock) (putPayload (valueKey key) codec payload ttl) (tick, s) =
      (.ok (), (tick + 1, s.insert (valueKey key) data)) := by
  have hdeadline : run (ticking clock) (deadlineAfter ttl) (tick, s) =
      (.ok (wrapInt64 (clock tick + ttl)), (tick + 1, s)) := by
    rw [deadlineAfter, if_pos httl]
    rfl
  rw [putPayload, run_bind_ok hdeadline, hdata,
    run_bind_ok (run_liftExcept _), run_put_ticking]

/-- A string is written with a deadline ahead: the deadline is computed from two readings. -/
theorem run_redisWriteStringWithCodec_ticking (s : Store) (key payload : Bytes)
    (hcodec : codec.length ≤ 65535) (hahead : clock tick < expiresAt) :
    ∃ tick' s', run (ticking clock) (redisWriteStringWithCodec key payload codec expiresAt)
        (tick, s) = (.ok (), (tick', s')) ∧
      Rewritten s s' key (writtenDeadline expiresAt (clock tick) (clock (tick + 1))) := by
  have hmarshal : ∀ d, ∃ data, marshalEnvelope codec payload d = .ok data := fun d =>
    ⟨_, marshalEnvelope_eq_ok.mpr ⟨hcodec, rfl⟩⟩
  unfold redisWriteStringWithCodec writtenDeadline
  by_cases hpos : expiresAt ≤ 0
  · -- No deadline: the clock is not read, and a deadline record is removed.
    obtain ⟨data, hdata⟩ := hmarshal 0
    have hput : run (ticking clock) (putPayload (valueKey key) codec payload 0) (tick, s) =
        (.ok (), (tick, s.insert (valueKey key) data)) := by
      have hdeadline : run (ticking clock) (deadlineAfter 0) (tick, s) = (.ok 0, (tick, s)) := rfl
      rw [putPayload, run_bind_ok hdeadline, hdata,
        run_bind_ok (run_liftExcept _), run_put_ticking]
    rw [if_pos hpos, if_pos hpos]
    exact ⟨tick, _, (run_bind_ok hput).trans run_delete_ticking,
      (rewritten_insert (by decide) hdata).erase_metadata⟩
  · obtain ⟨data, hdata⟩ := hmarshal (wrapInt64 (clock (tick + 1) + timeSub expiresAt (clock tick)))
    have hduration : 0 < timeSub expiresAt (clock tick) := by
      rw [timeSub]
      omega
    rw [if_neg hpos, if_neg hpos]
    refine ⟨tick + 1 + 1, _, (run_bind_ok run_now_ticking).trans ?_,
      rewritten_insert (isInt64_wrapInt64 _) hdata⟩
    rw [if_neg (not_le.mpr hduration)]
    exact run_putPayload_ticking hduration hdata

/-- A string is written after the records of the key have been removed. -/
theorem run_redisDeleteAndWriteString_ticking (s : Store) (key payload : Bytes) (hahead : clock tick < expiresAt) :
    ∃ tick' s', run (ticking clock) (redisDeleteAndWriteString key payload expiresAt)
        (tick, s) = (.ok (), (tick', s')) ∧
      Rewritten s s' key (writtenDeadline expiresAt (clock tick) (clock (tick + 1))) := by
  obtain ⟨tick', s', hrun, hrewritten⟩ := run_redisWriteStringWithCodec_ticking (s.without key)
    key payload (show Redis.bytesCodec.length ≤ 65535 by decide) hahead
  exact ⟨tick', s', (run_bind_ok run_redisDeleteRaw_ticking).trans hrun,
    hrewritten.of_without⟩

end Write

section SetExpiry

variable {clock : ℕ → ℤ} {tick : ℕ} {s : Store} {key : Bytes} {value : StoredValue} {expiresAt : ℤ}

/-- A new deadline is set: the type is probed, the deadline compared with the clock and the
value written again. -/
theorem run_redisSetExpiry_ticking (h : HeldString s key value)
    (hbefore : ∀ n ≥ tick, Before s key value (clock n)) (hahead : ∀ n ≥ tick, clock n < expiresAt)
    {i : ℕ} (hi : i = tick + probeReadings s key + 1) :
    ∃ tick' s', run (ticking clock) (redisSetExpiry key expiresAt) (tick, s) =
        (.ok true, (tick', s')) ∧
      Rewritten s s' key (writtenDeadline expiresAt (clock i) (clock (i + 1))) := by
  subst hi
  obtain ⟨data, hdata, hvalue⟩ := h.record
  have hcodec : value.codec.length ≤ 65535 :=
    (marshalEnvelope_eq_ok.mp (marshalEnvelope_unmarshalEnvelope hvalue)).1
  obtain ⟨tick', s', hrun, hrewritten⟩ := run_redisWriteStringWithCodec_ticking s key
    value.payload hcodec (hahead (tick + probeReadings s key + 1) (by omega))
  have hnot : ¬ expiresAt ≤ wrapInt64 (clock (tick + probeReadings s key)) := by
    rw [wrapInt64_eq (hbefore _ (by omega)).fits]
    have := hahead (tick + probeReadings s key) (by omega)
    omega
  refine ⟨tick', s'.erase (collectionTTLKey key), ?_, hrewritten.erase_metadata⟩
  rw [redisSetExpiry, run_bind_ok (run_redisType_ticking h hbefore), if_neg (by decide),
    run_bind_ok run_unixNano_ticking, if_neg hnot, if_pos rfl]
  refine (run_bind_ok run_get_ticking).trans ?_
  rw [hdata]
  refine (run_bind_ok (h.run_unmarshal data hdata)).trans ?_
  refine (run_bind_ok hrun).trans ?_
  rfl

end SetExpiry

/-! ### The commands -/

/-- A command that writes a string again, or gives it a deadline. -/
inductive Update
  | append (suffix : Bytes)
  | increment (delta : ℤ)
  | incrementBy (decrement : Bool) (amount : Bytes)
  | set (value : Bytes) (options : List Bytes)
  | expireAt (milliseconds : Bool) (amount : Bytes)
  | getEx (option amount : Bytes)

/-- `APPEND`, `INCR` and `DECR`, `INCRBY` and `DECRBY`, `SET`, `EXPIREAT` and `PEXPIREAT`,
and `GETEX` with an option. -/
def Update.program (go : GoRuntime) (key : Bytes) : Update → Program Calls Resp
  | .append suffix => redisAppend [text "APPEND", key, suffix]
  | .increment delta => redisIncrementCommand delta [text "INCR", key]
  | .incrementBy decrement amount => redisIncrementByCommand decrement [text "INCRBY", key, amount]
  | .set value options => redisSet go (text "SET" :: key :: value :: options)
  | .expireAt milliseconds amount =>
    redisExpireCommand (if milliseconds then text "PEXPIREAT" else text "EXPIREAT")
      [text "EXPIREAT", key, amount]
  | .getEx option amount => redisGetEx go [text "GETEX", key, option, amount]

/-- The reply of a command that was carried out: no error, and not the null reply of a
`SET` whose condition did not hold. -/
def Succeeded : Resp → Prop
  | .errorString _ | .null => False
  | _ => True

theorem not_succeeded_redisErrorReply (err : GoError) : ¬ Succeeded (redisErrorReply err) := by
  obtain ⟨message, hmessage⟩ := exists_redisErrorReply_eq err
  rw [hmessage]
  exact id

theorem not_succeeded_of_error {clock : ℕ → ℤ} {x : Action Resp} {err : GoError} {st st' : ℕ × Store}
    (hrun : run (ticking clock) x st = (.error err, st')) :
    ¬ Succeeded ((replying x).run (ticking clock) st).1 := by
  rw [run_replying_error hrun]
  exact not_succeeded_redisErrorReply err

/-- The clock readings of `SET` between its options and the write, on a string with a
deadline. -/
def setReadings (probe : ℕ) (options : SetOptions) : ℕ :=
  probe + (if options.get then probe + 1 else 0) +
    if options.keepTTL ∧ ¬ options.hasExpiry then probe else 0

/-- An update of a key that holds a string with deadline `e` aims at a deadline, and
computes the remaining time from the reading of the given number. -/
inductive Aims (go : GoRuntime) (clock : ℕ → ℤ) (key : Bytes) (tick : ℕ) (s : Store) (e : ℤ) :
    Update → ℤ → ℕ → Prop
  | append (suffix : Bytes) :
    Aims go clock key tick s e (.append suffix) e (tick + 2 * probeReadings s key + 1)
  | increment (delta : ℤ) :
    Aims go clock key tick s e (.increment delta) e (tick + 2 * probeReadings s key + 1)
  | incrementBy (decrement : Bool) (amount : Bytes) :
    Aims go clock key tick s e (.incrementBy decrement amount) e (tick + 2 * probeReadings s key + 1)
  /-- `SET` with `KEEPTTL`, or with an expiry option, which wins. -/
  | set (value : Bytes) (rest : List Bytes) {options : SetOptions} {tick' : ℕ}
    (parsed : run (ticking clock) (redisSetOptions go {} rest) (tick, s) =
      (.ok options, (tick', s)))
    (deadline : options.keepTTL = true ∨ options.hasExpiry = true) :
    Aims go clock key tick s e (.set value rest) (if options.hasExpiry then options.expiresAt else e)
      (tick' + setReadings (probeReadings s key) options)
  | expireAt (milliseconds : Bool) {amount : Bytes} {count : ℤ} (parsed : redisParseInt amount = .ok count) :
    Aims go clock key tick s e (.expireAt milliseconds amount)
      (count * if milliseconds then millisecond else second) (tick + probeReadings s key + 2)
  | getEx (milliseconds : Bool) {option amount : Bytes} {count : ℤ}
    (upper : go.toUpper option = if milliseconds then text "PXAT" else text "EXAT")
    (parsed : redisParseInt amount = .ok count) :
    Aims go clock key tick s e (.getEx option amount)
      (count * if milliseconds then millisecond else second) (tick + 2 * probeReadings s key + 3)

/-- The duration is computed from a reading of the command. -/
theorem Aims.le {go : GoRuntime} {clock : ℕ → ℤ} {key : Bytes} {tick : ℕ} {s : Store} {e target : ℤ}
    {update : Update} {i : ℕ} (h : Aims go clock key tick s e update target i) : tick ≤ i := by
  cases h with
  | @set payload rest options tick' hparsed =>
    have hle := tick_le_run clock (ExceptT.run (redisSetOptions go {} rest)) tick s
    rw [program_run, hparsed] at hle
    exact Nat.le_add_right_of_le hle
  | _ => omega

section SetOptions

variable {clock : ℕ → ℤ} {s : Store}

theorem ensures_redisSetDeadline (option amount : Bytes) :
    Ensures (embeddedAt fun _ => True) (redisSetDeadline option amount) s
      (fun d _ => IsInt64 d) fun _ _ => True := by
  refine .seq (ensures_liftExcept (fun count _ => ?_) fun _ => trivial)
  generalize hunit : (if option = text "PX" ∨ option = text "PXAT" then millisecond else second) = unit
  have hpos : 0 < unit := by
    rw [← hunit]
    split <;> decide
  dsimp only
  split
  · trivial
  · next hrange =>
    rw [not_or, not_le, not_lt] at hrange
    have hhigh : count * unit ≤ redisMaxInt64 :=
      (Int.mul_le_mul_of_nonneg_right hrange.2 hpos.le).trans (Int.ediv_mul_le _ hpos.ne')
    have hlow : 0 < count * unit := Int.mul_pos hrange.1 hpos
    unfold redisMaxInt64 at hhigh
    split
    · exact ⟨by omega, by omega⟩
    · refine .seq fun time _ => ?_
      obtain ⟨hcurrent, -⟩ := isInt64_wrapInt64 time
      show Ensures _ (if wrapInt64 time > _ then _ else _) s _ _
      split
      · trivial
      · next hfits =>
        unfold redisMaxInt64 at hfits
        exact ⟨by omega, by omega⟩

theorem ensures_redisSetOptions (go : GoRuntime) (options : SetOptions) (args : List Bytes)
    (h : IsInt64 options.expiresAt) :
    Ensures (embeddedAt fun _ => True) (redisSetOptions go options args) s
      (fun options' _ => IsInt64 options'.expiresAt) fun _ _ => True := by
  fun_induction redisSetOptions go options args generalizing s with
  | case1 => exact h
  | _ => first
    | trivial
    | (rename_i ih; exact ih h)
    | (rename_i ih
       exact .seq ((ensures_redisSetDeadline _ _).mono
         (fun d _ hd => ih d hd) fun _ _ _ => trivial))

/-- The deadline among the options of `SET` is an `int64`. -/
theorem isInt64_of_redisSetOptions {go : GoRuntime} {rest : List Bytes} {options : SetOptions}
    {tick : ℕ} {st : ℕ × Store}
    (hparsed : run (ticking clock) (redisSetOptions go {} rest) (tick, s) = (.ok options, st)) :
    IsInt64 options.expiresAt := by
  have hwp : (ExceptT.run (redisSetOptions go {} rest)).wp (embeddedAt fun _ => True) _ s :=
    ensures_redisSetOptions go {} rest (by decide)
  have hfits := @run_ticking_of_wp _ (fun _ => True) clock _ _ tick s (fun _ _ => trivial) hwp
  rw [program_run, hparsed] at hfits
  exact hfits

end SetOptions

section Updates

variable {go : GoRuntime} {clock : ℕ → ℤ} {tick : ℕ} {s : Store} {key : Bytes} {value : StoredValue}

/-- From `st` the code succeeds and has written the value of the key with deadline `d`. -/
def Rewrites {α : Type} (clock : ℕ → ℤ) (s : Store) (key : Bytes) (d : ℤ) (x : Action α)
    (st : ℕ × Store) : Prop :=
  ∃ result tick' s', run (ticking clock) x st = (.ok result, (tick', s')) ∧ Rewritten s s' key d

/-- The part before the write. -/
theorem Rewrites.step {α β : Type} {x : Action α} {f : α → Action β} {d : ℤ} {st st' : ℕ × Store} {a : α}
    (hx : run (ticking clock) x st = (.ok a, st'))
    (hf : Rewrites clock s key d (f a) st') : Rewrites clock s key d (x >>= f) st := by
  obtain ⟨result, tick', s', hrun, hrewritten⟩ := hf
  exact ⟨result, tick', s', (run_bind_ok hx).trans hrun, hrewritten⟩

/-- The write, when only a reply follows. -/
theorem Rewrites.map {α β : Type} {x : Action α} {f : α → Action β} {d : ℤ} {st : ℕ × Store}
    (hx : Rewrites clock s key d x st) (hf : ∀ a, ∃ reply, f a = pure reply) :
    Rewrites clock s key d (x >>= f) st := by
  obtain ⟨a, tick', s', hrun, hrewritten⟩ := hx
  obtain ⟨reply, hreply⟩ := hf a
  refine ⟨reply, tick', s', (run_bind_ok hrun).trans ?_, hrewritten⟩
  rw [hreply, run_pure]

theorem Rewrites.replying {x : Action Resp} {d : ℤ} {st : ℕ × Store} (hx : Rewrites clock s key d x st) :
    Rewritten s ((replying x).run (ticking clock) st).2.2 key d := by
  obtain ⟨reply, tick', s', hrun, hrewritten⟩ := hx
  rw [run_replying hrun]
  exact hrewritten

variable (h : HeldString s key value) (hbefore : ∀ n ≥ tick, Before s key value (clock n))

include h hbefore

/-- The string is read, its deadline is read and it is written back. -/
theorem rewrites_readWrite {f : Option Bytes → Action Resp} (payload : Bytes) (reply : Resp)
    (hf : f (some value.payload) = (do
      let expiresAt ← redisExpiry key
      redisWriteString key payload (expiresAt.getD 0)
      return reply)) :
    Rewrites clock s key (writtenDeadline value.expiresAt (clock (tick + 2 * probeReadings s key + 1))
      (clock (tick + 2 * probeReadings s key + 1 + 1))) (redisString key >>= f) (tick, s) := by
  have hnext : tick + 2 * probeReadings s key + 1 =
      tick + (probeReadings s key + 1) + probeReadings s key := by omega
  rw [hnext]
  obtain ⟨tick', s', hwrite, hrewritten⟩ := run_redisWriteStringWithCodec_ticking s key payload
    (show Redis.bytesCodec.length ≤ 65535 by decide)
    (hbefore (tick + (probeReadings s key + 1) + probeReadings s key) (by omega)).deadline
  refine .step (run_redisString_ticking h hbefore) ?_
  rw [hf]
  refine .step (run_redisExpiry_ticking h fun n hn => hbefore n (by omega)) ?_
  exact .map ⟨(), tick', s', hwrite, hrewritten⟩ fun _ => ⟨reply, rfl⟩

theorem rewrites_append (suffix : Bytes) :
    Rewritten s ((Update.program go key (.append suffix)).run (ticking clock) (tick, s)).2.2 key
      (writtenDeadline value.expiresAt (clock (tick + 2 * probeReadings s key + 1))
        (clock (tick + 2 * probeReadings s key + 1 + 1))) := by
  refine Rewrites.replying ?_
  dsimp only
  exact rewrites_readWrite h hbefore (value.payload ++ suffix) _ rfl

/-- An increment that succeeds read a number and found room for the result. -/
theorem rewrites_redisIncrementBig {delta : ℤ}
    (hsuccess : Succeeded ((replying (redisIncrementBig key delta)).run (ticking clock) (tick, s)).1) :
    Rewrites clock s key (writtenDeadline value.expiresAt (clock (tick + 2 * probeReadings s key + 1))
      (clock (tick + 2 * probeReadings s key + 1 + 1))) (redisIncrementBig key delta) (tick, s) := by
  have hstring := run_redisString_ticking h hbefore
  -- The replies of the two refusals are errors.
  have hrefused : ∀ data, run (ticking clock) (redisIncrementBig key delta) (tick, s) ≠
      (.ok (.errorString data), (tick + (probeReadings s key + 1), s)) := by
    intro data hrun
    rw [run_replying hrun] at hsuccess
    exact hsuccess
  cases hcurrent : parseDecimal value.payload with
  | none =>
    refine absurd ?_ (hrefused (text "ERR value is not an integer or out of range"))
    refine (run_bind_ok hstring).trans ?_
    simp only [hcurrent]
    rfl
  | some current =>
    by_cases hfits : IsInt64 (current + delta)
    · refine rewrites_readWrite h hbefore (formatInt (current + delta)) (.integer (current + delta)) ?_
      simp only [hcurrent, not_true, hfits, if_false]
    · refine absurd ?_ (hrefused (text "ERR increment or decrement would overflow"))
      refine (run_bind_ok hstring).trans ?_
      simp only [hcurrent, hfits, not_false_iff, if_true]
      rfl

/-- `SET` on a string with a deadline, with the options parsed. -/
theorem rewrites_redisSetWith {options : SetOptions} (payload : Bytes) {target : ℤ}
    (htarget : target = if options.hasExpiry then options.expiresAt else value.expiresAt)
    (hdeadline : options.keepTTL = true ∨ options.hasExpiry = true) (hnx : options.nx = false)
    (hahead : ∀ n ≥ tick, clock n < target) :
    Rewrites clock s key (writtenDeadline target (clock (tick + setReadings (probeReadings s key) options))
      (clock (tick + setReadings (probeReadings s key) options + 1)))
      (redisSetWith key payload options) (tick, s) := by
  refine .step (run_redisType_ticking h hbefore) ?_
  rw [hnx, if_neg (by simp), if_neg (by simp)]
  -- With `GET` the old value is read.
  obtain ⟨old, hold⟩ : ∃ old, run (ticking clock) (redisSetOld key options .string)
      (tick + probeReadings s key, s) = (.ok old,
        (tick + (probeReadings s key + if options.get then probeReadings s key + 1 else 0), s)) := by
    unfold redisSetOld
    cases options.get with
    | false => exact ⟨.null, rfl⟩
    | true =>
      refine ⟨.bulk value.payload, ?_⟩
      rw [if_pos ⟨rfl, by decide⟩]
      refine (run_bind_ok (run_redisString_ticking h fun n hn => hbefore n (by omega))).trans ?_
      rw [Nat.add_assoc]
      rfl
  -- With `KEEPTTL` alone the old deadline is read.
  have hexpires : run (ticking clock) (redisSetExpiresAt key options .string)
      (tick + (probeReadings s key + if options.get then probeReadings s key + 1 else 0), s) =
        (.ok target, (tick + setReadings (probeReadings s key) options, s)) := by
    subst htarget
    unfold redisSetExpiresAt setReadings
    cases hhas : options.hasExpiry with
    | true =>
      rw [if_neg (by simp)]
      simp
    | false =>
      have hkeep : options.keepTTL = true := hdeadline.resolve_right (by simp [hhas])
      have hyes : options.keepTTL = true ∧ ¬ false = true := ⟨hkeep, by simp⟩
      simp only [if_pos hyes]
      rw [if_pos ⟨hkeep, by decide, by simp⟩]
      refine (run_bind_ok (run_redisExpiry_ticking h fun n hn => hbefore n (by omega))).trans ?_
      rw [Nat.add_assoc]
      rfl
  refine .step hold (.step hexpires ?_)
  obtain ⟨tick', s', hwrite, hrewritten⟩ := run_redisDeleteAndWriteString_ticking s key payload
    (hahead (tick + setReadings (probeReadings s key) options) (by omega))
  exact .map ⟨(), tick', s', hwrite, hrewritten⟩ fun _ => ⟨_, rfl⟩

omit h hbefore in
/-- An absolute expiry is the amount in its unit, or it is refused. -/
theorem redisExpiryFromCommand_of_at {command : Bytes} (milliseconds : Bool)
    (hcommand : command = (if milliseconds then text "PEXPIREAT" else text "EXPIREAT") ∨
      command = if milliseconds then text "PXAT" else text "EXAT") (time amount : ℤ) :
    redisExpiryFromCommand time command amount =
        .ok (amount * if milliseconds then millisecond else second) ∨
      redisExpiryFromCommand time command amount = .error invalidExpireTime := by
  have hpre : (text "P").isPrefixOf command = milliseconds := by
    rcases hcommand with rfl | rfl <;> cases milliseconds <;> decide
  unfold redisExpiryFromCommand
  rw [hpre]
  generalize (if milliseconds = true then millisecond else second) = unit
  dsimp only
  split
  · exact .inr rfl
  · rcases hcommand with rfl | rfl <;> cases milliseconds <;> exact .inl rfl

theorem rewrites_expireAt (milliseconds : Bool) {amount : Bytes} {count : ℤ}
    (hparsed : redisParseInt amount = .ok count)
    (hahead : ∀ n ≥ tick, clock n < count * if milliseconds then millisecond else second)
    (hsuccess : Succeeded
      ((Update.program go key (.expireAt milliseconds amount)).run (ticking clock) (tick, s)).1) :
    IsInt64 (count * if milliseconds then millisecond else second) ∧
      Rewritten s ((Update.program go key (.expireAt milliseconds amount)).run (ticking clock)
        (tick, s)).2.2 key (writtenDeadline (count * if milliseconds then millisecond else second)
          (clock (tick + probeReadings s key + 2)) (clock (tick + probeReadings s key + 2 + 1))) := by
  set command := if milliseconds then text "PEXPIREAT" else text "EXPIREAT" with hcommand
  have hprogram : Update.program go key (.expireAt milliseconds amount) = replying (do
      let expiresAt ← liftExcept (redisExpiryFromCommand (← now) command count)
      if ← redisSetExpiry key expiresAt then return .integer 1 else return .integer 0) := by
    rw [Update.program, redisExpireCommand, hparsed]
    rfl
  rw [hprogram] at hsuccess ⊢
  rcases redisExpiryFromCommand_of_at milliseconds (.inl hcommand) (clock tick) count with
    hexpires | herror
  · refine ⟨isInt64_redisExpiryFromCommand hexpires, Rewrites.replying ?_⟩
    refine .step run_now_ticking (.step (run_liftExcept_of_eq hexpires) ?_)
    obtain ⟨tick', s', hset, hrewritten⟩ := run_redisSetExpiry_ticking h
      (fun n (hn : n ≥ tick + 1) => hbefore n (by omega)) (fun n hn => hahead n (by omega))
      (show tick + probeReadings s key + 2 = _ by omega)
    exact .map ⟨true, tick', s', hset, hrewritten⟩ fun found => by
      cases found
      exacts [⟨_, rfl⟩, ⟨_, rfl⟩]
  · exact absurd hsuccess (not_succeeded_of_error ((run_bind_ok run_now_ticking).trans
      (run_bind_error (run_liftExcept_of_eq herror))))

theorem rewrites_getEx (milliseconds : Bool) {option amount : Bytes} {count : ℤ}
    (hupper : go.toUpper option = if milliseconds then text "PXAT" else text "EXAT")
    (hparsed : redisParseInt amount = .ok count)
    (hahead : ∀ n ≥ tick, clock n < count * if milliseconds then millisecond else second)
    (hsuccess : Succeeded
      ((Update.program go key (.getEx option amount)).run (ticking clock) (tick, s)).1) :
    IsInt64 (count * if milliseconds then millisecond else second) ∧
      Rewritten s ((Update.program go key (.getEx option amount)).run (ticking clock) (tick, s)).2.2 key
        (writtenDeadline (count * if milliseconds then millisecond else second)
          (clock (tick + 2 * probeReadings s key + 3)) (clock (tick + 2 * probeReadings s key + 3 + 1))) := by
  set command := if milliseconds then text "PXAT" else text "EXAT" with hcommand
  have hknown : ¬ ((command = text "EX" ∨ command = text "PX") ∧ count ≤ 0) ∧
      ¬ command ∉ [text "EX", text "PX", text "EXAT", text "PXAT"] := by
    rw [hcommand]
    cases milliseconds <;> exact ⟨fun h => absurd h.1 (by decide), by decide⟩
  set mid := tick + (probeReadings s key + 1) with hmid
  have hchange : run (ticking clock) (redisGetExChange go [option, amount]) (mid, s) =
      (((redisExpiryFromCommand (clock mid) command count).map fun expiresAt =>
        some (.expireAt expiresAt)).mapError fun _ => invalidExpireInGetEx, (mid + 1, s)) := by
    rw [redisGetExChange, hparsed]
    dsimp only
    rw [hupper, if_neg hknown.1, if_neg hknown.2, run_bind_ok run_now_ticking]
    cases redisExpiryFromCommand (clock mid) command count <;> rfl
  have hstring := run_redisString_ticking h hbefore
  rcases redisExpiryFromCommand_of_at milliseconds (.inr hcommand) (clock mid) count with
    hexpires | herror
  · have hparse : run (ticking clock) (redisGetExChange go [option, amount]) (mid, s) =
        (.ok (some (.expireAt (count * if milliseconds then millisecond else second))), (mid + 1, s)) := by
      rw [hchange, hexpires]
      rfl
    obtain ⟨tick', s', hset, hrewritten⟩ := run_redisSetExpiry_ticking h
      (fun n (hn : n ≥ mid + 1) => hbefore n (by omega)) (fun n hn => hahead n (by omega))
      (show tick + 2 * probeReadings s key + 3 = _ by omega)
    refine ⟨isInt64_redisExpiryFromCommand hexpires, Rewrites.replying ?_⟩
    dsimp only
    refine .step hstring (.step hparse ?_)
    exact .map ⟨true, tick', s', hset, hrewritten⟩ fun _ => ⟨_, rfl⟩
  · have hparse : run (ticking clock) (redisGetExChange go [option, amount]) (mid, s) =
        (.error invalidExpireInGetEx, (mid + 1, s)) := by
      rw [hchange, herror]
      rfl
    exact absurd hsuccess (not_succeeded_of_error ((run_bind_ok hstring).trans
      (run_bind_error hparse)))

/-- `SET` with a deadline, on a string with a deadline. -/
theorem rewrites_set (payload : Bytes) {rest : List Bytes} {options : SetOptions} {tick' : ℕ} {target : ℤ}
    (hparsed : run (ticking clock) (redisSetOptions go {} rest) (tick, s) =
      (.ok options, (tick', s)))
    (hdeadline : options.keepTTL = true ∨ options.hasExpiry = true)
    (htarget : target = if options.hasExpiry then options.expiresAt else value.expiresAt)
    (hahead : ∀ n ≥ tick, clock n < target)
    (hsuccess : Succeeded ((Update.program go key (.set payload rest)).run (ticking clock) (tick, s)).1) :
    Rewritten s ((Update.program go key (.set payload rest)).run (ticking clock) (tick, s)).2.2 key
      (writtenDeadline target (clock (tick' + setReadings (probeReadings s key) options))
        (clock (tick' + setReadings (probeReadings s key) options + 1))) := by
  have hlater : tick ≤ tick' := by
    have hle := tick_le_run clock (ExceptT.run (redisSetOptions go {} rest)) tick s
    rwa [program_run, hparsed] at hle
  have hbefore' : ∀ n ≥ tick', Before s key value (clock n) := fun n hn => hbefore n (by omega)
  by_cases hnx : options.nx = true
  · -- The key exists, so `SET` with `NX` replies null.
    have hnull : run (ticking clock) (redisSetWith key payload options) (tick', s) =
        (.ok .null, (tick' + probeReadings s key, s)) := by
      rw [redisSetWith, run_bind_ok (run_redisType_ticking h hbefore'),
        if_pos ⟨hnx, by decide⟩, run_pure]
    have hreply : ((Update.program go key (.set payload rest)).run (ticking clock) (tick, s)).1 = .null :=
      congrArg Prod.fst (run_replying ((run_bind_ok hparsed).trans hnull))
    rw [hreply] at hsuccess
    exact hsuccess.elim
  · refine Rewrites.replying ?_
    dsimp only
    exact .step hparsed (rewrites_redisSetWith h hbefore' payload htarget hdeadline
      (Bool.eq_false_iff.mpr hnx) fun n hn => hahead n (by omega))

omit hbefore in
theorem HeldString.isInt64 : IsInt64 value.expiresAt := by
  obtain ⟨data, -, hvalue⟩ := h.record
  exact isInt64_of_unmarshalEnvelope hvalue

/-- An update that succeeds writes the value with the deadline that its two readings give
for the one it aims at. -/
theorem Update.rewrites {update : Update} {target : ℤ} {i : ℕ}
    (haims : Aims go clock key tick s value.expiresAt update target i)
    (hahead : ∀ n ≥ tick, clock n < target)
    (hsuccess : Succeeded ((update.program go key).run (ticking clock) (tick, s)).1) :
    IsInt64 target ∧ Rewritten s ((update.program go key).run (ticking clock) (tick, s)).2.2 key
      (writtenDeadline target (clock i) (clock (i + 1))) := by
  cases haims with
  | append suffix => exact ⟨h.isInt64, rewrites_append h hbefore suffix⟩
  | increment delta => exact ⟨h.isInt64, (rewrites_redisIncrementBig h hbefore hsuccess).replying⟩
  | incrementBy decrement amount =>
    -- The amount was read, or the command would have failed.
    cases hparsed : redisParseInt amount with
    | error err =>
      have hprogram : Update.program go key (.incrementBy decrement amount) =
          replying (throw err) := by
        rw [Update.program, redisIncrementByCommand, hparsed]
        rfl
      rw [hprogram] at hsuccess
      exact absurd hsuccess (not_succeeded_of_error (run_throw err))
    | ok delta =>
      have hprogram : Update.program go key (.incrementBy decrement amount) =
          replying (redisIncrementBig key (if decrement then -delta else delta)) := by
        rw [Update.program, redisIncrementByCommand, hparsed]
        rfl
      rw [hprogram] at hsuccess ⊢
      exact ⟨h.isInt64, (rewrites_redisIncrementBig h hbefore hsuccess).replying⟩
  | @set payload rest options tick' hparsed hdeadline =>
    refine ⟨?_, rewrites_set h hbefore payload hparsed hdeadline rfl hahead hsuccess⟩
    split
    · exact isInt64_of_redisSetOptions hparsed
    · exact h.isInt64
  | expireAt milliseconds hparsed => exact rewrites_expireAt h hbefore milliseconds hparsed hahead hsuccess
  | getEx milliseconds hupper hparsed =>
    exact rewrites_getEx h hbefore milliseconds hupper hparsed hahead hsuccess

/-- A successful update stores the deadline it aims at exactly when that is a deadline at
all and the clock stands still between the two readings. -/
theorem Update.storedDeadline_eq_iff {update : Update} {target : ℤ} {i : ℕ} (hi : tick ≤ i)
    (haims : Aims go clock key tick s value.expiresAt update target i)
    (hahead : ∀ n ≥ tick, clock n < target)
    (hsuccess : Succeeded ((update.program go key).run (ticking clock) (tick, s)).1) :
    storedDeadline ((update.program go key).run (ticking clock) (tick, s)).2.2 key = some target ↔
      0 < target ∧ Steady target (clock i) (clock (i + 1)) := by
  obtain ⟨hfits, hrewritten⟩ := Update.rewrites h hbefore haims hahead hsuccess
  rw [hrewritten.storedDeadline]
  by_cases hpos : 0 < target
  · have hiff := writtenDeadline_eq_iff hpos hfits (hahead i hi) (hbefore (i + 1) (by omega)).fits
    rw [Steady, ← hiff]
    constructor
    · intro hstored
      split at hstored
      · exact ⟨hpos, Option.some.inj hstored⟩
      · cases hstored
    · rintro ⟨-, hsame⟩
      rw [hsame, if_pos hpos]
  · -- A target of zero or below is written as no deadline.
    rw [writtenDeadline, if_pos (not_lt.mp hpos), if_neg (by decide)]
    exact ⟨nofun, fun hboth => absurd hboth.1 hpos⟩

end Updates

/-! ### Runs of updates -/

section Runs

variable (go : GoRuntime) (clock : ℕ → ℤ) (key : Bytes) (e : ℤ)

def Update.execute (update : Update) (st : ℕ × Store) : Resp × (ℕ × Store) :=
  (update.program go key).run (ticking clock) st

/-- The update succeeds, aims at deadline `e`, and the clock stands still between its two
readings. -/
def KeepsSteady (update : Update) (st : ℕ × Store) : Prop :=
  Succeeded (update.execute go clock key st).1 ∧
    ∃ i, Aims go clock key st.1 st.2 e update e i ∧ Steady e (clock i) (clock (i + 1))

/-- The key holds a string with deadline `e`, and all readings to come are before it. -/
def HeldUntil (st : ℕ × Store) : Prop :=
  ∃ value : StoredValue, value.expiresAt = e ∧ HeldString st.2 key value ∧
    ∀ n ≥ st.1, Before st.2 key value (clock n)

variable {go clock key e}

theorem HeldUntil.storedDeadline {st : ℕ × Store} (h : HeldUntil clock key e st) :
    storedDeadline st.2 key = some e := by
  obtain ⟨value, rfl, hheld, -⟩ := h
  obtain ⟨data, hdata, hvalue⟩ := hheld.record
  simp only [TypedMap.storedDeadline, hdata, hvalue, if_pos hheld.positive]

/-- One update keeps the string and its deadline. -/
theorem HeldUntil.execute {update : Update} {st : ℕ × Store} (h : HeldUntil clock key e st)
    (hsteady : KeepsSteady go clock key e update st) :
    HeldUntil clock key e (update.execute go clock key st).2 := by
  obtain ⟨value, rfl, hheld, hbefore⟩ := h
  obtain ⟨hsuccess, i, haims, hdrift⟩ := hsteady
  obtain ⟨tick, s⟩ := st
  have hle : tick ≤ i := haims.le
  have hlater : tick ≤ (update.execute go clock key (tick, s)).2.1 := tick_le_run clock _ tick s
  obtain ⟨hfits, hrewritten⟩ := Update.rewrites hheld hbefore haims
    (fun n hn => (hbefore n hn).deadline) hsuccess
  rw [(writtenDeadline_eq_iff hheld.positive hfits (hbefore i hle).deadline
    (hbefore (i + 1) (by omega)).fits).mpr hdrift] at hrewritten
  obtain ⟨data, codec, payload, hdata, hvalue⟩ := hrewritten.record
  -- A deadline record beside the string is gone, or it is the one of before.
  have hmetadata : ∀ data ∈ (update.execute go clock key (tick, s)).2.2[collectionTTLKey key]?,
      data ∈ s[collectionTTLKey key]? := by
    intro data hmem
    rcases hrewritten.metadata with hnone | hsame
    · rw [Update.execute, hnone] at hmem
      cases hmem
    · rwa [Update.execute, hsame] at hmem
  refine ⟨⟨value.expiresAt, codec, payload⟩, rfl, ⟨⟨data, hdata, hvalue⟩, hheld.positive, ?_⟩, ?_⟩
  · exact fun data hmem => hheld.metadata data (hmetadata data hmem)
  · intro n hn
    have hn' := hbefore n (hlater.trans hn)
    exact ⟨hn'.fits, hn'.deadline, fun data hmem => hn'.metadata data (hmetadata data hmem)⟩

theorem HeldUntil.run {updates : List Update} {st : ℕ × Store} (h : HeldUntil clock key e st)
    (halong : Machine.Along (Update.execute go clock key) (KeepsSteady go clock key e) updates st) :
    HeldUntil clock key e (Machine.after (Update.execute go clock key) updates st) :=
  Machine.after_of_along (fun _ _ => HeldUntil.execute) h halong

end Runs

/-- A successful in-place update of a string with a deadline, and a command that sets an
absolute deadline, stores the deadline it aims at exactly when this is positive and the
clock stands still between the two readings. Any number of such updates that aim at the
deadline of the string keeps it. -/
theorem updates_keep_deadline (go : GoRuntime) (clock : ℕ → ℤ) (key : Bytes) :
    (∀ (tick : ℕ) (s : Store) (value : StoredValue) (update : Update) (target : ℤ) (i : ℕ),
      HeldString s key value → (∀ n ≥ tick, Before s key value (clock n)) →
      Aims go clock key tick s value.expiresAt update target i → (∀ n ≥ tick, clock n < target) →
      Succeeded (update.execute go clock key (tick, s)).1 →
      (storedDeadline (update.execute go clock key (tick, s)).2.2 key = some target ↔
        0 < target ∧ Steady target (clock i) (clock (i + 1)))) ∧
    ∀ (updates : List Update) (st : ℕ × Store) (e : ℤ), HeldUntil clock key e st →
      Machine.Along (Update.execute go clock key) (KeepsSteady go clock key e) updates st →
      storedDeadline (Machine.after (Update.execute go clock key) updates st).2 key = some e := by
  constructor
  · intro tick s value update target i hheld hbefore haims hahead hsuccess
    exact Update.storedDeadline_eq_iff hheld hbefore haims.le haims hahead hsuccess
  · intro updates st e hheld halong
    exact (hheld.run halong).storedDeadline

/-- The clock stands at 0 for the readings 0 to 3 and at 1 from then on. -/
def lateClock (n : ℕ) : ℤ := if n ≤ 3 then 0 else 1

/-- A store with one string with a deadline of one millisecond. -/
def oneDeadline : Store := (∅ : Store).insert (valueKey (text "k")) (bytesRecord (text "v") 1000000)

/-- `APPEND` stores a deadline that is later by the time between its two readings. -/
theorem append_postpones_deadline :
    storedDeadline oneDeadline (text "k") = some 1000000 ∧
    (Update.execute .upperCase lateClock (text "k") (.append (text "w")) (0, oneDeadline)).1 = .integer 2 ∧
    storedDeadline (Update.execute .upperCase lateClock (text "k") (.append (text "w"))
      (0, oneDeadline)).2.2 (text "k") = some 1000001 :=
  ⟨rfl, rfl, rfl⟩

theorem heldString_oneDeadline :
    HeldString oneDeadline (text "k") ⟨1000000, Redis.bytesCodec, text "v"⟩ where
  record := ⟨bytesRecord (text "v") 1000000, rfl, rfl⟩
  positive := by decide
  metadata := by rintro data ⟨⟩

theorem before_oneDeadline :
    Before oneDeadline (text "k") ⟨1000000, Redis.bytesCodec, text "v"⟩ 0 where
  fits := by decide
  deadline := by decide
  metadata := by rintro data ⟨⟩

/-- Under a clock that stands still an `APPEND` keeps the deadline, and so does a run of two. -/
theorem append_keeps_deadline_standing :
    storedDeadline (Update.execute .upperCase (fun _ => 0) (text "k") (.append (text "w"))
      (0, oneDeadline)).2.2 (text "k") = some 1000000 ∧
    storedDeadline (Machine.after (Update.execute .upperCase (fun _ => 0) (text "k"))
      [.append (text "w"), .append (text "x")] (0, oneDeadline)).2 (text "k") = some 1000000 := by
  obtain ⟨hone, hrun⟩ := updates_keep_deadline .upperCase (fun _ => 0) (text "k")
  constructor
  · exact (hone 0 oneDeadline _ (.append (text "w")) 1000000 3 heldString_oneDeadline
      (fun _ _ => before_oneDeadline) (.append _) (fun _ _ => by decide) trivial).mpr
      ⟨by decide, by decide⟩
  · exact hrun _ _ 1000000 ⟨_, rfl, heldString_oneDeadline, fun _ _ => before_oneDeadline⟩
      ⟨⟨trivial, 3, .append _, by decide⟩, ⟨trivial, _, .append _, by decide⟩, trivial⟩

end KVLite.Expiry
