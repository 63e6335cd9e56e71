import KVLite.Expiry.Updates
import KVLite.Keyspace.Outcome

/-!
# The amounts of the expiry commands

`SET` with an expiry option, `SETEX` and the `EXPIRE` family each check the amount of the
client by hand before they multiply it by its unit and add it to the clock reading. The
checks let through exactly the amounts whose deadline is a 64-bit integer, and no product,
sum or difference on the way leaves that range.
-/

namespace KVLite.Redis

open Semantics Fallible BigEndian TypedMap

/-! ### Checked arithmetic -/

/-- An operation of the 64-bit integers: absent when its exact result is not one. -/
def checked (value : ℤ) : Option ℤ := if IsInt64 value then some value else none

theorem checked_eq {value : ℤ} (h : IsInt64 value) : checked value = some value := if_pos h

/-- The arithmetic of `SET` and `SETEX`, every operation checked. -/
def setDeadlineChecked (absolute : Bool) (unit current amount : ℤ) : Option (Except GoError ℤ) :=
  if amount ≤ 0 ∨ amount > redisMaxInt64 / unit then
    return .error invalidExpireInSet
  else do
    let nanos ← checked (amount * unit)
    if absolute then
      return .ok nanos
    else do
      let limit ← checked (redisMaxInt64 - nanos)
      if current > limit then
        return .error invalidExpireInSet
      else
        return .ok (← checked (current + nanos))

/-- The two tests of the `EXPIRE` family for a relative deadline out of range. A limit is
computed only behind the test of the sign. -/
def beyondChecked (current delta : ℤ) : Option Bool :=
  if delta > 0 then
    (checked (redisMaxInt64 - delta)).map fun limit => current > limit
  else if delta < 0 then
    (checked (redisMinInt64 - delta)).map fun limit => current < limit
  else
    some false

/-- The arithmetic of the `EXPIRE` family, every operation checked. -/
def expiryChecked (absolute : Bool) (unit current amount : ℤ) : Option (Except GoError ℤ) :=
  if amount > redisMaxInt64.tdiv unit ∨ amount < redisMinInt64.tdiv unit then
    return .error invalidExpireTime
  else do
    let delta ← checked (amount * unit)
    if absolute then
      return .ok delta
    else do
      if ← beyondChecked current delta then
        return .error invalidExpireTime
      else
        return .ok (← checked (current + delta))

/-- The arithmetic of a write with a deadline, every operation checked: the duration that is
left, and the deadline that it comes to; none when the deadline has passed. -/
def writeChecked (current expiresAt : ℤ) : Option (Option ℤ) := do
  let duration ← checked (expiresAt - current)
  if duration ≤ 0 then
    return none
  else
    return some (← checked (current + duration))

/-! ### Units and names -/

/-- The unit of an amount. -/
def amountUnit (milliseconds : Bool) : ℤ := if milliseconds then millisecond else second

/-- The expiry options of `SET`. -/
def setOptionName (milliseconds absolute : Bool) : Bytes :=
  match milliseconds, absolute with
  | false, false => text "EX"
  | true, false => text "PX"
  | false, true => text "EXAT"
  | true, true => text "PXAT"

/-- The names of the `EXPIRE` family. -/
def expireName (milliseconds absolute : Bool) : Bytes :=
  match milliseconds, absolute with
  | false, false => text "EXPIRE"
  | true, false => text "PEXPIRE"
  | false, true => text "EXPIREAT"
  | true, true => text "PEXPIREAT"

/-- The deadline that an amount stands for. -/
def amountDeadline (milliseconds absolute : Bool) (now amount : ℤ) : ℤ :=
  (if absolute then 0 else now) + amount * amountUnit milliseconds

section Arithmetic

variable {now amount : ℤ} {milliseconds absolute : Bool}

/-- The deadline of `SET` and `SETEX`: a positive amount whose deadline fits. -/
def setDeadline (milliseconds absolute : Bool) (now amount : ℤ) : Except GoError ℤ :=
  if 0 < amount ∧ amountDeadline milliseconds absolute now amount < 2 ^ 63 then
    .ok (amountDeadline milliseconds absolute now amount)
  else .error invalidExpireInSet

theorem amountUnit_cases (milliseconds : Bool) :
    amountUnit milliseconds = 1000000000 ∨ amountUnit milliseconds = 1000000 := by
  cases milliseconds
  exacts [.inl rfl, .inr rfl]

/-- The checks of `SET` and `SETEX` let through the amounts whose deadline fits, and every
operation stays in range. -/
theorem setDeadlineChecked_eq (hnow : 0 ≤ now ∧ now < 2 ^ 63) :
    setDeadlineChecked absolute (amountUnit milliseconds) now amount =
      some (setDeadline milliseconds absolute now amount) := by
  have hunit := amountUnit_cases milliseconds
  unfold setDeadlineChecked setDeadline amountDeadline
  generalize amountUnit milliseconds = unit at hunit
  by_cases hrange : amount ≤ 0 ∨ amount > redisMaxInt64 / unit
  · have hlarge : ¬ (0 < amount ∧ (if absolute then 0 else now) + amount * unit < 2 ^ 63) := by
      unfold redisMaxInt64 at hrange
      rcases hunit with rfl | rfl <;> split <;> omega
    rw [if_pos hrange, if_neg hlarge]
    rfl
  · have hnanos : 0 < amount * unit ∧ amount * unit < 2 ^ 63 := by
      unfold redisMaxInt64 at hrange
      rcases hunit with rfl | rfl <;> omega
    have hpos : 0 < amount := not_le.mp fun hneg => hrange (.inl hneg)
    rw [if_neg hrange, checked_eq ⟨by omega, hnanos.2⟩]
    cases absolute with
    | true =>
      rw [if_pos ⟨hpos, by rw [if_pos rfl]; omega⟩, if_pos rfl, zero_add]
      rfl
    | false =>
      have hlimit : IsInt64 (redisMaxInt64 - amount * unit) := by
        unfold IsInt64 redisMaxInt64
        omega
      simp only [Option.bind_eq_bind, Option.bind_some, Option.pure_def, Bool.false_eq_true,
        if_false, checked_eq hlimit]
      by_cases hfits : now + amount * unit < 2 ^ 63
      · have hbelow : ¬ now > redisMaxInt64 - amount * unit := by
          unfold redisMaxInt64
          omega
        rw [if_neg hbelow, if_pos ⟨hpos, hfits⟩, checked_eq ⟨by omega, hfits⟩, Option.bind_some]
      · have habove : now > redisMaxInt64 - amount * unit := by
          unfold redisMaxInt64
          omega
        rw [if_pos habove, if_neg fun h => hfits h.2]

/-- The tests for a relative deadline out of range stay in range. -/
theorem beyondChecked_eq {delta : ℤ} (hdelta : IsInt64 delta) :
    beyondChecked now delta = some (decide ((delta > 0 ∧ now > redisMaxInt64 - delta) ∨
      (delta < 0 ∧ now < redisMinInt64 - delta))) := by
  unfold IsInt64 at hdelta
  unfold beyondChecked redisMinInt64 redisMaxInt64
  split
  · next hpos =>
    rw [checked_eq ⟨by omega, by omega⟩, Option.map_some, Option.some.injEq, decide_eq_decide]
    omega
  · split
    · next hneg =>
      rw [checked_eq ⟨by omega, by omega⟩, Option.map_some, Option.some.injEq, decide_eq_decide]
      omega
    · rw [Option.some.injEq, eq_comm, decide_eq_false_iff_not]
      omega

/-- The name of a command of the `EXPIRE` family tells its unit and its kind. -/
theorem expireName_spec (milliseconds absolute : Bool) :
    (text "AT").isSuffixOf (expireName milliseconds absolute) = absolute ∧
      (if (text "P").isPrefixOf (expireName milliseconds absolute) then millisecond else second) =
        amountUnit milliseconds := by
  cases milliseconds <;> cases absolute <;> decide

/-- The amounts that the `EXPIRE` family multiplies by the unit. -/
theorem isInt64_mul_iff {unit : ℤ} (hunit : unit = 1000000000 ∨ unit = 1000000) :
    IsInt64 (amount * unit) ↔
      ¬ (amount > redisMaxInt64.tdiv unit ∨ amount < redisMinInt64.tdiv unit) := by
  unfold IsInt64
  rcases hunit with rfl | rfl
  · have hmax : redisMaxInt64.tdiv 1000000000 = 9223372036 := by decide
    have hmin : redisMinInt64.tdiv 1000000000 = -9223372036 := by decide
    omega
  · have hmax : redisMaxInt64.tdiv 1000000 = 9223372036854 := by decide
    have hmin : redisMinInt64.tdiv 1000000 = -9223372036854 := by decide
    omega

/-- The `EXPIRE` family computes with 64-bit integers only, for every amount. -/
theorem expiryChecked_eq (hnow : 0 ≤ now ∧ now < 2 ^ 63) :
    expiryChecked absolute (amountUnit milliseconds) now amount =
      some (redisExpiryFromCommand now (expireName milliseconds absolute) amount) := by
  have hcurrent : wrapInt64 now = now := wrapInt64_eq ⟨by omega, hnow.2⟩
  have hunit := amountUnit_cases milliseconds
  unfold expiryChecked redisExpiryFromCommand
  rw [(expireName_spec _ _).1, (expireName_spec _ _).2, hcurrent]
  generalize amountUnit milliseconds = unit at hunit
  by_cases hrange : amount > redisMaxInt64.tdiv unit ∨ amount < redisMinInt64.tdiv unit
  · rw [if_pos hrange, if_pos hrange]
    rfl
  · have hdelta : IsInt64 (amount * unit) := (isInt64_mul_iff hunit).mpr hrange
    rw [if_neg hrange, if_neg hrange, checked_eq hdelta]
    cases absolute with
    | true => rfl
    | false =>
      simp only [Option.bind_eq_bind, Option.bind_some, Option.pure_def, Bool.false_eq_true,
        if_false, beyondChecked_eq hdelta, decide_eq_true_eq]
      by_cases habove : amount * unit > 0 ∧ now > redisMaxInt64 - amount * unit
      · rw [if_pos (.inl habove), if_pos habove]
      by_cases hbelow : amount * unit < 0 ∧ now < redisMinInt64 - amount * unit
      · rw [if_pos (.inr hbelow), if_neg habove, if_pos hbelow]
      have hsum : IsInt64 (now + amount * unit) := by
        unfold redisMinInt64 redisMaxInt64 at *
        unfold IsInt64 at *
        omega
      rw [if_neg (not_or.mpr ⟨habove, hbelow⟩), if_neg habove, if_neg hbelow, checked_eq hsum]
      rfl

/-- A write computes with 64-bit integers only, and comes to the deadline it was given. -/
theorem writeChecked_eq (hnow : 0 ≤ now ∧ now < 2 ^ 63) {expiresAt : ℤ} (hpos : 0 < expiresAt)
    (hfits : expiresAt < 2 ^ 63) :
    writeChecked now expiresAt = some (if expiresAt ≤ now then none else some expiresAt) := by
  have hduration : IsInt64 (expiresAt - now) := ⟨by omega, by omega⟩
  have hsum : now + (expiresAt - now) = expiresAt := by omega
  unfold writeChecked
  simp only [Option.bind_eq_bind, Option.pure_def, checked_eq hduration, Option.bind_some, hsum,
    checked_eq (show IsInt64 expiresAt from ⟨by omega, hfits⟩), sub_nonpos]
  split <;> rfl

end Arithmetic

/-! ### The computations of the commands -/

section Computations

variable {now count : ℤ} {amount key value : Bytes} {milliseconds absolute : Bool} {s : Store}

/-- A computation goes on after an exact result. -/
theorem eq_some_of_checked_bind {α : Type} {exact : ℤ} {f : ℤ → Option α} {result : α}
    (h : (checked exact).bind f = some result) : f exact = some result := by
  unfold checked at h
  split at h
  · exact h
  · cases h

/-- The option of `SET` computes what its checked arithmetic does. -/
theorem run_redisSetDeadline_of_checked {result : Except GoError ℤ}
    (hparsed : redisParseInt amount = .ok count)
    (h : setDeadlineChecked absolute (amountUnit milliseconds) (wrapInt64 now) count = some result) :
    run (embedded now) (redisSetDeadline (setOptionName milliseconds absolute) amount) s =
      (result, s) := by
  have hunit : (if setOptionName milliseconds absolute = text "PX" ∨
      setOptionName milliseconds absolute = text "PXAT" then millisecond else second) =
        amountUnit milliseconds := by
    cases milliseconds <;> cases absolute <;> decide
  have habsolute : (setOptionName milliseconds absolute = text "EXAT" ∨
      setOptionName milliseconds absolute = text "PXAT") ↔ absolute = true := by
    cases milliseconds <;> cases absolute <;> decide
  rw [redisSetDeadline, hparsed, run_bind_ok (run_liftExcept _)]
  dsimp only
  rw [hunit]
  simp only [habsolute]
  unfold setDeadlineChecked at h
  split_ifs at h ⊢ with hrange habs
  · cases h
    rfl
  · replace h := eq_some_of_checked_bind h
    cases h
    rfl
  · replace h := eq_some_of_checked_bind h
    replace h := eq_some_of_checked_bind h
    rw [run_bind_ok run_unixNano]
    split_ifs at h ⊢
    · cases h
      rfl
    · replace h := eq_some_of_checked_bind h
      cases h
      rfl

/-- `SETEX` computes what the checked arithmetic does, and then writes. -/
theorem run_redisSetEX_of_checked {name : Bytes} {result : Except GoError ℤ}
    (hparsed : redisParseInt amount = .ok count)
    (h : setDeadlineChecked false (amountUnit milliseconds) (wrapInt64 now) count = some result) :
    (redisSetEX milliseconds [name, key, amount, value]).run (embedded now) s =
      (replying do
        redisDeleteAndWriteString key value (← liftExcept result)
        return ok).run (embedded now) s := by
  have hunit : (if milliseconds = true then millisecond else second) = amountUnit milliseconds := rfl
  refine run_replying_congr ?_
  dsimp only
  rw [hparsed]
  dsimp only
  rw [hunit]
  unfold setDeadlineChecked at h
  by_cases hrange : count ≤ 0 ∨ count > redisMaxInt64 / amountUnit milliseconds
  · rw [if_pos hrange] at h ⊢
    cases h
    rfl
  · rw [if_neg hrange] at h ⊢
    replace h := eq_some_of_checked_bind h
    rw [if_neg Bool.false_ne_true] at h
    replace h := eq_some_of_checked_bind h
    rw [run_bind_ok run_unixNano]
    split_ifs at h ⊢
    · cases h
      rfl
    · replace h := eq_some_of_checked_bind h
      cases h
      rfl

end Computations

/-! ### Writes with a deadline -/

section Writes

variable {now expiresAt : ℤ} {key value payload codec data : Bytes} {s : Store}

theorem timeSub_eq (hnow : 0 ≤ now ∧ now < 2 ^ 63) (hpos : 0 < expiresAt)
    (hfits : expiresAt < 2 ^ 63) : timeSub expiresAt now = expiresAt - now := by
  unfold timeSub
  omega

/-- A string is written with the deadline it was given, as long as that is ahead. -/
theorem run_redisWriteStringWithCodec_exact (hnow : 0 ≤ now ∧ now < 2 ^ 63)
    (hahead : now < expiresAt) (hfits : expiresAt < 2 ^ 63)
    (hdata : marshalEnvelope codec payload expiresAt = .ok data) :
    run (embedded now) (redisWriteStringWithCodec key payload codec expiresAt) s =
      (.ok (), s.insert (valueKey key) data) := by
  refine run_redisWriteStringWithCodec_of_ahead (by omega) hahead ?_
  rw [timeSub_eq hnow (by omega) hfits, add_sub_cancel, wrapInt64_eq ⟨by omega, hfits⟩, hdata]

/-- A string is removed instead when the deadline has passed. -/
theorem run_redisWriteStringWithCodec_of_passed (hnow : 0 ≤ now ∧ now < 2 ^ 63)
    (hpos : 0 < expiresAt) (hpassed : expiresAt ≤ now) :
    run (embedded now) (redisWriteStringWithCodec key payload codec expiresAt) s =
      (.ok (), s.without key) := by
  rw [redisWriteStringWithCodec, if_neg (by omega), run_bind_ok run_now,
    timeSub_eq hnow (by omega) (by omega)]
  dsimp only
  rw [if_pos (by omega), run_bind_ok run_redisDeleteRaw]
  rfl

/-- The store that a string written over all records of its key leaves. -/
def overwritten (now : ℤ) (s : Store) (key value : Bytes) (expiresAt : ℤ) : Store :=
  if 0 < expiresAt ∧ expiresAt ≤ now then s.without key
  else (s.without key).insert (valueKey key) (bytesRecord value expiresAt)

theorem getElem?_without_collectionTTLKey :
    (s.without key)[collectionTTLKey key]? = none :=
  Store.getElem?_without_of_recordOf (.inr (.inr (.inl rfl)))

theorem run_redisDeleteAndWriteString (hnow : 0 ≤ now ∧ now < 2 ^ 63) (hzero : 0 ≤ expiresAt)
    (hfits : expiresAt < 2 ^ 63) :
    run (embedded now) (redisDeleteAndWriteString key value expiresAt) s =
      (.ok (), overwritten now s key value expiresAt) := by
  rw [redisDeleteAndWriteString, run_bind_ok run_redisDeleteRaw, redisWriteString,
    overwritten]
  rcases hzero.eq_or_lt with rfl | hpos
  · -- No deadline: the deadline record, which is gone already, is removed once more.
    have hput : run (embedded now) (putPayload (valueKey key) Redis.bytesCodec value 0)
        (s.without key) = (.ok (), (s.without key).insert (valueKey key) (bytesRecord value 0)) := rfl
    rw [if_neg (by omega), redisWriteStringWithCodec, if_pos le_rfl, run_bind_ok hput,
      Transport.run_delete, Store.erase_of_none]
    rw [Store.getElem?_insert_of_ne _ _ (valueKey_ne_collectionTTLKey _ _),
      getElem?_without_collectionTTLKey]
  · by_cases hahead : now < expiresAt
    · rw [if_neg (by omega), run_redisWriteStringWithCodec_exact hnow hahead hfits
        (marshalEnvelope_bytesCodec value expiresAt)]
    · rw [if_pos ⟨hpos, by omega⟩, run_redisWriteStringWithCodec_of_passed hnow hpos (by omega),
        Store.without_without]

/-- The probe of `SET` leaves no trace: the records of the key go anyway. -/
theorem overwritten_eq {s' : Store} (h : SameElsewhere key s s') :
    overwritten now s' key value expiresAt = overwritten now s key value expiresAt := by
  unfold overwritten
  rw [h.without_eq]

end Writes

/-! ### The commands -/

section Commands

variable {go : GoRuntime} {now count : ℤ} {amount key value option name : Bytes}
  {milliseconds absolute : Bool} {s s' : Store} {typ : RedisType}

/-- `SET` without conditions writes over whatever the key held. -/
theorem run_redisSetWith {options : SetOptions} (hnow : 0 ≤ now ∧ now < 2 ^ 63)
    (htype : run (embedded now) (redisType key) s = (.ok typ, s'))
    (hplain : options.nx = false ∧ options.xx = false ∧ options.get = false ∧
      options.keepTTL = false)
    (hzero : 0 ≤ options.expiresAt) (hfits : options.expiresAt < 2 ^ 63) :
    run (embedded now) (redisSetWith key value options) s =
      (.ok ok, overwritten now s key value options.expiresAt) := by
  obtain ⟨expiresAt, hasExpiry, nx, xx, get, keepTTL⟩ := options
  obtain ⟨rfl, rfl, rfl, rfl⟩ := hplain
  rw [redisSetWith, run_bind_ok htype]
  simp only [Bool.false_eq_true, false_and, if_false, redisSetOld, redisSetExpiresAt, pure_bind]
  rw [run_bind_ok (run_redisDeleteAndWriteString hnow hzero hfits),
    overwritten_eq (sameElsewhere_of_run_redisType htype)]
  rfl

/-- The deadlines that the checks let through are 64-bit integers ahead of the epoch. -/
theorem setDeadline_eq_ok {expiresAt : ℤ} (hnow : 0 ≤ now)
    (h : setDeadline milliseconds absolute now count = .ok expiresAt) :
    expiresAt = amountDeadline milliseconds absolute now count ∧ 0 < expiresAt ∧
      expiresAt < 2 ^ 63 := by
  unfold setDeadline at h
  split_ifs at h with hcount
  cases h
  refine ⟨rfl, ?_, hcount.2⟩
  have hunit := amountUnit_cases milliseconds
  unfold amountDeadline
  generalize amountUnit milliseconds = unit at hunit
  rcases hunit with rfl | rfl <;> split <;> omega

/-- The options of a `SET` with one expiry option. -/
theorem run_redisSetOptions (hnow : 0 ≤ now ∧ now < 2 ^ 63)
    (hparsed : redisParseInt amount = .ok count)
    (hoption : go.toUpper option = setOptionName milliseconds absolute) :
    run (embedded now) (redisSetOptions go {} [option, amount]) s =
      ((setDeadline milliseconds absolute now count).map fun expiresAt =>
        { expiresAt := expiresAt, hasExpiry := true }, s) := by
  have hcurrent : wrapInt64 now = now := wrapInt64_eq ⟨by omega, hnow.2⟩
  have hdeadline : run (embedded now)
      (redisSetDeadline (setOptionName milliseconds absolute) amount) s =
        (setDeadline milliseconds absolute now count, s) :=
    run_redisSetDeadline_of_checked hparsed (by rw [hcurrent, setDeadlineChecked_eq hnow])
  have hloop : redisSetOptions go {} [option, amount] = do
      let expiresAt ← redisSetDeadline (setOptionName milliseconds absolute) amount
      return { expiresAt := expiresAt, hasExpiry := true } := by
    rw [redisSetOptions, hoption]
    cases milliseconds <;> cases absolute <;> rfl
  rw [hloop, run_bind, hdeadline]
  cases setDeadline milliseconds absolute now count <;> rfl

/-- `SET` with one expiry option. -/
theorem run_redisSet_of_option (hnow : 0 ≤ now ∧ now < 2 ^ 63)
    (hparsed : redisParseInt amount = .ok count)
    (hoption : go.toUpper option = setOptionName milliseconds absolute)
    (htype : run (embedded now) (redisType key) s = (.ok typ, s')) :
    (redisSet go [name, key, value, option, amount]).run (embedded now) s =
      match setDeadline milliseconds absolute now count with
      | .ok expiresAt => (ok, overwritten now s key value expiresAt)
      | .error err => (redisErrorReply err, s) := by
  have hoptions : run (embedded now) (redisSetOptions go {} [option, amount]) s = _ :=
    run_redisSetOptions hnow hparsed hoption
  cases hdeadline : setDeadline milliseconds absolute now count with
  | ok expiresAt =>
    obtain ⟨-, hpos, hfits⟩ := setDeadline_eq_ok hnow.1 hdeadline
    rw [hdeadline] at hoptions
    refine run_replying ((run_bind_ok hoptions).trans ?_)
    exact run_redisSetWith hnow htype ⟨rfl, rfl, rfl, rfl⟩ hpos.le hfits
  | error err =>
    rw [hdeadline] at hoptions
    exact run_replying_error (run_bind_error hoptions)

/-- `SET` without options. -/
theorem run_redisSet (hnow : 0 ≤ now ∧ now < 2 ^ 63)
    (htype : run (embedded now) (redisType key) s = (.ok typ, s')) :
    (redisSet go [name, key, value]).run (embedded now) s =
      (ok, overwritten now s key value 0) :=
  run_replying (run_redisSetWith hnow htype ⟨rfl, rfl, rfl, rfl⟩ le_rfl (by decide))

/-- `SETEX` and `PSETEX`. -/
theorem run_redisSetEX (hnow : 0 ≤ now ∧ now < 2 ^ 63)
    (hparsed : redisParseInt amount = .ok count) :
    (redisSetEX milliseconds [name, key, amount, value]).run (embedded now) s =
      match setDeadline milliseconds false now count with
      | .ok expiresAt => (ok, overwritten now s key value expiresAt)
      | .error err => (redisErrorReply err, s) := by
  have hcurrent : wrapInt64 now = now := wrapInt64_eq ⟨by omega, hnow.2⟩
  rw [run_redisSetEX_of_checked hparsed (by rw [hcurrent, setDeadlineChecked_eq hnow])]
  cases hdeadline : setDeadline milliseconds false now count with
  | ok expiresAt =>
    obtain ⟨-, hpos, hfits⟩ := setDeadline_eq_ok hnow.1 hdeadline
    refine run_replying ((run_bind_ok (run_liftExcept _)).trans ?_)
    rw [run_bind_ok (run_redisDeleteAndWriteString hnow hpos.le hfits)]
    rfl
  | error err => exact run_replying_error (run_bind_error (run_liftExcept _))

/-- The `EXPIRE` family accepts the positive amounts whose deadline fits. -/
theorem redisExpiryFromCommand_of_pos (hnow : 0 ≤ now ∧ now < 2 ^ 63) (hcount : 0 < count) :
    redisExpiryFromCommand now (expireName milliseconds absolute) count =
      if amountDeadline milliseconds absolute now count < 2 ^ 63 then
        .ok (amountDeadline milliseconds absolute now count)
      else .error invalidExpireTime := by
  have hcurrent : wrapInt64 now = now := wrapInt64_eq ⟨by omega, hnow.2⟩
  have hunit := amountUnit_cases milliseconds
  unfold redisExpiryFromCommand amountDeadline
  rw [(expireName_spec _ _).1, (expireName_spec _ _).2, hcurrent]
  generalize amountUnit milliseconds = unit at hunit
  have hpos : 0 < count * unit := by
    rcases hunit with rfl | rfl <;> omega
  by_cases hrange : count > redisMaxInt64.tdiv unit ∨ count < redisMinInt64.tdiv unit
  · have hlarge : ¬ IsInt64 (count * unit) := fun h => (isInt64_mul_iff hunit).mp h hrange
    rw [if_pos hrange, if_neg]
    intro hfits
    refine hlarge ⟨by omega, ?_⟩
    split at hfits <;> omega
  · obtain ⟨-, hdelta⟩ := (isInt64_mul_iff hunit).mpr hrange
    rw [if_neg hrange]
    cases absolute with
    | true => rw [if_pos rfl, if_pos rfl, zero_add, if_pos hdelta]
    | false =>
      have hnotneg : ¬ (count * unit < 0 ∧ now < redisMinInt64 - count * unit) := by omega
      simp only [Bool.false_eq_true, if_false, if_neg hnotneg]
      by_cases hfits : now + count * unit < 2 ^ 63
      · rw [if_pos hfits, if_neg]
        unfold redisMaxInt64
        omega
      · rw [if_neg hfits, if_pos]
        unfold redisMaxInt64
        omega

/-- A string takes a new deadline, or goes when that has passed. -/
theorem run_redisSetExpiry_of_string {old data : Bytes} {held : Envelope} {expiresAt : ℤ}
    (hnow : 0 ≤ now ∧ now < 2 ^ 63) (hfits : expiresAt < 2 ^ 63)
    (htype : run (embedded now) (redisType key) s = (.ok .string, s))
    (hget : s[valueKey key]? = some old) (hold : unmarshalEnvelope old = .ok held)
    (hdata : marshalEnvelope held.codec held.payload expiresAt = .ok data) :
    run (embedded now) (redisSetExpiry key expiresAt) s =
      if expiresAt ≤ now then (.ok true, s.without key)
      else (.ok true, (s.insert (valueKey key) data).erase (collectionTTLKey key)) := by
  have hcurrent : wrapInt64 now = now := wrapInt64_eq ⟨by omega, hnow.2⟩
  rw [redisSetExpiry, run_bind_ok htype, if_neg (by decide),
    run_bind_ok run_unixNano, hcurrent]
  split
  · rw [run_bind_ok run_redisDeleteRaw]
    rfl
  · next hahead =>
    have hwrite : run (embedded now)
        (redisWriteStringWithCodec key held.payload held.codec expiresAt) s =
          (.ok (), s.insert (valueKey key) data) :=
      run_redisWriteStringWithCodec_exact hnow (not_le.mp hahead) hfits hdata
    rw [if_pos rfl, run_bind_ok Transport.run_get, hget]
    dsimp only
    rw [hold, run_bind_ok (run_liftExcept _), run_bind_ok hwrite]
    rfl

/-- The code of a command of the `EXPIRE` family once the amount has been parsed. -/
theorem redisExpireCommand_of_parsed (command : Bytes) (hparsed : redisParseInt amount = .ok count) :
    redisExpireCommand command [name, key, amount] = replying do
      let expiresAt ← liftExcept (redisExpiryFromCommand (← KVLite.now) command count)
      if ← redisSetExpiry key expiresAt then return .integer 1 else return .integer 0 := by
  rw [redisExpireCommand, hparsed]
  rfl

theorem run_redisExpireCommand_of_ok {command : Bytes} {expiresAt : ℤ}
    (hparsed : redisParseInt amount = .ok count)
    (hdeadline : redisExpiryFromCommand now command count = .ok expiresAt)
    (hset : run (embedded now) (redisSetExpiry key expiresAt) s = (.ok true, s')) :
    (redisExpireCommand command [name, key, amount]).run (embedded now) s = (.integer 1, s') := by
  rw [redisExpireCommand_of_parsed command hparsed]
  refine run_replying ((run_bind_ok run_now).trans ?_)
  rw [hdeadline, run_bind_ok (run_liftExcept _), run_bind_ok hset]
  rfl

theorem run_redisExpireCommand_of_error {command : Bytes} {err : GoError}
    (hparsed : redisParseInt amount = .ok count)
    (hdeadline : redisExpiryFromCommand now command count = .error err) :
    (redisExpireCommand command [name, key, amount]).run (embedded now) s =
      (redisErrorReply err, s) := by
  rw [redisExpireCommand_of_parsed command hparsed]
  refine run_replying_error ((run_bind_ok run_now).trans ?_)
  rw [hdeadline, run_bind_error (run_liftExcept _)]

end Commands

/-! ### Agreement -/

/-- The command accepts its deadline exactly when that is a 64-bit integer: then it replies
`accepted` and the key carries the deadline, and else it replies `refused` and changes
nothing. -/
def SetsDeadline (now : ℤ) (key : Bytes) (deadline : ℤ) (accepted refused : Resp)
    (command : Program Calls Resp) (s : Store) : Prop :=
  if IsInt64 deadline then
    (command.run (embedded now) s).1 = accepted ∧
      storedDeadline (command.run (embedded now) s).2 key = some deadline
  else command.run (embedded now) s = (refused, s)

/-- Every product, sum and difference that the commands compute for an amount is a 64-bit
integer: the checked arithmetic is defined and is what they compute. -/
structure AmountInRange (now : ℤ) (milliseconds : Bool) (amount : Bytes) (count : ℤ) : Prop where
  set : ∀ absolute s, setDeadlineChecked absolute (amountUnit milliseconds) now count =
    some (run (embedded now)
      (redisSetDeadline (setOptionName milliseconds absolute) amount) s).1
  setEX : ∃ result, setDeadlineChecked false (amountUnit milliseconds) now count = some result ∧
    ∀ name key value s, (redisSetEX milliseconds [name, key, amount, value]).run (embedded now) s =
      (replying do
        redisDeleteAndWriteString key value (← liftExcept result)
        return ok).run (embedded now) s
  expire : ∀ absolute, expiryChecked absolute (amountUnit milliseconds) now count =
    some (redisExpiryFromCommand now (expireName milliseconds absolute) count)
  write : ∀ expiresAt, 0 < expiresAt → expiresAt < 2 ^ 63 → ∃ written,
    written = (if expiresAt ≤ now then none else some expiresAt) ∧
    writeChecked now expiresAt = some written ∧ ∀ key payload codec data s,
      (∀ deadline ∈ written, marshalEnvelope codec payload deadline = .ok data) →
      run (embedded now) (redisWriteStringWithCodec key payload codec expiresAt) s =
        (.ok (), written.elim (s.without key) fun _ => s.insert (valueKey key) data)

section Agreement

variable {go : GoRuntime} {now count : ℤ} {amount key value option name : Bytes}
  {milliseconds absolute : Bool} {s s' : Store} {typ : RedisType}

theorem amountInRange (hnow : 0 ≤ now ∧ now < 2 ^ 63)
    (hparsed : redisParseInt amount = .ok count) : AmountInRange now milliseconds amount count := by
  have hcurrent : wrapInt64 now = now := wrapInt64_eq ⟨by omega, hnow.2⟩
  have hchecked : ∀ absolute, setDeadlineChecked absolute (amountUnit milliseconds) (wrapInt64 now)
      count = some (setDeadline milliseconds absolute now count) := by
    intro absolute
    rw [hcurrent, setDeadlineChecked_eq hnow]
  refine ⟨fun absolute s => ?_, ⟨_, setDeadlineChecked_eq hnow, fun name key value s => ?_⟩,
    fun _ => expiryChecked_eq hnow, fun expiresAt hpos hfits => ⟨_, rfl, writeChecked_eq hnow hpos hfits,
      fun key payload codec data s hdata => ?_⟩⟩
  · rw [run_redisSetDeadline_of_checked hparsed (hchecked absolute), setDeadlineChecked_eq hnow]
  · exact run_redisSetEX_of_checked hparsed (hchecked false)
  · by_cases hpassed : expiresAt ≤ now
    · rw [if_pos hpassed, run_redisWriteStringWithCodec_of_passed hnow hpos hpassed, Option.elim_none]
    · rw [if_neg hpassed] at hdata ⊢
      rw [run_redisWriteStringWithCodec_exact hnow (not_le.mp hpassed) hfits (hdata _ rfl),
        Option.elim_some]

theorem storedDeadline_of_value {data : Bytes} {held : Envelope}
    (hget : s[valueKey key]? = some data) (hheld : unmarshalEnvelope data = .ok held)
    (hpos : 0 < held.expiresAt) : storedDeadline s key = some held.expiresAt := by
  simp only [storedDeadline, hget, hheld, gt_iff_lt, hpos, if_true]

theorem storedDeadline_overwritten {expiresAt : ℤ} (hnow : 0 ≤ now) (hahead : now < expiresAt)
    (hfits : expiresAt < 2 ^ 63) :
    storedDeadline (overwritten now s key value expiresAt) key = some expiresAt := by
  have hheld : unmarshalEnvelope (bytesRecord value expiresAt) = .ok _ :=
    unmarshalEnvelope_bytesRecord ⟨by omega, hfits⟩
  rw [overwritten, if_neg (by omega)]
  refine storedDeadline_of_value ?_ hheld (show 0 < expiresAt by omega)
  rw [Store.getElem?_insert, if_pos rfl]

/-- The deadline of a positive amount is ahead of what it counts from. -/
theorem lt_amountDeadline (hcount : 0 < count) :
    (if absolute then 0 else now) < amountDeadline milliseconds absolute now count := by
  have hunit := amountUnit_cases milliseconds
  unfold amountDeadline
  generalize amountUnit milliseconds = unit at hunit
  rcases hunit with rfl | rfl <;> omega

/-- A command that overwrites the key with the deadline of `setDeadline`. -/
theorem setsDeadline_of_overwritten {command : Program Calls Resp} (hnow : 0 ≤ now)
    (hcount : 0 < count) (hrun : command.run (embedded now) s =
      match setDeadline milliseconds false now count with
      | .ok expiresAt => (ok, overwritten now s key value expiresAt)
      | .error err => (redisErrorReply err, s)) :
    SetsDeadline now key (amountDeadline milliseconds false now count) ok
      (redisErrorReply invalidExpireInSet) command s := by
  have hahead : now < amountDeadline milliseconds false now count := by
    have hlt := @lt_amountDeadline now count milliseconds false hcount
    exact hlt
  rw [setDeadline] at hrun
  by_cases hfits : amountDeadline milliseconds false now count < 2 ^ 63
  · rw [if_pos ⟨hcount, hfits⟩] at hrun
    rw [SetsDeadline, if_pos ⟨by omega, hfits⟩, hrun]
    exact ⟨rfl, storedDeadline_overwritten hnow hahead hfits⟩
  · rw [if_neg fun h => hfits h.2] at hrun
    rw [SetsDeadline, if_neg fun h => hfits h.2, hrun]

/-- A string takes the deadline of `EXPIRE`. -/
theorem setsDeadline_redisExpireCommand (hnow : 0 ≤ now ∧ now < 2 ^ 63) (hcount : 0 < count)
    (hparsed : redisParseInt amount = .ok count)
    (htype : run (embedded now) (redisType key) s = (.ok .string, s')) :
    SetsDeadline now key (amountDeadline milliseconds false now count) (.integer 1)
      (redisErrorReply invalidExpireTime)
      (redisExpireCommand (expireName milliseconds false) [name, key, amount]) s := by
  obtain ⟨rfl, held, -, ⟨old, hget, hold⟩, -⟩ := (typeOutcome_of_run htype).liveValue
  have hahead : now < amountDeadline milliseconds false now count := by
    have hlt := @lt_amountDeadline now count milliseconds false hcount
    exact hlt
  have hdeadline := @redisExpiryFromCommand_of_pos now count milliseconds false hnow hcount
  have hcodec : held.codec.length ≤ 65535 :=
    (marshalEnvelope_eq_ok.mp (marshalEnvelope_unmarshalEnvelope hold)).1
  generalize amountDeadline milliseconds false now count = deadline at hahead hdeadline ⊢
  obtain ⟨data, hdata⟩ : ∃ data, marshalEnvelope held.codec held.payload deadline = .ok data :=
    ⟨_, marshalEnvelope_eq_ok.mpr ⟨hcodec, rfl⟩⟩
  by_cases hfits : deadline < 2 ^ 63
  · have hset := run_redisSetExpiry_of_string hnow hfits htype hget hold hdata
    rw [if_neg (by omega)] at hset
    rw [if_pos hfits] at hdeadline
    rw [SetsDeadline, if_pos ⟨by omega, hfits⟩,
      run_redisExpireCommand_of_ok hparsed hdeadline hset]
    refine ⟨rfl, storedDeadline_of_value ?_ (unmarshalEnvelope_marshalEnvelope ⟨by omega, hfits⟩ hdata)
      (show 0 < deadline by omega)⟩
    rw [Store.getElem?_erase_of_ne _ (collectionTTLKey_ne_valueKey _ _), Store.getElem?_insert,
      if_pos rfl]
  · rw [if_neg hfits] at hdeadline
    rw [SetsDeadline, if_neg fun h => hfits h.2, run_redisExpireCommand_of_error hparsed hdeadline]

/-- The probe finds the string that a `SET` without options has written. -/
theorem run_redisType_overwritten :
    run (embedded now) (redisType key) (overwritten now s key value 0) =
      (.ok .string, overwritten now s key value 0) := by
  have hwritten : overwritten now s key value 0 =
      (s.without key).insert (valueKey key) (bytesRecord value 0) := if_neg (by omega)
  rw [hwritten]
  refine run_redisType_of_value ?_ (run_probeValue_of_live (by rw [Store.getElem?_insert, if_pos rfl])
    (unmarshalEnvelope_bytesRecord (by decide)) rfl)
  intro data hdata
  rw [Store.getElem?_insert_of_ne _ _ (valueKey_ne_collectionTTLKey _ _),
    getElem?_without_collectionTTLKey] at hdata
  cases hdata

/-- A string written with a deadline and one that gets it afterwards leave the same store. -/
theorem run_redisSetExpiry_overwritten {expiresAt : ℤ} (hnow : 0 ≤ now ∧ now < 2 ^ 63)
    (hpos : 0 < expiresAt) (hfits : expiresAt < 2 ^ 63) :
    run (embedded now) (redisSetExpiry key expiresAt) (overwritten now s key value 0) =
      (.ok true, overwritten now s key value expiresAt) := by
  have hwritten : overwritten now s key value 0 =
      (s.without key).insert (valueKey key) (bytesRecord value 0) := if_neg (by omega)
  have hget : (overwritten now s key value 0)[valueKey key]? = some (bytesRecord value 0) := by
    rw [hwritten, Store.getElem?_insert, if_pos rfl]
  rw [run_redisSetExpiry_of_string hnow hfits run_redisType_overwritten hget
    (unmarshalEnvelope_bytesRecord (by decide)) (marshalEnvelope_bytesCodec value expiresAt),
    hwritten]
  by_cases hpassed : expiresAt ≤ now
  · have hsame : SameElsewhere key s ((s.without key).insert (valueKey key) (bytesRecord value 0)) :=
      (SameElsewhere.refl key s).without.insert (.inl rfl)
    rw [if_pos hpassed, overwritten, if_pos ⟨hpos, hpassed⟩, hsame.without_eq]
  · rw [if_neg hpassed, overwritten, if_neg (by omega), Store.insert_insert, Store.erase_of_none]
    rw [Store.getElem?_insert_of_ne _ _ (valueKey_ne_collectionTTLKey _ _),
      getElem?_without_collectionTTLKey]

end Agreement

/-- The probe of the key does not fail: no record of the key is malformed. -/
def ProbeSucceeds (now : ℤ) (key : Bytes) (s : Store) : Prop :=
  ∃ typ s', run (embedded now) (redisType key) s = (.ok typ, s')

/-- The key holds a string. -/
def ProbesString (now : ℤ) (key : Bytes) (s : Store) : Prop :=
  ∃ s', run (embedded now) (redisType key) s = (.ok .string, s')

/-- For every clock reading, unit, key, value, amount and store. `SET` with a relative option,
`SETEX` and, on a string, `EXPIRE` accept a positive amount exactly when the deadline is a
64-bit integer, and store that deadline. `SET` with an absolute option, and `SET` followed by
`EXPIREAT`, accept it exactly when the deadline is one, and leave the same store. Whatever the
amount, nothing that they compute leaves the range. `SET` starts with a probe of the key,
which malformed records make fail. -/
theorem expiry_computations_agree (go : GoRuntime) (now : ℤ) (hnow : 0 ≤ now ∧ now < 2 ^ 63)
    (milliseconds : Bool) (key value amount relative absolute name : Bytes) (count : ℤ)
    (hparsed : redisParseInt amount = .ok count)
    (hrelative : go.toUpper relative = setOptionName milliseconds false)
    (habsolute : go.toUpper absolute = setOptionName milliseconds true) (s : Store) :
    (0 < count →
      (ProbeSucceeds now key s → SetsDeadline now key (now + count * amountUnit milliseconds) ok
        (redisErrorReply invalidExpireInSet) (redisSet go [name, key, value, relative, amount]) s) ∧
      SetsDeadline now key (now + count * amountUnit milliseconds) ok
        (redisErrorReply invalidExpireInSet) (redisSetEX milliseconds [name, key, amount, value]) s ∧
      (ProbesString now key s → SetsDeadline now key (now + count * amountUnit milliseconds)
        (.integer 1) (redisErrorReply invalidExpireTime)
        (redisExpireCommand (expireName milliseconds false) [name, key, amount]) s)) ∧
    (0 < count → ProbeSucceeds now key s →
      let set := (redisSet go [name, key, value, absolute, amount]).run (embedded now) s
      let plain := ((redisSet go [name, key, value]).run (embedded now) s).2
      let expire := (redisExpireCommand (expireName milliseconds true) [name, key, amount]).run
        (embedded now) plain
      if IsInt64 (count * amountUnit milliseconds) then
        set.1 = ok ∧ expire.1 = .integer 1 ∧ set.2 = expire.2
      else set = (redisErrorReply invalidExpireInSet, s) ∧
        expire = (redisErrorReply invalidExpireTime, plain)) ∧
    AmountInRange now milliseconds amount count := by
  refine ⟨fun hcount => ⟨?_, ?_, ?_⟩, ?_, amountInRange hnow hparsed⟩
  · rintro ⟨typ, s', hprobe⟩
    exact setsDeadline_of_overwritten hnow.1 hcount
      (run_redisSet_of_option hnow hparsed hrelative hprobe)
  · exact setsDeadline_of_overwritten hnow.1 hcount (run_redisSetEX hnow hparsed)
  · rintro ⟨s', hprobe⟩
    exact setsDeadline_redisExpireCommand hnow hcount hparsed hprobe
  · rintro hcount ⟨typ, s', hprobe⟩ set plain expire
    have hzero : amountDeadline milliseconds true now count = count * amountUnit milliseconds :=
      zero_add _
    have hahead : 0 < amountDeadline milliseconds true now count := lt_amountDeadline hcount
    have hset : set = _ := run_redisSet_of_option hnow hparsed habsolute hprobe
    have hplain : plain = overwritten now s key value 0 :=
      congrArg Prod.snd (run_redisSet hnow hprobe)
    have hdeadline := @redisExpiryFromCommand_of_pos now count milliseconds true hnow hcount
    rw [setDeadline] at hset
    rw [← hzero]
    generalize amountDeadline milliseconds true now count = deadline at hahead hset hdeadline ⊢
    by_cases hfits : deadline < 2 ^ 63
    · have hexpire : expire = (.integer 1, overwritten now s key value deadline) := by
        refine run_redisExpireCommand_of_ok hparsed (hdeadline.trans (if_pos hfits)) ?_
        rw [hplain]
        exact run_redisSetExpiry_overwritten hnow hahead hfits
      rw [if_pos ⟨hcount, hfits⟩] at hset
      rw [if_pos ⟨by omega, hfits⟩, hset, hexpire]
      exact ⟨rfl, rfl, rfl⟩
    · rw [if_neg fun h => hfits h.2] at hset
      rw [if_neg fun h => hfits h.2]
      exact ⟨hset, run_redisExpireCommand_of_error hparsed (hdeadline.trans (if_neg hfits))⟩

/-- Ten seconds over a string, at the epoch. -/
theorem expiry_computations_agree_ten :
    SetsDeadline 0 (text "k") (0 + 10 * amountUnit false) ok (redisErrorReply invalidExpireInSet)
      (redisSet .upperCase [text "SET", text "k", text "v", text "EX", text "10"])
      ((∅ : Store).insert (valueKey (text "k")) (bytesRecord (text "old") 0)) := by
  have hparsed : redisParseInt (text "10") = .ok 10 :=
    redisParseInt_eq_ok_iff.mpr ⟨rfl, by decide⟩
  have hprobe : ProbeSucceeds 0 (text "k")
      ((∅ : Store).insert (valueKey (text "k")) (bytesRecord (text "old") 0)) := ⟨.string, _, rfl⟩
  exact ((expiry_computations_agree .upperCase 0 (by decide) false (text "k") (text "v")
    (text "10") (text "EX") (text "EXAT") (text "SET") 10 hparsed rfl rfl _).1 (by decide)).1 hprobe

end KVLite.Redis
