import KVLite.Expiry.Updates
import KVLite.Replies.SharedCounters
import Mathlib.Data.Int.ConditionallyCompleteOrder

/-!
# Updates of a string that expires meanwhile

`APPEND` and the counting commands read a string, look up its deadline and write the new
string with that deadline. They read the clock five times, and the string may expire between
any two readings. When it expires after it was read and before its deadline is looked up,
the look-up finds no key and no deadline: the new string, made from the old one, is written
to stay.
-/

namespace KVLite.Expiry

open Semantics Fallible BigEndian Redis

/-- The key has one record, a string with a deadline. -/
structure HoldsString (s : Store) (key : Bytes) (value : StoredValue) : Prop where
  record : ∃ data, s[valueKey key]? = some data ∧ unmarshalEnvelope data = .ok value
  positive : 0 < value.expiresAt
  alone : ∀ storageKey, RecordOf key storageKey → storageKey ≠ valueKey key →
    s[storageKey]? = none

/-! ### The reads -/

section Reads

variable {clock : ℕ → ℤ} {tick : ℕ} {s : Store} {key : Bytes} {value : StoredValue}

/-- The test of a deadline takes one reading. -/
theorem run_expiredNow_reading (hint : IsInt64 (clock tick)) {expiresAt : ℤ} (hpos : 0 < expiresAt) :
    run (ticking clock) (expiredNow expiresAt) (tick, s) =
      (.ok (decide (expiresAt ≤ clock tick)), (tick + 1, s)) := by
  rw [expiredNow, if_pos hpos, run_bind_ok run_now_ticking, wrapInt64_eq hint]
  rfl

theorem run_scan_ticking {pre : Bytes} :
    run (ticking clock) (Transport.scanPrefix pre) (tick, s) =
      (.ok (s.scan pre, none), (tick, s)) := rfl

theorem run_redisKeyExpired_of_none (h : s[collectionTTLKey key]? = none) :
    run (ticking clock) (redisKeyExpired key) (tick, s) = (.ok false, (tick, s)) := by
  rw [redisKeyExpired, redisMetadataExpiry, bind_assoc, run_bind_ok run_get_ticking, h]
  rfl

/-- The probes after the one for a value, where no record of the key is left. -/
theorem run_redisType_of_no_value {tick' : ℕ} {s' : Store} (hnone : s[collectionTTLKey key]? = none)
    (hs' : NoRecordOf key s')
    (hvalue : run (ticking clock) (probeValue key) (tick, s) = (.ok false, (tick', s'))) :
    run (ticking clock) (redisType key) (tick, s) = (.ok .none, (tick', s')) := by
  have hfields : s'.scan (namespacePrefix kindHash key) = [] :=
    Store.scan_eq_nil_iff.mpr fun r hpre => hs' r (.inr (.inr (.inr (.inl hpre))))
  have hmembers : s'.scan (namespacePrefix kindSet key) = [] :=
    Store.scan_eq_nil_iff.mpr fun r hpre => hs' r (.inr (.inr (.inr (.inr hpre))))
  have hhash : run (ticking clock) (probeHash key) (tick', s') = (.ok false, (tick', s')) := by
    rw [probeHash, run_bind_ok run_scan_ticking, hfields]
    rfl
  have hset : run (ticking clock) (probeSet key) (tick', s') = (.ok false, (tick', s')) := by
    have hscan : run (ticking clock) (Transport.scanAll (namespacePrefix kindSet key))
        (tick', s') = (.ok [], (tick', s')) := by
      rw [Transport.scanAll, run_bind_ok run_scan_ticking, hmembers]
      rfl
    rw [probeSet, run_bind_ok hscan]
    rfl
  have hlist : run (ticking clock) (probeList key) (tick', s') = (.ok false, (tick', s')) := by
    rw [probeList, run_bind_ok run_get_ticking, hs' _ (.inr (.inl rfl))]
    rfl
  rw [redisType, run_bind_ok (run_redisKeyExpired_of_none hnone),
    if_neg Bool.false_ne_true, run_bind_ok hvalue, if_neg Bool.false_ne_true,
    run_bind_ok hhash, if_neg Bool.false_ne_true, run_bind_ok hset,
    if_neg Bool.false_ne_true, run_bind_ok hlist]
  rfl

/-- A key without records is absent at every reading, and no reading is taken. -/
theorem run_redisType_of_noRecordOf (h : NoRecordOf key s) :
    run (ticking clock) (redisType key) (tick, s) = (.ok .none, (tick, s)) := by
  refine run_redisType_of_no_value (h _ (.inr (.inr (.inl rfl)))) h ?_
  rw [probeValue, run_bind_ok run_get_ticking, h _ (.inl rfl)]
  rfl

theorem run_redisExpiry_of_noRecordOf (h : NoRecordOf key s) :
    run (ticking clock) (redisExpiry key) (tick, s) = (.ok none, (tick, s)) := by
  rw [redisExpiry, run_bind_ok (run_redisType_of_noRecordOf h)]
  rfl

variable (h : HoldsString s key value)

include h

theorem HoldsString.noRecordOf_erase : NoRecordOf key (s.erase (valueKey key)) := by
  intro storageKey hrecord
  rw [Store.getElem?_erase]
  split
  · rfl
  · next hne => exact h.alone storageKey hrecord fun heq => hne heq.symm

theorem HoldsString.run_probeValue (hint : IsInt64 (clock tick)) :
    run (ticking clock) (probeValue key) (tick, s) =
      if value.expiresAt ≤ clock tick then (.ok false, (tick + 1, s.erase (valueKey key)))
      else (.ok true, (tick + 1, s)) := by
  obtain ⟨data, hget, hvalue⟩ := h.record
  rw [probeValue, run_bind_ok run_get_ticking, hget]
  dsimp only
  rw [run_bind_ok (run_liftExcept_of_eq hvalue),
    run_bind_ok (run_expiredNow_reading hint h.positive)]
  by_cases hpassed : value.expiresAt ≤ clock tick
  · rw [if_pos hpassed, decide_eq_true hpassed]
    rfl
  · rw [if_neg hpassed, decide_eq_false hpassed]
    rfl

/-- The probe takes one reading. -/
theorem HoldsString.run_redisType (hint : IsInt64 (clock tick)) :
    run (ticking clock) (redisType key) (tick, s) =
      if value.expiresAt ≤ clock tick then (.ok .none, (tick + 1, s.erase (valueKey key)))
      else (.ok .string, (tick + 1, s)) := by
  have hnone : s[collectionTTLKey key]? = none :=
    h.alone _ (.inr (.inr (.inl rfl))) (collectionTTLKey_ne_valueKey _ _)
  have hprobe := h.run_probeValue hint
  by_cases hpassed : value.expiresAt ≤ clock tick
  · rw [if_pos hpassed] at hprobe ⊢
    exact run_redisType_of_no_value hnone h.noRecordOf_erase hprobe
  · rw [if_neg hpassed] at hprobe ⊢
    rw [redisType, run_bind_ok (run_redisKeyExpired_of_none hnone),
      if_neg Bool.false_ne_true, run_bind_ok hprobe]
    rfl

/-- The string is read, with two readings, if the second one is before its deadline. -/
theorem HoldsString.run_redisString_of_before (hint : ∀ n, IsInt64 (clock n)) (hmono : Monotone clock)
    (hbefore : clock (tick + 1) < value.expiresAt) :
    run (ticking clock) (redisString key) (tick, s) =
      (.ok (some value.payload), (tick + 2, s)) := by
  obtain ⟨data, hget, hvalue⟩ := h.record
  have hfirst : clock tick ≤ clock (tick + 1) := hmono (Nat.le_succ tick)
  have htype := h.run_redisType (hint tick)
  rw [if_neg (by omega)] at htype
  rw [redisString, run_bind_ok htype]
  dsimp only
  rw [run_bind_ok run_get_ticking, hget]
  dsimp only
  rw [run_bind_ok (run_liftExcept_of_eq hvalue),
    run_bind_ok (run_expiredNow_reading (hint _) h.positive),
    decide_eq_false (not_le.mpr hbefore)]
  rfl

/-- Otherwise the key is removed. -/
theorem HoldsString.run_redisString_of_passed (hint : ∀ n, IsInt64 (clock n))
    (hpassed : value.expiresAt ≤ clock (tick + 1)) :
    ∃ tick' s', run (ticking clock) (redisString key) (tick, s) = (.ok none, (tick', s')) ∧
      NoRecordOf key s' := by
  obtain ⟨data, hget, hvalue⟩ := h.record
  have htype := h.run_redisType (hint tick)
  rw [redisString]
  by_cases hfirst : value.expiresAt ≤ clock tick
  · rw [if_pos hfirst] at htype
    rw [run_bind_ok htype]
    exact ⟨_, _, rfl, h.noRecordOf_erase⟩
  · rw [if_neg hfirst] at htype
    rw [run_bind_ok htype]
    dsimp only
    rw [run_bind_ok run_get_ticking, hget]
    dsimp only
    rw [run_bind_ok (run_liftExcept_of_eq hvalue),
      run_bind_ok (run_expiredNow_reading (hint _) h.positive), decide_eq_true hpassed,
      if_pos rfl]
    have hdelete : run (ticking clock) (ignoringError (redisDeleteRaw key)) (tick + 1 + 1, s) =
        (.ok (), (tick + 1 + 1, s.without key)) := by
      rw [run_ignoringError, run_redisDeleteRaw_ticking]
    rw [run_bind_ok hdelete]
    exact ⟨_, _, rfl, Store.noRecordOf_without s key⟩

/-- The deadline is looked up with one reading; from the deadline on the key is removed. -/
theorem HoldsString.run_redisExpiry (hint : IsInt64 (clock tick)) :
    run (ticking clock) (redisExpiry key) (tick, s) =
      if value.expiresAt ≤ clock tick then (.ok none, (tick + 1, s.erase (valueKey key)))
      else (.ok (some value.expiresAt), (tick + 1, s)) := by
  obtain ⟨data, hget, hvalue⟩ := h.record
  have htype := h.run_redisType hint
  rw [redisExpiry]
  by_cases hpassed : value.expiresAt ≤ clock tick
  · rw [if_pos hpassed] at htype ⊢
    rw [run_bind_ok htype]
    rfl
  · rw [if_neg hpassed] at htype ⊢
    rw [run_bind_ok htype]
    dsimp only
    rw [run_bind_ok run_get_ticking, hget]
    dsimp only
    rw [run_bind_ok (run_liftExcept_of_eq hvalue), if_pos h.positive]
    rfl

end Reads

/-! ### The write -/

section Writes

variable {clock : ℕ → ℤ} {tick : ℕ} {s : Store} {key payload : Bytes} {expiresAt : ℤ}

/-- Without a deadline no reading is taken. -/
theorem run_redisWriteString_zero_ticking :
    run (ticking clock) (redisWriteString key payload 0) (tick, s) =
      (.ok (), (tick, (s.insert (valueKey key) (bytesRecord payload 0)).erase (collectionTTLKey key))) :=
  rfl

/-- A deadline that has passed removes the key. -/
theorem run_redisWriteString_of_passed (hpos : 0 < expiresAt) (hpassed : expiresAt ≤ clock tick) :
    run (ticking clock) (redisWriteString key payload expiresAt) (tick, s) =
      (.ok (), (tick + 1, s.without key)) := by
  have hduration : timeSub expiresAt (clock tick) ≤ 0 := by
    unfold timeSub
    omega
  rw [redisWriteString, redisWriteStringWithCodec, if_neg (not_le.mpr hpos),
    run_bind_ok run_now_ticking]
  dsimp only
  rw [if_pos hduration, run_bind_ok run_redisDeleteRaw_ticking]
  rfl

/-- The time that is left is added to the next reading. -/
theorem run_redisWriteString_of_before (hpos : 0 < expiresAt) (hbefore : clock tick < expiresAt) :
    run (ticking clock) (redisWriteString key payload expiresAt) (tick, s) =
      (.ok (), (tick + 2, s.insert (valueKey key) (bytesRecord payload
        (wrapInt64 (clock (tick + 1) + timeSub expiresAt (clock tick)))))) := by
  have hduration : 0 < timeSub expiresAt (clock tick) := by
    unfold timeSub
    omega
  rw [redisWriteString, redisWriteStringWithCodec, if_neg (not_le.mpr hpos),
    run_bind_ok run_now_ticking]
  dsimp only
  rw [if_neg (not_le.mpr hduration)]
  exact run_putPayload_ticking hduration (marshalEnvelope_bytesCodec _ _)

/-- The new deadline is one if the sum is a positive 64-bit integer. -/
theorem wrapInt64_pos_iff {before after : ℤ} (hafter : IsInt64 after) (hbefore : before < expiresAt) :
    0 < wrapInt64 (after + timeSub expiresAt before) ↔
      0 < after + timeSub expiresAt before ∧ after + timeSub expiresAt before < 2 ^ 63 := by
  have hduration : 0 < timeSub expiresAt before ∧ timeSub expiresAt before < 2 ^ 63 := by
    unfold timeSub
    omega
  unfold IsInt64 at hafter
  by_cases hfits : after + timeSub expiresAt before < 2 ^ 63
  · rw [wrapInt64_eq ⟨by omega, hfits⟩, and_iff_left hfits]
  · rw [wrapInt64_of_le (not_lt.mp hfits) (by omega)]
    omega

end Writes

/-! ### The commands -/

/-- `APPEND`, or a command that counts. -/
inductive InPlace
  | append (suffix : Bytes)
  | count (command : CounterCommand)

namespace InPlace

def program (key : Bytes) : InPlace → Program Calls Resp
  | .append suffix => redisAppend [text "APPEND", key, suffix]
  | .count command => command.program key

/-- The string that is made from the one that was read; nothing where the command fails. -/
def result (update : InPlace) (old : Option Bytes) : Option Bytes :=
  match update with
  | .append suffix => some (old.getD [] ++ suffix)
  | .count command =>
    match command.delta, storedNumber old with
    | .ok change, some number =>
      if IsInt64 (number + change) then some (formatInt (number + change)) else none
    | _, _ => none

/-- What the command stores for an absent key. -/
def absentValue (update : InPlace) (key : Bytes) : Option Bytes :=
  (((update.program key).run (embedded 0) ∅).2[valueKey key]?).map payloadOf

section Run

variable {σ : Type} {handler : Handler Calls σ} {st st₁ st₂ st₃ : σ} {key payload : Bytes}
  {old : Option Bytes} {update : InPlace}

/-- A command that fails changes nothing after it has read the string, if it reads it. -/
theorem run_of_result_none (hresult : update.result old = none)
    (hread : run handler (redisString key) st = (.ok old, st₁)) :
    ∃ message st', (update.program key).run handler st = (.errorString message, st') ∧
      (st' = st ∨ st' = st₁) := by
  have hrejected : ∀ {amount : Bytes} {err : GoError} (decrement : Bool) (name : Bytes),
      redisParseInt amount = .error err → ∃ message,
        (redisIncrementByCommand decrement [name, key, amount]).run handler st =
          (.errorString message, st) := by
    intro amount err decrement name hparsed
    obtain ⟨message, hmessage⟩ := exists_redisErrorReply_eq err
    refine ⟨message, ?_⟩
    rw [redisIncrementByCommand, hparsed, ← hmessage]
    exact run_replying_error (run_bind_error (run_liftExcept _))
  cases update with
  | append suffix => cases hresult
  | count command =>
    cases hdelta : command.delta with
    | error err =>
      cases command with
      | incr => cases hdelta
      | decr => cases hdelta
      | incrBy amount =>
        obtain ⟨message, hrun⟩ := hrejected false (text "INCRBY") hdelta
        exact ⟨message, st, hrun, .inl rfl⟩
      | decrBy amount =>
        have hparsed : ∃ err, redisParseInt amount = .error err := by
          rw [CounterCommand.delta] at hdelta
          cases hparsed : redisParseInt amount with
          | error err => exact ⟨err, rfl⟩
          | ok value =>
            rw [hparsed] at hdelta
            cases hdelta
        obtain ⟨err', hparsed⟩ := hparsed
        obtain ⟨message, hrun⟩ := hrejected true (text "DECRBY") hparsed
        exact ⟨message, st, hrun, .inl rfl⟩
    | ok change =>
      have hfails : ∀ current, storedNumber old = some current →
          ¬ IsInt64 (current + (IntegerUpdate.incrBy key).change change) := by
        intro current hcurrent hfits
        rw [result, hdelta, hcurrent] at hresult
        dsimp only at hresult
        rw [if_pos (show IsInt64 (current + change) from hfits)] at hresult
        cases hresult
      obtain ⟨message, hcode⟩ := (IntegerUpdate.incrBy key).run_code_of_fails hread hfails
      rw [program, CounterCommand.program_eq hdelta]
      exact ⟨message, st₁, run_replying hcode, .inr rfl⟩

/-- A command that does not fail looks up the deadline and writes the new string with it. -/
theorem run_of_result_some (hresult : update.result old = some payload) {expiry : Option ℤ}
    (hread : run handler (redisString key) st = (.ok old, st₁))
    (hexpiry : run handler (redisExpiry key) st₁ = (.ok expiry, st₂))
    (hwrite : run handler (redisWriteString key payload (expiry.getD 0)) st₂ = (.ok (), st₃)) :
    ((update.program key).run handler st).2 = st₃ := by
  cases update with
  | append suffix =>
    cases hresult
    cases old with
    | none =>
      exact congrArg Prod.snd (run_replying ((run_bind_ok hread).trans
        ((run_bind_ok hexpiry).trans ((run_bind_ok hwrite).trans rfl))))
    | some data =>
      exact congrArg Prod.snd (run_replying ((run_bind_ok hread).trans
        ((run_bind_ok hexpiry).trans ((run_bind_ok hwrite).trans rfl))))
  | count command =>
    rw [result] at hresult
    cases hdelta : command.delta with
    | error err =>
      rw [hdelta] at hresult
      cases hresult
    | ok change =>
      cases hnumber : storedNumber old with
      | none =>
        rw [hdelta, hnumber] at hresult
        cases hresult
      | some number =>
        rw [hdelta, hnumber] at hresult
        dsimp only at hresult
        split_ifs at hresult with hfits
        cases hresult
        have hput : run handler ((IntegerUpdate.incrBy key).write
            (formatInt (number + change))) st₁ = (.ok (), st₃) := by
          rw [IntegerUpdate.write, run_bind_ok hexpiry]
          exact hwrite
        rw [program, CounterCommand.program_eq hdelta,
          run_replying ((IntegerUpdate.incrBy key).run_code_of_fits hread hnumber hfits hput)]

/-- The string for an absent key is the one made from nothing. -/
theorem absentValue_eq (update : InPlace) (key : Bytes) :
    update.absentValue key = update.result none := by
  have hcleared : Cleared 0 ∅ key := NoRecordOf.cleared fun _ _ => rfl
  cases hresult : update.result none with
  | none =>
    obtain ⟨message, s', hrun, hs'⟩ := run_of_result_none hresult hcleared.run_redisString
    rw [absentValue, hrun, hs'.elim id id]
    rfl
  | some payload =>
    rw [absentValue, run_of_result_some hresult hcleared.run_redisString hcleared.run_redisExpiry
      run_redisWriteString_zero, Store.getElem?_erase_of_ne _ (collectionTTLKey_ne_valueKey _ _),
      Store.getElem?_insert, if_pos rfl, Option.map_some, payloadOf,
      unmarshalEnvelope_bytesRecord (by decide)]

end Run

end InPlace

/-! ### The string that is left -/

/-- The key has no string, one with a deadline, or the one that the command stores for an
absent key. -/
def StaysBounded (update : InPlace) (key : Bytes) (s : Store) : Prop :=
  ∀ data, s[valueKey key]? = some data → ∃ value, unmarshalEnvelope data = .ok value ∧
    (0 < value.expiresAt ∨ update.absentValue key = some value.payload)

section Bounded

variable {clock : ℕ → ℤ} {tick : ℕ} {s : Store} {key payload : Bytes} {value : StoredValue}
  {update : InPlace} {expiresAt : ℤ}

theorem HoldsString.staysBounded (h : HoldsString s key value) : StaysBounded update key s := by
  obtain ⟨data, hget, hvalue⟩ := h.record
  intro data' hget'
  obtain rfl : data = data' := Option.some.inj (hget.symm.trans hget')
  exact ⟨value, hvalue, .inl h.positive⟩

theorem staysBounded_of_none (h : s[valueKey key]? = none) : StaysBounded update key s := by
  intro data hget
  rw [h] at hget
  cases hget

/-- A string that was written. -/
theorem staysBounded_iff_of_record (hfits : IsInt64 expiresAt)
    (hget : s[valueKey key]? = some (bytesRecord payload expiresAt)) :
    StaysBounded update key s ↔ 0 < expiresAt ∨ update.result none = some payload := by
  have hvalue : unmarshalEnvelope (bytesRecord payload expiresAt) =
      .ok ⟨expiresAt, Redis.bytesCodec, payload⟩ := unmarshalEnvelope_bytesRecord hfits
  rw [← update.absentValue_eq key]
  constructor
  · intro hbounded
    obtain ⟨value, hdecode, hcase⟩ := hbounded _ hget
    rw [hvalue] at hdecode
    cases hdecode
    exact hcase
  · intro hcase data hdata
    obtain rfl : bytesRecord payload expiresAt = data := Option.some.inj (hget.symm.trans hdata)
    exact ⟨_, hvalue, hcase⟩

theorem getElem?_insert_erase_metadata :
    ((s.insert (valueKey key) (bytesRecord payload 0)).erase (collectionTTLKey key))[valueKey key]? =
      some (bytesRecord payload 0) := by
  rw [Store.getElem?_erase_of_ne _ (collectionTTLKey_ne_valueKey _ _), Store.getElem?_insert, if_pos rfl]

/-- A string that was not read any more is written as for an absent key. -/
theorem HoldsString.staysBounded_of_passed (h : HoldsString s key value)
    (hint : ∀ n, IsInt64 (clock n)) (hpassed : value.expiresAt ≤ clock (tick + 1)) :
    StaysBounded update key ((update.program key).run (ticking clock) (tick, s)).2.2 := by
  obtain ⟨tick', s', hread, hnone⟩ := h.run_redisString_of_passed hint hpassed
  cases hresult : update.result none with
  | none =>
    obtain ⟨message, st', hrun, rfl | rfl⟩ := InPlace.run_of_result_none hresult hread
    · rw [hrun]
      exact h.staysBounded
    · rw [hrun]
      exact staysBounded_of_none (hnone _ (.inl rfl))
  | some payload =>
    rw [InPlace.run_of_result_some hresult hread (run_redisExpiry_of_noRecordOf hnone)
      run_redisWriteString_zero_ticking]
    exact (staysBounded_iff_of_record (by decide) getElem?_insert_erase_metadata).mpr (.inr hresult)

/-- For every string with a deadline, every command and every nondecreasing clock: the command
leaves no string, one with a deadline or the one for an absent key, unless it makes another
string and either the deadline falls between the second and the third reading, or the fifth
reading takes the new deadline out of range. -/
theorem update_keeps_expiring_iff (h : HoldsString s key value) (hint : ∀ n, IsInt64 (clock n))
    (hmono : Monotone clock) :
    StaysBounded update key ((update.program key).run (ticking clock) (tick, s)).2.2 ↔
      ∀ payload, update.result (some value.payload) = some payload → update.result none ≠ some payload →
        ¬ (clock (tick + 1) < value.expiresAt ∧ value.expiresAt ≤ clock (tick + 2)) ∧
          (clock (tick + 3) < value.expiresAt →
            0 < clock (tick + 4) + timeSub value.expiresAt (clock (tick + 3)) ∧
              clock (tick + 4) + timeSub value.expiresAt (clock (tick + 3)) < 2 ^ 63) := by
  have h12 : clock (tick + 1) ≤ clock (tick + 2) := hmono (by omega)
  have h23 : clock (tick + 2) ≤ clock (tick + 3) := hmono (by omega)
  by_cases hread : clock (tick + 1) < value.expiresAt
  swap
  · refine iff_of_true (h.staysBounded_of_passed hint (not_lt.mp hread)) fun _ _ _ => ?_
    exact ⟨fun hbetween => hread hbetween.1, fun hlater => absurd hlater (by omega)⟩
  have hstring := h.run_redisString_of_before hint hmono hread
  cases hresult : update.result (some value.payload) with
  | none =>
    refine iff_of_true ?_ fun _ heq => by cases heq
    obtain ⟨message, st', hrun, rfl | rfl⟩ := InPlace.run_of_result_none hresult hstring
    · rw [hrun]
      exact h.staysBounded
    · rw [hrun]
      exact h.staysBounded
  | some payload =>
    have hexpiry := h.run_redisExpiry (hint (tick + 2))
    by_cases hlookup : value.expiresAt ≤ clock (tick + 2)
    · -- The look-up removes the key: the new string is written without a deadline.
      rw [if_pos hlookup] at hexpiry
      rw [InPlace.run_of_result_some hresult hstring hexpiry run_redisWriteString_zero_ticking,
        staysBounded_iff_of_record (by decide) getElem?_insert_erase_metadata]
      constructor
      · rintro (hpos | habsent) payload' ⟨⟩ hne
        · exact absurd hpos (lt_irrefl 0)
        · exact absurd habsent hne
      · intro hcond
        by_contra hnot
        exact (hcond payload rfl fun heq => hnot (.inr heq)).1 ⟨hread, hlookup⟩
    · rw [if_neg hlookup] at hexpiry
      by_cases hduration : clock (tick + 3) < value.expiresAt
      · have hwrite : run (ticking clock)
            (redisWriteString key payload ((some value.expiresAt).getD 0)) (tick + 3, s) =
              (.ok (), (tick + 5, s.insert (valueKey key) (bytesRecord payload
                (wrapInt64 (clock (tick + 4) + timeSub value.expiresAt (clock (tick + 3))))))) :=
          run_redisWriteString_of_before h.positive hduration
        rw [InPlace.run_of_result_some hresult hstring hexpiry hwrite,
          staysBounded_iff_of_record (isInt64_wrapInt64 _) (by rw [Store.getElem?_insert, if_pos rfl]),
          wrapInt64_pos_iff (hint _) hduration]
        constructor
        · rintro (hfits | habsent) payload' ⟨⟩ hne
          · exact ⟨fun hbetween => hlookup hbetween.2, fun _ => hfits⟩
          · exact absurd habsent hne
        · intro hcond
          by_cases habsent : update.result none = some payload
          · exact .inr habsent
          · exact .inl ((hcond payload rfl habsent).2 hduration)
      · rw [InPlace.run_of_result_some hresult hstring hexpiry
          (run_redisWriteString_of_passed h.positive (not_lt.mp hduration))]
        refine iff_of_true ?_ fun _ _ _ => ⟨fun hbetween => hlookup hbetween.2, fun hlater =>
          absurd hlater hduration⟩
        exact staysBounded_of_none (Store.getElem?_without_of_recordOf (.inl rfl))

end Bounded

/-- Five, with a deadline at ten. -/
def fiveUntilTen : Store := (∅ : Store).insert (valueKey (text "k")) (bytesRecord (text "5") 10)

theorem holdsString_fiveUntilTen :
    HoldsString fiveUntilTen (text "k") ⟨10, Redis.bytesCodec, text "5"⟩ where
  record := ⟨_, by rw [fiveUntilTen, Store.getElem?_insert, if_pos rfl],
    unmarshalEnvelope_bytesRecord (by decide)⟩
  positive := by decide
  alone storageKey _ hne := by
    rw [fiveUntilTen, Store.getElem?_insert_of_ne _ _ hne.symm]
    rfl

/-- The third reading is the first one after the deadline: six is stored without a deadline. -/
theorem incr_makes_permanent :
    ∃ clock : ℕ → ℤ, Monotone clock ∧
      ((InPlace.count .incr).program (text "k")).run (ticking clock) (0, fiveUntilTen) =
        (.integer 6, (3, (∅ : Store).insert (valueKey (text "k")) (bytesRecord (text "6") 0))) ∧
      (InPlace.count .incr).absentValue (text "k") = some (text "1") := by
  refine ⟨fun n => if n < 2 then 9 else 11, ?_, rfl, rfl⟩
  intro m n hle
  dsimp only
  split <;> split <;> omega

/-- The clock stands still. -/
theorem incr_keeps_expiring_at_nine :
    StaysBounded (.count .incr) (text "k")
      (((InPlace.count .incr).program (text "k")).run (ticking fun _ => 9) (0, fiveUntilTen)).2.2 := by
  refine (update_keeps_expiring_iff holdsString_fiveUntilTen (fun _ => by decide)
    monotone_const).mpr ?_
  intro payload _ _
  decide

end KVLite.Expiry
