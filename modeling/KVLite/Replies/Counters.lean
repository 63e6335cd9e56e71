import KVLite.Keyspace.Outcome
import KVLite.Redis.Server

/-!
# Integer updates

`INCRBY`, `DECRBY` and `HINCRBY` read a decimal of any size, add the 64-bit amount of the
client and write the sum if it is a 64-bit integer. The amount is parsed with the range of
64 bits, the stored text without one: a number out of range is accepted when the sum is
back in range.
-/

namespace KVLite.Redis

open Semantics Fallible BigEndian

/-! ### The updates -/

/-- A command that adds an amount to a stored integer. -/
inductive IntegerUpdate
  | incrBy (key : Bytes)
  | decrBy (key : Bytes)
  | hIncrBy (key field : Bytes)

namespace IntegerUpdate

/-- The command with its amount. -/
def program (amount : Bytes) : IntegerUpdate → Program Calls Resp
  | .incrBy key => redisIncrementByCommand false [text "INCRBY", key, amount]
  | .decrBy key => redisIncrementByCommand true [text "DECRBY", key, amount]
  | .hIncrBy key field => redisHIncrBy [text "HINCRBY", key, field, amount]

/-- The read that the command starts with. -/
def read : IntegerUpdate → Action (Option Bytes)
  | .incrBy key | .decrBy key => redisString key
  | .hIncrBy key field => do
    let typ ← redisType key
    if typ ≠ .none ∧ typ ≠ .hash then throw (wrongType typ) else redisHashField key field

/-- The storage key of the record. -/
def storageKey : IntegerUpdate → Bytes
  | .incrBy key | .decrBy key => valueKey key
  | .hIncrBy key field => hashKey key field

/-- What is added to the stored integer. -/
def change (delta : ℤ) : IntegerUpdate → ℤ
  | .decrBy _ => -delta
  | .incrBy _ | .hIncrBy .. => delta

/-- The error for a text that is not a number. -/
def notInteger : IntegerUpdate → Bytes
  | .incrBy _ | .decrBy _ => text "ERR value is not an integer or out of range"
  | .hIncrBy .. => text "ERR hash value is not an integer"

/-- The write that the command ends with. -/
def write (payload : Bytes) : IntegerUpdate → Action Unit
  | .incrBy key | .decrBy key => do
    let expiresAt := (← redisExpiry key).getD 0
    redisWriteString key payload expiresAt
  | .hIncrBy key field => putPayload (hashKey key field) bytesCodec payload 0

end IntegerUpdate

/-- The number that `big.Int` reads; an absent text counts as zero. -/
def storedNumber : Option Bytes → Option ℤ
  | none => some 0
  | some payload => parseDecimal payload

/-- The code that the updates share, once the amount has been parsed. -/
def IntegerUpdate.code (delta : ℤ) (update : IntegerUpdate) : Action Resp := do
  match storedNumber (← update.read) with
  | none => return .errorString update.notInteger
  | some current =>
    if ¬ IsInt64 (current + update.change delta) then
      return .errorString (text "ERR increment or decrement would overflow")
    else do
      update.write (formatInt (current + update.change delta))
      return .integer (current + update.change delta)

/-- The number that `strconv.ParseInt` reads; an absent text counts as zero. -/
def storedInteger : Option Bytes → Except GoError ℤ
  | none => .ok 0
  | some payload => redisParseInt payload

section Program

variable {now delta : ℤ} {amount payload : Bytes} {held : Option Bytes} {s s₁ : Store}
  (update : IntegerUpdate)

theorem redisIncrementBig_eq_code (key : Bytes) (delta : ℤ) :
    redisIncrementBig key delta = (IntegerUpdate.incrBy key).code delta := by
  unfold redisIncrementBig IntegerUpdate.code
  refine bind_congr fun found => ?_
  simp only [IntegerUpdate.write, bind_assoc]
  cases found <;> rfl

theorem IntegerUpdate.program_eq (hparsed : redisParseInt amount = .ok delta) :
    update.program amount = replying (update.code delta) := by
  cases update with
  | incrBy key =>
    rw [program, redisIncrementByCommand, hparsed]
    exact congrArg replying (redisIncrementBig_eq_code key delta)
  | decrBy key =>
    rw [program, redisIncrementByCommand, hparsed]
    exact congrArg replying (redisIncrementBig_eq_code key (-delta))
  | hIncrBy key field =>
    rw [program, redisHIncrBy, hparsed]
    refine congrArg replying ?_
    simp only [code, read, bind_assoc]
    refine bind_congr (m := Fallible Calls GoError) (x := redisType key) fun typ => ?_
    split
    · rfl
    · refine bind_congr fun found => ?_
      cases found <;> rfl

/-- The write of a string update keeps the deadline of a live string. -/
theorem run_write_string (hnow : IsInt64 now) {key : Bytes}
    (hread : run (embedded now) (redisString key) s = (.ok held, s₁)) (payload : Bytes) :
    ∃ s₂, run (embedded now) ((IntegerUpdate.incrBy key).write payload) s₁ = (.ok (), s₂) ∧
      run (embedded now) (redisString key) s₂ = (.ok (some payload), s₂) := by
  have hzero : TTLAhead now s₁ key → run (embedded now) (redisString key)
      ((s₁.insert (valueKey key) (bytesRecord payload 0)).erase (collectionTTLKey key)) =
        (.ok (some payload), _) := fun hahead =>
    (liveValue_insert hahead (by decide) (.inl le_rfl)).erase_metadata.run_redisString
  rcases liveValue_or_cleared_of_run hread with ⟨old, hlive, -, rfl⟩ | ⟨hcleared, -⟩
  · rw [IntegerUpdate.write, run_bind_ok hlive.run_redisExpiry]
    by_cases hpos : old.expiresAt > 0
    · have hahead : now < old.expiresAt := by
        have hnot := hlive.live
        simp only [Envelope.expired, hpos, decide_true, Bool.true_and, decide_eq_false_iff_not,
          wrapInt64_eq hnow] at hnot
        omega
      have hsum : now < now + timeSub old.expiresAt now := by
        unfold timeSub
        omega
      have hfits : IsInt64 (now + timeSub old.expiresAt now) := by
        obtain ⟨data, -, hdecode⟩ := hlive.record
        have hold := (isInt64_of_unmarshalEnvelope hdecode).2
        unfold IsInt64 at *
        unfold timeSub
        omega
      rw [if_pos hpos, Option.getD_some]
      refine ⟨_, run_redisWriteStringWithCodec_of_ahead hpos hahead
        (marshalEnvelope_bytesCodec payload _), ?_⟩
      rw [wrapInt64_eq hfits]
      refine (liveValue_insert hlive.ahead hfits (.inr ?_)).run_redisString
      rw [wrapInt64_eq hnow]
      exact hsum
    · rw [if_neg hpos]
      exact ⟨_, run_redisWriteString_zero, hzero hlive.ahead⟩
  · rw [IntegerUpdate.write, run_bind_ok hcleared.run_redisExpiry]
    exact ⟨_, run_redisWriteString_zero, hzero hcleared.ahead⟩

/-- The read of a field that succeeds leaves a hash without expired fields or no record, and
keeps the record that it has found. -/
theorem liveFields_of_run_read {key field : Bytes}
    (hread : run (embedded now) (IntegerUpdate.hIncrBy key field).read s = (.ok held, s₁)) :
    LiveFields now s₁ key ∧ (held ≠ none → s₁[hashKey key field]? = s[hashKey key field]?) := by
  obtain ⟨typ, mid, htype, hrest⟩ := exists_of_run_bind_eq_ok hread
  have houtcome := typeOutcome_of_run htype
  split_ifs at hrest with hwrong
  · cases hrest
  · cases typ with
    | none =>
      rw [houtcome.cleared.run_redisHashField] at hrest
      cases hrest
      exact ⟨houtcome.cleared.liveFields, fun hne => absurd rfl hne⟩
    | hash =>
      have hhash := houtcome.liveHash
      cases hget : mid[hashKey key field]? with
      | none =>
        rw [hhash.run_redisHashField_none hget] at hrest
        cases hrest
        exact ⟨hhash.toLiveFields, fun hne => absurd rfl hne⟩
      | some data =>
        obtain ⟨value, hvalue, -⟩ :=
          hhash.live _ data (namespacePrefix_isPrefix_iff.mpr ⟨field, rfl⟩) hget
        rw [hhash.run_redisHashField hget hvalue] at hrest
        cases hrest
        exact ⟨hhash.toLiveFields, fun _ => hget.trans (houtcome.getElem?_of_hash hget).symm⟩
    | string => exact absurd ⟨nofun, nofun⟩ hwrong
    | set => exact absurd ⟨nofun, nofun⟩ hwrong
    | list => exact absurd ⟨nofun, nofun⟩ hwrong

/-- The read of an update keeps the record that it has found. -/
theorem IntegerUpdate.getElem?_of_run_read
    (hread : run (embedded now) update.read s = (.ok held, s₁)) (hne : held ≠ none) :
    s₁[update.storageKey]? = s[update.storageKey]? := by
  have hstring : ∀ key, run (embedded now) (redisString key) s = (.ok held, s₁) →
      s₁[valueKey key]? = s[valueKey key]? := by
    intro key hrun
    rcases liveValue_or_cleared_of_run hrun with ⟨old, -, -, rfl⟩ | ⟨-, rfl⟩
    · rfl
    · exact absurd rfl hne
  cases update with
  | incrBy key => exact hstring key hread
  | decrBy key => exact hstring key hread
  | hIncrBy key field => exact (liveFields_of_run_read hread).2 hne

/-- What an update writes, it reads again. -/
theorem IntegerUpdate.run_write (hnow : IsInt64 now)
    (hread : run (embedded now) update.read s = (.ok held, s₁)) (payload : Bytes) :
    ∃ s₂, run (embedded now) (update.write payload) s₁ = (.ok (), s₂) ∧
      run (embedded now) update.read s₂ = (.ok (some payload), s₂) := by
  cases update with
  | incrBy key => exact run_write_string hnow hread payload
  | decrBy key => exact run_write_string hnow hread payload
  | hIncrBy key field =>
    have hvalue : unmarshalEnvelope (bytesRecord payload 0) = .ok ⟨0, Redis.bytesCodec, payload⟩ :=
      unmarshalEnvelope_bytesRecord (by decide)
    have hhash := (liveFields_of_run_read hread).1.insert field hvalue rfl
    refine ⟨s₁.insert (hashKey key field) (bytesRecord payload 0), rfl, ?_⟩
    rw [read, run_bind_ok hhash.run_redisType, if_neg (by decide)]
    exact hhash.run_redisHashField (by rw [Store.getElem?_insert, if_pos rfl]) hvalue

section Code

variable {σ : Type} {handler : Handler Calls σ} {st st₁ st₂ : σ}

/-- A sum in range is written and replied. -/
theorem IntegerUpdate.run_code_of_fits {current : ℤ}
    (hread : run handler update.read st = (.ok held, st₁))
    (hcurrent : storedNumber held = some current) (hfits : IsInt64 (current + update.change delta))
    (hwrite : run handler (update.write (formatInt (current + update.change delta))) st₁ =
      (.ok (), st₂)) :
    run handler (update.code delta) st =
      (.ok (.integer (current + update.change delta)), st₂) := by
  rw [code, run_bind_ok hread, hcurrent]
  dsimp only
  rw [if_neg (not_not.mpr hfits), run_bind_ok hwrite]
  rfl

/-- Any other text is left as it is. -/
theorem IntegerUpdate.run_code_of_fails
    (hread : run handler update.read st = (.ok held, st₁))
    (hfails : ∀ current, storedNumber held = some current → ¬ IsInt64 (current + update.change delta)) :
    ∃ message, run handler (update.code delta) st = (.ok (.errorString message), st₁) := by
  cases hcurrent : storedNumber held with
  | none =>
    refine ⟨update.notInteger, ?_⟩
    rw [code, run_bind_ok hread, hcurrent]
    rfl
  | some current =>
    refine ⟨text "ERR increment or decrement would overflow", ?_⟩
    rw [code, run_bind_ok hread, hcurrent]
    dsimp only
    rw [if_pos (hfails current hcurrent)]
    rfl

end Code

/-- The reply of an update and the store it leaves, by what it has read. -/
theorem IntegerUpdate.run_program (hnow : IsInt64 now) (hparsed : redisParseInt amount = .ok delta)
    (hread : run (embedded now) update.read s = (.ok held, s₁)) :
    (∃ current, storedNumber held = some current ∧ IsInt64 (current + update.change delta) ∧
      ((update.program amount).run (embedded now) s).1 = .integer (current + update.change delta) ∧
      run (embedded now) update.read ((update.program amount).run (embedded now) s).2 =
        (.ok (some (formatInt (current + update.change delta))),
          ((update.program amount).run (embedded now) s).2)) ∨
    ((∀ current, storedNumber held = some current → ¬ IsInt64 (current + update.change delta)) ∧
      ∃ message, (update.program amount).run (embedded now) s = (.errorString message, s₁)) := by
  rw [update.program_eq hparsed]
  by_cases hfits : ∃ current, storedNumber held = some current ∧ IsInt64 (current + update.change delta)
  · obtain ⟨current, hcurrent, hfits⟩ := hfits
    obtain ⟨s₂, hwrite, hagain⟩ :=
      update.run_write hnow hread (formatInt (current + update.change delta))
    rw [run_replying (update.run_code_of_fits hread hcurrent hfits hwrite)]
    exact .inl ⟨current, hcurrent, hfits, rfl, hagain⟩
  · have hfails : ∀ current, storedNumber held = some current →
        ¬ IsInt64 (current + update.change delta) := fun current hcurrent hsum =>
      hfits ⟨current, hcurrent, hsum⟩
    obtain ⟨message, hcode⟩ := update.run_code_of_fails hread hfails
    exact .inr ⟨hfails, message, run_replying hcode⟩

/-! ### The accepted texts -/

/-- The update succeeds exactly if the stored text is a 64-bit integer and the sum is one,
writes and replies the exact sum, and leaves the record when it fails. -/
structure ExactUpdate (now : ℤ) (amount : Bytes) (delta : ℤ) (held : Option Bytes) (s s₁ : Store) :
    Prop where
  succeeds_iff : (∃ result, ((update.program amount).run (embedded now) s).1 = .integer result) ↔
    ∃ value, storedInteger held = .ok value ∧ IsInt64 (value + update.change delta)
  exact_sum : ∀ result, ((update.program amount).run (embedded now) s).1 = .integer result →
    (∃ value, storedInteger held = .ok value ∧ result = value + update.change delta) ∧
      run (embedded now) update.read ((update.program amount).run (embedded now) s).2 =
        (.ok (some (formatInt result)), ((update.program amount).run (embedded now) s).2)
  unchanged : (∀ result, ((update.program amount).run (embedded now) s).1 ≠ .integer result) →
    ((update.program amount).run (embedded now) s).2 = s₁ ∧
      (held ≠ none → s₁[update.storageKey]? = s[update.storageKey]?)

theorem storedInteger_eq_ok_iff {value : ℤ} :
    storedInteger held = .ok value ↔ storedNumber held = some value ∧ IsInt64 value := by
  cases held with
  | none =>
    rw [storedInteger, storedNumber, Except.ok.injEq, Option.some.injEq]
    constructor
    · rintro rfl
      exact ⟨rfl, by decide⟩
    · exact And.left
  | some payload => exact redisParseInt_eq_ok_iff

/-- An update is exact unless it takes a stored number out of the 64-bit range back into
it. -/
theorem integer_update_exact_iff (hnow : IsInt64 now) (hparsed : redisParseInt amount = .ok delta)
    (hread : run (embedded now) update.read s = (.ok held, s₁)) :
    ExactUpdate update now amount delta held s s₁ ↔
      ∀ payload value, held = some payload → parseDecimal payload = some value →
        IsInt64 (value + update.change delta) → IsInt64 value := by
  have hrun := update.run_program hnow hparsed hread
  constructor
  · rintro hexact payload value rfl hvalue hfits
    rcases hrun with ⟨current, hcurrent, -, hreply, -⟩ | ⟨hfails, -⟩
    · obtain ⟨found, hfound, -⟩ := hexact.succeeds_iff.mp ⟨_, hreply⟩
      obtain ⟨hnumber, hrange⟩ := redisParseInt_eq_ok_iff.mp hfound
      obtain rfl : found = value := Option.some.inj (hnumber.symm.trans hvalue)
      exact hrange
    · exact absurd hfits (hfails value hvalue)
  · intro hcond
    rcases hrun with ⟨current, hcurrent, hfits, hreply, hagain⟩ | ⟨hfails, message, hfailed⟩
    · -- The stored number is in range, by the condition.
      have hstored : storedInteger held = .ok current := by
        refine storedInteger_eq_ok_iff.mpr ⟨hcurrent, ?_⟩
        cases held with
        | none =>
          cases hcurrent
          decide
        | some payload => exact hcond payload current rfl hcurrent hfits
      refine ⟨⟨fun _ => ⟨current, hstored, hfits⟩, fun _ => ⟨_, hreply⟩⟩, ?_, ?_⟩
      · intro result hresult
        obtain rfl := Resp.integer.inj (hresult.symm.trans hreply)
        exact ⟨⟨current, hstored, rfl⟩, hagain⟩
      · intro hnone
        exact absurd hreply (hnone _)
    · have hnone : ∀ result, ((update.program amount).run (embedded now) s).1 ≠ .integer result := by
        intro result hresult
        rw [hfailed] at hresult
        cases hresult
      refine ⟨⟨?_, ?_⟩, ?_, ?_⟩
      · rintro ⟨result, hresult⟩
        exact absurd hresult (hnone result)
      · rintro ⟨value, hstored, hfits⟩
        exact absurd hfits (hfails value (storedInteger_eq_ok_iff.mp hstored).1)
      · intro result hresult
        exact absurd hresult (hnone result)
      · intro _
        rw [hfailed]
        exact ⟨rfl, update.getElem?_of_run_read hread⟩

end Program

/-- The number after the largest 64-bit integer is stored, and one is subtracted. -/
theorem out_of_range_number_accepted :
    ∃ s : Store,
      run (embedded 0) (IntegerUpdate.incrBy (text "k")).read s =
          (.ok (some (text "9223372036854775808")), s) ∧
        (∀ value, redisParseInt (text "9223372036854775808") ≠ .ok value) ∧
        ((IntegerUpdate.incrBy (text "k")).program (text "-1")).run (embedded 0) s =
          (.integer 9223372036854775807,
            ((redisGetSet [text "GETSET", text "k", text "9223372036854775807"]).run (embedded 0) ∅).2) := by
  refine ⟨((redisGetSet [text "GETSET", text "k", text "9223372036854775808"]).run (embedded 0) ∅).2,
    rfl, ?_, ?_⟩
  · intro value hvalue
    have h := (redisParseInt_eq_ok_iff.mp hvalue).1
    cases h
    exact absurd (redisParseInt_eq_ok_iff.mp hvalue).2 (by decide)
  · rfl

theorem integer_update_exact_seven :
    ∃ s : Store,
      run (embedded 0) (IntegerUpdate.incrBy (text "k")).read s =
          (.ok (some (text "7")), s) ∧
        ExactUpdate (.incrBy (text "k")) 0 (text "3") 3 (some (text "7")) s s := by
  refine ⟨((redisGetSet [text "GETSET", text "k", text "7"]).run (embedded 0) ∅).2, rfl, ?_⟩
  refine (integer_update_exact_iff _ (by decide) (redisParseInt_eq_ok_iff.mpr ⟨rfl, by decide⟩)
    rfl).mpr ?_
  rintro payload value ⟨⟩ hvalue -
  cases hvalue
  decide

end KVLite.Redis
