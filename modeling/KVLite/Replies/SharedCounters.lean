import KVLite.Expiry.CoreDeadlines
import KVLite.Redis.Framing
import KVLite.Replies.Counters

/-!
# Counters shared by both interfaces

An application stores an integer through the core, with the JSON codec; Redis clients count
with it. The first update replaces the record by one with the codec name `bytes`, under
which a handle has no codec unless the application has registered one.
-/

namespace KVLite.Redis

open Semantics Fallible BigEndian

/-! ### The commands -/

/-- `INCR`, `DECR`, `INCRBY` and `DECRBY`. -/
inductive CounterCommand
  | incr
  | decr
  | incrBy (amount : Bytes)
  | decrBy (amount : Bytes)

namespace CounterCommand

def program (key : Bytes) : CounterCommand → Program Calls Resp
  | .incr => redisIncrementCommand 1 [text "INCR", key]
  | .decr => redisIncrementCommand (-1) [text "DECR", key]
  | .incrBy amount => redisIncrementByCommand false [text "INCRBY", key, amount]
  | .decrBy amount => redisIncrementByCommand true [text "DECRBY", key, amount]

/-- What the command adds, if its amount parses. -/
def delta : CounterCommand → Except GoError ℤ
  | .incr => .ok 1
  | .decr => .ok (-1)
  | .incrBy amount => redisParseInt amount
  | .decrBy amount => (redisParseInt amount).map fun value => -value

theorem program_eq {command : CounterCommand} {change : ℤ} (h : command.delta = .ok change)
    (key : Bytes) : command.program key = replying ((IntegerUpdate.incrBy key).code change) := by
  rw [← redisIncrementBig_eq_code]
  cases command with
  | incr =>
    cases h
    rfl
  | decr =>
    cases h
    rfl
  | incrBy amount =>
    rw [program, redisIncrementByCommand, show redisParseInt amount = .ok change from h]
    rfl
  | decrBy amount =>
    rw [delta] at h
    cases hparsed : redisParseInt amount with
    | error err =>
      rw [hparsed] at h
      cases h
    | ok value =>
      rw [hparsed] at h
      cases h
      rw [program, redisIncrementByCommand, hparsed]
      rfl

end CounterCommand

/-- Commands on a key that all reply an integer, at nondecreasing clock readings; with the
sum of what they add. -/
inductive Counted (key : Bytes) : ℤ → Store → List CounterCommand → ℤ → ℤ → Store → Prop
  | nil (time : ℤ) (s : Store) : Counted key time s [] 0 time s
  | cons {time time' last : ℤ} {s s' s'' : Store} {command : CounterCommand}
      {commands : List CounterCommand} {change total result : ℤ} (hle : time ≤ time')
      (hdelta : command.delta = .ok change)
      (hrun : (command.program key).run (embedded time') s = (.integer result, s'))
      (rest : Counted key time' s' commands total last s'') :
      Counted key time s (command :: commands) (change + total) last s''

/-- The clock does not go back. -/
theorem Counted.le {key : Bytes} {time last total : ℤ} {s s' : Store}
    {commands : List CounterCommand} (h : Counted key time s commands total last s') :
    time ≤ last := by
  induction h with
  | nil => exact le_rfl
  | cons hle _ _ _ ih => exact hle.trans ih

/-! ### The record -/

/-- The key has one record, a number that is live up to a clock reading. -/
structure HoldsNumber (last : ℤ) (s : Store) (key codec : Bytes) (number : ℤ) : Prop where
  no_metadata : s[collectionTTLKey key]? = none
  record : ∃ data expiresAt, s[valueKey key]? = some data ∧
    unmarshalEnvelope data = .ok ⟨expiresAt, codec, formatInt number⟩ ∧
    (expiresAt ≤ 0 ∨ last < expiresAt)

section Record

variable {last time : ℤ} {s : Store} {key codec payload : Bytes} {number expiresAt : ℤ}

theorem HoldsNumber.liveValue (h : HoldsNumber last s key codec number) (hint : IsInt64 time)
    (hle : time ≤ last) :
    ∃ expiresAt, (expiresAt ≤ 0 ∨ last < expiresAt) ∧
      LiveValue time s key ⟨expiresAt, codec, formatInt number⟩ := by
  obtain ⟨data, expiresAt, hget, hvalue, hlast⟩ := h.record
  refine ⟨expiresAt, hlast, ?_, ⟨data, hget, hvalue⟩, ?_⟩
  · intro ttl httl
    rw [h.no_metadata] at httl
    cases httl
  · simp only [Envelope.expired, wrapInt64_eq hint, Bool.and_eq_false_iff, decide_eq_false_iff_not]
    omega

theorem holdsNumber_insert (hmetadata : s[collectionTTLKey key]? = none)
    (hfits : IsInt64 expiresAt) (hlast : expiresAt ≤ 0 ∨ last < expiresAt) :
    HoldsNumber last (s.insert (valueKey key) (bytesRecord (formatInt number) expiresAt)) key
      Redis.bytesCodec number where
  no_metadata := by
    rw [Store.getElem?_insert_of_ne _ _ (valueKey_ne_collectionTTLKey _ _), hmetadata]
  record := ⟨_, expiresAt, by rw [Store.getElem?_insert, if_pos rfl],
    unmarshalEnvelope_bytesRecord hfits, hlast⟩

theorem HoldsNumber.erase_metadata (h : HoldsNumber last s key codec number) :
    HoldsNumber last (s.erase (collectionTTLKey key)) key codec number where
  no_metadata := by rw [Store.getElem?_erase, if_pos rfl]
  record := by
    obtain ⟨data, expiresAt, hget, hvalue⟩ := h.record
    refine ⟨data, expiresAt, ?_, hvalue⟩
    rw [Store.getElem?_erase_of_ne _ (collectionTTLKey_ne_valueKey _ _), hget]

/-- A live string is written again with its deadline. -/
theorem HoldsNumber.run_write {number' : ℤ} (h : HoldsNumber last s key codec number) (hzero : 0 ≤ time)
    (hint : IsInt64 time) (hle : time ≤ last) :
    ∃ s', run (embedded time) ((IntegerUpdate.incrBy key).write (formatInt number')) s =
        (.ok (), s') ∧ HoldsNumber last s' key Redis.bytesCodec number' := by
  obtain ⟨expiresAt, hlast, hlive⟩ := h.liveValue hint hle
  rw [IntegerUpdate.write, run_bind_ok hlive.run_redisExpiry]
  by_cases hpos : expiresAt > 0
  · -- The time that is left is added to the reading it was taken at.
    have hfits : IsInt64 expiresAt := by
      obtain ⟨data, -, hdecode⟩ := hlive.record
      exact isInt64_of_unmarshalEnvelope hdecode
    have hdeadline : wrapInt64 (time + timeSub expiresAt time) = expiresAt := by
      have hsum : time + timeSub expiresAt time = expiresAt := by
        unfold IsInt64 at hfits
        unfold timeSub
        omega
      rw [hsum, wrapInt64_eq hfits]
    have hahead : time < expiresAt := by omega
    rw [if_pos hpos, Option.getD_some]
    refine ⟨_, run_redisWriteStringWithCodec_of_ahead hpos hahead
      (marshalEnvelope_bytesCodec _ _), ?_⟩
    rw [hdeadline]
    exact holdsNumber_insert h.no_metadata hfits hlast
  · rw [if_neg hpos]
    exact ⟨_, run_redisWriteString_zero,
      (holdsNumber_insert h.no_metadata (by decide) (.inl le_rfl)).erase_metadata⟩

/-- One update: the number is the sum, and the codec is the one for byte slices. -/
theorem HoldsNumber.step {command : CounterCommand} {change result : ℤ} {s' : Store}
    (h : HoldsNumber last s key codec number) (hzero : 0 ≤ time) (hint : IsInt64 time)
    (hle : time ≤ last) (hdelta : command.delta = .ok change)
    (hrun : (command.program key).run (embedded time) s = (.integer result, s')) :
    HoldsNumber last s' key Redis.bytesCodec (number + change) := by
  rw [CounterCommand.program_eq hdelta] at hrun
  obtain ⟨expiresAt, -, hlive⟩ := h.liveValue hint hle
  have hread : run (embedded time) (IntegerUpdate.incrBy key).read s =
      (.ok (some (formatInt number)), s) := hlive.run_redisString
  have hnumber : storedNumber (some (formatInt number)) = some number := parseDecimal_formatInt number
  by_cases hfits : IsInt64 (number + change)
  · obtain ⟨s₂, hwrite, hholds⟩ := @HoldsNumber.run_write _ _ _ _ _ _ (number + change) h hzero hint hle
    rw [run_replying ((IntegerUpdate.incrBy key).run_code_of_fits hread hnumber hfits hwrite)] at hrun
    cases hrun
    exact hholds
  · have hfails : ∀ current, storedNumber (some (formatInt number)) = some current →
        ¬ IsInt64 (current + (IntegerUpdate.incrBy key).change change) := by
      intro current hcurrent
      obtain rfl : number = current := Option.some.inj (hnumber.symm.trans hcurrent)
      exact hfits
    obtain ⟨message, hcode⟩ := (IntegerUpdate.incrBy key).run_code_of_fails hread hfails
    rw [run_replying hcode] at hrun
    cases hrun

/-- A run of updates. -/
theorem Counted.holdsNumber {commands : List CounterCommand} {total : ℤ} {s' : Store} {final : ℤ}
    (hrun : Counted key time s commands total last s') (hzero : 0 ≤ time) (hfinal : last ≤ final)
    (hint : IsInt64 final) (h : HoldsNumber final s key codec number) :
    HoldsNumber final s' key (if commands = [] then codec else Redis.bytesCodec) (number + total) := by
  induction hrun generalizing codec number with
  | nil time s =>
    rw [if_pos rfl, add_zero]
    exact h
  | cons hle hdelta hcommand rest ih =>
    have hreading := rest.le
    have hstep := h.step (hzero.trans hle) ⟨by unfold IsInt64 at hint; omega, by
      unfold IsInt64 at hint; omega⟩ (by omega) hdelta hcommand
    have hrest := ih (hzero.trans hle) hfinal hstep
    rw [if_neg (List.cons_ne_nil _ _), ← add_assoc]
    rwa [ite_self] at hrest

end Record

/-! ### The reader -/

/-- `encoding/json` writes a 64-bit integer as its decimal and reads it again. -/
structure DecimalCodec (codec : Codec ℤ Unit) : Prop where
  name : codec.name = text "json"
  marshal : ∀ number, IsInt64 number → codec.marshal number = .ok (formatInt number)
  unmarshal : ∀ number, IsInt64 number → codec.unmarshal () (formatInt number) = .ok number

/-- A `Put` of an integer, with or without a time to live, leaves one live number. -/
theorem holdsNumber_of_run_put {db : DB ℤ Unit} (hcodec : DecimalCodec db.codec) {key : Bytes}
    {options : PutOptions} {ttl now time number : ℤ} {s s' : Store} (hnow : 0 ≤ now)
    (hnumber : IsInt64 number) (hoptions : options.ttl = .ok ttl) (httl : IsInt64 ttl)
    (htime : IsInt64 time) (hle : now ≤ time) (hbefore : 0 < ttl → time < now + ttl)
    (hput : run (embedded now) (db.put key number options) s = (.ok (), s')) :
    HoldsNumber time s' key db.codec.name number := by
  obtain ⟨-, payload, data, hmarshal, hdata, rfl⟩ := run_put_eq_ok db hoptions hput
  obtain rfl : formatInt number = payload :=
    Except.ok.inj ((hcodec.marshal number hnumber).symm.trans hmarshal)
  refine ⟨?_, data, deadlineAt now ttl, by rw [Store.getElem?_insert, if_pos rfl],
    unmarshalEnvelope_marshalEnvelope (isInt64_deadlineAt now ttl) hdata, ?_⟩
  · rw [Store.getElem?_insert_of_ne _ _ (valueKey_ne_collectionTTLKey _ _)]
    exact Store.getElem?_without_of_recordOf (.inr (.inr (.inl rfl)))
  · -- A sum of more than 63 bits is stored as a negative word, which is no deadline.
    unfold deadlineAt
    split
    · next hpos =>
      have hahead := hbefore hpos
      unfold IsInt64 at httl htime
      by_cases hfits : now + ttl < 2 ^ 63
      · rw [wrapInt64_eq ⟨by omega, hfits⟩]
        exact .inr hahead
      · rw [wrapInt64_of_le (not_lt.mp hfits) (by omega)]
        exact .inl (by omega)
    · exact .inl le_rfl

/-- The core reads the counter if no update has run, or if the application has registered a
codec for the name `bytes` that reads decimals. -/
theorem counter_readable_iff {db : DB ℤ Unit} (hcodec : DecimalCodec db.codec)
    (hregistered : db.codecs db.codec.name = some db.codec) {key : Bytes} {options : PutOptions}
    {ttl now last time number total : ℤ} {commands : List CounterCommand} {s s₁ s₂ : Store}
    (hnow : 0 ≤ now) (hnumber : IsInt64 number) (hoptions : options.ttl = .ok ttl)
    (httl : IsInt64 ttl)
    (hput : run (embedded now) (db.put key number options) s = (.ok (), s₁))
    (hrun : Counted key now s₁ commands total last s₂) (htime : IsInt64 time) (hle : last ≤ time)
    (hbefore : 0 < ttl → time < now + ttl) :
    (run (embedded time) (db.get key ()) s₂).1 = .ok (number + total) ↔
      commands = [] ∨
        db.decoded bytesCodecName (formatInt (number + total)) () = .ok (number + total) := by
  have hholds := hrun.holdsNumber hnow hle htime
    (holdsNumber_of_run_put hcodec hnow hnumber hoptions httl htime (hrun.le.trans hle) hbefore hput)
  obtain ⟨expiresAt, -, hlive⟩ := hholds.liveValue htime le_rfl
  obtain ⟨data, hget, hvalue⟩ := hlive.record
  have hread : (run (embedded time) (db.get key ()) s₂).1 =
      db.decoded (if commands = [] then db.codec.name else Redis.bytesCodec)
        (formatInt (number + total)) () := by
    rw [DB.get, if_neg (run_put_eq_ok db hoptions hput).1, db.run_getRecord_of_decodes () hget hvalue,
      hlive.live]
    rfl
  rw [hread]
  by_cases hnil : commands = []
  · subst hnil
    cases hrun
    rw [if_pos rfl, add_zero, DB.decoded, hregistered]
    exact iff_of_true (hcodec.unmarshal number hnumber) (.inl rfl)
  · rw [if_neg hnil]
    exact (or_iff_right hnil).symm

/-- Integers as decimals, under the name of the JSON codec. -/
def decimalCodec : Codec ℤ Unit where
  name := text "json"
  marshal number := .ok (formatInt number)
  unmarshal _ data := redisParseInt data

theorem decimalCodec_spec : DecimalCodec decimalCodec where
  name := rfl
  marshal _ _ := rfl
  unmarshal number hnumber := redisParseInt_eq_ok_iff.mpr ⟨parseDecimal_formatInt number, hnumber⟩

/-- A handle with no codec but the default one. -/
def defaultHandle (handle : ℕ) : DB ℤ Unit where
  handle := handle
  codec := decimalCodec
  codecs name := if name = decimalCodec.name then some decimalCodec else none

/-- Seven is stored through the core and incremented by a Redis client. -/
theorem incremented_counter_unreadable :
    ∃ s₁ s₂ : Store,
      run (embedded 0) ((defaultHandle 0).put (text "k") 7 []) ∅ = (.ok (), s₁) ∧
        (CounterCommand.incr.program (text "k")).run (embedded 0) s₁ = (.integer 8, s₂) ∧
        (run (embedded 0) ((defaultHandle 0).get (text "k") ()) s₂).1 =
          .error (.detail .codecUnavailable bytesCodecName) :=
  ⟨_, _, rfl, rfl, rfl⟩

/-- A handle whose application has registered the decimals for the name `bytes` as well. -/
def countingHandle (handle : ℕ) : DB ℤ Unit where
  handle := handle
  codec := decimalCodec
  codecs name :=
    if name = decimalCodec.name ∨ name = bytesCodecName then some decimalCodec else none

/-- Seven is stored with a time to live, incremented by a Redis client and read again. -/
theorem counter_readable_seven :
    ∃ s₁ s₂ : Store,
      run (embedded 5) ((countingHandle 0).put (text "k") 7 [some (.ttl 10)]) ∅ = (.ok (), s₁) ∧
        (CounterCommand.incr.program (text "k")).run (embedded 6) s₁ = (.integer 8, s₂) ∧
        (run (embedded 14) ((countingHandle 0).get (text "k") ()) s₂).1 = .ok (7 + (1 + 0)) := by
  obtain ⟨s₁, hput⟩ : ∃ s₁, run (embedded 5)
      ((countingHandle 0).put (text "k") 7 [some (.ttl 10)]) ∅ = (.ok (), s₁) := ⟨_, rfl⟩
  obtain ⟨s₂, hincr⟩ : ∃ s₂,
      (CounterCommand.incr.program (text "k")).run (embedded 6) s₁ = (.integer 8, s₂) := by
    cases hput
    exact ⟨_, rfl⟩
  have hoptions : PutOptions.ttl [some (.ttl 10)] = .ok 10 := rfl
  refine ⟨s₁, s₂, hput, hincr, ?_⟩
  exact (counter_readable_iff decimalCodec_spec rfl (by decide) (by decide) hoptions (by decide) hput
    (.cons (by decide) rfl hincr (.nil 6 _)) (by decide) (by decide) (fun _ => by decide)).mpr
    (.inr (decimalCodec_spec.unmarshal _ (by decide)))

end KVLite.Redis
