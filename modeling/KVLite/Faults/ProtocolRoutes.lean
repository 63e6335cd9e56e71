import KVLite.Faults.Replacement

/-!
# Replacement through the protocol extensions when engine calls fail

The HTTP handler for `PUT /v1/logical/{key}` and the Redis command `SET` replace a
scalar the way the core does, through the record store that tests the closed flag
before every call. `SET` first probes the type of the key, which reads and changes
nothing while the value is live.
-/

namespace KVLite

open Semantics Fallible BigEndian

variable {α β : Type} {plan : FaultPlan} {time : ℤ} {s : Store} {key data : Bytes} {calls : ℕ}

namespace FaultPlan

/-- The record-store call with number `call` fails: the handle is closed or the engine
call fails. -/
def Blocks (plan : FaultPlan) (call : ℕ) : Prop :=
  plan.closed call = true ∨ plan.fault call ≠ none

/-- One of the `count` record-store calls from number `call` fails. -/
def BlocksWithin (plan : FaultPlan) (call count : ℕ) : Prop :=
  ∃ n, call ≤ n ∧ n < call + count ∧ plan.Blocks n

theorem not_blocks_iff {call : ℕ} :
    ¬ plan.Blocks call ↔ plan.closed call = false ∧ plan.fault call = none := by
  simp [Blocks]

@[simp] theorem not_blocksWithin_zero (call : ℕ) : ¬ plan.BlocksWithin call 0 := by
  rintro ⟨n, hlow, hhigh, -⟩
  omega

theorem blocksWithin_add (call count count' : ℕ) :
    plan.BlocksWithin call (count + count') ↔
      plan.BlocksWithin call count ∨ plan.BlocksWithin (call + count) count' := by
  constructor
  · rintro ⟨n, hlow, hhigh, hn⟩
    by_cases hmiddle : n < call + count
    · exact .inl ⟨n, hlow, hmiddle, hn⟩
    · exact .inr ⟨n, by omega, by omega, hn⟩
  · rintro (⟨n, hlow, hhigh, hn⟩ | ⟨n, hlow, hhigh, hn⟩)
    · exact ⟨n, hlow, by omega, hn⟩
    · exact ⟨n, by omega, by omega, hn⟩

theorem blocksWithin_ite (call count : ℕ) (p : Prop) [Decidable p] :
    plan.BlocksWithin call (if p then count else 0) ↔ p ∧ plan.BlocksWithin call count := by
  by_cases h : p <;> simp [h]

theorem blocksWithin_one (call : ℕ) : plan.BlocksWithin call 1 ↔ plan.Blocks call := by
  constructor
  · rintro ⟨n, hlow, hhigh, hn⟩
    obtain rfl : n = call := by omega
    exact hn
  · exact fun h => ⟨call, le_rfl, by omega, h⟩

end FaultPlan

/-! ### Code that only reads -/

/-- From call number `calls` on, `x` reads the store `s` without changing it: it fails
exactly if `fails`, and else returns `value` after `count` calls. -/
structure Reads (plan : FaultPlan) (time : ℤ) (s : Store) (x : Action α) (calls : ℕ)
    (fails : Prop) (value : α) (count : ℕ) : Prop where
  fail : fails → ∃ err calls', run (faulty plan time) x ⟨calls, s⟩ =
    (.error err, ⟨calls', s⟩)
  read : ¬ fails → run (faulty plan time) x ⟨calls, s⟩ =
    (.ok value, ⟨calls + count, s⟩)

namespace Reads

theorem pure (value : α) : Reads plan time s (pure value) calls False value 0 :=
  ⟨False.elim, fun _ => rfl⟩

theorem bind {x : Action α} {f : α → Action β} {fails fails' either : Prop} {value : α}
    {value' : β} {count count' total : ℕ} (hx : Reads plan time s x calls fails value count)
    (hf : Reads plan time s (f value) (calls + count) fails' value' count')
    (heither : fails ∨ fails' ↔ either) (htotal : count + count' = total) :
    Reads plan time s (x >>= f) calls either value' total := by
  subst htotal
  by_cases h : fails
  · obtain ⟨err, calls', hrun⟩ := hx.fail h
    exact ⟨fun _ => ⟨err, calls', run_bind_error hrun⟩,
      fun hnot => absurd (heither.mp (.inl h)) hnot⟩
  · refine ⟨fun h' => ?_, fun hnot => ?_⟩
    · obtain ⟨err, calls', hrun⟩ := hf.fail ((heither.mpr h').resolve_left h)
      exact ⟨err, calls', by rw [run_bind_ok (hx.read h), hrun]⟩
    · have hnot' : ¬ fails' := fun h' => hnot (heither.mp (.inr h'))
      rw [run_bind_ok (hx.read h), hf.read hnot', Nat.add_assoc]

/-- Code that cannot fail, followed by `f`. -/
theorem bind_of_not {x : Action α} {f : α → Action β} {fails : Prop} {value : α} {value' : β}
    {count : ℕ} (hx : Reads plan time s x calls False value 0)
    (hf : Reads plan time s (f value) calls fails value' count) :
    Reads plan time s (x >>= f) calls fails value' count :=
  hx.bind hf (by simp) (by simp)

/-- Code that only reads the clock and succeeds. -/
theorem clock {x : Action α} {value : α} (hx : OnlyReadsClock x)
    (hvalue : atTime time x = .ok value) : Reads plan time s x calls False value 0 :=
  ⟨False.elim, fun _ => by rw [run_onlyReadsClock hx, hvalue]; rfl⟩

/-- Code that fails at once; the value is then arbitrary. -/
theorem throw (err : GoError) (value : α) (count : ℕ) :
    Reads plan time s (throw err) calls True value count :=
  ⟨fun _ => ⟨err, calls, rfl⟩, fun h => absurd trivial h⟩

theorem get (storageKey : Bytes) :
    Reads plan time s (Transport.get storageKey) calls (plan.BlocksWithin calls 1)
      s[storageKey]? 1 := by
  rw [FaultPlan.blocksWithin_one]
  refine ⟨fun h => ?_, fun h => ?_⟩
  · by_cases hclosed : plan.closed calls = true
    · refine ⟨.of .closed, calls, run_bind_error ?_⟩
      change plan.whileOpen ⟨calls, s⟩ (.ok ()) = _
      simp only [FaultPlan.whileOpen, if_pos hclosed]
    · obtain ⟨fault, hfault⟩ := Option.ne_none_iff_exists'.mp (h.resolve_left hclosed)
      refine ⟨fault.err, calls + 1, ?_⟩
      rw [Transport.get, run_bind_ok (run_ensureOpen_faulty (by simpa using hclosed)),
        run_get_of_fault hfault]
  · obtain ⟨hopen, hfault⟩ := FaultPlan.not_blocks_iff.mp h
    rw [Transport.get, run_bind_ok (run_ensureOpen_faulty hopen),
      run_get_of_none hfault]

end Reads

/-- What an operation keeps that reads first. -/
theorem keptOnError_bind_of_reads {x : Action α} {f : α → Action β} {fails : Prop} {value : α}
    {count : ℕ} (hx : Reads plan time s x calls fails value count)
    (hvalue : s[valueKey key]? = some data) :
    KeptOnError plan time key data (x >>= f) ⟨calls, s⟩ ↔
      fails ∨ KeptOnError plan time key data (f value) ⟨calls + count, s⟩ := by
  by_cases h : fails
  · obtain ⟨err, calls', hrun⟩ := hx.fail h
    rw [keptOnError_bind_of_error hrun]
    exact iff_of_true hvalue (.inl h)
  · rw [keptOnError_bind_of_ok (hx.read h)]
    simp [h]

/-! ### The type probe of a live string -/

/-- The key holds a live string for the Redis commands: its value record decodes and
has not expired, and no collection deadline of the key has passed. -/
structure LiveString (time : ℤ) (s : Store) (key data : Bytes) (value : Envelope) : Prop where
  record : s[valueKey key]? = some data
  decodes : unmarshalEnvelope data = .ok value
  live : value.expired time = false
  ttlAhead : ∀ ttl, s[collectionTTLKey key]? = some ttl → ttl.length = 8 →
    wrapInt64 time < toInt64 (ofBigEndian ttl)

/-- The key has an expiry record of the wrong size, which every probe reports. -/
def TTLMalformed (s : Store) (key : Bytes) : Prop :=
  ∃ ttl, s[collectionTTLKey key]? = some ttl ∧ ttl.length ≠ 8

theorem onlyReadsClock_expiredNow (expiresAt : ℤ) : OnlyReadsClock (expiredNow expiresAt) := by
  unfold expiredNow
  split
  · exact onlyReadsClock_now.bind fun _ => trivial
  · trivial

variable {value : Envelope}

namespace LiveString

/-- The deadline test of the live value. -/
theorem reads_expiredNow (h : LiveString time s key data value) :
    Reads plan time s (expiredNow value.expiresAt) calls False false 0 := by
  refine Reads.clock (onlyReadsClock_expiredNow _) ?_
  have hlive := h.live
  unfold Envelope.expired at hlive
  rw [atTime, run_expiredNow, hlive]

theorem reads_decode (h : LiveString time s key data value) :
    Reads plan time s (liftExcept (unmarshalEnvelope data)) calls False value 0 :=
  Reads.clock (onlyReadsClock_liftExcept _) h.decodes

theorem reads_redisKeyExpired (h : LiveString time s key data value) :
    Reads plan time s (Redis.redisKeyExpired key) calls
      (TTLMalformed s key ∨ plan.BlocksWithin calls 1) false 1 := by
  unfold Redis.redisKeyExpired Redis.redisMetadataExpiry TTLMalformed
  rw [bind_assoc]
  cases httl : s[collectionTTLKey key]? with
  | none =>
    refine (Reads.get _).bind (?_ : Reads plan time s _ _ False _ 0) (by simp) rfl
    rw [httl]
    exact Reads.pure false
  | some ttl =>
    by_cases hlen : ttl.length = 8
    · refine (Reads.get _).bind (?_ : Reads plan time s _ _ False _ 0) (by simp [hlen]) rfl
      have hclock : Reads plan time s Redis.unixNano (calls + 1) False (wrapInt64 time) 0 :=
        Reads.clock (onlyReadsClock_now.bind fun _ => trivial) rfl
      rw [httl]
      simp only [hlen, ne_eq, not_true_eq_false, if_false, pure_bind]
      refine hclock.bind_of_not ?_
      rw [if_pos (h.ttlAhead ttl httl hlen)]
      exact Reads.pure false
    · refine (Reads.get _).bind (?_ : Reads plan time s _ _ True _ 0) (by simp [hlen]) rfl
      rw [httl]
      simp only [ne_eq, hlen, not_false_eq_true, if_true]
      exact Reads.throw _ _ _

theorem reads_probeValue (h : LiveString time s key data value) :
    Reads plan time s (Redis.probeValue key) calls (plan.BlocksWithin calls 1) true 1 := by
  refine (Reads.get _).bind (?_ : Reads plan time s _ _ False _ 0) (by simp) rfl
  rw [h.record]
  exact h.reads_decode.bind_of_not (h.reads_expiredNow.bind_of_not (Reads.pure true))

theorem reads_redisType (h : LiveString time s key data value) :
    Reads plan time s (Redis.redisType key) calls
      (TTLMalformed s key ∨ plan.BlocksWithin calls 2) .string 2 := by
  refine h.reads_redisKeyExpired.bind
    (?_ : Reads plan time s _ _ (plan.BlocksWithin (calls + 1) 1) _ 1) ?_ rfl
  · exact h.reads_probeValue.bind (Reads.pure Redis.RedisType.string) (by simp) rfl
  · rw [plan.blocksWithin_add calls 1 1, or_assoc]

theorem reads_redisString (h : LiveString time s key data value) :
    Reads plan time s (Redis.redisString key) calls
      (TTLMalformed s key ∨ plan.BlocksWithin calls 3) (some value.payload) 3 := by
  refine h.reads_redisType.bind
    (?_ : Reads plan time s _ _ (plan.BlocksWithin (calls + 2) 1) _ 1) ?_ rfl
  · refine (Reads.get _).bind (?_ : Reads plan time s _ _ False _ 0) (by simp) rfl
    rw [h.record]
    exact h.reads_decode.bind_of_not (h.reads_expiredNow.bind_of_not (Reads.pure _))
  · rw [plan.blocksWithin_add calls 2 1, or_assoc]

/-- The deadline of the live value, as `redisExpiry` reports it. -/
theorem reads_redisExpiry (h : LiveString time s key data value) :
    Reads plan time s (Redis.redisExpiry key) calls
      (TTLMalformed s key ∨ plan.BlocksWithin calls 3)
      (if value.expiresAt > 0 then some value.expiresAt else none) 3 := by
  refine h.reads_redisType.bind
    (?_ : Reads plan time s _ _ (plan.BlocksWithin (calls + 2) 1) _ 1) ?_ rfl
  · refine (Reads.get _).bind (?_ : Reads plan time s _ _ False _ 0) (by simp) rfl
    rw [h.record]
    refine h.reads_decode.bind_of_not ?_
    split <;> exact Reads.pure _
  · rw [plan.blocksWithin_add calls 2 1, or_assoc]

end LiveString

/-! ### Writing the new value -/

section Write

variable {storageKey record : Bytes}

theorem run_transportPut_of_not_blocks (h : ¬ plan.Blocks calls) :
    run (faulty plan time) (Transport.put storageKey record) ⟨calls, s⟩ =
      (.ok (), ⟨calls + 1, s.insert storageKey record⟩) := by
  obtain ⟨hopen, hfault⟩ := FaultPlan.not_blocks_iff.mp h
  rw [Transport.put, run_bind_ok (run_ensureOpen_faulty hopen), run_put_of_none hfault]

/-- A test of the closed flag fails or passes, and changes nothing. -/
theorem run_ensureOpen_of_closed (h : plan.closed calls = true) :
    run (faulty plan time) ensureOpen ⟨calls, s⟩ =
      (.error (.of .closed), ⟨calls, s⟩) := by
  change plan.whileOpen ⟨calls, s⟩ (.ok ()) = _
  simp only [FaultPlan.whileOpen, if_pos h]

variable (time) in
/-- A blocked call fails and changes no record. -/
theorem run_ensureOpen_bind_of_blocks {x : Action Unit} (h : plan.Blocks calls)
    (hx : ∀ {fault}, plan.fault calls = some fault →
      run (faulty plan time) x ⟨calls, s⟩ = (.error fault.err, ⟨calls + 1, s⟩)) :
    ∃ err calls', run (faulty plan time) (do
      ensureOpen
      x) ⟨calls, s⟩ = (.error err, ⟨calls', s⟩) := by
  by_cases hclosed : plan.closed calls = true
  · exact ⟨_, _, run_bind_error (run_ensureOpen_of_closed hclosed)⟩
  · obtain ⟨fault, hfault⟩ := Option.ne_none_iff_exists'.mp (h.resolve_left hclosed)
    exact ⟨_, _, (run_bind_ok (run_ensureOpen_faulty (by simpa using hclosed))).trans (hx hfault)⟩

variable (time) in
theorem run_transportPut_of_blocks (h : plan.Blocks calls) :
    ∃ err calls', run (faulty plan time) (Transport.put storageKey record) ⟨calls, s⟩ =
      (.error err, ⟨calls', s⟩) :=
  run_ensureOpen_bind_of_blocks time h run_put_of_fault

theorem run_transportDelete_of_not_blocks (h : ¬ plan.Blocks calls) :
    run (faulty plan time) (Transport.delete storageKey) ⟨calls, s⟩ =
      (.ok (), ⟨calls + 1, s.erase storageKey⟩) := by
  obtain ⟨hopen, hfault⟩ := FaultPlan.not_blocks_iff.mp h
  rw [Transport.delete, run_bind_ok (run_ensureOpen_faulty hopen),
    run_delete_of_none hfault]

variable (time) in
theorem run_transportDelete_of_blocks (h : plan.Blocks calls) :
    ∃ err calls', run (faulty plan time) (Transport.delete storageKey) ⟨calls, s⟩ =
      (.error err, ⟨calls', s⟩) :=
  run_ensureOpen_bind_of_blocks time h run_delete_of_fault

end Write

/-- The record `SET` writes for a value without a deadline. -/
def plainRecord (value : Bytes) : Bytes := Redis.bytesRecord value 0

/-- The part of `SET` that writes the value keeps what was there before the command:
`call` is the number of its first engine call and `s` the store, from which the old
value is already gone. -/
def FaultPlan.SetWriteSafe (plan : FaultPlan) (time : ℤ) (call : ℕ) (key : Bytes) (s : Store)
    (data payload : Bytes) (expiresAt : ℤ) : Prop :=
  if expiresAt ≤ 0 then
    ¬ plan.Blocks call ∧ (¬ plan.Blocks (call + 1) ∨ plainRecord payload = data)
  else if Redis.timeSub expiresAt time ≤ 0 then
    ¬ (plan.closed call = true ∨ plan.RemovalFails call key s)
  else
    ¬ plan.Blocks call

theorem keptOnError_transportPut_iff {encoded : Bytes} (hgone : s[valueKey key]? = none) :
    KeptOnError plan time key data (Transport.put (valueKey key) encoded) ⟨calls, s⟩ ↔
      ¬ plan.Blocks calls := by
  by_cases hblocks : plan.Blocks calls
  · obtain ⟨err, calls', hrun⟩ := run_transportPut_of_blocks time hblocks
    rw [keptOnError_iff_of_error hrun, hgone]
    simp [hblocks]
  · exact iff_of_true (keptOnError_of_ok (run_transportPut_of_not_blocks hblocks)) hblocks

/-- Writing a record of the value under a new deadline. -/
theorem keptOnError_putPayload_iff {payload : Bytes} {ttl : ℤ}
    (hgone : s[valueKey key]? = none) :
    KeptOnError plan time key data
        (Redis.putPayload (valueKey key) Redis.bytesCodec payload ttl) ⟨calls, s⟩ ↔
      ¬ plan.Blocks calls := by
  have hrun := @run_onlyReadsClock _ plan time ⟨calls, s⟩ _ (onlyReadsClock_deadlineAfter ttl)
  rw [atTime, run_deadlineAfter] at hrun
  rw [Redis.putPayload, keptOnError_bind_of_ok hrun, Redis.marshalEnvelope_bytesCodec,
    keptOnError_bind_of_ok (run_onlyReadsClock (onlyReadsClock_liftExcept (.ok _))),
    keptOnError_transportPut_iff hgone]

variable (time) in
/-- A removal that fails does not bring a value back. -/
theorem run_deleteLogicalKey_of_fails_gone (hgone : s[valueKey key]? = none)
    (h : plan.RemovalFails calls key s) :
    ∃ err st', run (faulty plan time) (deleteLogicalKey key) ⟨calls, s⟩ =
      (.error err, st') ∧ st'.store[valueKey key]? = none := by
  by_cases hreads : plan.ReadFails calls
  · obtain ⟨err, calls', hrun⟩ := 
      run_deleteLogicalKey_of_readFails time ⟨calls, s⟩ hreads
    exact ⟨err, _, hrun, hgone⟩
  · rw [run_deleteLogicalKey_of_reads hreads]
    rcases run_deleteEach_faulty (plan.collected calls key s) ⟨calls + 5, s⟩ with
      ⟨hnone, -⟩ | ⟨fault, deleted, failing, rest, calls', -, -, -, hrun⟩
    · exact absurd (h.resolve_left hreads) hnone
    · rw [run_bind_error hrun]
      refine ⟨_, _, rfl, ?_⟩
      rw [Store.getElem?_eraseAll]
      split
      · rfl
      · exact hgone

/-- A removal of a key without a value loses what was there before if it fails. -/
theorem keptOnError_redisDeleteRaw_iff (hgone : s[valueKey key]? = none) :
    KeptOnError plan time key data (Redis.redisDeleteRaw key) ⟨calls, s⟩ ↔
      ¬ (plan.closed calls = true ∨ plan.RemovalFails calls key s) := by
  unfold Redis.redisDeleteRaw Transport.deleteLogicalKey
  by_cases hclosed : plan.closed calls = true
  · rw [keptOnError_bind_of_error (run_ensureOpen_of_closed hclosed), hgone]
    simp [hclosed]
  · rw [keptOnError_bind_of_ok (run_ensureOpen_faulty (by simpa using hclosed))]
    by_cases hfails : plan.RemovalFails calls key s
    · obtain ⟨err, st', hrun, hgone'⟩ := run_deleteLogicalKey_of_fails_gone time hgone hfails
      rw [keptOnError_iff_of_error hrun, hgone']
      simp [hfails]
    · obtain ⟨found, calls', hrun⟩ :=
        run_deleteLogicalKey_of_not_fails time ⟨calls, s⟩ hfails
      exact iff_of_true (keptOnError_of_ok hrun) (not_or.mpr ⟨hclosed, hfails⟩)

theorem keptOnError_redisWriteString_iff {payload : Bytes} {expiresAt : ℤ}
    (hgone : s[valueKey key]? = none) :
    KeptOnError plan time key data (Redis.redisWriteString key payload expiresAt) ⟨calls, s⟩ ↔
      plan.SetWriteSafe time calls key s data payload expiresAt := by
  unfold Redis.redisWriteString Redis.redisWriteStringWithCodec FaultPlan.SetWriteSafe
  by_cases hdeadline : expiresAt ≤ 0
  · simp only [if_pos hdeadline]
    by_cases hblocks : plan.Blocks calls
    · obtain ⟨err, calls', hput⟩ := run_transportPut_of_blocks time hblocks
      have hrun : run (faulty plan time)
          (Redis.putPayload (valueKey key) Redis.bytesCodec payload 0) ⟨calls, s⟩ =
            (.error err, ⟨calls', s⟩) := hput
      rw [keptOnError_bind_of_error hrun, hgone]
      simp [hblocks]
    · have hrun : run (faulty plan time)
          (Redis.putPayload (valueKey key) Redis.bytesCodec payload 0) ⟨calls, s⟩ =
            (.ok (), ⟨calls + 1, s.insert (valueKey key) (plainRecord payload)⟩) :=
        run_transportPut_of_not_blocks hblocks
      rw [keptOnError_bind_of_ok hrun]
      simp only [hblocks, not_false_eq_true, true_and]
      by_cases hdelete : plan.Blocks (calls + 1)
      · obtain ⟨err, calls', hrun'⟩ := run_transportDelete_of_blocks time hdelete
        rw [keptOnError_iff_of_error hrun']
        simp [hdelete]
      · exact iff_of_true (keptOnError_of_ok (run_transportDelete_of_not_blocks hdelete))
          (.inl hdelete)
  · simp only [if_neg hdeadline]
    rw [keptOnError_bind_of_ok run_now_faulty]
    by_cases hpast : Redis.timeSub expiresAt time ≤ 0
    · simp only [if_pos hpast]
      rw [keptOnError_bind_pure, keptOnError_redisDeleteRaw_iff hgone]
    · simp only [if_neg hpast]
      exact keptOnError_putPayload_iff hgone

/-! ### SET -/

/-- The number of reads of `SET` on a live string before it removes anything. -/
def setReads (options : Redis.SetOptions) : ℕ :=
  2 + (if options.get then 3 else 0) + (if options.keepTTL ∧ ¬ options.hasExpiry then 3 else 0)

/-- The deadline `SET` writes over a live string. -/
def setDeadline (options : Redis.SetOptions) (value : Envelope) : ℤ :=
  if options.keepTTL ∧ ¬ options.hasExpiry then
    (if value.expiresAt > 0 then some value.expiresAt else none).getD 0
  else
    options.expiresAt

/-- `SET` over a live string keeps it if the command fails: it does not write (`NX`), a
read fails, the removal fails before the value is deleted, or neither the rest of the
removal nor the write fails. -/
def FaultPlan.SetSafe (plan : FaultPlan) (time : ℤ) (call : ℕ) (key : Bytes) (s : Store)
    (data : Bytes) (value : Envelope) (payload : Bytes) (options : Redis.SetOptions) : Prop :=
  let removal := call + setReads options
  options.nx = true ∨ TTLMalformed s key ∨ plan.BlocksWithin call (setReads options) ∨
    plan.closed removal = true ∨ plan.FailsEarly removal ∨
    (¬ plan.FailsLate removal key s ∧
      plan.SetWriteSafe time (plan.removalEnd removal key s) key (plan.removed removal key s)
        data payload (setDeadline options value))

theorem keptOnError_redisDeleteAndWriteString_iff {payload : Bytes} {expiresAt : ℤ}
    (hvalue : s[valueKey key]? = some data) :
    KeptOnError plan time key data (Redis.redisDeleteAndWriteString key payload expiresAt)
        ⟨calls, s⟩ ↔
      plan.closed calls = true ∨ plan.FailsEarly calls ∨
      (¬ plan.FailsLate calls key s ∧
        plan.SetWriteSafe time (plan.removalEnd calls key s) key (plan.removed calls key s)
          data payload expiresAt) := by
  unfold Redis.redisDeleteAndWriteString Redis.redisDeleteRaw Transport.deleteLogicalKey
  rw [bind_assoc, keptOnError_ensureOpen_bind hvalue, keptOnError_removal_bind_iff hvalue,
    keptOnError_redisWriteString_iff (getElem?_removed calls hvalue)]

theorem LiveString.reads_redisSetOld (h : LiveString time s key data value)
    (options : Redis.SetOptions) :
    ∃ old, Reads plan time s (Redis.redisSetOld key options .string) calls
      (options.get = true ∧ (TTLMalformed s key ∨ plan.BlocksWithin calls 3)) old
      (if options.get then 3 else 0) := by
  unfold Redis.redisSetOld
  cases options.get with
  | true =>
    simp only [ne_eq, reduceCtorEq, not_false_eq_true, and_self, if_true, true_and]
    exact ⟨_, h.reads_redisString.bind (Reads.pure _) (by simp) rfl⟩
  | false =>
    simp only [Bool.false_eq_true, false_and, if_false]
    exact ⟨_, Reads.pure _⟩

theorem LiveString.reads_redisSetExpiresAt (h : LiveString time s key data value)
    (options : Redis.SetOptions) :
    Reads plan time s (Redis.redisSetExpiresAt key options .string) calls
      ((options.keepTTL ∧ ¬ options.hasExpiry) ∧
        (TTLMalformed s key ∨ plan.BlocksWithin calls 3)) (setDeadline options value)
      (if options.keepTTL ∧ ¬ options.hasExpiry then 3 else 0) := by
  unfold Redis.redisSetExpiresAt setDeadline
  by_cases hkeep : options.keepTTL = true ∧ ¬ options.hasExpiry = true
  · simp only [hkeep, ne_eq, reduceCtorEq, not_false_eq_true, and_self, if_true, true_and]
    exact h.reads_redisExpiry.bind (Reads.pure _) (by simp) rfl
  · have hkeep' : ¬ (options.keepTTL = true ∧ Redis.RedisType.string ≠ .none ∧
        ¬ options.hasExpiry = true) := fun h' => hkeep ⟨h'.1, h'.2.2⟩
    simp only [if_neg hkeep', hkeep, false_and]
    exact Reads.pure _

theorem keptOnError_redisSetWith_iff {payload : Bytes} {options : Redis.SetOptions}
    (h : LiveString time s key data value) :
    KeptOnError plan time key data (Redis.redisSetWith key payload options) ⟨calls, s⟩ ↔
      plan.SetSafe time calls key s data value payload options := by
  unfold Redis.redisSetWith FaultPlan.SetSafe
  rw [keptOnError_bind_of_reads h.reads_redisType h.record]
  by_cases hnx : options.nx = true
  · simp only [hnx, ne_eq, reduceCtorEq, not_false_eq_true, and_self, if_true, true_or, iff_true]
    exact .inr (keptOnError_of_ok (run_pure _))
  simp only [hnx, false_and, Bool.false_eq_true, if_false, reduceCtorEq, and_false, false_or]
  -- The reads of the options come before the removal.
  obtain ⟨old, hold⟩ : ∃ old, Reads plan time s _ (calls + 2) _ old _ :=
    h.reads_redisSetOld options
  rw [keptOnError_bind_of_reads hold h.record,
    keptOnError_bind_of_reads (h.reads_redisSetExpiresAt options) h.record, keptOnError_bind_pure,
    keptOnError_redisDeleteAndWriteString_iff h.record]
  have hcalls : calls + 2 + (if options.get = true then 3 else 0) +
      (if options.keepTTL = true ∧ ¬ options.hasExpiry = true then 3 else 0) =
        calls + setReads options := by
    unfold setReads
    omega
  have hreads : plan.BlocksWithin calls (setReads options) ↔
      (plan.BlocksWithin calls 2 ∨ options.get = true ∧ plan.BlocksWithin (calls + 2) 3) ∨
      (options.keepTTL = true ∧ ¬ options.hasExpiry = true) ∧
        plan.BlocksWithin (calls + 2 + if options.get = true then 3 else 0) 3 := by
    unfold setReads
    rw [FaultPlan.blocksWithin_add, FaultPlan.blocksWithin_add, FaultPlan.blocksWithin_ite,
      FaultPlan.blocksWithin_ite, Nat.add_assoc]
  rw [hcalls, hreads]
  -- What is left is to collect the reads' reasons to fail.
  generalize TTLMalformed s key = malformed, plan.BlocksWithin calls 2 = first,
    plan.BlocksWithin (calls + 2) 3 = second, plan.BlocksWithin (calls + 2 + _) 3 = third,
    (plan.closed _ = true ∨ _) = rest
  grind

theorem Redis.onlyReadsClock_redisSetDeadline (option amount : Bytes) :
    OnlyReadsClock (Redis.redisSetDeadline option amount) := by
  unfold Redis.redisSetDeadline
  refine (onlyReadsClock_liftExcept _).bind fun amount => ?_
  have hclock : OnlyReadsClock Redis.unixNano := onlyReadsClock_now.bind fun _ => trivial
  generalize (if option = text "PX" ∨ option = text "PXAT" then Redis.millisecond
    else Redis.second) = unit
  dsimp only
  split
  · trivial
  · split
    · trivial
    · refine hclock.bind fun current => ?_
      split <;> trivial

/-- Parsing the options of `SET` calls only the clock. -/
theorem Redis.onlyReadsClock_redisSetOptions (go : Redis.GoRuntime) (options : Redis.SetOptions)
    (args : List Bytes) : OnlyReadsClock (Redis.redisSetOptions go options args) := by
  fun_induction Redis.redisSetOptions go options args with
  | case1 => trivial
  | _ => first
    | assumption
    | trivial
    | exact (Redis.onlyReadsClock_redisSetDeadline _ _).bind (by assumption)

/-- `SET` replies with an error exactly when it ends with one. -/
theorem Redis.redisSetWith_reply_ne_errorString {payload : Bytes} {options : Redis.SetOptions}
    {st st' : FaultState} {reply : Redis.Resp}
    (h : run (faulty plan time) (Redis.redisSetWith key payload options) st =
      (.ok reply, st')) (message : Bytes) : reply ≠ .errorString message := by
  obtain ⟨typ, _, -, h⟩ := exists_of_run_bind_eq_ok h
  split at h
  · cases h
    exact Redis.Resp.noConfusion
  split at h
  · cases h
    exact Redis.Resp.noConfusion
  obtain ⟨old, _, hold, h⟩ := exists_of_run_bind_eq_ok h
  obtain ⟨_, _, -, h⟩ := exists_of_run_bind_eq_ok h
  obtain ⟨_, _, -, h⟩ := exists_of_run_bind_eq_ok h
  cases h
  split
  · unfold Redis.redisSetOld at hold
    split at hold
    · obtain ⟨value, _, -, hold⟩ := exists_of_run_bind_eq_ok hold
      cases value <;> (cases hold; exact Redis.Resp.noConfusion)
    · cases hold
      exact Redis.Resp.noConfusion
  · exact Redis.Resp.noConfusion

/-- If the command replies with an error, the key still has the value record `data`. -/
def KeptOnErrorReply (plan : FaultPlan) (time : ℤ) (key data : Bytes)
    (command : Program Calls Redis.Resp) (st : FaultState) : Prop :=
  ∀ message st', command.run (faulty plan time) st = (.errorString message, st') →
    st'.store[valueKey key]? = some data

/-- Where only errors are replied as errors, the reply tells them apart. -/
theorem keptOnErrorReply_replying_iff {x : Action Redis.Resp} {st : FaultState}
    (hreply : ∀ reply st', run (faulty plan time) x st = (.ok reply, st') →
      ∀ message, reply ≠ .errorString message) :
    KeptOnErrorReply plan time key data (Redis.replying x) st ↔
      KeptOnError plan time key data x st := by
  cases hx : run (faulty plan time) x st with
  | mk result st' =>
    cases result with
    | ok reply =>
      refine iff_of_true ?_ (keptOnError_of_ok hx)
      intro message st'' h
      rw [Redis.run_replying hx] at h
      exact absurd (Prod.mk.inj h).1 (hreply _ _ hx message)
    | error err =>
      obtain ⟨message, hmessage⟩ := Redis.exists_redisErrorReply_eq err
      have hrun := Redis.run_replying_error hx
      rw [keptOnError_iff_of_error hx]
      constructor
      · exact fun hkept => hkept message st' (by rw [hrun, hmessage])
      · intro hdata message' st'' h
        rw [hrun] at h
        rw [← (Prod.mk.inj h).2]
        exact hdata

/-- `SET` with options that do not parse keeps the value, as it then does nothing. -/
theorem keptOnErrorReply_redisSet_iff {go : Redis.GoRuntime} {name payload : Bytes}
    {args : List Bytes} (h : LiveString time s key data value) :
    KeptOnErrorReply plan time key data
        (Redis.redisSet go (name :: key :: payload :: args)) ⟨calls, s⟩ ↔
      ∀ options, atTime time (Redis.redisSetOptions go {} args) = .ok options →
        plan.SetSafe time calls key s data value payload options := by
  have hrun := @run_onlyReadsClock _ plan time ⟨calls, s⟩ _
    (Redis.onlyReadsClock_redisSetOptions go {} args)
  unfold Redis.redisSet
  rw [keptOnErrorReply_replying_iff]
  · cases hoptions : atTime time (Redis.redisSetOptions go {} args) with
    | error err =>
      rw [hoptions] at hrun
      rw [keptOnError_bind_of_error hrun]
      simp [h.record]
    | ok options =>
      rw [hoptions] at hrun
      rw [keptOnError_bind_of_ok hrun, keptOnError_redisSetWith_iff h]
      simp
  · intro reply st' hreply
    obtain ⟨options, _, -, hset⟩ := exists_of_run_bind_eq_ok hreply
    exact Redis.redisSetWith_reply_ne_errorString hset

/-! ### The HTTP route -/

/-- The logical replacement of the HTTP owner that starts at `call` keeps the old value
if it fails. -/
def FaultPlan.PutLogicalSafe (plan : FaultPlan) (call : ℕ) (key : Bytes) (s : Store) : Prop :=
  plan.closed call = true ∨ plan.FailsEarly call ∨
    (¬ plan.FailsLate call key s ∧ ¬ plan.Blocks (plan.removalEnd call key s))

theorem keptOnError_orFail {status : ℕ} {x : Action α} {st : FaultState} :
    KeptOnError plan time key data (Http.orFail status x) st ↔
      KeptOnError plan time key data x st := by
  refine keptOnError_mapError (g := fun err => ⟨status, err.message⟩) ?_
  unfold Http.orFail
  rw [run_mk, Program.run_bind, program_run]
  rfl

theorem keptOnError_putLogical_iff {V T : Type} (limit : ℕ) (db : DB V T) {encoded : Bytes}
    (hvalue : s[valueKey key]? = some data) :
    KeptOnError plan time key data (Http.putLogical limit db key encoded) ⟨calls, s⟩ ↔
      key = [] ∨ limit < encoded.length ∨ (∃ err, unmarshalEnvelope encoded = .error err) ∨
        plan.PutLogicalSafe calls key s := by
  unfold Http.putLogical Http.readBody
  by_cases hkey : key = []
  · rw [if_pos hkey]
    exact iff_of_true ((keptOnError_iff_of_error (run_throw _)).mpr hvalue) (.inl hkey)
  rw [if_neg hkey]
  by_cases hlimit : limit < encoded.length
  · rw [if_pos hlimit, keptOnError_bind_of_error (run_throw _)]
    exact iff_of_true hvalue (.inr (.inl hlimit))
  rw [if_neg hlimit, pure_bind]
  cases hencoded : unmarshalEnvelope encoded with
  | error err =>
    exact iff_of_true ((keptOnError_iff_of_error (run_throw _)).mpr hvalue)
      (.inr (.inr (.inl ⟨err, rfl⟩)))
  | ok value =>
    simp only [hkey, hlimit, reduceCtorEq, exists_false, false_or]
    rw [keptOnError_orFail, keptOnError_withLock, Transport.deleteLogicalKey, bind_assoc,
      keptOnError_ensureOpen_bind hvalue, keptOnError_removal_bind_iff hvalue,
      keptOnError_transportPut_iff (getElem?_removed calls hvalue), FaultPlan.PutLogicalSafe]

/-! ### All routes -/

/-- For a key with a scalar and any engine failures: which replacements keep the scalar if
they end with an error. A replacement keeps it that is refused before it starts, that fails
before the value is deleted, or that meets no failure from that delete on. `SET` probes the
key first, so there the scalar has to be live. -/
theorem replacement_keeps_value_iff {V T : Type} (db : DB V T) (go : Redis.GoRuntime)
    (plan : FaultPlan) (calls : ℕ) (time : ℤ) (hrecord : s[valueKey key]? = some data) :
    (∀ v options, KeptOnError plan time key data (db.put key v options) ⟨calls, s⟩ ↔
      key = [] ∨ db.EncodingFails v options ∨ plan.ReplacementSafe calls key s) ∧
    (∀ payload options,
      KeptOnError plan time key data (db.putBytes key payload options) ⟨calls, s⟩ ↔
        key = [] ∨ PayloadRefused bytesCodecName options ∨ plan.ReplacementSafe calls key s) ∧
    (∀ codec payload options,
      KeptOnError plan time key data (db.putStoredValue key codec payload options) ⟨calls, s⟩ ↔
        key = [] ∨ PayloadRefused codec options ∨ plan.ReplacementSafe calls key s) ∧
    (∀ limit encoded,
      KeptOnError plan time key data (Http.putLogical limit db key encoded) ⟨calls, s⟩ ↔
        key = [] ∨ limit < encoded.length ∨ (∃ err, unmarshalEnvelope encoded = .error err) ∨
          plan.PutLogicalSafe calls key s) ∧
    (∀ value, LiveString time s key data value → ∀ name payload args,
      KeptOnErrorReply plan time key data
          (Redis.redisSet go (name :: key :: payload :: args)) ⟨calls, s⟩ ↔
        ∀ options, atTime time (Redis.redisSetOptions go {} args) = .ok options →
          plan.SetSafe time calls key s data value payload options) :=
  ⟨fun v options => db.keptOnError_put_iff v options hrecord,
    fun payload options => db.keptOnError_putStoredValue_iff bytesCodecName payload options hrecord,
    fun codec payload options => db.keptOnError_putStoredValue_iff codec payload options hrecord,
    fun limit _ => keptOnError_putLogical_iff limit db hrecord,
    fun _ hlive _ _ _ => keptOnErrorReply_redisSet_iff hlive⟩

/-- The plan under which the engine call with number `call` fails. -/
def failsAt (call : ℕ) : FaultPlan where
  fault n := if n = call then some ⟨.new (text "no space left on device"), 0⟩ else none
  closed _ := false

/-- A store with the value `old` under the key `k`. -/
def oneValueStore : Store := (∅ : Store).insert (valueKey (text "k")) (plainRecord (text "old"))

/-- The write after the removal fails: `Put` reports the error and `old` is gone. -/
theorem put_loses_value_when_write_fails :
    ∃ err st', run (faulty (failsAt 6) 0)
        ((bytesHandle 0).put (text "k") (text "new") []) ⟨0, oneValueStore⟩ = (.error err, st') ∧
      oneValueStore[valueKey (text "k")]? = some (plainRecord (text "old")) ∧
      st'.store[valueKey (text "k")]? = none :=
  ⟨_, _, rfl, rfl, rfl⟩

theorem liveString_oneValueStore :
    LiveString 0 oneValueStore (text "k") (plainRecord (text "old"))
      ⟨0, Redis.bytesCodec, text "old"⟩ where
  record := rfl
  decodes := rfl
  live := rfl
  ttlAhead ttl httl := by cases httl

/-- A live scalar, the same replacement of it, and one by `SET`. -/
theorem replacement_keeps_value_iff_at_oneValueStore :
    (KeptOnError (failsAt 6) 0 (text "k") (plainRecord (text "old"))
        ((bytesHandle 0).put (text "k") (text "new") []) ⟨0, oneValueStore⟩ ↔
      text "k" = [] ∨ (bytesHandle 0).EncodingFails (text "new") [] ∨
        (failsAt 6).ReplacementSafe 0 (text "k") oneValueStore) ∧
    (KeptOnErrorReply (failsAt 6) 0 (text "k") (plainRecord (text "old"))
        (Redis.redisSet .upperCase [text "SET", text "k", text "new"]) ⟨0, oneValueStore⟩ ↔
      ∀ options, atTime 0 (Redis.redisSetOptions .upperCase {} []) = .ok options →
        (failsAt 6).SetSafe 0 0 (text "k") oneValueStore (plainRecord (text "old"))
          ⟨0, Redis.bytesCodec, text "old"⟩ (text "new") options) :=
  have h := replacement_keeps_value_iff (bytesHandle 0) .upperCase (failsAt 6) 0 0
    liveString_oneValueStore.record
  ⟨h.1 (text "new") [], h.2.2.2.2 _ liveString_oneValueStore _ _ _⟩

end KVLite
