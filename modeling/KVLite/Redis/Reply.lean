import KVLite.Core.Transport

/-!
# Replies and argument parsing of the Redis endpoint

The replies of the Redis-compatible server, the translation of an error into a
reply, and the parsing of numbers. What the server takes from Go's text packages and
from Go's map iteration is a parameter, `GoRuntime`.
-/

namespace KVLite.Redis

open Semantics Fallible BigEndian

/-- A reply of the server. -/
inductive Resp
  | simpleString (data : Bytes)
  | errorString (data : Bytes)
  | integer (value : ℤ)
  | bulk (data : Bytes)
  | null
  | array (items : List Resp)
  | map (items : List Resp)
  deriving Repr

/-- What the server uses of Go's libraries and runtime: `strings.ToUpper`,
`strings.EqualFold`, `path.Match` (absent when the pattern is malformed) and the order
in which a `range` over a map visits its keys. -/
structure GoRuntime where
  toUpper : Bytes → Bytes
  equalFold : Bytes → Bytes → Bool
  pathMatch : Bytes → Bytes → Option Bool
  rangeOrder : List Bytes → List Bytes
  rangeOrder_perm : ∀ keys, (rangeOrder keys).Perm keys

/-- A runtime for inputs that are in upper case already. -/
def GoRuntime.upperCase : GoRuntime where
  toUpper := id
  equalFold a b := a = b
  pathMatch _ _ := some false
  rangeOrder := id
  rangeOrder_perm _ := .refl _

def redisMaxInt64 : ℤ := 2 ^ 63 - 1

def redisMinInt64 : ℤ := -redisMaxInt64 - 1

def redisSyntaxError : Resp := .errorString (text "ERR syntax error")

def redisErrorReply (err : GoError) : Resp :=
  if err.is .redisWrongType then .errorString Sentinel.redisWrongType.message
  else if err.is .closed then .errorString (text "ERR database is closed")
  else .errorString (text "ERR " ++ err.message)

theorem exists_redisErrorReply_eq (err : GoError) :
    ∃ message, redisErrorReply err = .errorString message := by
  unfold redisErrorReply
  split
  · exact ⟨_, rfl⟩
  · split <;> exact ⟨_, rfl⟩

/-- A command whose error, if it ends with one, becomes its reply. -/
def replying (x : Action Resp) : Program Calls Resp := do
  match ← ExceptT.run x with
  | .ok reply => return reply
  | .error err => return redisErrorReply err

section Replying

variable {σ : Type} {handler : Handler Calls σ} {x : Action Resp} {s s' : σ}

theorem run_replying {reply : Resp} (h : run handler x s = (.ok reply, s')) :
    (replying x).run handler s = (reply, s') := by
  rw [replying, Program.run_bind, program_run, h]
  rfl

theorem run_replying_error {err : GoError} (h : run handler x s = (.error err, s')) :
    (replying x).run handler s = (redisErrorReply err, s') := by
  rw [replying, Program.run_bind, program_run, h]
  rfl

theorem run_replying_congr {y : Action Resp} (h : run handler x s = run handler y s') :
    (replying x).run handler s = (replying y).run handler s' := by
  rw [replying, replying, Program.run_bind, Program.run_bind, program_run,
    program_run, h]

end Replying

/-- The value of a non-empty string of decimal digits. -/
def parseDigits (digits : Bytes) : Option ℕ :=
  if digits = [] then none
  else digits.foldlM (fun value digit =>
    if 48 ≤ digit ∧ digit ≤ 57 then some (value * 10 + (digit.toNat - 48)) else none) 0

/-- A decimal integer with an optional sign. -/
def parseDecimal (data : Bytes) : Option ℤ :=
  match data with
  | 45 :: digits => (parseDigits digits).map fun value => -(value : ℤ)
  | 43 :: digits => (parseDigits digits).map fun value => (value : ℤ)
  | digits => (parseDigits digits).map fun value => (value : ℤ)

theorem parseDigits_toDigits (n : ℕ) :
    parseDigits ((Nat.toDigits 10 n).map fun c => UInt8.ofNat c.toNat) = some n := by
  have hbyte : ∀ d < 10, (48 ≤ UInt8.ofNat (Nat.digitChar d).toNat ∧
      UInt8.ofNat (Nat.digitChar d).toNat ≤ 57) ∧
        (UInt8.ofNat (Nat.digitChar d).toNat).toNat - 48 = d := by
    decide
  induction n using Nat.strong_induction_on with
  | h n ih =>
    unfold parseDigits at ih ⊢
    by_cases hn : n < 10
    · rw [Nat.toDigits_of_lt_base hn, List.map_singleton, if_neg (List.cons_ne_nil _ _)]
      simp only [List.foldlM_cons, List.foldlM_nil, if_pos (hbyte n hn).1, (hbyte n hn).2, Nat.zero_mul,
        Nat.zero_add]
      rfl
    · have hlast := hbyte (n % 10) (Nat.mod_lt _ (by decide))
      have ih := ih (n / 10) (by omega)
      split at ih
      · cases ih
      · rw [Nat.toDigits_of_base_le (by decide) (not_lt.mp hn), List.map_append, if_neg (by simp),
          List.foldlM_append, ih]
        simp only [List.map_cons, List.map_nil, List.foldlM_cons, List.foldlM_nil, Option.bind_eq_bind,
          Option.bind_some, if_pos hlast.1, hlast.2]
        congr 1
        omega

theorem parseDecimal_of_parseDigits {data : Bytes} {n : ℕ} (h : parseDigits data = some n) :
    parseDecimal data = some (n : ℤ) := by
  unfold parseDecimal
  split
  · simp [parseDigits] at h
  · simp [parseDigits] at h
  · rw [h]
    rfl

def notAnInteger : GoError := .new (text "value is not an integer or out of range")

def redisParseInt (data : Bytes) : Except GoError ℤ :=
  match parseDecimal data with
  | none => .error notAnInteger
  | some value => if IsInt64 value then .ok value else .error notAnInteger

def redisParseNonNegative (data : Bytes) : Except GoError ℤ :=
  match redisParseInt data with
  | .error _ => .error notAnInteger
  | .ok value => if value < 0 then .error notAnInteger else .ok value

section Parse

variable {data : Bytes} {value : ℤ}

theorem redisParseInt_eq_ok_iff :
    redisParseInt data = .ok value ↔ parseDecimal data = some value ∧ IsInt64 value := by
  unfold redisParseInt
  cases parseDecimal data with
  | none => simp
  | some found =>
    dsimp only
    split
    · simp only [Except.ok.injEq, Option.some.injEq]
      constructor
      · rintro rfl
        exact ⟨rfl, ‹_›⟩
      · exact And.left
    · simp only [reduceCtorEq, Option.some.injEq, false_iff, not_and]
      rintro rfl
      assumption

theorem redisParseNonNegative_eq_ok_iff :
    redisParseNonNegative data = .ok value ↔ redisParseInt data = .ok value ∧ 0 ≤ value := by
  unfold redisParseNonNegative
  cases redisParseInt data with
  | error err => simp
  | ok found =>
    dsimp only
    split
    · simp only [reduceCtorEq, Except.ok.injEq, false_iff, not_and, not_le]
      rintro rfl
      assumption
    · simp only [Except.ok.injEq]
      constructor
      · rintro rfl
        exact ⟨rfl, not_lt.mp ‹_›⟩
      · exact And.left

end Parse

/-- `strconv.FormatInt(value, 10)`. -/
def formatInt (value : ℤ) : Bytes := text (toString value)

/-- A cursor is read back as it was written. -/
theorem redisParseNonNegative_formatInt {n : ℕ} (h : (n : ℤ) < 2 ^ 63) :
    redisParseNonNegative (formatInt n) = .ok (n : ℤ) := by
  have hdigits : formatInt n = (Nat.toDigits 10 n).map fun c => UInt8.ofNat c.toNat := by
    rw [← Nat.toList_repr]
    rfl
  have hfits : IsInt64 (n : ℤ) := ⟨by omega, h⟩
  simp only [redisParseNonNegative, redisParseInt, hdigits,
    parseDecimal_of_parseDigits (parseDigits_toDigits n), if_pos hfits]
  rw [if_neg (by omega)]

/-- `now().UnixNano()`. -/
def unixNano : Action ℤ := do
  return wrapInt64 (← now)

/-- `time.Time.Sub`: the difference, saturated to the range of a duration. -/
def timeSub (time time' : ℤ) : ℤ := max (-2 ^ 63) (min (2 ^ 63 - 1) (time - time'))

@[simp] theorem run_unixNano {time : ℤ} {s : Store} :
    run (embedded time) unixNano s = (.ok (wrapInt64 time), s) := rfl

end KVLite.Redis
