import KVLite.TypedMap.Scan

/-!
# The range of a page of `SCAN`

A page is the slice of the matching keys from the cursor to `cursor + count`, cut off at
the end of the list. The cursor and the count are any nonnegative 64-bit integers of the
client, and the sum is taken before it is cut off. Past `2 ^ 63 - 1` it is negative: the
slice then ends before it starts, and the server panics.
-/

namespace KVLite.Replies

open Semantics Fallible BigEndian Redis TypedMap

/-! ### A page of a list of keys -/

/-- The end of the slice of `SCAN`. -/
def redisScanEnd (filtered : List Bytes) (cursor count : ℤ) : ℤ :=
  if wrapInt64 (cursor + count) > filtered.length then (filtered.length : ℤ)
  else wrapInt64 (cursor + count)

section Page

variable {filtered : List Bytes} {cursor count : ℤ}

theorem redisScanEnd_le : redisScanEnd filtered cursor count ≤ filtered.length := by
  unfold redisScanEnd
  split
  · exact le_refl _
  · omega

/-- The page in terms of the end of its slice. -/
theorem redisScanPage_of_lt (hlt : cursor < filtered.length) :
    redisScanPage filtered cursor count =
      if cursor ≤ redisScanEnd filtered cursor count then
        some (if redisScanEnd filtered cursor count < filtered.length then
            redisScanEnd filtered cursor count else 0,
          (filtered.drop cursor.toNat).take (redisScanEnd filtered cursor count - cursor).toNat)
      else none := by
  rw [redisScanPage, if_neg (not_le.mpr hlt)]
  rfl

/-- Inside the list, the slice is well formed exactly when the sum fits; it is not empty
then. -/
theorem lt_redisScanEnd_iff (hzero : 0 ≤ cursor) (hcursor : IsInt64 cursor) (hone : 1 ≤ count)
    (hcount : IsInt64 count) (hlt : cursor < filtered.length) :
    cursor < redisScanEnd filtered cursor count ↔ cursor + count < 2 ^ 63 := by
  by_cases hfits : cursor + count < 2 ^ 63
  · have hsum : wrapInt64 (cursor + count) = cursor + count :=
      wrapInt64_eq ⟨by omega, hfits⟩
    refine iff_of_true ?_ hfits
    rw [redisScanEnd, hsum]
    split <;> omega
  · -- Two nonnegative words: the sum wraps once, to a negative word.
    have hneg : wrapInt64 (cursor + count) = cursor + count - 2 ^ 64 :=
      wrapInt64_of_le (not_lt.mp hfits) (by unfold IsInt64 at hcursor hcount; omega)
    unfold IsInt64 at hcursor hcount
    refine iff_of_false ?_ hfits
    rw [redisScanEnd, if_neg (by omega)]
    omega

end Page

/-! ### The command -/

/-- The command `args` comes to cut its page: the keys that match, the cursor and the
count. -/
def CutsPage (go : GoRuntime) (clock : ℕ → ℤ) (args : List Bytes) (st : ℕ × Store)
    (filtered : List Bytes) (cursor count : ℤ) : Prop :=
  ∃ name at' options pattern keys st', args = name :: at' :: options ∧
    redisParseNonNegative at' = .ok cursor ∧
    redisScanOptions go (text "*") 10 options = .ok (some (pattern, count)) ∧
    run (ticking clock) (redisLogicalKeys go) st = (.ok keys, st') ∧
    filtered = keys.filter (redisPatternMatch go pattern)

/-- The command ends with a reply; the slice it takes is inside the list; and the cursor of
the reply is `0` or moves forward inside the list. -/
structure ScanInRange (go : GoRuntime) (clock : ℕ → ℤ) (args : List Bytes) (st : ℕ × Store) :
    Prop where
  replies : ((redisScan go args).run (ticking clock) st).1 ≠ none
  slice : ∀ filtered cursor count, CutsPage go clock args st filtered cursor count →
    cursor < filtered.length → 0 ≤ cursor ∧ cursor ≤ redisScanEnd filtered cursor count ∧
      redisScanEnd filtered cursor count ≤ filtered.length
  next : ∀ filtered cursor count, CutsPage go clock args st filtered cursor count →
    ∃ (next : ℤ) (items : List Bytes), ((redisScan go args).run (ticking clock) st).1 =
        some (.array [.bulk (formatInt next), .array (items.map .bulk)]) ∧
      (next = 0 ∨ cursor < next ∧ next < filtered.length)

section Command

variable {go : GoRuntime} {clock : ℕ → ℤ} {args : List Bytes} {st : ℕ × Store}
  {filtered : List Bytes} {cursor count : ℤ}

theorem isInt64_of_redisParseNonNegative {data : Bytes} {value : ℤ}
    (h : redisParseNonNegative data = .ok value) : IsInt64 value :=
  (redisParseInt_eq_ok_iff.mp (redisParseNonNegative_eq_ok_iff.mp h).1).2

/-- The cursor and the count of a page are 64-bit integers, and the count is positive. -/
theorem CutsPage.bounds (h : CutsPage go clock args st filtered cursor count) :
    0 ≤ cursor ∧ IsInt64 cursor ∧ 1 ≤ count ∧ IsInt64 count := by
  obtain ⟨_, _, _, _, _, _, -, hcursor, hoptions, -, -⟩ := h
  have hcount : IsInt64 count := by
    apply redisScanOptions_count (by decide) _ (by decide) hoptions
    intro data found hparse _
    exact isInt64_of_redisParseNonNegative hparse
  exact ⟨nonneg_of_redisParseNonNegative hcursor, isInt64_of_redisParseNonNegative hcursor,
    one_le_of_redisScanOptions (by decide) hoptions, hcount⟩

/-- The reply of a command that comes to cut its page. -/
theorem CutsPage.reply (h : CutsPage go clock args st filtered cursor count) :
    ((redisScan go args).run (ticking clock) st).1 =
      (redisScanPage filtered cursor count).map fun page =>
        .array [.bulk (formatInt page.1), .array (page.2.map .bulk)] := by
  obtain ⟨name, at', options, pattern, keys, st', rfl, hcursor, hoptions, hkeys, rfl⟩ := h
  rw [run_redisScan hcursor hoptions hkeys]

/-- A run that panics has read the cursor, the options and the keys. -/
theorem cutsPage_of_run {st' : ℕ × Store}
    (h : run (ticking clock) (redisScanReply go args) st = (.ok none, st')) :
    ∃ filtered cursor count, CutsPage go clock args st filtered cursor count := by
  match args with
  | [] => cases h
  | [_] => cases h
  | name :: at' :: options =>
    rw [redisScanReply] at h
    cases hcursor : redisParseNonNegative at' with
    | error err =>
      rw [hcursor, run_bind_error (run_liftExcept _)] at h
      cases h
    | ok cursor =>
      rw [hcursor, run_bind_ok (run_liftExcept _)] at h
      cases hoptions : redisScanOptions go (text "*") 10 options with
      | error err =>
        rw [hoptions, run_bind_error (run_liftExcept _)] at h
        cases h
      | ok parsed =>
        rw [hoptions, run_bind_ok (run_liftExcept _)] at h
        obtain _ | ⟨pattern, count⟩ := parsed
        · cases h
        · rcases hkeys : run (ticking clock) (redisLogicalKeys go) st with ⟨_ | keys, st₁⟩
          · dsimp only at h
            rw [run_bind_error hkeys] at h
            cases h
          · exact ⟨_, cursor, count, name, at', options, pattern, keys, st₁, rfl, hcursor,
              hoptions, hkeys, rfl⟩

/-- The command only panics where it cuts a page. -/
theorem cutsPage_of_none (h : ((redisScan go args).run (ticking clock) st).1 = none) :
    ∃ filtered cursor count, CutsPage go clock args st filtered cursor count := by
  rw [redisScan, Program.run_bind, program_run] at h
  rcases hrun : run (ticking clock) (redisScanReply go args) st with ⟨_ | _ | reply, st'⟩
  · rw [hrun] at h
    cases h
  · exact cutsPage_of_run hrun
  · rw [hrun] at h
    cases h

/-- Where the sum fits, the page has the range and the cursor it should have. -/
theorem redisScanPage_of_fits (hzero : 0 ≤ cursor) (hcursor : IsInt64 cursor) (hone : 1 ≤ count)
    (hcount : IsInt64 count) (hfits : cursor < filtered.length → cursor + count < 2 ^ 63) :
    ∃ next items, redisScanPage filtered cursor count = some (next, items) ∧
      (next = 0 ∨ cursor < next ∧ next < filtered.length) := by
  by_cases hlt : cursor < filtered.length
  · have hend := (lt_redisScanEnd_iff hzero hcursor hone hcount hlt).mpr (hfits hlt)
    refine ⟨_, _, (redisScanPage_of_lt hlt).trans (if_pos hend.le), ?_⟩
    split
    · exact .inr ⟨hend, ‹_›⟩
    · exact .inl rfl
  · exact ⟨0, [], if_pos (not_lt.mp hlt), .inl rfl⟩

/-- For every command, clock and store: `SCAN` replies, cuts its page inside the list of
matching keys and moves its cursor forward inside that list, exactly when the sum of the
cursor and the count fits in 64 bits wherever the cursor is inside the list. -/
theorem scan_in_range_iff (go : GoRuntime) (clock : ℕ → ℤ) (args : List Bytes) (st : ℕ × Store) :
    ScanInRange go clock args st ↔
      ∀ filtered cursor count, CutsPage go clock args st filtered cursor count →
        cursor < filtered.length → cursor + count < 2 ^ 63 := by
  constructor
  · intro h filtered cursor count hcuts hlt
    obtain ⟨hzero, hcursor, hone, hcount⟩ := hcuts.bounds
    obtain ⟨-, hend, -⟩ := h.slice filtered cursor count hcuts hlt
    by_contra hfits
    -- The sum has wrapped: the end of the slice is negative.
    have hwrap : wrapInt64 (cursor + count) = cursor + count - 2 ^ 64 :=
      wrapInt64_of_le (not_lt.mp hfits) (by unfold IsInt64 at hcursor hcount; omega)
    unfold IsInt64 at hcursor hcount
    rw [redisScanEnd, if_neg (by omega)] at hend
    omega
  · intro h
    have hpage : ∀ filtered cursor count, CutsPage go clock args st filtered cursor count →
        ∃ next items, redisScanPage filtered cursor count = some (next, items) ∧
          (next = 0 ∨ cursor < next ∧ next < filtered.length) := by
      intro filtered cursor count hcuts
      obtain ⟨hzero, hcursor, hone, hcount⟩ := hcuts.bounds
      exact redisScanPage_of_fits hzero hcursor hone hcount (h filtered cursor count hcuts)
    refine ⟨fun hnone => ?_, fun filtered cursor count hcuts hlt => ?_,
      fun filtered cursor count hcuts => ?_⟩
    · obtain ⟨filtered, cursor, count, hcuts⟩ := cutsPage_of_none hnone
      obtain ⟨next, items, hsome, -⟩ := hpage filtered cursor count hcuts
      rw [hcuts.reply, hsome] at hnone
      cases hnone
    · obtain ⟨hzero, hcursor, hone, hcount⟩ := hcuts.bounds
      have hend := (lt_redisScanEnd_iff hzero hcursor hone hcount hlt).mpr
        (h filtered cursor count hcuts hlt)
      exact ⟨hzero, hend.le, redisScanEnd_le⟩
    · obtain ⟨next, items, hsome, hnext⟩ := hpage filtered cursor count hcuts
      refine ⟨next, items, ?_, hnext⟩
      rw [hcuts.reply, hsome]
      rfl

end Command

/-- Two keys, a cursor at the second and the largest count: the server panics. -/
theorem scan_sum_overflow_panics :
    let s := (Machine.after (receive starRuntime [] fun _ => 0)
      [TypedMap.setRequest (text "a"), TypedMap.setRequest (text "b")] (0, ∅)).2
    ((redisScan starRuntime [text "SCAN", text "1", text "COUNT", text "9223372036854775807"]).run
        (ticking fun _ => 0) (0, s)).1 = none ∧
      ¬ ScanInRange starRuntime (fun _ => 0)
        [text "SCAN", text "1", text "COUNT", text "9223372036854775807"] (0, s) := by
  intro s
  have hnone : ((redisScan starRuntime
      [text "SCAN", text "1", text "COUNT", text "9223372036854775807"]).run
        (ticking fun _ => 0) (0, s)).1 = none := rfl
  exact ⟨hnone, fun h => h.replies hnone⟩

end KVLite.Replies
