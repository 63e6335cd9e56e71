import KVLite.TypedMap.Serves

/-!
# The set commands serve their operations

A set member is a record of its own with a fixed one-byte value, so writing a member that
is there already changes nothing.
-/

namespace KVLite.TypedMap

open Semantics BigEndian Redis

section Storage

variable {now : ℤ} {s₀ : Store} {key : Bytes} {members : Members} {deadline : Option ℤ}

theorem update_records_member (members : Members) (deadline : Option ℤ) (member : Bytes) :
    Function.update ((Value.set members).records deadline) (.member member) (some [1]) =
      (Value.set (members.insert member)).records deadline := by
  funext slot
  rw [Function.update_apply]
  cases slot with
  | member name =>
    by_cases heq : name = member
    · simp [Value.records, Std.ExtTreeSet.contains_insert, heq]
    · simp [Value.records, Std.ExtTreeSet.contains_insert, heq, Ne.symm heq]
  | _ => rfl

theorem update_records_member_none (members : Members) (deadline : Option ℤ) (member : Bytes) :
    Function.update ((Value.set members).records deadline) (.member member) none =
      (Value.set (members.erase member)).records deadline := by
  funext slot
  rw [Function.update_apply]
  cases slot with
  | member name =>
    by_cases heq : name = member
    · simp [Value.records, Std.ExtTreeSet.contains_erase, heq]
    · simp [Value.records, Std.ExtTreeSet.contains_erase, heq, Ne.symm heq]
  | _ => rfl

variable (hclock : Clock now) (hstore : Storable (.set members) deadline)
  (hahead : Ahead now deadline)

include hclock hstore hahead

theorem does_redisSetMembers :
    Does now s₀ key (redisSetMembers key) ((Value.set members).records deadline)
      (.ok members.toList) ((Value.set members).records deadline) :=
  (reads_members hstore.recordable.deadline).does hclock hahead

end Storage

/-! ### The loops -/

section Loops

variable {times : ℤ → Prop} {s₀ : Store} {key : Bytes} {deadline : Option ℤ}
  {post : Except GoError ℕ → Records → Prop}

theorem addMembers_cons (members : Members) (member : Bytes) (added : List Bytes) :
    addMembers members (member :: added) = addMembers (members.insert member) added := rfl

theorem eraseMembers_cons (members : Members) (member : Bytes) (removed : List Bytes) :
    eraseMembers members (member :: removed) = eraseMembers (members.erase member) removed := rfl

theorem eraseMembers_empty (removed : List Bytes) : eraseMembers ∅ removed = ∅ := by
  induction removed with
  | nil => rfl
  | cons member removed ih => rw [eraseMembers_cons, Std.ExtTreeSet.erase_empty, ih]

theorem size_le_size_addMembers (members : Members) (added : List Bytes) :
    members.size ≤ (addMembers members added).size := by
  induction added generalizing members with
  | nil => exact le_rfl
  | cons member added ih => exact members.size_le_size_insert.trans (ih _)

theorem size_addMembers_cons_ne_zero (members : Members) (member : Bytes) (added : List Bytes) :
    (addMembers members (member :: added)).size ≠ 0 := by
  have hsize : (members.insert member).size ≠ 0 := by
    rw [ne_eq, ← Std.ExtTreeSet.eq_empty_iff_size_eq_zero]
    exact Std.ExtTreeSet.insert_ne_empty
  have hle := size_le_size_addMembers (members.insert member) added
  rw [addMembers_cons]
  omega

/-- The loop of `SADD` counts the members by which the set grows. -/
theorem leads_redisSAddLoop (members : Members) (count : ℕ) (added : List Bytes)
    (h : ∀ count', count' + members.size = count + (addMembers members added).size →
      post (.ok count') ((Value.set (addMembers members added)).records deadline)) :
    Leads times s₀ key (redisSAddLoop key count added) ((Value.set members).records deadline)
      post := by
  induction added generalizing members count with
  | nil => exact .pure (h count rfl)
  | cons member added ih =>
    rw [addMembers_cons] at h
    refine .seq (leads_get (.member member) ?_)
    cases hmember : members.contains member with
    | true =>
      rw [show members.insert member = members by
        refine Std.ExtTreeSet.ext_contains fun name => ?_
        rw [Std.ExtTreeSet.contains_insert]
        by_cases heq : member = name
        · simp [← heq, hmember]
        · simp [heq]] at h
      simp only [Value.records, hmember, if_true]
      exact ih members count h
    | false =>
      have hsize := members.size_insert (k := member)
      simp only [hmember, Bool.false_eq_true, if_false] at hsize
      simp only [Value.records, hmember, Bool.false_eq_true, if_false]
      refine .seq (leads_put (.member member) ?_)
      rw [update_records_member]
      exact ih _ _ fun count' hcount => h count' (by omega)

/-- The loop of `SREM` counts the members by which the set shrinks. -/
theorem leads_redisSRemLoop (members : Members) (count : ℕ) (removed : List Bytes)
    (h : ∀ count', count' + (eraseMembers members removed).size = count + members.size →
      post (.ok count') ((Value.set (eraseMembers members removed)).records deadline)) :
    Leads times s₀ key (redisSRemLoop key count removed) ((Value.set members).records deadline)
      post := by
  induction removed generalizing members count with
  | nil => exact .pure (h count rfl)
  | cons member removed ih =>
    rw [eraseMembers_cons] at h
    refine .seq (leads_get (.member member) ?_)
    cases hmember : members.contains member with
    | false =>
      rw [show members.erase member = members by
        refine Std.ExtTreeSet.ext_contains fun name => ?_
        rw [Std.ExtTreeSet.contains_erase]
        by_cases heq : member = name
        · simp [← heq, hmember]
        · simp [heq]] at h
      simp only [Value.records, hmember, Bool.false_eq_true, if_false]
      exact ih members count h
    | true =>
      have hsize := members.size_erase (k := member)
      have hpos : 0 < members.size := by
        rw [Nat.pos_iff_ne_zero, ne_eq, ← Std.ExtTreeSet.eq_empty_iff_size_eq_zero]
        rintro rfl
        simp at hmember
      simp only [hmember, if_true] at hsize
      simp only [Value.records, hmember, if_true]
      refine .seq (leads_delete (.member member) ?_)
      rw [update_records_member_none]
      exact ih _ _ fun count' hcount => h count' (by omega)

end Loops

/-! ### The commands -/

section Commands

variable {now : ℤ} {s₀ : Store} {key : Bytes} {entry : Option Entry}
variable (hclock : Clock now) (hstore : StorableEntry entry)

include hclock hstore

theorem serves_sCard (name : Bytes) :
    Serves now s₀ key (redisSCard [name, key]) (KeyOperation.scard.apply now) entry := by
  refine serves_onSet hclock hstore (probing_redisSetMembers.bind _) fun members deadline h => ?_
  rw [h.recordsOf_of]
  refine (does_redisSetMembers hclock h.storable h.ahead).bind ?_
  rw [Std.ExtTreeSet.length_toList]
  exact .pure _

theorem serves_sMembers (name : Bytes) :
    Serves now s₀ key (redisSMembers [name, key]) (KeyOperation.smembers.apply now) entry := by
  refine serves_onSet hclock hstore (probing_redisSetMembers.bind _) fun members deadline h => ?_
  rw [h.recordsOf_of]
  exact (does_redisSetMembers hclock h.storable h.ahead).bind (.pure _)

theorem serves_sIsMember (name member : Bytes) :
    Serves now s₀ key (redisSIsMember [name, key, member])
      ((KeyOperation.sismember member).apply now) entry := by
  refine serves_onSet hclock hstore (.of_throw fun typ _ _ => by cases typ <;> first | rfl | contradiction)
    fun members deadline h => ?_
  rw [h.recordsOf_of]
  refine (does_redisType_of_ahead hclock h.storable h.ahead).bind ?_
  by_cases hempty : (Value.set members).isEmpty = true
  · obtain rfl := Std.ExtTreeSet.isEmpty_iff.mp hempty
    rw [if_pos hempty]
    simp only [Std.ExtTreeSet.contains_empty]
    exact .pure _
  · rw [if_neg hempty]
    refine (does_get (.member member)).bind ?_
    cases hmember : members.contains member with
    | true =>
      simp only [Value.records, hmember]
      exact .pure _
    | false =>
      simp only [Value.records, hmember]
      exact .pure _

theorem serves_sAdd (name member : Bytes) (added : List Bytes) :
    Serves now s₀ key (redisSAdd (name :: key :: member :: added))
      ((KeyOperation.sadd (member :: added)).apply now) entry := by
  refine serves_onSet hclock hstore ⟨_, rfl, fun typ hnone hne records => ?_⟩
    fun members deadline h => ?_
  · rw [if_pos ⟨hnone, hne⟩]
    exact .throw _
  refine (does_redisType_of_ahead hclock h.storable h.ahead).bind (Does.of_leads ?_)
  refine leads_growing rfl (by decide) h.empty (.seq (leads_redisSAddLoop _ _ _ fun count hcount => ?_))
  refine .pure ⟨by simp only [Except.ok.injEq, Resp.integer.injEq]; omega, ?_⟩
  -- Growing keeps a set with a deadline from being empty.
  refine (recordsOf_of_eq fun hempty => h.empty (Value.isEmpty_set.mpr ?_)).symm
  have hsize := Value.isEmpty_set.mp hempty
  omega

theorem serves_sRem (name member : Bytes) (removed : List Bytes) :
    Serves now s₀ key (redisSRem (name :: key :: member :: removed))
      ((KeyOperation.srem (member :: removed)).apply now) entry := by
  refine serves_onSet hclock hstore (.of_throw fun typ _ _ => by cases typ <;> first | rfl | contradiction)
    fun members deadline h => ?_
  refine (does_redisType_of_ahead hclock h.storable h.ahead).bind (Does.of_leads ?_)
  by_cases hempty : (Value.set members).isEmpty = true
  · -- Nothing is there, so nothing is counted and nothing is left.
    obtain rfl := h.empty hempty
    obtain rfl := Std.ExtTreeSet.isEmpty_iff.mp hempty
    rw [eraseMembers_empty, recordsOf_of, if_pos hempty, if_pos hempty, records_set_empty]
    exact .pure ⟨rfl, rfl⟩
  · rw [if_neg hempty]
    refine .seq (leads_redisSRemLoop _ _ _ fun count hcount => ?_)
    exact leads_shrunk (reads_members h.storable.recordable.deadline)
      (List.length_eq_zero_iff.trans toList_members_eq_nil)
      ⟨by simp only [Except.ok.injEq, Resp.integer.injEq]; omega, rfl⟩
      fun hpassed => absurd hpassed (h.ahead.not_mayPass hclock)

end Commands

end KVLite.TypedMap
