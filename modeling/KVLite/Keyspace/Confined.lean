import KVLite.Keyspace.Layout
import KVLite.Keyspace.Probe
import KVLite.Keyspace.ProbeAt
import KVLite.Semantics.FailSafe

/-!
# Code confined to one key

The type probe of a key may remove records, but only records of that key. Removing the
whole key afterwards therefore leaves the same store as removing it at once.
-/

namespace KVLite

open Semantics Fallible

/-- The stores have the same records but for those of the key. -/
def SameElsewhere (key : Bytes) (s s' : Store) : Prop :=
  ∀ storageKey, ¬ RecordOf key storageKey → s'[storageKey]? = s[storageKey]?

namespace SameElsewhere

variable {key storageKey data : Bytes} {s s' : Store}

theorem refl (key : Bytes) (s : Store) : SameElsewhere key s s := fun _ _ => rfl

theorem insert (h : SameElsewhere key s s') (hrecord : RecordOf key storageKey) :
    SameElsewhere key s (s'.insert storageKey data) := by
  intro other hother
  rw [Store.getElem?_insert_of_ne, h other hother]
  rintro rfl
  exact hother hrecord

theorem erase (h : SameElsewhere key s s') (hrecord : RecordOf key storageKey) :
    SameElsewhere key s (s'.erase storageKey) := by
  intro other hother
  rw [Store.getElem?_erase_of_ne, h other hother]
  rintro rfl
  exact hother hrecord

theorem eraseAll (h : SameElsewhere key s s') {keys : List Bytes}
    (hrecords : ∀ storageKey ∈ keys, RecordOf key storageKey) :
    SameElsewhere key s (s'.eraseAll keys) := by
  intro other hother
  rw [Store.getElem?_eraseAll, if_neg fun hmem => hother (hrecords other hmem), h other hother]

theorem without (h : SameElsewhere key s s') : SameElsewhere key s (s'.without key) := by
  intro other hother
  rw [Store.getElem?_without_of_not_recordOf hother, h other hother]

/-- The records of another key are the same. -/
theorem getElem?_of_ne (h : SameElsewhere key s s') {other : Bytes} (hkey : ShortName key)
    (hother : ShortName other) (hne : key ≠ other) (hrecord : RecordOf other storageKey) :
    s'[storageKey]? = s[storageKey]? :=
  h storageKey fun hrecord' => hne (eq_of_recordOf hkey hother hrecord' hrecord)

/-- Without the key, nothing tells the stores apart. -/
theorem without_eq (h : SameElsewhere key s s') : s'.without key = s.without key := by
  refine Store.ext fun storageKey => ?_
  by_cases hrecord : RecordOf key storageKey
  · rw [Store.getElem?_without_of_recordOf hrecord, Store.getElem?_without_of_recordOf hrecord]
  · rw [Store.getElem?_without_of_not_recordOf hrecord,
      Store.getElem?_without_of_not_recordOf hrecord, h storageKey hrecord]

end SameElsewhere

theorem Store.without_without (s : Store) (key : Bytes) :
    (s.without key).without key = s.without key :=
  (SameElsewhere.refl key s).without.without_eq

/-- Code that changes only records of the key, in every store that differs from `s₀` in
those only. -/
abbrev Confined {α : Type} (times : ℤ → Prop) (key : Bytes) (s₀ : Store) (x : Action α) : Prop :=
  Fallible.Keeps (embeddedAt times) (SameElsewhere key s₀) x

section Confined

variable {α : Type} {times : ℤ → Prop} {key : Bytes} {s₀ : Store}

theorem confined_get (storageKey : Bytes) : Confined times key s₀ (Transport.get storageKey) :=
  fun _ h => h

theorem confined_liftExcept (x : Except GoError α) : Confined times key s₀ (liftExcept x) :=
  fun _ h => ensures_liftExcept (fun _ _ => h) fun _ => h

theorem confined_expiredNow (expiresAt : ℤ) : Confined times key s₀ (expiredNow expiresAt) :=
  fun _ h => ensures_expiredNow fun _ => h

theorem confined_redisDeleteRaw : Confined times key s₀ (Redis.redisDeleteRaw key) :=
  fun _ h => ensures_redisDeleteRaw fun _ => h.without

theorem confined_ignoringError {x : Action α} (hx : Confined times key s₀ x) :
    Confined times key s₀ (ignoringError x) :=
  fun s h => ensures_ignoringError (hx s h)

theorem confined_redisKeyExpired : Confined times key s₀ (Redis.redisKeyExpired key) := by
  unfold Redis.redisKeyExpired Redis.redisMetadataExpiry
  refine .bind (.bind (confined_get _) fun found => ?_) fun expiry => ?_
  · cases found with
    | none => exact .pure _
    | some data => exact .ite (.throw _) (.pure _)
  · cases expiry with
    | none => exact .pure _
    | some expiresAt =>
      refine .bind (fun _ h => ensures_unixNano fun _ => h) fun _ => ?_
      exact .ite (.pure _) (confined_redisDeleteRaw.bind fun _ => .pure _)

theorem confined_probeValue : Confined times key s₀ (Redis.probeValue key) := by
  unfold Redis.probeValue
  refine .bind (confined_get _) fun found => ?_
  cases found with
  | none => exact .pure _
  | some data =>
    refine (confined_liftExcept _).bind fun value => (confined_expiredNow _).bind fun expired => ?_
    refine .ite (.bind (confined_ignoringError fun s h => ?_) fun _ => .pure _) (.pure _)
    exact ensures_delete.mpr (h.erase (.inl rfl))

theorem confined_probeHash : Confined times key s₀ (Redis.probeHash key) := by
  unfold Redis.probeHash
  intro s hs
  rw [ensures_bind, ensures_scanPrefix, ensures_bind]
  refine (ensures_probeFields (fun _ => hs) _ (s.nodup_map_fst_scan _)).mono ?_ fun _ _ h => h
  rintro ⟨found, expired⟩ s' ⟨rfl, hsubset, -⟩
  -- What is removed was delivered by the scan of the key's fields.
  have hexpired : ∀ storageKey ∈ expired, RecordOf key storageKey := by
    intro storageKey hmem
    obtain ⟨hpre, -⟩ := Store.mem_map_fst_scan.mp (hsubset hmem)
    exact .inr (.inr (.inr (.inl hpre)))
  refine .seq (ensures_deleteEach ?_)
  have hrest : Confined times key s₀ (if found then pure true
      else if expired.length > 0 then do
        let _ ← Redis.redisDeleteRaw key
        return false
      else return false) :=
    .ite (.pure _) (.ite (confined_redisDeleteRaw.bind fun _ => .pure _) (.pure _))
  exact hrest _ (hs.eraseAll hexpired)

theorem confined_probeList : Confined times key s₀ (Redis.probeList key) := by
  unfold Redis.probeList
  refine .bind (confined_get _) fun found => ?_
  cases found with
  | none => exact .pure _
  | some data =>
    refine (confined_liftExcept _).bind fun items => .ite (.pure _) ?_
    exact (confined_ignoringError confined_redisDeleteRaw).bind fun _ => .pure _

/-- The probe removes records of its key only. -/
theorem confined_redisType : Confined times key s₀ (Redis.redisType key) := by
  have hset : Confined times key s₀ (Redis.probeSet key) := fun _ h => h
  unfold Redis.redisType
  refine confined_redisKeyExpired.bind fun _ => .ite (.pure _) ?_
  refine confined_probeValue.bind fun _ => .ite (.pure _) ?_
  refine confined_probeHash.bind fun _ => .ite (.pure _) ?_
  refine hset.bind fun _ => .ite (.pure _) ?_
  exact confined_probeList.bind fun _ => .ite (.pure _) (.pure _)

/-- What code keeps, it keeps at one clock reading. -/
theorem run_of_keeps {time : ℤ} {I : Store → Prop} {x : Action α} {s : Store}
    (h : Fallible.Keeps (embeddedAt (· = time)) I x) (hs : I s) :
    I (run (embedded time) x s).2 := by
  have hwp := wp_embeddedAt_eq_iff.mp (h s hs)
  rw [program_run] at hwp
  cases hrun : run (embedded time) x s with
  | mk result s' =>
    rw [hrun] at hwp
    cases result <;> exact hwp

theorem sameElsewhere_of_run_redisType {time : ℤ} {s s' : Store}
    {result : Except GoError Redis.RedisType}
    (h : run (embedded time) (Redis.redisType key) s = (result, s')) :
    SameElsewhere key s s' := by
  have hconfined : Confined (· = time) key s (Redis.redisType key) := confined_redisType
  have hrun := run_of_keeps hconfined (.refl key s)
  rwa [h] at hrun

end Confined

end KVLite
