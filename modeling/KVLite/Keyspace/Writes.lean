import KVLite.Core.Readers
import KVLite.Keyspace.Kinds
import KVLite.Keyspace.ProbeAt
import KVLite.Redis.Server

/-!
# Which records the Redis code writes

For each function of the Redis extension: which records it can write, whatever the
engine answers. The probes and the readers write none; a writer writes records of the
key it is given.
-/

namespace KVLite

open Semantics Fallible

/-- The code writes only records whose storage key satisfies `W`. -/
abbrev Puts {α : Type} (W : Bytes → Prop) (x : Action α) : Prop := Uses (PutsOnly W) x

instance (R : Bytes → Bytes → Prop) : Passive (Writes R) where
  of_ofReader call hcall := by
    cases call with
    | put => exact hcall.elim
    | _ => trivial

theorem Writes.pushList {R : Bytes → Bytes → Prop} (key : Bytes) (items : List Bytes)
    (left : Bool) : Uses (Writes R) (Engine.pushList key items left) := ⟨trivial, fun _ => trivial⟩

theorem Writes.replaceLogicalValue {R : Bytes → Bytes → Prop} (key encoded : Bytes) :
    Uses (Writes R) (Engine.replaceLogicalValue key encoded) := ⟨trivial, fun _ => trivial⟩

variable {P : Call → Prop}

theorem Passive.put {key value : Bytes} (h : P (.put key value)) : Uses P (Engine.put key value) :=
  ⟨h, fun _ => trivial⟩

variable [Passive P]

theorem Passive.deadlineAfter (ttl : ℤ) : Uses P (deadlineAfter ttl) :=
  of_onlyReadsClock (onlyReadsClock_deadlineAfter ttl)

theorem Passive.deleteLogicalKey (key : Bytes) : Uses P (deleteLogicalKey key) :=
  (uses_deleteLogicalKey key).mono fun call hcall =>
    Passive.of_ofReader call (by cases call <;> trivial)

/-! ### The record store -/

namespace Transport

theorem uses_get (key : Bytes) : Uses P (get key) := Passive.ensureOpen.bind fun _ => Passive.get key

theorem uses_put {key value : Bytes} (h : P (.put key value)) : Uses P (put key value) :=
  Passive.ensureOpen.bind fun _ => Passive.put h

theorem uses_delete (key : Bytes) : Uses P (delete key) :=
  Passive.ensureOpen.bind fun _ => Passive.delete key

theorem uses_scanPrefix (pre : Bytes) : Uses P (scanPrefix pre) :=
  Passive.ensureOpen.bind fun _ => Passive.scanPrefix pre

theorem uses_scanAll (pre : Bytes) : Uses P (scanAll pre) := by
  refine (uses_scanPrefix pre).bind ?_
  rintro ⟨records, err⟩
  cases err <;> trivial

theorem uses_deleteLogicalKey (key : Bytes) : Uses P (deleteLogicalKey key) :=
  Passive.ensureOpen.bind fun _ => Passive.deleteLogicalKey key

theorem uses_deleteEach (keys : List Bytes) : Uses P (deleteEach keys) := by
  induction keys with
  | nil => trivial
  | cons key keys ih => exact (uses_delete key).bind fun _ => ih

end Transport

namespace Redis

variable (key : Bytes)

/-! ### The probes and the readers -/

theorem uses_unixNano : Uses P unixNano := Passive.now.bind fun _ => trivial

theorem uses_redisDeleteRaw : Uses P (redisDeleteRaw key) := Transport.uses_deleteLogicalKey key

theorem uses_redisMetadataExpiry : Uses P (redisMetadataExpiry key) := by
  refine (Transport.uses_get _).bind fun found => ?_
  cases found with
  | none => trivial
  | some data => exact .ite trivial trivial

theorem uses_redisKeyExpired : Uses P (redisKeyExpired key) := by
  refine (uses_redisMetadataExpiry key).bind fun found => ?_
  cases found with
  | none => trivial
  | some expiresAt =>
    exact uses_unixNano.bind fun _ =>
      .ite trivial ((uses_redisDeleteRaw key).bind fun _ => trivial)

theorem uses_probeValue : Uses P (probeValue key) := by
  refine (Transport.uses_get _).bind fun found => ?_
  cases found with
  | none => trivial
  | some data =>
    exact (Passive.liftExcept _).bind fun value => (Passive.expiredNow _).bind fun _ =>
      .ite ((Transport.uses_delete _).ignoringError.bind fun _ => trivial) trivial

theorem uses_redisHashEntriesLoop (pre : Bytes) (records : List (Bytes × Bytes)) :
    Uses P (redisHashEntriesLoop pre records) := by
  induction records with
  | nil => trivial
  | cons record records ih =>
    exact (Passive.liftExcept _).bind fun value => (Passive.expiredNow _).bind fun _ =>
      .ite (ih.bind fun _ => trivial) (ih.bind fun _ => trivial)

theorem uses_probeFields (records : List (Bytes × Bytes)) : Uses P (probeFields records) := by
  rw [probeFields_eq_map [], map_eq_pure_bind]
  exact (uses_redisHashEntriesLoop _ records).bind fun _ => trivial

theorem uses_probeHash : Uses P (probeHash key) := by
  refine (Transport.uses_scanPrefix _).bind fun scanned => ?_
  obtain ⟨records, err⟩ := scanned
  refine (uses_probeFields records).bind fun probed => ?_
  obtain ⟨found, expired⟩ := probed
  cases err with
  | some err => trivial
  | none =>
    exact (Transport.uses_deleteEach expired).bind fun _ => .ite trivial
      (.ite ((uses_redisDeleteRaw key).bind fun _ => trivial) trivial)

theorem uses_probeSet : Uses P (probeSet key) := (Transport.uses_scanAll _).bind fun _ => trivial

theorem uses_probeList : Uses P (probeList key) := by
  refine (Transport.uses_get _).bind fun found => ?_
  cases found with
  | none => trivial
  | some data =>
    exact (Passive.liftExcept _).bind fun items => .ite trivial
      ((uses_redisDeleteRaw key).ignoringError.bind fun _ => trivial)

theorem uses_redisType : Uses P (redisType key) :=
  (uses_redisKeyExpired key).bind fun _ => .ite trivial <|
    (uses_probeValue key).bind fun _ => .ite trivial <|
      (uses_probeHash key).bind fun _ => .ite trivial <|
        (uses_probeSet key).bind fun _ => .ite trivial <|
          (uses_probeList key).bind fun _ => .ite trivial trivial

theorem uses_redisString : Uses P (redisString key) := by
  refine (uses_redisType key).bind fun typ => ?_
  cases typ with
  | string =>
    refine (Transport.uses_get _).bind fun found => ?_
    cases found with
    | none => trivial
    | some data =>
      exact (Passive.liftExcept _).bind fun value => (Passive.expiredNow _).bind fun _ =>
        .ite ((uses_redisDeleteRaw key).ignoringError.bind fun _ => trivial) trivial
  | _ => trivial

theorem uses_redisExpiry : Uses P (redisExpiry key) := by
  refine (uses_redisType key).bind fun typ => ?_
  cases typ with
  | none => trivial
  | string =>
    refine (Transport.uses_get _).bind fun found => ?_
    cases found with
    | none => trivial
    | some data => exact (Passive.liftExcept _).bind fun value => .ite trivial trivial
  | _ => exact uses_redisMetadataExpiry key

theorem uses_redisHashField (field : Bytes) : Uses P (redisHashField key field) := by
  refine (uses_redisType key).bind fun typ => ?_
  cases typ with
  | hash =>
    refine (Transport.uses_get _).bind fun found => ?_
    cases found with
    | none => trivial
    | some data =>
      exact (Passive.liftExcept _).bind fun value => (Passive.expiredNow _).bind fun _ =>
        .ite ((Transport.uses_delete _).ignoringError.bind fun _ => trivial) trivial
  | _ => trivial

theorem uses_redisList : Uses P (redisList key) := by
  refine (uses_redisType key).bind fun typ => ?_
  cases typ with
  | list =>
    refine (Transport.uses_get _).bind fun found => ?_
    cases found with
    | none => trivial
    | some data => exact (Passive.liftExcept _).bind fun _ => trivial
  | _ => trivial

theorem uses_redisHashEntries : Uses P (redisHashEntries key) := by
  refine (uses_redisType key).bind fun typ => ?_
  cases typ with
  | hash =>
    exact (Transport.uses_scanAll _).bind fun records =>
      (uses_redisHashEntriesLoop _ records).bind fun _ =>
        (Transport.uses_deleteEach _).bind fun _ =>
          .ite (.ite ((uses_redisDeleteRaw key).ignoringError.bind fun _ => trivial)
            trivial) trivial
  | _ => trivial

theorem uses_redisSetMembers : Uses P (redisSetMembers key) := by
  refine (uses_redisType key).bind fun typ => ?_
  cases typ with
  | set =>
    exact (Transport.uses_scanAll _).bind fun records =>
      .ite ((uses_redisDeleteRaw key).ignoringError.bind fun _ => trivial) trivial
  | _ => trivial

theorem uses_redisLiveItems (items : List Bytes) : Uses P (redisLiveItems items) := by
  induction items with
  | nil => trivial
  | cons item items ih =>
    refine Passive.now.bind fun _ => (Passive.liftExcept _).bind fun payload => ?_
    cases payload with
    | none => exact ih
    | some payload => exact ih.bind fun _ => trivial

end Redis

end KVLite
