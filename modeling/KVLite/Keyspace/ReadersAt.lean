import KVLite.Keyspace.ProbeAt
import KVLite.Redis.Collections

/-!
# The readers' loops at one clock reading

What the loops over hash fields and list items return when the clock does not move.
-/

namespace KVLite.Redis

open Semantics Fallible

variable {time : ℤ} {s : Store}

theorem redisItemPayload_of_decodes {item : Bytes} {value : Envelope}
    (h : unmarshalEnvelope item = .ok value) :
    redisItemPayload item time = .ok (if value.expired time then none else some value.payload) := by
  rw [redisItemPayload, h]
  rfl

theorem redisItemPayload_of_malformed {item : Bytes} {err : GoError}
    (h : unmarshalEnvelope item = .error err) : redisItemPayload item time = .error err := by
  rw [redisItemPayload, h]
  rfl

theorem run_redisLiveItems_of_decodes {items : List Bytes}
    (h : ∀ item ∈ items, ∃ value, unmarshalEnvelope item = .ok value) :
    run (embedded time) (redisLiveItems items) s =
      (.ok (items.filter fun item => !envelopeExpired item time), s) := by
  induction items with
  | nil => rfl
  | cons item items ih =>
    rw [List.forall_mem_cons] at h
    obtain ⟨⟨value, hvalue⟩, hrest⟩ := h
    have hexpired : envelopeExpired item time = value.expired time := by
      rw [envelopeExpired, hvalue]
    unfold redisLiveItems
    rw [run_bind_ok run_now, redisItemPayload_of_decodes hvalue,
      run_bind_ok (run_liftExcept _), List.filter_cons, hexpired]
    cases value.expired time with
    | true => exact ih hrest
    | false =>
      simp only [Bool.false_eq_true, if_false]
      rw [run_bind_ok (ih hrest)]
      rfl

variable (time s) in
theorem run_redisLiveItems_of_malformed {items : List Bytes}
    (h : ¬ ∀ item ∈ items, ∃ value, unmarshalEnvelope item = .ok value) :
    ∃ err, run (embedded time) (redisLiveItems items) s = (.error err, s) := by
  induction items with
  | nil => exact absurd (fun _ hmem => by cases hmem) h
  | cons item items ih =>
    unfold redisLiveItems
    rw [run_bind_ok run_now]
    cases hvalue : unmarshalEnvelope item with
    | error err =>
      rw [redisItemPayload_of_malformed hvalue]
      exact ⟨err, run_bind_error (run_liftExcept _)⟩
    | ok value =>
      obtain ⟨err, hrun⟩ := ih fun hrest => h (List.forall_mem_cons.mpr ⟨⟨value, hvalue⟩, hrest⟩)
      refine ⟨err, ?_⟩
      rw [redisItemPayload_of_decodes hvalue, run_bind_ok (run_liftExcept _)]
      cases value.expired time with
      | true => exact hrun
      | false => exact run_bind_error hrun

end KVLite.Redis
