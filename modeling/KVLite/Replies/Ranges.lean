import KVLite.Expiry.Amounts
import KVLite.Math.Bounded
import KVLite.Replies.Pops
import KVLite.TypedMap.Lists

/-!
# Ranges of a list

`LRANGE`, `LTRIM` and the core's `LRange` clamp two indexes to the list and slice it. The two
indexes may be any 64-bit integers. The clamped slice is the part of the list between them,
and the clamping neither overflows nor slices out of range.
-/

namespace KVLite.Redis

open Semantics Fallible BigEndian TypedMap

/-- An index that counts from the end when it is negative. -/
def listIndex (length : ℕ) (index : ℤ) : ℤ := if index < 0 then index + length else index

/-- The elements at the indexes from `start` to `stop`, in their order. -/
def between {α : Type} (items : List α) (start stop : ℤ) : List α :=
  (items.zipIdx.filter fun entry =>
    listIndex items.length start ≤ entry.2 ∧ entry.2 ≤ listIndex items.length stop).map Prod.fst

/-- The clamping and the slice of `LRANGE`, `LTRIM` and `LRange`, every operation checked. -/
def rangeChecked {α : Type} (items : List α) (start stop : ℤ) : Option (List α) := do
  let start ← (if start < 0 then checked (items.length + start) else some start)
  let stop ← (if stop < 0 then checked (items.length + stop) else some stop)
  let start := if start < 0 then 0 else start
  let stop ← (if stop ≥ items.length then checked (items.length - 1) else some stop)
  if items.length > 0 ∧ start < items.length ∧ stop ≥ start then do
    let after ← checked (stop + 1)
    Bounded.sub items start after
  else
    some []

section Indexes

variable {α : Type}

/-- The indexes count up from the index of the head. -/
theorem filter_zipIdx_eq (items : List α) (first : ℕ) (lo hi : ℤ) :
    ((items.zipIdx first).filter fun entry => lo ≤ entry.2 ∧ entry.2 ≤ hi).map Prod.fst =
      (items.take (hi + 1 - first).toNat).drop (lo - first).toNat := by
  induction items generalizing first with
  | nil => simp
  | cons item items ih =>
    rw [List.zipIdx_cons, List.filter_cons]
    have hrest := ih (first + 1)
    by_cases hhi : hi < first
    · have hnone : (hi + 1 - (first : ℤ)).toNat = 0 := by omega
      have hnone' : (hi + 1 - ((first + 1 : ℕ) : ℤ)).toNat = 0 := by omega
      rw [if_neg (by simp; omega), hrest, hnone, hnone']
      simp
    · obtain ⟨n, hn⟩ : ∃ n, (hi + 1 - (first : ℤ)).toNat = n + 1 :=
        ⟨(hi - first).toNat, by omega⟩
      have hn' : (hi + 1 - ((first + 1 : ℕ) : ℤ)).toNat = n := by omega
      rw [hn, List.take_succ_cons]
      rw [hn'] at hrest
      by_cases hlo : lo ≤ first
      · have hzero : (lo - (first : ℤ)).toNat = 0 := by omega
        have hzero' : (lo - ((first + 1 : ℕ) : ℤ)).toNat = 0 := by omega
        rw [if_pos (by simp; omega), List.map_cons, hrest, hzero, hzero', List.drop_zero,
          List.drop_zero]
      · obtain ⟨m, hm⟩ : ∃ m, (lo - (first : ℤ)).toNat = m + 1 :=
          ⟨(lo - first - 1).toNat, by omega⟩
        have hm' : (lo - ((first + 1 : ℕ) : ℤ)).toNat = m := by omega
        rw [if_neg (by simp; omega), hrest, hm, hm', List.drop_succ_cons]

theorem between_eq (items : List α) (start stop : ℤ) :
    between items start stop =
      (items.take (listIndex items.length stop + 1).toNat).drop
        (listIndex items.length start).toNat := by
  have h := filter_zipIdx_eq items 0 (listIndex items.length start) (listIndex items.length stop)
  simpa [between] using h

theorem rangeOf_eq_between (items : List Bytes) (start stop : ℤ) :
    rangeOf items start stop = between items start stop := by
  rw [between_eq, rangeOf]
  simp only [listIndex, add_comm (items.length : ℤ)]

/-- A sum that is formed only behind a test stays in range. -/
theorem checked_ite {condition : Prop} [Decidable condition] {value other : ℤ}
    (h : condition → IsInt64 value) :
    (if condition then checked value else some other) =
      some (if condition then value else other) := by
  split
  · next hcondition => exact checked_eq (h hcondition)
  · rfl

/-- No sum leaves the 64-bit integers, and the slice lies inside the list. -/
theorem rangeChecked_eq {items : List Bytes} (hlength : items.length < 2 ^ 63) {start stop : ℤ}
    (hstart : IsInt64 start) (hstop : IsInt64 stop) :
    rangeChecked items start stop = some (between items start stop) := by
  obtain ⟨hstartLow, hstartHigh⟩ := hstart
  obtain ⟨hstopLow, hstopHigh⟩ := hstop
  rw [← rangeOf_eq_between, rangeOf_eq, rangeChecked,
    checked_ite fun h => ⟨by omega, by omega⟩, checked_ite fun h => ⟨by omega, by omega⟩]
  dsimp only [Option.bind_eq_bind, Option.bind_some]
  rw [checked_ite fun _ => ⟨by omega, by omega⟩]
  dsimp only [Option.bind_some]
  simp only [normalizeRange, Bool.and_eq_true, decide_eq_true_eq, and_assoc]
  generalize hfirst : (if (if start < 0 then (items.length : ℤ) + start else start) < 0 then 0
    else if start < 0 then (items.length : ℤ) + start else start) = first
  generalize hlast : (if (if stop < 0 then (items.length : ℤ) + stop else stop) ≥ items.length
    then (items.length : ℤ) - 1 else if stop < 0 then (items.length : ℤ) + stop else stop) = last
  have hfirstLow : 0 ≤ first := by
    rw [← hfirst]
    split <;> omega
  have hlastHigh : last < items.length := by
    rw [← hlast]
    split <;> omega
  split
  · next hinside =>
    rw [checked_eq ⟨by omega, by omega⟩]
    dsimp only [Option.bind_some]
    rw [Bounded.sub, if_pos ⟨hfirstLow, by omega, by omega⟩, inclusiveRange]
    congr 2
    omega
  · rfl

end Indexes

section Commands

variable {time : ℤ} {s s₁ : Store} {key name start stop : Bytes} {items : List Bytes}
  {first last : ℤ}

/-- What a read of a list has left is in the record. -/
theorem run_readList_of_read
    (hread : run (embedded time) (redisListValues key) s = (.ok items, s₁)) :
    run (embedded time) (readList (listKey key)) s₁ = (.ok items, s₁) := by
  rw [readList, run_bind_ok run_get]
  rcases liveList_or_cleared_of_run hread with hlist | ⟨hcleared, rfl⟩
  · obtain ⟨data, hget, hdecode⟩ := hlist.record
    rw [hget]
    dsimp only
    rw [hdecode, run_liftExcept]
  · rw [hcleared.no_list]
    rfl

theorem length_lt_of_read
    (hread : run (embedded time) (redisListValues key) s = (.ok items, s₁)) :
    items.length < 2 ^ 32 := by
  rcases liveList_or_cleared_of_run hread with hlist | ⟨-, rfl⟩
  · obtain ⟨data, -, hdecode⟩ := hlist.record
    exact (encodeList_decodeList hdecode).2.1
  · decide

theorem liveItems_of_read
    (hread : run (embedded time) (redisListValues key) s = (.ok items, s₁)) :
    LiveItems time items := by
  rcases liveList_or_cleared_of_run hread with hlist | ⟨-, rfl⟩
  · exact hlist.live
  · exact fun item hitem => absurd hitem List.not_mem_nil

theorem between_sublist (items : List Bytes) (start stop : ℤ) :
    (between items start stop).Sublist items := by
  rw [between_eq]
  exact (List.drop_sublist _ _).trans (List.take_sublist _ _)

/-- The items that a trim leaves are read back, and without items the key is gone. -/
theorem run_redisListValues_afterWrite {rest : List Bytes}
    (hread : run (embedded time) (redisListValues key) s = (.ok items, s₁))
    (hsub : rest.Sublist items) :
    run (embedded time) (redisListValues key) (afterWrite s₁ key rest) =
      (.ok rest, afterWrite s₁ key rest) := by
  by_cases hrest : rest = []
  · subst hrest
    rw [afterWrite, if_pos rfl]
    exact (Store.noRecordOf_without s₁ key).cleared.run_redisListValues
  · rcases liveList_or_cleared_of_run hread with hlist | ⟨-, rfl⟩
    · exact (hlist.afterWrite hrest hsub).run_redisListValues
    · exact absurd (List.sublist_nil.mp hsub) hrest

theorem run_redisLRange
    (hread : run (embedded time) (redisListValues key) s = (.ok items, s₁))
    (hstart : redisParseInt start = .ok first) (hstop : redisParseInt stop = .ok last) :
    (redisLRange [name, key, start, stop]).run (embedded time) s =
      (.array ((between items first last).map fun item => .bulk (payloadOf item)), s₁) := by
  rw [redisLRange_eq name key hstart hstop]
  refine run_replying ?_
  rw [run_bind_ok hread]
  have hrange := rangeOf_eq items first last
  rw [rangeOf_eq_between] at hrange
  split
  · next hok =>
    rw [if_pos hok] at hrange
    have hlive : LiveItems time (between items first last) :=
      fun item hitem => liveItems_of_read hread item ((between_sublist items first last).subset hitem)
    rw [run_bind_ok run_now, ← hrange, redisListReply_of_live hlive,
      run_bind_ok (run_liftExcept _)]
    rfl
  · next hok =>
    rw [if_neg hok] at hrange
    rw [hrange]
    rfl

theorem run_redisLTrim
    (hread : run (embedded time) (redisListValues key) s = (.ok items, s₁))
    (hstart : redisParseInt start = .ok first) (hstop : redisParseInt stop = .ok last) :
    (redisLTrim [name, key, start, stop]).run (embedded time) s =
      (ok, afterWrite s₁ key (between items first last)) := by
  refine run_replying ?_
  dsimp only
  have hrange := rangeOf_eq items first last
  rw [rangeOf_eq_between] at hrange
  rw [hstart, hstop, run_bind_ok (run_liftExcept _),
    run_bind_ok (run_liftExcept _), run_bind_ok hread]
  split
  · next hok =>
    rw [if_pos hok] at hrange
    rw [← hrange, run_bind_ok run_redisWriteList]
    rfl
  · next hok =>
    rw [if_neg hok] at hrange
    rw [hrange, afterWrite, if_pos rfl, run_bind_ok run_redisDeleteRaw]
    rfl

theorem run_lRange {V T : Type} (db : DB V T) (target : T)
    (hread : run (embedded time) (redisListValues key) s = (.ok items, s₁))
    (first last : ℤ) :
    run (embedded time) (db.lRange key first last (some target)) s₁ =
      run (embedded time) (db.decodeItems target (between items first last)) s₁ := by
  have hrange := rangeOf_eq items first last
  rw [rangeOf_eq_between] at hrange
  rw [DB.lRange, run_bind_ok run_ensureOpen]
  dsimp only
  rw [run_bind_ok (run_readList_of_read hread), hrange]
  split <;> rfl

end Commands

end KVLite.Redis
