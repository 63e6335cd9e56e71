import KVLite.Keyspace.LiveLists
import Mathlib.Data.List.DropRight
import Mathlib.Data.List.Palindrome

/-!
# Counted pops

`LPOP key n` and `RPOP key n` take `n` items off a list in one piece and reply them in the
order of the list. Single pops from the right take the last item first: the two replies are
each other's reversal.
-/

namespace KVLite

open Semantics Fallible Redis

/-- The name of the command; the code does not look at it. -/
def popName (left : Bool) : Bytes := if left then text "LPOP" else text "RPOP"

/-- Single pops, at most `n`, until the list is exhausted: the items in the order of the
replies, and the store. -/
def popEach (time : ℤ) (left : Bool) (key : Bytes) : ℕ → Store → List Resp × Store
  | 0, s => ([], s)
  | n + 1, s =>
    match (redisPop left [popName left, key]).run (embedded time) s with
    | (.null, s₁) => ([], s₁)
    | (reply, s₁) => (reply :: (popEach time left key n s₁).1, (popEach time left key n s₁).2)

/-- The order in which single pops take the items, and back. -/
def popOrder {α : Type} (left : Bool) (items : List α) : List α :=
  if left then items else items.reverse

section Pops

variable {time : ℤ} {s s₁ : Store} {key : Bytes} {items queue : List Bytes} {left : Bool}

/-! ### The items -/

theorem popOrder_popOrder {α : Type} (left : Bool) (items : List α) :
    popOrder left (popOrder left items) = items := by
  cases left with
  | true => rfl
  | false => exact List.reverse_reverse items

theorem popOrder_eq_nil {α : Type} {items : List α} : popOrder left items = [] ↔ items = [] := by
  cases left with
  | true => exact Iff.rfl
  | false => exact List.reverse_eq_nil_iff

theorem mem_popOrder {α : Type} {item : α} {items : List α} :
    item ∈ popOrder left items ↔ item ∈ items := by
  cases left with
  | true => exact Iff.rfl
  | false => exact List.mem_reverse

/-- A counted pop takes the items that single pops take first. -/
theorem splitPopped_popOrder (n : ℕ) :
    splitPopped left (min n (popOrder left queue).length) (popOrder left queue) =
      (popOrder left (queue.take n), popOrder left (queue.drop n)) := by
  cases left with
  | true =>
    have htake : queue.take (min n queue.length) = queue.take n := by
      rw [List.take_eq_take_iff]
      omega
    have hdrop : queue.drop (min n queue.length) = queue.drop n := by
      rcases le_total n queue.length with hle | hle
      · rw [min_eq_left hle]
      · rw [min_eq_right hle, List.drop_length, List.drop_eq_nil_of_le hle]
    exact Prod.ext htake hdrop
  | false =>
    simp only [splitPopped, popOrder, Bool.false_eq_true, if_false, List.length_reverse,
      List.drop_reverse, List.take_reverse]
    rcases le_total n queue.length with hle | hle
    · rw [min_eq_left hle, Nat.sub_sub_self hle]
    · rw [min_eq_right hle, Nat.sub_self, Nat.sub_zero, List.take_length, List.drop_length,
        List.take_of_length_le hle, List.drop_eq_nil_of_le hle]

theorem redisItemPayload_of_live {item : Bytes}
    (h : ∃ value, unmarshalEnvelope item = .ok value ∧ value.expired time = false) :
    redisItemPayload item time = .ok (some (payloadOf item)) := by
  obtain ⟨value, hvalue, hlive⟩ := h
  rw [redisItemPayload_of_decodes hvalue, hlive, payloadOf, hvalue]
  rfl

theorem redisListReply_of_live (h : LiveItems time items) :
    redisListReply time items = .ok (items.map fun item => .bulk (payloadOf item)) := by
  induction items with
  | nil => rfl
  | cons item items ih =>
    rw [LiveItems, List.forall_mem_cons] at h
    rw [redisListReply, redisItemPayload_of_live h.1, ih h.2]
    rfl

/-! ### Single pops -/

/-- A pop takes the first item in its order. -/
theorem LiveList.run_redisPop {item : Bytes}
    (h : LiveList time s key (popOrder left (item :: queue))) :
    (redisPop left [popName left, key]).run (embedded time) s =
      (.bulk (payloadOf item), afterWrite s key (popOrder left queue)) := by
  have hsplit : splitPopped left 1 (popOrder left (item :: queue)) =
      ([item], popOrder left queue) := by
    cases left with
    | true => rfl
    | false => simp [splitPopped, popOrder]
  have hne : ¬ (popOrder left (item :: queue)).length = 0 := by
    rw [List.length_eq_zero_iff]
    exact h.nonempty
  refine run_replying ?_
  change run (embedded time) (redisPopOne left key) s = _
  rw [redisPopOne, run_bind_ok h.run_redisListValues, if_neg hne, hsplit]
  dsimp only
  rw [run_bind_ok run_redisWriteList, run_bind_ok run_now, List.headD_cons,
    redisItemPayload_of_live (h.live item (mem_popOrder.mpr List.mem_cons_self)),
    run_bind_ok (run_liftExcept _)]
  rfl

/-- A pop of an absent list replies null. -/
theorem Cleared.run_redisPop (h : Cleared time s key) :
    (redisPop left [popName left, key]).run (embedded time) s = (.null, s) := by
  refine run_replying ?_
  change run (embedded time) (redisPopOne left key) s = _
  rw [redisPopOne, run_bind_ok h.run_redisListValues]
  rfl

theorem Cleared.popEach_eq (h : Cleared time s key) (n : ℕ) : popEach time left key n s = ([], s) := by
  cases n with
  | zero => rfl
  | succ n => rw [popEach, h.run_redisPop]

/-- What is left of a live list, if anything. -/
theorem LiveList.afterWrite (h : LiveList time s key items) {rest : List Bytes} (hne : rest ≠ [])
    (hsub : rest.Sublist items) : LiveList time (afterWrite s key rest) key rest := by
  obtain ⟨data, -, hdecode⟩ := h.record
  rw [KVLite.afterWrite, if_neg hne]
  exact h.toOnlyList.insert hne (fun item hitem => h.live item (hsub.subset hitem))
    (decodeList_encodeList_of_sublist hdecode hsub)

theorem popOrder_sublist {queue' : List Bytes} (h : queue'.Sublist queue) :
    (popOrder left queue').Sublist (popOrder left queue) := by
  cases left with
  | true => exact h
  | false => exact h.reverse

/-- Single pops take the items in their order. -/
theorem LiveList.popEach_eq (n : ℕ) (hne : queue ≠ [])
    (h : LiveList time s key (popOrder left queue)) :
    popEach time left key (n + 1) s =
      ((queue.take (n + 1)).map (fun item => .bulk (payloadOf item)),
        KVLite.afterWrite s key (popOrder left (queue.drop (n + 1)))) := by
  -- One pop for each item, until the count or the list ends.
  induction n generalizing queue s with
  | zero =>
    obtain ⟨item, queue, rfl⟩ := List.exists_cons_of_ne_nil hne
    rw [popEach, h.run_redisPop]
    rfl
  | succ n ih =>
    obtain ⟨item, queue, rfl⟩ := List.exists_cons_of_ne_nil hne
    rw [popEach, h.run_redisPop]
    dsimp only
    by_cases hqueue : queue = []
    · subst hqueue
      have hnil : popOrder left ([] : List Bytes) = [] := popOrder_eq_nil.mpr rfl
      have hcleared : Cleared time (KVLite.afterWrite s key (popOrder left [])) key := by
        rw [hnil]
        exact (Store.noRecordOf_without s key).cleared
      rw [hcleared.popEach_eq]
      rfl
    · have hrest : popOrder left queue ≠ [] := mt popOrder_eq_nil.mp hqueue
      have hlive := h.afterWrite hrest (popOrder_sublist (List.sublist_cons_self item queue))
      rw [ih hqueue hlive, afterWrite_afterWrite hrest]
      rfl

/-! ### Counted pops -/

variable {count : Bytes} {n : ℕ}

/-- A counted pop takes the same items, and replies them in the order of the list. -/
theorem LiveList.run_redisPop_count (h : LiveList time s₁ key (popOrder left queue))
    (hvalues : run (embedded time) (redisListValues key) s = (.ok (popOrder left queue), s₁))
    (hcount : redisParseNonNegative count = .ok (n : ℤ)) (hn : 0 < n) :
    (redisPop left [popName left, key, count]).run (embedded time) s =
      (.array ((popOrder left (queue.take n)).map fun item => .bulk (payloadOf item)),
        KVLite.afterWrite s₁ key (popOrder left (queue.drop n))) := by
  have hne : ¬ (popOrder left queue).length = 0 := by
    rw [List.length_eq_zero_iff]
    exact h.nonempty
  have hlive : LiveItems time (popOrder left (queue.take n)) := fun item hitem =>
    h.live item (mem_popOrder.mpr (List.mem_of_mem_take (mem_popOrder.mp hitem)))
  refine run_replying ?_
  change run (embedded time) (redisPopCount left key count) s = _
  rw [redisPopCount, run_bind_ok hvalues, if_neg hne, hcount]
  dsimp only
  rw [if_neg (by omega), Int.toNat_natCast, splitPopped_popOrder]
  dsimp only
  rw [run_bind_ok run_redisWriteList, run_bind_ok run_now,
    redisListReply_of_live hlive, run_bind_ok (run_liftExcept _)]
  rfl

/-- The first of several single pops reads the list. -/
theorem popEach_of_run (hn : 0 < n)
    (hvalues : run (embedded time) (redisListValues key) s = (.ok items, s₁))
    (hagain : run (embedded time) (redisListValues key) s₁ = (.ok items, s₁)) :
    popEach time left key n s = popEach time left key n s₁ := by
  have hpop : (redisPop left [popName left, key]).run (embedded time) s =
      (redisPop left [popName left, key]).run (embedded time) s₁ := by
    refine run_replying_congr ?_
    change run (embedded time) (redisPopOne left key) s =
      run (embedded time) (redisPopOne left key) s₁
    rw [redisPopOne, run_bind_ok hvalues, run_bind_ok hagain]
  obtain ⟨m, rfl⟩ := Nat.exists_eq_succ_of_ne_zero hn.ne'
  rw [popEach, popEach, hpop]

/-- A counted pop is the same as single pops, replies and store, if it takes from the left
or if the items it takes read the same backwards. -/
theorem counted_pop_iff
    (hvalues : run (embedded time) (redisListValues key) s = (.ok items, s₁))
    (hcount : redisParseNonNegative count = .ok (n : ℤ)) (hn : 0 < n) :
    (redisPop left [popName left, key, count]).run (embedded time) s =
        (.array (popEach time left key n s).1, (popEach time left key n s).2) ↔
      left = true ∨ ((items.rtake n).map payloadOf).Palindrome := by
  rcases liveList_or_cleared_of_run hvalues with hlive | ⟨hcleared, rfl⟩
  · have hqueue : items = popOrder left (popOrder left items) := (popOrder_popOrder left items).symm
    have hne : popOrder left items ≠ [] := mt popOrder_eq_nil.mp hlive.nonempty
    rw [popEach_of_run hn hvalues hlive.run_redisListValues]
    rw [hqueue] at hlive hvalues
    obtain ⟨m, rfl⟩ := Nat.exists_eq_succ_of_ne_zero hn.ne'
    rw [hlive.run_redisPop_count hvalues hcount hn, hlive.popEach_eq m hne, Prod.mk.injEq,
      and_iff_left rfl, Resp.array.injEq]
    cases left with
    | true => exact iff_of_true rfl (.inl rfl)
    | false =>
      -- From the right, the single replies are the reversal.
      have htaken : (popOrder false items).take (m + 1) = (items.rtake (m + 1)).reverse := by
        rw [List.rtake_eq_reverse_take_reverse, List.reverse_reverse]
        rfl
      have hbulk : Function.Injective fun payload : Bytes => Resp.bulk payload :=
        fun _ _ heq => Resp.bulk.inj heq
      rw [htaken, popOrder, if_neg Bool.false_ne_true, List.reverse_reverse,
        or_iff_right Bool.false_ne_true, List.Palindrome.iff_reverse_eq, ← List.map_reverse,
        ← (List.map_injective_iff.mpr hbulk).eq_iff, List.map_map, List.map_map]
      exact eq_comm
  · have hagain := hcleared.run_redisListValues
    have hreply : (redisPop left [popName left, key, count]).run (embedded time) s =
        (.array [], s₁) := by
      refine run_replying ?_
      change run (embedded time) (redisPopCount left key count) s = _
      rw [redisPopCount, run_bind_ok hvalues]
      rfl
    rw [popEach_of_run hn hvalues hagain, hcleared.popEach_eq, hreply]
    refine iff_of_true rfl (.inr ?_)
    rw [List.rtake_nil]
    exact .nil

end Pops

/-- Two items are taken from the right: together in the order of the list, one by one in the
opposite order. -/
theorem counted_right_pop_keeps_order :
    ∃ s : Store,
      (redisPush false [text "RPUSH", text "k", text "a", text "b", text "c"]).run (embedded 0) ∅ =
          (.integer 3, s) ∧
        ((redisPop false [text "RPOP", text "k", text "2"]).run (embedded 0) s).1 =
          .array [.bulk (text "b"), .bulk (text "c")] ∧
        (popEach 0 false (text "k") 2 s).1 = [.bulk (text "c"), .bulk (text "b")] :=
  ⟨_, rfl, rfl, rfl⟩

theorem counted_left_pop_two :
    ∃ s : Store,
      (redisPush false [text "RPUSH", text "k", text "a", text "b", text "c"]).run (embedded 0) ∅ =
          (.integer 3, s) ∧
        (redisPop true [popName true, text "k", text "2"]).run (embedded 0) s =
          (.array (popEach 0 true (text "k") 2 s).1, (popEach 0 true (text "k") 2 s).2) := by
  refine ⟨_, rfl, ?_⟩
  have hcount : redisParseNonNegative (text "2") = .ok ((2 : ℕ) : ℤ) :=
    redisParseNonNegative_eq_ok_iff.mpr ⟨redisParseInt_eq_ok_iff.mpr ⟨rfl, by decide⟩, by decide⟩
  exact (counted_pop_iff rfl hcount (by decide)).mpr (.inl rfl)

end KVLite
