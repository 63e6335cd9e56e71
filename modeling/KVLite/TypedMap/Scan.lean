import KVLite.TypedMap.Existence

/-!
# Iterating over the keyspace

A client of `SCAN` sends a cursor, starts with `0` and follows the cursors that come
back until `0` comes back again. Without a pattern the server filters the keys by the
glob `*`, which matches no name with a slash: the iteration ends and delivers every key
without a slash once, and it is complete exactly when no key has a slash.
-/

namespace KVLite.TypedMap

open Semantics Fallible BigEndian Redis

/-! ### The client -/

/-- A request for a page: its clock reading and the options after the cursor. -/
structure Page where
  now : ℤ
  options : List Bytes

/-- The cursor that comes back; an error ends the iteration. -/
def nextCursor : Option Resp → Bytes
  | some (.array (.bulk next :: _)) => next
  | _ => formatInt 0

/-- The keys of a page. -/
def pageKeys : Option Resp → List Bytes
  | some (.array [_, .array items]) => items.filterMap fun
    | .bulk key => some key
    | _ => none
  | _ => []

/-- The client asks for a page and keeps the cursor that comes back. -/
def scanPage (go : GoRuntime) (page : Page) (st : Bytes × Store) : Option Resp × (Bytes × Store) :=
  let (reply, s) := (redisScan go (text "SCAN" :: st.1 :: page.options)).run (embedded page.now) st.2
  (reply, nextCursor reply, s)

/-- The state after `n` pages: the cursor and the store. -/
def scanned (go : GoRuntime) (pages : ℕ → Page) (st : Bytes × Store) (n : ℕ) : Bytes × Store :=
  Machine.after (scanPage go) ((List.range n).map pages) st

/-- The keys of the first `n` pages. -/
def collected (go : GoRuntime) (pages : ℕ → Page) (st : Bytes × Store) (n : ℕ) : List Bytes :=
  (Machine.outputs (scanPage go) ((List.range n).map pages) st).flatMap pageKeys

/-- The cursor `0` comes back with the page `n` for the first time. -/
structure Ends (go : GoRuntime) (pages : ℕ → Page) (st : Bytes × Store) (n : ℕ) : Prop where
  pos : 0 < n
  last : (scanned go pages st n).1 = formatInt 0
  before : ∀ i, 0 < i → i < n → (scanned go pages st i).1 ≠ formatInt 0

section Client

variable {go : GoRuntime} {pages : ℕ → Page} {st : Bytes × Store}

theorem scanned_zero : scanned go pages st 0 = st := rfl

theorem collected_zero : collected go pages st 0 = [] := rfl

theorem scanned_succ (n : ℕ) : scanned go pages st (n + 1) =
    scanned go (fun i => pages (i + 1)) (scanPage go (pages 0) st).2 n := by
  rw [scanned, List.range_succ_eq_map, List.map_cons, List.map_map]
  rfl

theorem collected_succ (n : ℕ) : collected go pages st (n + 1) =
    pageKeys (scanPage go (pages 0) st).1 ++
      collected go (fun i => pages (i + 1)) (scanPage go (pages 0) st).2 n := by
  rw [collected, List.range_succ_eq_map, List.map_cons, List.map_map]
  rfl

theorem Ends.unique {n n' : ℕ} (h : Ends go pages st n) (h' : Ends go pages st n') : n = n' := by
  rcases lt_trichotomy n n' with hlt | heq | hlt
  · exact absurd h.last (h'.before n h.pos hlt)
  · exact heq
  · exact absurd h'.last (h.before n' h'.pos hlt)

/-- An iteration that goes on after its first page. -/
theorem Ends.succ {n : ℕ} (hfirst : (scanPage go (pages 0) st).2.1 ≠ formatInt 0)
    (h : Ends go (fun i => pages (i + 1)) (scanPage go (pages 0) st).2 n) :
    Ends go pages st (n + 1) where
  pos := n.succ_pos
  last := by rw [scanned_succ]; exact h.last
  before i hpos hlt := by
    obtain ⟨i, rfl⟩ := Nat.exists_eq_succ_of_ne_zero hpos.ne'
    rw [scanned_succ]
    cases i with
    | zero => exact hfirst
    | succ i => exact h.before (i + 1) i.succ_pos (by omega)

end Client

/-! ### The server -/

/-- Only the cursor `0` is written as the one that starts an iteration. -/
theorem eq_zero_of_formatInt {n : ℕ} (h : (n : ℤ) < 2 ^ 63) (heq : formatInt n = formatInt 0) :
    n = 0 := by
  have hparse := redisParseNonNegative_formatInt h
  have hzero : redisParseNonNegative (formatInt 0) = .ok 0 :=
    redisParseNonNegative_formatInt (show ((0 : ℕ) : ℤ) < 2 ^ 63 by decide)
  rw [heq, hzero] at hparse
  exact_mod_cast (Except.ok.inj hparse).symm

theorem nonneg_of_redisParseNonNegative {data : Bytes} {value : ℤ}
    (h : redisParseNonNegative data = .ok value) : 0 ≤ value :=
  (redisParseNonNegative_eq_ok_iff.mp h).2

/-- A property of the count that the default and every parsed count has. -/
theorem redisScanOptions_count {P : ℤ → Prop} {go : GoRuntime} {pattern pattern' : Bytes}
    {count count' : ℤ} {options : List Bytes} (hten : P 10)
    (hparsed : ∀ data found, redisParseNonNegative data = .ok found → found ≠ 0 → P found)
    (hcount : P count)
    (h : redisScanOptions go pattern count options = .ok (some (pattern', count'))) : P count' := by
  fun_induction redisScanOptions go pattern count options with
  | case1 =>
    cases h
    exact hcount
  | case3 _ _ _ _ _ _ ih => exact ih hcount h
  | case5 _ _ _ _ _ _ _ _ ih => exact ih hten h
  | case6 _ _ _ _ _ _ _ found hne hparse ih => exact ih (hparsed _ found hparse hne) h
  | case7 _ _ _ _ _ _ _ _ ih => exact ih hcount h
  | _ => cases h

/-- A page asks for at least one key. -/
theorem one_le_of_redisScanOptions {go : GoRuntime} {pattern pattern' : Bytes} {count count' : ℤ}
    {options : List Bytes} (hcount : 1 ≤ count)
    (h : redisScanOptions go pattern count options = .ok (some (pattern', count'))) :
    1 ≤ count' := by
  refine redisScanOptions_count (by decide) (fun data found hparse hne => ?_) hcount h
  have hnonneg := nonneg_of_redisParseNonNegative hparse
  omega

section Server

variable {go : GoRuntime} {now : ℤ} {s s' : Store} {keys : List Bytes}

theorem run_redisScan {σ : Type} {handler : Handler Calls σ} {state state' : σ}
    {name cursor pattern : Bytes} {at' count : ℤ} {options : List Bytes}
    (hcursor : redisParseNonNegative cursor = .ok at')
    (hoptions : redisScanOptions go (text "*") 10 options = .ok (some (pattern, count)))
    (hkeys : run handler (redisLogicalKeys go) state = (.ok keys, state')) :
    (redisScan go (name :: cursor :: options)).run handler state =
      ((redisScanPage (keys.filter (redisPatternMatch go pattern)) at' count).map fun page =>
        .array [.bulk (formatInt page.1), .array (page.2.map .bulk)], state') := by
  have hreply : run handler (redisScanReply go (name :: cursor :: options)) state =
      (.ok ((redisScanPage (keys.filter (redisPatternMatch go pattern)) at' count).map fun page =>
        .array [.bulk (formatInt page.1), .array (page.2.map .bulk)]), state') := by
    rw [redisScanReply, hcursor, run_bind_ok (run_liftExcept _), hoptions,
      run_bind_ok (run_liftExcept _)]
    dsimp only
    rw [run_bind_ok hkeys]
    cases redisScanPage (keys.filter (redisPatternMatch go pattern)) at' count <;> rfl
  rw [redisScan, Program.run_bind, program_run, hreply]
  rfl

/-- The next cursor and the keys of the page at a cursor inside the list, or at its start. -/
def pageAt (filtered : List Bytes) (at' : ℕ) (count : ℤ) : ℤ × List Bytes :=
  if at' + count < filtered.length then (at' + count, (filtered.drop at').take count.toNat)
  else (0, filtered.drop at')

theorem redisScanPage_eq {filtered : List Bytes} {at' : ℕ} {count : ℤ} (hcount : 1 ≤ count)
    (hat : at' < filtered.length ∨ at' = 0) (hfits : IsInt64 (at' + count)) :
    redisScanPage filtered at' count = some (pageAt filtered at' count) := by
  unfold redisScanPage pageAt
  rw [wrapInt64_eq hfits]
  by_cases hend : (at' : ℤ) ≥ filtered.length
  · obtain rfl : at' = 0 := hat.resolve_left (by omega)
    have hnil : filtered = [] := List.eq_nil_of_length_eq_zero (by omega)
    subst hnil
    rw [if_pos hend, if_neg (by simp; omega)]
    rfl
  · rw [if_neg hend]
    dsimp only
    by_cases hmore : (at' : ℤ) + count < filtered.length
    · have hstop : (if (at' : ℤ) + count > filtered.length then (filtered.length : ℤ)
          else at' + count) = at' + count := if_neg (by omega)
      rw [hstop, if_pos hmore, if_pos (by omega : (at' : ℤ) ≤ at' + count), if_pos hmore,
        add_sub_cancel_left, Int.toNat_natCast]
    · have hstop : (if (at' : ℤ) + count > filtered.length then (filtered.length : ℤ)
          else at' + count) = filtered.length := by
        split <;> omega
      have htake : (filtered.drop at').take (filtered.length - (at' : ℤ)).toNat = filtered.drop at' :=
        List.take_of_length_le (by rw [List.length_drop]; omega)
      rw [hstop, if_neg (lt_irrefl _), if_pos (not_le.mp hend).le, if_neg hmore, Int.toNat_natCast,
        htake]

/-- The keys of the server at every one of the readings, whatever entries that have expired
are still there. -/
def KeysAt (times : ℤ → Prop) (keys : List Bytes) (s : Store) : Prop :=
  ∃ entries, Holds s entries ∧ ∀ time, times time → ∀ key,
    key ∈ keys ↔ ShortName key ∧ (aliveAt time (entries key)).isSome = true

theorem isSome_aliveAt_aliveAt (time time' : ℤ) (entry : Option Entry) :
    (aliveAt time' (aliveAt time entry)).isSome = true ↔
      (aliveAt time entry).isSome = true ∧ (aliveAt time' entry).isSome = true := by
  cases entry with
  | none => simp [aliveAt]
  | some e =>
    cases halive : e.aliveAt time <;> cases halive' : e.aliveAt time' <;>
      simp [aliveAt, Option.filter, halive, halive']

/-- An enumeration delivers the keys, and leaves the keys of the server at every reading. -/
theorem KeysAt.run_redisLogicalKeys (go : GoRuntime) {times : ℤ → Prop} (h : KeysAt times keys s)
    (hsorted : keys.Pairwise fun a b => compare a b = .lt) (hnow : IsInt64 now) (htime : times now) :
    ∃ s', run (embedded now) (redisLogicalKeys go) s = (.ok keys, s') ∧
      KeysAt times keys s' := by
  obtain ⟨entries, hholds, hkeys⟩ := h
  obtain ⟨found, s', hrun, hfound, hfoundSorted, entries', hholds', hsame⟩ :=
    hholds.run_redisLogicalKeys hnow go
  obtain rfl : found = keys := Store.eq_of_pairwise hfoundSorted hsorted fun key =>
    (hfound key).trans (hkeys now htime key).symm
  refine ⟨s', hrun, entries', hholds', fun time htime' key => ?_⟩
  rcases hsame key with heq | heq
  · rw [heq]
    exact hkeys time htime' key
  · rw [heq, isSome_aliveAt_aliveAt]
    have hnow' := hkeys now htime key
    have htime'' := hkeys time htime' key
    tauto

end Server

/-! ### Iterations -/

section Iteration

variable {go : GoRuntime} {keys : List Bytes} {times : ℤ → Prop} {pattern : Bytes}

theorem pageKeys_bulks (next : Bytes) (items : List Bytes) :
    pageKeys (some (.array [.bulk next, .array (items.map .bulk)])) = items := by
  rw [pageKeys, List.filterMap_map]
  exact List.filterMap_some

/-- What the client gets for a cursor that the server has sent. -/
theorem exists_scanPage {s : Store} (h : KeysAt times keys s)
    (hsorted : keys.Pairwise fun a b => compare a b = .lt) {page : Page} (hnow : IsInt64 page.now)
    (htime : times page.now) {count : ℤ}
    (hoptions : redisScanOptions go (text "*") 10 page.options = .ok (some (pattern, count)))
    {at' : ℕ} (hat : at' < (keys.filter (redisPatternMatch go pattern)).length ∨ at' = 0)
    (hfits : IsInt64 (at' + count)) :
    let result := pageAt (keys.filter (redisPatternMatch go pattern)) at' count
    ∃ s', KeysAt times keys s' ∧ scanPage go page (formatInt at', s) =
      (some (.array [.bulk (formatInt result.1), .array (result.2.map .bulk)]), formatInt result.1,
        s') := by
  have hcount := one_le_of_redisScanOptions (by decide) hoptions
  have hcursor : redisParseNonNegative (formatInt at') = .ok (at' : ℤ) :=
    redisParseNonNegative_formatInt (by obtain ⟨-, hlt⟩ := hfits; omega)
  obtain ⟨s', hrun, hkeys⟩ := h.run_redisLogicalKeys go hsorted hnow htime
  refine ⟨s', hkeys, ?_⟩
  rw [scanPage, run_redisScan hcursor hoptions hrun, redisScanPage_eq hcount hat hfits]
  rfl

/-- An iteration from a cursor that the server has sent ends and collects the keys from
there on. -/
theorem exists_ends {pages : ℕ → Page} {counts : ℕ → ℤ}
    (hsorted : keys.Pairwise fun a b => compare a b = .lt)
    (hnow : ∀ i, IsInt64 (pages i).now) (htimes : ∀ i, times (pages i).now)
    (hoptions : ∀ i, redisScanOptions go (text "*") 10 (pages i).options =
      .ok (some (pattern, counts i))) {at' : ℕ} {s : Store} (h : KeysAt times keys s)
    (hat : at' < (keys.filter (redisPatternMatch go pattern)).length ∨ at' = 0)
    (hlt : (at' : ℤ) < 2 ^ 63)
    (hfits : ∀ i, (∀ j, 0 < j → j ≤ i →
        (scanned go pages (formatInt at', s) j).1 ≠ formatInt 0) →
      ∀ cursor, redisParseNonNegative (scanned go pages (formatInt at', s) i).1 = .ok cursor →
        IsInt64 (cursor + counts i)) :
    ∃ n, Ends go pages (formatInt at', s) n ∧
      collected go pages (formatInt at', s) n =
        (keys.filter (redisPatternMatch go pattern)).drop at' := by
  -- Every page leaves fewer keys to deliver.
  induction hleft : (keys.filter (redisPatternMatch go pattern)).length - at'
    using Nat.strong_induction_on generalizing pages counts at' s with
  | h left ih =>
    have hcount := one_le_of_redisScanOptions (by decide) (hoptions 0)
    have hfirst : IsInt64 (at' + counts 0) := hfits 0 (by omega) at'
      (redisParseNonNegative_formatInt hlt)
    obtain ⟨s', hkeys, hpage⟩ := exists_scanPage h hsorted (hnow 0) (htimes 0) (hoptions 0) hat hfirst
    by_cases hmore : at' + counts 0 < (keys.filter (redisPatternMatch go pattern)).length
    · obtain ⟨count, hnat⟩ := Int.eq_ofNat_of_zero_le (by omega : 0 ≤ counts 0)
      rw [pageAt, if_pos hmore, hnat, ← Int.natCast_add] at hpage
      rw [hnat] at hfirst hmore
      have hlt' : ((at' + count : ℕ) : ℤ) < 2 ^ 63 := by
        obtain ⟨-, hlt'⟩ := hfirst
        exact_mod_cast hlt'
      have hnext : (scanPage go (pages 0) (formatInt at', s)).2.1 ≠ formatInt 0 := by
        rw [hpage]
        intro heq
        have hzero := eq_zero_of_formatInt hlt' heq
        omega
      have hfits' : ∀ i, (∀ j, 0 < j → j ≤ i → (scanned go (fun i => pages (i + 1))
          (formatInt (at' + count : ℕ), s') j).1 ≠ formatInt 0) →
          ∀ cursor, redisParseNonNegative (scanned go (fun i => pages (i + 1))
            (formatInt (at' + count : ℕ), s') i).1 = .ok cursor →
            IsInt64 (cursor + counts (i + 1)) := by
        intro i hbefore cursor hparse
        refine hfits (i + 1) (fun j hpos hle => ?_) cursor (by rw [scanned_succ, hpage]; exact hparse)
        obtain ⟨j, rfl⟩ := Nat.exists_eq_succ_of_ne_zero hpos.ne'
        rw [scanned_succ]
        cases j with
        | zero => exact hnext
        | succ j =>
          rw [hpage]
          exact hbefore (j + 1) j.succ_pos (by omega)
      obtain ⟨n, hends, hcollected⟩ := ih _ (by omega) (fun i => hnow (i + 1)) (fun i => htimes (i + 1))
        (fun i => hoptions (i + 1)) hkeys (.inl (by exact_mod_cast hmore)) hlt' hfits' rfl
      refine ⟨n + 1, .succ hnext (by rw [hpage]; exact hends), ?_⟩
      rw [collected_succ, hpage, pageKeys_bulks, hcollected, Int.toNat_natCast, ← List.drop_drop,
        List.take_append_drop]
    · rw [pageAt, if_neg hmore] at hpage
      refine ⟨1, ⟨one_pos, ?_, by omega⟩, ?_⟩
      · rw [scanned_succ, hpage, scanned_zero]
      · rw [collected_succ, hpage, pageKeys_bulks, collected_zero, List.append_nil]

end Iteration

/-! ### Completeness -/

/-- `path.Match` as documented for the glob `*`: it matches a name without a slash. -/
def StarMatches (go : GoRuntime) : Prop :=
  ∀ name, go.pathMatch (text "*") name = some (decide (47 ∉ name))

theorem filter_star {go : GoRuntime} (hmatch : StarMatches go) (keys : List Bytes) :
    keys.filter (redisPatternMatch go (text "*")) = keys.filter fun key => decide (47 ∉ key) := by
  refine List.filter_congr fun key _ => ?_
  rw [redisPatternMatch, hmatch]
  simp

section Completeness

variable {go : GoRuntime} {password : Bytes} {clock : ℕ → ℤ} {inputs : List Received} {tick : ℕ}

/-- In every store that commands reach, an iteration ends and collects the keys that match the
pattern, and the keys have no duplicates. -/
theorem exists_collected
    (halong : Machine.Along (receive go password clock) (Fitting go password clock) inputs (tick, ∅))
    {reached : List Received} (hreached : reached <+: inputs) {pages : ℕ → Page} {counts : ℕ → ℤ}
    {pattern : Bytes} (hnow : ∀ i, IsInt64 (pages i).now)
    (hoptions : ∀ i, redisScanOptions go (text "*") 10 (pages i).options =
      .ok (some (pattern, counts i))) {keys : List Bytes}
    (hkeys : ∀ i, (run (embedded (pages i).now) (redisLogicalKeys go)
      (Machine.after (receive go password clock) reached (tick, ∅)).2).1 = .ok keys) :
    let s := (Machine.after (receive go password clock) reached (tick, ∅)).2
    (∀ i, (∀ j, 0 < j → j ≤ i → (scanned go pages (formatInt 0, s) j).1 ≠ formatInt 0) →
      ∀ cursor, redisParseNonNegative (scanned go pages (formatInt 0, s) i).1 = .ok cursor →
        IsInt64 (cursor + counts i)) →
    ∃ n, Ends go pages (formatInt 0, s) n ∧
      collected go pages (formatInt 0, s) n = keys.filter (redisPatternMatch go pattern) ∧
      keys.Nodup := by
  intro s hfits
  obtain ⟨entries, hholds⟩ := (typed_reached halong hreached).1.exists_holds
  -- The keys are those of the store at the reading of every page.
  have hpages : ∀ i, (∀ key, key ∈ keys ↔ ShortName key ∧
      (aliveAt (pages i).now (entries key)).isSome = true) ∧
        keys.Pairwise fun a b => compare a b = .lt := by
    intro i
    obtain ⟨found, s', hrun, hfound, hsorted, -⟩ := hholds.run_redisLogicalKeys (hnow i) go
    obtain rfl : found = keys := by
      have heq := hkeys i
      rw [hrun] at heq
      exact Except.ok.inj heq
    exact ⟨hfound, hsorted⟩
  have hat : KeysAt (fun time => ∃ i, time = (pages i).now) keys s :=
    ⟨entries, hholds, by rintro _ ⟨i, rfl⟩; exact (hpages i).1⟩
  obtain ⟨n, hends, hcollected⟩ := exists_ends (hpages 0).2 hnow (fun i => ⟨i, rfl⟩) hoptions hat
    (.inr rfl) (by decide) hfits
  rw [Nat.cast_zero] at hends hcollected
  rw [List.drop_zero] at hcollected
  have hnodup : keys.Nodup := (hpages 0).2.imp fun {a b} hlt heq => by
    subst heq
    simp at hlt
  exact ⟨n, hends, hcollected, hnodup⟩

/-- In every store that commands reach, an iteration without a pattern ends and delivers
every key once, exactly when no key has a slash. The readings of the pages are such that
no key expires between them, and every cursor plus the count of its page fits 64 bits. -/
theorem scan_enumerates_iff
    (halong : Machine.Along (receive go password clock) (Fitting go password clock) inputs (tick, ∅))
    {reached : List Received} (hreached : reached <+: inputs) (hmatch : StarMatches go)
    {pages : ℕ → Page} {counts : ℕ → ℤ} (hnow : ∀ i, IsInt64 (pages i).now)
    (hoptions : ∀ i, redisScanOptions go (text "*") 10 (pages i).options =
      .ok (some (text "*", counts i))) {keys : List Bytes}
    (hkeys : ∀ i, (run (embedded (pages i).now) (redisLogicalKeys go)
      (Machine.after (receive go password clock) reached (tick, ∅)).2).1 = .ok keys) :
    let s := (Machine.after (receive go password clock) reached (tick, ∅)).2
    (∀ i, (∀ j, 0 < j → j ≤ i → (scanned go pages (formatInt 0, s) j).1 ≠ formatInt 0) →
      ∀ cursor, redisParseNonNegative (scanned go pages (formatInt 0, s) i).1 = .ok cursor →
        IsInt64 (cursor + counts i)) →
    ((∃ n, Ends go pages (formatInt 0, s) n ∧
        ∀ key ∈ keys, (collected go pages (formatInt 0, s) n).count key = 1) ↔
      ∀ key ∈ keys, 47 ∉ key) := by
  intro s hfits
  obtain ⟨n, hends, hcollected, hnodup⟩ := exists_collected halong hreached hnow hoptions hkeys hfits
  rw [filter_star hmatch] at hcollected
  constructor
  · rintro ⟨n', hends', hcount⟩ key hkey
    obtain rfl := hends'.unique hends
    have hmem : key ∈ keys.filter fun key => decide (47 ∉ key) :=
      List.count_pos_iff.mp (by rw [← hcollected, hcount key hkey]; exact one_pos)
    exact of_decide_eq_true (List.mem_filter.mp hmem).2
  · intro hslash
    have hall : (keys.filter fun key => decide (47 ∉ key)) = keys :=
      List.filter_eq_self.mpr fun key hkey => decide_eq_true (hslash key hkey)
    refine ⟨n, hends, fun key hkey => ?_⟩
    rw [hcollected, hall]
    exact List.count_eq_one_of_mem hnodup hkey

end Completeness

/-- A runtime whose `path.Match` knows the glob `*`. -/
def starRuntime : GoRuntime where
  toUpper := id
  equalFold a b := a = b
  pathMatch pattern name := if pattern = text "*" then some (decide (47 ∉ name)) else none
  rangeOrder := id
  rangeOrder_perm := List.Perm.refl

theorem starMatches_starRuntime : StarMatches starRuntime := fun _ => by
  simp [starRuntime]

/-- A string under a name. -/
def setRequest (key : Bytes) : Received := ⟨⟨false, 1, 2⟩, [text "SET", key, []]⟩

/-- A key with a slash exists, and the first page is the last and has no keys. -/
theorem scan_misses_slash :
    let s := (Machine.after (receive starRuntime [] fun _ => 0) [setRequest (text "a/b")] (0, ∅)).2
    (run (embedded 0) (redisLogicalKeys starRuntime) s).1 = .ok [text "a/b"] ∧
      Ends starRuntime (fun _ => ⟨0, []⟩) (formatInt 0, s) 1 ∧
      collected starRuntime (fun _ => ⟨0, []⟩) (formatInt 0, s) 1 = [] := by
  intro s
  refine ⟨?_, ⟨one_pos, ?_, by omega⟩, ?_⟩
  · rfl
  · rfl
  · rfl

theorem fitting_setRequest {key : Bytes} {st : ℕ × Store} (hkey : key.length ≤ maxRESPBulk) :
    Fitting starRuntime [] (fun _ => 0) (setRequest key) st where
  deliverable := by
    refine ⟨show 3 ≤ maxRESPArgs by decide, fun arg hmem => ?_⟩
    simp only [setRequest, List.mem_cons, List.not_mem_nil, or_false] at hmem
    rcases hmem with rfl | rfl | rfl
    exacts [by decide, hkey, by decide]
  room _ command hcommand hpush := by
    have hset : commandOf starRuntime (setRequest key).args = some .set := rfl
    rw [hset] at hcommand
    cases hcommand
    simp at hpush

theorem along_setRequests {keys : List Bytes} (hkeys : ∀ key ∈ keys, key.length ≤ maxRESPBulk)
    {st : ℕ × Store} : Machine.Along (receive starRuntime [] fun _ => 0)
      (Fitting starRuntime [] fun _ => 0) (keys.map setRequest) st := by
  induction keys generalizing st with
  | nil => trivial
  | cons key keys ih =>
    rw [List.forall_mem_cons] at hkeys
    exact ⟨fitting_setRequest hkeys.1, ih hkeys.2⟩

/-- A page of one key. -/
def onePage : Page := ⟨0, [text "COUNT", text "1"]⟩

/-- Two keys without a slash, one on each of the two pages. -/
theorem scan_enumerates_two_keys :
    let s := (Machine.after (receive starRuntime [] fun _ => 0)
      ([text "a", text "b"].map setRequest) (0, ∅)).2
    ∃ n, Ends starRuntime (fun _ => onePage) (formatInt 0, s) n ∧
      ∀ key ∈ [text "a", text "b"],
        (collected starRuntime (fun _ => onePage) (formatInt 0, s) n).count key = 1 := by
  intro s
  have hoptions : ∀ _ : ℕ, redisScanOptions starRuntime (text "*") 10 onePage.options =
      .ok (some (text "*", 1)) := fun _ => by decide +kernel
  have hlast : (scanned starRuntime (fun _ => onePage) (formatInt 0, s) 2).1 = formatInt 0 := by
    decide +kernel
  refine (scan_enumerates_iff (along_setRequests (by decide)) List.prefix_rfl starMatches_starRuntime
    (fun _ => by decide) hoptions (fun _ => by decide +kernel)
    fun i hbefore cursor hparse => ?_).mpr (by decide)
  match i with
  | 0 =>
    obtain rfl : (0 : ℤ) = cursor := Except.ok.inj (hparse.symm.trans (by decide +kernel)).symm
    decide
  | 1 =>
    obtain rfl : (1 : ℤ) = cursor := Except.ok.inj (hparse.symm.trans (by decide +kernel)).symm
    decide
  | i + 2 => exact absurd hlast (hbefore 2 two_pos (by omega))

end KVLite.TypedMap
