import KVLite.Replies.ScanRange

/-!
# The `TYPE` option of `SCAN`

`SCAN` reads the value of a `TYPE` option and then forgets it: the page is cut from all keys
that match the pattern. A page therefore has only keys of the type that was asked for exactly
when the pattern matches no other key.
-/

namespace KVLite.Replies

open Semantics Fallible BigEndian Redis TypedMap

/-- The value of the last `TYPE` option. -/
def scanType (go : GoRuntime) : List Bytes → Option Bytes
  | option :: value :: rest =>
    match scanType go rest with
    | some typ => some typ
    | none => if go.toUpper option = text "TYPE" then some value else none
  | _ => none

/-- `TYPE key` replies with this type, in any case. -/
def TypeIs (go : GoRuntime) (now : ℤ) (s : Store) (key typ : Bytes) : Prop :=
  ∃ found, ((redisTypeCommand [text "TYPE", key]).run (embedded now) s).1 = .simpleString found ∧
    go.equalFold found typ = true

/-- The keys of the page that `SCAN` replies with. -/
def scanKeys (go : GoRuntime) (now : ℤ) (s : Store) (cursor : Bytes) (options : List Bytes) :
    List Bytes :=
  pageKeys ((redisScan go (text "SCAN" :: cursor :: options)).run (embedded now) s).1

/-- Every cursor plus the count of its page is a 64-bit integer, up to the end of the
iteration. -/
def CursorsFit (go : GoRuntime) (pages : ℕ → Page) (counts : ℕ → ℤ) (s : Store) : Prop :=
  ∀ i, (∀ j, 0 < j → j ≤ i → (scanned go pages (formatInt 0, s) j).1 ≠ formatInt 0) →
    ∀ cursor, redisParseNonNegative (scanned go pages (formatInt 0, s) i).1 = .ok cursor →
      IsInt64 (cursor + counts i)

/-- The key has the type that the options ask for, if they ask for one. -/
def HasType (go : GoRuntime) (now : ℤ) (s : Store) (options : List Bytes) (key : Bytes) : Prop :=
  ∀ typ ∈ scanType go options, TypeIs go now s key typ

/-- The keys of every page have the type and match the pattern, and an iteration delivers every
key of the type that matches once. -/
structure HonoursType (go : GoRuntime) (now : ℤ) (s : Store) (options keys : List Bytes)
    (pattern : Bytes) : Prop where
  page : ∀ cursor, ∀ key ∈ scanKeys go now s cursor options,
    HasType go now s options key ∧ redisPatternMatch go pattern key = true
  iteration : ∀ (pages : ℕ → Page) (counts : ℕ → ℤ), (∀ i, IsInt64 (pages i).now) →
    (∀ i, redisScanOptions go (text "*") 10 (pages i).options = .ok (some (pattern, counts i))) →
    (∀ i, scanType go (pages i).options = scanType go options) →
    (∀ i, (run (embedded (pages i).now) (redisLogicalKeys go) s).1 = .ok keys) →
    CursorsFit go pages counts s →
    ∃ n, Ends go pages (formatInt 0, s) n ∧
      ∀ key ∈ keys, HasType go now s options key → redisPatternMatch go pattern key = true →
        (collected go pages (formatInt 0, s) n).count key = 1

section Page

variable {go : GoRuntime} {now : ℤ} {s s' : Store} {options keys : List Bytes} {pattern : Bytes}
  {count : ℤ}

theorem mem_of_redisScanPage {filtered items : List Bytes} {cursor next : ℤ} {key : Bytes}
    (h : redisScanPage filtered cursor count = some (next, items)) (hkey : key ∈ items) :
    key ∈ filtered := by
  unfold redisScanPage at h
  split at h
  · cases h
    exact absurd hkey List.not_mem_nil
  · dsimp only at h
    generalize (if wrapInt64 (cursor + count) > filtered.length then (filtered.length : ℤ)
      else wrapInt64 (cursor + count)) = stop at h
    split at h
    · cases h
      exact List.mem_of_mem_drop (List.mem_of_mem_take hkey)
    · cases h

/-- The keys of a page match the pattern. -/
theorem mem_filtered_of_mem_page {cursor key : Bytes}
    (hoptions : redisScanOptions go (text "*") 10 options = .ok (some (pattern, count)))
    (hkeys : run (embedded now) (redisLogicalKeys go) s = (.ok keys, s'))
    (hkey : key ∈ scanKeys go now s cursor options) :
    key ∈ keys.filter (redisPatternMatch go pattern) := by
  rw [scanKeys] at hkey
  cases hcursor : redisParseNonNegative cursor with
  | error err =>
    have hreply : run (embedded now)
        (redisScanReply go (text "SCAN" :: cursor :: options)) s = (.error err, s) := by
      rw [redisScanReply, hcursor, run_bind_error (run_liftExcept _)]
    obtain ⟨message, hmessage⟩ := exists_redisErrorReply_eq err
    rw [redisScan, Program.run_bind, program_run, hreply, Program.run_pure,
      hmessage] at hkey
    exact absurd hkey List.not_mem_nil
  | ok at' =>
    rw [run_redisScan hcursor hoptions hkeys] at hkey
    cases hpage : redisScanPage (keys.filter (redisPatternMatch go pattern)) at' count with
    | none =>
      rw [hpage] at hkey
      exact absurd hkey List.not_mem_nil
    | some page =>
      rw [hpage, Option.map_some, pageKeys_bulks] at hkey
      exact mem_of_redisScanPage hpage hkey

/-- Every key that matches is in the page of some cursor. -/
theorem exists_page_of_mem {key : Bytes}
    (hoptions : redisScanOptions go (text "*") 10 options = .ok (some (pattern, count)))
    (hkeys : run (embedded now) (redisLogicalKeys go) s = (.ok keys, s'))
    (hlength : keys.length < 2 ^ 63) (hkey : key ∈ keys.filter (redisPatternMatch go pattern)) :
    ∃ cursor, key ∈ scanKeys go now s cursor options := by
  have hone := one_le_of_redisScanOptions (by decide) hoptions
  have hcount : IsInt64 count := by
    apply redisScanOptions_count (by decide) _ (by decide) hoptions
    intro data found hparse _
    exact isInt64_of_redisParseNonNegative hparse
  have hfiltered := List.length_filter_le (redisPatternMatch go pattern) keys
  generalize hfilter : keys.filter (redisPatternMatch go pattern) = filtered at hkey hfiltered
  obtain ⟨index, hindex, rfl⟩ := List.getElem_of_mem hkey
  -- The page that ends with the key, or the first page.
  obtain ⟨size, rfl⟩ := Int.eq_ofNat_of_zero_le (by omega : 0 ≤ count)
  have hsum : IsInt64 ((index + 1 - size : ℕ) + (size : ℤ)) := by
    unfold IsInt64 at hcount ⊢
    omega
  have hcursor : redisParseNonNegative (formatInt (index + 1 - size : ℕ)) =
      .ok ((index + 1 - size : ℕ) : ℤ) := redisParseNonNegative_formatInt (by omega)
  have hslice : filtered[index] ∈ (filtered.drop (index + 1 - size)).take size := by
    apply List.mem_iff_getElem.mpr
    refine ⟨index - (index + 1 - size), ?_, ?_⟩
    · rw [List.length_take, List.length_drop]
      omega
    · rw [List.getElem_take, List.getElem_drop]
      congr 1
      omega
  refine ⟨formatInt (index + 1 - size : ℕ), ?_⟩
  rw [scanKeys, run_redisScan hcursor hoptions hkeys, hfilter,
    redisScanPage_eq hone (.inl (by omega)) hsum, Option.map_some, pageKeys_bulks, pageAt]
  split
  · exact hslice
  · exact List.mem_of_mem_take hslice

end Page

section Option

variable {go : GoRuntime} {password : Bytes} {clock : ℕ → ℤ} {inputs : List Received} {tick : ℕ}

/-- In every store that commands reach, for all options: the pages of `SCAN` and its iterations
honour the type, if and only if every key that matches the pattern has it. -/
theorem scan_type_iff
    (halong : Machine.Along (receive go password clock) (Fitting go password clock) inputs (tick, ∅))
    {reached : List Received} (hreached : reached <+: inputs) {now : ℤ} {s : Store}
    (hs : s = (Machine.after (receive go password clock) reached (tick, ∅)).2)
    {options : List Bytes} {pattern : Bytes} {count : ℤ}
    (hoptions : redisScanOptions go (text "*") 10 options = .ok (some (pattern, count)))
    {keys : List Bytes} (hkeys : (run (embedded now) (redisLogicalKeys go) s).1 = .ok keys)
    (hlength : keys.length < 2 ^ 63) :
    HonoursType go now s options keys pattern ↔
      ∀ key ∈ keys, redisPatternMatch go pattern key = true → HasType go now s options key := by
  obtain ⟨s', hrun⟩ : ∃ s', run (embedded now) (redisLogicalKeys go) s = (.ok keys, s') :=
    ⟨_, Prod.ext hkeys rfl⟩
  constructor
  · intro h key hkey hmatch
    obtain ⟨cursor, hpage⟩ := exists_page_of_mem hoptions hrun hlength
      (List.mem_filter.mpr ⟨hkey, hmatch⟩)
    exact (h.page cursor key hpage).1
  · intro h
    refine ⟨fun cursor key hkey => ?_, ?_⟩
    · obtain ⟨hmem, hmatch⟩ := List.mem_filter.mp (mem_filtered_of_mem_page hoptions hrun hkey)
      exact ⟨h key hmem hmatch, hmatch⟩
    · intro pages counts hnows hpages _ hsame hfits
      subst hs
      obtain ⟨n, hends, hcollected, hnodup⟩ :=
        exists_collected halong hreached hnows hpages hsame hfits
      refine ⟨n, hends, fun key hkey _ hmatch => ?_⟩
      rw [hcollected]
      exact List.count_eq_one_of_mem (hnodup.filter _) (List.mem_filter.mpr ⟨hkey, hmatch⟩)

end Option

/-- The options that ask for lists. -/
def typeList : List Bytes := [text "TYPE", text "list"]

/-- The only key is a string, and the page of the lists has it. -/
theorem scan_ignores_type :
    let s := (Machine.after (receive starRuntime [] fun _ => 0) [TypedMap.setRequest (text "k")] (0, ∅)).2
    scanKeys starRuntime 0 s (text "0") typeList = [text "k"] ∧
      ((redisTypeCommand [text "TYPE", text "k"]).run (embedded 0) s).1 =
        .simpleString (text "string") ∧
      ¬ HonoursType starRuntime 0 s typeList [text "k"] (text "*") := by
  intro s
  have hpage : scanKeys starRuntime 0 s (text "0") typeList = [text "k"] := rfl
  have htype : ((redisTypeCommand [text "TYPE", text "k"]).run (embedded 0) s).1 =
      .simpleString (text "string") := rfl
  refine ⟨hpage, htype, fun h => ?_⟩
  obtain ⟨hhas, -⟩ := h.page (text "0") (text "k") (by rw [hpage]; exact List.mem_singleton_self _)
  obtain ⟨found, hfound, hequal⟩ := hhas (text "list") rfl
  rw [htype] at hfound
  obtain rfl := Resp.simpleString.inj hfound
  exact absurd hequal (by decide)

/-- The options that ask for strings, one on a page. -/
def typeString : List Bytes := [text "TYPE", text "string", text "COUNT", text "1"]

/-- Two strings, and the pages of the strings. -/
theorem scan_type_of_strings :
    let s := (Machine.after (receive starRuntime [] fun _ => 0)
      ([text "a", text "b"].map TypedMap.setRequest) (0, ∅)).2
    HonoursType starRuntime 0 s typeString [text "a", text "b"] (text "*") := by
  intro s
  have hoptions : redisScanOptions starRuntime (text "*") 10 typeString =
      .ok (some (text "*", 1)) := by decide +kernel
  refine (scan_type_iff (TypedMap.along_setRequests (by decide)) List.prefix_rfl rfl hoptions
    (by decide +kernel) (by decide)).mpr ?_
  intro key hkey _ typ htyp
  obtain rfl : typ = text "string" := (Option.some.inj htyp).symm
  refine ⟨text "string", ?_, by decide⟩
  rcases List.mem_pair.mp hkey with rfl | rfl <;> rfl

end KVLite.Replies
