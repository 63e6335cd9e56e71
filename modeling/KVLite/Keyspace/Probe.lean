import KVLite.Keyspace.Writes

/-!
# What the type probe finds

The probe looks at the kinds of a key in turn and may see a different clock reading at
every record. In a store where every key has records of one kind, the type it reports
is the kind that is left, and `none` is reported only for a key without records.
-/

namespace KVLite

open Semantics Fallible

section Rules

variable {α β : Type} {times : ℤ → Prop} {s : Store} {key value pre : Bytes}

/-- Two postconditions hold together: an execution of the embedded engine decides
only the clock readings. -/
theorem wp_embeddedAt_and {p : Program Calls α} {P Q : α → Store → Prop}
    (hP : p.wp (embeddedAt times) P s) (hQ : p.wp (embeddedAt times) Q s) :
    p.wp (embeddedAt times) (fun value s' => P value s' ∧ Q value s') s := by
  induction p generalizing s with
  | done value => exact ⟨hP, hQ⟩
  | call request rest ih =>
    cases request with
    | now => exact fun time htime => ih time (hP time htime) (hQ time htime)
    | _ => exact ih _ hP hQ

theorem ensures_and {x : Action α} {P Q : α → Store → Prop} {F G : GoError → Store → Prop}
    (hP : Ensures (embeddedAt times) x s P F)
    (hQ : Ensures (embeddedAt times) x s Q G) :
    Ensures (embeddedAt times) x s (fun value s' => P value s' ∧ Q value s')
      (fun err s' => F err s' ∧ G err s') := by
  refine Program.wp_mono (fun result s' h => ?_) (wp_embeddedAt_and hP hQ)
  cases result <;> exact h

variable {fail : GoError → Store → Prop}

theorem ensures_get {post : Option Bytes → Store → Prop} :
    Ensures (embeddedAt times) (Transport.get key) s post fail ↔ post s[key]? s := Iff.rfl

theorem ensures_put {post : Unit → Store → Prop} :
    Ensures (embeddedAt times) (Transport.put key value) s post fail ↔
      post () (s.insert key value) := Iff.rfl

theorem ensures_delete {post : Unit → Store → Prop} :
    Ensures (embeddedAt times) (Transport.delete key) s post fail ↔
      post () (s.erase key) := Iff.rfl

theorem ensures_scanPrefix {post : Scanned → Store → Prop} :
    Ensures (embeddedAt times) (Transport.scanPrefix pre) s post fail ↔
      post (s.scan pre, none) s := Iff.rfl

theorem ensures_scanAll {post : List (Bytes × Bytes) → Store → Prop} :
    Ensures (embeddedAt times) (Transport.scanAll pre) s post fail ↔
      post (s.scan pre) s := Iff.rfl

theorem ensures_now {post : ℤ → Store → Prop} :
    Ensures (embeddedAt times) now s post fail ↔ ∀ time, times time → post time s :=
  Iff.rfl

/-- A test of the clock can go either way. -/
theorem ensures_expiredNow {expiresAt : ℤ} {post : Bool → Store → Prop}
    (h : ∀ expired, post expired s) :
    Ensures (embeddedAt times) (expiredNow expiresAt) s post fail := by
  unfold expiredNow
  split
  · exact fun time _ => h _
  · exact h _

theorem ensures_unixNano {post : ℤ → Store → Prop} (h : ∀ time, post time s) :
    Ensures (embeddedAt times) Redis.unixNano s post fail := fun _ _ => h _

theorem ensures_liftExcept {x : Except GoError α} {post : α → Store → Prop}
    (hok : ∀ value, x = .ok value → post value s) (herror : ∀ err, fail err s) :
    Ensures (embeddedAt times) (liftExcept x) s post fail := by
  cases x with
  | ok value => exact hok value rfl
  | error err => exact herror err

theorem ensures_deleteEach {keys : List Bytes} {post : Unit → Store → Prop}
    (h : post () (s.eraseAll keys)) :
    Ensures (embeddedAt times) (Transport.deleteEach keys) s post fail := by
  induction keys generalizing s with
  | nil => exact h
  | cons key keys ih => exact .seq (ensures_delete.mpr (ih h))

theorem ensures_redisDeleteRaw {post : Bool → Store → Prop}
    (h : ∀ found, post found (s.without key)) :
    Ensures (embeddedAt times) (Redis.redisDeleteRaw key) s post fail := by
  refine (ensures_bind ensureOpen _).mpr ?_
  refine (ensures_deleteLogicalKey key).mono ?_ (fun _ _ => False.elim)
  rintro found s' rfl
  exact h found

end Rules

/-! ### The probes -/

/-- A probe for a kind of a key: it writes nothing, and what it reports holds in the
store it leaves. -/
structure Probes (times : ℤ → Prop) (key : Bytes) (kind : Kind) (x : Action Bool) : Prop where
  puts : Puts (fun _ => False) x
  finds : ∀ s, OneKind s → Ensures (embeddedAt times) x s
    (fun found s' => if found then HasKind s' key kind else ¬ HasKind s' key kind)
    (fun _ _ => True)

section Probes

variable {times : ℤ → Prop} {s : Store} (key : Bytes)

theorem not_hasKind_of_noRecordOf {key : Bytes} {kind : Kind} (h : NoRecordOf key s) :
    ¬ HasKind s key kind := by
  rintro ⟨storageKey, data, howns, hget⟩
  rw [h _ howns.recordOf] at hget
  cases hget

theorem probes_probeValue : Probes times key .value (Redis.probeValue key) := by
  refine ⟨Redis.uses_probeValue key, fun s _ => ?_⟩
  unfold Redis.probeValue
  rw [ensures_bind, ensures_get]
  cases hget : s[valueKey key]? with
  | none =>
    rintro ⟨_, data, rfl, hdata⟩
    rw [hget] at hdata
    cases hdata
  | some data =>
    simp only
    rw [ensures_bind]
    refine ensures_liftExcept (fun value _ => ?_) (fun _ => trivial)
    rw [ensures_bind]
    refine ensures_expiredNow fun expired => ?_
    cases expired with
    | false => exact ⟨_, data, rfl, hget⟩
    | true =>
      refine .seq (ensures_ignoringError (ensures_delete.mpr ?_))
      rintro ⟨_, data, rfl, hdata⟩
      rw [Store.getElem?_erase, if_pos rfl] at hdata
      cases hdata

/-- The hash probe's callback leaves out of the expired keys one that it found live. -/
theorem ensures_probeFields {fail : GoError → Store → Prop} (hfail : ∀ err, fail err s)
    (records : List (Bytes × Bytes)) (hnodup : (records.map Prod.fst).Nodup) :
    Ensures (embeddedAt times) (Redis.probeFields records) s
      (fun result s' => s' = s ∧ result.2 ⊆ records.map Prod.fst ∧
        if result.1 then ∃ record ∈ records, record.1 ∉ result.2
        else result.2 = records.map Prod.fst) fail := by
  induction records with
  | nil => exact ⟨rfl, List.Subset.refl _, rfl⟩
  | cons record records ih =>
    obtain ⟨storageKey, data⟩ := record
    rw [List.map_cons, List.nodup_cons] at hnodup
    unfold Redis.probeFields
    rw [ensures_bind]
    refine ensures_liftExcept (fun value _ => ?_) hfail
    rw [ensures_bind]
    refine ensures_expiredNow fun expired => ?_
    cases expired with
    | true =>
      refine .seq ((ih hnodup.2).mono ?_ fun _ _ h => h)
      rintro ⟨found, keys⟩ s' ⟨rfl, hsubset, hfound⟩
      refine ⟨rfl, List.cons_subset_cons _ hsubset, ?_⟩
      cases found with
      | true =>
        obtain ⟨record, hrecord, hnot⟩ := hfound
        refine ⟨record, List.mem_cons_of_mem _ hrecord, ?_⟩
        rw [List.mem_cons, not_or]
        exact ⟨fun heq => hnodup.1 (List.mem_map.mpr ⟨record, hrecord, heq⟩), hnot⟩
      | false => exact congrArg (storageKey :: ·) hfound
    | false =>
      refine .seq ((ih hnodup.2).mono ?_ fun _ _ h => h)
      rintro ⟨found, keys⟩ s' ⟨rfl, hsubset, -⟩
      exact ⟨rfl, List.subset_cons_of_subset _ hsubset, (storageKey, data), List.mem_cons_self,
        fun hmem => hnodup.1 (hsubset hmem)⟩

theorem probes_probeHash : Probes times key .hash (Redis.probeHash key) := by
  refine ⟨Redis.uses_probeHash key, fun s _ => ?_⟩
  unfold Redis.probeHash
  rw [ensures_bind, ensures_scanPrefix, ensures_bind]
  refine (ensures_probeFields (fun _ => trivial) _ (s.nodup_map_fst_scan _)).mono ?_
    fun _ _ h => h
  rintro ⟨found, expired⟩ s' ⟨rfl, -, hfound⟩
  refine .seq (ensures_deleteEach ?_)
  cases found with
  | true =>
    obtain ⟨record, hrecord, hnot⟩ := hfound
    obtain ⟨hpre, hget⟩ := Store.mem_scan.mp hrecord
    exact ⟨record.1, record.2, hpre, by rw [Store.getElem?_eraseAll, if_neg hnot, hget]⟩
  | false =>
    simp only [Bool.false_eq_true, if_false] at hfound ⊢
    split
    · exact .seq
        (ensures_redisDeleteRaw fun _ => not_hasKind_of_noRecordOf (Store.noRecordOf_without _ _))
    · -- Every field had expired, and all of them are gone.
      rintro ⟨storageKey, data, hpre, hget⟩
      rw [Store.getElem?_eraseAll] at hget
      split at hget
      · cases hget
      · next hmem =>
        rw [hfound, Store.mem_map_fst_scan] at hmem
        exact hmem ⟨hpre, by simp [hget]⟩

theorem probes_probeSet : Probes times key .set (Redis.probeSet key) := by
  refine ⟨Redis.uses_probeSet key, fun s _ => ?_⟩
  unfold Redis.probeSet
  rw [ensures_bind, ensures_scanAll, ensures_pure]
  cases hscan : s.scan (namespacePrefix kindSet key) with
  | nil =>
    rintro ⟨storageKey, data, hpre, hget⟩
    rw [Store.scan_eq_nil_iff.mp hscan storageKey hpre] at hget
    cases hget
  | cons record records =>
    obtain ⟨hpre, hget⟩ := Store.mem_scan.mp (hscan ▸ List.mem_cons_self)
    exact ⟨record.1, record.2, hpre, hget⟩

theorem probes_probeList : Probes times key .list (Redis.probeList key) := by
  refine ⟨Redis.uses_probeList key, fun s _ => ?_⟩
  unfold Redis.probeList
  rw [ensures_bind, ensures_get]
  cases hget : s[listKey key]? with
  | none =>
    rintro ⟨_, data, rfl, hdata⟩
    rw [hget] at hdata
    cases hdata
  | some data =>
    simp only
    rw [ensures_bind]
    refine ensures_liftExcept (fun items _ => ?_) (fun _ => trivial)
    split
    · exact ⟨_, data, rfl, hget⟩
    · refine .seq (ensures_ignoringError ?_)
      exact ensures_redisDeleteRaw fun _ =>
        not_hasKind_of_noRecordOf (Store.noRecordOf_without _ _)

end Probes

/-! ### The type of a key -/

/-- A key of the type can take a record of the kind. -/
def Redis.RedisType.Allows : Redis.RedisType → Kind → Prop
  | .none, _ => True
  | .string, kind => kind = .value
  | .hash, kind => kind = .hash
  | .set, kind => kind = .set
  | .list, kind => kind = .list

/-- The key is fit for every kind its type allows. -/
def FitsType (s : Store) (key : Bytes) (typ : Redis.RedisType) : Prop :=
  ∀ kind, typ.Allows kind → Fits s key kind

section TypeOf

variable {times : ℤ → Prop} {s : Store} {key : Bytes}

/-- One step of the probe: a kind that is found decides the type, and one that is not
found is known to be absent in what follows. -/
theorem ensures_probe {kind : Kind} {x : Action Bool} {rest : Action Redis.RedisType}
    {typ : Redis.RedisType} {I : Store → Prop} (hx : Probes times key kind x)
    (htyp : ∀ kind', typ.Allows kind' → kind' = kind) (herase : ∀ s r, I s → I (s.erase r))
    (honeKind : ∀ s, I s → OneKind s)
    (hrest : ∀ s, I s → ¬ HasKind s key kind →
      Ensures (embeddedAt times) rest s (fun typ s' => FitsType s' key typ)
        (fun _ => OneKind)) (hs : I s) :
    Ensures (embeddedAt times)
      (x >>= fun found => if found = true then pure typ else rest) s
      (fun typ s' => FitsType s' key typ) (fun _ => OneKind) := by
  rw [ensures_bind]
  refine (ensures_and (ensures_of_writesNothing herase hx.puts hs)
    (hx.finds s (honeKind s hs))).mono ?_ fun _ s' h => honeKind s' h.1
  rintro found s' ⟨hI, hfound⟩
  cases found with
  | true =>
    intro kind' hallows
    rw [htyp kind' hallows]
    exact (honeKind s' hI).fits hfound
  | false => exact hrest s' hI hfound

theorem ensures_redisKeyExpired (hs : OneKind s) :
    Ensures (embeddedAt times) (Redis.redisKeyExpired key) s
      (fun expired s' => OneKind s' ∧ (expired = true → NoRecordOf key s'))
      (fun _ => OneKind) := by
  unfold Redis.redisKeyExpired Redis.redisMetadataExpiry
  rw [ensures_bind, ensures_bind, ensures_get]
  cases s[collectionTTLKey key]? with
  | none => exact ⟨hs, Bool.noConfusion⟩
  | some data =>
    dsimp only
    split
    · exact hs
    · rw [ensures_pure]
      refine .seq (ensures_unixNano fun time => ?_)
      split
      · exact ⟨hs, Bool.noConfusion⟩
      · refine .seq (ensures_redisDeleteRaw fun found => ?_)
        exact ⟨hs.without key, fun _ => Store.noRecordOf_without _ _⟩

/-- After a probe, the key is fit for records of the reported type. -/
theorem ensures_redisType (hs : OneKind s) :
    Ensures (embeddedAt times) (Redis.redisType key) s
      (fun typ s' => FitsType s' key typ) (fun _ => OneKind) := by
  unfold Redis.redisType
  rw [ensures_bind]
  refine (ensures_redisKeyExpired hs).mono ?_ fun _ _ h => h
  rintro expired s' ⟨hs', hexpired⟩
  cases expired with
  | true => exact fun kind _ => hs'.fits_of_noRecordOf (hexpired rfl) kind
  | false =>
    -- Absence is collected kind by kind, as the probe goes through them.
    have habsent : ∀ (s : Store) (kind : Kind) r, ¬ HasKind s key kind →
        ¬ HasKind (s.erase r) key kind := fun _ _ _ h herased => h herased.of_erase
    refine ensures_probe (I := OneKind) (probes_probeValue key) (fun _ h => h)
      (fun _ _ h => h.erase) (fun _ h => h) (fun s hs hvalue => ?_) hs'
    refine ensures_probe (I := fun s => OneKind s ∧ ¬ HasKind s key .value)
      (probes_probeHash key) (fun _ h => h) (fun _ _ h => ⟨h.1.erase, habsent _ _ _ h.2⟩)
      (fun _ h => h.1) (fun s hs hhash => ?_) ⟨hs, hvalue⟩
    refine ensures_probe
      (I := fun s => OneKind s ∧ ¬ HasKind s key .value ∧ ¬ HasKind s key .hash)
      (probes_probeSet key) (fun _ h => h)
      (fun _ _ h => ⟨h.1.erase, habsent _ _ _ h.2.1, habsent _ _ _ h.2.2⟩)
      (fun _ h => h.1) (fun s hs hset => ?_) ⟨hs.1, hs.2, hhash⟩
    refine ensures_probe (I := fun s => OneKind s ∧ ¬ HasKind s key .value ∧
        ¬ HasKind s key .hash ∧ ¬ HasKind s key .set)
      (probes_probeList key) (fun _ h => h)
      (fun _ _ h => ⟨h.1.erase, habsent _ _ _ h.2.1, habsent _ _ _ h.2.2.1,
        habsent _ _ _ h.2.2.2⟩)
      (fun _ h => h.1) (fun s hs hlist => ?_) ⟨hs.1, hs.2.1, hs.2.2, hset⟩
    intro kind _
    refine ⟨hs.1, fun kind' _ => ?_⟩
    cases kind' with
    | value => exact hs.2.1
    | hash => exact hs.2.2.1
    | set => exact hs.2.2.2
    | list => exact hlist

end TypeOf

end KVLite
