import KVLite.Keyspace.Probe
import KVLite.Semantics.FailSafe

/-!
# Redis commands keep one kind of records per key

A Redis command writes records of a type that its probe found, or after it has removed
the key, so it leads from stores with one kind of records per key to such stores.
-/

namespace KVLite

open Semantics Fallible

/-- The code leads from stores with one kind of records per key to such stores, however
the clock goes. -/
abbrev Preserves {α : Type} (times : ℤ → Prop) (x : Action α) : Prop :=
  Keeps (embeddedAt times) OneKind x

section Preserves

variable {α β : Type} {times : ℤ → Prop} {key : Bytes} {kind : Kind}

/-- Code that writes nothing. -/
theorem Preserves.of_puts {x : Action α} (hx : Puts (fun _ => False) x) : Preserves times x :=
  fun _ hs => ensures_of_writesNothing (fun _ _ => OneKind.erase) hx hs

/-- Code that writes only records of one kind of a key, where `x` has made them fit. -/
theorem Preserves.of_fits {x : Action α} {f : α → Action β}
    (hx : ∀ s, OneKind s → Ensures (embeddedAt times) x s
      (fun _ s' => Fits s' key kind) (fun _ => OneKind))
    (hf : ∀ value, Puts (Belongs key kind) (f value)) : Preserves times (x >>= f) := fun s hs =>
  .seq ((hx s hs).mono
    (fun value _ hfits => (hfits.ensures (hf value)).mono (fun _ _ h => h.oneKind) fun _ _ h => h)
    fun _ _ h => h)

/-- A probe followed by code that writes what the found type allows. -/
theorem Preserves.redisType_bind {f : Redis.RedisType → Action β}
    (hf : ∀ typ, ∃ kind, typ.Allows kind ∧ Puts (Belongs key kind) (f typ)) :
    Preserves times (Redis.redisType key >>= f) := fun s hs => by
  refine .seq ((ensures_redisType hs).mono ?_ fun _ _ h => h)
  intro typ s' hfits
  obtain ⟨kind, hallows, hputs⟩ := hf typ
  exact ((hfits kind hallows).ensures hputs).mono (fun _ _ h => h.oneKind) fun _ _ h => h

/-- A probe followed by code that writes records of one kind, or fails for a key of
another type, leaves the key fit for that kind. -/
theorem ensures_fits_of_redisType {f : Redis.RedisType → Action β}
    (hallowed : ∀ typ, typ.Allows kind → Puts (Belongs key kind) (f typ))
    (hother : ∀ typ, ¬ typ.Allows kind → ∃ err, f typ = throw err) (s : Store) (hs : OneKind s) :
    Ensures (embeddedAt times) (Redis.redisType key >>= f) s
      (fun _ s' => Fits s' key kind) (fun _ => OneKind) := by
  refine .seq ((ensures_redisType hs).mono ?_ fun _ _ h => h)
  intro typ s' hfits
  by_cases hallows : typ.Allows kind
  · exact (hfits kind hallows).ensures (hallowed typ hallows)
  · obtain ⟨err, herr⟩ := hother typ hallows
    rw [herr]
    -- Every type allows some kind, so the store is in order.
    cases typ with
    | none => exact absurd trivial hallows
    | string => exact (hfits .value rfl).oneKind
    | hash => exact (hfits .hash rfl).oneKind
    | set => exact (hfits .set rfl).oneKind
    | list => exact (hfits .list rfl).oneKind

/-- The removal of a key followed by code that writes records of one kind of it. -/
theorem Preserves.redisDeleteRaw_bind {f : Bool → Action β}
    (hf : ∀ found, Puts (Belongs key kind) (f found)) :
    Preserves times (Redis.redisDeleteRaw key >>= f) :=
  .of_fits (fun _ hs => ensures_redisDeleteRaw fun _ =>
    (hs.without key).fits_of_noRecordOf (Store.noRecordOf_without _ _) kind) hf

end Preserves

/-! ### Writers -/

namespace Redis

variable {times : ℤ → Prop} {P : Call → Prop} [Passive P] {key : Bytes}

theorem uses_putPayload {storageKey codec payload : Bytes} {ttl : ℤ}
    (h : ∀ data, P (.put storageKey data)) :
    Uses P (putPayload storageKey codec payload ttl) :=
  (Passive.deadlineAfter ttl).bind fun _ => (Passive.liftExcept _).bind fun _ =>
    Transport.uses_put (h _)

theorem uses_redisWriteStringWithCodec {payload codec : Bytes} {expiresAt : ℤ}
    (h : ∀ data, P (.put (valueKey key) data)) :
    Uses P (redisWriteStringWithCodec key payload codec expiresAt) :=
  .ite ((uses_putPayload h).bind fun _ => Transport.uses_delete _) <|
    Passive.now.bind fun _ =>
      .ite ((uses_redisDeleteRaw key).bind fun _ => trivial) (uses_putPayload h)

theorem uses_redisWriteString {payload : Bytes} {expiresAt : ℤ}
    (h : ∀ data, P (.put (valueKey key) data)) :
    Uses P (redisWriteString key payload expiresAt) := uses_redisWriteStringWithCodec h

theorem uses_redisWriteList {items : List Bytes} (h : P (.put (listKey key) (encodeList items))) :
    Uses P (redisWriteList key items) :=
  .ite ((uses_redisDeleteRaw key).bind fun _ => trivial) (Transport.uses_put h)

theorem preserves_redisDeleteAndWriteString {payload : Bytes} {expiresAt : ℤ} :
    Preserves times (redisDeleteAndWriteString key payload expiresAt) :=
  .redisDeleteRaw_bind fun _ => uses_redisWriteString fun _ => belongs_valueKey

theorem ensures_redisString (s : Store) (hs : OneKind s) :
    Ensures (embeddedAt times) (redisString key) s
      (fun _ s' => Fits s' key .value) (fun _ => OneKind) := by
  refine ensures_fits_of_redisType (fun typ _ => ?_) (fun typ hnot => ?_) s hs
  · cases typ with
    | string =>
      refine (Transport.uses_get _).bind fun found => ?_
      cases found with
      | none => trivial
      | some data =>
        exact (Passive.liftExcept _).bind fun value => (Passive.expiredNow _).bind fun _ =>
          .ite ((uses_redisDeleteRaw key).ignoringError.bind fun _ => trivial) trivial
    | _ => trivial
  · cases typ with
    | none => exact absurd trivial hnot
    | string => exact absurd rfl hnot
    | _ => exact ⟨_, rfl⟩

theorem ensures_redisHashField (field : Bytes) (s : Store) (hs : OneKind s) :
    Ensures (embeddedAt times) (redisHashField key field) s
      (fun _ s' => Fits s' key .hash) (fun _ => OneKind) := by
  refine ensures_fits_of_redisType (fun typ _ => ?_) (fun typ hnot => ?_) s hs
  · cases typ with
    | hash =>
      refine (Transport.uses_get _).bind fun found => ?_
      cases found with
      | none => trivial
      | some data =>
        exact (Passive.liftExcept _).bind fun value => (Passive.expiredNow _).bind fun _ =>
          .ite ((Transport.uses_delete _).ignoringError.bind fun _ => trivial) trivial
    | _ => trivial
  · cases typ with
    | none => exact absurd trivial hnot
    | hash => exact absurd rfl hnot
    | _ => exact ⟨_, rfl⟩

theorem ensures_redisList (s : Store) (hs : OneKind s) :
    Ensures (embeddedAt times) (redisList key) s
      (fun _ s' => Fits s' key .list) (fun _ => OneKind) := by
  refine ensures_fits_of_redisType (fun typ _ => ?_) (fun typ hnot => ?_) s hs
  · cases typ with
    | list =>
      refine (Transport.uses_get _).bind fun found => ?_
      cases found with
      | none => trivial
      | some data => exact (Passive.liftExcept _).bind fun _ => trivial
    | _ => trivial
  · cases typ with
    | none => exact absurd trivial hnot
    | list => exact absurd rfl hnot
    | _ => exact ⟨_, rfl⟩

theorem ensures_redisListValues (s : Store) (hs : OneKind s) :
    Ensures (embeddedAt times) (redisListValues key) s
      (fun _ s' => Fits s' key .list) (fun _ => OneKind) := by
  refine .seq ((ensures_redisList s hs).mono ?_ fun _ _ h => h)
  intro found s' hfits
  refine hfits.ensures ?_
  cases found with
  | none => trivial
  | some items =>
    exact (uses_redisLiveItems items).bind fun _ =>
      .ite ((uses_redisWriteList belongs_listKey).bind fun _ => trivial) trivial

theorem preserves_redisListValues : Preserves times (redisListValues key) := fun s hs =>
  (ensures_redisListValues s hs).mono (fun _ _ h => h.oneKind) fun _ _ h => h

/-! ### Commands on strings and deadlines -/

/-- The command keeps every key at one kind of records. -/
def PreservesReply (times : ℤ → Prop) {α : Type} (p : Program Calls α) : Prop :=
  ∀ s, OneKind s → p.wp (embeddedAt times) (fun _ => OneKind) s

theorem PreservesReply.pure {α : Type} (value : α) :
    PreservesReply times (Pure.pure value : Program Calls α) := fun _ hs => hs

theorem PreservesReply.map {α β : Type} {f : α → β} {p : Program Calls α}
    (hp : PreservesReply times p) : PreservesReply times (f <$> p) := fun s hs => by
  rw [map_eq_pure_bind]
  exact (Program.wp_bind _ _ _ _).mpr (hp s hs)

theorem preservesReply_replying {x : Action Resp} (hx : Preserves times x) :
    PreservesReply times (replying x) := fun s hs => by
  refine (Program.wp_bind _ _ _ _).mpr (Program.wp_mono (fun result s' h => ?_) (hx s hs))
  cases result <;> exact h

theorem preserves_redisSetExpiry {expiresAt : ℤ} :
    Preserves times (redisSetExpiry key expiresAt) := by
  refine .redisType_bind fun typ => ?_
  cases typ with
  | string =>
    refine ⟨.value, rfl, uses_unixNano.bind fun _ =>
      .ite ((uses_redisDeleteRaw key).bind fun _ => trivial) ?_⟩
    refine (Transport.uses_get _).bind fun found => ?_
    cases found with
    | none => trivial
    | some data =>
      exact (Passive.liftExcept _).bind fun value =>
        (uses_redisWriteStringWithCodec fun _ => belongs_valueKey).bind fun _ =>
          (Transport.uses_delete _).ignoringError.bind fun _ => trivial
  | none => exact ⟨.value, trivial, trivial⟩
  | hash | set | list =>
    refine ⟨_, rfl, uses_unixNano.bind fun _ =>
      .ite ((uses_redisDeleteRaw key).bind fun _ => trivial) ?_⟩
    exact (Transport.uses_put belongs_collectionTTLKey).bind fun _ => trivial

theorem preserves_redisPersist : Preserves times (redisPersist key) := by
  refine .redisType_bind fun typ => ?_
  cases typ with
  | none => exact ⟨.value, trivial, trivial⟩
  | string =>
    refine ⟨.value, rfl, (uses_redisExpiry key).bind fun deadline => ?_⟩
    cases deadline with
    | none => trivial
    | some _ =>
      refine (Transport.uses_get _).bind fun found => ?_
      cases found with
      | none => trivial
      | some data =>
        exact (Passive.liftExcept _).bind fun value =>
          (uses_putPayload fun _ => belongs_valueKey).bind fun _ => trivial
  | hash | set | list =>
    refine ⟨_, rfl, (uses_redisExpiry key).bind fun deadline => ?_⟩
    cases deadline with
    | none => trivial
    | some _ => exact (Transport.uses_delete _).bind fun _ => trivial

theorem uses_redisSetDeadline (option amount : Bytes) :
    Uses P (redisSetDeadline option amount) :=
  (Passive.liftExcept _).bind fun _ => .ite trivial <| .ite trivial <|
    uses_unixNano.bind fun _ => .ite trivial trivial

theorem uses_redisSetOptions (go : GoRuntime) (options : SetOptions) (args : List Bytes) :
    Uses P (redisSetOptions go options args) := by
  fun_induction redisSetOptions go options args with
  | case1 => trivial
  | _ => first
    | assumption
    | trivial
    | exact (uses_redisSetDeadline _ _).bind (by assumption)

theorem preserves_redisSetWith {payload : Bytes} {options : SetOptions} :
    Preserves times (redisSetWith key payload options) := by
  refine (Preserves.of_puts (uses_redisType key)).bind fun typ =>
    .ite (.pure _) (.ite (.pure _) ?_)
  refine (Preserves.of_puts ?_).bind fun old => (Preserves.of_puts ?_).bind fun expiresAt =>
    preserves_redisDeleteAndWriteString.bind fun _ => .pure _
  · refine .ite ((uses_redisString key).bind fun value => ?_) trivial
    cases value <;> trivial
  · exact .ite ((uses_redisExpiry key).bind fun _ => trivial) trivial

theorem preservesReply_redisSet (go : GoRuntime) (args : List Bytes) :
    PreservesReply times (redisSet go args) := by
  refine preservesReply_replying ?_
  split
  · exact (Preserves.of_puts (uses_redisSetOptions go _ _)).bind fun _ => preserves_redisSetWith
  · exact .pure _

theorem preservesReply_redisSetNX (args : List Bytes) :
    PreservesReply times (redisSetNX args) := by
  refine preservesReply_replying ?_
  split
  · refine .redisType_bind fun typ => ?_
    cases typ with
    | none => exact ⟨.value, trivial, (uses_redisWriteString fun _ => belongs_valueKey).bind fun _ => trivial⟩
    | _ => exact ⟨_, rfl, trivial⟩
  · exact .pure _

theorem preservesReply_redisSetEX (milliseconds : Bool) (args : List Bytes) :
    PreservesReply times (redisSetEX milliseconds args) := by
  refine preservesReply_replying ?_
  split
  · split
    · exact .throw _
    · exact .ite (.throw _) <| (Preserves.of_puts uses_unixNano).bind fun _ =>
        .ite (.throw _) (preserves_redisDeleteAndWriteString.bind fun _ => .pure _)
  · exact .pure _

theorem preservesReply_redisGetSet (args : List Bytes) :
    PreservesReply times (redisGetSet args) := by
  refine preservesReply_replying ?_
  split
  · exact (Preserves.of_puts (uses_redisString _)).bind fun _ =>
      preserves_redisDeleteAndWriteString.bind fun _ => .pure _
  · exact .pure _

theorem uses_redisMGetLoop (keys : List Bytes) : Uses P (redisMGetLoop keys) := by
  induction keys with
  | nil => trivial
  | cons key keys ih => exact (uses_redisString key).bind fun _ => ih.bind fun _ => trivial

theorem preserves_redisMSetLoop (pairs : List (Bytes × Bytes)) :
    Preserves times (redisMSetLoop pairs) := by
  induction pairs with
  | nil => exact .pure _
  | cons pair pairs ih => exact preserves_redisDeleteAndWriteString.bind fun _ => ih

theorem preservesReply_redisMSet (args : List Bytes) : PreservesReply times (redisMSet args) := by
  refine preservesReply_replying ?_
  split
  · exact (preserves_redisMSetLoop _).bind fun _ => .pure _
  · exact .pure _

/-- After the first loop of `MSETNX` every key is fit for a value. -/
theorem ensures_redisAllAbsent (pairs : List (Bytes × Bytes)) (I : Store → Prop)
    (herase : ∀ s r, I s → I (s.erase r)) (s : Store) (hs : OneKind s) (hI : I s) :
    Ensures (embeddedAt times) (redisAllAbsent pairs) s
      (fun absent s' => OneKind s' ∧ I s' ∧
        (absent = true → ∀ pair ∈ pairs, Fits s' pair.1 .value)) (fun _ => OneKind) := by
  induction pairs generalizing s I with
  | nil => exact ⟨hs, hI, fun _ _ hmem => by cases hmem⟩
  | cons pair pairs ih =>
    obtain ⟨key, value⟩ := pair
    refine .seq ?_
    refine (ensures_and (ensures_redisType hs)
      (ensures_of_writesNothing herase (uses_redisType key) hI)).mono ?_ fun _ _ h => h.1
    rintro typ s' ⟨hfits, hI'⟩
    have hkinds : OneKind s' := by
      cases typ with
      | none => exact (hfits .value trivial).oneKind
      | _ => exact (hfits _ rfl).oneKind
    by_cases htyp : typ = .none
    · subst htyp
      -- The fitness of this key is carried through the probes of the others.
      refine (ih (fun s => I s ∧ Fits s key .value)
        (fun s r h => ⟨herase s r h.1, h.2.erase⟩) s' hkinds ⟨hI', hfits .value trivial⟩).mono ?_
        fun _ _ h => h
      rintro absent s'' ⟨hkinds'', ⟨hI'', hfits''⟩, hrest⟩
      refine ⟨hkinds'', hI'', fun habsent pair hmem => ?_⟩
      rcases List.mem_cons.mp hmem with rfl | hmem
      · exact hfits''
      · exact hrest habsent pair hmem
    · rw [if_pos htyp]
      exact ⟨hkinds, hI', Bool.noConfusion⟩

/-- The second loop of `MSETNX` writes values where they fit. -/
theorem ensures_redisWriteStrings (pairs : List (Bytes × Bytes)) (s : Store) (hs : OneKind s)
    (hfits : ∀ pair ∈ pairs, Fits s pair.1 .value) :
    Ensures (embeddedAt times) (redisWriteStrings pairs) s (fun _ => OneKind)
      (fun _ => OneKind) := by
  induction pairs generalizing s with
  | nil => exact hs
  | cons pair pairs ih =>
    obtain ⟨key, value⟩ := pair
    refine .seq ?_
    have hkey := hfits (key, value) List.mem_cons_self
    -- A value of this key takes nothing from the other keys' fitness.
    refine (ensures_of_writes (R := fun storageKey _ => Belongs key .value storageKey)
      (I := fun s => Fits s key .value ∧ ∀ pair ∈ pairs, Only s pair.1 .value) ?_ ?_
      (uses_redisWriteString fun _ => belongs_valueKey)
      ⟨hkey, fun pair hmem => (hfits pair (List.mem_cons_of_mem _ hmem)).only⟩).mono ?_
      fun _ _ h => h.1.oneKind
    · exact fun s r h => ⟨h.1.erase, fun pair hmem => (h.2 pair hmem).erase⟩
    · exact fun s r data hbelongs h => ⟨h.1.insert hbelongs,
        fun pair hmem => (h.2 pair hmem).insert hbelongs⟩
    · exact fun _ s' h => ih s' h.1.oneKind fun pair hmem => ⟨h.1.oneKind, h.2 pair hmem⟩

theorem preservesReply_redisMSetNX (args : List Bytes) :
    PreservesReply times (redisMSetNX args) := by
  refine preservesReply_replying ?_
  split
  · next pair pairs _ =>
    intro s hs
    refine .seq ?_
    refine (ensures_redisAllAbsent (pair :: pairs) (fun _ => True) (fun _ _ _ => trivial) s hs
      trivial).mono ?_ fun _ _ h => h
    rintro absent s' ⟨hs', -, hfits⟩
    cases absent with
    | true =>
      exact .seq (ensures_redisWriteStrings _ s' hs' (hfits rfl))
    | false => exact hs'
  · exact .pure _

theorem preservesReply_redisAppend (args : List Bytes) :
    PreservesReply times (redisAppend args) := by
  refine preservesReply_replying ?_
  split
  · refine .of_fits ensures_redisString fun old => (uses_redisExpiry _).bind fun _ =>
      (uses_redisWriteString fun _ => belongs_valueKey).bind fun _ => ?_
    cases old <;> trivial
  · exact .pure _

theorem preserves_redisIncrementBig (delta : ℤ) :
    Preserves times (redisIncrementBig key delta) := by
  refine .of_fits ensures_redisString fun old => ?_
  dsimp only
  split
  · trivial
  · exact .ite trivial <| (uses_redisExpiry _).bind fun _ =>
      (uses_redisWriteString fun _ => belongs_valueKey).bind fun _ => trivial

theorem uses_redisDeleteLoop (count : ℕ) (keys : List Bytes) :
    Uses P (redisDeleteLoop count keys) := by
  induction keys generalizing count with
  | nil => trivial
  | cons key keys ih => exact (uses_redisDeleteRaw key).bind fun _ => .ite (ih _) (ih _)

theorem uses_redisExistsLoop (count : ℕ) (keys : List Bytes) :
    Uses P (redisExistsLoop count keys) := by
  induction keys generalizing count with
  | nil => trivial
  | cons key keys ih => exact (uses_redisType key).bind fun _ => .ite (ih _) (ih _)

theorem preservesReply_redisExpireCommand (command : Bytes) (args : List Bytes) :
    PreservesReply times (redisExpireCommand command args) := by
  refine preservesReply_replying ?_
  split
  · exact (Preserves.of_puts (Passive.liftExcept _)).bind fun _ =>
      (Preserves.of_puts Passive.now).bind fun _ => (Preserves.of_puts (Passive.liftExcept _)).bind
        fun _ => preserves_redisSetExpiry.bind fun _ => .ite (.pure _) (.pure _)
  · exact .pure _

theorem uses_redisGetExChange (go : GoRuntime) (rest : List Bytes) :
    Uses P (redisGetExChange go rest) := by
  unfold redisGetExChange
  split
  · trivial
  · trivial
  · split
    · trivial
    · refine .ite trivial (.ite trivial (Passive.now.bind fun _ => ?_))
      split <;> trivial
  · trivial

theorem preservesReply_redisGetEx (go : GoRuntime) (args : List Bytes) :
    PreservesReply times (redisGetEx go args) := by
  refine preservesReply_replying ?_
  split
  · refine (Preserves.of_puts (uses_redisString _)).bind fun value => ?_
    cases value with
    | none => exact .pure _
    | some value =>
      refine (Preserves.of_puts (uses_redisGetExChange go _)).bind fun change => ?_
      split
      · exact .pure _
      · exact .pure _
      · exact preserves_redisPersist.bind fun _ => .pure _
      · exact preserves_redisSetExpiry.bind fun _ => .pure _
  · exact .pure _

/-! ### Commands on collections -/

theorem uses_redisHSetLoop (added : ℕ) {pairs : List (Bytes × Bytes)}
    (h : ∀ pair ∈ pairs, ∀ payload, P (.put (hashKey key pair.1) (bytesRecord payload 0))) :
    Uses P (redisHSetLoop key added pairs) := by
  induction pairs generalizing added with
  | nil => trivial
  | cons pair pairs ih =>
    rw [List.forall_mem_cons] at h
    exact (Transport.uses_get _).bind fun _ =>
      (Transport.uses_put (h.1 pair.2)).bind fun _ => ih _ h.2

/-- The arguments that become a name and its members leave room in the length field. -/
theorem Deliverable.add_length_lt {args : List Bytes} (hargs : Deliverable args)
    {name member : Bytes} (hname : name ∈ args) (hmember : member ∈ args) :
    name.length + member.length < 2 ^ 32 := by
  have hname := hargs.size name hname
  have hmember := hargs.size member hmember
  unfold maxRESPBulk at hname hmember
  omega

theorem preservesReply_redisHSet {args : List Bytes} (hargs : Deliverable args) :
    PreservesReply times (redisHSet args) := by
  refine preservesReply_replying ?_
  split
  · next name key rest =>
    split
    · next pair pairs hpairs =>
      refine .redisType_bind fun typ => ?_
      have hloop : Puts (Belongs key .hash) (redisHSetLoop key 0 (pair :: pairs)) :=
        uses_redisHSetLoop 0 fun pair hmem _ => belongs_hashKey <|
          hargs.add_length_lt (by simp) (by simp [mem_of_mem_argPairs hpairs hmem])
      cases typ with
      | none =>
        exact ⟨.hash, trivial, (Transport.uses_delete _).ignoringError.bind fun _ =>
          hloop.bind fun _ => trivial⟩
      | hash => exact ⟨.hash, rfl, hloop.bind fun _ => trivial⟩
      | _ => exact ⟨_, rfl, trivial⟩
    · exact .pure _
  · exact .pure _

theorem uses_redisHMGetLoop (fields : List Bytes) : Uses P (redisHMGetLoop key fields) := by
  induction fields with
  | nil => trivial
  | cons field fields ih => exact (uses_redisHashField _ _).bind fun _ => ih.bind fun _ => trivial

theorem uses_redisHDelLoop (removed : ℕ) (fields : List Bytes) :
    Uses P (redisHDelLoop key removed fields) := by
  induction fields generalizing removed with
  | nil => trivial
  | cons field fields ih =>
    refine (Transport.uses_get _).bind fun found => ?_
    cases found with
    | none => exact ih _
    | some data =>
      exact (Passive.liftExcept _).bind fun _ => (Passive.expiredNow _).bind fun _ =>
        .ite ((Transport.uses_delete _).ignoringError.bind fun _ => ih _)
          ((Transport.uses_delete _).bind fun _ => ih _)

theorem preservesReply_redisHIncrBy {args : List Bytes} (hargs : Deliverable args) :
    PreservesReply times (redisHIncrBy args) := by
  refine preservesReply_replying ?_
  split
  · refine (Preserves.of_puts (Passive.liftExcept _)).bind fun _ =>
      (Preserves.of_puts (uses_redisType _)).bind fun typ => .ite (.throw _) ?_
    refine Preserves.of_fits (ensures_redisHashField _) fun found => ?_
    dsimp only
    split
    · trivial
    · exact .ite trivial <| (uses_putPayload fun _ => belongs_hashKey
        (hargs.add_length_lt (by simp) (by simp))).bind fun _ => trivial
  · exact .pure _

theorem uses_redisSAddLoop (added : ℕ) {members : List Bytes}
    (h : ∀ member ∈ members, P (.put (setKey key member) [1])) :
    Uses P (redisSAddLoop key added members) := by
  induction members generalizing added with
  | nil => trivial
  | cons member members ih =>
    rw [List.forall_mem_cons] at h
    refine (Transport.uses_get _).bind fun found => ?_
    cases found with
    | some _ => exact ih _ h.2
    | none => exact (Transport.uses_put h.1).bind fun _ => ih _ h.2

theorem preservesReply_redisSAdd {args : List Bytes} (hargs : Deliverable args) :
    PreservesReply times (redisSAdd args) := by
  refine preservesReply_replying ?_
  split
  · next name key member members =>
    refine .redisType_bind fun typ => ?_
    have hloop : Puts (Belongs key .set) (redisSAddLoop key 0 (member :: members)) :=
      uses_redisSAddLoop 0 fun m hmem => belongs_setKey <|
        hargs.add_length_lt (by simp) (List.mem_cons_of_mem _ (List.mem_cons_of_mem _ hmem))
    cases typ with
    | none =>
      exact ⟨.set, trivial, (Transport.uses_delete _).ignoringError.bind fun _ =>
        hloop.bind fun _ => trivial⟩
    | set => exact ⟨.set, rfl, hloop.bind fun _ => trivial⟩
    | _ => exact ⟨_, rfl, trivial⟩
  · exact .pure _

theorem uses_redisSRemLoop (removed : ℕ) (members : List Bytes) :
    Uses P (redisSRemLoop key removed members) := by
  induction members generalizing removed with
  | nil => trivial
  | cons member members ih =>
    refine (Transport.uses_get _).bind fun found => ?_
    cases found with
    | none => exact ih _
    | some _ => exact (Transport.uses_delete _).bind fun _ => ih _

theorem preserves_redisPushValues (values : List Bytes) (left onlyIfExists : Bool) :
    Preserves times (redisPushValues key values left onlyIfExists) := by
  refine (Preserves.of_puts (uses_redisType key)).bind fun typ =>
    .ite (.throw _) (.ite (.pure _) ?_)
  refine Preserves.of_fits ensures_redisListValues fun items => .ite trivial ?_
  exact (Passive.liftExcept _).bind fun encoded => (uses_redisWriteList belongs_listKey).bind fun _ =>
    .ite ((Transport.uses_delete _).ignoringError.bind fun _ => trivial) trivial

theorem preserves_redisPopOne (left : Bool) : Preserves times (redisPopOne left key) := by
  refine Preserves.of_fits ensures_redisListValues fun items => .ite trivial ?_
  refine (uses_redisWriteList belongs_listKey).bind fun _ => Passive.now.bind fun _ =>
    (Passive.liftExcept _).bind fun payload => ?_
  cases payload <;> trivial

theorem preserves_redisPopCount (left : Bool) (count : Bytes) :
    Preserves times (redisPopCount left key count) := by
  refine Preserves.of_fits ensures_redisListValues fun items => .ite trivial ?_
  split
  · trivial
  · exact .ite trivial <| (uses_redisWriteList belongs_listKey).bind fun _ =>
      Passive.now.bind fun _ => (Passive.liftExcept _).bind fun _ => trivial

theorem preservesReply_redisPop (left : Bool) (args : List Bytes) :
    PreservesReply times (redisPop left args) := by
  refine preservesReply_replying ?_
  split
  · exact preserves_redisPopOne left
  · exact preserves_redisPopCount left _
  · exact .pure _

theorem preservesReply_redisLTrim (args : List Bytes) :
    PreservesReply times (redisLTrim args) := by
  refine preservesReply_replying ?_
  split
  · refine (Preserves.of_puts (Passive.liftExcept _)).bind fun _ =>
      (Preserves.of_puts (Passive.liftExcept _)).bind fun _ =>
        Preserves.of_fits ensures_redisListValues fun items => ?_
    exact .ite ((uses_redisWriteList belongs_listKey).bind fun _ => trivial)
      ((uses_redisDeleteRaw _).bind fun _ => trivial)
  · exact .pure _

theorem preservesReply_redisLRange (args : List Bytes) :
    PreservesReply times (redisLRange args) := by
  refine preservesReply_replying ?_
  split
  · exact (Preserves.of_puts (Passive.liftExcept _)).bind fun _ =>
      (Preserves.of_puts (Passive.liftExcept _)).bind fun _ =>
        preserves_redisListValues.bind fun _ => .ite
          ((Preserves.of_puts Passive.now).bind fun _ =>
            (Preserves.of_puts (Passive.liftExcept _)).bind fun _ => .pure _) (.pure _)
  · exact .pure _

/-! ### Commands on the keyspace -/

theorem uses_redisExistingKeys (candidates : List Bytes) :
    Uses P (redisExistingKeys candidates) := by
  induction candidates with
  | nil => trivial
  | cons key candidates ih => exact (uses_redisType key).bind fun _ => ih.bind fun _ => trivial

theorem uses_redisLogicalKeys (go : GoRuntime) : Uses P (redisLogicalKeys go) :=
  (Transport.uses_scanAll _).bind fun _ => (uses_redisExistingKeys _).bind fun _ => trivial

omit [Passive P] in
theorem uses_replying {x : Action Resp} (hx : Uses P x) : (replying x).Uses P := by
  refine Program.Uses.bind hx fun result => ?_
  cases result <;> trivial

theorem uses_redisSIsMember (args : List Bytes) : (redisSIsMember args).Uses P := by
  refine uses_replying ?_
  split
  · refine (uses_redisType _).bind fun typ => ?_
    cases typ with
    | set => exact (Transport.uses_get _).bind fun _ => .ite trivial trivial
    | _ => trivial
  · trivial

theorem uses_redisSMIsMemberLoop (items : List Resp) (members : List Bytes) :
    (redisSMIsMemberLoop key items members).Uses P := by
  induction members generalizing items with
  | nil => trivial
  | cons member members ih =>
    refine (uses_redisSIsMember _).bind fun reply => ?_
    split
    · trivial
    · exact ih _

theorem uses_redisScan (go : GoRuntime) (args : List Bytes) : (redisScan go args).Uses P := by
  refine Program.Uses.bind (?_ : Uses P (redisScanReply go args)) fun result => ?_
  · unfold redisScanReply
    split
    · refine (Passive.liftExcept _).bind fun cursor => (Passive.liftExcept _).bind fun options => ?_
      split
      · trivial
      · refine (uses_redisLogicalKeys go).bind fun keys => ?_
        split <;> trivial
    · trivial
  · cases result <;> trivial

end Redis

end KVLite
