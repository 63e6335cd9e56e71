import KVLite.Core.Requests
import KVLite.Core.Transport

/-!
# The kinds of records of a logical key

A logical key can have a scalar value, hash fields, set members and a list. `OneKind`
says that it has records of at most one of these kinds. Deleting records keeps
`OneKind`; writing a record keeps it where its key has no records of another kind,
which `Fits` says.
-/

namespace KVLite

open Semantics Fallible BigEndian

/-- The four representations of a logical key. -/
inductive Kind
  | value
  | hash
  | set
  | list
  deriving DecidableEq, Repr

/-- The storage key is that of a record of the given kind of the logical key. -/
def Owns (key : Bytes) : Kind → Bytes → Prop
  | .value, storageKey => storageKey = valueKey key
  | .hash, storageKey => namespacePrefix kindHash key <+: storageKey
  | .set, storageKey => namespacePrefix kindSet key <+: storageKey
  | .list, storageKey => storageKey = listKey key

theorem Owns.recordOf {key storageKey : Bytes} {kind : Kind} (h : Owns key kind storageKey) :
    RecordOf key storageKey := by
  cases kind with
  | value => exact .inl h
  | hash => exact .inr (.inr (.inr (.inl h)))
  | set => exact .inr (.inr (.inr (.inr h)))
  | list => exact .inr (.inl h)

/-- The store has a record of the given kind of the logical key. -/
def HasKind (s : Store) (key : Bytes) (kind : Kind) : Prop :=
  ∃ storageKey data, Owns key kind storageKey ∧ s[storageKey]? = some data

/-- Every logical key has records of at most one kind. -/
def OneKind (s : Store) : Prop :=
  ∀ key kind kind', HasKind s key kind → HasKind s key kind' → kind = kind'

/-- The logical key has no records of a kind other than the given one. -/
def Only (s : Store) (key : Bytes) (kind : Kind) : Prop :=
  ∀ kind', kind' ≠ kind → ¬ HasKind s key kind'

/-- A record of the given kind of the logical key can be written. -/
structure Fits (s : Store) (key : Bytes) (kind : Kind) : Prop where
  oneKind : OneKind s
  only : Only s key kind

/-- The storage key belongs to no other logical key and no other kind. -/
def Belongs (key : Bytes) (kind : Kind) (storageKey : Bytes) : Prop :=
  ∀ key' kind', Owns key' kind' storageKey → key' = key ∧ kind' = kind

/-! ### Which storage keys belong where -/

section Belongs

variable {key name member : Bytes} {kind : Kind}

/-- The first byte of a storage key tells its kind. -/
private theorem not_isPrefix_of_head {byte byte' : UInt8} {name rest : Bytes}
    (h : byte ≠ byte') : ¬ namespacePrefix byte name <+: byte' :: rest := by
  rintro ⟨tail, htail⟩
  simp only [namespacePrefix, List.cons_append, List.cons.injEq] at htail
  exact h htail.1

theorem belongs_valueKey : Belongs key .value (valueKey key) := by
  intro key' kind' h
  cases kind' with
  | value => exact ⟨(valueKey_inj.mp h).symm, rfl⟩
  | hash => exact absurd h (not_isPrefix_of_head (by decide))
  | set => exact absurd h (not_isPrefix_of_head (by decide))
  | list => exact absurd h (valueKey_ne_listKey _ _)

theorem belongs_listKey : Belongs key .list (listKey key) := by
  intro key' kind' h
  cases kind' with
  | value => exact absurd h (listKey_ne_valueKey _ _)
  | hash => exact absurd h (not_isPrefix_of_head (by decide))
  | set => exact absurd h (not_isPrefix_of_head (by decide))
  | list => exact ⟨(listKey_inj.mp h).symm, rfl⟩

/-- The expiry metadata of a collection is of no kind. -/
theorem not_owns_collectionTTLKey (key' : Bytes) (kind : Kind) :
    ¬ Owns key' kind (collectionTTLKey key) := by
  cases kind with
  | value => exact collectionTTLKey_ne_valueKey _ _
  | hash => exact not_isPrefix_of_head (by decide)
  | set => exact not_isPrefix_of_head (by decide)
  | list => exact collectionTTLKey_ne_listKey _ _

theorem belongs_collectionTTLKey : Belongs key kind (collectionTTLKey name) :=
  fun _ _ h => absurd h (not_owns_collectionTTLKey _ _)

/-- The name in a namespaced key is found again where the length field cannot have
wrapped around. -/
private theorem eq_of_isPrefix_namespacedKey {byte : UInt8} {name' : Bytes}
    (hshort : name.length + member.length < 2 ^ 32)
    (h : namespacePrefix byte name' <+: namespacedKey byte name member) : name' = name := by
  have hlength := h.length_le
  simp only [namespacePrefix, namespacedKey, List.length_cons, List.length_append,
    length_bigEndian] at hlength
  exact ((namespacePrefix_isPrefix_namespacedKey (by unfold ShortName; omega)
    (by unfold ShortName; omega)).mp h).2

theorem belongs_hashKey (hshort : name.length + member.length < 2 ^ 32) :
    Belongs name .hash (hashKey name member) := by
  intro key' kind' h
  cases kind' with
  | value => exact absurd h (hashKey_ne_valueKey _ _ _)
  | hash => exact ⟨eq_of_isPrefix_namespacedKey hshort h, rfl⟩
  | set =>
    rw [hashKey, namespacedKey_eq_cons] at h
    exact absurd h (not_isPrefix_of_head (by decide))
  | list => exact absurd h (hashKey_ne_listKey _ _ _)

theorem belongs_setKey (hshort : name.length + member.length < 2 ^ 32) :
    Belongs name .set (setKey name member) := by
  intro key' kind' h
  cases kind' with
  | value => exact absurd h (setKey_ne_valueKey _ _ _)
  | hash =>
    rw [setKey, namespacedKey_eq_cons] at h
    exact absurd h (not_isPrefix_of_head (by decide))
  | set => exact ⟨eq_of_isPrefix_namespacedKey hshort h, rfl⟩
  | list => exact absurd h (setKey_ne_listKey _ _ _)

end Belongs

/-! ### Deleting and writing one record -/

section Update

variable {s : Store} {key key' storageKey data : Bytes} {kind kind' : Kind}

theorem HasKind.of_erase (h : HasKind (s.erase storageKey) key kind) : HasKind s key kind := by
  obtain ⟨owned, data, howns, hget⟩ := h
  exact ⟨owned, data, howns, Store.getElem?_of_erase hget⟩

theorem HasKind.of_insert (h : HasKind (s.insert storageKey data) key kind) :
    HasKind s key kind ∨ Owns key kind storageKey := by
  obtain ⟨owned, data', howns, hget⟩ := h
  rw [Store.getElem?_insert] at hget
  split at hget
  · next heq => exact .inr (heq ▸ howns)
  · exact .inl ⟨owned, data', howns, hget⟩

theorem OneKind.erase (h : OneKind s) : OneKind (s.erase storageKey) :=
  fun key kind kind' hkind hkind' => h key kind kind' hkind.of_erase hkind'.of_erase

theorem Only.erase (h : Only s key kind) : Only (s.erase storageKey) key kind :=
  fun kind' hne hkind => h kind' hne hkind.of_erase

theorem Fits.erase (h : Fits s key kind) : Fits (s.erase storageKey) key kind :=
  ⟨h.oneKind.erase, h.only.erase⟩

theorem oneKind_empty : OneKind ∅ := by
  rintro key kind kind' ⟨storageKey, data, -, hget⟩
  cases hget

theorem OneKind.fits (h : OneKind s) (hkind : HasKind s key kind) : Fits s key kind :=
  ⟨h, fun kind' hne hkind' => hne (h key kind' kind hkind' hkind)⟩

/-- Writing a record keeps `OneKind` if each key that owns it has no other kind. -/
theorem OneKind.insert (h : OneKind s)
    (honly : ∀ key kind, Owns key kind storageKey → Only s key kind) :
    OneKind (s.insert storageKey data) := by
  have hother : ∀ key kind kind', Owns key kind storageKey →
      HasKind (s.insert storageKey data) key kind' → kind = kind' := by
    intro key kind kind' howns hkind'
    by_contra hne
    rcases hkind'.of_insert with hkind' | howns'
    · exact honly key kind howns kind' (Ne.symm hne) hkind'
    · -- One storage key is not of two kinds.
      cases kind <;> cases kind' <;> try exact hne rfl
      all_goals
        simp only [Owns] at howns howns'
        first
        | exact absurd (howns.symm.trans howns') (by simp)
        | (rw [howns] at howns'; exact not_isPrefix_of_head (by decide) howns')
        | (rw [howns'] at howns; exact not_isPrefix_of_head (by decide) howns)
        | (obtain ⟨rest, rfl⟩ := howns
           exact not_isPrefix_of_head (by decide) howns')
  intro key kind kind' hkind hkind'
  rcases hkind.of_insert with hold | howns
  · rcases hkind'.of_insert with hold' | howns'
    · exact h key kind kind' hold hold'
    · exact (hother key kind' kind howns' hkind).symm
  · exact hother key kind kind' howns hkind'

/-- A record of a kind does not disturb what another key, or the same, is fit for. -/
theorem Only.insert (h : Only s key kind) (hbelongs : Belongs key' kind storageKey) :
    Only (s.insert storageKey data) key kind := by
  intro other hne hkind
  rcases hkind.of_insert with hold | howns
  · exact h other hne hold
  · exact hne (hbelongs _ _ howns).2

theorem Fits.insert (h : Fits s key kind) (hbelongs : Belongs key kind storageKey) :
    Fits (s.insert storageKey data) key kind := by
  refine ⟨h.oneKind.insert fun key' kind' howns => ?_, h.only.insert hbelongs⟩
  obtain ⟨rfl, rfl⟩ := hbelongs _ _ howns
  exact h.only

/-- A key without records is fit for every kind. -/
theorem OneKind.fits_of_noRecordOf (h : OneKind s) (hnone : NoRecordOf key s) (kind : Kind) :
    Fits s key kind := by
  refine ⟨h, ?_⟩
  rintro kind' - ⟨storageKey, data, howns, hget⟩
  rw [hnone _ howns.recordOf] at hget
  cases hget

theorem OneKind.without (h : OneKind s) (key : Bytes) : OneKind (s.without key) := by
  have hold : ∀ key' kind', HasKind (s.without key) key' kind' → HasKind s key' kind' := by
    rintro key' kind' ⟨storageKey, data, howns, hget⟩
    refine ⟨storageKey, data, howns, ?_⟩
    rw [Store.without, Store.getElem?_eraseAll] at hget
    split at hget
    · cases hget
    · exact hget
  exact fun key' kind kind' hkind hkind' => h key' kind kind' (hold _ _ hkind) (hold _ _ hkind')

end Update

/-! ### Code that writes only certain records -/

/-- The call writes no record but one that `R` allows under its storage key. -/
def Writes (R : Bytes → Bytes → Prop) : Call → Prop
  | .put storageKey data => R storageKey data
  | _ => True

/-- The call writes only records whose storage key satisfies `W`. -/
abbrev PutsOnly (W : Bytes → Prop) : Call → Prop := Writes fun storageKey _ => W storageKey

/-- The code writes no record. -/
abbrev WritesNothing {α : Type} (p : Program Calls α) : Prop := p.Uses (PutsOnly fun _ => False)

section Ensures

variable {α : Type} {times : ℤ → Prop} {s : Store} {R : Bytes → Bytes → Prop} {I : Store → Prop}

theorem admits_of_writes (herase : ∀ s storageKey, I s → I (s.erase storageKey))
    (hinsert : ∀ s storageKey data, R storageKey data → I s → I (s.insert storageKey data))
    (call : Call) (hcall : Writes R call) (s : Store) (hs : I s) :
    (embeddedAt times).admits call (fun _ => I) s := by
  cases call with
  | put storageKey data => exact hinsert s storageKey data hcall hs
  | delete storageKey => exact herase s storageKey hs
  | now => exact fun _ _ => hs
  | _ => exact hs

/-- What deletions and allowed writes keep, the code keeps. -/
theorem wp_of_writes (herase : ∀ s storageKey, I s → I (s.erase storageKey))
    (hinsert : ∀ s storageKey data, R storageKey data → I s → I (s.insert storageKey data))
    {p : Program Calls α} (hp : p.Uses (Writes R)) (hs : I s) :
    p.wp (embeddedAt times) (fun _ => I) s :=
  Program.wp_of_uses (admits_of_writes herase hinsert) hp hs

theorem ensures_of_writes (herase : ∀ s storageKey, I s → I (s.erase storageKey))
    (hinsert : ∀ s storageKey data, R storageKey data → I s → I (s.insert storageKey data))
    {x : Action α} (hx : Fallible.Uses (Writes R) x) (hs : I s) :
    Ensures (embeddedAt times) x s (fun _ => I) (fun _ => I) :=
  Fallible.ensures_of_uses (admits_of_writes herase hinsert) hx hs

/-- Code that writes nothing keeps what deletions keep. -/
theorem ensures_of_writesNothing (herase : ∀ s storageKey, I s → I (s.erase storageKey))
    {x : Action α} (hx : Fallible.Uses (PutsOnly fun _ => False) x) (hs : I s) :
    Ensures (embeddedAt times) x s (fun _ => I) (fun _ => I) :=
  ensures_of_writes herase (fun _ _ _ hfalse => hfalse.elim) hx hs

theorem OneKind.wp_of_writesNothing {p : Program Calls α} (hp : WritesNothing p)
    (hs : OneKind s) : p.wp (embeddedAt times) (fun _ => OneKind) s :=
  wp_of_writes (fun _ _ => OneKind.erase) (fun _ _ _ hfalse => hfalse.elim) hp hs

/-- Code that writes only records of one kind of a key, where they fit. -/
theorem Fits.ensures {key : Bytes} {kind : Kind} {x : Action α}
    (hx : Fallible.Uses (PutsOnly (Belongs key kind)) x) (h : Fits s key kind) :
    Ensures (embeddedAt times) x s (fun _ s' => Fits s' key kind) (fun _ => OneKind) :=
  (ensures_of_writes (fun _ _ => Fits.erase) (fun _ _ _ hbelongs h => h.insert hbelongs) hx
    h).mono (fun _ _ h => h) fun _ _ h => h.oneKind

/-- Code that does not read the clock does one thing, whatever the clock shows. -/
theorem wp_embeddedAt_iff {p : Program Calls α} {post : α → Store → Prop}
    (hp : p.Uses fun call : Call => call ≠ .now) :
    p.wp (embeddedAt times) post s ↔
      post (p.run (embedded 0) s).1 (p.run (embedded 0) s).2 := by
  induction p generalizing s with
  | done value => rfl
  | call request rest ih =>
    cases request with
    | now => exact absurd rfl hp.1
    | _ => exact ih _ (hp.2 _)

/-- With one clock reading the engine's answers are determined. -/
theorem wp_embeddedAt_eq_iff {time : ℤ} {p : Program Calls α} {post : α → Store → Prop} :
    p.wp (embeddedAt (· = time)) post s ↔
      post (p.run (embedded time) s).1 (p.run (embedded time) s).2 := by
  induction p generalizing s with
  | done value => rfl
  | call request rest ih =>
    cases request with
    | now => exact forall_eq.trans (ih time)
    | _ => exact ih _

end Ensures

/-! ### The removal of a logical key -/

/-- The calls of a removal. -/
def Call.Removal : Call → Prop
  | .get _ | .delete _ | .scanPrefix _ => True
  | _ => False

theorem uses_foundKey (storageKey : Bytes) : Fallible.Uses Call.Removal (foundKey storageKey) := by
  refine Fallible.Uses.bind ⟨trivial, fun _ => trivial⟩ fun found => ?_
  cases found <;> trivial

theorem uses_foundKeys (pre : Bytes) : Fallible.Uses Call.Removal (foundKeys pre) := by
  refine Fallible.Uses.bind (x := Engine.scanPrefix pre) ⟨trivial, fun _ => trivial⟩ ?_
  rintro ⟨records, err⟩
  cases err with
  | none => trivial
  | some err =>
    dsimp only
    split <;> trivial

theorem uses_deleteEach (keys : List Bytes) : Fallible.Uses Call.Removal (deleteEach keys) := by
  induction keys with
  | nil => trivial
  | cons key keys ih => exact Fallible.Uses.bind ⟨trivial, fun _ => trivial⟩ fun _ => ih

theorem uses_deleteLogicalKey (key : Bytes) :
    Fallible.Uses Call.Removal (deleteLogicalKey key) :=
  (uses_foundKey _).bind fun _ => (uses_foundKey _).bind fun _ => (uses_foundKey _).bind fun _ =>
    (uses_foundKeys _).bind fun _ => (uses_foundKeys _).bind fun _ =>
      (uses_deleteEach _).bind fun _ => trivial

theorem uses_ne_now_deleteLogicalKey (key : Bytes) :
    Fallible.Uses (fun call : Call => call ≠ .now) (deleteLogicalKey key) :=
  (uses_deleteLogicalKey key).mono fun call hcall => by rintro rfl; exact hcall

theorem ensures_deleteLogicalKey {times : ℤ → Prop} {s : Store} (key : Bytes) :
    Ensures (embeddedAt times) (deleteLogicalKey key) s
      (fun _ s' => s' = s.without key) (fun _ _ => False) := by
  refine (wp_embeddedAt_iff (uses_ne_now_deleteLogicalKey key)).mpr ?_
  rw [program_run, run_deleteLogicalKey]

theorem run_deleteLogicalKey_ticking (clock : ℕ → ℤ) (key : Bytes) (tick : ℕ) (s : Store) :
    run (ticking clock) (deleteLogicalKey key) (tick, s) =
      (.ok ((recordKeys key s).length > 0), (tick, s.without key)) := by
  rw [run, run_ticking_of_uses (uses_ne_now_deleteLogicalKey key), program_run,
    run_deleteLogicalKey]

end KVLite
