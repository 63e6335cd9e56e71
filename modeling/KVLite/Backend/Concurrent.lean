import KVLite.Backend.Reopen
import KVLite.Semantics.RelyGuarantee

/-!
# Concurrent opens of one path

Calls of `Open` with linked drivers, in one process or in many, make their steps on one
path in any order. The manifest file is created exclusively and then written, so that a
reader in between finds a file that it cannot read. A thread promises to leave a complete
manifest as it is, and a manifest that another thread is writing to that thread; with this,
whoever succeeds has created the manifest or has recognised it.

## Main definitions

* `opens` — the memory of concurrent opens
* `Promises` — what a step of a thread leaves alone
* `Recognises` — a thread has created the manifest or compared it with its driver
* `OpensAgree`, `KeptApart` — agreement, and the drivers for which it holds

## Main results

* `ensures_openLinked` — `Open` among the others
* `concurrent_opens_agree_iff` — all calls that succeed have the same identity
-/

namespace KVLite.Backend

open Semantics Fallible

section Threads

variable {ι : Type}

/-- Any step can go well or fail, and engines create any files. -/
def opens : Memory Steps ι World :=
  fun _ request world answer world' => ∃ trouble, respond trouble request world = (answer, world')

/-- The thread that has created the manifest file. -/
def follow (i : ι) : (request : Call) → request.Answer → Option ι → Option ι
  | .create, .created, _ => some i
  | _, _, creator => creator

/-- The path holds a complete manifest. -/
def Holds (manifest : Manifest) (s : Option ι × World) : Prop :=
  s.2.directory.manifest = some (.holds manifest)

/-- The thread has created the manifest file and not yet written it. -/
def Owns (i : ι) (s : Option ι × World) : Prop :=
  s.1 = some i ∧ s.2.directory.manifest = some .unreadable

/-- The path has a manifest file. -/
def Present (s : Option ι × World) : Prop := s.2.directory.manifest ≠ none

/-- A step of thread `j` does not remove a manifest file, and changes neither a complete
manifest nor one that another thread owns. -/
structure Promises (j : ι) (s s' : Option ι × World) : Prop where
  present : Present s → Present s' ∧ s'.1 = s.1
  complete : ∀ manifest, Holds manifest s → Holds manifest s'
  owned : ∀ i, i ≠ j → Owns i s → Owns i s'

/-- The thread `i` among the others. -/
def amongOpens (i : ι) : Program.Environment Steps (Option ι × World) :=
  (opens.ghost follow).among Promises i

variable {i : ι} {s s' : Option ι × World} {manifest : Manifest}

theorem Holds.present (h : Holds manifest s) : Present s := by
  rw [Present, h]
  nofun

theorem Holds.interference (hs : Interference Promises i s s') (h : Holds manifest s) :
    Holds manifest s' ∧ s'.1 = s.1 := by
  refine Interference.keeps (P := fun s' => Holds manifest s' ∧ s'.1 = s.1) hs ?_ ⟨h, rfl⟩
  rintro j t t' - hpromise ⟨hholds, hcreator⟩
  exact ⟨hpromise.complete manifest hholds, (hpromise.present hholds.present).2.trans hcreator⟩

theorem Owns.interference (hs : Interference Promises i s s') (h : Owns i s) : Owns i s' :=
  hs.keeps (fun _ _ _ hj hpromise => hpromise.owned i (Ne.symm hj)) h

/-! ### Steps among the others -/

/-- A step that does not touch the manifest. -/
def Quiet (request : Call) : Prop :=
  ∀ trouble world, (respond trouble request world).2.directory.manifest = world.directory.manifest

/-- What thread `i` knows after a quiet step; when it is alone, nothing has happened to the
manifest. -/
structure Later (i : ι) (s s' : Option ι × World) : Prop where
  holds : ∀ manifest, Holds manifest s → Holds manifest s' ∧ s'.1 = s.1
  alone : (∀ j, j = i) → s'.2.directory.manifest = s.2.directory.manifest

theorem Quiet.ne_create {request : Call} (h : Quiet request) : request ≠ .create := by
  rintro rfl
  -- Without trouble the file is created in an empty directory.
  have hcreated := h (.smooth []) ⟨fun _ => none, fun _ => none, some ⟨none, []⟩⟩
  cases hcreated

theorem admits_of_quiet {request : Call} {post : request.Answer → Option ι × World → Prop}
    (hquiet : Quiet request)
    (hpost : ∀ trouble s', Later i s s' → post (respond trouble request s.2).1 s') :
    (amongOpens i).admits request post s := by
  rintro answer ⟨creator, world⟩ ⟨⟨trouble, hrespond⟩, hfollow⟩
  have hcreator : creator = s.1 := by
    cases request with
    | create => exact absurd rfl hquiet.ne_create
    | _ => exact hfollow
  have hmanifest : world.directory.manifest = s.2.directory.manifest := by
    have h := hquiet trouble s.2
    rwa [hrespond] at h
  have hholds : ∀ manifest, Holds manifest s → Holds manifest (creator, world) :=
    fun manifest h => hmanifest.trans h
  refine ⟨⟨?_, hholds, ?_⟩, ?_⟩
  · intro hpresent
    exact ⟨by rwa [Present, hmanifest], hcreator⟩
  · rintro j - ⟨hj, hunreadable⟩
    exact ⟨hcreator.trans hj, hmanifest.trans hunreadable⟩
  · intro s' hs'
    have hanswer : (respond trouble request s.2).1 = answer := by rw [hrespond]
    rw [← hanswer]
    apply hpost
    constructor
    · intro manifest h
      obtain ⟨hholds', hcreator'⟩ := (hholds manifest h).interference hs'
      exact ⟨hholds', hcreator'.trans hcreator⟩
    · intro halone
      rw [hs'.keeps (P := fun s' => s' = (creator, world)) (fun j _ _ hj => absurd (halone j) hj) rfl]
      exact hmanifest

theorem quiet_available (driver : Registered) : Quiet (.available driver) := fun _ _ => rfl

theorem quiet_mkdirAll : Quiet .mkdirAll := by
  intro trouble world
  rw [respond]
  cases trouble.err with
  | some err => rfl
  | none => cases hdirectory : world.directory <;> simp [Directory.manifest]

theorem quiet_readManifest : Quiet .readManifest := fun _ _ => rfl

theorem quiet_readDir : Quiet .readDir := by
  intro trouble world
  rw [respond]
  split <;> rfl

theorem quiet_sync : Quiet .sync := fun _ _ => rfl

theorem quiet_openEngine (driver : Registered) : Quiet (.openEngine driver) := by
  intro trouble world
  show (world.directory.adding trouble.files).manifest = _
  cases world.directory with
  | some entries => rfl
  | none =>
    rw [Directory.adding]
    split_ifs <;> rfl

theorem quiet_closeEngine : Quiet .closeEngine := fun _ _ => rfl

/-- The exclusive creation: either there was no manifest file, or nothing happens. -/
theorem respond_create (trouble : Trouble) (world : World) :
    (respond trouble .create world).1 = .created ∧ world.directory.manifest = none ∧
        (respond trouble .create world).2.directory.manifest = some .unreadable ∨
      (respond trouble .create world).1 ≠ .created ∧ (respond trouble .create world).2 = world := by
  rcases hdirectory : world.directory with _ | ⟨_ | content, files⟩ <;> cases herr : trouble.err <;>
    simp [respond, hdirectory, herr, Directory.manifest]

/-- The exclusive creation makes the thread the owner. -/
theorem admits_create {post : Created → Option ι × World → Prop}
    (hpost : ∀ answer s', (answer = .created → Owns i s') → post answer s') :
    (amongOpens i).admits .create post s := by
  rintro answer ⟨creator, world⟩ ⟨⟨trouble, hrespond⟩, hfollow⟩
  have hcases := respond_create trouble s.2
  rw [hrespond] at hcases
  rcases hcases with ⟨rfl, hnone, hunreadable⟩ | ⟨hanswer, rfl⟩
  · -- Nobody had a claim to the manifest before.
    have howns : Owns i (creator, world) := ⟨hfollow, hunreadable⟩
    refine ⟨⟨fun h => absurd hnone h, ?_, ?_⟩, fun s' hs' => hpost _ _ fun _ => howns.interference hs'⟩
    · intro manifest h
      exact absurd hnone h.present
    · rintro j - ⟨-, h⟩
      rw [hnone] at h
      cases h
  · have hcreator : creator = s.1 := by
      cases answer with
      | created => exact absurd rfl hanswer
      | present => exact hfollow
      | failed err => exact hfollow
    refine ⟨⟨fun h => ⟨h, hcreator⟩, fun _ h => h, fun j _ h => ⟨hcreator.trans h.1, h.2⟩⟩, ?_⟩
    exact fun s' _ => hpost _ _ fun h => absurd h hanswer

/-- The owner writes the manifest. -/
theorem admits_write {post : Except GoError Unit → Option ι × World → Prop} (howns : Owns i s)
    (hpost : ∀ answer s', (answer = .ok () → Holds manifest s' ∧ s'.1 = some i) → post answer s') :
    (amongOpens i).admits (.write manifest) post s := by
  obtain ⟨hcreator, hunreadable⟩ := howns
  rintro answer ⟨creator, world⟩ ⟨⟨trouble, hrespond⟩, hfollow⟩
  obtain ⟨entries, hdirectory⟩ := Directory.exists_of_manifest hunreadable
  refine ⟨⟨?_, ?_, ?_⟩, ?_⟩
  · intro _
    refine ⟨?_, hfollow⟩
    rw [Present, ← show (respond trouble (.write manifest) s.2).2 = world by rw [hrespond]]
    simp [respond, hdirectory, Directory.manifest]
  · intro complete h
    rw [Holds, hunreadable] at h
    cases h
  · rintro j hj ⟨h, -⟩
    exact absurd (Option.some.inj (h.symm.trans hcreator)) hj
  · intro s' hs'
    apply hpost
    rintro rfl
    have hholds : Holds manifest (creator, world) := by
      cases herr : trouble.err <;> simp [respond, Trouble.answer, herr, hdirectory] at hrespond
      subst hrespond
      rfl
    obtain ⟨hholds', hcreator'⟩ := hholds.interference hs'
    exact ⟨hholds', hcreator'.trans (hfollow.trans hcreator)⟩

/-! ### `Open` among the others -/

/-- The thread has created the manifest or has compared it with its driver. -/
def Recognises (i : ι) (driver : Registered) (s : Option ι × World) : Prop :=
  ∃ manifest, Holds manifest s ∧
    (validateBackendManifest manifest driver = .ok () ∨ manifest = driver.manifest ∧ s.1 = some i)

theorem Recognises.later {driver : Registered} (hlater : Later i s s') (h : Recognises i driver s) :
    Recognises i driver s' := by
  obtain ⟨manifest, hholds, hcause⟩ := h
  obtain ⟨hholds', hcreator⟩ := hlater.holds manifest hholds
  refine ⟨manifest, hholds', ?_⟩
  rw [hcreator]
  exact hcause

section Rules

variable {α : Type} {E : Program.Environment Steps (Option ι × World)} {post : α → Option ι × World → Prop}

theorem ensures_attempt {x : Program Steps (Except GoError α)}
    (hx : x.wp E (fun result s' => ∀ value, result = .ok value → post value s') s) :
    Ensures E (attempt x) s post (fun _ _ => True) := by
  refine Program.wp_mono ?_ hx
  rintro (err | value) s' h
  · trivial
  · exact h value rfl

theorem ensures_attemptAs {x : Program Steps (Except GoError α)} (context : String)
    (hx : x.wp E (fun result s' => ∀ value, result = .ok value → post value s') s) :
    Ensures E (attemptAs context x) s post (fun _ _ => True) := by
  show Program.wp E (_ <$> x) _ s
  rw [map_eq_pure_bind, Program.wp_bind]
  refine Program.wp_mono ?_ hx
  rintro (err | value) s' h
  · trivial
  · exact h value rfl

theorem ensures_ask_bind {request : Call} {f : request.Answer → Opening α}
    {fail : GoError → Option ι × World → Prop}
    (h : E.admits request (fun answer s' => Ensures E (f answer) s' post fail) s) :
    Ensures E (ask request >>= f) s post fail := h

theorem ensures_ofExcept {x : Except GoError α} (hx : ∀ value, x = .ok value → post value s) :
    Ensures E (ofExcept x) s post (fun _ _ => True) := by
  cases x with
  | error err => trivial
  | ok value => exact hx value rfl

theorem ensures_closingOnError {x : Opening α}
    (hclose : ∀ s, E.admits .closeEngine (fun _ _ => True) s)
    (hx : Ensures E x s post (fun _ _ => True)) :
    Ensures E (closingOnError x) s post (fun _ _ => True) := by
  rw [closingOnError, ensures_bind, ensures_lift]
  refine Program.wp_mono ?_ hx
  rintro (err | value) s' h
  · exact E.mono _ _ (fun _ _ _ => trivial) (hclose s')
  · exact h

end Rules

/-- What has been read is what was there. -/
theorem ensures_readBackendManifest :
    Ensures (amongOpens i) readBackendManifest s
      (fun found s' => s.2.directory.manifest = found.map .holds ∧ Later i s s') (fun _ _ => True) := by
  rw [readBackendManifest]
  refine ensures_ask_bind (admits_of_quiet quiet_readManifest fun trouble s' hlater => ?_)
  have hanswer : (respond trouble .readManifest s.2).1 = trouble.answer s.2.directory.manifest := rfl
  rw [hanswer, Trouble.answer]
  cases trouble.err with
  | some err => trivial
  | none =>
    rcases s.2.directory.manifest with _ | _ | manifest
    · exact ⟨rfl, hlater⟩
    · trivial
    · exact ⟨rfl, hlater⟩

theorem ensures_createBackendManifest (driver : Registered) :
    Ensures (amongOpens i) (createBackendManifest driver) s
      (fun _ s' => Recognises i driver s') (fun _ _ => True) := by
  rw [createBackendManifest]
  refine ensures_ask_bind (admits_create ?_)
  intro answer s' howns
  cases answer with
  | failed err => trivial
  | present =>
    show Ensures _ (_ >>= _) _ _ _
    rw [ensures_bind]
    refine ensures_readBackendManifest.mono ?_ fun _ _ _ => trivial
    rintro (_ | existing) s' ⟨hfound, hlater⟩
    · trivial
    · exact ensures_ofExcept fun _ hvalid => ⟨existing, (hlater.holds existing hfound).1, .inl hvalid⟩
  | created =>
    show Ensures _ (_ >>= _) _ _ _
    rw [ensures_bind]
    refine ensures_attemptAs _ (admits_write (howns rfl) ?_)
    rintro _ s' hwritten _ rfl
    obtain ⟨hholds, hcreator⟩ := hwritten rfl
    have hrecognises : Recognises i driver s' := ⟨driver.manifest, hholds, .inr ⟨rfl, hcreator⟩⟩
    refine ensures_attemptAs _ (admits_of_quiet quiet_sync ?_)
    intro trouble s'' hlater _ _
    exact hrecognises.later hlater

/-- When no manifest is left to be written, the driver has been recognised. -/
theorem ensures_prepareBackendManifest (driver : Registered) (allowLegacyRocksDB : Bool) :
    Ensures (amongOpens i) (prepareBackendManifest driver allowLegacyRocksDB) s
      (fun legacyManifest s' => legacyManifest = false → Recognises i driver s') (fun _ _ => True) := by
  rw [prepareBackendManifest, ensures_bind]
  refine ensures_attemptAs _ (admits_of_quiet quiet_mkdirAll ?_)
  intro _ s' _ _ _
  rw [ensures_bind]
  refine ensures_readBackendManifest.mono ?_ fun _ _ _ => trivial
  rintro (_ | manifest) s' ⟨hfound, hlater⟩
  case some =>
    dsimp only
    rw [ensures_bind]
    exact ensures_ofExcept fun _ hvalid _ => ⟨manifest, (hlater.holds manifest hfound).1, .inl hvalid⟩
  case none =>
    dsimp only
    rw [ensures_bind]
    refine ensures_attemptAs _ (admits_of_quiet quiet_readDir ?_)
    intro _ s' _ entries _
    split_ifs
    · rw [ensures_bind]
      exact (ensures_createBackendManifest driver).mono (fun _ _ h _ => h) fun _ _ _ => trivial
    · intro h
      cases h
    · trivial

/-- Whoever succeeds has recognised the manifest. -/
theorem ensures_openLinked (driver : Registered) (allowLegacyRocksDB : Bool) :
    Ensures (amongOpens i) (openLinked driver allowLegacyRocksDB) s
      (fun opened s' => opened = driver ∧ Recognises i driver s') (fun _ _ => True) := by
  rw [openLinked, ensures_bind]
  refine ensures_attemptAs _ (admits_of_quiet (quiet_available driver) ?_)
  intro _ s' _ _ _
  rw [ensures_bind]
  refine (ensures_prepareBackendManifest driver allowLegacyRocksDB).mono ?_ fun _ _ _ => trivial
  intro legacyManifest s' hprepared
  rw [ensures_bind]
  refine ensures_attempt (admits_of_quiet (quiet_openEngine driver) ?_)
  intro _ s'' hlater _ _
  cases legacyManifest with
  | false => exact ⟨rfl, (hprepared rfl).later hlater⟩
  | true =>
    show Ensures _ (_ >>= _) _ _ _
    rw [ensures_bind]
    refine (ensures_closingOnError ?_ (ensures_createBackendManifest driver)).mono (fun _ _ h => ⟨rfl, h⟩)
      fun _ _ _ => trivial
    exact fun _ => admits_of_quiet quiet_closeEngine fun _ _ _ => trivial

/-! ### Agreement -/

/-- Concurrent calls of `Open`. -/
def openPool (drivers : ι → Registered) (legacy : ι → Bool) (world : World) :
    Pool Steps ι World (Except GoError Registered) :=
  ⟨fun i => ExceptT.run (openLinked (drivers i) (legacy i)), world⟩

/-- All calls that succeed on a fresh path have the same identity. -/
def OpensAgree [DecidableEq ι] (drivers : ι → Registered) (legacy : ι → Bool) : Prop :=
  ∀ world events last, Fresh world.directory → Pool.Run opens (openPool drivers legacy world) events last →
    ∀ i j opened opened', last.threads i = .done (.ok opened) → last.threads j = .done (.ok opened') →
      opened.identity = opened'.identity

/-- No driver's manifest reads like another driver. -/
def KeptApart (drivers : ι → Registered) : Prop :=
  ∀ i j, (drivers i).manifest.identity = (drivers j).identity →
    (drivers i).identity = (drivers j).identity

theorem identity_of_validate {manifest : Manifest} {driver : Registered}
    (h : validateBackendManifest manifest driver = .ok ()) : manifest.identity = driver.identity := by
  rw [validateBackendManifest] at h
  split_ifs at h with _ hmismatch
  push Not at hmismatch
  exact Identity.ext hmismatch.1 hmismatch.2.1 hmismatch.2.2

/-- Two threads that recognise the same manifest. -/
theorem Recognises.identity_eq {drivers : ι → Registered} (hapart : KeptApart drivers) {i j : ι}
    (hi : Recognises i (drivers i) s) (hj : Recognises j (drivers j) s) :
    (drivers i).identity = (drivers j).identity := by
  obtain ⟨manifest, hholds, hi⟩ := hi
  obtain ⟨manifest', hholds', hj⟩ := hj
  cases hholds.symm.trans hholds'
  rcases hi with hvalid | ⟨hmanifest, hcreator⟩ <;> rcases hj with hvalid' | ⟨hmanifest', hcreator'⟩
  · exact (identity_of_validate hvalid).symm.trans (identity_of_validate hvalid')
  · refine (hapart j i ?_).symm
    rw [← hmanifest', identity_of_validate hvalid]
  · refine hapart i j ?_
    rw [← hmanifest, identity_of_validate hvalid']
  · -- There is one creator.
    cases hcreator.symm.trans hcreator'
    rfl

theorem opensAgree_of_keptApart [DecidableEq ι] {drivers : ι → Registered} (legacy : ι → Bool)
    (hapart : KeptApart drivers) : OpensAgree drivers legacy := by
  intro world events last _ hrun i j opened opened' hi hj
  obtain ⟨creator, hghost⟩ := hrun.ghost follow none
  have hpost : ∀ i opened, last.threads i = .done (.ok opened) →
      opened = drivers i ∧ Recognises i (drivers i) (creator, last.shared) := by
    intro i opened hdone
    refine hghost.post_of_done (G := Promises) (fun i result s => ∀ opened, result = .ok opened →
      opened = drivers i ∧ Recognises i (drivers i) s) ?_ hdone opened rfl
    intro i s _
    refine Program.wp_mono ?_ (ensures_openLinked (drivers i) (legacy i))
    rintro (err | value) s' h opened hopened
    · cases hopened
    · cases hopened
      exact h
  obtain ⟨rfl, hrecognises⟩ := hpost i opened hi
  obtain ⟨rfl, hrecognises'⟩ := hpost j opened' hj
  exact hrecognises.identity_eq hapart hrecognises'

/-- A run in which every step goes the same way. -/
theorem run_following_const {α : Type} (trouble : Trouble) (p : Program Steps α) (n : ℕ) (world : World) :
    (p.run (following fun _ => trouble) (n, world)).1 = (p.run (respond trouble) world).1 ∧
      (p.run (following fun _ => trouble) (n, world)).2.2 = (p.run (respond trouble) world).2 := by
  induction p generalizing n world with
  | done value => exact ⟨rfl, rfl⟩
  | call request rest ih => exact ih _ _ _

/-- `Open` alone on an absent path, and after it on the path that it has bound. -/
theorem run_openLinked_smooth (driver : Registered) (allowLegacyRocksDB : Bool) {world : World}
    (hfresh : Fresh world.directory) :
    (ExceptT.run (openLinked driver allowLegacyRocksDB)).run (respond (.smooth [])) world =
      (.ok driver, world.bound driver []) := by
  have hrun := (phased_openLinked (fun _ => .smooth []) driver allowLegacyRocksDB 0 hfresh).eq_of_calm
    (by omega) (by omega) fun _ _ _ => rfl
  have hconst := run_following_const (.smooth []) (ExceptT.run (openLinked driver allowLegacyRocksDB)) 0 world
  rw [program_run, hrun] at hconst
  exact Prod.ext hconst.1.symm hconst.2.symm

theorem run_openLinked_smooth_of_bound (driver : Registered) (allowLegacyRocksDB : Bool) {world : World}
    {manifest : Manifest} (hbound : world.directory.manifest = some (.holds manifest))
    (hvalid : validateBackendManifest manifest driver = .ok ()) :
    ∃ world', (ExceptT.run (openLinked driver allowLegacyRocksDB)).run (respond (.smooth [])) world =
      (.ok driver, world') := by
  have hcalm : Plan.Calm fun _ => .smooth [] := fun _ => rfl
  have hrun := run_openLinked_of_bound hcalm driver allowLegacyRocksDB 0 hbound
  have hconst := run_following_const (.smooth []) (ExceptT.run (openLinked driver allowLegacyRocksDB)) 0 world
  rw [hvalid] at hrun
  rw [program_run, hrun] at hconst
  exact ⟨_, Prod.ext hconst.1.symm rfl⟩

theorem keptApart_of_opensAgree [DecidableEq ι] {drivers : ι → Registered} {legacy : ι → Bool}
    (hagree : OpensAgree drivers legacy) : KeptApart drivers := by
  intro i j hidentity
  by_cases hij : i = j
  · rw [hij]
  · -- First thread `i` runs to its end, then thread `j`.
    let world : World := ⟨fun _ => none, fun _ => none, none⟩
    have hallowed : ∀ (i : ι) request s, opens i request s (respond (.smooth []) request s).1
        (respond (.smooth []) request s).2 := fun _ _ _ => ⟨.smooth [], rfl⟩
    have hvalid := (validateBackendManifest_manifest_iff (drivers i) (drivers j)).mpr hidentity
    have hfresh : Fresh world.directory := .inl rfl
    obtain ⟨events, hfirst⟩ := Pool.Run.solo (hallowed i) (openPool drivers legacy world)
      (run_openLinked_smooth (drivers i) (legacy i) hfresh)
    obtain ⟨world', hrun⟩ := run_openLinked_smooth_of_bound (drivers j) (legacy j)
      (show (world.bound (drivers i) []).directory.manifest = _ from rfl) hvalid
    have hthread : Function.update (openPool drivers legacy world).threads i (.done (.ok (drivers i))) j =
        ExceptT.run (openLinked (drivers j) (legacy j)) :=
      Function.update_of_ne (Ne.symm hij) _ (openPool drivers legacy world).threads
    rw [← hthread] at hrun
    obtain ⟨events', hsecond⟩ := Pool.Run.solo (hallowed j)
      ⟨Function.update (openPool drivers legacy world).threads i (.done (.ok (drivers i))),
        world.bound (drivers i) []⟩ hrun
    refine hagree world _ _ hfresh (hfirst.trans hsecond) i j _ _ ?_ (Function.update_self ..)
    exact (Function.update_of_ne hij _ _).trans (Function.update_self ..)

/-- All calls that succeed agree, in every interleaving, when the drivers are kept apart by
what the manifest records of them. -/
theorem concurrent_opens_agree_iff [DecidableEq ι] (drivers : ι → Registered) (legacy : ι → Bool) :
    OpensAgree drivers legacy ↔ KeptApart drivers :=
  ⟨keptApart_of_opensAgree, opensAgree_of_keptApart legacy⟩

end Threads

/-- A driver whose implementation is not valid UTF-8, and one with the text that the JSON
encoder makes of it. -/
def garbled : Bool → Registered
  | false => { Registered.sample with implementation := [0xFF], implementation_ne := by decide }
  | true => { Registered.sample with
      implementation := Http.replacementCharacter, implementation_ne := by decide }

/-- Two calls that succeed on an absent path with different identities. -/
theorem garbled_drivers_disagree :
    ∃ events last, Pool.Run opens (openPool garbled (fun _ => false) ⟨fun _ => none, fun _ => none, none⟩)
        events last ∧
      last.threads false = .done (.ok (garbled false)) ∧ last.threads true = .done (.ok (garbled true)) ∧
      (garbled false).identity ≠ (garbled true).identity := by
  let answer : Pool.Responder Steps Bool World := fun _ request world => some (respond (.smooth []) request world)
  obtain ⟨events, last, hplay, hfalse, htrue⟩ : ∃ events last,
      Pool.play answer (List.replicate 8 false ++ List.replicate 4 true)
        (openPool garbled (fun _ => false) ⟨fun _ => none, fun _ => none, none⟩) = some (events, last) ∧
      last.threads false = .done (.ok (garbled false)) ∧ last.threads true = .done (.ok (garbled true)) :=
    ⟨_, _, rfl, rfl, rfl⟩
  refine ⟨events, last, Pool.Run.of_play ?_ hplay, hfalse, htrue, by decide⟩
  intro i request s _ s' h
  exact ⟨.smooth [], Option.some.inj h⟩

end KVLite.Backend
