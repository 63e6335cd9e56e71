import KVLite.Backend.Concurrent

/-!
# A directory stays bound

The path of a database sees many calls of `Open`, in one process after another, which find
their drivers in different ways. The rules for concurrent opens hold for a thread that is
alone, and say of one call that a complete manifest stays and that whoever succeeds has
recognised it. The exception is a native module, for which a manifest that is there is not
compared with the driver.
-/

namespace KVLite.Backend

open Semantics Fallible

section Alone

variable {ι : Type} {i : ι} {s s' s'' : Option ι × World}

theorem Later.trans (h : Later i s s') (h' : Later i s' s'') : Later i s s'' where
  holds manifest hholds := by
    obtain ⟨hholds', hcreator⟩ := h.holds manifest hholds
    obtain ⟨hholds'', hcreator'⟩ := h'.holds manifest hholds'
    exact ⟨hholds'', hcreator'.trans hcreator⟩
  alone halone := (h'.alone halone).trans (h.alone halone)

theorem quiet_load (directory : Bytes) : Quiet (.load directory) := fun _ _ => rfl

theorem quiet_loaded (directory : Bytes) : Quiet (.loaded directory) := fun _ _ => rfl

theorem quiet_lookup (name : Bytes) : Quiet (.lookup name) := fun _ _ => rfl

theorem quiet_remember (directory : Bytes) (driver : Registered) : Quiet (.remember directory driver) :=
  fun _ _ => rfl

theorem quiet_register (driver : Registered) : Quiet (.register driver) := by
  intro trouble world
  rw [respond]
  cases trouble.err with
  | some err => rfl
  | none =>
    dsimp only
    split_ifs <;> rfl

/-- Either a manifest was there, or the thread has created one. -/
theorem ensures_createBackendManifestIfNotExists (info : Registered) :
    Ensures (amongOpens i) (createBackendManifestIfNotExists info) s
      (fun _ s' => (∃ manifest, Holds manifest s ∧ Later i s s') ∨ ¬ Present s ∧ Recognises i info s')
      (fun _ _ => True) := by
  rw [createBackendManifestIfNotExists, ensures_bind]
  refine ensures_readBackendManifest.mono ?_ fun _ _ _ => trivial
  rintro (_ | manifest) s' ⟨hfound, hlater⟩
  case some => exact .inl ⟨manifest, hfound, hlater⟩
  case none =>
    dsimp only
    rw [ensures_bind]
    refine ensures_attemptAs _ (admits_of_quiet quiet_readDir ?_)
    intro _ s'' _ entries _
    split_ifs
    · trivial
    · exact (ensures_createBackendManifest info).mono (fun _ _ h => .inr ⟨not_not.mpr hfound, h⟩)
        fun _ _ _ => trivial

theorem admits_closeEngine (s : Option ι × World) : (amongOpens i).admits .closeEngine (fun _ _ => True) s :=
  admits_of_quiet quiet_closeEngine fun _ _ _ => trivial

/-- The library has recognised the manifest. -/
theorem ensures_openBundle (bundle : Bundle) :
    Ensures (amongOpens i) (openBundle bundle) s
      (fun opened s' => opened = bundle.linked ∧ Recognises i bundle.linked s') (fun _ _ => True) := by
  rw [openBundle, ensures_bind]
  refine ensures_attempt (admits_of_quiet (quiet_load _) ?_)
  intro _ s' _ _ _
  rw [ensures_bind]
  refine (ensures_openLinked bundle.linked false).mono ?_ fun _ _ _ => trivial
  rintro _ s' ⟨rfl, hrecognises⟩
  rw [ensures_bind]
  refine (ensures_closingOnError admits_closeEngine
    (ensures_createBackendManifestIfNotExists bundle.info)).mono ?_ fun _ _ _ => trivial
  rintro _ s'' (⟨_, _, hlater⟩ | ⟨habsent, -⟩)
  · exact ⟨rfl, hrecognises.later hlater⟩
  · obtain ⟨manifest, hholds, -⟩ := hrecognises
    exact absurd hholds.present habsent

/-- Loading a native module and opening its engine. -/
theorem ensures_openNativeModuleDriver (module : NativeModule) :
    Ensures (amongOpens i) (openNativeModuleDriver module) s (fun _ s' => Later i s s')
      (fun _ _ => True) := by
  rw [openNativeModuleDriver]
  refine ensures_ask_bind (admits_of_quiet (quiet_loaded _) ?_)
  intro trouble s₁ hlater
  cases (respond trouble (.loaded module.directory) s.2).1 with
  | some registered =>
    refine ensures_attempt (admits_of_quiet (quiet_openEngine _) ?_)
    intro _ s' hlater' _ _
    exact hlater.trans hlater'
  | none =>
    dsimp only
    rw [ensures_bind]
    refine ensures_attempt (admits_of_quiet (quiet_load _) ?_)
    intro _ s₂ hlater₂ _ _
    rw [ensures_bind]
    refine ensures_attemptAs _ (admits_of_quiet (quiet_register _) ?_)
    intro _ s₃ hlater₃ _ _
    refine ensures_ask_bind (admits_of_quiet (quiet_remember _ _) ?_)
    intro _ s₄ hlater₄
    refine ensures_attempt (admits_of_quiet (quiet_openEngine _) ?_)
    intro _ s' hlater' _ _
    exact (((hlater.trans hlater₂).trans hlater₃).trans hlater₄).trans hlater'

/-- With a native module a manifest that was there is taken as it is. -/
theorem ensures_openNative (halone : ∀ j, j = i) (module : NativeModule) :
    Ensures (amongOpens i) (openNative module) s
      (fun opened s' => opened = module.info ∧
        (Recognises i module.info s' ∨ ∃ manifest, Holds manifest s ∧ Holds manifest s')) (fun _ _ => True) := by
  rw [openNative, ensures_bind]
  refine (ensures_openNativeModuleDriver module).mono ?_ fun _ _ _ => trivial
  intro _ s₁ hlater₁
  have hmkdir : Ensures (amongOpens i)
      (attemptAs "kvlite: create database directory" (Program.perform (S := Steps) .mkdirAll)) s₁
      (fun _ s' => Later i s₁ s') (fun _ _ => True) :=
    ensures_attemptAs _ (admits_of_quiet quiet_mkdirAll fun _ _ h _ _ => h)
  rw [ensures_bind]
  refine (ensures_closingOnError admits_closeEngine hmkdir).mono ?_ fun _ _ _ => trivial
  intro _ s₂ hlater₂
  have hsame := (hlater₁.trans hlater₂).alone halone
  rw [ensures_bind]
  refine (ensures_closingOnError admits_closeEngine
    (ensures_createBackendManifestIfNotExists module.info)).mono ?_ fun _ _ _ => trivial
  rintro _ s' (⟨manifest, hholds, hlater⟩ | ⟨-, hrecognises⟩)
  · exact ⟨rfl, .inr ⟨manifest, hsame.symm.trans hholds, (hlater.holds manifest hholds).1⟩⟩
  · exact ⟨rfl, .inl hrecognises⟩

/-- `Open` takes the driver from a native module. -/
def UsesNative (installation : Installation) (registry : Bytes → Option Registered) (name : Bytes) : Prop :=
  registry name = none ∧ ∃ moduleErr, installation.bundle name = .error moduleErr

/-- Whoever succeeds has recognised the manifest, or takes the driver from a native module. -/
theorem ensures_openConfiguredEngine (halone : ∀ j, j = i) (installation : Installation) (name : Bytes)
    (driverExplicit : Bool) :
    Ensures (amongOpens i) (openConfiguredEngine installation name driverExplicit) s
      (fun opened s' => selected installation s.2.registry name = some opened ∧
        (Recognises i opened s' ∨ UsesNative installation s.2.registry name ∧
          ∃ manifest, Holds manifest s ∧ Holds manifest s')) (fun _ _ => True) := by
  rw [openConfiguredEngine]
  refine ensures_ask_bind (admits_of_quiet (quiet_lookup name) ?_)
  intro trouble s₁ hlater
  have hlookup : (respond trouble (.lookup name) s.2).1 = s.2.registry name := rfl
  rw [hlookup, selected]
  cases hregistry : s.2.registry name with
  | some registered =>
    refine (ensures_openLinked registered _).mono ?_ fun _ _ _ => trivial
    rintro _ s' ⟨rfl, hrecognises⟩
    exact ⟨rfl, .inl hrecognises⟩
  | none =>
    dsimp only
    split_ifs
    · trivial
    · cases hbundle : installation.bundle name with
      | ok bundle =>
        refine (ensures_openBundle bundle).mono ?_ fun _ _ _ => trivial
        rintro _ s' ⟨rfl, hrecognises⟩
        exact ⟨rfl, .inl hrecognises⟩
      | error moduleErr =>
        cases installation.native name with
        | ok module =>
          refine (ensures_openNative halone module).mono ?_ fun _ _ _ => trivial
          rintro _ s' ⟨rfl, hrecognises | ⟨manifest, hholds, hholds'⟩⟩
          · exact ⟨rfl, .inl hrecognises⟩
          · have hbefore : Holds manifest s := (hlater.alone halone).symm.trans hholds
            exact ⟨rfl, .inr ⟨⟨hregistry, moduleErr, hbundle⟩, manifest, hbefore, hholds'⟩⟩
        | error nativeErr =>
          dsimp only
          split_ifs <;> trivial

end Alone

/-! ### One call -/

/-- What is shown of a thread that is alone holds of its runs, which keep its promises. -/
theorem run_of_alone {α : Type} (plan : Plan) (n : ℕ) {p : Program Steps α}
    {post : α → Option Unit × World → Prop} {s : Option Unit × World}
    (h : p.wp (amongOpens ()) post s) :
    ∃ creator, post (p.run (following plan) (n, s.2)).1 (creator, (p.run (following plan) (n, s.2)).2.2) ∧
      (Present s → creator = s.1) ∧
      ∀ manifest, Holds manifest s → Holds manifest (creator, (p.run (following plan) (n, s.2)).2.2) := by
  induction p generalizing n s with
  | done value => exact ⟨s.1, h, fun _ => rfl, fun _ h => h⟩
  | call request rest ih =>
    let next : Option Unit × World :=
      (follow () request (respond (plan n) request s.2).1 s.1, (respond (plan n) request s.2).2)
    obtain ⟨hpromise, hrest⟩ := h (respond (plan n) request s.2).1 next ⟨⟨plan n, rfl⟩, rfl⟩
    obtain ⟨creator, hpost, hcreator, hholds⟩ := ih _ (n + 1) (hrest next .refl)
    refine ⟨creator, hpost, ?_, fun manifest h => hholds manifest (hpromise.complete manifest h)⟩
    intro hpresent
    obtain ⟨hpresent', hsame⟩ := hpromise.present hpresent
    exact (hcreator hpresent').trans hsame

/-- A call of `Open` in a process with the given drivers; before it, the engine may have
changed the files. -/
structure Attempt where
  installation : Installation
  name : Bytes
  driverExplicit : Bool
  plan : Plan
  registry : Bytes → Option Registered
  loaded : Bytes → Option Registered
  files : List Bytes → List Bytes

namespace Attempt

/-- The process in which the call is made. -/
def world (attempt : Attempt) (directory : Directory) : World :=
  ⟨attempt.registry, attempt.loaded,
    directory.map fun entries => { entries with files := attempt.files entries.files }⟩

def make (attempt : Attempt) (directory : Directory) : Except GoError Registered × Directory :=
  let outcome := run (following attempt.plan)
    (openConfiguredEngine attempt.installation attempt.name attempt.driverExplicit)
    (0, attempt.world directory)
  (outcome.1, outcome.2.2.directory)

def selected (attempt : Attempt) : Option Registered :=
  Backend.selected attempt.installation attempt.registry attempt.name

/-- The driver's texts survive in a manifest that has to be written, and a native module is
opened only where the manifest records it. -/
def Faithful (attempt : Attempt) (directory : Directory) : Prop :=
  ∀ driver, attempt.selected = some driver →
    (directory.manifest = none → driver.Survives) ∧
    (UsesNative attempt.installation attempt.registry attempt.name →
      ∀ manifest, directory.manifest = some (.holds manifest) → manifest.identity = driver.identity)

end Attempt

/-- The path records the identity. -/
def Records (directory : Directory) (identity : Identity) : Prop :=
  ∃ manifest : Manifest, directory.manifest = some (.holds manifest) ∧ manifest.identity = identity

theorem manifest_world (attempt : Attempt) (directory : Directory) :
    (attempt.world directory).directory.manifest = directory.manifest := by
  cases directory <;> rfl

/-- A call keeps what the path records; and when it succeeds, its driver was the one
selected, and the path records it. -/
theorem attempt_spec (attempt : Attempt) (directory : Directory) :
    (∀ identity, Records directory identity → Records (attempt.make directory).2 identity) ∧
      ∀ opened, (attempt.make directory).1 = .ok opened → attempt.selected = some opened ∧
        (attempt.Faithful directory → Records (attempt.make directory).2 opened.identity) := by
  have hensures := ensures_openConfiguredEngine (i := ()) (s := (none, attempt.world directory))
    (fun _ => rfl) attempt.installation attempt.name attempt.driverExplicit
  obtain ⟨creator, hpost, hcreator, hholds⟩ := run_of_alone attempt.plan 0 hensures
  constructor
  · rintro identity ⟨manifest, hmanifest, hidentity⟩
    exact ⟨manifest, hholds manifest ((manifest_world attempt directory).trans hmanifest), hidentity⟩
  · intro opened hopened
    have hresult : (run (following attempt.plan) (openConfiguredEngine attempt.installation
      attempt.name attempt.driverExplicit) (0, attempt.world directory)).1 = .ok opened := hopened
    rw [program_run, hresult] at hpost
    obtain ⟨hselected, hcause⟩ := hpost
    refine ⟨hselected, fun hfaithful => ?_⟩
    obtain ⟨hsurvives, hnative⟩ := hfaithful opened hselected
    rcases hcause with ⟨manifest, hholds', hvalid | ⟨rfl, hcreated⟩⟩ | ⟨huses, manifest, hbefore, hafter⟩
    · exact ⟨manifest, hholds', identity_of_validate hvalid⟩
    · -- The manifest was created by this call.
      have hnone : directory.manifest = none := by
        by_contra hpresent
        have hnobody : creator = none := hcreator (by rwa [Present, manifest_world])
        rw [hnobody] at hcreated
        cases hcreated
      exact ⟨_, hholds', (identity_manifest_iff opened).mpr (hsurvives hnone)⟩
    · exact ⟨manifest, hafter, hnative huses manifest ((manifest_world attempt directory).symm.trans hbefore)⟩

/-! ### Sequences of calls -/

theorem Records.unique {directory : Directory} {identity identity' : Identity} (h : Records directory identity)
    (h' : Records directory identity') : identity = identity' := by
  obtain ⟨manifest, hmanifest, rfl⟩ := h
  obtain ⟨manifest', hmanifest', rfl⟩ := h'
  cases hmanifest.symm.trans hmanifest'
  rfl

/-- Once a call has succeeded, the path records its identity; later calls that succeed have
it too, and a call that selects another driver fails. -/
def StaysBound (calls : List Attempt) (directory : Directory) : Prop :=
  ∀ before call between later after opened, calls = before ++ call :: (between ++ later :: after) →
    (call.make (Machine.after Attempt.make before directory)).1 = .ok opened →
      Records (Machine.after Attempt.make (before ++ call :: between) directory) opened.identity ∧
      (∀ opened', (later.make (Machine.after Attempt.make (before ++ call :: between) directory)).1 =
        .ok opened' → opened'.identity = opened.identity) ∧
      ∀ driver, later.selected = some driver → driver.identity ≠ opened.identity →
        ∃ err, (later.make (Machine.after Attempt.make (before ++ call :: between) directory)).1 = .error err

/-- What a path records stays. -/
theorem records_after (calls : List Attempt) {directory : Directory} {identity : Identity}
    (h : Records directory identity) : Records (Machine.after Attempt.make calls directory) identity := by
  induction calls generalizing directory with
  | nil => exact h
  | cons call calls ih => exact ih ((attempt_spec call directory).1 identity h)

/-- A path stays bound along calls that are faithful where they are made. -/
theorem directory_stays_bound (calls : List Attempt) (directory : Directory)
    (hfaithful : Machine.Along Attempt.make Attempt.Faithful calls directory) : StaysBound calls directory := by
  rintro before call between later after opened rfl hopened
  rw [Machine.along_append, Machine.Along, Machine.along_append, Machine.Along] at hfaithful
  obtain ⟨-, hcall, -, hlater, -⟩ := hfaithful
  have hrecords : Records (Machine.after Attempt.make (before ++ call :: between) directory) opened.identity := by
    rw [Machine.after_append]
    exact records_after between (((attempt_spec call _).2 opened hopened).2 hcall)
  have hpath : Machine.after Attempt.make (before ++ call :: between) directory = Machine.after Attempt.make between
      (call.make (Machine.after Attempt.make before directory)).2 := by
    rw [Machine.after_append]
    rfl
  rw [← hpath] at hlater
  have hsame : ∀ opened', (later.make (Machine.after Attempt.make (before ++ call :: between) directory)).1 =
      .ok opened' → opened'.identity = opened.identity := by
    intro opened' hopened'
    obtain ⟨hkeeps, hspec⟩ := attempt_spec later (Machine.after Attempt.make (before ++ call :: between) directory)
    exact ((hspec opened' hopened').2 hlater).unique (hkeeps _ hrecords)
  refine ⟨hrecords, hsame, ?_⟩
  intro driver hselected hother
  cases hresult : (later.make (Machine.after Attempt.make (before ++ call :: between) directory)).1 with
  | error err => exact ⟨err, rfl⟩
  | ok opened' =>
    have hselected' := ((attempt_spec later _).2 opened' hresult).1
    cases hselected.symm.trans hselected'
    exact absurd (hsame driver hresult) hother

/-- A call with a linked driver, and one with a native module in another process. -/
def linkedAttempt (driver : Registered) : Attempt where
  installation := .none
  name := driver.backend
  driverExplicit := true
  plan _ := .smooth []
  registry name := if name = driver.backend then some driver else none
  loaded _ := none
  files := id

def nativeAttempt : Attempt where
  installation := .onlyNative
  name := text "leveldb"
  driverExplicit := true
  plan _ := .smooth [text "CURRENT"]
  registry _ := none
  loaded _ := none
  files := id

/-- A driver of another engine. -/
def Registered.other : Registered :=
  ⟨text "rocksdb", text "librocksdb", text "1", text "8.0", by decide, by decide,
    Registered.sample.format_ne, by decide⟩

/-- A linked driver opens an absent path, another one is refused, and the first opens it again. -/
theorem linked_driver_stays_bound :
    let calls := [linkedAttempt .sample, linkedAttempt .other, linkedAttempt .sample]
    Machine.Along Attempt.make Attempt.Faithful calls none ∧ StaysBound calls none := by
  intro calls
  have hfaithful : ∀ driver : Registered, driver.Survives → ∀ directory,
      (linkedAttempt driver).Faithful directory := by
    intro driver hsurvives directory opened hopened
    have hregistry : (linkedAttempt driver).registry (linkedAttempt driver).name = some driver :=
      if_pos rfl
    constructor
    · rw [Attempt.selected, selected, hregistry] at hopened
      cases hopened
      exact fun _ => hsurvives
    · rintro ⟨hnone, -⟩
      rw [hregistry] at hnone
      cases hnone
  have hsample : Registered.sample.Survives := ⟨by decide, by decide, by decide⟩
  have hother : Registered.other.Survives := ⟨by decide, by decide, by decide⟩
  have halong : Machine.Along Attempt.make Attempt.Faithful calls none :=
    ⟨hfaithful _ hsample _, hfaithful _ hother _, hfaithful _ hsample _, trivial⟩
  exact ⟨halong, directory_stays_bound _ _ halong⟩

/-- A native module opens a path that is bound to another engine. -/
theorem native_module_takes_bound_path :
    ((linkedAttempt .other).make none).1 = .ok .other ∧
      (nativeAttempt.make ((linkedAttempt .other).make none).2).1 = .ok .sample ∧
      Registered.sample.identity ≠ Registered.other.identity :=
  ⟨rfl, rfl, by decide⟩

end KVLite.Backend
