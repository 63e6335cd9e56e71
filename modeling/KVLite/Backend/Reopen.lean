import KVLite.Backend.Fresh

/-!
# Reopening a directory

A path that `Open` has bound holds the manifest of the driver, and may hold any files. The
next `Open` with the same driver can take another route: a native module is registered when
it is loaded, so that in the same process it is found as a linked driver, whose manifest is
checked, and in a new process as a module again.
-/

namespace KVLite.Backend

open Semantics Fallible

/-! ### The driver and its manifest -/

/-- What is compared is the identity; a manifest that a driver has written is complete. -/
theorem validateBackendManifest_manifest_iff (driver other : Registered) :
    validateBackendManifest driver.manifest other = .ok () ↔ driver.manifest.identity = other.identity := by
  have hcomplete : ¬ (driver.manifest.kvliteFormatVersion ≠ backendManifestVersion ∨
      driver.manifest.backend = [] ∨ driver.manifest.driver = [] ∨ driver.manifest.driverFormat = [] ∨
      driver.manifest.driverVersion = []) := by
    simp [Registered.manifest, Http.toValidUtf8_ne_nil, driver.backend_ne, driver.implementation_ne,
      driver.format_ne, driver.version_ne]
  rw [validateBackendManifest, if_neg hcomplete]
  constructor
  · intro h
    split_ifs at h with hmismatch
    push Not at hmismatch
    exact Identity.ext hmismatch.1 hmismatch.2.1 hmismatch.2.2
  · intro h
    rw [if_neg]
    push Not
    exact ⟨congrArg Identity.backend h, congrArg Identity.implementation h, congrArg Identity.format h⟩

/-- A driver recognises its own manifest when the JSON encoder has not changed the texts. -/
theorem identity_manifest_iff (driver : Registered) :
    driver.manifest.identity = driver.identity ↔ driver.Survives := by
  constructor
  · intro h
    exact ⟨congrArg Identity.backend h, congrArg Identity.implementation h, congrArg Identity.format h⟩
  · intro h
    exact Identity.ext h.backend h.implementation h.format

/-- The driver that `Open` finds in the registry or among the modules. -/
def selected (installation : Installation) (registry : Bytes → Option Registered) (name : Bytes) :
    Option Registered :=
  match registry name with
  | some driver => some driver
  | none =>
    if ¬ (installation.report name).is .driverNotInstalled ∧
        ¬ (installation.report name).is .driverNotLoaded then none
    else
      match installation.bundle name with
      | .ok bundle => some bundle.linked
      | .error _ =>
        match installation.native name with
        | .ok module => some module.info
        | .error _ => none

/-- The registration of a driver does not change which driver is found for its name. -/
theorem Registers.selected {world final : World} {driver : Registered} {installation : Installation}
    {name : Bytes} (h : Registers world final driver)
    (hselected : selected installation world.registry name = some driver) :
    Backend.selected installation final.registry name = some driver := by
  rcases h with hsame | hadded
  · rw [hsame, hselected]
  · by_cases hname : name = driver.backend
    · simp [Backend.selected, hadded, hname]
    · simpa [Backend.selected, hadded, Function.update_of_ne hname] using hselected

/-! ### `Open` on a bound path -/

/-- No step fails. -/
def Plan.Calm (plan : Plan) : Prop := ∀ k, (plan k).err = none

theorem Plan.Calm.answer {plan : Plan} (h : plan.Calm) {α : Type} (k : ℕ) (value : α) :
    (plan k).answer value = .ok value := by
  rw [Trouble.answer, h k]

section Bound

variable {plan : Plan} {world : World} {manifest : Manifest}

theorem Directory.exists_of_manifest {directory : Directory} {content : Content}
    (h : directory.manifest = some content) : ∃ entries, directory = some entries :=
  match directory, h with
  | some entries, _ => ⟨entries, rfl⟩

/-- The files that an engine creates are no manifest. -/
theorem Directory.manifest_adding {directory : Directory} {content : Content}
    (h : directory.manifest = some content) (files : List Bytes) :
    (directory.adding files).manifest = some content := by
  obtain ⟨entries, rfl⟩ := exists_of_manifest h
  exact h

/-- The manifest is compared with the driver. -/
theorem run_prepareBackendManifest_of_bound (hcalm : plan.Calm) (driver : Registered)
    (allowLegacyRocksDB : Bool) (n : ℕ) (hbound : world.directory.manifest = some (.holds manifest)) :
    run (following plan) (prepareBackendManifest driver allowLegacyRocksDB) (n, world) =
      match validateBackendManifest manifest driver with
      | .ok _ => (.ok false, (n + 2, world))
      | .error err => (.error err, (n + 2, world)) := by
  have hread : respond (plan (n + 1)) .readManifest world = (.ok (some (.holds manifest)), world) := by
    rw [respond, hbound, hcalm.answer]
  obtain ⟨entries, hdirectory⟩ := Directory.exists_of_manifest hbound
  rw [prepareBackendManifest, run_attemptAs_bind _ () (run_mkdirAll_of_exists hdirectory), hcalm n]
  dsimp only
  rw [readBackendManifest, bind_assoc, run_ask_bind, hread]
  dsimp only
  rw [pure_bind]
  dsimp only
  cases validateBackendManifest manifest driver <;> rfl

theorem run_openLinked_of_bound (hcalm : plan.Calm) (driver : Registered) (allowLegacyRocksDB : Bool)
    (n : ℕ) (hbound : world.directory.manifest = some (.holds manifest)) :
    run (following plan) (openLinked driver allowLegacyRocksDB) (n, world) =
      match validateBackendManifest manifest driver with
      | .ok _ => (.ok driver, (n + 4, { world with
          directory := world.directory.adding (plan (n + 3)).files }))
      | .error err => (.error err, (n + 3, world)) := by
  rw [openLinked, run_attemptAs_bind _ () (run_available driver n), hcalm n]
  dsimp only
  rw [run_bind, run_prepareBackendManifest_of_bound hcalm driver _ (n + 1) hbound]
  cases validateBackendManifest manifest driver with
  | error err => rfl
  | ok _ =>
    have hengine : (Program.perform (S := Steps) (.openEngine driver)).run (following plan) (n + 3, world) =
        ((plan (n + 3)).answer (), (n + 4, { world with
          directory := world.directory.adding (plan (n + 3)).files })) := rfl
    dsimp only
    rw [run_attempt_bind () hengine, hcalm]
    rfl

/-- The library checks the manifest. -/
theorem run_openBundle_of_bound (hcalm : plan.Calm) (bundle : Bundle) (n : ℕ)
    (hbound : world.directory.manifest = some (.holds manifest)) :
    (run (following plan) (openBundle bundle) (n, world)).1 =
      (validateBackendManifest manifest bundle.linked).map fun _ => bundle.linked := by
  rw [openBundle, run_attempt_bind () (run_load bundle.directory n), hcalm n]
  dsimp only
  rw [run_bind, run_openLinked_of_bound hcalm bundle.linked _ (n + 1) hbound]
  cases validateBackendManifest manifest bundle.linked with
  | error err => rfl
  | ok _ =>
    dsimp only
    rw [run_bind, run_closingOnError,
      run_createBackendManifestIfNotExists_of_holds _ (Directory.manifest_adding hbound _), hcalm]
    rfl

/-- With a native module the manifest is not checked. -/
theorem run_afterNative_of_bound (hcalm : plan.Calm) (module : NativeModule) (n : ℕ)
    (hbound : world.directory.manifest = some (.holds manifest)) :
    (run (following plan) (afterNative module) (n, world)).1 = .ok module.info := by
  obtain ⟨entries, hdirectory⟩ := Directory.exists_of_manifest hbound
  rw [afterNative, run_bind, run_closingOnError,
    run_attemptAs _ () (run_mkdirAll_of_exists hdirectory), hcalm n]
  dsimp only
  rw [run_bind, run_closingOnError, run_createBackendManifestIfNotExists_of_holds _ hbound, hcalm]
  rfl

theorem run_openNative_of_bound (hcalm : plan.Calm) (module : NativeModule) (n : ℕ)
    (hunregistered : world.registry module.info.backend = none)
    (hbound : world.directory.manifest = some (.holds manifest)) :
    (run (following plan) (openNative module) (n, world)).1 = .ok module.info := by
  rw [openNative_eq, run_bind]
  cases hloaded : world.loaded module.directory with
  | some registered =>
    rw [run_openNativeModuleDriver_of_loaded hloaded, hcalm.answer]
    exact run_afterNative_of_bound hcalm module _ (Directory.manifest_adding hbound _)
  | none =>
    rw [run_openNativeModuleDriver_of_new hloaded ⟨hcalm _, hcalm _, hunregistered⟩, hcalm.answer]
    exact run_afterNative_of_bound hcalm module _ (Directory.manifest_adding hbound _)

/-- `Open` on a path with a manifest: a native module does not look at it, and all others
compare it with the driver. -/
theorem run_openConfiguredEngine_of_bound (hcalm : plan.Calm) {installation : Installation} {name : Bytes}
    (driverExplicit : Bool) {driver : Registered}
    (hselected : selected installation world.registry name = some driver)
    (hbound : world.directory.manifest = some (.holds manifest)) :
    driver.Survives ∧ (run (following plan)
        (openConfiguredEngine installation name driverExplicit) (0, world)).1 = .ok driver ∨
      (run (following plan) (openConfiguredEngine installation name driverExplicit) (0, world)).1 =
        (validateBackendManifest manifest driver).map fun _ => driver := by
  have hlookup : respond (plan 0) (.lookup name) world = (world.registry name, world) := rfl
  rw [openConfiguredEngine, run_ask_bind, hlookup]
  rw [selected] at hselected
  cases hregistry : world.registry name with
  | some registered =>
    rw [hregistry] at hselected
    cases hselected
    right
    dsimp only
    rw [run_openLinked_of_bound hcalm driver _ 1 hbound]
    cases validateBackendManifest manifest driver <;> rfl
  | none =>
    rw [hregistry] at hselected
    dsimp only at hselected ⊢
    split_ifs at hselected ⊢
    cases hbundle : installation.bundle name with
    | ok bundle =>
      rw [hbundle] at hselected
      cases hselected
      exact .inr (run_openBundle_of_bound hcalm bundle 1 hbound)
    | error moduleErr =>
      rw [hbundle] at hselected
      dsimp only at hselected ⊢
      cases hnative : installation.native name with
      | error nativeErr =>
        rw [hnative] at hselected
        cases hselected
      | ok module =>
        rw [hnative] at hselected
        cases hselected
        have hunregistered : world.registry module.info.backend = none := by
          rw [installation.native_backend hnative, hregistry]
        exact .inl ⟨module.survives, run_openNative_of_bound hcalm module 1 hunregistered hbound⟩

/-- A path with the driver's own manifest, in any process. -/
theorem opens_own_manifest_iff (hcalm : plan.Calm) {installation : Installation} {name : Bytes}
    (driverExplicit : Bool) {process : World} {directory : Directory} {driver : Registered}
    (hselected : selected installation process.registry name = some driver)
    (hbound : directory.manifest = some (.holds driver.manifest)) :
    (run (following plan) (openConfiguredEngine installation name driverExplicit)
      (0, { process with directory := directory })).1 = .ok driver ↔ driver.Survives := by
  have hselected' : selected installation
      (World.registry { process with directory := directory }) name = some driver := hselected
  rcases run_openConfiguredEngine_of_bound hcalm driverExplicit hselected' hbound with
    ⟨hsurvives, hrun⟩ | hrun
  · exact iff_of_true hrun hsurvives
  · rw [hrun, ← identity_manifest_iff, ← validateBackendManifest_manifest_iff]
    cases validateBackendManifest driver.manifest driver <;> simp [Except.map]

end Bound

/-! ### Opening and reopening -/

/-- `Open` on the path succeeds and leaves a manifest, and so does a further `Open` with the
same driver, in the same process or in another one, whatever files there are then. -/
def OpensAndReopens (plan : Plan) (installation : Installation) (name : Bytes) (driverExplicit : Bool)
    (world : World) (driver : Registered) : Prop :=
  ∃ st, run (following plan) (openConfiguredEngine installation name driverExplicit) (0, world) =
      (.ok driver, st) ∧
    st.2.directory.manifest.isSome = true ∧
    ∀ (later : Plan) (laterExplicit : Bool) (files : List Bytes), later.Calm →
      (run (following later) (openConfiguredEngine installation name laterExplicit)
        (0, { st.2 with directory := st.2.directory.adding files })).1 = .ok driver ∧
      ∀ process : World, selected installation process.registry name = some driver →
        (run (following later) (openConfiguredEngine installation name laterExplicit)
          (0, { process with directory := st.2.directory.adding files })).1 = .ok driver

/-- A way along which the engine of a native module creates files. -/
def Route.IsSpoiled : Route → Prop
  | .spoiled _ => True
  | _ => False

/-- Without trouble the way depends on the driver that is found. -/
theorem route_of_selected {plan : Plan} (hcalm : plan.Calm) {installation : Installation} {name : Bytes}
    {world : World} {driver : Registered}
    (hselected : selected installation world.registry name = some driver) :
    (route plan installation name world).IsSpoiled ∨
      ∃ first creation last, route plan installation name world = .phased first creation last driver := by
  have hnativeRoute : ∀ (first : ℕ) (files : List Bytes) (module : NativeModule),
      (nativeRoute first files module).IsSpoiled ∨ ∃ first' creation last,
        nativeRoute first files module = .phased first' creation last module.info := by
    intro first files module
    rw [nativeRoute]
    split_ifs
    · exact .inr ⟨_, _, _, rfl⟩
    · exact .inl trivial
  rw [selected] at hselected
  rw [route]
  cases hregistry : world.registry name with
  | some registered =>
    rw [hregistry] at hselected
    cases hselected
    exact .inr ⟨_, _, _, rfl⟩
  | none =>
    rw [hregistry] at hselected
    dsimp only at hselected ⊢
    split_ifs at hselected ⊢
    cases hbundle : installation.bundle name with
    | ok bundle =>
      rw [hbundle] at hselected
      cases hselected
      exact .inr ⟨_, _, _, rfl⟩
    | error moduleErr =>
      rw [hbundle] at hselected
      dsimp only at hselected ⊢
      cases hnative : installation.native name with
      | error nativeErr =>
        rw [hnative] at hselected
        cases hselected
      | ok module =>
        rw [hnative] at hselected
        cases hselected
        have hloads : Loads plan module world 2 := by
          refine ⟨hcalm _, hcalm _, ?_⟩
          rw [installation.native_backend hnative, hregistry]
        dsimp only
        cases world.loaded module.directory with
        | some _ => exact hnativeRoute ..
        | none =>
          dsimp only
          rw [if_pos hloads]
          exact hnativeRoute ..

/-- A run without trouble that is not spoiled binds the path. -/
theorem binds_of_calm {plan : Plan} (hcalm : plan.Calm) {installation : Installation} {name : Bytes}
    (driverExplicit : Bool) {world : World} {driver : Registered} (hfresh : Fresh world.directory)
    (hselected : selected installation world.registry name = some driver)
    (hroute : ¬ (route plan installation name world).IsSpoiled) :
    ∃ st : ℕ × World, run (following plan) (openConfiguredEngine installation name driverExplicit)
        (0, world) = (.ok driver, st) ∧
      selected installation st.2.registry name = some driver ∧
      st.2.directory.manifest = some (.holds driver.manifest) := by
  have hends := ends_openConfiguredEngine plan installation name driverExplicit hfresh
  obtain ⟨first, creation, last, heq⟩ := (route_of_selected hcalm hselected).resolve_left hroute
  rw [heq] at hends
  obtain ⟨hfirst, hlast, final, hregisters, ⟨files, hdirectory⟩, hphased⟩ := hends
  refine ⟨final, hphased.eq_of_calm hfirst hlast fun k _ _ => hcalm k, hregisters.selected hselected, ?_⟩
  rw [hdirectory]
  rfl

/-- A fresh path is opened and reopened when the texts of the driver survive in the manifest
and the engine of a native module creates no files. -/
theorem fresh_directory_reopens_iff (plan : Plan) (installation : Installation) (name : Bytes)
    (driverExplicit : Bool) (world : World) (driver : Registered) (hcalm : plan.Calm)
    (hfresh : Fresh world.directory) (hselected : selected installation world.registry name = some driver) :
    OpensAndReopens plan installation name driverExplicit world driver ↔
      driver.Survives ∧ ¬ (route plan installation name world).IsSpoiled := by
  constructor
  · rintro ⟨st, hrun, -, hlater⟩
    have hroute : ¬ (route plan installation name world).IsSpoiled := by
      have hok := (ends_openConfiguredEngine plan installation name driverExplicit hfresh).ok_iff.mp
        (congrArg Prod.fst hrun)
      obtain ⟨_, _, _, heq, -⟩ := hok
      rw [heq]
      exact id
    obtain ⟨st', hrun', hselected', hbound⟩ := binds_of_calm hcalm driverExplicit hfresh hselected hroute
    cases hrun.symm.trans hrun'
    -- The driver reads its manifest back.
    refine ⟨?_, hroute⟩
    have hbound' := Directory.manifest_adding hbound []
    apply (opens_own_manifest_iff hcalm driverExplicit hselected' hbound').mp
    exact (hlater plan driverExplicit [] hcalm).1
  · rintro ⟨hsurvives, hroute⟩
    obtain ⟨st, hrun, hselected', hbound⟩ := binds_of_calm hcalm driverExplicit hfresh hselected hroute
    refine ⟨st, hrun, by rw [hbound]; rfl, ?_⟩
    intro later laterExplicit files hcalm'
    have hbound' := Directory.manifest_adding hbound files
    refine ⟨(opens_own_manifest_iff hcalm' laterExplicit hselected' hbound').mpr hsurvives, ?_⟩
    intro process hprocess
    exact (opens_own_manifest_iff hcalm' laterExplicit hprocess hbound').mpr hsurvives

/-- A linked driver, which creates a file. -/
theorem linked_driver_reopens :
    Plan.Calm (fun _ => .smooth [text "CURRENT"]) ∧
      OpensAndReopens (fun _ => .smooth [text "CURRENT"]) .none (text "leveldb") true (.sample none) .sample := by
  refine ⟨fun _ => rfl, ?_⟩
  refine (fresh_directory_reopens_iff _ .none (text "leveldb") true (.sample none) .sample (fun _ => rfl)
    (.inl rfl) rfl).mpr ⟨⟨?_, ?_, ?_⟩, id⟩ <;> decide

/-- A native module for the driver, and nothing else. -/
def NativeModule.sample : NativeModule := ⟨text "/modules/leveldb", .sample, ⟨by decide, by decide, by decide⟩⟩

def Installation.onlyNative : Installation where
  report name := .detail .driverNotLoaded name
  bundle name := .error (.detail .driverNotLoaded name)
  native name := if name = text "leveldb" then .ok .sample else .error (.detail .moduleNotInstalled name)
  bundle_backend h := nomatch h
  native_backend := by
    intro name found h
    split_ifs at h with hname
    cases h
    exact hname.symm

/-- The engine of a native module creates a file on an absent path, and `Open` fails. -/
theorem native_engine_with_files_fails :
    selected .onlyNative (fun _ => none) (text "leveldb") = some .sample ∧ Fresh none ∧
      Plan.Calm (fun _ => .smooth [text "CURRENT"]) ∧
      ∃ st, run (following fun _ => .smooth [text "CURRENT"])
          (openConfiguredEngine .onlyNative (text "leveldb") true) (0, ⟨fun _ => none, fun _ => none, none⟩) =
        (.error (.of .backendManifestMissing), st) :=
  ⟨rfl, .inl rfl, fun _ => rfl, _, rfl⟩

end KVLite.Backend
