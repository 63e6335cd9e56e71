import KVLite.Backend.Manifest

/-!
# Opening a directory that holds nothing

On a path that is absent or empty, `Open` writes a manifest. With a linked driver, and so
inside a C shared library, it does so before the engine is opened; with a native module it
opens the engine first and then asks that the directory be empty. What a failed `Open`
leaves behind, and whether an `Open` succeeds at all, follows from this order.

## Main definitions

* `Fresh` — a path that is absent or empty
* `Phased` — how code ends that creates the manifest in one of its steps
* `Route`, `route` — the way that `Open` takes on a fresh path
* `LeavesNoTrace` — a path that a failed `Open` has not bound

## Main results

* `phased_openLinked`, `phased_openBundle`, `phased_afterNative` — the steps of each mechanism
* `ends_openConfiguredEngine` — `Open` takes its route, for every plan of the steps
* `failed_open_leaves_no_trace_iff` — failures that leave the path unbound
-/

namespace KVLite.Backend

open Semantics Fallible

/-- A path that is absent or empty. -/
def Fresh (directory : Directory) : Prop := directory = none ∨ directory = some ⟨none, []⟩

section Steps

variable {α β : Type} {plan : Plan} {x : Program Steps (Except GoError α)} {f : α → Opening β}
  {st st' : ℕ × World} {trouble : Trouble}

/-- A step whose error ends the code. -/
theorem run_attempt_bind (value : α) (hx : x.run (following plan) st = (trouble.answer value, st')) :
    run (following plan) (attempt x >>= f) st =
      match trouble.err with
      | some err => (.error err, st')
      | none => run (following plan) (f value) st' := by
  rw [run_bind, show run (following plan) (attempt x) st = _ from hx, Trouble.answer]
  cases trouble.err <;> rfl

theorem run_attemptAs (context : String) (value : α)
    (hx : x.run (following plan) st = (trouble.answer value, st')) :
    run (following plan) (attemptAs context x) st =
      match trouble.err with
      | some err => (.error (.wrap (text context) err), st')
      | none => (.ok value, st') := by
  show Program.run _ (_ <$> x) st = _
  rw [map_eq_pure_bind, Program.run_bind, hx, Trouble.answer]
  cases trouble.err <;> rfl

theorem run_attemptAs_bind (context : String) (value : α)
    (hx : x.run (following plan) st = (trouble.answer value, st')) :
    run (following plan) (attemptAs context x >>= f) st =
      match trouble.err with
      | some err => (.error (.wrap (text context) err), st')
      | none => run (following plan) (f value) st' := by
  rw [run_bind, run_attemptAs context value hx]
  cases trouble.err <;> rfl

theorem run_ask_bind {request : Call} {f : request.Answer → Opening β} (n : ℕ) (world : World) :
    run (following plan) (ask request >>= f) (n, world) =
      run (following plan) (f (respond (plan n) request world).1)
        (n + 1, (respond (plan n) request world).2) := rfl

end Steps

/-! ### Failures before and after the creation of the manifest -/

section Phases

variable {α β : Type} {plan : Plan} {first creation last : ℕ} {value : α} {final : ℕ × World}
  {result : Except GoError α × (ℕ × World)}

/-- How code that creates the manifest ends on a fresh path. Its steps have the numbers
from `first` to `last`. Trouble up to the exclusive creation leaves the path fresh, trouble
after it leaves a manifest file. -/
inductive Phased (plan : Plan) (first creation last : ℕ) (value : α) (final : ℕ × World) :
    Except GoError α × (ℕ × World) → Prop
  | early {k : ℕ} {err : GoError} {st : ℕ × World} (from_le : first ≤ k) (le : k ≤ creation)
    (trouble : (plan k).err ≠ none) (fresh : Fresh st.2.directory) :
    Phased plan first creation last value final (.error err, st)
  | late {k : ℕ} {err : GoError} {st : ℕ × World}
    (calm : ∀ k, first ≤ k → k ≤ creation → (plan k).err = none) (lt : creation < k) (le : k ≤ last)
    (trouble : (plan k).err ≠ none) (bound : st.2.directory.manifest.isSome = true) :
    Phased plan first creation last value final (.error err, st)
  | done (calm : ∀ k, first ≤ k → k ≤ last → (plan k).err = none) :
    Phased plan first creation last value final (.ok value, final)

/-- A first step without trouble. -/
theorem Phased.step (hcalm : (plan first).err = none)
    (h : Phased plan (first + 1) creation last value final result) :
    Phased plan first creation last value final result := by
  have hextend : ∀ {bound : ℕ}, (∀ k, first + 1 ≤ k → k ≤ bound → (plan k).err = none) →
      ∀ k, first ≤ k → k ≤ bound → (plan k).err = none := by
    intro bound h k hk hbound
    by_cases heq : k = first
    · rw [heq, hcalm]
    · exact h k (by omega) hbound
  cases h with
  | early from_le le trouble fresh => exact .early (by omega) le trouble fresh
  | late calm lt le trouble bound => exact .late (hextend calm) lt le trouble bound
  | done calm => exact .done (hextend calm)

/-- Code that follows when all has gone well. -/
theorem Phased.bind {x : Opening α} {f : α → Opening β} {st final' : ℕ × World} {last' : ℕ} {value' : β}
    (h : Phased plan first creation last value final (run (following plan) x st))
    (hlast : last ≤ last')
    (hnext : (∀ k, first ≤ k → k ≤ last → (plan k).err = none) →
      Phased plan first creation last' value' final' (run (following plan) (f value) final)) :
    Phased plan first creation last' value' final' (run (following plan) (x >>= f) st) := by
  rw [run_bind]
  generalize run (following plan) x st = result at h
  cases h with
  | early from_le le trouble fresh => exact .early from_le le trouble fresh
  | late calm lt le trouble bound => exact .late calm lt (by omega) trouble bound
  | done calm => exact hnext calm

/-- Without trouble all goes well. -/
theorem Phased.eq_of_calm (h : Phased plan first creation last value final result)
    (hfirst : first ≤ creation) (hlast : creation ≤ last) (hcalm : ∀ k, first ≤ k → k ≤ last → (plan k).err = none) :
    result = (.ok value, final) := by
  cases h with
  | early from_le le trouble _ => exact absurd (hcalm _ from_le (by omega)) trouble
  | late _ lt le trouble _ => exact absurd (hcalm _ (by omega) le) trouble
  | done _ => rfl

end Phases

/-! ### A linked driver -/

section Linked

variable {plan : Plan} {world : World}

/-- The directory after `mkdirAll`. -/
theorem Fresh.made {directory : Directory} (h : Fresh directory) :
    directory.getD ⟨none, []⟩ = ⟨none, []⟩ := by
  rcases h with rfl | rfl <;> rfl

theorem Fresh.manifest {directory : Directory} (h : Fresh directory) : directory.manifest = none := by
  rcases h with rfl | rfl <;> rfl

/-- The world with an empty directory, and with one that holds a manifest and files. -/
def World.emptied (world : World) : World := { world with directory := some ⟨none, []⟩ }

def World.bound (world : World) (driver : Registered) (files : List Bytes) : World :=
  { world with directory := some ⟨some (.holds driver.manifest), files⟩ }

theorem run_available (driver : Registered) (n : ℕ) :
    (Program.perform (S := Steps) (.available driver)).run (following plan) (n, world) =
      ((plan n).answer (), (n + 1, world)) := rfl

theorem run_mkdirAll_of_some {n : ℕ} {err : GoError} (h : (plan n).err = some err) :
    (Program.perform (S := Steps) .mkdirAll).run (following plan) (n, world) =
      ((plan n).answer (), (n + 1, world)) := by
  show following plan .mkdirAll (n, world) = _
  simp only [following, respond, h, Trouble.answer]

theorem run_mkdirAll_of_none {n : ℕ} (h : (plan n).err = none) (hfresh : Fresh world.directory) :
    (Program.perform (S := Steps) .mkdirAll).run (following plan) (n, world) =
      ((plan n).answer (), (n + 1, world.emptied)) := by
  show following plan .mkdirAll (n, world) = _
  simp only [following, respond, h, Trouble.answer, hfresh.made]
  rfl

theorem run_mkdirAll_of_exists {n : ℕ} {entries : Entries} (hdirectory : world.directory = some entries) :
    (Program.perform (S := Steps) .mkdirAll).run (following plan) (n, world) =
      ((plan n).answer (), (n + 1, world)) := by
  cases h : (plan n).err with
  | some err => exact run_mkdirAll_of_some h
  | none =>
    show following plan .mkdirAll (n, world) = _
    simp only [following, respond, h, Trouble.answer, hdirectory, Option.getD_some]
    rw [← hdirectory]

theorem run_readDir_of_files {n : ℕ} {files : List Bytes} (hdirectory : world.directory = some ⟨none, files⟩) :
    (Program.perform (S := Steps) .readDir).run (following plan) (n, world) =
      ((plan n).answer files.length, (n + 1, world)) := by
  show following plan .readDir (n, world) = _
  simp only [following, respond, hdirectory]
  rfl

/-- The exclusive creation is step `n`. -/
theorem phased_createBackendManifest (plan : Plan) (driver : Registered) (n : ℕ) (world : World) :
    Phased plan n n (n + 2) () (n + 3, world.bound driver [])
      (run (following plan) (createBackendManifest driver) (n, world.emptied)) := by
  rw [createBackendManifest, run_ask_bind]
  cases h0 : (plan n).err with
  | some err =>
    have hcreate : respond (plan n) .create world.emptied = (.failed err, world.emptied) := by
      rw [respond, World.emptied, h0]
    rw [hcreate]
    exact .early (Nat.le_refl n) (Nat.le_refl n) (by rw [h0]; nofun) (.inr rfl)
  | none =>
    have hcreate : respond (plan n) .create world.emptied =
        (.created, { world with directory := some ⟨some .unreadable, []⟩ }) := by
      rw [respond, World.emptied, h0]
    have hcalm : ∀ k, n ≤ k → k ≤ n → (plan k).err = none := by
      intro k hk hk'
      rw [Nat.le_antisymm hk' hk, h0]
    rw [hcreate]
    dsimp only
    -- From here on there is a manifest file.
    rw [run_attemptAs_bind _ () rfl]
    cases h1 : (plan (n + 1)).err with
    | some err => exact .late hcalm (Nat.lt_succ_self n) (by omega) (by rw [h1]; nofun) rfl
    | none =>
      have hwritten : following plan (.write driver.manifest)
          (n + 1, { world with directory := some ⟨some .unreadable, []⟩ }) =
            ((plan (n + 1)).answer (), (n + 2, world.bound driver [])) := by
        simp [following, respond, h1, World.bound]
      dsimp only
      rw [hwritten, run_attemptAs _ () rfl]
      cases h2 : (plan (n + 2)).err with
      | some err => exact .late hcalm (k := n + 2) (by omega) (by omega) (by rw [h2]; nofun) rfl
      | none =>
        refine .done fun k hk hk' => ?_
        obtain rfl | rfl | rfl : k = n ∨ k = n + 1 ∨ k = n + 2 := by omega
        exacts [h0, h1, h2]

/-- On a fresh path no manifest is found. -/
theorem run_readBackendManifest_bind {β : Type} {f : Option Manifest → Opening β} {n : ℕ}
    (hnone : world.directory.manifest = none) :
    run (following plan) (readBackendManifest >>= f) (n, world) =
      match (plan n).err with
      | some err => (.error (.wrap (text "kvlite: read backend manifest") err), (n + 1, world))
      | none => run (following plan) (f none) (n + 1, world) := by
  have hread : respond (plan n) .readManifest world = ((plan n).answer none, world) := by
    rw [respond, hnone]
  rw [readBackendManifest, bind_assoc, run_ask_bind, hread, Trouble.answer]
  cases (plan n).err <;> rfl

/-- Steps: `mkdirAll`, the manifest, the entries, and the creation, which is step `n + 3`. -/
theorem phased_prepareBackendManifest (plan : Plan) (driver : Registered) (allowLegacyRocksDB : Bool)
    (n : ℕ) (hfresh : Fresh world.directory) :
    Phased plan n (n + 3) (n + 5) false (n + 6, world.bound driver [])
      (run (following plan) (prepareBackendManifest driver allowLegacyRocksDB) (n, world)) := by
  rw [prepareBackendManifest]
  cases h0 : (plan n).err with
  | some err =>
    rw [run_attemptAs_bind _ () (run_mkdirAll_of_some h0), h0]
    exact .early (Nat.le_refl n) (by omega) (by rw [h0]; nofun) hfresh
  | none =>
    rw [run_attemptAs_bind _ () (run_mkdirAll_of_none h0 hfresh), h0]
    refine .step h0 ?_
    dsimp only
    rw [run_readBackendManifest_bind rfl]
    cases h1 : (plan (n + 1)).err with
    | some err => exact .early (Nat.le_refl _) (by omega) (by rw [h1]; nofun) (.inr rfl)
    | none =>
      refine .step h1 ?_
      dsimp only
      rw [run_attemptAs_bind _ 0 rfl]
      cases h2 : (plan (n + 1 + 1)).err with
      | some err => exact .early (Nat.le_refl _) (by omega) (by rw [h2]; nofun) (.inr rfl)
      | none =>
        refine .step h2 ?_
        dsimp only
        rw [if_pos rfl]
        exact (phased_createBackendManifest plan driver (n + 3) world).bind (Nat.le_refl _)
          fun hcalm => .done hcalm

/-- How `Open` with a linked driver ends: the creation is step `n + 4`, the engine is
opened in step `n + 7`. -/
theorem phased_openLinked (plan : Plan) (driver : Registered) (allowLegacyRocksDB : Bool) (n : ℕ)
    (hfresh : Fresh world.directory) :
    Phased plan n (n + 4) (n + 7) driver (n + 8, world.bound driver (plan (n + 7)).files)
      (run (following plan) (openLinked driver allowLegacyRocksDB) (n, world)) := by
  rw [openLinked, run_attemptAs_bind _ () rfl]
  cases h0 : (plan n).err with
  | some err => exact .early (Nat.le_refl n) (by omega) (by rw [h0]; nofun) hfresh
  | none =>
    refine .step h0 ?_
    refine (phased_prepareBackendManifest plan driver allowLegacyRocksDB (n + 1) hfresh).bind (by omega)
      fun hcalm => ?_
    have hengine : (Program.perform (S := Steps) (.openEngine driver)).run (following plan)
        (n + 1 + 6, world.bound driver []) =
          ((plan (n + 7)).answer (), (n + 8, world.bound driver (plan (n + 7)).files)) := by
      show ((plan (n + 7)).answer (), (n + 8, _)) = _
      simp [World.bound, Directory.adding, respond]
    rw [run_attempt_bind () hengine]
    cases h7 : (plan (n + 7)).err with
    | some err =>
      exact .late (fun k hk hk' => hcalm k hk (by omega)) (k := n + 7) (by omega) (by omega)
        (by rw [h7]; nofun) rfl
    | none =>
      refine .done fun k hk hk' => ?_
      by_cases heq : k = n + 7
      · rw [heq, h7]
      · exact hcalm k hk (by omega)

/-- A path with files and without a manifest is refused. -/
theorem run_prepareBackendManifest_of_files (plan : Plan) (driver : Registered) (n : ℕ) {files : List Bytes}
    (hfiles : files ≠ []) (hdirectory : world.directory = some ⟨none, files⟩) :
    ∃ err st, run (following plan) (prepareBackendManifest driver false) (n, world) =
      (.error err, st) := by
  rw [prepareBackendManifest, run_attemptAs_bind _ () (run_mkdirAll_of_exists hdirectory)]
  cases (plan n).err with
  | some err => exact ⟨_, _, rfl⟩
  | none =>
    dsimp only
    rw [run_readBackendManifest_bind (by rw [hdirectory]; rfl)]
    cases (plan (n + 1)).err with
    | some err => exact ⟨_, _, rfl⟩
    | none =>
      dsimp only
      rw [run_attemptAs_bind _ files.length (run_readDir_of_files hdirectory)]
      cases (plan (n + 1 + 1)).err with
      | some err => exact ⟨_, _, rfl⟩
      | none =>
        dsimp only
        rw [if_neg (by rwa [List.length_eq_zero_iff])]
        exact ⟨_, _, rfl⟩

theorem run_openLinked_of_files (plan : Plan) (driver : Registered) (n : ℕ) {files : List Bytes}
    (hfiles : files ≠ []) (hdirectory : world.directory = some ⟨none, files⟩) :
    ∃ err st, run (following plan) (openLinked driver false) (n, world) = (.error err, st) := by
  rw [openLinked, run_attemptAs_bind _ () (run_available driver n)]
  cases (plan n).err with
  | some err => exact ⟨_, _, rfl⟩
  | none =>
    obtain ⟨err, st, hrun⟩ := run_prepareBackendManifest_of_files plan driver (n + 1) hfiles hdirectory
    dsimp only
    rw [run_bind_error hrun]
    exact ⟨err, st, rfl⟩

end Linked

/-! ### The modules -/

section Modules

variable {plan : Plan} {world : World}

/-- The engine is closed when the code fails. -/
theorem run_closingOnError {α : Type} (x : Opening α) (st : ℕ × World) :
    run (following plan) (closingOnError x) st =
      match run (following plan) x st with
      | (.ok value, st') => (.ok value, st')
      | (.error err, st') => (.error err, (st'.1 + 1, st'.2)) := by
  rw [closingOnError, run_bind, run_lift, program_run]
  rcases run (following plan) x st with ⟨_ | _, _⟩ <;> rfl

theorem Phased.closing {α : Type} {first creation last : ℕ} {value : α} {final st : ℕ × World} {x : Opening α}
    (h : Phased plan first creation last value final (run (following plan) x st)) :
    Phased plan first creation last value final (run (following plan) (closingOnError x) st) := by
  rw [run_closingOnError]
  generalize run (following plan) x st = result at h
  cases h with
  | early from_le le trouble fresh => exact .early from_le le trouble fresh
  | late calm lt le trouble bound => exact .late calm lt le trouble bound
  | done calm => exact .done calm

/-- A manifest that is there is taken as it is. -/
theorem run_createBackendManifestIfNotExists_of_holds {manifest : Manifest} (info : Registered) {n : ℕ}
    (hholds : world.directory.manifest = some (.holds manifest)) :
    run (following plan) (createBackendManifestIfNotExists info) (n, world) =
      match (plan n).err with
      | some err => (.error (.wrap (text "kvlite: read backend manifest") err), (n + 1, world))
      | none => (.ok (), (n + 1, world)) := by
  have hread : respond (plan n) .readManifest world = ((plan n).answer (some (.holds manifest)), world) := by
    rw [respond, hholds]
  rw [createBackendManifestIfNotExists, readBackendManifest, bind_assoc, run_ask_bind, hread, Trouble.answer]
  cases (plan n).err <;> rfl

/-- The library creates the manifest in step `n + 5`; the process that loaded it reads the
manifest in step `n + 9`. -/
theorem phased_openBundle (plan : Plan) (bundle : Bundle) (n : ℕ) (hfresh : Fresh world.directory) :
    Phased plan n (n + 5) (n + 9) bundle.linked (n + 10, world.bound bundle.linked (plan (n + 8)).files)
      (run (following plan) (openBundle bundle) (n, world)) := by
  rw [openBundle, run_attempt_bind () rfl]
  cases h0 : (plan n).err with
  | some err => exact .early (Nat.le_refl n) (by omega) (by rw [h0]; nofun) hfresh
  | none =>
    refine .step h0 ?_
    refine (phased_openLinked plan bundle.linked false (n + 1) hfresh).bind (by omega) fun hcalm => ?_
    rw [run_bind, run_closingOnError, run_createBackendManifestIfNotExists_of_holds _ rfl]
    cases h9 : (plan (n + 1 + 8)).err with
    | some err =>
      exact .late (fun k hk hk' => hcalm k hk (by omega)) (k := n + 9) (by omega) (by omega)
        (by rw [h9]; nofun) rfl
    | none =>
      refine .done fun k hk hk' => ?_
      by_cases heq : k = n + 9
      · rw [heq, h9]
      · exact hcalm k hk (by omega)

/-- What is left of `Open` with a native module when the engine is open. -/
def afterNative (module : NativeModule) : Opening Registered := do
  closingOnError (attemptAs "kvlite: create database directory" (Program.perform (S := Steps) .mkdirAll))
  closingOnError (createBackendManifestIfNotExists module.info)
  return module.info

theorem openNative_eq (module : NativeModule) :
    openNative module = openNativeModuleDriver module >>= fun _ => afterNative module := rfl

/-- On a path that is still fresh the creation is step `n + 3`. -/
theorem phased_afterNative (plan : Plan) (module : NativeModule) (n : ℕ) (hfresh : Fresh world.directory) :
    Phased plan n (n + 3) (n + 5) module.info (n + 6, world.bound module.info [])
      (run (following plan) (afterNative module) (n, world)) := by
  rw [afterNative, run_bind, run_closingOnError]
  cases h0 : (plan n).err with
  | some err =>
    rw [run_attemptAs _ () (run_mkdirAll_of_some h0), h0]
    exact .early (Nat.le_refl n) (by omega) (by rw [h0]; nofun) hfresh
  | none =>
    rw [run_attemptAs _ () (run_mkdirAll_of_none h0 hfresh), h0]
    refine .step h0 ?_
    have hcreate : Phased plan (n + 1) (n + 3) (n + 5) () (n + 6, world.bound module.info [])
        (run (following plan) (createBackendManifestIfNotExists module.info)
          (n + 1, world.emptied)) := by
      rw [createBackendManifestIfNotExists, run_readBackendManifest_bind rfl]
      cases h1 : (plan (n + 1)).err with
      | some err => exact .early (Nat.le_refl _) (by omega) (by rw [h1]; nofun) (.inr rfl)
      | none =>
        refine .step h1 ?_
        dsimp only
        rw [run_attemptAs_bind _ 0 rfl]
        cases h2 : (plan (n + 1 + 1)).err with
        | some err => exact .early (Nat.le_refl _) (by omega) (by rw [h2]; nofun) (.inr rfl)
        | none =>
          refine .step h2 ?_
          dsimp only
          rw [if_neg (by decide)]
          exact phased_createBackendManifest plan module.info (n + 3) world
    exact hcreate.closing.bind (Nat.le_refl _) fun hcalm => .done hcalm

/-- On a path where the engine has created files there is no manifest to be found, and none
is created. -/
theorem run_afterNative_of_files (module : NativeModule) {n : ℕ} {files : List Bytes} (hfiles : files ≠ [])
    (hdirectory : world.directory = some ⟨none, files⟩) :
    ∃ err m, run (following plan) (afterNative module) (n, world) = (.error err, (m, world)) := by
  rw [afterNative, run_bind, run_closingOnError, run_attemptAs _ () (run_mkdirAll_of_exists hdirectory)]
  cases (plan n).err with
  | some err => exact ⟨_, _, rfl⟩
  | none =>
    dsimp only
    rw [run_bind, run_closingOnError, createBackendManifestIfNotExists,
      run_readBackendManifest_bind (by rw [hdirectory]; rfl)]
    cases (plan (n + 1)).err with
    | some err => exact ⟨_, _, rfl⟩
    | none =>
      dsimp only
      rw [run_attemptAs_bind _ files.length (run_readDir_of_files hdirectory)]
      cases (plan (n + 1 + 1)).err with
      | some err => exact ⟨_, _, rfl⟩
      | none =>
        dsimp only
        rw [if_pos (List.length_pos_iff.mpr hfiles)]
        exact ⟨_, _, rfl⟩

/-- The library of a native module is loaded and its driver registered. -/
@[mk_iff] structure Loads (plan : Plan) (module : NativeModule) (world : World) (n : ℕ) : Prop where
  library : (plan n).err = none
  registration : (plan (n + 1)).err = none
  unregistered : world.registry module.info.backend = none

/-- The process after the first load of a native module. -/
def World.loading (world : World) (module : NativeModule) : World :=
  { world with
    registry := Function.update world.registry module.info.backend module.info
    loaded := Function.update world.loaded module.directory module.info }

theorem run_load (directory : Bytes) (n : ℕ) :
    (Program.perform (S := Steps) (.load directory)).run (following plan) (n, world) =
      ((plan n).answer (), (n + 1, world)) := rfl

/-- The first `Open` with a native module loads it and opens the engine in step `n + 4`. -/
theorem run_openNativeModuleDriver_of_new {module : NativeModule} {n : ℕ}
    (hnew : world.loaded module.directory = none) (hloads : Loads plan module world (n + 1)) :
    run (following plan) (openNativeModuleDriver module) (n, world) =
      ((plan (n + 4)).answer (), (n + 5, { world.loading module with
        directory := world.directory.adding (plan (n + 4)).files })) := by
  have hlookup : respond (plan n) (.loaded module.directory) world = (none, world) := by
    rw [respond, hnew]
  have hregister : (Program.perform (S := Steps) (.register module.info)).run (following plan)
      (n + 2, world) = ((plan (n + 2)).answer (), (n + 3, { world with
        registry := Function.update world.registry module.info.backend module.info })) := by
    show following plan (.register module.info) (n + 2, world) = _
    simp [following, respond, hloads.registration, hloads.unregistered, Trouble.answer]
  rw [openNativeModuleDriver, run_ask_bind, hlookup]
  dsimp only
  rw [run_attempt_bind () (run_load module.directory (n + 1)), hloads.library]
  dsimp only
  rw [run_attemptAs_bind _ () hregister, hloads.registration]
  rfl

theorem run_openNativeModuleDriver_of_not_loads {module : NativeModule} {n : ℕ}
    (hnew : world.loaded module.directory = none) (hloads : ¬ Loads plan module world (n + 1)) :
    ∃ err m, run (following plan) (openNativeModuleDriver module) (n, world) =
      (.error err, (m, world)) := by
  have hlookup : respond (plan n) (.loaded module.directory) world = (none, world) := by
    rw [respond, hnew]
  rw [openNativeModuleDriver, run_ask_bind, hlookup]
  dsimp only
  rw [run_attempt_bind () (run_load module.directory (n + 1))]
  cases h1 : (plan (n + 1)).err with
  | some err => exact ⟨_, _, rfl⟩
  | none =>
    -- The registration fails by itself, or the name is taken.
    have hregister : ∃ err, (Program.perform (S := Steps) (.register module.info)).run (following plan)
        (n + 2, world) = (.error err, (n + 3, world)) := by
      show ∃ err, following plan (.register module.info) (n + 2, world) = _
      cases h2 : (plan (n + 2)).err with
      | some err => exact ⟨err, by simp only [following, respond, h2]⟩
      | none =>
        have htaken : (world.registry module.info.backend).isSome = true := by
          rw [Option.isSome_iff_ne_none]
          exact fun hfree => hloads ⟨h1, h2, hfree⟩
        exact ⟨_, by simp only [following, respond, h2, htaken, if_true]; rfl⟩
    obtain ⟨err, hregister⟩ := hregister
    have hfailed : (Program.perform (S := Steps) (.register module.info)).run (following plan)
        (n + 2, world) = (Trouble.answer ⟨some err, false, []⟩ (), (n + 3, world)) := hregister
    dsimp only
    rw [run_attemptAs_bind _ () hfailed]
    exact ⟨_, _, rfl⟩

theorem run_openNativeModuleDriver_of_loaded {module : NativeModule} {registered : Registered} {n : ℕ}
    (hloaded : world.loaded module.directory = some registered) :
    run (following plan) (openNativeModuleDriver module) (n, world) =
      ((plan (n + 1)).answer (), (n + 2, { world with
        directory := world.directory.adding (plan (n + 1)).files })) := by
  have hlookup : respond (plan n) (.loaded module.directory) world = (some registered, world) := by
    rw [respond, hloaded]
  rw [openNativeModuleDriver, run_ask_bind, hlookup]
  rfl

end Modules

/-! ### What a failed `Open` leaves behind -/

/-- The way that `Open` takes on a fresh path: no driver is found or loaded, or the steps
from `first` to `last` are made, of which `creation` creates the manifest file, or the
engine of a native module spoils the path with files. -/
inductive Route
  | refused
  | phased (first creation last : ℕ) (driver : Registered)
  | spoiled (files : List Bytes)

instance (plan : Plan) (module : NativeModule) (world : World) (n : ℕ) :
    Decidable (Loads plan module world n) :=
  decidable_of_iff _ (loads_iff plan module world n).symm

/-- The engine of a native module is opened in step `first`, before the manifest is looked
for. -/
def nativeRoute (first : ℕ) (files : List Bytes) (module : NativeModule) : Route :=
  if files = [] then .phased first (first + 4) (first + 6) module.info else .spoiled files

def route (plan : Plan) (installation : Installation) (name : Bytes) (world : World) : Route :=
  match world.registry name with
  | some driver => .phased 1 5 8 driver
  | none =>
    if ¬ (installation.report name).is .driverNotInstalled ∧
        ¬ (installation.report name).is .driverNotLoaded then .refused
    else
      match installation.bundle name with
      | .ok bundle => .phased 1 6 10 bundle.linked
      | .error _ =>
        match installation.native name with
        | .error _ => .refused
        | .ok module =>
          match world.loaded module.directory with
          | some _ => nativeRoute 2 (plan 2).files module
          | none => if Loads plan module world 2 then nativeRoute 5 (plan 5).files module else .refused

/-- The registry when a driver has been opened: a native module may have been registered. -/
def Registers (world final : World) (driver : Registered) : Prop :=
  final.registry = world.registry ∨ final.registry = Function.update world.registry driver.backend driver

/-- How a run along the way ends. -/
def Route.Ends (plan : Plan) (world : World) (result : Except GoError Registered × (ℕ × World)) :
    Route → Prop
  | .refused => ∃ err st, Fresh st.2.directory ∧ result = (.error err, st)
  | .phased first creation last driver =>
    first ≤ creation ∧ creation ≤ last ∧ ∃ final : ℕ × World, Registers world final.2 driver ∧
      (∃ files, final.2.directory = some ⟨some (.holds driver.manifest), files⟩) ∧
      Phased plan first creation last driver final result
  | .spoiled files =>
    files ≠ [] ∧ ∃ err st, st.2.directory = some ⟨none, files⟩ ∧ result = (.error err, st)

section Ends

variable {plan : Plan} {world : World}

theorem Fresh.adding_nil {directory : Directory} (h : Fresh directory) : Fresh (directory.adding []) := by
  rcases h with rfl | rfl
  · exact .inl rfl
  · exact .inr rfl

theorem Fresh.adding {directory : Directory} (h : Fresh directory) {files : List Bytes} (hfiles : files ≠ []) :
    directory.adding files = some ⟨none, files⟩ := by
  rcases h with rfl | rfl
  · exact if_neg hfiles
  · simp [Directory.adding]

/-- The part of `Open` that begins with opening the engine of a native module. -/
theorem ends_nativeRoute {x : Opening Unit} {module : NativeModule} {n m : ℕ} {world' : World}
    (hfresh : Fresh world.directory) (hregisters : Registers world world' module.info)
    (hx : run (following plan) x (n, world) = ((plan m).answer (), (m + 1, { world' with
      directory := world.directory.adding (plan m).files }))) :
    (nativeRoute m (plan m).files module).Ends plan world
      (run (following plan) (x >>= fun _ => afterNative module) (n, world)) := by
  rw [run_bind, hx, Trouble.answer, nativeRoute]
  by_cases hfiles : (plan m).files = []
  · rw [if_pos hfiles, hfiles]
    refine ⟨by omega, by omega, (m + 7, world'.bound module.info []), hregisters, ⟨[], rfl⟩, ?_⟩
    cases hm : (plan m).err with
    | some err => exact .early (Nat.le_refl m) (by omega) (by rw [hm]; nofun) hfresh.adding_nil
    | none =>
      refine .step hm ?_
      dsimp only
      exact @phased_afterNative { world' with directory := _ } plan module (m + 1) hfresh.adding_nil
  · rw [if_neg hfiles, hfresh.adding hfiles]
    refine ⟨hfiles, ?_⟩
    cases (plan m).err with
    | some err => exact ⟨err, _, rfl, rfl⟩
    | none =>
      have hspoiled : World.directory { world' with directory := some ⟨none, (plan m).files⟩ } =
          some ⟨none, (plan m).files⟩ := rfl
      obtain ⟨err, m', hrun⟩ := run_afterNative_of_files module hfiles hspoiled
      exact ⟨err, _, rfl, hrun⟩

theorem ends_openNative (module : NativeModule) (hfresh : Fresh world.directory) :
    Route.Ends plan world (run (following plan) (openNative module) (1, world))
      (match world.loaded module.directory with
        | some _ => nativeRoute 2 (plan 2).files module
        | none => if Loads plan module world 2 then nativeRoute 5 (plan 5).files module else .refused) := by
  rw [openNative_eq]
  cases hloaded : world.loaded module.directory with
  | some registered =>
    exact ends_nativeRoute hfresh (.inl rfl) (run_openNativeModuleDriver_of_loaded hloaded)
  | none =>
    dsimp only
    by_cases hloads : Loads plan module world 2
    · rw [if_pos hloads]
      exact ends_nativeRoute hfresh (.inr rfl)
        (run_openNativeModuleDriver_of_new hloaded hloads)
    · rw [if_neg hloads, run_bind]
      obtain ⟨err, m, hrun⟩ := run_openNativeModuleDriver_of_not_loads hloaded hloads
      rw [hrun]
      exact ⟨err, _, hfresh, rfl⟩

/-- `Open` on a fresh path takes its route. -/
theorem ends_openConfiguredEngine (plan : Plan) (installation : Installation) (name : Bytes)
    (driverExplicit : Bool) (hfresh : Fresh world.directory) :
    (route plan installation name world).Ends plan world
      (run (following plan) (openConfiguredEngine installation name driverExplicit) (0, world)) := by
  have hlookup : respond (plan 0) (.lookup name) world = (world.registry name, world) := rfl
  rw [openConfiguredEngine, run_ask_bind, hlookup, route]
  cases world.registry name with
  | some driver => exact ⟨by omega, by omega, _, .inl rfl, ⟨_, rfl⟩, phased_openLinked plan driver _ 1 hfresh⟩
  | none =>
    dsimp only
    split_ifs
    · exact ⟨_, _, hfresh, rfl⟩
    · cases installation.bundle name with
      | ok bundle => exact ⟨by omega, by omega, _, .inl rfl, ⟨_, rfl⟩, phased_openBundle plan bundle 1 hfresh⟩
      | error moduleErr =>
        cases installation.native name with
        | ok module => exact ends_openNative module hfresh
        | error nativeErr =>
          dsimp only
          split_ifs <;> exact ⟨_, _, hfresh, rfl⟩

end Ends

/-- A path that a failed `Open` has not bound: it holds no manifest, and no later `Open` is
refused that would open an absent path. -/
structure LeavesNoTrace (directory : Directory) : Prop where
  unbound : directory.manifest = none
  unrefused : ∀ (plan : Plan) (installation : Installation) (name : Bytes) (driverExplicit : Bool)
    (world : World) (driver : Registered),
    (run (following plan) (openConfiguredEngine installation name driverExplicit)
      (0, { world with directory := none })).1 = .ok driver →
    (run (following plan) (openConfiguredEngine installation name driverExplicit)
      (0, { world with directory := directory })).1 = .ok driver

/-- No step fails after the one that creates the manifest file, and the path is not
spoiled. -/
def Route.Traceless (plan : Plan) : Route → Prop
  | .refused => True
  | .phased first creation last _ => (∀ k, first ≤ k → k ≤ creation → (plan k).err = none) →
    ∀ k, creation < k → k ≤ last → (plan k).err = none
  | .spoiled _ => False

theorem Route.Ends.ok_iff {plan : Plan} {world : World} {result : Except GoError Registered × (ℕ × World)}
    {driver : Registered} {taken : Route} (h : taken.Ends plan world result) :
    result.1 = .ok driver ↔ ∃ first creation last, taken = .phased first creation last driver ∧
      ∀ k, first ≤ k → k ≤ last → (plan k).err = none := by
  cases taken with
  | refused =>
    obtain ⟨err, st, -, rfl⟩ := h
    simp
  | spoiled files =>
    obtain ⟨-, err, st, -, rfl⟩ := h
    simp
  | phased first creation last opened =>
    obtain ⟨hfirst, hlast, final, -, -, h⟩ := h
    constructor
    · intro hok
      cases h with
      | early => cases hok
      | late => cases hok
      | done calm =>
        cases hok
        exact ⟨first, creation, last, rfl, calm⟩
    · rintro ⟨_, _, _, heq, hcalm⟩
      cases heq
      rw [h.eq_of_calm hfirst hlast hcalm]

/-- The route does not depend on the path. -/
theorem route_with_directory (plan : Plan) (installation : Installation) (name : Bytes) (world : World)
    (directory : Directory) :
    route plan installation name { world with directory := directory } =
      route plan installation name world := by
  simp only [route, loads_iff]

/-- `Open` does not tell an empty directory from an absent path. -/
theorem Fresh.leavesNoTrace {directory : Directory} (h : Fresh directory) : LeavesNoTrace directory where
  unbound := h.manifest
  unrefused plan installation name driverExplicit world driver hopened := by
    rw [(ends_openConfiguredEngine plan installation name driverExplicit (.inl rfl)).ok_iff,
      route_with_directory] at hopened
    rw [(ends_openConfiguredEngine plan installation name driverExplicit h).ok_iff, route_with_directory]
    exact hopened

/-- A driver, and a process that has nothing but this driver. -/
def Registered.sample : Registered :=
  ⟨text "leveldb", text "goleveldb", text "1", text "1.0.0", by decide, by decide, by decide, by decide⟩

def Installation.none : Installation where
  report name := .detail .driverNotInstalled name
  bundle _ := .error (.of .moduleNotInstalled)
  native _ := .error (.of .moduleNotInstalled)
  bundle_backend h := nomatch h
  native_backend h := nomatch h

def World.sample (directory : Directory) : World := ⟨fun _ => some .sample, fun _ => none, directory⟩

theorem not_leavesNoTrace_of_files {files : List Bytes} (hfiles : files ≠ []) :
    ¬ LeavesNoTrace (some ⟨none, files⟩) := by
  intro h
  let plan : Plan := fun _ => .smooth []
  have hopened := h.unrefused plan .none (text "leveldb") true (.sample none) .sample <| by
    rw [(ends_openConfiguredEngine plan .none (text "leveldb") true (.inl rfl)).ok_iff]
    exact ⟨1, 5, 8, rfl, fun _ _ _ => rfl⟩
  have hdirectory : (World.sample (some ⟨none, files⟩)).directory = some ⟨none, files⟩ := rfl
  obtain ⟨err, st, hrefused⟩ := run_openLinked_of_files plan .sample 1 hfiles hdirectory
  have hopened' : (run (following plan) (openLinked .sample false)
      (1, .sample (some ⟨none, files⟩))).1 = .ok .sample := hopened
  rw [hrefused] at hopened'
  cases hopened'

theorem Route.Ends.traceless_iff {plan : Plan} {world : World} {result : Except GoError Registered × (ℕ × World)}
    {taken : Route} (h : taken.Ends plan world result) :
    (∀ err st, result = (.error err, st) → LeavesNoTrace st.2.directory) ↔ taken.Traceless plan := by
  cases taken with
  | refused =>
    obtain ⟨_, _, hfresh, rfl⟩ := h
    refine iff_of_true ?_ trivial
    intro err st heq
    cases heq
    exact hfresh.leavesNoTrace
  | spoiled files =>
    obtain ⟨hfiles, err, st, hspoiled, rfl⟩ := h
    refine iff_of_false ?_ id
    intro htrace
    apply not_leavesNoTrace_of_files hfiles
    rw [← hspoiled]
    exact htrace err st rfl
  | phased first creation last driver =>
    obtain ⟨hfirst, hlast, final, -, -, h⟩ := h
    constructor
    · intro htrace hcalm
      cases h with
      | early from_le le trouble _ => exact absurd (hcalm _ from_le le) trouble
      | late _ _ _ _ bound =>
        -- The manifest file stays.
        rw [(htrace _ _ rfl).unbound] at bound
        cases bound
      | done calm => exact fun k hk => calm k (by omega)
    · rintro hcalm err st rfl
      cases h with
      | early _ _ _ fresh => exact fresh.leavesNoTrace
      | late calm lt le trouble _ => exact absurd (hcalm calm _ lt le) trouble

/-- A failed `Open` leaves no trace when nothing fails after the creation of the manifest,
and the engine of a native module creates no files. -/
theorem failed_open_leaves_no_trace_iff (plan : Plan) (installation : Installation) (name : Bytes)
    (driverExplicit : Bool) (world : World) (hfresh : Fresh world.directory) :
    (∀ err st, run (following plan) (openConfiguredEngine installation name driverExplicit)
      (0, world) = (.error err, st) → LeavesNoTrace st.2.directory) ↔
        (route plan installation name world).Traceless plan :=
  (ends_openConfiguredEngine plan installation name driverExplicit hfresh).traceless_iff

/-- A directory that cannot be created. -/
theorem failed_mkdir_leaves_no_trace :
    Fresh none ∧ ∃ err st, run (following fun n => ⟨if n = 2 then some notExist else none, false, []⟩)
      (openConfiguredEngine .none (text "leveldb") true) (0, .sample none) = (.error err, st) ∧
        LeavesNoTrace st.2.directory := by
  refine ⟨.inl rfl, _, _, rfl, ?_⟩
  refine (failed_open_leaves_no_trace_iff (fun n => ⟨if n = 2 then some notExist else none, false, []⟩) .none
    (text "leveldb") true (.sample none) (.inl rfl)).mpr ?_ _ _ rfl
  exact fun hcalm => absurd (hcalm 2 (by decide) (by decide)) (by simp)

/-- The engine does not open, and the manifest stays. -/
theorem failed_engine_leaves_manifest :
    Fresh none ∧ ∃ err st, run (following fun n => ⟨if n = 8 then some notExist else none, false, []⟩)
      (openConfiguredEngine .none (text "leveldb") true) (0, .sample none) = (.error err, st) ∧
        st.2.directory = some ⟨some (.holds Registered.sample.manifest), []⟩ :=
  ⟨.inl rfl, _, _, rfl, rfl⟩

end KVLite.Backend
