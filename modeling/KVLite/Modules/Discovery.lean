import KVLite.Modules.Manifest
import Mathlib.Data.List.Sort

/-!
# Discovery of installed modules

Modules are looked for under a list of search roots: those of the environment, with the
system roots last. A root is a module itself or holds modules, directly or one level below
in a grouping directory. All modules that are found are put into one table by name, and a
name that is already there is an error, whichever root the two modules come from.
-/

namespace KVLite.Modules

/-! ### The code -/

/-- A manifest file after decoding. -/
inductive Document
  | undecodable
  | several
  | single (manifest : ModuleManifest)
  deriving DecidableEq, Repr

structure DirEntry where
  name : Bytes
  isDir : Bool
  deriving DecidableEq, Repr

/-- Is there something at a path, and is it a directory? What is in a directory, and what in
a manifest file? -/
structure Filesystem where
  stat : Bytes → Except GoError (Option Bool)
  readDir : Bytes → Except GoError (List DirEntry)
  readFile : Bytes → Except GoError (Option Document)

/-- The environment variables; one that is not set is empty. -/
structure Variables where
  modulePath : Bytes
  home : Bytes
  systemModulePath : Bytes

def moduleManifestFilename : Bytes := text "kvlite-module.json"

/-- The format `%q` for a text without special characters. -/
def quoted (s : Bytes) : Bytes := 0x22 :: s ++ [0x22]

def manifestPathOf (directory : Bytes) : Bytes := joinPath directory moduleManifestFilename

/-- Earlier labels of the kinds are read as the current ones. -/
def ModuleManifest.canonical (manifest : ModuleManifest) : ModuleManifest :=
  { manifest with kind := canonicalModuleKind manifest.kind }

def readModuleAt (fs : Filesystem) (directory : Bytes) : Except GoError (Option Module) :=
  let manifestPath := manifestPathOf directory
  match fs.readFile manifestPath with
  | .error err => .error (.wrap (text "kvlite: read module manifest " ++ quoted manifestPath) err)
  | .ok none => .ok none
  | .ok (some .undecodable) => .error (.detail .moduleManifestInvalid (quoted manifestPath))
  | .ok (some .several) =>
    .error (.detail .moduleManifestInvalid (quoted manifestPath ++ text " contains multiple JSON values"))
  | .ok (some (.single manifest)) =>
    match hvalid : manifest.canonical.validate with
    | .error err =>
      .error (.detail .moduleManifestInvalid (quoted manifestPath ++ text ": " ++ err.message))
    | .ok _ => .ok (some ⟨manifest.canonical, directory, manifestPath, hvalid⟩)

/-- `fmt.Errorf("kvlite: read module path %q: %w", path, err)` for an error of `ReadDir`. -/
def readModulePath (fs : Filesystem) (path : Bytes) : Except GoError (List DirEntry) :=
  (fs.readDir path).mapError (.wrap (text "kvlite: read module path " ++ quoted path))

/-- The modules in a grouping directory. -/
def nestedModules (fs : Filesystem) (child : Bytes) : List DirEntry → Except GoError (List Module)
  | [] => .ok []
  | entry :: entries =>
    if entry.isDir then do
      let found ← readModuleAt fs (joinPath child entry.name)
      return found.toList ++ (← nestedModules fs child entries)
    else nestedModules fs child entries

/-- The directories that group modules. -/
def IsGrouping (name : Bytes) : Prop := name = text "drivers" ∨ name = text "modules"

instance (name : Bytes) : Decidable (IsGrouping name) :=
  inferInstanceAs (Decidable (name = text "drivers" ∨ name = text "modules"))

/-- The modules of one entry of a root. -/
def entryModules (fs : Filesystem) (root : Bytes) (entry : DirEntry) : Except GoError (List Module) :=
  if entry.isDir then do
    let child := joinPath root entry.name
    match ← readModuleAt fs child with
    | some module => return [module]
    | none =>
      if IsGrouping entry.name then do
        let nested ← readModulePath fs child
        nestedModules fs child nested
      else return []
  else .ok []

def childModules (fs : Filesystem) (root : Bytes) : List DirEntry → Except GoError (List Module)
  | [] => .ok []
  | entry :: entries => do
    let found ← entryModules fs root entry
    return found ++ (← childModules fs root entries)

def discoverModulesAt (fs : Filesystem) (root : Bytes) : Except GoError (List Module) :=
  if trimSpace root = [] then .ok []
  else
    let root := clean root
    match fs.stat root with
    | .error err => .error (.wrap (text "kvlite: inspect module path " ++ quoted root) err)
    | .ok none => .ok []
    | .ok (some false) =>
      .error (.detail .moduleManifestInvalid (text "module path " ++ quoted root ++ text " is not a directory"))
    | .ok (some true) => do
      match ← readModuleAt fs root with
      | some module => return [module]
      | none =>
        let entries ← readModulePath fs root
        childModules fs root entries

/-- Each path once, in the order of the first occurrence. -/
def uniqueModulePathsFrom (seen : List Bytes) : List Bytes → List Bytes
  | [] => []
  | path :: paths =>
    if trimSpace path = [] ∨ clean (trimSpace path) ∈ seen then uniqueModulePathsFrom seen paths
    else clean (trimSpace path) :: uniqueModulePathsFrom (clean (trimSpace path) :: seen) paths

def uniqueModulePaths (paths : List Bytes) : List Bytes := uniqueModulePathsFrom [] paths

def defaultModulePaths (env : Variables) : List Bytes :=
  let home := trimSpace env.home
  uniqueModulePaths (splitList env.modulePath ++
    (if home = [] then [] else [joinPath home (text "modules"), joinPath home (text "drivers")]) ++
    splitList env.systemModulePath)

/-- The table of modules by name. -/
def collect : List Module → List Module → Except GoError (List Module)
  | modules, [] => .ok modules
  | modules, item :: items =>
    match modules.find? (·.manifest.name = item.manifest.name) with
    | some previous =>
      .error (.detail .moduleConflict (text "module " ++ quoted item.manifest.name ++
        text " appears in both " ++ quoted previous.manifestPath ++ text " and " ++ quoted item.manifestPath))
    | none => collect (modules ++ [item]) items

def discoverAll (fs : Filesystem) : List Module → List Bytes → Except GoError (List Module)
  | modules, [] => .ok modules
  | modules, root :: roots => do
    let items ← discoverModulesAt fs root
    discoverAll fs (← collect modules items) roots

/-- The paths, or those of the environment when none are given. -/
def searchRoots (env : Variables) (paths : List Bytes) : List Bytes :=
  uniqueModulePaths (if paths = [] then defaultModulePaths env else paths)

def discoverModules (fs : Filesystem) (env : Variables) (paths : List Bytes) : Except GoError (List Module) := do
  let modules ← discoverAll fs [] (searchRoots env paths)
  return modules.insertionSort fun left right => (compare left.manifest.name right.manifest.name).isLE

def findInstalledModule (fs : Filesystem) (env : Variables) (name : Bytes) (paths : List Bytes) :
    Except GoError Module := do
  let canonical ← normalizeModuleName name
  let modules ← discoverModules fs env paths
  match modules.find? (·.manifest.name = canonical) with
  | some item => return item
  | none => throw (.detail .moduleNotInstalled (quoted canonical))

/-! ### Searching one root -/

/-- The directory has no manifest file. -/
def NoModule (fs : Filesystem) (directory : Bytes) : Prop :=
  fs.readFile (manifestPathOf directory) = .ok none

/-- The directory has no manifest file, or one with a valid manifest. -/
def SoundManifest (fs : Filesystem) (directory : Bytes) : Prop :=
  NoModule fs directory ∨ ∃ manifest,
    fs.readFile (manifestPathOf directory) = .ok (some (.single manifest)) ∧
      manifest.canonical.validate = .ok ()

/-- The entries of a directory can be listed, and each of its directories passes. -/
def SoundEntries (fs : Filesystem) (path : Bytes) (Passes : DirEntry → Prop) : Prop :=
  ∃ entries, fs.readDir path = .ok entries ∧ ∀ entry ∈ entries, entry.isDir = true → Passes entry

/-- A root that can be searched: it is blank or absent, or a directory in which everything
that is looked at can be read and all manifests are valid. -/
def Readable (fs : Filesystem) (root : Bytes) : Prop :=
  trimSpace root = [] ∨ fs.stat (clean root) = .ok none ∨
    fs.stat (clean root) = .ok (some true) ∧ SoundManifest fs (clean root) ∧
      (NoModule fs (clean root) → SoundEntries fs (clean root) fun entry =>
        SoundManifest fs (joinPath (clean root) entry.name) ∧
        (NoModule fs (joinPath (clean root) entry.name) → IsGrouping entry.name →
          SoundEntries fs (joinPath (clean root) entry.name) fun nested =>
            SoundManifest fs (joinPath (joinPath (clean root) entry.name) nested.name)))

section Roots

variable {fs : Filesystem} {root : Bytes}

/-- Reading a manifest succeeds when it is sound. -/
theorem readModuleAt_ok_iff (directory : Bytes) :
    (∃ found, readModuleAt fs directory = .ok found) ↔ SoundManifest fs directory := by
  rw [readModuleAt, SoundManifest, NoModule]
  rcases fs.readFile (manifestPathOf directory) with err | (_ | (_ | _ | manifest)) <;> simp
  split <;> simp_all

theorem readModuleAt_none_iff (directory : Bytes) :
    readModuleAt fs directory = .ok none ↔ NoModule fs directory := by
  rw [readModuleAt, NoModule]
  rcases fs.readFile (manifestPathOf directory) with err | (_ | (_ | _ | manifest)) <;> simp
  split <;> simp_all

/-- Listing a directory and going through its directories. -/
theorem listed_ok_iff {α : Type} {path : Bytes} {f : List DirEntry → Except GoError α}
    {Passes : DirEntry → Prop}
    (hf : ∀ entries, (∃ found, f entries = .ok found) ↔ ∀ entry ∈ entries, entry.isDir = true → Passes entry) :
    (∃ found, readModulePath fs path >>= f = .ok found) ↔ SoundEntries fs path Passes := by
  rw [readModulePath, SoundEntries]
  cases fs.readDir path with
  | error err => exact iff_of_false (by rintro ⟨_, h⟩; cases h) (by rintro ⟨_, h, _⟩; cases h)
  | ok entries =>
    constructor
    · exact fun h => ⟨entries, rfl, (hf entries).mp h⟩
    · rintro ⟨_, h, hpasses⟩
      cases h
      exact (hf entries).mpr hpasses

/-- Two results that are put together. -/
theorem append_ok_iff {α β : Type} {x : Except GoError α} {y : Except GoError β} {g : α → β → List Module} :
    (∃ found, (do let a ← x; return g a (← y)) = (.ok found : Except GoError (List Module))) ↔
      (∃ a, x = .ok a) ∧ ∃ b, y = .ok b := by
  cases x <;> cases y <;> simp [bind, Except.bind, pure, Except.pure]

theorem nestedModules_ok_iff (child : Bytes) (entries : List DirEntry) :
    (∃ found, nestedModules fs child entries = .ok found) ↔
      ∀ entry ∈ entries, entry.isDir = true → SoundManifest fs (joinPath child entry.name) := by
  induction entries with
  | nil => simp [nestedModules]
  | cons entry entries ih =>
    rw [nestedModules, List.forall_mem_cons, ← ih]
    split_ifs with hdir
    · rw [append_ok_iff, readModuleAt_ok_iff]
      simp [hdir]
    · simp [hdir]

/-- A module, or what is found without one. -/
theorem module_or_ok_iff {directory : Bytes} {rest : Except GoError (List Module)} :
    (∃ found, (do
      match ← readModuleAt fs directory with
      | some module => return [module]
      | none => rest) = .ok found) ↔
        SoundManifest fs directory ∧ (NoModule fs directory → ∃ found, rest = .ok found) := by
  rw [← readModuleAt_ok_iff, ← readModuleAt_none_iff]
  rcases readModuleAt fs directory with err | (_ | module) <;>
    simp [bind, Except.bind, pure, Except.pure]

theorem entryModules_ok_iff (root : Bytes) (entry : DirEntry) :
    (∃ found, entryModules fs root entry = .ok found) ↔
      (entry.isDir = true → SoundManifest fs (joinPath root entry.name) ∧
        (NoModule fs (joinPath root entry.name) → IsGrouping entry.name →
          SoundEntries fs (joinPath root entry.name) fun nested =>
            SoundManifest fs (joinPath (joinPath root entry.name) nested.name))) := by
  rw [entryModules]
  by_cases hdir : entry.isDir = true
  · rw [if_pos hdir, module_or_ok_iff, ← listed_ok_iff (nestedModules_ok_iff (joinPath root entry.name))]
    by_cases hgrouping : IsGrouping entry.name
    · simp only [hdir, hgrouping, if_true, true_imp_iff]
    · simp [hgrouping, hdir, pure, Except.pure]
  · simp [hdir]

theorem childModules_ok_iff (root : Bytes) (entries : List DirEntry) :
    (∃ found, childModules fs root entries = .ok found) ↔ ∀ entry ∈ entries, entry.isDir = true →
      SoundManifest fs (joinPath root entry.name) ∧
        (NoModule fs (joinPath root entry.name) → IsGrouping entry.name →
          SoundEntries fs (joinPath root entry.name) fun nested =>
            SoundManifest fs (joinPath (joinPath root entry.name) nested.name)) := by
  induction entries with
  | nil => simp [childModules]
  | cons entry entries ih =>
    rw [childModules, List.forall_mem_cons, ← ih, ← entryModules_ok_iff]
    exact append_ok_iff

/-- A root is searched without an error when it is readable. -/
theorem discoverModulesAt_ok_iff (root : Bytes) :
    (∃ found, discoverModulesAt fs root = .ok found) ↔ Readable fs root := by
  rw [discoverModulesAt, Readable]
  by_cases hblank : trimSpace root = []
  · simp [hblank]
  · rw [if_neg hblank, or_iff_right hblank]
    dsimp only
    rcases fs.stat (clean root) with err | (_ | (_ | _))
    · simp
    · simp
    · simp
    · dsimp only
      rw [module_or_ok_iff, listed_ok_iff (childModules_ok_iff (clean root))]
      simp

end Roots

/-! ### Searching all roots -/

section All

variable {fs : Filesystem}

def names (modules : List Module) : List Bytes := modules.map (·.manifest.name)

/-- The table takes the items when no name occurs twice. -/
theorem collect_eq_ok_iff {modules items result : List Module} (hmodules : (names modules).Nodup) :
    collect modules items = .ok result ↔ (names (modules ++ items)).Nodup ∧ result = modules ++ items := by
  induction items generalizing modules with
  | nil => simp [collect, hmodules, eq_comm]
  | cons item items ih =>
    rw [collect]
    cases hfind : modules.find? (·.manifest.name = item.manifest.name) with
    | some previous =>
      -- The name of the item is taken.
      have hmem := List.mem_of_find?_eq_some hfind
      have hname : previous.manifest.name = item.manifest.name := by
        simpa using List.find?_some hfind
      refine iff_of_false nofun ?_
      rintro ⟨hnodup, -⟩
      rw [names, List.map_append, List.nodup_append] at hnodup
      refine hnodup.2.2 _ (List.mem_map_of_mem hmem) _ (List.mem_map_of_mem (List.mem_cons_self ..)) ?_
      exact hname
    | none =>
      have hfree : item.manifest.name ∉ names modules := by
        rw [names, List.mem_map]
        rintro ⟨module, hmem, hname⟩
        simpa [hname] using List.find?_eq_none.mp hfind module hmem
      have hnodup : (names (modules ++ [item])).Nodup := by
        rw [names, List.map_append, List.nodup_append]
        refine ⟨hmodules, List.nodup_singleton _, ?_⟩
        rintro name hmem _ hsingle rfl
        rw [List.map_singleton, List.mem_singleton] at hsingle
        exact hfree (hsingle ▸ hmem)
      dsimp only
      rw [ih hnodup, List.append_assoc, List.singleton_append]

/-- The modules under a root. -/
def modulesAt (fs : Filesystem) (root : Bytes) : List Module :=
  (discoverModulesAt fs root).toOption.getD []

theorem discoverModulesAt_eq {root : Bytes} (h : Readable fs root) :
    discoverModulesAt fs root = .ok (modulesAt fs root) := by
  obtain ⟨found, hfound⟩ := (discoverModulesAt_ok_iff root).mpr h
  rw [modulesAt, hfound]
  rfl

/-- All roots are searched without an error when they are readable and no name occurs twice
under them. -/
theorem discoverAll_eq_ok_iff {modules result : List Module} {roots : List Bytes}
    (hmodules : (names modules).Nodup) :
    discoverAll fs modules roots = .ok result ↔ (∀ root ∈ roots, Readable fs root) ∧
      (names (modules ++ roots.flatMap (modulesAt fs))).Nodup ∧
      result = modules ++ roots.flatMap (modulesAt fs) := by
  induction roots generalizing modules with
  | nil => simp [discoverAll, hmodules, eq_comm]
  | cons root roots ih =>
    rw [discoverAll, List.forall_mem_cons, List.flatMap_cons]
    constructor
    · intro h
      obtain ⟨items, hitems, h⟩ := bind_eq_ok.mp h
      obtain ⟨table, htable, h⟩ := bind_eq_ok.mp h
      have hroot : Readable fs root := (discoverModulesAt_ok_iff root).mp ⟨items, hitems⟩
      cases hitems.symm.trans (discoverModulesAt_eq hroot)
      obtain ⟨hnodup, rfl⟩ := (collect_eq_ok_iff hmodules).mp htable
      obtain ⟨hroots, hnodup', rfl⟩ := (ih hnodup).mp h
      rw [List.append_assoc] at hnodup' ⊢
      exact ⟨⟨hroot, hroots⟩, hnodup', rfl⟩
    · rintro ⟨⟨hroot, hroots⟩, hnodup, rfl⟩
      rw [← List.append_assoc] at hnodup
      have hnodup' : (names (modules ++ modulesAt fs root)).Nodup := by
        rw [names, List.map_append] at hnodup
        exact (List.nodup_append.mp hnodup).1
      have htable := (collect_eq_ok_iff hmodules).mpr ⟨hnodup', rfl⟩
      have hrest := (ih hnodup').mpr ⟨hroots, hnodup, (List.append_assoc ..).symm⟩
      exact bind_eq_ok.mpr ⟨_, discoverModulesAt_eq hroot, bind_eq_ok.mpr ⟨_, htable, hrest⟩⟩

/-- The module of the first root that has the name. -/
def firstModule (fs : Filesystem) (roots : List Bytes) (name : Bytes) : Option Module :=
  roots.findSome? fun root => (modulesAt fs root).find? (·.manifest.name = name)

/-- Discovery over the paths of the environment succeeds, and finds for every name the module
of the first root that has it. -/
def EarlierRootsShadow (fs : Filesystem) (env : Variables) : Prop :=
  (∃ modules, discoverModules fs env [] = .ok modules) ∧
    ∀ name module, firstModule fs (searchRoots env []) name = some module →
      findInstalledModule fs env name [] = .ok module

/-- In a table without a name that occurs twice, a module is found by its name. -/
theorem find?_eq_of_nodup {modules : List Module} {module : Module} (hnodup : (names modules).Nodup)
    (hmem : module ∈ modules) : modules.find? (·.manifest.name = module.manifest.name) = some module := by
  induction modules with
  | nil => cases hmem
  | cons first rest ih =>
    rw [names, List.map_cons, List.nodup_cons] at hnodup
    rcases List.mem_cons.mp hmem with rfl | hmem
    · simp
    · have hne : first.manifest.name ≠ module.manifest.name := by
        intro h
        exact hnodup.1 (h ▸ List.mem_map_of_mem hmem)
      rw [List.find?_cons_of_neg (by simpa using hne)]
      exact ih hnodup.2 hmem

theorem mem_of_firstModule {roots : List Bytes} {name : Bytes} {module : Module}
    (h : firstModule fs roots name = some module) :
    module ∈ roots.flatMap (modulesAt fs) ∧ module.manifest.name = name := by
  obtain ⟨root, hroot, hfind⟩ := List.exists_of_findSome?_eq_some h
  exact ⟨List.mem_flatMap.mpr ⟨root, hroot, List.mem_of_find?_eq_some hfind⟩, by
    simpa using List.find?_some hfind⟩

end All

/-! ### A system root beside an installation of the user -/

/-- A transport module. -/
def sampleManifest (name : Bytes) : ModuleManifest where
  schemaVersion := 1
  name := name
  kind := moduleKindTransport
  kinds := []
  version := text "v0.1.0"
  moduleABI := 1
  driver := []
  capabilities := []
  dependencies := []
  artifacts := []
  license := text "Apache-2.0"

/-- The user and the system have installed the same module, each in a root of their own. -/
def twoInstallations : Filesystem where
  stat path := .ok (if path = text "/home/kv/modules" ∨ path = text "/usr/lib/kvlite" then some true else none)
  readDir _ := .ok [⟨text "http", true⟩]
  readFile path := .ok (if path = text "/home/kv/modules/http/kvlite-module.json" ∨
      path = text "/usr/lib/kvlite/http/kvlite-module.json" then some (.single (sampleManifest (text "http")))
    else none)

def twoRoots : Variables := ⟨[], text "/home/kv", text "/usr/lib/kvlite"⟩

end KVLite.Modules
