import KVLite.Modules.Strings
import Mathlib.Data.Int.Notation

/-!
# Module manifests

The description of an installed module, as it comes out of the JSON decoder, and the checks
that are made before it is used. Where an error names the module or one of its texts, the
text of the error is kept without it.
-/

namespace KVLite.Modules

def moduleManifestVersion : ℤ := 1

def moduleManifestMultiKindVersion : ℤ := 2

def moduleABIVersion : ℤ := 1

def moduleKindEngine : Bytes := text "engine"

def moduleKindTransport : Bytes := text "transport"

def canonicalModuleKind (kind : Bytes) : Bytes :=
  if kind = text "driver" then moduleKindEngine
  else if kind = text "extension" then moduleKindTransport
  else kind

structure ModuleDependency where
  name : Bytes
  moduleABI : ℤ
  deriving DecidableEq, Repr

structure ModuleArtifact where
  platform : Bytes
  kind : Bytes
  path : Bytes
  sha256 : Bytes
  symbol : Bytes
  deriving DecidableEq, Repr

structure ModuleManifest where
  schemaVersion : ℤ
  name : Bytes
  kind : Bytes
  kinds : List Bytes
  version : Bytes
  moduleABI : ℤ
  driver : Bytes
  capabilities : List Bytes
  dependencies : List ModuleDependency
  artifacts : List ModuleArtifact
  license : Bytes
  deriving DecidableEq, Repr

/-! ### Checks -/

/-- A check with its error. -/
def require (condition : Prop) [Decidable condition] (err : GoError) : Except GoError Unit :=
  if condition then .ok () else .error err

theorem require_eq_ok {condition : Prop} [Decidable condition] {err : GoError} {value : Unit} :
    require condition err = .ok value ↔ condition := by
  rw [require]
  split_ifs with h <;> simp [h]

theorem bind_eq_ok {ε α β : Type} {x : Except ε α} {f : α → Except ε β} {result : β} :
    x >>= f = .ok result ↔ ∃ value, x = .ok value ∧ f value = .ok result := by
  cases x with
  | error err => exact iff_of_false nofun (by rintro ⟨_, h, _⟩; cases h)
  | ok value => exact ⟨fun h => ⟨value, rfl, h⟩, by rintro ⟨_, h, h'⟩; cases h; exact h'⟩

/-- An error about the text of a manifest. -/
def invalid (problem : String) : GoError := .detail .moduleManifestInvalid (text problem)

/-- Each value passes the check, and none of the keys occurs twice. -/
def checkEach {α : Type} (key : α → Bytes) (check : α → Except GoError Unit) (twice : GoError) :
    List Bytes → List α → Except GoError Unit
  | _, [] => .ok ()
  | seen, value :: values => do
    check value
    require (key value ∉ seen) twice
    checkEach key check twice (key value :: seen) values

/-- The name is written in its canonical form. -/
def checkCanonical (name : Bytes) (err : GoError) : Except GoError Unit :=
  match normalizeModuleName name with
  | .error _ => .error err
  | .ok canonical => require (name = canonical) err

def validModulePlatform (platform : Bytes) : Bool :=
  ¬ (platform = [] ∨ platform ≠ toLower platform ∨ platform.count 0x2D ≠ 1) ∧
    platform.all fun byte => (0x61 ≤ byte && byte ≤ 0x7A) || (0x30 ≤ byte && byte ≤ 0x39) || byte = 0x2D

def safeModuleRelativePath (value : Bytes) : Bool :=
  if value = [] ∨ 0x5C ∈ value ∨ value.head? = some 0x2F then false
  else
    clean value ≠ text "." ∧ clean value ≠ text ".." ∧ ¬ (text "../").isPrefixOf (clean value) ∧
      clean value = value

def isHexDigit (byte : UInt8) : Bool :=
  (0x30 ≤ byte && byte ≤ 0x39) || (0x61 ≤ byte && byte ≤ 0x66) || (0x41 ≤ byte && byte ≤ 0x46)

def moduleArtifactKinds : List Bytes := [text "c-shared", text "executable", text "native-module"]

def validateModuleArtifact (artifact : ModuleArtifact) : Except GoError Unit := do
  require (validModulePlatform artifact.platform) (.new (text "artifact platform is invalid"))
  require (artifact.kind ∈ moduleArtifactKinds) (.new (text "artifact kind is unsupported"))
  require (safeModuleRelativePath artifact.path)
    (.new (text "artifact path must be a relative slash-separated path"))
  require (artifact.sha256 = [] ∨ artifact.sha256.length = 64 ∧ artifact.sha256.all isHexDigit)
    (.new (text "artifact has an invalid SHA-256 checksum"))
  require (¬ (artifact.kind = text "native-module" ∧ trimSpace artifact.symbol = []))
    (.new (text "native module artifact must name its initialization symbol"))

namespace ModuleManifest

def providedKinds (manifest : ModuleManifest) : List Bytes :=
  if manifest.schemaVersion = moduleManifestVersion then [canonicalModuleKind manifest.kind]
  else manifest.kinds

def provides (manifest : ModuleManifest) (kind : Bytes) : Bool := kind ∈ manifest.providedKinds

/-- The first manifest schema has one kind, the second a list of kinds. -/
def checkKind (manifest : ModuleManifest) : Except GoError Unit :=
  if manifest.schemaVersion = moduleManifestVersion then
    require (manifest.kind ≠ [] ∧ manifest.kinds = []) (invalid "v1 module requires only a singular kind")
  else
    require (manifest.kind = [] ∧ manifest.kinds ≠ [])
      (invalid "v2 module requires kinds and no singular kind")

def checkDriver (manifest : ModuleManifest) : Except GoError Unit :=
  if manifest.provides moduleKindEngine then
    match parseDriverName manifest.driver with
    | .error err => .error (.detail .moduleManifestInvalid err.message)
    | .ok canonicalDriver => require (manifest.driver = canonicalDriver) (invalid "driver must be canonical")
  else
    require (manifest.driver = []) (invalid "transport module cannot select driver")

def checkDependency (manifest : ModuleManifest) (dependency : ModuleDependency) : Except GoError Unit := do
  checkCanonical dependency.name (invalid "module has invalid dependency")
  require (dependency.name ≠ manifest.name) (invalid "module cannot depend on itself")
  require (dependency.moduleABI = 0 ∨ dependency.moduleABI = moduleABIVersion)
    (.detail .moduleIncompatible (text "module dependency requires another module ABI"))

def isSpaceByte (byte : UInt8) : Bool := byte = 0x20 || (0x09 ≤ byte && byte ≤ 0x0D)

def validate (manifest : ModuleManifest) : Except GoError Unit := do
  require (manifest.schemaVersion = moduleManifestVersion ∨
    manifest.schemaVersion = moduleManifestMultiKindVersion) (invalid "unsupported schema version")
  let canonicalName ← normalizeModuleName manifest.name
  require (manifest.name = canonicalName) (invalid "module name must be canonical")
  manifest.checkKind
  checkEach id (fun kind => require (kind = moduleKindEngine ∨ kind = moduleKindTransport)
    (invalid "module has unsupported kind")) (invalid "module declares kind more than once")
    [] manifest.providedKinds
  require (trimSpace manifest.version ≠ [] ∧ manifest.version.any isSpaceByte = false)
    (invalid "module must provide a non-whitespace version")
  require (manifest.moduleABI = moduleABIVersion)
    (.detail .moduleIncompatible (text "module requires another module ABI"))
  require (trimSpace manifest.license ≠ []) (invalid "module must declare a license")
  manifest.checkDriver
  checkEach id (fun capability => checkCanonical capability (invalid "module has invalid capability"))
    (invalid "module declares capability more than once") [] manifest.capabilities
  checkEach ModuleDependency.name manifest.checkDependency
    (invalid "module declares dependency more than once") [] manifest.dependencies
  checkEach (fun artifact => artifact.platform ++ 0x00 :: artifact.kind)
    (fun artifact => (validateModuleArtifact artifact).mapError fun err =>
      .detail .moduleManifestInvalid err.message)
    (invalid "module lists more than one artifact of a kind for a platform") [] manifest.artifacts

/-- The name of a valid manifest is its own canonical form. -/
theorem normalizeModuleName_name (manifest : ModuleManifest) (h : manifest.validate = .ok ()) :
    normalizeModuleName manifest.name = .ok manifest.name := by
  rw [validate, bind_eq_ok] at h
  obtain ⟨_, -, h⟩ := h
  rw [bind_eq_ok] at h
  obtain ⟨canonicalName, hcanonical, h⟩ := h
  rw [bind_eq_ok] at h
  obtain ⟨_, hname, -⟩ := h
  rw [require_eq_ok] at hname
  rw [← hname] at hcanonical
  exact hcanonical

end ModuleManifest

/-- A valid manifest and the place where it was found. -/
structure Module where
  manifest : ModuleManifest
  directory : Bytes
  manifestPath : Bytes
  valid : manifest.validate = .ok ()
  deriving DecidableEq

/-- A module is found under its own name. -/
theorem Module.normalizeModuleName_name (module : Module) :
    normalizeModuleName module.manifest.name = .ok module.manifest.name :=
  module.manifest.normalizeModuleName_name module.valid

end KVLite.Modules
