import KVLite.Http.Utf8
import KVLite.Semantics.Simulation
import Mathlib.Data.Int.Notation

/-!
# Opening a database directory

A database directory names the engine it belongs to in a manifest file. `Open` finds the
driver by one of three mechanisms: a driver linked into the process, an installed module
with a C shared library that runs the same `Open` inside, or an installed native module
that is loaded into the process and registered there. The three differ in when the engine
is opened and when the manifest is looked at.

`Open` is a program over the steps it makes outside: those of the driver registry, of the
file system and of the engine. What a step does, and how it can fail, is said by
`respond`; a step that fails may have done a part of its work.
-/

namespace KVLite.Backend

open Semantics

/-! ### Drivers and manifests -/

/-- A driver in the registry. `RegisterDriver` refuses a driver without these texts. -/
structure Registered where
  backend : Bytes
  implementation : Bytes
  format : Bytes
  version : Bytes
  backend_ne : backend ≠ []
  implementation_ne : implementation ≠ []
  format_ne : format ≠ []
  version_ne : version ≠ []
  deriving DecidableEq

/-- What a directory is bound to. -/
@[ext] structure Identity where
  backend : Bytes
  implementation : Bytes
  format : Bytes
  deriving DecidableEq, Repr

def Registered.identity (driver : Registered) : Identity :=
  ⟨driver.backend, driver.implementation, driver.format⟩

def backendManifestVersion : ℤ := 1

structure Manifest where
  kvliteFormatVersion : ℤ
  backend : Bytes
  driver : Bytes
  driverFormat : Bytes
  driverVersion : Bytes
  deriving DecidableEq, Repr

def Manifest.identity (manifest : Manifest) : Identity :=
  ⟨manifest.backend, manifest.driver, manifest.driverFormat⟩

/-- The manifest that `createBackendManifest` encodes, as it is decoded again: the JSON
encoder replaces what is not valid UTF-8. -/
def Registered.manifest (driver : Registered) : Manifest :=
  ⟨backendManifestVersion, Http.toValidUtf8 driver.backend, Http.toValidUtf8 driver.implementation,
    Http.toValidUtf8 driver.format, Http.toValidUtf8 driver.version⟩

/-- What the bytes of a manifest file are read as. A file that is not fully written is not
a JSON value. -/
inductive Content
  | unreadable
  | holds (manifest : Manifest)
  deriving DecidableEq, Repr

def validateBackendManifest (manifest : Manifest) (driver : Registered) : Except GoError Unit :=
  if manifest.kvliteFormatVersion ≠ backendManifestVersion ∨ manifest.backend = [] ∨
      manifest.driver = [] ∨ manifest.driverFormat = [] ∨ manifest.driverVersion = [] then
    .error (.detail .backendManifestInvalid (text "expected format version 1"))
  else if manifest.backend ≠ driver.backend ∨ manifest.driver ≠ driver.implementation ∨
      manifest.driverFormat ≠ driver.format then
    .error (.of .backendMismatch)
  else
    .ok ()

/-! ### The steps of `Open` -/

/-- How the exclusive creation of a file ends. -/
inductive Created
  | created
  | present
  | failed (err : GoError)

inductive Call
  | lookup (name : Bytes)
  | register (driver : Registered)
  | loaded (directory : Bytes)
  | remember (directory : Bytes) (driver : Registered)
  | load (directory : Bytes)
  | available (driver : Registered)
  | mkdirAll
  | readManifest
  | readDir
  | create
  | write (manifest : Manifest)
  | sync
  | openEngine (driver : Registered)
  | closeEngine

abbrev Call.Answer : Call → Type
  | .lookup _ => Option Registered
  | .register _ => Except GoError Unit
  | .loaded _ => Option Registered
  | .remember _ _ => Unit
  | .load _ => Except GoError Unit
  | .available _ => Except GoError Unit
  | .mkdirAll => Except GoError Unit
  | .readManifest => Except GoError (Option Content)
  | .readDir => Except GoError ℕ
  | .create => Created
  | .write _ => Except GoError Unit
  | .sync => Except GoError Unit
  | .openEngine _ => Except GoError Unit
  | .closeEngine => Unit

abbrev Steps : Signature := ⟨Call, Call.Answer⟩

/-- Code of `Open`, which can fail. -/
abbrev Opening (α : Type) := Fallible Steps GoError α

def ask (request : Call) : Opening request.Answer := ExceptT.lift (Program.perform (S := Steps) request)

/-- A step whose error ends the code. -/
def attempt {α : Type} (x : Program Steps (Except GoError α)) : Opening α := ExceptT.mk x

/-- `fmt.Errorf("context: %w", err)` for the error of a step. -/
def attemptAs {α : Type} (context : String) (x : Program Steps (Except GoError α)) : Opening α :=
  ExceptT.mk (Except.mapError (GoError.wrap (text context)) <$> x)

def ofExcept {α : Type} (x : Except GoError α) : Opening α := ExceptT.mk (pure x)

/-- When `x` fails, the engine is closed and the error passed on. -/
def closingOnError {α : Type} (x : Opening α) : Opening α := do
  match ← ExceptT.lift (ExceptT.run x) with
  | .ok value => return value
  | .error err =>
    ask .closeEngine
    throw err

/-- The text of the decoding error is left out. -/
def readBackendManifest : Opening (Option Manifest) := do
  match ← ask .readManifest with
  | .error err => throw (.wrap (text "kvlite: read backend manifest") err)
  | .ok none => return none
  | .ok (some .unreadable) => throw (.of .backendManifestInvalid)
  | .ok (some (.holds manifest)) => return some manifest

def createBackendManifest (driver : Registered) : Opening Unit := do
  match ← ask .create with
  | .present =>
    match ← readBackendManifest with
    | none =>
      throw (.detail .backendManifestInvalid (text "manifest disappeared while opening the database"))
    | some existing => ofExcept (validateBackendManifest existing driver)
  | .failed err => throw (.wrap (text "kvlite: create backend manifest") err)
  | .created =>
    attemptAs "kvlite: write backend manifest" (Program.perform (S := Steps) (.write driver.manifest))
    attemptAs "kvlite: sync backend manifest" (Program.perform (S := Steps) .sync)

/-- The result says whether a directory of an older release is adopted. -/
def prepareBackendManifest (driver : Registered) (allowLegacyRocksDB : Bool) : Opening Bool := do
  attemptAs "kvlite: create database directory" (Program.perform (S := Steps) .mkdirAll)
  match ← readBackendManifest with
  | some manifest =>
    ofExcept (validateBackendManifest manifest driver)
    return false
  | none =>
    let entries ← attemptAs "kvlite: inspect database directory" (Program.perform (S := Steps) .readDir)
    if entries = 0 then
      createBackendManifest driver
      return false
    else if allowLegacyRocksDB then
      return true
    else
      throw (.of .backendManifestMissing)

def createBackendManifestIfNotExists (driver : Registered) : Opening Unit := do
  match ← readBackendManifest with
  | some _ => return ()
  | none =>
    let entries ← attemptAs "kvlite: inspect database directory" (Program.perform (S := Steps) .readDir)
    if entries > 0 then
      throw (.of .backendManifestMissing)
    else
      createBackendManifest driver

/-- `Open` with a linked driver. -/
def openLinked (driver : Registered) (allowLegacyRocksDB : Bool) : Opening Registered := do
  attemptAs "kvlite: open driver" (Program.perform (S := Steps) (.available driver))
  let legacyManifest ← prepareBackendManifest driver allowLegacyRocksDB
  attempt (Program.perform (S := Steps) (.openEngine driver))
  if legacyManifest then
    closingOnError (createBackendManifest driver)
    return driver
  else
    return driver

/-- An installed module with a C shared library: what its manifest says, and the driver
that is linked into the library. -/
structure Bundle where
  directory : Bytes
  info : Registered
  linked : Registered

/-- The JSON encoder does not change the texts that a manifest is compared by. -/
structure Registered.Survives (driver : Registered) : Prop where
  backend : Http.toValidUtf8 driver.backend = driver.backend
  implementation : Http.toValidUtf8 driver.implementation = driver.implementation
  format : Http.toValidUtf8 driver.format = driver.format

/-- An installed native module, with what `driverFromModule` makes of its manifest. The
texts come out of a JSON decoder and are valid. -/
structure NativeModule where
  directory : Bytes
  info : Registered
  survives : info.Survives

/-- `Open` with a C shared library, which runs `Open` with its own driver. -/
def openBundle (bundle : Bundle) : Opening Registered := do
  attempt (Program.perform (S := Steps) (.load bundle.directory))
  let driver ← openLinked bundle.linked false
  closingOnError (createBackendManifestIfNotExists bundle.info)
  return driver

def openNativeModuleDriver (module : NativeModule) : Opening Unit := do
  match ← ask (.loaded module.directory) with
  | some registered => attempt (Program.perform (S := Steps) (.openEngine registered))
  | none =>
    attempt (Program.perform (S := Steps) (.load module.directory))
    attemptAs "kvlite: register native driver" (Program.perform (S := Steps) (.register module.info))
    ask (.remember module.directory module.info)
    attempt (Program.perform (S := Steps) (.openEngine module.info))

def openNative (module : NativeModule) : Opening Registered := do
  openNativeModuleDriver module
  closingOnError (attemptAs "kvlite: create database directory" (Program.perform (S := Steps) .mkdirAll))
  closingOnError (createBackendManifestIfNotExists module.info)
  return module.info

/-- What module discovery finds for each driver name: the error that is reported when the
driver is not linked, and the modules. A module is found by the name of its driver. -/
structure Installation where
  report : Bytes → GoError
  bundle : Bytes → Except GoError Bundle
  native : Bytes → Except GoError NativeModule
  bundle_backend : ∀ {name found}, bundle name = .ok found → found.linked.backend = name
  native_backend : ∀ {name found}, native name = .ok found → found.info.backend = name

def driverRocksDB : Bytes := text "rocksdb"

/-- The driver that the engine of the database belongs to. -/
def openConfiguredEngine (installation : Installation) (name : Bytes) (driverExplicit : Bool) :
    Opening Registered := do
  match ← ask (.lookup name) with
  | some registered => openLinked registered (¬ driverExplicit ∧ name = driverRocksDB)
  | none =>
    if ¬ (installation.report name).is .driverNotInstalled ∧
        ¬ (installation.report name).is .driverNotLoaded then
      throw (installation.report name)
    else
      match installation.bundle name with
      | .ok bundle => openBundle bundle
      | .error moduleErr =>
        match installation.native name with
        | .ok module => openNative module
        | .error nativeErr =>
          -- The most specific report comes first.
          if ¬ nativeErr.is .moduleNotInstalled then throw nativeErr
          else if ¬ moduleErr.is .moduleNotInstalled then throw moduleErr
          else throw (.detail .driverNotInstalled name)

/-! ### The world outside -/

/-- The entries of a database directory: its manifest, and the other files. -/
structure Entries where
  manifest : Option Content
  files : List Bytes
  deriving DecidableEq, Repr

/-- A path: absent, or a directory. -/
abbrev Directory := Option Entries

/-- The manifest file of a path. -/
def Directory.manifest (directory : Directory) : Option Content := directory.bind Entries.manifest

/-- The process and the path. -/
structure World where
  registry : Bytes → Option Registered
  loaded : Bytes → Option Registered
  directory : Directory

/-- How a step goes: the error of one that fails, what a failed write has left of the
manifest, and the files that an engine creates while it opens. -/
structure Trouble where
  err : Option GoError
  complete : Bool
  files : List Bytes

/-- A step without an error, in which an engine creates the given files. -/
def Trouble.smooth (files : List Bytes) : Trouble := ⟨none, false, files⟩

/-- The path after an engine has created files there. -/
def Directory.adding (directory : Directory) (files : List Bytes) : Directory :=
  match directory with
  | some entries => some { entries with files := files ++ entries.files }
  | none => if files = [] then none else some ⟨none, files⟩

/-- A failing step answers with its error. -/
def Trouble.answer {α : Type} (trouble : Trouble) (value : α) : Except GoError α :=
  match trouble.err with
  | some err => .error err
  | none => .ok value

def notExist : GoError := .new (text "no such file or directory")

/-- One step. -/
def respond (trouble : Trouble) : (request : Call) → World → request.Answer × World
  | .lookup name, world => (world.registry name, world)
  | .register driver, world =>
    match trouble.err with
    | some err => (.error err, world)
    | none =>
      if (world.registry driver.backend).isSome then (.error (.of .invalidArgument), world)
      else (.ok (), { world with registry := Function.update world.registry driver.backend driver })
  | .loaded directory, world => (world.loaded directory, world)
  | .remember directory driver, world =>
    ((), { world with loaded := Function.update world.loaded directory driver })
  | .load _, world => (trouble.answer (), world)
  | .available _, world => (trouble.answer (), world)
  | .mkdirAll, world =>
    match trouble.err with
    | some err => (.error err, world)
    | none => (.ok (), { world with directory := some (world.directory.getD ⟨none, []⟩) })
  | .readManifest, world => (trouble.answer world.directory.manifest, world)
  | .readDir, world =>
    match world.directory with
    | none => (.error notExist, world)
    | some entries => (trouble.answer (entries.files.length + entries.manifest.toList.length), world)
  | .create, world =>
    match world.directory, trouble.err with
    | none, _ => (.failed notExist, world)
    | some _, some err => (.failed err, world)
    | some ⟨some _, _⟩, none => (.present, world)
    | some ⟨none, files⟩, none => (.created, { world with directory := some ⟨some .unreadable, files⟩ })
  | .write manifest, world =>
    let content : Content :=
      if trouble.err = none ∨ trouble.complete then .holds manifest else .unreadable
    (trouble.answer (),
      { world with directory := world.directory.map fun entries => { entries with manifest := some content } })
  | .sync, world => (trouble.answer (), world)
  | .openEngine _, world =>
    (trouble.answer (), { world with directory := world.directory.adding trouble.files })
  | .closeEngine, world => ((), world)

/-- The steps of a run are numbered, and a plan says how each of them goes. -/
abbrev Plan := ℕ → Trouble

def following (plan : Plan) : Handler Steps (ℕ × World)
  | request, (n, world) =>
    ((respond (plan n) request world).1, (n + 1, (respond (plan n) request world).2))

end KVLite.Backend
