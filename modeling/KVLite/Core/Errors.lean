import Mathlib.Data.List.Basic

/-!
# Byte strings and errors

Go strings and byte slices are byte lists. A Go error is kept as its message and the
sentinel it wraps, which is all `errors.Is` and `Error()` read of it.
-/

namespace KVLite

/-- A Go string or byte slice. -/
abbrev Bytes := List UInt8

instance instLawfulBEqBytes : LawfulBEq Bytes := inferInstance

/-- The bytes of an ASCII text. -/
def text (s : String) : Bytes := s.toList.map fun c => UInt8.ofNat c.toNat

/-- The error variables that `errors.Is` is asked about. -/
inductive Sentinel
  | notFound
  | closed
  | invalidArgument
  | codecUnavailable
  | driverUnavailable
  | driverNotInstalled
  | driverNotLoaded
  | driverNotExposed
  | moduleNotInstalled
  | moduleManifestInvalid
  | moduleIncompatible
  | moduleArtifactMissing
  | moduleConflict
  | backendMismatch
  | backendManifestMissing
  | backendManifestInvalid
  | atomicListPushUnsupported
  | atomicSetAddUnsupported
  | atomicSetRemoveUnsupported
  | atomicHashDeleteUnsupported
  | atomicReplaceUnsupported
  | redisWrongType
  deriving DecidableEq, Repr

/-- The text of an error variable. -/
def Sentinel.message : Sentinel → Bytes
  | .notFound => text "kvlite: key not found"
  | .closed => text "kvlite: database is closed"
  | .invalidArgument => text "kvlite: invalid argument"
  | .codecUnavailable => text "kvlite: value codec is unavailable"
  | .driverUnavailable => text "kvlite: storage driver is unavailable"
  | .driverNotInstalled => text "kvlite: storage driver is not installed"
  | .driverNotLoaded => text "kvlite: storage driver is installed but not loaded"
  | .driverNotExposed => text "kvlite: storage driver is not exposed by this server"
  | .moduleNotInstalled => text "kvlite: module is not installed"
  | .moduleManifestInvalid => text "kvlite: module manifest is invalid"
  | .moduleIncompatible => text "kvlite: module is incompatible"
  | .moduleArtifactMissing => text "kvlite: module artifact is missing"
  | .moduleConflict => text "kvlite: module name conflict"
  | .backendMismatch => text "kvlite: database backend mismatch"
  | .backendManifestMissing => text "kvlite: database backend manifest is missing"
  | .backendManifestInvalid => text "kvlite: database backend manifest is invalid"
  | .atomicListPushUnsupported => text "kvlite: engine does not support atomic list push"
  | .atomicSetAddUnsupported => text "kvlite: engine does not support atomic set add"
  | .atomicSetRemoveUnsupported => text "kvlite: engine does not support atomic set remove"
  | .atomicHashDeleteUnsupported => text "kvlite: engine does not support atomic hash delete"
  | .atomicReplaceUnsupported =>
    text "kvlite: engine does not support atomic logical replacement"
  | .redisWrongType =>
    text "WRONGTYPE Operation against a key holding the wrong kind of value"

/-- A Go error: the error variable it wraps, if any, and its text. -/
structure GoError where
  wraps : Option Sentinel
  message : Bytes
  deriving DecidableEq, Repr

namespace GoError

/-- The error variable itself. -/
def of (sentinel : Sentinel) : GoError := ⟨some sentinel, sentinel.message⟩

/-- `errors.New(message)`. -/
def new (message : Bytes) : GoError := ⟨none, message⟩

/-- `fmt.Errorf("%w: detail", sentinel)`. -/
def detail (sentinel : Sentinel) (detail : Bytes) : GoError :=
  ⟨some sentinel, sentinel.message ++ text ": " ++ detail⟩

/-- `fmt.Errorf("context: %w", err)`. -/
def wrap (context : Bytes) (err : GoError) : GoError :=
  ⟨err.wraps, context ++ text ": " ++ err.message⟩

/-- `errors.Is(err, sentinel)`. -/
def is (err : GoError) (sentinel : Sentinel) : Bool := err.wraps = some sentinel

@[simp] theorem is_of (sentinel target : Sentinel) :
    (of sentinel).is target = decide (sentinel = target) := by
  simp [is, of]

@[simp] theorem is_detail (sentinel target : Sentinel) (info : Bytes) :
    (detail sentinel info).is target = decide (sentinel = target) := by
  simp [is, detail]

end GoError

end KVLite
