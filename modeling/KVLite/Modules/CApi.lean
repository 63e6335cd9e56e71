import KVLite.Faults.Engine
import KVLite.Core.Transport
import KVLite.Math.Bounded
import KVLite.Semantics.Simulation

/-!
# Engines behind the C interface

A storage driver can be installed as a shared library that exports the record operations of a
database as C functions. The host calls them through `moduleDriverEngine`. Keys and values
cross as a pointer and a length, results as blocks that the host copies and frees, errors as a
status code and a text, and a scan as a cursor over a snapshot that the library keeps.

The engine of the database in the library is any handler of the engine calls, so it may fail
and answer what it likes. A Go panic is the absence of a result.
-/

namespace KVLite.CApi

open Semantics

/-! ### Values on the way -/

/-- A pointer: nil, or to a block of bytes. -/
abbrev Pointer := Option Bytes

/-- The pointer to the first byte of a slice, nil for an empty one. -/
def pointerTo (data : Bytes) : Pointer := if data.length > 0 then some data else none

/-- The allocator of the process: does it answer a request for no bytes with nil? -/
structure Allocator where
  nilForEmpty : Bool

/-- `C.CBytes`. -/
def cBytes (alloc : Allocator) (data : Bytes) : Pointer :=
  if data = [] ∧ alloc.nilForEmpty then none else some data

/-- The conversion of a `size_t` to a C `int`. -/
def cInt (length : ℕ) : ℤ := Bounded.wrap 32 length

/-- `C.GoBytes`: a negative length panics. -/
def goBytes (pointer : Pointer) (length : ℤ) : Option Bytes :=
  if length = 0 then some []
  else if length < 0 then none
  else match pointer with
    | none => none
    | some block => if length ≤ block.length then some (block.take length.toNat) else none

/-- The text of an error after `C.CString` and `C.GoString`: it ends at the first NUL. -/
def cString (message : Bytes) : Bytes := message.takeWhile (· ≠ 0)

/-- The status code of a C function and the text of the error it has set. -/
structure Status where
  code : ℤ
  message : Bytes

def statusOK : Status := ⟨0, []⟩

/-- The end of a scan: the code of a missing key, without a text. -/
def statusNotFound : Status := ⟨1, []⟩

def statusFor : Option GoError → Status
  | none => statusOK
  | some err =>
    if err.is .notFound then ⟨1, cString err.message⟩
    else if err.is .invalidArgument then ⟨2, cString err.message⟩
    else ⟨3, cString err.message⟩

/-- The status of a result. -/
def statusOf {α : Type} (result : Except GoError α) : Status :=
  match result with
  | .ok _ => statusFor none
  | .error err => statusFor (some err)

def inputBytes (pointer : Pointer) (length : ℕ) : Except GoError Bytes :=
  if length > 2 ^ 63 - 1 then
    .error (.detail .invalidArgument (text "input is too large"))
  else if length = 0 then
    .ok []
  else match pointer with
    | none => .error (.detail .invalidArgument (text "non-empty input has a nil pointer"))
    | some block => .ok (block.take length)

/-- The key of a call, which must not be empty. -/
def inputKey (pointer : Pointer) (length : ℕ) : Except GoError Bytes := do
  let key ← inputBytes pointer length
  if key.length = 0 then
    .error (.detail .invalidArgument (text "key is required"))
  else
    .ok key

/-! ### The library -/

structure ScanSnapshot where
  records : List (Bytes × Bytes)
  next : ℕ

/-- The open scans; the counter is a 64-bit word. -/
structure Cursors where
  next : ℕ
  items : ℕ → Option ScanSnapshot

def Cursors.set (cursors : Cursors) (cursor : ℕ) (snapshot : Option ScanSnapshot) : Cursors :=
  { cursors with items := Function.update cursors.items cursor snapshot }

/-- The state of a library: the engines of its open databases, and the open scans. -/
structure Library (σ : Type) where
  databases : ℕ → Option σ
  cursors : Cursors

section Exports

variable {σ : Type} (alloc : Allocator) (inner : Handler Calls σ)

/-- Code on the record store of a database. -/
def Library.run {α : Type} (handle : ℕ) (state : σ) (x : Action α) (lib : Library σ) :
    Except GoError α × Library σ :=
  ((Fallible.run inner x state).1,
    { lib with
      databases := Function.update lib.databases handle (some (Fallible.run inner x state).2) })

def invalidHandle (handle : ℕ) : Status :=
  ⟨2, cString (GoError.detail .invalidArgument
    (text "invalid database handle " ++ text (toString handle))).message⟩

def invalidCursor (cursor : ℕ) : Status :=
  ⟨2, cString (GoError.detail .invalidArgument
    (text "invalid scan cursor " ++ text (toString cursor))).message⟩

def kvliteRawPut (handle : ℕ) (key : Pointer) (keyLength : ℕ) (value : Pointer)
    (valueLength : ℕ) (lib : Library σ) : Status × Library σ :=
  match lib.databases handle with
  | none => (invalidHandle handle, lib)
  | some state =>
    match inputKey key keyLength with
    | .error err => (statusFor (some err), lib)
    | .ok key =>
      match inputBytes value valueLength with
      | .error err => (statusFor (some err), lib)
      | .ok value =>
        let (result, lib) := lib.run inner handle state (Transport.put key value)
        (statusOf result, lib)

/-- The status, and the block and its length when the status is zero. -/
def kvliteRawGet (handle : ℕ) (key : Pointer) (keyLength : ℕ) (lib : Library σ) :
    (Status × Pointer × ℕ) × Library σ :=
  match lib.databases handle with
  | none => ((invalidHandle handle, none, 0), lib)
  | some state =>
    match inputKey key keyLength with
    | .error err => ((statusFor (some err), none, 0), lib)
    | .ok key =>
      let (result, lib) := lib.run inner handle state (Transport.get key)
      match result with
      | .error err => ((statusFor (some err), none, 0), lib)
      | .ok none => ((statusFor (some (.of .notFound)), none, 0), lib)
      | .ok (some value) => ((statusOK, cBytes alloc value, value.length), lib)

def kvliteRawDelete (handle : ℕ) (key : Pointer) (keyLength : ℕ) (lib : Library σ) :
    Status × Library σ :=
  match lib.databases handle with
  | none => (invalidHandle handle, lib)
  | some state =>
    match inputKey key keyLength with
    | .error err => (statusFor (some err), lib)
    | .ok key =>
      let (result, lib) := lib.run inner handle state (Transport.delete key)
      (statusOf result, lib)

/-- The status, and the cursor when the status is zero. -/
def kvliteRawScanOpen (handle : ℕ) (pre : Pointer) (preLength : ℕ) (lib : Library σ) :
    (Status × ℕ) × Library σ :=
  match lib.databases handle with
  | none => ((invalidHandle handle, 0), lib)
  | some state =>
    match inputBytes pre preLength with
    | .error err => ((statusFor (some err), 0), lib)
    | .ok pre =>
      let (result, lib) := lib.run inner handle state (Transport.scanAll pre)
      match result with
      | .error err => ((statusFor (some err), 0), lib)
      | .ok records =>
        let cursor := lib.cursors.next
        let cursors := { lib.cursors.set cursor (some ⟨records, 0⟩) with next := (cursor + 1) % 2 ^ 64 }
        ((statusOK, cursor), { lib with cursors := cursors })

end Exports

/-- What a step of a scan hands out. -/
structure ScanOutput where
  status : Status
  key : Pointer
  keyLength : ℕ
  value : Pointer
  valueLength : ℕ

def ScanOutput.failed (status : Status) : ScanOutput := ⟨status, none, 0, none, 0⟩

def kvliteRawScanNext (alloc : Allocator) (cursor : ℕ) (cursors : Cursors) :
    ScanOutput × Cursors :=
  match cursors.items cursor with
  | none => (.failed (invalidCursor cursor), cursors)
  | some snapshot =>
    match snapshot.records[snapshot.next]? with
    | none => (.failed statusNotFound, cursors)
    | some (key, value) =>
      (⟨statusOK, cBytes alloc key, key.length, cBytes alloc value, value.length⟩,
        cursors.set cursor (some { snapshot with next := snapshot.next + 1 }))

def kvliteRawScanClose (cursor : ℕ) (cursors : Cursors) : Status × Cursors :=
  match cursors.items cursor with
  | none => (invalidCursor cursor, cursors)
  | some _ => (statusOK, cursors.set cursor none)

/-! ### The host -/

/-- The error of a status. -/
def statusError (status : Status) (operation : Bytes) : Except GoError Unit :=
  match nativeModuleStatusError status.code status.message operation with
  | none => .ok ()
  | some err => .error err

section StatusError

variable {status : Status} {operation : Bytes}

theorem statusError_of_eq (h : status.code = 0) : statusError status operation = .ok () := by
  rw [statusError, nativeModuleStatusError, if_pos h]

/-- The error says whether the code is that of a missing key. -/
theorem exists_statusError (h : status.code ≠ 0) :
    ∃ err, statusError status operation = .error err ∧
      err.is .notFound = decide (status.code = 1) := by
  rw [statusError, nativeModuleStatusError, if_neg h]
  dsimp only
  generalize (if status.message = [] then text "module " ++ operation ++
    text " failed with status " ++ text (toString status.code) else status.message) = message
  by_cases hone : status.code = 1
  · rw [if_pos hone, decide_eq_true hone]
    exact ⟨_, rfl, by simp [GoError.is, GoError.detail]⟩
  · rw [if_neg hone, decide_eq_false hone]
    split_ifs
    · exact ⟨_, rfl, by simp [GoError.is, GoError.detail]⟩
    · exact ⟨_, rfl, by simp [GoError.is, GoError.detail]⟩

end StatusError

namespace ModuleLibrary

variable {σ : Type} (alloc : Allocator) (inner : Handler Calls σ)

def put (handle : ℕ) (key value : Bytes) (lib : Library σ) : Except GoError Unit × Library σ :=
  let (status, lib) := kvliteRawPut inner handle (pointerTo key) key.length (pointerTo value)
    value.length lib
  (statusError status (text "put"), lib)

/-- The copy of a value; without a block or a length it is empty. -/
def copyValue (value : Pointer) (length : ℕ) : Option Bytes :=
  if value = none then some []
  else if length = 0 then some []
  else goBytes value (cInt length)

def get (handle : ℕ) (key : Bytes) (lib : Library σ) :
    Option (Except GoError Bytes) × Library σ :=
  let ((status, value, length), lib) :=
    kvliteRawGet alloc inner handle (pointerTo key) key.length lib
  match statusError status (text "get") with
  | .error err => (some (.error err), lib)
  | .ok () => ((copyValue value length).map .ok, lib)

def delete (handle : ℕ) (key : Bytes) (lib : Library σ) : Except GoError Unit × Library σ :=
  let (status, lib) := kvliteRawDelete inner handle (pointerTo key) key.length lib
  (statusError status (text "delete"), lib)

/-- The records that a cursor has still to hand out. -/
def remaining (cursor : ℕ) (cursors : Cursors) : ℕ :=
  match cursors.items cursor with
  | none => 0
  | some snapshot => snapshot.records.length - snapshot.next

/-- The two blocks of a record, copied. -/
def copyBoth (key : Pointer) (keyLength : ℕ) (value : Pointer) (valueLength : ℕ) :
    Option (Bytes × Bytes) := do
  let key ← goBytes key (cInt keyLength)
  let value ← goBytes value (cInt valueLength)
  return (key, value)

/-- What the host makes of a step: the next record, or the end of the scan. -/
def received (output : ScanOutput) : Option (Except GoError (Option (Bytes × Bytes))) :=
  if output.status.code = 1 then
    some (.ok none)
  else
    match statusError output.status (text "scan next") with
    | .error err => some (.error err)
    | .ok () => (copyBoth output.key output.keyLength output.value output.valueLength).map
        fun record => .ok (some record)

/-- One round of the loop over the cursor. -/
def scanRound (cursor : ℕ) (cursors : Cursors) :
    Option (Except GoError (Option (Bytes × Bytes))) × Cursors :=
  ((received (kvliteRawScanNext alloc cursor cursors).1),
    (kvliteRawScanNext alloc cursor cursors).2)

/-- A record of the library, as the host copies it. -/
def copied (record : Bytes × Bytes) : Option (Bytes × Bytes) :=
  copyBoth (cBytes alloc record.1) record.1.length (cBytes alloc record.2) record.2.length

section Rounds

variable {alloc : Allocator} {cursor : ℕ} {cursors cursors' : Cursors} {snapshot : ScanSnapshot}
  {output : ScanOutput}

theorem received_of_eq (h : output.status.code = 0) :
    received output = (copyBoth output.key output.keyLength output.value output.valueLength).map
      fun record => .ok (some record) := by
  rw [received, if_neg (by omega), statusError_of_eq h]

theorem received_of_one (h : output.status.code = 1) : received output = some (.ok none) := by
  rw [received, if_pos h]

theorem exists_received_error (hzero : output.status.code ≠ 0) (hone : output.status.code ≠ 1) :
    ∃ err, received output = some (.error err) := by
  obtain ⟨err, herr, -⟩ := @exists_statusError output.status (text "scan next") hzero
  exact ⟨err, by rw [received, if_neg hone, herr]⟩

/-- The cursor is not known. -/
theorem exists_scanRound_of_none (h : cursors.items cursor = none) :
    ∃ err, scanRound alloc cursor cursors = (some (.error err), cursors) := by
  have hnext : kvliteRawScanNext alloc cursor cursors =
      (.failed (invalidCursor cursor), cursors) := by
    rw [kvliteRawScanNext, h]
  obtain ⟨err, herr⟩ := @exists_received_error (.failed (invalidCursor cursor))
    (show (2 : ℤ) ≠ 0 by decide) (show (2 : ℤ) ≠ 1 by decide)
  exact ⟨err, by rw [scanRound, hnext, herr]⟩

/-- The snapshot is drained. -/
theorem scanRound_of_drained (h : cursors.items cursor = some snapshot)
    (hdrained : snapshot.records[snapshot.next]? = none) :
    scanRound alloc cursor cursors = (some (.ok none), cursors) := by
  have hnext : kvliteRawScanNext alloc cursor cursors = (.failed statusNotFound, cursors) := by
    rw [kvliteRawScanNext, h]
    dsimp only
    rw [hdrained]
  rw [scanRound, hnext, received_of_one rfl]

/-- The next record is copied. -/
theorem scanRound_of_record {record : Bytes × Bytes} (h : cursors.items cursor = some snapshot)
    (hrecord : snapshot.records[snapshot.next]? = some record) :
    scanRound alloc cursor cursors =
      ((copied alloc record).map fun record => .ok (some record),
        cursors.set cursor (some { snapshot with next := snapshot.next + 1 })) := by
  have hnext : kvliteRawScanNext alloc cursor cursors =
      (⟨statusOK, cBytes alloc record.1, record.1.length, cBytes alloc record.2, record.2.length⟩,
        cursors.set cursor (some { snapshot with next := snapshot.next + 1 })) := by
    rw [kvliteRawScanNext, h]
    dsimp only
    rw [hrecord]
  rw [scanRound, hnext, received_of_eq rfl, copied]

/-- A round that delivers a record brings the cursor forward. -/
theorem remaining_lt {record : Bytes × Bytes}
    (h : scanRound alloc cursor cursors = (some (.ok (some record)), cursors')) :
    remaining cursor cursors' < remaining cursor cursors := by
  cases hsnapshot : cursors.items cursor with
  | none =>
    obtain ⟨err, herr⟩ : ∃ err, scanRound alloc cursor cursors = (some (.error err), cursors) :=
      exists_scanRound_of_none hsnapshot
    rw [herr] at h
    cases h
  | some snapshot =>
    cases hget : snapshot.records[snapshot.next]? with
    | none =>
      rw [scanRound_of_drained hsnapshot hget] at h
      cases h
    | some next =>
      obtain ⟨hlt, -⟩ := List.getElem?_eq_some_iff.mp hget
      rw [scanRound_of_record hsnapshot hget] at h
      obtain ⟨-, rfl⟩ := Prod.ext_iff.mp h
      simp only [remaining, hsnapshot, Cursors.set, Function.update_self]
      omega

end Rounds

/-- The loop over the cursor. -/
def scanLoop (cursor : ℕ) (cursors : Cursors) :
    Option (Except GoError (List (Bytes × Bytes))) × Cursors :=
  match _hround : scanRound alloc cursor cursors with
  | (none, cursors') => (none, cursors')
  | (some (.error err), cursors') => (some (.error err), cursors')
  | (some (.ok none), cursors') => (some (.ok []), cursors')
  | (some (.ok (some record)), cursors') =>
    let (rest, last) := scanLoop cursor cursors'
    (rest.map fun result => result.map fun records => record :: records, last)
termination_by remaining cursor cursors
decreasing_by exact remaining_lt _hround

/-- The cursor is closed before the records are returned, and after an error. -/
def scanPrefix (handle : ℕ) (pre : Bytes) (lib : Library σ) :
    Option (Except GoError (List (Bytes × Bytes))) × Library σ :=
  let ((status, cursor), lib) := kvliteRawScanOpen inner handle (pointerTo pre) pre.length lib
  match statusError status (text "scan open") with
  | .error err => (some (.error err), lib)
  | .ok () =>
    match scanLoop alloc cursor lib.cursors with
    | (none, cursors) => (none, { lib with cursors := cursors })
    | (some (.error err), cursors) =>
      (some (.error err), { lib with cursors := (kvliteRawScanClose cursor cursors).2 })
    | (some (.ok records), cursors) =>
      let (status, cursors) := kvliteRawScanClose cursor cursors
      (some ((statusError status (text "scan close")).map fun _ => records),
        { lib with cursors := cursors })

end ModuleLibrary

/-! ### Operations -/

/-- An operation of an engine. -/
inductive RawOp
  | put (key value : Bytes)
  | get (key : Bytes)
  | delete (key : Bytes)
  | scanPrefix (pre : Bytes)

/-- What an operation returns. -/
inductive RawAnswer
  | done
  | value (found : Option Bytes)
  | records (delivered : List (Bytes × Bytes))

/-- The operation on the record store itself. -/
def RawOp.code : RawOp → Action RawAnswer
  | .put key value => do
    Transport.put key value
    return .done
  | .get key => return .value (← Transport.get key)
  | .delete key => do
    Transport.delete key
    return .done
  | .scanPrefix pre => return .records (← Transport.scanAll pre)

def RawOp.direct {σ : Type} (inner : Handler Calls σ) (op : RawOp) (state : σ) :
    Except GoError RawAnswer × σ :=
  Fallible.run inner op.code state

structure ModuleDriverEngine where
  handle : ℕ
  closed : Bool

/-- What `Get` makes of the result of the library: the error of a missing key is no error. -/
def foundOf : Option (Except GoError Bytes) → Option (Except GoError RawAnswer)
  | none => none
  | some (.error err) =>
    if err.is .notFound then some (.ok (.value none)) else some (.error err)
  | some (.ok data) => some (.ok (.value (some data)))

/-- The operation through the module. -/
def ModuleDriverEngine.perform {σ : Type} (alloc : Allocator) (inner : Handler Calls σ)
    (engine : ModuleDriverEngine) (op : RawOp) (lib : Library σ) :
    Option (Except GoError RawAnswer) × Library σ :=
  match op with
  | .get key =>
    if key.length = 0 then
      (some (.error (.detail .invalidArgument (text "key is required"))), lib)
    else if engine.closed then
      (some (.error (.of .closed)), lib)
    else
      let (result, lib) := ModuleLibrary.get alloc inner engine.handle key lib
      (foundOf result, lib)
  | .put key value =>
    if engine.closed then
      (some (.error (.of .closed)), lib)
    else
      let (result, lib) := ModuleLibrary.put inner engine.handle key value lib
      (some (result.map fun _ => .done), lib)
  | .delete key =>
    if engine.closed then
      (some (.error (.of .closed)), lib)
    else
      let (result, lib) := ModuleLibrary.delete inner engine.handle key lib
      (some (result.map fun _ => .done), lib)
  | .scanPrefix pre =>
    if engine.closed then
      (some (.error (.of .closed)), lib)
    else
      let (result, lib) := ModuleLibrary.scanPrefix alloc inner engine.handle pre lib
      (result.map fun result => result.map .records, lib)

end KVLite.CApi
