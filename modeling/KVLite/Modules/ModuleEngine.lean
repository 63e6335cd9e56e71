import KVLite.Modules.CApi

/-!
# The engine behind a module is the engine inside

A host that works through `moduleDriverEngine` gets what the engine of the library returns,
operation after operation: status codes keep a missing key apart from an empty value and the
end of a scan apart from an error, and the cursor delivers every record once. The lengths are
the exception: the host converts them to C integers of 32 bits before it copies, so a key or
a value of `2 ^ 31` bytes or more is cut off or ends the process.
-/

namespace KVLite.CApi

open Semantics Fallible

section Blocks

variable {alloc : Allocator} {data : Bytes} {record : Bytes × Bytes}

theorem half_eq : Bounded.half 32 = 2 ^ 31 := rfl

/-- A block arrives whole exactly when its length is a C integer. -/
theorem goBytes_cBytes_iff :
    goBytes (cBytes alloc data) (cInt data.length) = some data ↔ data.length < 2 ^ 31 := by
  have hbits : 0 < 32 := by decide
  constructor
  · intro h
    have hlt : cInt data.length < 2 ^ 31 := Bounded.wrap_lt hbits
    unfold goBytes at h
    split_ifs at h with hzero hneg
    · obtain rfl := Option.some.inj h
      decide
    · cases hpointer : cBytes alloc data with
      | none =>
        rw [hpointer] at h
        cases h
      | some block =>
        rw [hpointer] at h
        dsimp only at h
        split_ifs at h with hle
        -- What was copied is no longer than the converted length.
        have hlength : data.length ≤ (cInt data.length).toNat := by
          conv_lhs => rw [← Option.some.inj h]
          exact List.length_take_le _ _
        omega
  · intro hlt
    have hlength : cInt data.length = data.length := by
      refine Bounded.wrap_of_lt hbits (by omega) ?_
      rw [half_eq]
      exact_mod_cast hlt
    rw [hlength]
    unfold goBytes
    cases data with
    | nil => rfl
    | cons byte rest =>
      have hpointer : cBytes alloc (byte :: rest) = some (byte :: rest) := by
        rw [cBytes, if_neg (by simp)]
      have hpos : ((byte :: rest).length : ℤ) ≠ 0 := by
        rw [List.length_cons]
        omega
      rw [if_neg hpos, if_neg (by omega), hpointer]
      dsimp only
      rw [if_pos le_rfl, Int.toNat_natCast, List.take_length]

theorem copied_iff : ModuleLibrary.copied alloc record = some record ↔
    record.1.length < 2 ^ 31 ∧ record.2.length < 2 ^ 31 := by
  rw [← @goBytes_cBytes_iff alloc record.1, ← @goBytes_cBytes_iff alloc record.2]
  unfold ModuleLibrary.copied ModuleLibrary.copyBoth
  generalize goBytes (cBytes alloc record.1) (cInt record.1.length) = key
  generalize goBytes (cBytes alloc record.2) (cInt record.2.length) = value
  cases key with
  | none => simp
  | some key =>
    cases value with
    | none => simp
    | some value => simp [Prod.ext_iff]

theorem inputBytes_pointerTo (h : data.length < 2 ^ 63) :
    inputBytes (pointerTo data) data.length = .ok data := by
  unfold inputBytes
  rw [if_neg (by omega)]
  cases data with
  | nil => rfl
  | cons byte rest =>
    rw [if_neg (by simp), pointerTo, if_pos (by simp)]
    dsimp only
    rw [List.take_length]

theorem inputKey_pointerTo (h : data.length < 2 ^ 63) (hne : data ≠ []) :
    inputKey (pointerTo data) data.length = .ok data := by
  rw [inputKey, inputBytes_pointerTo h]
  exact if_neg (by simpa using hne)

end Blocks

/-! ### Scans -/

namespace ModuleLibrary

variable {alloc : Allocator} {cursor : ℕ} {cursors : Cursors}

/-- The loop delivers what is left of the snapshot, and the cursor stays open. -/
theorem scanLoop_eq {records : List (Bytes × Bytes)} {next : ℕ}
    (h : cursors.items cursor = some ⟨records, next⟩) :
    ∃ last, scanLoop alloc cursor cursors =
        (((records.drop next).mapM (copied alloc)).map .ok, last) ∧
      ∃ snapshot, last.items cursor = some snapshot := by
  induction hleft : records.length - next generalizing cursors next with
  | zero =>
    have hdrained : records[next]? = none := List.getElem?_eq_none (by omega)
    refine ⟨cursors, ?_, _, h⟩
    rw [scanLoop, scanRound_of_drained h hdrained, List.drop_of_length_le (by omega)]
    rfl
  | succ left ih =>
    have hlt : next < records.length := by omega
    have hrecord : records[next]? = some records[next] := List.getElem?_eq_getElem hlt
    have hround := @scanRound_of_record alloc cursor cursors _ _ h hrecord
    have hset : (cursors.set cursor (some ⟨records, next + 1⟩)).items cursor =
        some ⟨records, next + 1⟩ := Function.update_self _ _ _
    rw [List.drop_eq_getElem_cons hlt]
    cases hcopied : copied alloc records[next] with
    | none =>
      refine ⟨_, ?_, _, hset⟩
      rw [hcopied] at hround
      rw [scanLoop, hround, List.mapM_cons, hcopied]
      rfl
    | some record =>
      obtain ⟨last, hloop, hopen⟩ := ih hset (by omega)
      refine ⟨last, ?_, hopen⟩
      rw [hcopied] at hround
      rw [scanLoop, hround, Option.map_some]
      dsimp only
      rw [hloop, List.mapM_cons, hcopied]
      cases (records.drop (next + 1)).mapM (copied alloc) <;> rfl

end ModuleLibrary

/-- A list comes back from a copy that may fail exactly when each element does. -/
theorem mapM_eq_some_self_iff {α : Type} {f : α → Option α} {items : List α} :
    items.mapM f = some items ↔ ∀ item ∈ items, f item = some item := by
  induction items with
  | nil => simp
  | cons item items ih =>
    rw [List.mapM_cons, List.forall_mem_cons, ← ih]
    cases f item with
    | none => simp
    | some copy =>
      cases items.mapM f with
      | none => simp
      | some copies => simp

/-! ### One operation -/

/-- The host gets the answer of the engine, or an error where the engine fails. -/
def Agrees (outcome : Option (Except GoError RawAnswer)) (answer : Except GoError RawAnswer) :
    Prop :=
  match answer with
  | .ok answer => outcome = some (.ok answer)
  | .error _ => ∃ err, outcome = some (.error err)

/-- The keys and values are Go slices, and the key is not empty. -/
def RawOp.Admissible : RawOp → Prop
  | .put key value => key ≠ [] ∧ key.length < 2 ^ 63 ∧ value.length < 2 ^ 63
  | .get key => key ≠ [] ∧ key.length < 2 ^ 63
  | .delete key => key ≠ [] ∧ key.length < 2 ^ 63
  | .scanPrefix pre => pre.length < 2 ^ 63

/-- The lengths of what the engine returns are C integers, and an error of a read is not that
of a missing key. -/
def RawOp.Crosses {σ : Type} (inner : Handler Calls σ) (op : RawOp) (state : σ) : Prop :=
  match (op.direct inner state).1 with
  | .ok .done => True
  | .ok (.value found) => ∀ data ∈ found, data.length < 2 ^ 31
  | .ok (.records records) => ∀ record ∈ records, record.1.length < 2 ^ 31 ∧ record.2.length < 2 ^ 31
  | .error err => ∀ key, op = .get key → err.is .notFound = false

section Operation

variable {σ : Type} {alloc : Allocator} {inner : Handler Calls σ} {engine : ModuleDriverEngine}
  {lib : Library σ} {state : σ} {operation : Bytes}

/-- The library after the engine of a database has moved to a state. -/
def Library.store (lib : Library σ) (handle : ℕ) (state : σ) : Library σ :=
  { lib with databases := Function.update lib.databases handle (some state) }

theorem run_map {α β : Type} (x : Action α) (f : α → β) (state : σ) :
    run inner (do let value ← x; return f value) state =
      ((run inner x state).1.map f, (run inner x state).2) := by
  cases hrun : run inner x state with
  | mk result state' =>
    cases result with
    | ok value => exact (run_bind_ok hrun).trans rfl
    | error err => exact (run_bind_error hrun).trans rfl

/-- An error keeps whether it is that of a missing key. -/
theorem exists_statusError_of_error (err : GoError) :
    ∃ err', statusError (statusFor (some err)) operation = .error err' ∧
      err'.is .notFound = err.is .notFound := by
  have hcode : (statusFor (some err)).code ≠ 0 ∧
      decide ((statusFor (some err)).code = 1) = err.is .notFound := by
    unfold statusFor
    dsimp only
    split
    · next hnotFound => exact ⟨show (1 : ℤ) ≠ 0 by decide, hnotFound.symm⟩
    · next hnotFound =>
      have hfalse : err.is .notFound = false := by simpa using hnotFound
      split
      · exact ⟨show (2 : ℤ) ≠ 0 by decide, hfalse.symm⟩
      · exact ⟨show (3 : ℤ) ≠ 0 by decide, hfalse.symm⟩
  obtain ⟨err', herr', his⟩ := @exists_statusError _ operation hcode.1
  exact ⟨err', herr', his.trans hcode.2⟩

/-- The answer to a write. -/
theorem agrees_statusOf (result : Except GoError Unit) :
    Agrees (some ((statusError (statusOf result) operation).map fun _ => .done))
      (result.map fun _ => .done) := by
  cases result with
  | ok value =>
    have hok : statusError (statusOf (.ok value)) operation = .ok () := statusError_of_eq rfl
    rw [hok]
    exact rfl
  | error err =>
    obtain ⟨err', herr', -⟩ := @exists_statusError_of_error operation err
    refine ⟨err', ?_⟩
    rw [statusOf, herr']
    rfl

/-- The host has got what the engine returned, where that can cross, and the engine of the
database is where the operation has left it. -/
structure Performed (inner : Handler Calls σ) (engine : ModuleDriverEngine) (op : RawOp)
    (lib : Library σ) (state : σ) (result : Option (Except GoError RawAnswer) × Library σ) :
    Prop where
  agrees_iff : Agrees result.1 (op.direct inner state).1 ↔ op.Crosses inner state
  databases : result.2.databases =
    Function.update lib.databases engine.handle (some (op.direct inner state).2)

/-- A write returns an error or nothing. -/
theorem performed_of_write {op : RawOp} {x : Action Unit}
    (hcode : op.code = (do let _ ← x; return .done)) (hget : ∀ key, op ≠ .get key) :
    Performed inner engine op lib state
      (some ((statusError (statusOf (run inner x state).1) operation).map fun _ => .done),
        lib.store engine.handle (run inner x state).2) := by
  have hdirect : op.direct inner state = ((run inner x state).1.map fun _ => .done,
      (run inner x state).2) := by
    rw [RawOp.direct, hcode, run_map]
  refine ⟨iff_of_true ?_ ?_, ?_⟩
  · rw [hdirect]
    exact agrees_statusOf _
  · rw [RawOp.Crosses, hdirect]
    cases (run inner x state).1 with
    | ok value => trivial
    | error err => exact fun key heq => absurd heq (hget key)
  · rw [hdirect]
    rfl

/-- What the host makes of the answer to a read. -/
def readResult (alloc : Allocator) : Except GoError (Option Bytes) → Option (Except GoError Bytes)
  | .error err => some ((statusError (statusFor (some err)) (text "get")).map fun _ => [])
  | .ok none => some ((statusError (statusFor (some (.of .notFound))) (text "get")).map fun _ => [])
  | .ok (some value) =>
    (ModuleLibrary.copyValue (cBytes alloc value) value.length).map .ok

theorem copyValue_cBytes (value : Bytes) :
    ModuleLibrary.copyValue (cBytes alloc value) value.length =
      goBytes (cBytes alloc value) (cInt value.length) := by
  unfold ModuleLibrary.copyValue
  cases value with
  | nil => split_ifs <;> rfl
  | cons byte rest =>
    rw [cBytes, if_neg (by simp), if_neg (by simp), if_neg (by simp)]

variable (hstate : lib.databases engine.handle = some state)

include hstate

theorem get_eq {key : Bytes} (hop : (RawOp.get key).Admissible)
    {result : Except GoError (Option Bytes)} {state' : σ}
    (hrun : run inner (Transport.get key) state = (result, state')) :
    ModuleLibrary.get alloc inner engine.handle key lib =
      (readResult alloc result, lib.store engine.handle state') := by
  obtain ⟨hne, hkey⟩ := hop
  have hlib : lib.run inner engine.handle state (Transport.get key) =
      (result, lib.store engine.handle state') := by
    rw [Library.run, hrun]
    rfl
  rw [ModuleLibrary.get, kvliteRawGet, hstate]
  dsimp only
  rw [inputKey_pointerTo hkey hne]
  dsimp only
  rw [hlib]
  obtain err | _ | value := result
  · obtain ⟨err', herr', -⟩ := @exists_statusError_of_error (text "get") err
    dsimp only [readResult]
    rw [herr']
    rfl
  · obtain ⟨err', herr', -⟩ := @exists_statusError_of_error (text "get") (.of .notFound)
    dsimp only [readResult]
    rw [herr']
    rfl
  · have hok : statusError statusOK (text "get") = .ok () := statusError_of_eq rfl
    dsimp only [readResult]
    rw [hok]

/-- What the host makes of the answer to a scan. -/
def scanResult (alloc : Allocator) :
    Except GoError (List (Bytes × Bytes)) → Option (Except GoError (List (Bytes × Bytes)))
  | .error err => some ((statusError (statusFor (some err)) (text "scan open")).map fun _ => [])
  | .ok records => (records.mapM (ModuleLibrary.copied alloc)).map .ok

theorem exists_scanPrefix_eq {pre : Bytes} (hop : (RawOp.scanPrefix pre).Admissible)
    {result : Except GoError (List (Bytes × Bytes))} {state' : σ}
    (hrun : run inner (Transport.scanAll pre) state = (result, state')) :
    ∃ cursors, ModuleLibrary.scanPrefix alloc inner engine.handle pre lib =
      (scanResult alloc result, { lib.store engine.handle state' with cursors := cursors }) := by
  have hlib : lib.run inner engine.handle state (Transport.scanAll pre) =
      (result, lib.store engine.handle state') := by
    rw [Library.run, hrun]
    rfl
  rw [ModuleLibrary.scanPrefix, kvliteRawScanOpen, hstate]
  dsimp only
  rw [inputBytes_pointerTo hop]
  dsimp only
  rw [hlib]
  cases result with
  | error err =>
    obtain ⟨err', herr', -⟩ := @exists_statusError_of_error (text "scan open") err
    refine ⟨lib.cursors, ?_⟩
    dsimp only [scanResult]
    rw [herr']
    rfl
  | ok records =>
    have hok : statusError statusOK (text "scan open") = .ok () := statusError_of_eq rfl
    dsimp only
    rw [hok]
    dsimp only
    generalize hcursors : ({ Cursors.set (lib.store engine.handle state').cursors
      (lib.store engine.handle state').cursors.next (some ⟨records, 0⟩) with
        next := ((lib.store engine.handle state').cursors.next + 1) % 2 ^ 64 } : Cursors) = cursors
    have hitem : cursors.items (lib.store engine.handle state').cursors.next =
        some ⟨records, 0⟩ := by
      rw [← hcursors]
      exact Function.update_self _ _ _
    obtain ⟨last, hloop, snapshot, hlast⟩ := @ModuleLibrary.scanLoop_eq alloc _ _ _ _ hitem
    rw [hloop, List.drop_zero, scanResult]
    cases records.mapM (ModuleLibrary.copied alloc) with
    | none => exact ⟨last, rfl⟩
    | some copies =>
      have hclose : kvliteRawScanClose (lib.store engine.handle state').cursors.next last =
          (statusOK, last.set (lib.store engine.handle state').cursors.next none) := by
        rw [kvliteRawScanClose, hlast]
      have hclosed : statusError statusOK (text "scan close") = .ok () := statusError_of_eq rfl
      refine ⟨last.set (lib.store engine.handle state').cursors.next none, ?_⟩
      dsimp only [Option.map_some]
      rw [hclose]
      dsimp only
      rw [hclosed]
      rfl

variable (hopen : engine.closed = false)

include hopen

theorem performed_put {key value : Bytes} (hop : (RawOp.put key value).Admissible) :
    Performed inner engine (.put key value) lib state
      (engine.perform alloc inner (.put key value) lib) := by
  obtain ⟨hne, hkey, hvalue⟩ := hop
  have hput : kvliteRawPut inner engine.handle (pointerTo key) key.length (pointerTo value)
      value.length lib =
        (statusOf (run inner (Transport.put key value) state).1,
          lib.store engine.handle (run inner (Transport.put key value) state).2) := by
    rw [kvliteRawPut, hstate]
    dsimp only
    rw [inputKey_pointerTo hkey hne]
    dsimp only
    rw [inputBytes_pointerTo hvalue]
    rfl
  rw [ModuleDriverEngine.perform, hopen, if_neg Bool.false_ne_true, ModuleLibrary.put, hput]
  exact performed_of_write rfl fun _ => by simp

theorem performed_delete {key : Bytes} (hop : (RawOp.delete key).Admissible) :
    Performed inner engine (.delete key) lib state
      (engine.perform alloc inner (.delete key) lib) := by
  obtain ⟨hne, hkey⟩ := hop
  have hdelete : kvliteRawDelete inner engine.handle (pointerTo key) key.length lib =
        (statusOf (run inner (Transport.delete key) state).1,
          lib.store engine.handle (run inner (Transport.delete key) state).2) := by
    rw [kvliteRawDelete, hstate]
    dsimp only
    rw [inputKey_pointerTo hkey hne]
    rfl
  rw [ModuleDriverEngine.perform, hopen, if_neg Bool.false_ne_true, ModuleLibrary.delete, hdelete]
  exact performed_of_write rfl fun _ => by simp

theorem performed_get {key : Bytes} (hop : (RawOp.get key).Admissible) :
    Performed inner engine (.get key) lib state (engine.perform alloc inner (.get key) lib) := by
  obtain ⟨result, state', hrun⟩ :
      ∃ result state', run inner (Transport.get key) state = (result, state') :=
    ⟨_, _, rfl⟩
  have hdirect : (RawOp.get key).direct inner state = (result.map .value, state') := by
    rw [RawOp.direct, RawOp.code, run_map, hrun]
  have hne : key.length ≠ 0 := by simpa using hop.1
  have hread := @get_eq σ alloc inner engine lib state hstate key hop _ _ hrun
  rw [ModuleDriverEngine.perform, if_neg hne, hopen, if_neg Bool.false_ne_true, hread]
  refine ⟨?_, by rw [hdirect]; rfl⟩
  rw [RawOp.Crosses, hdirect]
  obtain err | _ | value := result
  · obtain ⟨err', herr', his⟩ := @exists_statusError_of_error (text "get") err
    dsimp only [readResult]
    rw [herr']
    dsimp only [foundOf, Except.map]
    rw [his]
    cases hnotFound : err.is .notFound with
    | true =>
      rw [if_pos rfl]
      refine iff_of_false ?_ fun h => absurd (h key rfl) Bool.true_eq_false.mp
      rintro ⟨_, h⟩
      cases h
    | false =>
      rw [if_neg Bool.false_ne_true]
      exact iff_of_true ⟨err', rfl⟩ fun _ _ => rfl
  · obtain ⟨err', herr', his⟩ := @exists_statusError_of_error (text "get") (.of .notFound)
    dsimp only [readResult]
    rw [herr']
    dsimp only [foundOf, Except.map]
    rw [his, if_pos (by decide)]
    exact iff_of_true rfl fun _ hmem => by cases hmem
  · dsimp only [readResult, Except.map]
    rw [copyValue_cBytes]
    have hagrees : Agrees (foundOf ((goBytes (cBytes alloc value) (cInt value.length)).map .ok))
        (.ok (.value (some value))) ↔
          goBytes (cBytes alloc value) (cInt value.length) = some value := by
      generalize goBytes (cBytes alloc value) (cInt value.length) = copy
      cases copy with
      | none => simp [Agrees, foundOf]
      | some copy => simp [Agrees, foundOf]
    rw [hagrees, goBytes_cBytes_iff]
    simp

theorem performed_scanPrefix {pre : Bytes} (hop : (RawOp.scanPrefix pre).Admissible) :
    Performed inner engine (.scanPrefix pre) lib state
      (engine.perform alloc inner (.scanPrefix pre) lib) := by
  obtain ⟨result, state', hrun⟩ :
      ∃ result state', run inner (Transport.scanAll pre) state = (result, state') :=
    ⟨_, _, rfl⟩
  have hdirect : (RawOp.scanPrefix pre).direct inner state = (result.map .records, state') := by
    rw [RawOp.direct, RawOp.code, run_map, hrun]
  obtain ⟨cursors, hscan⟩ := @exists_scanPrefix_eq σ alloc inner engine lib state hstate pre hop _ _ hrun
  rw [ModuleDriverEngine.perform, hopen, if_neg Bool.false_ne_true, hscan]
  refine ⟨?_, by rw [hdirect]; rfl⟩
  rw [RawOp.Crosses, hdirect]
  cases result with
  | error err =>
    obtain ⟨err', herr', -⟩ := @exists_statusError_of_error (text "scan open") err
    dsimp only [scanResult]
    rw [herr']
    exact iff_of_true ⟨err', rfl⟩ fun _ heq => by cases heq
  | ok records =>
    have hagrees : Agrees (((records.mapM (ModuleLibrary.copied alloc)).map Except.ok).map
        fun result => result.map RawAnswer.records) (.ok (.records records)) ↔
          records.mapM (ModuleLibrary.copied alloc) = some records := by
      generalize records.mapM (ModuleLibrary.copied alloc) = copies
      cases copies with
      | none => simp [Agrees]
      | some copies => simp [Agrees, Except.map]
    refine hagrees.trans (mapM_eq_some_self_iff.trans ?_)
    exact forall₂_congr fun record _ => copied_iff

/-- Every operation. -/
theorem performed {op : RawOp} (hop : op.Admissible) :
    Performed inner engine op lib state (engine.perform alloc inner op lib) := by
  cases op with
  | put key value => exact performed_put hstate hopen hop
  | get key => exact performed_get hstate hopen hop
  | delete key => exact performed_delete hstate hopen hop
  | scanPrefix pre => exact performed_scanPrefix hstate hopen hop

end Operation

/-! ### Runs -/

/-- For every engine in the library, however it answers and fails, and every run of operations
through the module: the host gets, operation after operation, what the engine returns, if and
only if everything that the engine returns in the run can cross. -/
theorem module_engine_transparent_iff {σ : Type} (alloc : Allocator) (inner : Handler Calls σ)
    {engine : ModuleDriverEngine} (hopen : engine.closed = false) {ops : List RawOp}
    (hops : ∀ op ∈ ops, op.Admissible) {lib : Library σ} {state : σ}
    (hstate : lib.databases engine.handle = some state) :
    List.Forall₂ Agrees (Machine.outputs (engine.perform alloc inner) ops lib)
        (Machine.outputs (RawOp.direct inner) ops state) ↔
      Machine.Along (RawOp.direct inner) (RawOp.Crosses inner) ops state := by
  induction ops generalizing lib state with
  | nil => exact iff_of_true .nil trivial
  | cons op ops ih =>
    rw [List.forall_mem_cons] at hops
    have hstep : Performed inner engine op lib state (engine.perform alloc inner op lib) :=
      performed hstate hopen hops.1
    have hnext : (engine.perform alloc inner op lib).2.databases engine.handle =
        some (op.direct inner state).2 := by
      rw [hstep.databases, Function.update_self]
    rw [Machine.outputs, Machine.outputs, List.forall₂_cons, hstep.agrees_iff, ih hops.2 hnext]
    rfl

/-- A host with one open database, whose engine never fails and has no records. -/
def emptyLibrary : Library Store where
  databases handle := if handle = 1 then some ∅ else none
  cursors := ⟨1, fun _ => none⟩

/-- The engine of that host. -/
def hostEngine : ModuleDriverEngine := ⟨1, false⟩

/-- The shortest value that does not cross: it is stored, and its read ends the process. -/
theorem long_value_panics :
    ∃ value : Bytes, value.length = 2 ^ 31 ∧
      let ops : List RawOp := [.put (text "k") value, .get (text "k")]
      Machine.outputs (hostEngine.perform ⟨true⟩ (embedded 0)) ops emptyLibrary =
          [some (.ok .done), none] ∧
        Machine.outputs (RawOp.direct (embedded 0)) ops ∅ =
          [.ok .done, .ok (.value (some value))] ∧
        ¬ List.Forall₂ Agrees (Machine.outputs (hostEngine.perform ⟨true⟩ (embedded 0)) ops emptyLibrary)
          (Machine.outputs (RawOp.direct (embedded 0)) ops ∅) := by
  obtain ⟨value, hvalue⟩ : ∃ value : Bytes, value.length = 2 ^ 31 :=
    ⟨List.replicate (2 ^ 31) 0, List.length_replicate⟩
  have hput : (RawOp.put (text "k") value).Admissible := ⟨by decide, by decide, by omega⟩
  have hget : (RawOp.get (text "k")).Admissible := ⟨by decide, by decide⟩
  -- The length is one past the largest C integer.
  have hcopy : goBytes (cBytes ⟨true⟩ value) (cInt value.length) = none := by
    rw [hvalue]
    unfold goBytes
    rw [if_neg (by decide), if_pos (by decide)]
  have hfirst : Performed (embedded 0) hostEngine (.put (text "k") value) emptyLibrary ∅
      (hostEngine.perform ⟨true⟩ (embedded 0) (.put (text "k") value) emptyLibrary) :=
    performed_put rfl rfl hput
  have hdone : (hostEngine.perform ⟨true⟩ (embedded 0) (.put (text "k") value) emptyLibrary).1 =
      some (.ok .done) := hfirst.agrees_iff.mpr trivial
  have hsecond : ∀ lib : Library Store,
      lib.databases hostEngine.handle = some ((∅ : Store).insert (text "k") value) →
        (hostEngine.perform ⟨true⟩ (embedded 0) (.get (text "k")) lib).1 = none := by
    intro lib hstate
    have hrun : run (embedded 0) (Transport.get (text "k"))
        ((∅ : Store).insert (text "k") value) =
          (.ok (some value), (∅ : Store).insert (text "k") value) := by
      rw [Transport.run_get, Store.getElem?_insert, if_pos rfl]
    have hread : ModuleLibrary.get ⟨true⟩ (embedded 0) hostEngine.handle (text "k") lib = _ :=
      get_eq hstate hget hrun
    rw [ModuleDriverEngine.perform, if_neg (by decide), if_neg (by decide), hread]
    dsimp only [readResult]
    rw [copyValue_cBytes, hcopy]
    rfl
  have hhost : Machine.outputs (hostEngine.perform ⟨true⟩ (embedded 0))
      [.put (text "k") value, .get (text "k")] emptyLibrary = [some (.ok .done), none] := by
    rw [Machine.outputs, Machine.outputs, Machine.outputs, hdone, hsecond]
    rw [hfirst.databases]
    exact Function.update_self _ _ _
  have hfound : ((∅ : Store).insert (text "k") value)[text "k"]? = some value := by
    rw [Store.getElem?_insert, if_pos rfl]
  have hdirect : Machine.outputs (RawOp.direct (embedded 0))
      [.put (text "k") value, .get (text "k")] ∅ = [.ok .done, .ok (.value (some value))] :=
    calc Machine.outputs (RawOp.direct (embedded 0)) [.put (text "k") value, .get (text "k")] ∅
      _ = [.ok .done, .ok (.value ((∅ : Store).insert (text "k") value)[text "k"]?)] := rfl
      _ = [.ok .done, .ok (.value (some value))] := by rw [hfound]
  refine ⟨value, hvalue, hhost, hdirect, ?_⟩
  rw [hhost, hdirect, List.forall₂_cons, List.forall₂_cons]
  rintro ⟨-, h, -⟩
  cases h

/-- A short value and an empty one, read and scanned. -/
theorem short_values_cross :
    let ops : List RawOp := [.put (text "a") (text "v"), .put (text "b") [], .get (text "b"),
      .get (text "c"), .scanPrefix []]
    List.Forall₂ Agrees (Machine.outputs (hostEngine.perform ⟨true⟩ (embedded 0)) ops emptyLibrary)
      (Machine.outputs (RawOp.direct (embedded 0)) ops ∅) := by
  intro ops
  refine (module_engine_transparent_iff ⟨true⟩ (embedded 0) rfl ?_ rfl).mpr ?_
  · simp only [ops, List.forall_mem_cons]
    exact ⟨⟨by decide, by decide, by decide⟩, ⟨by decide, by decide, by decide⟩,
      ⟨by decide, by decide⟩, ⟨by decide, by decide⟩, show 0 < 2 ^ 63 by decide,
      fun _ hmem => absurd hmem List.not_mem_nil⟩
  · have hscan : ∀ record ∈ [(text "a", text "v"), (text "b", [])],
        record.1.length < 2 ^ 31 ∧ record.2.length < 2 ^ 31 := by decide
    refine ⟨trivial, trivial, ?_, ?_, hscan, trivial⟩
    · intro data hmem
      cases hmem
      decide
    · intro data hmem
      cases hmem

end KVLite.CApi
