import KVLite.Core.Database
import Mathlib.Data.List.Sort

/-!
# The database handle: hashes, sets and lists

A hash field and a set member are records of their own; a list is one record. The
mutations of hashes and sets first ask the engine for an owner-side operation and
work record by record when it has none. A reflection check of a decode target is
kept as an optional target, which is absent when the check fails.
-/

namespace KVLite

open Semantics BigEndian

/-- `sort.Strings`: ascending byte order. -/
def sortStrings (strings : List Bytes) : List Bytes :=
  strings.insertionSort fun a b => (compare a b).isLE

theorem sortStrings_pairwise (strings : List Bytes) :
    (sortStrings strings).Pairwise fun a b => (compare a b).isLE := by
  have htotal : Std.Total fun a b : Bytes => (compare a b).isLE = true := ⟨fun a b => by
    have hswap : compare b a = (compare a b).swap := Std.OrientedCmp.eq_swap
    rw [hswap]
    cases compare a b <;> decide⟩
  have htrans : IsTrans Bytes fun a b => (compare a b).isLE = true :=
    ⟨fun _ _ _ hab hbc => Std.TransCmp.isLE_trans hab hbc⟩
  exact List.pairwise_insertionSort _ strings

/-- Strings without repetition, sorted, are strictly ascending. -/
theorem sortStrings_pairwise_lt {strings : List Bytes} (h : strings.Nodup) :
    (sortStrings strings).Pairwise fun a b => compare a b = .lt := by
  have hnodup : (sortStrings strings).Nodup := (List.perm_insertionSort _ _).nodup_iff.mpr h
  refine ((sortStrings_pairwise strings).and hnodup).imp ?_
  rintro a b ⟨hle, hne⟩
  cases hcompare : compare a b with
  | lt => rfl
  | eq => exact absurd (Std.LawfulEqCmp.eq_of_compare hcompare) hne
  | gt => rw [hcompare] at hle; cases hle

/-- The inclusive range `[start, stop]` of a list of the given length; negative indexes
count from the end. -/
def normalizeRange (length : ℕ) (start stop : ℤ) : ℤ × ℤ × Bool :=
  let start := if start < 0 then length + start else start
  let stop := if stop < 0 then length + stop else stop
  let start := if start < 0 then 0 else start
  let stop := if stop ≥ length then (length : ℤ) - 1 else stop
  (start, stop, length > 0 && start < length && stop ≥ start)

/-- `items[start : stop+1]`. -/
def inclusiveRange {α : Type} (items : List α) (start stop : ℤ) : List α :=
  (items.drop start.toNat).take (stop + 1 - start).toNat

def readList (key : Bytes) : Action (List Bytes) := do
  match ← Engine.get key with
  | none => return []
  | some data => liftExcept (decodeList data)

def writeList (key : Bytes) (items : List Bytes) : Action Unit :=
  Engine.put key (encodeList items)

/-- The loop of a mutation that adds records: each key without a record is written
with the one-byte value of a set member, and the new ones are counted. -/
def addEach (added : ℕ) : List Bytes → Program Calls Counted
  | [] => return (added, none)
  | key :: keys => do
    match ← ExceptT.run (Engine.get key) with
    | .error err => return (added, some err)
    | .ok (some _) => addEach added keys
    | .ok none =>
      match ← ExceptT.run (Engine.put key [1]) with
      | .error err => return (added, some err)
      | .ok () => addEach (added + 1) keys

/-- The loop of a mutation that removes records: each key with a record is deleted,
and those are counted. -/
def removeEach (removed : ℕ) : List Bytes → Program Calls Counted
  | [] => return (removed, none)
  | key :: keys => do
    match ← ExceptT.run (Engine.get key) with
    | .error err => return (removed, some err)
    | .ok none => removeEach removed keys
    | .ok (some _) =>
      match ← ExceptT.run (Engine.delete key) with
      | .error err => return (removed, some err)
      | .ok () => removeEach (removed + 1) keys

/-- A mutation of a set or a hash: the owner-side operation where the engine has one,
else the record loop under the mutex. -/
def ownerSideOr (call : Program Calls (Except GoError ℕ)) (unsupported : Sentinel)
    (mutex : Mutex) (loop : Program Calls Counted) : Program Calls Counted := do
  match ← ExceptT.run ensureOpen with
  | .error err => return (0, some err)
  | .ok () =>
    match ← call with
    | .ok count => return (count, none)
    | .error err =>
      if err.is unsupported then locked mutex loop else return (0, some err)

namespace DB

variable {V T : Type} (db : DB V T)

def hSet (name field : Bytes) (value : V) (options : PutOptions) : Action Unit :=
  if name = [] ∨ field = [] then
    throw (.detail .invalidArgument (text "hash name and field are required"))
  else
    db.putRecord (hashKey name field) value options

def hGet (name field : Bytes) (target : T) : Action V :=
  db.getRecord (hashKey name field) target

def hDelete (name : Bytes) (fields : Variadic) : Program Calls Counted :=
  ownerSideOr (Program.perform (S := Calls) (.deleteHashFields name fields))
    .atomicHashDeleteUnsupported db.protocolMu
    (removeEach 0 (fields.items.map (hashKey name)))

/-- The callback of `HGetAll` over the delivered records: the live fields and the keys
of the expired ones. -/
def decodeFields (pre : Bytes) (target : T) :
    List (Bytes × Bytes) → Action (List (Bytes × V) × List Bytes)
  | [] => return ([], [])
  | (key, data) :: records => do
    match ← caught (db.decode data target) with
    | .ok value =>
      let (fields, expired) ← decodeFields pre target records
      return ((key.drop pre.length, value) :: fields, expired)
    | .error err =>
      if err.is .notFound then do
        let (fields, expired) ← decodeFields pre target records
        return (fields, key :: expired)
      else
        throw err

def hGetAll (name : Bytes) (target : Option T) : Action (List (Bytes × V)) := do
  ensureOpen
  match target with
  | none =>
    throw (.detail .invalidArgument
      (text "HGetAll target must be a non-nil pointer to map[string]T"))
  | some target =>
    let (records, err) ← Engine.scanPrefix (namespacePrefix kindHash name)
    let (fields, expired) ← db.decodeFields (namespacePrefix kindHash name) target records
    match err with
    | some err => throw err
    | none =>
      deleteEachIgnoringErrors expired
      return fields

def sAdd (name : Bytes) (members : Variadic) : Program Calls Counted :=
  ownerSideOr (Program.perform (S := Calls) (.addSet name members))
    .atomicSetAddUnsupported db.protocolMu (addEach 0 (members.items.map (setKey name)))

def sRemove (name : Bytes) (members : Variadic) : Program Calls Counted :=
  ownerSideOr (Program.perform (S := Calls) (.removeSet name members))
    .atomicSetRemoveUnsupported db.protocolMu (removeEach 0 (members.items.map (setKey name)))

def sContains (name member : Bytes) : Action Bool := do
  ensureOpen
  return (← Engine.get (setKey name member)).isSome

/-- The members in lexical order, with the error of the scan beside those delivered. -/
def sMembers (name : Bytes) : Action (List Bytes × Option GoError) := do
  ensureOpen
  let (records, err) ← Engine.scanPrefix (namespacePrefix kindSet name)
  let members := records.map fun record => record.1.drop (namespacePrefix kindSet name).length
  return (sortStrings members, err)

def pushEncodedList (key : Bytes) (encoded : List Bytes) (left : Bool) : Action ℕ := do
  match ← caught (Engine.pushList key encoded left) with
  | .ok length => return length
  | .error err =>
    if err.is .atomicListPushUnsupported then
      withLock db.collectionMu do
        let items ← readList key
        let items := if left then encoded ++ items else items ++ encoded
        writeList key items
        return items.length
    else
      throw err

/-- The items of a push: each value in an envelope without a deadline. -/
def encodeItems : List V → Except GoError (List Bytes)
  | [] => .ok []
  | value :: values => do
    let payload ← db.codec.marshal value
    let item ← marshalEnvelope db.codec.name payload 0
    let items ← encodeItems values
    return item :: items

def push (name : Bytes) (left : Bool) (values : List V) : Action ℕ := do
  ensureOpen
  let encoded ← liftExcept (db.encodeItems values)
  db.pushEncodedList (listKey name) encoded left

def rPush (name : Bytes) (values : List V) : Action ℕ := db.push name false values

def lPush (name : Bytes) (values : List V) : Action ℕ := db.push name true values

/-- The decoding loop of `LRange`. -/
def decodeItems (target : T) : List Bytes → Action (List V)
  | [] => return []
  | item :: items => do
    let value ← db.decode item target
    let values ← decodeItems target items
    return value :: values

def lRange (name : Bytes) (start stop : ℤ) (target : Option T) : Action (List V) := do
  ensureOpen
  match target with
  | none =>
    throw (.detail .invalidArgument (text "LRange target must be a non-nil pointer to []T"))
  | some target =>
    let items ← readList (listKey name)
    let (start, stop, ok) := normalizeRange items.length start stop
    if ok then
      db.decodeItems target (inclusiveRange items start stop)
    else
      return []

end DB

end KVLite
