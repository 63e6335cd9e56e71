import KVLite.Core.Requests

/-!
# The calls of the readers

What the reading operations of a handle ask their engine for, whatever it answers: they
look records up, scan them and remove expired ones. They write no record and ask for no
owner-side operation.
-/

namespace KVLite

/-- A call that writes no record and asks for no owner-side operation. -/
def Call.OfReader : Call → Prop
  | .ensureOpen | .get _ | .delete _ | .scanPrefix _ | .now | .lock _ | .unlock _ => True
  | _ => False

/-- Code that makes the calls of a reader only. -/
abbrev OnlyReads {α : Type} (x : Action α) : Prop := Semantics.Fallible.Uses Call.OfReader x

/-- `P` allows the calls of a reader. -/
class Passive (P : Call → Prop) : Prop where
  of_ofReader : ∀ call, call.OfReader → P call

instance : Passive Call.OfReader := ⟨fun _ h => h⟩

end KVLite

namespace Semantics

open KVLite

variable {α : Type} {P : Call → Prop}

theorem Program.Uses.locked [Passive P] {mutex : Mutex} {p : Program Calls α} (hp : p.Uses P) :
    (locked mutex p).Uses P := by
  unfold KVLite.locked
  rw [Program.perform_bind]
  exact ⟨Passive.of_ofReader _ trivial, fun _ =>
    hp.bind fun _ => ⟨Passive.of_ofReader _ trivial, fun _ => trivial⟩⟩

namespace Fallible.Uses

variable {x : Action α}

theorem caught (hx : Uses P x) : Uses P (caught x) := Program.Uses.bind hx fun _ => trivial

theorem ignoringError (hx : Uses P x) : Uses P (ignoringError x) := hx.caught.bind fun _ => trivial

theorem wrapping {context : String} (hx : Uses P x) : Uses P (wrapping context x) :=
  Program.Uses.bind hx fun _ => trivial

theorem withLock [Passive P] {mutex : Mutex} (hx : Uses P x) : Uses P (withLock mutex x) :=
  Program.Uses.locked hx

end Fallible.Uses

end Semantics

namespace KVLite

open Semantics

namespace Passive

variable {α : Type} {P : Call → Prop} [Passive P]

theorem of_onlyReads {x : Action α} (hx : OnlyReads x) : Fallible.Uses P x := hx.mono of_ofReader

theorem of_onlyReadsClock {x : Action α} (hx : OnlyReadsClock x) : Fallible.Uses P x :=
  hx.mono fun call hcall => of_ofReader call (hcall ▸ trivial)

theorem ensureOpen : Fallible.Uses P ensureOpen := of_onlyReads ⟨trivial, fun _ => trivial⟩

theorem get (key : Bytes) : Fallible.Uses P (Engine.get key) :=
  of_onlyReads ⟨trivial, fun _ => trivial⟩

theorem delete (key : Bytes) : Fallible.Uses P (Engine.delete key) :=
  of_onlyReads ⟨trivial, fun _ => trivial⟩

theorem scanPrefix (pre : Bytes) : Fallible.Uses P (Engine.scanPrefix pre) :=
  of_onlyReads ⟨trivial, fun _ => trivial⟩

theorem now : Fallible.Uses P now := of_onlyReadsClock onlyReadsClock_now

omit [Passive P] in
theorem liftExcept (x : Except GoError α) : Fallible.Uses P (liftExcept x) := trivial

theorem expiredNow (expiresAt : ℤ) : Fallible.Uses P (expiredNow expiresAt) :=
  .ite (now.bind fun _ => trivial) trivial

/-- The expiry test of a reader and what it does with an expired record. -/
theorem unlessExpired {expiresAt : ℤ} {gone kept : Action α} (hgone : Fallible.Uses P gone)
    (hkept : Fallible.Uses P kept) :
    Fallible.Uses P (do if ← KVLite.expiredNow expiresAt then gone else kept) :=
  (expiredNow expiresAt).bind fun _ => .ite hgone hkept

end Passive

theorem onlyReads_readList (key : Bytes) : OnlyReads (readList key) := by
  refine (Passive.get key).bind fun found => ?_
  cases found <;> trivial

theorem uses_ofReader_removeEach (removed : ℕ) (keys : List Bytes) :
    (removeEach removed keys).Uses Call.OfReader := by
  induction keys generalizing removed with
  | nil => trivial
  | cons key keys ih =>
    refine Program.Uses.bind (Passive.get key) fun found => ?_
    split
    · trivial
    · exact ih _
    · refine Program.Uses.bind (Passive.delete key) fun deleted => ?_
      cases deleted with
      | error err => trivial
      | ok _ => exact ih _

namespace DB

variable {V T : Type} (db : DB V T)

theorem onlyReads_decode (data : Bytes) (target : T) : OnlyReads (db.decode data target) := by
  refine (Passive.liftExcept _).bind fun value => Passive.unlessExpired trivial ?_
  split <;> trivial

theorem onlyReads_getRecord (key : Bytes) (target : T) : OnlyReads (db.getRecord key target) := by
  refine Passive.ensureOpen.bind fun _ => .withLock ?_
  refine (Passive.get key).wrapping.bind fun found => ?_
  cases found with
  | none => trivial
  | some data =>
    refine (db.onlyReads_decode data target).caught.bind fun result => ?_
    cases result with
    | ok value => trivial
    | error err =>
      exact .ite ((Passive.delete key).ignoringError.bind fun _ => trivial) trivial

theorem onlyReads_get (key : Bytes) (target : T) : OnlyReads (db.get key target) :=
  .ite trivial (db.onlyReads_getRecord _ target)

theorem onlyReads_getStoredValue (key : Bytes) : OnlyReads (db.getStoredValue key) := by
  refine .ite trivial (Passive.ensureOpen.bind fun _ => .withLock ?_)
  refine (Passive.get _).wrapping.bind fun found => ?_
  cases found with
  | none => trivial
  | some data =>
    exact (Passive.liftExcept _).bind fun value => Passive.unlessExpired
      ((Passive.delete _).ignoringError.bind fun _ => trivial) trivial

theorem onlyReads_getBytes (key : Bytes) : OnlyReads (db.getBytes key) :=
  (db.onlyReads_getStoredValue key).bind fun _ => trivial

theorem onlyReads_has (key : Bytes) : OnlyReads (db.has key) := by
  refine .ite trivial (Passive.ensureOpen.bind fun _ => .withLock ?_)
  refine (Passive.get _).bind fun found => ?_
  cases found with
  | none => trivial
  | some data =>
    exact (Passive.liftExcept _).bind fun value => Passive.unlessExpired
      ((Passive.delete _).ignoringError.bind fun _ => trivial) trivial

theorem onlyReads_decodeFields (pre : Bytes) (target : T) (records : List (Bytes × Bytes)) :
    OnlyReads (db.decodeFields pre target records) := by
  induction records with
  | nil => trivial
  | cons record records ih =>
    refine (db.onlyReads_decode _ target).caught.bind fun result => ?_
    cases result with
    | ok value => exact ih.bind fun _ => trivial
    | error err => exact .ite (ih.bind fun _ => trivial) trivial

theorem onlyReads_hGetAll (name : Bytes) (target : Option T) :
    OnlyReads (db.hGetAll name target) := by
  refine Passive.ensureOpen.bind fun _ => ?_
  cases target with
  | none => trivial
  | some target =>
    refine (Passive.scanPrefix _).bind fun scanned => ?_
    refine (db.onlyReads_decodeFields _ target scanned.1).bind fun decoded => ?_
    obtain ⟨records, err⟩ := scanned
    cases err with
    | some err => trivial
    | none =>
      refine Fallible.Uses.bind ?_ fun _ => trivial
      induction decoded.2 with
      | nil => trivial
      | cons key keys ih => exact (Passive.delete key).ignoringError.bind fun _ => ih

theorem onlyReads_sContains (name member : Bytes) : OnlyReads (DB.sContains name member) :=
  Passive.ensureOpen.bind fun _ => (Passive.get _).bind fun _ => trivial

theorem onlyReads_sMembers (name : Bytes) : OnlyReads (DB.sMembers name) :=
  Passive.ensureOpen.bind fun _ => (Passive.scanPrefix _).bind fun _ => trivial

theorem onlyReads_lRange (name : Bytes) (start stop : ℤ) (target : Option T) :
    OnlyReads (db.lRange name start stop target) := by
  refine Passive.ensureOpen.bind fun _ => ?_
  cases target with
  | none => trivial
  | some target =>
    refine (onlyReads_readList _).bind fun items => .ite ?_ trivial
    induction inclusiveRange items _ _ with
    | nil => trivial
    | cons item items ih =>
      exact (db.onlyReads_decode _ _).bind fun _ => ih.bind fun _ => trivial

end DB

end KVLite
