import KVLite.Core.Engine
import KVLite.Semantics.Simulation

/-!
# The memory driver

The ephemeral engine of the core keeps its records in a Go map. A loop over a map visits
the keys in an order that can differ from loop to loop, and a scan sorts the keys its loop
has collected. Through the calls of the database code this engine is the sorted byte map:
code that runs on it returns what it returns on a `Store`, in whatever orders the loops of
its scans go.
-/

namespace KVLite

open Semantics

/-- The map of a memory engine, and whether the engine is closed. -/
structure MemoryDriverEngine where
  data : Bytes → Option Bytes
  closed : Bool

namespace MemoryDriverEngine

/-- The engine of a fresh `Open`. -/
def new : MemoryDriverEngine := ⟨fun _ => none, false⟩

def get (engine : MemoryDriverEngine) (key : Bytes) : Except GoError (Option Bytes) :=
  if engine.closed then .error (.of .closed) else .ok (engine.data key)

def put (engine : MemoryDriverEngine) (key value : Bytes) :
    Except GoError Unit × MemoryDriverEngine :=
  if engine.closed then (.error (.of .closed), engine)
  else (.ok (), { engine with data := Function.update engine.data key (some value) })

def delete (engine : MemoryDriverEngine) (key : Bytes) : Except GoError Unit × MemoryDriverEngine :=
  if engine.closed then (.error (.of .closed), engine)
  else (.ok (), { engine with data := Function.update engine.data key none })

/-- A scan whose loop over the map goes in the given order. -/
def scanPrefix (engine : MemoryDriverEngine) (pre : Bytes) (order : List Bytes) : Scanned :=
  if engine.closed then ([], some (.of .closed))
  else
    let keys := (order.filter pre.isPrefixOf).mergeSort fun a b => (compare a b).isLE
    (keys.map fun key => (key, (engine.data key).getD []), none)

/-- A loop over the map can go in this order. -/
def Ranges (engine : MemoryDriverEngine) (order : List Bytes) : Prop :=
  order.Nodup ∧ ∀ key, key ∈ order ↔ (engine.data key).isSome

/-- The open engine holds the records of `s`. -/
structure Represents (engine : MemoryDriverEngine) (s : Store) : Prop where
  closed : engine.closed = false
  data : ∀ key, engine.data key = s[key]?

end MemoryDriverEngine

/-- The calls of a database on a memory engine, with the clock at `time`. The engine offers
no owner-side operation. -/
def memoryDriver (time : ℤ) : Program.Environment Calls MemoryDriverEngine where
  admits
    | .get key, post, engine => post (engine.get key) engine
    | .put key value, post, engine => post (engine.put key value).1 (engine.put key value).2
    | .delete key, post, engine => post (engine.delete key).1 (engine.delete key).2
    | .scanPrefix pre, post, engine =>
      ∀ order, engine.Ranges order → post (engine.scanPrefix pre order) engine
    | request, post, engine => post (embedded time request ∅).1 engine
  mono request P Q engine weaken holds := by
    cases request with
    | scanPrefix pre => exact fun order horder => weaken _ _ (holds order horder)
    | _ => exact weaken _ _ holds

namespace MemoryDriverEngine

variable {engine : MemoryDriverEngine} {s : Store}

theorem represents_new : new.Represents ∅ := ⟨rfl, fun key => by simp [new]⟩

/-- What one changed entry of the map makes of the records. -/
theorem Represents.update (h : engine.Represents s) {s' : Store} {key : Bytes} (value : Option Bytes)
    (hs : ∀ key', s'[key']? = if key = key' then value else s[key']?) :
    Represents { engine with data := Function.update engine.data key value } s' := by
  refine ⟨h.closed, fun key' => ?_⟩
  simp only [hs, ← h.data, Function.update_apply, eq_comm]

/-- A represented map is finite, so its loops have an order. -/
theorem Represents.exists_ranges (h : engine.Represents s) : ∃ order, engine.Ranges order := by
  refine ⟨(s.scan []).map Prod.fst, s.nodup_map_fst_scan [], fun key => ?_⟩
  rw [Store.mem_map_fst_scan, h.data]
  simp

/-- Sorting distinct keys puts them in strictly increasing order. -/
theorem pairwise_mergeSort {keys : List Bytes} (h : keys.Nodup) :
    (keys.mergeSort fun a b => (compare a b).isLE).Pairwise fun a b => compare a b = .lt := by
  have htotal (a b : Bytes) : ((compare a b).isLE || (compare b a).isLE) = true := by
    have hswap : compare b a = (compare a b).swap := Std.OrientedCmp.eq_swap
    rw [hswap]
    cases compare a b <;> rfl
  have hle := keys.pairwise_mergeSort (fun _ _ _ => Std.TransCmp.isLE_trans) htotal
  refine (hle.and ((List.mergeSort_perm keys _).nodup_iff.mpr h)).imp ?_
  rintro a b ⟨hab, hne⟩
  cases hcompare : compare a b with
  | lt => rfl
  | eq => exact absurd (Std.LawfulEqCmp.compare_eq_iff_eq.mp hcompare) hne
  | gt => simp [hcompare] at hab

/-- The order of the loop does not show in what a scan delivers. -/
theorem Represents.scanPrefix (h : engine.Represents s) {order : List Bytes}
    (horder : engine.Ranges order) (pre : Bytes) :
    engine.scanPrefix pre order = (s.scan pre, none) := by
  simp only [MemoryDriverEngine.scanPrefix, h.closed, Bool.false_eq_true, if_false, h.data]
  refine congrArg (·, none) (Store.eq_of_pairwise ?_ (s.pairwise_scan pre) fun record => ?_)
  · exact List.pairwise_map.mpr (pairwise_mergeSort (horder.1.filter _))
  · simp only [List.mem_map, List.mem_mergeSort, List.mem_filter, horder.2, h.data,
      List.isPrefixOf_iff_prefix, Store.mem_scan]
    constructor
    · rintro ⟨key, ⟨hsome, hpre⟩, rfl⟩
      obtain ⟨value, hvalue⟩ := Option.isSome_iff_exists.mp hsome
      simp [hpre, hvalue]
    · rintro ⟨hpre, hget⟩
      exact ⟨record.1, ⟨by simp [hget], hpre⟩, by simp [hget]⟩

end MemoryDriverEngine

open MemoryDriverEngine in
/-- Any code of the database on a memory engine, with any loop orders: the value it returns
and the records it leaves are those of the sorted byte map. -/
theorem memoryDriver_refines_store {α : Type} {engine : MemoryDriverEngine} {s : Store} (time : ℤ)
    (p : Program Calls α) (h : engine.Represents s) :
    p.wp (memoryDriver time) (fun value engine' => value = (p.run (embedded time) s).1 ∧
      engine'.Represents (p.run (embedded time) s).2) engine := by
  apply Program.wp_of_simulation ?_ p h
  rintro request ⟨data, closed⟩ s h
  obtain rfl : closed = false := h.closed
  cases request with
  | get key => exact ⟨congrArg Except.ok (h.data key), h⟩
  | put key value => exact ⟨rfl, h.update (some value) (s.getElem?_insert key value)⟩
  | delete key => exact ⟨rfl, h.update none (s.getElem?_erase key)⟩
  | scanPrefix pre => exact fun order horder => ⟨h.scanPrefix horder pre, h⟩
  | _ => exact ⟨rfl, h⟩

open MemoryDriverEngine in
/-- Two records and a scan on a fresh engine, whose loop may meet the keys in either order. -/
theorem memoryDriver_sorts_two_keys :
    (∃ order, (new.put [2] [20]).2.Ranges order) ∧
      Program.wp (memoryDriver 0) (do
        let _ ← Program.perform (S := Calls) (.put [2] [20])
        let _ ← Program.perform (S := Calls) (.put [1] [10])
        Program.perform (S := Calls) (.scanPrefix []))
      (fun value _ => value = ([([1], [10]), ([2], [20])], none)) new := by
  have hput : (new.put [2] [20]).2.Represents ((∅ : Store).insert [2] [20]) :=
    represents_new.update (some [20]) (Store.getElem?_insert _ [2] [20])
  refine ⟨hput.exists_ranges, Program.wp_mono (fun value _ hvalue => hvalue.1.trans ?_)
    (memoryDriver_refines_store 0 _ represents_new)⟩
  decide

end KVLite
