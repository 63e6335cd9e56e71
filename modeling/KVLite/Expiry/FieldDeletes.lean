import KVLite.Expiry.CoreDeadlines
import KVLite.Keyspace.ProbeAt
import KVLite.Keyspace.Shapes
import Mathlib.Data.Set.Card

/-!
# Deleting the fields of a hash

`HDelete` looks at the records of the listed fields and counts those that it deletes. A field
past its deadline has a record until a reader comes across it, so it is counted although no
read would have found it.
-/

namespace KVLite

open Semantics Fallible

/-- The codecs of the handle decode every payload into the target. -/
def DB.DecodesAll {V T : Type} (db : DB V T) (target : T) : Prop :=
  ∀ codec payload, ∃ value, db.decoded codec payload target = .ok value

/-- `HGet` finds a value. -/
def FindsField {V T : Type} (reader : DB V T) (target : T) (time : ℤ) (s : Store)
    (name field : Bytes) : Prop :=
  ∃ value, (run (embedded time) (reader.hGet name field target) s).1 = .ok value

/-- The field has a record whose deadline has passed. -/
def ExpiredField (time : ℤ) (s : Store) (name field : Bytes) : Prop :=
  ∃ data, s[hashKey name field]? = some data ∧ envelopeExpired data time = true

section Loop

variable {time : ℤ} {key : Bytes → Bytes}

/-- The listed names with a record. -/
def presentNames (key : Bytes → Bytes) (s : Store) (names : List Bytes) : Finset Bytes :=
  names.toFinset.filter fun name => s[key name]?.isSome

theorem mem_presentNames {s : Store} {names : List Bytes} {name : Bytes} :
    name ∈ presentNames key s names ↔ name ∈ names ∧ s[key name]?.isSome := by
  rw [presentNames, Finset.mem_filter, List.mem_toFinset]

theorem presentNames_cons_of_none {s : Store} {name : Bytes} (h : s[key name]? = none)
    (names : List Bytes) : presentNames key s (name :: names) = presentNames key s names := by
  ext other
  rw [mem_presentNames, mem_presentNames, List.mem_cons]
  constructor
  · rintro ⟨rfl | hmem, hsome⟩
    · rw [h] at hsome
      cases hsome
    · exact ⟨hmem, hsome⟩
  · exact fun h => ⟨.inr h.1, h.2⟩

/-- A name that is removed is not counted again. -/
theorem card_presentNames_cons (hkey : Function.Injective key) {s : Store} {name data : Bytes}
    (h : s[key name]? = some data) (names : List Bytes) :
    (presentNames key s (name :: names)).card =
      (presentNames key (s.erase (key name)) names).card + 1 := by
  have hrest : presentNames key (s.erase (key name)) names =
      (presentNames key s (name :: names)).erase name := by
    ext other
    rw [Finset.mem_erase, mem_presentNames, mem_presentNames, List.mem_cons, Store.getElem?_erase]
    by_cases heq : other = name
    · subst heq
      simp
    · rw [if_neg fun hsame => heq (hkey hsame).symm]
      simp [heq]
  have hmem : name ∈ presentNames key s (name :: names) := by
    rw [mem_presentNames, h]
    exact ⟨List.mem_cons_self, rfl⟩
  rw [hrest, Finset.card_erase_add_one hmem]

/-- The loop counts the distinct names with a record, and removes the records. -/
theorem run_removeEach (hkey : Function.Injective key) (removed : ℕ) (names : List Bytes)
    (s : Store) :
    (removeEach removed (names.map key)).run (embedded time) s =
      ((removed + (presentNames key s names).card, none), s.eraseAll (names.map key)) := by
  induction names generalizing removed s with
  | nil => rfl
  | cons name names ih =>
    have hget : (ExceptT.run (Engine.get (key name))).run (embedded time) s =
        (.ok s[key name]?, s) := rfl
    rw [List.map_cons, removeEach, Program.run_bind, hget, Store.eraseAll_cons]
    cases hfound : s[key name]? with
    | none =>
      rw [Store.erase_of_none hfound, presentNames_cons_of_none hfound]
      exact ih removed s
    | some data =>
      have hdelete : (ExceptT.run (Engine.delete (key name))).run (embedded time) s =
          (.ok (), s.erase (key name)) := rfl
      dsimp only
      rw [Program.run_bind, hdelete, card_presentNames_cons hkey hfound]
      exact (ih (removed + 1) _).trans (by rw [Nat.add_assoc, Nat.add_comm 1])

end Loop

section Fields

variable {V T V' T' : Type} {time : ℤ} {s : Store} {name : Bytes}

theorem hashKey_injective (name : Bytes) : Function.Injective (hashKey name) := by
  intro field field' h
  exact List.append_cancel_left h

/-- `HDelete` on the owner. -/
theorem DB.run_hDelete (db : DB V T) (name : Bytes) (fields : Variadic) :
    (db.hDelete name fields).run (embedded time) s =
      (((presentNames (hashKey name) s fields.items).card, none),
        s.eraseAll (fields.items.map (hashKey name))) := by
  have hloop : (locked db.protocolMu (removeEach 0 (fields.items.map (hashKey name)))).run
      (embedded time) s = _ :=
    (run_locked _ _).trans (run_removeEach (hashKey_injective name) 0 fields.items s)
  rw [Nat.zero_add] at hloop
  exact hloop

/-- A reader whose codecs decode everything finds the fields whose deadline has not passed. -/
theorem findsField_iff {reader : DB V T} {target : T} (hall : reader.DecodesAll target)
    (hs : HoldsOnly FieldEnvelope s) {field : Bytes} :
    FindsField reader target time s name field ↔
      s[hashKey name field]?.isSome ∧ ¬ ExpiredField time s name field := by
  rw [FindsField, DB.hGet]
  cases hget : s[hashKey name field]? with
  | none =>
    rw [DB.getRecord, run_bind_ok run_ensureOpen, run_withLock,
      run_bind_ok (run_wrapped_get _ _), hget]
    refine iff_of_false ?_ fun h => absurd h.1 (by decide)
    rintro ⟨value, h⟩
    cases h
  | some data =>
    obtain ⟨value, hvalue⟩ := hs _ _ hget name field rfl
    obtain ⟨found, hfound⟩ := hall value.codec value.payload
    have hexpired : ExpiredField time s name field ↔ value.expired time = true := by
      rw [ExpiredField, hget]
      simp [envelopeExpired, hvalue]
    rw [reader.run_getRecord_of_decodes target hget hvalue, hexpired, hfound]
    cases value.expired time with
    | true => simp
    | false => simp

end Fields

end KVLite
