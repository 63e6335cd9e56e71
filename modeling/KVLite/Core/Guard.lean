import KVLite.Core.Errors
import KVLite.Semantics.Interleaving
import Mathlib.Data.Finset.Basic

/-!
# The guard of the engine's lifetime

A database reaches its storage through a guard that keeps `Close` from racing a call in
flight. Every method of the guard takes the reader lock, looks at the closed flag and
forwards to the inner engine; `Close` takes the writer lock, sets the flag and closes the
inner engine. The methods are programs over the steps of the lock, the flag and the inner
calls, and a pool of them interleaves in any way that the lock permits. What the inner
engine answers is left open.

## Main definitions

* `guarded`, `close`, `method` — the methods of the guard
* `rules` — the reader-writer lock, the flag and the inner calls
* `Shut` — after a `Close` has returned

## Main results

* `outline_methods` — assertions for every point of a method
* `outline_late` — a method that comes after `Close`
* `guard_protects_engine` — the inner engine is closed once, and not used after it
-/

namespace KVLite.Guard

open Semantics

/-- The calls of the inner engine. -/
inductive InnerCall
  | get (key : Bytes)
  | put (key value : Bytes)
  | delete (key : Bytes)
  | scanPrefix (pre : Bytes)
  | pushList (key : Bytes) (items : List Bytes) (left : Bool)
  | addSet (name : Bytes) (members : List Bytes)
  | removeSet (name : Bytes) (members : List Bytes)
  | deleteHashFields (name : Bytes) (fields : List Bytes)
  | replaceLogicalValue (key encoded : Bytes)
  | close
  deriving DecidableEq, Repr

/-- The steps of a method: those of the lock, of the flag, and the start and the end of an
inner call. -/
inductive GuardCall
  | rLock
  | rUnlock
  | lock
  | unlock
  | readClosed
  | setClosed
  | begin (call : InnerCall)
  | finish (call : InnerCall)
  deriving DecidableEq, Repr

/-- The answers to the steps; inner calls answer with an `R`. -/
abbrev GuardCall.Answer (R : Type) : GuardCall → Type
  | .readClosed => Bool
  | .finish _ => R
  | _ => Unit

abbrev GuardCalls (R : Type) : Signature := ⟨GuardCall, GuardCall.Answer R⟩

/-- What a method returns: the result of the inner call, an error of the guard, or nothing
for a `Close` of a closed engine. -/
inductive Outcome (R : Type)
  | inner (result : R)
  | refused (err : GoError)
  | nothing
  deriving DecidableEq

section Methods

variable {R : Type}

def step (request : GuardCall) : Program (GuardCalls R) (GuardCall.Answer R request) :=
  Program.perform (S := GuardCalls R) request

/-- A method that forwards to the inner engine; `missing` is its error when the inner
engine does not have the method. -/
def guarded (call : InnerCall) (missing : Option GoError) : Program (GuardCalls R) (Outcome R) := do
  step .rLock
  if ← step .readClosed then
    step .rUnlock
    return .refused (.of .closed)
  else
    match missing with
    | some err =>
      step .rUnlock
      return .refused err
    | none =>
      step (.begin call)
      let result ← step (.finish call)
      step .rUnlock
      return .inner result

def close : Program (GuardCalls R) (Outcome R) := do
  step .lock
  if ← step .readClosed then
    step .unlock
    return .nothing
  else
    step .setClosed
    step (.begin .close)
    let result ← step (.finish .close)
    step .unlock
    return .inner result

/-- Which optional methods the inner engine has. -/
structure Supports where
  pushList : Bool
  addSet : Bool
  removeSet : Bool
  deleteHashFields : Bool
  replaceLogicalValue : Bool

/-- The error of a method that the inner engine lacks. -/
def missingUnless (supported : Bool) (sentinel : Sentinel) : Option GoError :=
  if supported then none else some (.of sentinel)

/-- The methods of the guard. -/
def method (supports : Supports) : InnerCall → Program (GuardCalls R) (Outcome R)
  | .get key => guarded (.get key) none
  | .put key value => guarded (.put key value) none
  | .delete key => guarded (.delete key) none
  | .scanPrefix pre => guarded (.scanPrefix pre) none
  | .pushList key items left =>
    guarded (.pushList key items left) (missingUnless supports.pushList .atomicListPushUnsupported)
  | .addSet name members =>
    guarded (.addSet name members) (missingUnless supports.addSet .atomicSetAddUnsupported)
  | .removeSet name members =>
    guarded (.removeSet name members) (missingUnless supports.removeSet .atomicSetRemoveUnsupported)
  | .deleteHashFields name fields =>
    guarded (.deleteHashFields name fields)
      (missingUnless supports.deleteHashFields .atomicHashDeleteUnsupported)
  | .replaceLogicalValue key encoded =>
    guarded (.replaceLogicalValue key encoded)
      (missingUnless supports.replaceLogicalValue .atomicReplaceUnsupported)
  | .close => close

/-- Every method but `Close` forwards its own call. -/
theorem method_eq_guarded (supports : Supports) {call : InnerCall} (h : call ≠ .close) :
    ∃ missing, (method supports call : Program (GuardCalls R) (Outcome R)) = guarded call missing := by
  cases call with
  | close => exact absurd rfl h
  | get | put | delete | scanPrefix => exact ⟨none, rfl⟩
  | _ => exact ⟨_, rfl⟩

end Methods

/-! ### The lock -/

section Lock

variable {ι R : Type} [DecidableEq ι]

/-- Who holds the reader-writer lock, and the closed flag. -/
structure GuardState (ι : Type) where
  readers : Finset ι
  writer : Option ι
  closed : Bool

/-- The guard of an engine that has just been opened. -/
def GuardState.fresh : GuardState ι := ⟨∅, none, false⟩

/-- A reader waits for the writer, and a writer waits for everybody. Inner calls take as
long as they like and answer as they like. -/
def rules : Memory (GuardCalls R) ι (GuardState ι)
  | i, .rLock, s, _, s' => s.writer = none ∧ s' = { s with readers := insert i s.readers }
  | i, .rUnlock, s, _, s' => s' = { s with readers := s.readers.erase i }
  | i, .lock, s, _, s' => s.writer = none ∧ s.readers = ∅ ∧ s' = { s with writer := some i }
  | _, .unlock, s, _, s' => s' = { s with writer := none }
  | _, .readClosed, s, answer, s' => answer = s.closed ∧ s' = s
  | _, .setClosed, s, _, s' => s' = { s with closed := true }
  | _, .begin _, s, _, s' => s' = s
  | _, .finish _, s, _, s' => s' = s

/-- The rules computed, with a given answer of the inner calls. -/
def respond (result : R) : Pool.Responder (GuardCalls R) ι (GuardState ι)
  | i, .rLock, s => if s.writer = none then some ((), { s with readers := insert i s.readers }) else none
  | i, .rUnlock, s => some ((), { s with readers := s.readers.erase i })
  | i, .lock, s =>
    if s.writer = none ∧ s.readers = ∅ then some ((), { s with writer := some i }) else none
  | _, .unlock, s => some ((), { s with writer := none })
  | _, .readClosed, s => some (s.closed, s)
  | _, .setClosed, s => some ((), { s with closed := true })
  | _, .begin _, s => some ((), s)
  | _, .finish _, s => some (result, s)

theorem rules_of_respond {result : R} (i : ι) (request : GuardCall) (s : GuardState ι)
    (answer : GuardCall.Answer R request) (s' : GuardState ι)
    (h : respond result i request s = some (answer, s')) : rules i request s answer s' := by
  cases request with
  | rLock =>
    rw [respond, Option.ite_none_right_eq_some] at h
    exact ⟨h.1, (congrArg Prod.snd (Option.some.inj h.2)).symm⟩
  | lock =>
    rw [respond, Option.ite_none_right_eq_some] at h
    exact ⟨h.1.1, h.1.2, (congrArg Prod.snd (Option.some.inj h.2)).symm⟩
  | readClosed =>
    cases h
    exact ⟨rfl, rfl⟩
  | _ =>
    cases h
    rfl

/-- Calls of the guard's methods, before the first step. -/
def calls (supports : Supports) (call : ι → InnerCall) :
    Pool (GuardCalls R) ι (GuardState ι) (Outcome R) :=
  ⟨fun i => method supports (call i), .fresh⟩

end Lock

section Histories

variable {ι R : Type}

/-- The event starts an inner call. -/
def Begins (event : Event (GuardCalls R) ι) : Prop := ∃ call, event.request = .begin call

/-- The event starts the inner `Close`. -/
def BeginsClose (event : Event (GuardCalls R) ι) : Prop := event.request = .begin .close

def Started (i : ι) (events : List (Event (GuardCalls R) ι)) : Prop :=
  ∃ event ∈ events, event.thread = i ∧ Begins event

def Finished (i : ι) (events : List (Event (GuardCalls R) ι)) : Prop :=
  ∃ event ∈ events, event.thread = i ∧ ∃ call, event.request = .finish call

def CloseStarted (events : List (Event (GuardCalls R) ι)) : Prop := ∃ event ∈ events, BeginsClose event

instance (event : Event (GuardCalls R) ι) : Decidable (BeginsClose event) :=
  inferInstanceAs (Decidable (_ = _))

/-- No inner call starts after the inner `Close`, which starts once and when all inner calls
have ended. -/
structure Orderly (events : List (Event (GuardCalls R) ι)) : Prop where
  once : events.countP (fun event => decide (BeginsClose event)) ≤ 1
  alone : ∀ before event after, events = before ++ event :: after → BeginsClose event →
    ∀ i, Started i before → Finished i before
  last : ∀ before event after, events = before ++ event :: after → Begins event → ¬ CloseStarted before

variable {events : List (Event (GuardCalls R) ι)} {event : Event (GuardCalls R) ι} {i : ι}

theorem started_snoc : Started i (events ++ [event]) ↔
    Started i events ∨ event.thread = i ∧ Begins event := by
  simp only [Started, List.mem_append, List.mem_singleton, or_and_right, exists_or, exists_eq_left]

theorem finished_snoc : Finished i (events ++ [event]) ↔
    Finished i events ∨ event.thread = i ∧ ∃ call, event.request = .finish call := by
  simp only [Finished, List.mem_append, List.mem_singleton, or_and_right, exists_or, exists_eq_left]

theorem closeStarted_snoc : CloseStarted (events ++ [event]) ↔ CloseStarted events ∨ BeginsClose event := by
  simp only [CloseStarted, List.mem_append, List.mem_singleton, or_and_right, exists_or, exists_eq_left]

theorem orderly_nil : Orderly ([] : List (Event (GuardCalls R) ι)) where
  once := Nat.zero_le 1
  alone before event after h := by simp at h
  last before event after h := by simp at h

/-- A history stays orderly by a step that keeps the order. -/
theorem Orderly.snoc (h : Orderly events) (hlast : Begins event → ¬ CloseStarted events)
    (halone : BeginsClose event → ∀ i, Started i events → Finished i events) :
    Orderly (events ++ [event]) := by
  -- A part of the longer history ends before the new event, or just before it.
  have hsplit : ∀ before e after, events ++ [event] = before ++ e :: after →
      (∃ after', events = before ++ e :: after') ∨ (before = events ∧ e = event) := by
    intro before e after heq
    rcases List.eq_nil_or_concat after with rfl | ⟨after, final, rfl⟩
    · obtain ⟨hbefore, hevent⟩ := List.append_inj' heq rfl
      cases hevent
      exact .inr ⟨hbefore.symm, rfl⟩
    · rw [List.concat_eq_append, ← List.cons_append, ← List.append_assoc] at heq
      obtain ⟨hbefore, -⟩ := List.append_inj' heq rfl
      exact .inl ⟨after, hbefore⟩
  refine ⟨?_, ?_, ?_⟩
  · rw [List.countP_append]
    by_cases hclose : BeginsClose event
    · have hnone : events.countP (fun event => decide (BeginsClose event)) = 0 := by
        rw [List.countP_eq_zero]
        intro e he hbegins
        exact hlast ⟨_, hclose⟩ ⟨e, he, of_decide_eq_true hbegins⟩
      rw [hnone, Nat.zero_add]
      exact List.countP_le_length
    · rw [List.countP_singleton, if_neg (by simpa using hclose)]
      exact h.once
  · intro before e after heq hbegins
    rcases hsplit before e after heq with ⟨after', heq'⟩ | ⟨rfl, rfl⟩
    · exact h.alone before e after' heq' hbegins
    · exact halone hbegins
  · intro before e after heq hbegins
    rcases hsplit before e after heq with ⟨after', heq'⟩ | ⟨rfl, rfl⟩
    · exact h.last before e after' heq' hbegins
    · exact hlast hbegins

end Histories

/-! ### The points of a method -/

section Points

variable {ι R : Type} [DecidableEq ι]

/-- How far a method has come. -/
inductive Point (R : Type)
  | entering
  | checking
  | marking
  | admitted
  | inside
  | leaving (outcome : Outcome R)
  | returned (outcome : Outcome R)

/-- What is left of a forwarding method; it is never `marking`. -/
def forwardFrom (call : InnerCall) (missing : Option GoError) :
    Point R → Program (GuardCalls R) (Outcome R)
  | .entering => guarded call missing
  | .checking => do
    if ← step .readClosed then
      step .rUnlock
      return .refused (.of .closed)
    else
      match missing with
      | some err =>
        step .rUnlock
        return .refused err
      | none =>
        step (.begin call)
        let result ← step (.finish call)
        step .rUnlock
        return .inner result
  | .marking => return .nothing
  | .admitted => do
    step (.begin call)
    let result ← step (.finish call)
    step .rUnlock
    return .inner result
  | .inside => do
    let result ← step (.finish call)
    step .rUnlock
    return .inner result
  | .leaving outcome => do
    step .rUnlock
    return outcome
  | .returned outcome => return outcome

/-- What is left of `Close`. -/
def closeFrom : Point R → Program (GuardCalls R) (Outcome R)
  | .entering => close
  | .checking => do
    if ← step .readClosed then
      step .unlock
      return .nothing
    else
      step .setClosed
      step (.begin .close)
      let result ← step (.finish .close)
      step .unlock
      return .inner result
  | .marking => do
    step .setClosed
    step (.begin .close)
    let result ← step (.finish .close)
    step .unlock
    return .inner result
  | .admitted => do
    step (.begin .close)
    let result ← step (.finish .close)
    step .unlock
    return .inner result
  | .inside => do
    let result ← step (.finish .close)
    step .unlock
    return .inner result
  | .leaving outcome => do
    step .unlock
    return outcome
  | .returned outcome => return outcome

/-- What a step of a forwarding method does. -/
inductive Forwards (i : ι) (call : InnerCall) (missing : Option GoError) :
    Point R → GuardCall → GuardState ι → GuardState ι → Point R → Prop
  | enter (s : GuardState ι) (free : s.writer = none) :
    Forwards i call missing .entering .rLock s { s with readers := insert i s.readers } .checking
  | refuse (s : GuardState ι) (closed : s.closed = true) :
    Forwards i call missing .checking .readClosed s s (.leaving (.refused (.of .closed)))
  | lack (s : GuardState ι) (err : GoError) (lacks : missing = some err) (opened : s.closed = false) :
    Forwards i call missing .checking .readClosed s s (.leaving (.refused err))
  | accept (s : GuardState ι) (opened : s.closed = false) :
    Forwards i call missing .checking .readClosed s s .admitted
  | begin (s : GuardState ι) : Forwards i call missing .admitted (.begin call) s s .inside
  | finish (s : GuardState ι) (result : R) :
    Forwards i call missing .inside (.finish call) s s (.leaving (.inner result))
  | leave (s : GuardState ι) (outcome : Outcome R) :
    Forwards i call missing (.leaving outcome) .rUnlock s { s with readers := s.readers.erase i }
      (.returned outcome)

/-- What a step of `Close` does. -/
inductive Closes (i : ι) : Point R → GuardCall → GuardState ι → GuardState ι → Point R → Prop
  | enter (s : GuardState ι) (free : s.writer = none) (idle : s.readers = ∅) :
    Closes i .entering .lock s { s with writer := some i } .checking
  | skip (s : GuardState ι) (closed : s.closed = true) :
    Closes i .checking .readClosed s s (.leaving .nothing)
  | find (s : GuardState ι) (opened : s.closed = false) : Closes i .checking .readClosed s s .marking
  | mark (s : GuardState ι) : Closes i .marking .setClosed s { s with closed := true } .admitted
  | begin (s : GuardState ι) : Closes i .admitted (.begin .close) s s .inside
  | finish (s : GuardState ι) (result : R) :
    Closes i .inside (.finish .close) s s (.leaving (.inner result))
  | leave (s : GuardState ι) (outcome : Outcome R) :
    Closes i (.leaving outcome) .unlock s { s with writer := none } (.returned outcome)

variable {i : ι} {call : InnerCall} {missing : Option GoError} {point : Point R} {request : GuardCall}
  {rest : GuardCall.Answer R request → Program (GuardCalls R) (Outcome R)}
  {answer : GuardCall.Answer R request} {s s' : GuardState ι}

theorem forwards_of_rules (hnext : forwardFrom call missing point = .call request rest)
    (hrules : rules i request s answer s') :
    ∃ point', rest answer = forwardFrom call missing point' ∧
      Forwards i call missing point request s s' point' := by
  cases point with
  | entering =>
    cases hnext
    obtain ⟨hfree, rfl⟩ := hrules
    exact ⟨.checking, rfl, .enter s hfree⟩
  | checking =>
    cases hnext
    obtain ⟨rfl, rfl⟩ := hrules
    cases hclosed : s'.closed with
    | true => exact ⟨.leaving _, rfl, .refuse s' hclosed⟩
    | false =>
      cases missing with
      | some err => exact ⟨.leaving _, rfl, .lack s' err rfl hclosed⟩
      | none => exact ⟨.admitted, rfl, .accept s' hclosed⟩
  | marking => cases hnext
  | admitted =>
    cases hnext
    cases hrules
    exact ⟨.inside, rfl, .begin s⟩
  | inside =>
    cases hnext
    cases hrules
    exact ⟨.leaving (.inner answer), rfl, .finish s answer⟩
  | leaving outcome =>
    cases hnext
    cases hrules
    exact ⟨.returned outcome, rfl, .leave s outcome⟩
  | returned outcome => cases hnext

theorem closes_of_rules (hnext : closeFrom point = .call request rest)
    (hrules : rules i request s answer s') :
    ∃ point', rest answer = closeFrom point' ∧ Closes i point request s s' point' := by
  cases point with
  | entering =>
    cases hnext
    obtain ⟨hfree, hidle, rfl⟩ := hrules
    exact ⟨.checking, rfl, .enter s hfree hidle⟩
  | checking =>
    cases hnext
    obtain ⟨rfl, rfl⟩ := hrules
    cases hclosed : s'.closed with
    | true => exact ⟨.leaving _, rfl, .skip s' hclosed⟩
    | false => exact ⟨.marking, rfl, .find s' hclosed⟩
  | marking =>
    cases hnext
    cases hrules
    exact ⟨.admitted, rfl, .mark s⟩
  | admitted =>
    cases hnext
    cases hrules
    exact ⟨.inside, rfl, .begin s⟩
  | inside =>
    cases hnext
    cases hrules
    exact ⟨.leaving (.inner answer), rfl, .finish s answer⟩
  | leaving outcome =>
    cases hnext
    cases hrules
    exact ⟨.returned outcome, rfl, .leave s outcome⟩
  | returned outcome => cases hnext

end Points

section Assertions

variable {ι R : Type}

/-- The invariant of the guard. -/
structure Sound (events : List (Event (GuardCalls R) ι)) (s : GuardState ι) : Prop where
  /-- A writer is alone. -/
  exclusive : ∀ j, s.writer = some j → s.readers = ∅
  /-- The flag is set before the inner engine is closed. -/
  flagged : CloseStarted events → s.closed = true
  /-- An inner call in progress is under the lock. -/
  running : ∀ i, Started i events → Finished i events ∨ i ∈ s.readers ∨ s.writer = some i
  orderly : Orderly events

/-- What holds at each point of a forwarding method. -/
def ForwardAt (i : ι) (events : List (Event (GuardCalls R) ι)) (s : GuardState ι) : Point R → Prop
  | .entering => ¬ Started i events
  | .checking => i ∈ s.readers ∧ ¬ Started i events
  | .admitted => i ∈ s.readers ∧ s.closed = false
  | .inside => i ∈ s.readers
  | .leaving _ => i ∈ s.readers ∧ (Started i events → Finished i events)
  | .marking | .returned _ => True

/-- What holds at each point of `Close`. -/
def CloseAt (i : ι) (events : List (Event (GuardCalls R) ι)) (s : GuardState ι) : Point R → Prop
  | .entering => ¬ Started i events
  | .checking => s.writer = some i ∧ ¬ Started i events
  | .marking => s.writer = some i ∧ ¬ Started i events ∧ s.closed = false
  | .admitted => s.writer = some i ∧ ¬ Started i events ∧ s.closed = true ∧ ¬ CloseStarted events
  | .inside => s.writer = some i ∧ s.closed = true
  | .leaving _ => s.writer = some i ∧ s.closed = true ∧ (Started i events → Finished i events)
  | .returned _ => s.closed = true

/-- The assertion of a thread that runs the method of the given call. -/
def MethodAt (call : ι → InnerCall) (i : ι) (p : Program (GuardCalls R) (Outcome R))
    (events : List (Event (GuardCalls R) ι)) (s : GuardState ι) : Prop :=
  if call i = .close then ∃ point, p = closeFrom point ∧ CloseAt i events s point
  else ∃ missing point, p = forwardFrom (call i) missing point ∧ ForwardAt i events s point

/-- What a step of another thread leaves as it is for thread `i`. -/
structure Undisturbed (i : ι) (events events' : List (Event (GuardCalls R) ι)) (s s' : GuardState ι) :
    Prop where
  started : Started i events' → Started i events
  finished : Finished i events → Finished i events'
  reader : i ∈ s.readers → i ∈ s'.readers
  writer : s.writer = some i → s'.writer = some i
  closed : s.closed = true → s'.closed = true
  opened : i ∈ s.readers ∨ s.writer = some i → s.closed = false → s'.closed = false
  quiet : s.writer = some i → CloseStarted events' → CloseStarted events

theorem Undisturbed.forwardAt {i : ι} {events events' : List (Event (GuardCalls R) ι)} {s s' : GuardState ι}
    (h : Undisturbed i events events' s s') {point : Point R} (hat : ForwardAt i events s point) :
    ForwardAt i events' s' point := by
  cases point with
  | entering => exact fun hstarted => hat (h.started hstarted)
  | checking => exact ⟨h.reader hat.1, fun hstarted => hat.2 (h.started hstarted)⟩
  | marking => trivial
  | admitted => exact ⟨h.reader hat.1, h.opened (.inl hat.1) hat.2⟩
  | inside => exact h.reader hat
  | leaving outcome => exact ⟨h.reader hat.1, fun hstarted => h.finished (hat.2 (h.started hstarted))⟩
  | returned outcome => trivial

theorem Undisturbed.closeAt {i : ι} {events events' : List (Event (GuardCalls R) ι)} {s s' : GuardState ι}
    (h : Undisturbed i events events' s s') {point : Point R} (hat : CloseAt i events s point) :
    CloseAt i events' s' point := by
  cases point with
  | entering => exact fun hstarted => hat (h.started hstarted)
  | checking => exact ⟨h.writer hat.1, fun hstarted => hat.2 (h.started hstarted)⟩
  | marking =>
    exact ⟨h.writer hat.1, fun hstarted => hat.2.1 (h.started hstarted), h.opened (.inr hat.1) hat.2.2⟩
  | admitted =>
    exact ⟨h.writer hat.1, fun hstarted => hat.2.1 (h.started hstarted), h.closed hat.2.2.1,
      fun hclose => hat.2.2.2 (h.quiet hat.1 hclose)⟩
  | inside => exact ⟨h.writer hat.1, h.closed hat.2⟩
  | leaving outcome =>
    exact ⟨h.writer hat.1, h.closed hat.2.1, fun hstarted => h.finished (hat.2.2 (h.started hstarted))⟩
  | returned outcome => exact h.closed hat

end Assertions

section Steps

variable {ι R : Type} [DecidableEq ι] {i : ι} {events : List (Event (GuardCalls R) ι)}
  {event : Event (GuardCalls R) ι} {s s' : GuardState ι}

omit [DecidableEq ι] in
/-- A step that starts no inner call keeps the invariant if it leaves everybody whose call
is in progress under the lock. -/
theorem Sound.snoc (h : Sound events s) (hevent : ¬ Begins event)
    (hexclusive : ∀ j, s'.writer = some j → s'.readers = ∅) (hclosed : s.closed = true → s'.closed = true)
    (hrunning : ∀ j, Started j events → j ∈ s.readers ∨ s.writer = some j →
      Finished j (events ++ [event]) ∨ j ∈ s'.readers ∨ s'.writer = some j) :
    Sound (events ++ [event]) s' := by
  have hnotClose : ¬ BeginsClose event := fun hclose => hevent ⟨_, hclose⟩
  refine ⟨hexclusive, ?_, ?_, h.orderly.snoc (fun hbegins => absurd hbegins hevent)
    fun hbegins => absurd hbegins hnotClose⟩
  · intro hstarted
    exact hclosed (h.flagged ((closeStarted_snoc.mp hstarted).resolve_right hnotClose))
  · intro j hstarted
    have hbefore := (started_snoc.mp hstarted).resolve_right fun hj => hevent hj.2
    rcases h.running j hbefore with hfinished | hlocked
    · exact .inl (finished_snoc.mpr (.inl hfinished))
    · exact hrunning j hbefore hlocked

omit [DecidableEq ι] in
/-- A step that starts an inner call under the lock keeps the invariant. -/
theorem Sound.snoc_begin (h : Sound events s) (hlocked : event.thread ∈ s.readers ∨ s.writer = some event.thread)
    (hflagged : BeginsClose event → s.closed = true) (hnone : ¬ CloseStarted events)
    (halone : BeginsClose event → ∀ j, Started j events → Finished j events) :
    Sound (events ++ [event]) s := by
  refine ⟨h.exclusive, ?_, ?_, h.orderly.snoc (fun _ => hnone) halone⟩
  · intro hstarted
    exact hflagged ((closeStarted_snoc.mp hstarted).resolve_left hnone)
  · intro j hstarted
    rcases started_snoc.mp hstarted with hbefore | ⟨rfl, -⟩
    · rcases h.running j hbefore with hfinished | hheld
      · exact .inl (finished_snoc.mpr (.inl hfinished))
      · exact .inr hheld
    · exact .inr hlocked

omit [DecidableEq ι] in
/-- The history of a thread is not touched by a step of another one. -/
theorem undisturbed_of_ne {j : ι} (hj : j ≠ event.thread) (hreader : j ∈ s.readers → j ∈ s'.readers)
    (hwriter : s.writer = some j → s'.writer = some j) (hclosed : s.closed = true → s'.closed = true)
    (hopened : j ∈ s.readers ∨ s.writer = some j → s.closed = false → s'.closed = false)
    (hquiet : s.writer = some j → ¬ BeginsClose event) :
    Undisturbed j events (events ++ [event]) s s' where
  started h := (started_snoc.mp h).resolve_right fun hthread => hj hthread.1.symm
  finished h := finished_snoc.mpr (.inl h)
  reader := hreader
  writer := hwriter
  closed := hclosed
  opened := hopened
  quiet hw h := (closeStarted_snoc.mp h).resolve_right (hquiet hw)

omit [DecidableEq ι] in
theorem not_started_snoc (h : ¬ Started i events) (hevent : ¬ Begins event) :
    ¬ Started i (events ++ [event]) :=
  fun hstarted => h ((started_snoc.mp hstarted).resolve_right fun hthread => hevent hthread.2)

/-- What one step of thread `i` does: it keeps the invariant, reaches the next point and
does not disturb the others. -/
def Advances (i : ι) (events : List (Event (GuardCalls R) ι)) (event : Event (GuardCalls R) ι)
    (s s' : GuardState ι) (reached : Prop) : Prop :=
  Sound (events ++ [event]) s' ∧ reached ∧ ∀ j ≠ i, Undisturbed j events (events ++ [event]) s s'

omit [DecidableEq ι] in
/-- A step that only looks at the guard. -/
theorem advances_of_look (h : Sound events s) (hthread : event.thread = i) (hevent : ¬ Begins event)
    {reached : Prop} (hreached : reached) : Advances i events event s s reached := by
  refine ⟨h.snoc hevent h.exclusive id fun _ _ => .inr, hreached, fun j hj => ?_⟩
  subst hthread
  exact undisturbed_of_ne hj id id id (fun _ => id) fun _ hclose => hevent ⟨_, hclose⟩

theorem advances_of_forwards {call : InnerCall} (hcall : call ≠ .close) {missing : Option GoError}
    {point point' : Point R} {request : GuardCall} (answer : GuardCall.Answer R request)
    (h : Sound events s) (hat : ForwardAt i events s point)
    (hstep : Forwards i call missing point request s s' point') :
    Advances i events ⟨i, request, answer⟩ s s'
      (ForwardAt i (events ++ [⟨i, request, answer⟩]) s' point') := by
  cases hstep with
  | enter _ hfree =>
    have hevent : ¬ Begins (⟨i, .rLock, answer⟩ : Event (GuardCalls R) ι) := nofun
    refine ⟨h.snoc hevent ?_ id ?_, ⟨Finset.mem_insert_self _ _, not_started_snoc hat hevent⟩, ?_⟩
    · intro j hj
      rw [hfree] at hj
      cases hj
    · intro j _ hlocked
      exact .inr (hlocked.imp_left fun hmem => Finset.mem_insert_of_mem hmem)
    · intro j hj
      exact undisturbed_of_ne hj (fun hmem => Finset.mem_insert_of_mem hmem) id id (fun _ => id)
        fun _ hclose => hevent ⟨_, hclose⟩
  | refuse _ hclosed =>
    have hevent : ¬ Begins (⟨i, .readClosed, answer⟩ : Event (GuardCalls R) ι) := nofun
    exact advances_of_look h rfl hevent
      ⟨hat.1, fun hstarted => absurd hstarted (not_started_snoc hat.2 hevent)⟩
  | lack _ err hlacks hopened =>
    have hevent : ¬ Begins (⟨i, .readClosed, answer⟩ : Event (GuardCalls R) ι) := nofun
    exact advances_of_look h rfl hevent
      ⟨hat.1, fun hstarted => absurd hstarted (not_started_snoc hat.2 hevent)⟩
  | accept _ hopened =>
    have hevent : ¬ Begins (⟨i, .readClosed, answer⟩ : Event (GuardCalls R) ι) := nofun
    exact advances_of_look h rfl hevent ⟨hat.1, hopened⟩
  | begin =>
    -- The flag is not set, so the inner engine has not been closed.
    have hnone : ¬ CloseStarted events := by
      intro hclose
      exact absurd (h.flagged hclose) (by rw [hat.2]; decide)
    have hnotClose : ¬ BeginsClose (⟨i, .begin call, answer⟩ : Event (GuardCalls R) ι) := by
      intro hclose
      exact hcall (GuardCall.begin.inj hclose)
    refine ⟨h.snoc_begin (.inl hat.1) (fun hclose => absurd hclose hnotClose) hnone
      fun hclose => absurd hclose hnotClose, hat.1, fun j hj => ?_⟩
    exact undisturbed_of_ne hj id id id (fun _ => id) fun _ => hnotClose
  | finish _ result =>
    have hfinished : Finished i (events ++ [⟨i, .finish call, answer⟩]) :=
      finished_snoc.mpr (.inr ⟨rfl, call, rfl⟩)
    have hevent : ¬ Begins (⟨i, .finish call, answer⟩ : Event (GuardCalls R) ι) := nofun
    exact advances_of_look h rfl hevent ⟨hat, fun _ => hfinished⟩
  | leave _ outcome =>
    have hevent : ¬ Begins (⟨i, .rUnlock, answer⟩ : Event (GuardCalls R) ι) := nofun
    refine ⟨h.snoc hevent ?_ id ?_, trivial, ?_⟩
    · intro j hj
      rw [h.exclusive j hj, Finset.erase_empty]
    · intro j hstarted hlocked
      by_cases hj : j = i
      · subst hj
        exact .inl (finished_snoc.mpr (.inl (hat.2 hstarted)))
      · exact .inr (hlocked.imp_left fun hmem => Finset.mem_erase.mpr ⟨hj, hmem⟩)
    · intro j hj
      exact undisturbed_of_ne hj (fun hmem => Finset.mem_erase.mpr ⟨hj, hmem⟩) id id (fun _ => id)
        fun _ hclose => hevent ⟨_, hclose⟩

omit [DecidableEq ι] in
theorem advances_of_closes {point point' : Point R} {request : GuardCall}
    (answer : GuardCall.Answer R request) (h : Sound events s) (hat : CloseAt i events s point)
    (hstep : Closes i point request s s' point') :
    Advances i events ⟨i, request, answer⟩ s s'
      (CloseAt i (events ++ [⟨i, request, answer⟩]) s' point') := by
  cases hstep with
  | enter _ hfree hidle =>
    have hevent : ¬ Begins (⟨i, .lock, answer⟩ : Event (GuardCalls R) ι) := nofun
    refine ⟨h.snoc hevent (fun _ _ => hidle) id ?_, ⟨rfl, not_started_snoc hat hevent⟩, ?_⟩
    · intro j _ hlocked
      rw [hidle, hfree] at hlocked
      rcases hlocked with hmem | hw
      · exact absurd hmem (Finset.notMem_empty j)
      · cases hw
    · intro j hj
      refine undisturbed_of_ne hj id ?_ id (fun _ => id) fun _ hclose => hevent ⟨_, hclose⟩
      intro hw
      rw [hfree] at hw
      cases hw
  | skip _ hclosed =>
    have hevent : ¬ Begins (⟨i, .readClosed, answer⟩ : Event (GuardCalls R) ι) := nofun
    exact advances_of_look h rfl hevent
      ⟨hat.1, hclosed, fun hstarted => absurd hstarted (not_started_snoc hat.2 hevent)⟩
  | find _ hopened =>
    have hevent : ¬ Begins (⟨i, .readClosed, answer⟩ : Event (GuardCalls R) ι) := nofun
    exact advances_of_look h rfl hevent ⟨hat.1, not_started_snoc hat.2 hevent, hopened⟩
  | mark =>
    obtain ⟨hwriter, hnot, hopened⟩ := hat
    have hevent : ¬ Begins (⟨i, .setClosed, answer⟩ : Event (GuardCalls R) ι) := nofun
    have hnone : ¬ CloseStarted (events ++ [⟨i, .setClosed, answer⟩]) := by
      intro hclose
      rcases closeStarted_snoc.mp hclose with hbefore | hnow
      · rw [h.flagged hbefore] at hopened
        cases hopened
      · cases hnow
    refine ⟨h.snoc hevent h.exclusive (fun _ => rfl) fun _ _ => .inr,
      ⟨hwriter, not_started_snoc hnot hevent, rfl, hnone⟩, fun j hj => ?_⟩
    refine undisturbed_of_ne hj id id (fun _ => rfl) ?_ fun _ hclose => hevent ⟨_, hclose⟩
    -- Nobody else holds the lock that the writer has.
    rintro (hmem | hw) -
    · rw [h.exclusive i hwriter] at hmem
      exact absurd hmem (Finset.notMem_empty j)
    · rw [hwriter] at hw
      exact absurd (Option.some.inj hw).symm hj
  | begin =>
    obtain ⟨hwriter, hnot, hclosed, hnone⟩ := hat
    have halone : ∀ j, Started j events → Finished j events := by
      intro j hstarted
      rcases h.running j hstarted with hfinished | hmem | hw
      · exact hfinished
      · rw [h.exclusive i hwriter] at hmem
        exact absurd hmem (Finset.notMem_empty j)
      · rw [hwriter] at hw
        cases hw
        exact absurd hstarted hnot
    refine ⟨h.snoc_begin (.inr hwriter) (fun _ => hclosed) hnone fun _ => halone, ⟨hwriter, hclosed⟩,
      fun j hj => ?_⟩
    refine undisturbed_of_ne hj id id id (fun _ => id) fun hw _ => ?_
    rw [hwriter] at hw
    exact hj (Option.some.inj hw).symm
  | finish _ result =>
    have hfinished : Finished i (events ++ [⟨i, .finish .close, answer⟩]) :=
      finished_snoc.mpr (.inr ⟨rfl, .close, rfl⟩)
    have hevent : ¬ Begins (⟨i, .finish .close, answer⟩ : Event (GuardCalls R) ι) := nofun
    exact advances_of_look h rfl hevent ⟨hat.1, hat.2, fun _ => hfinished⟩
  | leave _ outcome =>
    obtain ⟨hwriter, hclosed, hdone⟩ := hat
    have hevent : ¬ Begins (⟨i, .unlock, answer⟩ : Event (GuardCalls R) ι) := nofun
    have hother : ∀ j, s.writer = some j → j = i := by
      intro j hw
      rw [hwriter] at hw
      exact (Option.some.inj hw).symm
    refine ⟨h.snoc hevent nofun id ?_, hclosed, ?_⟩
    · rintro j hstarted (hmem | hw)
      · exact .inr (.inl hmem)
      · rw [hother j hw] at hstarted ⊢
        exact .inl (finished_snoc.mpr (.inl (hdone hstarted)))
    · intro j hj
      exact undisturbed_of_ne hj id (fun hw => absurd (hother j hw) hj) id (fun _ => id)
        fun _ hclose => hevent ⟨_, hclose⟩

end Steps

section Runs

variable {ι R : Type} [DecidableEq ι] {supports : Supports} {call : ι → InnerCall}

theorem advances_of_methodAt {events : List (Event (GuardCalls R) ι)} {s s' : GuardState ι} {i : ι}
    {request : GuardCall} {rest : GuardCall.Answer R request → Program (GuardCalls R) (Outcome R)}
    {answer : GuardCall.Answer R request} (h : Sound events s)
    (hat : MethodAt call i (.call request rest) events s) (hrules : rules i request s answer s') :
    Advances i events ⟨i, request, answer⟩ s s'
      (MethodAt call i (rest answer) (events ++ [⟨i, request, answer⟩]) s') := by
  unfold MethodAt at hat ⊢
  split at hat
  · next hclose =>
    obtain ⟨point, hnext, hat⟩ := hat
    obtain ⟨point', hrest, hstep⟩ := closes_of_rules hnext.symm hrules
    obtain ⟨hsound, hreached, hothers⟩ := advances_of_closes answer h hat hstep
    rw [if_pos hclose]
    exact ⟨hsound, ⟨point', hrest, hreached⟩, hothers⟩
  · next hclose =>
    obtain ⟨missing, point, hnext, hat⟩ := hat
    obtain ⟨point', hrest, hstep⟩ := forwards_of_rules hnext.symm hrules
    obtain ⟨hsound, hreached, hothers⟩ := advances_of_forwards hclose answer h hat hstep
    rw [if_neg hclose]
    exact ⟨hsound, ⟨missing, point', hrest, hreached⟩, hothers⟩

theorem outline_methods (call : ι → InnerCall) :
    Pool.Outline (rules (R := R)) (Sound (ι := ι)) (MethodAt call) where
  own events s i request rest answer s' h hat hrules := by
    obtain ⟨hsound, hreached, -⟩ := advances_of_methodAt h hat hrules
    exact ⟨hsound, hreached⟩
  other events s i request rest answer s' j p h hat hrules hj hother := by
    obtain ⟨-, -, hothers⟩ := advances_of_methodAt h hat hrules
    have hundisturbed := hothers j hj
    unfold MethodAt at hother ⊢
    split at hother
    · next hclose =>
      obtain ⟨point, hp, hpoint⟩ := hother
      rw [if_pos hclose]
      exact ⟨point, hp, hundisturbed.closeAt hpoint⟩
    · next hclose =>
      obtain ⟨missing, point, hp, hpoint⟩ := hother
      rw [if_neg hclose]
      exact ⟨missing, point, hp, hundisturbed.forwardAt hpoint⟩

/-- The invariant and the assertions hold in every run of the guard's methods. -/
theorem sound_run {events : List (Event (GuardCalls R) ι)}
    {last : Pool (GuardCalls R) ι (GuardState ι) (Outcome R)}
    (h : Pool.Run rules (calls supports call) events last) :
    Sound events last.shared ∧ ∀ i, MethodAt call i (last.threads i) events last.shared := by
  refine h.outline (outline_methods call) ⟨nofun, ?_, ?_, orderly_nil⟩ fun i => ?_
  · rintro ⟨event, hmem, -⟩
    cases hmem
  · rintro i ⟨event, hmem, -⟩
    cases hmem
  · have hnone : ¬ Started i ([] : List (Event (GuardCalls R) ι)) := by
      rintro ⟨event, hmem, -⟩
      cases hmem
    unfold MethodAt
    split
    · next hclose =>
      refine ⟨.entering, ?_, hnone⟩
      show method supports (call i) = _
      rw [hclose]
      rfl
    · next hclose =>
      obtain ⟨missing, hmethod⟩ := method_eq_guarded (R := R) supports hclose
      exact ⟨missing, .entering, hmethod, hnone⟩

/-- A `Close` that has returned has left the flag set. -/
theorem closed_of_returned {events : List (Event (GuardCalls R) ι)}
    {last : Pool (GuardCalls R) ι (GuardState ι) (Outcome R)}
    (h : Pool.Run rules (calls supports call) events last) {j : ι} (hj : call j = .close)
    {outcome : Outcome R} (hreturned : last.threads j = .done outcome) : last.shared.closed = true := by
  have hat := (sound_run h).2 j
  rw [hreturned, MethodAt, if_pos hj] at hat
  obtain ⟨point, hpoint, hat⟩ := hat
  cases point with
  | returned _ => exact hat
  | _ => cases hpoint

/-- A forwarding method at a point that it reaches when the flag is set. -/
def Shut (i : ι) (call : InnerCall) (p : Program (GuardCalls R) (Outcome R))
    (events : List (Event (GuardCalls R) ι)) : Prop :=
  ¬ Started i events ∧ ∃ missing point, p = forwardFrom call missing point ∧
    (point = .entering ∨ point = .checking ∨ point = .leaving (.refused (.of .closed)) ∨
      point = .returned (.refused (.of .closed)))

/-- With the flag set, a method that has not begun stays away from the inner engine. -/
theorem outline_late (i : ι) (call : InnerCall) :
    Pool.Outline (rules (R := R)) (fun _ (s : GuardState ι) => s.closed = true)
      fun j p events _ => j = i → Shut i call p events where
  own events s j request rest answer s' h hat hrules := by
    constructor
    · -- No step clears the flag.
      cases request with
      | rLock => rw [hrules.2]; exact h
      | lock => rw [hrules.2.2]; exact h
      | readClosed => rw [hrules.2]; exact h
      | setClosed => rw [show s' = _ from hrules]
      | _ => rw [show s' = _ from hrules]; exact h
    · rintro rfl
      obtain ⟨hnot, missing, point, hp, hpoint⟩ := hat rfl
      obtain ⟨point', hrest, hstep⟩ := forwards_of_rules hp.symm hrules
      cases hstep with
      | enter => exact ⟨not_started_snoc hnot nofun, missing, _, hrest, .inr (.inl rfl)⟩
      | refuse => exact ⟨not_started_snoc hnot nofun, missing, _, hrest, .inr (.inr (.inl rfl))⟩
      | lack _ err hlacks hopened =>
        rw [h] at hopened
        cases hopened
      | accept _ hopened =>
        rw [h] at hopened
        cases hopened
      | begin => simp at hpoint
      | finish => simp at hpoint
      | leave _ outcome =>
        -- The only outcome that such a method leaves with is the refusal.
        have houtcome : outcome = .refused (.of .closed) := by simpa using hpoint
        subst houtcome
        exact ⟨not_started_snoc hnot nofun, missing, _, hrest, .inr (.inr (.inr rfl))⟩
  other events s j request rest answer s' k p h hat hrules hne hk := by
    rintro rfl
    obtain ⟨hnot, hpoint⟩ := hk rfl
    refine ⟨fun hstarted => hnot ((started_snoc.mp hstarted).resolve_right ?_), hpoint⟩
    exact fun hthread => hne hthread.1.symm

/-- A method that begins after a `Close` has returned does not touch the inner engine and
returns the error of a closed database. -/
theorem refused_of_late {before after : List (Event (GuardCalls R) ι)}
    {mid last : Pool (GuardCalls R) ι (GuardState ι) (Outcome R)}
    (hbefore : Pool.Run rules (calls supports call) before mid) (hafter : Pool.Run rules mid after last)
    {j : ι} (hj : call j = .close) {outcome : Outcome R} (hreturned : mid.threads j = .done outcome)
    {i : ι} (hi : call i ≠ .close) (hlate : ∀ event ∈ before, event.thread ≠ i) :
    ¬ Started i after ∧ ∀ outcome, last.threads i = .done outcome → outcome = .refused (.of .closed) := by
  have hfirst : mid.threads i = method supports (call i) := hbefore.threads_eq hlate
  obtain ⟨missing, hmethod⟩ := method_eq_guarded (R := R) supports hi
  have hnone : ¬ Started i ([] : List (Event (GuardCalls R) ι)) := by
    rintro ⟨event, hmem, -⟩
    cases hmem
  have hshut := hafter.outline (outline_late i (call i)) (closed_of_returned hbefore hj hreturned)
    fun k hk => by
      subst hk
      exact ⟨hnone, missing, .entering, hfirst.trans hmethod, .inl rfl⟩
  obtain ⟨hnot, missing, point, hp, hpoint⟩ := hshut.2 i rfl
  refine ⟨hnot, fun outcome hdone => ?_⟩
  rw [hdone] at hp
  rcases hpoint with rfl | rfl | rfl | rfl
  · cases hp
  · cases hp
  · cases hp
  · cases hp
    rfl

end Runs

/-- In every interleaving of any number of calls of the guard, the inner `Close` is started
at most once, no inner call is in progress when it starts and none starts after it, and a
call that begins after a `Close` has returned yields the error of a closed database without
touching the inner engine. -/
theorem guard_protects_engine {ι R : Type} [DecidableEq ι] (supports : Supports) (call : ι → InnerCall)
    (events : List (Event (GuardCalls R) ι)) (last : Pool (GuardCalls R) ι (GuardState ι) (Outcome R))
    (h : Pool.Run rules (calls supports call) events last) :
    events.countP (fun event => decide (BeginsClose event)) ≤ 1 ∧
    (∀ before event after, events = before ++ event :: after → BeginsClose event →
      (∀ i, Started i before → Finished i before) ∧ ∀ event' ∈ after, ¬ Begins event') ∧
    ∀ before after mid, events = before ++ after → Pool.Run rules (calls supports call) before mid →
      Pool.Run rules mid after last → ∀ j outcome, call j = .close → mid.threads j = .done outcome →
      ∀ i, call i ≠ .close → (∀ event ∈ before, event.thread ≠ i) →
        ¬ Started i after ∧ ∀ outcome, last.threads i = .done outcome → outcome = .refused (.of .closed) := by
  have horderly := (sound_run h).1.orderly
  refine ⟨horderly.once, fun before event after heq hclose => ⟨?_, ?_⟩, ?_⟩
  · exact horderly.alone before event after heq hclose
  · intro event' hmem hbegins
    -- The history up to the later event has the start of the inner `Close` in it.
    obtain ⟨between, rest, rfl⟩ := List.append_of_mem hmem
    refine horderly.last (before ++ event :: between) event' rest (by simp [heq]) hbegins ?_
    exact ⟨event, by simp, hclose⟩
  · intro before after mid _ hbefore hafter j outcome hj hreturned i hi hlate
    exact refused_of_late hbefore hafter hj hreturned hi hlate

/-- A `Close` and a `Get`, the second after the first. -/
def closeThenGet : Option (List (Event (GuardCalls Unit) Bool) ×
    Pool (GuardCalls Unit) Bool (GuardState Bool) (Outcome Unit)) :=
  Pool.play (respond ()) [true, true, true, true, true, true, false, false, false]
    (calls ⟨false, false, false, false, false⟩ fun isClose => if isClose then .close else .get (text "k"))

/-- The `Get` is refused, and the inner engine is closed once. -/
theorem late_get_refused :
    ∃ played, closeThenGet = some played ∧ played.2.threads false = .done (.refused (.of .closed)) ∧
      played.1.countP (fun event => decide (BeginsClose event)) ≤ 1 := by
  obtain ⟨played, hplayed⟩ := Option.isSome_iff_exists.mp (rfl : closeThenGet.isSome = true)
  have hrun := Pool.Run.of_play rules_of_respond hplayed
  refine ⟨played, hplayed, ?_, (guard_protects_engine _ _ played.1 played.2 hrun).1⟩
  cases hplayed
  rfl

end KVLite.Guard
