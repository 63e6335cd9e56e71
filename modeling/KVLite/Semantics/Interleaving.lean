import KVLite.Semantics.Program
import Mathlib.Logic.Function.Basic

/-!
# Interleavings of programs

A pool is a family of programs over one shared state. A step answers the next call of one
thread; which answers are possible, and what they do to the shared state, is up to the
rules of the memory. A call without a possible answer waits, which is how locks are
described. A run is a sequence of steps in any order, and its events are its history.

The rule for proofs about runs asks for an invariant of the shared state and an assertion
for the remaining program of each thread. Each step has to establish the assertion of the
thread that makes it and to leave those of the others standing. Both may speak about the
history.

## Main definitions

* `Memory` — the rules of the shared state
* `Pool.Step`, `Pool.Run` — steps and runs
* `Pool.play` — the steps of a given order of the threads, computed

## Main results

* `Pool.Run.of_play` — runs in a given order of the threads
* `Pool.Run.outline` — the rule for proofs about runs
* `Pool.Run.threads_eq` — threads without a step
-/

namespace Semantics

/-- The rules of a shared state: which answer a thread's call can get in a state, and the
state after it. -/
abbrev Memory (S : Signature) (ι σ : Type) : Type :=
  ι → (request : S.Call) → σ → S.Answer request → σ → Prop

/-- Programs that share a state. -/
structure Pool (S : Signature) (ι σ α : Type) where
  threads : ι → Program S α
  shared : σ

/-- A call of a thread and its answer. -/
structure Event (S : Signature) (ι : Type) where
  thread : ι
  request : S.Call
  answer : S.Answer request

namespace Pool

variable {S : Signature} {ι σ α : Type} [DecidableEq ι] {M : Memory S ι σ}

/-- The next call of one thread is answered. -/
inductive Step (M : Memory S ι σ) : Pool S ι σ α → Event S ι → Pool S ι σ α → Prop
  | answer (pool : Pool S ι σ α) (i : ι) (request : S.Call) (rest : S.Answer request → Program S α)
    (answer : S.Answer request) (state : σ) (next : pool.threads i = .call request rest)
    (allowed : M i request pool.shared answer state) :
    Step M pool ⟨i, request, answer⟩ ⟨Function.update pool.threads i (rest answer), state⟩

/-- The steps of threads in any order, with their history. -/
inductive Run (M : Memory S ι σ) (first : Pool S ι σ α) : List (Event S ι) → Pool S ι σ α → Prop
  | start : Run M first [] first
  | step {events : List (Event S ι)} {pool pool' : Pool S ι σ α} {event : Event S ι}
    (run : Run M first events pool) (step : Step M pool event pool') :
    Run M first (events ++ [event]) pool'

/-- What holds at the start and is kept by every step holds after every run. -/
theorem Run.invariant {first last : Pool S ι σ α} {events : List (Event S ι)}
    {I : List (Event S ι) → Pool S ι σ α → Prop} (h : Run M first events last) (hfirst : I [] first)
    (hstep : ∀ events pool event pool', I events pool → Step M pool event pool' →
      I (events ++ [event]) pool') : I events last := by
  induction h with
  | start => exact hfirst
  | step run step ih => exact hstep _ _ _ _ ih step

/-- A thread that has made no call is where it was at the start. -/
theorem Run.threads_eq {first last : Pool S ι σ α} {events : List (Event S ι)} {i : ι}
    (h : Run M first events last) (hi : ∀ event ∈ events, event.thread ≠ i) :
    last.threads i = first.threads i := by
  induction h with
  | start => rfl
  | step run step ih =>
    rw [List.forall_mem_append, List.forall_mem_singleton] at hi
    obtain ⟨j, request, rest, answer, state, hnext, hallowed⟩ := step
    exact (Function.update_of_ne (Ne.symm hi.2) _ _).trans (ih hi.1)

/-- A proof outline: an invariant of the history and the shared state, and an assertion for
what is left of each thread. -/
structure Outline (M : Memory S ι σ) (I : List (Event S ι) → σ → Prop)
    (P : ι → Program S α → List (Event S ι) → σ → Prop) : Prop where
  /-- A step keeps the invariant and leads to the next assertion of its thread. -/
  own : ∀ events state i request rest answer state', I events state →
    P i (.call request rest) events state → M i request state answer state' →
      I (events ++ [⟨i, request, answer⟩]) state' ∧
        P i (rest answer) (events ++ [⟨i, request, answer⟩]) state'
  /-- A step keeps the assertions of the other threads. -/
  other : ∀ events state i request rest answer state' j p, I events state →
    P i (.call request rest) events state → M i request state answer state' → j ≠ i →
      P j p events state → P j p (events ++ [⟨i, request, answer⟩]) state'

/-- The invariant and the assertions of an outline hold after every run. -/
theorem Run.outline {I : List (Event S ι) → σ → Prop}
    {P : ι → Program S α → List (Event S ι) → σ → Prop} (outline : Outline M I P)
    {first last : Pool S ι σ α} {events : List (Event S ι)} (h : Run M first events last)
    (hI : I [] first.shared) (hP : ∀ i, P i (first.threads i) [] first.shared) :
    I events last.shared ∧ ∀ i, P i (last.threads i) events last.shared := by
  refine h.invariant (I := fun events pool =>
    I events pool.shared ∧ ∀ i, P i (pool.threads i) events pool.shared) ⟨hI, hP⟩ ?_
  rintro events pool event pool' ⟨hI, hP⟩ ⟨i, request, rest, answer, state, hnext, hallowed⟩
  have hi := hP i
  rw [hnext] at hi
  obtain ⟨hI', hi'⟩ := outline.own events pool.shared i request rest answer state hI hi hallowed
  refine ⟨hI', fun j => ?_⟩
  show P j (Function.update pool.threads i (rest answer) j) _ _
  by_cases hj : j = i
  · subst hj
    rwa [Function.update_self]
  · rw [Function.update_of_ne hj]
    exact outline.other events pool.shared i request rest answer state j _ hI hi hallowed hj (hP j)

/-! ### Scheduled runs -/

/-- A way to answer the calls; a call that has to wait gets no answer. -/
abbrev Responder (S : Signature) (ι σ : Type) : Type :=
  ι → (request : S.Call) → σ → Option (S.Answer request × σ)

/-- The next step of a thread. -/
def advance (respond : Responder S ι σ) (i : ι) (pool : Pool S ι σ α) :
    Option (Event S ι × Pool S ι σ α) :=
  match pool.threads i with
  | .done _ => none
  | .call request rest =>
    (respond i request pool.shared).map fun (answer, state) =>
      (⟨i, request, answer⟩, ⟨Function.update pool.threads i (rest answer), state⟩)

/-- The steps of the threads in the given order. -/
def play (respond : Responder S ι σ) : List ι → Pool S ι σ α → Option (List (Event S ι) × Pool S ι σ α)
  | [], pool => some ([], pool)
  | i :: order, pool => do
    let (event, pool) ← advance respond i pool
    let (events, pool) ← play respond order pool
    return (event :: events, pool)

theorem Step.of_advance {respond : Responder S ι σ}
    (hrespond : ∀ i request s answer s', respond i request s = some (answer, s') →
      M i request s answer s')
    {i : ι} {pool pool' : Pool S ι σ α} {event : Event S ι}
    (h : advance respond i pool = some (event, pool')) : Step M pool event pool' := by
  unfold advance at h
  split at h
  · cases h
  · next request rest hnext =>
    obtain ⟨⟨answer, state⟩, hanswer, hevent⟩ := Option.map_eq_some_iff.mp h
    cases hevent
    exact .answer pool i request rest answer state hnext (hrespond _ _ _ _ _ hanswer)

theorem Run.trans {first mid last : Pool S ι σ α} {before after : List (Event S ι)}
    (h : Run M first before mid) (h' : Run M mid after last) : Run M first (before ++ after) last := by
  induction h' with
  | start => rwa [List.append_nil]
  | step run step ih =>
    rw [← List.append_assoc]
    exact ih.step step

/-- What is played in an order is a run. -/
theorem Run.of_play {respond : Responder S ι σ}
    (hrespond : ∀ i request s answer s', respond i request s = some (answer, s') →
      M i request s answer s')
    {order : List ι} {pool pool' : Pool S ι σ α} {events : List (Event S ι)}
    (h : play respond order pool = some (events, pool')) : Run M pool events pool' := by
  induction order generalizing pool events with
  | nil =>
    cases h
    exact .start
  | cons i order ih =>
    obtain ⟨⟨event, mid⟩, hadvance, hrest⟩ := Option.bind_eq_some_iff.mp h
    obtain ⟨⟨events', last⟩, hplay, hresult⟩ := Option.bind_eq_some_iff.mp hrest
    cases hresult
    exact (Run.start.step (Step.of_advance hrespond hadvance)).trans (ih hplay)

end Pool

end Semantics
