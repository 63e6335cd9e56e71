import KVLite.Semantics.Interleaving
import Mathlib.Logic.Relation

/-!
# Rely and guarantee

Each thread of a pool promises how its steps change the shared state. What a thread can
rely on is then that everything which happens between its own steps is made of promised
steps of the others. A thread is read as a program in the environment that makes an own
step and lets the others go on after it; when every thread meets its postcondition in its
environment, it does so in every run of the pool.

A proof may need to know more than the state tells, such as who made it. This is kept in a
ghost beside the state, which follows the steps and does not influence them.

## Main definitions

* `Interference` — what the other threads can do
* `Memory.among` — the environment of a thread among the others
* `Memory.ghost` — a memory with a ghost

## Main results

* `Pool.Run.among` — threads that meet their postconditions among the others
* `Pool.Run.ghost` — every run can be followed by a ghost
* `Pool.Run.solo` — a thread that runs alone to its end
-/

namespace Semantics

variable {S : Signature} {ι σ γ α : Type} {M : Memory S ι σ} {G : ι → σ → σ → Prop} {i : ι}

/-- What happens to the state while thread `i` makes no step, when each step of a thread is
one that it promises. -/
def Interference (G : ι → σ → σ → Prop) (i : ι) : σ → σ → Prop :=
  Relation.ReflTransGen fun s s' => ∃ j, j ≠ i ∧ G j s s'

/-- What every promised step of the others keeps. -/
theorem Interference.keeps {P : σ → Prop} {s s' : σ} (h : Interference G i s s')
    (hstep : ∀ j s s', j ≠ i → G j s s' → P s → P s') (hs : P s) : P s' := by
  induction h with
  | refl => exact hs
  | tail _ step ih =>
    obtain ⟨j, hj, hstep'⟩ := step
    exact hstep j _ _ hj hstep' ih

/-- The environment of a thread: its step keeps its promise, and then the others go on. -/
def Memory.among (M : Memory S ι σ) (G : ι → σ → σ → Prop) (i : ι) : Program.Environment S σ where
  admits request post s := ∀ answer s', M i request s answer s' →
    G i s s' ∧ ∀ s'', Interference G i s' s'' → post answer s''
  mono _ _ _ _ weaken h answer s' hstep :=
    ⟨(h answer s' hstep).1, fun s'' hs => weaken _ _ ((h answer s' hstep).2 s'' hs)⟩

/-- The rules with a ghost that follows the steps. -/
def Memory.ghost (M : Memory S ι σ)
    (follow : ι → (request : S.Call) → S.Answer request → γ → γ) : Memory S ι (γ × σ) :=
  fun i request s answer s' => M i request s.2 answer s'.2 ∧ s'.1 = follow i request answer s.1

namespace Pool

variable [DecidableEq ι] {first last : Pool S ι σ α} {events : List (Event S ι)}

/-- Threads that meet their postconditions among the others do so along every run. -/
theorem Run.among {post : ι → α → σ → Prop} (h : Run M first events last)
    (hfirst : ∀ i s, Interference G i first.shared s → (first.threads i).wp (M.among G i) (post i) s) :
    ∀ i s, Interference G i last.shared s → (last.threads i).wp (M.among G i) (post i) s := by
  refine h.invariant (I := fun _ pool => ∀ i s, Interference G i pool.shared s →
    (pool.threads i).wp (M.among G i) (post i) s) hfirst ?_
  rintro events pool event pool' hpool ⟨i, request, rest, answer, state, hnext, hallowed⟩
  have hi := hpool i pool.shared .refl
  rw [hnext] at hi
  obtain ⟨hpromise, hrest⟩ := hi answer state hallowed
  intro j s hs
  show Program.wp _ (Function.update pool.threads i (rest answer) j) _ _
  by_cases hj : j = i
  · subst hj
    rw [Function.update_self]
    exact hrest s hs
  · -- For the others the step is interference.
    rw [Function.update_of_ne hj]
    exact hpool j s (.head ⟨i, Ne.symm hj, hpromise⟩ hs)

/-- The postcondition of a thread that has ended. -/
theorem Run.post_of_done (post : ι → α → σ → Prop) {value : α} (h : Run M first events last)
    (hfirst : ∀ i s, Interference G i first.shared s → (first.threads i).wp (M.among G i) (post i) s)
    (hdone : last.threads i = .done value) : post i value last.shared := by
  have hi := h.among hfirst i last.shared .refl
  rwa [hdone] at hi

/-- A pool with a ghost. -/
def haunted (pool : Pool S ι σ α) (ghost : γ) : Pool S ι (γ × σ) α := ⟨pool.threads, (ghost, pool.shared)⟩

theorem Run.ghost (h : Run M first events last)
    (follow : ι → (request : S.Call) → S.Answer request → γ → γ) (start : γ) :
    ∃ ghost, Run (M.ghost follow) (first.haunted start) events (last.haunted ghost) := by
  induction h with
  | start => exact ⟨start, .start⟩
  | step run step ih =>
    obtain ⟨ghost, hrun⟩ := ih
    obtain ⟨i, request, rest, answer, state, hnext, hallowed⟩ := step
    exact ⟨follow i request answer ghost,
      hrun.step (.answer _ i request rest answer (_, state) hnext ⟨hallowed, rfl⟩)⟩

/-- A thread can run alone to its end. -/
theorem Run.solo {handler : Handler S σ}
    (hhandler : ∀ request s, M i request s (handler request s).1 (handler request s).2)
    (pool : Pool S ι σ α) {value : α} {state : σ}
    (hrun : (pool.threads i).run handler pool.shared = (value, state)) :
    ∃ events, Run M pool events ⟨Function.update pool.threads i (.done value), state⟩ := by
  generalize hp : pool.threads i = p at hrun
  induction p generalizing pool with
  | done _ =>
    cases hrun
    rw [← hp, Function.update_eq_self]
    exact ⟨[], .start⟩
  | call request rest ih =>
    have hstep := Step.answer pool i request rest _ _ hp (hhandler request pool.shared)
    obtain ⟨events, hrest⟩ := ih _ ⟨Function.update pool.threads i (rest _), _⟩ (Function.update_self ..) hrun
    rw [Function.update_idem] at hrest
    exact ⟨_, (Run.start.step hstep).trans hrest⟩

end Pool

end Semantics
