import KVLite.Semantics.Program

/-!
# Code that fails without an effect

A fallible program is fail-safe for an invariant when it ends in a state of the
invariant whenever it fails, or returns a value that counts as a failure. What it does
when it succeeds is left open. Such a program looks around first, with steps that keep
the invariant, and then acts with steps that cannot fail; the rules below follow this
order.
-/

namespace Semantics.Fallible

variable {S : Signature} {σ ε α β : Type}

/-- From a state of `I` the program ends in a state of `I`, with a value or an error. -/
def Keeps (E : Program.Environment S σ) (I : σ → Prop) (x : Fallible S ε α) : Prop :=
  ∀ state, I state → Ensures E x state (fun _ => I) (fun _ => I)

/-- From a state of `J` the program ends in a state of `I` if it fails or returns a value
that counts as a failure. -/
def FailSafe (E : Program.Environment S σ) (J I : σ → Prop) (Failure : α → Prop)
    (x : Fallible S ε α) : Prop :=
  ∀ state, J state → Ensures E x state (fun value state' => Failure value → I state') (fun _ => I)

/-- From a state of `J` the program returns a value that does not count as a failure. -/
abbrev Succeeds (E : Program.Environment S σ) (J : σ → Prop) (Failure : α → Prop)
    (x : Fallible S ε α) : Prop :=
  FailSafe E J (fun _ => False) Failure x

variable {E : Program.Environment S σ} {I J : σ → Prop} {x y : Fallible S ε α}
  {f : α → Fallible S ε β}

section Keeps

theorem Keeps.pure (value : α) : Keeps E I (pure value : Fallible S ε α) := fun _ h => h

theorem Keeps.throw (error : ε) : Keeps E I (throw error : Fallible S ε α) := fun _ h => h

/-- A step that keeps the invariant and of whose value more is known. -/
theorem Keeps.bind_of_ensures {K : α → Prop}
    (hx : ∀ state, I state →
      Ensures E x state (fun value state' => I state' ∧ K value) (fun _ => I))
    (hf : ∀ value, K value → Keeps E I (f value)) : Keeps E I (x >>= f) := by
  intro state hstate
  rw [ensures_bind]
  exact (hx state hstate).mono (fun value state' h => hf value h.2 state' h.1) fun _ _ h => h

theorem Keeps.bind (hx : Keeps E I x) (hf : ∀ value, Keeps E I (f value)) :
    Keeps E I (x >>= f) := by
  intro state hstate
  rw [ensures_bind]
  exact (hx state hstate).mono (fun value state' h => hf value state' h) fun _ _ h => h

theorem Keeps.ite {p : Prop} [Decidable p] (hx : Keeps E I x) (hy : Keeps E I y) :
    Keeps E I (if p then x else y) := by
  split
  · exact hx
  · exact hy

end Keeps

namespace FailSafe

variable {Failure : α → Prop} {Failure' : β → Prop}

theorem of_succeeds (hx : Succeeds E J Failure x) : FailSafe E J I Failure x :=
  fun state hstate =>
    (hx state hstate).mono (fun _ _ h hvalue => (h hvalue).elim) fun _ _ => False.elim

theorem pure (value : α) : FailSafe E I I Failure (pure value : Fallible S ε α) :=
  fun _ h _ => h

theorem throw (error : ε) : FailSafe E I I Failure (throw error : Fallible S ε α) :=
  fun _ h => h

theorem ite {p : Prop} [Decidable p] (hx : FailSafe E J I Failure x)
    (hy : FailSafe E J I Failure y) : FailSafe E J I Failure (if p then x else y) := by
  split
  · exact hx
  · exact hy

/-- A step that fails in a state of `I`, and after which more is known. -/
theorem bind_of_ensures {K : α → σ → Prop}
    (hx : ∀ state, J state → Ensures E x state K (fun _ => I))
    (hf : ∀ value, FailSafe E (K value) I Failure' (f value)) :
    FailSafe E J I Failure' (x >>= f) := by
  intro state hstate
  rw [ensures_bind]
  exact (hx state hstate).mono (fun value state' h => hf value state' h) fun _ _ h => h

theorem bind (hx : Keeps E I x) (hf : ∀ value, FailSafe E I I Failure' (f value)) :
    FailSafe E I I Failure' (x >>= f) := bind_of_ensures hx hf

/-- Once the first part has succeeded, nothing can fail. -/
theorem bind_succeeds (hx : FailSafe E J I (fun _ => False) x)
    (hf : ∀ value, Succeeds E (fun _ => True) Failure' (f value)) :
    FailSafe E J I Failure' (x >>= f) := by
  refine bind_of_ensures (K := fun _ _ => True) (fun state hstate => ?_) fun value =>
    of_succeeds (hf value)
  exact (hx state hstate).mono (fun _ _ _ => trivial) fun _ _ h => h

end FailSafe

section Succeeds

variable {Failure : α → Prop}

theorem Succeeds.pure {value : α} (h : ¬ Failure value) :
    Succeeds E J Failure (pure value : Fallible S ε α) := fun _ _ => h

end Succeeds

end Semantics.Fallible
