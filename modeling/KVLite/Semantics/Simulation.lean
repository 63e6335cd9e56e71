import KVLite.Semantics.Program

/-!
# Simulation by abstract states

A relation `R` says which concrete states an abstract state stands for. A program
computes on abstract states when, from every concrete state of one abstract state, it
returns the same value and ends in a concrete state of the same abstract state. Such
facts compose along the program without mentioning concrete states. Where the
environment decides an answer, a program leads to a set of values and abstract states.

A machine takes a list of inputs one after the other. Two machines whose steps give
the same output from related states, for inputs that meet a condition at the state
they find, give the same outputs on every list of inputs that meets the condition
throughout.
-/

namespace Semantics

variable {S : Signature} {σ τ ε α β : Type}

/-! ### Programs on abstract states -/

/-- From every state of `a`, the program returns `value` and ends in a state of `a'`. -/
def Program.Computes (handler : Handler S σ) (R : σ → τ → Prop) (p : Program S α) (a : τ)
    (value : α) (a' : τ) : Prop :=
  ∀ state, R state a → ∃ state', p.run handler state = (value, state') ∧ R state' a'

/-- From every state of `a`, the fallible program ends with `result` in a state of
`a'`. -/
def Fallible.Computes (handler : Handler S σ) (R : σ → τ → Prop) (x : Fallible S ε α) (a : τ)
    (result : Except ε α) (a' : τ) : Prop :=
  ∀ state, R state a → ∃ state', Fallible.run handler x state = (result, state') ∧ R state' a'

/-- An environment that answers every call as a handler does on the abstract state, and
keeps the relation, gives every program the value it has under the handler. -/
theorem Program.wp_of_simulation {E : Program.Environment S σ} {handler : Handler S τ}
    {R : σ → τ → Prop}
    (step : ∀ request state a, R state a → E.admits request (fun answer state' =>
      answer = (handler request a).1 ∧ R state' (handler request a).2) state)
    (p : Program S α) {state : σ} {a : τ} (h : R state a) :
    p.wp E (fun value state' => value = (p.run handler a).1 ∧ R state' (p.run handler a).2)
      state := by
  induction p generalizing state a with
  | done value => exact ⟨rfl, h⟩
  | call request rest ih =>
    refine E.mono request state ?_ (step request state a h)
    rintro _ state' ⟨rfl, hstate'⟩
    exact ih _ hstate'

namespace Fallible.Computes

variable {handler : Handler S σ} {R : σ → τ → Prop} {a a' a'' : τ}

theorem pure (value : α) :
    Computes handler R (pure value : Fallible S ε α) a (.ok value) a :=
  fun state h => ⟨state, run_pure value, h⟩

theorem throw (error : ε) :
    Computes handler R (throw error : Fallible S ε α) a (.error error) a :=
  fun state h => ⟨state, run_throw error, h⟩

theorem bind {x : Fallible S ε α} {f : α → Fallible S ε β} {value : α} {result : Except ε β}
    (hx : Computes handler R x a (.ok value) a') (hf : Computes handler R (f value) a' result a'') :
    Computes handler R (x >>= f) a result a'' := by
  intro state h
  obtain ⟨mid, hrun, hmid⟩ := hx state h
  obtain ⟨state', hrun', hstate'⟩ := hf mid hmid
  exact ⟨state', (run_bind_ok hrun).trans hrun', hstate'⟩

theorem bind_error {x : Fallible S ε α} {f : α → Fallible S ε β} {error : ε}
    (hx : Computes handler R x a (.error error) a') :
    Computes handler R (x >>= f) a (.error error) a' := by
  intro state h
  obtain ⟨state', hrun, hstate'⟩ := hx state h
  exact ⟨state', run_bind_error hrun, hstate'⟩

end Fallible.Computes

/-- From every state of `a`, every execution of the fallible program ends with a result
and in a state of an abstract state that meet `post`. -/
def Fallible.Leads (E : Program.Environment S σ) (R : σ → τ → Prop) (x : Fallible S ε α) (a : τ)
    (post : Except ε α → τ → Prop) : Prop :=
  ∀ state, R state a →
    (ExceptT.run x).wp E (fun result state' => ∃ a', R state' a' ∧ post result a') state

namespace Fallible.Leads

variable {E : Program.Environment S σ} {R : σ → τ → Prop} {a : τ}

theorem of_ensures {x : Fallible S ε α} {post : Except ε α → τ → Prop}
    (h : ∀ state, R state a → Ensures E x state (fun value state' => ∃ a', R state' a' ∧
      post (.ok value) a') (fun error state' => ∃ a', R state' a' ∧ post (.error error) a')) :
    Leads E R x a post := by
  intro state hstate
  refine Program.wp_mono ?_ (h state hstate)
  rintro (error | value) state' hresult <;> exact hresult

theorem pure {value : α} {post : Except ε α → τ → Prop} (h : post (.ok value) a) :
    Leads E R (pure value : Fallible S ε α) a post := fun _ hstate => ⟨a, hstate, h⟩

theorem throw {error : ε} {post : Except ε α → τ → Prop} (h : post (.error error) a) :
    Leads E R (throw error : Fallible S ε α) a post := fun _ hstate => ⟨a, hstate, h⟩

theorem ite {p : Prop} [Decidable p] {x y : Fallible S ε α} {post : Except ε α → τ → Prop}
    (hx : p → Leads E R x a post) (hy : ¬ p → Leads E R y a post) :
    Leads E R (if p then x else y) a post := by
  split
  exacts [hx ‹_›, hy ‹_›]

theorem mono {x : Fallible S ε α} {post post' : Except ε α → τ → Prop} (hx : Leads E R x a post)
    (h : ∀ result a', post result a' → post' result a') : Leads E R x a post' := by
  intro state hstate
  refine Program.wp_mono ?_ (hx state hstate)
  rintro result state' ⟨a', hstate', hpost⟩
  exact ⟨a', hstate', h result a' hpost⟩

/-- What is left to show after the first of two programs: that the second one leads to
`post`, or `post` itself after an error. -/
@[reducible] def Continues (E : Program.Environment S σ) (R : σ → τ → Prop)
    (f : α → Fallible S ε β) (post : Except ε β → τ → Prop) : Except ε α → τ → Prop
  | .ok value, a => Leads E R (f value) a post
  | .error error, a => post (.error error) a

theorem continues_ok {f : α → Fallible S ε β} {post : Except ε β → τ → Prop} {value : α} :
    Continues E R f post (.ok value) a ↔ Leads E R (f value) a post := Iff.rfl

theorem seq {x : Fallible S ε α} {f : α → Fallible S ε β} {post : Except ε β → τ → Prop}
    (hx : Leads E R x a (Continues E R f post)) : Leads E R (x >>= f) a post := by
  intro state hstate
  rw [ExceptT.run_bind, Program.wp_bind]
  refine Program.wp_mono ?_ (hx state hstate)
  rintro (error | value) state' ⟨a', hstate', hnext⟩
  · exact ⟨a', hstate', hnext⟩
  · exact hnext state' hstate'

theorem bind {x : Fallible S ε α} {f : α → Fallible S ε β} {mid : Except ε α → τ → Prop}
    {post : Except ε β → τ → Prop} (hx : Leads E R x a mid)
    (hok : ∀ value a', mid (.ok value) a' → Leads E R (f value) a' post)
    (herror : ∀ error a', mid (.error error) a' → post (.error error) a') :
    Leads E R (x >>= f) a post := by
  refine seq (hx.mono ?_)
  rintro (error | value) a' hmid
  exacts [herror error a' hmid, hok value a' hmid]

/-- What a program leads to in an environment holds of its runs whose answers the
environment admits. -/
theorem run {handler : Handler S σ}
    (admitted : ∀ request post state, E.admits request post state →
      post (handler request state).1 (handler request state).2)
    {x : Fallible S ε α} {post : Except ε α → τ → Prop} (h : Leads E R x a post) {state : σ}
    (hstate : R state a) :
    ∃ a', R (Fallible.run handler x state).2 a' ∧ post (Fallible.run handler x state).1 a' :=
  Program.run_of_wp admitted (h state hstate)

end Fallible.Leads

/-! ### Machines -/

namespace Machine

variable {I O : Type}

/-- The outputs of a machine on a list of inputs. -/
def outputs (step : I → σ → O × σ) : List I → σ → List O
  | [], _ => []
  | input :: inputs, state => (step input state).1 :: outputs step inputs (step input state).2

/-- The state of a machine after a list of inputs. -/
def after (step : I → σ → O × σ) : List I → σ → σ
  | [], state => state
  | input :: inputs, state => after step inputs (step input state).2

/-- Every input meets its condition at the state in which the machine takes it. -/
def Along (step : I → σ → O × σ) (condition : I → σ → Prop) : List I → σ → Prop
  | [], _ => True
  | input :: inputs, state =>
    condition input state ∧ Along step condition inputs (step input state).2

theorem outputs_append (step : I → σ → O × σ) (inputs inputs' : List I) (state : σ) :
    outputs step (inputs ++ inputs') state =
      outputs step inputs state ++ outputs step inputs' (after step inputs state) := by
  induction inputs generalizing state with
  | nil => rfl
  | cons input inputs ih => simp only [List.cons_append, outputs, after, ih]

theorem after_append (step : I → σ → O × σ) (inputs inputs' : List I) (state : σ) :
    after step (inputs ++ inputs') state = after step inputs' (after step inputs state) := by
  induction inputs generalizing state with
  | nil => rfl
  | cons input inputs ih => exact ih _

theorem along_append (step : I → σ → O × σ) (condition : I → σ → Prop) (inputs inputs' : List I)
    (state : σ) :
    Along step condition (inputs ++ inputs') state ↔
      Along step condition inputs state ∧
        Along step condition inputs' (after step inputs state) := by
  induction inputs generalizing state with
  | nil => simp only [List.nil_append, Along, after, true_and]
  | cons input inputs ih => simp only [List.cons_append, Along, after, ih, and_assoc]

theorem Along.mono {step : I → σ → O × σ} {condition condition' : I → σ → Prop}
    (h : ∀ input state, condition input state → condition' input state) {inputs : List I}
    {state : σ} (halong : Along step condition inputs state) :
    Along step condition' inputs state := by
  induction inputs generalizing state with
  | nil => trivial
  | cons input inputs ih => exact ⟨h _ _ halong.1, ih halong.2⟩

/-- What every step keeps holds after the run. -/
theorem after_of_along {step : I → σ → O × σ} {condition : I → σ → Prop} {invariant : σ → Prop}
    (hstep : ∀ input state, invariant state → condition input state →
      invariant (step input state).2)
    {inputs : List I} {state : σ} (h : invariant state)
    (halong : Along step condition inputs state) : invariant (after step inputs state) := by
  induction inputs generalizing state with
  | nil => exact h
  | cons input inputs ih => exact ih (hstep input state h halong.1) halong.2

variable {step : I → σ → O × σ} {step' : I → τ → O × τ} {condition : I → τ → Prop}
  {R : σ → τ → Prop}

/-- The machines agree on every run that meets the condition throughout, and end in
related states. -/
theorem outputs_eq_of_simulation
    (hstep : ∀ input state state', R state state' → condition input state' →
      (step input state).1 = (step' input state').1 ∧
        R (step input state).2 (step' input state').2)
    {inputs : List I} {state : σ} {state' : τ} (h : R state state')
    (halong : Along step' condition inputs state') :
    outputs step inputs state = outputs step' inputs state' ∧
      R (after step inputs state) (after step' inputs state') := by
  induction inputs generalizing state state' with
  | nil => exact ⟨rfl, h⟩
  | cons input inputs ih =>
    obtain ⟨hcondition, hrest⟩ := halong
    obtain ⟨houtput, hnext⟩ := hstep input state state' h hcondition
    obtain ⟨houtputs, hafter⟩ := ih hnext hrest
    exact ⟨by rw [outputs, outputs, houtput, houtputs], hafter⟩

end Machine

end Semantics
