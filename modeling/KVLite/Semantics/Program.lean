import Mathlib.Data.List.Basic

/-!
# Programs that make calls

A program is a finite tree of calls to its surroundings: it either returns a value
or makes one call and continues with the answer. What a call does is not part of
the program, so one program text can be read in several ways:

* by a *handler*, which answers each call from a state (`Program.run`);
* by an *environment*, which says what may be assumed of each answer and what must
  be shown before the call is made (`Program.wp`);
* by a *translation*, which replaces each call by a program over other calls
  (`Program.translate`).

Programs that can fail are programs that return an `Except`; they are written in
`Fallible`, where a failed step ends the program, and read by `Fallible.run` and
`Fallible.Ensures`.
-/

namespace Semantics

/-- A signature: the calls a program can make and the type of each call's answer. -/
structure Signature where
  /-- The calls. -/
  Call : Type
  /-- The answers a call can receive. -/
  Answer : Call → Type

/-- A program over a signature: a finite tree of calls with a value at each leaf. -/
inductive Program (S : Signature) (α : Type) : Type
  | done (value : α) : Program S α
  | call (request : S.Call) (rest : S.Answer request → Program S α) : Program S α

/-- A handler answers every call from a state and updates the state. -/
abbrev Handler (S : Signature) (σ : Type) : Type :=
  (request : S.Call) → σ → S.Answer request × σ

namespace Program

variable {S T : Signature} {σ α β γ : Type}

/-- Continue a program with its result. -/
def bind : Program S α → (α → Program S β) → Program S β
  | done value, f => f value
  | call request rest, f => call request fun answer => (rest answer).bind f

instance : Monad (Program S) where
  pure := done
  bind := bind

theorem bind_done (p : Program S α) : (p >>= done) = p := by
  induction p with
  | done value => rfl
  | call request rest ih => exact congrArg (call request) (funext ih)

theorem bind_bind (p : Program S α) (f : α → Program S β) (g : β → Program S γ) :
    (p >>= f >>= g) = (p >>= fun value => f value >>= g) := by
  induction p with
  | done value => rfl
  | call request rest ih => exact congrArg (call request) (funext ih)

instance : LawfulMonad (Program S) :=
  LawfulMonad.mk' (Program S) bind_done (fun _ _ => rfl) bind_bind

/-- The program that makes one call and returns its answer. -/
def perform (request : S.Call) : Program S (S.Answer request) := call request done

@[simp] theorem perform_bind (request : S.Call) (f : S.Answer request → Program S β) :
    (perform request >>= f) = call request f := rfl

/-! ### Running under a handler -/

/-- Run a program: answer each call by the handler, threading its state. -/
def run (handler : Handler S σ) : Program S α → σ → α × σ
  | done value, state => (value, state)
  | call request rest, state =>
    (rest (handler request state).1).run handler (handler request state).2

@[simp] theorem run_pure (handler : Handler S σ) (value : α) (state : σ) :
    (pure value : Program S α).run handler state = (value, state) := rfl

@[simp] theorem run_call (handler : Handler S σ) (request : S.Call)
    (rest : S.Answer request → Program S α) (state : σ) :
    (call request rest).run handler state =
      (rest (handler request state).1).run handler (handler request state).2 := rfl

@[simp] theorem run_bind (handler : Handler S σ) (p : Program S α) (f : α → Program S β)
    (state : σ) :
    (p >>= f).run handler state =
      (f (p.run handler state).1).run handler (p.run handler state).2 := by
  induction p generalizing state with
  | done value => rfl
  | call request rest ih => exact ih _ _

/-! ### Reading a program in an environment -/

/-- An environment: for each call, what must hold before it so that every answer
the surroundings may give satisfies a postcondition. -/
structure Environment (S : Signature) (σ : Type) where
  /-- The precondition of a call for a postcondition on its answer and the state. -/
  admits : (request : S.Call) → (S.Answer request → σ → Prop) → σ → Prop
  /-- A weaker postcondition needs no more. -/
  mono : ∀ (request : S.Call) {P Q : S.Answer request → σ → Prop} (state : σ),
    (∀ answer state', P answer state' → Q answer state') →
      admits request P state → admits request Q state

variable {E : Environment S σ}

/-- Every execution of the program in the environment ends with the postcondition. -/
def wp (E : Environment S σ) : Program S α → (α → σ → Prop) → σ → Prop
  | done value, post, state => post value state
  | call request rest, post, state =>
    E.admits request (fun answer => (rest answer).wp E post) state

theorem wp_mono {p : Program S α} {P Q : α → σ → Prop} {state : σ}
    (weaken : ∀ value state', P value state' → Q value state') (holds : p.wp E P state) :
    p.wp E Q state := by
  induction p generalizing state with
  | done value => exact weaken _ _ holds
  | call request rest ih =>
    exact E.mono request state (fun answer state' h => ih answer h) holds

@[simp] theorem wp_bind (p : Program S α) (f : α → Program S β) (post : β → σ → Prop)
    (state : σ) :
    (p >>= f).wp E post state ↔ p.wp E (fun value => (f value).wp E post) state := by
  induction p generalizing state with
  | done value => rfl
  | call request rest ih =>
    constructor
    · exact E.mono request state fun answer state' h => (ih answer state').mp h
    · exact E.mono request state fun answer state' h => (ih answer state').mpr h

/-- What is shown in an environment holds of every run whose answers the environment
admits. -/
theorem run_of_wp {handler : Handler S σ}
    (admitted : ∀ request post state, E.admits request post state →
      post (handler request state).1 (handler request state).2)
    {p : Program S α} {post : α → σ → Prop} {state : σ} (holds : p.wp E post state) :
    post (p.run handler state).1 (p.run handler state).2 := by
  induction p generalizing state with
  | done value => exact holds
  | call request rest ih => exact ih _ (admitted request _ state holds)

/-! ### Replacing calls by programs -/

/-- Replace every call by a program that computes its answer. -/
def translate (f : (request : S.Call) → Program T (S.Answer request)) :
    Program S α → Program T α
  | done value => done value
  | call request rest => f request >>= fun answer => (rest answer).translate f

variable (f : (request : S.Call) → Program T (S.Answer request))

@[simp] theorem translate_call (request : S.Call) (rest : S.Answer request → Program S α) :
    (call request rest).translate f = f request >>= fun answer => (rest answer).translate f :=
  rfl

/-- A translation runs like the original under the handler that runs each replacement. -/
theorem run_translate (handler : Handler T σ) (p : Program S α) (state : σ) :
    (p.translate f).run handler state =
      p.run (fun request state' => (f request).run handler state') state := by
  induction p generalizing state with
  | done value => rfl
  | call request rest ih =>
    rw [translate_call, run_bind, run_call]
    exact ih _ _

/-! ### The calls of a program -/

/-- Every call the program can make satisfies `P`. -/
def Uses (P : S.Call → Prop) : Program S α → Prop
  | done _ => True
  | call request rest => P request ∧ ∀ answer, (rest answer).Uses P

variable {P Q : S.Call → Prop}

theorem Uses.bind {p : Program S α} {f : α → Program S β} (hp : p.Uses P)
    (hf : ∀ value, (f value).Uses P) : (p >>= f).Uses P := by
  induction p with
  | done value => exact hf value
  | call request rest ih => exact ⟨hp.1, fun answer => ih answer (hp.2 answer)⟩

theorem Uses.mono {p : Program S α} (hp : p.Uses P) (h : ∀ request, P request → Q request) :
    p.Uses Q := by
  induction p with
  | done value => trivial
  | call request rest ih => exact ⟨h _ hp.1, fun answer => ih answer (hp.2 answer)⟩

/-- An invariant that every call of the program keeps holds when the program ends. -/
theorem wp_of_uses {E : Environment S σ} {I : σ → Prop} {p : Program S α} {state : σ}
    (hI : ∀ request, P request → ∀ state, I state → E.admits request (fun _ => I) state)
    (hp : p.Uses P) (hstate : I state) : p.wp E (fun _ => I) state := by
  induction p generalizing state with
  | done value => exact hstate
  | call request rest ih =>
    exact E.mono request state (fun answer _ h => ih answer (hp.2 answer) h)
      (hI request hp.1 state hstate)

/-- A program whose calls leave the state alone leaves it alone. -/
theorem run_snd_of_uses {handler : Handler S σ}
    (keep : ∀ request, P request → ∀ state, (handler request state).2 = state)
    {p : Program S α} (hp : p.Uses P) (state : σ) : (p.run handler state).2 = state := by
  induction p with
  | done value => rfl
  | call request rest ih =>
    rw [run_call, keep request hp.1]
    exact ih _ (hp.2 _)

/-- A program runs alike under handlers that answer its calls alike. -/
theorem run_congr_of_uses {handler handler' : Handler S σ}
    (agree : ∀ request, P request → ∀ state, handler request state = handler' request state)
    {p : Program S α} (hp : p.Uses P) (state : σ) : p.run handler state = p.run handler' state := by
  induction p generalizing state with
  | done value => rfl
  | call request rest ih =>
    rw [run_call, run_call, agree request hp.1]
    exact ih _ (hp.2 _) _

/-- Every call that the program makes in the run from the state satisfies `P`. -/
def Asks (handler : Handler S σ) (P : S.Call → Prop) : Program S α → σ → Prop
  | done _, _ => True
  | call request rest, state =>
    P request ∧ (rest (handler request state).1).Asks handler P (handler request state).2

instance decidableAsks (handler : Handler S σ) [DecidablePred P] :
    (p : Program S α) → (state : σ) → Decidable (p.Asks handler P state)
  | done _, _ => .isTrue trivial
  | call request rest, state =>
    have := decidableAsks handler (rest (handler request state).1) (handler request state).2
    inferInstanceAs (Decidable (P request ∧ _))

/-- Handlers that agree on the calls which the program makes in one run of them. -/
theorem run_congr_of_asks {handler handler' : Handler S σ}
    (agree : ∀ request, P request → Q request → ∀ state,
      handler request state = handler' request state)
    {p : Program S α} (hp : p.Uses P) {state : σ} (hq : p.Asks handler' Q state) :
    p.run handler state = p.run handler' state := by
  induction p generalizing state with
  | done value => rfl
  | call request rest ih =>
    rw [run_call, run_call, agree request hp.1 hq.1]
    exact ih _ (hp.2 _) hq.2

/-- A program whose calls neither change the state nor depend on it returns the same
value under every handler that answers them alike. -/
theorem run_eq_of_uses {τ : Type} {handler : Handler S σ} {handler' : Handler S τ}
    (agree : ∀ request, P request → ∀ state state',
      (handler request state).1 = (handler' request state').1 ∧
      (handler request state).2 = state ∧ (handler' request state').2 = state')
    {p : Program S α} (hp : p.Uses P) (state : σ) (state' : τ) :
    p.run handler state = ((p.run handler' state').1, state) := by
  induction p with
  | done value => rfl
  | call request rest ih =>
    obtain ⟨hanswer, hstate, hstate'⟩ := agree request hp.1 state state'
    rw [run_call, run_call, hstate, hstate', hanswer]
    exact ih _ (hp.2 _)

end Program

/-! ### Programs that can fail -/

/-- A program whose steps can fail with an error; a failed step ends the program. -/
abbrev Fallible (S : Signature) (ε α : Type) : Type := ExceptT ε (Program S) α

namespace Fallible

variable {S : Signature} {σ ε α β : Type}

/-- Run a fallible program: its result or error, and the final state. -/
def run (handler : Handler S σ) (x : Fallible S ε α) (state : σ) : Except ε α × σ :=
  Program.run handler (ExceptT.run x) state

variable {handler : Handler S σ} {state : σ}

@[simp] theorem run_pure (value : α) :
    run handler (pure value : Fallible S ε α) state = (.ok value, state) := rfl

@[simp] theorem run_throw (error : ε) :
    run handler (throw error : Fallible S ε α) state = (.error error, state) := rfl

theorem run_bind (x : Fallible S ε α) (f : α → Fallible S ε β) :
    run handler (x >>= f) state =
      match run handler x state with
      | (.ok value, state') => run handler (f value) state'
      | (.error error, state') => (.error error, state') := by
  unfold run
  rw [ExceptT.run_bind, Program.run_bind]
  cases h : Program.run handler (ExceptT.run x) state with
  | mk result state' => cases result <;> rfl

theorem run_bind_ok {x : Fallible S ε α} {f : α → Fallible S ε β} {value : α} {state' : σ}
    (h : run handler x state = (.ok value, state')) :
    run handler (x >>= f) state = run handler (f value) state' := by
  rw [run_bind, h]

theorem run_bind_error {x : Fallible S ε α} {f : α → Fallible S ε β} {error : ε}
    {state' : σ} (h : run handler x state = (.error error, state')) :
    run handler (x >>= f) state = (.error error, state') := by
  rw [run_bind, h]

/-- A sequence that succeeds went through its first part. -/
theorem exists_of_run_bind_eq_ok {x : Fallible S ε α} {f : α → Fallible S ε β} {result : β}
    {state' : σ} (h : run handler (x >>= f) state = (.ok result, state')) :
    ∃ value mid, run handler x state = (.ok value, mid) ∧
      run handler (f value) mid = (.ok result, state') := by
  cases hx : run handler x state with
  | mk first mid =>
    cases first with
    | ok value => exact ⟨value, mid, rfl, by rw [← run_bind_ok hx, h]⟩
    | error error =>
      rw [run_bind_error hx] at h
      cases h

@[simp] theorem run_map (x : Fallible S ε α) (f : α → β) :
    run handler (f <$> x) state = ((run handler x state).1.map f, (run handler x state).2) := by
  rw [← bind_pure_comp, run_bind]
  cases h : run handler x state with
  | mk result state' => cases result <;> rfl

@[simp] theorem run_mk (p : Program S (Except ε α)) :
    run handler (ExceptT.mk p) state = p.run handler state := rfl

theorem run_lift (p : Program S α) :
    run handler (ExceptT.lift p : Fallible S ε α) state =
      (.ok (p.run handler state).1, (p.run handler state).2) := by
  rw [run, ExceptT.run_lift, ← bind_pure_comp, Program.run_bind]
  rfl

theorem program_run (x : Fallible S ε α) :
    Program.run handler (ExceptT.run x) state = run handler x state := rfl

/-- Every execution ends with `post` on a result and with `fail` on an error. -/
def Ensures (E : Program.Environment S σ) (x : Fallible S ε α) (state : σ)
    (post : α → σ → Prop) (fail : ε → σ → Prop) : Prop :=
  (ExceptT.run x).wp E (fun result state' =>
    match result with
    | .ok value => post value state'
    | .error error => fail error state') state

variable {E : Program.Environment S σ} {post : α → σ → Prop} {fail : ε → σ → Prop}

@[simp] theorem ensures_pure (value : α) :
    Ensures E (pure value : Fallible S ε α) state post fail ↔ post value state := Iff.rfl

@[simp] theorem ensures_lift (p : Program S α) :
    Ensures E (ExceptT.lift p : Fallible S ε α) state post fail ↔ p.wp E post state := by
  show Program.wp E (_ <$> p) _ state ↔ _
  rw [map_eq_pure_bind, Program.wp_bind]
  rfl

theorem Ensures.mono {x : Fallible S ε α} {post' : α → σ → Prop} {fail' : ε → σ → Prop}
    (h : Ensures E x state post fail) (hpost : ∀ value state', post value state' → post' value state')
    (hfail : ∀ error state', fail error state' → fail' error state') :
    Ensures E x state post' fail' := by
  refine Program.wp_mono ?_ h
  intro result state' holds
  cases result with
  | ok value => exact hpost _ _ holds
  | error error => exact hfail _ _ holds

@[simp] theorem ensures_bind (x : Fallible S ε α) (f : α → Fallible S ε β)
    {post : β → σ → Prop} :
    Ensures E (x >>= f) state post fail ↔
      Ensures E x state (fun value state' => Ensures E (f value) state' post fail) fail := by
  unfold Ensures
  rw [ExceptT.run_bind, Program.wp_bind]
  constructor
  · refine Program.wp_mono fun result state' holds => ?_
    cases result <;> exact holds
  · refine Program.wp_mono fun result state' holds => ?_
    cases result <;> exact holds

theorem Ensures.seq {x : Fallible S ε α} {f : α → Fallible S ε β} {post : β → σ → Prop}
    (h : Ensures E x state (fun value state' => Ensures E (f value) state' post fail) fail) :
    Ensures E (x >>= f) state post fail := (ensures_bind x f).mpr h

/-- Every call of the program satisfies `P`. -/
def Uses (P : S.Call → Prop) (x : Fallible S ε α) : Prop := Program.Uses P (ExceptT.run x)

variable {P : S.Call → Prop}

theorem Uses.bind {x : Fallible S ε α} {f : α → Fallible S ε β} (hx : Uses P x)
    (hf : ∀ value, Uses P (f value)) : Uses P (x >>= f) := by
  refine Program.Uses.bind hx fun result => ?_
  cases result with
  | ok value => exact hf value
  | error error => trivial

theorem Uses.ite {p : Prop} [Decidable p] {x y : Fallible S ε α} (hx : Uses P x) (hy : Uses P y) :
    Uses P (if p then x else y) := by
  split
  · exact hx
  · exact hy

theorem Uses.mono {Q : S.Call → Prop} {x : Fallible S ε α} (hx : Uses P x)
    (h : ∀ request, P request → Q request) : Uses Q x := Program.Uses.mono hx h

theorem ensures_of_uses {I : σ → Prop} {x : Fallible S ε α}
    (hI : ∀ request, P request → ∀ state, I state → E.admits request (fun _ => I) state)
    (hx : Uses P x) (hstate : I state) : Ensures E x state (fun _ => I) (fun _ => I) := by
  refine Program.wp_mono (fun result state' h => ?_) (Program.wp_of_uses hI hx hstate)
  cases result <;> exact h

end Fallible

end Semantics
