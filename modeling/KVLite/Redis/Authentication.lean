import KVLite.Redis.Wire
import KVLite.Core.Requests

/-!
# Sessions without the password

With a password configured, a session that has not presented it gets every reply without
a look at the store or the clock. Only the two places where a password is compared can
change that, and a session whose passwords are all wrong stays as it is.
-/

namespace KVLite.Redis

open Semantics

/-- The passwords that the `AUTH` options of `HELLO` carry, up to the first option that is
not one. -/
def helloPasswords (go : GoRuntime) : List Bytes → List Bytes
  | [] => []
  | option :: rest =>
    if go.toUpper option = text "AUTH" then
      match rest with
      | _ :: supplied :: rest => supplied :: helloPasswords go rest
      | _ => []
    else if go.toUpper option = text "SETNAME" then
      match rest with
      | _ :: rest => helloPasswords go rest
      | [] => []
    else
      []

/-- The passwords that a request carries. -/
def suppliedPasswords (go : GoRuntime) (args : List Bytes) : List Bytes :=
  let command := go.toUpper (args.headD [])
  if command = text "HELLO" then helloPasswords go (args.drop 2)
  else if command = text "AUTH" then
    match args with
    | [_, supplied] | [_, _, supplied] => [supplied]
    | _ => []
  else []

/-- A password is configured, the session has not presented it, and the request does not
carry it. -/
structure LockedOut (go : GoRuntime) (password : Bytes) (session : Session) (args : List Bytes) : Prop where
  configured : password ≠ []
  unauthenticated : session.authed = false
  wrong : password ∉ suppliedPasswords go args

section Dispatch

variable {go : GoRuntime} {password : Bytes} {session : Session} {args : List Bytes}

/-- The option loop of `HELLO` leaves the session as it is. -/
theorem redisHelloOptions_snd {options : List Bytes} (h : password ∉ helloPasswords go options) :
    (redisHelloOptions go password session options).2 = session := by
  fun_induction redisHelloOptions go password session options with
  | case3 session option hauth user supplied rest hright ih =>
    -- The password of this option was found right.
    rw [helloPasswords, if_pos hauth, List.mem_cons, not_or] at h
    rw [not_or, not_not] at hright
    exact absurd hright.2.symm h.1
  | case5 session option hauth hname value rest ih =>
    refine ih ?_
    unfold helloPasswords at h
    rwa [if_neg hauth, if_pos hname] at h
  | _ => rfl

theorem redisHello_snd (hpassword : password ≠ []) (hsession : session.authed = false)
    (h : password ∉ helloPasswords go (args.drop 2)) :
    (redisHello go args password session).2 = session := by
  have hoptions : (redisHelloOptions go password session (args.drop 2)).2 = session :=
    redisHelloOptions_snd h
  unfold redisHello
  dsimp only
  split
  · rfl
  · split
    · next hreply => rwa [hreply] at hoptions
    · next session' hnone =>
      rw [hnone] at hoptions
      subst hoptions
      rw [if_pos ⟨hpassword, by rw [hsession]; decide⟩]

theorem redisAuth_snd (hpassword : password ≠ []) (hcommand : go.toUpper (args.headD []) = text "AUTH")
    (h : password ∉ suppliedPasswords go args) : (redisAuth args password session).2 = session := by
  have hhello : go.toUpper (args.headD []) ≠ text "HELLO" := by
    rw [hcommand]
    decide
  unfold suppliedPasswords at h
  dsimp only at h
  rw [if_neg hhello, if_pos hcommand] at h
  unfold redisAuth
  rw [if_neg hpassword]
  -- `AUTH` carries a password with one or two arguments.
  split
  · rw [if_neg (Ne.symm (List.ne_of_not_mem_cons h))]
  · rw [if_neg (Ne.symm (List.ne_of_not_mem_cons h))]
  · rfl

/-- The dispatch of a request of such a session makes no call and keeps the session. -/
theorem LockedOut.redisDispatch_eq (h : LockedOut go password session args) :
    ∃ reply quit, redisDispatch go password session args = return ⟨some reply, quit, session⟩ := by
  obtain ⟨hpassword, hsession, hwrong⟩ := h
  have hclosed : password ≠ [] ∧ ¬ session.authed = true := ⟨hpassword, by rw [hsession]; decide⟩
  unfold redisDispatch
  dsimp only
  by_cases hhello : go.toUpper (args.headD []) = text "HELLO"
  · rw [if_pos hhello]
    have hoptions : password ∉ helloPasswords go (args.drop 2) := by
      unfold suppliedPasswords at hwrong
      dsimp only at hwrong
      rwa [if_pos hhello] at hwrong
    have hsame := redisHello_snd hpassword hsession hoptions
    exact ⟨_, _, by rw [hsame]⟩
  · rw [if_neg hhello]
    by_cases hauth : go.toUpper (args.headD []) = text "AUTH"
    · rw [if_pos hauth]
      have hsame : (redisAuth args password session).2 = session := redisAuth_snd hpassword hauth hwrong
      exact ⟨_, _, by rw [hsame]⟩
    · rw [if_neg hauth]
      rw [if_pos hclosed]
      split
      · exact ⟨_, _, rfl⟩
      · exact ⟨_, _, rfl⟩

end Dispatch

/-! ### Whole sessions -/

section Sessions

variable {go : GoRuntime} {password : Bytes} {session : Session} (mutex : Mutex)

/-- A program that takes and releases the mutex around a value has this value in every run. -/
theorem run_locked_pure {α : Type} (clock : ℕ → ℤ) (value : α) (st : ℕ × Store) :
    (locked mutex (return value)).run (ticking clock) st = (value, st) := rfl

/-- A session without the password gets the same replies in every run, and neither reads
nor writes anything. -/
theorem run_serveCommands_of_lockedOut {requests : List (List Bytes)}
    (h : ∀ args ∈ requests, LockedOut go password session args) :
    ∃ replies, ∀ clock st,
      (serveCommands mutex go password session requests).run (ticking clock) st =
        (⟨replies, session⟩, st) := by
  induction requests with
  | nil => exact ⟨[], fun _ _ => rfl⟩
  | cons args requests ih =>
    rw [List.forall_mem_cons] at h
    obtain ⟨reply, quit, hdispatch⟩ := h.1.redisDispatch_eq
    obtain ⟨replies, hrest⟩ := ih h.2
    have hserve : ∀ clock st, (serveCommand mutex go password session args).run (ticking clock) st =
        (⟨some reply, quit, session⟩, st) := by
      intro clock st
      rw [serveCommand, hdispatch]
      exact run_locked_pure mutex clock _ st
    cases quit with
    | true =>
      refine ⟨[reply], fun clock st => ?_⟩
      rw [serveCommands, serving, Program.run_bind, hserve]
      rfl
    | false =>
      refine ⟨reply :: replies, fun clock st => ?_⟩
      rw [serveCommands, serving, Program.run_bind, hserve]
      show Program.run (ticking clock) (do
        let served ← serveCommands mutex go password session requests
        return served.after reply) st = _
      rw [Program.run_bind, hrest]
      rfl

end Sessions

/-- With a password configured, a session that never presents it gets the same replies
over any two stores and under any two clocks, changes neither store and stays
unauthenticated after every request. -/
theorem unauthenticated_learns_nothing (mutex : Mutex) (go : GoRuntime) (password : Bytes)
    (hpassword : password ≠ []) (session : Session) (hsession : session.authed = false)
    (requests : List (List Bytes)) (hwrong : ∀ args ∈ requests, password ∉ suppliedPasswords go args) :
    (∀ (clock clock' : ℕ → ℤ) (tick tick' : ℕ) (s s' : Store),
      let run := (serveCommands mutex go password session requests).run (ticking clock) (tick, s)
      let run' := (serveCommands mutex go password session requests).run (ticking clock') (tick', s')
      run.1.replies = run'.1.replies ∧ run.2.2 = s ∧ run'.2.2 = s') ∧
    ∀ served, served <+: requests → ∀ (clock : ℕ → ℤ) (tick : ℕ) (s : Store),
      ((serveCommands mutex go password session served).run (ticking clock) (tick, s)).1.session.authed =
        false := by
  have hlocked : ∀ args ∈ requests, LockedOut go password session args :=
    fun args hargs => ⟨hpassword, hsession, hwrong args hargs⟩
  constructor
  · intro clock clock' tick tick' s s'
    obtain ⟨replies, hrun⟩ := run_serveCommands_of_lockedOut mutex hlocked
    simp only [hrun, and_self]
  · intro served hserved clock tick s
    obtain ⟨replies, hrun⟩ := run_serveCommands_of_lockedOut mutex
      fun args hargs => hlocked args (hserved.subset hargs)
    rw [hrun]
    exact hsession

/-- A wrong password, a command, and `HELLO` with a wrong password. -/
def threeRequests : List (List Bytes) :=
  [[text "AUTH", text "p"], [text "GET", text "k"],
    [text "HELLO", text "3", text "AUTH", text "u", text "x"]]

/-- Over an empty store, and over one with the key at another time, the replies are the same. -/
theorem three_requests_learn_nothing :
    let serve := serveCommands ⟨0, .protocolMu⟩ .upperCase (text "pw") ⟨false, 1, 2⟩ threeRequests
    let s := (∅ : Store).insert (valueKey (text "k")) (bytesRecord (text "v") 0)
    (serve.run (ticking fun _ => 0) (0, ∅)).1.replies =
        (serve.run (ticking fun _ => 1) (3, s)).1.replies ∧
      (serve.run (ticking fun _ => 0) (0, ∅)).2.2 = ∅ ∧ (serve.run (ticking fun _ => 1) (3, s)).2.2 = s ∧
      (serve.run (ticking fun _ => 1) (3, s)).1.session.authed = false :=
  have h := unauthenticated_learns_nothing ⟨0, .protocolMu⟩ .upperCase (text "pw") (by decide)
    ⟨false, 1, 2⟩ rfl threeRequests (by decide)
  have hruns := h.1 (fun _ => 0) (fun _ => 1) 0 3 ∅ _
  ⟨hruns.1, hruns.2.1, hruns.2.2, h.2 _ List.prefix_rfl (fun _ => 1) 3 _⟩

end KVLite.Redis
