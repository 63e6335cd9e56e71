import KVLite.Redis.Authentication
import KVLite.Replies.Errors

/-!
# Handshakes that fail

`AUTH` compares one password and changes the session last. `HELLO` works through its options
one after the other: an `AUTH` option with the right password authenticates the session at
once, and an option after it can still fail the whole command.
-/

namespace KVLite.Redis

open Semantics

/-- The two commands that authenticate a session. -/
inductive Handshake
  | auth
  | hello

namespace Handshake

def run (go : GoRuntime) (args : List Bytes) (password : Bytes) (session : Session) :
    Handshake → Resp × Session
  | auth => redisAuth args password session
  | hello => redisHello go args password session

/-- `HELLO` with a protocol version that is supported authenticates the session: the first of
its options that carries a password carries the right one. -/
def Authenticates (go : GoRuntime) (args : List Bytes) (password : Bytes) (session : Session) :
    Handshake → Prop
  | auth => False
  | hello => (args.drop 1).headD (text "2") ∈ [text "2", text "3"] ∧ password ≠ [] ∧
    (helloPasswords go (args.drop 2)).head? = some password ∧ session.authed = false

end Handshake

section Options

variable {go : GoRuntime} {password : Bytes}

/-- Only the first password counts: where it is wrong the loop ends. -/
theorem redisHelloOptions_snd_eq (session : Session) (options : List Bytes) :
    (redisHelloOptions go password session options).2 =
      if password ≠ [] ∧ (helloPasswords go options).head? = some password then
        { session with authed := true }
      else session := by
  have hnone : ∀ {options : List Bytes}, helloPasswords go options = [] →
      ¬ (password ≠ [] ∧ (helloPasswords go options).head? = some password) := by
    rintro options hnil ⟨-, hhead⟩
    rw [hnil] at hhead
    cases hhead
  fun_induction redisHelloOptions go password session options with
  | case1 session => exact (if_neg (hnone rfl)).symm
  | case2 session option hauth user supplied rest hwrong =>
    rw [helloPasswords, if_pos hauth, if_neg]
    rintro ⟨hpassword, hhead⟩
    exact hwrong.elim hpassword fun hne => hne (Option.some.inj hhead)
  | case3 session option hauth user supplied rest hright ih =>
    -- The session is authenticated, and stays so to the end of the loop.
    obtain ⟨hpassword, hsupplied⟩ := not_or.mp hright
    have hhead : password ≠ [] ∧
        (helloPasswords go (option :: user :: supplied :: rest)).head? = some password := by
      rw [helloPasswords, if_pos hauth]
      exact ⟨hpassword, congrArg some (not_not.mp hsupplied)⟩
    rw [ih, if_pos hhead]
    split <;> rfl
  | case4 session option rest hauth hshort =>
    refine (if_neg (hnone ?_)).symm
    rw [helloPasswords.eq_def]
    dsimp only
    rw [if_pos hauth]
    split
    · next user supplied rest => exact absurd rfl (hshort user supplied rest)
    · rfl
  | case5 session option hauth hname value rest ih =>
    have hrest : helloPasswords go (option :: value :: rest) = helloPasswords go rest := by
      rw [helloPasswords.eq_def]
      dsimp only
      rw [if_neg hauth, if_pos hname]
    simp only [ih, hrest]
  | case6 session option hauth hname =>
    refine (if_neg (hnone ?_)).symm
    rw [helloPasswords.eq_def]
    dsimp only
    rw [if_neg hauth, if_pos hname]
  | case7 session option rest hauth hname =>
    refine (if_neg (hnone ?_)).symm
    rw [helloPasswords.eq_def]
    dsimp only
    rw [if_neg hauth, if_neg hname]

/-- `AUTH` changes the session last. -/
theorem redisAuth_snd_of_isError {args : List Bytes} {session : Session}
    (herror : (redisAuth args password session).1.IsError) :
    (redisAuth args password session).2 = session := by
  have hcompare : ∀ supplied : Bytes,
      (if supplied = password then (ok, { session with authed := true })
        else (wrongPass, session) : Resp × Session).1.IsError →
      (if supplied = password then (ok, { session with authed := true })
        else (wrongPass, session) : Resp × Session).2 = session := by
    intro supplied
    split
    · exact False.elim
    · exact fun _ => rfl
  unfold redisAuth at herror ⊢
  split
  · rfl
  · next hpassword =>
    rw [if_neg hpassword] at herror
    split
    · exact hcompare _ herror
    · exact hcompare _ herror
    · rfl

/-- `HELLO` ends with the session that its options have left, and sets the protocol version
only when it succeeds. -/
theorem redisHello_snd_of_isError {args : List Bytes} {session : Session}
    (herror : (redisHello go args password session).1.IsError) :
    (redisHello go args password session).2 =
      if (args.drop 1).headD (text "2") ∈ [text "2", text "3"] then
        (redisHelloOptions go password session (args.drop 2)).2
      else session := by
  unfold redisHello at herror ⊢
  dsimp only at herror ⊢
  by_cases hversion : (args.drop 1).headD (text "2") ∈ [text "2", text "3"]
  · have hknown : ¬ ((args.drop 1).headD (text "2") ≠ text "2" ∧
        (args.drop 1).headD (text "2") ≠ text "3") := by
      rw [List.mem_pair] at hversion
      exact fun h => hversion.elim h.1 h.2
    rw [if_neg hknown] at herror ⊢
    rw [if_pos hversion]
    rcases hoptions : redisHelloOptions go password session (args.drop 2) with ⟨_ | reply, session'⟩
    · rw [hoptions] at herror
      dsimp only at herror ⊢
      split
      · rfl
      · next hopen =>
        rw [if_neg hopen] at herror
        split at herror <;> exact herror.elim
    · rfl
  · have hunknown : (args.drop 1).headD (text "2") ≠ text "2" ∧
        (args.drop 1).headD (text "2") ≠ text "3" := by
      simpa [List.mem_pair, not_or] using hversion
    rw [if_pos hunknown, if_neg hversion]

end Options

/-- For every password, session and argument vector: a handshake that replies with an error
leaves the session's authentication and protocol version as they were, if and only if it is
not a `HELLO` one of whose options has authenticated the session. -/
theorem failed_handshake_keeps_session_iff {handshake : Handshake} {go : GoRuntime}
    {password name : Bytes} {rest : List Bytes} {session : Session}
    (herror : (handshake.run go (name :: rest) password session).1.IsError) :
    ((handshake.run go (name :: rest) password session).2.authed = session.authed ∧
        (handshake.run go (name :: rest) password session).2.proto = session.proto) ↔
      ¬ handshake.Authenticates go (name :: rest) password session := by
  cases handshake with
  | auth =>
    have hsame : (Handshake.auth.run go (name :: rest) password session).2 = session :=
      redisAuth_snd_of_isError herror
    rw [hsame]
    exact iff_of_true ⟨rfl, rfl⟩ id
  | hello =>
    have hafter : (Handshake.hello.run go (name :: rest) password session).2 = _ :=
      redisHello_snd_of_isError herror
    rw [hafter, redisHelloOptions_snd_eq, Handshake.Authenticates]
    by_cases hversion : ((name :: rest).drop 1).headD (text "2") ∈ [text "2", text "3"]
    swap
    · rw [if_neg hversion]
      exact iff_of_true ⟨rfl, rfl⟩ fun h => hversion h.1
    rw [if_pos hversion, and_iff_right hversion]
    split
    · next hright =>
      rw [and_iff_right hright.1, and_iff_right hright.2, Bool.not_eq_false]
      exact ⟨fun h => h.1.symm, fun h => ⟨h.symm, rfl⟩⟩
    · next hwrong => exact iff_of_true ⟨rfl, rfl⟩ fun h => hwrong ⟨h.1, h.2.1⟩

/-- The option after the right password is not one of `HELLO`: the reply is an error, and the
session is authenticated. -/
theorem failed_hello_authenticates :
    Handshake.hello.run .upperCase
        [text "HELLO", text "3", text "AUTH", text "default", text "pw", text "BOGUS"] (text "pw")
        ⟨false, 1, 2⟩ =
      (redisSyntaxError, ⟨true, 1, 2⟩) := rfl

/-- The password is wrong. -/
theorem failed_hello_keeps_session :
    (Handshake.hello.run .upperCase
        [text "HELLO", text "3", text "AUTH", text "default", text "no"] (text "pw")
        ⟨false, 1, 2⟩).2.authed = false ∧
      (Handshake.hello.run .upperCase
        [text "HELLO", text "3", text "AUTH", text "default", text "no"] (text "pw")
        ⟨false, 1, 2⟩).2.proto = 2 := by
  have herror : (Handshake.hello.run .upperCase
      [text "HELLO", text "3", text "AUTH", text "default", text "no"] (text "pw")
      ⟨false, 1, 2⟩).1.IsError := trivial
  exact (failed_handshake_keeps_session_iff herror).mpr fun h => absurd h.2.2.1 (by decide)

end KVLite.Redis
