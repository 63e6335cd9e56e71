import KVLite.Http.Transparency
import KVLite.Keyspace.Stored
import KVLite.Redis.Wire

/-!
# A Redis server on a remote handle

`ServeRemote` runs the Redis commands on a handle from `Connect`: every record operation
of a command is a request to the HTTP owner. The commands ask only for operations on single
records and for scans, and these travel as they are, so one client at a time sees the server
that `Serve` would run at the owner, as long as the records written stay within the
request size limit of the owner.
-/

namespace KVLite.Http

open Semantics Redis

instance : Passive Call.Simple := ⟨Call.Simple.of_ofReader⟩

/-- No command asks for an owner-side operation. -/
theorem simple_redisCommand (go : GoRuntime) (session : Session) (args : List Bytes)
    (command : Command) : (redisCommand go session args command).Uses Call.Simple := by
  cases hlist : command.writesList with
  | false =>
    refine uses_redisCommand go session ⟨?_, ?_, ?_, ?_⟩ hlist <;> intros <;> trivial
  | true => exact uses_listCommand go session (fun _ _ _ => trivial) hlist

theorem simple_redisDispatch (go : GoRuntime) (password : Bytes) (session : Session)
    (args : List Bytes) : (redisDispatch go password session args).Uses Call.Simple := by
  unfold redisDispatch
  dsimp only
  iterate 5
    split
    · trivial
  exact (simple_redisCommand go session args _).bind fun _ => trivial

section Serving

variable (mutex mutex' : Mutex) (go : GoRuntime) (password : Bytes)

theorem simple_serving (session : Session) (args : List Bytes)
    {next : Session → Program Calls Served} (hnext : ∀ session, (next session).Uses Call.Simple) :
    (serving mutex go password session args next).Uses Call.Simple := by
  refine (simple_redisDispatch go password session args).locked.bind fun dispatched => ?_
  split
  · trivial
  · split
    · trivial
    · exact (hnext _).bind fun _ => trivial

theorem simple_serveRequests (fields : Bytes → List Bytes) (bound : ℕ) (session : Session)
    (input : Bytes) :
    (serveRequests mutex go fields password bound session input).Uses Call.Simple := by
  induction bound generalizing session input with
  | zero => trivial
  | succ bound ih =>
    unfold serveRequests
    split
    · trivial
    · split
      · exact (ih _ _).bind fun _ => trivial
      · exact simple_serving mutex go password session _ fun _ => ih _ _

variable {clock : ℕ → ℤ}

/-- One connection at a time never waits for the mutex it takes. -/
theorem run_serving_congr (session : Session) (args : List Bytes)
    {next next' : Session → Program Calls Served}
    (hnext : ∀ session st, (next session).run (ticking clock) st = (next' session).run (ticking clock) st)
    (st : ℕ × Store) :
    (serving mutex go password session args next).run (ticking clock) st =
      (serving mutex' go password session args next').run (ticking clock) st := by
  unfold serving serveCommand
  rw [Program.run_bind, Program.run_bind, run_ticking_locked, run_ticking_locked]
  split
  · rfl
  · split
    · rfl
    · rw [Program.run_bind, Program.run_bind, hnext]

theorem run_serveRequests_congr (fields : Bytes → List Bytes) (bound : ℕ) (session : Session)
    (input : Bytes) (st : ℕ × Store) :
    (serveRequests mutex go fields password bound session input).run (ticking clock) st =
      (serveRequests mutex' go fields password bound session input).run (ticking clock) st := by
  induction bound generalizing session input st with
  | zero => rfl
  | succ bound ih =>
    unfold serveRequests
    split
    · rfl
    · split
      · rw [Program.run_bind, Program.run_bind, ih]
      · exact run_serving_congr _ _ _ _ _ _ (fun _ _ => ih _ _ _) st

end Serving

/-- Whatever bytes a client sends to a server on a remote handle, unless a command writes a
record above the request size limit: the replies, the session and the owner's records are
those of a server at the owner. -/
theorem redis_over_http_behaves_like_owner {V T : Type} (limit : ℕ) (owner client : DB V T)
    (clock : ℕ → ℤ) (go : GoRuntime) (fields : Bytes → List Bytes) (password : Bytes)
    (session : Session) (input : Bytes) (st : ℕ × Store)
    (hfits : (serveRedisConnection client.protocolMu go fields password session input).Asks
      (ticking clock) (Call.Fits limit) st) :
    (remotely limit owner (serveRedisConnection client.protocolMu go fields password session
        input)).run (ticking clock) st =
      (serveRedisConnection owner.protocolMu go fields password session input).run
        (ticking clock) st := by
  rw [run_remotely]
  exact (run_overHttp_of_simple limit owner clock st (simple_serveRequests ..) hfits).trans
    (run_serveRequests_congr ..)

/-- `SET k ab` and `GET k`, with a limit that the record of `ab` just meets. -/
theorem redis_over_http_set_get :
    (remotely 21 (bytesHandle 0) (serveRedisConnection (bytesHandle 1).protocolMu .upperCase
        (fun _ => []) [] ⟨true, 1, 2⟩
        (text "*3\r\n$3\r\nSET\r\n$1\r\nk\r\n$2\r\nab\r\n*2\r\n$3\r\nGET\r\n$1\r\nk\r\n"))).run
        (ticking fun _ => 0) (0, ∅) =
      (serveRedisConnection (bytesHandle 0).protocolMu .upperCase (fun _ => []) [] ⟨true, 1, 2⟩
        (text "*3\r\n$3\r\nSET\r\n$1\r\nk\r\n$2\r\nab\r\n*2\r\n$3\r\nGET\r\n$1\r\nk\r\n")).run
        (ticking fun _ => 0) (0, ∅) :=
  redis_over_http_behaves_like_owner 21 (bytesHandle 0) (bytesHandle 1) (fun _ => 0) .upperCase
    (fun _ => []) [] ⟨true, 1, 2⟩ _ (0, ∅) (by decide +kernel)

end KVLite.Http
