import KVLite.Http.Server
import KVLite.Http.Utf8

/-!
# The remote engine

A handle from `Connect` runs the same database code over an engine whose every call
is one HTTP request. `remote` replaces each engine call of the handle by the owner's
handler for that request and turns the response into the answer of the call. Strings
of sets and hashes travel as JSON, everything else as raw bytes.
-/

namespace KVLite.Http

open Semantics

/-- The status line of an error response. -/
def statusText (status : ℕ) : Bytes :=
  if status = badRequest then text "400 Bad Request"
  else if status = notFound then text "404 Not Found"
  else if status = requestEntityTooLarge then text "413 Request Entity Too Large"
  else text "500 Internal Server Error"

def remoteStatusError (response : HttpError) : GoError :=
  .new (text "kvlite: remote returned " ++ statusText response.status ++ text ": " ++
    response.message)

def remoteMutationError (operation : String) (response : HttpError) : GoError :=
  if response.status = notFound then
    .detail .moduleIncompatible (text "HTTP owner does not support atomic " ++ text operation ++
      text "; upgrade its HTTP extension")
  else
    remoteStatusError response

/-- The response to a request as the answer of an engine call. -/
def responseOr {α : Type} (toError : HttpError → GoError) (x : Handling α) :
    Program Calls (Except GoError α) := do
  let response ← ExceptT.run x
  return response.mapError toError

/-- A string array after its trip through `encoding/json`: invalid UTF-8 is replaced
and a nil slice arrives as `null`. -/
def throughJson (items : Variadic) : Variadic := items.map (·.map toValidUtf8)

variable {V T : Type} (limit : ℕ) (owner : DB V T)

/-- The engine calls of a remote handle as requests to the owner. The handle's clock,
its mutexes and its closed flag are its own. -/
def remote : (request : Call) → Program Calls request.Answer
  | .get key => do
    match ← ExceptT.run (getRecord owner key) with
    | .ok value => return .ok (some value)
    | .error response =>
      if response.status = notFound then return .ok none
      else return .error (remoteStatusError response)
  | .put key value => responseOr remoteStatusError (putRecord limit key value)
  | .delete key => responseOr remoteStatusError (deleteRecord key)
  | .scanPrefix pre => do
    match ← ExceptT.run (scanRecordsUnder pre) with
    | .ok records => return (records, none)
    | .error response => return ([], some (remoteStatusError response))
  | .pushList key items left =>
    responseOr (remoteMutationError "list push") (pushList limit owner key (encodeList items) left)
  | .addSet name members =>
    responseOr (remoteMutationError "set add") (addSet owner name (throughJson members))
  | .removeSet name members =>
    responseOr (remoteMutationError "set remove") (removeSet owner name (throughJson members))
  | .deleteHashFields name fields =>
    responseOr (remoteMutationError "hash delete")
      (deleteHashFields owner name (throughJson fields))
  | .replaceLogicalValue key encoded =>
    responseOr (remoteMutationError "logical replacement") (putLogical limit owner key encoded)
  | .ensureOpen => return .ok ()
  | .now => Program.perform (S := Calls) .now
  | .lock mutex => Program.perform (S := Calls) (.lock mutex)
  | .unlock mutex => Program.perform (S := Calls) (.unlock mutex)

/-- An operation of a remote handle, as the owner executes its requests. -/
def remotely {α : Type} (p : Program Calls α) : Program Calls α := p.translate (remote limit owner)

end KVLite.Http
