import KVLite.Core.Transport

/-!
# The HTTP owner

The handlers of the HTTP server that the remote engine talks to, each on the owner's
handle. A handler either answers or fails with a status and a message. Keys and names
arrive decoded from base64, which delivers bytes exactly. The request size limit is the
option `MaxRequestBytes` of the server; JSON bodies are taken to be below it.
-/

namespace KVLite.Http

open Semantics

/-- An error response. -/
structure HttpError where
  status : ℕ
  message : Bytes
  deriving DecidableEq, Repr

/-- A handler: a program that answers or fails. -/
abbrev Handling (α : Type) : Type := Fallible Calls HttpError α

def badRequest : ℕ := 400
def notFound : ℕ := 404
def requestEntityTooLarge : ℕ := 413
def internalServerError : ℕ := 500

/-- The result of a database operation, whose error becomes a response. -/
def orFail {α : Type} (status : ℕ) (x : Action α) : Handling α :=
  ExceptT.mk do
    let result ← ExceptT.run x
    return result.mapError fun err => ⟨status, err.message⟩

/-- The Go result of a counted operation as a response. -/
def countedOrFail (p : Program Calls Counted) : Handling ℕ :=
  ExceptT.mk do
    match ← p with
    | (count, none) => return .ok count
    | (_, some err) => return .error ⟨internalServerError, err.message⟩

/-- Reading a body to its end through `http.MaxBytesReader`. -/
def readBody (limit : ℕ) (refusal : String) (body : Bytes) : Handling Unit :=
  if limit < body.length then throw ⟨requestEntityTooLarge, text refusal⟩ else return ()

variable {V T : Type} (limit : ℕ) (db : DB V T)

/-- `GET /v1/kv/{key}`. -/
def getRecord (key : Bytes) : Handling Bytes := do
  match ← orFail internalServerError (withLock db.protocolMu (Transport.get key)) with
  | none => throw ⟨notFound, text "not found"⟩
  | some value => return value

/-- `PUT /v1/kv/{key}`. -/
def putRecord (key value : Bytes) : Handling Unit := do
  readBody limit "invalid or oversized body" value
  orFail internalServerError (Transport.put key value)

/-- `DELETE /v1/kv/{key}`. -/
def deleteRecord (key : Bytes) : Handling Unit :=
  orFail internalServerError (Transport.delete key)

/-- `GET /v1/scan`. -/
def scanRecordsUnder (pre : Bytes) : Handling (List (Bytes × Bytes)) :=
  orFail internalServerError (Transport.scanAll pre)

/-- `PUT /v1/logical/{key}`. -/
def putLogical (key encoded : Bytes) : Handling Unit :=
  if key = [] then
    throw ⟨badRequest, text "invalid key"⟩
  else do
    readBody limit "invalid or oversized value" encoded
    match unmarshalEnvelope encoded with
    | .error _ => throw ⟨badRequest, text "invalid value envelope"⟩
    | .ok _ =>
      orFail internalServerError <| withLock db.protocolMu do
        let _ ← Transport.deleteLogicalKey key
        Transport.put (valueKey key) encoded

/-- `POST /v1/list/{key}/push`. -/
def pushList (key body : Bytes) (left : Bool) : Handling ℕ := do
  readBody limit "invalid or oversized body" body
  match decodeList body with
  | .error err => throw ⟨badRequest, err.message⟩
  | .ok items =>
    orFail internalServerError (Transport.pushList db key items left)

/-- The items of a decoded JSON body; `null` is refused. -/
def readStringItems (refusal : String) (items : Variadic) : Handling (List Bytes) :=
  match items with
  | none => throw ⟨badRequest, text refusal⟩
  | some items => return items

/-- `POST /v1/set/add`. -/
def addSet (name : Bytes) (items : Variadic) : Handling ℕ := do
  let members ← readStringItems "invalid or oversized members" items
  countedOrFail (db.sAdd name (some members))

/-- `POST /v1/set/remove`. -/
def removeSet (name : Bytes) (items : Variadic) : Handling ℕ := do
  let members ← readStringItems "invalid or oversized members" items
  countedOrFail (db.sRemove name (some members))

/-- `POST /v1/hash/delete`. -/
def deleteHashFields (name : Bytes) (items : Variadic) : Handling ℕ := do
  let fields ← readStringItems "invalid or oversized fields" items
  countedOrFail (db.hDelete name (some fields))

end KVLite.Http
