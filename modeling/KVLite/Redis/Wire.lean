import KVLite.Redis.Server
import KVLite.Semantics.Stream

/-!
# The wire format of the Redis endpoint

`writeRESP` and `readRESP` work on the bytes of a connection: a writer collects the bytes
handed to it, a reader takes bytes from the front of its input. A command arrives as an
array of strings, or as a line of words. `serveRedisConnection` reads one request after
the other and serves each under the protocol mutex of the owner.

The recursion of `readRESP` goes one level deeper for each array or map that it opens, and
`readRESPAt` counts the levels. The count of `readRESP` is the length of the input, which
is never reached because every level has taken a byte.
-/

namespace KVLite.Redis

open Semantics BigEndian

def maxRESPLine : ℕ := 2 ^ 20

/-- The bytes of `"\r\n"`. -/
def crlf : Bytes := [13, 10]

/-! ### Writing -/

/-- What was handed to a writer, and the error that ended the writing. -/
abbrev Written := Bytes × Option GoError

/-- Writes that follow each other up to the first error. -/
def Written.andThen (written next : Written) : Written :=
  match written.2 with
  | none => (written.1 ++ next.1, next.2)
  | some _ => written

/-- The data of a simple string or an error: without CR and LF. -/
def withoutBreaks (data : Bytes) : Bytes := data.filter fun byte => byte ≠ 13 ∧ byte ≠ 10

/-- A type byte, a number and the end of the line. -/
def header (kind : UInt8) (value : ℤ) : Bytes := kind :: formatInt value ++ crlf

mutual

/-- The type bytes are `+`, `-`, `:`, `$`, `*` and `%`. -/
def writeRESP : Resp → Written
  | .simpleString data => (43 :: withoutBreaks data ++ crlf, none)
  | .errorString data => (45 :: withoutBreaks data ++ crlf, none)
  | .integer value => (header 58 value, none)
  | .null => (header 36 (-1), none)
  | .bulk data => (header 36 data.length ++ data ++ crlf, none)
  | .array items => Written.andThen (header 42 items.length, none) (writeItems items)
  | .map items =>
    if items.length % 2 ≠ 0 then
      ([], some (.new (text "redis: map requires key/value pairs")))
    else
      Written.andThen (header 37 (items.length / 2 : ℕ), none) (writeItems items)

def writeItems : List Resp → Written
  | [] => ([], none)
  | item :: items => Written.andThen (writeRESP item) (writeItems items)

end

/-! ### Reading -/

/-- A step of a `bufio.Reader`. -/
abbrev ByteReader (α : Type) := Reader GoError UInt8 α

def eof : GoError := .new (text "EOF")

def unexpectedEOF : GoError := .new (text "unexpected EOF")

/-- `bufio.Reader.ReadByte`. -/
def readByte : ByteReader UInt8
  | [] => .error eof
  | byte :: rest => .ok (byte, rest)

/-- `bufio.Reader.ReadBytes`: the input up to the delimiter, with it. -/
def readBytes (delimiter : UInt8) : ByteReader Bytes
  | [] => .error eof
  | byte :: rest =>
    if byte = delimiter then .ok ([byte], rest)
    else do
      let (line, rest) ← readBytes delimiter rest
      return (byte :: line, rest)

/-- `io.ReadFull` into a buffer of the given length. -/
def readFull (length : ℕ) : ByteReader Bytes := fun input =>
  if length ≤ input.length then .ok (input.take length, input.drop length)
  else if input = [] then .error eof
  else .error unexpectedEOF

def readRESPLine : ByteReader Bytes := do
  let line ← readBytes 10
  if line.length < 2 ∨ (line)[line.length - 2]? ≠ some 13 then
    throw (.new (text "redis: malformed CRLF"))
  else if (line.take (line.length - 2)).length > maxRESPLine then
    throw (.new (text "redis: line too long"))
  else
    return line.take (line.length - 2)

def readRESPLineAfterPrefix (head : UInt8) : ByteReader Bytes := do
  let line ← readRESPLine
  return head :: line

/-- A length; the text of the parse error is left out. -/
def readRESPInt : ByteReader ℤ := do
  let line ← readRESPLine
  match parseDecimal line with
  | some value =>
    if -2 ^ 31 ≤ value ∧ value < 2 ^ 31 then return value
    else throw (.new (text "redis: invalid length"))
  | none => throw (.new (text "redis: invalid length"))

def expectCRLF : ByteReader Unit := do
  let suffix ← readFull 2
  if suffix ≠ crlf then throw (.new (text "redis: malformed bulk terminator")) else return ()

/-- The items of an array or a map; a null item is refused with the given error. -/
def readItems (read : ByteReader Resp) (refusal : GoError) : ℕ → ByteReader (List Resp)
  | 0 => return []
  | count + 1 => do
    match ← read with
    | .null => throw refusal
    | item =>
      let items ← readItems read refusal count
      return item :: items

/-- The items of an array or a map whose header gives a length. -/
def readCounted (read : ByteReader Resp) (name : String) (refusal : GoError) (perCount : ℕ) :
    ByteReader (List Resp) := do
  let count ← readRESPInt
  if count < 0 ∨ count > maxRESPArgs then
    throw (.new (text ("redis: invalid " ++ name ++ " length ") ++ formatInt count))
  else
    readItems read refusal (count.toNat * perCount)

def readBulk : ByteReader Resp := do
  let length ← readRESPInt
  if length = -1 then
    return .null
  else if length < 0 ∨ length > maxRESPBulk then
    throw (.new (text "redis: invalid bulk length " ++ formatInt length))
  else
    let data ← readFull length.toNat
    expectCRLF
    return .bulk data

/-- An integer; the text of the parse error is left out. -/
def readInteger : ByteReader Resp := do
  let line ← readRESPLine
  match parseDecimal line with
  | some value =>
    if IsInt64 value then return .integer value
    else throw (.new (text "redis: invalid integer"))
  | none => throw (.new (text "redis: invalid integer"))

/-- A command line of words, whose first byte has been read; `fields` is `strings.Fields`. -/
def readInline (fields : Bytes → List Bytes) (head : UInt8) : ByteReader Resp := do
  let line ← readRESPLineAfterPrefix head
  let parts := fields line
  if parts.length = 0 ∨ parts.length > maxRESPArgs then
    throw (.new (text "redis: invalid inline command"))
  else
    return .array (parts.map .bulk)

/-- The value after its type byte, with a reader for the values inside it. -/
def readAfter (fields : Bytes → List Bytes) (read : ByteReader Resp) (head : UInt8) : ByteReader Resp :=
  if head = 42 then
    .array <$> readCounted read "array" (.new (text "redis: null command argument")) 1
  else if head = 37 then
    .map <$> readCounted read "map" (.new (text "redis: null map member")) 2
  else if head = 36 then readBulk
  else if head = 43 then .simpleString <$> readRESPLine
  else if head = 45 then .errorString <$> readRESPLine
  else if head = 58 then readInteger
  else readInline fields head

/-- `readRESP` for values of at most the given depth. -/
def readRESPAt (fields : Bytes → List Bytes) : ℕ → ByteReader Resp
  | 0 => throw eof
  | depth + 1 => do
    let head ← readByte
    readAfter fields (readRESPAt fields depth) head

def readRESP (fields : Bytes → List Bytes) : ByteReader Resp := fun input =>
  readRESPAt fields (input.length + 1) input

/-! ### Requests -/

/-- An argument of a command. -/
def redisCommandArg : Resp → Except GoError Bytes
  | .bulk data | .simpleString data => .ok data
  | .integer value => .ok (formatInt value)
  | .null => .error (.new (text "null command argument"))
  | _ => .error (.new (text "command arguments must be strings"))

def redisCommandArgs : Resp → Except GoError (List Bytes)
  | .array (item :: items) => (item :: items).mapM redisCommandArg
  | _ => .error (.new (text "expected a non-empty command array"))

/-- What a connection has sent back, and its session. -/
structure Served where
  replies : List Resp
  session : Session

/-- The reply is sent before what follows. -/
def Served.after (reply : Resp) (served : Served) : Served :=
  { served with replies := reply :: served.replies }

/-- One argument vector, and what follows it in the session. `QUIT` and a panic end the
connection. -/
def serving (mutex : Mutex) (go : GoRuntime) (password : Bytes) (session : Session) (args : List Bytes)
    (next : Session → Program Calls Served) : Program Calls Served := do
  let dispatched ← serveCommand mutex go password session args
  match dispatched.reply with
  | none => return ⟨[], dispatched.session⟩
  | some reply =>
    if dispatched.quit then
      return ⟨[reply], dispatched.session⟩
    else
      let served ← next dispatched.session
      return served.after reply

/-- The argument vectors of one session in turn. -/
def serveCommands (mutex : Mutex) (go : GoRuntime) (password : Bytes) :
    Session → List (List Bytes) → Program Calls Served
  | session, [] => return ⟨[], session⟩
  | session, args :: requests =>
    serving mutex go password session args fun session =>
      serveCommands mutex go password session requests

/-- The request loop of a connection; every request takes a byte of the input. -/
def serveRequests (mutex : Mutex) (go : GoRuntime) (fields : Bytes → List Bytes) (password : Bytes) :
    ℕ → Session → Bytes → Program Calls Served
  | 0, session, _ => return ⟨[], session⟩
  | bound + 1, session, input =>
    match readRESP fields input with
    | .error _ => return ⟨[], session⟩
    | .ok (request, rest) =>
      match redisCommandArgs request with
      | .error err => do
        let served ← serveRequests mutex go fields password bound session rest
        return served.after (.errorString (text "ERR " ++ err.message))
      | .ok args =>
        serving mutex go password session args fun session =>
          serveRequests mutex go fields password bound session rest

def serveRedisConnection (mutex : Mutex) (go : GoRuntime) (fields : Bytes → List Bytes)
    (password : Bytes) (session : Session) (input : Bytes) : Program Calls Served :=
  serveRequests mutex go fields password (input.length + 1) session input

end KVLite.Redis
