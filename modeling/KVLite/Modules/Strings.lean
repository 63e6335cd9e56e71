import KVLite.Core.Errors

/-!
# Names and paths

The functions of the Go standard library that module discovery uses on names, path lists
and slash-separated paths.
-/

namespace KVLite.Modules

/-- The UTF-8 encodings of the characters that `unicode.IsSpace` accepts. -/
def spaces : List Bytes :=
  [[0x09], [0x0A], [0x0B], [0x0C], [0x0D], [0x20], [0xC2, 0x85], [0xC2, 0xA0], [0xE1, 0x9A, 0x80],
    [0xE2, 0x80, 0x80], [0xE2, 0x80, 0x81], [0xE2, 0x80, 0x82], [0xE2, 0x80, 0x83], [0xE2, 0x80, 0x84],
    [0xE2, 0x80, 0x85], [0xE2, 0x80, 0x86], [0xE2, 0x80, 0x87], [0xE2, 0x80, 0x88], [0xE2, 0x80, 0x89],
    [0xE2, 0x80, 0x8A], [0xE2, 0x80, 0xA8], [0xE2, 0x80, 0xA9], [0xE2, 0x80, 0xAF], [0xE2, 0x81, 0x9F],
    [0xE3, 0x80, 0x80]]

/-- At most `fuel` characters are trimmed. -/
def trimLeft : ℕ → Bytes → Bytes
  | 0, s => s
  | fuel + 1, s =>
    match spaces.find? (·.isPrefixOf s) with
    | some space => trimLeft fuel (s.drop space.length)
    | none => s

def trimRight : ℕ → Bytes → Bytes
  | 0, s => s
  | fuel + 1, s =>
    match spaces.find? (·.isSuffixOf s) with
    | some space => trimRight fuel (s.take (s.length - space.length))
    | none => s

def trimSpace (s : Bytes) : Bytes :=
  let left := trimLeft s.length s
  trimRight left.length left

def lowerByte (byte : UInt8) : UInt8 := if 0x41 ≤ byte ∧ byte ≤ 0x5A then byte + 0x20 else byte

/-- The characters with a lower case in ASCII: the capital letters, the dotted capital I and
the Kelvin sign. All others are left as they are; what this function is applied to is then
checked to be ASCII. -/
def toLower : Bytes → Bytes
  | first :: second :: third :: rest =>
    if first = 0xC4 ∧ second = 0xB0 then 0x69 :: toLower (third :: rest)
    else if first = 0xE2 ∧ second = 0x84 ∧ third = 0xAA then 0x6B :: toLower rest
    else lowerByte first :: toLower (second :: third :: rest)
  | [first, second] =>
    if first = 0xC4 ∧ second = 0xB0 then [0x69] else [lowerByte first, lowerByte second]
  | [first] => [lowerByte first]
  | [] => []

/-- A lower-case letter, a digit, or one of `-`, `_` and `.`. -/
def canonicalByte (byte : UInt8) : Bool :=
  (0x61 ≤ byte && byte ≤ 0x7A) || (0x30 ≤ byte && byte ≤ 0x39) || byte = 0x2D || byte = 0x5F || byte = 0x2E

/-- `normalizeModuleName` and `normalizeDriverName`: the canonical form of a name, or the
error `required` or `unsupported`. -/
def normalizeName (required unsupported : GoError) (name : Bytes) : Except GoError Bytes :=
  let canonical := toLower (trimSpace name)
  if canonical = [] then .error required
  else if canonical.all canonicalByte then .ok canonical
  else .error unsupported

def normalizeModuleName : Bytes → Except GoError Bytes :=
  normalizeName (.detail .moduleManifestInvalid (text "module name is required"))
    (.detail .moduleManifestInvalid (text "module name contains an unsupported character"))

def parseDriverName : Bytes → Except GoError Bytes :=
  normalizeName (.detail .invalidArgument (text "storage driver is required"))
    (.detail .invalidArgument (text "storage driver contains an unsupported character"))

/-! ### Paths -/

/-- `filepath.SplitList` with a colon as list separator. -/
def splitList (list : Bytes) : List Bytes := if list = [] then [] else list.splitOn 0x3A

/-- One component of a path; the components so far are kept in reverse. -/
def cleanComponent (rooted : Bool) (stack : List Bytes) (component : Bytes) : List Bytes :=
  if component = [] ∨ component = text "." then stack
  else if component = text ".." then
    match stack with
    | top :: rest => if top = text ".." then component :: stack else rest
    | [] => if rooted then [] else [component]
  else component :: stack

/-- `path.Clean`. -/
def clean (path : Bytes) : Bytes :=
  let rooted := path.head? == some 0x2F
  let body := [0x2F].intercalate ((path.splitOn 0x2F).foldl (cleanComponent rooted) []).reverse
  if rooted then 0x2F :: body else if body = [] then text "." else body

/-- `filepath.Join(directory, name)` for a name that is not empty. -/
def joinPath (directory name : Bytes) : Bytes :=
  if directory = [] then clean name else clean (directory ++ 0x2F :: name)

example : clean (text "/usr/./local//lib/../share/") = text "/usr/local/share" := by decide

end KVLite.Modules
