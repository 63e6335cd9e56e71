import KVLite.Redis.Wire
import Mathlib.Data.Nat.Digits.Defs

/-!
# Framing of requests and replies

Requests are read back as they were written, one after the other, and replies cannot be
confused: two streams that start with a reply are equal only if the replies are the same
up to the line breaks that `writeRESP` drops.
-/

namespace KVLite.Redis

open Semantics BigEndian

/-! ### Decimal numbers -/

/-- The decimal digits of a number. -/
def digits (n : ℕ) : Bytes := (Nat.toDigits 10 n).map fun c => UInt8.ofNat c.toNat

theorem formatInt_natCast (n : ℕ) : formatInt n = digits n := by
  rw [digits, ← Nat.toList_repr]
  rfl

theorem formatInt_negSucc (n : ℕ) : formatInt (.negSucc n) = 45 :: digits (n + 1) := by
  have htext : toString (Int.negSucc n) = "-" ++ Nat.repr (n + 1) := rfl
  rw [formatInt, htext, text, String.toList_append, List.map_append, digits, ← Nat.toList_repr]
  rfl

theorem parseDecimal_formatInt (value : ℤ) : parseDecimal (formatInt value) = some value := by
  cases value with
  | ofNat n =>
    rw [Int.ofNat_eq_natCast, formatInt_natCast]
    exact parseDecimal_of_parseDigits (parseDigits_toDigits n)
  | negSucc n =>
    rw [formatInt_negSucc, parseDecimal, digits, parseDigits_toDigits]
    rfl

theorem formatInt_injective : Function.Injective formatInt := by
  intro value value' h
  have hparsed := parseDecimal_formatInt value
  rw [h, parseDecimal_formatInt] at hparsed
  exact (Option.some.inj hparsed).symm

theorem le_of_mem_digits {n : ℕ} {byte : UInt8} (h : byte ∈ digits n) : 48 ≤ byte.toNat := by
  obtain ⟨c, hc, rfl⟩ := List.mem_map.mp h
  have hdigit := Nat.isDigit_of_mem_toDigits (by decide) (by decide) hc
  simp only [Char.isDigit, Bool.and_eq_true, decide_eq_true_eq, UInt32.le_iff_toNat_le] at hdigit
  have hlow : 48 ≤ c.toNat := hdigit.1
  have hhigh : c.toNat ≤ 57 := hdigit.2
  rw [UInt8.toNat_ofNat']
  show 48 ≤ c.toNat % 256
  omega

/-- A formatted number is made of digits and the minus sign. -/
theorem notMem_formatInt {byte : UInt8} (hbyte : byte.toNat < 45) (value : ℤ) : byte ∉ formatInt value := by
  have hdigits : ∀ n, byte ∉ digits n := fun n hmem => by
    have hle := le_of_mem_digits hmem
    omega
  cases value with
  | ofNat n =>
    rw [Int.ofNat_eq_natCast, formatInt_natCast]
    exact hdigits n
  | negSucc n =>
    rw [formatInt_negSucc, List.mem_cons, not_or]
    refine ⟨?_, hdigits _⟩
    rintro rfl
    exact absurd hbyte (by decide)

theorem length_formatInt_le {n : ℕ} (h : n < 10 ^ 10) : (formatInt n).length ≤ 10 := by
  rw [formatInt_natCast, digits, List.length_map]
  exact Nat.toDigits_length 10 n 10 (by decide) h

/-! ### Lines, numbers and bulk strings -/

theorem consumes_readByte (byte : UInt8) : Consumes readByte [byte] byte := fun _ => rfl

theorem consumes_readBytes {delimiter : UInt8} {line : Bytes} (h : delimiter ∉ line) :
    Consumes (readBytes delimiter) (line ++ [delimiter]) (line ++ [delimiter]) := by
  intro rest
  induction line with
  | nil =>
    show readBytes delimiter (delimiter :: rest) = _
    rw [readBytes, if_pos rfl]
    rfl
  | cons byte line ih =>
    rw [List.mem_cons, not_or] at h
    show readBytes delimiter (byte :: (line ++ [delimiter] ++ rest)) = _
    rw [readBytes, if_neg (Ne.symm h.1), ih h.2]
    rfl

theorem consumes_readRESPLine {line : Bytes} (hline : 10 ∉ line) (hlength : line.length ≤ maxRESPLine) :
    Consumes readRESPLine (line ++ crlf) line := by
  have hread : Consumes (readBytes 10) (line ++ crlf) (line ++ crlf) := by
    have hcr : 10 ∉ line ++ [13] := by simpa using hline
    have h := consumes_readBytes hcr
    rwa [List.append_assoc] at h
  refine hread.bind_nil ?_
  have hbreak : ¬ ((line ++ crlf).length < 2 ∨ (line ++ crlf)[(line ++ crlf).length - 2]? ≠ some 13) := by
    simp [crlf]
  have htake : (line ++ crlf).take ((line ++ crlf).length - 2) = line := by
    simp [crlf]
  rw [if_neg hbreak, htake, if_neg (not_lt.mpr hlength)]
  exact .pure line

theorem consumes_readRESPInt {n : ℕ} (h : n < 2 ^ 31) : Consumes readRESPInt (formatInt n ++ crlf) (n : ℤ) := by
  have hshort : (formatInt n).length ≤ maxRESPLine :=
    (length_formatInt_le (by omega)).trans (by decide)
  refine (consumes_readRESPLine (notMem_formatInt (by decide) n) hshort).bind_nil ?_
  have hfits : -2 ^ 31 ≤ (n : ℤ) ∧ (n : ℤ) < 2 ^ 31 := by omega
  simp only [parseDecimal_formatInt, if_pos hfits]
  exact .pure _

theorem consumes_readFull (data : Bytes) : Consumes (readFull data.length) data data := by
  intro rest
  rw [readFull, if_pos (by simp), List.take_left, List.drop_left]

theorem consumes_expectCRLF : Consumes expectCRLF crlf () :=
  (consumes_readFull crlf).bind_nil (.pure ())

/-- The bytes of a bulk string after its type byte. -/
theorem consumes_readBulk {data : Bytes} (h : data.length ≤ maxRESPBulk) :
    Consumes readBulk (formatInt data.length ++ crlf ++ (data ++ crlf)) (.bulk data) := by
  have hbulk : data.length < 2 ^ 31 := h.trans_lt (by decide)
  refine (consumes_readRESPInt hbulk).bind ?_
  have hnull : ¬ (data.length : ℤ) = -1 := by omega
  have hvalid : ¬ ((data.length : ℤ) < 0 ∨ (data.length : ℤ) > maxRESPBulk) := by omega
  simp only [if_neg hnull, if_neg hvalid, Int.toNat_natCast]
  exact (consumes_readFull data).bind (consumes_expectCRLF.bind_nil (.pure _))

/-! ### The depth of the recursion -/

theorem takes_readByte : Takes 1 readByte := by
  intro input byte rest h
  cases input with
  | nil => cases h
  | cons first input =>
    cases h
    exact le_rfl

theorem takes_readBytes (delimiter : UInt8) : Takes 1 (readBytes delimiter) := by
  intro input
  induction input with
  | nil => rintro line rest ⟨⟩
  | cons byte input ih =>
    intro line rest h
    rw [readBytes] at h
    split at h
    · cases h
      exact le_rfl
    · cases hread : readBytes delimiter input with
      | error err =>
        rw [hread] at h
        cases h
      | ok read =>
        obtain ⟨line', rest'⟩ := read
        have hle := ih line' rest' hread
        rw [hread] at h
        cases h
        rw [List.length_cons]
        omega

theorem takes_readFull (length : ℕ) : Takes 0 (readFull length) := by
  intro input data rest h
  unfold readFull at h
  split at h
  · cases h
    rw [List.length_drop]
    omega
  · split at h <;> cases h

theorem takes_readRESPLine : Takes 1 readRESPLine := by
  refine (takes_readBytes 10).bind_zero fun line => ?_
  split
  · exact .throw 0 _
  · split
    · exact .throw 0 _
    · exact .pure _

theorem takes_readRESPInt : Takes 1 readRESPInt := by
  refine takes_readRESPLine.bind_zero fun line => ?_
  split
  · split
    · exact .pure _
    · exact .throw 0 _
  · exact .throw 0 _

theorem takes_expectCRLF : Takes 0 expectCRLF := by
  refine (takes_readFull 2).bind_zero fun suffix => ?_
  split
  · exact .throw 0 _
  · exact .pure _

theorem takes_readBulk : Takes 0 readBulk := by
  refine (takes_readRESPInt.mono (Nat.zero_le _)).bind_zero fun length => ?_
  split
  · exact .pure _
  · split
    · exact .throw 0 _
    · exact (takes_readFull _).bind_zero fun _ => takes_expectCRLF.bind_zero fun _ => .pure _

theorem takes_readInteger : Takes 0 readInteger := by
  refine (takes_readRESPLine.mono (Nat.zero_le _)).bind_zero fun line => ?_
  split
  · split
    · exact .pure _
    · exact .throw 0 _
  · exact .throw 0 _

theorem takes_readInline (fields : Bytes → List Bytes) (head : UInt8) :
    Takes 0 (readInline fields head) := by
  have hline : Takes 0 (readRESPLineAfterPrefix head) :=
    (takes_readRESPLine.mono (Nat.zero_le _)).bind_zero fun _ => .pure _
  refine hline.bind_zero fun line => ?_
  dsimp only
  split
  · exact .throw 0 _
  · exact .pure _

section Inside

variable {fields : Bytes → List Bytes} {read read' : ByteReader Resp} {refusal : GoError} {n : ℕ}

theorem takes_readItems (h : Takes 0 read) (count : ℕ) : Takes 0 (readItems read refusal count) := by
  induction count with
  | zero => exact .pure _
  | succ count ih =>
    refine h.bind_zero fun item => ?_
    split
    · exact .throw 0 _
    · exact ih.bind_zero fun _ => .pure _

theorem takes_readCounted (h : Takes 0 read) (name : String) (perCount : ℕ) :
    Takes 0 (readCounted read name refusal perCount) := by
  refine (takes_readRESPInt.mono (Nat.zero_le _)).bind_zero fun count => ?_
  split
  · exact .throw 0 _
  · exact takes_readItems h _

theorem takes_readAfter (h : Takes 0 read) (head : UInt8) : Takes 0 (readAfter fields read head) := by
  unfold readAfter
  split
  · exact (takes_readCounted h _ _).map _
  split
  · exact (takes_readCounted h _ _).map _
  split
  · exact takes_readBulk
  split
  · exact (takes_readRESPLine.mono (Nat.zero_le _)).map _
  split
  · exact (takes_readRESPLine.mono (Nat.zero_le _)).map _
  split
  · exact takes_readInteger
  · exact takes_readInline fields head

theorem takes_readRESPAt (depth : ℕ) : Takes 1 (readRESPAt fields depth) := by
  induction depth with
  | zero => exact .throw 1 _
  | succ depth ih => exact takes_readByte.bind_zero fun head => takes_readAfter (ih.mono (Nat.zero_le _)) head

variable (h : AgreeBelow n read read') (htakes : Takes 0 read)

include h htakes

theorem agree_readItems (count : ℕ) :
    AgreeBelow n (readItems read refusal count) (readItems read' refusal count) := by
  induction count with
  | zero => exact .refl n _
  | succ count ih =>
    refine h.bind htakes le_rfl fun item => ?_
    split
    · exact .refl n _
    · exact ih.bind (takes_readItems htakes count) le_rfl fun _ => .refl n _

theorem agree_readCounted (name : String) (perCount : ℕ) :
    AgreeBelow n (readCounted read name refusal perCount) (readCounted read' name refusal perCount) := by
  refine (AgreeBelow.refl n readRESPInt).bind (takes_readRESPInt.mono (Nat.zero_le _)) le_rfl
    fun count => ?_
  split
  · exact .refl n _
  · exact agree_readItems h htakes _

theorem agree_readAfter (head : UInt8) :
    AgreeBelow n (readAfter fields read head) (readAfter fields read' head) := by
  unfold readAfter
  split
  · exact (agree_readCounted h htakes _ _).map _
  split
  · exact (agree_readCounted h htakes _ _).map _
  · exact .refl n _

omit h htakes

/-- A depth above the length of the input is never reached. -/
theorem agree_readRESPAt {depth depth' : ℕ} (hdepth : n ≤ depth) (hdepth' : n ≤ depth') :
    AgreeBelow n (readRESPAt fields depth) (readRESPAt fields depth') := by
  induction n generalizing depth depth' with
  | zero => exact fun input hinput => absurd hinput (Nat.not_lt_zero _)
  | succ n ih =>
    obtain ⟨depth, rfl⟩ : ∃ d, depth = d + 1 := ⟨depth - 1, by omega⟩
    obtain ⟨depth', rfl⟩ : ∃ d, depth' = d + 1 := ⟨depth' - 1, by omega⟩
    -- The first byte is gone before the values inside are read.
    refine (AgreeBelow.refl (n + 1) readByte).bind takes_readByte le_rfl fun head => ?_
    exact agree_readAfter (ih (by omega) (by omega))
      ((takes_readRESPAt depth).mono (Nat.zero_le _)) head

/-- `readRESP` calls itself on what is left. -/
theorem readRESP_eq (fields : Bytes → List Bytes) :
    readRESP fields = readByte >>= readAfter fields (readRESP fields) := by
  funext input
  cases input with
  | nil => rfl
  | cons head rest =>
    show readAfter fields (readRESPAt fields (rest.length + 1)) head rest =
      readAfter fields (readRESP fields) head rest
    refine agree_readAfter (n := rest.length + 1) ?_ ((takes_readRESPAt _).mono (Nat.zero_le _)) head
      rest (Nat.lt_succ_self _)
    intro input hinput
    exact agree_readRESPAt (n := input.length + 1) hinput le_rfl input (Nat.lt_succ_self _)

end Inside

/-! ### Requests -/

/-- The bytes of a command as a client writes it. -/
def encodeCommand (args : List Bytes) : Bytes := (writeRESP (.array (args.map .bulk))).1

/-- The bytes of a bulk string. -/
def encodeBulk (data : Bytes) : Bytes := header 36 data.length ++ data ++ crlf

theorem writeItems_bulk (args : List Bytes) :
    writeItems (args.map .bulk) = (args.flatMap encodeBulk, none) := by
  induction args with
  | nil => rfl
  | cons arg args ih =>
    rw [List.map_cons, writeItems, ih, writeRESP]
    rfl

theorem encodeCommand_eq (args : List Bytes) :
    encodeCommand args = header 42 args.length ++ args.flatMap encodeBulk := by
  rw [encodeCommand, writeRESP, writeItems_bulk, List.length_map]
  rfl

variable {fields : Bytes → List Bytes}

/-- The type byte decides how the rest is read. -/
theorem consumes_readRESP_of_after {head : UInt8} {front : Bytes} {value : Resp}
    (h : Consumes (readAfter fields (readRESP fields) head) front value) :
    Consumes (readRESP fields) (head :: front) value := by
  rw [readRESP_eq]
  exact (consumes_readByte head).bind h

theorem consumes_readRESP_bulk {data : Bytes} (h : data.length ≤ maxRESPBulk) :
    Consumes (readRESP fields) (encodeBulk data) (.bulk data) := by
  have hbulk : Consumes (readAfter fields (readRESP fields) 36) _ (.bulk data) := consumes_readBulk h
  rw [← List.append_assoc] at hbulk
  exact consumes_readRESP_of_after hbulk

theorem consumes_readItems {args : List Bytes} (refusal : GoError) (h : ∀ arg ∈ args, arg.length ≤ maxRESPBulk) :
    Consumes (readItems (readRESP fields) refusal args.length) (args.flatMap encodeBulk) (args.map .bulk) := by
  induction args with
  | nil => exact .pure _
  | cons arg args ih =>
    rw [List.forall_mem_cons] at h
    exact (consumes_readRESP_bulk h.1).bind ((ih h.2).bind_nil (.pure _))

/-- A command array is read back, and nothing else is taken. -/
theorem consumes_readRESP {args : List Bytes} (h : Deliverable args) :
    Consumes (readRESP fields) (encodeCommand args) (.array (args.map .bulk)) := by
  have hcount : args.length ≤ 1024 := h.count
  have hvalid : ¬ ((args.length : ℤ) < 0 ∨ (args.length : ℤ) > maxRESPArgs) := by
    unfold maxRESPArgs
    omega
  rw [encodeCommand_eq]
  refine consumes_readRESP_of_after (Consumes.map Resp.array ?_)
  refine (consumes_readRESPInt (by omega)).bind ?_
  rw [if_neg hvalid, Int.toNat_natCast, Nat.mul_one]
  exact consumes_readItems _ h.size

theorem redisCommandArgs_bulk {args : List Bytes} (h : args ≠ []) :
    redisCommandArgs (.array (args.map .bulk)) = .ok args := by
  have hitems : ∀ args : List Bytes, (args.map Resp.bulk).mapM redisCommandArg = .ok args := by
    intro args
    induction args with
    | nil => rfl
    | cons arg args ih =>
      rw [List.map_cons, List.mapM_cons, ih]
      rfl
  obtain ⟨arg, args, rfl⟩ := List.exists_cons_of_ne_nil h
  exact hitems (arg :: args)

/-- A command that a client may send: it has a name, and the reader of a connection can
deliver it. -/
structure Sendable (args : List Bytes) : Prop extends Deliverable args where
  named : args ≠ []

instance (args : List Bytes) : Decidable (Sendable args) :=
  decidable_of_iff (Deliverable args ∧ args ≠ []) ⟨fun h => ⟨h.1, h.2⟩, fun h => ⟨h.1, h.2⟩⟩

/-- The argument vector of the next request. -/
def readCommand (fields : Bytes → List Bytes) : ByteReader (List Bytes) := do
  let request ← readRESP fields
  match redisCommandArgs request with
  | .ok args => return args
  | .error err => throw err

/-- The next requests, of a given number. -/
def readCommands (fields : Bytes → List Bytes) : ℕ → ByteReader (List (List Bytes))
  | 0 => return []
  | count + 1 => do
    let args ← readCommand fields
    let commands ← readCommands fields count
    return args :: commands

theorem consumes_readCommand {args : List Bytes} (h : Sendable args) :
    Consumes (readCommand fields) (encodeCommand args) args := by
  refine (consumes_readRESP h.toDeliverable).bind_nil ?_
  rw [redisCommandArgs_bulk h.named]
  exact .pure args

theorem consumes_readCommands {commands : List (List Bytes)} (h : ∀ args ∈ commands, Sendable args) :
    Consumes (readCommands fields commands.length) (commands.flatMap encodeCommand) commands := by
  induction commands with
  | nil => exact .pure []
  | cons args commands ih =>
    rw [List.forall_mem_cons] at h
    exact (consumes_readCommand h.1).bind ((ih h.2).bind_nil (.pure _))

/-- The commands that a client writes one after the other are read back in order, and
every byte is taken. -/
theorem commands_read_back (fields : Bytes → List Bytes) (commands : List (List Bytes))
    (h : ∀ args ∈ commands, Sendable args) :
    readCommands fields commands.length (commands.flatMap encodeCommand) = .ok (commands, []) := by
  have hread : Consumes (readCommands fields commands.length) _ commands := consumes_readCommands h
  replace hread := hread []
  rwa [List.append_nil] at hread

/-- Two commands with line breaks and type bytes among the arguments. -/
def twoCommands : List (List Bytes) :=
  [[text "SET", text "k", text "\r\n*1\r\n$"], [text "GET", []]]

theorem two_commands_read_back :
    readCommands (fun _ => []) 2 (twoCommands.flatMap encodeCommand) = .ok (twoCommands, []) :=
  commands_read_back _ twoCommands (by decide)

theorem length_le_encodeCommands (commands : List (List Bytes)) :
    commands.length ≤ (commands.flatMap encodeCommand).length := by
  induction commands with
  | nil => exact le_rfl
  | cons args commands ih =>
    rw [List.flatMap_cons, List.length_append, List.length_cons, encodeCommand_eq, header,
      List.cons_append, List.cons_append, List.length_cons]
    omega

/-- A connection serves the commands that its client has written. -/
theorem serveRedisConnection_eq (mutex : Mutex) (go : GoRuntime) (password : Bytes) (session : Session)
    {commands : List (List Bytes)} (h : ∀ args ∈ commands, Sendable args) :
    serveRedisConnection mutex go fields password session (commands.flatMap encodeCommand) =
      serveCommands mutex go password session commands := by
  have hloop : ∀ (bound : ℕ), commands.length < bound → ∀ session,
      serveRequests mutex go fields password bound session (commands.flatMap encodeCommand) =
        serveCommands mutex go password session commands := by
    induction commands with
    | nil =>
      intro bound hbound session
      obtain ⟨bound, rfl⟩ : ∃ b, bound = b + 1 := ⟨bound - 1, by omega⟩
      rfl
    | cons args commands ih =>
      intro bound hbound session
      rw [List.forall_mem_cons] at h
      rw [List.length_cons] at hbound
      obtain ⟨bound, rfl⟩ : ∃ b, bound = b + 1 := ⟨bound - 1, by omega⟩
      rw [serveRequests, List.flatMap_cons, consumes_readRESP h.1.toDeliverable]
      simp only [redisCommandArgs_bulk h.1.named]
      rw [serveCommands]
      congr 1
      funext session
      exact ih h.2 bound (by omega) session
  exact hloop _ (Nat.lt_succ_of_le (length_le_encodeCommands commands)) session

theorem two_commands_served :
    serveRedisConnection ⟨0, .protocolMu⟩ .upperCase (fun _ => []) [] ⟨true, 1, 2⟩
        (twoCommands.flatMap encodeCommand) =
      serveCommands ⟨0, .protocolMu⟩ .upperCase [] ⟨true, 1, 2⟩ twoCommands :=
  serveRedisConnection_eq _ _ _ _ (by decide)

/-! ### Replies -/

mutual

/-- Every map in the reply has keys and values in pairs. -/
def Resp.Paired : Resp → Prop
  | .array items => AllPaired items
  | .map items => items.length % 2 = 0 ∧ AllPaired items
  | _ => True

def AllPaired : List Resp → Prop
  | [] => True
  | item :: items => item.Paired ∧ AllPaired items

end

mutual

/-- The reply without the line breaks inside simple strings and errors. -/
def Resp.stripped : Resp → Resp
  | .simpleString data => .simpleString (withoutBreaks data)
  | .errorString data => .errorString (withoutBreaks data)
  | .array items => .array (allStripped items)
  | .map items => .map (allStripped items)
  | reply => reply

def allStripped : List Resp → List Resp
  | [] => []
  | item :: items => item.stripped :: allStripped items

end

theorem andThen_fst {written next : Written} (h : written.2 = none) :
    (written.andThen next).1 = written.1 ++ next.1 := by
  rw [Written.andThen, h]

theorem andThen_snd {written next : Written} (h : written.2 = none) :
    (written.andThen next).2 = next.2 := by
  rw [Written.andThen, h]

mutual

/-- A reply whose maps have pairs is written without an error. -/
theorem writeRESP_snd : ∀ reply : Resp, reply.Paired → (writeRESP reply).2 = none
  | .simpleString _, _ | .errorString _, _ | .integer _, _ | .bulk _, _ | .null, _ => rfl
  | .array items, h => by
    rw [writeRESP, andThen_snd rfl]
    exact writeItems_snd items h
  | .map items, h => by
    rw [writeRESP, if_neg (not_not.mpr h.1), andThen_snd rfl]
    exact writeItems_snd items h.2

theorem writeItems_snd : ∀ items : List Resp, AllPaired items → (writeItems items).2 = none
  | [], _ => rfl
  | item :: items, h => by
    rw [writeItems, andThen_snd (writeRESP_snd item h.1)]
    exact writeItems_snd items h.2

end

theorem severs_header (kind : UInt8) (value value' : ℤ) :
    Severs (header kind value) (header kind value') (value = value') := by
  have hcr : ∀ value : ℤ, 13 ∉ formatInt value := notMem_formatInt (by decide)
  apply Severs.cons
  exact (Severs.of_notMem (hcr value) (hcr value') [10]).imp fun h => formatInt_injective h

theorem severs_line (kind : UInt8) (data data' : Bytes) :
    Severs (kind :: withoutBreaks data ++ crlf) (kind :: withoutBreaks data' ++ crlf)
      (withoutBreaks data = withoutBreaks data') := by
  have hcr : ∀ data : Bytes, 13 ∉ withoutBreaks data := by
    intro data
    simp [withoutBreaks]
  apply Severs.cons
  exact Severs.of_notMem (hcr data) (hcr data') [10]

theorem severs_bulk (data data' : Bytes) : Severs (encodeBulk data) (encodeBulk data') (data = data') := by
  have hframe : Severs _ _ _ := ((severs_header 36 data.length data'.length).append fun hlength =>
    Severs.of_length (Nat.cast_inj.mp hlength)).append fun _ => Severs.of_length (rfl : crlf.length = _)
  exact hframe.imp fun h => h.1.2

/-- The type byte of a reply. -/
def Resp.kind : Resp → UInt8
  | .simpleString _ => 43
  | .errorString _ => 45
  | .integer _ => 58
  | .bulk _ | .null => 36
  | .array _ => 42
  | .map _ => 37

theorem writeRESP_eq_cons {reply : Resp} (h : reply.Paired) :
    ∃ body, (writeRESP reply).1 = reply.kind :: body := by
  cases reply with
  | map items =>
    rw [writeRESP, if_neg (not_not.mpr h.1)]
    exact ⟨_, rfl⟩
  | _ => exact ⟨_, rfl⟩

theorem severs_of_kind_ne {reply reply' : Resp} (h : reply.Paired) (h' : reply'.Paired) (P : Prop)
    (hne : reply.kind ≠ reply'.kind) : Severs (writeRESP reply).1 (writeRESP reply').1 P := by
  obtain ⟨body, hbody⟩ := writeRESP_eq_cons h
  obtain ⟨body', hbody'⟩ := writeRESP_eq_cons h'
  rw [hbody, hbody']
  exact .of_ne P hne

/-- A bulk string and the null bulk string differ in their length. -/
theorem severs_bulk_null (data : Bytes) (P : Prop) :
    Severs (encodeBulk data) (header 36 (-1)) P ∧ Severs (header 36 (-1)) (encodeBulk data) P := by
  constructor
  · intro rest rest' heq
    rw [encodeBulk, List.append_assoc, List.append_assoc] at heq
    have hlength := (severs_header 36 data.length (-1) _ _ heq).1
    omega
  · intro rest rest' heq
    rw [encodeBulk, List.append_assoc, List.append_assoc] at heq
    have hlength := (severs_header 36 (-1) data.length _ _ heq).1
    omega

mutual

/-- The first reply of a stream is determined up to its line breaks, and so is the rest. -/
theorem severs_writeRESP : ∀ reply reply' : Resp, reply.Paired → reply'.Paired →
    Severs (writeRESP reply).1 (writeRESP reply').1 (reply.stripped = reply'.stripped)
  | .simpleString data, reply', h, h' => by
    cases reply' with
    | simpleString data' => exact (severs_line 43 data data').imp (congrArg Resp.simpleString)
    | _ => exact severs_of_kind_ne h h' _ (by simp [Resp.kind])
  | .errorString data, reply', h, h' => by
    cases reply' with
    | errorString data' => exact (severs_line 45 data data').imp (congrArg Resp.errorString)
    | _ => exact severs_of_kind_ne h h' _ (by simp [Resp.kind])
  | .integer value, reply', h, h' => by
    cases reply' with
    | integer value' => exact (severs_header 58 value value').imp (congrArg Resp.integer)
    | _ => exact severs_of_kind_ne h h' _ (by simp [Resp.kind])
  | .bulk data, reply', h, h' => by
    cases reply' with
    | bulk data' => exact (severs_bulk data data').imp (congrArg Resp.bulk)
    | null => exact (severs_bulk_null data _).1
    | _ => exact severs_of_kind_ne h h' _ (by simp [Resp.kind])
  | .null, reply', h, h' => by
    cases reply' with
    | bulk data' => exact (severs_bulk_null data' _).2
    | null => exact (severs_header 36 (-1) (-1)).imp fun _ => rfl
    | _ => exact severs_of_kind_ne h h' _ (by simp [Resp.kind])
  | .array items, reply', h, h' => by
    cases reply' with
    | array items' =>
      rw [writeRESP, writeRESP, andThen_fst rfl, andThen_fst rfl]
      have hframe := (severs_header 42 items.length items'.length).append fun hlength =>
        severs_writeItems items items' (Nat.cast_inj.mp hlength) h h'
      exact hframe.imp fun hboth => congrArg Resp.array hboth.2
    | _ => exact severs_of_kind_ne h h' _ (by simp [Resp.kind])
  | .map items, reply', h, h' => by
    cases reply' with
    | map items' =>
      rw [writeRESP, writeRESP, if_neg (not_not.mpr h.1), if_neg (not_not.mpr h'.1), andThen_fst rfl,
        andThen_fst rfl]
      -- The header has the number of pairs, which is half the number of items.
      have hframe := (severs_header 37 (items.length / 2 : ℕ) (items'.length / 2 : ℕ)).append
        fun hlength => severs_writeItems items items'
          (by have := Nat.cast_inj.mp hlength; have := h.1; have := h'.1; omega) h.2 h'.2
      exact hframe.imp fun hboth => congrArg Resp.map hboth.2
    | _ => exact severs_of_kind_ne h h' _ (by simp [Resp.kind])

theorem severs_writeItems : ∀ items items' : List Resp, items.length = items'.length →
    AllPaired items → AllPaired items' →
    Severs (writeItems items).1 (writeItems items').1 (allStripped items = allStripped items')
  | [], [], _, _, _ => Severs.nil.imp fun _ => rfl
  | item :: items, item' :: items', hlength, h, h' => by
    rw [writeItems, writeItems, andThen_fst (writeRESP_snd item h.1), andThen_fst (writeRESP_snd item' h'.1)]
    have hitem := severs_writeRESP item item' h.1 h'.1
    have hitems := severs_writeItems items items' (Nat.succ.inj hlength) h.2 h'.2
    exact (hitem.append fun _ => hitems).imp fun hboth => congrArg₂ List.cons hboth.1 hboth.2

end

/-- Two streams of replies that are equal hold the same replies up to line breaks. -/
theorem stripped_of_stream_eq {replies replies' : List Resp} (h : ∀ reply ∈ replies, reply.Paired)
    (h' : ∀ reply ∈ replies', reply.Paired)
    (heq : (replies.flatMap fun reply => (writeRESP reply).1) =
      replies'.flatMap fun reply => (writeRESP reply).1) :
    replies.map Resp.stripped = replies'.map Resp.stripped := by
  induction replies generalizing replies' with
  | nil =>
    cases replies' with
    | nil => rfl
    | cons reply' replies' =>
      obtain ⟨body, hbody⟩ := writeRESP_eq_cons (h' reply' List.mem_cons_self)
      rw [List.flatMap_cons, hbody] at heq
      cases heq
  | cons reply replies ih =>
    cases replies' with
    | nil =>
      obtain ⟨body, hbody⟩ := writeRESP_eq_cons (h reply List.mem_cons_self)
      rw [List.flatMap_cons, hbody] at heq
      cases heq
    | cons reply' replies' =>
      rw [List.forall_mem_cons] at h h'
      rw [List.flatMap_cons, List.flatMap_cons] at heq
      obtain ⟨hfirst, hrest⟩ := severs_writeRESP reply reply' h.1 h'.1 _ _ heq
      rw [List.map_cons, List.map_cons, hfirst, ih h.2 h'.2 hrest]

/-- Two streams that start with a reply are equal only if the replies are equal up to the
line breaks in simple strings and errors, and what follows is equal. So streams of replies
have the same number of replies, one by one the same. -/
theorem replies_cannot_be_confused :
    (∀ reply reply' : Resp, reply.Paired → reply'.Paired → ∀ rest rest' : Bytes,
      (writeRESP reply).1 ++ rest = (writeRESP reply').1 ++ rest' →
        rest = rest' ∧ reply.stripped = reply'.stripped) ∧
    ∀ replies replies' : List Resp, (∀ reply ∈ replies, reply.Paired) →
      (∀ reply ∈ replies', reply.Paired) →
      (replies.flatMap fun reply => (writeRESP reply).1) =
        (replies'.flatMap fun reply => (writeRESP reply).1) →
      replies.map Resp.stripped = replies'.map Resp.stripped := by
  constructor
  · intro reply reply' h h' rest rest' heq
    exact (severs_writeRESP reply reply' h h' rest rest' heq).symm
  · intro replies replies' h h' heq
    exact stripped_of_stream_eq h h' heq

/-- An error that echoes a line break is one reply, the one without it. -/
theorem echoed_break_is_one_reply :
    (Resp.errorString (text "'A\r\n+B'")).stripped = (Resp.errorString (text "'A+B'")).stripped ∧
    [Resp.errorString (text "'A\r\n+B'")].map Resp.stripped =
      [Resp.errorString (text "'A+B'")].map Resp.stripped := by
  have hbytes : (writeRESP (.errorString (text "'A\r\n+B'"))).1 =
      (writeRESP (.errorString (text "'A+B'"))).1 := by decide
  obtain ⟨hone, hstream⟩ := replies_cannot_be_confused
  constructor
  · exact (hone (.errorString _) (.errorString _) trivial trivial [] [] (by rw [hbytes])).2
  · refine hstream [.errorString _] [.errorString _] ?_ ?_ ?_
    · exact List.forall_mem_singleton.mpr trivial
    · exact List.forall_mem_singleton.mpr trivial
    · rw [List.flatMap_singleton, List.flatMap_singleton, hbytes]

end KVLite.Redis
