import KVLite.Core.Errors

/-!
# UTF-8 as the JSON encoder sees it

A string travels through `encoding/json` unchanged where it is valid UTF-8; every
byte that does not start a valid sequence is replaced by the three bytes of the
replacement character.
-/

namespace KVLite.Http

/-- Is the byte a continuation byte between the given bounds? -/
def continuation (low high : UInt8) (byte : UInt8) : Bool := low ≤ byte && byte ≤ high

/-- The length of the valid UTF-8 sequence at the start of a string, if there is one. -/
def runeWidth : Bytes → Option ℕ
  | [] => none
  | first :: rest =>
    if first < 0x80 then some 1
    else if 0xC2 ≤ first ∧ first ≤ 0xDF then
      match rest with
      | b :: _ => if continuation 0x80 0xBF b then some 2 else none
      | _ => none
    else if 0xE0 ≤ first ∧ first ≤ 0xEF then
      let low := if first = 0xE0 then 0xA0 else 0x80
      let high := if first = 0xED then 0x9F else 0xBF
      match rest with
      | b :: c :: _ => if continuation low high b && continuation 0x80 0xBF c then some 3 else none
      | _ => none
    else if 0xF0 ≤ first ∧ first ≤ 0xF4 then
      let low := if first = 0xF0 then 0x90 else 0x80
      let high := if first = 0xF4 then 0x8F else 0xBF
      match rest with
      | b :: c :: d :: _ =>
        if continuation low high b && continuation 0x80 0xBF c && continuation 0x80 0xBF d then
          some 4
        else
          none
      | _ => none
    else none

/-- The bytes of U+FFFD. -/
def replacementCharacter : Bytes := [0xEF, 0xBF, 0xBD]

/-- The first `fuel` steps of the replacement of invalid bytes. -/
def toValidUtf8Fuel : ℕ → Bytes → Bytes
  | 0, _ => []
  | _, [] => []
  | fuel + 1, byte :: bytes =>
    match runeWidth (byte :: bytes) with
    | some width => (byte :: bytes).take width ++ toValidUtf8Fuel fuel ((byte :: bytes).drop width)
    | none => replacementCharacter ++ toValidUtf8Fuel fuel bytes

/-- The string with every invalid byte replaced. -/
def toValidUtf8 (bytes : Bytes) : Bytes := toValidUtf8Fuel bytes.length bytes

/-- Does a string consist of valid sequences only, looking at `fuel` of them? -/
def validUtf8Fuel : ℕ → Bytes → Bool
  | _, [] => true
  | 0, _ :: _ => false
  | fuel + 1, byte :: bytes =>
    match runeWidth (byte :: bytes) with
    | some width => validUtf8Fuel fuel ((byte :: bytes).drop width)
    | none => false

def validUtf8 (bytes : Bytes) : Bool := validUtf8Fuel bytes.length bytes

theorem toValidUtf8Fuel_of_valid {fuel : ℕ} {bytes : Bytes} (h : validUtf8Fuel fuel bytes) :
    toValidUtf8Fuel fuel bytes = bytes := by
  induction fuel generalizing bytes with
  | zero =>
    cases bytes with
    | nil => rfl
    | cons byte bytes => cases h
  | succ fuel ih =>
    cases bytes with
    | nil => rfl
    | cons byte bytes =>
      rw [validUtf8Fuel] at h
      rw [toValidUtf8Fuel]
      cases hwidth : runeWidth (byte :: bytes) with
      | none => simp [hwidth] at h
      | some width =>
        simp only [hwidth] at h
        simp only [ih h, List.take_append_drop]

/-- A valid string is not changed. -/
theorem toValidUtf8_of_valid {bytes : Bytes} (h : validUtf8 bytes) : toValidUtf8 bytes = bytes :=
  toValidUtf8Fuel_of_valid h

theorem runeWidth_ne_zero (bytes : Bytes) : runeWidth bytes ≠ some 0 := by
  -- Every branch gives a literal length, or none.
  unfold runeWidth
  split
  · nofun
  · dsimp only
    repeat' split
    all_goals nofun

/-- No string becomes empty. -/
theorem toValidUtf8_ne_nil {bytes : Bytes} (h : bytes ≠ []) : toValidUtf8 bytes ≠ [] := by
  cases bytes with
  | nil => exact absurd rfl h
  | cons byte bytes =>
    rw [toValidUtf8, List.length_cons, toValidUtf8Fuel]
    cases hwidth : runeWidth (byte :: bytes) with
    | none => simp [replacementCharacter]
    | some width =>
      have hpos : width ≠ 0 := fun h => runeWidth_ne_zero _ (h ▸ hwidth)
      simp [hpos]

example : toValidUtf8 [0x61, 0xFF, 0x62] = [0x61, 0xEF, 0xBF, 0xBD, 0x62] := by decide

end KVLite.Http
