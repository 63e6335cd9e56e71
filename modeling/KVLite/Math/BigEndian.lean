import Mathlib.Data.List.Basic
import Mathlib.Tactic.Ring

/-!
# Fixed-width big-endian integers

Unsigned integers written with a fixed number of bytes, most significant byte
first. A value that does not fit is truncated to its low bytes, as a conversion to
a narrower machine word truncates it. Signed 64-bit words are read in two's
complement.
-/

namespace BigEndian

/-- The low `width` bytes of `n`, most significant first. -/
def bigEndian : ℕ → ℕ → List UInt8
  | 0, _ => []
  | width + 1, n => UInt8.ofNat (n / 256 ^ width) :: bigEndian width n

/-- The value of a byte string read most significant byte first. -/
def ofBigEndian (bytes : List UInt8) : ℕ :=
  bytes.foldl (fun value byte => value * 256 + byte.toNat) 0

@[simp] theorem length_bigEndian (width n : ℕ) : (bigEndian width n).length = width := by
  induction width with
  | zero => rfl
  | succ width ih => simp [bigEndian, ih]

@[simp] theorem ofBigEndian_nil : ofBigEndian [] = 0 := rfl

private theorem foldl_bytes (bytes : List UInt8) (value : ℕ) :
    bytes.foldl (fun value byte => value * 256 + byte.toNat) value =
      value * 256 ^ bytes.length + ofBigEndian bytes := by
  unfold ofBigEndian
  induction bytes generalizing value with
  | nil => simp
  | cons byte bytes ih =>
    rw [List.foldl_cons, List.foldl_cons, ih, ih (0 * 256 + byte.toNat), List.length_cons]
    ring

theorem ofBigEndian_cons (byte : UInt8) (bytes : List UInt8) :
    ofBigEndian (byte :: bytes) = byte.toNat * 256 ^ bytes.length + ofBigEndian bytes := by
  rw [ofBigEndian, List.foldl_cons, foldl_bytes]
  simp

theorem ofBigEndian_lt (bytes : List UInt8) : ofBigEndian bytes < 256 ^ bytes.length := by
  induction bytes with
  | nil => simp
  | cons byte bytes ih =>
    rw [ofBigEndian_cons, List.length_cons, pow_succ]
    have hbyte : byte.toNat < 256 := byte.toNat_lt
    calc byte.toNat * 256 ^ bytes.length + ofBigEndian bytes
        < byte.toNat * 256 ^ bytes.length + 256 ^ bytes.length := by omega
      _ = (byte.toNat + 1) * 256 ^ bytes.length := by ring
      _ ≤ 256 * 256 ^ bytes.length := Nat.mul_le_mul_right _ hbyte
      _ = 256 ^ bytes.length * 256 := by ring

theorem ofBigEndian_bigEndian (width n : ℕ) :
    ofBigEndian (bigEndian width n) = n % 256 ^ width := by
  induction width with
  | zero => simp [bigEndian, Nat.mod_one]
  | succ width ih =>
    have hmod : n % (256 ^ width * 256) = n % 256 ^ width + 256 ^ width * (n / 256 ^ width % 256) :=
      Nat.mod_mul
    rw [bigEndian, ofBigEndian_cons, length_bigEndian, ih, UInt8.toNat_ofNat', Nat.pow_succ 256,
      hmod]
    ring

theorem ofBigEndian_bigEndian_of_lt {width n : ℕ} (h : n < 256 ^ width) :
    ofBigEndian (bigEndian width n) = n := by
  rw [ofBigEndian_bigEndian, Nat.mod_eq_of_lt h]

/-- Only the low bytes of a value are written. -/
theorem bigEndian_mod (width n : ℕ) : bigEndian width (n % 256 ^ width) = bigEndian width n := by
  suffices h : ∀ w ≤ width, bigEndian w (n % 256 ^ width) = bigEndian w n from h width le_rfl
  intro w hw
  induction w with
  | zero => rfl
  | succ w ih =>
    rw [bigEndian, bigEndian, ih (by omega)]
    congr 1
    apply UInt8.toNat_inj.mp
    rw [UInt8.toNat_ofNat', UInt8.toNat_ofNat']
    obtain ⟨k, rfl⟩ : ∃ k, width = w + 1 + k := ⟨width - (w + 1), by omega⟩
    have hpow : 256 ^ (w + 1 + k) = 256 ^ w * (256 * 256 ^ k) := by ring
    rw [hpow, Nat.mod_mul_right_div_self]
    exact Nat.mod_mod_of_dvd _ (Dvd.intro _ rfl)

theorem bigEndian_ofBigEndian (bytes : List UInt8) :
    bigEndian bytes.length (ofBigEndian bytes) = bytes := by
  induction bytes with
  | nil => rfl
  | cons byte bytes ih =>
    have hlt := ofBigEndian_lt bytes
    rw [List.length_cons, bigEndian, ofBigEndian_cons]
    congr 1
    · rw [Nat.add_comm, Nat.add_mul_div_right _ _ (Nat.pow_pos (by omega)),
        Nat.div_eq_of_lt hlt, Nat.zero_add, UInt8.ofNat_toNat]
    · rw [← bigEndian_mod, Nat.add_comm, Nat.add_mul_mod_self_right, Nat.mod_eq_of_lt hlt, ih]

/-- Reading a string of the right length and writing it back changes nothing. -/
theorem bigEndian_of_length {width : ℕ} {bytes : List UInt8} (h : bytes.length = width) :
    bigEndian width (ofBigEndian bytes) = bytes := by
  rw [← h, bigEndian_ofBigEndian]

/-! ### Signed 64-bit words -/

/-- The unsigned 64-bit word of an integer. -/
def toUInt64 (value : ℤ) : ℕ := (value % 2 ^ 64).toNat

/-- The signed 64-bit integer of an unsigned word. -/
def toInt64 (word : ℕ) : ℤ :=
  if word < 2 ^ 63 then (word : ℤ) else (word : ℤ) - 2 ^ 64

/-- The integers a signed 64-bit word can hold. -/
def IsInt64 (value : ℤ) : Prop := -2 ^ 63 ≤ value ∧ value < 2 ^ 63

instance (value : ℤ) : Decidable (IsInt64 value) := inferInstanceAs (Decidable (_ ∧ _))

theorem toUInt64_lt (value : ℤ) : toUInt64 value < 2 ^ 64 := by
  unfold toUInt64
  omega

theorem toInt64_toUInt64 {value : ℤ} (h : IsInt64 value) : toInt64 (toUInt64 value) = value := by
  obtain ⟨hlow, hhigh⟩ := h
  unfold toInt64 toUInt64
  split <;> omega

theorem toUInt64_toInt64 {word : ℕ} (h : word < 2 ^ 64) : toUInt64 (toInt64 word) = word := by
  unfold toInt64 toUInt64
  split <;> omega

theorem isInt64_toInt64 {word : ℕ} (h : word < 2 ^ 64) : IsInt64 (toInt64 word) := by
  unfold IsInt64 toInt64
  split <;> omega

/-- Reduction of an integer to a signed 64-bit word. -/
def wrapInt64 (value : ℤ) : ℤ := toInt64 (toUInt64 value)

theorem wrapInt64_eq {value : ℤ} (h : IsInt64 value) : wrapInt64 value = value :=
  toInt64_toUInt64 h

/-- Past the largest word, the reduction is one turn lower. -/
theorem wrapInt64_of_le {value : ℤ} (h : 2 ^ 63 ≤ value) (h' : value < 2 ^ 63 + 2 ^ 64) :
    wrapInt64 value = value - 2 ^ 64 := by
  unfold wrapInt64 toInt64 toUInt64
  split <;> omega

theorem isInt64_wrapInt64 (value : ℤ) : IsInt64 (wrapInt64 value) :=
  isInt64_toInt64 (toUInt64_lt value)

end BigEndian
