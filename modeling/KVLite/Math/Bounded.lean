import Mathlib.Algebra.Order.Ring.Int
import Mathlib.Data.List.Basic
import Mathlib.Tactic.Ring

/-!
# Bounded integers and slices

Signed integers of a fixed number of bits, whose arithmetic wraps around, and the slice
operations of a language that checks its bounds. An operation that is out of range has no
result.
-/

namespace Bounded

/-- The two's complement value at `bits` bits. -/
def wrap (bits : ℕ) (x : ℤ) : ℤ := x.bmod (2 ^ bits)

section Wrap

variable {bits : ℕ} {x : ℤ}

/-- Half of the range: the number of values of either sign. -/
def half (bits : ℕ) : ℕ := 2 ^ (bits - 1)

theorem two_mul_half (hbits : 0 < bits) : 2 * half bits = 2 ^ bits := by
  obtain ⟨bits, rfl⟩ : ∃ n, bits = n + 1 := ⟨bits - 1, by omega⟩
  rw [half, Nat.add_sub_cancel, Nat.pow_succ]
  ring

theorem wrap_of_lt (hbits : 0 < bits) (hlow : 0 ≤ x) (hhigh : x < half bits) :
    wrap bits x = x := by
  have htwo := two_mul_half hbits
  apply Int.bmod_eq_of_le_mul_two <;> omega

/-- Past the half the values start again from the negative end. -/
theorem wrap_of_le (hbits : 0 < bits) (hlow : (half bits : ℤ) ≤ x) (hhigh : x < 3 * half bits) :
    wrap bits x = x - 2 * half bits := by
  have htwo := two_mul_half hbits
  have hcast : ((2 ^ bits : ℕ) : ℤ) = 2 * half bits := by omega
  rw [wrap, ← Int.sub_bmod_right x (2 ^ bits), hcast]
  apply Int.bmod_eq_of_le_mul_two <;> omega

@[simp] theorem wrap_add_wrap (x y : ℤ) : wrap bits (x + wrap bits y) = wrap bits (x + y) :=
  Int.add_bmod_bmod

@[simp] theorem wrap_wrap_add (x y : ℤ) : wrap bits (wrap bits x + y) = wrap bits (x + y) :=
  Int.bmod_add_bmod

theorem wrap_lt (hbits : 0 < bits) : wrap bits x < half bits := by
  have htwo := two_mul_half hbits
  have hlt := Int.bmod_lt (x := x) (m := 2 ^ bits) (Nat.two_pow_pos bits)
  rw [wrap]
  omega

end Wrap

section Slices

variable {α : Type*}

/-- `data[lo:hi]`. -/
def sub (data : List α) (lo hi : ℤ) : Option (List α) :=
  if 0 ≤ lo ∧ lo ≤ hi ∧ hi ≤ data.length then
    some ((data.drop lo.toNat).take (hi.toNat - lo.toNat))
  else
    none

/-- `make` of elements of `size` bytes each, where an allocation has at most `memory` bytes. -/
def make (memory size : ℕ) (value : α) (length : ℤ) : Option (List α) :=
  if 0 ≤ length ∧ size * length ≤ memory then some (List.replicate length.toNat value) else none

/-- `source` written over `buffer` from index `lo` on. What does not fit is dropped. -/
def overwrite (buffer : List α) (lo : ℕ) (source : List α) : List α :=
  buffer.take lo ++ source.take (buffer.length - lo) ++ buffer.drop (lo + source.length)

/-- `source` written element by element into `buffer[lo:hi]`. -/
def putAt (buffer : List α) (lo hi : ℤ) (source : List α) : Option (List α) :=
  if 0 ≤ lo ∧ lo ≤ hi ∧ hi ≤ buffer.length ∧ (source.length : ℤ) ≤ hi - lo then
    some (overwrite buffer lo.toNat source)
  else
    none

/-- `copy(buffer[lo:], source)`. -/
def copyAt (buffer : List α) (lo : ℤ) (source : List α) : Option (List α) :=
  if 0 ≤ lo ∧ lo ≤ buffer.length then some (overwrite buffer lo.toNat source) else none

theorem sub_natCast {data : List α} {lo hi : ℕ} (hle : lo ≤ hi) (hlen : hi ≤ data.length) :
    sub data lo hi = some ((data.drop lo).take (hi - lo)) := by
  rw [sub, if_pos (by omega)]
  rfl

theorem sub_eq_none {data : List α} {lo hi : ℤ} (h : hi < lo) : sub data lo hi = none :=
  if_neg fun hbounds => absurd hbounds.2.1 (not_le.mpr h)

theorem length_overwrite {buffer source : List α} {lo : ℕ} (hlo : lo ≤ buffer.length) :
    (overwrite buffer lo source).length = buffer.length := by
  simp only [overwrite, List.length_append, List.length_take, List.length_drop]
  omega

theorem length_of_putAt {buffer buffer' source : List α} {lo hi : ℤ}
    (h : putAt buffer lo hi source = some buffer') : buffer'.length = buffer.length := by
  rw [putAt] at h
  split at h
  · cases h
    exact length_overwrite (by omega)
  · cases h

theorem length_of_copyAt {buffer buffer' source : List α} {lo : ℤ}
    (h : copyAt buffer lo source = some buffer') : buffer'.length = buffer.length := by
  rw [copyAt] at h
  split at h
  · cases h
    exact length_overwrite (by omega)
  · cases h

theorem overwrite_middle (before old after : List α) {source : List α}
    (hlength : source.length = old.length) :
    overwrite (before ++ (old ++ after)) before.length source = before ++ (source ++ after) := by
  have hroom : (before ++ (old ++ after)).length - before.length = source.length + after.length := by
    simp only [List.length_append]
    omega
  rw [overwrite, hroom, List.take_left, List.take_of_length_le (by omega),
    ← List.drop_drop, List.drop_left, List.drop_left' hlength.symm, List.append_assoc]

theorem putAt_middle (before old after : List α) {source : List α} {hi : ℤ}
    (hlength : source.length = old.length) (hlow : (before.length + source.length : ℤ) ≤ hi)
    (hhigh : hi ≤ (before ++ (old ++ after)).length) :
    putAt (before ++ (old ++ after)) before.length hi source = some (before ++ (source ++ after)) := by
  rw [putAt, if_pos (by omega), Int.toNat_natCast, overwrite_middle before old after hlength]

theorem copyAt_middle (before old after : List α) {source : List α}
    (hlength : source.length = old.length) :
    copyAt (before ++ (old ++ after)) before.length source = some (before ++ (source ++ after)) := by
  rw [copyAt, if_pos (by simp only [List.length_append]; omega), Int.toNat_natCast,
    overwrite_middle before old after hlength]

/-- A write into `buffer[lo:lo + n]`, with the sum wrapped, is one into `buffer[lo:]`. -/
theorem putAt_toEnd {bits : ℕ} (hbits : 0 < bits) {buffer source : List α} {lo : ℤ}
    (hbuffer : buffer.length < half bits) :
    putAt buffer lo (wrap bits (lo + source.length)) source =
      putAt buffer lo buffer.length source := by
  by_cases hfits : 0 ≤ lo ∧ lo + source.length ≤ buffer.length
  · have hwrap : wrap bits (lo + source.length) = lo + source.length :=
      wrap_of_lt hbits (by omega) (by omega)
    rw [hwrap, putAt, putAt, if_pos (by omega), if_pos (by omega)]
  · -- Without the room there is no result, whether the sum wraps or not.
    rw [putAt, putAt, if_neg _, if_neg (by omega)]
    rintro ⟨hpos, hle, hlen, hroom⟩
    by_cases hwraps : lo + source.length < half bits
    · rw [wrap_of_lt hbits (by omega) hwraps] at hlen
      omega
    · rw [wrap_of_le hbits (by omega) (by omega)] at hle
      omega

end Slices

end Bounded
