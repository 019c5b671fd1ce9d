/-
# Little-endian numbers in memory

`MEM_writeLE16`, `MEM_writeLE32` and `MEM_writeLE64` are one function of the number of
bytes, as their readers are in `readLE`.  The number that a byte string stands for is
taken apart at any byte boundary.
-/

import Mathlib.Tactic.Ring
import ZstdJni.Native.FrameHeader

namespace ZstdJni.Native

open ZstdJni.Foundation

/-- The bytes that `MEM_writeLE16`, `MEM_writeLE32` and `MEM_writeLE64` store, by the number
of bytes. -/
def bytesLE : ℕ → ℕ → List Byte
  | 0, _ => []
  | count + 1, v => UInt8.ofNat v :: bytesLE count (v / 256)

@[simp]
theorem length_bytesLE (count v : ℕ) : (bytesLE count v).length = count := by
  induction count generalizing v with
  | zero => rfl
  | succ count ih => rw [bytesLE, List.length_cons, ih]

/-- The lowest bytes of a number are read back. -/
theorem littleEndian_bytesLE (count v : ℕ) : littleEndian (bytesLE count v) = v % 256 ^ count := by
  induction count generalizing v with
  | zero => rw [bytesLE, littleEndian, Nat.pow_zero, Nat.mod_one]
  | succ count ih =>
      rw [bytesLE, littleEndian, ih, Nat.pow_succ', Nat.mod_mul]
      rfl

theorem littleEndian_append (first second : List Byte) :
    littleEndian (first ++ second) =
      littleEndian first + 256 ^ first.length * littleEndian second := by
  induction first with
  | nil => simp [littleEndian]
  | cons b first ih =>
      rw [List.cons_append, littleEndian, littleEndian, ih, List.length_cons, Nat.pow_succ']
      ring

theorem littleEndian_take (bytes : List Byte) (count : ℕ) :
    littleEndian (bytes.take count) = littleEndian bytes % 256 ^ count := by
  by_cases hcount : count ≤ bytes.length
  · have hsplit := littleEndian_append (bytes.take count) (bytes.drop count)
    have hlt := littleEndian_lt (bytes.take count)
    rw [List.take_append_drop] at hsplit
    rw [List.length_take, Nat.min_eq_left hcount] at hsplit hlt
    rw [hsplit, Nat.add_mul_mod_self_left, Nat.mod_eq_of_lt hlt]
  · have hlt := littleEndian_lt bytes
    rw [List.take_of_length_le (by omega), Nat.mod_eq_of_lt]
    exact Nat.lt_of_lt_of_le hlt (Nat.pow_le_pow_right (by decide) (by omega))

theorem littleEndian_drop (bytes : List Byte) (count : ℕ) :
    littleEndian (bytes.drop count) = littleEndian bytes / 256 ^ count := by
  by_cases hcount : count ≤ bytes.length
  · have hsplit := littleEndian_append (bytes.take count) (bytes.drop count)
    have hlt := littleEndian_lt (bytes.take count)
    rw [List.take_append_drop] at hsplit
    rw [List.length_take, Nat.min_eq_left hcount] at hsplit hlt
    rw [hsplit, Nat.add_mul_div_left _ _ (Nat.pow_pos (by decide)), Nat.div_eq_of_lt hlt,
      Nat.zero_add]
  · have hlt := littleEndian_lt bytes
    rw [List.drop_of_length_le (by omega), Nat.div_eq_of_lt]
    · rfl
    · exact Nat.lt_of_lt_of_le hlt (Nat.pow_le_pow_right (by decide) (by omega))

/-- A number that is read from the middle of a byte string. -/
theorem readLE_eq (bytes : List Byte) (pos count : ℕ) :
    readLE bytes pos count = littleEndian bytes / 256 ^ pos % 256 ^ count := by
  have hmod : littleEndian bytes % (256 ^ pos * 256 ^ count) / 256 ^ pos =
      littleEndian bytes / 256 ^ pos % 256 ^ count := Nat.mod_mul_right_div_self _ _ _
  rw [readLE, window, littleEndian_drop, littleEndian_take, Nat.pow_add, hmod]

/-- What was written is read back. -/
theorem readLE_bytesLE (before after : List Byte) {count v : ℕ} (hv : v < 256 ^ count) :
    readLE (before ++ (bytesLE count v ++ after)) before.length count = v := by
  rw [readLE, window, List.take_length_add_append, List.drop_left,
    List.take_left' (length_bytesLE count v), littleEndian_bytesLE, Nat.mod_eq_of_lt hv]

end ZstdJni.Native
