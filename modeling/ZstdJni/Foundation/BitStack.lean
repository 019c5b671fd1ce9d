/-
# Stacks of bits

A bit stream that is written forward and read backward is a stack: the fields that were
written last are read first.  The bits of a stack are a number, the bits that were pushed
last being its highest, and the length keeps the zeros at the top.

A field that is pushed in two parts, or popped in two parts, is the same field.
-/

import Mathlib.Algebra.Order.Ring.Nat
import Mathlib.Tactic.Ring

namespace ZstdJni.Foundation

/-- Bits one above the other, as a number of which the topmost bits may be zero. -/
@[ext]
structure BitStack where
  length : ℕ
  value : ℕ
  value_lt : value < 2 ^ length
  deriving DecidableEq

namespace BitStack

/-- No bits. -/
def empty : BitStack := ⟨0, 0, by decide⟩

/-- The lowest `n` bits of a number on top of a stack. -/
def push (s : BitStack) (v n : ℕ) : BitStack where
  length := s.length + n
  value := s.value + 2 ^ s.length * (v % 2 ^ n)
  value_lt := by
    have hfield : v % 2 ^ n + 1 ≤ 2 ^ n := Nat.mod_lt v (Nat.two_pow_pos n)
    calc s.value + 2 ^ s.length * (v % 2 ^ n)
        < 2 ^ s.length * (v % 2 ^ n + 1) := by
          rw [Nat.mul_add, Nat.mul_one, Nat.add_comm]
          exact Nat.add_lt_add_left s.value_lt _
      _ ≤ 2 ^ s.length * 2 ^ n := Nat.mul_le_mul_left _ hfield
      _ = 2 ^ (s.length + n) := (Nat.pow_add 2 _ _).symm

/-- The topmost `n` bits. -/
def top (s : BitStack) (n : ℕ) : ℕ := s.value / 2 ^ (s.length - n)

/-- What is below the topmost `n` bits. -/
def pop (s : BitStack) (n : ℕ) : BitStack where
  length := s.length - n
  value := s.value % 2 ^ (s.length - n)
  value_lt := Nat.mod_lt _ (Nat.two_pow_pos _)

variable (s : BitStack) (v w m n : ℕ)

@[simp]
theorem length_empty : empty.length = 0 := rfl

@[simp]
theorem length_push : (s.push v n).length = s.length + n := rfl

@[simp]
theorem length_pop : (s.pop n).length = s.length - n := rfl

theorem value_push : (s.push v n).value = s.value + 2 ^ s.length * (v % 2 ^ n) := rfl

theorem value_pop : (s.pop n).value = s.value % 2 ^ (s.length - n) := rfl

/-- The bits of an empty stack are no bits. -/
theorem eq_empty_of_length {s : BitStack} (hlength : s.length = 0) : s = empty := by
  have hlt := s.value_lt
  rw [hlength, Nat.pow_zero] at hlt
  exact BitStack.ext hlength (by simp only [empty]; omega)

/-- What was pushed is on top. -/
@[simp]
theorem top_push : (s.push v n).top n = v % 2 ^ n := by
  rw [top, value_push, length_push, Nat.add_sub_cancel,
    Nat.add_mul_div_left _ _ (Nat.two_pow_pos _),
    Nat.div_eq_of_lt s.value_lt, Nat.zero_add]

/-- What is below what was pushed is the stack from before. -/
@[simp]
theorem pop_push : (s.push v n).pop n = s := by
  have hlength : s.length + n - n = s.length := Nat.add_sub_cancel _ _
  refine BitStack.ext hlength ?_
  simp only [pop, value_push, length_push, hlength, Nat.add_mul_mod_self_left]
  exact Nat.mod_eq_of_lt s.value_lt

@[simp]
theorem push_zero : s.push v 0 = s := by
  refine BitStack.ext (Nat.add_zero _) ?_
  rw [value_push, Nat.pow_zero, Nat.mod_one, Nat.mul_zero, Nat.add_zero]

/-- A field pushed in two parts, the lower one first. -/
theorem push_push_shift : (s.push v m).push (v >>> m) n = s.push v (m + n) := by
  refine BitStack.ext (Nat.add_assoc _ _ _) ?_
  rw [value_push, value_push, value_push, length_push, Nat.shiftRight_eq_div_pow, Nat.pow_add 2 m n,
    Nat.mod_mul, Nat.pow_add]
  ring

/-- The topmost bits of a field are popped before the others. -/
theorem top_add (hmn : m + n ≤ s.length) :
    s.top (m + n) = s.top m * 2 ^ n + (s.pop m).top n := by
  have hsplit : s.length - m = (s.length - (m + n)) + n := by omega
  have hrest : s.length - m - n = s.length - (m + n) := by omega
  rw [top, top, top, value_pop, length_pop, hrest, hsplit, Nat.pow_add, Nat.mod_mul_right_div_self,
    ← Nat.div_div_eq_div_mul]
  exact (Nat.div_add_mod' _ _).symm

theorem pop_pop : (s.pop m).pop n = s.pop (m + n) := by
  have hlength : s.length - m - n = s.length - (m + n) := by omega
  refine BitStack.ext hlength ?_
  simp only [pop, hlength]
  exact Nat.mod_mod_of_dvd _ (Nat.pow_dvd_pow 2 (by omega))

@[simp]
theorem top_zero : s.top 0 = 0 := Nat.div_eq_of_lt s.value_lt

@[simp]
theorem pop_zero : s.pop 0 = s :=
  BitStack.ext rfl (Nat.mod_eq_of_lt s.value_lt)

end BitStack

end ZstdJni.Foundation
