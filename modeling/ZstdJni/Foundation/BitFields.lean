/-
# Queues of bit fields

A bit stream that is written and read forward is a queue of fields, the first field being
the lowest bits of a number.  Reading a field is taking these bits and shifting the number.
-/

import Mathlib.Algebra.Order.Ring.Nat
import Mathlib.Tactic.Ring

namespace ZstdJni.Foundation

/-- Values with their widths. -/
abbrev BitFields : Type := List (ℕ × ℕ)

namespace BitFields

/-- The number of bits. -/
def width : BitFields → ℕ
  | [] => 0
  | (_, n) :: fields => n + width fields

/-- The number that the fields are, one above the other. -/
def pack : BitFields → ℕ
  | [] => 0
  | (v, n) :: fields => v % 2 ^ n + 2 ^ n * pack fields

variable (fields fields' : BitFields) (v n : ℕ)

@[simp]
theorem width_nil : width [] = 0 := rfl

@[simp]
theorem width_cons : width ((v, n) :: fields) = n + width fields := rfl

@[simp]
theorem width_append : width (fields ++ fields') = width fields + width fields' := by
  induction fields with
  | nil => rw [List.nil_append, width_nil, Nat.zero_add]
  | cons field fields ih => rw [List.cons_append, width_cons, ih, width_cons, Nat.add_assoc]

@[simp]
theorem pack_nil : pack [] = 0 := rfl

theorem pack_cons : pack ((v, n) :: fields) = v % 2 ^ n + 2 ^ n * pack fields := rfl

theorem pack_append : pack (fields ++ fields') = pack fields + 2 ^ width fields * pack fields' := by
  induction fields with
  | nil => rw [List.nil_append, width_nil, pack_nil, Nat.pow_zero, Nat.one_mul, Nat.zero_add]
  | cons field fields ih =>
      rw [List.cons_append, pack_cons, ih, pack_cons, width_cons, Nat.pow_add]
      ring

theorem pack_lt : pack fields < 2 ^ width fields := by
  induction fields with
  | nil => exact Nat.one_pos
  | cons field fields ih =>
      obtain ⟨v, n⟩ := field
      have hfield : v % 2 ^ n < 2 ^ n := Nat.mod_lt v (Nat.two_pow_pos n)
      calc pack ((v, n) :: fields)
          < 2 ^ n + 2 ^ n * pack fields := Nat.add_lt_add_right hfield _
        _ = 2 ^ n * (pack fields + 1) := by ring
        _ ≤ 2 ^ n * 2 ^ width fields := Nat.mul_le_mul_left _ ih
        _ = 2 ^ width ((v, n) :: fields) := (Nat.pow_add 2 _ _).symm

/-- What is in front of a number that begins with some fields. -/
def Begins (fields : BitFields) (stream : ℕ) : Prop :=
  ∃ behind, stream = pack fields + 2 ^ width fields * behind

variable {fields v n} {stream : ℕ}

theorem Begins.read (h : Begins ((v, n) :: fields) stream) (hv : v < 2 ^ n) :
    stream % 2 ^ n = v := by
  obtain ⟨behind, rfl⟩ := h
  rw [pack_cons, Nat.mod_eq_of_lt hv, width_cons, Nat.pow_add, Nat.mul_assoc, Nat.add_assoc,
    ← Nat.mul_add, Nat.add_mul_mod_self_left, Nat.mod_eq_of_lt hv]

theorem Begins.rest (h : Begins ((v, n) :: fields) stream) : Begins fields (stream / 2 ^ n) := by
  obtain ⟨behind, rfl⟩ := h
  refine ⟨behind, ?_⟩
  rw [pack_cons, width_cons, Nat.pow_add, Nat.mul_assoc, Nat.add_assoc, ← Nat.mul_add,
    Nat.add_mul_div_left _ _ (Nat.two_pow_pos n),
    Nat.div_eq_of_lt (Nat.mod_lt v (Nat.two_pow_pos n)), Nat.zero_add]

theorem Begins.append (h : Begins (fields ++ fields') stream) :
    Begins fields stream ∧ Begins fields' (stream / 2 ^ width fields) := by
  obtain ⟨behind, rfl⟩ := h
  rw [pack_append, width_append]
  refine ⟨⟨pack fields' + 2 ^ width fields' * behind, by ring⟩, behind, ?_⟩
  have hsum : pack fields + 2 ^ width fields * pack fields' +
      2 ^ (width fields + width fields') * behind =
        pack fields + 2 ^ width fields * (pack fields' + 2 ^ width fields' * behind) := by ring
  rw [hsum, Nat.add_mul_div_left _ _ (Nat.two_pow_pos _), Nat.div_eq_of_lt (pack_lt fields),
    Nat.zero_add]

end BitFields

end ZstdJni.Foundation
