/-
# Entropy coders with a table of states

A coder of this kind has a table with a power of two of slots, each of which belongs to a
symbol.  Its state is a number between the size of the table and twice the size.  To encode
a symbol that has `f` slots the lowest bits of the state are written away until the rest is
between `f` and `2 * f`; the rest selects one of the slots of the symbol, and the slot is
the next state.  A decoder that stands at a slot knows the symbol, how many bits were
written and the rest they were written away from.

This module is the arithmetic of one step, for any table, and the counting of slots.
-/

import Mathlib.Algebra.Order.Ring.Nat
import Mathlib.Data.List.Count
import Mathlib.Tactic.Ring

namespace ZstdJni.Foundation

universe u

section Slots

variable {S : Type u} [DecidableEq S]

/-- Every occurrence of a symbol in a table is at a slot, numbered by the occurrences in
front of it. -/
theorem exists_slot {table : List S} {s : S} {k : ℕ} (hk : k < table.count s) :
    ∃ before after, table = before ++ s :: after ∧ before.count s = k := by
  induction table generalizing k with
  | nil => simp at hk
  | cons t table ih =>
      by_cases hts : t = s
      · subst hts
        cases k with
        | zero => exact ⟨[], table, rfl, rfl⟩
        | succ k =>
            rw [List.count_cons_self] at hk
            obtain ⟨before, after, htable, hcount⟩ := ih (k := k) (by omega)
            exact ⟨t :: before, after, by rw [htable, List.cons_append], by
              rw [List.count_cons_self, hcount]⟩
      · rw [List.count_cons_of_ne hts] at hk
        obtain ⟨before, after, htable, hcount⟩ := ih hk
        exact ⟨t :: before, after, by rw [htable, List.cons_append], by
          rw [List.count_cons_of_ne hts, hcount]⟩

end Slots

section Arithmetic

variable {log f x n : ℕ}

/-- How many bits are written away at most for a symbol with `f` slots. -/
def maxBitsOut (log f : ℕ) : ℕ := log - (f - 1).log2

/-- How many bits are written away in state `x`. -/
def bitsOut (log f x : ℕ) : ℕ :=
  if f = 1 then log
  else if f * 2 ^ maxBitsOut log f ≤ x then maxBitsOut log f else maxBitsOut log f - 1

/-- What a symbol with more than one slot says about its widest field. -/
theorem maxBitsOut_spec (hf : 1 < f) (hle : f ≤ 2 ^ log) :
    0 < maxBitsOut log f ∧ maxBitsOut log f ≤ log ∧ 2 ^ log < f * 2 ^ maxBitsOut log f ∧
      f * 2 ^ maxBitsOut log f ≤ 2 ^ (log + 1) := by
  obtain ⟨hlow, hhigh⟩ := (Nat.log2_eq_iff (n := f - 1) (by omega)).mp rfl
  have hless : (f - 1).log2 < log := by
    rw [← Nat.pow_lt_pow_iff_right (a := 2) (by decide)]
    omega
  have hsplit : log = (f - 1).log2 + maxBitsOut log f := by
    unfold maxBitsOut
    omega
  have hpos := Nat.two_pow_pos (maxBitsOut log f)
  refine ⟨by omega, by omega, ?_, ?_⟩
  · nth_rewrite 1 [hsplit]
    rw [Nat.pow_add]
    exact Nat.mul_lt_mul_of_pos_right (by omega) hpos
  · nth_rewrite 2 [hsplit]
    rw [Nat.add_right_comm, Nat.pow_add]
    exact Nat.mul_le_mul_right _ (by omega)

/-- What is left of the state is between `f` and `2 * f`. -/
theorem bitsOut_spec (hf : 0 < f) (hle : f ≤ 2 ^ log) (hx : 2 ^ log ≤ x) (hx' : x < 2 ^ (log + 1)) :
    f ≤ x / 2 ^ bitsOut log f x ∧ x / 2 ^ bitsOut log f x < 2 * f := by
  rw [Nat.le_div_iff_mul_le (Nat.two_pow_pos _), Nat.div_lt_iff_lt_mul (Nat.two_pow_pos _)]
  have hdouble := Nat.pow_succ' (m := 2) (n := log)
  unfold bitsOut
  split_ifs with hone hlarge
  · subst hone
    omega
  · refine ⟨hlarge, ?_⟩
    have hmany : 1 < f := by omega
    obtain ⟨-, -, hmore, -⟩ := maxBitsOut_spec hmany hle
    rw [Nat.mul_assoc]
    omega
  · have hmany : 1 < f := by omega
    obtain ⟨hpos, -, -, hless⟩ := maxBitsOut_spec hmany hle
    have hhalf : 2 ^ maxBitsOut log f = 2 ^ (maxBitsOut log f - 1) * 2 := by
      rw [← Nat.pow_succ, Nat.succ_eq_add_one, Nat.sub_add_cancel hpos]
    rw [hhalf, ← Nat.mul_assoc] at hless hlarge
    rw [Nat.mul_assoc 2 f]
    omega

/-- From what is left of a state the decoder knows how many bits were written, and with them
it has the state back. -/
theorem decode_step (hx : 2 ^ log ≤ x) (hx' : x < 2 ^ (log + 1)) (hpos : 0 < x / 2 ^ n) :
    log - (x / 2 ^ n).log2 = n ∧ x / 2 ^ n * 2 ^ n - 2 ^ log + x % 2 ^ n = x - 2 ^ log := by
  have hle : 2 ^ n ≤ x := (Nat.div_pos_iff.mp hpos).2
  have hn : n ≤ log := by
    rw [← Nat.lt_succ_iff, ← Nat.pow_lt_pow_iff_right (a := 2) (by decide)]
    omega
  have hsplit : 2 ^ log = 2 ^ (log - n) * 2 ^ n := by rw [← Nat.pow_add, Nat.sub_add_cancel hn]
  have hlog : (x / 2 ^ n).log2 = log - n := by
    rw [Nat.log2_eq_iff (by omega), Nat.le_div_iff_mul_le (Nat.two_pow_pos n),
      Nat.div_lt_iff_lt_mul (Nat.two_pow_pos n), ← hsplit, Nat.pow_succ', Nat.mul_assoc, ← hsplit,
      ← Nat.pow_succ']
    exact ⟨hx, hx'⟩
  have hfront : 2 ^ log ≤ x / 2 ^ n * 2 ^ n := by
    rw [hsplit]
    refine Nat.mul_le_mul_right _ ?_
    rwa [Nat.le_div_iff_mul_le (Nat.two_pow_pos n), ← hsplit]
  have hparts := Nat.div_add_mod' x (2 ^ n)
  exact ⟨by rw [hlog]; omega, by omega⟩

end Arithmetic

end ZstdJni.Foundation
