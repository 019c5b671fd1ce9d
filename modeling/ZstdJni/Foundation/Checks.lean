/-
# Checks in 32-bit arithmetic

Bounds are checked before memory is touched, by comparisons of sums and differences of
signed 32-bit numbers.  Such a check is sound as long as nothing wraps around.  Here a sum
or difference is kept together with its exact value, and a check with the sums that were
computed for it.  Checks are made one after the other, up to the first that refuses.
-/

import Mathlib.Algebra.GroupWithZero.Nat
import Mathlib.Algebra.Ring.Int.Defs
import Mathlib.Data.Int.Basic
import Mathlib.Tactic.Common

namespace ZstdJni.Foundation

universe u

/-- The result of an addition or subtraction of 32-bit numbers, with its exact value. -/
structure Arith where
  word : BitVec 32
  exact : ℤ

namespace Arith

/-- Nothing wrapped around. -/
def Fits (a : Arith) : Prop := a.word.toInt = a.exact

def sum (x y : BitVec 32) : Arith := ⟨x + y, x.toInt + y.toInt⟩

def difference (x y : BitVec 32) : Arith := ⟨x - y, x.toInt - y.toInt⟩

theorem bmod_of_bounds {value : ℤ} (hlow : -2 ^ 31 ≤ value) (hhigh : value < 2 ^ 31) :
    value.bmod (2 ^ 32) = value := by
  rw [Int.bmod_def]
  omega

theorem fits_sum {x y : BitVec 32} (hlow : -2 ^ 31 ≤ x.toInt + y.toInt)
    (hhigh : x.toInt + y.toInt < 2 ^ 31) : (sum x y).Fits := by
  rw [Fits, sum, BitVec.toInt_add]
  exact bmod_of_bounds hlow hhigh

theorem fits_difference {x y : BitVec 32} (hlow : -2 ^ 31 ≤ x.toInt - y.toInt)
    (hhigh : x.toInt - y.toInt < 2 ^ 31) : (difference x y).Fits := by
  rw [Fits, difference, BitVec.toInt_sub]
  exact bmod_of_bounds hlow hhigh

end Arith

/-- A check: whether it refuses, what was computed for it, and the reason it gives. -/
structure Check (ε : Type u) where
  refuses : Bool
  ariths : List Arith
  reason : ε

variable {ε : Type u}

/-- The checks one after the other: the reason of the first that refuses, if there is one,
and what was computed up to then. -/
def firstRefusal : List (Check ε) → Option ε × List Arith
  | [] => (none, [])
  | c :: checks =>
    if c.refuses then (some c.reason, c.ariths)
    else ((firstRefusal checks).1, c.ariths ++ (firstRefusal checks).2)

theorem firstRefusal_eq_none {checks : List (Check ε)} (hpass : ∀ c ∈ checks, c.refuses = false) :
    (firstRefusal checks).1 = none := by
  induction checks with
  | nil => rfl
  | cons c checks ih =>
      rw [firstRefusal, if_neg (by simp [hpass c List.mem_cons_self])]
      exact ih fun c' hc' => hpass c' (List.mem_cons_of_mem _ hc')

theorem firstRefusal_eq_some {checks : List (Check ε)} {c : Check ε} (hc : c ∈ checks)
    (hrefuses : c.refuses = true) : ∃ reason, (firstRefusal checks).1 = some reason := by
  induction checks with
  | nil => exact absurd hc List.not_mem_nil
  | cons first checks ih =>
      rw [firstRefusal]
      by_cases hfirst : first.refuses = true
      · exact ⟨first.reason, by rw [if_pos hfirst]⟩
      · rw [if_neg hfirst]
        rcases List.mem_cons.mp hc with rfl | hrest
        · exact absurd hrefuses hfirst
        · exact ih hrest

/-- A reason is the one of a check that refuses. -/
theorem exists_of_firstRefusal {checks : List (Check ε)} {reason : ε}
    (hreason : (firstRefusal checks).1 = some reason) :
    ∃ c ∈ checks, c.refuses = true ∧ c.reason = reason := by
  induction checks with
  | nil => exact (nomatch hreason)
  | cons first checks ih =>
      rw [firstRefusal] at hreason
      by_cases hfirst : first.refuses = true
      · rw [if_pos hfirst] at hreason
        exact ⟨first, List.mem_cons_self, hfirst, Option.some.inj hreason⟩
      · rw [if_neg hfirst] at hreason
        obtain ⟨c, hc, hrefuses⟩ := ih hreason
        exact ⟨c, List.mem_cons_of_mem _ hc, hrefuses⟩

/-- What was computed was computed for one of the checks. -/
theorem mem_firstRefusal {checks : List (Check ε)} {a : Arith} (ha : a ∈ (firstRefusal checks).2) :
    ∃ c ∈ checks, a ∈ c.ariths := by
  induction checks with
  | nil => exact absurd ha List.not_mem_nil
  | cons first checks ih =>
      rw [firstRefusal] at ha
      by_cases hfirst : first.refuses = true
      · rw [if_pos hfirst] at ha
        exact ⟨first, List.mem_cons_self, ha⟩
      · rw [if_neg hfirst] at ha
        rcases List.mem_append.mp ha with h | h
        · exact ⟨first, List.mem_cons_self, h⟩
        · obtain ⟨c, hc, hmem⟩ := ih h
          exact ⟨c, List.mem_cons_of_mem _ hc, hmem⟩

/-- A window lies inside of something of a given length. -/
def Inside (offset size length : ℤ) : Prop := 0 ≤ offset ∧ 0 ≤ size ∧ offset + size ≤ length

instance (offset size length : ℤ) : Decidable (Inside offset size length) :=
  inferInstanceAs (Decidable (0 ≤ offset ∧ 0 ≤ size ∧ offset + size ≤ length))

/-- A length that a signed 32-bit number can hold. -/
theorem toInt_ofNat_of_lt {length : ℕ} (hlength : length < 2 ^ 31) :
    (BitVec.ofNat 32 length).toInt = length := by
  have hvalue : (BitVec.ofNat 32 length).toNat = length := by
    rw [BitVec.toNat_ofNat, Nat.mod_eq_of_lt (by omega)]
  rw [BitVec.toInt_eq_toNat_of_lt (by omega), hvalue]

theorem toInt_bounds (x : BitVec 32) : -2 ^ 31 ≤ x.toInt ∧ x.toInt < 2 ^ 31 :=
  ⟨x.le_toInt, x.toInt_lt⟩

end ZstdJni.Foundation
