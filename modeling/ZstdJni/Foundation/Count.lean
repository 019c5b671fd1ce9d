/-
# Sums over finitely many parties

Shared counters count over all parties: how often each of them holds something, or which
of them remember something.  A step of one party changes one entry, and the sum moves
with it.
-/

import Mathlib.Algebra.BigOperators.Group.Finset.Piecewise
import Mathlib.Algebra.Order.BigOperators.Group.Finset

namespace ZstdJni.Foundation

universe u

variable {ι : Type u} [Fintype ι]

/-- The sum after one entry is replaced. -/
theorem sum_update_add [DecidableEq ι] (f : ι → ℕ) (i : ι) (value : ℕ) :
    (∑ j, Function.update f i value j) + f i = (∑ j, f j) + value := by
  rw [Finset.sum_update_of_mem (Finset.mem_univ i),
    Finset.sum_eq_add_sum_sdiff_singleton_of_mem (Finset.mem_univ i) f]
  omega

theorem le_sum (f : ι → ℕ) (i : ι) : f i ≤ ∑ j, f j :=
  Finset.single_le_sum (fun _ _ => Nat.zero_le _) (Finset.mem_univ i)

end ZstdJni.Foundation
