/-
# Ring buffers

A queue is held in a fixed number of cells.  The elements that ever came in are numbered, and
each goes to the cell that is its number modulo the number of cells.  As long as the queue is
no longer than there are cells, what comes in overwrites nothing that is still in the queue.
-/

import Mathlib.Data.Nat.ModEq

namespace ZstdJni.Foundation

variable {α : Type} {cells queue : List α} {first : ℕ}

/-- The cells hold a queue, of which the front has a number. -/
structure Rings (cells : List α) (first : ℕ) (queue : List α) : Prop where
  length_le : queue.length ≤ cells.length
  cell : ∀ i, i < queue.length → cells[(first + i) % cells.length]? = queue[i]?

namespace Rings

theorem empty (cells : List α) (first : ℕ) : Rings cells first [] :=
  ⟨Nat.zero_le _, fun i hi => absurd hi (Nat.not_lt_zero i)⟩

/-- The front of the queue is in the cell with its number. -/
theorem front {x : α} (h : Rings cells first (x :: queue)) :
    cells[first % cells.length]? = some x :=
  h.cell 0 (Nat.succ_pos _)

/-- The front leaves the queue, and the cells stay as they are. -/
theorem pop {x : α} (h : Rings cells first (x :: queue)) : Rings cells (first + 1) queue := by
  refine ⟨(Nat.le_succ _).trans h.length_le, fun i hi => ?_⟩
  have hnext := h.cell (i + 1) (Nat.succ_lt_succ hi)
  rwa [List.getElem?_cons_succ, ← Nat.add_assoc, Nat.add_right_comm] at hnext

/-- Something comes in where there is room. -/
theorem push (h : Rings cells first queue) (hroom : queue.length < cells.length) (x : α) :
    Rings (cells.set ((first + queue.length) % cells.length) x) first (queue ++ [x]) := by
  refine ⟨by rw [List.length_set, List.length_append]; exact hroom, fun i hi => ?_⟩
  rw [List.length_append, List.length_singleton] at hi
  rw [List.length_set]
  rcases Nat.lt_or_eq_of_le (Nat.le_of_lt_succ hi) with hold | rfl
  · have hne : (first + queue.length) % cells.length ≠ (first + i) % cells.length := by
      intro hsame
      have hindex : queue.length ≡ i [MOD cells.length] := Nat.ModEq.add_left_cancel' first hsame
      exact hold.ne' (hindex.eq_of_lt_of_lt hroom (hold.trans hroom))
    rw [List.getElem?_set_ne hne, List.getElem?_append_left hold]
    exact h.cell i hold
  · have hcell : (first + queue.length) % cells.length < cells.length :=
      Nat.mod_lt _ (Nat.lt_of_le_of_lt (Nat.zero_le _) hroom)
    rw [List.getElem?_set_self hcell, List.getElem?_concat_length]

end Rings

end ZstdJni.Foundation
