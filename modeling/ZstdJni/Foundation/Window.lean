/-
# Windows of a buffer

A stream filter works on windows of arrays: it reads the cells between a
position and a limit, and it overwrites cells from a position on.  Both views are
functions on lists here.  The lemmas say how they meet: cells that were just
written are the cells a window reads back, and extending a write at the end of a
window extends what the window shows.
-/

import Mathlib.Data.List.Basic
import Mathlib.Tactic.Common

namespace ZstdJni.Foundation

universe u

variable {α : Type u}

/-- The cells of `cells` from position `lo` up to, and excluding, `hi`. -/
def window (cells : List α) (lo hi : ℕ) : List α :=
  (cells.take hi).drop lo

/-- Replace the cells from position `pos` on by `fresh`. -/
def overwrite (cells : List α) (pos : ℕ) (fresh : List α) : List α :=
  cells.take pos ++ fresh ++ cells.drop (pos + fresh.length)

@[simp]
theorem window_self (cells : List α) (pos : ℕ) : window cells pos pos = [] := by
  simp [window]

@[simp]
theorem overwrite_nil (cells : List α) (pos : ℕ) : overwrite cells pos [] = cells := by
  simp [overwrite]

theorem length_window {cells : List α} (lo : ℕ) {hi : ℕ} (hhi : hi ≤ cells.length) :
    (window cells lo hi).length = hi - lo := by
  simp [window, Nat.min_eq_left hhi]

/-- Reading on from inside a window is dropping what was already read. -/
theorem window_add (cells : List α) (lo count hi : ℕ) :
    window cells (lo + count) hi = (window cells lo hi).drop count := by
  simp [window]

theorem length_overwrite {cells fresh : List α} {pos : ℕ}
    (hfits : pos + fresh.length ≤ cells.length) :
    (overwrite cells pos fresh).length = cells.length := by
  simp only [overwrite, List.length_append, List.length_take, List.length_drop]
  omega

/-- A write that starts where a window ends extends the window by what was
written. -/
theorem window_overwrite (cells fresh : List α) {lo pos : ℕ} (hlo : lo ≤ pos)
    (hpos : pos ≤ cells.length) :
    window (overwrite cells pos fresh) lo (pos + fresh.length) =
      window cells lo pos ++ fresh := by
  have hlen : (cells.take pos ++ fresh).length = pos + fresh.length := by
    simp [Nat.min_eq_left hpos]
  rw [window, overwrite, ← hlen, List.take_left, List.drop_append_of_le_length (by simp; omega),
    window]

/-- Writing what is there changes nothing. -/
theorem overwrite_window {cells : List α} {pos count : ℕ} (hfits : pos + count ≤ cells.length) :
    overwrite cells pos (window cells pos (pos + count)) = cells := by
  have hfront : cells.take pos = (cells.take (pos + count)).take pos := by
    rw [List.take_take, Nat.min_eq_left (Nat.le_add_right pos count)]
  rw [overwrite, length_window pos hfits, Nat.add_sub_cancel_left, window, hfront,
    List.take_append_drop, List.take_append_drop]

/-- Cells that are overwritten stay as they were exactly if the same is written. -/
theorem overwrite_eq_self_iff {cells fresh : List α} {pos : ℕ}
    (hfits : pos + fresh.length ≤ cells.length) :
    overwrite cells pos fresh = cells ↔ fresh = window cells pos (pos + fresh.length) := by
  constructor
  · intro heq
    have hback := window_overwrite cells fresh (Nat.le_refl pos) (by omega)
    rw [heq, window_self, List.nil_append] at hback
    exact hback.symm
  · intro heq
    rw [heq]
    have hkept := overwrite_window hfits
    rw [← heq] at hkept ⊢
    exact hkept

/-- Two writes, the second right behind the first, are one write. -/
theorem overwrite_overwrite {cells first second : List α} {pos : ℕ} (hpos : pos ≤ cells.length) :
    overwrite (overwrite cells pos first) (pos + first.length) second =
      overwrite cells pos (first ++ second) := by
  have hlen : (cells.take pos ++ first).length = pos + first.length := by
    simp [Nat.min_eq_left hpos]
  rw [overwrite, overwrite, ← hlen, List.take_left, List.drop_append, List.drop_of_length_le
    (by omega), List.nil_append, List.drop_drop, overwrite, List.length_append, List.append_assoc]
  simp only [List.append_assoc, List.length_append, List.length_take, Nat.min_eq_left hpos]
  congr 4
  omega

/-- Cells in front of a write are not touched by it. -/
theorem take_overwrite {cells fresh : List α} {pos count : ℕ} (hcount : count ≤ pos)
    (hpos : pos ≤ cells.length) :
    (overwrite cells pos fresh).take count = cells.take count := by
  rw [overwrite, List.append_assoc, List.take_append_of_le_length (by simp; omega),
    List.take_take, Nat.min_eq_left hcount]

/-- Cells behind a write are not touched by it. -/
theorem drop_overwrite {cells fresh : List α} {pos count : ℕ}
    (hcount : pos + fresh.length ≤ count) (hfits : pos + fresh.length ≤ cells.length) :
    (overwrite cells pos fresh).drop count = cells.drop count := by
  have hlen : (cells.take pos ++ fresh).length = pos + fresh.length := by
    simp only [List.length_append, List.length_take]; omega
  rw [overwrite, List.drop_append, List.drop_of_length_le (by omega), List.nil_append, hlen,
    List.drop_drop]
  congr 1
  omega

end ZstdJni.Foundation
