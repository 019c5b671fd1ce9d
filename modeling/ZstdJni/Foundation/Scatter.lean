/-
# Scattering values over a table

Values are written into the cells of a table at positions that are visited with a fixed
step, around the end of the table and past the cells that are reserved.  If the step has
no factor in common with the size of the table, every cell that is not reserved is visited
exactly once before the walk is back at its start.

What such writes leave in the table is a permutation of the values.
-/

import Mathlib.Data.List.Nodup
import Mathlib.Data.List.Perm.Subperm
import Mathlib.Data.Nat.ModEq
import Mathlib.Tactic.Common

namespace ZstdJni.Foundation

universe u

variable {α : Type u}

/-- What is in a table after one write. -/
theorem getD_set (cells : List α) (i j : ℕ) (v : α) {d : α} (hi : i = j → i < cells.length) :
    (cells.set i v).getD j d = if i = j then v else cells.getD j d := by
  rw [List.getD_eq_getElem?_getD, List.getD_eq_getElem?_getD]
  by_cases hij : i = j
  · have hlt := hi hij
    subst hij
    rw [if_pos rfl, List.getElem?_set_self hlt, Option.getD_some]
  · rw [if_neg hij, List.getElem?_set_ne hij]

/-- Write values at positions, one after the other. -/
def scatter (cells : List α) : List ℕ → List α → List α
  | [], _ => cells
  | _ :: _, [] => cells
  | p :: ps, v :: vs => scatter (cells.set p v) ps vs

@[simp]
theorem length_scatter (cells : List α) (ps : List ℕ) (vs : List α) :
    (scatter cells ps vs).length = cells.length := by
  induction ps generalizing cells vs with
  | nil => rw [scatter]
  | cons p ps ih =>
      cases vs with
      | nil => rfl
      | cons v vs => rw [scatter, ih, List.length_set]

/-- Writes to some positions after writes to others. -/
theorem scatter_append (cells : List α) {ps : List ℕ} {vs : List α} (ps' : List ℕ) (vs' : List α)
    (hlength : ps.length = vs.length) :
    scatter cells (ps ++ ps') (vs ++ vs') = scatter (scatter cells ps vs) ps' vs' := by
  induction ps generalizing cells vs with
  | nil =>
      obtain rfl := List.length_eq_zero_iff.mp hlength.symm
      rfl
  | cons p ps ih =>
      cases vs with
      | nil => simp at hlength
      | cons v vs => exact ih (cells.set p v) (by simpa using hlength)

/-- A cell that is not written to keeps its value. -/
theorem getElem?_scatter_of_not_mem (cells : List α) {ps : List ℕ} (vs : List α) {i : ℕ}
    (hi : i ∉ ps) : (scatter cells ps vs)[i]? = cells[i]? := by
  induction ps generalizing cells vs with
  | nil => rw [scatter]
  | cons p ps ih =>
      simp only [List.mem_cons, not_or] at hi
      cases vs with
      | nil => rfl
      | cons v vs => rw [scatter, ih _ _ hi.2, List.getElem?_set_ne (Ne.symm hi.1)]

/-- Read at the positions that were written, the table gives the values back. -/
theorem map_getElem?_scatter (cells vs : List α) {ps : List ℕ} (hnodup : ps.Nodup)
    (hinside : ∀ p ∈ ps, p < cells.length) (hlength : ps.length = vs.length) :
    ps.map (fun p => (scatter cells ps vs)[p]?) = vs.map some := by
  induction ps generalizing cells vs with
  | nil =>
      obtain rfl := List.length_eq_zero_iff.mp hlength.symm
      rfl
  | cons p ps ih =>
      obtain ⟨hp, hnodup⟩ := List.nodup_cons.mp hnodup
      cases vs with
      | nil => simp at hlength
      | cons v vs =>
          have hhead : (scatter (cells.set p v) ps vs)[p]? = some v := by
            rw [getElem?_scatter_of_not_mem _ _ hp, List.getElem?_set_self (hinside p (by simp))]
          have htail := @ih (cells.set p v) vs hnodup
            (fun q hq => by rw [List.length_set]; exact hinside q (by simp [hq]))
            (by simpa using hlength)
          rw [List.map_cons, List.map_cons, scatter, hhead, htail]

/-- Writing to every cell once leaves the values, in some order. -/
theorem scatter_perm {cells vs : List α} {ps : List ℕ} (hps : ps.Perm (List.range cells.length))
    (hvs : vs.length = cells.length) : (scatter cells ps vs).Perm vs := by
  have hlength : ps.length = vs.length := by rw [hps.length_eq, List.length_range, hvs]
  have hread := map_getElem?_scatter cells vs (hps.nodup_iff.mpr List.nodup_range)
    (fun p hp => List.mem_range.mp (hps.mem_iff.mp hp)) hlength
  have hcells : (List.range cells.length).map (fun p => (scatter cells ps vs)[p]?) =
      (scatter cells ps vs).map some := by
    refine List.ext_getElem (by simp) fun i hi hi' => ?_
    have hinside : i < (scatter cells ps vs).length := by simpa using hi'
    simp [List.getElem?_eq_getElem hinside]
  have hperm := hps.map fun p => (scatter cells ps vs)[p]?
  rw [hread, hcells] at hperm
  exact ((List.map_perm_map_iff (Option.some_injective α)).mp hperm).symm

section Walk

variable (step size bound : ℕ)

/-- Walk on from a position until it is below the bound. -/
def skipFrom : ℕ → ℕ → ℕ
  | 0, p => p
  | fuel + 1, p => if bound ≤ p then skipFrom fuel ((p + step) % size) else p

/-- The next position of a walk. -/
def nextPosition (p : ℕ) : ℕ := skipFrom step size bound size ((p + step) % size)

/-- The positions of a walk, with the one it comes to in the end. -/
def walk : ℕ → ℕ → List ℕ × ℕ
  | 0, p => ([], p)
  | count + 1, p =>
    let rest := walk count (nextPosition step size bound p)
    (p :: rest.1, rest.2)

/-- The positions from the `i`-th multiple of the step on. -/
def multiplesFrom (i : ℕ) : List ℕ := (List.range' i (size - i)).map fun j => j * step % size

variable {step size bound}

theorem multiplesFrom_eq_cons {i : ℕ} (hi : i < size) :
    multiplesFrom step size i = i * step % size :: multiplesFrom step size (i + 1) := by
  have hcount : size - i = size - (i + 1) + 1 := by omega
  rw [multiplesFrom, hcount, List.range'_succ, List.map_cons, multiplesFrom]

theorem multiplesFrom_size : multiplesFrom step size size = [] := by
  simp [multiplesFrom]

theorem length_multiplesFrom (i : ℕ) : (multiplesFrom step size i).length = size - i := by
  simp [multiplesFrom]

/-- Without reserved cells nothing is skipped. -/
theorem multiples_below (hpos : 0 < size) :
    (multiplesFrom step size 0).filter (· < size) = multiplesFrom step size 0 := by
  refine List.filter_eq_self.mpr fun p hp => ?_
  obtain ⟨i, -, rfl⟩ := List.mem_map.mp hp
  exact decide_eq_true (Nat.mod_lt _ hpos)

/-- With a coprime step the multiples visit every position. -/
theorem multiplesFrom_perm (hcoprime : Nat.Coprime step size) :
    (multiplesFrom step size 0).Perm (List.range size) := by
  rcases Nat.eq_zero_or_pos size with rfl | hpos
  · simp [multiplesFrom]
  have hnodup : (multiplesFrom step size 0).Nodup := by
    refine List.Nodup.map_on ?_ List.nodup_range'
    intro i hi j hj heq
    have hmod : i * step ≡ j * step [MOD size] := heq
    have hlt (k : ℕ) (hk : k ∈ List.range' 0 (size - 0)) : k < size := by simpa using hk
    have hcancel := Nat.ModEq.cancel_right_of_coprime (Nat.coprime_comm.mp hcoprime) hmod
    rw [Nat.ModEq, Nat.mod_eq_of_lt (hlt i hi), Nat.mod_eq_of_lt (hlt j hj)] at hcancel
    exact hcancel
  have hsubset : multiplesFrom step size 0 ⊆ List.range size := by
    intro p hp
    obtain ⟨i, -, rfl⟩ := List.mem_map.mp hp
    exact List.mem_range.mpr (Nat.mod_lt _ hpos)
  exact (List.subperm_of_subset hnodup hsubset).perm_of_length_le (by simp [multiplesFrom])

theorem mul_step_succ (i : ℕ) : (i * step % size + step) % size = (i + 1) * step % size := by
  rw [Nat.mod_add_mod, Nat.succ_mul]

/-- Skipping goes on to the next multiple below the bound; the walk is not longer than one
round, at whose end it is at zero. -/
theorem skipFrom_multiple (step : ℕ) (hbound : 0 < bound) {i : ℕ} (hi : i ≤ size) {fuel : ℕ}
    (hfuel : size - i ≤ fuel) :
    ∃ j, i ≤ j ∧ j ≤ size ∧ j * step % size < bound ∧
      skipFrom step size bound fuel (i * step % size) = j * step % size ∧
      (multiplesFrom step size i).filter (· < bound) =
        (multiplesFrom step size j).filter (· < bound) := by
  induction fuel generalizing i with
  | zero =>
      obtain rfl : i = size := by omega
      exact ⟨i, Nat.le_refl i, Nat.le_refl i, by rwa [Nat.mul_mod_right], rfl, rfl⟩
  | succ fuel ih =>
      by_cases hbelow : i * step % size < bound
      · refine ⟨i, Nat.le_refl i, hi, hbelow, ?_, rfl⟩
        rw [skipFrom, if_neg (by omega)]
      · have hless : i < size := by
          refine Nat.lt_of_le_of_ne hi ?_
          rintro rfl
          rw [Nat.mul_mod_right] at hbelow
          exact hbelow hbound
        obtain ⟨j, hij, hj, hjbound, hskip, hfilter⟩ := ih (i := i + 1) hless (by omega)
        refine ⟨j, by omega, hj, hjbound, ?_, ?_⟩
        · rw [skipFrom, if_pos (by omega), mul_step_succ, hskip]
        · rw [multiplesFrom_eq_cons hless, List.filter_cons, if_neg (by simpa using hbelow),
            hfilter]

/-- A walk visits the multiples below the bound that are left, and ends at zero. -/
theorem walk_multiple (i : ℕ) (hbound : 0 < bound) {count : ℕ} (hi : i ≤ size)
    (hbelow : i * step % size < bound)
    (hcount : ((multiplesFrom step size i).filter (· < bound)).length = count) :
    walk step size bound count (i * step % size) =
      ((multiplesFrom step size i).filter (· < bound), 0) := by
  induction count generalizing i with
  | zero =>
      have hend : i = size := by
        by_contra hne
        rw [multiplesFrom_eq_cons (by omega), List.filter_cons,
          if_pos (by simpa using hbelow)] at hcount
        simp at hcount
      rw [hend, multiplesFrom_size, Nat.mul_mod_right, walk, List.filter_nil]
  | succ count ih =>
      have hless : i < size := by
        refine Nat.lt_of_le_of_ne hi ?_
        rintro rfl
        rw [multiplesFrom_size] at hcount
        simp at hcount
      obtain ⟨j, -, hj, hjbound, hskip, hfilter⟩ :=
        skipFrom_multiple step hbound hless (Nat.sub_le size (i + 1))
      have hhead : (multiplesFrom step size i).filter (· < bound) =
          i * step % size :: (multiplesFrom step size j).filter (· < bound) := by
        rw [multiplesFrom_eq_cons hless, List.filter_cons, if_pos (by simpa using hbelow), hfilter]
      have hnext : nextPosition step size bound (i * step % size) = j * step % size := by
        rw [nextPosition, mul_step_succ, hskip]
      rw [hhead, List.length_cons] at hcount
      rw [walk, hnext, ih j hj hjbound (by omega), hhead]

/-- The walk through all the cells below the bound visits each of them once and comes back to
its start. -/
theorem walk_perm (hcoprime : Nat.Coprime step size) (hbound : 0 < bound) (hle : bound ≤ size) :
    (walk step size bound bound 0).1.Perm (List.range bound) ∧
      (walk step size bound bound 0).2 = 0 := by
  have hperm : ((multiplesFrom step size 0).filter (· < bound)).Perm (List.range bound) := by
    refine ((multiplesFrom_perm hcoprime).filter _).trans ?_
    refine (List.perm_ext_iff_of_nodup (List.nodup_range.filter _) List.nodup_range).mpr fun p => ?_
    simp only [List.mem_filter, List.mem_range, decide_eq_true_eq]
    omega
  have hwalk := walk_multiple 0 hbound (Nat.zero_le size)
    (by rwa [Nat.zero_mul, Nat.zero_mod]) hperm.length_eq
  rw [Nat.zero_mul, Nat.zero_mod, List.length_range] at hwalk
  rw [hwalk]
  exact ⟨hperm, rfl⟩

theorem length_walk (count p : ℕ) : (walk step size bound count p).1.length = count := by
  induction count generalizing p with
  | zero => rfl
  | succ count ih => rw [walk, List.length_cons, ih]

end Walk

end ZstdJni.Foundation
