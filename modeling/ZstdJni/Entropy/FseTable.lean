/-
# The table of a finite state entropy coder

`FSE_buildCTable_wksp`, `FSE_buildDTable_internal` and `ZSTD_buildFSETable_body` spread the
symbols over the table in the same way: symbols of low probability from the end downward,
the others with a fixed step through the rest.  If no symbol has a low probability the
symbols are first laid down in order, eight bytes at a time, and then moved to their places,
two at a time.

Either way every symbol has as many slots as its normalized count says.
-/

import Mathlib.Data.Nat.Prime.Basic
import ZstdJni.Foundation.Scatter
import ZstdJni.Foundation.TableCoder
import ZstdJni.Foundation.Window

namespace ZstdJni.Entropy

open ZstdJni.Foundation

/-- `FSE_TABLESTEP`. -/
def tableStep (tableSize : ℕ) : ℕ := (tableSize >>> 1) + (tableSize >>> 3) + 3

/-- How many slots a normalized count stands for: `-1` is one slot of low probability. -/
def slots (n : ℤ) : ℕ := if n = -1 then 1 else n.toNat

theorem sum_slots_cons (n : ℤ) (norm : List ℤ) :
    ((n :: norm).map slots).sum = slots n + (norm.map slots).sum := by
  rw [List.map_cons, List.sum_cons]

/-- One of some numbers is changed. -/
theorem sum_set {counts : List ℕ} {i : ℕ} (hi : i < counts.length) (n : ℕ) :
    (counts.set i n).sum + counts.getD i 0 = counts.sum + n := by
  induction counts generalizing i with
  | nil => exact absurd hi (Nat.not_lt_zero i)
  | cons c counts ih =>
      cases i with
      | zero =>
          rw [List.set_cons_zero, List.sum_cons, List.sum_cons, List.getD_cons_zero]
          omega
      | succ i =>
          have hrest := ih (Nat.lt_of_succ_lt_succ hi)
          rw [List.set_cons_succ, List.sum_cons, List.sum_cons, List.getD_cons_succ]
          omega

/-- The slots of a symbol are changed. -/
theorem sum_slots_set {norm : List ℤ} {i : ℕ} (hi : i < norm.length) (n : ℤ) :
    ((norm.set i n).map slots).sum + slots (norm.getD i 0) = (norm.map slots).sum + slots n := by
  have hget : (norm.map slots).getD i 0 = slots (norm.getD i 0) := by
    rw [List.getD_eq_getElem?_getD, List.getD_eq_getElem?_getD, List.getElem?_map]
    cases norm[i]? <;> rfl
  have hset := sum_set (show i < (norm.map slots).length by rwa [List.length_map]) (slots n)
  rwa [← List.map_set, hget] at hset

theorem slots_eq_natAbs {n : ℤ} (hn : -1 ≤ n) : slots n = n.natAbs := by
  unfold slots
  split_ifs with hlow
  · rw [hlow]
    rfl
  · omega

/-- Normalized counts: the number of slots of each symbol, and the logarithm of their sum. -/
structure NormalizedCounter where
  counts : List ℤ
  tableLog : ℕ
  count_ge : ∀ n ∈ counts, -1 ≤ n
  sum_slots : (counts.map slots).sum = 2 ^ tableLog
  /-- `FSE_MIN_TABLELOG`. -/
  tableLog_ge : 5 ≤ tableLog
  /-- `FSE_MAX_TABLELOG`. -/
  tableLog_le : tableLog ≤ 12

/-- The symbols of low probability are laid down from the end.  The second component is
`highThreshold + 1`. -/
def layLowProb : List ℤ → ℕ → List ℕ × ℕ → List ℕ × ℕ
  | [], _, st => st
  | n :: rest, s, (cells, bound) =>
    if n = -1 then layLowProb rest (s + 1) (cells.set (bound - 1) s, bound - 1)
    else layLowProb rest (s + 1) (cells, bound)

/-- The occurrences of one symbol. -/
def placeSymbol (step size bound s : ℕ) : ℕ → List ℕ × ℕ → List ℕ × ℕ
  | 0, st => st
  | n + 1, (cells, position) =>
    placeSymbol step size bound s n (cells.set position s, nextPosition step size bound position)

/-- The loop over the symbols, with the position from which it goes on. -/
def spreadSymbols (step size bound : ℕ) : List ℤ → ℕ → List ℕ × ℕ → List ℕ × ℕ
  | [], _, st => st
  | n :: rest, s, st =>
    spreadSymbols step size bound rest (s + 1) (placeSymbol step size bound s n.toNat st)

/-- `MEM_write64` of a symbol in all eight bytes. -/
def write64 (spread : List ℕ) (pos s : ℕ) : List ℕ := overwrite spread pos (List.replicate 8 s)

/-- The writes for one symbol behind the first one. -/
def layRun (pos n s : ℕ) : ℕ → ℕ → List ℕ → List ℕ
  | 0, _, spread => spread
  | fuel + 1, i, spread =>
    if i < n then layRun pos n s fuel (i + 8) (write64 spread (pos + i) s) else spread

/-- The symbols laid down in order. -/
def layDown : List ℤ → ℕ → List ℕ → ℕ → List ℕ
  | [], _, spread, _ => spread
  | n :: rest, s, spread, pos =>
    layDown rest (s + 1) (layRun pos n.toNat s n.toNat 8 (write64 spread pos s)) (pos + n.toNat)

/-- The symbols moved to their places, two at a time. -/
def movePairs (step size : ℕ) (spread : List ℕ) : ℕ → ℕ → List ℕ × ℕ → List ℕ × ℕ
  | 0, _, st => st
  | pairs + 1, s, (cells, position) =>
    movePairs step size spread pairs (s + 2)
      ((cells.set (position % size) (spread.getD s 0)).set ((position + step) % size)
        (spread.getD (s + 1) 0), (position + 2 * step) % size)

/-- The symbols of the slots, and the position at which the walk ends. -/
def spreadTable (counts : List ℤ) (tableLog : ℕ) : List ℕ × ℕ :=
  let tableSize := 2 ^ tableLog
  let step := tableStep tableSize
  let (cells, bound) := layLowProb counts 0 (List.replicate tableSize 0, tableSize)
  if bound = tableSize then
    let spread := layDown counts 0 (List.replicate (tableSize + 8) 0) 0
    movePairs step tableSize spread (tableSize / 2) 0 (cells, 0)
  else spreadSymbols step tableSize bound counts 0 (cells, 0)

/-- The symbols of low probability, in order. -/
def lowSymbols : List ℤ → ℕ → List ℕ
  | [], _ => []
  | n :: rest, s => if n = -1 then s :: lowSymbols rest (s + 1) else lowSymbols rest (s + 1)

/-- The other symbols, each as often as it occurs. -/
def highSymbols : List ℤ → ℕ → List ℕ
  | [], _ => []
  | n :: rest, s => List.replicate n.toNat s ++ highSymbols rest (s + 1)

/-- The positions below a bound, downward. -/
def downFrom : ℕ → ℕ → List ℕ
  | _, 0 => []
  | bound, count + 1 => (bound - 1) :: downFrom (bound - 1) count

@[simp]
theorem length_downFrom (bound count : ℕ) : (downFrom bound count).length = count := by
  induction count generalizing bound with
  | zero => rfl
  | succ count ih => rw [downFrom, List.length_cons, ih]

theorem downFrom_perm {bound count : ℕ} (hle : count ≤ bound) :
    (downFrom bound count).Perm (List.range' (bound - count) count) := by
  induction count generalizing bound with
  | zero => exact List.Perm.refl _
  | succ count ih =>
      have hrest := @ih (bound - 1) (by omega)
      have hstart : bound - 1 - count = bound - (count + 1) := by omega
      have hlast : bound - (count + 1) + 1 * count = bound - 1 := by omega
      rw [hstart] at hrest
      rw [downFrom, List.range'_concat, hlast]
      exact (hrest.cons _).trans (List.perm_append_singleton _ _).symm

theorem layLowProb_eq (counts : List ℤ) (s : ℕ) (cells : List ℕ) (bound : ℕ) :
    layLowProb counts s (cells, bound) =
      (scatter cells (downFrom bound (lowSymbols counts s).length) (lowSymbols counts s),
        bound - (lowSymbols counts s).length) := by
  induction counts generalizing s cells bound with
  | nil => rfl
  | cons n rest ih =>
      by_cases hlow : n = -1
      · rw [layLowProb, if_pos hlow, ih, lowSymbols, if_pos hlow, List.length_cons, downFrom,
          scatter]
        congr 1
        omega
      · rw [layLowProb, if_neg hlow, ih, lowSymbols, if_neg hlow]

theorem placeSymbol_eq (step size bound s n : ℕ) (cells : List ℕ) (position : ℕ) :
    placeSymbol step size bound s n (cells, position) =
      (scatter cells (walk step size bound n position).1 (List.replicate n s),
        (walk step size bound n position).2) := by
  induction n generalizing cells position with
  | zero => rw [placeSymbol, walk, scatter]
  | succ n ih => rw [placeSymbol, ih, walk, List.replicate_succ, scatter]

theorem walk_add (step size bound m n position : ℕ) :
    walk step size bound (m + n) position =
      ((walk step size bound m position).1 ++
        (walk step size bound n (walk step size bound m position).2).1,
        (walk step size bound n (walk step size bound m position).2).2) := by
  induction m generalizing position with
  | zero => rw [Nat.zero_add, walk]; rfl
  | succ m ih => rw [Nat.succ_add, walk, ih, walk]; rfl

/-- The loop over the symbols writes them along the walk. -/
theorem spreadSymbols_eq (step size bound : ℕ) (counts : List ℤ) (s : ℕ) (cells : List ℕ)
    (position : ℕ) :
    spreadSymbols step size bound counts s (cells, position) =
      (scatter cells (walk step size bound (highSymbols counts s).length position).1
        (highSymbols counts s),
        (walk step size bound (highSymbols counts s).length position).2) := by
  induction counts generalizing s cells position with
  | nil => rw [spreadSymbols, highSymbols, List.length_nil, walk, scatter]
  | cons n rest ih =>
      have hlength : (walk step size bound n.toNat position).1.length =
          (List.replicate n.toNat s).length := by rw [length_walk, List.length_replicate]
      rw [spreadSymbols, placeSymbol_eq, ih, highSymbols, List.length_append, List.length_replicate,
        walk_add, scatter_append _ _ _ hlength]

/-- Each symbol is spread as often as its count says. -/
theorem count_symbols (counts : List ℤ) (s t : ℕ) :
    (lowSymbols counts s ++ highSymbols counts s).count t =
      if s ≤ t then ((counts[t - s]?).map slots).getD 0 else 0 := by
  induction counts generalizing s with
  | nil => simp [lowSymbols, highSymbols]
  | cons n rest ih =>
      have hrest := ih (s + 1)
      rw [List.count_append] at hrest ⊢
      have hlow : (lowSymbols (n :: rest) s).count t =
          (if n = -1 ∧ s = t then 1 else 0) + (lowSymbols rest (s + 1)).count t := by
        by_cases hn : n = -1
        · rw [lowSymbols, if_pos hn, List.count_cons]
          simp only [hn, true_and, beq_iff_eq]
          omega
        · rw [lowSymbols, if_neg hn, if_neg (by tauto), Nat.zero_add]
      have hhigh : (highSymbols (n :: rest) s).count t =
          (if s = t then n.toNat else 0) + (highSymbols rest (s + 1)).count t := by
        rw [highSymbols, List.count_append, List.count_replicate]
        simp only [beq_iff_eq]
      rw [hlow, hhigh]
      rcases Nat.lt_trichotomy s t with hst | rfl | hst
      · have hindex : t - s = (t - (s + 1)) + 1 := by omega
        rw [if_pos (by omega)] at hrest
        rw [if_neg (by omega), if_neg (by omega), if_pos (by omega), hindex,
          List.getElem?_cons_succ]
        omega
      · rw [if_neg (by omega)] at hrest
        have hslots : slots n = (if n = -1 then 1 else 0) + n.toNat := by
          unfold slots
          split_ifs with hn
          · rw [hn]
            rfl
          · rw [Nat.zero_add]
        simp only [and_true, if_true, Nat.sub_self, Nat.le_refl,
          List.getElem?_cons_zero, Option.map_some,
          Option.getD_some, hslots]
        omega
      · rw [if_neg (by omega)] at hrest
        rw [if_neg (by omega), if_neg (by omega), if_neg (by omega)]
        omega

theorem length_symbols (counts : List ℤ) (s : ℕ) :
    (lowSymbols counts s).length + (highSymbols counts s).length = (counts.map slots).sum := by
  induction counts generalizing s with
  | nil => rfl
  | cons n rest ih =>
      have hrest := ih (s + 1)
      rw [highSymbols, List.length_append, List.length_replicate, List.map_cons, List.sum_cons]
      by_cases hn : n = -1
      · rw [lowSymbols, if_pos hn, List.length_cons, slots, if_pos hn, hn]
        simp only [Int.reduceNeg, Int.reduceToNat]
        omega
      · rw [lowSymbols, if_neg hn, slots, if_neg hn]
        omega

section Fast

variable {pos n s : ℕ}

theorem take_write64 (s : ℕ) {spread : List ℕ} (hfits : pos + 8 ≤ spread.length) :
    (write64 spread pos s).take (pos + 8) = spread.take pos ++ List.replicate 8 s ∧
      (write64 spread pos s).length = spread.length := by
  have hlength : (spread.take pos ++ List.replicate 8 s).length = pos + 8 := by
    rw [List.length_append, List.length_take, List.length_replicate]
    omega
  constructor
  · rw [write64, overwrite, List.take_left' hlength]
  · rw [write64, length_overwrite (by rw [List.length_replicate]; omega)]

theorem take_shorter {base spread : List ℕ} {i : ℕ} (hbase : base.length = pos) (hle : n ≤ i)
    (htake : spread.take (pos + i) = base ++ List.replicate i s) :
    spread.take (pos + n) = base ++ List.replicate n s := by
  have hshort : spread.take (pos + n) = (spread.take (pos + i)).take (pos + n) := by
    rw [List.take_take, Nat.min_eq_left (by omega)]
  rw [hshort, htake, ← hbase, List.take_length_add_append, List.take_replicate, Nat.min_eq_left hle]

/-- The writes for a symbol extend what is laid down, eight at a time, up to its count. -/
theorem layRun_take {base spread : List ℕ} {fuel i : ℕ} (hbase : base.length = pos)
    (hfits : pos + n + 8 ≤ spread.length) (hfuel : n ≤ i + 8 * fuel)
    (htake : spread.take (pos + i) = base ++ List.replicate i s) :
    (layRun pos n s fuel i spread).take (pos + n) = base ++ List.replicate n s ∧
      (layRun pos n s fuel i spread).length = spread.length := by
  induction fuel generalizing i spread with
  | zero => exact ⟨take_shorter hbase (by omega) htake, rfl⟩
  | succ fuel ih =>
      rw [layRun]
      split_ifs with hless
      · have hfits' : pos + i + 8 ≤ spread.length := by omega
        obtain ⟨hwrite, hlength⟩ := take_write64 s hfits'
        have hnext : (write64 spread (pos + i) s).take (pos + (i + 8)) =
            base ++ List.replicate (i + 8) s := by
          rw [← Nat.add_assoc, hwrite, htake, List.append_assoc, List.replicate_append_replicate]
        obtain ⟨hrun, hrunLength⟩ := ih (by omega) (by omega) hnext
        exact ⟨hrun, hrunLength.trans hlength⟩
      · exact ⟨take_shorter hbase (by omega) htake, rfl⟩

/-- The symbols are laid down in order. -/
theorem layDown_take (counts : List ℤ) {spread : List ℕ}
    (hfits : pos + (highSymbols counts s).length + 8 ≤ spread.length) :
    (layDown counts s spread pos).take (pos + (highSymbols counts s).length) =
      spread.take pos ++ highSymbols counts s := by
  induction counts generalizing s spread pos with
  | nil => simp [layDown, highSymbols]
  | cons n rest ih =>
      rw [highSymbols, List.length_append, List.length_replicate] at hfits
      have hfirst : pos + 8 ≤ spread.length := by omega
      obtain ⟨hwrite, hlength⟩ := take_write64 s hfirst
      have hbase : (spread.take pos).length = pos := by
        rw [List.length_take]
        omega
      have hcount : n.toNat ≤ 8 + 8 * n.toNat := by omega
      have hinside : pos + n.toNat + 8 ≤ (write64 spread pos s).length := by omega
      obtain ⟨hrun, hrunLength⟩ := layRun_take hbase hinside hcount hwrite
      have hrest := @ih (pos + n.toNat) (s + 1)
        (layRun pos n.toNat s n.toNat 8 (write64 spread pos s)) (by omega)
      rw [layDown, highSymbols, List.length_append, List.length_replicate,
        ← Nat.add_assoc, hrest, hrun, List.append_assoc]

variable {step size : ℕ}

/-- Moving the symbols two at a time writes them along the multiples of the step. -/
theorem movePairs_eq (step size : ℕ) (spread : List ℕ) (pairs s : ℕ) (cells : List ℕ) :
    movePairs step size spread pairs s (cells, s * step % size) =
      (scatter cells ((List.range' s (2 * pairs)).map fun i => i * step % size)
        ((List.range' s (2 * pairs)).map fun i => spread.getD i 0),
        (s + 2 * pairs) * step % size) := by
  induction pairs generalizing s cells with
  | zero => simp [movePairs, scatter]
  | succ pairs ih =>
      have hposition : (s * step % size + 2 * step) % size = (s + 2) * step % size := by
        rw [Nat.mod_add_mod, Nat.add_mul]
      have hcount : 2 * (pairs + 1) = 2 * pairs + 1 + 1 := by omega
      have hend : s + 2 * (pairs + 1) = s + 2 + 2 * pairs := by omega
      rw [movePairs, hposition, ih, mul_step_succ, Nat.mod_mod, hend, hcount, List.range'_succ,
        List.range'_succ, List.map_cons, List.map_cons, List.map_cons, List.map_cons,
        scatter, scatter]

theorem map_getD_range' (spread : List ℕ) (hsize : (spread.take size).length = size) :
    (List.range' 0 size).map (fun i => spread.getD i 0) = spread.take size := by
  refine List.ext_getElem (by rw [List.length_map, List.length_range', hsize]) fun i hi hi' => ?_
  have hinside : i < spread.length := by
    rw [List.length_take] at hi'
    omega
  simp [hinside]

end Fast

namespace NormalizedCounter

variable (c : NormalizedCounter)

/-- The size of the table. -/
def tableSize : ℕ := 2 ^ c.tableLog

/-- The slots of a symbol. -/
def slotsOf (s : ℕ) : ℕ := ((c.counts[s]?).map slots).getD 0

/-- The symbols of the slots. -/
def tableSymbol : List ℕ := (spreadTable c.counts c.tableLog).1

theorem tableSize_eq : ∃ half, c.tableSize = 2 * half ∧ 16 ≤ half := by
  have hlog := c.tableLog_ge
  refine ⟨2 ^ (c.tableLog - 1), ?_, ?_⟩
  · rw [tableSize, ← Nat.pow_succ', Nat.succ_eq_add_one, Nat.sub_add_cancel (by omega)]
  · exact Nat.pow_le_pow_right (n := 2) (i := 4) (by decide) (by omega)

/-- The step has no factor in common with the size of the table. -/
theorem coprime_tableStep : Nat.Coprime (tableStep c.tableSize) c.tableSize := by
  have hlog := c.tableLog_ge
  have hsize : c.tableSize = 16 * 2 ^ (c.tableLog - 4) := by
    rw [tableSize, show 16 = 2 ^ 4 from rfl, ← Nat.pow_add]
    congr 1
    omega
  have hodd : Odd (tableStep c.tableSize) := by
    rw [tableStep, Nat.shiftRight_eq_div_pow, Nat.shiftRight_eq_div_pow, hsize, Nat.odd_iff]
    omega
  exact Nat.Coprime.pow_right _ hodd.coprime_two_right

theorem length_lowSymbols :
    (lowSymbols c.counts 0).length + (highSymbols c.counts 0).length = c.tableSize := by
  rw [length_symbols, c.sum_slots, tableSize]

/-- The positions at which the table is written. -/
def positions : List ℕ :=
  downFrom c.tableSize (lowSymbols c.counts 0).length ++
    (walk (tableStep c.tableSize) c.tableSize (c.tableSize - (lowSymbols c.counts 0).length)
      (highSymbols c.counts 0).length 0).1

/-- A walk past no reserved cells visits the multiples of the step. -/
theorem walk_whole :
    walk (tableStep c.tableSize) c.tableSize c.tableSize c.tableSize 0 =
      (multiplesFrom (tableStep c.tableSize) c.tableSize 0, 0) := by
  obtain ⟨half, hhalf, hlarge⟩ := c.tableSize_eq
  have hpos : 0 < c.tableSize := by omega
  have hcount : ((multiplesFrom (tableStep c.tableSize) c.tableSize 0).filter
      (· < c.tableSize)).length = c.tableSize := by
    rw [multiples_below hpos, length_multiplesFrom, Nat.sub_zero]
  have hwalk := walk_multiple 0 hpos (Nat.zero_le _) (by rwa [Nat.zero_mul, Nat.zero_mod]) hcount
  rwa [Nat.zero_mul, Nat.zero_mod, multiples_below hpos] at hwalk

/-- Without symbols of low probability the fast way writes what the loop over the symbols
writes. -/
theorem fast_eq_spreadSymbols (cells : List ℕ)
    (hall : (highSymbols c.counts 0).length = c.tableSize) :
    movePairs (tableStep c.tableSize) c.tableSize
        (layDown c.counts 0 (List.replicate (c.tableSize + 8) 0) 0) (c.tableSize / 2) 0 (cells, 0) =
      spreadSymbols (tableStep c.tableSize) c.tableSize c.tableSize c.counts 0 (cells, 0) := by
  obtain ⟨half, hhalf, -⟩ := c.tableSize_eq
  have htwice : 2 * (c.tableSize / 2) = c.tableSize := by omega
  have hfits : 0 + (highSymbols c.counts 0).length + 8 ≤
      (List.replicate (c.tableSize + 8) 0).length := by
    rw [hall, List.length_replicate]
    omega
  have hlay := layDown_take c.counts hfits
  rw [Nat.zero_add, List.take_zero, List.nil_append, hall] at hlay
  have hvalues := map_getD_range' (layDown c.counts 0 (List.replicate (c.tableSize + 8) 0) 0)
    (hall ▸ congrArg List.length hlay)
  have hmove := movePairs_eq (tableStep c.tableSize) c.tableSize
    (layDown c.counts 0 (List.replicate (c.tableSize + 8) 0) 0) (c.tableSize / 2) 0 cells
  rw [Nat.zero_mul, Nat.zero_mod, htwice, Nat.zero_add, Nat.mul_mod_right, hvalues, hlay] at hmove
  rw [hmove, spreadSymbols_eq, hall, c.walk_whole, multiplesFrom, Nat.sub_zero]

/-- The table is written along these positions, whichever way is taken. -/
theorem spreadTable_eq :
    spreadTable c.counts c.tableLog =
      (scatter (List.replicate c.tableSize 0) c.positions
        (lowSymbols c.counts 0 ++ highSymbols c.counts 0),
        (walk (tableStep c.tableSize) c.tableSize (c.tableSize - (lowSymbols c.counts 0).length)
          (highSymbols c.counts 0).length 0).2) := by
  have hlength := c.length_lowSymbols
  have hsize : 2 ^ c.tableLog = c.tableSize := rfl
  unfold spreadTable
  simp only [hsize, layLowProb_eq]
  rw [positions, scatter_append _ _ _ (by rw [length_downFrom])]
  by_cases hlow : c.tableSize - (lowSymbols c.counts 0).length = c.tableSize
  · rw [if_pos hlow, c.fast_eq_spreadSymbols _ (by omega), spreadSymbols_eq, hlow]
  · rw [if_neg hlow, spreadSymbols_eq]

/-- Every slot is written once, and the walk ends where it began. -/
theorem positions_perm :
    c.positions.Perm (List.range c.tableSize) ∧
      (walk (tableStep c.tableSize) c.tableSize (c.tableSize - (lowSymbols c.counts 0).length)
        (highSymbols c.counts 0).length 0).2 = 0 := by
  have hlength := c.length_lowSymbols
  have hhigh : (highSymbols c.counts 0).length =
      c.tableSize - (lowSymbols c.counts 0).length := by omega
  have hlow : (lowSymbols c.counts 0).length ≤ c.tableSize := by omega
  have hdown := downFrom_perm hlow
  have hrange : List.range c.tableSize =
      List.range (c.tableSize - (lowSymbols c.counts 0).length) ++
        List.range' (c.tableSize - (lowSymbols c.counts 0).length)
          (lowSymbols c.counts 0).length := by
    rw [List.range_eq_range', List.range_eq_range']
    nth_rewrite 2 [← Nat.zero_add (c.tableSize - (lowSymbols c.counts 0).length)]
    rw [List.range'_append_1]
    congr 1
    omega
  rw [positions, hhigh, hrange]
  rcases Nat.eq_zero_or_pos (c.tableSize - (lowSymbols c.counts 0).length) with hzero | hpos
  · rw [hzero] at hdown ⊢
    exact ⟨by simpa [walk] using hdown, rfl⟩
  · obtain ⟨hwalk, hend⟩ := walk_perm c.coprime_tableStep hpos (Nat.sub_le _ _)
    exact ⟨(hdown.append hwalk).trans List.perm_append_comm, hend⟩

/-- The walk ends where it began, as the code asserts; the table is full, and each symbol has
the slots that its count announces. -/
theorem spreadTable_spec :
    (spreadTable c.counts c.tableLog).2 = 0 ∧ c.tableSymbol.length = c.tableSize ∧
      ∀ s, c.tableSymbol.count s = c.slotsOf s := by
  obtain ⟨hperm, hend⟩ := c.positions_perm
  have hlength := c.length_lowSymbols
  rw [tableSymbol, c.spreadTable_eq]
  refine ⟨hend, by rw [length_scatter, List.length_replicate], fun s => ?_⟩
  have hvalues : (lowSymbols c.counts 0 ++ highSymbols c.counts 0).length =
      (List.replicate c.tableSize 0).length := by
    rw [List.length_append, List.length_replicate, hlength]
  have hall : c.positions.Perm (List.range (List.replicate c.tableSize 0).length) := by
    rwa [List.length_replicate]
  have hscatter := scatter_perm hall hvalues
  rw [hscatter.count_eq, count_symbols, if_pos (Nat.zero_le s), Nat.sub_zero, slotsOf]

end NormalizedCounter

end ZstdJni.Entropy
