/-
# Sequences and their codes

A sequence is a number of literals, the length of a match and an offset.  The store of
sequences keeps the two lengths in sixteen bits each, and notes the place of the one length
that does not fit.  For the entropy coder every number is split into a code, for which there
is a table entry, and the lowest bits, which are written as they are.

What the encoder splits the tables of the decoder put together again.
-/

import Mathlib.Tactic.IntervalCases
import ZstdJni.Entropy.FseCoder

namespace ZstdJni.Sequences

open ZstdJni.Foundation ZstdJni.Native ZstdJni.Entropy

/-- `MINMATCH`. -/
def minMatch : ℕ := 3

/-- `MaxLL`. -/
def maxLL : ℕ := 35

/-- `MaxML`. -/
def maxML : ℕ := 52

/-- `ZSTD_LLcode`. -/
def llCode (litLength : ℕ) : ℕ :=
  if 63 < litLength then highbit litLength + 19
  else
    [ 0,  1,  2,  3,  4,  5,  6,  7,
      8,  9, 10, 11, 12, 13, 14, 15,
     16, 16, 17, 17, 18, 18, 19, 19,
     20, 20, 20, 20, 21, 21, 21, 21,
     22, 22, 22, 22, 22, 22, 22, 22,
     23, 23, 23, 23, 23, 23, 23, 23,
     24, 24, 24, 24, 24, 24, 24, 24,
     24, 24, 24, 24, 24, 24, 24, 24].getD litLength 0

/-- `ZSTD_MLcode`. -/
def mlCode (mlBase : ℕ) : ℕ :=
  if 127 < mlBase then highbit mlBase + 36
  else
    [ 0,  1,  2,  3,  4,  5,  6,  7,  8,  9, 10, 11, 12, 13, 14, 15,
     16, 17, 18, 19, 20, 21, 22, 23, 24, 25, 26, 27, 28, 29, 30, 31,
     32, 32, 33, 33, 34, 34, 35, 35, 36, 36, 36, 36, 37, 37, 37, 37,
     38, 38, 38, 38, 38, 38, 38, 38, 39, 39, 39, 39, 39, 39, 39, 39,
     40, 40, 40, 40, 40, 40, 40, 40, 40, 40, 40, 40, 40, 40, 40, 40,
     41, 41, 41, 41, 41, 41, 41, 41, 41, 41, 41, 41, 41, 41, 41, 41,
     42, 42, 42, 42, 42, 42, 42, 42, 42, 42, 42, 42, 42, 42, 42, 42,
     42, 42, 42, 42, 42, 42, 42, 42, 42, 42, 42, 42, 42, 42, 42, 42].getD mlBase 0

/-- `LL_bits`. -/
def llBits : List ℕ :=
  [0, 0, 0, 0, 0, 0, 0, 0,
   0, 0, 0, 0, 0, 0, 0, 0,
   1, 1, 1, 1, 2, 2, 3, 3,
   4, 6, 7, 8, 9, 10, 11, 12,
   13, 14, 15, 16]

/-- `ML_bits`. -/
def mlBits : List ℕ :=
  [0, 0, 0, 0, 0, 0, 0, 0,
   0, 0, 0, 0, 0, 0, 0, 0,
   0, 0, 0, 0, 0, 0, 0, 0,
   0, 0, 0, 0, 0, 0, 0, 0,
   1, 1, 1, 1, 2, 2, 3, 3,
   4, 4, 5, 7, 8, 9, 10, 11,
   12, 13, 14, 15, 16]

/-- `OF_bits`. -/
def ofBits : List ℕ :=
  [0, 1, 2, 3, 4, 5, 6, 7,
   8, 9, 10, 11, 12, 13, 14, 15,
   16, 17, 18, 19, 20, 21, 22, 23,
   24, 25, 26, 27, 28, 29, 30, 31]

/-- `LL_base`. -/
def llBase : List ℕ :=
  [0, 1, 2, 3, 4, 5, 6, 7,
   8, 9, 10, 11, 12, 13, 14, 15,
   16, 18, 20, 22, 24, 28, 32, 40,
   48, 64, 0x80, 0x100, 0x200, 0x400, 0x800, 0x1000,
   0x2000, 0x4000, 0x8000, 0x10000]

/-- `ML_base`. -/
def mlBase : List ℕ :=
  [3, 4, 5, 6, 7, 8, 9, 10,
   11, 12, 13, 14, 15, 16, 17, 18,
   19, 20, 21, 22, 23, 24, 25, 26,
   27, 28, 29, 30, 31, 32, 33, 34,
   35, 37, 39, 41, 43, 47, 51, 59,
   67, 83, 99, 0x83, 0x103, 0x203, 0x403, 0x803,
   0x1003, 0x2003, 0x4003, 0x8003, 0x10003]

/-- `OF_base`. -/
def ofBase : List ℕ :=
  [0, 1, 1, 5, 0xD, 0x1D, 0x3D, 0x7D,
   0xFD, 0x1FD, 0x3FD, 0x7FD, 0xFFD, 0x1FFD, 0x3FFD, 0x7FFD,
   0xFFFD, 0x1FFFD, 0x3FFFD, 0x7FFFD, 0xFFFFD, 0x1FFFFD, 0x3FFFFD, 0x7FFFFD,
   0xFFFFFD, 0x1FFFFFD, 0x3FFFFFD, 0x7FFFFFD, 0xFFFFFFD, 0x1FFFFFFD, 0x3FFFFFFD, 0x7FFFFFFD]

theorem llCode_small : ∀ v < 64,
    llBase.getD (llCode v) 0 + v % 2 ^ llBits.getD (llCode v) 0 = v ∧ llCode v < maxLL ∧
      llBits.getD (llCode v) 0 ≤ 16 ∧ (llBase.getD (llCode v) 0 = 0 ↔ v = 0) := by
  decide

theorem mlCode_small : ∀ v < 128,
    mlBase.getD (mlCode v) 0 + v % 2 ^ mlBits.getD (mlCode v) 0 = v + minMatch ∧ mlCode v < maxML ∧
      mlBits.getD (mlCode v) 0 ≤ 16 := by
  decide

/-- A length of literals is put together from the base of its code and its lowest bits. -/
theorem llCode_spec {v : ℕ} (hv : v < 2 ^ 16) :
    llBase.getD (llCode v) 0 + v % 2 ^ llBits.getD (llCode v) 0 = v ∧ llCode v < maxLL ∧
      llBits.getD (llCode v) 0 ≤ 16 ∧ (llBase.getD (llCode v) 0 = 0 ↔ v = 0) := by
  by_cases hsmall : v < 64
  · exact llCode_small v hsmall
  have hge := le_highbit (v := v) (n := 6) (by omega)
  have hlt := highbit_lt (by omega) hv
  have hlow := mod_highbit (v := v) (by omega)
  have hhigh := (highbit_spec (v := v) (by omega)).1
  rw [llCode, if_pos (by omega)]
  generalize highbit v = k at hge hlt hlow hhigh ⊢
  have hbits : llBits.getD (k + 19) 0 = k := by interval_cases k <;> rfl
  have hbase : llBase.getD (k + 19) 0 = 2 ^ k := by interval_cases k <;> rfl
  rw [hbits, hbase, hlow]
  have hpos := Nat.two_pow_pos k
  exact ⟨by omega, by unfold maxLL; omega, by omega, by omega⟩

/-- A length of a match is put together from the base of its code and its lowest bits. -/
theorem mlCode_spec {v : ℕ} (hv : v < 2 ^ 16) :
    mlBase.getD (mlCode v) 0 + v % 2 ^ mlBits.getD (mlCode v) 0 = v + minMatch ∧ mlCode v < maxML ∧
      mlBits.getD (mlCode v) 0 ≤ 16 := by
  by_cases hsmall : v < 128
  · exact mlCode_small v hsmall
  have hge := le_highbit (v := v) (n := 7) (by omega)
  have hlt := highbit_lt (by omega) hv
  have hlow := mod_highbit (v := v) (by omega)
  have hhigh := (highbit_spec (v := v) (by omega)).1
  rw [mlCode, if_pos (by omega)]
  generalize highbit v = k at hge hlt hlow hhigh ⊢
  have hbits : mlBits.getD (k + 36) 0 = k := by interval_cases k <;> rfl
  have hbase : mlBase.getD (k + 36) 0 = 2 ^ k + 3 := by interval_cases k <;> rfl
  rw [hbits, hbase, hlow, minMatch]
  exact ⟨by omega, by unfold maxML; omega, by omega⟩

/-- The long codes stand for sixteen bits on top of `0x10000`. -/
theorem long_spec (v : ℕ) :
    llBase.getD maxLL 0 + v % 2 ^ llBits.getD maxLL 0 = 2 ^ 16 + v % 2 ^ 16 ∧
      mlBase.getD maxML 0 + v % 2 ^ mlBits.getD maxML 0 = 2 ^ 16 + v % 2 ^ 16 + minMatch := by
  have hll : llBits.getD maxLL 0 = 16 := rfl
  have hllBase : llBase.getD maxLL 0 = 2 ^ 16 := rfl
  have hml : mlBits.getD maxML 0 = 16 := rfl
  have hmlBase : mlBase.getD maxML 0 = 2 ^ 16 + minMatch := rfl
  rw [hll, hllBase, hml, hmlBase]
  omega

/-- The code of an offset is the number of its lowest bits. -/
theorem ofBits_getD {k : ℕ} (hk : k < 32) : ofBits.getD k 0 = k := by
  interval_cases k <;> rfl

theorem ofBase_getD {k : ℕ} (hge : 2 ≤ k) (hk : k < 32) : ofBase.getD k 0 + 3 = 2 ^ k := by
  interval_cases k <;> rfl

end ZstdJni.Sequences
