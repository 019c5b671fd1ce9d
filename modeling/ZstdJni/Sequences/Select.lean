/-
# Choosing the tables of a block

For each kind of codes the encoder counts the codes and decides where the table comes from:
the distribution that is given, a single code, the table of the block in front, or counts
that are described.  Small and fast settings decide by rules of thumb, the others by what
each choice would cost.  Whatever is chosen has all the codes of the block, unless a table is
repeated that was promised to have them all.
-/

import ZstdJni.Entropy.NCountWrite
import ZstdJni.Entropy.Normalize
import ZstdJni.Sequences.Tables

namespace ZstdJni.Sequences

open ZstdJni.Foundation ZstdJni.Native ZstdJni.Entropy

/-- What `HIST_countFast_wksp` reports: the counts up to the largest symbol that occurs. -/
structure Histogram where
  count : List ℕ
  largestCount : ℕ
  deriving DecidableEq

/-- `while (ip<end) count[*ip++]++`. -/
def countSymbols : List ℕ → List ℕ → List ℕ
  | [], count => count
  | s :: rest, count => countSymbols rest (count.set s (count.getD s 0 + 1))

/-- `while (!count[maxSymbolValue]) maxSymbolValue--`. -/
def lastSymbol (count : List ℕ) : ℕ → ℕ
  | 0 => 0
  | s + 1 => if count.getD (s + 1) 0 = 0 then lastSymbol count s else s + 1

/-- `HIST_count_simple`. -/
def histCount (codes : List ℕ) (maxSymbolValue : ℕ) : Histogram :=
  let count := countSymbols codes (List.replicate (maxSymbolValue + 1) 0)
  let count := count.take (lastSymbol count maxSymbolValue + 1)
  ⟨count, count.foldl max 0⟩

/-- `FSE_repeat`. -/
inductive FseRepeat
  | none | check | valid
  deriving DecidableEq

/-- `SymbolEncodingType_e`, in the order of its numbers. -/
inductive SymbolEncodingType
  | basic | rle | compressed | repeated
  deriving DecidableEq

/-- `kInverseProbabilityLog256`. -/
def inverseProbabilityLog256 : List ℕ :=
    [0, 2048, 1792, 1642, 1536, 1453, 1386, 1329, 1280, 1236, 1197, 1162, 1130, 1100, 1073, 1047,
     1024, 1001, 980, 960, 941, 923, 906, 889, 874, 859, 844, 830, 817, 804, 791, 779, 768, 756,
     745, 734, 724, 714, 704, 694, 685, 676, 667, 658, 650, 642, 633, 626, 618, 610, 603, 595,
     588, 581, 574, 567, 561, 554, 548, 542, 535, 529, 523, 517, 512, 506, 500, 495, 489, 484,
     478, 473, 468, 463, 458, 453, 448, 443, 438, 434, 429, 424, 420, 415, 411, 407, 402, 398,
     394, 390, 386, 382, 377, 373, 370, 366, 362, 358, 354, 350, 347, 343, 339, 336, 332, 329,
     325, 322, 318, 315, 311, 308, 305, 302, 298, 295, 292, 289, 286, 282, 279, 276, 273, 270,
     267, 264, 261, 258, 256, 253, 250, 247, 244, 241, 239, 236, 233, 230, 228, 225, 222, 220,
     217, 215, 212, 209, 207, 204, 202, 199, 197, 194, 192, 190, 187, 185, 182, 180, 178, 175,
     173, 171, 168, 166, 164, 162, 159, 157, 155, 153, 151, 149, 146, 144, 142, 140, 138, 136,
     134, 132, 130, 128, 126, 123, 121, 119, 117, 115, 114, 112, 110, 108, 106, 104, 102, 100,
     98, 96, 94, 93, 91, 89, 87, 85, 83, 82, 80, 78, 76, 74, 73, 71, 69, 67, 66, 64, 62, 61, 59,
     57, 55, 54, 52, 50, 49, 47, 46, 44, 42, 41, 39, 37, 36, 34, 33, 31, 30, 28, 26, 25, 23, 22,
     20, 19, 17, 16, 14, 13, 11, 10, 8, 7, 5, 4, 2, 1]

/-- An error code as a `size_t`. -/
def errorSize (w : WordSize) (code : ErrorCode) : ℕ := 2 ^ w.bits - code.value

/-- The `size_t` of a cost, or of the error. -/
def costSize (w : WordSize) : Except ErrorCode ℕ → ℕ
  | .ok cost => cost
  | .error code => errorSize w code

/-- `ZSTD_useLowProbCount`. -/
def useLowProbCount (nbSeq : ℕ) : Bool := decide (2048 ≤ nbSeq)

/-- `ZSTD_getFSEMaxSymbolValue`. -/
def getFSEMaxSymbolValue (t : CTable) : ℕ := t.symbolTT.length - 1

/-- `FSE_bitCost`. -/
def bitCost (t : CTable) (symbolValue accuracyLog : ℕ) : ℕ :=
  let deltaNbBits := (t.symbolTT.getD symbolValue default).deltaNbBits
  let minNbBits := deltaNbBits >>> 16
  let threshold := (minNbBits + 1) <<< 16
  let deltaFromThreshold := threshold - (deltaNbBits + 2 ^ t.tableLog)
  let normalizedDeltaFromThreshold := (deltaFromThreshold <<< accuracyLog) >>> t.tableLog
  (minNbBits + 1) * 2 ^ accuracyLog - normalizedDeltaFromThreshold

/-- The loop of `ZSTD_fseBitCost`. -/
def addBitCosts (t : CTable) : List ℕ → ℕ → ℕ → Except ErrorCode ℕ
  | [], _, cost => .ok cost
  | c :: rest, s, cost =>
    if c = 0 then addBitCosts t rest (s + 1) cost
    else if (t.tableLog + 1) <<< 8 ≤ bitCost t s 8 then .error .generic
    else addBitCosts t rest (s + 1) (cost + c * bitCost t s 8)

/-- `ZSTD_fseBitCost`. -/
def fseBitCost (w : WordSize) (t : CTable) (count : List ℕ) : Except ErrorCode ℕ :=
  if getFSEMaxSymbolValue t < count.length - 1 then .error .generic
  else (addBitCosts t count 0 0).map fun cost => (cost % 2 ^ w.bits) >>> 8

/-- `ZSTD_crossEntropyCost`. -/
def crossEntropyCost (w : WordSize) (norm : List ℤ) (accuracyLog : ℕ) (count : List ℕ) : ℕ :=
  let shift := 8 - accuracyLog
  let cost := (count.zip norm).foldl
    (fun cost cn => cost + cn.1 * inverseProbabilityLog256.getD (slots cn.2 <<< shift) 0) 0
  (cost % 2 ^ w.bits) >>> 8

/-- `ZSTD_entropyCost`.  The sum has 32 bits. -/
def entropyCost (count : List ℕ) (total : ℕ) : ℕ :=
  let cost := count.foldl
    (fun cost c =>
      let norm := (256 * c % 2 ^ 32) / total
      let norm := if c ≠ 0 ∧ norm = 0 then 1 else norm
      cost + c * inverseProbabilityLog256.getD norm 0) 0
  (cost % 2 ^ 32) >>> 8

/-- `ZSTD_NCountCost`.  No counts are written if one symbol occurs everywhere. -/
def ncountCost (count : List ℕ) (nbSeq FSELog : ℕ) : Except ErrorCode ℕ :=
  let tableLog := optimalTableLog FSELog nbSeq (count.length - 1)
  match normalizeCount tableLog count nbSeq (useLowProbCount nbSeq) with
  | .error code => .error code
  | .ok norm => (writeNCount 512 (norm.getD []) tableLog).map List.length

/-- `ZSTD_selectEncodingType`: whether the table may be repeated later, and where it comes
from. -/
def selectEncodingType (w : WordSize) (repeatMode : FseRepeat) (hist : Histogram)
    (nbSeq FSELog : ℕ) (prevCTable : CTable) (defaultNorm : NormalizedCounter)
    (isDefaultAllowed : Bool) (strategy : ℕ) : FseRepeat × SymbolEncodingType :=
  if hist.largestCount = nbSeq then
    if isDefaultAllowed ∧ nbSeq ≤ 2 then (.none, .basic) else (.none, .rle)
  else if strategy < 4 then
    if isDefaultAllowed then
      let dynamicFseNbSeqMin := (2 ^ defaultNorm.tableLog * (10 - strategy)) >>> 3
      if repeatMode = .valid ∧ nbSeq < 1000 then (repeatMode, .repeated)
      else if nbSeq < dynamicFseNbSeqMin ∨
          hist.largestCount < nbSeq >>> (defaultNorm.tableLog - 1) then (.none, .basic)
      else (.check, .compressed)
    else (.check, .compressed)
  else
    let basicCost :=
      if isDefaultAllowed then
        crossEntropyCost w defaultNorm.counts defaultNorm.tableLog hist.count
      else errorSize w .generic
    let repeatCost :=
      if repeatMode ≠ .none then costSize w (fseBitCost w prevCTable hist.count)
      else errorSize w .generic
    let ncountCost := costSize w (ncountCost hist.count nbSeq FSELog)
    let compressedCost := (ncountCost <<< 3 + entropyCost hist.count nbSeq) % 2 ^ w.bits
    if basicCost ≤ repeatCost ∧ basicCost ≤ compressedCost then (.none, .basic)
    else if repeatCost ≤ compressedCost then (repeatMode, .repeated)
    else (.check, .compressed)

section Counting

variable {codes count : List ℕ} {maxSymbolValue : ℕ}

theorem length_countSymbols (codes count : List ℕ) :
    (countSymbols codes count).length = count.length := by
  induction codes generalizing count with
  | nil => rfl
  | cons s codes ih => rw [countSymbols, ih, List.length_set]

theorem getD_countSymbols (hcodes : ∀ s ∈ codes, s < count.length) (s : ℕ) :
    (countSymbols codes count).getD s 0 = count.getD s 0 + codes.count s := by
  induction codes generalizing count with
  | nil => rw [countSymbols, List.count_nil, Nat.add_zero]
  | cons code codes ih =>
      have hcode := hcodes code List.mem_cons_self
      rw [countSymbols, ih (by simpa using fun s hs => hcodes s (List.mem_cons_of_mem code hs)),
        List.count_cons, List.getD_eq_getElem?_getD, List.getElem?_set]
      by_cases hsame : code = s
      · subst hsame
        rw [if_pos rfl, if_pos hcode, Option.getD_some, beq_self_eq_true, if_pos rfl]
        omega
      · have hbeq : (code == s) = false := by simpa using hsame
        rw [if_neg hsame, hbeq, ← List.getD_eq_getElem?_getD]
        simp

theorem sum_countSymbols (hcodes : ∀ s ∈ codes, s < count.length) :
    (countSymbols codes count).sum = count.sum + codes.length := by
  induction codes generalizing count with
  | nil => rfl
  | cons code codes ih =>
      have hset := sum_set (hcodes code List.mem_cons_self) (count.getD code 0 + 1)
      rw [countSymbols, ih (by simpa using fun s hs => hcodes s (List.mem_cons_of_mem code hs)),
        List.length_cons]
      omega

/-- The last symbol that occurs. -/
theorem lastSymbol_spec (count : List ℕ) (m : ℕ) :
    lastSymbol count m ≤ m ∧ (∀ s, lastSymbol count m < s → s ≤ m → count.getD s 0 = 0) ∧
      (lastSymbol count m = 0 ∨ count.getD (lastSymbol count m) 0 ≠ 0) := by
  induction m with
  | zero => exact ⟨Nat.le_refl 0, fun s hs hle => by rw [lastSymbol] at hs; omega, Or.inl rfl⟩
  | succ m ih =>
      obtain ⟨hle, hrest, hlast⟩ := ih
      rw [lastSymbol]
      by_cases hzero : count.getD (m + 1) 0 = 0
      · rw [if_pos hzero]
        refine ⟨by omega, fun s hs hsle => ?_, hlast⟩
        by_cases htop : s = m + 1
        · rw [htop]
          exact hzero
        · exact hrest s hs (by omega)
      · rw [if_neg hzero]
        exact ⟨Nat.le_refl _, fun s hs hsle => by omega, Or.inr hzero⟩

theorem foldl_max_spec (l : List ℕ) (init : ℕ) :
    init ≤ l.foldl max init ∧ (∀ c ∈ l, c ≤ l.foldl max init) ∧
      (l.foldl max init = init ∨ l.foldl max init ∈ l) := by
  induction l generalizing init with
  | nil => exact ⟨Nat.le_refl _, fun c hc => absurd hc List.not_mem_nil, Or.inl rfl⟩
  | cons c l ih =>
      obtain ⟨hinit, hall, hfound⟩ := ih (max init c)
      have hle : init ≤ max init c := Nat.le_max_left init c
      have hle' : c ≤ max init c := Nat.le_max_right init c
      rw [List.foldl_cons]
      refine ⟨Nat.le_trans hle hinit,
        List.forall_mem_cons.mpr ⟨Nat.le_trans hle' hinit, hall⟩, ?_⟩
      rcases hfound with hsame | hmem
      · rw [hsame]
        rcases Nat.le_total init c with hless | hmore
        · exact Or.inr (by rw [Nat.max_eq_right hless]; exact List.mem_cons_self)
        · exact Or.inl (Nat.max_eq_left hmore)
      · exact Or.inr (List.mem_cons_of_mem c hmem)

/-- A histogram of some codes. -/
structure Histogram.Of (codes : List ℕ) (hist : Histogram) : Prop where
  count_eq : ∀ s, hist.count.getD s 0 = codes.count s
  sum_eq : hist.count.sum = codes.length
  length_pos : 0 < hist.count.length
  last_mem : hist.count.length - 1 ∈ codes
  largest : ∀ s, codes.count s ≤ hist.largestCount
  largest_eq : ∃ s, codes.count s = hist.largestCount

/-- The histogram of some codes. -/
theorem of_histCount (hne : codes ≠ []) (hcodes : ∀ s ∈ codes, s ≤ maxSymbolValue) :
    (histCount codes maxSymbolValue).Of codes := by
  have hlength : (List.replicate (maxSymbolValue + 1) 0).length = maxSymbolValue + 1 :=
    List.length_replicate
  have hlt : ∀ s ∈ codes, s < (List.replicate (maxSymbolValue + 1) 0).length := fun s hs => by
    rw [hlength]
    exact Nat.lt_succ_of_le (hcodes s hs)
  have hzero : ∀ s, (List.replicate (maxSymbolValue + 1) 0).getD s 0 = 0 := fun s => by
    rw [List.getD_eq_getElem?_getD, List.getElem?_replicate]
    split_ifs <;> rfl
  have hall : ∀ s, (countSymbols codes (List.replicate (maxSymbolValue + 1) 0)).getD s 0 =
      codes.count s := fun s => by
    rw [getD_countSymbols hlt, hzero, Nat.zero_add]
  have hsum := sum_countSymbols hlt
  have hcountLength := length_countSymbols codes (List.replicate (maxSymbolValue + 1) 0)
  unfold histCount
  simp only
  set count := countSymbols codes (List.replicate (maxSymbolValue + 1) 0)
  obtain ⟨hle, hrest, hlast⟩ := lastSymbol_spec count maxSymbolValue
  set last := lastSymbol count maxSymbolValue
  have hbehind : ∀ s, last < s → codes.count s = 0 := fun s hs => by
    by_cases hsle : s ≤ maxSymbolValue
    · rw [← hall]
      exact hrest s hs hsle
    · exact List.count_eq_zero.mpr fun hmem => hsle (hcodes s hmem)
  have htake : ∀ s, (count.take (last + 1)).getD s 0 = codes.count s := fun s => by
    rw [List.getD_eq_getElem?_getD, List.getElem?_take]
    by_cases hs : s < last + 1
    · rw [if_pos hs, ← List.getD_eq_getElem?_getD]
      exact hall s
    · rw [if_neg hs, hbehind s (by omega)]
      rfl
  have htakeLength : (count.take (last + 1)).length = last + 1 := by
    rw [List.length_take, hcountLength, hlength]
    omega
  have hdrop : (count.drop (last + 1)).sum = 0 := by
    refine List.sum_eq_zero_iff_forall_eq_nat.mpr fun x hx => ?_
    obtain ⟨i, hi, rfl⟩ := List.getElem_of_mem hx
    rw [List.getElem_drop, ← List.getD_eq_getElem (d := 0), hall]
    exact hbehind _ (Nat.lt_of_lt_of_le (Nat.lt_succ_self last) (Nat.le_add_right _ i))
  obtain ⟨-, hmax, hfound⟩ := foldl_max_spec (count.take (last + 1)) 0
  obtain ⟨code, hcode⟩ := List.exists_mem_of_ne_nil codes hne
  have hoccurs := List.count_pos_iff.mpr hcode
  have hlargest : ∀ s, codes.count s ≤ (count.take (last + 1)).foldl max 0 := fun s => by
    rw [← htake]
    by_cases hs : s < (count.take (last + 1)).length
    · rw [List.getD_eq_getElem _ _ hs]
      exact hmax _ (List.getElem_mem hs)
    · rw [List.getD_eq_getElem?_getD, List.getElem?_eq_none (by omega)]
      exact Nat.zero_le _
  refine ⟨htake, ?_, Nat.lt_of_lt_of_eq (Nat.succ_pos last) htakeLength.symm, ?_, hlargest, ?_⟩
  · have hsplit := congrArg List.sum (List.take_append_drop (last + 1) count)
    rw [List.sum_append, hdrop, Nat.add_zero] at hsplit
    simpa [hsplit] using hsum
  · rw [htakeLength, Nat.add_sub_cancel]
    refine List.count_pos_iff.mp ?_
    rcases hlast with hfirst | hnonzero
    · by_cases hsame : code = last
      · exact hsame ▸ hoccurs
      · have hnone := hbehind code (by omega)
        omega
    · rw [← hall]
      omega
  · rcases hfound with hnone | hmem
    · have hle := hlargest code
      omega
    · obtain ⟨s, hs, hsame⟩ := List.getElem_of_mem hmem
      refine ⟨s, ?_⟩
      rw [← htake, List.getD_eq_getElem _ _ hs]
      exact hsame

end Counting

section Choosing

variable {codes count : List ℕ} {hist : Histogram} {c : NormalizedCounter} {s : ℕ}

theorem length_transforms (tableLog : ℕ) (counts : List ℤ) (total : ℕ) :
    (transforms tableLog counts total).length = counts.length := by
  induction counts generalizing total with
  | nil => rfl
  | cons n counts ih =>
      rw [transforms]
      split_ifs
      · rw [List.length_cons, ih, List.length_cons]
      · rw [List.length_cons, ih, List.length_cons]
      · simp only [List.length_cons, ih]

/-- The transformation of a symbol that has no slots. -/
theorem getD_transforms_of_zero {tableLog : ℕ} {counts : List ℤ} (hge : ∀ n ∈ counts, -1 ≤ n)
    (total : ℕ) (hs : s < counts.length) (hzero : slots (counts.getD s 0) = 0) :
    ((transforms tableLog counts total).getD s default).deltaNbBits =
      (tableLog + 1) <<< 16 - 1 <<< tableLog := by
  induction counts generalizing s total with
  | nil => exact absurd hs (Nat.not_lt_zero s)
  | cons n counts ih =>
      have hrest := fun m hm => hge m (List.mem_cons_of_mem n hm)
      cases s with
      | zero =>
          have hn := hge n List.mem_cons_self
          have hnone : n = 0 := by
            have habs := hzero
            rw [List.getD_cons_zero] at habs
            unfold slots at habs
            split_ifs at habs
            omega
          rw [transforms, if_pos hnone, List.getD_cons_zero]
      | succ s =>
          have hs' := Nat.lt_of_succ_lt_succ hs
          rw [transforms]
          split_ifs
          · exact ih hrest total hs' hzero
          · exact ih hrest (total + 1) hs' hzero
          · exact ih hrest (total + n.toNat) hs' hzero

/-- A symbol that has no slots is as dear as can be. -/
theorem bitCost_of_zero (hs : s < c.counts.length) (hzero : c.slotsOf s = 0) :
    bitCost c.ctable s 8 = (c.ctable.tableLog + 1) <<< 8 := by
  have hslots : slots (c.counts.getD s 0) = 0 := by
    rw [List.getD_eq_getElem _ _ hs, ← c.slotsOf_eq hs]
    exact hzero
  have hdelta : (c.ctable.symbolTT.getD s default).deltaNbBits =
      (c.tableLog + 1) <<< 16 - 1 <<< c.tableLog :=
    getD_transforms_of_zero c.count_ge 0 hs hslots
  have hlog : c.ctable.tableLog = c.tableLog := rfl
  have hpos := Nat.two_pow_pos c.tableLog
  have hsmall : 2 ^ c.tableLog ≤ 2 ^ 12 := Nat.pow_le_pow_right (by decide) c.tableLog_le
  unfold bitCost
  simp only [hdelta, hlog, Nat.shiftLeft_eq, Nat.shiftRight_eq_div_pow, Nat.one_mul]
  have hbits : ((c.tableLog + 1) * 2 ^ 16 - 2 ^ c.tableLog) / 2 ^ 16 = c.tableLog := by omega
  have hexact : (c.tableLog + 1) * 2 ^ 16 -
      ((c.tableLog + 1) * 2 ^ 16 - 2 ^ c.tableLog + 2 ^ c.tableLog) = 0 := by omega
  rw [hbits, hexact, Nat.zero_mul, Nat.zero_div, Nat.sub_zero]

/-- If there is a cost, every symbol that occurs is cheaper than that. -/
theorem lt_of_addBitCosts {t : CTable} {start cost total : ℕ}
    (h : addBitCosts t count start cost = .ok total) {i : ℕ} (hi : i < count.length)
    (hoccurs : count.getD i 0 ≠ 0) : bitCost t (start + i) 8 < (t.tableLog + 1) <<< 8 := by
  induction count generalizing start cost i with
  | nil => exact absurd hi (Nat.not_lt_zero i)
  | cons n count ih =>
      rw [addBitCosts] at h
      by_cases hzero : n = 0
      · rw [if_pos hzero] at h
        cases i with
        | zero => exact absurd hzero hoccurs
        | succ i =>
            have hrest := ih h (Nat.lt_of_succ_lt_succ hi) hoccurs
            rwa [Nat.add_assoc, Nat.add_comm 1] at hrest
      rw [if_neg hzero] at h
      by_cases hdear : (t.tableLog + 1) <<< 8 ≤ bitCost t start 8
      · rw [if_pos hdear] at h
        cases h
      rw [if_neg hdear] at h
      cases i with
      | zero => exact Nat.lt_of_not_le hdear
      | succ i =>
          have hrest := ih h (Nat.lt_of_succ_lt_succ hi) hoccurs
          rwa [Nat.add_assoc, Nat.add_comm 1] at hrest

/-- A table that has a cost has all the symbols that occur. -/
theorem slotsOf_pos_of_fseBitCost {w : WordSize} {cost : ℕ}
    (h : fseBitCost w c.ctable count = .ok cost) (hs : s < count.length)
    (hoccurs : count.getD s 0 ≠ 0) : 0 < c.slotsOf s := by
  have hsymbols : c.ctable.symbolTT.length = c.counts.length := length_transforms _ _ _
  unfold fseBitCost at h
  by_cases hlarge : getFSEMaxSymbolValue c.ctable < count.length - 1
  · rw [if_pos hlarge] at h
    cases h
  rw [if_neg hlarge] at h
  unfold getFSEMaxSymbolValue at hlarge
  cases hcosts : addBitCosts c.ctable count 0 0 with
  | error code =>
      rw [hcosts] at h
      cases h
  | ok total =>
      have hcheap := lt_of_addBitCosts hcosts hs hoccurs
      rw [Nat.zero_add] at hcheap
      by_contra hnone
      by_cases hinside : s < c.counts.length
      · rw [bitCost_of_zero hinside (by omega)] at hcheap
        exact Nat.lt_irrefl _ hcheap
      · have hsome : 0 < c.counts.length := by
          have hsum := c.sum_slots
          have hpos := Nat.two_pow_pos c.tableLog
          by_contra hempty
          rw [List.length_eq_zero_iff.mp (Nat.eq_zero_of_not_pos hempty), List.map_nil,
            List.sum_nil] at hsum
          omega
        omega

theorem Histogram.Of.lt_length (h : hist.Of codes) (hs : s ∈ codes) : s < hist.count.length := by
  by_contra hout
  have hnone : hist.count.getD s 0 = 0 := by
    rw [List.getD_eq_getElem?_getD, List.getElem?_eq_none (by omega), Option.getD_none]
  rw [h.count_eq] at hnone
  exact List.count_eq_zero.mp hnone hs

theorem Histogram.Of.getD_ne (h : hist.Of codes) (hs : s ∈ codes) : hist.count.getD s 0 ≠ 0 := by
  rw [h.count_eq]
  exact Nat.pos_iff_ne_zero.mp (List.count_pos_iff.mpr hs)

theorem Histogram.Of.largest_le (h : hist.Of codes) : hist.largestCount ≤ codes.length := by
  obtain ⟨s, hs⟩ := h.largest_eq
  rw [← hs]
  exact List.count_le_length

/-- If one code occurs everywhere, it is the last one. -/
theorem Histogram.Of.eq_last (h : hist.Of codes) (hall : hist.largestCount = codes.length)
    (hs : s ∈ codes) : s = hist.count.length - 1 := by
  obtain ⟨code, hcode⟩ := h.largest_eq
  have hsame := List.count_eq_length.mp (hcode.trans hall)
  rw [← hsame s hs, ← hsame _ h.last_mem]

/-- Otherwise there are two codes at least, and none occurs everywhere. -/
theorem Histogram.Of.mixed (h : hist.Of codes) (hnot : hist.largestCount ≠ codes.length) :
    1 < hist.count.length ∧ ∀ n ∈ hist.count, n ≠ codes.length := by
  have hle := h.largest_le
  have hpos := h.length_pos
  constructor
  · by_contra hone
    have hzero : ∀ s ∈ codes, 0 = s := fun s hs => by
      have hlt := h.lt_length hs
      omega
    have hall := List.count_eq_length.mpr hzero
    have hlargest := h.largest 0
    omega
  · intro n hn
    obtain ⟨i, hi, rfl⟩ := List.getElem_of_mem hn
    have hlargest := h.largest i
    rw [← h.count_eq, List.getD_eq_getElem _ _ hi] at hlargest
    omega

/-- The size of the table for the counts of a block is enough for them. -/
theorem Histogram.Of.tableLog_spec (h : hist.Of codes) (hnot : hist.largestCount ≠ codes.length)
    (hmax : hist.count.length ≤ 64) {FSELog : ℕ} (hlog : 7 ≤ FSELog) (hlog' : FSELog ≤ 12) :
    minTableLog codes.length (hist.count.length - 1) ≤
        optimalTableLog FSELog codes.length (hist.count.length - 1) ∧
      5 ≤ optimalTableLog FSELog codes.length (hist.count.length - 1) ∧
      optimalTableLog FSELog codes.length (hist.count.length - 1) ≤ FSELog := by
  obtain ⟨hmany, -⟩ := h.mixed hnot
  have hmin := minTableLog_le codes.length (show hist.count.length - 1 ≠ 0 by omega)
    (show hist.count.length - 1 < 64 by omega)
  exact optimalTableLog_spec (Nat.le_trans hmin hlog) (by omega) hlog'

/-- The counts of a block are normalized. -/
theorem Histogram.Of.normalized (h : hist.Of codes) (hnot : hist.largestCount ≠ codes.length)
    (hlt : codes.length < 2 ^ 32) (hmax : hist.count.length ≤ 64) {FSELog : ℕ} (hlog : 7 ≤ FSELog)
    (hlog' : FSELog ≤ 12) (low : Bool) :
    ∃ norm, normalizeCount (optimalTableLog FSELog codes.length (hist.count.length - 1)) hist.count
        codes.length low = .ok (some norm) ∧
      SharedOut hist.count (optimalTableLog FSELog codes.length (hist.count.length - 1)) norm := by
  obtain ⟨hmany, hmixed⟩ := h.mixed hnot
  obtain ⟨hle, hge, hle'⟩ := h.tableLog_spec hnot hmax hlog hlog'
  exact normalizeCount_spec low hmany h.sum_eq hlt hmixed hge (Nat.le_trans hle' hlog') hle

/-- What describing the counts would cost is known, and little. -/
theorem Histogram.Of.ncountCost (h : hist.Of codes) (hnot : hist.largestCount ≠ codes.length)
    (hlt : codes.length < 2 ^ 32) (hmax : hist.count.length ≤ 64) {FSELog : ℕ} (hlog : 7 ≤ FSELog)
    (hlog' : FSELog ≤ 12) :
    ∃ cost ≤ 130, Sequences.ncountCost hist.count codes.length FSELog = .ok cost := by
  obtain ⟨-, hge, hle⟩ := h.tableLog_spec hnot hmax hlog hlog'
  obtain ⟨norm, hnorm, hshared⟩ :=
    h.normalized hnot hlt hmax hlog hlog' (useLowProbCount codes.length)
  have hcost : Sequences.ncountCost hist.count codes.length FSELog = Except.map List.length
      (writeNCount 512 norm (optimalTableLog FSELog codes.length (hist.count.length - 1))) := by
    simp only [Sequences.ncountCost, hnorm, Option.getD_some]
  rw [hcost]
  generalize optimalTableLog FSELog codes.length (hist.count.length - 1) =
    tableLog at hge hle hshared
  have hlength := hshared.fair.length_eq
  have hbound := ncountWriteBound_le (show norm.length - 1 + 1 ≤ 64 by omega)
    (show tableLog ≤ 12 by omega)
  have hshort := length_fieldBytes_le norm (show tableLog ≤ 12 by omega)
  rw [writeNCount_eq hshared.count_ge hshared.sum_slots hge (by omega), if_pos (Or.inl hbound)]
  exact ⟨_, by omega, rfl⟩

theorem error_addBitCosts {t : CTable} {start cost : ℕ} {code : ErrorCode}
    (h : addBitCosts t count start cost = .error code) : code = .generic := by
  induction count generalizing start cost with
  | nil => cases h
  | cons n count ih =>
      rw [addBitCosts] at h
      split_ifs at h
      · exact ih h
      · cases h
        rfl
      · exact ih h

/-- There is one error only. -/
theorem error_fseBitCost {w : WordSize} {t : CTable} {code : ErrorCode}
    (h : fseBitCost w t count = .error code) : code = .generic := by
  unfold fseBitCost at h
  split_ifs at h
  · cases h
    rfl
  · cases hcosts : addBitCosts t count 0 0 with
    | ok total =>
        rw [hcosts] at h
        cases h
    | error code' =>
        rw [hcosts] at h
        cases h
        exact error_addBitCosts hcosts

/-- What is chosen: every choice but a table that was promised has all the codes. -/
structure Chosen (w : WordSize) (codes : List ℕ) (hist : Histogram) (repeatMode : FseRepeat)
    (prevCTable : CTable) (defaultNorm : NormalizedCounter)
    (choice : FseRepeat × SymbolEncodingType) : Prop where
  basic : choice.2 = .basic → choice.1 = .none ∧ ∀ s ∈ codes, 0 < defaultNorm.slotsOf s
  rle : choice.2 = .rle → choice.1 = .none ∧ ∀ s ∈ codes, s = hist.count.length - 1
  repeated : choice.2 = .repeated → choice.1 = repeatMode ∧ repeatMode ≠ .none ∧
    (repeatMode = .valid ∨ ∃ cost, fseBitCost w prevCTable hist.count = .ok cost)
  compressed : choice.2 = .compressed → choice.1 = .check ∧ hist.largestCount ≠ codes.length

section Cases

variable {w : WordSize} {repeatMode : FseRepeat} {prevCTable : CTable}
    {defaultNorm : NormalizedCounter}

theorem chosen_basic (hcodes : ∀ s ∈ codes, 0 < defaultNorm.slotsOf s) :
    Chosen w codes hist repeatMode prevCTable defaultNorm (.none, .basic) where
  basic _ := ⟨rfl, hcodes⟩
  rle hnot := by cases hnot
  repeated hnot := by cases hnot
  compressed hnot := by cases hnot

theorem chosen_rle (hcodes : ∀ s ∈ codes, s = hist.count.length - 1) :
    Chosen w codes hist repeatMode prevCTable defaultNorm (.none, .rle) where
  basic hnot := by cases hnot
  rle _ := ⟨rfl, hcodes⟩
  repeated hnot := by cases hnot
  compressed hnot := by cases hnot

theorem chosen_repeated (hmode : repeatMode ≠ .none)
    (hvalid : repeatMode = .valid ∨ ∃ cost, fseBitCost w prevCTable hist.count = .ok cost) :
    Chosen w codes hist repeatMode prevCTable defaultNorm (repeatMode, .repeated) where
  basic hnot := by cases hnot
  rle hnot := by cases hnot
  repeated _ := ⟨rfl, hmode, hvalid⟩
  compressed hnot := by cases hnot

theorem chosen_compressed (hmany : hist.largestCount ≠ codes.length) :
    Chosen w codes hist repeatMode prevCTable defaultNorm (.check, .compressed) where
  basic hnot := by cases hnot
  rle hnot := by cases hnot
  repeated hnot := by cases hnot
  compressed _ := ⟨rfl, hmany⟩

/-- The choice, by rules of thumb or by costs. -/
theorem chosen_selectEncodingType (w : WordSize) (repeatMode : FseRepeat) (prevCTable : CTable)
    (h : hist.Of codes) (hlt : codes.length < 2 ^ 32) (hmax : hist.count.length ≤ 64) {FSELog : ℕ}
    (hlog : 7 ≤ FSELog) (hlog' : FSELog ≤ 12) {isDefaultAllowed : Bool}
    (hdefault : isDefaultAllowed = true → ∀ s ∈ codes, 0 < defaultNorm.slotsOf s) (strategy : ℕ) :
    Chosen w codes hist repeatMode prevCTable defaultNorm
      (selectEncodingType w repeatMode hist codes.length FSELog prevCTable defaultNorm
        isDefaultAllowed strategy) := by
  unfold selectEncodingType
  by_cases hall : hist.largestCount = codes.length
  · rw [if_pos hall]
    by_cases hfew : isDefaultAllowed = true ∧ codes.length ≤ 2
    · rw [if_pos hfew]
      exact chosen_basic (hdefault hfew.1)
    · rw [if_neg hfew]
      exact chosen_rle fun s hs => h.eq_last hall hs
  rw [if_neg hall]
  by_cases hfast : strategy < 4
  · rw [if_pos hfast]
    by_cases hallowed : isDefaultAllowed = true
    · rw [if_pos hallowed]
      simp only
      split_ifs with hvalid hrare
      · exact chosen_repeated (by rw [hvalid.1]; decide) (Or.inl hvalid.1)
      · exact chosen_basic (hdefault hallowed)
      · exact chosen_compressed hall
    · rw [if_neg hallowed]
      exact chosen_compressed hall
  rw [if_neg hfast]
  obtain ⟨cost, hcost, hncount⟩ := h.ncountCost hall hlt hmax hlog hlog'
  rw [hncount]
  simp only
  -- what describing the counts costs is below any error
  have hless : (costSize w (.ok cost) <<< 3 + entropyCost hist.count codes.length) % 2 ^ w.bits <
      errorSize w .generic := by
    have hentropy : entropyCost hist.count codes.length < 2 ^ 24 := by
      unfold entropyCost
      simp only
      rw [Nat.shiftRight_eq_div_pow, Nat.div_lt_iff_lt_mul (by decide)]
      exact Nat.mod_lt _ (by decide)
    have hsize : errorSize w .generic = 2 ^ w.bits - 1 := rfl
    have hword : 2 ^ 32 ≤ 2 ^ w.bits := Nat.pow_le_pow_right (by decide) (by cases w <;> decide)
    have hlow := Nat.mod_le (costSize w (.ok cost) <<< 3 + entropyCost hist.count codes.length)
      (2 ^ w.bits)
    have hcostSize : costSize w (.ok cost) = cost := rfl
    rw [hcostSize, Nat.shiftLeft_eq] at hlow ⊢
    omega
  generalize (costSize w (.ok cost) <<< 3 + entropyCost hist.count codes.length) % 2 ^ w.bits =
    compressedCost at hless ⊢
  by_cases hbasic : (if isDefaultAllowed = true then
        crossEntropyCost w defaultNorm.counts defaultNorm.tableLog hist.count
      else errorSize w .generic) ≤
        (if repeatMode ≠ .none then costSize w (fseBitCost w prevCTable hist.count)
      else errorSize w .generic) ∧
      (if isDefaultAllowed = true then
        crossEntropyCost w defaultNorm.counts defaultNorm.tableLog hist.count
      else errorSize w .generic) ≤ compressedCost
  · rw [if_pos hbasic]
    refine chosen_basic (hdefault ?_)
    by_contra hnot
    rw [if_neg hnot] at hbasic
    omega
  rw [if_neg hbasic]
  by_cases hrepeat : (if repeatMode ≠ .none then costSize w (fseBitCost w prevCTable hist.count)
      else errorSize w .generic) ≤ compressedCost
  · rw [if_pos hrepeat]
    have hmode : repeatMode ≠ .none := by
      intro hnone
      rw [if_neg (not_not_intro hnone)] at hrepeat
      omega
    rw [if_pos hmode] at hrepeat
    refine chosen_repeated hmode (Or.inr ?_)
    cases hcosts : fseBitCost w prevCTable hist.count with
    | ok repeatCost => exact ⟨repeatCost, rfl⟩
    | error code =>
        have hcode : code = .generic := error_fseBitCost hcosts
        rw [hcosts, hcode] at hrepeat
        have hsize : costSize w (.error .generic) = errorSize w .generic := rfl
        omega
  · rw [if_neg hrepeat]
    exact chosen_compressed hall

end Cases

end Choosing

end ZstdJni.Sequences
