/-
# Normalizing a histogram

The encoder shares the slots of a table out to the symbols that occur, roughly by how often
they do.  Every symbol that occurs needs a slot, and there must be exactly as many as the
table has.  The first method rounds, and gives what is left over to the symbol with the most
slots.  Where that would take too many slots from it, a second method sets the rare symbols
aside and shares the rest out along a running total, which comes out even.
-/

import Mathlib.Tactic.Linarith
import ZstdJni.Entropy.BitStream
import ZstdJni.Entropy.FseTable

namespace ZstdJni.Entropy

open ZstdJni.Foundation ZstdJni.Native

/-! ## The size of the table -/

/-- `FSE_minTableLog`. -/
def minTableLog (srcSize maxSymbolValue : ℕ) : ℕ :=
  let minBitsSrc := highbit (srcSize % 2 ^ 32) + 1
  let minBitsSymbols := highbit maxSymbolValue + 2
  if minBitsSrc < minBitsSymbols then minBitsSrc else minBitsSymbols

/-- A subtraction of 32-bit numbers. -/
def subU32 (a b : ℕ) : ℕ := if b ≤ a then a - b else 2 ^ 32 - (b - a)

/-- `FSE_optimalTableLog_internal`.  The subtraction may wrap around. -/
def optimalTableLogInternal (maxTableLog srcSize maxSymbolValue minus : ℕ) : ℕ :=
  let maxBitsSrc := subU32 (highbit ((srcSize - 1) % 2 ^ 32)) minus
  let minBits := minTableLog srcSize maxSymbolValue
  let tableLog := if maxTableLog = 0 then 11 else maxTableLog
  let tableLog := if maxBitsSrc < tableLog then maxBitsSrc else tableLog
  let tableLog := if tableLog < minBits then minBits else tableLog
  let tableLog := if tableLog < 5 then 5 else tableLog
  if 12 < tableLog then 12 else tableLog

/-- `FSE_optimalTableLog`. -/
def optimalTableLog (maxTableLog srcSize maxSymbolValue : ℕ) : ℕ :=
  optimalTableLogInternal maxTableLog srcSize maxSymbolValue 2

/-! ## The second method -/

/-- Normalized counts, how many symbols have got theirs, and how often the others occur. -/
structure Assigned where
  norm : List ℤ
  distributed : ℕ
  total : ℕ

/-- The count of a symbol in front of the others. -/
def Assigned.cons (n : ℤ) (a : Assigned) : Assigned := { a with norm := n :: a.norm }

/-- `NOT_YET_ASSIGNED`. -/
def notYetAssigned : ℤ := -2

/-- The first loop of `FSE_normalizeM2`. -/
def assignLow (lowThreshold lowOne : ℕ) (lowProbCount : ℤ) : List ℕ → ℕ → ℕ → Assigned
  | [], distributed, total => ⟨[], distributed, total⟩
  | c :: rest, distributed, total =>
    if c = 0 then (assignLow lowThreshold lowOne lowProbCount rest distributed total).cons 0
    else if c ≤ lowThreshold then
      (assignLow lowThreshold lowOne lowProbCount rest (distributed + 1) (total - c)).cons
        lowProbCount
    else if c ≤ lowOne then
      (assignLow lowThreshold lowOne lowProbCount rest (distributed + 1) (total - c)).cons 1
    else
      (assignLow lowThreshold lowOne lowProbCount rest distributed total).cons notYetAssigned

/-- The second loop of `FSE_normalizeM2`. -/
def assignOnes (lowOne : ℕ) : List ℕ → List ℤ → ℕ → ℕ → Assigned
  | c :: rest, n :: norm, distributed, total =>
    if n = notYetAssigned ∧ c ≤ lowOne then
      (assignOnes lowOne rest norm (distributed + 1) (total - c)).cons 1
    else (assignOnes lowOne rest norm distributed total).cons n
  | _, _, distributed, total => ⟨[], distributed, total⟩

/-- The first symbol that occurs most often. -/
def mostFrequentSymbol : List ℕ → ℕ → ℕ → ℕ → ℕ
  | [], _, maxV, _ => maxV
  | c :: rest, s, maxV, maxC =>
    if maxC < c then mostFrequentSymbol rest (s + 1) s c
    else mostFrequentSymbol rest (s + 1) maxV maxC

/-- `for (s=0; ToDistribute > 0; s = (s+1)%(maxSymbolValue+1))`. -/
def giveRound : ℕ → ℕ → ℕ → List ℤ → List ℤ
  | 0, _, _, norm => norm
  | fuel + 1, s, toDistribute, norm =>
    if 0 < toDistribute then
      if 0 < norm.getD s 0 then
        giveRound fuel ((s + 1) % norm.length) (toDistribute - 1) (norm.set s (norm.getD s 0 + 1))
      else giveRound fuel ((s + 1) % norm.length) toDistribute norm
    else norm

/-- The last loop of `FSE_normalizeM2`. -/
def shareRest (vStepLog rStep : ℕ) : List ℕ → List ℤ → ℕ → Except ErrorCode (List ℤ)
  | c :: rest, n :: norm, tmpTotal =>
    if n = notYetAssigned then
      let ends := tmpTotal + c * rStep
      let weight := (ends >>> vStepLog) - (tmpTotal >>> vStepLog)
      if weight < 1 then .error .generic
      else (shareRest vStepLog rStep rest norm ends).map ((weight : ℤ) :: ·)
    else (shareRest vStepLog rStep rest norm tmpTotal).map (n :: ·)
  | _, _, _ => .ok []

/-- `FSE_normalizeM2` behind the loops that set the rare symbols aside. -/
def distributeRest (counts : List ℕ) (tableLog : ℕ) (a : Assigned) : Except ErrorCode (List ℤ) :=
  let toDistribute := 2 ^ tableLog - a.distributed
  if a.distributed = counts.length then
    let maxV := mostFrequentSymbol counts 0 0 0
    .ok (a.norm.set maxV (a.norm.getD maxV 0 + toDistribute))
  else if a.total = 0 then .ok (giveRound (counts.length * toDistribute) 0 toDistribute a.norm)
  else
    let vStepLog := 62 - tableLog
    let mid := 2 ^ (vStepLog - 1) - 1
    let rStep := (2 ^ vStepLog * toDistribute + mid) / (a.total % 2 ^ 32)
    shareRest vStepLog rStep counts a.norm mid

/-- `FSE_normalizeM2`. -/
def normalizeM2 (counts : List ℕ) (total tableLog : ℕ) (lowProbCount : ℤ) :
    Except ErrorCode (List ℤ) :=
  let lowThreshold := total >>> tableLog
  let lowOne := (total * 3) >>> (tableLog + 1)
  let a := assignLow lowThreshold lowOne lowProbCount counts 0 total
  let toDistribute := 2 ^ tableLog - a.distributed
  if toDistribute = 0 then .ok a.norm
  else if lowOne < a.total / toDistribute then
    distributeRest counts tableLog
      (assignOnes ((a.total * 3) / (toDistribute * 2)) counts a.norm a.distributed a.total)
  else distributeRest counts tableLog a

/-! ## The first method -/

/-- `rtbTable`. -/
def rtbTable : List ℕ := [0, 473195, 504333, 520860, 550000, 700000, 750000, 830000]

/-- The slots of a symbol that is not rare, rounded. -/
def roundedProba (total tableLog c : ℕ) : ℕ :=
  let scale := 62 - tableLog
  let step := 2 ^ 62 / (total % 2 ^ 32)
  let vStep := 2 ^ (scale - 20)
  let proba := (c * step) >>> scale
  if proba < 8 then
    proba + if vStep * rtbTable.getD proba 0 < c * step - proba <<< scale then 1 else 0
  else proba

/-- What the loop of `FSE_normalizeCount` carries along. -/
structure Rounded where
  norm : List ℤ
  stillToDistribute : ℤ
  largest : ℕ

/-- The loop of `FSE_normalizeCount`.  There is nothing to normalize if a symbol occurs
everywhere. -/
def roundCounts (total tableLog : ℕ) (lowProbCount : ℤ) :
    List ℕ → ℕ → ℤ → ℕ → ℕ → Option Rounded
  | [], _, still, largest, _ => some ⟨[], still, largest⟩
  | c :: rest, s, still, largest, largestP =>
    if c = total then none
    else if c = 0 then
      (roundCounts total tableLog lowProbCount rest (s + 1) still largest largestP).map fun r =>
        { r with norm := 0 :: r.norm }
    else if c ≤ total >>> tableLog then
      (roundCounts total tableLog lowProbCount rest (s + 1) (still - 1) largest largestP).map
        fun r => { r with norm := lowProbCount :: r.norm }
    else
      let proba := roundedProba total tableLog c
      (if largestP < proba then
        roundCounts total tableLog lowProbCount rest (s + 1) (still - proba) s proba
      else roundCounts total tableLog lowProbCount rest (s + 1)
        (still - proba) largest largestP).map
        fun r => { r with norm := (proba : ℤ) :: r.norm }

/-- `FSE_normalizeCount`.  It returns zero, and no counts, if a symbol occurs everywhere. -/
def normalizeCount (tableLog : ℕ) (counts : List ℕ) (total : ℕ) (useLowProbCount : Bool) :
    Except ErrorCode (Option (List ℤ)) :=
  let tableLog := if tableLog = 0 then 11 else tableLog
  if tableLog < 5 then .error .generic
  else if 12 < tableLog then .error .tableLogTooLarge
  else if tableLog < minTableLog total (counts.length - 1) then .error .generic
  else
    let lowProbCount : ℤ := if useLowProbCount then -1 else 1
    match roundCounts total tableLog lowProbCount counts 0 (2 ^ tableLog) 0 0 with
    | none => .ok none
    | some r =>
      if r.norm.getD r.largest 0 / 2 ≤ -r.stillToDistribute then
        (normalizeM2 counts total tableLog lowProbCount).map some
      else .ok (some (r.norm.set r.largest (r.norm.getD r.largest 0 + r.stillToDistribute)))

/-- The size of the table is enough for the symbols, and within the limits. -/
theorem optimalTableLog_spec {maxTableLog srcSize maxSymbolValue : ℕ}
    (hmin : minTableLog srcSize maxSymbolValue ≤ maxTableLog) (hmax : 5 ≤ maxTableLog)
    (hmax' : maxTableLog ≤ 12) :
    minTableLog srcSize maxSymbolValue ≤ optimalTableLog maxTableLog srcSize maxSymbolValue ∧
      5 ≤ optimalTableLog maxTableLog srcSize maxSymbolValue ∧
      optimalTableLog maxTableLog srcSize maxSymbolValue ≤ maxTableLog := by
  unfold optimalTableLog optimalTableLogInternal
  simp only
  rw [if_neg (show maxTableLog ≠ 0 by omega)]
  split_ifs <;> omega

theorem minTableLog_le (srcSize : ℕ) {maxSymbolValue : ℕ} (hpos : maxSymbolValue ≠ 0)
    (hlt : maxSymbolValue < 64) : minTableLog srcSize maxSymbolValue ≤ 7 := by
  have hhigh := highbit_lt (n := 6) hpos hlt
  unfold minTableLog
  simp only
  split_ifs <;> omega

theorem minTableLog_mono {srcSize srcSize' : ℕ} (maxSymbolValue : ℕ) (hpos : 0 < srcSize)
    (hle : srcSize ≤ srcSize') (hlt : srcSize' < 2 ^ 32) :
    minTableLog srcSize maxSymbolValue ≤ minTableLog srcSize' maxSymbolValue := by
  have hhigh : highbit srcSize ≤ highbit srcSize' :=
    le_highbit (Nat.le_trans (highbit_spec (by omega)).1 hle)
  unfold minTableLog
  simp only [Nat.mod_eq_of_lt (Nat.lt_of_le_of_lt hle hlt), Nat.mod_eq_of_lt hlt]
  split_ifs <;> omega

/-! ## Normalized counts -/

/-- A symbol has slots if and only if it occurs. -/
structure Fair (c : ℕ) (n : ℤ) : Prop where
  ge : -1 ≤ n
  occurs : 0 < slots n ↔ 0 < c

/-- The slots of the table are shared out to the symbols that occur. -/
structure SharedOut (counts : List ℕ) (tableLog : ℕ) (norm : List ℤ) : Prop where
  fair : List.Forall₂ Fair counts norm
  sum_slots : (norm.map slots).sum = 2 ^ tableLog

/-- There are more slots than occurrences, or twice as many slots as symbols. -/
def Roomy (counts : List ℕ) (total tableLog : ℕ) : Prop :=
  total < 2 ^ tableLog ∨ 2 * counts.length ≤ 2 ^ tableLog

section Facts

variable {counts : List ℕ} {total tableLog c : ℕ} {n : ℤ} {norm : List ℤ}

theorem fair_zero : Fair 0 0 := ⟨by decide, Iff.rfl⟩

theorem fair_of_pos (hc : 0 < c) (hn : 0 < n) : Fair c n := by
  refine ⟨by omega, fun _ => hc, fun _ => ?_⟩
  unfold slots
  split_ifs <;> omega

theorem fair_low (hc : 0 < c) : Fair c (-1) := ⟨Int.le_refl _, fun _ => hc, fun _ => by decide⟩

theorem slots_of_pos (hn : 0 < n) : slots n = n.toNat := if_neg (by omega)

theorem forall₂_set {R : ℕ → ℤ → Prop} (h : List.Forall₂ R counts norm) {i : ℕ}
    (hn : i < counts.length → R (counts.getD i 0) n) : List.Forall₂ R counts (norm.set i n) := by
  induction h generalizing i with
  | nil => exact List.Forall₂.nil
  | cons hhead htail ih =>
      cases i with
      | zero => exact List.Forall₂.cons (hn (Nat.succ_pos _)) htail
      | succ i => exact List.Forall₂.cons hhead (ih fun hi => hn (Nat.succ_lt_succ hi))

theorem forall₂_getD {R : ℕ → ℤ → Prop} (h : List.Forall₂ R counts norm) {i : ℕ}
    (hi : i < counts.length) : R (counts.getD i 0) (norm.getD i 0) := by
  induction h generalizing i with
  | nil => exact absurd hi (Nat.not_lt_zero i)
  | cons hhead htail ih =>
      cases i with
      | zero => exact hhead
      | succ i => exact ih (Nat.lt_of_succ_lt_succ hi)

theorem sum_le_length_mul {bound : ℕ} (h : ∀ c ∈ counts, c ≤ bound) :
    counts.sum ≤ counts.length * bound := by
  induction counts with
  | nil => simp
  | cons c counts ih =>
      have hrest := ih fun d hd => h d (List.mem_cons_of_mem c hd)
      have hhead := h c List.mem_cons_self
      rw [List.sum_cons, List.length_cons, Nat.succ_mul]
      omega

theorem SharedOut.count_ge (h : SharedOut counts tableLog norm) :
    ∀ n ∈ norm, -1 ≤ n := by
  intro n hn
  obtain ⟨i, hi, rfl⟩ := List.getElem_of_mem hn
  have hfair := forall₂_getD h.fair (show i < counts.length by rw [h.fair.length_eq]; exact hi)
  rw [List.getD_eq_getElem _ _ hi] at hfair
  exact hfair.ge

/-- Some symbol is not rare. -/
theorem Roomy.exists_gt (h : Roomy counts total tableLog) (hsum : counts.sum = total)
    (hpos : 0 < total) : ∃ c ∈ counts, total >>> tableLog < c := by
  by_contra! hnone
  have hslots := Nat.two_pow_pos tableLog
  have hle := sum_le_length_mul hnone
  rw [hsum, Nat.shiftRight_eq_div_pow] at hle
  rcases h with hfew | hmany
  · rw [Nat.div_eq_of_lt hfew, Nat.mul_zero] at hle
    omega
  · have hdiv := Nat.div_mul_le_self total (2 ^ tableLog)
    rcases Nat.eq_zero_or_pos (total / 2 ^ tableLog) with hzero | hquot
    · rw [hzero, Nat.mul_zero] at hle
      omega
    · have hless : counts.length * (total / 2 ^ tableLog) < 2 ^ tableLog * (total / 2 ^ tableLog) :=
        Nat.mul_lt_mul_of_pos_right (by omega) hquot
      rw [Nat.mul_comm (2 ^ tableLog)] at hless
      omega

/-- A table of the least size is roomy. -/
theorem roomy_of_minTableLog (hlength : 1 < counts.length) (hpos : 0 < total)
    (hlt : total < 2 ^ 32) (hlog : minTableLog total (counts.length - 1) ≤ tableLog) :
    Roomy counts total tableLog := by
  unfold minTableLog at hlog
  simp only [Nat.mod_eq_of_lt hlt] at hlog
  obtain ⟨-, htotal⟩ := highbit_spec (v := total) (by omega)
  obtain ⟨-, hsymbols⟩ := highbit_spec (v := counts.length - 1) (by omega)
  by_cases hless : highbit total + 1 < highbit (counts.length - 1) + 2
  · rw [if_pos hless] at hlog
    exact Or.inl (Nat.lt_of_lt_of_le htotal (Nat.pow_le_pow_right (by decide) hlog))
  · rw [if_neg hless] at hlog
    right
    calc 2 * counts.length ≤ 2 * 2 ^ (highbit (counts.length - 1) + 1) := by omega
      _ = 2 ^ (highbit (counts.length - 1) + 2) := by rw [← Nat.pow_succ']
      _ ≤ 2 ^ tableLog := Nat.pow_le_pow_right (by decide) hlog

end Facts

/-! ## Rounding -/

section Rounding

variable {counts : List ℕ} {total tableLog c : ℕ} {lowProbCount : ℤ}

/-- What the slots of rare symbols are counted as. -/
def IsLowProbCount (n : ℤ) : Prop := n = -1 ∨ n = 1

theorem IsLowProbCount.fair (h : IsLowProbCount lowProbCount) (hc : 0 < c) :
    Fair c lowProbCount := by
  rcases h with rfl | rfl
  · exact fair_low hc
  · exact fair_of_pos hc (by decide)

theorem IsLowProbCount.slots_eq (h : IsLowProbCount lowProbCount) : slots lowProbCount = 1 := by
  rcases h with rfl | rfl
  · rfl
  · rfl

/-- What occurs is not rounded to nothing. -/
theorem roundedProba_pos (tableLog : ℕ) (hc : 0 < c) (hpos : 0 < total) (hlt : total < 2 ^ 32) :
    0 < roundedProba total tableLog c := by
  have hstep : 0 < 2 ^ 62 / (total % 2 ^ 32) := by
    rw [Nat.mod_eq_of_lt hlt]
    exact Nat.div_pos (by omega) hpos
  have hmore : 0 < c * (2 ^ 62 / (total % 2 ^ 32)) := Nat.mul_pos hc hstep
  have hfirst : rtbTable.getD 0 0 = 0 := rfl
  unfold roundedProba
  simp only
  rcases Nat.eq_zero_or_pos ((c * (2 ^ 62 / (total % 2 ^ 32))) >>> (62 - tableLog)) with
    hzero | hsome
  · rw [hzero, if_pos (by decide), hfirst, Nat.mul_zero, Nat.zero_shiftLeft, Nat.sub_zero,
      if_pos hmore]
    exact Nat.one_pos
  · split_ifs <;> omega

/-- What the first loop has done: all slots are accounted for, and the largest symbol has one
if there is a symbol that is not rare. -/
structure RoundsTo (total tableLog : ℕ) (counts : List ℕ) (s : ℕ) (still : ℤ)
    (largest largestP : ℕ) (r : Rounded) : Prop where
  fair : List.Forall₂ Fair counts r.norm
  still_eq : r.stillToDistribute + (r.norm.map slots).sum = still
  largest : (r.largest = largest ∧ ∀ c ∈ counts, total >>> tableLog < c →
      roundedProba total tableLog c ≤ largestP) ∨
    ∃ i < counts.length, r.largest = s + i ∧ 0 < r.norm.getD i 0 ∧ 0 < counts.getD i 0

theorem RoundsTo.behind {s : ℕ} {still : ℤ} {largest largestP : ℕ} {r : Rounded} {n : ℤ}
    (h : RoundsTo total tableLog counts (s + 1) (still - slots n) largest largestP r)
    (hfair : Fair c n) (hrare : total >>> tableLog < c → roundedProba total tableLog c ≤ largestP) :
    RoundsTo total tableLog (c :: counts) s still largest largestP
      { r with norm := n :: r.norm } := by
  refine ⟨List.Forall₂.cons hfair h.fair, ?_, ?_⟩
  · have hstill := h.still_eq
    rw [sum_slots_cons, Nat.cast_add]
    simp only
    omega
  · rcases h.largest with ⟨hsame, hrest⟩ | ⟨i, hi, hlargest, hslots, hoccurs⟩
    · left
      refine ⟨hsame, fun d hd hnot => ?_⟩
      rcases List.mem_cons.mp hd with rfl | hd
      · exact hrare hnot
      · exact hrest d hd hnot
    · right
      exact ⟨i + 1, Nat.succ_lt_succ hi, by simp only; omega, hslots, hoccurs⟩

/-- A symbol that is larger than those in front of it. -/
theorem RoundsTo.behind_larger {s : ℕ} {still : ℤ} {largest largestP : ℕ} {r : Rounded} {n : ℕ}
    (h : RoundsTo total tableLog counts (s + 1) (still - slots n) s n r) (hc : 0 < c) (hn : 0 < n) :
    RoundsTo total tableLog (c :: counts) s still largest largestP
      { r with norm := (n : ℤ) :: r.norm } := by
  refine ⟨List.Forall₂.cons (fair_of_pos hc (by omega)) h.fair, ?_, Or.inr ?_⟩
  · have hstill := h.still_eq
    rw [sum_slots_cons, Nat.cast_add]
    simp only
    omega
  · rcases h.largest with ⟨hsame, -⟩ | ⟨i, hi, hlargest, hslots, hoccurs⟩
    · exact ⟨0, Nat.succ_pos _, hsame, by simpa using hn, hc⟩
    · exact ⟨i + 1, Nat.succ_lt_succ hi, by simp only; omega, hslots, hoccurs⟩

/-- The first loop of the normalization. -/
theorem roundCounts_spec (tableLog : ℕ) (hlow : IsLowProbCount lowProbCount) (hpos : 0 < total)
    (hlt : total < 2 ^ 32) (hmixed : ∀ c ∈ counts, c ≠ total) (s : ℕ) (still : ℤ)
    (largest largestP : ℕ) :
    ∃ r, roundCounts total tableLog lowProbCount counts s still largest largestP = some r ∧
      RoundsTo total tableLog counts s still largest largestP r := by
  induction counts generalizing s still largest largestP with
  | nil =>
      exact ⟨_, rfl, List.Forall₂.nil, by simp, Or.inl ⟨rfl, fun c hc => by cases hc⟩⟩
  | cons c counts ih =>
      have hrest : ∀ d ∈ counts, d ≠ total := fun d hd => hmixed d (List.mem_cons_of_mem c hd)
      rw [roundCounts, if_neg (hmixed c List.mem_cons_self)]
      by_cases hzero : c = 0
      · obtain ⟨r, hr, hspec⟩ := ih hrest (s + 1) (still - slots 0) largest largestP
        have hsame : still - (slots 0 : ℕ) = still := by simp [slots]
        rw [hsame] at hr
        rw [if_pos hzero, hr]
        exact ⟨_, rfl,
          hspec.behind (hzero ▸ fair_zero) fun hnot => by rw [hzero] at hnot; cases hnot⟩
      rw [if_neg hzero]
      by_cases hrare : c ≤ total >>> tableLog
      · obtain ⟨r, hr, hspec⟩ := ih hrest (s + 1) (still - slots lowProbCount) largest largestP
        have hone : still - (slots lowProbCount : ℕ) = still - 1 := by
          rw [hlow.slots_eq, Nat.cast_one]
        rw [hone] at hr
        rw [if_pos hrare, hr]
        exact ⟨_, rfl, hspec.behind (hlow.fair (Nat.pos_of_ne_zero hzero))
          fun hnot => absurd hrare (Nat.not_le_of_lt hnot)⟩
      rw [if_neg hrare]
      have hproba := roundedProba_pos tableLog (Nat.pos_of_ne_zero hzero) hpos hlt
      have hslots : slots (roundedProba total tableLog c : ℤ) = roundedProba total tableLog c :=
        slots_of_pos (by omega)
      simp only
      by_cases hlarger : largestP < roundedProba total tableLog c
      · obtain ⟨r, hr, hspec⟩ := ih hrest (s + 1)
          (still - slots (roundedProba total tableLog c : ℤ)) s (roundedProba total tableLog c)
        rw [hslots] at hr
        rw [if_pos hlarger, hr]
        exact ⟨_, rfl, hspec.behind_larger (Nat.pos_of_ne_zero hzero) hproba⟩
      · obtain ⟨r, hr, hspec⟩ := ih hrest (s + 1)
          (still - slots (roundedProba total tableLog c : ℤ)) largest largestP
        rw [hslots] at hr
        rw [if_neg hlarger, hr]
        exact ⟨_, rfl, hspec.behind (fair_of_pos (Nat.pos_of_ne_zero hzero) (by omega))
          fun _ => Nat.le_of_not_lt hlarger⟩

end Rounding

/-! ## Setting the rare symbols aside -/

section Aside

variable {counts : List ℕ} {norm : List ℤ} {total tableLog c lowThreshold bound : ℕ} {n : ℤ}
  {lowProbCount : ℤ}

/-- What a symbol has got.  Those above a bound have not got theirs yet. -/
def Entry (lowThreshold bound : ℕ) (lowProbCount : ℤ) (c : ℕ) (n : ℤ) : Prop :=
  (c = 0 ∧ n = 0) ∨ (0 < c ∧ c ≤ lowThreshold ∧ n = lowProbCount) ∨ (lowThreshold < c ∧ n = 1) ∨
    (lowThreshold < c ∧ bound < c ∧ n = notYetAssigned)

/-- How often the symbols occur that have not got theirs yet. -/
def openTotal : List ℕ → List ℤ → ℕ
  | c :: counts, n :: norm => (if n = notYetAssigned then c else 0) + openTotal counts norm
  | _, _ => 0

theorem slots_notYetAssigned : slots notYetAssigned = 0 := rfl

theorem IsLowProbCount.ne (h : IsLowProbCount lowProbCount) : lowProbCount ≠ notYetAssigned := by
  rcases h with rfl | rfl <;> decide

theorem Entry.slots_le (h : Entry lowThreshold bound lowProbCount c n)
    (hlow : IsLowProbCount lowProbCount) :
    slots n + (if n = notYetAssigned then c else 0) ≤ c ∧ slots n ≤ 1 := by
  rcases h with ⟨rfl, rfl⟩ | ⟨hpos, -, hn⟩ | ⟨hpos, rfl⟩ | ⟨-, -, rfl⟩
  · exact ⟨Nat.le_refl 0, Nat.zero_le 1⟩
  · rw [hn, if_neg hlow.ne, hlow.slots_eq]
    exact ⟨hpos, Nat.le_refl 1⟩
  · have hone : slots 1 = 1 := rfl
    rw [if_neg (by decide), hone]
    exact ⟨by omega, Nat.le_refl 1⟩
  · rw [if_pos rfl, slots_notYetAssigned]
    exact ⟨Nat.le_of_eq (Nat.zero_add c), Nat.zero_le 1⟩

theorem Entry.fair (h : Entry lowThreshold bound lowProbCount c n)
    (hlow : IsLowProbCount lowProbCount) (hn : n ≠ notYetAssigned) : Fair c n := by
  rcases h with ⟨rfl, rfl⟩ | ⟨hpos, -, hlowN⟩ | ⟨hpos, rfl⟩ | ⟨-, -, rfl⟩
  · exact fair_zero
  · exact hlowN ▸ hlow.fair hpos
  · exact fair_of_pos (by omega) (by decide)
  · exact absurd rfl hn

/-- Each slot that was given away stands for an occurrence. -/
theorem slots_add_openTotal_le (hlow : IsLowProbCount lowProbCount)
    (h : List.Forall₂ (Entry lowThreshold bound lowProbCount) counts norm) :
    (norm.map slots).sum + openTotal counts norm ≤ counts.sum ∧
      (norm.map slots).sum ≤ counts.length := by
  induction h with
  | nil => exact ⟨Nat.le_refl 0, Nat.le_refl 0⟩
  | cons hhead htail ih =>
      have hslots := hhead.slots_le hlow
      rw [sum_slots_cons, openTotal, List.sum_cons, List.length_cons]
      omega

/-- What the loops that set symbols aside have done. -/
structure SetAside (lowThreshold bound : ℕ) (lowProbCount : ℤ) (counts : List ℕ) (a : Assigned) :
    Prop where
  entries : List.Forall₂ (Entry lowThreshold bound lowProbCount) counts a.norm
  distributed_eq : a.distributed = (a.norm.map slots).sum
  total_eq : a.total = openTotal counts a.norm

theorem assignLow_spec (hlow : IsLowProbCount lowProbCount)
    (lowThreshold lowOne distributed total : ℕ)
    (hsum : counts.sum ≤ total) :
    ∃ norm total', assignLow lowThreshold lowOne lowProbCount counts distributed total =
        ⟨norm, distributed + (norm.map slots).sum, total'⟩ ∧
      List.Forall₂ (Entry lowThreshold lowOne lowProbCount) counts norm ∧
      total' + counts.sum = total + openTotal counts norm := by
  induction counts generalizing distributed total with
  | nil => exact ⟨[], total, rfl, List.Forall₂.nil, rfl⟩
  | cons c counts ih =>
      rw [List.sum_cons] at hsum ⊢
      rw [assignLow]
      by_cases hzero : c = 0
      · obtain ⟨norm, total', heq, hentries, htotal⟩ := ih distributed total (by omega)
        have hnone : slots 0 = 0 := rfl
        rw [if_pos hzero, heq, Assigned.cons]
        refine ⟨0 :: norm, total', ?_, List.Forall₂.cons (Or.inl ⟨hzero, rfl⟩) hentries, ?_⟩
        · rw [sum_slots_cons, hnone, Nat.zero_add]
        · rw [openTotal, if_neg (by decide)]
          omega
      rw [if_neg hzero]
      by_cases hrare : c ≤ lowThreshold
      · obtain ⟨norm, total', heq, hentries, htotal⟩ :=
          ih (distributed + 1) (total - c) (by omega)
        rw [if_pos hrare, heq, Assigned.cons]
        refine ⟨lowProbCount :: norm, total', ?_,
          List.Forall₂.cons (Or.inr (Or.inl ⟨by omega, hrare, rfl⟩)) hentries, ?_⟩
        · rw [sum_slots_cons, hlow.slots_eq, Nat.add_assoc]
        · rw [openTotal, if_neg hlow.ne]
          omega
      rw [if_neg hrare]
      by_cases hone : c ≤ lowOne
      · obtain ⟨norm, total', heq, hentries, htotal⟩ :=
          ih (distributed + 1) (total - c) (by omega)
        have honeSlot : slots 1 = 1 := rfl
        rw [if_pos hone, heq, Assigned.cons]
        refine ⟨1 :: norm, total', ?_,
          List.Forall₂.cons (Or.inr (Or.inr (Or.inl ⟨by omega, rfl⟩))) hentries, ?_⟩
        · rw [sum_slots_cons, honeSlot, Nat.add_assoc]
        · rw [openTotal, if_neg (by decide)]
          omega
      · obtain ⟨norm, total', heq, hentries, htotal⟩ := ih distributed total (by omega)
        rw [if_neg hone, heq, Assigned.cons]
        refine ⟨notYetAssigned :: norm, total', ?_,
          List.Forall₂.cons (Or.inr (Or.inr (Or.inr ⟨by omega, by omega, rfl⟩))) hentries, ?_⟩
        · rw [sum_slots_cons, slots_notYetAssigned, Nat.zero_add]
        · rw [openTotal, if_pos rfl]
          omega

theorem setAside_assignLow (hlow : IsLowProbCount lowProbCount) (lowThreshold lowOne : ℕ)
    (hsum : counts.sum = total) :
    SetAside lowThreshold lowOne lowProbCount counts
      (assignLow lowThreshold lowOne lowProbCount counts 0 total) := by
  obtain ⟨norm, total', heq, hentries, htotal⟩ :=
    assignLow_spec hlow lowThreshold lowOne 0 total (Nat.le_of_eq hsum)
  rw [heq]
  exact ⟨hentries, Nat.zero_add _, by simp only; omega⟩

/-- What is open is above the bound. -/
theorem Entry.open_gt (h : Entry lowThreshold bound lowProbCount c notYetAssigned)
    (hlow : IsLowProbCount lowProbCount) : lowThreshold < c ∧ bound < c := by
  rcases h with ⟨-, hn⟩ | ⟨-, -, hn⟩ | ⟨-, hn⟩ | ⟨hlarge, hbound, -⟩
  · cases hn
  · exact absurd hn.symm hlow.ne
  · cases hn
  · exact ⟨hlarge, hbound⟩

/-- More symbols get a slot, each of them for many occurrences. -/
theorem assignOnes_spec (hlow : IsLowProbCount lowProbCount) {most slot : ℕ}
    (lowOne distributed total : ℕ)
    (h : List.Forall₂ (Entry lowThreshold bound lowProbCount) counts norm)
    (hmany : ∀ c, bound < c → most ≤ slot * c) (htotal : openTotal counts norm ≤ total) :
    ∃ norm' distributed' total',
      assignOnes lowOne counts norm distributed total = ⟨norm', distributed', total'⟩ ∧
      List.Forall₂ (Entry lowThreshold lowOne lowProbCount) counts norm' ∧
      distributed ≤ distributed' ∧
      distributed' + (norm.map slots).sum = distributed + (norm'.map slots).sum ∧
      total' + openTotal counts norm = total + openTotal counts norm' ∧
      most * (norm'.map slots).sum + slot * openTotal counts norm' ≤
        most * (norm.map slots).sum + slot * openTotal counts norm := by
  induction h generalizing distributed total with
  | nil => exact ⟨[], distributed, total, rfl, List.Forall₂.nil, Nat.le_refl _, rfl, rfl,
      Nat.le_refl _⟩
  | @cons c n counts norm hhead htail ih =>
      rw [openTotal] at htotal
      rw [assignOnes]
      by_cases hn : n = notYetAssigned
      · subst hn
        obtain ⟨hlarge, hbound⟩ := hhead.open_gt hlow
        rw [if_pos rfl] at htotal
        by_cases hle : c ≤ lowOne
        · obtain ⟨norm', distributed', total', heq, hentries, hmore, hdistributed, hrest,
              hweights⟩ :=
            ih (distributed + 1) (total - c) (by omega)
          have honeSlot : slots 1 = 1 := rfl
          have hworth := hmany c hbound
          rw [if_pos ⟨rfl, hle⟩, heq, Assigned.cons]
          refine ⟨1 :: norm', distributed', total', rfl,
            List.Forall₂.cons (Or.inr (Or.inr (Or.inl ⟨hlarge, rfl⟩))) hentries, by omega,
            ?_, ?_, ?_⟩
          · rw [sum_slots_cons, sum_slots_cons, slots_notYetAssigned, honeSlot]
            omega
          · rw [openTotal, openTotal, if_pos rfl, if_neg (by decide)]
            omega
          · rw [sum_slots_cons, sum_slots_cons, openTotal, openTotal, if_pos rfl,
              if_neg (by decide), slots_notYetAssigned, honeSlot, Nat.mul_add, Nat.mul_add,
              Nat.mul_add, Nat.mul_add]
            omega
        · obtain ⟨norm', distributed', total', heq, hentries, hmore, hdistributed, hrest,
              hweights⟩ :=
            ih distributed total (by omega)
          rw [if_neg (fun hboth => hle hboth.2), heq, Assigned.cons]
          refine ⟨notYetAssigned :: norm', distributed', total', rfl, List.Forall₂.cons
            (Or.inr (Or.inr (Or.inr ⟨hlarge, Nat.lt_of_not_le hle, rfl⟩))) hentries, by omega,
            ?_, ?_, ?_⟩
          · rw [sum_slots_cons, sum_slots_cons]
            omega
          · rw [openTotal, openTotal]
            omega
          · rw [sum_slots_cons, sum_slots_cons, openTotal, openTotal, Nat.mul_add, Nat.mul_add,
              Nat.mul_add, Nat.mul_add]
            omega
      · rw [if_neg hn, Nat.zero_add] at htotal
        obtain ⟨norm', distributed', total', heq, hentries, hmore, hdistributed, hrest,
              hweights⟩ :=
          ih distributed total htotal
        have hkept : Entry lowThreshold lowOne lowProbCount c n := by
          rcases hhead with hzero | hrare | hone | ⟨-, -, hopen⟩
          · exact Or.inl hzero
          · exact Or.inr (Or.inl hrare)
          · exact Or.inr (Or.inr (Or.inl hone))
          · exact absurd hopen hn
        rw [if_neg (fun hboth => hn hboth.1), heq, Assigned.cons]
        refine ⟨n :: norm', distributed', total', rfl, List.Forall₂.cons hkept hentries, by omega,
            ?_, ?_, ?_⟩
        · rw [sum_slots_cons, sum_slots_cons]
          omega
        · rw [openTotal, openTotal]
          omega
        · rw [sum_slots_cons, sum_slots_cons, openTotal, openTotal, Nat.mul_add, Nat.mul_add,
            Nat.mul_add, Nat.mul_add]
          omega

end Aside

/-! ## Sharing the rest out -/

section Rest

variable {counts : List ℕ} {norm : List ℤ} {total tableLog c lowThreshold bound : ℕ} {n : ℤ}
  {lowProbCount : ℤ}

theorem mostFrequentSymbol_spec (counts : List ℕ) (s maxV maxC : ℕ) :
    (mostFrequentSymbol counts s maxV maxC = maxV ∧ ∀ c ∈ counts, c ≤ maxC) ∨
      ∃ i < counts.length, mostFrequentSymbol counts s maxV maxC = s + i ∧
        maxC < counts.getD i 0 ∧ ∀ c ∈ counts, c ≤ counts.getD i 0 := by
  induction counts generalizing s maxV maxC with
  | nil => exact Or.inl ⟨rfl, fun c hc => by cases hc⟩
  | cons c counts ih =>
      rw [mostFrequentSymbol]
      by_cases hmore : maxC < c
      · rw [if_pos hmore]
        right
        rcases ih (s + 1) s c with ⟨hsame, hrest⟩ | ⟨i, hi, hfound, hlarger, hrest⟩
        · exact ⟨0, Nat.succ_pos _, hsame, hmore, List.forall_mem_cons.mpr ⟨Nat.le_refl c, hrest⟩⟩
        · exact ⟨i + 1, Nat.succ_lt_succ hi, by omega, Nat.lt_trans hmore hlarger,
            List.forall_mem_cons.mpr ⟨hlarger.le, hrest⟩⟩
      · rw [if_neg hmore]
        have hle := Nat.le_of_not_lt hmore
        rcases ih (s + 1) maxV maxC with ⟨hsame, hrest⟩ | ⟨i, hi, hfound, hlarger, hrest⟩
        · exact Or.inl ⟨hsame, List.forall_mem_cons.mpr ⟨hle, hrest⟩⟩
        · exact Or.inr ⟨i + 1, Nat.succ_lt_succ hi, by omega, hlarger,
            List.forall_mem_cons.mpr ⟨Nat.le_trans hle hlarger.le, hrest⟩⟩

/-- If there are as many slots as symbols, each of them has one. -/
theorem slots_eq_one (hlow : IsLowProbCount lowProbCount)
    (h : List.Forall₂ (Entry lowThreshold bound lowProbCount) counts norm)
    (hall : (norm.map slots).sum = counts.length) :
    List.Forall₂ (fun c n => Entry lowThreshold bound lowProbCount c n ∧ slots n = 1)
      counts norm := by
  induction h with
  | nil => exact List.Forall₂.nil
  | cons hhead htail ih =>
      have hone := (hhead.slots_le hlow).2
      have hrest := (slots_add_openTotal_le hlow htail).2
      rw [sum_slots_cons, List.length_cons] at hall
      exact List.Forall₂.cons ⟨hhead, by omega⟩ (ih (by omega))

/-- The slots that are left go to the symbol that occurs most often. -/
theorem sharedOut_most (hlow : IsLowProbCount lowProbCount)
    (h : List.Forall₂ (Entry lowThreshold bound lowProbCount) counts norm)
    (hall : (norm.map slots).sum = counts.length) (hfits : counts.length ≤ 2 ^ tableLog)
    (hsome : ∃ c ∈ counts, lowThreshold < c) :
    SharedOut counts tableLog
      (norm.set (mostFrequentSymbol counts 0 0 0)
        (norm.getD (mostFrequentSymbol counts 0 0 0) 0 + (2 ^ tableLog - counts.length : ℕ))) := by
  obtain ⟨c, hc, hlarge⟩ := hsome
  have hones := slots_eq_one hlow h hall
  rcases mostFrequentSymbol_spec counts 0 0 0 with ⟨-, hnone⟩ | ⟨i, hi, hfound, hpos, hmost⟩
  · have hzero := hnone c hc
    omega
  · rw [Nat.zero_add] at hfound
    obtain ⟨hentry, hslot⟩ := forall₂_getD hones hi
    have hlarger := hmost c hc
    have hone : norm.getD i 0 = 1 := by
      rcases hentry with ⟨hzero, -⟩ | ⟨-, hrare, -⟩ | ⟨-, hone⟩ | ⟨-, -, hopen⟩
      · omega
      · omega
      · exact hone
      · rw [hopen, slots_notYetAssigned] at hslot
        cases hslot
    rw [hfound, hone]
    have hfair : List.Forall₂ Fair counts norm := hones.imp fun c n hcn =>
      hcn.1.fair hlow fun hopen => by
        have hnone := hcn.2
        rw [hopen, slots_notYetAssigned] at hnone
        cases hnone
    have hset := sum_slots_set (show i < norm.length by rw [← h.length_eq]; exact hi)
      (1 + (2 ^ tableLog - counts.length : ℕ) : ℤ)
    rw [slots_of_pos (n := 1 + _) (by omega), hslot, hall] at hset
    exact ⟨forall₂_set hfair fun _ => fair_of_pos hpos (by omega), by omega⟩

/-- How far a place is behind another, around the table. -/
def distance (s j length : ℕ) : ℕ := if s ≤ j then j - s else j + length - s

/-- The slots that are left go round, as long as one symbol takes part. -/
theorem giveRound_spec (fuel s toDistribute : ℕ) {j : ℕ} (h : List.Forall₂ Fair counts norm)
    (hs : s < norm.length) (hj : j < norm.length) (hpos : 0 < norm.getD j 0)
    (hfuel : toDistribute = 0 ∨ (toDistribute - 1) * norm.length + distance s j norm.length <
      fuel) :
    List.Forall₂ Fair counts (giveRound fuel s toDistribute norm) ∧
      ((giveRound fuel s toDistribute norm).map slots).sum =
        (norm.map slots).sum + toDistribute := by
  induction fuel generalizing s toDistribute norm with
  | zero =>
      rcases hfuel with hzero | hless
      · rw [giveRound, hzero]
        exact ⟨h, rfl⟩
      · exact absurd hless (Nat.not_lt_zero _)
  | succ fuel ih =>
      rw [giveRound]
      by_cases hmore : 0 < toDistribute
      · rw [if_pos hmore]
        have hlength : counts.length = norm.length := h.length_eq
        have hnext : (s + 1) % norm.length < norm.length := Nat.mod_lt _ (by omega)
        have hdistance := hfuel.resolve_left (by omega)
        by_cases hgive : 0 < norm.getD s 0
        · rw [if_pos hgive]
          have hoccurs := forall₂_getD h (show s < counts.length by omega)
          have hslots : slots (norm.getD s 0) = (norm.getD s 0).toNat := slots_of_pos hgive
          have hset := sum_slots_set hs (norm.getD s 0 + 1)
          rw [slots_of_pos (n := norm.getD s 0 + 1) (by omega), hslots] at hset
          have hcount : 0 < counts.getD s 0 := hoccurs.occurs.mp (by omega)
          have hstill : 0 < (norm.set s (norm.getD s 0 + 1)).getD j 0 := by
            rw [List.getD_eq_getElem?_getD, List.getElem?_set]
            split_ifs
            · simp only [Option.getD_some]
              omega
            · rwa [← List.getD_eq_getElem?_getD]
          obtain ⟨hfair, hsum⟩ := ih ((s + 1) % norm.length) (toDistribute - 1)
            (forall₂_set h fun _ => fair_of_pos hcount (by omega)) (by rwa [List.length_set])
            (by rwa [List.length_set]) hstill (by
              rw [List.length_set]
              by_cases hlast : toDistribute - 1 = 0
              · exact Or.inl hlast
              · right
                have hround : distance ((s + 1) % norm.length) j norm.length < norm.length := by
                  unfold distance
                  split_ifs <;> omega
                have hsplit : (toDistribute - 1) * norm.length =
                    (toDistribute - 1 - 1) * norm.length + norm.length := by
                  rw [← Nat.succ_mul]
                  congr 1
                  omega
                omega)
          exact ⟨hfair, by omega⟩
        · rw [if_neg hgive]
          have hne : s ≠ j := fun hsame => hgive (hsame ▸ hpos)
          refine ih _ _ h hnext hj hpos (Or.inr ?_)
          have hcloser : distance ((s + 1) % norm.length) j norm.length + 1 =
              distance s j norm.length := by
            by_cases hwrap : s + 1 = norm.length
            · rw [hwrap, Nat.mod_self]
              unfold distance
              split_ifs <;> omega
            · rw [Nat.mod_eq_of_lt (by omega)]
              unfold distance
              split_ifs <;> omega
          omega
      · rw [if_neg hmore]
        exact ⟨h, by omega⟩

/-- The rest is shared out along the running total. -/
theorem shareRest_spec {vStepLog rStep : ℕ} (tmpTotal : ℕ) (hlow : IsLowProbCount lowProbCount)
    (h : List.Forall₂ (Entry lowThreshold bound lowProbCount) counts norm)
    (henough : ∀ c, bound < c → 2 ^ vStepLog ≤ c * rStep) :
    ∃ norm', shareRest vStepLog rStep counts norm tmpTotal = .ok norm' ∧
      List.Forall₂ Fair counts norm' ∧
      (norm'.map slots).sum + tmpTotal / 2 ^ vStepLog = (norm.map slots).sum +
        (tmpTotal + openTotal counts norm * rStep) / 2 ^ vStepLog := by
  induction h generalizing tmpTotal with
  | nil =>
      have hempty : openTotal [] [] = 0 := rfl
      exact ⟨[], rfl, List.Forall₂.nil, by rw [hempty, Nat.zero_mul, Nat.add_zero]⟩
  | @cons c n counts norm hhead htail ih =>
      rw [shareRest, openTotal]
      by_cases hopen : n = notYetAssigned
      · subst hopen
        obtain ⟨hlarge, hbound⟩ := hhead.open_gt hlow
        obtain ⟨norm', hok, hfair, hsum⟩ := ih (tmpTotal + c * rStep)
        have hweight : tmpTotal / 2 ^ vStepLog + 1 ≤ (tmpTotal + c * rStep) / 2 ^ vStepLog := by
          rw [← Nat.add_div_right _ (Nat.two_pow_pos vStepLog)]
          exact Nat.div_le_div_right (Nat.add_le_add_left (henough c hbound) _)
        rw [if_pos rfl, if_pos rfl]
        simp only [Nat.shiftRight_eq_div_pow]
        rw [if_neg (by omega), hok]
        refine ⟨_, rfl, List.Forall₂.cons (fair_of_pos (by omega) (by omega)) hfair, ?_⟩
        rw [sum_slots_cons, sum_slots_cons, slots_notYetAssigned, slots_of_pos (by omega),
          Int.toNat_natCast, Nat.add_mul, ← Nat.add_assoc tmpTotal]
        omega
      · obtain ⟨norm', hok, hfair, hsum⟩ := ih tmpTotal
        rw [if_neg hopen, if_neg hopen, hok]
        refine ⟨_, rfl, List.Forall₂.cons (hhead.fair hlow hopen) hfair, ?_⟩
        rw [sum_slots_cons, sum_slots_cons, Nat.zero_add]
        omega

/-- The running total comes out even, and everyone who is above the average gets a slot. -/
theorem rStep_spec (toDistribute : ℕ) {rest vStepLog : ℕ} (hrest : 0 < rest) (hlt : rest < 2 ^ 32)
    (hstep : 50 ≤ vStepLog) :
    let mid := 2 ^ (vStepLog - 1) - 1
    let rStep := (2 ^ vStepLog * toDistribute + mid) / rest
    (mid + rest * rStep) / 2 ^ vStepLog = toDistribute ∧ mid / 2 ^ vStepLog = 0 ∧
      ∀ c, rest ≤ c * toDistribute → 2 ^ vStepLog ≤ c * rStep := by
  simp only
  have hhalf : 2 ^ vStepLog = 2 * 2 ^ (vStepLog - 1) := by
    rw [← Nat.pow_succ']
    congr 1
    omega
  have hlarge : 2 ^ 49 ≤ 2 ^ (vStepLog - 1) := Nat.pow_le_pow_right (by decide) (by omega)
  generalize 2 ^ (vStepLog - 1) = half at hhalf hlarge
  generalize 2 ^ vStepLog = step at hhalf
  have hle := Nat.mul_div_le (step * toDistribute + (half - 1)) rest
  have hgt := Nat.lt_mul_div_succ (step * toDistribute + (half - 1)) hrest
  generalize (step * toDistribute + (half - 1)) / rest = rStep at hle hgt
  rw [Nat.mul_succ] at hgt
  refine ⟨?_, Nat.div_eq_of_lt (by omega), fun c hc => ?_⟩
  · refine Nat.div_eq_of_lt_le ?_ ?_
    · rw [Nat.mul_comm]
      omega
    · rw [Nat.add_mul, Nat.one_mul, Nat.mul_comm toDistribute]
      omega
  · have hcover : step * toDistribute ≤ rest * rStep := by omega
    refine Nat.le_of_mul_le_mul_left ?_ hrest
    calc rest * step ≤ c * toDistribute * step := Nat.mul_le_mul_right _ hc
      _ = c * (step * toDistribute) := by ring
      _ ≤ c * (rest * rStep) := Nat.mul_le_mul_left _ hcover
      _ = rest * (c * rStep) := by ring

/-- When nothing is open all symbols have got theirs. -/
theorem fair_of_openTotal (hlow : IsLowProbCount lowProbCount)
    (h : List.Forall₂ (Entry lowThreshold bound lowProbCount) counts norm)
    (hnone : openTotal counts norm = 0) :
    List.Forall₂ (fun c n => Fair c n ∧ (lowThreshold < c → n = 1)) counts norm := by
  induction h with
  | nil => exact List.Forall₂.nil
  | @cons c n counts norm hhead htail ih =>
      rw [openTotal] at hnone
      have hclosed : n ≠ notYetAssigned := by
        rintro rfl
        have hlarge := (hhead.open_gt hlow).1
        rw [if_pos rfl] at hnone
        omega
      refine List.Forall₂.cons ⟨hhead.fair hlow hclosed, fun hlarge => ?_⟩ (ih (by omega))
      rcases hhead with ⟨hzero, -⟩ | ⟨-, hrare, -⟩ | ⟨-, hone⟩ | ⟨-, -, hopen⟩
      · omega
      · omega
      · exact hone
      · exact absurd hopen hclosed

/-- What is left is shared out exactly. -/
theorem distributeRest_spec {a : Assigned} (hlow : IsLowProbCount lowProbCount)
    (h : SetAside lowThreshold bound lowProbCount counts a) (hlog : tableLog ≤ 12)
    (hlt : counts.sum < 2 ^ 32) (hroom : a.distributed < 2 ^ tableLog)
    (hsome : ∃ c ∈ counts, lowThreshold < c)
    (henough : ∀ c, bound < c → a.total ≤ c * (2 ^ tableLog - a.distributed)) :
    ∃ norm, distributeRest counts tableLog a = .ok norm ∧ SharedOut counts tableLog norm := by
  have hslots := slots_add_openTotal_le hlow h.entries
  have hdistributed := h.distributed_eq
  have htotal := h.total_eq
  unfold distributeRest
  simp only
  by_cases hall : a.distributed = counts.length
  · rw [if_pos hall, hall]
    exact ⟨_, rfl, sharedOut_most hlow h.entries (by omega) (by omega) hsome⟩
  rw [if_neg hall]
  by_cases hnone : a.total = 0
  · have hfair := fair_of_openTotal hlow h.entries (by omega)
    obtain ⟨c, hc, hlarge⟩ := hsome
    obtain ⟨j, hj, rfl⟩ := List.getElem_of_mem hc
    have hlength : counts.length = a.norm.length := h.entries.length_eq
    have hone : a.norm.getD j 0 = 1 := by
      refine (forall₂_getD hfair hj).2 ?_
      rwa [List.getD_eq_getElem _ _ hj]
    rw [if_pos hnone]
    obtain ⟨hgiven, hsum⟩ := giveRound_spec (counts.length * (2 ^ tableLog - a.distributed)) 0
      (2 ^ tableLog - a.distributed) (hfair.imp fun c n hcn => hcn.1) (by omega)
       (show j < a.norm.length by omega) (by omega) (Or.inr (by
        have hsplit : counts.length * (2 ^ tableLog - a.distributed) =
            (2 ^ tableLog - a.distributed - 1) * a.norm.length + a.norm.length := by
          rw [← Nat.succ_mul, hlength, Nat.mul_comm]
          congr 1
          omega
        unfold distance
        rw [if_pos (Nat.zero_le j)]
        omega))
    exact ⟨_, rfl, hgiven, by omega⟩
  · have hmod : a.total % 2 ^ 32 = a.total := Nat.mod_eq_of_lt (by omega)
    obtain ⟨heven, hzero, hworth⟩ := rStep_spec (2 ^ tableLog - a.distributed)
      (Nat.pos_of_ne_zero hnone) (show a.total < 2 ^ 32 by omega)
      (show 50 ≤ 62 - tableLog by omega)
    obtain ⟨norm, hok, hfair, hsum⟩ := shareRest_spec (2 ^ (62 - tableLog - 1) - 1) hlow
      h.entries fun c hc => hworth c (henough c hc)
    rw [if_neg hnone, hmod]
    rw [← htotal, heven, hzero] at hsum
    exact ⟨norm, hok, hfair, by omega⟩

end Rest

/-! ## Normalizing -/

section Normalizing

variable {counts : List ℕ} {total tableLog : ℕ} {lowProbCount : ℤ}

/-- Setting symbols aside that occur no more than half again as often as the average leaves
enough for the others. -/
theorem enough_of_average {slotCount rest rest' d d' c : ℕ} (hslots : 0 < slotCount)
    (hlarge : rest * 3 < c * ((slotCount - d) * 2))
    (hweights : 3 * total * d' + 2 * slotCount * rest' ≤ 3 * total * d + 2 * slotCount * rest)
    (hrest : rest ≤ total) (hmore : d ≤ d') (hroom : 2 * d' ≤ slotCount) :
    rest' ≤ c * (slotCount - d') := by
  obtain ⟨k, rfl⟩ := Nat.exists_eq_add_of_le hmore
  obtain ⟨e, rfl⟩ := Nat.exists_eq_add_of_le (show d + k ≤ slotCount by omega)
  have hopen : d + k + e - d = k + e := by omega
  have hleft : d + k + e - (d + k) = e := by omega
  rw [hopen] at hlarge
  rw [hleft]
  by_contra hmany
  have hfew : d + k ≤ e := by omega
  -- the slots given away are worth more than the occurrences that went with them
  have hgiven : 3 * rest * k + 2 * (d + k + e) * (c * e) < 2 * (d + k + e) * rest := by
    have hworth : 3 * rest * k ≤ 3 * total * k := by gcongr
    have hmissing : 2 * (d + k + e) * (c * e) < 2 * (d + k + e) * rest' :=
      Nat.mul_lt_mul_of_pos_left (Nat.lt_of_not_le hmany) (by omega)
    rw [Nat.mul_add] at hweights
    omega
  have hscaled : 3 * rest * (k * (k + e)) + (d + k + e) * e * (3 * rest) ≤
      2 * (d + k + e) * rest * (k + e) := by
    have hshare : (d + k + e) * e * (rest * 3) ≤ (d + k + e) * e * (c * ((k + e) * 2)) :=
      Nat.mul_le_mul_left _ hlarge.le
    have hall : (3 * rest * k + 2 * (d + k + e) * (c * e)) * (k + e) ≤
        2 * (d + k + e) * rest * (k + e) := Nat.mul_le_mul_right _ hgiven.le
    nlinarith
  have hpos : 0 < rest := by
    rcases Nat.eq_zero_or_pos rest with hzero | hpos
    · rw [hzero] at hgiven
      omega
    · exact hpos
  have hcount : 3 * (k * (k + e)) + (d + k + e) * e * 3 ≤ 2 * (d + k + e) * (k + e) := by
    refine Nat.le_of_mul_le_mul_left ?_ hpos
    nlinarith
  nlinarith [Nat.mul_le_mul hfew hfew]

/-- The second method always shares all slots out. -/
theorem normalizeM2_spec (hlow : IsLowProbCount lowProbCount) (hsum : counts.sum = total)
    (hpos : 0 < total) (hlt : total < 2 ^ 32) (hlog : tableLog ≤ 12)
    (hroomy : Roomy counts total tableLog) :
    ∃ norm, normalizeM2 counts total tableLog lowProbCount = .ok norm ∧
      SharedOut counts tableLog norm := by
  have hslots := Nat.two_pow_pos tableLog
  have hsome := hroomy.exists_gt hsum hpos
  have hlength : 0 < counts.length := by
    obtain ⟨c, hc, -⟩ := hsome
    exact List.length_pos_of_mem hc
  have haside := setAside_assignLow hlow (total >>> tableLog) ((total * 3) >>> (tableLog + 1)) hsum
  have hle := slots_add_openTotal_le hlow haside.entries
  unfold normalizeM2
  simp only
  set a :=
    assignLow (total >>> tableLog) ((total * 3) >>> (tableLog + 1)) lowProbCount counts 0 total
  have hdistributed := haside.distributed_eq
  have htotal := haside.total_eq
  have hroom : a.distributed < 2 ^ tableLog := by
    rcases hroomy with hfew | hmany
    · omega
    · omega
  rw [if_neg (by omega)]
  by_cases hrisk : (total * 3) >>> (tableLog + 1) < a.total / (2 ^ tableLog - a.distributed)
  · have hmany : 2 * counts.length ≤ 2 ^ tableLog := by
      refine hroomy.resolve_left fun hfew => ?_
      rw [Nat.div_eq_of_lt (by omega)] at hrisk
      exact absurd hrisk (Nat.not_lt_zero _)
    have hworth : ∀ c, (total * 3) >>> (tableLog + 1) < c → 3 * total ≤ 2 * 2 ^ tableLog * c := by
      intro c hc
      rw [Nat.shiftRight_eq_div_pow, Nat.div_lt_iff_lt_mul (Nat.two_pow_pos _), Nat.pow_succ'] at hc
      rw [Nat.mul_comm 3, Nat.mul_comm _ c]
      exact hc.le
    obtain ⟨norm', distributed', total', heq, hentries, hmore, hsame, hrest, hweights⟩ :=
      assignOnes_spec hlow (a.total * 3 / ((2 ^ tableLog - a.distributed) * 2))
        a.distributed a.total
        haside.entries hworth (by omega)
    have hle' := slots_add_openTotal_le hlow hentries
    have hdistributed' : distributed' = (norm'.map slots).sum := by omega
    have htotal' : total' = openTotal counts norm' := by omega
    rw [← hdistributed, ← hdistributed', ← htotal, ← htotal'] at hweights
    rw [if_pos hrisk, heq]
    refine distributeRest_spec hlow ⟨hentries, hdistributed', htotal'⟩ hlog (by omega)
      (show distributed' < 2 ^ tableLog by omega) hsome fun c hc => ?_
    rw [Nat.div_lt_iff_lt_mul (by omega)] at hc
    exact enough_of_average hslots hc hweights (by omega) hmore
      (show 2 * distributed' ≤ 2 ^ tableLog by omega)
  · rw [if_neg hrisk]
    refine distributeRest_spec hlow haside hlog (by omega) hroom hsome fun c hc => ?_
    have hless := Nat.lt_of_le_of_lt (Nat.le_of_not_lt hrisk) hc
    rw [Nat.div_lt_iff_lt_mul (by omega)] at hless
    exact hless.le

/-- A symbol that occurs everywhere is not normalized.  Otherwise all slots of the table are
shared out to the symbols that occur. -/
theorem normalizeCount_spec (useLowProbCount : Bool) (hlength : 1 < counts.length)
    (hsum : counts.sum = total) (hlt : total < 2 ^ 32) (hmixed : ∀ c ∈ counts, c ≠ total)
    (hlog : 5 ≤ tableLog) (hlog' : tableLog ≤ 12)
    (hmin : minTableLog total (counts.length - 1) ≤ tableLog) :
    ∃ norm, normalizeCount tableLog counts total useLowProbCount = .ok (some norm) ∧
      SharedOut counts tableLog norm := by
  have hpos : 0 < total := by
    by_contra hzero
    have hnone : counts.sum = 0 := by omega
    have hfirst : counts[0] ∈ counts := List.getElem_mem (by omega)
    have hle := List.sum_eq_zero_iff_forall_eq_nat.mp hnone _ hfirst
    exact hmixed _ hfirst (by omega)
  have hroomy := roomy_of_minTableLog hlength hpos hlt hmin
  unfold normalizeCount
  simp only
  rw [if_neg (show tableLog ≠ 0 by omega), if_neg (by omega), if_neg (by omega), if_neg (by omega)]
  have hlow : IsLowProbCount (if useLowProbCount then -1 else 1) := by
    cases useLowProbCount with
    | true => exact Or.inl rfl
    | false => exact Or.inr rfl
  obtain ⟨r, hr, hspec⟩ := roundCounts_spec tableLog hlow hpos hlt hmixed 0 (2 ^ tableLog) 0 0
  rw [hr]
  simp only
  by_cases hcorner : r.norm.getD r.largest 0 / 2 ≤ -r.stillToDistribute
  · obtain ⟨norm, hok, hshared⟩ := normalizeM2_spec hlow hsum hpos hlt hlog' hroomy
    rw [if_pos hcorner, hok]
    exact ⟨norm, rfl, hshared⟩
  · rw [if_neg hcorner]
    refine ⟨_, rfl, ?_⟩
    obtain ⟨i, hi, hlargest, hslots, hoccurs⟩ : ∃ i < counts.length, r.largest = i ∧
        0 < r.norm.getD i 0 ∧ 0 < counts.getD i 0 := by
      rcases hspec.largest with ⟨-, hnone⟩ | ⟨i, hi, hlargest, hslots, hoccurs⟩
      · obtain ⟨c, hc, hlarge⟩ := hroomy.exists_gt hsum hpos
        have hproba := roundedProba_pos tableLog (Nat.zero_lt_of_lt hlarge) hpos hlt
        have hzero := hnone c hc hlarge
        omega
      · exact ⟨i, hi, by omega, hslots, hoccurs⟩
    rw [hlargest] at hcorner ⊢
    have hstill := hspec.still_eq
    have hmore : 0 < r.norm.getD i 0 + r.stillToDistribute := by omega
    have hset := sum_slots_set (show i < r.norm.length by rw [← hspec.fair.length_eq]; exact hi)
      (r.norm.getD i 0 + r.stillToDistribute)
    rw [slots_of_pos hslots, slots_of_pos hmore] at hset
    refine ⟨forall₂_set hspec.fair fun _ => fair_of_pos hoccurs hmore, ?_⟩
    have hall : (2 ^ tableLog : ℤ) = ((2 ^ tableLog : ℕ) : ℤ) := by push_cast; rfl
    rw [hall] at hstill
    omega

end Normalizing

end ZstdJni.Entropy
