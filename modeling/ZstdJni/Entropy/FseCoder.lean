/-
# Coding symbols with a finite state

The encoder has, for every slot of the table, the state it stands for, sorted by symbol, and
for every symbol two numbers from which a state gives the number of bits to write and the
place of the next state.  The decoder has, for every slot, the symbol, the number of bits to
read and what they are added to.

The two sets of tables are built by different loops from the same spread table.  What the
encoder does with a state and a symbol the decoder undoes at the slot it arrives at.  The
tables for a single repeated symbol have one slot and write no bits at all.
-/

import Mathlib.Algebra.Order.Group.Int
import Mathlib.Data.Int.Basic
import ZstdJni.Entropy.BitStream
import ZstdJni.Entropy.FseTable

namespace ZstdJni.Entropy

open ZstdJni.Foundation

/-! ## The decoding table -/

/-- `ZSTD_seqSymbol`: a slot of a decoding table for sequences. -/
structure SeqSymbol where
  nextState : ℕ
  nbAdditionalBits : ℕ
  nbBits : ℕ
  baseValue : ℕ
  deriving DecidableEq

/-- A decoding table, with the `tableLog` of its header. -/
structure DTable where
  tableLog : ℕ
  cells : List SeqSymbol

/-- The last loop of `ZSTD_buildFSETable_body`. -/
def buildCells (baseValue nbAdditionalBits : List ℕ) (tableLog : ℕ) :
    List ℕ → List ℕ → List SeqSymbol
  | [], _ => []
  | symbol :: rest, symbolNext =>
    let nextState := symbolNext.getD symbol 0
    let nbBits := tableLog - highbit nextState
    { nbBits := nbBits
      nextState := (nextState <<< nbBits) - 2 ^ tableLog
      nbAdditionalBits := nbAdditionalBits.getD symbol 0
      baseValue := baseValue.getD symbol 0 } ::
        buildCells baseValue nbAdditionalBits tableLog rest (symbolNext.set symbol (nextState + 1))

/-- `ZSTD_buildFSETable_body`. -/
def buildFSETable (counts : List ℤ) (baseValue nbAdditionalBits : List ℕ) (tableLog : ℕ) :
    DTable where
  tableLog := tableLog
  cells := buildCells baseValue nbAdditionalBits tableLog (spreadTable counts tableLog).1
    (counts.map slots)

/-- `ZSTD_buildSeqTable_rle`. -/
def buildSeqTableRle (baseValue nbAddBits : ℕ) : DTable where
  tableLog := 0
  cells := [{ nbBits := 0, nextState := 0, nbAdditionalBits := nbAddBits, baseValue := baseValue }]

/-- A slot of a decoding table. -/
def DTable.cell (d : DTable) (state : ℕ) : SeqSymbol :=
  d.cells.getD state ⟨0, 0, 0, 0⟩

/-! ## The encoding table -/

/-- `FSE_symbolCompressionTransform`. -/
structure SymbolTransform where
  deltaFindState : ℤ
  deltaNbBits : ℕ
  deriving DecidableEq, Inhabited

/-- `FSE_CTable`. -/
structure CTable where
  tableLog : ℕ
  tableU16 : List ℕ
  symbolTT : List SymbolTransform

/-- The symbol start positions. -/
def cumulate : List ℤ → ℕ → List ℕ
  | [], _ => []
  | n :: rest, total => total :: cumulate rest (total + slots n)

/-- The loop that sorts the states by symbol. -/
def sortStates (tableSize : ℕ) : ℕ → List ℕ → List ℕ → List ℕ → List ℕ
  | _, [], tableU16, _ => tableU16
  | u, s :: rest, tableU16, cumul =>
    sortStates tableSize (u + 1) rest (tableU16.set (cumul.getD s 0) (tableSize + u))
      (cumul.set s (cumul.getD s 0 + 1))

/-- The symbol transformation table.  What the code leaves unset for a symbol that does not
occur is zero here. -/
def transforms (tableLog : ℕ) : List ℤ → ℕ → List SymbolTransform
  | [], _ => []
  | n :: rest, total =>
    if n = 0 then
      { deltaNbBits := ((tableLog + 1) <<< 16) - (1 <<< tableLog), deltaFindState := 0 } ::
        transforms tableLog rest total
    else if n = -1 ∨ n = 1 then
      { deltaNbBits := (tableLog <<< 16) - (1 <<< tableLog), deltaFindState := (total : ℤ) - 1 } ::
        transforms tableLog rest (total + 1)
    else
      let maxBitsOut := tableLog - highbit (n.toNat - 1)
      let minStatePlus := n.toNat <<< maxBitsOut
      { deltaNbBits := (maxBitsOut <<< 16) - minStatePlus
        deltaFindState := (total : ℤ) - (n.toNat : ℤ) } ::
        transforms tableLog rest (total + n.toNat)

/-- `FSE_buildCTable_wksp`.  The last start position is never used. -/
def buildCTable (counts : List ℤ) (tableLog : ℕ) : CTable where
  tableLog := tableLog
  tableU16 := sortStates (2 ^ tableLog) 0 (spreadTable counts tableLog).1
    (List.replicate (2 ^ tableLog) 0) (cumulate counts 0 ++ [2 ^ tableLog + 1])
  symbolTT := transforms tableLog counts 0

/-- `FSE_buildCTable_rle`. -/
def buildCTableRle (symbolValue : ℕ) : CTable where
  tableLog := 0
  tableU16 := [0, 0]
  symbolTT := List.replicate symbolValue default ++ [{ deltaNbBits := 0, deltaFindState := 0 }]

/-- `FSE_initCState2`: the state for the first symbol. -/
def initCState2 (t : CTable) (symbol : ℕ) : ℕ :=
  let symbolTT := t.symbolTT.getD symbol default
  let nbBitsOut := (symbolTT.deltaNbBits + (1 <<< 15)) >>> 16
  let value := (nbBitsOut <<< 16) - symbolTT.deltaNbBits
  t.tableU16.getD ((value >>> nbBitsOut : ℕ) + symbolTT.deltaFindState).toNat 0

/-- The number of bits that `FSE_encodeSymbol` writes. -/
def nbBitsOut (t : CTable) (value symbol : ℕ) : ℕ :=
  (value + (t.symbolTT.getD symbol default).deltaNbBits) >>> 16

/-- The state behind `FSE_encodeSymbol`. -/
def nextCState (t : CTable) (value symbol : ℕ) : ℕ :=
  t.tableU16.getD
    ((value >>> nbBitsOut t value symbol : ℕ) +
      (t.symbolTT.getD symbol default).deltaFindState).toNat 0

/-- `FSE_encodeSymbol`. -/
def encodeSymbol (w : Native.WordSize) (t : CTable) (c : BitCStream) (value symbol : ℕ) :
    BitCStream × ℕ :=
  (addBits w c value (nbBitsOut t value symbol), nextCState t value symbol)

/-- `FSE_flushCState`. -/
def flushCState (w : Native.WordSize) (t : CTable) (c : BitCStream) (value : ℕ) : BitCStream :=
  flushBits w (addBits w c value t.tableLog)

/-! ## Tables that belong together -/

/-- The tables of an encoder and a decoder that undoes it, for the symbols with a code.  A
state of the encoder is one of the decoder in its lowest bits. -/
structure Paired (t : CTable) (d : DTable) (baseValue nbAdditionalBits : List ℕ)
    (IsCode : ℕ → Prop) where
  /-- The states of the encoder. -/
  IsState : ℕ → Prop
  tableLog_eq : d.tableLog = t.tableLog
  first : ∀ {s}, IsCode s → IsState (initCState2 t s)
  first_cell : ∀ {s}, IsCode s →
    (d.cell (initCState2 t s % 2 ^ t.tableLog)).baseValue = baseValue.getD s 0 ∧
      (d.cell (initCState2 t s % 2 ^ t.tableLog)).nbAdditionalBits = nbAdditionalBits.getD s 0
  next : ∀ {x s}, IsState x → IsCode s → IsState (nextCState t x s)
  bits_le : ∀ {x s}, IsState x → IsCode s → nbBitsOut t x s ≤ t.tableLog
  next_cell : ∀ {x s}, IsState x → IsCode s →
    d.cell (nextCState t x s % 2 ^ t.tableLog) =
      { nbBits := nbBitsOut t x s
        nextState := x % 2 ^ t.tableLog - x % 2 ^ nbBitsOut t x s
        nbAdditionalBits := nbAdditionalBits.getD s 0
        baseValue := baseValue.getD s 0 }

/-- The decoder comes from a state of the encoder to the one before it. -/
theorem Paired.previous {t : CTable} {d : DTable} {baseValue nbAdditionalBits : List ℕ}
    {IsCode : ℕ → Prop} (p : Paired t d baseValue nbAdditionalBits IsCode) {x s : ℕ}
    (hx : p.IsState x) (hs : IsCode s) :
    (d.cell (nextCState t x s % 2 ^ t.tableLog)).nbBits = nbBitsOut t x s ∧
      (d.cell (nextCState t x s % 2 ^ t.tableLog)).nextState + x % 2 ^ nbBitsOut t x s =
        x % 2 ^ t.tableLog := by
  have hlow : x % 2 ^ nbBitsOut t x s ≤ x % 2 ^ t.tableLog := by
    rw [← Nat.mod_mod_of_dvd x (Nat.pow_dvd_pow 2 (p.bits_le hx hs))]
    exact Nat.mod_le _ _
  rw [p.next_cell hx hs]
  exact ⟨rfl, Nat.sub_add_cancel hlow⟩

section Rle

variable (symbol : ℕ)

theorem symbolTT_rle : (buildCTableRle symbol).symbolTT.getD symbol default = ⟨0, 0⟩ := by
  simp [buildCTableRle]

theorem initCState2_rle : initCState2 (buildCTableRle symbol) symbol = 0 := by
  unfold initCState2
  rw [symbolTT_rle]
  rfl

theorem nbBitsOut_rle : nbBitsOut (buildCTableRle symbol) 0 symbol = 0 := by
  unfold nbBitsOut
  rw [symbolTT_rle]
  rfl

theorem nextCState_rle : nextCState (buildCTableRle symbol) 0 symbol = 0 := by
  unfold nextCState
  rw [symbolTT_rle, nbBitsOut_rle]
  rfl

/-- The tables for one symbol. -/
def pairedRle (baseValue nbAdditionalBits : List ℕ) :
    Paired (buildCTableRle symbol)
      (buildSeqTableRle (baseValue.getD symbol 0) (nbAdditionalBits.getD symbol 0)) baseValue
      nbAdditionalBits (· = symbol) where
  IsState x := x = 0
  tableLog_eq := rfl
  first := by
    rintro _ rfl
    exact initCState2_rle _
  first_cell := by
    rintro _ rfl
    rw [initCState2_rle]
    exact ⟨rfl, rfl⟩
  next := by
    rintro _ _ rfl rfl
    exact nextCState_rle _
  bits_le := by
    rintro _ _ rfl rfl
    exact (nbBitsOut_rle _).le
  next_cell := by
    rintro _ _ rfl rfl
    rw [nextCState_rle, nbBitsOut_rle]
    rfl

end Rle

/-! ### The tables of normalized counts -/

section Sorted

variable {tableSize u : ℕ} {table tableU16 cumul : List ℕ}

/-- The symbols of a table have places of their own in the sorted one. -/
structure Sortable (table tableU16 cumul : List ℕ) : Prop where
  known : ∀ s ∈ table, s < cumul.length
  inside : ∀ s ∈ table, cumul.getD s 0 + table.count s ≤ tableU16.length
  apart : ∀ s ∈ table, ∀ t ∈ table, s ≠ t →
    cumul.getD s 0 + table.count s ≤ cumul.getD t 0 ∨
      cumul.getD t 0 + table.count t ≤ cumul.getD s 0

theorem Sortable.tail {s v : ℕ} (h : Sortable (s :: table) tableU16 cumul) :
    Sortable table (tableU16.set (cumul.getD s 0) v) (cumul.set s (cumul.getD s 0 + 1)) := by
  have hs := h.known s List.mem_cons_self
  have hplace (t : ℕ) : (cumul.set s (cumul.getD s 0 + 1)).getD t 0 + table.count t =
      cumul.getD t 0 + (s :: table).count t := by
    rw [getD_set _ _ _ _ fun _ => hs, List.count_cons]
    simp only [beq_iff_eq]
    split_ifs with hst
    · subst hst
      omega
    · rfl
  have hlater (t : ℕ) : cumul.getD t 0 ≤ (cumul.set s (cumul.getD s 0 + 1)).getD t 0 := by
    rw [getD_set _ _ _ _ fun _ => hs]
    split_ifs with hst
    · subst hst
      omega
    · exact Nat.le_refl _
  refine ⟨fun t ht => ?_, fun t ht => ?_, fun t ht t' ht' hne => ?_⟩
  · rw [List.length_set]
    exact h.known t (List.mem_cons_of_mem s ht)
  · rw [hplace, List.length_set]
    exact h.inside t (List.mem_cons_of_mem s ht)
  · rw [hplace, hplace]
    have hbefore := hlater t
    have hbefore' := hlater t'
    rcases h.apart t (List.mem_cons_of_mem s ht) t' (List.mem_cons_of_mem s ht') hne with hle | hle
    · left
      omega
    · right
      omega

/-- A cell that belongs to no symbol of the rest keeps its value. -/
theorem getD_sortStates_of_apart (h : Sortable table tableU16 cumul) {p : ℕ}
    (hp : ∀ s ∈ table, p < cumul.getD s 0 ∨ cumul.getD s 0 + table.count s ≤ p) :
    (sortStates tableSize u table tableU16 cumul).getD p 0 = tableU16.getD p 0 := by
  induction table generalizing u tableU16 cumul with
  | nil => rfl
  | cons s rest ih =>
      have hs := h.known s List.mem_cons_self
      have hinside := h.inside s List.mem_cons_self
      have hps := hp s List.mem_cons_self
      have hcount : 0 < (s :: rest).count s := List.count_pos_iff.mpr List.mem_cons_self
      have hrest : ∀ t ∈ rest, p < (cumul.set s (cumul.getD s 0 + 1)).getD t 0 ∨
          (cumul.set s (cumul.getD s 0 + 1)).getD t 0 + rest.count t ≤ p := by
        intro t ht
        have hpt := hp t (List.mem_cons_of_mem s ht)
        rw [List.count_cons] at hpt
        simp only [beq_iff_eq] at hpt
        rw [getD_set _ _ _ _ fun _ => hs]
        split_ifs at hpt ⊢ with hst
        · subst hst
          omega
        · omega
      rw [sortStates, ih h.tail hrest, getD_set _ _ _ _ (by omega), if_neg (by omega)]

/-- The state of a slot is sorted by its symbol, and there by its number among the slots of
the symbol. -/
theorem getD_sortStates (tableSize u : ℕ) {before after : List ℕ} {s : ℕ}
    (h : Sortable (before ++ s :: after) tableU16 cumul) :
    (sortStates tableSize u (before ++ s :: after) tableU16 cumul).getD
      (cumul.getD s 0 + before.count s) 0 = tableSize + u + before.length := by
  induction before generalizing u tableU16 cumul with
  | nil =>
      rw [List.nil_append] at h ⊢
      have hs := h.known s List.mem_cons_self
      have hinside := h.inside s List.mem_cons_self
      have hcount : (s :: after).count s = after.count s + 1 := List.count_cons_self
      have hfree : ∀ t ∈ after, cumul.getD s 0 < (cumul.set s (cumul.getD s 0 + 1)).getD t 0 ∨
          (cumul.set s (cumul.getD s 0 + 1)).getD t 0 + after.count t ≤ cumul.getD s 0 := by
        intro t ht
        rw [getD_set _ _ _ _ fun _ => hs]
        split_ifs with hst
        · left
          omega
        · have hapart := h.apart s List.mem_cons_self t (List.mem_cons_of_mem s ht) hst
          rw [List.count_cons_of_ne hst] at hapart
          omega
      rw [List.count_nil, Nat.add_zero, sortStates, getD_sortStates_of_apart h.tail hfree,
        getD_set _ _ _ _ (by omega), if_pos rfl, List.length_nil, Nat.add_zero]
  | cons t before ih =>
      rw [List.cons_append] at h ⊢
      have ht := h.known t List.mem_cons_self
      have hrest := ih (u := u + 1) (h.tail (v := tableSize + u))
      have hindex : (cumul.set t (cumul.getD t 0 + 1)).getD s 0 + before.count s =
          cumul.getD s 0 + (t :: before).count s := by
        rw [getD_set _ _ _ _ fun _ => ht, List.count_cons]
        simp only [beq_iff_eq]
        split_ifs with hts
        · subst hts
          omega
        · rfl
      rw [hindex] at hrest
      rw [sortStates, hrest, List.length_cons]
      omega

end Sorted

/-- A slot of the decoding table, by its symbol and the number of slots that the symbol has
in front of it. -/
theorem getD_buildCells (baseValue nbAdditionalBits : List ℕ) (tableLog : ℕ)
    {before after : List ℕ} {s : ℕ} {symbolNext : List ℕ}
    (hknown : ∀ t ∈ before ++ s :: after, t < symbolNext.length) :
    (buildCells baseValue nbAdditionalBits tableLog (before ++ s :: after) symbolNext).getD
        before.length ⟨0, 0, 0, 0⟩ =
      { nbBits := tableLog - highbit (symbolNext.getD s 0 + before.count s)
        nextState := (symbolNext.getD s 0 + before.count s) <<<
          (tableLog - highbit (symbolNext.getD s 0 + before.count s)) - 2 ^ tableLog
        nbAdditionalBits := nbAdditionalBits.getD s 0
        baseValue := baseValue.getD s 0 } := by
  induction before generalizing symbolNext with
  | nil => rfl
  | cons t before ih =>
      have ht := hknown t List.mem_cons_self
      have hrest := @ih (symbolNext.set t (symbolNext.getD t 0 + 1)) (fun t' ht' => by
        rw [List.length_set]
        exact hknown t' (List.mem_cons_of_mem t ht'))
      have hnumber : (symbolNext.set t (symbolNext.getD t 0 + 1)).getD s 0 + before.count s =
          symbolNext.getD s 0 + (t :: before).count s := by
        rw [getD_set _ _ _ _ fun _ => ht, List.count_cons]
        simp only [beq_iff_eq]
        split_ifs with hts
        · subst hts
          omega
        · rfl
      rw [hnumber] at hrest
      rw [List.cons_append, buildCells, List.length_cons, List.getD_cons_succ, hrest]

section Counts

variable {counts : List ℤ} {s total : ℕ}

/-- The slots of the symbols in front of a symbol. -/
def startOf (counts : List ℤ) (s : ℕ) : ℕ := ((counts.take s).map slots).sum

theorem getD_cumulate (total : ℕ) (hs : s < counts.length) (last : List ℕ) :
    (cumulate counts total ++ last).getD s 0 = total + startOf counts s := by
  induction counts generalizing s total with
  | nil => simp at hs
  | cons n rest ih =>
      cases s with
      | zero => rfl
      | succ s =>
          have hrest := @ih s (total + slots n) (Nat.lt_of_succ_lt_succ hs)
          rw [cumulate, List.cons_append, List.getD_cons_succ, hrest, startOf, startOf,
            List.take_succ_cons, List.map_cons, List.sum_cons, Nat.add_assoc]

theorem length_cumulate (counts : List ℤ) (total : ℕ) :
    (cumulate counts total).length = counts.length := by
  induction counts generalizing total with
  | nil => rfl
  | cons n rest ih => rw [cumulate, List.length_cons, ih, List.length_cons]

theorem one_lt {f : ℕ} (hpos : 0 < f) (hone : f ≠ 1) : 1 < f := by
  omega

theorem slots_eq_toNat {n : ℤ} (hlow : n ≠ -1) : slots n = n.toNat := if_neg hlow

/-- The transformation of a symbol that has slots, and those behind it. -/
theorem transforms_cons {tableLog : ℕ} {n : ℤ} (hpos : 0 < slots n) (rest : List ℤ) (total : ℕ) :
    transforms tableLog (n :: rest) total =
      { deltaFindState := (total : ℤ) - (slots n : ℕ)
        deltaNbBits :=
          if slots n = 1 then tableLog <<< 16 - 1 <<< tableLog
          else maxBitsOut tableLog (slots n) <<< 16 - slots n <<< maxBitsOut tableLog (slots n) } ::
        transforms tableLog rest (total + slots n) := by
  have hzero : n ≠ 0 := by
    rintro rfl
    exact Nat.lt_irrefl 0 hpos
  rw [transforms, if_neg hzero]
  by_cases hone : n = -1 ∨ n = 1
  · have hslots : slots n = 1 := by
      rcases hone with rfl | rfl
      · rfl
      · rfl
    rw [if_pos hone, hslots, if_pos rfl, Nat.cast_one]
  · have hslots := slots_eq_toNat (n := n) (by tauto)
    have hmany : n.toNat ≠ 1 := by
      have hnot : n ≠ 1 := by tauto
      omega
    rw [if_neg hone, hslots, if_neg hmany, maxBitsOut, highbit]

theorem transforms_cons_of_zero (tableLog : ℕ) (rest : List ℤ) (total : ℕ) :
    ∃ transform, transforms tableLog (0 :: rest) total =
      transform :: transforms tableLog rest total := by
  rw [transforms, if_pos rfl]
  exact ⟨_, rfl⟩

theorem getD_transforms {tableLog : ℕ} (hge : ∀ n ∈ counts, -1 ≤ n) (hs : s < counts.length)
    (hpos : 0 < slots counts[s]) :
    (transforms tableLog counts total).getD s default =
      { deltaFindState := ((total + startOf counts s : ℕ) : ℤ) - (slots counts[s] : ℕ)
        deltaNbBits :=
          if slots counts[s] = 1 then tableLog <<< 16 - 1 <<< tableLog
          else maxBitsOut tableLog (slots counts[s]) <<< 16 -
            slots counts[s] <<< maxBitsOut tableLog (slots counts[s]) } := by
  induction counts generalizing s total with
  | nil => simp at hs
  | cons n rest ih =>
      cases s with
      | zero =>
          have hstart : startOf (n :: rest) 0 = 0 := rfl
          rw [List.getElem_cons_zero] at hpos ⊢
          rw [hstart, transforms_cons hpos, List.getD_cons_zero, Nat.add_zero]
      | succ s =>
          rw [List.getElem_cons_succ] at hpos ⊢
          have hless : s < rest.length := Nat.lt_of_succ_lt_succ hs
          have hrest := @ih s (total + slots n)
            (fun m hm => hge m (List.mem_cons_of_mem n hm)) hless hpos
          have hstart : startOf (n :: rest) (s + 1) = slots n + startOf rest s := by
            rw [startOf, List.take_succ_cons, List.map_cons, List.sum_cons, startOf]
          rw [hstart, ← Nat.add_assoc, ← hrest]
          rcases Nat.eq_zero_or_pos (slots n) with hzero | hn
          · have hn : n = 0 := by
              have hn := hge n List.mem_cons_self
              unfold slots at hzero
              split_ifs at hzero
              omega
            subst hn
            obtain ⟨transform, htransforms⟩ := transforms_cons_of_zero tableLog rest total
            rw [htransforms, List.getD_cons_succ]
            rfl
          · rw [transforms_cons hn, List.getD_cons_succ]

end Counts

namespace NormalizedCounter

variable (c : NormalizedCounter) {s : ℕ}

theorem slotsOf_eq (hs : s < c.counts.length) : c.slotsOf s = slots c.counts[s] := by
  rw [slotsOf, List.getElem?_eq_getElem hs]
  rfl

theorem lt_of_slotsOf_pos (hpos : 0 < c.slotsOf s) : s < c.counts.length := by
  by_contra hge
  rw [slotsOf, List.getElem?_eq_none (by omega)] at hpos
  exact Nat.lt_irrefl 0 hpos

theorem startOf_succ (s : ℕ) : startOf c.counts (s + 1) = startOf c.counts s + c.slotsOf s := by
  rw [startOf, startOf, List.take_add_one, List.map_append, List.sum_append, slotsOf]
  cases c.counts[s]? with
  | none => rfl
  | some n => rfl

theorem startOf_mono {s t : ℕ} (hst : s ≤ t) : startOf c.counts s ≤ startOf c.counts t := by
  induction t, hst using Nat.le_induction with
  | base => exact Nat.le_refl _
  | succ t _ ih =>
      rw [c.startOf_succ]
      omega

theorem startOf_le (s : ℕ) : startOf c.counts s ≤ c.tableSize := by
  have hall : startOf c.counts c.counts.length = c.tableSize := by
    rw [startOf, List.take_length, c.sum_slots, tableSize]
  rcases Nat.le_total s c.counts.length with hs | hs
  · exact (c.startOf_mono hs).trans hall.le
  · rw [startOf, List.take_of_length_le hs]
    exact c.sum_slots.le

/-- The states of the symbols have places of their own. -/
theorem sortable (last : List ℕ) :
    Sortable c.tableSymbol (List.replicate c.tableSize 0) (cumulate c.counts 0 ++ last) := by
  obtain ⟨-, -, hcount⟩ := c.spreadTable_spec
  have hknown : ∀ s ∈ c.tableSymbol, s < c.counts.length := fun s hs => by
    rw [← List.count_pos_iff, hcount] at hs
    exact c.lt_of_slotsOf_pos hs
  have hplace : ∀ s ∈ c.tableSymbol, (cumulate c.counts 0 ++ last).getD s 0 =
      startOf c.counts s := fun s hs => by rw [getD_cumulate 0 (hknown s hs), Nat.zero_add]
  refine ⟨fun s hs => ?_, fun s hs => ?_, fun s hs t ht hne => ?_⟩
  · rw [List.length_append, length_cumulate]
    have hless := hknown s hs
    omega
  · rw [hplace s hs, hcount, ← c.startOf_succ, List.length_replicate]
    exact c.startOf_le (s + 1)
  · rw [hplace s hs, hplace t ht, hcount, hcount, ← c.startOf_succ, ← c.startOf_succ]
    rcases Nat.lt_or_gt_of_ne hne with hlt | hlt
    · exact Or.inl (c.startOf_mono hlt)
    · exact Or.inr (c.startOf_mono hlt)

/-- The encoding table of the counts. -/
def ctable : CTable := buildCTable c.counts c.tableLog

theorem slotsOf_le (s : ℕ) : c.slotsOf s ≤ 2 ^ c.tableLog := by
  have hle := c.startOf_le (s + 1)
  rw [c.startOf_succ, tableSize] at hle
  omega

theorem tableSize_lt : 2 ^ (c.tableLog + 1) < 2 ^ 14 ∧ 2 ^ c.tableLog < 2 ^ 13 := by
  have hlog := c.tableLog_le
  exact ⟨Nat.pow_lt_pow_right (by decide) (by omega), Nat.pow_lt_pow_right (by decide) (by omega)⟩

theorem symbolTT_ctable (hpos : 0 < c.slotsOf s) :
    c.ctable.symbolTT.getD s default =
      { deltaFindState := (startOf c.counts s : ℤ) - (c.slotsOf s : ℕ)
        deltaNbBits :=
          if c.slotsOf s = 1 then c.tableLog * 2 ^ 16 - 2 ^ c.tableLog
          else maxBitsOut c.tableLog (c.slotsOf s) * 2 ^ 16 -
            c.slotsOf s * 2 ^ maxBitsOut c.tableLog (c.slotsOf s) } := by
  have hs := c.lt_of_slotsOf_pos hpos
  rw [c.slotsOf_eq hs] at hpos ⊢
  rw [ctable, buildCTable, getD_transforms c.count_ge hs hpos, Nat.zero_add]
  simp only [Nat.shiftLeft_eq, Nat.one_mul]

/-- The encoder writes the bits that leave a number between the slots of the symbol and twice
as many. -/
theorem nbBitsOut_ctable (hpos : 0 < c.slotsOf s) {x : ℕ} (hx : 2 ^ c.tableLog ≤ x)
    (hx' : x < 2 ^ (c.tableLog + 1)) :
    nbBitsOut c.ctable x s = bitsOut c.tableLog (c.slotsOf s) x := by
  have hlog := c.tableLog_ge
  obtain ⟨hsmall, hsmall'⟩ := c.tableSize_lt
  have hdouble := Nat.pow_succ' (m := 2) (n := c.tableLog)
  rw [nbBitsOut, c.symbolTT_ctable hpos, Nat.shiftRight_eq_div_pow, bitsOut]
  simp only
  split_ifs with hone hlarge
  · omega
  · obtain ⟨hmax, -, -, hle⟩ := maxBitsOut_spec (one_lt hpos hone) (c.slotsOf_le s)
    omega
  · obtain ⟨hmax, -, -, hle⟩ := maxBitsOut_spec (one_lt hpos hone) (c.slotsOf_le s)
    omega

/-- The states are sorted by symbol. -/
theorem tableU16_ctable (hpos : 0 < c.slotsOf s) {before after : List ℕ}
    (htable : c.tableSymbol = before ++ s :: after) :
    c.ctable.tableU16.getD (startOf c.counts s + before.count s) 0 =
      c.tableSize + before.length := by
  have hsortable := c.sortable [c.tableSize + 1]
  have hplace := getD_cumulate 0 (c.lt_of_slotsOf_pos hpos) [c.tableSize + 1]
  rw [htable] at hsortable
  have hsorted := getD_sortStates c.tableSize 0 hsortable
  rw [hplace, Nat.zero_add, Nat.add_zero, ← htable] at hsorted
  exact hsorted

/-- The number of the slot to which the encoder goes from a state. -/
theorem nextCState_ctable (hpos : 0 < c.slotsOf s) {x : ℕ} (hx : 2 ^ c.tableLog ≤ x)
    (hx' : x < 2 ^ (c.tableLog + 1)) :
    ∃ before after, c.tableSymbol = before ++ s :: after ∧
      c.slotsOf s + before.count s = x / 2 ^ nbBitsOut c.ctable x s ∧
      nextCState c.ctable x s = c.tableSize + before.length := by
  obtain ⟨-, -, hcount⟩ := c.spreadTable_spec
  obtain ⟨hge, hlt⟩ := bitsOut_spec hpos (c.slotsOf_le s) hx hx'
  rw [← c.nbBitsOut_ctable hpos hx hx'] at hge hlt
  have hslot : x / 2 ^ nbBitsOut c.ctable x s - c.slotsOf s < c.tableSymbol.count s := by
    rw [hcount]
    omega
  obtain ⟨before, after, htable, hbefore⟩ := exists_slot hslot
  refine ⟨before, after, htable, by omega, ?_⟩
  have hindex : ((x >>> nbBitsOut c.ctable x s : ℕ) +
      ((startOf c.counts s : ℤ) - (c.slotsOf s : ℕ))).toNat =
        startOf c.counts s + before.count s := by
    rw [Nat.shiftRight_eq_div_pow]
    omega
  rw [nextCState, c.symbolTT_ctable hpos]
  simp only
  rw [hindex, c.tableU16_ctable hpos htable]

/-- The encoder starts at the first slot of the first symbol. -/
theorem initCState2_ctable (hpos : 0 < c.slotsOf s) :
    ∃ before after, c.tableSymbol = before ++ s :: after ∧
      initCState2 c.ctable s = c.tableSize + before.length := by
  obtain ⟨-, -, hcount⟩ := c.spreadTable_spec
  have hlog := c.tableLog_ge
  obtain ⟨hsmall, hsmall'⟩ := c.tableSize_lt
  have hslot : 0 < c.tableSymbol.count s := by rwa [hcount]
  obtain ⟨before, after, htable, hbefore⟩ := exists_slot hslot
  refine ⟨before, after, htable, ?_⟩
  have hfirst := c.tableU16_ctable hpos htable
  rw [hbefore, Nat.add_zero] at hfirst
  rw [initCState2, c.symbolTT_ctable hpos, ← hfirst]
  simp only [Nat.shiftRight_eq_div_pow, Nat.shiftLeft_eq, Nat.one_mul]
  congr 1
  split_ifs with hone
  · have hsize := Nat.two_pow_pos c.tableLog
    have hbits : (c.tableLog * 2 ^ 16 - 2 ^ c.tableLog + 2 ^ 15) / 2 ^ 16 = c.tableLog := by omega
    have hvalue : c.tableLog * 2 ^ 16 - (c.tableLog * 2 ^ 16 - 2 ^ c.tableLog) =
      2 ^ c.tableLog := by
      omega
    rw [hbits, hvalue, Nat.div_self (Nat.two_pow_pos _), hone]
    omega
  · obtain ⟨hmax, -, -, hle⟩ := maxBitsOut_spec (one_lt hpos hone) (c.slotsOf_le s)
    generalize maxBitsOut c.tableLog (c.slotsOf s) = m at hmax hle ⊢
    have hbits : (m * 2 ^ 16 - c.slotsOf s * 2 ^ m + 2 ^ 15) / 2 ^ 16 = m := by omega
    have hvalue : m * 2 ^ 16 - (m * 2 ^ 16 - c.slotsOf s * 2 ^ m) = c.slotsOf s * 2 ^ m := by omega
    rw [hbits, hvalue, Nat.mul_div_cancel _ (Nat.two_pow_pos _)]
    omega

/-- A slot of the decoding table. -/
theorem cell_buildFSETable (baseValue nbAdditionalBits : List ℕ) {before after : List ℕ}
    (htable : c.tableSymbol = before ++ s :: after) :
    (buildFSETable c.counts baseValue nbAdditionalBits c.tableLog).cell before.length =
      { nbBits := c.tableLog - highbit (c.slotsOf s + before.count s)
        nextState := (c.slotsOf s + before.count s) <<<
          (c.tableLog - highbit (c.slotsOf s + before.count s)) - 2 ^ c.tableLog
        nbAdditionalBits := nbAdditionalBits.getD s 0
        baseValue := baseValue.getD s 0 } := by
  obtain ⟨-, -, hcount⟩ := c.spreadTable_spec
  have hknown : ∀ t ∈ before ++ s :: after, t < (c.counts.map slots).length := fun t ht => by
    rw [← htable, ← List.count_pos_iff, hcount] at ht
    rw [List.length_map]
    exact c.lt_of_slotsOf_pos ht
  have hcell := getD_buildCells baseValue nbAdditionalBits c.tableLog hknown
  have hnumber : (c.counts.map slots).getD s 0 = c.slotsOf s := by
    rw [List.getD_eq_getElem?_getD, List.getElem?_map, slotsOf]
  rw [hnumber, ← htable] at hcell
  exact hcell

/-- The position of a slot is below the size of the table. -/
theorem mod_tableSize {before after : List ℕ} (htable : c.tableSymbol = before ++ s :: after) :
    before.length < 2 ^ c.tableLog ∧ (c.tableSize + before.length) % 2 ^ c.tableLog =
      before.length := by
  obtain ⟨-, hlength, -⟩ := c.spreadTable_spec
  have hless : before.length < 2 ^ c.tableLog := by
    rw [htable, List.length_append, List.length_cons, tableSize] at hlength
    omega
  exact ⟨hless, by rw [tableSize, Nat.add_mod_left, Nat.mod_eq_of_lt hless]⟩

/-- The states of the encoder have one bit more than the positions of the slots. -/
theorem initCState2_bounds (hpos : 0 < c.slotsOf s) :
    2 ^ c.tableLog ≤ initCState2 c.ctable s ∧ initCState2 c.ctable s < 2 ^ (c.tableLog + 1) := by
  obtain ⟨before, after, htable, hstate⟩ := c.initCState2_ctable hpos
  obtain ⟨hless, -⟩ := c.mod_tableSize htable
  rw [hstate, Nat.pow_succ, tableSize]
  omega

theorem cell_initCState2 (baseValue nbAdditionalBits : List ℕ) (hpos : 0 < c.slotsOf s) :
    ((buildFSETable c.counts baseValue nbAdditionalBits c.tableLog).cell
        (initCState2 c.ctable s % 2 ^ c.ctable.tableLog)).baseValue = baseValue.getD s 0 ∧
      ((buildFSETable c.counts baseValue nbAdditionalBits c.tableLog).cell
        (initCState2 c.ctable s % 2 ^ c.ctable.tableLog)).nbAdditionalBits =
          nbAdditionalBits.getD s 0 := by
  obtain ⟨before, after, htable, hstate⟩ := c.initCState2_ctable hpos
  obtain ⟨-, hmod⟩ := c.mod_tableSize htable
  have hlog : c.ctable.tableLog = c.tableLog := rfl
  rw [hlog, hstate, hmod, c.cell_buildFSETable _ _ htable]
  exact ⟨rfl, rfl⟩

theorem nextCState_bounds (hx : 2 ^ c.tableLog ≤ x ∧ x < 2 ^ (c.tableLog + 1))
    (hpos : 0 < c.slotsOf s) :
    2 ^ c.tableLog ≤ nextCState c.ctable x s ∧ nextCState c.ctable x s < 2 ^ (c.tableLog + 1) := by
  obtain ⟨before, after, htable, -, hstate⟩ := c.nextCState_ctable hpos hx.1 hx.2
  obtain ⟨hless, -⟩ := c.mod_tableSize htable
  rw [hstate, Nat.pow_succ, tableSize]
  omega

theorem nbBitsOut_le (hx : 2 ^ c.tableLog ≤ x ∧ x < 2 ^ (c.tableLog + 1))
    (hpos : 0 < c.slotsOf s) : nbBitsOut c.ctable x s ≤ c.ctable.tableLog := by
  have hlog : c.ctable.tableLog = c.tableLog := rfl
  rw [hlog, c.nbBitsOut_ctable hpos hx.1 hx.2, bitsOut, maxBitsOut]
  split_ifs <;> omega

/-- At the slot of the next state the decoder finds its way back. -/
theorem cell_nextCState (baseValue nbAdditionalBits : List ℕ)
    (hx : 2 ^ c.tableLog ≤ x ∧ x < 2 ^ (c.tableLog + 1)) (hpos : 0 < c.slotsOf s) :
    (buildFSETable c.counts baseValue nbAdditionalBits c.tableLog).cell
        (nextCState c.ctable x s % 2 ^ c.ctable.tableLog) =
      { nbBits := nbBitsOut c.ctable x s
        nextState := x % 2 ^ c.ctable.tableLog - x % 2 ^ nbBitsOut c.ctable x s
        nbAdditionalBits := nbAdditionalBits.getD s 0
        baseValue := baseValue.getD s 0 } := by
  obtain ⟨hle, hlt⟩ := hx
  obtain ⟨before, after, htable, hnumber, hstate⟩ := c.nextCState_ctable hpos hle hlt
  obtain ⟨-, hmod⟩ := c.mod_tableSize htable
  obtain ⟨hbits, hback⟩ := decode_step (n := nbBitsOut c.ctable x s) hle hlt (by omega)
  have hlog : c.ctable.tableLog = c.tableLog := rfl
  have hlow : x % 2 ^ c.tableLog = x - 2 ^ c.tableLog := by
    have hdouble := Nat.pow_succ' (m := 2) (n := c.tableLog)
    rw [Nat.mod_eq_sub_mod hle, Nat.mod_eq_of_lt (by omega)]
  rw [hlog, hstate, hmod, c.cell_buildFSETable _ _ htable, hnumber, highbit, hbits,
    Nat.shiftLeft_eq, hlow, ← hback, Nat.add_sub_cancel]

/-- The tables of both sides that are built from the same counts. -/
def paired (baseValue nbAdditionalBits : List ℕ) :
    Paired c.ctable (buildFSETable c.counts baseValue nbAdditionalBits c.tableLog) baseValue
      nbAdditionalBits (0 < c.slotsOf ·) where
  IsState x := 2 ^ c.tableLog ≤ x ∧ x < 2 ^ (c.tableLog + 1)
  tableLog_eq := rfl
  first := c.initCState2_bounds
  first_cell := c.cell_initCState2 baseValue nbAdditionalBits
  next := c.nextCState_bounds
  bits_le := c.nbBitsOut_le
  next_cell := c.cell_nextCState baseValue nbAdditionalBits

end NormalizedCounter

end ZstdJni.Entropy
