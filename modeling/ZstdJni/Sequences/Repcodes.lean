/-
# Repeated offsets

The last three offsets have numbers of their own, which depend on whether the sequence has
literals.  The encoder turns an offset into a sum type, the number of a repeated offset or
the offset behind these numbers, and updates its three offsets by the sum type.  The decoder
reads the sum type in the form of a code and some bits and keeps three offsets too.

Whichever form the encoder chose, the decoder arrives at the offset and at the same three
offsets for the next sequence.
-/

import ZstdJni.Sequences.Codes

namespace ZstdJni.Sequences

open ZstdJni.Native

/-- `Repcodes_t`, and `prevOffset` in the decoder. -/
structure Repcodes where
  rep0 : ℕ
  rep1 : ℕ
  rep2 : ℕ
  deriving DecidableEq

namespace Repcodes

/-- `rep[i]`. -/
def rep (r : Repcodes) : ℕ → ℕ
  | 0 => r.rep0
  | 1 => r.rep1
  | _ => r.rep2

/-- The three offsets are offsets. -/
structure Valid (r : Repcodes) : Prop where
  rep0_pos : 0 < r.rep0
  rep1_pos : 0 < r.rep1
  rep2_pos : 0 < r.rep2

/-- The three offsets are less than a bound. -/
structure Below (r : Repcodes) (n : ℕ) : Prop where
  rep0_lt : r.rep0 < n
  rep1_lt : r.rep1 < n
  rep2_lt : r.rep2 < n

end Repcodes

/-- `ll0`: whether a sequence has no literals. -/
def ll0 (litLength : ℕ) : ℕ := if litLength = 0 then 1 else 0

theorem ll0_le (litLength : ℕ) : ll0 litLength ≤ 1 := by
  unfold ll0
  split_ifs <;> omega

/-- `OFFSET_TO_OFFBASE`. -/
def offsetToOffBase (offset : ℕ) : ℕ := (offset + 3) % 2 ^ 32

/-- `ZSTD_finalizeOffBase`. -/
def finalizeOffBase (rawOffset : ℕ) (r : Repcodes) (ll0 : ℕ) : ℕ :=
  if ll0 = 0 ∧ rawOffset = r.rep0 then 1
  else if rawOffset = r.rep1 then 2 - ll0
  else if rawOffset = r.rep2 then 3 - ll0
  else if ll0 ≠ 0 ∧ rawOffset = (r.rep0 + 2 ^ 32 - 1) % 2 ^ 32 then 3
  else offsetToOffBase rawOffset

/-- The repeated offset with a number moves to the front. -/
def moveToFront (r : Repcodes) (repCode : ℕ) : Repcodes :=
  if 0 < repCode then
    ⟨if repCode = 3 then (r.rep0 + 2 ^ 32 - 1) % 2 ^ 32 else r.rep repCode, r.rep0,
      if 2 ≤ repCode then r.rep1 else r.rep2⟩
  else r

/-- `ZSTD_updateRep`. -/
def updateRep (r : Repcodes) (offBase ll0 : ℕ) : Repcodes :=
  if 3 < offBase then ⟨offBase - 3, r.rep0, r.rep1⟩ else moveToFront r (offBase - 1 + ll0)

section Decoder

variable (w : WordSize) (prevOffset : Repcodes)

/-- The offset of a sequence with more than one additional bit. -/
def fullOffset (offset : ℕ) : ℕ × Repcodes :=
  (offset, ⟨offset, prevOffset.rep0, prevOffset.rep1⟩)

/-- The offset of a sequence without additional bits. -/
def firstRepeat (ll0 : ℕ) : ℕ × Repcodes :=
  let offset := prevOffset.rep ll0
  (offset, ⟨offset, prevOffset.rep (1 - ll0), prevOffset.rep2⟩)

/-- The offset of a sequence with one additional bit.  Zero is not an offset and is replaced
by the largest number. -/
def otherRepeat (offset : ℕ) : ℕ × Repcodes :=
  let temp :=
    if offset = 3 then (prevOffset.rep0 + 2 ^ w.bits - 1) % 2 ^ w.bits else prevOffset.rep offset
  let temp := if temp = 0 then 2 ^ w.bits - 1 else temp
  (temp, ⟨temp, prevOffset.rep0, if offset ≠ 1 then prevOffset.rep1 else prevOffset.rep2⟩)

end Decoder

variable {r : Repcodes} {l raw offBase : ℕ}

theorem pred_mod (r : Repcodes) (hvalid : r.Valid) {n : ℕ} (hlt : r.rep0 < 2 ^ n) :
    (r.rep0 + 2 ^ n - 1) % 2 ^ n = r.rep0 - 1 := by
  have hpos := hvalid.rep0_pos
  have hsum : r.rep0 + 2 ^ n - 1 = r.rep0 - 1 + 2 ^ n := by omega
  rw [hsum, Nat.add_mod_right, Nat.mod_eq_of_lt (by omega)]

theorem updateRep_full (r : Repcodes) (l : ℕ) (hraw : 0 < raw) (hraw' : raw + 3 < 2 ^ 32) :
    updateRep r (offsetToOffBase raw) l = ⟨raw, r.rep0, r.rep1⟩ := by
  have hfull : (raw + 3) % 2 ^ 32 = raw + 3 := Nat.mod_eq_of_lt hraw'
  rw [offsetToOffBase, hfull, updateRep, if_pos (by omega), Nat.add_sub_cancel]

theorem updateRep_repeat (r : Repcodes) (l : ℕ) (hle : offBase ≤ 3) :
    updateRep r offBase l = moveToFront r (offBase - 1 + l) := if_neg (by omega)

@[simp]
theorem moveToFront_zero (r : Repcodes) : moveToFront r 0 = r := rfl

@[simp]
theorem moveToFront_one (r : Repcodes) : moveToFront r 1 = ⟨r.rep1, r.rep0, r.rep2⟩ := by
  simp [moveToFront, Repcodes.rep]

@[simp]
theorem moveToFront_two (r : Repcodes) : moveToFront r 2 = ⟨r.rep2, r.rep0, r.rep1⟩ := by
  simp [moveToFront, Repcodes.rep]

theorem moveToFront_three (hvalid : r.Valid) (hlt : r.rep0 < 2 ^ 32) :
    moveToFront r 3 = ⟨r.rep0 - 1, r.rep0, r.rep1⟩ := by
  rw [moveToFront, if_pos (by decide), if_pos rfl, if_pos (by decide), pred_mod r hvalid hlt]

/-- Behind a sequence its offset is the first of the three. -/
theorem rep0_updateRep (hvalid : r.Valid) (hlt : r.rep0 < 2 ^ 32) (hl : l ≤ 1) (hraw : 0 < raw)
    (hraw' : raw + 3 < 2 ^ 32) : (updateRep r (finalizeOffBase raw r l) l).rep0 = raw := by
  have hfull := congrArg Repcodes.rep0 (updateRep_full r l hraw hraw')
  have hpred := moveToFront_three hvalid hlt
  unfold finalizeOffBase
  rw [pred_mod r hvalid hlt]
  -- without literals the numbers are shifted by one
  obtain rfl | rfl : l = 0 ∨ l = 1 := by omega
  · by_cases hfirst : raw = r.rep0
    · simp [hfirst, updateRep]
    rw [if_neg fun h => hfirst h.2]
    by_cases hsecond : raw = r.rep1
    · simp [hsecond, updateRep]
    rw [if_neg hsecond]
    by_cases hthird : raw = r.rep2
    · simp [hthird, updateRep]
    rw [if_neg hthird, if_neg fun h => h.1 rfl, hfull]
  · rw [if_neg fun h => absurd h.1 Nat.one_ne_zero]
    by_cases hsecond : raw = r.rep1
    · simp [hsecond, updateRep]
    rw [if_neg hsecond]
    by_cases hthird : raw = r.rep2
    · simp [hthird, updateRep]
    rw [if_neg hthird]
    by_cases hother : raw = r.rep0 - 1
    · simp [hother, updateRep, hpred]
    rw [if_neg fun h => hother h.2, hfull]

/-- The form that the encoder chooses is one of the four. -/
theorem finalizeOffBase_spec (r : Repcodes) (hl : l ≤ 1) (hraw' : raw + 3 < 2 ^ 32) :
    1 ≤ finalizeOffBase raw r l ∧ finalizeOffBase raw r l ≤ raw + 3 := by
  have hfull : (raw + 3) % 2 ^ 32 = raw + 3 := Nat.mod_eq_of_lt hraw'
  unfold finalizeOffBase
  rw [offsetToOffBase, hfull]
  split_ifs <;> omega

/-- The three offsets stay offsets as long as a sequence has one. -/
theorem valid_updateRep (hvalid : r.Valid) (hpos : 0 < (updateRep r offBase l).rep0) :
    (updateRep r offBase l).Valid := by
  obtain ⟨h0, h1, h2⟩ := hvalid
  refine ⟨hpos, ?_, ?_⟩
  · unfold updateRep moveToFront
    split_ifs <;> assumption
  · unfold updateRep moveToFront
    split_ifs <;> assumption

/-- The three offsets stay below a bound as long as a sequence has one. -/
theorem Repcodes.Below.updateRep {n : ℕ} (h : r.Below n)
    (hlt : (updateRep r offBase l).rep0 < n) : (updateRep r offBase l).Below n := by
  obtain ⟨h0, h1, h2⟩ := h
  refine ⟨hlt, ?_, ?_⟩
  · unfold Sequences.updateRep moveToFront
    split_ifs <;> assumption
  · unfold Sequences.updateRep moveToFront
    split_ifs <;> assumption

/-- A sum type that is an offset is the same for the decoder. -/
theorem fullOffset_eq (r : Repcodes) (l : ℕ) (hfull : 3 < offBase) :
    fullOffset r (offBase - 3) = ((updateRep r offBase l).rep0, updateRep r offBase l) := by
  rw [updateRep, if_pos hfull, fullOffset]

/-- The first number means the offset from before, or with no literals the one before it. -/
theorem firstRepeat_eq (r : Repcodes) (hl : l ≤ 1) :
    firstRepeat r l = ((updateRep r 1 l).rep0, updateRep r 1 l) := by
  obtain rfl | rfl : l = 0 ∨ l = 1 := by omega
  · rfl
  · simp [firstRepeat, updateRep, Repcodes.rep]

/-- The other numbers mean the same to both sides if they mean an offset. -/
theorem otherRepeat_eq (w : WordSize) (hvalid : r.Valid) (hlt : r.rep0 < 2 ^ 32)
    (hge : 2 ≤ offBase) (hle : offBase ≤ 3) (hpos : 0 < (updateRep r offBase l).rep0) :
    otherRepeat w r (offBase - 1 + l) =
      ((updateRep r offBase l).rep0, updateRep r offBase l) := by
  have hword : 2 ^ 32 ≤ 2 ^ w.bits := by cases w <;> decide
  have hpred := pred_mod r hvalid hlt
  have hpred' := pred_mod r hvalid (Nat.lt_of_lt_of_le hlt hword)
  have hcode : 0 < offBase - 1 + l := by omega
  have hkeep : (offBase - 1 + l ≠ 1) ↔ 2 ≤ offBase - 1 + l := by omega
  rw [updateRep_repeat r l hle, moveToFront, if_pos hcode, hpred] at hpos ⊢
  unfold otherRepeat
  simp only [hpred', hkeep]
  rw [if_neg (Nat.pos_iff_ne_zero.mp hpos)]

end ZstdJni.Sequences
