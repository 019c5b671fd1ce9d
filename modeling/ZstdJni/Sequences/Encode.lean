/-
# Encoding the sequences of a block

The sequences are written from the last one to the first, so that the decoder, which reads
backward, meets them in order.  For each of them the states of the three entropy coders move
on, each writing some bits, and then the lowest bits of the three numbers are added as they
are.

The register has no room to spare.  The code flushes it at the places where it might run
over, and these depend on the width of the register, on the number of bits to come and on
whether there are long offsets, which are added in two parts.  As the places are right, what
is written is a stack of bits onto which the fields were pushed one after the other.
-/

import ZstdJni.Sequences.Store

namespace ZstdJni.Sequences

open ZstdJni.Foundation ZstdJni.Native ZstdJni.Entropy

/-- The tables of the encoder. -/
structure SeqCTables where
  matchLength : CTable
  offsetBits : CTable
  litLength : CTable

/-- The stream and the states of the three coders. -/
structure EncodeState where
  blockStream : BitCStream
  stateMatchLength : ℕ
  stateOffsetBits : ℕ
  stateLitLength : ℕ

section Model

variable (w : WordSize) (t : SeqCTables) (longOffsets : Bool)

/-- The flushes in 32 bit mode. -/
def flush32 (c : BitCStream) : BitCStream := if w = .bits32 then flushBits w c else c

/-- The bits of an offset, a long one in two parts. -/
def addOffset (c : BitCStream) (offBase ofBits : ℕ) : BitCStream :=
  if longOffsets then
    let extraBits := ofBits - min ofBits (streamAccumulatorMin w - 1)
    let c := if extraBits ≠ 0 then flushBits w (addBits w c offBase extraBits) else c
    addBits w c (offBase >>> extraBits) (ofBits - extraBits)
  else addBits w c offBase ofBits

variable (seq : SeqDef) (llc ofc mlc : ℕ)

/-- The first symbols of the coders, for the last sequence. -/
def firstSymbols (c : BitCStream) : EncodeState :=
  let c := flush32 w (addBits w c seq.litLength (llBits.getD llc 0))
  let c := flush32 w (addBits w c seq.mlBase (mlBits.getD mlc 0))
  { blockStream := flushBits w (addOffset w longOffsets c seq.offBase ofc)
    stateMatchLength := initCState2 t.matchLength mlc
    stateOffsetBits := initCState2 t.offsetBits ofc
    stateLitLength := initCState2 t.litLength llc }

/-- The bits that the coders write for a sequence. -/
def addStates (st : EncodeState) : BitCStream :=
  let c := (encodeSymbol w t.offsetBits st.blockStream st.stateOffsetBits ofc).1
  let c := flush32 w (encodeSymbol w t.matchLength c st.stateMatchLength mlc).1
  (encodeSymbol w t.litLength c st.stateLitLength llc).1

/-- The lowest bits of the numbers of a sequence. -/
def addFields (c : BitCStream) : BitCStream :=
  let llB := llBits.getD llc 0
  let mlB := mlBits.getD mlc 0
  let c := if w = .bits32 ∨ 64 - 7 - (9 + 9 + 8) ≤ ofc + mlB + llB then flushBits w c else c
  let c := addBits w c seq.litLength llB
  let c := if w = .bits32 ∧ 24 < llB + mlB then flushBits w c else c
  let c := addBits w c seq.mlBase mlB
  let c := if w = .bits32 ∨ 56 < ofc + mlB + llB then flushBits w c else c
  flushBits w (addOffset w longOffsets c seq.offBase ofc)

/-- The body of the loop of `ZSTD_encodeSequences_body`. -/
def encodeSequence (st : EncodeState) : EncodeState where
  blockStream := addFields w longOffsets seq llc ofc mlc (addStates w t llc ofc mlc st)
  stateMatchLength := nextCState t.matchLength st.stateMatchLength mlc
  stateOffsetBits := nextCState t.offsetBits st.stateOffsetBits ofc
  stateLitLength := nextCState t.litLength st.stateLitLength llc

/-- The last sequence of some. -/
def encodeLast (codes : SeqCodes) (sequences : List SeqDef) (c : BitCStream) : EncodeState :=
  let last := sequences.length - 1
  firstSymbols w t codes.longOffsets (sequences.getD last ⟨0, 0, 0⟩) (codes.llCode.getD last 0)
    (codes.ofCode.getD last 0) (codes.mlCode.getD last 0) c

/-- The sequence at an index. -/
def encodeAt (codes : SeqCodes) (sequences : List SeqDef) (n : ℕ) (st : EncodeState) :
    EncodeState :=
  encodeSequence w t codes.longOffsets (sequences.getD n ⟨0, 0, 0⟩) (codes.llCode.getD n 0)
    (codes.ofCode.getD n 0) (codes.mlCode.getD n 0) st

/-- The loop of `ZSTD_encodeSequences_body`, from an index downward. -/
def encodeDown (codes : SeqCodes) (sequences : List SeqDef) : ℕ → EncodeState → EncodeState
  | 0, st => st
  | n + 1, st => encodeDown codes sequences n (encodeAt w t codes sequences n st)

/-- The states at the end, for the decoder to begin with. -/
def flushStates (st : EncodeState) : BitCStream :=
  let c := flushCState w t.matchLength st.blockStream st.stateMatchLength
  let c := flushCState w t.offsetBits c st.stateOffsetBits
  flushCState w t.litLength c st.stateLitLength

/-- `ZSTD_encodeSequences_body`, with the bytes that it writes. -/
def encodeSequences (dst : List Byte) (codes : SeqCodes) (sequences : List SeqDef) :
    Except ErrorCode (List Byte) :=
  match initCStream w dst with
  | .error _ => .error .dstSizeTooSmall
  | .ok c =>
    let st :=
      encodeDown w t codes sequences (sequences.length - 1) (encodeLast w t codes sequences c)
    let closed := closeCStream w (flushStates w t st)
    if closed.2 = 0 then .error .dstSizeTooSmall else .ok (closed.1.dst.take closed.2)

end Model

/-- A stream for a destination of a given size that holds a stack and has at most `k` bits in
its register. -/
structure Fed (w : WordSize) (e : ℕ) (c : BitCStream) (s : BitStack) (k : ℕ) : Prop where
  holds : Holds w c s
  bitPos_le : c.bitPos ≤ k
  endPtr_eq : c.endPtr = e

section Fed

variable {w : WordSize} {e k : ℕ} {c : BitCStream} {s : BitStack}

theorem Fed.add (h : Fed w e c s k) (v n : ℕ) (hroom : k + n < w.bits) :
    Fed w e (addBits w c v n) (s.push v n) (k + n) := by
  have hle := h.bitPos_le
  exact ⟨h.holds.push v (by omega), Nat.add_le_add_right hle n, h.endPtr_eq⟩

theorem Fed.flush (h : Fed w e c s k) (hroom : k < w.bits) : Fed w e (flushBits w c) s 7 := by
  have hle := h.bitPos_le
  obtain ⟨hholds, hbits⟩ := h.holds.flush (by omega)
  exact ⟨hholds, hbits, h.endPtr_eq⟩

theorem Fed.mono (h : Fed w e c s k) {m : ℕ} (hle : k ≤ m) : Fed w e c s m :=
  ⟨h.holds, h.bitPos_le.trans hle, h.endPtr_eq⟩

/-- A flush under a condition. -/
theorem Fed.flushIf (h : Fed w e c s k) (p : Prop) [Decidable p] {m : ℕ} (hroom : k < w.bits)
    (hflush : 7 ≤ m) (hkeep : ¬ p → k ≤ m) : Fed w e (if p then flushBits w c else c) s m := by
  by_cases hp : p
  · rw [if_pos hp]
    exact (h.flush hroom).mono hflush
  · rw [if_neg hp]
    exact h.mono (hkeep hp)

end Fed

/-- The lowest bits of the numbers of a sequence on top of a stack. -/
def pushFields (s : BitStack) (seq : SeqDef) (llc ofc mlc : ℕ) : BitStack :=
  ((s.push seq.litLength (llBits.getD llc 0)).push seq.mlBase (mlBits.getD mlc 0)).push
    seq.offBase ofc

/-- Whether the offset of a sequence is added in a way that is right for its code. -/
structure Splits (w : WordSize) (longOffsets : Bool) (ofc : ℕ) : Prop where
  ofc_le : ofc ≤ 31
  ofc_le_32 : w = .bits32 → ofc ≤ 30
  short : longOffsets = false → w = .bits32 → ofc ≤ 24
  wide : w = .bits64 → longOffsets = false

section Written

variable {w : WordSize} {t : SeqCTables} {longOffsets : Bool} {e k : ℕ} {c : BitCStream}
  {s : BitStack} {seq : SeqDef} {llc ofc mlc : ℕ}

/-- Whichever way an offset is added, its bits are pushed. -/
theorem Fed.addOffset (h : Fed w e c s k) (hsplits : Splits w longOffsets ofc) (offBase : ℕ)
    (h32 : w = .bits32 → k ≤ 7) (h64 : w = .bits64 → k + ofc < 64) :
    ∃ m, m < w.bits ∧ Fed w e (addOffset w longOffsets c offBase ofc) (s.push offBase ofc) m := by
  obtain ⟨hle, hle32, hshort, hwide⟩ := hsplits
  unfold Sequences.addOffset
  cases hlong : longOffsets with
  | false =>
      rw [if_neg Bool.false_ne_true]
      have hroom : k + ofc < w.bits := by
        cases w with
        | bits32 =>
            have hk := h32 rfl
            have hof := hshort hlong rfl
            exact Nat.lt_of_le_of_lt (Nat.add_le_add hk hof) (by decide)
        | bits64 => exact h64 rfl
      exact ⟨k + ofc, hroom, h.add offBase ofc hroom⟩
  | true =>
      -- only a register of 32 bits takes an offset in two parts
      cases w with
      | bits64 => rw [hwide rfl] at hlong; cases hlong
      | bits32 =>
          have hk := h32 rfl
          have hof := hle32 rfl
          have hbits : WordSize.bits .bits32 = 32 := rfl
          have hmin : streamAccumulatorMin .bits32 = 25 := rfl
          simp only [if_true, hmin]
          by_cases hextra : ofc - min ofc (25 - 1) = 0
          · rw [if_neg (not_not.mpr hextra), hextra, Nat.shiftRight_zero, Nat.sub_zero]
            exact ⟨k + ofc, by omega, h.add offBase ofc (by omega)⟩
          · rw [if_pos hextra]
            have hlow := (h.add offBase (ofc - min ofc (25 - 1)) (by omega)).flush (by omega)
            have hhigh := hlow.add (offBase >>> (ofc - min ofc (25 - 1)))
              (ofc - (ofc - min ofc (25 - 1))) (by omega)
            rw [BitStack.push_push_shift, Nat.add_sub_cancel' (by omega)] at hhigh
            exact ⟨_, by omega, hhigh⟩

/-- The lowest bits of a sequence are pushed onto what the register and the memory hold. -/
theorem Fed.addFields (h : Fed w e c s k) (h32 : w = .bits32 → k ≤ 31)
    (h64 : w = .bits64 → k ≤ 33) (hsplits : Splits w longOffsets ofc)
    (hll : llBits.getD llc 0 ≤ 16) (hml : mlBits.getD mlc 0 ≤ 16) :
    Fed w e (addFields w longOffsets seq llc ofc mlc c) (pushFields s seq llc ofc mlc) 7 := by
  have hof := hsplits.ofc_le
  unfold Sequences.addFields pushFields
  generalize llBits.getD llc 0 = llB at hll ⊢
  generalize mlBits.getD mlc 0 = mlB at hml ⊢
  cases w with
  | bits32 =>
      have hbits : WordSize.bits .bits32 = 32 := rfl
      have hk := h32 rfl
      have hfirst :=
        h.flushIf (m := 7) (WordSize.bits32 = .bits32 ∨ 64 - 7 - (9 + 9 + 8) ≤ ofc + mlB + llB)
        (by omega) (Nat.le_refl 7) (fun hno => absurd (Or.inl rfl) hno)
      have hlit := (hfirst.add seq.litLength llB (by omega)).flushIf (m := 31 - mlB)
        (WordSize.bits32 = .bits32 ∧ 24 < llB + mlB) (by omega) (by omega) (fun hno => by
          have hless : ¬ 24 < llB + mlB := fun hlt => hno ⟨rfl, hlt⟩
          omega)
      have hmatch := (hlit.add seq.mlBase mlB (by omega)).flushIf (m := 7)
        (WordSize.bits32 = .bits32 ∨ 56 < ofc + mlB + llB) (by omega) (Nat.le_refl 7)
        (fun hno => absurd (Or.inl rfl) hno)
      obtain ⟨m, hm, hoffset⟩ := hmatch.addOffset hsplits seq.offBase (fun _ => Nat.le_refl 7)
        (fun hw => by cases hw)
      exact hoffset.flush hm
  | bits64 =>
      have hbits : WordSize.bits .bits64 = 64 := rfl
      have hk := h64 rfl
      -- either all the fields fit behind the states or the register is flushed
      have hfirst := h.flushIf (m := if 31 ≤ ofc + mlB + llB then 7 else 33)
        (WordSize.bits64 = .bits32 ∨ 64 - 7 - (9 + 9 + 8) ≤ ofc + mlB + llB) (by omega)
        (by split_ifs <;> omega) (fun hno => by
          rw [if_neg fun hlarge => hno (Or.inr hlarge)]
          exact hk)
      have hlit := (hfirst.add seq.litLength llB (by split_ifs <;> omega)).flushIf
        (m := (if 31 ≤ ofc + mlB + llB then 7 else 33) + llB)
        (WordSize.bits64 = .bits32 ∧ 24 < llB + mlB) (by split_ifs <;> omega)
        (by split_ifs <;> omega) (fun _ => Nat.le_refl _)
      have hmatch := (hlit.add seq.mlBase mlB (by split_ifs <;> omega)).flushIf (m := 63 - ofc)
        (WordSize.bits64 = .bits32 ∨ 56 < ofc + mlB + llB) (by split_ifs <;> omega) (by omega)
        (fun hno => by
          have hless : ¬ 56 < ofc + mlB + llB := fun hlt => hno (Or.inr hlt)
          split_ifs <;> omega)
      obtain ⟨m, hm, hoffset⟩ := hmatch.addOffset hsplits seq.offBase (fun hw => by cases hw)
        (fun _ => by omega)
      exact hoffset.flush hm

theorem Fed.flush32 (h : Fed w e c s k) {m : ℕ} (hroom : k < w.bits) (hflush : 7 ≤ m)
    (hkeep : w = .bits64 → k ≤ m) : Fed w e (flush32 w c) s m := by
  refine h.flushIf (w = .bits32) hroom hflush fun hno => hkeep ?_
  cases w with
  | bits32 => exact absurd rfl hno
  | bits64 => rfl

/-- The bits of the states of the coders. -/
def pushStates (t : SeqCTables) (s : BitStack) (st : EncodeState) (llc ofc mlc : ℕ) : BitStack :=
  ((s.push st.stateOffsetBits (nbBitsOut t.offsetBits st.stateOffsetBits ofc)).push
    st.stateMatchLength (nbBitsOut t.matchLength st.stateMatchLength mlc)).push
    st.stateLitLength (nbBitsOut t.litLength st.stateLitLength llc)

theorem Fed.addStates {st : EncodeState} (h : Fed w e st.blockStream s 7)
    (hof : nbBitsOut t.offsetBits st.stateOffsetBits ofc ≤ 8)
    (hml : nbBitsOut t.matchLength st.stateMatchLength mlc ≤ 9)
    (hll : nbBitsOut t.litLength st.stateLitLength llc ≤ 9) :
    ∃ k, (w = .bits32 → k ≤ 31) ∧ (w = .bits64 → k ≤ 33) ∧
      Fed w e (addStates w t llc ofc mlc st) (pushStates t s st llc ofc mlc) k := by
  have hword : 32 ≤ w.bits := by cases w <;> decide
  unfold Sequences.addStates pushStates encodeSymbol
  have hoffset := h.add st.stateOffsetBits (nbBitsOut t.offsetBits st.stateOffsetBits ofc)
    (by omega)
  have hmatch := (hoffset.add st.stateMatchLength
    (nbBitsOut t.matchLength st.stateMatchLength mlc) (by omega)).flush32
      (m := if w = .bits32 then 7 else 24) (by omega) (by split_ifs <;> omega) (fun hw => by
        rw [hw, if_neg (by decide)]
        omega)
  have hroom : (if w = .bits32 then 7 else 24) + nbBitsOut t.litLength st.stateLitLength llc <
      w.bits := by
    cases w with
    | bits32 => exact Nat.lt_of_le_of_lt (Nat.add_le_add_left hll 7) (by decide)
    | bits64 => exact Nat.lt_of_le_of_lt (Nat.add_le_add_left hll 24) (by decide)
  have hlit := hmatch.add st.stateLitLength (nbBitsOut t.litLength st.stateLitLength llc) hroom
  refine ⟨_, fun hw => ?_, fun hw => ?_, hlit⟩
  · rw [if_pos hw]
    omega
  · rw [hw, if_neg (by decide)]
    omega

/-- A sequence is written as the bits of the states and the lowest bits of its numbers. -/
theorem Fed.encodeSequence {st : EncodeState} (h : Fed w e st.blockStream s 7)
    (hof : nbBitsOut t.offsetBits st.stateOffsetBits ofc ≤ 8)
    (hml : nbBitsOut t.matchLength st.stateMatchLength mlc ≤ 9)
    (hll : nbBitsOut t.litLength st.stateLitLength llc ≤ 9)
    (hsplits : Splits w longOffsets ofc) (hllB : llBits.getD llc 0 ≤ 16)
    (hmlB : mlBits.getD mlc 0 ≤ 16) :
    Fed w e (encodeSequence w t longOffsets seq llc ofc mlc st).blockStream
      (pushFields (pushStates t s st llc ofc mlc) seq llc ofc mlc) 7 := by
  obtain ⟨k, h32, h64, hstates⟩ := h.addStates hof hml hll
  exact hstates.addFields h32 h64 hsplits hllB hmlB

/-- The last sequence is written without states. -/
theorem Fed.firstSymbols (h : Fed w e c s 0) (hsplits : Splits w longOffsets ofc)
    (hllB : llBits.getD llc 0 ≤ 16) (hmlB : mlBits.getD mlc 0 ≤ 16) :
    Fed w e (firstSymbols w t longOffsets seq llc ofc mlc c).blockStream
      (pushFields s seq llc ofc mlc) 7 := by
  have hof := hsplits.ofc_le
  have hword : 32 ≤ w.bits := by cases w <;> decide
  unfold Sequences.firstSymbols pushFields
  have hlit := (h.add seq.litLength (llBits.getD llc 0) (by omega)).flush32
    (m := if w = .bits32 then 7 else 16) (by omega) (by split_ifs <;> omega) (fun hw => by
      rw [hw, if_neg (by decide)]
      omega)
  have hroom : (if w = .bits32 then 7 else 16) + mlBits.getD mlc 0 < w.bits := by
    cases w with
    | bits32 => exact Nat.lt_of_le_of_lt (Nat.add_le_add_left hmlB 7) (by decide)
    | bits64 => exact Nat.lt_of_le_of_lt (Nat.add_le_add_left hmlB 16) (by decide)
  have hmatch := (hlit.add seq.mlBase (mlBits.getD mlc 0) hroom).flush32
    (m := if w = .bits32 then 7 else 32) hroom (by split_ifs <;> omega) (fun hw => by
      rw [hw, if_neg (by decide), if_neg (by decide)]
      omega)
  obtain ⟨m, hm, hoffset⟩ := hmatch.addOffset hsplits seq.offBase
    (fun hw => by rw [if_pos hw]) (fun hw => by
      rw [hw, if_neg (by decide)]
      omega)
  exact hoffset.flush hm

/-- The states at the end are written whole. -/
theorem Fed.flushStates {st : EncodeState} (h : Fed w e st.blockStream s 7)
    (hml : t.matchLength.tableLog ≤ 9) (hof : t.offsetBits.tableLog ≤ 8)
    (hll : t.litLength.tableLog ≤ 9) :
    Fed w e (flushStates w t st)
      (((s.push st.stateMatchLength t.matchLength.tableLog).push st.stateOffsetBits
        t.offsetBits.tableLog).push st.stateLitLength t.litLength.tableLog) 7 := by
  have hword : 32 ≤ w.bits := by cases w <;> decide
  unfold Sequences.flushStates flushCState
  have hmatch := (h.add st.stateMatchLength t.matchLength.tableLog (by omega)).flush (by omega)
  have hoffset := (hmatch.add st.stateOffsetBits t.offsetBits.tableLog (by omega)).flush (by omega)
  exact (hoffset.add st.stateLitLength t.litLength.tableLog (by omega)).flush (by omega)

end Written

end ZstdJni.Sequences
