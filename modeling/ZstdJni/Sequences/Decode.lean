/-
# Decoding the sequences of a block

The decoder has a state for each of the three numbers of a sequence.  The slots of the states
say which bits follow; they are read in the opposite order to that in which the encoder added
them, and behind them the bits with which the states move on.

The register is reloaded only where it might run dry.  As the code counts right, every field
is read from bits that are loaded, and reading is popping.
-/

import ZstdJni.Sequences.Encode

namespace ZstdJni.Sequences

open ZstdJni.Foundation ZstdJni.Native ZstdJni.Entropy

/-- The tables of the decoder. -/
structure SeqDTables where
  llt : DTable
  oft : DTable
  mlt : DTable

/-- `seqState_t`. -/
@[ext]
structure SeqState where
  dstream : BitDStream
  stateLL : ℕ
  stateOffb : ℕ
  stateML : ℕ
  prevOffset : Repcodes

/-- `seq_t`. -/
@[ext]
structure Seq where
  litLength : ℕ
  matchLength : ℕ
  offset : ℕ
  deriving DecidableEq

section Model

variable (w : WordSize)

/-- The reloads in 32 bit mode. -/
def reload32 (d : BitDStream) : BitDStream :=
  if w = .bits32 then (reloadDStream w d).2 else d

/-- The bits behind an offset code, which are read in two parts if the offset may be long. -/
def readOffsetBits (longOffsets : Bool) (d : BitDStream) (ofBits : ℕ) : ℕ × BitDStream :=
  if w = .bits32 ∧ longOffsets ∧ 25 ≤ ofBits then
    let extraBits := 5
    let high := readBitsFast w d (ofBits - extraBits)
    let low := readBitsFast w (reloadDStream w high.2).2 extraBits
    ((high.1 <<< extraBits) + low.1, low.2)
  else
    let bits := readBitsFast w d ofBits
    (bits.1, reload32 w bits.2)

/-- The offset of a sequence. -/
def readOffset (longOffsets : Bool) (ofDInfo : SeqSymbol) (ll0 : ℕ) (prevOffset : Repcodes)
    (d : BitDStream) : (ℕ × Repcodes) × BitDStream :=
  let ofBits := ofDInfo.nbAdditionalBits
  if 1 < ofBits then
    let bits := readOffsetBits w longOffsets d ofBits
    (fullOffset prevOffset (ofDInfo.baseValue + bits.1), bits.2)
  else if ofBits = 0 then (firstRepeat prevOffset ll0, d)
  else
    let bit := readBitsFast w d 1
    (otherRepeat w prevOffset (ofDInfo.baseValue + ll0 + bit.1), bit.2)

/-- A length of a sequence. -/
def readLength (dInfo : SeqSymbol) (d : BitDStream) : ℕ × BitDStream :=
  if 0 < dInfo.nbAdditionalBits then
    let bits := readBitsFast w d dInfo.nbAdditionalBits
    (dInfo.baseValue + bits.1, bits.2)
  else (dInfo.baseValue, d)

/-- `ZSTD_updateFseStateWithDInfo`. -/
def updateFseState (dInfo : SeqSymbol) (d : BitDStream) : ℕ × BitDStream :=
  let lowBits := readBits w d dInfo.nbBits
  (dInfo.nextState + lowBits.1, lowBits.2)

/-- The reloads of `ZSTD_decodeSequence` between the two lengths. -/
def reloadBetween (llBits mlBits ofBits : ℕ) (d : BitDStream) : BitDStream :=
  let d := if w = .bits32 ∧ 25 - 5 ≤ mlBits + llBits then (reloadDStream w d).2 else d
  if w = .bits64 ∧ 57 - (9 + 9 + 8) ≤ llBits + mlBits + ofBits then (reloadDStream w d).2 else d

variable (t : SeqDTables) (longOffsets : Bool)

/-- The three numbers of a sequence, with the offsets from before. -/
def readSequence (st : SeqState) : Seq × Repcodes × BitDStream :=
  let llDInfo := t.llt.cell st.stateLL
  let mlDInfo := t.mlt.cell st.stateML
  let ofDInfo := t.oft.cell st.stateOffb
  let offset := readOffset w longOffsets ofDInfo (ll0 llDInfo.baseValue) st.prevOffset st.dstream
  let matchLength := readLength w mlDInfo offset.2
  let litLength := readLength w llDInfo
    (reloadBetween w llDInfo.nbAdditionalBits mlDInfo.nbAdditionalBits ofDInfo.nbAdditionalBits
      matchLength.2)
  (⟨litLength.1, matchLength.1, offset.1.1⟩, offset.1.2, reload32 w litLength.2)

/-- The states behind a sequence. -/
def updateStates (st : SeqState) (prevOffset : Repcodes) (d : BitDStream) : SeqState :=
  let ll := updateFseState w (t.llt.cell st.stateLL) d
  let ml := updateFseState w (t.mlt.cell st.stateML) ll.2
  let offb := updateFseState w (t.oft.cell st.stateOffb) (reload32 w ml.2)
  { dstream := (reloadDStream w offb.2).2
    stateLL := ll.1
    stateOffb := offb.1
    stateML := ml.1
    prevOffset := prevOffset }

/-- `ZSTD_decodeSequence`. -/
def decodeSequence (isLastSeq : Bool) (st : SeqState) : Seq × SeqState :=
  let seq := readSequence w t longOffsets st
  if isLastSeq then (seq.1, { st with prevOffset := seq.2.1, dstream := seq.2.2 })
  else (seq.1, updateStates w t st seq.2.1 seq.2.2)

/-- `ZSTD_initFseState`. -/
def initFseState (table : DTable) (d : BitDStream) : ℕ × BitDStream :=
  let state := readBits w d table.tableLog
  (state.1, (reloadDStream w state.2).2)

/-- The states at the beginning of `ZSTD_decompressSequences_body`. -/
def initSeqState (rep : Repcodes) (src : List Byte) : Except ErrorCode SeqState :=
  match initDStream w src with
  | .error _ => .error .corruptionDetected
  | .ok d =>
    let ll := initFseState w t.llt d
    let offb := initFseState w t.oft ll.2
    let ml := initFseState w t.mlt offb.2
    .ok ⟨ml.2, ll.1, offb.1, ml.1, rep⟩

/-- All the sequences, from first to last. -/
def decodeAll : ℕ → SeqState → List Seq × SeqState
  | 0, st => ([], st)
  | nbSeq + 1, st =>
    let seq := decodeSequence w t longOffsets (nbSeq == 0) st
    let rest := decodeAll nbSeq seq.2
    (seq.1 :: rest.1, rest.2)

end Model

section Reading

variable {w : WordSize} {d : BitDStream} {s : BitStack} {loaded n v : ℕ}

theorem readLength_spec (h : Unread w d (s.push v n) loaded) (dInfo : SeqSymbol)
    (hbits : dInfo.nbAdditionalBits = n) (hn : n ≤ loaded) :
    (readLength w dInfo d).1 = dInfo.baseValue + v % 2 ^ n ∧
      Unread w (readLength w dInfo d).2 s (loaded - n) := by
  unfold readLength
  rw [hbits]
  by_cases hpos : 0 < n
  · obtain ⟨hvalue, hrest⟩ := h.readPushedFast hpos hn
    rw [if_pos hpos]
    exact ⟨congrArg (dInfo.baseValue + ·) hvalue, hrest⟩
  · obtain rfl : n = 0 := by omega
    rw [if_neg hpos, Nat.pow_zero, Nat.mod_one, Nat.add_zero]
    rw [BitStack.push_zero] at h
    exact ⟨rfl, h⟩

theorem reload32_spec (h : Unread w d s loaded) {m : ℕ} (hm : w = .bits32 → m ≤ 25)
    (hkeep : w = .bits64 → m ≤ loaded) : Unread w (reload32 w d) s m := by
  unfold reload32
  cases w with
  | bits32 => exact h.reload.mono (hm rfl)
  | bits64 => exact h.mono (hkeep rfl)

/-- The bits of an offset, read in one part or in two. -/
theorem readOffsetBits_spec (h : Unread w d (s.push v n) (w.bits - 7)) {longOffsets : Bool}
    (hpos : 0 < n) (hn : n ≤ 31) (hn32 : w = .bits32 → n ≤ 30)
    (hlong : w = .bits32 → longOffsets = true ∨ n ≤ 25) :
    (readOffsetBits w longOffsets d n).1 = v % 2 ^ n ∧
      Unread w (readOffsetBits w longOffsets d n).2 s (if w = .bits32 then 20 else 57 - n) := by
  unfold readOffsetBits
  cases w with
  | bits64 =>
      have hbits : WordSize.bits .bits64 = 64 := rfl
      obtain ⟨hvalue, hrest⟩ := h.readPushedFast hpos (by omega)
      have hwide : ¬ (WordSize.bits64 = .bits32 ∧ longOffsets = true ∧ 25 ≤ n) := by
        rintro ⟨hw, -⟩
        cases hw
      rw [if_neg hwide, if_neg (by decide)]
      exact ⟨hvalue, hrest⟩
  | bits32 =>
      have hbits : WordSize.bits .bits32 = 32 := rfl
      have hn30 := hn32 rfl
      rw [if_pos rfl]
      by_cases hparts : longOffsets = true ∧ 25 ≤ n
      · rw [if_pos ⟨rfl, hparts⟩]
        obtain ⟨hvalue, hhigh⟩ := h.readBitsFast (n := n - 5) (by omega)
          (by rw [BitStack.length_push]; omega) (by omega)
        obtain ⟨hvalue', hlow⟩ := hhigh.reload.readBitsFast (n := 5) (by decide)
          (by rw [BitStack.length_pop, BitStack.length_push]; omega) (by decide)
        have hsum : n - 5 + 5 = n := by omega
        have htop := (s.push v n).top_add (n - 5) 5 (by rw [BitStack.length_push]; omega)
        rw [hsum, BitStack.top_push] at htop
        rw [BitStack.pop_pop, hsum, BitStack.pop_push] at hlow
        simp only [hvalue, hvalue', Nat.shiftLeft_eq, ← htop]
        exact ⟨trivial, hlow.mono (by decide)⟩
      · have hshort : n ≤ 25 := by
          rcases hlong rfl with hlong | hshort
          · have hless : ¬ 25 ≤ n := fun hge => hparts ⟨hlong, hge⟩
            omega
          · exact hshort
        rw [if_neg fun hw => hparts hw.2]
        obtain ⟨hvalue, hrest⟩ := h.readPushedFast hpos (by omega)
        exact ⟨hvalue, reload32_spec hrest (fun _ => by decide) fun hw => by cases hw⟩

end Reading

/-- A slot for an offset of a given code. -/
structure OffsetCell (cell : SeqSymbol) (ofc : ℕ) : Prop where
  nbAdditionalBits_eq : cell.nbAdditionalBits = ofBits.getD ofc 0
  baseValue_eq : cell.baseValue = ofBase.getD ofc 0

/-- Whether the decoder reads offsets of this code in a way that is right for it. -/
structure Reads (w : WordSize) (longOffsets : Bool) (ofc : ℕ) : Prop where
  ofc_le : ofc ≤ 31
  ofc_le_32 : w = .bits32 → ofc ≤ 30
  long : w = .bits32 → longOffsets = true ∨ ofc ≤ 25

section Sequence

variable {w : WordSize} {d : BitDStream} {s : BitStack} {longOffsets : Bool} {r : Repcodes}
  {offBase l : ℕ} {cell : SeqSymbol}

/-- The decoder finds the offset that the encoder meant, whichever form it has. -/
theorem readOffset_spec (h : Unread w d (s.push offBase (highbit offBase)) (w.bits - 7))
    (hcell : OffsetCell cell (highbit offBase)) (hreads : Reads w longOffsets (highbit offBase))
    (hl : l ≤ 1) (hvalid : r.Valid) (hlt : r.rep0 < 2 ^ 32) (hoff : offBase ≠ 0)
    (hpos : 0 < (updateRep r offBase l).rep0) :
    (readOffset w longOffsets cell l r d).1 =
        ((updateRep r offBase l).rep0, updateRep r offBase l) ∧
      Unread w (readOffset w longOffsets cell l r d).2 s
        (if w = .bits32 then 20 else 57 - highbit offBase) := by
  obtain ⟨hofc, hofc32, hlong⟩ := hreads
  have hbits := hcell.nbAdditionalBits_eq
  have hbase := hcell.baseValue_eq
  have hrange := highbit_spec hoff
  have hlow := mod_highbit hoff
  rw [ofBits_getD (by omega)] at hbits
  unfold readOffset
  rw [hbits]
  generalize highbit offBase = n at *
  by_cases hmany : 1 < n
  · have hbaseEq := ofBase_getD (k := n) (by omega) (by omega)
    have hfour : 2 ^ 2 ≤ 2 ^ n := Nat.pow_le_pow_right (by decide) hmany
    obtain ⟨hvalue, hrest⟩ := readOffsetBits_spec h (by omega) hofc hofc32 hlong
    have hoffset : cell.baseValue + offBase % 2 ^ n = offBase - 3 := by omega
    rw [if_pos hmany]
    simp only [hvalue, hoffset]
    exact ⟨fullOffset_eq r l (by omega), hrest⟩
  · rw [if_neg hmany]
    by_cases hzero : n = 0
    · subst hzero
      obtain rfl : offBase = 1 := by omega
      rw [if_pos rfl]
      rw [BitStack.push_zero] at h
      refine ⟨firstRepeat_eq r hl, h.mono ?_⟩
      cases w <;> decide
    · obtain rfl : n = 1 := by omega
      have hone : ofBase.getD 1 0 = 1 := rfl
      obtain ⟨hvalue, hrest⟩ := h.readPushedFast (by decide) (by cases w <;> decide)
      have hindex : cell.baseValue + l + offBase % 2 ^ 1 = offBase - 1 + l := by omega
      rw [if_neg hzero]
      simp only [hvalue, hindex]
      refine ⟨otherRepeat_eq w hvalid hlt (by omega) (by omega) hpos, hrest.mono ?_⟩
      cases w <;> decide

/-- The bits that are loaded behind the numbers of a sequence. -/
def stateBits : WordSize → ℕ
  | .bits32 => 25
  | .bits64 => 26

/-- The slots of the states belong to these codes. -/
structure Cells (t : SeqDTables) (st : SeqState) (llc ofc mlc : ℕ) : Prop where
  llBase_eq : (t.llt.cell st.stateLL).baseValue = llBase.getD llc 0
  llBits_eq : (t.llt.cell st.stateLL).nbAdditionalBits = llBits.getD llc 0
  mlBase_eq : (t.mlt.cell st.stateML).baseValue = mlBase.getD mlc 0
  mlBits_eq : (t.mlt.cell st.stateML).nbAdditionalBits = mlBits.getD mlc 0
  offset : OffsetCell (t.oft.cell st.stateOffb) ofc

/-- Between the two lengths enough bits are loaded for the second one and for the states. -/
theorem reloadBetween_spec {llB mlB ofc : ℕ} (hll : llB ≤ 16)
    (h : Unread w d s ((if w = .bits32 then 20 else 57 - ofc) - mlB)) :
    ∃ loaded, llB ≤ loaded ∧ (w = .bits64 → llB + 26 ≤ loaded) ∧
      Unread w (reloadBetween w llB mlB ofc d) s loaded := by
  unfold reloadBetween
  cases w with
  | bits32 =>
      have hbits : WordSize.bits .bits32 = 32 := rfl
      have hwide : ¬ (WordSize.bits32 = .bits64 ∧ 57 - (9 + 9 + 8) ≤ llB + mlB + ofc) := by
        rintro ⟨hw, -⟩
        cases hw
      have hnot : ¬ WordSize.bits32 = .bits64 := by decide
      rw [if_pos rfl] at h
      simp only [if_neg hwide, true_and]
      by_cases hlarge : 25 - 5 ≤ mlB + llB
      · rw [if_pos hlarge]
        exact ⟨25, by omega, fun hw => absurd hw hnot, h.reload⟩
      · rw [if_neg hlarge]
        exact ⟨20 - mlB, by omega, fun hw => absurd hw hnot, h⟩
  | bits64 =>
      have hbits : WordSize.bits .bits64 = 64 := rfl
      have hnarrow : ¬ (WordSize.bits64 = .bits32 ∧ 25 - 5 ≤ mlB + llB) := by
        rintro ⟨hw, -⟩
        cases hw
      rw [if_neg (by decide)] at h
      simp only [if_neg hnarrow, true_and]
      by_cases hlarge : 57 - (9 + 9 + 8) ≤ llB + mlB + ofc
      · rw [if_pos hlarge]
        exact ⟨57, by omega, fun _ => by omega, h.reload⟩
      · rw [if_neg hlarge]
        exact ⟨57 - ofc - mlB, by omega, fun _ => by omega, h⟩

/-- The decoder reads the numbers that the encoder wrote for a sequence. -/
theorem readSequence_spec {t : SeqDTables} {st : SeqState} {seq : SeqDef} {llc ofc mlc : ℕ}
    {lengths : SequenceLength}
    (h : Unread w st.dstream (pushFields s seq llc ofc mlc) (w.bits - 7))
    (hcells : Cells t st llc ofc mlc) (hcoded : Coded seq llc ofc mlc lengths)
    (hreads : Reads w longOffsets ofc) (hoff : seq.offBase ≠ 0) (hvalid : st.prevOffset.Valid)
    (hlt : st.prevOffset.rep0 < 2 ^ 32)
    (hpos : 0 < (updateRep st.prevOffset seq.offBase (ll0 lengths.litLength)).rep0) :
    ∃ d', readSequence w t longOffsets st =
        (⟨lengths.litLength, lengths.matchLength,
          (updateRep st.prevOffset seq.offBase (ll0 lengths.litLength)).rep0⟩,
          updateRep st.prevOffset seq.offBase (ll0 lengths.litLength), d') ∧
      Unread w d' s (stateBits w) := by
  obtain ⟨hllBase, hllBits, hmlBase, hmlBits, hoffset⟩ := hcells
  have hofc := hreads.ofc_le
  have hcode := hcoded.ofCode_eq
  have hofBits : (t.oft.cell st.stateOffb).nbAdditionalBits = ofc := by
    rw [hoffset.nbAdditionalBits_eq, ofBits_getD (by omega)]
  have hll0 : ll0 (t.llt.cell st.stateLL).baseValue = ll0 lengths.litLength := by
    unfold ll0
    rw [hllBase]
    simp only [hcoded.ll0_iff]
  unfold pushFields at h
  subst hcode
  obtain ⟨hoffsetEq, hd⟩ := readOffset_spec h hoffset hreads (ll0_le lengths.litLength) hvalid hlt
    hoff hpos
  obtain ⟨hmlEq, hd⟩ := readLength_spec hd (t.mlt.cell st.stateML) hmlBits (by
    have hml := hcoded.mlBits_le
    split_ifs <;> omega)
  obtain ⟨loaded, hload, hload64, hd⟩ := reloadBetween_spec hcoded.llBits_le hd
  obtain ⟨hllEq, hd⟩ := readLength_spec hd (t.llt.cell st.stateLL) hllBits hload
  rw [hmlBase, hcoded.matchLength_eq] at hmlEq
  rw [hllBase, hcoded.litLength_eq] at hllEq
  unfold readSequence
  simp only [hll0, hllBits, hmlBits, hofBits, hoffsetEq, hmlEq, hllEq]
  refine ⟨_, rfl, reload32_spec hd (fun hw => ?_) fun hw => ?_⟩
  · rw [hw]
    exact Nat.le_refl 25
  · have hroom := hload64 hw
    rw [hw]
    exact Nat.le_sub_of_add_le (by rwa [Nat.add_comm])

/-- The states move on to those of the sequence behind. -/
theorem updateStates_spec {t : SeqDTables} (st : SeqState) {vLL vML vOF : ℕ}
    (h : Unread w d (((s.push vOF (t.oft.cell st.stateOffb).nbBits).push vML
      (t.mlt.cell st.stateML).nbBits).push vLL (t.llt.cell st.stateLL).nbBits) (stateBits w))
    (hll : (t.llt.cell st.stateLL).nbBits ≤ 9) (hml : (t.mlt.cell st.stateML).nbBits ≤ 9)
    (hof : (t.oft.cell st.stateOffb).nbBits ≤ 8) (r : Repcodes) :
    ∃ d', updateStates w t st r d =
        { dstream := d'
          stateLL := (t.llt.cell st.stateLL).nextState + vLL % 2 ^ (t.llt.cell st.stateLL).nbBits
          stateOffb :=
            (t.oft.cell st.stateOffb).nextState + vOF % 2 ^ (t.oft.cell st.stateOffb).nbBits
          stateML := (t.mlt.cell st.stateML).nextState + vML % 2 ^ (t.mlt.cell st.stateML).nbBits
          prevOffset := r } ∧
      Unread w d' s (w.bits - 7) := by
  have hbits : 25 ≤ stateBits w ∧ (w = .bits64 → stateBits w = 26) := by cases w <;> decide
  obtain ⟨hllEq, hd⟩ := h.readPushed (by omega)
  obtain ⟨hmlEq, hd⟩ := hd.readPushed (by omega)
  have hd := reload32_spec (m := 8) hd (fun _ => by decide) fun hw => by
    have hwide := hbits.2 hw
    omega
  obtain ⟨hofEq, hd⟩ := hd.readPushed hof
  unfold updateStates updateFseState
  simp only [hllEq, hmlEq, hofEq]
  exact ⟨_, rfl, hd.reload⟩

end Sequence

end ZstdJni.Sequences
