/-
# The bit stream of a sequences section

The encoder works from the last sequence to the first, the decoder from the first to the
last, and each of them with three coders whose states it carries along.  At every sequence
the encoder has reached, a decoder that starts from what has been written so far, in the
states that the encoder is in, reads this sequence and those behind it.  This is kept from
one sequence to the next, and at the first one it says that the section is read back.
-/

import ZstdJni.Sequences.Decode

namespace ZstdJni.Sequences

open ZstdJni.Foundation ZstdJni.Native ZstdJni.Entropy

/-- The sequences that a list of sum types and lengths stands for, and the offsets behind
them. -/
def resolve : Repcodes → List (ℕ × SequenceLength) → List Seq × Repcodes
  | r, [] => ([], r)
  | r, (offBase, l) :: rest =>
    let r' := updateRep r offBase (ll0 l.litLength)
    let behind := resolve r' rest
    (⟨l.litLength, l.matchLength, r'.rep0⟩ :: behind.1, behind.2)

/-- Every sum type means an offset. -/
def OffsetsValid : Repcodes → List (ℕ × SequenceLength) → Prop
  | _, [] => True
  | r, (offBase, l) :: rest =>
    let r' := updateRep r offBase (ll0 l.litLength)
    0 < r'.rep0 ∧ r'.rep0 < 2 ^ 32 ∧ OffsetsValid r' rest

/-- The sum types and lengths of some sequences. -/
def meaning (sequences : List SeqDef) (lengths : ℕ → SequenceLength) : List (ℕ × SequenceLength) :=
  (List.range sequences.length).map fun i => ((sequences.getD i ⟨0, 0, 0⟩).offBase, lengths i)

theorem length_meaning (sequences : List SeqDef) (lengths : ℕ → SequenceLength) :
    (meaning sequences lengths).length = sequences.length := by
  rw [meaning, List.length_map, List.length_range]

theorem drop_meaning {sequences : List SeqDef} (lengths : ℕ → SequenceLength) {n : ℕ}
    (hn : n < sequences.length) :
    (meaning sequences lengths).drop n =
      ((sequences.getD n ⟨0, 0, 0⟩).offBase, lengths n) ::
        (meaning sequences lengths).drop (n + 1) := by
  rw [List.drop_eq_getElem_cons (by rwa [length_meaning])]
  simp [meaning]

/-- The tables of both sides, for the codes of each kind. -/
structure PairedTables (t : SeqCTables) (d : SeqDTables) (IsLL IsOF IsML : ℕ → Prop) where
  litLength : Paired t.litLength d.llt llBase llBits IsLL
  offset : Paired t.offsetBits d.oft ofBase ofBits IsOF
  matchLength : Paired t.matchLength d.mlt mlBase mlBits IsML
  /-- `LLFSELog`. -/
  litLength_log : t.litLength.tableLog ≤ 9
  /-- `OffFSELog`. -/
  offset_log : t.offsetBits.tableLog ≤ 8
  /-- `MLFSELog`. -/
  matchLength_log : t.matchLength.tableLog ≤ 9

/-- Sequences whose codes the tables have, and whose offsets both sides split rightly. -/
structure Encodable (w : WordSize) (codes : SeqCodes) (sequences : List SeqDef)
    (lengths : ℕ → SequenceLength) (longOffsets : Bool) (IsLL IsOF IsML : ℕ → Prop) : Prop where
  coded : ∀ i < sequences.length, Coded (sequences.getD i ⟨0, 0, 0⟩) (codes.llCode.getD i 0)
    (codes.ofCode.getD i 0) (codes.mlCode.getD i 0) (lengths i)
  litLength : ∀ i < sequences.length, IsLL (codes.llCode.getD i 0)
  offset : ∀ i < sequences.length, IsOF (codes.ofCode.getD i 0)
  matchLength : ∀ i < sequences.length, IsML (codes.mlCode.getD i 0)
  splits : ∀ i < sequences.length, Splits w codes.longOffsets (codes.ofCode.getD i 0)
  reads : ∀ i < sequences.length, Reads w longOffsets (codes.ofCode.getD i 0)
  offBase_ne : ∀ i < sequences.length, (sequences.getD i ⟨0, 0, 0⟩).offBase ≠ 0

section Section

variable {w : WordSize} {t : SeqCTables} {d : SeqDTables} {IsLL IsOF IsML : ℕ → Prop}
  {codes : SeqCodes} {sequences : List SeqDef} {lengths : ℕ → SequenceLength} {longOffsets : Bool}

/-- The states of the decoder for those of the encoder. -/
def decoderState (t : SeqCTables) (st : EncodeState) (dstream : BitDStream) (r : Repcodes) :
    SeqState where
  dstream := dstream
  stateLL := st.stateLitLength % 2 ^ t.litLength.tableLog
  stateOffb := st.stateOffsetBits % 2 ^ t.offsetBits.tableLog
  stateML := st.stateMatchLength % 2 ^ t.matchLength.tableLog
  prevOffset := r

@[simp]
theorem prevOffset_decoderState (t : SeqCTables) (st : EncodeState) (dstream : BitDStream)
    (r : Repcodes) : (decoderState t st dstream r).prevOffset = r := rfl

/-- From a stack of bits and the states of the encoder the decoder reads these sequences, to
the last bit. -/
def Decodes (w : WordSize) (t : SeqCTables) (d : SeqDTables) (longOffsets : Bool) (s : BitStack)
    (st : EncodeState) (what : List (ℕ × SequenceLength)) : Prop :=
  ∀ dstream r, Unread w dstream s (w.bits - 7) → r.Valid → r.rep0 < 2 ^ 32 → OffsetsValid r what →
    ∃ st' loaded, decodeAll w d longOffsets what.length (decoderState t st dstream r) =
        ((resolve r what).1, st') ∧
      st'.prevOffset = (resolve r what).2 ∧ Unread w st'.dstream .empty loaded

/-- The states of the encoder belong to these codes. -/
structure StatesFor (pt : PairedTables t d IsLL IsOF IsML) (st : EncodeState)
    (llc ofc mlc : ℕ) : Prop where
  litLength : pt.litLength.IsState st.stateLitLength
  offset : pt.offset.IsState st.stateOffsetBits
  matchLength : pt.matchLength.IsState st.stateMatchLength
  cells : ∀ dstream r, Cells d (decoderState t st dstream r) llc ofc mlc

/-- The encoder at a sequence: what is written so far is read by the decoder. -/
structure AtSequence (w : WordSize) (pt : PairedTables t d IsLL IsOF IsML) (codes : SeqCodes)
    (sequences : List SeqDef) (lengths : ℕ → SequenceLength) (longOffsets : Bool) (e n : ℕ)
    (st : EncodeState) (s : BitStack) : Prop where
  fed : Fed w e st.blockStream s 7
  states : StatesFor pt st (codes.llCode.getD n 0) (codes.ofCode.getD n 0) (codes.mlCode.getD n 0)
  decodes : Decodes w t d longOffsets s st ((meaning sequences lengths).drop n)
  length_le : s.length + 89 * n + 26 ≤ 89 * sequences.length

theorem statesFor_firstSymbols (pt : PairedTables t d IsLL IsOF IsML) {llc ofc mlc : ℕ}
    (hll : IsLL llc) (hof : IsOF ofc) (hml : IsML mlc) {st : EncodeState}
    (hstLL : st.stateLitLength = initCState2 t.litLength llc)
    (hstOF : st.stateOffsetBits = initCState2 t.offsetBits ofc)
    (hstML : st.stateMatchLength = initCState2 t.matchLength mlc) : StatesFor pt st
      llc ofc mlc := by
  refine ⟨hstLL ▸ pt.litLength.first hll, hstOF ▸ pt.offset.first hof,
    hstML ▸ pt.matchLength.first hml, fun dstream r => ?_⟩
  unfold decoderState
  rw [hstLL, hstOF, hstML]
  obtain ⟨hllBase, hllBits⟩ := pt.litLength.first_cell hll
  obtain ⟨hofBase, hofBits⟩ := pt.offset.first_cell hof
  obtain ⟨hmlBase, hmlBits⟩ := pt.matchLength.first_cell hml
  exact ⟨hllBase, hllBits, hmlBase, hmlBits, hofBits, hofBase⟩

/-- The fields of a sequence take at most 63 bits. -/
theorem length_pushFields {w : WordSize} {seq : SeqDef} {llc ofc mlc : ℕ} {l : SequenceLength}
    (s : BitStack) (hcoded : Coded seq llc ofc mlc l) {long : Bool} (hsplits : Splits w long ofc) :
    (pushFields s seq llc ofc mlc).length ≤ s.length + 63 := by
  have hll := hcoded.llBits_le
  have hml := hcoded.mlBits_le
  have hof := hsplits.ofc_le
  simp only [pushFields, BitStack.length_push]
  omega

/-- The last sequence is written first, and a decoder that starts from it reads it. -/
theorem atSequence_last (pt : PairedTables t d IsLL IsOF IsML)
    (h : Encodable w codes sequences lengths longOffsets IsLL IsOF IsML)
    (hne : sequences ≠ []) {e : ℕ} {c : BitCStream} (hfed : Fed w e c .empty 0) :
    ∃ s, AtSequence w pt codes sequences lengths longOffsets e (sequences.length - 1)
      (encodeLast w t codes sequences c) s := by
  have hpos := List.length_pos_iff.mpr hne
  have hlast : sequences.length - 1 < sequences.length := by omega
  have hcoded := h.coded _ hlast
  have hsplits := h.splits _ hlast
  have hstates : StatesFor pt (encodeLast w t codes sequences c)
      (codes.llCode.getD (sequences.length - 1) 0) (codes.ofCode.getD (sequences.length - 1) 0)
      (codes.mlCode.getD (sequences.length - 1) 0) :=
    statesFor_firstSymbols pt (h.litLength _ hlast) (h.offset _ hlast) (h.matchLength _ hlast)
      rfl rfl rfl
  have hend : (meaning sequences lengths).drop (sequences.length - 1 + 1) = [] := by
    rw [List.drop_eq_nil_iff, length_meaning]
    omega
  refine ⟨_, hfed.firstSymbols hsplits hcoded.llBits_le hcoded.mlBits_le, hstates, ?_, ?_⟩
  · intro dstream r hunread hvalid hlt hoffsets
    rw [drop_meaning lengths hlast, hend] at hoffsets ⊢
    obtain ⟨d', hread, hrest⟩ := readSequence_spec hunread (hstates.cells dstream r) hcoded
      (h.reads _ hlast) (h.offBase_ne _ hlast) hvalid hlt hoffsets.1
    simp only [List.length_singleton, decodeAll, decodeSequence, hread, resolve]
    exact ⟨_, _, rfl, rfl, hrest⟩
  · have hlength := length_pushFields .empty hcoded hsplits
    rw [BitStack.length_empty] at hlength
    omega

theorem cells_encodeAt (pt : PairedTables t d IsLL IsOF IsML)
    (h : Encodable w codes sequences lengths longOffsets IsLL IsOF IsML) {n : ℕ}
    (hn : n < sequences.length) {st : EncodeState} (hll : pt.litLength.IsState st.stateLitLength)
    (hof : pt.offset.IsState st.stateOffsetBits) (hml : pt.matchLength.IsState st.stateMatchLength)
    (dstream : BitDStream) (r : Repcodes) :
    Cells d (decoderState t (encodeAt w t codes sequences n st) dstream r)
      (codes.llCode.getD n 0) (codes.ofCode.getD n 0) (codes.mlCode.getD n 0) := by
  have hllCell := pt.litLength.next_cell hll (h.litLength n hn)
  have hofCell := pt.offset.next_cell hof (h.offset n hn)
  have hmlCell := pt.matchLength.next_cell hml (h.matchLength n hn)
  exact ⟨congrArg SeqSymbol.baseValue hllCell, congrArg SeqSymbol.nbAdditionalBits hllCell,
    congrArg SeqSymbol.baseValue hmlCell, congrArg SeqSymbol.nbAdditionalBits hmlCell,
    congrArg SeqSymbol.nbAdditionalBits hofCell, congrArg SeqSymbol.baseValue hofCell⟩

/-- From the states at a sequence the decoder moves on to those at the sequence behind it. -/
theorem updateStates_encodeAt (pt : PairedTables t d IsLL IsOF IsML)
    (h : Encodable w codes sequences lengths longOffsets IsLL IsOF IsML) {n : ℕ}
    (hn : n < sequences.length) {st : EncodeState} (hll : pt.litLength.IsState st.stateLitLength)
    (hof : pt.offset.IsState st.stateOffsetBits) (hml : pt.matchLength.IsState st.stateMatchLength)
    {s : BitStack} {d' : BitDStream}
    (hunread : Unread w d' (pushStates t s st (codes.llCode.getD n 0) (codes.ofCode.getD n 0)
      (codes.mlCode.getD n 0)) (stateBits w))
    (dstream : BitDStream) (r r' : Repcodes) :
    ∃ d'', updateStates w d (decoderState t (encodeAt w t codes sequences n st) dstream r) r' d' =
      decoderState t st d'' r' ∧ Unread w d'' s (w.bits - 7) := by
  obtain ⟨hllBits, hllState⟩ := pt.litLength.previous hll (h.litLength n hn)
  obtain ⟨hofBits, hofState⟩ := pt.offset.previous hof (h.offset n hn)
  obtain ⟨hmlBits, hmlState⟩ := pt.matchLength.previous hml (h.matchLength n hn)
  have hllLe := (pt.litLength.bits_le hll (h.litLength n hn)).trans pt.litLength_log
  have hofLe := (pt.offset.bits_le hof (h.offset n hn)).trans pt.offset_log
  have hmlLe := (pt.matchLength.bits_le hml (h.matchLength n hn)).trans pt.matchLength_log
  unfold pushStates at hunread
  rw [← hllBits, ← hofBits, ← hmlBits] at hunread
  rw [← hllBits] at hllState hllLe
  rw [← hofBits] at hofState hofLe
  rw [← hmlBits] at hmlState hmlLe
  obtain ⟨d'', hupdate, hrest⟩ := updateStates_spec
    (decoderState t (encodeAt w t codes sequences n st) dstream r) hunread hllLe hmlLe hofLe r'
  exact ⟨d'', hupdate.trans (SeqState.ext rfl hllState hofState hmlState rfl), hrest⟩

/-- One sequence more: the decoder reads it, and moves on to the states from which it read
those behind it. -/
theorem AtSequence.encodeAt {pt : PairedTables t d IsLL IsOF IsML}
    (h : Encodable w codes sequences lengths longOffsets IsLL IsOF IsML) {e n : ℕ}
    {st : EncodeState} {s : BitStack}
    (hat : AtSequence w pt codes sequences lengths longOffsets e (n + 1) st s)
    (hn : n + 1 < sequences.length) :
    ∃ s', AtSequence w pt codes sequences lengths longOffsets e n
      (encodeAt w t codes sequences n st) s' := by
  obtain ⟨hfed, ⟨hll, hof, hml, -⟩, hdecodes, hlength⟩ := hat
  have hn' : n < sequences.length := by omega
  have hcoded := h.coded n hn'
  have hsplits := h.splits n hn'
  have hllLe := (pt.litLength.bits_le hll (h.litLength n hn')).trans pt.litLength_log
  have hofLe := (pt.offset.bits_le hof (h.offset n hn')).trans pt.offset_log
  have hmlLe := (pt.matchLength.bits_le hml (h.matchLength n hn')).trans pt.matchLength_log
  have hcells := cells_encodeAt pt h hn' hll hof hml
  refine ⟨_, hfed.encodeSequence hofLe hmlLe hllLe hsplits hcoded.llBits_le hcoded.mlBits_le,
    ⟨pt.litLength.next hll (h.litLength n hn'), pt.offset.next hof (h.offset n hn'),
      pt.matchLength.next hml (h.matchLength n hn'), hcells⟩, ?_, ?_⟩
  · intro dstream r hunread hvalid hlt hoffsets
    rw [drop_meaning lengths hn'] at hoffsets ⊢
    obtain ⟨hpos, hless, hoffsets⟩ := hoffsets
    obtain ⟨d', hread, hrest⟩ := readSequence_spec hunread (hcells dstream r) hcoded
      (h.reads n hn') (h.offBase_ne n hn') hvalid hlt hpos
    obtain ⟨d'', hupdate, hrest⟩ := updateStates_encodeAt pt h hn' hll hof hml hrest dstream r
      (updateRep r (sequences.getD n ⟨0, 0, 0⟩).offBase (ll0 (lengths n).litLength))
    obtain ⟨st', loaded, hbehind, hprev, hempty⟩ := hdecodes d'' _ hrest
      (valid_updateRep hvalid hpos) hless hoffsets
    have hmore : ((meaning sequences lengths).drop (n + 1)).length ≠ 0 := by
      rw [List.length_drop, length_meaning]
      omega
    have hnotLast : (((meaning sequences lengths).drop (n + 1)).length == 0) = false := by
      rw [beq_eq_false_iff_ne]
      exact hmore
    refine ⟨st', loaded, ?_, hprev, hempty⟩
    rw [prevOffset_decoderState] at hread
    rw [List.length_cons, decodeAll, decodeSequence, hnotLast, hread]
    simp only [Bool.false_eq_true, if_false, hupdate, hbehind, resolve]
  · have hfields := length_pushFields (pushStates t s st (codes.llCode.getD n 0)
      (codes.ofCode.getD n 0) (codes.mlCode.getD n 0)) hcoded hsplits (w := w)
    simp only [pushStates, BitStack.length_push] at hfields ⊢
    omega

/-- The loop keeps this down to the first sequence. -/
theorem AtSequence.encodeDown {pt : PairedTables t d IsLL IsOF IsML}
    (h : Encodable w codes sequences lengths longOffsets IsLL IsOF IsML) {e n : ℕ}
    {st : EncodeState} {s : BitStack}
    (hat : AtSequence w pt codes sequences lengths longOffsets e n st s)
    (hn : n < sequences.length) :
    ∃ s', AtSequence w pt codes sequences lengths longOffsets e 0
      (encodeDown w t codes sequences n st) s' := by
  induction n generalizing st s with
  | zero => exact ⟨s, hat⟩
  | succ n ih =>
      obtain ⟨s', hat'⟩ := hat.encodeAt h hn
      exact ih hat' (by omega)

/-- The decoder begins in the states that the encoder ended in. -/
theorem initSeqState_spec (pt : PairedTables t d IsLL IsOF IsML) {bytes : List Byte} {s : BitStack}
    {st : EncodeState}
    (hclosed : IsClosed bytes (((s.push st.stateMatchLength t.matchLength.tableLog).push
      st.stateOffsetBits t.offsetBits.tableLog).push st.stateLitLength t.litLength.tableLog))
    (rep : Repcodes) :
    ∃ dstream, initSeqState w d rep bytes = .ok (decoderState t st dstream rep) ∧
      Unread w dstream s (w.bits - 7) := by
  have hword : 32 ≤ w.bits := by cases w <;> decide
  have hllLog := pt.litLength_log
  have hofLog := pt.offset_log
  have hmlLog := pt.matchLength_log
  obtain ⟨dstream, hinit, hunread⟩ := hclosed.unread (w := w)
  rw [← pt.litLength.tableLog_eq] at hunread hllLog
  rw [← pt.offset.tableLog_eq] at hunread hofLog
  rw [← pt.matchLength.tableLog_eq] at hunread hmlLog
  obtain ⟨hll, hunread⟩ := hunread.readPushed (by omega)
  obtain ⟨hof, hunread⟩ := hunread.reload.readPushed (by omega)
  obtain ⟨hml, hunread⟩ := hunread.reload.readPushed (by omega)
  refine ⟨_, ?_, hunread.reload⟩
  unfold initSeqState initFseState decoderState
  rw [hinit, ← pt.litLength.tableLog_eq, ← pt.offset.tableLog_eq, ← pt.matchLength.tableLog_eq]
  simp only [hll, hof, hml]

/-- What the encoder has in the end, before it closes the stream. -/
theorem encodeSequences_stack (pt : PairedTables t d IsLL IsOF IsML)
    (h : Encodable w codes sequences lengths longOffsets IsLL IsOF IsML) (hne : sequences ≠ [])
    {dst : List Byte} {c : BitCStream} (hinit : initCStream w dst = .ok c) :
    ∃ s, AtSequence w pt codes sequences lengths longOffsets (dst.length - registerBytes w) 0
        (encodeDown w t codes sequences (sequences.length - 1) (encodeLast w t codes sequences c))
          s := by
  have hpos := List.length_pos_iff.mpr hne
  obtain ⟨hholds, hbits, hend⟩ := holds_initCStream hinit
  have hfed : Fed w (dst.length - registerBytes w) c .empty 0 := ⟨hholds, by omega, by omega⟩
  obtain ⟨s, hlast⟩ := atSequence_last pt h hne hfed
  exact hlast.encodeDown h (by omega)

/-- With room for ninety-six bits a sequence the encoder does not refuse. -/
theorem encodeSequences_fits (pt : PairedTables t d IsLL IsOF IsML)
    (h : Encodable w codes sequences lengths longOffsets IsLL IsOF IsML) (hne : sequences ≠ [])
    {dst : List Byte} (hfits : 8 + 12 * sequences.length ≤ dst.length) :
    ∃ bytes, encodeSequences w t dst codes sequences = .ok bytes := by
  have hpos := List.length_pos_iff.mpr hne
  have hregister : registerBytes w ≤ 8 := by cases w <;> decide
  have hword : 32 ≤ w.bits := by cases w <;> decide
  obtain ⟨c, hinit⟩ : ∃ c, initCStream w dst = .ok c := by
    unfold initCStream
    rw [if_neg (by omega)]
    exact ⟨_, rfl⟩
  obtain ⟨s, hat⟩ := encodeSequences_stack pt h hne hinit
  have hlength := hat.length_le
  have hfed := hat.fed.flushStates pt.matchLength_log pt.offset_log pt.litLength_log
  have hllLog := pt.litLength_log
  have hofLog := pt.offset_log
  have hmlLog := pt.matchLength_log
  have hbits := hfed.bitPos_le
  have hsize := hfed.holds.fits (by omega) (by
    rw [hfed.endPtr_eq]
    simp only [BitStack.length_push]
    omega)
  unfold encodeSequences
  rw [hinit]
  simp only [if_neg hsize]
  exact ⟨_, rfl⟩

/-- What the encoder wrote is read back: the same sequences, to the last bit, with the offsets
that the encoder has for the next block. -/
theorem decodeAll_encodeSequences (pt : PairedTables t d IsLL IsOF IsML)
    (h : Encodable w codes sequences lengths longOffsets IsLL IsOF IsML) (hne : sequences ≠ [])
    {dst bytes : List Byte} (hencode : encodeSequences w t dst codes sequences = .ok bytes)
    {rep : Repcodes} (hvalid : rep.Valid) (hlt : rep.rep0 < 2 ^ 32)
    (hoffsets : OffsetsValid rep (meaning sequences lengths)) :
    ∃ st st', initSeqState w d rep bytes = .ok st ∧
      decodeAll w d longOffsets sequences.length st =
        ((resolve rep (meaning sequences lengths)).1, st') ∧
      endOfDStream w st'.dstream = true ∧
      st'.prevOffset = (resolve rep (meaning sequences lengths)).2 := by
  have hword : 32 ≤ w.bits := by cases w <;> decide
  unfold encodeSequences at hencode
  cases hinit : initCStream w dst with
  | error code => rw [hinit] at hencode; cases hencode
  | ok c =>
      obtain ⟨s, hat⟩ := encodeSequences_stack pt h hne hinit
      have hfed := hat.fed.flushStates pt.matchLength_log pt.offset_log pt.litLength_log
      have hbits := hfed.bitPos_le
      rw [hinit] at hencode
      simp only at hencode
      split_ifs at hencode with hsize
      obtain rfl := Except.ok.inj hencode
      have hclosed := hfed.holds.isClosed (by omega) hsize
      obtain ⟨dstream, hinitState, hunread⟩ := initSeqState_spec pt hclosed rep
      obtain ⟨st', loaded, hdecode, hprev, hempty⟩ := hat.decodes dstream rep hunread hvalid hlt
        hoffsets
      rw [List.drop_zero, length_meaning] at hdecode
      rw [List.drop_zero] at hprev
      exact ⟨_, st', hinitState, hdecode, hempty.endOfDStream.mpr rfl, hprev⟩

end Section

end ZstdJni.Sequences
