/-
# Sequences from any bytes

A block that was not written by the encoder may say anything.  The tables that are accepted
still keep their states inside, and give no sequence without an offset or without a match.
So whatever the decoder writes is inside the destination, whether it accepts the block in the
end or refuses it in the middle.
-/

import ZstdJni.Sequences.SequencesSection

namespace ZstdJni.Sequences

open ZstdJni.Foundation ZstdJni.Native ZstdJni.Entropy

/-- Every slot is right, and from it the decoder comes to a slot again. -/
def Inside (d : DTable) (Right : SeqSymbol → Prop) : Prop :=
  ∀ state < 2 ^ d.tableLog, Right (d.cell state) ∧
    (d.cell state).nextState + 2 ^ (d.cell state).nbBits ≤ 2 ^ d.tableLog

section Tables

variable {Right : SeqSymbol → Prop} {baseValue nbAdditionalBits : List ℕ} {k : CodeKind}

/-- The next state of a slot, with any bits behind it, is the place of a slot. -/
theorem nextState_le {x tableLog : ℕ} (hpos : x ≠ 0) (hlt : x < 2 ^ (tableLog + 1)) :
    x <<< (tableLog - highbit x) - 2 ^ tableLog + 2 ^ (tableLog - highbit x) ≤ 2 ^ tableLog := by
  obtain ⟨hlow, hhigh⟩ := highbit_spec hpos
  have hle : highbit x ≤ tableLog := Nat.le_of_lt_succ (highbit_lt hpos hlt)
  have hsplit : 2 ^ highbit x * 2 ^ (tableLog - highbit x) = 2 ^ tableLog := by
    rw [← Nat.pow_add, Nat.add_sub_cancel' hle]
  have hfirst := Nat.mul_le_mul_right (2 ^ (tableLog - highbit x)) hlow
  have hlast := Nat.mul_le_mul_right (2 ^ (tableLog - highbit x)) (Nat.succ_le_of_lt hhigh)
  rw [Nat.succ_mul, Nat.pow_succ', Nat.mul_assoc, hsplit] at hlast
  rw [Nat.shiftLeft_eq]
  omega

theorem inside_buildFSETable (c : NormalizedCounter)
    (hright : ∀ s < c.counts.length, ∀ nextState nbBits,
      Right ⟨nextState, nbAdditionalBits.getD s 0, nbBits, baseValue.getD s 0⟩) :
    Inside (buildFSETable c.counts baseValue nbAdditionalBits c.tableLog) Right := by
  intro state hstate
  obtain ⟨-, hlength, hcount⟩ := c.spreadTable_spec
  have hinside : state < c.tableSymbol.length := by
    rw [hlength]
    exact hstate
  have hsplit : c.tableSymbol =
      c.tableSymbol.take state ++ c.tableSymbol[state] :: c.tableSymbol.drop (state + 1) := by
    rw [← List.drop_eq_getElem_cons hinside, List.take_append_drop]
  have hcell := c.cell_buildFSETable baseValue nbAdditionalBits hsplit
  have hall := hcount c.tableSymbol[state]
  generalize c.tableSymbol[state] = s at hsplit hcell hall
  rw [hsplit, List.count_append, List.count_cons_self] at hall
  rw [List.length_take_of_le hinside.le] at hcell
  have hle := c.slotsOf_le s
  rw [hcell]
  refine ⟨hright s (c.lt_of_slotsOf_pos (by omega)) _ _, nextState_le (by omega) ?_⟩
  rw [Nat.pow_succ]
  omega

theorem inside_buildSeqTableRle {base nbAddBits : ℕ} (hright : Right ⟨0, nbAddBits, 0, base⟩) :
    Inside (buildSeqTableRle base nbAddBits) Right := by
  intro state hstate
  have hzero : state = 0 := Nat.lt_one_iff.mp hstate
  subst hzero
  exact ⟨hright, Nat.le_refl 1⟩

theorem TableSource.Bounded.inside {source : TableSource k} (h : source.Bounded)
    (hdefault : k.defaultNorm.counts.length ≤ k.max + 1)
    (hright : ∀ s ≤ k.max, ∀ nextState nbBits,
      Right ⟨nextState, k.nbAdditionalBits.getD s 0, nbBits, k.baseValue.getD s 0⟩) :
    Inside source.dtable Right := by
  cases source with
  | basic =>
      rw [TableSource.dtable, k.defaultTable_eq]
      exact inside_buildFSETable _ fun s hs => hright s (by omega)
  | rle symbol => exact inside_buildSeqTableRle (hright symbol h 0 0)
  | compressed norm hlog =>
      exact inside_buildFSETable norm fun s hs =>
        hright s (Nat.le_of_lt_succ (Nat.lt_of_lt_of_le hs h))

/-- A match length is not zero. -/
def LengthCell (cell : SeqSymbol) : Prop := 0 < cell.baseValue

/-- A full offset is not zero. -/
def FullOffsetCell (cell : SeqSymbol) : Prop := 1 < cell.nbAdditionalBits → 0 < cell.baseValue

theorem inside_matchLength {source : TableSource mlKind} (h : source.Bounded) :
    Inside source.dtable LengthCell := by
  have hbase : ∀ s ≤ 52, 0 < mlBase.getD s 0 := by decide
  exact h.inside (by decide) fun s hs _ _ => hbase s hs

theorem inside_offset {source : TableSource ofKind} (h : source.Bounded) :
    Inside source.dtable FullOffsetCell := by
  have hbase : ∀ s ≤ 31, 1 < ofBits.getD s 0 → 0 < ofBase.getD s 0 := by decide
  exact h.inside (by decide) fun s hs _ _ => hbase s hs

end Tables

section Decoding

variable {w : WordSize} {t : SeqDTables} {longOffsets : Bool} {st : SeqState} {r : Repcodes}

/-- The states are places of slots, and the offsets are offsets. -/
structure SeqState.Sound (t : SeqDTables) (st : SeqState) : Prop where
  stateOffb_lt : st.stateOffb < 2 ^ t.oft.tableLog
  stateML_lt : st.stateML < 2 ^ t.mlt.tableLog
  prevOffset_valid : st.prevOffset.Valid

theorem Repcodes.Valid.rep_pos (h : r.Valid) (i : ℕ) : 0 < r.rep i := by
  unfold Repcodes.rep
  split
  · exact h.rep0_pos
  · exact h.rep1_pos
  · exact h.rep2_pos

theorem valid_otherRepeat (h : r.Valid) (offset : ℕ) :
    0 < (otherRepeat w r offset).1 ∧ (otherRepeat w r offset).2.Valid := by
  have hword : 2 ^ 32 ≤ 2 ^ w.bits := Nat.pow_le_pow_right (by decide) (by cases w <;> decide)
  unfold otherRepeat
  simp only
  generalize (if offset = 3 then (r.rep0 + 2 ^ w.bits - 1) % 2 ^ w.bits else r.rep offset) = temp
  have hpos : 0 < if temp = 0 then 2 ^ w.bits - 1 else temp := by
    split_ifs <;> omega
  refine ⟨hpos, hpos, h.rep0_pos, ?_⟩
  change 0 < if offset ≠ 1 then r.rep1 else r.rep2
  split_ifs
  · exact h.rep1_pos
  · exact h.rep2_pos

/-- Whatever the bits are, an offset is not zero. -/
theorem valid_readOffset {cell : SeqSymbol} (hcell : FullOffsetCell cell) (h : r.Valid) (ll0 : ℕ)
    (d : BitDStream) :
    0 < (readOffset w longOffsets cell ll0 r d).1.1 ∧
      (readOffset w longOffsets cell ll0 r d).1.2.Valid := by
  unfold readOffset
  simp only
  split_ifs with hfull
  · have hbase := hcell hfull
    have hpos : 0 < cell.baseValue + (readOffsetBits w longOffsets d cell.nbAdditionalBits).1 := by
      omega
    exact ⟨hpos, hpos, h.rep0_pos, h.rep1_pos⟩
  · exact ⟨h.rep_pos _, h.rep_pos _, h.rep_pos _, h.rep2_pos⟩
  · exact valid_otherRepeat h _

theorem pos_readLength {cell : SeqSymbol} (hcell : LengthCell cell) (d : BitDStream) :
    0 < (readLength w cell d).1 := by
  have hbase : 0 < cell.baseValue := hcell
  unfold readLength
  split_ifs
  · exact Nat.lt_of_lt_of_le hbase (Nat.le_add_right _ _)
  · exact hbase

theorem lookBits_lt (w : WordSize) (d : BitDStream) (n : ℕ) : lookBits w d n < 2 ^ n :=
  Nat.mod_lt _ (Nat.two_pow_pos n)

theorem updateFseState_lt {table : DTable} {Right : SeqSymbol → Prop} (h : Inside table Right)
    {state : ℕ} (hstate : state < 2 ^ table.tableLog) (d : BitDStream) :
    (updateFseState w (table.cell state) d).1 < 2 ^ table.tableLog := by
  have hnext := (h state hstate).2
  have hbits := lookBits_lt w d (table.cell state).nbBits
  exact Nat.lt_of_lt_of_le (Nat.add_lt_add_left hbits _) hnext

/-- A sequence has an offset and a match, and the states behind it are sound again. -/
theorem SeqState.Sound.decodeSequence (h : st.Sound t) (hof : Inside t.oft FullOffsetCell)
    (hml : Inside t.mlt LengthCell) (isLastSeq : Bool) :
    0 < (decodeSequence w t longOffsets isLastSeq st).1.offset ∧
      0 < (decodeSequence w t longOffsets isLastSeq st).1.matchLength ∧
      (decodeSequence w t longOffsets isLastSeq st).2.Sound t := by
  obtain ⟨hoffset, hvalid⟩ := valid_readOffset (w := w) (hof _ h.stateOffb_lt).1
    h.prevOffset_valid (ll0 (t.llt.cell st.stateLL).baseValue) st.dstream
  have hlength := pos_readLength (w := w) (hml _ h.stateML_lt).1
    (readOffset w longOffsets (t.oft.cell st.stateOffb) (ll0 (t.llt.cell st.stateLL).baseValue)
      st.prevOffset st.dstream).2
  unfold Sequences.decodeSequence
  simp only
  by_cases hlast : isLastSeq = true
  · rw [if_pos hlast]
    exact ⟨hoffset, hlength, h.stateOffb_lt, h.stateML_lt, hvalid⟩
  · rw [if_neg hlast]
    exact ⟨hoffset, hlength, updateFseState_lt hof h.stateOffb_lt _,
      updateFseState_lt hml h.stateML_lt _, hvalid⟩

theorem sound_initSeqState {rep : Repcodes} {src : List Byte} (hrep : rep.Valid)
    (h : initSeqState w t rep src = .ok st) : st.Sound t := by
  unfold initSeqState at h
  cases hinit : initDStream w src with
  | error code =>
      rw [hinit] at h
      cases h
  | ok d =>
      rw [hinit] at h
      cases h
      exact ⟨lookBits_lt _ _ _, lookBits_lt _ _ _, hrep⟩

/-- Whatever the bits are, every sequence has an offset and a match. -/
theorem SeqState.Sound.decodeAll (h : st.Sound t) (hof : Inside t.oft FullOffsetCell)
    (hml : Inside t.mlt LengthCell) (nbSeq : ℕ) {seq : Seq}
    (hseq : seq ∈ (decodeAll w t longOffsets nbSeq st).1) :
    0 < seq.offset ∧ 0 < seq.matchLength := by
  induction nbSeq generalizing st with
  | zero => cases hseq
  | succ nbSeq ih =>
      obtain ⟨hoffset, hmatch, hsound⟩ :=
        @SeqState.Sound.decodeSequence w t longOffsets st h hof hml
        (nbSeq == 0)
      rw [Sequences.decodeAll] at hseq
      rcases List.mem_cons.mp hseq with rfl | hseq
      · exact ⟨hoffset, hmatch⟩
      · exact ih hsound hseq

end Decoding

section Executing

variable {α : Type} {w : WordSize} {b : ExecBounds} {out out' : Output} {t : SeqDTables}
  {longOffsets : Bool} {seq : Seq} {seqs : List Seq} {nbSeq : ℕ}

/-- Where a block is written, with the literals and the dictionary out of its way. -/
structure Region (b : ExecBounds) (out : Output) : Prop where
  virtualStart_le : b.virtualStart ≤ b.prefixStart
  prefixStart_le : b.prefixStart ≤ out.op
  op_le : out.op ≤ b.oend
  litPtr_le : out.litPtr ≤ b.litLimit
  literals : b.litLimit + 32 ≤ out.op ∨ b.oend ≤ out.litPtr
  dict_room : b.prefixStart - b.virtualStart ≤ b.dictEnd
  dict : b.dictEnd ≤ out.op ∨ b.oend + 32 ≤ b.dictEnd - (b.prefixStart - b.virtualStart)

/-- The output goes on inside the destination. -/
structure Confined (b : ExecBounds) (out out' : Output) : Prop where
  op_ge : out.op ≤ out'.op
  outside : ∀ a, a < out.op ∨ b.oend ≤ a → out'.mem a = out.mem a

theorem Confined.refl (b : ExecBounds) (out : Output) : Confined b out out :=
  ⟨Nat.le_refl _, fun _ _ => rfl⟩

theorem Confined.trans {out'' : Output} (h : Confined b out out') (h' : Confined b out' out'') :
    Confined b out out'' := by
  refine ⟨Nat.le_trans h.op_ge h'.op_ge, fun a ha => ?_⟩
  have hop := h.op_ge
  rw [h'.outside a (by omega), h.outside a ha]

/-- What is refused is refused with the memory outside of the destination as it was. -/
def Contained (b : ExecBounds) (out : Output) (Accepted : α → Prop) : Except Refusal α → Prop
  | .error refusal => ∀ a, a < out.op ∨ b.oend ≤ a → refusal.mem a = out.mem a
  | .ok result => Accepted result

/-- What goes on from an output that is confined. -/
theorem Contained.after {Accepted Accepted' : α → Prop} {result : Except Refusal α}
    (hfirst : Confined b out out') (h : Contained b out' Accepted result)
    (hmono : ∀ x, Accepted x → Accepted' x) : Contained b out Accepted' result := by
  cases result with
  | error refusal =>
      intro a ha
      have hop := hfirst.op_ge
      rw [h a (by omega), hfirst.outside a ha]
  | ok x => exact hmono x h

/-- A sequence that does not fit is refused. -/
theorem execSequence_of_not_fits (w : WordSize) (b : ExecBounds) (m : Memory) {op litPtr : ℕ}
    (hop : op ≤ b.oend) (hlarge : b.oend < op + (seq.litLength + seq.matchLength)) :
    execSequence w b m op litPtr seq = .error ⟨.dstSizeTooSmall, m⟩ := by
  unfold execSequence
  simp only
  rw [if_pos (Or.inr (Or.inl (by omega)))]
  unfold execSequenceEnd
  rw [if_pos (by omega)]

/-- An output that is still inside, and what it comes from. -/
def Onward (b : ExecBounds) (out out' : Output) : Prop := Region b out' ∧ Confined b out out'

/-- A sequence with an offset and a match is executed inside the destination or refused. -/
theorem Region.executeOne (w : WordSize) (h : Region b out) (hoffset : 0 < seq.offset)
    (hmatch : 0 < seq.matchLength) : Contained b out (Onward b out) (executeOne w b out seq) := by
  unfold Sequences.executeOne
  by_cases hlarge : b.oend < out.op + (seq.litLength + seq.matchLength)
  · rw [execSequence_of_not_fits w b out.mem h.op_le hlarge]
    exact fun _ _ => rfl
  have hvirtual := h.virtualStart_le
  have hroom := h.dict_room
  have hdict := h.dict
  have hliterals := h.literals
  have hfloor := h.prefixStart_le
  have hlayout : Layout b out.op out.litPtr seq :=
    ⟨hoffset, hmatch, hvirtual, hfloor, h.op_le, h.litPtr_le, hliterals, hroom,
      fun a _ _ _ _ => by omega⟩
  rcases execSequence_spec w out.mem hlayout with
    ⟨-, herror⟩ | ⟨-, -, m', herror, houtside⟩ | ⟨hfits, hlit, -, m', hok, hexecuted⟩
  · rw [herror]
    exact fun _ _ => rfl
  · rw [herror]
    exact houtside
  · rw [hok]
    refine ⟨⟨hvirtual, by simp only; omega, hfits, hlit, by simp only; omega, hroom,
      by simp only; omega⟩, Nat.le_add_right _ _, fun a ha => hexecuted.outside a (by omega)⟩

/-- Whatever the sequences are, they are executed inside the destination, as far as they are. -/
theorem Region.executeAll (w : WordSize) (h : Region b out)
    (hseqs : ∀ seq ∈ seqs, 0 < seq.offset ∧ 0 < seq.matchLength) :
    Contained b out (Onward b out) (executeAll w b seqs out) := by
  induction seqs generalizing out with
  | nil => exact ⟨h, .refl b out⟩
  | cons seq seqs ih =>
      obtain ⟨hoffset, hmatch⟩ := hseqs seq List.mem_cons_self
      have hone := h.executeOne w hoffset hmatch
      rw [Sequences.executeAll]
      cases hrun : Sequences.executeOne w b out seq with
      | error refusal =>
          rw [hrun] at hone
          exact hone
      | ok mid =>
          rw [hrun] at hone
          obtain ⟨hregion, hfirst⟩ := hone
          exact (ih hregion fun seq hseq => hseqs seq (List.mem_cons_of_mem _ hseq)).after hfirst
            fun _ hlast => ⟨hlast.1, hfirst.trans hlast.2⟩

/-- The plain decoder executes whatever is decoded inside the destination. -/
theorem Region.regenSequences {rep : Repcodes} {seqStart : List Byte} (h : Region b out)
    (hrep : rep.Valid) (hof : Inside t.oft FullOffsetCell) (hml : Inside t.mlt LengthCell) :
    Contained b out (fun r => Onward b out r.2)
      (regenSequences w t longOffsets b rep seqStart nbSeq out) := by
  unfold Sequences.regenSequences
  split_ifs with hnone
  · cases hinit : initSeqState w t rep seqStart with
    | error code => exact fun _ _ => rfl
    | ok st =>
        have hall := h.executeAll w fun seq =>
          @SeqState.Sound.decodeAll w t longOffsets st (sound_initSeqState hrep hinit)
            hof hml nbSeq seq
        simp only [decompressLoop_eq]
        cases hrun : Sequences.executeAll w b (decodeAll w t longOffsets nbSeq st).1 out with
        | error refusal =>
            rw [hrun] at hall
            exact hall
        | ok last =>
            rw [hrun] at hall
            simp only
            split_ifs with hend
            · exact hall
            · exact hall.2.outside
  · exact ⟨h, .refl b out⟩

/-- The decoder that looks ahead executes whatever is decoded inside the destination. -/
theorem Region.regenSequencesLong {rep : Repcodes} {seqStart : List Byte} (h : Region b out)
    (hrep : rep.Valid) (hof : Inside t.oft FullOffsetCell) (hml : Inside t.mlt LengthCell) :
    Contained b out (fun r => Onward b out r.2)
      (regenSequencesLong w t longOffsets b rep seqStart nbSeq out) := by
  obtain ⟨rest, hrest⟩ := Nat.exists_eq_add_of_le (Nat.min_le_left nbSeq storedSeqs)
  have hleft : nbSeq - min nbSeq storedSeqs = rest := by omega
  unfold Sequences.regenSequencesLong
  simp only [hleft]
  split_ifs with hnone
  · cases hinit : initSeqState w t rep seqStart with
    | error code => exact fun _ _ => rfl
    | ok st =>
        obtain ⟨st', sequences, sequences', hahead, hloop, hfinish⟩ := executeAll_loops w t
          longOffsets b (Nat.min_le_right nbSeq storedSeqs)
          (show rest ≠ 0 → min nbSeq storedSeqs = storedSeqs by omega) st
        rw [← hrest] at hahead hloop hfinish
        have hseqs := fun seq =>
          @SeqState.Sound.decodeAll w t longOffsets st (sound_initSeqState hrep hinit)
            hof hml nbSeq seq
        have hmost :=
          h.executeAll w fun seq hseq => hseqs seq (List.mem_of_mem_take (i := rest) hseq)
        simp only [hahead, hloop]
        cases hrun :
          Sequences.executeAll w b ((decodeAll w t longOffsets nbSeq st).1.take rest) out with
        | error refusal =>
            rw [hrun] at hmost
            exact hmost
        | ok mid =>
            rw [hrun] at hmost
            obtain ⟨hregion, hfirst⟩ := hmost
            simp only [hfinish]
            split_ifs with hend
            · have hlast := (hregion.executeAll w fun seq hseq =>
                hseqs seq (List.mem_of_mem_drop (i := rest) hseq)).after hfirst
                  fun out' hlast => (⟨hlast.1, hfirst.trans hlast.2⟩ : Onward b out out')
              cases hqueue : Sequences.executeAll w b
                  ((decodeAll w t longOffsets nbSeq st).1.drop rest) mid with
              | error refusal =>
                  rw [hqueue] at hlast
                  exact hlast
              | ok last =>
                  rw [hqueue] at hlast
                  exact hlast
            · exact hfirst.outside
  · exact ⟨h, .refl b out⟩

/-- The last literals are copied inside the destination. -/
theorem Region.copyLastLiterals (h : Region b out) :
    Contained b out (fun out' => out'.op ≤ b.oend ∧ Confined b out out')
      (copyLastLiterals b out) := by
  have hop := h.op_le
  unfold Sequences.copyLastLiterals
  simp only
  split_ifs with hlarge hbytes
  · exact fun _ _ => rfl
  · exact ⟨by simp only; omega, Nat.le_add_right _ _, fun a ha => copyBlock_of_outside (by omega)⟩
  · exact ⟨hop, .refl b out⟩

theorem Contained.withLastLiterals {result : Except Refusal (Repcodes × Output)}
    (h : Contained b out (fun r => Onward b out r.2) result) :
    Contained b out (fun r => r.2.op ≤ b.oend ∧ Confined b out r.2)
      (withLastLiterals b result) := by
  cases result with
  | error refusal => exact h
  | ok regenerated =>
      obtain ⟨rep, mid⟩ := regenerated
      obtain ⟨hregion, hfirst⟩ := h
      have hlast := hregion.copyLastLiterals.after hfirst fun out' hlast =>
        (⟨hlast.1, hfirst.trans hlast.2⟩ : out'.op ≤ b.oend ∧ Confined b out out')
      rw [Sequences.withLastLiterals]
      cases hrun : Sequences.copyLastLiterals b mid with
      | error refusal =>
          rw [hrun] at hlast
          exact hlast
      | ok last =>
          rw [hrun] at hlast
          exact hlast

/-- Whatever the bits say and whichever decoder is chosen, what is written is written inside the
destination. -/
theorem Region.decompressSequences {rep : Repcodes} {seqStart : List Byte}
    {dstCapacity sizeMax : ℕ} {ddictIsCold : Bool} (h : Region b out) (hrep : rep.Valid)
    (hof : Inside t.oft FullOffsetCell) (hml : Inside t.mlt LengthCell) :
    Contained b out (fun r => r.2.op ≤ b.oend ∧ Confined b out r.2)
      (decompressSequences w t b dstCapacity sizeMax ddictIsCold rep seqStart nbSeq out) := by
  unfold Sequences.decompressSequences
  simp only
  split_ifs with hprefetch
  · exact (h.regenSequencesLong hrep hof hml).withLastLiterals
  · exact (h.regenSequences hrep hof hml).withLastLiterals

/-- Without sequences the tables are not read. -/
theorem Region.decompressSequences_none {rep : Repcodes} {seqStart : List Byte}
    {dstCapacity sizeMax : ℕ} {ddictIsCold : Bool} (h : Region b out) :
    Contained b out (fun r => r.2.op ≤ b.oend ∧ Confined b out r.2)
      (Sequences.decompressSequences w t b dstCapacity sizeMax ddictIsCold rep seqStart 0 out) := by
  have hnone {r : Except Refusal (Repcodes × Output)} (hr : r = .ok (rep, out)) :
      Contained b out (fun r => r.2.op ≤ b.oend ∧ Confined b out r.2)
        (Sequences.withLastLiterals b r) := by
    subst hr
    exact Contained.withLastLiterals ⟨h, .refl b out⟩
  unfold Sequences.decompressSequences
  simp only
  split_ifs with hprefetch
  · exact hnone rfl
  · exact hnone rfl

/-- What is known of a block with any bytes. -/
structure AcceptedBlock (b : ExecBounds) (out : Output) (d : SeqDTables) (flagRepeatTable : Bool)
    (out' : Output) : Prop where
  op_ge : out.op ≤ out'.op
  op_le : out'.op ≤ b.oend
  outside : ∀ a, a < out.op ∨ b.oend ≤ a → out'.mem a = out.mem a
  /-- The tables that the next block may repeat. -/
  tables : flagRepeatTable = true → d.OfSources

/-- Whatever the bytes of a section are, nothing is written outside of the destination, whether
the block is accepted or refused, and the tables that the next block may repeat are ones that
an encoder can have. -/
theorem decompressBlock_confined (w : WordSize) {prevTables : SeqDTables} {flagRepeatTable : Bool}
    {rep : Repcodes} (hprev : flagRepeatTable = true → prevTables.OfSources) (hrep : rep.Valid)
    (h : Region b out) (dstCapacity sizeMax : ℕ) (ddictIsCold : Bool) (src : List Byte) :
    Contained b out (fun r => AcceptedBlock b out r.1 r.2.1 r.2.2.2)
      (decompressBlock w prevTables flagRepeatTable b dstCapacity sizeMax ddictIsCold rep src
        out) := by
  unfold decompressBlock
  cases hheaders : decodeSeqHeaders prevTables flagRepeatTable src with
  | error code => exact fun _ _ => rfl
  | ok headers =>
      obtain ⟨nbSeq, d, bits⟩ := headers
      obtain ⟨-, -, hsame, hsources⟩ := decodeSeqHeaders_sound hprev hheaders
      simp only
      split_ifs with hdst
      · exact fun _ _ => rfl
      have hrun : Contained b out (fun r => r.2.op ≤ b.oend ∧ Confined b out r.2)
          (Sequences.decompressSequences w d b dstCapacity sizeMax ddictIsCold rep bits
            nbSeq out) := by
        by_cases hnone : nbSeq = 0
        · subst hnone
          exact h.decompressSequences_none
        · obtain ⟨-, ⟨off, hoff, hoffTable⟩, ml, hml, hmlTable⟩ := hsources hnone
          refine h.decompressSequences hrep ?_ ?_
          · rw [hoffTable]
            exact inside_offset hoff
          · rw [hmlTable]
            exact inside_matchLength hml
      cases hresult : Sequences.decompressSequences w d b dstCapacity sizeMax ddictIsCold rep bits
          nbSeq out with
      | error refusal =>
          rw [hresult] at hrun
          exact hrun
      | ok result =>
          rw [hresult] at hrun
          obtain ⟨hend, hconfined⟩ := hrun
          refine ⟨hconfined.op_ge, hend, hconfined.outside, fun hflag => ?_⟩
          simp only [Bool.or_eq_true, decide_eq_true_eq] at hflag
          by_cases hnone : nbSeq = 0
          · rw [hsame hnone]
            exact hprev (hflag.resolve_right (not_not_intro hnone))
          · exact hsources hnone

/-- Three sequences in the first block of a frame, with a table of one code for each kind. -/
theorem decompressBlock_confined_rle :
    ∃ r, decompressBlock .bits64 ⟨⟨0, []⟩, ⟨0, []⟩, ⟨0, []⟩⟩ false ⟨121, 9, 100, 100, 0⟩ 21
        blockSizeMax true ⟨1, 4, 8⟩ [3, 84, 3, 2, 1, 64] ⟨fun _ => 0, 100, 0⟩ = .ok r ∧
      AcceptedBlock ⟨121, 9, 100, 100, 0⟩ ⟨fun _ => 0, 100, 0⟩ r.1 r.2.1 r.2.2.2 := by
  have hrun : ∃ r, decompressBlock .bits64 ⟨⟨0, []⟩, ⟨0, []⟩, ⟨0, []⟩⟩ false
    ⟨121, 9, 100, 100, 0⟩ 21
      blockSizeMax true ⟨1, 4, 8⟩ [3, 84, 3, 2, 1, 64] ⟨fun _ => 0, 100, 0⟩ = .ok r := ⟨_, rfl⟩
  obtain ⟨r, hrun⟩ := hrun
  have hcontained := @decompressBlock_confined ⟨121, 9, 100, 100, 0⟩ ⟨fun _ => 0, 100, 0⟩ .bits64
    ⟨⟨0, []⟩, ⟨0, []⟩, ⟨0, []⟩⟩ false ⟨1, 4, 8⟩ (fun hnot => by cases hnot)
    ⟨by decide, by decide, by decide⟩
    ⟨by decide, by decide, by decide, by decide, Or.inl (by decide), by decide, Or.inl (by decide)⟩
    21 blockSizeMax true [3, 84, 3, 2, 1, 64]
  rw [hrun] at hcontained
  exact ⟨r, hrun, hcontained⟩

end Executing

end ZstdJni.Sequences
