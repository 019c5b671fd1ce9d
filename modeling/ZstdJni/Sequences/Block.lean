/-
# Regenerating a block

The decoder of a block decodes a sequence and executes it, one after another, and in the end
copies the literals that are left.  That is the same as decoding them all and then executing
them all.

If the sequences are a parse of a text, with its literals beside them, then what is executed
writes down the text: at every sequence the history that is in reach is that of the text,
whether it lies in front of the output or in a dictionary elsewhere.
-/

import ZstdJni.Sequences.Execute
import ZstdJni.Sequences.Parse
import ZstdJni.Sequences.Section

namespace ZstdJni.Sequences

open ZstdJni.Foundation ZstdJni.Native ZstdJni.Entropy

/-- The memory, and the places of the next byte of the output and of the next literal. -/
structure Output where
  mem : Memory
  op : ℕ
  litPtr : ℕ

section Model

variable (w : WordSize)

/-- `ZSTD_maxShortOffset`. -/
def maxShortOffset : ℕ :=
  match w with
  | .bits32 => 2 ^ (streamAccumulatorMin .bits32 + 1) - 1 - 3
  | .bits64 => 2 ^ 64 - 1

/-- `maxNbAdditionalBits` of `ZSTD_getOffsetInfo`. -/
def maxNbAdditionalBits (offTable : DTable) (nbSeq : ℕ) : ℕ :=
  if nbSeq ≠ 0 then
    (List.range (2 ^ offTable.tableLog)).foldl
      (fun most u => max most (offTable.cell u).nbAdditionalBits) 0
  else 0

/-- `isLongOffset` of `ZSTD_decompressBlock_internal`. -/
def isLongOffset (offTable : DTable) (nbSeq totalHistorySize : ℕ) : Bool :=
  decide (w = .bits32) && decide (maxShortOffset w < totalHistorySize) &&
    !decide (maxNbAdditionalBits offTable nbSeq ≤ streamAccumulatorMin w)

variable (t : SeqDTables) (longOffsets : Bool) (b : ExecBounds)

/-- A sequence is executed, and the pointers move on. -/
def executeOne (out : Output) (seq : Seq) : Except Refusal Output :=
  match execSequence w b out.mem out.op out.litPtr seq with
  | .error refusal => .error refusal
  | .ok mem =>
    .ok {
      mem := mem
      op := out.op + (seq.litLength + seq.matchLength)
      litPtr := out.litPtr + seq.litLength }

/-- The loop of `ZSTD_decompressSequences_body`. -/
def decompressLoop : ℕ → SeqState → Output → Except Refusal (SeqState × Output)
  | 0, st, out => .ok (st, out)
  | nbSeq + 1, st, out =>
    let seq := decodeSequence w t longOffsets (nbSeq == 0) st
    match executeOne w b out seq.1 with
    | .error refusal => .error refusal
    | .ok out => decompressLoop nbSeq seq.2 out

/-- The sequences in `ZSTD_decompressSequences_body`. -/
def regenSequences (rep : Repcodes) (seqStart : List Byte) (nbSeq : ℕ) (out : Output) :
    Except Refusal (Repcodes × Output) :=
  if nbSeq ≠ 0 then
    match initSeqState w t rep seqStart with
    | .error code => .error ⟨code, out.mem⟩
    | .ok st =>
      match decompressLoop w t longOffsets b nbSeq st out with
      | .error refusal => .error refusal
      | .ok (st, out) =>
        if endOfDStream w st.dstream then
          .ok (⟨st.prevOffset.rep0 % 2 ^ 32, st.prevOffset.rep1 % 2 ^ 32,
            st.prevOffset.rep2 % 2 ^ 32⟩, out)
        else .error ⟨.corruptionDetected, out.mem⟩
  else .ok (rep, out)

/-- The last literals in `ZSTD_decompressSequences_body`. -/
def copyLastLiterals (out : Output) : Except Refusal Output :=
  let lastLLSize := b.litLimit - out.litPtr
  if b.oend - out.op < lastLLSize then .error ⟨.dstSizeTooSmall, out.mem⟩
  else if out.op ≠ 0 then
    .ok
      { out with
        mem := copyBlock out.mem out.op out.litPtr lastLLSize
        op := out.op + lastLLSize }
  else .ok out

/-- The last literals behind the sequences, if these are accepted. -/
def withLastLiterals : Except Refusal (Repcodes × Output) → Except Refusal (Repcodes × Output)
  | .error refusal => .error refusal
  | .ok (rep, out) =>
    match copyLastLiterals b out with
    | .error refusal => .error refusal
    | .ok out => .ok (rep, out)

/-- `ZSTD_decompressSequences_body`, with the reps for the next block. -/
def decompressSequencesBody (rep : Repcodes) (seqStart : List Byte) (nbSeq : ℕ) (out : Output) :
    Except Refusal (Repcodes × Output) :=
  withLastLiterals b (regenSequences w t longOffsets b rep seqStart nbSeq out)

/-- Some sequences are executed. -/
def executeAll : List Seq → Output → Except Refusal Output
  | [], out => .ok out
  | seq :: rest, out =>
    match executeOne w b out seq with
    | .error refusal => .error refusal
    | .ok out => executeAll rest out

end Model

theorem executeAll_append (w : WordSize) (b : ExecBounds) (seqs seqs' : List Seq) (out : Output) :
    executeAll w b (seqs ++ seqs') out =
      match executeAll w b seqs out with
      | .error refusal => .error refusal
      | .ok out => executeAll w b seqs' out := by
  induction seqs generalizing out with
  | nil => rfl
  | cons seq seqs ih =>
      rw [List.cons_append, executeAll, executeAll]
      cases executeOne w b out seq with
      | error refusal => rfl
      | ok out => exact ih out

/-- The loop executes what is decoded. -/
theorem decompressLoop_eq (w : WordSize) (t : SeqDTables) (longOffsets : Bool) (b : ExecBounds)
    (nbSeq : ℕ) (st : SeqState) (out : Output) :
    decompressLoop w t longOffsets b nbSeq st out =
      match executeAll w b (decodeAll w t longOffsets nbSeq st).1 out with
      | .error refusal => .error refusal
      | .ok out => .ok ((decodeAll w t longOffsets nbSeq st).2, out) := by
  induction nbSeq generalizing st out with
  | zero => rfl
  | succ nbSeq ih =>
      rw [decompressLoop, decodeAll]
      simp only [executeAll]
      cases executeOne w b out (decodeSequence w t longOffsets (nbSeq == 0) st).1 with
      | error refusal => rfl
      | ok out => exact ih _ out

/-- Where a block of some bytes is written, with the literals and the part of the dictionary
that is in the window out of its way. -/
structure BlockLayout (b : ExecBounds) (ostart litPtr window n : ℕ) : Prop where
  ostart_pos : 0 < ostart
  virtualStart_le : b.virtualStart ≤ b.prefixStart
  prefixStart_le : b.prefixStart ≤ ostart
  fits : ostart + n ≤ b.oend
  litPtr_le : litPtr ≤ b.litLimit
  literals : b.litLimit + 32 ≤ ostart ∨ b.oend ≤ litPtr
  dict_room : b.prefixStart - b.virtualStart ≤ b.dictEnd
  dict : ∀ a, b.virtualStart ≤ a → a < b.prefixStart → ostart ≤ a + window →
    b.dictEnd - (b.prefixStart - a) < ostart ∨
      ostart + n + 32 ≤ b.dictEnd - (b.prefixStart - a)

/-- The middle of regenerating a text. -/
structure Regenerated (b : ExecBounds) (text : ℕ → Byte) (start : Output) (window : ℕ)
    (lits : List Byte) (out : Output) : Prop where
  op_ge : start.op ≤ out.op
  litPtr_ge : start.litPtr ≤ out.litPtr
  litPtr_le : out.litPtr ≤ b.litLimit
  /-- What is in reach is the text. -/
  history : ∀ a, b.virtualStart ≤ a → start.op ≤ a + window → a < out.op →
    b.history out.mem a = text a
  literals : bytesAt out.mem out.litPtr (b.litLimit - out.litPtr) = lits
  outside : ∀ a, a < start.op ∨ b.oend ≤ a → out.mem a = start.mem a

section Regenerate

variable {w : WordSize} {b : ExecBounds} {text : ℕ → Byte} {start out : Output} {window n : ℕ}
  {lits : List Byte} {seq : Seq} {seqs : List Seq}

/-- The history in front of a sequence stays as it is. -/
theorem Executed.history_eq {m m' : Memory} {op litPtr : ℕ} (h : Executed b m m' op litPtr seq)
    (hlayout : BlockLayout b start.op start.litPtr window n) (hge : start.op ≤ op)
    (hle : op + (seq.litLength + seq.matchLength) ≤ start.op + n) {a : ℕ}
    (hbegins : b.virtualStart ≤ a) (hwindow : start.op ≤ a + window) (ha : a < op) :
    b.history m' a = b.history m a := by
  unfold ExecBounds.history
  by_cases hfloor : b.prefixStart ≤ a
  · rw [if_pos hfloor, if_pos hfloor, h.outside a (Or.inl ha)]
  · rw [if_neg hfloor, if_neg hfloor]
    have hapart := hlayout.dict a hbegins (by omega) hwindow
    exact h.outside _ (by omega)

/-- The match of a sequence writes down the text, byte after byte. -/
theorem Executed.matched_eq {m m' : Memory} {op litPtr : ℕ} (h : Executed b m m' op litPtr seq)
    (hfloor : b.prefixStart ≤ op) (hge : start.op ≤ op)
    (hexplains : Explains text b.virtualStart window op seq)
    (hfront : ∀ a, b.virtualStart ≤ a → start.op ≤ a + window → a < op + seq.litLength →
      b.history m' a = text a) {i : ℕ} (hi : i < seq.matchLength) :
    m' (op + seq.litLength + i) = text (op + seq.litLength + i) := by
  induction i using Nat.strong_induction_on with
  | _ i ih =>
      have hpos := hexplains.offset_pos
      have hle := hexplains.offset_le
      have hbegins := hexplains.begins_le
      rw [h.matched i hi, hexplains.matched i hi]
      by_cases hback : i < seq.offset
      · exact hfront _ (by omega) (by omega) (by omega)
      · have hplace : op + seq.litLength + i - seq.offset =
            op + seq.litLength + (i - seq.offset) := by omega
        rw [hplace, ExecBounds.history, if_pos (by omega)]
        exact ih (i - seq.offset) (by omega) (by omega)

/-- The sequence of a parse can be executed, and what is in reach stays the text. -/
theorem Regenerated.executeOne (w : WordSize) {rest : List Byte}
    (h : Regenerated b text start window (bytesAt text out.op seq.litLength ++ rest) out)
    (hlayout : BlockLayout b start.op start.litPtr window n)
    (hexplains : Explains text b.virtualStart window out.op seq)
    (hfits : out.op + (seq.litLength + seq.matchLength) ≤ start.op + n) :
    ∃ mem, executeOne w b out seq = .ok
        ⟨mem, out.op + (seq.litLength + seq.matchLength), out.litPtr + seq.litLength⟩ ∧
      Regenerated b text start window rest
        ⟨mem, out.op + (seq.litLength + seq.matchLength), out.litPtr + seq.litLength⟩ := by
  have hfloor := hlayout.prefixStart_le
  have hend := hlayout.fits
  have hliterals := hlayout.literals
  have hop := h.op_ge
  have hptr := h.litPtr_ge
  have hptrLe := h.litPtr_le
  have hoffset := hexplains.offset_le
  have hlength := congrArg List.length h.literals
  rw [length_bytesAt, List.length_append, length_bytesAt] at hlength
  have hstep : Layout b out.op out.litPtr seq :=
    ⟨hexplains.offset_pos, hexplains.matchLength_pos, hlayout.virtualStart_le, by omega, by omega,
      hptrLe, by omega, hlayout.dict_room, fun a hbegins ha hfirst _ => by
        have hapart := hlayout.dict a hbegins ha (by omega)
        omega⟩
  have hbegins := hexplains.begins_le
  rcases execSequence_spec w out.mem hstep with ⟨hlarge, -⟩ | ⟨-, hbad, -⟩ |
    ⟨-, -, -, m', hok, hexec⟩
  · omega
  · omega
  · have hsplit := h.literals
    have hrest : b.litLimit - out.litPtr =
        seq.litLength + (b.litLimit - (out.litPtr + seq.litLength)) := by omega
    rw [hrest, bytesAt_add] at hsplit
    obtain ⟨hnow, hlater⟩ := List.append_inj hsplit (by simp)
    have hfront : ∀ a, b.virtualStart ≤ a → start.op ≤ a + window → a < out.op + seq.litLength →
        b.history m' a = text a := by
      intro a hvirtualLe hwindow ha
      by_cases hold : a < out.op
      · rw [hexec.history_eq hlayout hop hfits hvirtualLe hwindow hold]
        exact h.history a hvirtualLe hwindow hold
      · obtain ⟨i, rfl⟩ := Nat.exists_eq_add_of_le (Nat.le_of_not_lt hold)
        rw [ExecBounds.history, if_pos (by omega), hexec.literals i (by omega)]
        exact bytesAt_eq_iff.mp hnow i (by omega)
    refine ⟨m', by rw [Sequences.executeOne, hok], ?_, ?_, ?_, ?_, ?_, ?_⟩
    · exact Nat.le_trans hop (Nat.le_add_right _ _)
    · exact Nat.le_trans hptr (Nat.le_add_right _ _)
    · simp only
      omega
    · intro a hvirtualLe hwindow ha
      simp only at ha ⊢
      by_cases hlits : a < out.op + seq.litLength
      · exact hfront a hvirtualLe hwindow hlits
      · obtain ⟨i, rfl⟩ := Nat.exists_eq_add_of_le (Nat.le_of_not_lt hlits)
        rw [ExecBounds.history, if_pos (by omega)]
        exact hexec.matched_eq (by omega) hop hexplains hfront (by omega)
    · rw [← hlater]
      refine bytesAt_congr fun i hi => hexec.outside (out.litPtr + seq.litLength + i) ?_
      simp only at hi
      omega
    · intro a ha
      simp only
      rw [hexec.outside a (by omega), h.outside a ha]

/-- All the sequences of a parse can be executed. -/
theorem Regenerated.executeAll (w : WordSize) {rest : List Byte}
    (h : Regenerated b text start window (literalsOf text out.op seqs ++ rest) out)
    (hlayout : BlockLayout b start.op start.litPtr window n)
    (hparses : Parses text b.virtualStart window out.op seqs)
    (hfits : out.op + span seqs ≤ start.op + n) :
    ∃ out', executeAll w b seqs out = .ok out' ∧ out'.op = out.op + span seqs ∧
      Regenerated b text start window rest out' := by
  induction seqs generalizing out with
  | nil => exact ⟨out, rfl, rfl, h⟩
  | cons seq seqs ih =>
      rw [span_cons] at hfits
      rw [literalsOf, List.append_assoc] at h
      obtain ⟨mem, hone, hnext⟩ := h.executeOne w hlayout hparses.1 (by omega)
      obtain ⟨out', hall, hop, hdone⟩ := @ih ⟨mem, _, _⟩ hnext hparses.2 (by simp only; omega)
      refine ⟨out', ?_, ?_, hdone⟩
      · rw [Sequences.executeAll, hone]
        exact hall
      · rw [hop, span_cons]
        simp only
        omega

/-- A block can be regenerated: its sequences are a parse, the literals are beside them, and
what they refer to is in place. -/
structure Prepared (b : ExecBounds) (text : ℕ → Byte) (window n : ℕ) (seqs : List Seq)
    (out : Output) : Prop where
  layout : BlockLayout b out.op out.litPtr window n
  history : ∀ a, b.virtualStart ≤ a → out.op ≤ a + window → a < out.op →
    b.history out.mem a = text a
  literals : bytesAt out.mem out.litPtr (b.litLimit - out.litPtr) = blockLiterals text out.op n seqs
  parses : Parses text b.virtualStart window out.op seqs
  span_le : span seqs ≤ n

/-- A block is regenerated, and nothing else is written to. -/
structure Writes (b : ExecBounds) (text : ℕ → Byte) (n : ℕ) (out out' : Output) : Prop where
  op_eq : out'.op = out.op + n
  written : bytesAt out'.mem out.op n = bytesAt text out.op n
  outside : ∀ a, a < out.op ∨ b.oend ≤ a → out'.mem a = out.mem a

theorem Prepared.regenerated (h : Prepared b text window n seqs out) :
    Regenerated b text out window (blockLiterals text out.op n seqs) out :=
  ⟨Nat.le_refl _, Nat.le_refl _, h.layout.litPtr_le, h.history, h.literals, fun _ _ => rfl⟩

/-- Behind the sequences the rest of the text is copied. -/
theorem Prepared.copyLastLiterals (h : Prepared b text window n seqs out) {out' : Output}
    (hop : out'.op = out.op + span seqs)
    (hdone : Regenerated b text out window (bytesAt text out'.op (n - span seqs)) out') :
    ∃ out'', copyLastLiterals b out' = .ok out'' ∧ Writes b text n out out'' := by
  have hpos := h.layout.ostart_pos
  have hfloor := h.layout.prefixStart_le
  have hvirtual := h.layout.virtualStart_le
  have hend := h.layout.fits
  have hspan := h.span_le
  have hlength := congrArg List.length hdone.literals
  rw [length_bytesAt, length_bytesAt] at hlength
  have hliterals := hdone.literals
  rw [hlength, bytesAt_eq_iff] at hliterals
  unfold Sequences.copyLastLiterals
  rw [hlength, if_neg (by omega), if_pos (by omega)]
  refine ⟨_, rfl, by simp only; omega, bytesAt_congr fun i hi => ?_, fun a ha => ?_⟩
  · simp only
    by_cases hfront : out.op + i < out'.op
    · have hold := hdone.history (out.op + i) (by omega) (by omega) hfront
      rw [ExecBounds.history, if_pos (by omega)] at hold
      rw [copyBlock_of_outside (by omega), hold]
    · obtain ⟨k, hk⟩ := Nat.exists_eq_add_of_le (Nat.le_of_not_lt hfront)
      rw [hk, copyBlock_of_inside (by omega)]
      exact hliterals k (by omega)
  · simp only
    rw [copyBlock_of_outside (by omega), hdone.outside a ha]

/-- A section that is decoded to a parse of a block regenerates it. -/
theorem Prepared.decompress {t : SeqDTables} {longOffsets : Bool} {rep rep' : Repcodes}
    {seqStart : List Byte} (h : Prepared b text window n seqs out) (hrep : rep'.Below (2 ^ 32))
    (hdecodes : seqs ≠ [] → ∃ st st', initSeqState w t rep seqStart = .ok st ∧
      decodeAll w t longOffsets seqs.length st = (seqs, st') ∧
      endOfDStream w st'.dstream = true ∧ st'.prevOffset = rep')
    (hempty : seqs = [] → rep' = rep) :
    ∃ out', decompressSequencesBody w t longOffsets b rep seqStart seqs.length out =
      .ok (rep', out') ∧ Writes b text n out out' := by
  have hsmall :
      (⟨rep'.rep0 % 2 ^ 32, rep'.rep1 % 2 ^ 32, rep'.rep2 % 2 ^ 32⟩ : Repcodes) = rep' := by
    rw [Nat.mod_eq_of_lt hrep.rep0_lt, Nat.mod_eq_of_lt hrep.rep1_lt, Nat.mod_eq_of_lt hrep.rep2_lt]
  obtain ⟨out₁, hall, hop, hdone⟩ := h.regenerated.executeAll w h.layout h.parses
    (Nat.add_le_add_left h.span_le _)
  rw [← hop] at hdone
  obtain ⟨out₂, hlast, hwrites⟩ := h.copyLastLiterals hop hdone
  refine ⟨out₂, ?_, hwrites⟩
  have hregen : regenSequences w t longOffsets b rep seqStart seqs.length out =
    .ok (rep', out₁) := by
    unfold regenSequences
    by_cases hnone : seqs = []
    · subst hnone
      rw [hempty rfl, List.length_nil, if_neg (by decide)]
      exact congrArg (fun out => Except.ok (rep, out)) (Except.ok.inj hall)
    · obtain ⟨st, st', hinit, hdecode, hend, hprev⟩ := hdecodes hnone
      rw [if_pos (List.length_pos_iff.mpr hnone).ne', hinit]
      simp only [decompressLoop_eq, hdecode, hall, hend, if_true, hprev, hsmall]
  rw [decompressSequencesBody, hregen, withLastLiterals, hlast]

end Regenerate

theorem le_foldl_max (f : ℕ → ℕ) (us : List ℕ) (most : ℕ) :
    most ≤ us.foldl (fun most u => max most (f u)) most ∧
      ∀ u ∈ us, f u ≤ us.foldl (fun most u => max most (f u)) most := by
  induction us generalizing most with
  | nil => exact ⟨Nat.le_refl _, fun u hu => by cases hu⟩
  | cons v us ih =>
      obtain ⟨hmost, hall⟩ := ih (max most (f v))
      rw [List.foldl_cons]
      refine ⟨(Nat.le_max_left _ _).trans hmost, fun u hu => ?_⟩
      rcases List.mem_cons.mp hu with rfl | hu
      · exact (Nat.le_max_right _ _).trans hmost
      · exact hall u hu

/-- Offsets that reach back no further than the history are read right, whether the decoder
expects long ones or not. -/
theorem reads_isLongOffset {w : WordSize} {t : CTable} {d : DTable} {IsOF : ℕ → Prop}
    (p : Paired t d ofBase ofBits IsOF) {offBase total nbSeq : ℕ} (hcode : IsOF (highbit offBase))
    (hnb : nbSeq ≠ 0) (hpos : offBase ≠ 0) (hlt : offBase < 2 ^ 32)
    (hlt32 : w = .bits32 → offBase < 2 ^ 31) (hle : offBase ≤ total + 3) :
    Reads w (isLongOffset w d nbSeq total) (highbit offBase) := by
  have hofc := highbit_lt hpos hlt
  refine ⟨by omega, fun hw => ?_, fun hw => ?_⟩
  · have hless := highbit_lt hpos (hlt32 hw)
    omega
  · subst hw
    unfold isLongOffset
    by_cases hshort : total ≤ maxShortOffset .bits32
    · have hmost : maxShortOffset .bits32 = 2 ^ 26 - 4 := rfl
      have hless := highbit_lt hpos (n := 26) (by omega)
      exact Or.inr (by omega)
    · -- the offset is in the table, so it counts for the most bits
      have hcell := (p.first_cell hcode).2
      rw [ofBits_getD (by omega)] at hcell
      have hmem : initCState2 t (highbit offBase) % 2 ^ t.tableLog ∈
          List.range (2 ^ d.tableLog) := by
        rw [List.mem_range, p.tableLog_eq]
        exact Nat.mod_lt _ (Nat.two_pow_pos _)
      have hmost := (le_foldl_max (fun u => (d.cell u).nbAdditionalBits) _ 0).2 _ hmem
      simp only [hcell] at hmost
      have hbits : streamAccumulatorMin .bits32 = 25 := rfl
      rw [hbits, maxNbAdditionalBits, if_pos hnb]
      by_cases hfew : (List.range (2 ^ d.tableLog)).foldl
          (fun most u => max most (d.cell u).nbAdditionalBits) 0 ≤ 25
      · exact Or.inr (by omega)
      · left
        simp only [hfew, decide_false, Bool.not_false, Bool.and_true, decide_true, Bool.true_and,
          decide_eq_true_eq]
        omega

end ZstdJni.Sequences
