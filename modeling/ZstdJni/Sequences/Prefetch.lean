/-
# The decoder that looks ahead

Where a dictionary is cold or many offsets are long, the decoder of a block fetches what the
matches refer to in advance.  It decodes sequences ahead of those that it executes and keeps
the ones in between in a ring of eight.  The check for the end of the bits comes in front of
the last eight, so that it may find another error first than the plain decoder.  What it
accepts it regenerates alike.
-/

import ZstdJni.Foundation.RingBuffer
import ZstdJni.Sequences.Block

namespace ZstdJni.Sequences

open ZstdJni.Foundation ZstdJni.Native ZstdJni.Entropy

section Model

variable (w : WordSize) (t : SeqDTables) (longOffsets : Bool) (b : ExecBounds)

/-- `STORED_SEQS`, and `ADVANCED_SEQS`. -/
def storedSeqs : ℕ := 8

/-- `STORED_SEQS_MASK`. -/
def storedSeqsMask : ℕ := storedSeqs - 1

/-- The sequence that is stored for a number. -/
def storedSeq (sequences : List Seq) (seqNb : ℕ) : Seq :=
  sequences.getD (seqNb &&& storedSeqsMask) ⟨0, 0, 0⟩

/-- The loop of `ZSTD_decompressSequencesLong_body` that decodes in advance. -/
def prepareInAdvance (nbSeq : ℕ) : ℕ → ℕ → SeqState → List Seq → SeqState × List Seq
  | 0, _, st, sequences => (st, sequences)
  | left + 1, seqNb, st, sequences =>
    let seq := decodeSequence w t longOffsets (seqNb == nbSeq - 1) st
    prepareInAdvance nbSeq left (seqNb + 1) seq.2 (sequences.set seqNb seq.1)

/-- The loop of `ZSTD_decompressSequencesLong_body` that decodes a sequence and executes the one
that was decoded eight sequences before. -/
def decodeAndExecute (nbSeq : ℕ) : ℕ → ℕ → SeqState → List Seq → Output →
    Except Refusal (SeqState × List Seq × Output)
  | 0, _, st, sequences, out => .ok (st, sequences, out)
  | left + 1, seqNb, st, sequences, out =>
    let seq := decodeSequence w t longOffsets (seqNb == nbSeq - 1) st
    match executeOne w b out (storedSeq sequences (seqNb - storedSeqs)) with
    | .error refusal => .error refusal
    | .ok out =>
      decodeAndExecute nbSeq left (seqNb + 1) seq.2
        (sequences.set (seqNb &&& storedSeqsMask) seq.1) out

/-- The loop of `ZSTD_decompressSequencesLong_body` that finishes the queue. -/
def finishQueue (sequences : List Seq) : ℕ → ℕ → Output → Except Refusal Output
  | 0, _, out => .ok out
  | left + 1, seqNb, out =>
    match executeOne w b out (storedSeq sequences seqNb) with
    | .error refusal => .error refusal
    | .ok out => finishQueue sequences left (seqNb + 1) out

/-- The sequences in `ZSTD_decompressSequencesLong_body`. -/
def regenSequencesLong (rep : Repcodes) (seqStart : List Byte) (nbSeq : ℕ) (out : Output) :
    Except Refusal (Repcodes × Output) :=
  if nbSeq ≠ 0 then
    let seqAdvance := min nbSeq storedSeqs
    match initSeqState w t rep seqStart with
    | .error code => .error ⟨code, out.mem⟩
    | .ok st =>
      let prepared := prepareInAdvance w t longOffsets nbSeq seqAdvance 0 st
        (List.replicate storedSeqs ⟨0, 0, 0⟩)
      match decodeAndExecute w t longOffsets b nbSeq (nbSeq - seqAdvance) seqAdvance prepared.1
          prepared.2 out with
      | .error refusal => .error refusal
      | .ok (st, sequences, out) =>
        if endOfDStream w st.dstream then
          match finishQueue w b sequences seqAdvance (nbSeq - seqAdvance) out with
          | .error refusal => .error refusal
          | .ok out =>
            .ok (⟨st.prevOffset.rep0 % 2 ^ 32, st.prevOffset.rep1 % 2 ^ 32,
              st.prevOffset.rep2 % 2 ^ 32⟩, out)
        else .error ⟨.corruptionDetected, out.mem⟩
  else .ok (rep, out)

/-- `ZSTD_decompressSequencesLong_body` for literals that are not split, with the reps for the
next block. -/
def decompressSequencesLongBody (rep : Repcodes) (seqStart : List Byte) (nbSeq : ℕ)
    (out : Output) : Except Refusal (Repcodes × Output) :=
  withLastLiterals b (regenSequencesLong w t longOffsets b rep seqStart nbSeq out)

/-- `longOffsetShare` of `ZSTD_getOffsetInfo`. -/
def longOffsetShare (offTable : DTable) (nbSeq : ℕ) : ℕ :=
  if nbSeq ≠ 0 then
    ((List.range (2 ^ offTable.tableLog)).countP fun u =>
      decide (22 < (offTable.cell u).nbAdditionalBits)) <<< (8 - offTable.tableLog)
  else 0

/-- `minShare` of `ZSTD_decompressBlock_internal`. -/
def minShare : ℕ :=
  match w with
  | .bits32 => 20
  | .bits64 => 7

/-- `usePrefetchDecoder` of `ZSTD_decompressBlock_internal`. -/
def usePrefetchDecoder (offTable : DTable) (nbSeq totalHistorySize : ℕ) (ddictIsCold : Bool) :
    Bool :=
  ddictIsCold ||
    ((decide (w = .bits32 ∧ maxShortOffset w < totalHistorySize) ||
        decide (2 ^ 24 < totalHistorySize ∧ 8 < nbSeq)) &&
      decide (minShare w ≤ longOffsetShare offTable nbSeq))

/-- The sequences of `ZSTD_decompressBlock_internal`, for literals that are not split. -/
def decompressSequences (dstCapacity blockSizeMax : ℕ) (ddictIsCold : Bool) (rep : Repcodes)
    (seqStart : List Byte) (nbSeq : ℕ) (out : Output) : Except Refusal (Repcodes × Output) :=
  let totalHistorySize := out.op + min dstCapacity blockSizeMax - b.virtualStart
  let longOffsets := isLongOffset w t.oft nbSeq totalHistorySize
  if usePrefetchDecoder w t.oft nbSeq totalHistorySize ddictIsCold then
    decompressSequencesLongBody w t longOffsets b rep seqStart nbSeq out
  else decompressSequencesBody w t longOffsets b rep seqStart nbSeq out

end Model

section Stored

variable {w : WordSize} {t : SeqDTables} {longOffsets : Bool} {b : ExecBounds}
    {nbSeq seqNb left : ℕ}
  {st : SeqState} {sequences queue : List Seq}

/-- The ring of the decoder holds a queue. -/
structure Queued (sequences : List Seq) (first : ℕ) (queue : List Seq) : Prop where
  length_eq : sequences.length = storedSeqs
  rings : Rings sequences first queue

theorem and_storedSeqsMask (seqNb : ℕ) : seqNb &&& storedSeqsMask = seqNb % storedSeqs :=
  Nat.and_two_pow_sub_one_eq_mod seqNb 3

/-- The front of the queue is what is stored for its number. -/
theorem Queued.front {seq : Seq} (h : Queued sequences seqNb (seq :: queue)) :
    storedSeq sequences seqNb = seq := by
  have hcell := h.rings.front
  rw [h.length_eq] at hcell
  rw [storedSeq, and_storedSeqsMask, List.getD_eq_getElem?_getD, hcell, Option.getD_some]

theorem Queued.pop {seq : Seq} (h : Queued sequences seqNb (seq :: queue)) :
    Queued sequences (seqNb + 1) queue :=
  ⟨h.length_eq, h.rings.pop⟩

theorem Queued.push {first : ℕ} (h : Queued sequences first queue)
    (hroom : queue.length < storedSeqs)
    (hindex : seqNb % storedSeqs = (first + queue.length) % storedSeqs)
    (seq : Seq) : Queued (sequences.set (seqNb % storedSeqs) seq) first (queue ++ [seq]) := by
  have hpush := h.rings.push (h.length_eq ▸ hroom) seq
  rw [h.length_eq] at hpush
  exact ⟨by rw [List.length_set, h.length_eq], hindex ▸ hpush⟩

/-- The flag for the last sequence, counted from the front and from the back. -/
theorem isLast_eq (h : seqNb + (left + 1) = nbSeq) : (seqNb == nbSeq - 1) = (left == 0) := by
  rw [Bool.eq_iff_iff, beq_iff_eq, beq_iff_eq]
  omega

theorem length_decodeAll (w : WordSize) (t : SeqDTables) (longOffsets : Bool) (nbSeq : ℕ)
    (st : SeqState) : (decodeAll w t longOffsets nbSeq st).1.length = nbSeq := by
  induction nbSeq generalizing st with
  | zero => rfl
  | succ nbSeq ih => rw [decodeAll, List.length_cons, ih]

/-- Behind the first loop the first sequences are in the queue. -/
theorem Queued.prepareInAdvance {rest : ℕ} (h : Queued sequences 0 queue)
    (htotal : seqNb + (left + rest) = nbSeq) (hlength : queue.length = seqNb)
    (hroom : seqNb + left ≤ storedSeqs) (st : SeqState) :
    ∃ st' sequences' firsts,
      Sequences.prepareInAdvance w t longOffsets nbSeq left seqNb st sequences = (st', sequences') ∧
      firsts.length = left ∧ Queued sequences' 0 (queue ++ firsts) ∧
      decodeAll w t longOffsets (left + rest) st =
        (firsts ++ (decodeAll w t longOffsets rest st').1,
          (decodeAll w t longOffsets rest st').2) := by
  induction left generalizing seqNb st sequences queue with
  | zero =>
      refine ⟨st, sequences, [], rfl, rfl, ?_, ?_⟩
      · rwa [List.append_nil]
      · rw [Nat.zero_add, List.nil_append]
  | succ left ih =>
      have hsmall : seqNb % storedSeqs = seqNb := Nat.mod_eq_of_lt (by omega)
      have hlast : (seqNb == nbSeq - 1) = (left + rest == 0) := isLast_eq (by omega)
      have hindex : seqNb % storedSeqs = (0 + queue.length) % storedSeqs := by
        rw [Nat.zero_add, hlength]
      have hpush := h.push (by omega) hindex
        (decodeSequence w t longOffsets (left + rest == 0) st).1
      rw [hsmall] at hpush
      obtain ⟨st', sequences', firsts, hrun, hfirsts, hqueued, hall⟩ := ih hpush
        (show seqNb + 1 + (left + rest) = nbSeq by omega)
        (by rw [List.length_append, hlength, List.length_singleton]) (by omega)
        (decodeSequence w t longOffsets (left + rest == 0) st).2
      refine ⟨st', sequences', (decodeSequence w t longOffsets (left + rest == 0) st).1 :: firsts,
        ?_, ?_, ?_, ?_⟩
      · rw [Sequences.prepareInAdvance, hlast]
        exact hrun
      · rw [List.length_cons, hfirsts]
      · rwa [List.append_assoc] at hqueued
      · rw [Nat.add_right_comm, decodeAll, hall]
        rfl

/-- The second loop executes what the queue has too much. -/
theorem Queued.decodeAndExecute (h : Queued sequences (seqNb - storedSeqs) queue)
    (htotal : seqNb + left = nbSeq) (hge : storedSeqs ≤ seqNb) (hfull : queue.length = storedSeqs)
    (b : ExecBounds) (st : SeqState) :
    ∃ sequences', Queued sequences' (nbSeq - storedSeqs)
        ((queue ++ (decodeAll w t longOffsets left st).1).drop left) ∧
      ∀ out, Sequences.decodeAndExecute w t longOffsets b nbSeq left seqNb st sequences out =
        match executeAll w b ((queue ++ (decodeAll w t longOffsets left st).1).take left) out with
        | .error refusal => .error refusal
        | .ok out => .ok ((decodeAll w t longOffsets left st).2, sequences', out) := by
  induction left generalizing seqNb st sequences queue with
  | zero =>
      refine ⟨sequences, ?_, fun _ => rfl⟩
      rw [decodeAll, List.append_nil, List.drop_zero, ← htotal]
      exact h
  | succ left ih =>
      cases queue with
      | nil => exact absurd hfull (by decide)
      | cons seq queue =>
          rw [List.length_cons] at hfull
          have hlast : (seqNb == nbSeq - 1) = (left == 0) := isLast_eq htotal
          have hfirst : seqNb - storedSeqs + 1 = seqNb + 1 - storedSeqs := by omega
          have hwrap : seqNb % storedSeqs =
              (seqNb - storedSeqs + 1 + queue.length) % storedSeqs := by
            have hsame : seqNb - storedSeqs + 1 + queue.length = seqNb := by omega
            rw [hsame]
          have hpush :=
            h.pop.push (by omega) hwrap (decodeSequence w t longOffsets (left == 0) st).1
          rw [hfirst] at hpush
          obtain ⟨sequences', hqueued, hrun⟩ := ih hpush (by omega) (by omega)
            (by rw [List.length_append, List.length_singleton, hfull])
            (decodeSequence w t longOffsets (left == 0) st).2
          rw [List.append_assoc, List.singleton_append] at hqueued hrun
          rw [decodeAll, List.cons_append, List.drop_succ_cons, List.take_succ_cons]
          refine ⟨sequences', hqueued, fun out => ?_⟩
          rw [executeAll, Sequences.decodeAndExecute, hlast, h.front, and_storedSeqsMask]
          simp only
          cases executeOne w b out seq with
          | error refusal => rfl
          | ok out => exact hrun out

/-- The third loop executes the queue. -/
theorem Queued.finishQueue (h : Queued sequences seqNb queue) (b : ExecBounds) (out : Output) :
    Sequences.finishQueue w b sequences queue.length seqNb out = executeAll w b queue out := by
  induction queue generalizing seqNb out with
  | nil => rfl
  | cons seq queue ih =>
      rw [List.length_cons, Sequences.finishQueue, h.front, executeAll]
      cases executeOne w b out seq with
      | error refusal => rfl
      | ok out => exact ih h.pop out

end Stored

section Accepted

variable {w : WordSize} {t : SeqDTables} {longOffsets : Bool} {b : ExecBounds} {rep : Repcodes}
  {seqStart : List Byte} {nbSeq : ℕ} {out : Output} {r : Repcodes × Output}

/-- All sequences are decoded, all but the last ones are executed by the second loop, and these
by the third. -/
theorem executeAll_loops (w : WordSize) (t : SeqDTables) (longOffsets : Bool) (b : ExecBounds)
    {ahead rest : ℕ} (hahead : ahead ≤ storedSeqs) (hrest : rest ≠ 0 → ahead = storedSeqs)
    (st : SeqState) :
    ∃ st' sequences sequences',
      prepareInAdvance w t longOffsets (ahead + rest) ahead 0 st
        (List.replicate storedSeqs ⟨0, 0, 0⟩) = (st', sequences) ∧
      (∀ out, decodeAndExecute w t longOffsets b (ahead + rest) rest ahead st' sequences out =
        match executeAll w b ((decodeAll w t longOffsets (ahead + rest) st).1.take rest) out with
        | .error refusal => .error refusal
        | .ok out => .ok ((decodeAll w t longOffsets (ahead + rest) st).2, sequences', out)) ∧
      ∀ out, finishQueue w b sequences' ahead rest out =
        executeAll w b ((decodeAll w t longOffsets (ahead + rest) st).1.drop rest) out := by
  have hstart : Queued (List.replicate storedSeqs ⟨0, 0, 0⟩) 0 [] :=
    ⟨List.length_replicate, .empty _ 0⟩
  obtain ⟨st', sequences, firsts, hrun, hfirsts, hqueued, hall⟩ := hstart.prepareInAdvance (w := w)
    (t := t) (Nat.zero_add (ahead + rest)) rfl (by omega) st
  have hlength := length_decodeAll w t longOffsets (ahead + rest) st
  refine ⟨st', sequences, ?_⟩
  rw [hall] at hlength ⊢
  by_cases hnone : rest = 0
  · subst hnone
    refine ⟨sequences, hrun, fun out => rfl, fun out => ?_⟩
    rw [List.nil_append] at hqueued
    rw [decodeAll, List.append_nil, List.drop_zero, ← hqueued.finishQueue (w := w), hfirsts]
  · have hfull := hrest hnone
    subst hfull
    obtain ⟨sequences', hlater, hloop⟩ := @Queued.decodeAndExecute w t longOffsets
      (storedSeqs + rest) storedSeqs rest sequences firsts hqueued rfl (Nat.le_refl _) hfirsts b st'
    have hstored := (List.length_drop).trans (congrArg (· - rest) hlength)
    rw [Nat.add_sub_cancel] at hstored
    refine ⟨sequences', hrun, hloop, fun out => ?_⟩
    rw [Nat.add_sub_cancel_left] at hlater
    rw [← hlater.finishQueue, hstored]

/-- What is regenerated does not depend on looking ahead. -/
theorem regenSequencesLong_ok_iff :
    regenSequencesLong w t longOffsets b rep seqStart nbSeq out = .ok r ↔
    regenSequences w t longOffsets b rep seqStart nbSeq out = .ok r := by
  obtain ⟨rest, hrest⟩ := Nat.exists_eq_add_of_le (Nat.min_le_left nbSeq storedSeqs)
  have hleft : nbSeq - min nbSeq storedSeqs = rest := by omega
  unfold regenSequencesLong regenSequences
  by_cases hnone : nbSeq = 0
  · rw [if_neg (not_not_intro hnone), if_neg (not_not_intro hnone)]
  rw [if_pos hnone, if_pos hnone]
  simp only [hleft]
  cases initSeqState w t rep seqStart with
  | error code => exact Iff.rfl
  | ok st =>
      simp only [decompressLoop_eq]
      obtain ⟨st', sequences, sequences', hahead, hloop, hfinish⟩ :=
        executeAll_loops w t longOffsets b
        (Nat.min_le_right nbSeq storedSeqs)
        (show rest ≠ 0 → min nbSeq storedSeqs = storedSeqs by omega)
        st
      rw [← hrest] at hahead hloop hfinish
      rw [hahead]
      simp only [hloop]
      conv_rhs => rw [← List.take_append_drop rest (decodeAll w t longOffsets nbSeq st).1]
      rw [executeAll_append]
      cases executeAll w b ((decodeAll w t longOffsets nbSeq st).1.take rest) out with
      | error refusal => exact Iff.rfl
      | ok middle =>
          simp only [hfinish]
          by_cases hend : endOfDStream w (decodeAll w t longOffsets nbSeq st).2.dstream = true
          · rw [if_pos hend]
            cases executeAll w b ((decodeAll w t longOffsets nbSeq st).1.drop rest) middle with
            | error refusal => exact Iff.rfl
            | ok last =>
                simp only
                rw [if_pos hend]
          · -- the plain decoder may find another error first
            rw [if_neg hend]
            cases executeAll w b ((decodeAll w t longOffsets nbSeq st).1.drop rest) middle with
            | error refusal => exact iff_of_false (by rintro ⟨⟩) (by rintro ⟨⟩)
            | ok last =>
                simp only
                rw [if_neg hend]
                exact iff_of_false (by rintro ⟨⟩) (by rintro ⟨⟩)

/-- Whichever decoder is chosen, the block that is accepted is the one of the plain decoder. -/
theorem decompressSequences_ok_iff {dstCapacity blockSizeMax : ℕ} {ddictIsCold : Bool} :
    decompressSequences w t b dstCapacity blockSizeMax ddictIsCold rep seqStart nbSeq out = .ok r ↔
      decompressSequencesBody w t (isLongOffset w t.oft nbSeq
        (out.op + min dstCapacity blockSizeMax - b.virtualStart)) b rep seqStart nbSeq out =
          .ok r := by
  unfold decompressSequences
  simp only
  split_ifs with hprefetch
  · rw [decompressSequencesLongBody, decompressSequencesBody]
    generalize isLongOffset w t.oft nbSeq
      (out.op + min dstCapacity blockSizeMax - b.virtualStart) = longOffsets
    cases hlong : regenSequencesLong w t longOffsets b rep seqStart nbSeq out with
    | error refusal =>
        cases hplain : regenSequences w t longOffsets b rep seqStart nbSeq out with
        | error refusal => exact iff_of_false (by rintro ⟨⟩) (by rintro ⟨⟩)
        | ok regenerated =>
            rw [regenSequencesLong_ok_iff.mpr hplain] at hlong
            cases hlong
    | ok regenerated => rw [regenSequencesLong_ok_iff.mp hlong]
  · exact Iff.rfl

end Accepted

end ZstdJni.Sequences
