/-
# A block there and back

The sequences in a store are turned into codes, the codes and the bits behind them are
written by the encoder, and the decoder regenerates the block from them: it finds out
whether there may be long offsets, decodes the sequences, executes them and copies the last
literals.  If the sequences are a parse of the text, the block that comes out is the text.
-/

import ZstdJni.Sequences.Prefetch

namespace ZstdJni.Sequences

open ZstdJni.Foundation ZstdJni.Native ZstdJni.Entropy

section Meaning

variable {r : Repcodes} {xs : List (ℕ × SequenceLength)}

theorem length_resolve (r : Repcodes) (xs : List (ℕ × SequenceLength)) :
    (resolve r xs).1.length = xs.length := by
  induction xs generalizing r with
  | nil => rfl
  | cons x xs ih => rw [resolve, List.length_cons, List.length_cons, ih]

/-- A sum type is at most the offset it means and the three repeated ones. -/
theorem offBase_le_of_resolve {x : ℕ × SequenceLength} (hx : x ∈ xs) :
    ∃ s ∈ (resolve r xs).1, x.1 ≤ s.offset + 3 := by
  induction xs generalizing r with
  | nil => cases hx
  | cons y xs ih =>
      rw [resolve]
      rcases List.mem_cons.mp hx with rfl | hx
      · refine ⟨_, List.mem_cons_self, ?_⟩
        simp only [updateRep]
        split_ifs
        · simp only
          omega
        · omega
      · obtain ⟨s, hs, hle⟩ := ih hx
        exact ⟨s, List.mem_cons_of_mem _ hs, hle⟩

/-- The offsets behind valid sequences have 32 bits. -/
theorem below_resolve (h : r.Below (2 ^ 32)) (hoffsets : OffsetsValid r xs) :
    (resolve r xs).2.Below (2 ^ 32) := by
  induction xs generalizing r with
  | nil => exact h
  | cons x xs ih => exact ih (h.updateRep hoffsets.2.1) hoffsets.2.2

theorem Parses.reach {text : ℕ → Byte} {begins window op : ℕ} {seqs : List Seq}
    (h : Parses text begins window op seqs) {s : Seq} (hs : s ∈ seqs) :
    begins + s.offset ≤ op + span seqs := by
  induction seqs generalizing op with
  | nil => cases hs
  | cons s' seqs ih =>
      rw [span_cons]
      rcases List.mem_cons.mp hs with rfl | hs
      · have hbegins := h.1.begins_le
        omega
      · have hlater := ih h.2 hs
        omega

end Meaning

/-- The tables have all the codes of a block. -/
structure Covered (codes : SeqCodes) (IsLL IsOF IsML : ℕ → Prop) : Prop where
  litLength : ∀ c ∈ codes.llCode, IsLL c
  offset : ∀ c ∈ codes.ofCode, IsOF c
  matchLength : ∀ c ∈ codes.mlCode, IsML c

section Codes

variable {w : WordSize} {store : SeqStore} {i : ℕ}

theorem length_llCode (w : WordSize) (store : SeqStore) :
    (seqToCodes w store).llCode.length = store.sequences.length := by
  simp only [seqToCodes]
  split_ifs <;> simp

theorem length_mlCode (w : WordSize) (store : SeqStore) :
    (seqToCodes w store).mlCode.length = store.sequences.length := by
  simp only [seqToCodes]
  split_ifs <;> simp

theorem getD_ofCode (w : WordSize) (hi : i < store.sequences.length) :
    (seqToCodes w store).ofCode.getD i 0 = highbit (store.sequences.getD i ⟨0, 0, 0⟩).offBase :=
  getD_map_sequences store _ hi

theorem longOffsets_of_bits64 (store : SeqStore) :
    (seqToCodes .bits64 store).longOffsets = false := by
  simp [seqToCodes]

/-- Without long offsets all the codes are short. -/
theorem ofCode_lt_of_short (hw : w = .bits32) (hshort : (seqToCodes w store).longOffsets = false)
    {seq : SeqDef} (hseq : seq ∈ store.sequences) : highbit seq.offBase < 25 := by
  subst hw
  have hbits : streamAccumulatorMin .bits32 = 25 := rfl
  have hall := List.any_eq_false.mp hshort seq hseq
  rw [hbits] at hall
  simpa using hall

/-- The encoder splits the offsets rightly. -/
theorem SeqStore.WellFormed.splits (h : store.WellFormed)
    (h32 : w = .bits32 → ∀ seq ∈ store.sequences, seq.offBase < 2 ^ 31) {seq : SeqDef}
    (hseq : seq ∈ store.sequences) : Splits w (seqToCodes w store).longOffsets
      (highbit seq.offBase) := by
  have hpos := h.offBase_pos seq hseq
  have hofc := highbit_lt (by omega) (h.offBase_lt seq hseq)
  refine ⟨by omega, fun hw => ?_, fun hshort hw => ?_, fun hw => ?_⟩
  · have hless := highbit_lt (by omega) (h32 hw seq hseq)
    omega
  · have hless := ofCode_lt_of_short hw hshort hseq
    omega
  · subst hw
    exact longOffsets_of_bits64 store

/-- The sequences of a store can be encoded by tables that have their codes. -/
theorem SeqStore.WellFormed.encodable (h : store.WellFormed) {longOffsets : Bool}
    {IsLL IsOF IsML : ℕ → Prop} (hcovered : Covered (seqToCodes w store) IsLL IsOF IsML)
    (h32 : w = .bits32 → ∀ seq ∈ store.sequences, seq.offBase < 2 ^ 31)
    (hreads : ∀ seq ∈ store.sequences, Reads w longOffsets (highbit seq.offBase)) :
    Encodable w (seqToCodes w store) store.sequences (getSequenceLength store) longOffsets
      IsLL IsOF IsML := by
  have hmem {i : ℕ} (hi : i < store.sequences.length) :
      store.sequences.getD i ⟨0, 0, 0⟩ ∈ store.sequences := by
    rw [List.getD_eq_getElem _ _ hi]
    exact List.getElem_mem hi
  have hcode {codes : List ℕ} {P : ℕ → Prop} (hcodes : ∀ c ∈ codes, P c)
      (hlength : codes.length = store.sequences.length) {i : ℕ} (hi : i < store.sequences.length) :
      P (codes.getD i 0) := by
    rw [← hlength] at hi
    rw [List.getD_eq_getElem _ _ hi]
    exact hcodes _ (List.getElem_mem hi)
  have hofLength : (seqToCodes w store).ofCode.length =
    store.sequences.length := by simp [seqToCodes]
  refine ⟨fun i hi => h.coded w hi, fun i hi => ?_, fun i hi => ?_, fun i hi => ?_, fun i hi => ?_,
    fun i hi => ?_, fun i hi => ?_⟩
  · exact hcode hcovered.litLength (length_llCode w store) hi
  · exact hcode hcovered.offset hofLength hi
  · exact hcode hcovered.matchLength (length_mlCode w store) hi
  · rw [getD_ofCode w hi]
    exact h.splits h32 (hmem hi)
  · rw [getD_ofCode w hi]
    exact hreads _ (hmem hi)
  · exact Nat.pos_iff_ne_zero.mp (h.offBase_pos _ (hmem hi))

end Codes

section RoundTrip

variable {w : WordSize} {t : SeqCTables} {d : SeqDTables} {IsLL IsOF IsML : ℕ → Prop}
  {store : SeqStore} {b : ExecBounds} {text : ℕ → Byte} {window n dstCapacity blockSizeMax : ℕ}
  {out : Output}
  {rep rep' : Repcodes} {seqs : List Seq} {dst bytes : List Byte}

theorem length_of_meaning
    (hmeaning : resolve rep (meaning store.sequences (getSequenceLength store)) = (seqs, rep')) :
    seqs.length = store.sequences.length := by
  have hlength := length_resolve rep (meaning store.sequences (getSequenceLength store))
  rwa [hmeaning, length_meaning] at hlength

/-- A sum type of a store is at most an offset of its sequences and the three repeated ones. -/
theorem offBase_le_of_meaning
    (hmeaning : resolve rep (meaning store.sequences (getSequenceLength store)) = (seqs, rep'))
    {seq : SeqDef} (hseq : seq ∈ store.sequences) : ∃ s ∈ seqs, seq.offBase ≤ s.offset + 3 := by
  obtain ⟨i, hi, rfl⟩ := List.getElem_of_mem hseq
  have hmem : (store.sequences[i].offBase, getSequenceLength store i) ∈
      meaning store.sequences (getSequenceLength store) := by
    refine List.mem_map.mpr ⟨i, List.mem_range.mpr hi, ?_⟩
    rw [List.getD_eq_getElem _ _ hi]
  obtain ⟨s, hs, hle⟩ := offBase_le_of_resolve (r := rep) hmem
  rw [hmeaning] at hs
  exact ⟨s, hs, hle⟩

/-- Where the block begins, the decoder expects long offsets if there are any. -/
theorem Prepared.reads (pt : PairedTables t d IsLL IsOF IsML) (hwf : store.WellFormed)
    (hcovered : Covered (seqToCodes w store) IsLL IsOF IsML)
    (h32 : w = .bits32 → ∀ seq ∈ store.sequences, seq.offBase < 2 ^ 31)
    (hmeaning : resolve rep (meaning store.sequences (getSequenceLength store)) = (seqs, rep'))
    (h : Prepared b text window n seqs out) (hn : n ≤ min dstCapacity blockSizeMax) {seq : SeqDef}
    (hseq : seq ∈ store.sequences) :
    Reads w (isLongOffset w d.oft seqs.length
      (out.op + min dstCapacity blockSizeMax - b.virtualStart)) (highbit seq.offBase) := by
  have hpos := hwf.offBase_pos seq hseq
  have hlength := length_of_meaning hmeaning
  have hne := List.length_pos_of_mem hseq
  have hlayout := h.layout
  have hfits := hlayout.fits
  have hspan := h.span_le
  have hvirtual := hlayout.virtualStart_le
  have hfloor := hlayout.prefixStart_le
  have hcode : IsOF (highbit seq.offBase) :=
    hcovered.offset _ (List.mem_map.mpr ⟨seq, hseq, rfl⟩)
  obtain ⟨s, hs, hle⟩ := offBase_le_of_meaning hmeaning hseq
  have hreach := h.parses.reach hs
  exact reads_isLongOffset pt.offset hcode (by omega) (by omega) (hwf.offBase_lt _ hseq)
    (fun hw => h32 hw _ hseq) (by omega)

/-- What is written for a store is regenerated. -/
theorem Prepared.regenerates (pt : PairedTables t d IsLL IsOF IsML) (hwf : store.WellFormed)
    (hcovered : Covered (seqToCodes w store) IsLL IsOF IsML)
    (h32 : w = .bits32 → ∀ seq ∈ store.sequences, seq.offBase < 2 ^ 31)
    (hmeaning : resolve rep (meaning store.sequences (getSequenceLength store)) = (seqs, rep'))
    (hoffsets : OffsetsValid rep (meaning store.sequences (getSequenceLength store)))
    (hvalid : rep.Valid) (hlt : rep.Below (2 ^ 32))
    (hencode : store.sequences ≠ [] →
      encodeSequences w t dst (seqToCodes w store) store.sequences = .ok bytes)
    (h : Prepared b text window n seqs out) (hn : n ≤ min dstCapacity blockSizeMax)
    (ddictIsCold : Bool) :
    ∃ out', decompressSequences w d b dstCapacity blockSizeMax ddictIsCold rep bytes
      seqs.length out =
      .ok (rep', out') ∧ Writes b text n out out' := by
  have hlength := length_of_meaning hmeaning
  have hencodable := hwf.encodable hcovered h32 fun seq hseq =>
    h.reads pt hwf hcovered h32 hmeaning hn hseq
  have hbelow := below_resolve hlt hoffsets
  rw [hmeaning] at hbelow
  simp only [decompressSequences_ok_iff]
  refine h.decompress hbelow (fun hne => ?_) fun hnone => ?_
  · have hsequences : store.sequences ≠ [] := by
      rw [← List.length_pos_iff] at hne ⊢
      omega
    obtain ⟨st, st', hinit, hdecode, hend, hprev⟩ := decodeAll_encodeSequences pt hencodable
      hsequences (hencode hsequences) hvalid hlt.rep0_lt hoffsets
    rw [← hlength, hmeaning] at hdecode
    rw [hmeaning] at hprev
    exact ⟨st, st', hinit, hdecode, hend, hprev⟩
  · have hsequences : store.sequences = [] := by
      rw [← List.length_eq_zero_iff] at hnone ⊢
      omega
    rw [hsequences] at hmeaning
    exact (congrArg Prod.snd hmeaning).symm

end RoundTrip

end ZstdJni.Sequences
