/-
# The store of sequences

The sequences of a block are collected in a store, with the literals between them.  A block
is so short that at most one length in it does not fit into sixteen bits, and the store has a
place for only one.

Whatever was stored is read back: by the lengths that the store reports, and by the codes that
the entropy coder is given.
-/

import ZstdJni.Sequences.Repcodes

namespace ZstdJni.Sequences

open ZstdJni.Foundation ZstdJni.Native ZstdJni.Entropy

/-- `SeqDef`. -/
structure SeqDef where
  offBase : ℕ
  litLength : ℕ
  mlBase : ℕ
  deriving DecidableEq

/-- `ZSTD_longLengthType_e`. -/
inductive LongLengthType
  | none
  | literalLength
  | matchLength
  deriving DecidableEq

/-- `SeqStore_t`, without the tables of codes. -/
structure SeqStore where
  sequences : List SeqDef
  lit : List Byte
  maxNbSeq : ℕ
  longLengthType : LongLengthType
  longLengthPos : ℕ

/-- `ZSTD_resetSeqStore`. -/
def resetSeqStore (s : SeqStore) : SeqStore :=
  { s with lit := [], sequences := [], longLengthType := .none }

/-- `ZSTD_BLOCKSIZE_MAX`. -/
def blockSizeMax : ℕ := 2 ^ 17

section Storing

variable (s : SeqStore) (litLength offBase matchLength : ℕ)

/-- A length that does not fit into sixteen bits is noted. -/
def noteLong (type : LongLengthType) (length : ℕ) : SeqStore :=
  if 0xFFFF < length then
    { s with longLengthType := type, longLengthPos := s.sequences.length }
  else s

/-- `ZSTD_storeSeqOnly`. -/
def storeSeqOnly : SeqStore :=
  let s := noteLong s .literalLength litLength
  let mlBase := matchLength - minMatch
  let s := noteLong s .matchLength mlBase
  { s with
    sequences := s.sequences ++
      [{ litLength := litLength % 2 ^ 16, offBase := offBase, mlBase := mlBase % 2 ^ 16 }] }

/-- `ZSTD_storeSeq`.  The literals are the first ones of a part of the source. -/
def storeSeq (literals : List Byte) : SeqStore :=
  storeSeqOnly { s with lit := s.lit ++ literals.take litLength } litLength offBase matchLength

/-- `ZSTD_storeLastLiterals`. -/
def storeLastLiterals (literals : List Byte) (lastLLSize : ℕ) : SeqStore :=
  { s with lit := s.lit ++ literals.take lastLLSize }

end Storing

/-- `ZSTD_SequenceLength`. -/
structure SequenceLength where
  litLength : ℕ
  matchLength : ℕ
  deriving DecidableEq

/-- What is added to a length at its place. -/
def longPart (s : SeqStore) (type : LongLengthType) (i : ℕ) : ℕ :=
  if s.longLengthPos = i then (if s.longLengthType = type then 0x10000 else 0) else 0

/-- `ZSTD_getSequenceLength` of the sequence at an index. -/
def getSequenceLength (s : SeqStore) (i : ℕ) : SequenceLength :=
  let seq := s.sequences.getD i ⟨0, 0, 0⟩
  { litLength := seq.litLength + longPart s .literalLength i
    matchLength := seq.mlBase + minMatch + longPart s .matchLength i }

/-- `STREAM_ACCUMULATOR_MIN`. -/
def streamAccumulatorMin : WordSize → ℕ
  | .bits32 => 25
  | .bits64 => 57

/-- The tables of codes, and whether there are long offsets. -/
structure SeqCodes where
  llCode : List ℕ
  ofCode : List ℕ
  mlCode : List ℕ
  longOffsets : Bool

/-- `ZSTD_seqToCodes`. -/
def seqToCodes (w : WordSize) (s : SeqStore) : SeqCodes where
  llCode :=
    let codes := s.sequences.map fun seq => llCode seq.litLength
    if s.longLengthType = .literalLength then codes.set s.longLengthPos maxLL else codes
  ofCode := s.sequences.map fun seq => highbit seq.offBase
  mlCode :=
    let codes := s.sequences.map fun seq => mlCode seq.mlBase
    if s.longLengthType = .matchLength then codes.set s.longLengthPos maxML else codes
  longOffsets := s.sequences.any fun seq =>
    w = .bits32 && decide (streamAccumulatorMin w ≤ highbit seq.offBase)

/-- Every sequence of a store fits its fields. -/
structure SeqStore.WellFormed (s : SeqStore) : Prop where
  litLength_lt : ∀ seq ∈ s.sequences, seq.litLength < 2 ^ 16
  mlBase_lt : ∀ seq ∈ s.sequences, seq.mlBase < 2 ^ 16
  offBase_pos : ∀ seq ∈ s.sequences, 0 < seq.offBase
  offBase_lt : ∀ seq ∈ s.sequences, seq.offBase < 2 ^ 32

theorem wellFormed_resetSeqStore (s : SeqStore) : (resetSeqStore s).WellFormed := by
  constructor <;> intro seq hseq <;> cases hseq

@[simp]
theorem sequences_noteLong (s : SeqStore) (type : LongLengthType) (length : ℕ) :
    (noteLong s type length).sequences = s.sequences := by
  unfold noteLong
  split_ifs <;> rfl

@[simp]
theorem lit_noteLong (s : SeqStore) (type : LongLengthType) (length : ℕ) :
    (noteLong s type length).lit = s.lit := by
  unfold noteLong
  split_ifs <;> rfl

@[simp]
theorem maxNbSeq_noteLong (s : SeqStore) (type : LongLengthType) (length : ℕ) :
    (noteLong s type length).maxNbSeq = s.maxNbSeq := by
  unfold noteLong
  split_ifs <;> rfl

theorem sequences_storeSeqOnly (s : SeqStore) (litLength offBase matchLength : ℕ) :
    (storeSeqOnly s litLength offBase matchLength).sequences = s.sequences ++
      [{ litLength := litLength % 2 ^ 16, offBase := offBase
         mlBase := (matchLength - minMatch) % 2 ^ 16 }] := by
  simp [storeSeqOnly]

@[simp]
theorem lit_storeSeqOnly (s : SeqStore) (litLength offBase matchLength : ℕ) :
    (storeSeqOnly s litLength offBase matchLength).lit = s.lit := by
  simp [storeSeqOnly]

@[simp]
theorem maxNbSeq_storeSeqOnly (s : SeqStore) (litLength offBase matchLength : ℕ) :
    (storeSeqOnly s litLength offBase matchLength).maxNbSeq = s.maxNbSeq := by
  simp [storeSeqOnly]

theorem SeqStore.WellFormed.storeSeqOnly {s : SeqStore} (h : s.WellFormed) {offBase : ℕ}
    (litLength matchLength : ℕ) (hpos : 0 < offBase) (hlt : offBase < 2 ^ 32) :
    (storeSeqOnly s litLength offBase matchLength).WellFormed := by
  constructor <;> intro seq hseq <;> rw [sequences_storeSeqOnly, List.mem_append] at hseq <;>
    rcases hseq with hseq | hseq
  · exact h.litLength_lt seq hseq
  · obtain rfl := List.mem_singleton.mp hseq
    exact Nat.mod_lt _ (by decide)
  · exact h.mlBase_lt seq hseq
  · obtain rfl := List.mem_singleton.mp hseq
    exact Nat.mod_lt _ (by decide)
  · exact h.offBase_pos seq hseq
  · obtain rfl := List.mem_singleton.mp hseq
    exact hpos
  · exact h.offBase_lt seq hseq
  · obtain rfl := List.mem_singleton.mp hseq
    exact hlt

/-- The codes of a sequence, with its fields, stand for its lengths. -/
structure Coded (seq : SeqDef) (llc ofc mlc : ℕ) (lengths : SequenceLength) : Prop where
  litLength_eq : llBase.getD llc 0 + seq.litLength % 2 ^ llBits.getD llc 0 = lengths.litLength
  matchLength_eq : mlBase.getD mlc 0 + seq.mlBase % 2 ^ mlBits.getD mlc 0 = lengths.matchLength
  llBits_le : llBits.getD llc 0 ≤ 16
  mlBits_le : mlBits.getD mlc 0 ≤ 16
  ll0_iff : llBase.getD llc 0 = 0 ↔ lengths.litLength = 0
  ofCode_eq : ofc = highbit seq.offBase

/-- The code of the long sequence is set behind the others. -/
theorem getD_longCode (s : SeqStore) (type : LongLengthType) (codes : List ℕ) (v : ℕ) {i : ℕ}
    (hi : i < codes.length) :
    (if s.longLengthType = type then codes.set s.longLengthPos v else codes).getD i 0 =
      if longPart s type i = 0 then codes.getD i 0 else v := by
  by_cases htype : s.longLengthType = type
  · by_cases hpos : s.longLengthPos = i
    · have hlong : longPart s type i = 0x10000 := by rw [longPart, if_pos hpos, if_pos htype]
      rw [if_pos htype, getD_set _ _ _ _ (by omega), if_pos hpos, hlong, if_neg (by decide)]
    · have hlong : longPart s type i = 0 := by rw [longPart, if_neg hpos]
      rw [if_pos htype, getD_set _ _ _ _ (by omega), if_neg hpos, hlong, if_pos rfl]
  · have hlong : longPart s type i = 0 := by rw [longPart, if_neg htype, ite_self]
    rw [if_neg htype, hlong, if_pos rfl]

theorem getD_map_sequences (s : SeqStore) (f : SeqDef → ℕ) {i : ℕ} (hi : i < s.sequences.length) :
    (s.sequences.map f).getD i 0 = f (s.sequences.getD i ⟨0, 0, 0⟩) := by
  simp [hi]

theorem longPart_eq (s : SeqStore) (type : LongLengthType) (i : ℕ) :
    longPart s type i = 0 ∨ longPart s type i = 2 ^ 16 := by
  unfold longPart
  split_ifs <;> decide

/-- The codes that the entropy coder is given stand for the sequences in the store. -/
theorem SeqStore.WellFormed.coded {s : SeqStore} (h : s.WellFormed) (w : WordSize) {i : ℕ}
    (hi : i < s.sequences.length) :
    Coded (s.sequences.getD i ⟨0, 0, 0⟩) ((seqToCodes w s).llCode.getD i 0)
      ((seqToCodes w s).ofCode.getD i 0) ((seqToCodes w s).mlCode.getD i 0)
      (getSequenceLength s i) := by
  have hlength (f : SeqDef → ℕ) : i < (s.sequences.map f).length := by rwa [List.length_map]
  have hmem : s.sequences.getD i ⟨0, 0, 0⟩ ∈ s.sequences := by
    rw [List.getD_eq_getElem _ _ hi]
    exact List.getElem_mem hi
  have hll := h.litLength_lt _ hmem
  have hml := h.mlBase_lt _ hmem
  simp only [seqToCodes]
  rw [getD_longCode s _ _ _ (hlength _), getD_longCode s _ _ _ (hlength _),
    getD_map_sequences s _ hi, getD_map_sequences s _ hi, getD_map_sequences s _ hi]
  unfold getSequenceLength
  generalize s.sequences.getD i ⟨0, 0, 0⟩ = seq at hll hml ⊢
  obtain ⟨hllEq, hllLt, hllBits, hllZero⟩ := llCode_spec hll
  obtain ⟨hmlEq, hmlLt, hmlBits⟩ := mlCode_spec hml
  obtain ⟨hllLong, -⟩ := long_spec seq.litLength
  obtain ⟨-, hmlLong⟩ := long_spec seq.mlBase
  have hllMax : llBase.getD maxLL 0 = 2 ^ 16 ∧ llBits.getD maxLL 0 = 16 := ⟨rfl, rfl⟩
  have hmlMax : mlBits.getD maxML 0 = 16 := rfl
  refine ⟨?_, ?_, ?_, ?_, ?_, rfl⟩
  · rcases longPart_eq s .literalLength i with hzero | hlong
    · simp only [hzero, if_true]
      exact hllEq
    · simp only [hlong]
      rw [if_neg (by decide), hllLong]
      omega
  · rcases longPart_eq s .matchLength i with hzero | hlong
    · simp only [hzero, if_true]
      exact hmlEq
    · simp only [hlong]
      rw [if_neg (by decide), hmlLong]
      omega
  · split_ifs
    · exact hllBits
    · exact hllMax.2.le
  · split_ifs
    · exact hmlBits
    · exact hmlMax.le
  · rcases longPart_eq s .literalLength i with hzero | hlong
    · simp only [hzero, if_true]
      exact hllZero
    · simp only [hlong]
      rw [if_neg (by decide), hllMax.1]
      omega

/-- The bytes of some sequences. -/
def totalLength (lengths : List SequenceLength) : ℕ :=
  (lengths.map fun l => l.litLength + l.matchLength).sum

/-- A store that holds sequences of these lengths. -/
structure Stores (s : SeqStore) (lengths : List SequenceLength) : Prop where
  length_eq : s.sequences.length = lengths.length
  getSequenceLength_eq : ∀ i < lengths.length, getSequenceLength s i = lengths.getD i ⟨0, 0⟩
  longLengthPos_lt : s.longLengthType ≠ .none → s.longLengthPos < lengths.length
  /-- A long length uses up half of what a block may have. -/
  long_le : s.longLengthType ≠ .none → 2 ^ 16 + minMatch ≤ totalLength lengths

theorem stores_resetSeqStore (s : SeqStore) : Stores (resetSeqStore s) [] :=
  ⟨rfl, fun i hi => absurd hi (Nat.not_lt_zero i), fun h => absurd rfl h, fun h => absurd rfl h⟩

theorem totalLength_concat (lengths : List SequenceLength) (l : SequenceLength) :
    totalLength (lengths ++ [l]) = totalLength lengths + (l.litLength + l.matchLength) := by
  rw [totalLength, List.map_append, List.sum_append, totalLength, List.map_singleton,
    List.sum_singleton]

section Stores

variable {s : SeqStore} {lengths : List SequenceLength} {l : SequenceLength}

theorem getSequenceLength_of_append {s' : SeqStore} {seq : SeqDef} {i : ℕ}
    (hsequences : s'.sequences = s.sequences ++ [seq]) (hi : i < s.sequences.length)
    (hlit : longPart s' .literalLength i = longPart s .literalLength i)
    (hmatch : longPart s' .matchLength i = longPart s .matchLength i) :
    getSequenceLength s' i = getSequenceLength s i := by
  have hseq : (s.sequences ++ [seq]).getD i ⟨0, 0, 0⟩ = s.sequences.getD i ⟨0, 0, 0⟩ := by
    rw [List.getD_append _ _ _ _ hi]
  rw [getSequenceLength, getSequenceLength, hsequences, hseq, hlit, hmatch]

/-- One more sequence in a store that still has its place for a long length, or does not need
it. -/
theorem Stores.append (h : Stores s lengths) {s' : SeqStore} {offBase : ℕ}
    (hsequences : s'.sequences = s.sequences ++
      [{ litLength := l.litLength % 2 ^ 16, offBase := offBase
         mlBase := (l.matchLength - minMatch) % 2 ^ 16 }])
    (hold : ∀ type, type ≠ .none → ∀ i < lengths.length, longPart s' type i = longPart s type i)
    (hlit : l.litLength % 2 ^ 16 + longPart s' .literalLength lengths.length = l.litLength)
    (hmatch : (l.matchLength - minMatch) % 2 ^ 16 + minMatch +
      longPart s' .matchLength lengths.length = l.matchLength)
    (hpos : s'.longLengthType ≠ .none → s'.longLengthPos ≤ lengths.length)
    (hlong : s'.longLengthType ≠ .none → 2 ^ 16 + minMatch ≤ totalLength (lengths ++ [l])) :
    Stores s' (lengths ++ [l]) := by
  have hlength := h.length_eq
  have hnew (seq : SeqDef) : (s.sequences ++ [seq]).getD lengths.length ⟨0, 0, 0⟩ = seq := by
    rw [← hlength, List.getD_append_right _ _ _ _ (Nat.le_refl _),
      Nat.sub_self, List.getD_cons_zero]
  refine ⟨by simp [hsequences, hlength], fun i hi => ?_, fun htype => ?_, hlong⟩
  · rw [List.length_append, List.length_singleton] at hi
    by_cases hlast : i = lengths.length
    · rw [hlast, List.getD_append_right _ _ _ _ (Nat.le_refl _), Nat.sub_self, List.getD_cons_zero,
        getSequenceLength, hsequences, hnew]
      simp only [hlit, hmatch]
    · have hless : i < lengths.length := by omega
      rw [List.getD_append _ _ _ _ hless, ← h.getSequenceLength_eq i hless]
      exact getSequenceLength_of_append hsequences (by omega) (hold _ (by decide) i hless)
        (hold _ (by decide) i hless)
  · have hle := hpos htype
    rw [List.length_append, List.length_singleton]
    omega

theorem longPart_of_none {type : LongLengthType} (hnone : s.longLengthType = .none)
    (htype : type ≠ .none) (i : ℕ) : longPart s type i = 0 := by
  rw [longPart, hnone, if_neg (Ne.symm htype), ite_self]

theorem longPart_of_ne (type : LongLengthType) {i : ℕ} (hi : s.longLengthPos ≠ i) :
    longPart s type i = 0 := if_neg hi

/-- Storing a sequence that still fits into a block. -/
theorem Stores.storeSeqOnly (h : Stores s lengths) (offBase : ℕ) (hmin : minMatch ≤ l.matchLength)
    (hblock : totalLength (lengths ++ [l]) ≤ blockSizeMax) :
    Stores (storeSeqOnly s l.litLength offBase l.matchLength) (lengths ++ [l]) := by
  have hsequences := sequences_storeSeqOnly s l.litLength offBase l.matchLength
  have hlength := h.length_eq
  rw [totalLength_concat, blockSizeMax] at hblock
  have hthree : minMatch = 3 := rfl
  by_cases hnone : s.longLengthType = .none
  · by_cases hlit : 0xFFFF < l.litLength
    · have hshort : ¬ 0xFFFF < l.matchLength - minMatch := by omega
      have hstore : (Sequences.storeSeqOnly s l.litLength offBase l.matchLength).longLengthType =
            .literalLength ∧
          (Sequences.storeSeqOnly s l.litLength offBase l.matchLength).longLengthPos =
            lengths.length := by
        simp [Sequences.storeSeqOnly, noteLong, hlit, hshort, hlength]
      refine h.append hsequences (fun type htype i hi => ?_) ?_ ?_ (fun _ => hstore.2.le) fun _ =>
        ?_
      · rw [longPart_of_none hnone htype, longPart_of_ne type (by omega)]
      · rw [longPart, if_pos hstore.2, if_pos hstore.1]
        omega
      · rw [longPart, if_pos hstore.2, hstore.1, if_neg (by decide)]
        omega
      · rw [totalLength_concat]
        omega
    · by_cases hmatch : 0xFFFF < l.matchLength - minMatch
      · have hstore : (Sequences.storeSeqOnly s l.litLength offBase l.matchLength).longLengthType =
              .matchLength ∧
            (Sequences.storeSeqOnly s l.litLength offBase l.matchLength).longLengthPos =
              lengths.length := by
          simp [Sequences.storeSeqOnly, noteLong, hlit, hmatch, hlength]
        refine h.append hsequences (fun type htype i hi => ?_) ?_ ?_ (fun _ => hstore.2.le) fun _ =>
          ?_
        · rw [longPart_of_none hnone htype, longPart_of_ne type (by omega)]
        · rw [longPart, if_pos hstore.2, hstore.1, if_neg (by decide)]
          omega
        · rw [longPart, if_pos hstore.2, if_pos hstore.1]
          omega
        · rw [totalLength_concat]
          omega
      · have htype' : (Sequences.storeSeqOnly s l.litLength offBase l.matchLength).longLengthType =
            .none := by
          simp [Sequences.storeSeqOnly, noteLong, hlit, hmatch, hnone]
        refine h.append hsequences (fun type htype i hi => ?_) ?_ ?_ (fun hne => absurd htype' hne)
          fun hne => absurd htype' hne
        · rw [longPart_of_none hnone htype, longPart_of_none htype' htype]
        · rw [longPart_of_none htype' (by decide)]
          omega
        · rw [longPart_of_none htype' (by decide)]
          omega
  · have hused := h.long_le hnone
    have hplace := h.longLengthPos_lt hnone
    have hlit : ¬ 0xFFFF < l.litLength := by omega
    have hmatch : ¬ 0xFFFF < l.matchLength - minMatch := by omega
    have hstore : (Sequences.storeSeqOnly s l.litLength offBase l.matchLength).longLengthType =
          s.longLengthType ∧
        (Sequences.storeSeqOnly s l.litLength offBase l.matchLength).longLengthPos =
          s.longLengthPos := by
      simp [Sequences.storeSeqOnly, noteLong, hlit, hmatch]
    refine h.append hsequences (fun type htype i hi => ?_) ?_ ?_ (fun _ => by omega) fun _ => ?_
    · rw [longPart, longPart, hstore.1, hstore.2]
    · rw [longPart_of_ne _ (by omega)]
      omega
    · rw [longPart_of_ne _ (by omega)]
      omega
    · rw [totalLength_concat]
      omega

end Stores

end ZstdJni.Sequences
