/-
# The sequences section of a block

Behind the literals of a block are the number of its sequences, the types of the three
tables, the descriptions of the tables and the bits of the sequences.  The encoder may find
that there is no room, or give up where an old decoder would be confused.  Otherwise the
decoder finds the number, the tables and the bits again, and regenerates the block.
-/

import ZstdJni.Sequences.TableHeaders

namespace ZstdJni.Sequences

open ZstdJni.Foundation ZstdJni.Native ZstdJni.Entropy

/-! ## The encoder -/

/-- `LONGNBSEQ`. -/
def longNbSeq : ℕ := 0x7F00

/-- The number of sequences. -/
def writeNbSeq (nbSeq : ℕ) : List Byte :=
  if nbSeq < 128 then [UInt8.ofNat nbSeq]
  else if nbSeq < longNbSeq then [UInt8.ofNat ((nbSeq >>> 8) + 0x80), UInt8.ofNat nbSeq]
  else 0xFF :: bytesLE 2 (nbSeq - longNbSeq)

/-- The number of a type in the byte of the types. -/
def SymbolEncodingType.value : SymbolEncodingType → ℕ
  | .basic => 0
  | .rle => 1
  | .compressed => 2
  | .repeated => 3

/-- `ZSTD_fseCTables_t`. -/
structure FseCTables where
  litLength : FseCTable
  offcode : FseCTable
  matchLength : FseCTable

/-- A table that is built, with its type and its description. -/
structure BuiltTable where
  table : FseCTable
  type : SymbolEncodingType
  description : List Byte

section Model

variable (w : WordSize) (strategy : ℕ)

/-- One of the three parts of `ZSTD_buildSequencesStatistics`. -/
def buildTable (k : CodeKind) (isDefaultAllowed : Bool) (room : ℕ) (prev : FseCTable)
    (codes : List ℕ) : Except ErrorCode BuiltTable :=
  let hist := histCount codes k.max
  let choice := selectEncodingType w prev.repeatMode hist codes.length k.maxLog prev.ctable
    k.defaultNorm isDefaultAllowed strategy
  match buildSeqCTable room k.maxLog choice.2 hist.count codes codes.length k.defaultNorm
      prev.ctable with
  | .error code => .error code
  | .ok built => .ok ⟨⟨choice.1, built.1⟩, choice.2, built.2⟩

/-- The default distribution of offsets ends at `DefaultMaxOff`. -/
def offsetsAllowDefault (codes : List ℕ) : Bool :=
  decide ((histCount codes ofKind.max).count.length - 1 ≤ 28)

/-- What `ZSTD_buildSequencesStatistics` leaves behind. -/
structure SequencesStatistics where
  litLength : BuiltTable
  offcode : BuiltTable
  matchLength : BuiltTable

/-- `ZSTD_buildSequencesStatistics`. -/
def buildSequencesStatistics (room : ℕ) (prev : FseCTables) (codes : SeqCodes) :
    Except ErrorCode SequencesStatistics :=
  match buildTable w strategy llKind true room prev.litLength codes.llCode with
  | .error code => .error code
  | .ok ll =>
    let room := room - ll.description.length
    match buildTable w strategy ofKind (offsetsAllowDefault codes.ofCode) room prev.offcode
        codes.ofCode with
    | .error code => .error code
    | .ok off =>
      let room := room - off.description.length
      match buildTable w strategy mlKind true room prev.matchLength codes.mlCode with
      | .error code => .error code
      | .ok ml => .ok ⟨ll, off, ml⟩

namespace SequencesStatistics

variable (stats : SequencesStatistics)

/-- The tables of the encoder. -/
def ctables : SeqCTables where
  litLength := stats.litLength.table.ctable
  offsetBits := stats.offcode.table.ctable
  matchLength := stats.matchLength.table.ctable

/-- The tables that the next block may repeat. -/
def nextEntropy : FseCTables where
  litLength := stats.litLength.table
  offcode := stats.offcode.table
  matchLength := stats.matchLength.table

/-- The byte of the types. -/
def types : Byte :=
  UInt8.ofNat ((stats.litLength.type.value <<< 6) + (stats.offcode.type.value <<< 4) +
    (stats.matchLength.type.value <<< 2))

/-- The descriptions of the tables. -/
def descriptions : List Byte :=
  stats.litLength.description ++ (stats.offcode.description ++ stats.matchLength.description)

/-- The size of the last description of counts. -/
def lastCountSize : ℕ :=
  if stats.matchLength.type = .compressed then stats.matchLength.description.length
  else if stats.offcode.type = .compressed then stats.offcode.description.length
  else if stats.litLength.type = .compressed then stats.litLength.description.length
  else 0

end SequencesStatistics

/-- `ZSTD_entropyCompressSeqStore_internal` behind the literals, with the bytes that are
written and the tables of the next block.  It gives up if a decoder up to 1.3.4 would refuse the
last description. -/
def entropyCompressSequences (dst : List Byte) (prev : FseCTables) (store : SeqStore) :
    Except ErrorCode (Option (List Byte × FseCTables)) :=
  if dst.length < 3 + 1 then .error .dstSizeTooSmall
  else
    let head := writeNbSeq store.sequences.length
    if store.sequences.length = 0 then .ok (some (head, prev))
    else
      let codes := seqToCodes w store
      match buildSequencesStatistics w strategy (dst.length - (head.length + 1)) prev codes with
      | .error code => .error code
      | .ok stats =>
        let front := head ++ (stats.types :: stats.descriptions)
        match encodeSequences w stats.ctables (dst.drop front.length) codes store.sequences with
        | .error code => .error code
        | .ok bitstream =>
          if stats.lastCountSize ≠ 0 ∧ stats.lastCountSize + bitstream.length < 4 then .ok none
          else .ok (some (front ++ bitstream, stats.nextEntropy))

end Model

/-! ## The decoder -/

/-- The number of sequences, with the bytes behind it. -/
def readNbSeq : List Byte → Except ErrorCode (ℕ × List Byte)
  | [] => .error .srcSizeWrong
  | nbSeq :: src =>
    if nbSeq.toNat ≤ 0x7F then .ok (nbSeq.toNat, src)
    else if nbSeq.toNat = 0xFF then
      if src.length < 2 then .error .srcSizeWrong
      else .ok (readLE src 0 2 + longNbSeq, src.drop 2)
    else
      match src with
      | [] => .error .srcSizeWrong
      | low :: src => .ok (((nbSeq.toNat - 0x80) <<< 8) + low.toNat, src)

/-- The type with a number. -/
def SymbolEncodingType.ofValue : ℕ → SymbolEncodingType
  | 0 => .basic
  | 1 => .rle
  | 2 => .compressed
  | _ => .repeated

/-- `ZSTD_decodeSeqHeaders`, with the number of sequences, the tables and the bytes behind. -/
def decodeSeqHeaders (prev : SeqDTables) (flagRepeatTable : Bool) (src : List Byte) :
    Except ErrorCode (ℕ × SeqDTables × List Byte) :=
  match readNbSeq src with
  | .error code => .error code
  | .ok (nbSeq, src) =>
    if nbSeq = 0 then
      if src ≠ [] then .error .corruptionDetected else .ok (0, prev, [])
    else
      match src with
      | [] => .error .srcSizeWrong
      | types :: src =>
        if types.toNat % 4 ≠ 0 then .error .corruptionDetected
        else
          match buildSeqTable llKind (.ofValue (types.toNat / 64)) src prev.llt flagRepeatTable with
          | .error _ => .error .corruptionDetected
          | .ok (llt, llhSize) =>
            let src := src.drop llhSize
            match buildSeqTable ofKind (.ofValue (types.toNat / 16 % 4)) src prev.oft
                flagRepeatTable with
            | .error _ => .error .corruptionDetected
            | .ok (oft, ofhSize) =>
              let src := src.drop ofhSize
              match buildSeqTable mlKind (.ofValue (types.toNat / 4 % 4)) src prev.mlt
                  flagRepeatTable with
              | .error _ => .error .corruptionDetected
              | .ok (mlt, mlhSize) => .ok (nbSeq, ⟨llt, oft, mlt⟩, src.drop mlhSize)

/-- What `ZSTD_decompressBlock_internal` refuses behind the tables: an output that is null and
one at the end of the memory. -/
def refusesDst (w : WordSize) (dst dstCapacity nbSeq : ℕ) : Bool :=
  (decide (dst = 0 ∨ dstCapacity = 0) && decide (0 < nbSeq)) ||
    (decide (w = .bits64) && decide (2 ^ 64 - 1 - dst < 2 ^ 20))

/-- `ZSTD_decompressBlock_internal` behind the literals, if they are not split, with the tables of
the next block, whether it may repeat them, and its repeated offsets. -/
def decompressBlock (w : WordSize) (prev : SeqDTables) (flagRepeatTable : Bool) (b : ExecBounds)
    (dstCapacity blockSizeMax : ℕ) (ddictIsCold : Bool) (rep : Repcodes) (src : List Byte)
    (out : Output) : Except Refusal (SeqDTables × Bool × Repcodes × Output) :=
  match decodeSeqHeaders prev flagRepeatTable src with
  | .error code => .error ⟨code, out.mem⟩
  | .ok (nbSeq, d, bits) =>
    if refusesDst w out.op dstCapacity nbSeq then .error ⟨.dstSizeTooSmall, out.mem⟩
    else
      match decompressSequences w d b dstCapacity blockSizeMax ddictIsCold rep bits nbSeq out with
      | .error refusal => .error refusal
      | .ok (rep, out) => .ok (d, flagRepeatTable || decide (nbSeq ≠ 0), rep, out)

/-! ## The header -/

section Header

/-- The number of sequences is read back. -/
theorem readNbSeq_writeNbSeq {nbSeq : ℕ} (hlt : nbSeq < longNbSeq + 2 ^ 16) (behind : List Byte) :
    readNbSeq (writeNbSeq nbSeq ++ behind) = .ok (nbSeq, behind) := by
  unfold longNbSeq at hlt
  unfold writeNbSeq readNbSeq longNbSeq
  by_cases hshort : nbSeq < 128
  · rw [if_pos hshort, List.singleton_append]
    simp only
    rw [toNat_ofNat (by omega), if_pos (by omega)]
  rw [if_neg hshort]
  by_cases hmiddle : nbSeq < 0x7F00
  · have hhigh : nbSeq >>> 8 = nbSeq / 256 := Nat.shiftRight_eq_div_pow nbSeq 8
    have hlow : (UInt8.ofNat nbSeq).toNat = nbSeq % 256 := UInt8.toNat_ofNat'
    have hwhole : nbSeq / 256 * 2 ^ 8 + nbSeq % 256 = nbSeq := by omega
    rw [if_pos hmiddle, List.cons_append, List.cons_append, List.nil_append]
    simp only
    rw [toNat_ofNat (by omega), if_neg (by omega), if_neg (by omega), hlow, hhigh,
      Nat.add_sub_cancel, Nat.shiftLeft_eq, hwhole]
  · have hread := readLE_bytesLE [] behind (show nbSeq - 0x7F00 < 256 ^ 2 by omega)
    rw [List.nil_append, List.length_nil] at hread
    rw [if_neg hmiddle, List.cons_append]
    simp only
    rw [if_neg (by decide), if_pos (by decide),
      if_neg (by rw [List.length_append, length_bytesLE]; omega), hread,
      List.drop_left' (length_bytesLE 2 _), Nat.sub_add_cancel (by omega)]

theorem ofValue_value (type : SymbolEncodingType) : .ofValue type.value = type := by
  cases type <;> rfl

theorem value_lt (type : SymbolEncodingType) : type.value < 4 := by
  cases type <;> decide

/-- The byte of the types is read back. -/
theorem toNat_types (stats : SequencesStatistics) :
    stats.types.toNat % 4 = 0 ∧ stats.types.toNat / 64 = stats.litLength.type.value ∧
      stats.types.toNat / 16 % 4 = stats.offcode.type.value ∧
      stats.types.toNat / 4 % 4 = stats.matchLength.type.value := by
  have hll := value_lt stats.litLength.type
  have hoff := value_lt stats.offcode.type
  have hml := value_lt stats.matchLength.type
  unfold SequencesStatistics.types
  simp only [Nat.shiftLeft_eq]
  rw [toNat_ofNat (by omega)]
  omega

end Header

/-! ## Any bytes -/

section Accepted

variable {prevTables d : SeqDTables} {flagRepeatTable : Bool} {src bits : List Byte} {nbSeq : ℕ}

theorem readNbSeq_sound (h : readNbSeq src = .ok (nbSeq, bits)) :
    bits <:+ src ∧ nbSeq < longNbSeq + 2 ^ 16 := by
  unfold readNbSeq longNbSeq at *
  cases src with
  | nil => cases h
  | cons first src =>
      have hfirst := first.toNat_lt
      simp only at h
      by_cases hshort : first.toNat ≤ 0x7F
      · rw [if_pos hshort] at h
        cases h
        exact ⟨List.suffix_cons _ _, by omega⟩
      rw [if_neg hshort] at h
      by_cases hlong : first.toNat = 0xFF
      · rw [if_pos hlong] at h
        split_ifs at h with hroom
        cases h
        refine ⟨(List.drop_suffix 2 src).trans (List.suffix_cons _ _), ?_⟩
        have hread := readLE_eq src 0 2
        have hless := Nat.mod_lt (littleEndian src / 256 ^ 0) (show 0 < 256 ^ 2 by decide)
        omega
      · rw [if_neg hlong] at h
        cases src with
        | nil => cases h
        | cons low src =>
            have hlow := low.toNat_lt
            cases h
            refine ⟨(List.suffix_cons _ _).trans (List.suffix_cons _ _), ?_⟩
            rw [Nat.shiftLeft_eq]
            omega

/-- Tables of the decoder that are built for codes that there are. -/
structure SeqDTables.OfSources (d : SeqDTables) : Prop where
  llt : OfSource llKind d.llt
  oft : OfSource ofKind d.oft
  mlt : OfSource mlKind d.mlt

/-- Whatever the bytes are, tables that are accepted are some that an encoder can have, and what
is behind them is left of the bytes.  Without sequences the tables stay those in front. -/
theorem decodeSeqHeaders_sound (hprev : flagRepeatTable = true → prevTables.OfSources)
    (h : decodeSeqHeaders prevTables flagRepeatTable src = .ok (nbSeq, d, bits)) :
    bits <:+ src ∧ nbSeq < longNbSeq + 2 ^ 16 ∧ (nbSeq = 0 → d = prevTables) ∧
      (nbSeq ≠ 0 → d.OfSources) := by
  unfold decodeSeqHeaders at h
  cases hnbSeq : readNbSeq src with
  | error code =>
      rw [hnbSeq] at h
      cases h
  | ok read =>
      obtain ⟨number, rest⟩ := read
      obtain ⟨hsuffix, hlt⟩ := readNbSeq_sound hnbSeq
      rw [hnbSeq] at h
      simp only at h
      by_cases hnone : number = 0
      · rw [if_pos hnone] at h
        split_ifs at h with hrest
        cases h
        exact ⟨List.nil_suffix, by rwa [hnone] at hlt, fun _ => rfl, fun hnot => absurd rfl hnot⟩
      rw [if_neg hnone] at h
      cases rest with
      | nil => cases h
      | cons types rest =>
          simp only at h
          split_ifs at h with hreserved
          cases hll : buildSeqTable llKind (.ofValue (types.toNat / 64)) rest prevTables.llt
              flagRepeatTable with
          | error code =>
              rw [hll] at h
              cases h
          | ok ll =>
              rw [hll] at h
              simp only at h
              cases hoff : buildSeqTable ofKind (.ofValue (types.toNat / 16 % 4))
                  (rest.drop ll.2) prevTables.oft flagRepeatTable with
              | error code =>
                  rw [hoff] at h
                  cases h
              | ok off =>
                  rw [hoff] at h
                  simp only at h
                  cases hml : buildSeqTable mlKind (.ofValue (types.toNat / 4 % 4))
                      ((rest.drop ll.2).drop off.2) prevTables.mlt flagRepeatTable with
                  | error code =>
                      rw [hml] at h
                      cases h
                  | ok ml =>
                      rw [hml] at h
                      cases h
                      obtain ⟨-, hllSource⟩ :=
                        buildSeqTable_sound (fun hflag => (hprev hflag).llt) hll
                      obtain ⟨-, hoffSource⟩ :=
                        buildSeqTable_sound (fun hflag => (hprev hflag).oft) hoff
                      obtain ⟨-, hmlSource⟩ :=
                        buildSeqTable_sound (fun hflag => (hprev hflag).mlt) hml
                      refine ⟨?_, hlt, fun hnot => absurd hnot hnone,
                        fun _ => ⟨hllSource, hoffSource, hmlSource⟩⟩
                      exact (((List.drop_suffix _ _).trans (List.drop_suffix _ _)).trans
                        (List.drop_suffix _ _)).trans ((List.suffix_cons _ _).trans hsuffix)

end Accepted

/-! ## The tables -/

section Tables

variable {w : WordSize} {strategy room nbSeq : ℕ} {k : CodeKind} {codes : List ℕ}
  {flagRepeatTable : Bool} {prev : FseCTables} {prevTables : SeqDTables} {seqCodes : SeqCodes}
  {stats : SequencesStatistics}
  {tables : BlockTables}

theorem buildTable_spec {prev : FseCTable} {prevTable : DTable}
    (hprev : Repeatable k flagRepeatTable prev prevTable codes) (hne : codes ≠ [])
    (hcodes : ∀ s ∈ codes, s ≤ k.max) (hlt : codes.length < 2 ^ 32) {isDefaultAllowed : Bool}
    (hdefault : isDefaultAllowed = true → ∀ s ∈ codes, s < k.defaultNorm.counts.length) :
    room < 512 ∧
        buildTable w strategy k isDefaultAllowed room prev codes = .error .dstSizeTooSmall ∨
      ∃ built source, buildTable w strategy k isDefaultAllowed room prev codes = .ok built ∧
        BuiltFor k flagRepeatTable prev prevTable codes built.type built.table built.description
          source := by
  have h := of_histCount hne hcodes
  have hsmall := k.max_lt
  have hlast := hcodes _ h.last_mem
  have hpos := h.length_pos
  have hchosen := chosen_selectEncodingType w prev.repeatMode prev.ctable h hlt (by omega)
    k.maxLog_ge (Nat.le_trans k.maxLog_le (by decide))
    (fun hallowed s hs => k.default_has (hdefault hallowed s hs)) strategy
  unfold buildTable
  simp only
  rcases hchosen.builtFor hprev hne hcodes hlt room with
    ⟨hroom, hnone⟩ | ⟨source, built, hbuilt, hfor⟩
  · left
    rw [hnone]
    exact ⟨hroom, rfl⟩
  · right
    rw [hbuilt]
    exact ⟨_, source, rfl, hfor⟩

/-- The tables in front of a block with some codes, where the decoder may repeat its own or not:
those the encoder may repeat are ones that the decoder may repeat, too. -/
structure InStep (flagRepeatTable : Bool) (prev : FseCTables) (prevTables : SeqDTables)
    (seqCodes : SeqCodes) : Prop where
  litLength : Repeatable llKind flagRepeatTable prev.litLength prevTables.llt seqCodes.llCode
  offcode : Repeatable ofKind flagRepeatTable prev.offcode prevTables.oft seqCodes.ofCode
  matchLength : Repeatable mlKind flagRepeatTable prev.matchLength prevTables.mlt seqCodes.mlCode

/-- The three tables of a block. -/
structure StatisticsFor (flagRepeatTable : Bool) (prev : FseCTables) (prevTables : SeqDTables)
    (seqCodes : SeqCodes) (stats : SequencesStatistics) (tables : BlockTables) : Prop where
  litLength : BuiltFor llKind flagRepeatTable prev.litLength prevTables.llt seqCodes.llCode
    stats.litLength.type stats.litLength.table stats.litLength.description tables.litLength
  offcode : BuiltFor ofKind flagRepeatTable prev.offcode prevTables.oft seqCodes.ofCode
    stats.offcode.type stats.offcode.table stats.offcode.description tables.offset
  matchLength : BuiltFor mlKind flagRepeatTable prev.matchLength prevTables.mlt seqCodes.mlCode
    stats.matchLength.type stats.matchLength.table stats.matchLength.description tables.matchLength

/-- Codes that are in range, as many of each kind as there are sequences. -/
structure InRange (nbSeq : ℕ) (seqCodes : SeqCodes) : Prop where
  litLength : ∀ s ∈ seqCodes.llCode, s ≤ llKind.max
  offcode : ∀ s ∈ seqCodes.ofCode, s ≤ ofKind.max
  matchLength : ∀ s ∈ seqCodes.mlCode, s ≤ mlKind.max
  length_llCode : seqCodes.llCode.length = nbSeq
  length_ofCode : seqCodes.ofCode.length = nbSeq
  length_mlCode : seqCodes.mlCode.length = nbSeq

theorem SeqStore.WellFormed.inRange {store : SeqStore} (h : store.WellFormed) (w : WordSize) :
    InRange store.sequences.length (seqToCodes w store) := by
  have hset {codes : List ℕ} {bound i : ℕ} {c : Prop} [Decidable c]
    (hcodes : ∀ s ∈ codes, s ≤ bound) :
      ∀ s ∈ (if c then codes.set i bound else codes), s ≤ bound := by
    intro s hs
    split_ifs at hs
    · rcases List.mem_or_eq_of_mem_set hs with hs | rfl
      · exact hcodes s hs
      · exact Nat.le_refl _
    · exact hcodes s hs
  refine ⟨hset ?_, ?_, hset ?_, length_llCode w store, by simp [seqToCodes], length_mlCode w store⟩
  · intro s hs
    obtain ⟨seq, hseq, rfl⟩ := List.mem_map.mp hs
    exact (llCode_spec (h.litLength_lt seq hseq)).2.1.le
  · intro s hs
    obtain ⟨seq, hseq, rfl⟩ := List.mem_map.mp hs
    exact Nat.le_of_lt_succ
      (highbit_lt (Nat.pos_iff_ne_zero.mp (h.offBase_pos seq hseq)) (h.offBase_lt seq hseq))
  · intro s hs
    obtain ⟨seq, hseq, rfl⟩ := List.mem_map.mp hs
    exact (mlCode_spec (h.mlBase_lt seq hseq)).2.1.le

/-- Codes below the end of the default distribution of offsets. -/
theorem lt_of_offsetsAllowDefault (hne : codes ≠ []) (hcodes : ∀ s ∈ codes, s ≤ ofKind.max)
    (hallowed : offsetsAllowDefault codes = true) :
    ∀ s ∈ codes, s < ofKind.defaultNorm.counts.length := by
  intro s hs
  have hless := (of_histCount hne hcodes).lt_length hs
  have hfew := of_decide_eq_true hallowed
  have hdefault : ofKind.defaultNorm.counts.length = 29 := rfl
  omega

/-- The tables of a block are built unless there is no room for their descriptions. -/
theorem buildSequencesStatistics_spec (hrange : InRange nbSeq seqCodes) (hpos : nbSeq ≠ 0)
    (hlt : nbSeq < 2 ^ 32) (hstep : InStep flagRepeatTable prev prevTables seqCodes) (room : ℕ) :
    room < 772 ∧
        buildSequencesStatistics w strategy room prev seqCodes = .error .dstSizeTooSmall ∨
      ∃ stats tables, buildSequencesStatistics w strategy room prev seqCodes = .ok stats ∧
        StatisticsFor flagRepeatTable prev prevTables seqCodes stats tables := by
  have hsome {codes : List ℕ} (hlength : codes.length = nbSeq) : codes ≠ [] := by
    rintro rfl
    exact hpos hlength.symm
  have hllLength : llKind.defaultNorm.counts.length = llKind.max + 1 := rfl
  have hmlLength : mlKind.defaultNorm.counts.length = mlKind.max + 1 := rfl
  unfold buildSequencesStatistics
  rcases buildTable_spec hstep.litLength (hsome hrange.length_llCode) hrange.litLength
      (by rwa [hrange.length_llCode]) (fun _ s hs => by
        rw [hllLength]
        exact Nat.lt_succ_of_le (hrange.litLength s hs)) with
    ⟨hfull, hnone⟩ | ⟨ll, llSource, hllBuilt, hllFor⟩
  · left
    rw [hnone]
    exact ⟨by omega, rfl⟩
  have hllShort : ll.description.length ≤ 130 := hllFor.described.length_le
  rw [hllBuilt]
  simp only
  rcases buildTable_spec hstep.offcode (hsome hrange.length_ofCode) hrange.offcode
      (by rwa [hrange.length_ofCode])
      (lt_of_offsetsAllowDefault (hsome hrange.length_ofCode) hrange.offcode) with
    ⟨hfull, hnone⟩ | ⟨off, offSource, hoffBuilt, hoffFor⟩
  · left
    rw [hnone]
    exact ⟨by omega, rfl⟩
  have hoffShort : off.description.length ≤ 130 := hoffFor.described.length_le
  rw [hoffBuilt]
  simp only
  rcases buildTable_spec hstep.matchLength (hsome hrange.length_mlCode) hrange.matchLength
      (by rwa [hrange.length_mlCode]) (fun _ s hs => by
        rw [hmlLength]
        exact Nat.lt_succ_of_le (hrange.matchLength s hs)) with
    ⟨hfull, hnone⟩ | ⟨ml, mlSource, hmlBuilt, hmlFor⟩
  · left
    rw [hnone]
    exact ⟨by omega, rfl⟩
  · right
    rw [hmlBuilt]
    exact ⟨_, ⟨llSource, offSource, mlSource⟩, rfl, hllFor, hoffFor, hmlFor⟩

theorem StatisticsFor.ctables_eq
    (h : StatisticsFor flagRepeatTable prev prevTables seqCodes stats tables) :
    stats.ctables = tables.ctables := by
  rw [SequencesStatistics.ctables, BlockTables.ctables, ← h.litLength.described.ctable_eq,
    ← h.offcode.described.ctable_eq, ← h.matchLength.described.ctable_eq]

theorem StatisticsFor.covered
    (h : StatisticsFor flagRepeatTable prev prevTables seqCodes stats tables) :
    Covered seqCodes tables.litLength.Has tables.offset.Has tables.matchLength.Has :=
  ⟨h.litLength.has, h.offcode.has, h.matchLength.has⟩

/-- The decoder finds the number of sequences, the tables and the bits. -/
theorem StatisticsFor.decodeSeqHeaders
    (h : StatisticsFor flagRepeatTable prev prevTables seqCodes stats tables)
    (hpos : nbSeq ≠ 0) (hlt : nbSeq < longNbSeq + 2 ^ 16) (bits : List Byte) :
    decodeSeqHeaders prevTables flagRepeatTable
        (writeNbSeq nbSeq ++ (stats.types :: stats.descriptions) ++ bits) =
      .ok (nbSeq, tables.dtables, bits) := by
  obtain ⟨hreserved, htypeLL, htypeOff, htypeML⟩ := toNat_types stats
  have hll := h.litLength.described.reads
    (stats.offcode.description ++ (stats.matchLength.description ++ bits))
  have hoff := h.offcode.described.reads (stats.matchLength.description ++ bits)
  have hml := h.matchLength.described.reads bits
  simp only at hll hoff hml
  unfold Sequences.decodeSeqHeaders
  rw [List.append_assoc, readNbSeq_writeNbSeq hlt]
  simp only [List.cons_append, SequencesStatistics.descriptions, List.append_assoc]
  rw [if_neg hpos, if_neg (not_not_intro hreserved), htypeLL, ofValue_value, hll]
  simp only
  rw [List.drop_left' rfl, htypeOff, ofValue_value, hoff]
  simp only
  rw [List.drop_left' rfl, htypeML, ofValue_value, hml]
  simp only
  rw [List.drop_left' rfl]
  rfl

end Tables

/-! ## There and back -/

section Whole

variable {w : WordSize} {flagRepeatTable : Bool} {prev : FseCTables} {prevTables : SeqDTables}
  {store : SeqStore}
  {text : ℕ → Byte} {rep rep' : Repcodes} {seqs : List Seq}

theorem length_writeNbSeq_le (nbSeq : ℕ) : (writeNbSeq nbSeq).length ≤ 3 := by
  unfold writeNbSeq
  split_ifs
  · exact Nat.le_add_left 1 2
  · exact Nat.le_succ 2
  · rw [List.length_cons, length_bytesLE]

theorem StatisticsFor.length_descriptions_le {seqCodes : SeqCodes} {stats : SequencesStatistics}
    {tables : BlockTables}
    (h : StatisticsFor flagRepeatTable prev prevTables seqCodes stats tables) :
    stats.descriptions.length ≤ 390 := by
  have hll : stats.litLength.description.length ≤ 130 := h.litLength.described.length_le
  have hoff : stats.offcode.description.length ≤ 130 := h.offcode.described.length_le
  have hml : stats.matchLength.description.length ≤ 130 := h.matchLength.described.length_le
  rw [SequencesStatistics.descriptions, List.length_append, List.length_append]
  omega

/-- With a kilobyte and twelve bytes a sequence there is always room. -/
theorem entropyCompressSequences_fits (hwf : store.WellFormed)
    (hfew : store.sequences.length < longNbSeq + 2 ^ 16)
    (hstep : InStep flagRepeatTable prev prevTables (seqToCodes w store))
    (h32 : w = .bits32 → ∀ seq ∈ store.sequences, seq.offBase < 2 ^ 31) (strategy : ℕ)
    {dst : List Byte} (hroom : 1024 + 12 * store.sequences.length ≤ dst.length) :
    ∃ written, entropyCompressSequences w strategy dst prev store = .ok written := by
  have hcount : store.sequences.length < 2 ^ 32 := Nat.lt_trans hfew (by decide)
  have hhead := length_writeNbSeq_le store.sequences.length
  unfold entropyCompressSequences
  rw [if_neg (by omega)]
  simp only
  by_cases hnone : store.sequences.length = 0
  · exact ⟨_, if_pos hnone⟩
  rw [if_neg hnone]
  rcases buildSequencesStatistics_spec (hwf.inRange w) hnone hcount hstep
      (dst.length - ((writeNbSeq store.sequences.length).length + 1)) with
    ⟨hfull, -⟩ | ⟨stats, tables, hbuilt, hfor⟩
  · omega
  have hdescriptions := hfor.length_descriptions_le
  have hreads : ∀ seq ∈ store.sequences, Reads w true (highbit seq.offBase) := fun seq hseq =>
    have hsplits := hwf.splits h32 hseq
    ⟨hsplits.ofc_le, hsplits.ofc_le_32, fun _ => Or.inl rfl⟩
  have hencodable := hwf.encodable hfor.covered h32 hreads
  obtain ⟨bitstream, hencode⟩ : ∃ bitstream, encodeSequences w stats.ctables
      (dst.drop (writeNbSeq store.sequences.length ++ (stats.types :: stats.descriptions)).length)
      (seqToCodes w store) store.sequences = .ok bitstream := by
    rw [hfor.ctables_eq]
    refine encodeSequences_fits tables.paired hencodable
      (List.ne_nil_of_length_pos (Nat.pos_of_ne_zero hnone)) ?_
    rw [List.length_drop, List.length_append, List.length_cons]
    omega
  rw [hbuilt]
  simp only [hencode]
  by_cases hold : stats.lastCountSize ≠ 0 ∧ stats.lastCountSize + bitstream.length < 4
  · exact ⟨_, if_pos hold⟩
  · exact ⟨_, if_neg hold⟩

/-- Two sequences with different offsets, the second with a repeated one, where no tables were
built before. -/
theorem entropyCompressSequences_fits_pair :
    ∃ written, entropyCompressSequences .bits32 7 (List.replicate 1048 0)
      ⟨⟨.none, ⟨0, [], []⟩⟩, ⟨.none, ⟨0, [], []⟩⟩, ⟨.none, ⟨0, [], []⟩⟩⟩
      ⟨[⟨103, 3, 1⟩, ⟨1, 20, 5⟩], [], 10, .none, 0⟩ = .ok written :=
  @entropyCompressSequences_fits .bits32 false
    ⟨⟨.none, ⟨0, [], []⟩⟩, ⟨.none, ⟨0, [], []⟩⟩, ⟨.none, ⟨0, [], []⟩⟩⟩
    ⟨⟨0, []⟩, ⟨0, []⟩, ⟨0, []⟩⟩ ⟨[⟨103, 3, 1⟩, ⟨1, 20, 5⟩], [], 10, .none, 0⟩
    ⟨by decide, by decide, by decide, by decide⟩ (by decide)
    ⟨repeatable_none _ _ _ _ _, repeatable_none _ _ _ _ _, repeatable_none _ _ _ _ _⟩
    (fun _ => by decide) 7 (List.replicate 1048 0) (by
      rw [List.length_replicate]
      exact Nat.le_refl _)

/-- An output that a block is prepared for is not refused. -/
theorem Prepared.refusesDst {b : ExecBounds} {window n dstCapacity : ℕ} {out : Output}
    (h : Prepared b text window n seqs out) (hn : n ≤ dstCapacity)
    (hdst : w = .bits64 → out.op + 2 ^ 20 < 2 ^ 64) :
    refusesDst w out.op dstCapacity seqs.length = false := by
  have hstart := h.layout.ostart_pos
  have hspan := h.span_le
  have hparses := h.parses
  have hnull : (decide (out.op = 0 ∨ dstCapacity = 0) && decide (0 < seqs.length)) = false := by
    cases seqs with
    | nil => exact Bool.and_false _
    | cons seq seqs =>
        have hmatch := hparses.1.matchLength_pos
        rw [span_cons] at hspan
        rw [decide_eq_false (by omega), Bool.false_and]
  have htop : (decide (w = .bits64) && decide (2 ^ 64 - 1 - out.op < 2 ^ 20)) = false := by
    by_cases hw : w = .bits64
    · have hroom := hdst hw
      have hfar : ¬ 2 ^ 64 - 1 - out.op < 2 ^ 20 := by omega
      rw [decide_eq_false hfar, Bool.and_false]
    · rw [decide_eq_false hw, Bool.false_and]
  rw [Sequences.refusesDst, hnull, htop, Bool.or_self]

end Whole

end ZstdJni.Sequences
