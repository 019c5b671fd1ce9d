/-
# Blocks from a sequence producer

A sequence producer that is registered is asked for the sequences of each block.  What it
returns is checked, a delimiter is put behind it if it has none, and it is transferred into
the store.  If it fails, the block is parsed by the compressor itself, unless that is not
wanted.

A producer that returns a parse of the block gets it into the store, and what is then
written for the block is regenerated.
-/

import ZstdJni.Sequences.Tables
import ZstdJni.Sequences.Transfer

namespace ZstdJni.Sequences

open ZstdJni.Foundation ZstdJni.Native ZstdJni.Entropy

/-- The sequence of which all the fields are zero. -/
def zeroSequence : ZSequence := ⟨0, 0, 0⟩

/-- `ZSTD_postProcessSequenceProducerResult`, with the sequences that are counted. -/
def postProcessSequenceProducerResult (outSeqs : List ZSequence)
    (nbExternalSeqs outSeqsCapacity srcSize : ℕ) : Except ErrorCode (List ZSequence) :=
  if outSeqsCapacity < nbExternalSeqs then .error .sequenceProducerFailed
  else if nbExternalSeqs = 0 ∧ 0 < srcSize then .error .sequenceProducerFailed
  else if srcSize = 0 then .ok [zeroSequence]
  else
    let lastSeq := outSeqs.getD (nbExternalSeqs - 1) zeroSequence
    if lastSeq.offset = 0 ∧ lastSeq.matchLength = 0 then .ok (outSeqs.take nbExternalSeqs)
    else if nbExternalSeqs = outSeqsCapacity then .error .sequenceProducerFailed
    else .ok (outSeqs.take nbExternalSeqs ++ [zeroSequence])

/-- `ZSTD_fastSequenceLengthSum`. -/
def fastSequenceLengthSum (w : WordSize) (seqs : List ZSequence) : ℕ :=
  ((seqs.map ZSequence.litLength).sum + (seqs.map ZSequence.matchLength).sum) % 2 ^ w.bits

/-- What `ZSTD_buildSeqStore` comes to: a store, a block that is too small to be compressed,
or one that the compressor is to parse itself. -/
inductive BuiltSeqStore
  | compress (result : TransferResult)
  | noCompress
  | fallback

/-- `ZSTD_buildSeqStore` with a sequence producer, which has returned a number and left
sequences in the buffer. -/
def buildSeqStore (w : WordSize) (p : TransferParams) (enableMatchFinderFallback : Bool)
    (src : List Byte) (prevRep : Repcodes) (seqStore : SeqStore) (extSeqBuf : List ZSequence)
    (nbExternalSeqs : ℕ) : Except ErrorCode BuiltSeqStore :=
  if src.length < 2 + 3 + 1 + 1 then .ok .noCompress
  else
    match postProcessSequenceProducerResult extSeqBuf nbExternalSeqs extSeqBuf.length
      src.length with
    | .ok seqs =>
      if src.length < fastSequenceLengthSum w seqs then .error .externalSequencesInvalid
      else
        match transferSequences p src prevRep ⟨0, 0, 0⟩ seqs (resetSeqStore seqStore) with
        | .error code => .error code
        | .ok result => .ok (.compress result)
    | .error code => if enableMatchFinderFallback then .ok .fallback else .error code

/-- A delimiter, with the last literals of a block. -/
def delimiter (lastLits : ℕ) : ZSequence := ⟨0, lastLits, 0⟩

/-- What a producer returns for some sequences: the sequences with a delimiter, or, if no
literals are left behind them, without one. -/
inductive Produces (extSeqBuf : List ZSequence) (nbExternalSeqs : ℕ) (seqs : List ZSequence) :
    ℕ → Prop
  | delimited (lastLits : ℕ) (count : nbExternalSeqs ≤ extSeqBuf.length)
    (front : extSeqBuf.take nbExternalSeqs = seqs ++ [delimiter lastLits]) :
    Produces extSeqBuf nbExternalSeqs seqs lastLits
  | bare (count : nbExternalSeqs < extSeqBuf.length)
    (front : extSeqBuf.take nbExternalSeqs = seqs) (ne : seqs ≠ []) :
    Produces extSeqBuf nbExternalSeqs seqs 0

section Produced

variable {w : WordSize} {p : TransferParams} {extSeqBuf : List ZSequence} {nbExternalSeqs : ℕ}
  {seqs : List ZSequence} {lastLits n : ℕ}

theorem getD_take_last {xs ys : List ZSequence} {y : ZSequence} {count : ℕ}
    (hcount : count ≤ xs.length) (hfront : xs.take count = ys ++ [y]) :
    0 < count ∧ xs.getD (count - 1) zeroSequence = y := by
  have hlength := congrArg List.length hfront
  rw [List.length_take, Nat.min_eq_left hcount, List.length_append,
    List.length_singleton] at hlength
  have hlast : count - 1 = ys.length := by omega
  refine ⟨by omega, ?_⟩
  rw [← List.take_append_drop count xs, hfront, List.append_assoc, hlast,
    List.getD_append_right _ _ _ _ (Nat.le_refl _), Nat.sub_self]
  rfl

/-- Behind the sequences of a producer is a delimiter in the end. -/
theorem Produces.postProcess (h : Produces extSeqBuf nbExternalSeqs seqs lastLits)
    (hseqs : ∀ s ∈ seqs, s.Valid) (hn : 0 < n) :
    postProcessSequenceProducerResult extSeqBuf nbExternalSeqs extSeqBuf.length n =
      .ok (seqs ++ [delimiter lastLits]) := by
  unfold postProcessSequenceProducerResult
  cases h with
  | delimited _ count front =>
      obtain ⟨hpos, hlast⟩ := getD_take_last count front
      rw [if_neg (by omega), if_neg (by omega), if_neg (by omega), hlast, front]
      exact if_pos ⟨rfl, rfl⟩
  | bare count front ne =>
      obtain ⟨ys, s, rfl⟩ := (List.eq_nil_or_concat' _).resolve_left ne
      obtain ⟨hpos, hlast⟩ := getD_take_last count.le front
      have hoffset := (hseqs s (by simp)).offset_pos
      rw [if_neg (by omega), if_neg (by omega), if_neg (by omega), hlast, front]
      simp only
      rw [if_neg (by omega), if_neg (by omega)]
      rfl

theorem sum_lengths (seqs : List ZSequence) (lastLits : ℕ) :
    ((seqs ++ [delimiter lastLits]).map ZSequence.litLength).sum +
        ((seqs ++ [delimiter lastLits]).map ZSequence.matchLength).sum =
      span (seqs.map ZSequence.toSeq) + lastLits := by
  induction seqs with
  | nil => simp [span, delimiter]
  | cons s seqs ih =>
      have hlit : s.toSeq.litLength = s.litLength := rfl
      have hmatch : s.toSeq.matchLength = s.matchLength := rfl
      simp only [List.cons_append, List.map_cons, List.sum_cons, span_cons, hlit, hmatch]
      omega

/-- A parse of the block that a producer returns is stored. -/
theorem Produces.buildSeqStore {text : ℕ → Byte} {op : ℕ} {prevRep : Repcodes} {seqStore : SeqStore}
    (h : Produces extSeqBuf nbExternalSeqs seqs lastLits) (hseqs : ∀ s ∈ seqs, s.Valid)
    (hfill : span (seqs.map ZSequence.toSeq) + lastLits = n) (hsmall : 7 ≤ n)
    (hn : n ≤ blockSizeMax) (hvalid : prevRep.Valid) (hlt : prevRep.Below (2 ^ 32))
    (hadmitted : p.validateSequences = true → Admitted p 0 seqs)
    (hroom : seqs.length ≤ seqStore.maxNbSeq) (enableMatchFinderFallback : Bool) :
    ∃ result, buildSeqStore w p enableMatchFinderFallback (bytesAt text op n) prevRep seqStore
        extSeqBuf nbExternalSeqs = .ok (.compress result) ∧
      Stored prevRep seqs result.store result.rep ∧
      result.store.lit = blockLiterals text op n (seqs.map ZSequence.toSeq) := by
  have hblock : blockOf (seqs ++ [delimiter lastLits]) = seqs := blockOf_append [] ⟨rfl, rfl⟩ hseqs
  have hdrop : ((seqs ++ [delimiter lastLits] : List ZSequence).drop 0) =
      seqs ++ delimiter lastLits :: [] := rfl
  obtain ⟨result, hresult⟩ :=
    @transferSequences_ok n prevRep seqs p text op seqStore ⟨0, 0, 0⟩ _ _ _
    hdrop ⟨rfl, rfl⟩ hvalid hlt hseqs hfill hn hadmitted hroom
  have hspec := transferSequences_spec hresult hvalid hlt (by rwa [hdrop, hblock])
    (by rw [hdrop, hblock]; omega) hn
  rw [hdrop, hblock] at hspec
  have hword : 2 ^ 32 ≤ 2 ^ w.bits := by cases w <;> decide
  have hsum : fastSequenceLengthSum w (seqs ++ [delimiter lastLits]) = n := by
    rw [fastSequenceLengthSum, sum_lengths, hfill]
    rw [blockSizeMax] at hn
    exact Nat.mod_eq_of_lt (by omega)
  refine ⟨result, ?_, hspec⟩
  unfold Sequences.buildSeqStore
  rw [length_bytesAt, if_neg (by omega), h.postProcess hseqs (by omega)]
  simp only [hsum, hresult]
  exact if_neg (Nat.lt_irrefl n)

end Produced

section Back

variable {w : WordSize} {p : TransferParams} {extSeqBuf : List ZSequence} {nbExternalSeqs : ℕ}
  {seqs : List ZSequence} {lastLits n : ℕ} {prevRep rep : Repcodes}
  {seqStore store : SeqStore}

theorem Stored.meaning_resolves (h : Stored prevRep seqs store rep) :
    resolve prevRep (meaning store.sequences (getSequenceLength store)) =
      (seqs.map ZSequence.toSeq, rep) := by
  rw [meaning_eq h.stores]
  exact h.resolve_eq

/-- Short offsets have short sum types. -/
theorem Stored.offBase_lt (h : Stored prevRep seqs store rep) {bound : ℕ}
    (hbound : ∀ s ∈ seqs, s.offset + 3 < bound) {seq : SeqDef} (hseq : seq ∈ store.sequences) :
    seq.offBase < bound := by
  obtain ⟨s, hs, hle⟩ := offBase_le_of_meaning h.meaning_resolves hseq
  obtain ⟨z, hz, rfl⟩ := List.mem_map.mp hs
  exact Nat.lt_of_le_of_lt hle (hbound z hz)

/-- A parse of a block that a producer returns is stored, and what the encoder writes for the
store, with tables that have the codes, the decoder turns into the block, whether it looks
ahead or not and whatever is in memory besides what the parse refers to. -/
theorem Produces.regenerated_text (h : Produces extSeqBuf nbExternalSeqs seqs lastLits)
    (hseqs : ∀ s ∈ seqs, s.Valid) (hfill : span (seqs.map ZSequence.toSeq) + lastLits = n)
    (hsmall : 7 ≤ n) (hn : n ≤ blockSizeMax) (hvalid : prevRep.Valid)
    (hlt : prevRep.Below (2 ^ 32)) (hadmitted : p.validateSequences = true → Admitted p 0 seqs)
    (hroom : seqs.length ≤ seqStore.maxNbSeq)
    (h32 : w = .bits32 → ∀ s ∈ seqs, s.offset + 3 < 2 ^ 31) (text : ℕ → Byte) (op : ℕ)
    (enableMatchFinderFallback : Bool) (tables : BlockTables) :
    ∃ result, Sequences.buildSeqStore w p enableMatchFinderFallback (bytesAt text op n) prevRep
        seqStore extSeqBuf nbExternalSeqs = .ok (.compress result) ∧
      result.store.lit = blockLiterals text op n (seqs.map ZSequence.toSeq) ∧
      ∀ {b : ExecBounds} {window dstCapacity sizeMax : ℕ} {out : Output} {dst bytes : List Byte},
        out.op = op →
        Covered (seqToCodes w result.store) tables.litLength.Has tables.offset.Has
          tables.matchLength.Has →
        (seqs ≠ [] → encodeSequences w tables.ctables dst (seqToCodes w result.store)
          result.store.sequences = .ok bytes) →
        Prepared b text window n (seqs.map ZSequence.toSeq) out → n ≤ min dstCapacity sizeMax →
        ∀ ddictIsCold, ∃ out',
          decompressSequences w tables.dtables b dstCapacity sizeMax ddictIsCold prevRep bytes
            seqs.length out = .ok (result.rep, out') ∧ Writes b text n out out' := by
  obtain ⟨result, hbuilt, hstored, hlit⟩ : ∃ result, Sequences.buildSeqStore w p
        enableMatchFinderFallback (bytesAt text op n) prevRep seqStore extSeqBuf nbExternalSeqs =
          .ok (.compress result) ∧
      Stored prevRep seqs result.store result.rep ∧
      result.store.lit = blockLiterals text op n (seqs.map ZSequence.toSeq) :=
    h.buildSeqStore hseqs hfill hsmall hn hvalid hlt hadmitted hroom enableMatchFinderFallback
  refine ⟨result, hbuilt, hlit, fun hop hcovered hencode hprepared hcapacity ddictIsCold => ?_⟩
  have hmeaning := hstored.meaning_resolves
  have hlength := length_of_meaning hmeaning
  rw [List.length_map] at hlength
  have hoffsets := hstored.offsetsValid
  rw [← meaning_eq hstored.stores] at hoffsets
  have hregenerated := hprepared.regenerates tables.paired hstored.wellFormed hcovered
    (fun hw seq hseq => hstored.offBase_lt (h32 hw) hseq) hmeaning hoffsets hvalid hlt
    (fun hne => hencode fun hnil => hne (by
      rw [hnil, List.length_nil] at hlength
      exact List.length_eq_zero_iff.mp hlength.symm)) hcapacity ddictIsCold
  rwa [List.length_map] at hregenerated

/-- Seven zeros from three literals and a match. -/
theorem regenerated_text_zeros :
    ∃ rep out', decompressSequences .bits64
        (BlockTables.dtables ⟨.rle 3, .rle 2, .rle 1⟩) ⟨107, 3, 100, 100, 0⟩ 7 blockSizeMax true
        ⟨1, 4, 8⟩ [4] 1 ⟨fun _ => 0, 100, 0⟩ = .ok (rep, out') ∧
      Writes ⟨107, 3, 100, 100, 0⟩ (fun _ => 0) 7 ⟨fun _ => 0, 100, 0⟩ out' := by
  obtain ⟨result, hbuilt, -, hregenerates⟩ := @Produces.regenerated_text .bits64
    ⟨false, 3, 17, 0, true, false⟩ [⟨1, 3, 4⟩, ⟨0, 0, 0⟩] 2 [⟨1, 3, 4⟩] 0 7 ⟨1, 4, 8⟩
    ⟨[], [], 10, .none, 0⟩ (.delimited 0 (by decide) rfl)
    (fun s hs => by
      rw [List.mem_singleton.mp hs]
      exact ⟨by decide, by decide, by decide⟩)
    rfl (by decide) (by decide) ⟨by decide, by decide, by decide⟩ ⟨by decide, by decide, by decide⟩
    (fun hnot => by cases hnot) (by decide) (fun hnot => by cases hnot) (fun _ => 0) 100 false
    ⟨.rle 3, .rle 2, .rle 1⟩
  have hresult : result = ⟨⟨[⟨4, 3, 1⟩], [0, 0, 0], 10, .none, 0⟩, ⟨1, 1, 4⟩, ⟨2, 0, 0⟩⟩ := by
    have hsame : (.ok (.compress
        ⟨⟨[⟨4, 3, 1⟩], [0, 0, 0], 10, .none, 0⟩, ⟨1, 1, 4⟩, ⟨2, 0, 0⟩⟩) : Except ErrorCode
          BuiltSeqStore) =
      .ok (.compress result) := hbuilt
    injection hsame with hsame
    injection hsame with hsame
    exact hsame.symm
  subst hresult
  obtain ⟨out', hout, hwrites⟩ := @hregenerates ⟨107, 3, 100, 100, 0⟩ 1024 7
    blockSizeMax ⟨fun _ => 0, 100, 0⟩ (List.replicate 20 0) [4] rfl
    ⟨fun c hc => List.mem_singleton.mp hc, fun c hc => List.mem_singleton.mp hc,
      fun c hc => List.mem_singleton.mp hc⟩
    (fun _ => rfl)
    { layout := ⟨by decide, by decide, by decide, by decide, by decide, Or.inl (by decide),
        by decide, fun a hge hlt => absurd hge (Nat.not_le_of_lt hlt)⟩
      history := fun a hge _ hlt => absurd hge (Nat.not_le_of_lt hlt)
      literals := rfl
      parses := ⟨⟨by decide, by decide, by decide, by decide, fun _ _ => rfl⟩, trivial⟩
      span_le := by decide } (by decide) true
  exact ⟨_, out', hout, hwrites⟩

end Back

end ZstdJni.Sequences
