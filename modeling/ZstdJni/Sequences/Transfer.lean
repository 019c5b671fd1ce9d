/-
# Sequences from outside

A sequence producer gives the sequences of a block as an array that ends with a delimiter.
They are transferred into the store: every offset is turned into its sum type, with or
without a search for repeated offsets, every sequence is checked if that is asked for, and
the literals are collected from the source.

If there was no search the three offsets for the next block are those of the last three
sequences, which are set at the end.  Either way they are what the decoder has after it
decoded the block, and the sum types mean the offsets that were given.
-/

import Mathlib.Data.List.Induction
import ZstdJni.Sequences.Section
import ZstdJni.Sequences.Parse

namespace ZstdJni.Sequences

open ZstdJni.Foundation ZstdJni.Native

/-- `ZSTD_Sequence`, without the field `rep`, which is not read. -/
structure ZSequence where
  offset : ℕ
  litLength : ℕ
  matchLength : ℕ
  deriving DecidableEq

/-- `ZSTD_SequencePosition`. -/
structure SequencePosition where
  idx : ℕ
  posInSequence : ℕ
  posInSrc : ℕ

/-- What the transfer reads of the compression context. -/
structure TransferParams where
  validateSequences : Bool
  minMatch : ℕ
  windowLog : ℕ
  dictSize : ℕ
  hasExtSeqProd : Bool
  /-- `externalRepSearch` is not `ZSTD_ps_disable`. -/
  externalRepSearch : Bool

/-- The sequences and the reps so far, and the place in the source. -/
structure TransferState where
  store : SeqStore
  rep : Repcodes
  posInSrc : ℕ
  ip : ℕ
  count : ℕ

section Model

variable (p : TransferParams) (src : List Byte)

/-- `offsetBound` of `ZSTD_validateSequence`. -/
def offsetBound (posInSrc : ℕ) : ℕ :=
  let windowSize := 2 ^ p.windowLog
  if windowSize < posInSrc then windowSize else posInSrc + p.dictSize

/-- `matchLenLowerBound` of `ZSTD_validateSequence`. -/
def matchLenLowerBound : ℕ := if p.minMatch = 3 ∨ p.hasExtSeqProd then 3 else 4

/-- `ZSTD_validateSequence`. -/
def validateSequence (offBase matchLength posInSrc : ℕ) : Except ErrorCode Unit :=
  if offsetBound p posInSrc + 3 < offBase then .error .externalSequencesInvalid
  else if matchLength < matchLenLowerBound p then .error .externalSequencesInvalid
  else .ok ()

/-- The sum type of an offset. -/
def offBaseOf (rep : Repcodes) (s : ZSequence) : ℕ :=
  if p.externalRepSearch then finalizeOffBase s.offset rep (ll0 s.litLength)
  else offsetToOffBase s.offset

/-- A sequence is stored. -/
def storeOne (st : TransferState) (s : ZSequence) : TransferState where
  store := storeSeq st.store s.litLength (offBaseOf p st.rep s) s.matchLength (src.drop st.ip)
  rep :=
    if p.externalRepSearch then updateRep st.rep (offBaseOf p st.rep s)
      (ll0 s.litLength) else st.rep
  posInSrc :=
    if p.validateSequences then st.posInSrc + (s.litLength + s.matchLength) % 2 ^ 32
    else st.posInSrc
  ip := st.ip + (s.matchLength + s.litLength) % 2 ^ 32
  count := st.count + 1

/-- The body of the loop of `ZSTD_transferSequences_wBlockDelim`. -/
def transferOne (st : TransferState) (s : ZSequence) : Except ErrorCode TransferState :=
  let valid :=
    if p.validateSequences then
      validateSequence p (offBaseOf p st.rep s) s.matchLength
        (st.posInSrc + (s.litLength + s.matchLength) % 2 ^ 32)
    else .ok ()
  match valid with
  | .error code => .error code
  | .ok () =>
    if st.store.maxNbSeq ≤ st.count then .error .externalSequencesInvalid
    else .ok (storeOne p src st s)

/-- The loop, up to a delimiter, and what is behind it. -/
def transferLoop : List ZSequence → TransferState →
    Except ErrorCode (TransferState × List ZSequence)
  | [], st => .ok (st, [])
  | s :: rest, st =>
    if s.matchLength ≠ 0 ∨ s.offset ≠ 0 then
      match transferOne p src st s with
      | .error code => .error code
      | .ok st' => transferLoop rest st'
    else .ok (st, s :: rest)

/-- The reps after a transfer without a search, by the last sequences of which the last comes
first. -/
def repsBehind (rep : Repcodes) : List ZSequence → Repcodes
  | [] => rep
  | [last] => ⟨last.offset, rep.rep0, rep.rep1⟩
  | [last, second] => ⟨last.offset, second.offset, rep.rep0⟩
  | last :: second :: third :: _ => ⟨last.offset, second.offset, third.offset⟩

/-- What a transfer leaves behind. -/
structure TransferResult where
  store : SeqStore
  rep : Repcodes
  seqPos : SequencePosition

/-- `ZSTD_transferSequences_wBlockDelim`. -/
def transferSequences (prevRep : Repcodes) (seqPos : SequencePosition) (inSeqs : List ZSequence)
    (store : SeqStore) : Except ErrorCode TransferResult :=
  match transferLoop p src (inSeqs.drop seqPos.idx) ⟨store, prevRep, seqPos.posInSrc, 0, 0⟩ with
  | .error code => .error code
  | .ok (_, []) => .error .externalSequencesInvalid
  | .ok (st, delimiter :: _) =>
    let rep :=
      if p.externalRepSearch then st.rep
      else repsBehind st.rep ((inSeqs.drop seqPos.idx).take st.count).reverse
    if st.ip + delimiter.litLength ≠ src.length then .error .externalSequencesInvalid
    else
      .ok {
        store := storeLastLiterals st.store (src.drop st.ip) delimiter.litLength
        rep := rep
        seqPos :=
          { idx := seqPos.idx + st.count + 1
            posInSequence := seqPos.posInSequence
            posInSrc := st.posInSrc + delimiter.litLength } }

end Model

/-- The sequences of a block: those in front of the first delimiter. -/
def blockOf (inSeqs : List ZSequence) : List ZSequence :=
  inSeqs.takeWhile fun s => s.matchLength ≠ 0 ∨ s.offset ≠ 0

section Loop

variable {p : TransferParams} {src : List Byte} {st st' : TransferState}

theorem transferOne_eq {s : ZSequence} (h : transferOne p src st s = .ok st') :
    st' = storeOne p src st s := by
  unfold transferOne at h
  simp only at h
  split at h
  · cases h
  · split_ifs at h
    exact (Except.ok.inj h).symm

/-- The loop stores all the sequences in front of the first delimiter. -/
theorem transferLoop_eq {inSeqs behind : List ZSequence}
    (h : transferLoop p src inSeqs st = .ok (st', behind)) :
    inSeqs = blockOf inSeqs ++ behind ∧ st' = (blockOf inSeqs).foldl (storeOne p src) st := by
  unfold blockOf
  induction inSeqs generalizing st with
  | nil =>
      obtain ⟨rfl, rfl⟩ := Prod.mk.inj (Except.ok.inj h)
      exact ⟨rfl, rfl⟩
  | cons s rest ih =>
      rw [transferLoop] at h
      by_cases hmore : s.matchLength ≠ 0 ∨ s.offset ≠ 0
      · rw [if_pos hmore] at h
        simp only [List.takeWhile_cons, decide_eq_true hmore, if_true]
        cases hone : transferOne p src st s with
        | error code => rw [hone] at h; cases h
        | ok next =>
            rw [hone] at h
            obtain ⟨hseqs, hst⟩ := ih h
            refine ⟨?_, ?_⟩
            · rw [List.cons_append, ← hseqs]
            · rw [hst, transferOne_eq hone, List.foldl_cons]
      · rw [if_neg hmore] at h
        simp only [List.takeWhile_cons, decide_eq_false hmore, Bool.false_eq_true, if_false]
        obtain ⟨rfl, rfl⟩ := Prod.mk.inj (Except.ok.inj h)
        exact ⟨rfl, rfl⟩

end Loop

/-- The lengths of a sequence. -/
def ZSequence.lengths (s : ZSequence) : SequenceLength := ⟨s.litLength, s.matchLength⟩

/-- A sequence as the decoder sees it. -/
def ZSequence.toSeq (s : ZSequence) : Seq := ⟨s.litLength, s.matchLength, s.offset⟩

/-- A sequence that can be stored and decoded. -/
structure ZSequence.Valid (s : ZSequence) : Prop where
  minMatch_le : Sequences.minMatch ≤ s.matchLength
  offset_pos : 0 < s.offset
  offset_lt : s.offset + 3 < 2 ^ 32

/-- The reps behind some sequences without a search. -/
def fullReps (rep : Repcodes) (seqs : List ZSequence) : Repcodes :=
  seqs.foldl (fun r s => ⟨s.offset, r.rep0, r.rep1⟩) rep

/-- Setting the reps at the end is setting them at every sequence. -/
theorem repsBehind_reverse (rep : Repcodes) (seqs : List ZSequence) :
    repsBehind rep seqs.reverse = fullReps rep seqs := by
  rw [fullReps, ← List.foldr_reverse]
  generalize seqs.reverse = lastFirst
  rcases lastFirst with - | ⟨last, - | ⟨second, - | ⟨third, rest⟩⟩⟩ <;> rfl

theorem resolve_append (r : Repcodes) (xs : List (ℕ × SequenceLength)) (offBase : ℕ)
    (l : SequenceLength) :
    resolve r (xs ++ [(offBase, l)]) =
      ((resolve r xs).1 ++ [⟨l.litLength, l.matchLength,
          (updateRep (resolve r xs).2 offBase (ll0 l.litLength)).rep0⟩],
        updateRep (resolve r xs).2 offBase (ll0 l.litLength)) := by
  induction xs generalizing r with
  | nil => rfl
  | cons x xs ih =>
      rw [List.cons_append, resolve, ih]
      rfl

theorem offsetsValid_append {r : Repcodes} {xs : List (ℕ × SequenceLength)} {offBase : ℕ}
    {l : SequenceLength} (hxs : OffsetsValid r xs)
    (hpos : 0 < (updateRep (resolve r xs).2 offBase (ll0 l.litLength)).rep0)
    (hlt : (updateRep (resolve r xs).2 offBase (ll0 l.litLength)).rep0 < 2 ^ 32) :
    OffsetsValid r (xs ++ [(offBase, l)]) := by
  induction xs generalizing r with
  | nil => exact ⟨hpos, hlt, trivial⟩
  | cons x xs ih => exact ⟨hxs.1, hxs.2.1, ih hxs.2.2 hpos hlt⟩

/-- The sum types of a store with the lengths of the sequences. -/
def pairs (s : SeqStore) (lengths : List SequenceLength) : List (ℕ × SequenceLength) :=
  (s.sequences.map SeqDef.offBase).zip lengths

theorem meaning_eq {s : SeqStore} {lengths : List SequenceLength} (h : Stores s lengths) :
    meaning s.sequences (getSequenceLength s) = pairs s lengths := by
  have hlength := h.length_eq
  refine List.ext_getElem ?_ fun i hi hi' => ?_
  · rw [length_meaning, pairs, List.length_zip, List.length_map, hlength, Nat.min_self]
  · have hinside : i < lengths.length := by
      rw [length_meaning] at hi
      omega
    have heq := h.getSequenceLength_eq i hinside
    rw [List.getD_eq_getElem _ _ hinside] at heq
    rw [length_meaning] at hi
    simp [meaning, pairs, heq, hi]

/-- The sequences that were given are in the store, and the reps are those behind them. -/
structure Stored (prevRep : Repcodes) (seqs : List ZSequence) (store : SeqStore) (rep : Repcodes) :
    Prop where
  stores : Stores store (seqs.map ZSequence.lengths)
  wellFormed : store.WellFormed
  resolve_eq : resolve prevRep (pairs store (seqs.map ZSequence.lengths)) =
    (seqs.map ZSequence.toSeq, rep)
  offsetsValid : OffsetsValid prevRep (pairs store (seqs.map ZSequence.lengths))
  repsValid : rep.Valid
  reps_lt : rep.Below (2 ^ 32)

/-- Other literals make no difference to the sequences. -/
theorem Stored.withLit {prevRep rep : Repcodes} {seqs : List ZSequence} {store : SeqStore}
    (h : Stored prevRep seqs store rep) (lit : List Byte) :
    Stored prevRep seqs { store with lit := lit } rep :=
  ⟨⟨h.stores.length_eq, h.stores.getSequenceLength_eq, h.stores.longLengthPos_lt, h.stores.long_le⟩,
    ⟨h.wellFormed.litLength_lt, h.wellFormed.mlBase_lt, h.wellFormed.offBase_pos,
      h.wellFormed.offBase_lt⟩,
    h.resolve_eq, h.offsetsValid, h.repsValid, h.reps_lt⟩

/-- The reps that the decoder has in the middle of a transfer. -/
def repsSoFar (p : TransferParams) (prevRep : Repcodes) (seqs : List ZSequence)
    (st : TransferState) : Repcodes :=
  if p.externalRepSearch then st.rep else fullReps prevRep seqs

/-- The middle of a transfer. -/
structure Transferred (p : TransferParams) (text : ℕ → Byte) (op posInSrc : ℕ) (prevRep : Repcodes)
    (seqs : List ZSequence) (st : TransferState) : Prop where
  stored : Stored prevRep seqs st.store (repsSoFar p prevRep seqs st)
  lit_eq : st.store.lit = literalsOf text op (seqs.map ZSequence.toSeq)
  rep_eq : p.externalRepSearch = false → st.rep = prevRep
  count_eq : st.count = seqs.length
  ip_eq : st.ip = span (seqs.map ZSequence.toSeq)
  posInSrc_eq : p.validateSequences = true → st.posInSrc = posInSrc + st.ip

theorem totalLength_lengths (seqs : List ZSequence) :
    totalLength (seqs.map ZSequence.lengths) = span (seqs.map ZSequence.toSeq) := by
  simp [totalLength, span, ZSequence.lengths, ZSequence.toSeq, Function.comp_def]

theorem span_toSeq_append (seqs : List ZSequence) (s : ZSequence) :
    span ((seqs ++ [s]).map ZSequence.toSeq) =
      span (seqs.map ZSequence.toSeq) + (s.litLength + s.matchLength) := by
  rw [List.map_append, span_append, List.map_singleton, span_cons]
  rfl

section Stored

variable {p : TransferParams} {text : ℕ → Byte} {src : List Byte} {op n posInSrc : ℕ}
  {prevRep : Repcodes} {seqs : List ZSequence} {st : TransferState} {s : ZSequence}

theorem transferred_nil (p : TransferParams) (text : ℕ → Byte) (op : ℕ) (store : SeqStore)
    (posInSrc : ℕ) (hvalid : prevRep.Valid) (hlt : prevRep.Below (2 ^ 32)) :
    Transferred p text op posInSrc prevRep [] ⟨resetSeqStore store, prevRep, posInSrc, 0, 0⟩ := by
  have hrep : repsSoFar p prevRep [] ⟨resetSeqStore store, prevRep, posInSrc, 0, 0⟩ = prevRep := by
    rw [repsSoFar, fullReps, List.foldl_nil, ite_self]
  refine ⟨?_, rfl, fun _ => rfl, rfl, rfl, fun _ => rfl⟩
  rw [hrep]
  exact ⟨stores_resetSeqStore store, wellFormed_resetSeqStore store, rfl, trivial, hvalid, hlt⟩

/-- The sum type that is stored means the offset that was given. -/
theorem updateRep_offBaseOf (src : List Byte)
    (h : Transferred p text op posInSrc prevRep seqs st) (hs : s.Valid) :
    updateRep (repsSoFar p prevRep seqs st) (offBaseOf p st.rep s) (ll0 s.litLength) =
        repsSoFar p prevRep (seqs ++ [s]) (storeOne p src st s) ∧
      (updateRep (repsSoFar p prevRep seqs st) (offBaseOf p st.rep s) (ll0 s.litLength)).rep0 =
        s.offset ∧
      0 < offBaseOf p st.rep s ∧ offBaseOf p st.rep s ≤ s.offset + 3 := by
  obtain ⟨-, hpos, hlt⟩ := hs
  have hvalid := h.stored.repsValid
  have hless := h.stored.reps_lt.rep0_lt
  unfold repsSoFar at hvalid hless ⊢
  unfold offBaseOf storeOne
  cases hsearch : p.externalRepSearch with
  | true =>
      simp only [hsearch, if_true] at hvalid hless ⊢
      have hspec := finalizeOffBase_spec st.rep (ll0_le s.litLength) hlt
      refine ⟨?_, rep0_updateRep hvalid hless (ll0_le _) hpos hlt, by omega, by omega⟩
      simp only [offBaseOf, hsearch, if_true]
  | false =>
      have hfull : (s.offset + 3) % 2 ^ 32 = s.offset + 3 := Nat.mod_eq_of_lt hlt
      simp only [Bool.false_eq_true, if_false]
      rw [updateRep_full _ _ hpos hlt, offsetToOffBase, hfull]
      refine ⟨?_, rfl, by omega, Nat.le_refl _⟩
      rw [fullReps, fullReps, List.foldl_append]
      rfl

/-- One more sequence. -/
theorem Stored.storeSeq {store : SeqStore} {rep : Repcodes} {offBase : ℕ}
    (h : Stored prevRep seqs store rep) (hs : s.Valid) (hpos : 0 < offBase) (hlt : offBase < 2 ^ 32)
    (hoffset : (updateRep rep offBase (ll0 s.litLength)).rep0 = s.offset)
    (hblock : span ((seqs ++ [s]).map ZSequence.toSeq) ≤ blockSizeMax) (literals : List Byte) :
    Stored prevRep (seqs ++ [s]) (storeSeq store s.litLength offBase s.matchLength literals)
      (updateRep rep offBase (ll0 s.litLength)) := by
  have hless := hs.offset_lt
  have hlit := h.withLit (store.lit ++ literals.take s.litLength)
  rw [← totalLength_lengths, List.map_append, List.map_singleton] at hblock
  have hpairs : pairs (Sequences.storeSeq store s.litLength offBase s.matchLength literals)
      ((seqs ++ [s]).map ZSequence.lengths) =
        pairs store (seqs.map ZSequence.lengths) ++ [(offBase, s.lengths)] := by
    have hlength : (store.sequences.map SeqDef.offBase).length =
        (seqs.map ZSequence.lengths).length := by
      rw [List.length_map, h.stores.length_eq]
    rw [pairs, pairs, Sequences.storeSeq, sequences_storeSeqOnly, List.map_append, List.map_append,
      List.zip_append hlength]
    rfl
  refine ⟨?_, hlit.wellFormed.storeSeqOnly s.litLength s.matchLength hpos hlt, ?_, ?_,
    valid_updateRep h.repsValid (hoffset ▸ hs.offset_pos), h.reps_lt.updateRep (by omega)⟩
  · rw [List.map_append, List.map_singleton]
    exact hlit.stores.storeSeqOnly offBase hs.minMatch_le hblock
  · rw [hpairs, resolve_append, h.resolve_eq, List.map_append, List.map_singleton]
    simp only [ZSequence.lengths, hoffset]
    rfl
  · rw [hpairs]
    refine offsetsValid_append h.offsetsValid ?_ ?_
    · rw [h.resolve_eq]
      simp only [ZSequence.lengths, hoffset]
      exact hs.offset_pos
    · rw [h.resolve_eq]
      simp only [ZSequence.lengths, hoffset]
      omega

/-- One more sequence is transferred. -/
theorem Transferred.storeOne (h : Transferred p text op posInSrc prevRep seqs st) (hs : s.Valid)
    (hfits : span ((seqs ++ [s]).map ZSequence.toSeq) ≤ n) (hn : n ≤ blockSizeMax) :
    Transferred p text op posInSrc prevRep (seqs ++ [s]) (storeOne p (bytesAt text op n) st s) := by
  obtain ⟨hupdate, hoffset, hpos, hle⟩ := updateRep_offBaseOf (bytesAt text op n) h hs
  have hless := hs.offset_lt
  have hip := h.ip_eq
  have hspan := span_toSeq_append seqs s
  have hsum : (s.matchLength + s.litLength) % 2 ^ 32 = s.litLength + s.matchLength := by
    rw [blockSizeMax] at hn
    omega
  refine ⟨?_, ?_, fun hsearch => ?_, ?_, ?_, fun hvalidate => ?_⟩
  · rw [← hupdate]
    exact h.stored.storeSeq hs hpos (by omega) hoffset (hfits.trans hn) _
  · rw [List.map_append, List.map_singleton, literalsOf_append, ← h.lit_eq, Sequences.storeOne, hip,
      storeSeq, lit_storeSeqOnly, take_drop_bytesAt text op (by omega)]
    rfl
  · rw [← h.rep_eq hsearch, Sequences.storeOne, hsearch]
    rfl
  · rw [Sequences.storeOne, h.count_eq, List.length_append, List.length_singleton]
  · rw [hspan, ← hip, Sequences.storeOne, hsum]
  · have hmoved := h.posInSrc_eq hvalidate
    simp only [Sequences.storeOne, hvalidate, if_true, hmoved]
    omega

/-- All the sequences are transferred. -/
theorem transferred_foldl (p : TransferParams) (text : ℕ → Byte) (op : ℕ) (store : SeqStore)
    (posInSrc : ℕ) (hvalid : prevRep.Valid) (hlt : prevRep.Below (2 ^ 32))
    (hseqs : ∀ s ∈ seqs, s.Valid) (hfits : span (seqs.map ZSequence.toSeq) ≤ n)
    (hn : n ≤ blockSizeMax) :
    Transferred p text op posInSrc prevRep seqs
      (seqs.foldl (storeOne p (bytesAt text op n))
        ⟨resetSeqStore store, prevRep, posInSrc, 0, 0⟩) := by
  induction seqs using List.reverseRecOn with
  | nil => exact transferred_nil p text op store posInSrc hvalid hlt
  | append_singleton seqs s ih =>
      have hspan := span_toSeq_append seqs s
      have hfront := ih (fun s' hs' => hseqs s' (List.mem_append_left [s] hs')) (by omega)
      rw [List.foldl_append]
      exact hfront.storeOne (hseqs s (by simp)) hfits hn

/-- The sequences pass the checks that are made if they are asked for. -/
def Admitted (p : TransferParams) : ℕ → List ZSequence → Prop
  | _, [] => True
  | posInSrc, s :: rest =>
    s.offset ≤ offsetBound p (posInSrc + (s.litLength + s.matchLength)) ∧
      matchLenLowerBound p ≤ s.matchLength ∧
        Admitted p (posInSrc + (s.litLength + s.matchLength)) rest

theorem admitted_append {rest : List ZSequence}
    (h : Admitted p posInSrc (seqs ++ s :: rest)) :
    s.offset ≤ offsetBound p
        (posInSrc + span (seqs.map ZSequence.toSeq) + (s.litLength + s.matchLength)) ∧
      matchLenLowerBound p ≤ s.matchLength := by
  induction seqs generalizing posInSrc with
  | nil => exact ⟨h.1, h.2.1⟩
  | cons s' seqs ih =>
      have hbehind := ih h.2.2
      rw [List.map_cons, span_cons]
      rwa [Nat.add_assoc posInSrc] at hbehind

/-- A sequence that is admitted is not refused, as long as there is room in the store. -/
theorem Transferred.transferOne (h : Transferred p text op posInSrc prevRep seqs st)
    (hs : s.Valid) (hfits : span ((seqs ++ [s]).map ZSequence.toSeq) ≤ n) (hn : n ≤ blockSizeMax)
    {rest : List ZSequence}
    (hadmitted : p.validateSequences = true → Admitted p posInSrc (seqs ++ s :: rest))
    (hroom : seqs.length < st.store.maxNbSeq) :
    transferOne p src st s = .ok (Sequences.storeOne p src st s) := by
  obtain ⟨-, -, -, hle⟩ := updateRep_offBaseOf src h hs
  have hspan := span_toSeq_append seqs s
  have hcount := h.count_eq
  have hsum : (s.litLength + s.matchLength) % 2 ^ 32 = s.litLength + s.matchLength := by
    rw [blockSizeMax] at hn
    omega
  unfold Sequences.transferOne
  cases hvalidate : p.validateSequences with
  | false =>
      simp only [Bool.false_eq_true, if_false]
      rw [if_neg (by omega)]
  | true =>
      obtain ⟨hoffset, hmatch⟩ := admitted_append (hadmitted hvalidate)
      have hvalid : validateSequence p (offBaseOf p st.rep s) s.matchLength
          (st.posInSrc + (s.litLength + s.matchLength)) = .ok () := by
        rw [← h.ip_eq, ← h.posInSrc_eq hvalidate] at hoffset
        unfold validateSequence
        rw [if_neg (by omega), if_neg (by omega)]
      simp only [if_true, hsum, hvalid]
      rw [if_neg (by omega)]

@[simp]
theorem maxNbSeq_storeOne : (storeOne p src st s).store.maxNbSeq = st.store.maxNbSeq := by
  simp [storeOne, storeSeq]

@[simp]
theorem maxNbSeq_foldl (seqs : List ZSequence) :
    (seqs.foldl (storeOne p src) st).store.maxNbSeq = st.store.maxNbSeq := by
  induction seqs generalizing st with
  | nil => rfl
  | cons s seqs ih => rw [List.foldl_cons, ih, maxNbSeq_storeOne]

/-- The loop transfers all the sequences in front of a delimiter if they are admitted and there
is room for them. -/
theorem transferLoop_ok (front rest : List ZSequence) {behind : List ZSequence}
    {delimiter : ZSequence} (h : Transferred p text op posInSrc prevRep front st)
    (hseqs : ∀ s ∈ behind, s.Valid) (hfits : span ((front ++ behind).map ZSequence.toSeq) ≤ n)
    (hn : n ≤ blockSizeMax)
    (hadmitted : p.validateSequences = true → Admitted p posInSrc (front ++ behind))
    (hroom : (front ++ behind).length ≤ st.store.maxNbSeq)
    (hdelimiter : delimiter.matchLength = 0 ∧ delimiter.offset = 0) :
    transferLoop p (bytesAt text op n) (behind ++ delimiter :: rest) st =
      .ok (behind.foldl (Sequences.storeOne p (bytesAt text op n)) st, delimiter :: rest) := by
  induction behind generalizing front st with
  | nil =>
      rw [List.nil_append, transferLoop, if_neg (by omega)]
      rfl
  | cons s behind ih =>
      have hs := hseqs s List.mem_cons_self
      have hpos := hs.offset_pos
      have hsplit : front ++ s :: behind = front ++ [s] ++ behind := by simp
      have hlength : (front ++ s :: behind).length = front.length + behind.length + 1 := by
        rw [List.length_append, List.length_cons]
        omega
      have hone : span ((front ++ [s]).map ZSequence.toSeq) ≤ n := by
        rw [hsplit, List.map_append, span_append] at hfits
        omega
      rw [List.cons_append, transferLoop, if_pos (by omega),
        h.transferOne hs hone hn hadmitted (by omega), List.foldl_cons]
      refine ih (front ++ [s]) (h.storeOne hs hone hn) (fun s' hs' =>
        hseqs s' (List.mem_cons_of_mem s hs')) ?_ ?_ ?_
      · rwa [← hsplit]
      · rwa [← hsplit]
      · rw [← hsplit, maxNbSeq_storeOne]
        exact hroom

/-- What a transfer that does not fail leaves behind. -/
theorem transferSequences_spec {store : SeqStore} {seqPos : SequencePosition}
    {inSeqs : List ZSequence} {result : TransferResult}
    (h : transferSequences p (bytesAt text op n) prevRep seqPos inSeqs (resetSeqStore store) =
      .ok result)
    (hvalid : prevRep.Valid) (hlt : prevRep.Below (2 ^ 32))
    (hseqs : ∀ s ∈ blockOf (inSeqs.drop seqPos.idx), s.Valid)
    (hfits : span ((blockOf (inSeqs.drop seqPos.idx)).map ZSequence.toSeq) ≤ n)
    (hn : n ≤ blockSizeMax) :
    Stored prevRep (blockOf (inSeqs.drop seqPos.idx)) result.store result.rep ∧
      result.store.lit =
        blockLiterals text op n ((blockOf (inSeqs.drop seqPos.idx)).map ZSequence.toSeq) := by
  have hall := transferred_foldl p text op store seqPos.posInSrc hvalid hlt hseqs hfits hn
  unfold transferSequences at h
  cases hloop : transferLoop p (bytesAt text op n) (inSeqs.drop seqPos.idx)
      ⟨resetSeqStore store, prevRep, seqPos.posInSrc, 0, 0⟩ with
  | error code => rw [hloop] at h; cases h
  | ok done =>
      obtain ⟨st, behind⟩ := done
      obtain ⟨hsplit, hst⟩ := transferLoop_eq hloop
      rw [← hst] at hall
      rw [hloop] at h
      cases behind with
      | nil => cases h
      | cons delimiter rest =>
          simp only [length_bytesAt] at h
          by_cases hend : st.ip + delimiter.litLength ≠ n
          · rw [if_pos hend] at h
            cases h
          rw [if_neg hend] at h
          obtain rfl := Except.ok.inj h
          have hip := hall.ip_eq
          have htake : (inSeqs.drop seqPos.idx).take st.count =
            blockOf (inSeqs.drop seqPos.idx) := by
            rw [hall.count_eq]
            exact (congrArg (List.take _) hsplit).trans (List.take_left' rfl)
          have hrest : delimiter.litLength = n - st.ip := by omega
          refine ⟨?_, ?_⟩
          · have hstored := hall.stored
            unfold repsSoFar at hstored
            rw [htake, repsBehind_reverse]
            refine Stored.withLit ?_ _
            cases hsearch : p.externalRepSearch with
            | true => simpa only [hsearch, if_true] using hstored
            | false =>
                rw [hall.rep_eq hsearch]
                simpa only [hsearch, Bool.false_eq_true, if_false] using hstored
          · rw [storeLastLiterals, hall.lit_eq, blockLiterals, hip, ← hip, hrest,
              take_drop_bytesAt text op (by omega), hip]

/-- Sequences that fill the block and are admitted are transferred, if there is room for them. -/
theorem transferSequences_ok (p : TransferParams) (text : ℕ → Byte) (op : ℕ) {store : SeqStore}
    {seqPos : SequencePosition} {inSeqs : List ZSequence} {delimiter : ZSequence}
    {rest : List ZSequence}
    (hinSeqs : inSeqs.drop seqPos.idx = seqs ++ delimiter :: rest)
    (hdelimiter : delimiter.matchLength = 0 ∧ delimiter.offset = 0)
    (hvalid : prevRep.Valid) (hlt : prevRep.Below (2 ^ 32)) (hseqs : ∀ s ∈ seqs, s.Valid)
    (hfill : span (seqs.map ZSequence.toSeq) + delimiter.litLength = n) (hn : n ≤ blockSizeMax)
    (hadmitted : p.validateSequences = true → Admitted p seqPos.posInSrc seqs)
    (hroom : seqs.length ≤ store.maxNbSeq) :
    ∃ result, transferSequences p (bytesAt text op n) prevRep seqPos inSeqs (resetSeqStore store) =
      .ok result := by
  have hfits : span (seqs.map ZSequence.toSeq) ≤ n := by omega
  have hall := transferred_foldl p text op store seqPos.posInSrc hvalid hlt hseqs hfits hn
  have hloop := transferLoop_ok [] rest
    (transferred_nil p text op store seqPos.posInSrc hvalid hlt) hseqs hfits hn hadmitted hroom
    hdelimiter
  have hip := hall.ip_eq
  unfold transferSequences
  rw [hinSeqs, hloop]
  simp only [length_bytesAt]
  rw [if_neg (by omega)]
  exact ⟨_, rfl⟩

theorem blockOf_append {delimiter : ZSequence} (rest : List ZSequence)
    (hdelimiter : delimiter.matchLength = 0 ∧ delimiter.offset = 0) (hseqs : ∀ s ∈ seqs, s.Valid) :
    blockOf (seqs ++ delimiter :: rest) = seqs := by
  unfold blockOf
  rw [List.takeWhile_append_of_pos]
  · simp [hdelimiter]
  · intro s hs
    have hpos := (hseqs s hs).offset_pos
    exact decide_eq_true (Or.inr (by omega))

end Stored

end ZstdJni.Sequences
