/-
# Tables described in a block

The encoder chooses where the table for one kind of codes comes from, builds it and writes
down what the decoder needs for its own.  The last code of a block is not counted: it is the
state that the encoder starts in.  The decoder reads the description and builds its table.
Whatever is chosen, it is the table that belongs to the encoder's, it has all the codes of
the block, and the decoder finds the end of the description.
-/

import Mathlib.Algebra.Order.BigOperators.Group.List
import ZstdJni.Entropy.NCountRoundTrip
import ZstdJni.Sequences.Select

namespace ZstdJni.Sequences

open ZstdJni.Foundation ZstdJni.Native ZstdJni.Entropy

/-- A table of the encoder, with the mode of repeating it. -/
structure FseCTable where
  repeatMode : FseRepeat
  ctable : CTable

/-- The counts and the number of sequences that `ZSTD_buildCTable` normalizes. -/
def withoutLast (count codeTable : List ℕ) (nbSeq : ℕ) : List ℕ × ℕ :=
  let last := codeTable.getD (nbSeq - 1) 0
  if 1 < count.getD last 0 then (count.set last (count.getD last 0 - 1), nbSeq - 1)
  else (count, nbSeq)

/-- `ZSTD_buildCTable`, with the table and the bytes that describe it. -/
def buildSeqCTable (dstCapacity FSELog : ℕ) (type : SymbolEncodingType) (count codeTable : List ℕ)
    (nbSeq : ℕ) (defaultNorm : NormalizedCounter) (prevCTable : CTable) :
    Except ErrorCode (CTable × List Byte) :=
  match type with
  | .rle =>
    if dstCapacity = 0 then .error .dstSizeTooSmall
    else .ok (buildCTableRle (count.length - 1), [UInt8.ofNat (codeTable.getD 0 0)])
  | .repeated => .ok (prevCTable, [])
  | .basic => .ok (defaultNorm.ctable, [])
  | .compressed =>
    let tableLog := optimalTableLog FSELog nbSeq (count.length - 1)
    let (count, nbSeq_1) := withoutLast count codeTable nbSeq
    match normalizeCount tableLog count nbSeq_1 (useLowProbCount nbSeq_1) with
    | .error code => .error code
    | .ok norm =>
      match writeNCount dstCapacity (norm.getD []) tableLog with
      | .error code => .error code
      | .ok bytes => .ok (buildCTable (norm.getD []) tableLog, bytes)

/-- `ZSTD_buildSeqTable`, with the table and the bytes that are read. -/
def buildSeqTable (k : CodeKind) (type : SymbolEncodingType) (src : List Byte) (prevTable : DTable)
    (flagRepeatTable : Bool) : Except ErrorCode (DTable × ℕ) :=
  match type with
  | .rle =>
    match src with
    | [] => .error .srcSizeWrong
    | symbol :: _ =>
      if k.max < symbol.toNat then .error .corruptionDetected
      else
        .ok (buildSeqTableRle (k.baseValue.getD symbol.toNat 0)
          (k.nbAdditionalBits.getD symbol.toNat 0), 1)
  | .basic => .ok (k.defaultTable, 0)
  | .repeated => if flagRepeatTable then .ok (prevTable, 0) else .error .corruptionDetected
  | .compressed =>
    match readNCount src k.max with
    | .error _ => .error .corruptionDetected
    | .ok r =>
      if k.maxLog < r.tableLog then .error .corruptionDetected
      else
        .ok (buildFSETable (r.normalizedCounter.take (r.maxSymbolValue + 1)) k.baseValue
          k.nbAdditionalBits r.tableLog, r.size)

section Sound

/-- The zeros behind the last symbol have no slots. -/
theorem sum_slots_take {counts : List ℤ} {last : ℕ}
    (hzeros : ∀ i, last < i → counts.getD i 0 = 0) :
    ((counts.take (last + 1)).map slots).sum = (counts.map slots).sum := by
  have hnone : ((counts.drop (last + 1)).map slots).sum = 0 := by
    refine List.sum_eq_zero fun x hx => ?_
    obtain ⟨n, hn, rfl⟩ := List.mem_map.mp hx
    obtain ⟨i, hi, rfl⟩ := List.getElem_of_mem hn
    have hzero := hzeros (last + 1 + i) (by omega)
    rw [List.length_drop] at hi
    rw [List.getD_eq_getElem _ _ (by omega)] at hzero
    rw [List.getElem_drop, hzero]
    rfl
  conv_rhs => rw [← List.take_append_drop (last + 1) counts]
  rw [List.map_append, List.sum_append, hnone]
  exact (Nat.add_zero _).symm

/-- A source of tables without codes that the kind does not have. -/
def TableSource.Bounded {k : CodeKind} (source : TableSource k) : Prop :=
  match source with
  | .basic => True
  | .rle symbol => symbol ≤ k.max
  | .compressed norm _ => norm.counts.length ≤ k.max + 1

/-- A table of the decoder that is built for codes that the kind has. -/
def OfSource (k : CodeKind) (table : DTable) : Prop :=
  ∃ source : TableSource k, source.Bounded ∧ table = source.dtable

/-- Whatever the bytes are, a table that is built from them is one that an encoder can have,
and no more is read than there is. -/
theorem buildSeqTable_sound {k : CodeKind} {type : SymbolEncodingType} {src : List Byte}
    {prevTable table : DTable} {flagRepeatTable : Bool} {size : ℕ}
    (hprev : flagRepeatTable = true → OfSource k prevTable)
    (h : buildSeqTable k type src prevTable flagRepeatTable = .ok (table, size)) :
    size ≤ src.length ∧ OfSource k table := by
  cases type with
  | basic =>
      cases h
      exact ⟨Nat.zero_le _, .basic, trivial, rfl⟩
  | rle =>
      cases src with
      | nil => cases h
      | cons symbol rest =>
          simp only [buildSeqTable] at h
          split_ifs at h with hlarge
          cases h
          exact ⟨Nat.succ_le_succ (Nat.zero_le _), .rle symbol.toNat,
            Nat.le_of_not_lt hlarge, rfl⟩
  | repeated =>
      simp only [buildSeqTable] at h
      split_ifs at h with hflag
      cases h
      exact ⟨Nat.zero_le _, hprev hflag⟩
  | compressed =>
      simp only [buildSeqTable] at h
      cases hread : readNCount src k.max with
      | error code =>
          rw [hread] at h
          cases h
      | ok r =>
          have hsound := readNCount_sound hread
          have hmax := k.maxLog_le
          rw [hread] at h
          simp only at h
          split_ifs at h with hlog
          cases h
          have hle := Nat.le_of_not_lt hlog
          exact ⟨hsound.size_le, .compressed
            { counts := r.normalizedCounter.take (r.maxSymbolValue + 1)
              tableLog := r.tableLog
              count_ge := fun n hn => hsound.count_ge n (List.mem_of_mem_take hn)
              sum_slots := (sum_slots_take hsound.zeros).trans hsound.sum_slots
              tableLog_ge := hsound.tableLog_ge
              tableLog_le := by omega } hle,
            (List.length_take_le' _ _).trans hsound.length_eq.le, rfl⟩

end Sound

section Reduce

variable {codes count : List ℕ} {hist : Histogram} {i j s : ℕ}

/-- Two counts are no more than all together. -/
theorem getD_add_getD_le_sum (hi : i < count.length) (hj : j < count.length) (hne : i ≠ j) :
    count.getD i 0 + count.getD j 0 ≤ count.sum := by
  have hsum := sum_set hi 0
  have hmem : (count.set i 0).getD j 0 ∈ count.set i 0 := by
    rw [List.getD_eq_getElem _ _ (by rwa [List.length_set])]
    exact List.getElem_mem _
  have hle := List.le_sum_of_mem hmem
  rw [getD_set _ _ _ _ fun _ => hi, if_neg hne] at hle
  omega

/-- The counts without the last code: every code still occurs, and none of them everywhere. -/
structure Reduced (codes : List ℕ) (hist : Histogram) (count : List ℕ) (total : ℕ) : Prop where
  length_eq : count.length = hist.count.length
  sum_eq : count.sum = total
  total_pos : 0 < total
  total_le : total ≤ codes.length
  mixed : ∀ n ∈ count, n ≠ total
  occurs : ∀ s ∈ codes, count.getD s 0 ≠ 0

theorem Histogram.Of.reduced (h : hist.Of codes) (hnot : hist.largestCount ≠ codes.length) :
    Reduced codes hist (withoutLast hist.count codes codes.length).1
      (withoutLast hist.count codes codes.length).2 := by
  obtain ⟨-, hmixed⟩ := h.mixed hnot
  have hpos : 0 < codes.length := List.length_pos_of_mem h.last_mem
  unfold withoutLast
  simp only
  generalize codes.getD (codes.length - 1) 0 = last
  by_cases hspare : 1 < hist.count.getD last 0
  · have hlast : last < hist.count.length := by
      by_contra hout
      rw [List.getD_eq_default _ _ (by omega)] at hspare
      omega
    have hsum := sum_set hlast (hist.count.getD last 0 - 1)
    have hall := h.sum_eq
    have hle : hist.count.getD last 0 ≤ codes.length := by
      rw [h.count_eq]
      exact List.count_le_length
    rw [if_pos hspare]
    refine ⟨List.length_set, by simp only; omega, by simp only; omega, Nat.sub_le _ _, ?_, ?_⟩
    · intro n hn heq
      obtain ⟨i, hi, rfl⟩ := List.getElem_of_mem hn
      simp only at hi heq
      rw [List.length_set] at hi
      by_cases hsame : last = i
      · -- the last code would occur everywhere
        subst hsame
        rw [List.getElem_set_self] at heq
        refine hmixed (hist.count.getD last 0) ?_ (by omega)
        rw [List.getD_eq_getElem _ _ hlast]
        exact List.getElem_mem hlast
      · have hpair := getD_add_getD_le_sum hlast hi hsame
        rw [List.getElem_set_ne hsame, ← List.getD_eq_getElem _ 0 hi] at heq
        omega
    · intro s hs
      simp only
      rw [getD_set _ _ _ _ fun _ => hlast]
      by_cases hsame : last = s
      · rw [if_pos hsame]
        omega
      · rw [if_neg hsame]
        exact h.getD_ne hs
  · rw [if_neg hspare]
    exact ⟨rfl, h.sum_eq, hpos, Nat.le_refl _, hmixed, fun s hs => h.getD_ne hs⟩

end Reduce

section Described

variable {w : WordSize} {k : CodeKind} {codes : List ℕ} {hist : Histogram} {dstCapacity : ℕ}
  {flagRepeatTable : Bool} {prev : FseCTable} {prevTable : DTable}

/-- A table of the encoder and its description, from which the decoder builds the table that
belongs to it.  A description has two bytes for a code at most. -/
structure Described (k : CodeKind) (type : SymbolEncodingType) (flagRepeatTable : Bool)
    (prevTable : DTable) (source : TableSource k) (built : CTable × List Byte) : Prop where
  ctable_eq : built.1 = source.ctable
  reads : ∀ behind, buildSeqTable k type (built.2 ++ behind) prevTable flagRepeatTable =
    .ok (source.dtable, built.2.length)
  length_le : built.2.length ≤ 130

theorem toNat_ofNat {n : ℕ} (hn : n < 256) : (UInt8.ofNat n).toNat = n :=
  UInt8.toNat_ofNat_of_lt' hn

theorem described_basic (k : CodeKind) (flagRepeatTable : Bool) (prevTable : DTable) :
    Described k .basic flagRepeatTable prevTable .basic (k.defaultNorm.ctable, []) :=
  ⟨rfl, fun _ => rfl, Nat.zero_le _⟩

theorem described_repeated (source : TableSource k) :
    Described k .repeated true source.dtable source (source.ctable, []) :=
  ⟨rfl, fun _ => rfl, Nat.zero_le _⟩

/-- One code is described by itself. -/
theorem described_rle {symbol : ℕ} (hle : symbol ≤ k.max) (flagRepeatTable : Bool)
    (prevTable : DTable) :
    Described k .rle flagRepeatTable prevTable (.rle symbol)
      (buildCTableRle symbol, [UInt8.ofNat symbol]) := by
  have hmax := k.max_lt
  refine ⟨rfl, fun behind => ?_, Nat.le_add_left 1 129⟩
  simp only [buildSeqTable, List.cons_append, List.nil_append,
    toNat_ofNat (show symbol < 256 by omega)]
  exact if_neg (by omega)

/-- Normalized counts of which the last one is not zero are read back. -/
theorem buildSeqTable_fieldBytes (c : NormalizedCounter) (hlog : c.tableLog ≤ k.maxLog)
    (hpos : 0 < c.counts.length) (hmax : c.counts.length ≤ k.max + 1)
    (hlast : c.counts.getD (c.counts.length - 1) 0 ≠ 0) (prevTable : DTable)
    (flagRepeatTable : Bool) (behind : List Byte) :
    buildSeqTable k .compressed (fieldBytes (ncountFields c.counts c.tableLog) ++ behind) prevTable
        flagRepeatTable =
      .ok (buildFSETable c.counts k.baseValue k.nbAdditionalBits c.tableLog,
        (fieldBytes (ncountFields c.counts c.tableLog)).length) := by
  have hlarge := c.tableLog_le
  obtain ⟨r, hr, hread⟩ := readNCount_fieldBytes behind c.count_ge c.sum_slots c.tableLog_ge
    (show c.tableLog ≤ 15 by omega) hmax
  have hsound := readNCount_sound hr
  have hcounts := hread.counts_eq
  have hfront : r.normalizedCounter.getD (c.counts.length - 1) 0 ≠ 0 := by
    rwa [hcounts, List.getD_append _ _ _ _ (by omega)]
  have hsame : r.maxSymbolValue = c.counts.length - 1 := by
    refine Nat.le_antisymm ?_ ?_
    · by_contra hout
      refine hsound.last ?_
      rw [hcounts, List.getD_append_right _ _ _ _ (by omega), List.getD_eq_getElem?_getD,
        List.getElem?_getD_replicate_default_eq]
    · by_contra hout
      exact hfront (hsound.zeros _ (by omega))
  simp only [buildSeqTable, hr]
  rw [hread.tableLog_eq, if_neg (by omega), hread.size_eq, hcounts, hsame, Nat.sub_add_cancel hpos,
    List.take_left']
  rfl

/-- Counts of which a symbol is the last one that occurs describe a table. -/
theorem described_compressed (c : NormalizedCounter) (hlog : c.tableLog ≤ k.maxLog)
    (hpos : 0 < c.counts.length) (hmax : c.counts.length ≤ k.max + 1)
    (hlast : 0 < c.slotsOf (c.counts.length - 1)) (flagRepeatTable : Bool) (prevTable : DTable) :
    Described k .compressed flagRepeatTable prevTable (.compressed c hlog)
      (c.ctable, fieldBytes (ncountFields c.counts c.tableLog)) := by
  have hlarge := k.max_lt
  have hshort := length_fieldBytes_le c.counts c.tableLog_le
  have hnonzero : c.counts.getD (c.counts.length - 1) 0 ≠ 0 := by
    intro hzero
    rw [List.getD_eq_getElem _ _ (by omega)] at hzero
    rw [NormalizedCounter.slotsOf, List.getElem?_eq_getElem (by omega), Option.map_some,
      Option.getD_some, hzero] at hlast
    exact absurd hlast (by decide)
  exact ⟨rfl, buildSeqTable_fieldBytes c hlog hpos hmax hnonzero prevTable flagRepeatTable,
    by simp only; omega⟩

/-- The default table has every code up to its end. -/
theorem CodeKind.default_has (k : CodeKind) {s : ℕ} (hs : s < k.defaultNorm.counts.length) :
    0 < k.defaultNorm.slotsOf s := by
  rw [NormalizedCounter.slotsOf, List.getElem?_eq_getElem hs]
  exact Nat.pos_of_ne_zero (k.default_slots _ (List.getElem_mem hs))

/-- The counts of a block without the last code are normalized, and written if there is room. -/
theorem Histogram.Of.buildSeqCTable (h : hist.Of codes) (hnot : hist.largestCount ≠ codes.length)
    (hlt : codes.length < 2 ^ 32) (hmax : hist.count.length ≤ 64) (k : CodeKind)
    (defaultNorm : NormalizedCounter) (prevCTable : CTable) :
    ∃ c : NormalizedCounter, c.tableLog ≤ k.maxLog ∧ c.counts.length = hist.count.length ∧
      (∀ s ∈ codes, 0 < c.slotsOf s) ∧
      (dstCapacity < 512 ∧
          buildSeqCTable dstCapacity k.maxLog .compressed hist.count codes codes.length defaultNorm
            prevCTable = .error .dstSizeTooSmall ∨
        buildSeqCTable dstCapacity k.maxLog .compressed hist.count codes codes.length defaultNorm
          prevCTable = .ok (c.ctable, fieldBytes (ncountFields c.counts c.tableLog))) := by
  obtain ⟨hmany, -⟩ := h.mixed hnot
  have hreduced := h.reduced hnot
  have hlog := k.maxLog_le
  obtain ⟨hle, hge, hle'⟩ := h.tableLog_spec hnot hmax k.maxLog_ge (show k.maxLog ≤ 12 by omega)
  unfold Sequences.buildSeqCTable
  simp only
  generalize optimalTableLog k.maxLog codes.length (hist.count.length - 1) = tableLog at *
  generalize hcount : (withoutLast hist.count codes codes.length).1 = count at *
  generalize htotal : (withoutLast hist.count codes codes.length).2 = total at *
  have hlength := hreduced.length_eq
  have hmin' : minTableLog total (count.length - 1) ≤ tableLog := by
    rw [hlength]
    exact Nat.le_trans (minTableLog_mono _ hreduced.total_pos hreduced.total_le hlt) hle
  obtain ⟨norm, hnorm, hshared⟩ := normalizeCount_spec (useLowProbCount total)
    (show 1 < count.length by omega) hreduced.sum_eq (Nat.lt_of_le_of_lt hreduced.total_le hlt)
    hreduced.mixed hge (show tableLog ≤ 12 by omega) hmin'
  have hsymbols := hshared.fair.length_eq
  refine ⟨⟨norm, tableLog, hshared.count_ge, hshared.sum_slots, hge, by omega⟩, hle',
    hsymbols.symm.trans hlength, fun s hs => ?_, ?_⟩
  · have hs' : s < count.length := by
      rw [hlength]
      exact h.lt_length hs
    have hfair := forall₂_getD hshared.fair hs'
    have hslots := hfair.occurs.mpr (Nat.pos_of_ne_zero (hreduced.occurs s hs))
    rw [List.getD_eq_getElem _ _ (by omega)] at hslots
    rw [NormalizedCounter.slotsOf, List.getElem?_eq_getElem (show s < norm.length by omega)]
    exact hslots
  · rw [hnorm]
    simp only [Option.getD_some]
    rw [writeNCount_eq hshared.count_ge hshared.sum_slots hge (by omega)]
    split_ifs with hroom
    · exact Or.inr rfl
    · have hbound := ncountWriteBound_le (show norm.length - 1 + 1 ≤ 64 by omega)
        (show tableLog ≤ 12 by omega)
      exact Or.inl ⟨by omega, rfl⟩

/-- A source that may be repeated for the codes of a block: it has all of them if it is marked
as valid, or if it is for one code, of which the encoder does not know the costs. -/
structure TableSource.Repeats (source : TableSource k) (repeatMode : FseRepeat)
    (codes : List ℕ) : Prop where
  valid : repeatMode = .valid → ∀ s ∈ codes, source.Has s
  single : ∀ symbol, source = .rle symbol → ∀ s ∈ codes, s = symbol

/-- The tables in front.  If the encoder may repeat its own, the decoder has the one that belongs
to it, and may repeat it. -/
def Repeatable (k : CodeKind) (flagRepeatTable : Bool) (prev : FseCTable) (prevTable : DTable)
    (codes : List ℕ) : Prop :=
  prev.repeatMode ≠ .none → flagRepeatTable = true ∧ ∃ source : TableSource k,
    prev.ctable = source.ctable ∧ prevTable = source.dtable ∧ source.Repeats prev.repeatMode codes

theorem repeatable_none (k : CodeKind) (flagRepeatTable : Bool) (ctable : CTable)
    (prevTable : DTable) (codes : List ℕ) :
    Repeatable k flagRepeatTable ⟨.none, ctable⟩ prevTable codes :=
  fun hmode => absurd rfl hmode

/-- A table that is built and its description, for a source that has the codes. -/
structure BuiltFor (k : CodeKind) (flagRepeatTable : Bool) (prev : FseCTable) (prevTable : DTable)
    (codes : List ℕ) (type : SymbolEncodingType) (table : FseCTable) (description : List Byte)
    (source : TableSource k) : Prop where
  described : Described k type flagRepeatTable prevTable source (table.ctable, description)
  has : ∀ s ∈ codes, source.Has s
  /-- What may be repeated behind the block, if the tables in front could be. -/
  repeatable : ∀ {codes'}, Repeatable k flagRepeatTable prev prevTable codes' →
    Repeatable k true table source.dtable codes'

/-- A source that is repeated has the codes. -/
theorem TableSource.Repeats.has {source : TableSource k} {repeatMode : FseRepeat}
    (hrepeats : source.Repeats repeatMode codes) (h : hist.Of codes)
    (hcost : repeatMode = .valid ∨ ∃ cost, fseBitCost w source.ctable hist.count = .ok cost) :
    ∀ s ∈ codes, source.Has s := by
  intro s hs
  rcases hcost with hvalid | ⟨cost, hcost⟩
  · exact hrepeats.valid hvalid s hs
  · cases source with
    | basic => exact slotsOf_pos_of_fseBitCost hcost (h.lt_length hs) (h.getD_ne hs)
    | rle symbol => exact hrepeats.single symbol rfl s hs
    | compressed norm hlog => exact slotsOf_pos_of_fseBitCost hcost (h.lt_length hs) (h.getD_ne hs)

/-- Whatever source is chosen for the codes of a block, the table is built if there is room for
its description, the decoder builds the table that belongs to it from the description, and the
tables have all the codes. -/
theorem Chosen.builtFor {choice : FseRepeat × SymbolEncodingType}
    (hchosen : Chosen w codes (histCount codes k.max) prev.repeatMode prev.ctable
      k.defaultNorm choice)
    (hprev : Repeatable k flagRepeatTable prev prevTable codes) (hne : codes ≠ [])
    (hcodes : ∀ s ∈ codes, s ≤ k.max) (hlt : codes.length < 2 ^ 32) (dstCapacity : ℕ) :
    dstCapacity < 512 ∧
        buildSeqCTable dstCapacity k.maxLog choice.2 (histCount codes k.max).count
          codes codes.length
          k.defaultNorm prev.ctable = .error .dstSizeTooSmall ∨
      ∃ (source : TableSource k) (built : CTable × List Byte),
        buildSeqCTable dstCapacity k.maxLog choice.2 (histCount codes k.max).count
          codes codes.length
          k.defaultNorm prev.ctable = .ok built ∧
        BuiltFor k flagRepeatTable prev prevTable codes choice.2 ⟨choice.1, built.1⟩
          built.2 source := by
  have h := of_histCount hne hcodes
  have hsmall := k.max_lt
  have hlast := hcodes _ h.last_mem
  have hpos := h.length_pos
  obtain ⟨mode, type⟩ := choice
  cases type with
  | basic =>
      obtain ⟨rfl, hhas⟩ := hchosen.basic rfl
      exact Or.inr ⟨.basic, _, rfl, described_basic k _ _, hhas, fun _ => repeatable_none _ _ _ _ _⟩
  | rle =>
      obtain ⟨rfl, hall⟩ := hchosen.rle rfl
      by_cases hroom : dstCapacity = 0
      · exact Or.inl ⟨by omega, if_pos hroom⟩
      · have hfirst : codes.getD 0 0 = (histCount codes k.max).count.length - 1 := by
          have hlength := List.length_pos_iff.mpr hne
          rw [List.getD_eq_getElem _ _ hlength]
          exact hall _ (List.getElem_mem hlength)
        right
        rw [buildSeqCTable, hfirst, if_neg hroom]
        exact ⟨_, _, rfl, described_rle hlast _ _, hall, fun _ => repeatable_none _ _ _ _ _⟩
  | repeated =>
      obtain ⟨hsame, hmode, hcost⟩ := hchosen.repeated rfl
      obtain ⟨rfl, source, hctable, rfl, hrepeats⟩ := hprev hmode
      simp only at hsame
      rw [hctable] at hcost
      refine Or.inr ⟨source, _, rfl, hctable ▸ described_repeated source, hrepeats.has h hcost, ?_⟩
      rw [hsame]
      exact id
  | compressed =>
      obtain ⟨rfl, hnot⟩ := hchosen.compressed rfl
      obtain ⟨c, hlog, hlength, hhas, hbuilt⟩ := h.buildSeqCTable hnot hlt (by omega) k
        k.defaultNorm prev.ctable
      refine hbuilt.imp_right fun hok => ⟨.compressed c hlog, _, hok,
        described_compressed c hlog (by omega) (by omega) (hlength ▸ hhas _ h.last_mem) _ _, hhas,
        fun _ _ => ⟨rfl, .compressed c hlog, rfl, rfl, ⟨fun hnot => ?_, fun symbol hnot => ?_⟩⟩⟩
      · cases hnot
      · cases hnot

end Described

end ZstdJni.Sequences
