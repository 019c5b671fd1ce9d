/-
# Executing a sequence

A sequence is executed by copying its literals and then its match, which may reach back into
bytes that the same match writes, and behind the start of the block into a dictionary that
lies elsewhere in memory.

Far from the end of the output the copies are made in blocks that write up to 32 bytes more
than they should; near the end they are made with care.  Short distances are first spread to
at least eight bytes.  Both ways the output is what copying byte by byte would give, no byte
at or behind the end of the output is touched, and a sequence that does not fit, or that
reads what is not there, is refused in both.
-/

import ZstdJni.Foundation.BlockCopy
import ZstdJni.Sequences.Decode

namespace ZstdJni.Sequences

open ZstdJni.Foundation ZstdJni.Native

/-- Addresses and the bytes at them. -/
abbrev Memory : Type := ℕ → Byte

/-- `ZSTD_overlap_e`. -/
inductive OverlapType
  | noOverlap
  | srcBeforeDst
  deriving DecidableEq

section Copies

variable (m : Memory) (op ip length : ℕ) (ovtype : OverlapType)

/-- `ZSTD_wildcopy`. -/
def wildcopy : Memory :=
  if ovtype = .srcBeforeDst ∧ (op : ℤ) - ip < 16 then
    copyUntil 8 1 (length + 1) m op ip (op + length)
  else
    let m' := copyBlock m op ip 16
    if length ≤ 16 then m'
    else copyUntil 16 2 length m' (op + 16) (ip + 16) (op + length)

/-- The memory, and where a copy goes on. -/
structure Cursor where
  mem : Memory
  op : ℕ
  ip : ℕ

/-- `ZSTD_overlapCopy8`. -/
def overlapCopy8 (offset : ℕ) : Cursor :=
  if offset < 8 then
    let sub2 := [8, 8, 8, 7, 8, 9, 10, 11].getD offset 0
    let first := copyBlocks 1 4 m op ip
    let ip := ip + [0, 1, 2, 1, 4, 4, 4, 4].getD offset 0
    { mem := copyBlock first (op + 4) ip 4, op := op + 8, ip := ip + 8 - sub2 }
  else { mem := copyBlock m op ip 8, op := op + 8, ip := ip + 8 }

/-- The rest of `ZSTD_safecopy` behind the spreading of a short distance.  The end of the
output is 32 bytes behind `oend_w`. -/
def safecopyRest (c : Cursor) (oend last length : ℕ) : Memory :=
  if last + 32 ≤ oend then wildcopy c.mem c.op c.ip length ovtype
  else if c.op + 32 ≤ oend then
    let n := oend - 32 - c.op
    copyBlocks 1 (last - (c.op + n)) (wildcopy c.mem c.op c.ip n ovtype) (c.op + n) (c.ip + n)
  else copyBlocks 1 (last - c.op) c.mem c.op c.ip

/-- `ZSTD_safecopy`. -/
def safecopy (oend : ℕ) : Memory :=
  if length < 8 then copyBlocks 1 length m op ip
  else if ovtype = .srcBeforeDst then
    safecopyRest ovtype (overlapCopy8 m op ip (op - ip)) oend (op + length) (length - 8)
  else safecopyRest ovtype ⟨m, op, ip⟩ oend (op + length) length

/-- The match within the prefix in `ZSTD_execSequence`. -/
def copyWithin (offset : ℕ) : Memory :=
  if 16 ≤ offset then wildcopy m op ip length .noOverlap
  else
    let c := overlapCopy8 m op ip offset
    if 8 < length then wildcopy c.mem c.op c.ip (length - 8) .srcBeforeDst else c.mem

end Copies

/-- Why a block is refused, and the memory as it is left. -/
structure Refusal where
  code : ErrorCode
  mem : Memory

/-- What stays the same over the sequences of a block. -/
structure ExecBounds where
  oend : ℕ
  litLimit : ℕ
  prefixStart : ℕ
  virtualStart : ℕ
  dictEnd : ℕ

section Exec

variable (w : WordSize) (b : ExecBounds) (m : Memory) (op litPtr : ℕ) (seq : Seq)

/-- The match of a sequence, with the part of it that is in front of the prefix. -/
def executeMatch (oLitEnd : ℕ) (copy : Memory → ℕ → ℕ → ℕ → Memory) : Except Refusal Memory :=
  if oLitEnd - b.prefixStart < seq.offset then
    if oLitEnd - b.virtualStart < seq.offset then .error ⟨.corruptionDetected, m⟩
    else
      let start := b.dictEnd - (b.prefixStart - (oLitEnd - seq.offset))
      if start + seq.matchLength ≤ b.dictEnd then .ok (copyBlock m oLitEnd start seq.matchLength)
      else
        let length1 := b.dictEnd - start
        .ok (copy (copyBlock m oLitEnd start length1) (oLitEnd + length1) b.prefixStart
          (seq.matchLength - length1))
  else .ok (copy m oLitEnd (oLitEnd - seq.offset) seq.matchLength)

/-- `ZSTD_execSequenceEnd`. -/
def execSequenceEnd : Except Refusal Memory :=
  if b.oend - op < seq.litLength + seq.matchLength then .error ⟨.dstSizeTooSmall, m⟩
  else if b.litLimit - litPtr < seq.litLength then .error ⟨.corruptionDetected, m⟩
  else
    executeMatch b (safecopy m op litPtr seq.litLength .noOverlap b.oend) seq (op + seq.litLength)
      fun m op ip length => safecopy m op ip length .srcBeforeDst b.oend

/-- `ZSTD_execSequence`, with the memory behind it.  A sequence that is executed has the sum of
its lengths, and moves the pointer to the literals by the first of them. -/
def execSequence : Except Refusal Memory :=
  let sequenceLength := seq.litLength + seq.matchLength
  if b.litLimit < litPtr + seq.litLength ∨ b.oend < op + sequenceLength + 32 ∨
      (w = .bits32 ∧ b.oend - op < sequenceLength + 32) then
    execSequenceEnd b m op litPtr seq
  else
    let m := copyBlock m op litPtr 16
    let m :=
      if 16 < seq.litLength then
        wildcopy m (op + 16) (litPtr + 16) (seq.litLength - 16) .noOverlap
      else m
    executeMatch b m seq (op + seq.litLength) fun m op ip length =>
      copyWithin m op ip length seq.offset

end Exec

section Copies

variable {m : Memory} {op ip length offset oend : ℕ} {ovtype : OverlapType}

/-- A wild copy is a number of blocks, with less than 32 bytes too many.  The blocks are not
larger than the distance. -/
theorem wildcopy_eq (m : Memory) (op ip length : ℕ) (ovtype : OverlapType) :
    ∃ n count, wildcopy m op ip length ovtype = copyBlocks n count m op ip ∧
      length ≤ n * count ∧ n * count < length + 32 ∧
      (ovtype = .noOverlap → n = 16) ∧
      (ovtype = .srcBeforeDst → ip + 8 ≤ op → ip + n ≤ op) := by
  unfold wildcopy
  by_cases hshort : ovtype = .srcBeforeDst ∧ (op : ℤ) - ip < 16
  · obtain ⟨count, hcopy, hreach, hleast, hmost⟩ :=
      copyUntil_eq m 8 1 (length + 1) op ip (op + length) (by decide) (by omega)
      (by omega)
    rw [if_pos hshort]
    refine ⟨8, count, hcopy, by omega, by omega, fun hno => ?_, fun _ hgap => hgap⟩
    rw [hshort.1] at hno
    cases hno
  · have hwide : ovtype = .srcBeforeDst → ip + 8 ≤ op → ip + 16 ≤ op := by
      intro hov hgap
      have hdiff : ¬ (op : ℤ) - ip < 16 := fun hless => hshort ⟨hov, hless⟩
      omega
    rw [if_neg hshort]
    by_cases hone : length ≤ 16
    · simp only [if_pos hone]
      exact ⟨16, 1, rfl, by omega, by omega, fun _ => rfl, hwide⟩
    · obtain ⟨count, hcopy, hreach, hleast, hmost⟩ := copyUntil_eq (copyBlock m op ip 16) 16 2
        length (op + 16) (ip + 16) (op + length) (by decide) (by omega) (by omega)
      simp only [if_neg hone]
      exact ⟨16, count + 1, hcopy, by omega, by omega, fun _ => rfl, hwide⟩

/-- Spreading a short distance: eight bytes are written, and the copy goes on at a multiple of
the distance that is at least eight. -/
theorem overlapCopy8_spec (m : Memory) (hpos : 0 < offset) (hip : ip + offset = op) :
    (∀ a, a < op ∨ op + 8 ≤ a → (overlapCopy8 m op ip offset).mem a = m a) ∧
      Repeats (overlapCopy8 m op ip offset).mem offset op (op + 8) ∧
      (overlapCopy8 m op ip offset).op = op + 8 ∧
      ∃ distance, (overlapCopy8 m op ip offset).ip + distance = op + 8 ∧ offset ∣ distance ∧
        8 ≤ distance ∧ distance ≤ offset + 8 := by
  unfold overlapCopy8
  by_cases hnear : offset < 8
  · rw [if_pos hnear]
    -- the second four bytes are copied from a multiple of the distance too
    obtain ⟨spread, hspread, hdvd, hfour, hle⟩ : ∃ spread,
        ip + [0, 1, 2, 1, 4, 4, 4, 4].getD offset 0 + spread = op + 4 ∧ offset ∣ spread ∧
          4 ≤ spread ∧ spread ≤ offset + 4 := by
      interval_cases offset
      · exact ⟨4, by simp only [List.getD_cons_succ, List.getD_cons_zero]; omega, by decide⟩
      · exact ⟨4, by simp only [List.getD_cons_succ, List.getD_cons_zero]; omega, by decide⟩
      · exact ⟨6, by simp only [List.getD_cons_succ, List.getD_cons_zero]; omega, by decide⟩
      · exact ⟨4, by simp only [List.getD_cons_succ, List.getD_cons_zero]; omega, by decide⟩
      · exact ⟨5, by simp only [List.getD_cons_succ, List.getD_cons_zero]; omega, by decide⟩
      · exact ⟨6, by simp only [List.getD_cons_succ, List.getD_cons_zero]; omega, by decide⟩
      · exact ⟨7, by simp only [List.getD_cons_succ, List.getD_cons_zero]; omega, by decide⟩
    have hdistance : ∃ distance, ip + [0, 1, 2, 1, 4, 4, 4, 4].getD offset 0 + 8 -
        [8, 8, 8, 7, 8, 9, 10, 11].getD offset 0 + distance = op + 8 ∧ offset ∣ distance ∧
          8 ≤ distance ∧ distance ≤ offset + 8 := by
      interval_cases offset
      · exact ⟨8, by simp only [List.getD_cons_succ, List.getD_cons_zero]; omega, by decide⟩
      · exact ⟨8, by simp only [List.getD_cons_succ, List.getD_cons_zero]; omega, by decide⟩
      · exact ⟨9, by simp only [List.getD_cons_succ, List.getD_cons_zero]; omega, by decide⟩
      · exact ⟨8, by simp only [List.getD_cons_succ, List.getD_cons_zero]; omega, by decide⟩
      · exact ⟨10, by simp only [List.getD_cons_succ, List.getD_cons_zero]; omega, by decide⟩
      · exact ⟨12, by simp only [List.getD_cons_succ, List.getD_cons_zero]; omega, by decide⟩
      · exact ⟨14, by simp only [List.getD_cons_succ, List.getD_cons_zero]; omega, by decide⟩
    refine ⟨fun a ha => ?_, ?_, rfl, hdistance⟩
    · simp only
      rw [copyBlock_of_outside (by omega), copyBlocks_of_outside (by omega)]
    · have hfirst : Repeats (copyBlocks 1 4 m op ip) offset op (op + 4) :=
        repeats_copyBlocks m 4 hip hpos
      have hkept := hfirst.congr (copyBlock (copyBlocks 1 4 m op ip) (op + 4)
        (ip + [0, 1, 2, 1, 4, 4, 4, 4].getD offset 0) 4)
        (fun a _ ha => copyBlock_of_outside (by omega))
      exact hkept.extend hpos (by omega) hdvd (by omega) (by omega)
        (repeats_copyBlocks _ 1 hspread hfour)
  · rw [if_neg hnear]
    refine ⟨fun a ha => copyBlock_of_outside ha, repeats_copyBlocks m 1 hip (by omega), rfl,
      offset, ?_, Nat.dvd_refl _, by omega, by omega⟩
    simp only
    omega

/-- What a copy of a match does: it repeats what is in front of it, and writes less than 32
bytes too many, none of them behind the end. -/
structure CopiesMatch (oend : ℕ) (m m' : Memory) (op length offset : ℕ) : Prop where
  outside : ∀ a, a < op ∨ op + length + 32 ≤ a ∨ oend ≤ a → m' a = m a
  repeats : Repeats m' offset op (op + length)

/-- Going on behind the first eight bytes. -/
theorem CopiesMatch.behind {c : Cursor} {m' : Memory} (hpos : 0 < offset) (hip : ip + offset = op)
    (hc : c = overlapCopy8 m op ip offset) (hlength : 8 ≤ length) (hfits : op + 8 ≤ oend)
    (hrest : ∀ distance, c.ip + distance = c.op → 8 ≤ distance →
      CopiesMatch oend c.mem m' c.op (length - 8) distance) :
    CopiesMatch oend m m' op length offset := by
  obtain ⟨houtside, hrepeats, hop, distance, hdistance, hdvd, height, hle⟩ :=
    overlapCopy8_spec m hpos hip
  rw [← hc] at houtside hrepeats hop hdistance
  have hcopy := hrest distance (by omega) height
  rw [hop] at hcopy
  refine ⟨fun a ha => ?_, ?_⟩
  · rw [hcopy.outside a (by omega), houtside a (by omega)]
  · have hkept := hrepeats.congr m' (fun a _ ha => hcopy.outside a (Or.inl ha))
    have hgo := hcopy.repeats
    have hlast : op + 8 + (length - 8) = op + length := by omega
    rw [hlast] at hgo
    exact hkept.extend hpos (by omega) hdvd (by omega) (by omega) hgo

theorem copiesMatch_bytes (hpos : 0 < offset) (hip : ip + offset = op)
    (hfits : op + length ≤ oend) :
    CopiesMatch oend m (copyBlocks 1 length m op ip) op length offset := by
  refine ⟨fun a ha => copyBlocks_of_outside (by omega), ?_⟩
  have hrepeats := repeats_copyBlocks m length hip hpos
  rwa [Nat.one_mul] at hrepeats

theorem copiesMatch_wildcopy (hip : ip + offset = op) (hfits : op + length + 32 ≤ oend)
    (height : 8 ≤ offset) (hfar : ovtype = .noOverlap → 16 ≤ offset) :
    CopiesMatch oend m (wildcopy m op ip length ovtype) op length offset := by
  obtain ⟨n, count, hcopy, hreach, hmost, hno, hbefore⟩ := wildcopy_eq m op ip length ovtype
  have hn : n ≤ offset := by
    cases ovtype with
    | noOverlap =>
        rw [hno rfl]
        exact hfar rfl
    | srcBeforeDst =>
        have hgap := hbefore rfl (by omega)
        omega
  rw [hcopy]
  refine ⟨fun a ha => copyBlocks_of_outside (by omega), ?_⟩
  exact (repeats_copyBlocks m count hip hn).mono (by omega)

/-- The copy of a match far from the end. -/
theorem copiesMatch_copyWithin (hpos : 0 < offset) (hip : ip + offset = op) (hlength : 0 < length)
    (hfits : op + length + 32 ≤ oend) :
    CopiesMatch oend m (copyWithin m op ip length offset) op length offset := by
  unfold copyWithin
  by_cases hfar : 16 ≤ offset
  · rw [if_pos hfar]
    exact copiesMatch_wildcopy hip hfits (by omega) fun _ => hfar
  · rw [if_neg hfar]
    by_cases hmore : 8 < length
    · simp only [if_pos hmore]
      refine CopiesMatch.behind hpos hip rfl (by omega) (by omega) fun distance hdistance height =>
        ?_
      obtain ⟨-, -, hop, -⟩ := overlapCopy8_spec m hpos hip
      exact copiesMatch_wildcopy hdistance (by omega) height fun hov => by cases hov
    · simp only [if_neg hmore]
      obtain ⟨houtside, hrepeats, -, -⟩ := overlapCopy8_spec m hpos hip
      exact ⟨fun a ha => houtside a (by omega), hrepeats.mono (by omega)⟩

theorem copiesMatch_safecopyRest {c : Cursor} (hip : c.ip + offset = c.op) (height : 8 ≤ offset)
    (hfits : c.op + length ≤ oend) :
    CopiesMatch oend c.mem (safecopyRest .srcBeforeDst c oend (c.op + length) length) c.op length
      offset := by
  unfold safecopyRest
  by_cases hfree : c.op + length + 32 ≤ oend
  · rw [if_pos hfree]
    exact copiesMatch_wildcopy hip hfree height fun hov => by cases hov
  · rw [if_neg hfree]
    by_cases hsome : c.op + 32 ≤ oend
    · -- blocks up to 32 bytes in front of the end, and single bytes behind
      have hwild : CopiesMatch oend c.mem
          (wildcopy c.mem c.op c.ip (oend - 32 - c.op) .srcBeforeDst) c.op
            (oend - 32 - c.op) offset :=
        copiesMatch_wildcopy hip (by omega) height fun hov => by cases hov
      have hbytes := @copiesMatch_bytes (wildcopy c.mem c.op c.ip (oend - 32 - c.op) .srcBeforeDst)
        (c.op + (oend - 32 - c.op)) (c.ip + (oend - 32 - c.op))
        (c.op + length - (c.op + (oend - 32 - c.op))) offset oend (by omega) (by omega) (by omega)
      simp only [if_pos hsome]
      refine ⟨fun a ha => ?_, fun a hfirst hlast => ?_⟩
      · rw [hbytes.outside a (by omega), hwild.outside a (by omega)]
      · by_cases hfront : a < c.op + (oend - 32 - c.op)
        · rw [hbytes.outside a (Or.inl hfront), hbytes.outside (a - offset) (by omega)]
          exact hwild.repeats a hfirst hfront
        · exact hbytes.repeats a (by omega) (by omega)
    · rw [if_neg hsome, Nat.add_sub_cancel_left]
      exact copiesMatch_bytes (by omega) hip hfits

/-- The copy of a match near the end. -/
theorem copiesMatch_safecopy (hpos : 0 < offset) (hip : ip + offset = op)
    (hfits : op + length ≤ oend) :
    CopiesMatch oend m (safecopy m op ip length .srcBeforeDst oend) op length offset := by
  unfold safecopy
  by_cases hfew : length < 8
  · rw [if_pos hfew]
    exact copiesMatch_bytes hpos hip hfits
  · have hdiff : op - ip = offset := by omega
    rw [if_neg hfew, if_pos rfl, hdiff]
    refine CopiesMatch.behind hpos hip rfl (by omega) (by omega) fun distance hdistance height => ?_
    obtain ⟨-, -, hop, -⟩ := overlapCopy8_spec m hpos hip
    have hlast : op + length = (overlapCopy8 m op ip offset).op + (length - 8) := by omega
    rw [hlast]
    exact copiesMatch_safecopyRest hdistance height (by omega)

/-- What a copy of literals does. -/
structure CopiesLiterals (oend : ℕ) (m m' : Memory) (op ip length : ℕ) : Prop where
  outside : ∀ a, a < op ∨ op + length + 32 ≤ a ∨ oend ≤ a → m' a = m a
  copied : ∀ i < length, m' (op + i) = m (ip + i)

/-- The literals lie in front of the output, with 32 bytes between them, or behind its end. -/
def LiteralsApart (op oend ip length : ℕ) : Prop := ip + length + 32 ≤ op ∨ oend ≤ ip

/-- Blocks of at most 16 bytes copy literals that lie apart. -/
theorem copiesLiterals_blocks (m : Memory) (n count : ℕ) (hapart : LiteralsApart op oend ip length)
    (hn : n ≤ 16)
    (hreach : length ≤ n * count) (hmost : n * count < length + 32)
    (hfits : op + n * count ≤ oend) :
    CopiesLiterals oend m (copyBlocks n count m op ip) op ip length := by
  refine ⟨fun a ha => copyBlocks_of_outside (by omega), fun i hi => ?_⟩
  rcases hapart with hfront | hbehind
  · rw [copyBlocks_behind (by omega) (by omega), copyBlocks_of_outside (by omega)]
  · exact copyBlocks_ahead (by omega) (by omega)

/-- The copy of literals near the end. -/
theorem copiesLiterals_safecopy (hapart : LiteralsApart op oend ip length)
    (hfits : op + length ≤ oend) :
    CopiesLiterals oend m (safecopy m op ip length .noOverlap oend) op ip length := by
  have hno : ¬ OverlapType.noOverlap = .srcBeforeDst := by decide
  unfold safecopy safecopyRest
  by_cases hfew : length < 8
  · rw [if_pos hfew]
    exact copiesLiterals_blocks m 1 length hapart (by decide) (by omega) (by omega) (by omega)
  · rw [if_neg hfew, if_neg hno]
    by_cases hfree : op + length + 32 ≤ oend
    · rw [if_pos hfree]
      obtain ⟨n, count, hcopy, hreach, hmost, hsize, -⟩ := wildcopy_eq m op ip length .noOverlap
      simp only [hcopy]
      exact copiesLiterals_blocks m n count hapart (hsize rfl).le hreach hmost (by omega)
    · rw [if_neg hfree]
      by_cases hsome : op + 32 ≤ oend
      · obtain ⟨n, count, hcopy, hreach, hmost, hsize, -⟩ :=
          wildcopy_eq m op ip (oend - 32 - op) .noOverlap
        have hpart : LiteralsApart op oend ip (oend - 32 - op) := by
          rcases hapart with hfront | hbehind
          · exact Or.inl (by omega)
          · exact Or.inr hbehind
        have hwild := copiesLiterals_blocks m n count hpart (hsize rfl).le hreach hmost (by omega)
        simp only [if_pos hsome, hcopy]
        generalize copyBlocks n count m op ip = m' at hwild ⊢
        refine ⟨fun a ha => ?_, fun i hi => ?_⟩
        · rw [copyBlocks_of_outside (by omega), hwild.outside a (by omega)]
        · by_cases hfront : i < oend - 32 - op
          · rw [copyBlocks_of_outside (by omega), hwild.copied i hfront]
          · have hplace : op + i = op + (oend - 32 - op) + (i - (oend - 32 - op)) := by omega
            have hsource : ip + (oend - 32 - op) + (i - (oend - 32 - op)) = ip + i := by omega
            rw [hplace]
            rcases hapart with hbefore | hbehind
            · rw [copyBlocks_behind (by omega) (by omega), copyBlocks_of_outside (by omega),
                hsource, hwild.outside (ip + i) (by omega)]
            · rw [copyBlocks_ahead (by omega) (by omega), hsource,
                hwild.outside (ip + i) (by omega)]
      · simp only [if_neg hsome, Nat.add_sub_cancel_left]
        exact copiesLiterals_blocks m 1 length hapart (by decide) (by omega) (by omega) (by omega)

/-- The copy of literals far from the end. -/
theorem copiesLiterals_wild (hapart : LiteralsApart op oend ip length)
    (hfits : op + length + 32 ≤ oend) :
    CopiesLiterals oend m
      (if 16 < length then wildcopy (copyBlock m op ip 16) (op + 16) (ip + 16)
        (length - 16) .noOverlap
        else copyBlock m op ip 16) op ip length := by
  by_cases hmore : 16 < length
  · obtain ⟨n, count, hcopy, hreach, hmost, hsize, -⟩ :=
      wildcopy_eq (copyBlock m op ip 16) (op + 16) (ip + 16) (length - 16) .noOverlap
    obtain rfl := hsize rfl
    rw [if_pos hmore, hcopy]
    exact copiesLiterals_blocks m 16 (count + 1) hapart (Nat.le_refl 16) (by omega) (by omega)
      (by omega)
  · rw [if_neg hmore]
    exact copiesLiterals_blocks m 16 1 hapart (Nat.le_refl 16) (by omega) (by omega) (by omega)

end Copies

section Sequences

variable {b : ExecBounds} {m m' : Memory} {op litPtr : ℕ} {seq : Seq}

/-- The byte at a virtual address: what is in front of the prefix lies in the dictionary. -/
def ExecBounds.history (b : ExecBounds) (m : Memory) (a : ℕ) : Byte :=
  if b.prefixStart ≤ a then m a else m (b.dictEnd - (b.prefixStart - a))

/-- A sequence is executed: the output has the literals and then the match, every byte of
which is the one an offset in front of it. -/
structure Executed (b : ExecBounds) (m m' : Memory) (op litPtr : ℕ) (seq : Seq) : Prop where
  outside : ∀ a, a < op ∨ op + (seq.litLength + seq.matchLength) + 32 ≤ a ∨ b.oend ≤ a → m' a = m a
  literals : ∀ i < seq.litLength, m' (op + i) = m (litPtr + i)
  matched : ∀ i < seq.matchLength,
    m' (op + seq.litLength + i) = b.history m' (op + seq.litLength + i - seq.offset)

/-- How the output, the literals and the dictionary lie in memory. -/
structure Layout (b : ExecBounds) (op litPtr : ℕ) (seq : Seq) : Prop where
  offset_pos : 0 < seq.offset
  matchLength_pos : 0 < seq.matchLength
  virtualStart_le : b.virtualStart ≤ b.prefixStart
  prefixStart_le : b.prefixStart ≤ op
  op_le : op ≤ b.oend
  litPtr_le : litPtr ≤ b.litLimit
  literals : b.litLimit + 32 ≤ op ∨ b.oend ≤ litPtr
  dict_room : b.prefixStart - b.virtualStart ≤ b.dictEnd
  /-- The bytes of the dictionary that are used are not written to. -/
  dict : ∀ a, b.virtualStart ≤ a → a < b.prefixStart → op + seq.litLength ≤ a + seq.offset →
    a + seq.offset < op + seq.litLength + seq.matchLength →
      b.dictEnd - (b.prefixStart - a) < op ∨
        op + (seq.litLength + seq.matchLength) + 32 ≤ b.dictEnd - (b.prefixStart - a)

/-- A match is refused if it reaches back too far, and otherwise copied, whether it is in the
prefix, in the dictionary or in both. -/
theorem executeMatch_spec (hlayout : Layout b op litPtr seq)
    (hfits : op + (seq.litLength + seq.matchLength) ≤ b.oend)
    (copy : Memory → ℕ → ℕ → ℕ → Memory)
    (hcopy : ∀ m op' ip length, 0 < length → ip + seq.offset = op' →
      op' + length = op + (seq.litLength + seq.matchLength) →
        CopiesMatch b.oend m (copy m op' ip length) op' length seq.offset)
    (hliterals : CopiesLiterals b.oend m m' op litPtr seq.litLength) :
    (op + seq.litLength < b.virtualStart + seq.offset ∧
        executeMatch b m' seq (op + seq.litLength) copy = .error ⟨.corruptionDetected, m'⟩) ∨
      (b.virtualStart + seq.offset ≤ op + seq.litLength ∧
        ∃ m'', executeMatch b m' seq (op + seq.litLength) copy = .ok m'' ∧
          Executed b m m'' op litPtr seq) := by
  obtain ⟨hoffset, hmatchLength, hvirtual, hfloor, hop, -, -, hroom, hdict⟩ := hlayout
  have hbytes : 0 < b.oend := by omega
  unfold executeMatch
  by_cases hback : op + seq.litLength - b.prefixStart < seq.offset
  · rw [if_pos hback]
    by_cases hfar : op + seq.litLength - b.virtualStart < seq.offset
    · left
      rw [if_pos hfar]
      exact ⟨by omega, rfl⟩
    · -- the match begins in the dictionary
      right
      have hhistory (m : Memory) {a : ℕ} (ha : a < b.prefixStart) :
          b.history m a = m (b.dictEnd - (b.prefixStart - a)) := if_neg (by omega)
      have hplace (i : ℕ) (hi : op + seq.litLength + i - seq.offset < b.prefixStart) :
          b.dictEnd - (b.prefixStart - (op + seq.litLength + i - seq.offset)) =
            b.dictEnd - (b.prefixStart - (op + seq.litLength - seq.offset)) + i := by omega
      rw [if_neg hfar]
      refine ⟨by omega, ?_⟩
      generalize hstart : b.dictEnd - (b.prefixStart - (op + seq.litLength - seq.offset)) = start
        at hplace ⊢
      have hused (i : ℕ) (hi : op + seq.litLength + i - seq.offset < b.prefixStart)
          (hlength : i < seq.matchLength) :
          start + i < op ∨ op + (seq.litLength + seq.matchLength) + 32 ≤ start + i := by
        have hapart :=
          hdict (op + seq.litLength + i - seq.offset) (by omega) hi (by omega) (by omega)
        rwa [hplace i hi] at hapart
      by_cases hwhole : start + seq.matchLength ≤ b.dictEnd
      · simp only [if_pos hwhole]
        refine ⟨_, rfl, fun a ha => ?_, fun i hi => ?_, fun i hi => ?_⟩
        · rw [copyBlock_of_outside (by omega), hliterals.outside a (by omega)]
        · rw [copyBlock_of_outside (by omega), hliterals.copied i hi]
        · have hinside : op + seq.litLength + i - seq.offset < b.prefixStart := by omega
          have hapart := hused i hinside hi
          rw [hhistory _ hinside, hplace i hinside, copyBlock_of_inside hi,
            copyBlock_of_outside (by omega)]
      · have hlength1 : op + seq.litLength + (b.dictEnd - start) = b.prefixStart + seq.offset := by
          omega
        have hrest := hcopy (copyBlock m' (op + seq.litLength) start (b.dictEnd - start))
          (op + seq.litLength + (b.dictEnd - start)) b.prefixStart
          (seq.matchLength - (b.dictEnd - start)) (by omega) (by omega) (by omega)
        simp only [if_neg hwhole]
        refine ⟨_, rfl, fun a ha => ?_, fun i hi => ?_, fun i hi => ?_⟩
        · rw [hrest.outside a (by omega), copyBlock_of_outside (by omega),
            hliterals.outside a (by omega)]
        · rw [hrest.outside _ (by omega), copyBlock_of_outside (by omega), hliterals.copied i hi]
        · by_cases hfront : i < b.dictEnd - start
          · have hinside : op + seq.litLength + i - seq.offset < b.prefixStart := by omega
            have hapart := hused i hinside hi
            rw [hhistory _ hinside, hplace i hinside, hrest.outside _ (by omega),
              copyBlock_of_inside hfront, hrest.outside (start + i) (by omega),
              copyBlock_of_outside (by omega)]
          · rw [ExecBounds.history, if_pos (by omega)]
            exact hrest.repeats _ (by omega) (by omega)
  · -- the match is in the prefix
    right
    have hrest := hcopy m' (op + seq.litLength) (op + seq.litLength - seq.offset) seq.matchLength
      hmatchLength (by omega) (by omega)
    rw [if_neg hback]
    refine ⟨by omega, _, rfl, fun a ha => ?_, fun i hi => ?_, fun i hi => ?_⟩
    · rw [hrest.outside a (by omega), hliterals.outside a (by omega)]
    · rw [hrest.outside _ (by omega), hliterals.copied i hi]
    · rw [ExecBounds.history, if_pos (by omega)]
      exact hrest.repeats _ (by omega) (by omega)

/-- Executing a sequence fails if it does not fit, if there are not as many literals, or if the
match reaches back too far, and then no more than its literals was written; otherwise the
sequence is executed.  Which of the two ways is taken makes no difference. -/
theorem execSequence_spec (w : WordSize) (m : Memory) (hlayout : Layout b op litPtr seq) :
    (b.oend < op + (seq.litLength + seq.matchLength) ∧
        execSequence w b m op litPtr seq = .error ⟨.dstSizeTooSmall, m⟩) ∨
      (op + (seq.litLength + seq.matchLength) ≤ b.oend ∧
        (b.litLimit < litPtr + seq.litLength ∨ op + seq.litLength < b.virtualStart + seq.offset) ∧
          ∃ m', execSequence w b m op litPtr seq = .error ⟨.corruptionDetected, m'⟩ ∧
            ∀ a, a < op ∨ b.oend ≤ a → m' a = m a) ∨
      (op + (seq.litLength + seq.matchLength) ≤ b.oend ∧ litPtr + seq.litLength ≤ b.litLimit ∧
        b.virtualStart + seq.offset ≤ op + seq.litLength ∧
          ∃ m', execSequence w b m op litPtr seq = .ok m' ∧ Executed b m m' op litPtr seq) := by
  have hop := hlayout.op_le
  have hlit := hlayout.litPtr_le
  have hsides := hlayout.literals
  unfold execSequence
  by_cases hslow : b.litLimit < litPtr + seq.litLength ∨
      b.oend < op + (seq.litLength + seq.matchLength) + 32 ∨
        (w = .bits32 ∧ b.oend - op < seq.litLength + seq.matchLength + 32)
  · simp only [if_pos hslow]
    unfold execSequenceEnd
    by_cases hlarge : b.oend - op < seq.litLength + seq.matchLength
    · left
      rw [if_pos hlarge]
      exact ⟨by omega, rfl⟩
    rw [if_neg hlarge]
    by_cases hfew : b.litLimit - litPtr < seq.litLength
    · right; left
      rw [if_pos hfew]
      exact ⟨by omega, Or.inl (by omega), m, rfl, fun _ _ => rfl⟩
    rw [if_neg hfew]
    have hapart : LiteralsApart op b.oend litPtr seq.litLength := by
      rcases hsides with hfront | hbehind
      · exact Or.inl (by omega)
      · exact Or.inr hbehind
    have hliterals := copiesLiterals_safecopy (m := m) hapart (by omega)
    rcases executeMatch_spec hlayout (by omega)
      (fun m op ip length => safecopy m op ip length .srcBeforeDst b.oend)
      (fun m op' ip length hpos hip hlast => copiesMatch_safecopy hlayout.offset_pos hip (by omega))
      hliterals with ⟨hfar, herror⟩ | ⟨hnear, hok⟩
    · exact Or.inr (Or.inl ⟨by omega, Or.inr hfar, _, herror,
        fun a ha => hliterals.outside a (by omega)⟩)
    · exact Or.inr (Or.inr ⟨by omega, by omega, hnear, hok⟩)
  · simp only [if_neg hslow]
    have hfits : op + (seq.litLength + seq.matchLength) + 32 ≤ b.oend := by omega
    have hapart : LiteralsApart op b.oend litPtr seq.litLength := by
      rcases hsides with hfront | hbehind
      · exact Or.inl (by omega)
      · exact Or.inr hbehind
    have hliterals := copiesLiterals_wild (m := m) hapart (by omega)
    rcases executeMatch_spec hlayout (by omega)
      (fun m op ip length => copyWithin m op ip length seq.offset)
      (fun m op' ip length hpos hip hlast =>
        copiesMatch_copyWithin hlayout.offset_pos hip hpos (by omega))
      hliterals with ⟨hfar, herror⟩ | ⟨hnear, hok⟩
    · exact Or.inr (Or.inl ⟨by omega, Or.inr hfar, _, herror,
        fun a ha => hliterals.outside a (by omega)⟩)
    · exact Or.inr (Or.inr ⟨by omega, by omega, hnear, hok⟩)

end Sequences

end ZstdJni.Sequences
