/-
# Describing a distribution

Normalized counts are described by a queue of fields: the logarithm of the size of the table,
and a field for each count, which is the narrower the fewer slots remain.  The number of
zeros behind a zero is a field of its own.  The bits are collected in a register and written
two bytes at a time, with or without a check that there is room for them.
-/

import ZstdJni.Entropy.BitStream
import ZstdJni.Entropy.FseTable
import ZstdJni.Foundation.BitFields

namespace ZstdJni.Entropy

open ZstdJni.Foundation ZstdJni.Native

/-! ## The writer -/

/-- The bytes that are written, and the register. -/
structure NCountOut where
  out : List Byte
  bitStream : ℕ
  bitCount : ℕ

/-- Bits are added to the register. -/
def NCountOut.add (o : NCountOut) (v n : ℕ) : NCountOut :=
  { o with bitStream := (o.bitStream + v <<< o.bitCount) % 2 ^ 32, bitCount := o.bitCount + n }

/-- What the loop of `FSE_writeNCount_generic` carries along. -/
structure NCountState where
  o : NCountOut
  remaining : ℕ
  threshold : ℕ
  nbBits : ℕ
  previousIs0 : Bool

/-- `while (remaining<threshold) { nbBits--; threshold>>=1; }`. -/
def shrinkThreshold (remaining : ℕ) : ℕ → ℕ → ℕ × ℕ
  | 0, threshold => (0, threshold)
  | nbBits + 1, threshold =>
    if remaining < threshold then shrinkThreshold remaining nbBits (threshold / 2)
    else (nbBits + 1, threshold)

/-- The number that is written for a count. -/
def countCode (n : ℤ) (remaining threshold : ℕ) : ℕ :=
  let max := 2 * threshold - 1 - remaining
  let count := (n + 1).toNat
  if threshold ≤ count then count + max else count

section Model

variable (capacity : ℕ) (writeIsSafe : Bool)

/-- Two bytes of the register are written. -/
def flushTwo (o : NCountOut) : Except ErrorCode NCountOut :=
  if writeIsSafe = false ∧ capacity < o.out.length + 2 then .error .dstSizeTooSmall
  else
    .ok {
      out := o.out ++ bytesLE 2 o.bitStream
      bitStream := o.bitStream >>> 16
      bitCount := o.bitCount - 16 }

/-- `if (bitCount>16)`. -/
def flushIfFull (o : NCountOut) : Except ErrorCode NCountOut :=
  if 16 < o.bitCount then flushTwo capacity writeIsSafe o else .ok o

/-- `while (symbol >= start+24)`: sixteen bits are added and two bytes written. -/
def writeRuns24 : ℕ → NCountOut → Except ErrorCode NCountOut
  | 0, o => .ok o
  | runs + 1, o =>
    match flushTwo capacity writeIsSafe (o.add 0xFFFF 16) with
    | .error code => .error code
    | .ok o => writeRuns24 runs o

/-- `while (symbol >= start+3)`. -/
def writeRuns3 : ℕ → NCountOut → NCountOut
  | 0, o => o
  | runs + 1, o => writeRuns3 runs (o.add 3 2)

/-- The number of zeros behind a zero. -/
def writeZeros (zeros : ℕ) (o : NCountOut) : Except ErrorCode NCountOut :=
  match writeRuns24 capacity writeIsSafe (zeros / 24) o with
  | .error code => .error code
  | .ok o => flushIfFull capacity writeIsSafe ((writeRuns3 (zeros % 24 / 3) o).add (zeros % 3) 2)

/-- A count.  What remains behind it is less than one if the count is not less than what
remains. -/
def writeCount (n : ℤ) (st : NCountState) : Except ErrorCode NCountState :=
  let max := 2 * st.threshold - 1 - st.remaining
  let count := countCode n st.remaining st.threshold
  let width := st.nbBits - if count < max then 1 else 0
  if st.remaining ≤ n.natAbs then .error .generic
  else
    let remaining := st.remaining - n.natAbs
    let shrunk := shrinkThreshold remaining st.nbBits st.threshold
    match flushIfFull capacity writeIsSafe (st.o.add count width) with
    | .error code => .error code
    | .ok o => .ok ⟨o, remaining, shrunk.2, shrunk.1, count = 1⟩

/-- The loop of `FSE_writeNCount_generic`, with the number of zeros that were skipped. -/
def writeCounts : List ℤ → ℕ → NCountState → Except ErrorCode NCountState
  | [], _, st => .ok st
  | n :: rest, skipped, st =>
    if st.remaining ≤ 1 then .ok st
    else if st.previousIs0 ∧ n = 0 then writeCounts rest (skipped + 1) st
    else
      let zeros := if st.previousIs0 then writeZeros capacity writeIsSafe skipped st.o else .ok st.o
      match zeros with
      | .error code => .error code
      | .ok o =>
        match writeCount capacity writeIsSafe n { st with o := o } with
        | .error code => .error code
        | .ok st => writeCounts rest 0 st

/-- `FSE_writeNCount_generic`, with the bytes that are counted in the size it returns. -/
def writeNCountGeneric (counts : List ℤ) (tableLog : ℕ) : Except ErrorCode (List Byte) :=
  let tableSize := 2 ^ tableLog
  let st : NCountState :=
    ⟨NCountOut.add ⟨[], 0, 0⟩ (tableLog - 5) 4, tableSize + 1, tableSize, tableLog + 1, false⟩
  match writeCounts capacity writeIsSafe counts 0 st with
  | .error code => .error code
  | .ok st =>
    if st.remaining ≠ 1 then .error .generic
    else
      match flushTwo capacity writeIsSafe st.o with
      | .error code => .error code
      | .ok o => .ok (o.out.take (st.o.out.length + (st.o.bitCount + 7) / 8))

end Model

/-- `FSE_NCountWriteBound`. -/
def ncountWriteBound (maxSymbolValue tableLog : ℕ) : ℕ :=
  let maxHeaderSize := ((maxSymbolValue + 1) * tableLog + 4 + 2) / 8 + 1 + 2
  if maxSymbolValue ≠ 0 then maxHeaderSize else 512

/-- `FSE_writeNCount`. -/
def writeNCount (bufferSize : ℕ) (counts : List ℤ) (tableLog : ℕ) : Except ErrorCode (List Byte) :=
  if 12 < tableLog then .error .tableLogTooLarge
  else if tableLog < 5 then .error .generic
  else
    writeNCountGeneric bufferSize
      (decide (ncountWriteBound (counts.length - 1) tableLog ≤ bufferSize)) counts tableLog

/-! ## The fields -/

/-- The field of a count. -/
def countField (n : ℤ) (remaining : ℕ) : ℕ × ℕ :=
  let threshold := 2 ^ highbit remaining
  let code := countCode n remaining threshold
  (code, if code < 2 * threshold - 1 - remaining then highbit remaining else highbit remaining + 1)

/-- The fields of a number of zeros. -/
def zeroFields (zeros : ℕ) : BitFields :=
  List.replicate (zeros / 3) (3, 2) ++ [(zeros % 3, 2)]

/-- The fields of some counts, behind a zero and a number of others or not. -/
def countFields : List ℤ → ℕ → ℕ → Bool → BitFields
  | [], _, _, _ => []
  | n :: rest, skipped, remaining, previousIs0 =>
    if remaining ≤ 1 then []
    else if previousIs0 ∧ n = 0 then countFields rest (skipped + 1) remaining true
    else
      (if previousIs0 then zeroFields skipped else []) ++
        countField n remaining :: countFields rest 0 (remaining - n.natAbs) (n = 0)

/-- The fields of a description. -/
def ncountFields (counts : List ℤ) (tableLog : ℕ) : BitFields :=
  (tableLog - 5, 4) :: countFields counts 0 (2 ^ tableLog + 1) false

/-! ## What is written -/

/-- The bytes and the register are the bits of some fields. -/
structure NCountOut.Holds (o : NCountOut) (fields : BitFields) : Prop where
  value : littleEndian o.out + 2 ^ (8 * o.out.length) * o.bitStream = fields.pack
  length : 8 * o.out.length + o.bitCount = fields.width
  small : o.bitStream < 2 ^ o.bitCount

/-- Between two fields at most sixteen bits are in the register. -/
structure NCountOut.Settled (o : NCountOut) (fields : BitFields) : Prop where
  holds : o.Holds fields
  pos : 0 < o.bitCount
  le : o.bitCount ≤ 16
  even : o.out.length % 2 = 0

section Written

variable {capacity tableLog : ℕ} {writeIsSafe : Bool} {o : NCountOut} {fields : BitFields}
  {v n : ℕ}

theorem NCountOut.Holds.add (h : o.Holds fields) (hv : v < 2 ^ n) (hroom : o.bitCount + n ≤ 32) :
    (o.add v n).Holds (fields ++ [(v, n)]) := by
  have hlt : o.bitStream + v <<< o.bitCount < 2 ^ (o.bitCount + n) := by
    rw [Nat.shiftLeft_eq, Nat.pow_add]
    calc o.bitStream + v * 2 ^ o.bitCount
        < 2 ^ o.bitCount + v * 2 ^ o.bitCount := Nat.add_lt_add_right h.small _
      _ = 2 ^ o.bitCount * (v + 1) := by ring
      _ ≤ 2 ^ o.bitCount * 2 ^ n := Nat.mul_le_mul_left _ hv
  have hword : o.bitStream + v <<< o.bitCount < 2 ^ 32 :=
    Nat.lt_of_lt_of_le hlt (Nat.pow_le_pow_right (by decide) hroom)
  have hvalue := h.value
  have hlength := h.length
  refine ⟨?_, ?_, ?_⟩
  · rw [BitFields.pack_append, BitFields.pack_cons, BitFields.pack_nil, Nat.mul_zero, Nat.add_zero,
      Nat.mod_eq_of_lt hv, ← hvalue, ← hlength, NCountOut.add]
    simp only [Nat.mod_eq_of_lt hword]
    rw [Nat.shiftLeft_eq, Nat.pow_add]
    ring
  · rw [BitFields.width_append, BitFields.width_cons, BitFields.width_nil, NCountOut.add, ← hlength]
    simp only
    omega
  · rw [NCountOut.add]
    simp only [Nat.mod_eq_of_lt hword]
    exact hlt

/-- Fields that are the same bits are held alike. -/
theorem NCountOut.Holds.congr (h : o.Holds fields) {fields' : BitFields}
    (hpack : fields'.pack = fields.pack) (hwidth : fields'.width = fields.width) :
    o.Holds fields' :=
  ⟨h.value.trans hpack.symm, h.length.trans hwidth.symm, h.small⟩

/-- What the register is behind two bytes that are written. -/
def NCountOut.flushed (o : NCountOut) : NCountOut where
  out := o.out ++ bytesLE 2 o.bitStream
  bitStream := o.bitStream >>> 16
  bitCount := o.bitCount - 16

theorem NCountOut.length_flushed (o : NCountOut) : o.flushed.out.length = o.out.length + 2 := by
  rw [NCountOut.flushed, List.length_append, length_bytesLE]

theorem NCountOut.Holds.flushed (h : o.Holds fields) (hfull : 16 ≤ o.bitCount) :
    o.flushed.Holds fields := by
  have hsplit : 2 ^ (8 * (o.out.length + 2)) = 2 ^ (8 * o.out.length) * 2 ^ 16 := by
    rw [Nat.mul_add, Nat.pow_add]
  have hbytes : (256 : ℕ) ^ o.out.length = 2 ^ (8 * o.out.length) := by
    rw [Nat.pow_mul]
  have hstream : o.bitStream % 256 ^ 2 + 2 ^ 16 * (o.bitStream / 2 ^ 16) = o.bitStream :=
    Nat.mod_add_div _ _
  refine ⟨?_, ?_, ?_⟩
  · rw [NCountOut.length_flushed, NCountOut.flushed, littleEndian_append, littleEndian_bytesLE,
      Nat.shiftRight_eq_div_pow, hsplit, hbytes, Nat.mul_assoc, Nat.add_assoc,
      ← Nat.mul_add, hstream]
    exact h.value
  · rw [NCountOut.length_flushed, NCountOut.flushed, ← h.length]
    simp only
    omega
  · rw [NCountOut.flushed]
    simp only
    rw [Nat.shiftRight_eq_div_pow, Nat.div_lt_iff_lt_mul (Nat.two_pow_pos 16), ← Nat.pow_add,
      Nat.sub_add_cancel hfull]
    exact h.small

/-- The bytes that are written when the last of some fields has been added. -/
def bytesBefore (fields : BitFields) : ℕ := 2 * ((fields.width - 1) / 16)

theorem NCountOut.Settled.length_eq (h : o.Settled fields) : o.out.length = bytesBefore fields := by
  have hlength := h.holds.length
  have hpos := h.pos
  have hle := h.le
  have heven := h.even
  unfold bytesBefore
  omega

theorem bytesBefore_mono {fields' : BitFields} (hwidth : fields.width ≤ fields'.width) :
    bytesBefore fields ≤ bytesBefore fields' := by
  unfold bytesBefore
  omega

/-- Some bytes may be written. -/
abbrev Allowed (capacity : ℕ) (writeIsSafe : Bool) (bytes : ℕ) : Prop :=
  writeIsSafe = true ∨ bytes ≤ capacity

/-- A part of the writer that adds fields, unless it runs out of room. -/
structure Writes (capacity : ℕ) (writeIsSafe : Bool) (fields : BitFields)
    (r : Except ErrorCode NCountOut) : Prop where
  fits : Allowed capacity writeIsSafe (bytesBefore fields) → ∃ o, o.Settled fields ∧ r = .ok o
  full : ¬ Allowed capacity writeIsSafe (bytesBefore fields) → r = .error .dstSizeTooSmall

theorem Allowed.mono {bytes bytes' : ℕ} (h : Allowed capacity writeIsSafe bytes')
    (hle : bytes ≤ bytes') : Allowed capacity writeIsSafe bytes :=
  h.imp_right hle.trans

theorem flushTwo_of_allowed (h : Allowed capacity writeIsSafe (o.out.length + 2)) :
    flushTwo capacity writeIsSafe o = .ok o.flushed := by
  refine if_neg ?_
  rintro ⟨hsafe, hlt⟩
  rcases h with htrue | hle
  · rw [hsafe] at htrue
    cases htrue
  · omega

theorem flushTwo_of_not_allowed (h : ¬ Allowed capacity writeIsSafe (o.out.length + 2)) :
    flushTwo capacity writeIsSafe o = .error .dstSizeTooSmall := by
  refine if_pos ⟨?_, Nat.lt_of_not_le fun hle => h (Or.inr hle)⟩
  rw [← Bool.not_eq_true]
  exact fun hsafe => h (Or.inl hsafe)

theorem settled_flushed (h : o.Holds fields) (hfull : 16 < o.bitCount) (hle : o.bitCount ≤ 32)
    (heven : o.out.length % 2 = 0) : o.flushed.Settled fields := by
  have hlength := o.length_flushed
  have hcount : o.flushed.bitCount = o.bitCount - 16 := rfl
  exact ⟨h.flushed hfull.le, by omega, by omega, by omega⟩

/-- Two bytes are written if there is room for them. -/
theorem writes_flushTwo (h : o.Holds fields) (hfull : 16 < o.bitCount) (hle : o.bitCount ≤ 32)
    (heven : o.out.length % 2 = 0) :
    Writes capacity writeIsSafe fields (flushTwo capacity writeIsSafe o) := by
  have hsettled := settled_flushed h hfull hle heven
  have hbytes := hsettled.length_eq
  rw [NCountOut.length_flushed] at hbytes
  refine ⟨fun hallowed => ⟨_, hsettled, ?_⟩, fun hnot => ?_⟩
  · rw [← hbytes] at hallowed
    exact flushTwo_of_allowed hallowed
  · rw [← hbytes] at hnot
    exact flushTwo_of_not_allowed hnot

theorem writes_flushIfFull (h : o.Holds fields) (hpos : 0 < o.bitCount) (hle : o.bitCount ≤ 32)
    (heven : o.out.length % 2 = 0) (hallowed : Allowed capacity writeIsSafe o.out.length) :
    Writes capacity writeIsSafe fields (flushIfFull capacity writeIsSafe o) := by
  unfold flushIfFull
  by_cases hfull : 16 < o.bitCount
  · rw [if_pos hfull]
    exact writes_flushTwo h hfull hle heven
  · have hsettled : o.Settled fields := ⟨h, hpos, by omega, heven⟩
    rw [if_neg hfull]
    exact ⟨fun _ => ⟨o, hsettled, rfl⟩, fun hnot => absurd (hsettled.length_eq ▸ hallowed) hnot⟩

/-- Fields that are the same bits are written alike. -/
theorem Writes.congr {r : Except ErrorCode NCountOut} (h : Writes capacity writeIsSafe fields r)
    {fields' : BitFields} (hpack : fields'.pack = fields.pack)
    (hwidth : fields'.width = fields.width) : Writes capacity writeIsSafe fields' r := by
  have hbytes : bytesBefore fields' = bytesBefore fields := by rw [bytesBefore, hwidth, bytesBefore]
  refine ⟨fun hallowed => ?_, fun hnot => h.full (hbytes ▸ hnot)⟩
  obtain ⟨o, hsettled, hr⟩ := h.fits (hbytes ▸ hallowed)
  exact ⟨o, ⟨hsettled.holds.congr hpack hwidth, hsettled.pos, hsettled.le, hsettled.even⟩, hr⟩

/-- One part of the writer behind another. -/
theorem Writes.bind {r : Except ErrorCode NCountOut} (h : Writes capacity writeIsSafe fields r)
    (fields' : BitFields) (hwidth : fields.width ≤ fields'.width)
    {f : NCountOut → Except ErrorCode NCountOut}
    (hf : ∀ o, o.Settled fields → Allowed capacity writeIsSafe o.out.length →
      Writes capacity writeIsSafe fields' (f o)) :
    Writes capacity writeIsSafe fields' (match r with
      | .error code => .error code
      | .ok o => f o) := by
  by_cases hallowed : Allowed capacity writeIsSafe (bytesBefore fields)
  · obtain ⟨o, hsettled, rfl⟩ := h.fits hallowed
    exact hf o hsettled (hsettled.length_eq ▸ hallowed)
  · rw [h.full hallowed]
    exact ⟨fun hlater => absurd (hlater.mono (bytesBefore_mono hwidth)) hallowed, fun _ => rfl⟩

/-! ### Zeros -/

theorem pack_replicate_eight (runs : ℕ) :
    BitFields.pack (List.replicate (8 * (runs + 1)) (3, 2)) =
        BitFields.pack ((0xFFFF, 16) :: List.replicate (8 * runs) (3, 2)) ∧
      BitFields.width (List.replicate (8 * (runs + 1)) (3, 2)) =
        BitFields.width ((0xFFFF, 16) :: List.replicate (8 * runs) (3, 2)) := by
  rw [Nat.mul_add, Nat.mul_one, Nat.add_comm, List.replicate_add]
  refine ⟨?_, ?_⟩
  · rw [BitFields.pack_append, BitFields.pack_cons]
    rfl
  · rw [BitFields.width_append, BitFields.width_cons]
    rfl

theorem writes_writeRuns24 (runs : ℕ) (h : o.Settled fields)
    (hallowed : Allowed capacity writeIsSafe o.out.length) :
    Writes capacity writeIsSafe (fields ++ List.replicate (8 * runs) (3, 2))
      (writeRuns24 capacity writeIsSafe runs o) := by
  induction runs generalizing o fields with
  | zero =>
      rw [Nat.mul_zero, List.replicate_zero, List.append_nil]
      exact ⟨fun _ => ⟨o, h, rfl⟩, fun hnot => absurd (h.length_eq ▸ hallowed) hnot⟩
  | succ runs ih =>
      obtain ⟨hpack, hwidth⟩ := pack_replicate_eight runs
      have hpos := h.pos
      have hle := h.le
      have hcount : (o.add 0xFFFF 16).bitCount = o.bitCount + 16 := rfl
      have hadd := h.holds.add (v := 0xFFFF) (n := 16) (by decide) (by omega)
      have hone : Writes capacity writeIsSafe (fields ++ [(0xFFFF, 16)])
          (flushTwo capacity writeIsSafe (o.add 0xFFFF 16)) :=
        writes_flushTwo hadd (by omega) (by omega) h.even
      have hall := hone.bind (fields ++ [(0xFFFF, 16)] ++ List.replicate (8 * runs) (3, 2))
        (by rw [BitFields.width_append _ (List.replicate _ _)]; omega)
        fun o' hsettled hmore => ih hsettled hmore
      rw [List.append_assoc] at hall
      refine hall.congr ?_ ?_
      · rw [BitFields.pack_append, hpack, BitFields.pack_append]
        rfl
      · rw [BitFields.width_append, hwidth, BitFields.width_append]
        rfl

theorem holds_writeRuns3 (runs : ℕ) (h : o.Holds fields) (hroom : o.bitCount + 2 * runs ≤ 32) :
    (writeRuns3 runs o).Holds (fields ++ List.replicate runs (3, 2)) ∧
      (writeRuns3 runs o).bitCount = o.bitCount + 2 * runs ∧ (writeRuns3 runs o).out = o.out := by
  induction runs generalizing o fields with
  | zero => exact ⟨by rwa [List.replicate_zero, List.append_nil], rfl, rfl⟩
  | succ runs ih =>
      have hcount : (o.add 3 2).bitCount = o.bitCount + 2 := rfl
      have hadd := h.add (v := 3) (n := 2) (by decide) (by omega)
      obtain ⟨hrest, hbits, hout⟩ := ih hadd (by omega)
      rw [List.append_assoc] at hrest
      exact ⟨hrest, by rw [writeRuns3, hbits, hcount]; omega, by rw [writeRuns3, hout]; rfl⟩

theorem zeroFields_eq (zeros : ℕ) :
    zeroFields zeros = List.replicate (8 * (zeros / 24)) (3, 2) ++
      (List.replicate (zeros % 24 / 3) (3, 2) ++ [(zeros % 3, 2)]) := by
  have hsplit : zeros / 3 = 8 * (zeros / 24) + zeros % 24 / 3 := by omega
  rw [zeroFields, hsplit, List.replicate_add, List.append_assoc]

/-- The zeros behind a zero are written. -/
theorem writes_writeZeros (zeros : ℕ) (h : o.Settled fields)
    (hallowed : Allowed capacity writeIsSafe o.out.length) :
    Writes capacity writeIsSafe (fields ++ zeroFields zeros)
      (writeZeros capacity writeIsSafe zeros o) := by
  have hruns := writes_writeRuns24 (zeros / 24) h hallowed
  rw [zeroFields_eq, ← List.append_assoc]
  refine hruns.bind _ (by rw [BitFields.width_append _ (List.replicate _ _ ++ _)]; omega)
    fun o' hsettled hmore => ?_
  have hpos := hsettled.pos
  have hle := hsettled.le
  obtain ⟨hholds, hbits, hout⟩ := holds_writeRuns3 (zeros % 24 / 3) hsettled.holds (by omega)
  have hthree : zeros % 3 < 2 ^ 2 := by omega
  have hlast := hholds.add hthree (by omega)
  have hcount : ((writeRuns3 (zeros % 24 / 3) o').add (zeros % 3) 2).bitCount =
      (writeRuns3 (zeros % 24 / 3) o').bitCount + 2 := rfl
  rw [← List.append_assoc]
  refine writes_flushIfFull hlast (by omega) (by omega) ?_ ?_
  · rw [NCountOut.add]
    simp only [hout]
    exact hsettled.even
  · rw [NCountOut.add]
    simp only [hout]
    exact hmore

/-! ### Counts -/

/-- The threshold is shrunk to the highest bit of what remains. -/
theorem shrinkThreshold_eq {remaining h : ℕ} (hpos : remaining ≠ 0)
    (hlt : remaining < 2 ^ (h + 1)) :
    shrinkThreshold remaining (h + 1) (2 ^ h) = (highbit remaining + 1, 2 ^ highbit remaining) := by
  induction h with
  | zero =>
      obtain rfl : remaining = 1 := by omega
      rfl
  | succ h ih =>
      rw [shrinkThreshold]
      by_cases hless : remaining < 2 ^ (h + 1)
      · rw [if_pos hless, Nat.pow_succ, Nat.mul_div_cancel _ (by decide)]
        exact ih hless
      · have hhigh : highbit remaining = h + 1 :=
          Nat.le_antisymm (Nat.le_of_lt_succ (highbit_lt hpos hlt)) (le_highbit (by omega))
        rw [if_neg hless, hhigh]

/-- The code of a count fits into its field. -/
theorem countField_lt {n : ℤ} {remaining : ℕ} (hge : -1 ≤ n) (hless : n.natAbs < remaining) :
    (countField n remaining).1 < 2 ^ (countField n remaining).2 := by
  obtain ⟨hle, hlt⟩ := highbit_spec (v := remaining) (by omega)
  have hdouble := Nat.pow_succ' (m := 2) (n := highbit remaining)
  unfold countField countCode
  simp only
  split_ifs <;> omega

/-- What the loop carries along between two counts. -/
structure NCountState.Settled (st : NCountState) (fields : BitFields) : Prop where
  o : st.o.Settled fields
  pos : 0 < st.remaining
  le : st.remaining < 2 ^ 14
  threshold_eq : st.threshold = 2 ^ highbit st.remaining
  nbBits_eq : st.nbBits = highbit st.remaining + 1

/-- The loop adds fields, unless it runs out of room. -/
structure WritesCounts (capacity : ℕ) (writeIsSafe : Bool) (fields : BitFields)
    (P : NCountState → Prop) (r : Except ErrorCode NCountState) : Prop where
  fits : Allowed capacity writeIsSafe (bytesBefore fields) →
    ∃ st, st.Settled fields ∧ P st ∧ r = .ok st
  full : ¬ Allowed capacity writeIsSafe (bytesBefore fields) → r = .error .dstSizeTooSmall

/-- The loop behind a part of the writer. -/
theorem Writes.bindCounts {r : Except ErrorCode NCountOut}
    (h : Writes capacity writeIsSafe fields r)
    (fields' : BitFields) (hwidth : fields.width ≤ fields'.width) {P : NCountState → Prop}
    {f : NCountOut → Except ErrorCode NCountState}
    (hf : ∀ o, o.Settled fields → Allowed capacity writeIsSafe o.out.length →
      WritesCounts capacity writeIsSafe fields' P (f o)) :
    WritesCounts capacity writeIsSafe fields' P (match r with
      | .error code => .error code
      | .ok o => f o) := by
  by_cases hallowed : Allowed capacity writeIsSafe (bytesBefore fields)
  · obtain ⟨o, hsettled, rfl⟩ := h.fits hallowed
    exact hf o hsettled (hsettled.length_eq ▸ hallowed)
  · rw [h.full hallowed]
    exact ⟨fun hlater => absurd (hlater.mono (bytesBefore_mono hwidth)) hallowed, fun _ => rfl⟩

/-- The rest of the loop behind a count. -/
theorem WritesCounts.bind {r : Except ErrorCode NCountState} {P : NCountState → Prop}
    (h : WritesCounts capacity writeIsSafe fields P r) (fields' : BitFields)
    (hwidth : fields.width ≤ fields'.width) {Q : NCountState → Prop}
    {f : NCountState → Except ErrorCode NCountState}
    (hf : ∀ st, st.Settled fields → P st → Allowed capacity writeIsSafe st.o.out.length →
      WritesCounts capacity writeIsSafe fields' Q (f st)) :
    WritesCounts capacity writeIsSafe fields' Q (match r with
      | .error code => .error code
      | .ok st => f st) := by
  by_cases hallowed : Allowed capacity writeIsSafe (bytesBefore fields)
  · obtain ⟨st, hsettled, hP, rfl⟩ := h.fits hallowed
    exact hf st hsettled hP (hsettled.o.length_eq ▸ hallowed)
  · rw [h.full hallowed]
    exact ⟨fun hlater => absurd (hlater.mono (bytesBefore_mono hwidth)) hallowed, fun _ => rfl⟩

theorem one_lt_threshold {remaining : ℕ} (hmore : 1 < remaining) : 2 ≤ 2 ^ highbit remaining := by
  have hle := le_highbit (v := remaining) (n := 1) (by omega)
  calc 2 = 2 ^ 1 := rfl
    _ ≤ 2 ^ highbit remaining := Nat.pow_le_pow_right (by decide) hle

theorem countCode_eq_one_iff {n : ℤ} {remaining : ℕ} (hge : -1 ≤ n) (hmore : 1 < remaining) :
    countCode n remaining (2 ^ highbit remaining) = 1 ↔ n = 0 := by
  have htwo := one_lt_threshold hmore
  unfold countCode
  simp only
  split_ifs <;> omega

variable {st : NCountState}

/-- A count is written. -/
theorem writes_writeCount {n : ℤ} (h : st.Settled fields) (hge : -1 ≤ n) (hmore : 1 < st.remaining)
    (hless : n.natAbs < st.remaining) (hallowed : Allowed capacity writeIsSafe st.o.out.length) :
    WritesCounts capacity writeIsSafe (fields ++ [countField n st.remaining])
      (fun st' => st'.remaining = st.remaining - n.natAbs ∧ st'.previousIs0 = decide (n = 0))
      (writeCount capacity writeIsSafe n st) := by
  obtain ⟨hsettled, hpos, hle, hthreshold, hbits⟩ := h
  have hhigh := highbit_lt (by omega) hle
  have hlt := countField_lt hge hless
  have hrange := highbit_spec (v := st.remaining) (by omega)
  have hcode : (countField n st.remaining).1 = countCode n st.remaining st.threshold := by
    rw [hthreshold]
    rfl
  have hwidth : (countField n st.remaining).2 =
      st.nbBits - if countCode n st.remaining st.threshold <
        2 * st.threshold - 1 - st.remaining then 1 else 0 := by
    rw [hthreshold, hbits, countField]
    simp only
    split_ifs <;> rfl
  have hnarrow : (countField n st.remaining).2 ≤ 14 := by
    rw [hwidth]
    omega
  have hcount := hsettled.pos
  have hcountLe := hsettled.le
  have hadd := hsettled.holds.add hlt (by omega)
  have hbitCount : (st.o.add (countField n st.remaining).1 (countField n st.remaining).2).bitCount =
      st.o.bitCount + (countField n st.remaining).2 := rfl
  have hwrites : Writes capacity writeIsSafe (fields ++ [countField n st.remaining])
      (flushIfFull capacity writeIsSafe
        (st.o.add (countField n st.remaining).1 (countField n st.remaining).2)) :=
    writes_flushIfFull hadd (by omega) (by omega) hsettled.even hallowed
  have hrest : st.remaining - n.natAbs ≠ 0 := by omega
  have hshrunk := shrinkThreshold_eq (h := highbit st.remaining) hrest (by omega)
  rw [← hbits, ← hthreshold] at hshrunk
  unfold writeCount
  simp only
  rw [if_neg (by omega), ← hwidth, ← hcode, hshrunk]
  refine ⟨fun hfits => ?_, fun hnot => ?_⟩
  · obtain ⟨o, ho, hok⟩ := hwrites.fits hfits
    rw [hok]
    refine ⟨_, ⟨ho, ?_, ?_, rfl, rfl⟩, ⟨rfl, ?_⟩, rfl⟩
    · simp only
      omega
    · simp only
      omega
    · simp only [hcode, hthreshold, countCode_eq_one_iff hge hmore]
  · rw [hwrites.full hnot]

theorem sum_natAbs_cons (n : ℤ) (rest : List ℤ) :
    ((n :: rest).map Int.natAbs).sum = n.natAbs + (rest.map Int.natAbs).sum := by
  rw [List.map_cons, List.sum_cons]

theorem writes_end (h : st.Settled fields) (hnone : st.remaining = 1)
    (hallowed : Allowed capacity writeIsSafe st.o.out.length) :
    WritesCounts capacity writeIsSafe (fields ++ []) (fun st' => st'.remaining = 1) (.ok st) := by
  rw [List.append_nil]
  exact ⟨fun _ => ⟨st, h, hnone, rfl⟩, fun hnot => absurd (h.o.length_eq ▸ hallowed) hnot⟩

/-- The counts of a whole distribution are written. -/
theorem writes_writeCounts {counts : List ℤ} (skipped : ℕ) (h : st.Settled fields)
    (hge : ∀ n ∈ counts, -1 ≤ n) (hsum : (counts.map Int.natAbs).sum + 1 = st.remaining)
    (hallowed : Allowed capacity writeIsSafe st.o.out.length) :
    WritesCounts capacity writeIsSafe
      (fields ++ countFields counts skipped st.remaining st.previousIs0)
      (fun st' => st'.remaining = 1) (writeCounts capacity writeIsSafe counts skipped st) := by
  induction counts generalizing fields st skipped with
  | nil => exact writes_end h (by simpa using hsum.symm) hallowed
  | cons n rest ih =>
      rw [sum_natAbs_cons] at hsum
      have hgeRest : ∀ n ∈ rest, -1 ≤ n := fun m hm => hge m (List.mem_cons_of_mem n hm)
      rw [writeCounts, countFields]
      by_cases hend : st.remaining ≤ 1
      · rw [if_pos hend, if_pos hend]
        exact writes_end h (by omega) hallowed
      rw [if_neg hend, if_neg hend]
      by_cases hzero : st.previousIs0 = true ∧ n = 0
      · rw [if_pos hzero, if_pos hzero]
        have hskip :=
          ih (skipped + 1) h hgeRest (by rw [hzero.2] at hsum; simpa using hsum) hallowed
        rwa [hzero.1] at hskip
      · rw [if_neg hzero, if_neg hzero]
        have hless : n.natAbs < st.remaining := by omega
        have hfront : Writes capacity writeIsSafe
            (fields ++ if st.previousIs0 then zeroFields skipped else [])
            (if st.previousIs0 then writeZeros capacity writeIsSafe skipped st.o else
              .ok st.o) := by
          cases st.previousIs0 with
          | true => exact writes_writeZeros skipped h.o hallowed
          | false =>
              rw [if_neg (by decide), if_neg (by decide), List.append_nil]
              exact ⟨fun _ => ⟨st.o, h.o, rfl⟩, fun hnot => absurd (h.o.length_eq ▸ hallowed) hnot⟩
        rw [← List.append_assoc]
        refine hfront.bindCounts _ (by simp) fun o ho hroom => ?_
        have hst : NCountState.Settled { st with o := o }
            (fields ++ if st.previousIs0 then zeroFields skipped else []) :=
          ⟨ho, h.pos, h.le, h.threshold_eq, h.nbBits_eq⟩
        have hone :=
          writes_writeCount hst (hge n List.mem_cons_self) (by simp only; omega) hless hroom
        have hsplit :=
          List.append_assoc (fields ++ if st.previousIs0 then zeroFields skipped else [])
          [countField n st.remaining]
          (countFields rest 0 (st.remaining - n.natAbs) (decide (n = 0)))
        rw [List.singleton_append] at hsplit
        rw [← hsplit]
        refine hone.bind _
          (by rw [BitFields.width_append _ (countFields _ _ _ _)]; exact Nat.le_add_right _ _)
          fun st' hst' hP hmore => ?_
        have hlater := ih 0 hst' hgeRest (by rw [hP.1]; simp only; omega) hmore
        rw [hP.1, hP.2] at hlater
        exact hlater

theorem countFields_settled (hlog : tableLog ≤ 12) (hlog' : 5 ≤ tableLog) :
    NCountState.Settled
      ⟨NCountOut.add ⟨[], 0, 0⟩ (tableLog - 5) 4, 2 ^ tableLog + 1, 2 ^ tableLog,
        tableLog + 1, false⟩
      [(tableLog - 5, 4)] := by
  have hempty : NCountOut.Holds ⟨[], 0, 0⟩ [] := ⟨rfl, rfl, Nat.one_pos⟩
  have hfield : tableLog - 5 < 2 ^ 4 := by omega
  have hsmall : 2 ^ tableLog ≤ 2 ^ 12 := Nat.pow_le_pow_right (by decide) hlog
  have hlarge : 2 ^ 5 ≤ 2 ^ tableLog := Nat.pow_le_pow_right (by decide) hlog'
  have hhigh : highbit (2 ^ tableLog + 1) = tableLog := by
    refine Nat.le_antisymm (Nat.le_of_lt_succ (highbit_lt (by omega) ?_)) (le_highbit (by omega))
    rw [Nat.pow_succ]
    omega
  refine ⟨⟨hempty.add hfield (by decide), Nat.succ_pos 3, Nat.le_add_right 4 12, rfl⟩,
    Nat.succ_pos _, ?_, ?_, ?_⟩
  · simp only
    omega
  · rw [hhigh]
  · rw [hhigh]

/-- The bytes of some fields. -/
def fieldBytes (fields : BitFields) : List Byte := bytesLE ((fields.width + 7) / 8) fields.pack

theorem length_fieldBytes (fields : BitFields) :
    (fieldBytes fields).length = (fields.width + 7) / 8 := length_bytesLE _ _

/-- What is returned when the register has been written. -/
theorem take_flushed (h : o.Settled fields) :
    o.flushed.out.take (o.out.length + (o.bitCount + 7) / 8) = fieldBytes fields := by
  have hlength := h.holds.length
  have hpos := h.pos
  have hle := h.le
  have hcount : (fields.width + 7) / 8 = o.out.length + (o.bitCount + 7) / 8 := by omega
  have hbytes : (256 : ℕ) ^ (o.out.length + (o.bitCount + 7) / 8) =
      2 ^ (8 * o.out.length) * 2 ^ (8 * ((o.bitCount + 7) / 8)) := by
    rw [Nat.pow_add, Nat.pow_mul, Nat.pow_mul]
  have hhigh : o.bitStream < 2 ^ (8 * ((o.bitCount + 7) / 8)) :=
    Nat.lt_of_lt_of_le h.holds.small (Nat.pow_le_pow_right (by decide) (by omega))
  have hword : o.bitStream < 256 ^ 2 := by
    refine Nat.lt_of_lt_of_le h.holds.small ?_
    calc 2 ^ o.bitCount ≤ 2 ^ 16 := Nat.pow_le_pow_right (by decide) hle
      _ = 256 ^ 2 := by decide
  have hvalue : littleEndian o.flushed.out = fields.pack := by
    rw [NCountOut.flushed, littleEndian_append, littleEndian_bytesLE, Nat.mod_eq_of_lt hword,
      ← h.holds.value, Nat.pow_mul]
  refine littleEndian_inj ?_ ?_
  · rw [List.length_take, NCountOut.length_flushed, fieldBytes, length_bytesLE]
    omega
  · rw [littleEndian_take, hvalue, fieldBytes, littleEndian_bytesLE, hcount]

/-- A distribution is described by its fields.  The bytes that are written to are those of the
fields up to a whole number of sixteen bits, and the writer that checks refuses if there are
not as many. -/
theorem writeNCountGeneric_eq {counts : List ℤ} (hge : ∀ n ∈ counts, -1 ≤ n)
    (hsum : (counts.map Int.natAbs).sum = 2 ^ tableLog) (hlog : tableLog ≤ 12)
    (hlog' : 5 ≤ tableLog) (capacity : ℕ) (writeIsSafe : Bool) :
    writeNCountGeneric capacity writeIsSafe counts tableLog =
      if writeIsSafe = true ∨ bytesBefore (ncountFields counts tableLog) + 2 ≤ capacity then
        .ok (fieldBytes (ncountFields counts tableLog))
      else .error .dstSizeTooSmall := by
  have hcounts : WritesCounts capacity writeIsSafe (ncountFields counts tableLog)
      (fun st => st.remaining = 1) (writeCounts capacity writeIsSafe counts 0
        ⟨NCountOut.add ⟨[], 0, 0⟩ (tableLog - 5) 4, 2 ^ tableLog + 1, 2 ^ tableLog, tableLog + 1,
          false⟩) :=
    writes_writeCounts 0 (countFields_settled hlog hlog') hge (congrArg (· + 1) hsum)
      (Or.inr (Nat.zero_le _))
  unfold writeNCountGeneric
  simp only
  by_cases hallowed : Allowed capacity writeIsSafe (bytesBefore (ncountFields counts tableLog) + 2)
  · obtain ⟨st, hst, hone, hok⟩ := hcounts.fits (hallowed.mono (Nat.le_add_right _ _))
    rw [hok, if_pos hallowed]
    simp only
    rw [if_neg (by omega), flushTwo_of_allowed (hst.o.length_eq ▸ hallowed)]
    exact congrArg Except.ok (take_flushed hst.o)
  · rw [if_neg hallowed]
    by_cases hbefore : Allowed capacity writeIsSafe (bytesBefore (ncountFields counts tableLog))
    · obtain ⟨st, hst, hone, hok⟩ := hcounts.fits hbefore
      rw [hok]
      simp only
      rw [if_neg (by omega), flushTwo_of_not_allowed (hst.o.length_eq ▸ hallowed)]
    · rw [hcounts.full hbefore]

/-- `FSE_writeNCount` refuses only if there is less room than the bound and less than is
needed. -/
theorem writeNCount_eq {counts : List ℤ} (hge : ∀ n ∈ counts, -1 ≤ n)
    (hsum : (counts.map slots).sum = 2 ^ tableLog) (hlog : 5 ≤ tableLog) (hlog' : tableLog ≤ 12)
    (bufferSize : ℕ) :
    writeNCount bufferSize counts tableLog =
      if ncountWriteBound (counts.length - 1) tableLog ≤ bufferSize ∨
          bytesBefore (ncountFields counts tableLog) + 2 ≤ bufferSize then
        .ok (fieldBytes (ncountFields counts tableLog))
      else .error .dstSizeTooSmall := by
  have habs : counts.map slots = counts.map Int.natAbs :=
    List.map_congr_left fun n hn => slots_eq_natAbs (hge n hn)
  rw [habs] at hsum
  unfold writeNCount
  rw [if_neg (by omega), if_neg (by omega), writeNCountGeneric_eq hge hsum hlog' hlog]
  simp only [decide_eq_true_eq]

/-- `FSE_writeNCount` does what the writer that checks for room does, except in a buffer that
has room for the bound but not for the last bytes that are written to. -/
theorem writeNCount_eq_checked_iff {counts : List ℤ} (hge : ∀ n ∈ counts, -1 ≤ n)
    (hsum : (counts.map slots).sum = 2 ^ tableLog) (hlog : 5 ≤ tableLog) (hlog' : tableLog ≤ 12)
    (bufferSize : ℕ) :
    writeNCount bufferSize counts tableLog = writeNCountGeneric bufferSize false counts tableLog ↔
      ¬ (ncountWriteBound (counts.length - 1) tableLog ≤ bufferSize ∧
        bufferSize < bytesBefore (ncountFields counts tableLog) + 2) := by
  have habs : counts.map slots = counts.map Int.natAbs :=
    List.map_congr_left fun n hn => slots_eq_natAbs (hge n hn)
  rw [writeNCount_eq hge hsum hlog hlog', writeNCountGeneric_eq hge (habs ▸ hsum) hlog' hlog]
  by_cases hfits : bytesBefore (ncountFields counts tableLog) + 2 ≤ bufferSize
  · rw [if_pos (Or.inr hfits), if_pos (Or.inr hfits)]
    exact ⟨fun _ hnot => absurd hfits (by omega), fun _ => rfl⟩
  · rw [if_neg (show ¬ (false = true ∨ _) by simpa using hfits)]
    by_cases hbound : ncountWriteBound (counts.length - 1) tableLog ≤ bufferSize
    · rw [if_pos (Or.inl hbound)]
      exact ⟨fun hsame => (by cases hsame), fun hnot => absurd ⟨hbound, by omega⟩ hnot⟩
    · rw [if_neg (by omega)]
      exact ⟨fun _ hnot => hbound hnot.1, fun _ => rfl⟩

/-- Zeros one by one cost more than the bound allows for. -/
theorem writeNCount_eq_checked_iff_zeros :
    writeNCount 21
        [0, -1, 0, -1, 0, -1, 0, 1, 0, 1, 0, -1, 0, 3, 0, -1, 0, 7, 0, -1, 0, 15, 0, 31] 6 ≠
      writeNCountGeneric 21 false
        [0, -1, 0, -1, 0, -1, 0, 1, 0, 1, 0, -1, 0, 3, 0, -1, 0, 7, 0, -1, 0, 15, 0, 31] 6 := by
  intro hsame
  exact (writeNCount_eq_checked_iff (by decide) (by decide) (by decide) (by decide) 21).mp hsame
    (by decide)

/-- For the codes of sequences the bound is far below the room that is reserved for one
symbol. -/
theorem ncountWriteBound_le {maxSymbolValue : ℕ} (hmax : maxSymbolValue + 1 ≤ 64)
    (hlog : tableLog ≤ 12) : ncountWriteBound maxSymbolValue tableLog ≤ 512 := by
  have hproduct : (maxSymbolValue + 1) * tableLog ≤ 64 * 12 := Nat.mul_le_mul hmax hlog
  unfold ncountWriteBound
  simp only
  split_ifs <;> omega

theorem width_replicate (repeats : ℕ) :
    BitFields.width (List.replicate repeats (3, 2)) = 2 * repeats := by
  induction repeats with
  | zero => rfl
  | succ repeats ih =>
      rw [List.replicate_succ, BitFields.width_cons, ih]
      omega

theorem width_zeroFields (zeros : ℕ) : (zeroFields zeros).width = 2 * (zeros / 3) + 2 := by
  rw [zeroFields, BitFields.width_append, width_replicate,
    BitFields.width_cons, BitFields.width_nil]

/-- A field takes sixteen bits at most, with the number of zeros in front of it. -/
theorem width_countFields_le (counts : List ℤ) (skipped : ℕ) {remaining : ℕ} (previousIs0 : Bool)
    (hlt : remaining < 2 ^ 14) :
    (countFields counts skipped remaining previousIs0).width ≤ 16 * counts.length + skipped := by
  induction counts generalizing skipped remaining previousIs0 with
  | nil => exact Nat.zero_le _
  | cons n rest ih =>
      rw [countFields, List.length_cons]
      by_cases hend : remaining ≤ 1
      · rw [if_pos hend]
        exact Nat.zero_le _
      rw [if_neg hend]
      by_cases hzero : previousIs0 = true ∧ n = 0
      · rw [if_pos hzero]
        have hrest := ih (skipped + 1) true hlt
        omega
      · rw [if_neg hzero, BitFields.width_append, BitFields.width_cons]
        have hrest := ih 0 (decide (n = 0)) (show remaining - n.natAbs < 2 ^ 14 by omega)
        have hhigh := highbit_lt (v := remaining) (n := 14) (by omega) hlt
        have hfield : (countField n remaining).2 ≤ 14 := by
          unfold countField
          simp only
          split_ifs <;> omega
        have hfront : BitFields.width (if previousIs0 then zeroFields skipped else []) ≤
            skipped + 2 := by
          cases previousIs0 with
          | true =>
              rw [if_pos rfl, width_zeroFields]
              omega
          | false => exact Nat.zero_le _
        omega

/-- Descriptions are short. -/
theorem length_fieldBytes_le (counts : List ℤ) (hlog : tableLog ≤ 12) :
    (fieldBytes (ncountFields counts tableLog)).length ≤ 2 * counts.length + 2 := by
  have hsmall : 2 ^ tableLog ≤ 2 ^ 12 := Nat.pow_le_pow_right (by decide) hlog
  have hwidth := width_countFields_le counts 0 false (show 2 ^ tableLog + 1 < 2 ^ 14 by omega)
  rw [length_fieldBytes, ncountFields, BitFields.width_cons]
  omega

end Written

end ZstdJni.Entropy
