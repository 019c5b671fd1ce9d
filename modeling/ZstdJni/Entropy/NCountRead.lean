/-
# Reading the description of a distribution

The reader looks at 32 bits at a time.  It counts how many bits of them it has used and
moves on by whole bytes, except at the end of the bytes, where it stays four bytes in front
of the end and uses more of the bits.

Whatever the bytes are, a description that is accepted is one of normalized counts.  What the
writer wrote for some counts is read back, whatever lies behind it.
-/

import ZstdJni.Entropy.NCountWrite

namespace ZstdJni.Entropy

open ZstdJni.Foundation ZstdJni.Native

/-! ## The reader -/

/-- A place in the bytes, with the bits that are loaded there. -/
structure NCountPos where
  ip : ℕ
  bitCount : ℕ
  bitStream : ℕ

/-- The number of zeros below the lowest one of a number of some bits. -/
def countTrailingZeros : ℕ → ℕ → ℕ
  | 0, _ => 0
  | bits + 1, val => if val % 2 = 1 then 0 else countTrailingZeros bits (val / 2) + 1

/-- `ZSTD_countTrailingZeros32`. -/
def countTrailingZeros32 (val : ℕ) : ℕ := countTrailingZeros 32 val

/-- `ZSTD_countTrailingZeros32(~bitStream | 0x80000000) >> 1`. -/
def countRepeats (bitStream : ℕ) : ℕ :=
  countTrailingZeros32 ((2 ^ 32 - 1 - bitStream) ||| 0x80000000) >>> 1

/-- What the loop of `FSE_readNCount_body` carries along.  A count is never larger than what
remains, so this is a natural number. -/
structure NCountReader where
  pos : NCountPos
  charnum : ℕ
  remaining : ℕ
  threshold : ℕ
  nbBits : ℕ
  previous0 : Bool
  normalizedCounter : List ℤ

/-- What `FSE_readNCount` returns. -/
structure NCount where
  normalizedCounter : List ℤ
  maxSymbolValue : ℕ
  tableLog : ℕ
  size : ℕ
  deriving DecidableEq

section Model

variable (bytes : List Byte) (maxSV1 : ℕ)

/-- `bitStream = MEM_readLE32(ip) >> bitCount`. -/
def loadAt (ip bitCount : ℕ) : NCountPos := ⟨ip, bitCount, readLE bytes ip 4 >>> bitCount⟩

/-- Whole bytes that are used up are left behind. -/
def reloadNCount (pos : NCountPos) : NCountPos :=
  if pos.ip + 7 ≤ bytes.length ∨ pos.ip + pos.bitCount / 8 + 4 ≤ bytes.length then
    loadAt bytes (pos.ip + pos.bitCount / 8) (pos.bitCount % 8)
  else loadAt bytes (bytes.length - 4) ((pos.bitCount - 8 * (bytes.length - 4 - pos.ip)) % 32)

/-- Twelve repeats are three bytes. -/
def skipBytes (pos : NCountPos) : NCountPos :=
  if pos.ip + 7 ≤ bytes.length then loadAt bytes (pos.ip + 3) pos.bitCount
  else loadAt bytes (bytes.length - 4) ((pos.bitCount + 8 * pos.ip - 8 * (bytes.length - 7)) % 32)

/-- `while (repeats >= 12)`. -/
def skipRepeats : ℕ → NCountPos → ℕ → NCountPos × ℕ
  | 0, pos, charnum => (pos, charnum)
  | fuel + 1, pos, charnum =>
    if 12 ≤ countRepeats pos.bitStream then
      skipRepeats fuel (skipBytes bytes pos) (charnum + 3 * 12)
    else (pos, charnum)

/-- The zeros behind a zero. -/
def readZeros (pos : NCountPos) (charnum : ℕ) : NCountPos × ℕ :=
  let skipped := skipRepeats bytes bytes.length pos charnum
  let repeats := countRepeats skipped.1.bitStream
  let bitStream := skipped.1.bitStream >>> (2 * repeats)
  ({ skipped.1 with bitStream := bitStream, bitCount := skipped.1.bitCount + 2 * repeats + 2 },
    skipped.2 + 3 * repeats + bitStream % 4)

/-- The number of a count, and its width. -/
def readCount (st : NCountReader) : ℕ × ℕ :=
  let max := 2 * st.threshold - 1 - st.remaining
  if st.pos.bitStream % st.threshold < max then (st.pos.bitStream % st.threshold, st.nbBits - 1)
  else
    let count := st.pos.bitStream % (2 * st.threshold)
    (if st.threshold ≤ count then count - max else count, st.nbBits)

/-- A count is set. -/
def setCount (st : NCountReader) : NCountReader :=
  let field := readCount st
  let count : ℤ := field.1 - 1
  { st with
    pos := { st.pos with bitCount := st.pos.bitCount + field.2 }
    charnum := st.charnum + 1
    remaining := st.remaining - count.natAbs
    normalizedCounter := st.normalizedCounter.set st.charnum count
    previous0 := count = 0 }

/-- A count is read.  The second component says whether the loop goes on. -/
def takeCount (st : NCountReader) : NCountReader × Bool :=
  let st' := setCount st
  if st'.remaining < st.threshold ∧ st'.remaining ≤ 1 then (st', false)
  else
    let st' :=
      if st'.remaining < st.threshold then
        { st' with nbBits := highbit st'.remaining + 1, threshold := 2 ^ highbit st'.remaining }
      else st'
    if maxSV1 ≤ st'.charnum then (st', false)
    else ({ st' with pos := reloadNCount bytes st'.pos }, true)

/-- The body of the loop of `FSE_readNCount_body`. -/
def readTurn (st : NCountReader) : NCountReader × Bool :=
  if st.previous0 then
    let zeros := readZeros bytes st.pos st.charnum
    if maxSV1 ≤ zeros.2 then ({ st with pos := zeros.1, charnum := zeros.2 }, false)
    else takeCount bytes maxSV1 { st with pos := reloadNCount bytes zeros.1, charnum := zeros.2 }
  else takeCount bytes maxSV1 st

/-- The loop of `FSE_readNCount_body`, which sets a count in each turn. -/
def readCounts : ℕ → NCountReader → NCountReader
  | 0, st => st
  | fuel + 1, st =>
    let turn := readTurn bytes maxSV1 st
    if turn.2 then readCounts fuel turn.1 else turn.1

/-- `FSE_readNCount_body` of at least eight bytes. -/
def readNCountBody (maxSymbolValue : ℕ) : Except ErrorCode NCount :=
  let bitStream := readLE bytes 0 4
  let tableLog := bitStream % 16 + 5
  if 15 < tableLog then .error .tableLogTooLarge
  else
    let maxSV1 := maxSymbolValue + 1
    let st := readCounts bytes maxSV1 maxSV1
      { pos := ⟨0, 4, bitStream >>> 4⟩
        charnum := 0
        remaining := 2 ^ tableLog + 1
        threshold := 2 ^ tableLog
        nbBits := tableLog + 1
        previous0 := false
        normalizedCounter := List.replicate maxSV1 0 }
    if st.remaining ≠ 1 then .error .corruptionDetected
    else if maxSV1 < st.charnum then .error .maxSymbolValueTooSmall
    else if 32 < st.pos.bitCount then .error .corruptionDetected
    else
      .ok ⟨st.normalizedCounter, st.charnum - 1, tableLog, st.pos.ip + (st.pos.bitCount + 7) / 8⟩

/-- `FSE_readNCount`. -/
def readNCount (maxSymbolValue : ℕ) : Except ErrorCode NCount :=
  if bytes.length < 8 then
    match readNCountBody (bytes ++ List.replicate (8 - bytes.length) 0) maxSymbolValue with
    | .error code => .error code
    | .ok r => if bytes.length < r.size then .error .corruptionDetected else .ok r
  else readNCountBody bytes maxSymbolValue

end Model

/-! ## Runs of ones -/

theorem le_countTrailingZeros {bits k val : ℕ} (hk : k ≤ bits) :
    k ≤ countTrailingZeros bits val ↔ val % 2 ^ k = 0 := by
  induction bits generalizing k val with
  | zero => simp [Nat.le_zero.mp hk, Nat.mod_one]
  | succ bits ih =>
      cases k with
      | zero => simp [Nat.mod_one]
      | succ k =>
          have hhalf : k ≤ countTrailingZeros bits (val / 2) ↔ val / 2 % 2 ^ k = 0 :=
            ih (Nat.le_of_succ_le_succ hk)
          have hsplit : val % 2 ^ (k + 1) = val % 2 + 2 * (val / 2 % 2 ^ k) := by
            rw [Nat.pow_succ', Nat.mod_mul]
          rw [countTrailingZeros, hsplit]
          split_ifs with hodd
          · omega
          · rw [Nat.add_le_add_iff_right, hhalf]
            omega

/-- There are as many repeats as pairs of ones at the low end. -/
theorem le_countRepeats {bitStream k : ℕ} (hstream : bitStream < 2 ^ 32) (hk : k ≤ 15) :
    k ≤ countRepeats bitStream ↔ bitStream % 2 ^ (2 * k) = 2 ^ (2 * k) - 1 := by
  have hpos := Nat.two_pow_pos (2 * k)
  obtain ⟨high, hhigh⟩ : ∃ high, 2 ^ 32 = 2 ^ (2 * k) * high :=
    ⟨2 ^ (32 - 2 * k), by rw [← Nat.pow_add]; congr 1; omega⟩
  have hmark : ((2 ^ 32 - 1 - bitStream) ||| 0x80000000) % 2 ^ (2 * k) =
      (2 ^ 32 - 1 - bitStream) % 2 ^ (2 * k) := by
    have hzero : 0x80000000 % 2 ^ (2 * k) = 0 :=
      Nat.mod_eq_zero_of_dvd (Nat.pow_dvd_pow 2 (show 2 * k ≤ 31 by omega))
    rw [Nat.or_mod_two_pow, hzero, Nat.or_zero]
  have hflip : (2 ^ 32 - 1 - bitStream) % 2 ^ (2 * k) =
    2 ^ (2 * k) - 1 - bitStream % 2 ^ (2 * k) := by
    have hlt := Nat.mod_lt bitStream hpos
    have hdivide := Nat.mod_add_div bitStream (2 ^ (2 * k))
    have hquot : bitStream / 2 ^ (2 * k) < high := by
      rw [Nat.div_lt_iff_lt_mul hpos, Nat.mul_comm, ← hhigh]
      exact hstream
    obtain ⟨rest, hrest⟩ := Nat.exists_eq_add_of_lt hquot
    have heq : 2 ^ 32 - 1 - bitStream =
        2 ^ (2 * k) - 1 - bitStream % 2 ^ (2 * k) + 2 ^ (2 * k) * rest := by
      have hexpand : 2 ^ (2 * k) * high =
          2 ^ (2 * k) * (bitStream / 2 ^ (2 * k)) + 2 ^ (2 * k) * rest + 2 ^ (2 * k) := by
        rw [hrest]
        ring
      omega
    rw [heq, Nat.add_mul_mod_self_left, Nat.mod_eq_of_lt (by omega)]
  have hshift : k ≤ countRepeats bitStream ↔
      2 * k ≤ countTrailingZeros32 ((2 ^ 32 - 1 - bitStream) ||| 0x80000000) := by
    rw [countRepeats, Nat.shiftRight_eq_div_pow]
    omega
  have hlt := Nat.mod_lt bitStream hpos
  rw [hshift, countTrailingZeros32, le_countTrailingZeros (by omega), hmark, hflip]
  omega

/-! ## What is accepted -/

section Sound

variable {bytes : List Byte} {maxSV1 tableLog : ℕ} {st : NCountReader} {pos : NCountPos}

/-- Four bytes can be loaded, and few bits of them have been used unless they are the last. -/
structure NCountPos.Placed (bytes : List Byte) (pos : NCountPos) : Prop where
  ip_le : pos.ip + 4 ≤ bytes.length
  bitCount_lt : pos.bitCount < 32
  early : pos.ip + 7 ≤ bytes.length → pos.bitCount < 8

/-- What is set so far, and what remains, are a whole distribution. -/
structure NCountReader.Counted (bytes : List Byte) (maxSV1 tableLog : ℕ) (st : NCountReader) :
    Prop where
  ip_le : st.pos.ip + 4 ≤ bytes.length
  pos : 0 < st.remaining
  length_eq : st.normalizedCounter.length = maxSV1
  count_ge : ∀ n ∈ st.normalizedCounter, -1 ≤ n
  sum_eq : (st.normalizedCounter.map slots).sum + st.remaining = 2 ^ tableLog + 1
  zeros : ∀ i, st.charnum ≤ i → st.normalizedCounter.getD i 0 = 0

/-- At the beginning of a turn a count is still missing, and there is a place for it. -/
structure NCountReader.Open (bytes : List Byte) (maxSV1 tableLog : ℕ) (st : NCountReader) :
    Prop where
  counted : st.Counted bytes maxSV1 tableLog
  placed : st.pos.Placed bytes
  more : 1 < st.remaining
  charnum_lt : st.charnum < maxSV1
  threshold_eq : st.threshold = 2 ^ highbit st.remaining
  nbBits_eq : st.nbBits = highbit st.remaining + 1

/-- Behind the loop, a complete distribution ends with a symbol that occurs. -/
structure NCountReader.Closed (bytes : List Byte) (maxSV1 tableLog : ℕ) (st : NCountReader) :
    Prop where
  counted : st.Counted bytes maxSV1 tableLog
  last : st.remaining = 1 → ∃ last < maxSV1, st.charnum = last + 1 ∧
    st.normalizedCounter.getD last 0 ≠ 0

/-- What a turn does. -/
structure Turned (bytes : List Byte) (maxSV1 tableLog : ℕ) (turn : NCountReader × Bool) : Prop where
  more : turn.2 = true → turn.1.Open bytes maxSV1 tableLog
  done : turn.2 = false → turn.1.Closed bytes maxSV1 tableLog

theorem Turned.closed (h : st.Closed bytes maxSV1 tableLog) :
    Turned bytes maxSV1 tableLog (st, false) :=
  ⟨fun hgo => absurd hgo Bool.false_ne_true, fun _ => h⟩

theorem Turned.opened (h : st.Open bytes maxSV1 tableLog) :
    Turned bytes maxSV1 tableLog (st, true) :=
  ⟨fun _ => h, fun hgo => absurd hgo.symm Bool.false_ne_true⟩

theorem placed_loadAt {ip bitCount : ℕ} (hip : ip + 4 ≤ bytes.length) (hlt : bitCount < 32)
    (hearly : ip + 7 ≤ bytes.length → bitCount < 8) : (loadAt bytes ip bitCount).Placed bytes :=
  ⟨hip, hlt, hearly⟩

/-- The bytes that are loaded lie within the bytes that there are. -/
theorem placed_reloadNCount (hip : pos.ip + 4 ≤ bytes.length)
    (hearly : pos.ip + 7 ≤ bytes.length → pos.bitCount < 32) :
    (reloadNCount bytes pos).Placed bytes := by
  unfold reloadNCount
  split_ifs with hcase
  · exact placed_loadAt (by omega) (by omega) (by omega)
  · exact placed_loadAt (by omega) (Nat.mod_lt _ (by decide)) (by omega)

theorem placed_skipBytes (h : pos.Placed bytes) : (skipBytes bytes pos).Placed bytes := by
  have hip := h.ip_le
  unfold skipBytes
  split_ifs with hinside
  · exact placed_loadAt (by omega) h.bitCount_lt fun _ => h.early hinside
  · exact placed_loadAt (by omega) (Nat.mod_lt _ (by decide)) (by omega)

theorem placed_skipRepeats (fuel charnum : ℕ) (h : pos.Placed bytes) :
    (skipRepeats bytes fuel pos charnum).1.Placed bytes := by
  induction fuel generalizing pos charnum with
  | zero => exact h
  | succ fuel ih =>
      rw [skipRepeats]
      by_cases hmany : 12 ≤ countRepeats pos.bitStream
      · rw [if_pos hmany]
        exact ih _ (placed_skipBytes h)
      · rwa [if_neg hmany]

theorem loadAt_lt (bytes : List Byte) (ip bitCount : ℕ) : (loadAt bytes ip bitCount).bitStream < 2 ^
    (32 - bitCount) := by
  have hlt : readLE bytes ip 4 < 2 ^ 32 := by
    rw [readLE_eq]
    exact Nat.mod_lt _ (by decide)
  rw [loadAt, Nat.shiftRight_eq_div_pow]
  by_cases hbits : bitCount ≤ 32
  · rw [Nat.div_lt_iff_lt_mul (Nat.two_pow_pos bitCount), ← Nat.pow_add, Nat.sub_add_cancel hbits]
    exact hlt
  · rw [Nat.div_eq_of_lt (Nat.lt_trans hlt (Nat.pow_lt_pow_right (by decide) (by omega)))]
    exact Nat.two_pow_pos _

theorem bitCount_le_of_countRepeats {ip bitCount : ℕ}
    (hmany : 12 ≤ countRepeats (loadAt bytes ip bitCount).bitStream) : bitCount ≤ 8 := by
  have hlt := loadAt_lt bytes ip bitCount
  have hword := Nat.lt_of_lt_of_le hlt (Nat.pow_le_pow_right (by decide) (Nat.sub_le 32 bitCount))
  rw [le_countRepeats hword (by decide)] at hmany
  by_contra hbits
  have hfew : 2 ^ (32 - bitCount) ≤ 2 ^ 23 := Nat.pow_le_pow_right (by decide) (by omega)
  have hmod := Nat.mod_le (loadAt bytes ip bitCount).bitStream (2 ^ (2 * 12))
  omega

theorem skipRepeats_of_lt (hfew : countRepeats pos.bitStream < 12) (fuel charnum : ℕ) :
    skipRepeats bytes fuel pos charnum = (pos, charnum) := by
  cases fuel with
  | zero => rfl
  | succ fuel => exact if_neg (Nat.not_le_of_lt hfew)

/-- Four bytes in front of the end the bits run out. -/
theorem skipRepeats_last (hlength : 8 ≤ bytes.length) {bitCount : ℕ} (hbits : bitCount < 32)
    (fuel charnum : ℕ) :
    countRepeats (skipRepeats bytes (fuel + 2) (loadAt bytes (bytes.length - 4) bitCount)
      charnum).1.bitStream < 12 := by
  have hstep : ∀ n b c, 12 ≤ countRepeats (loadAt bytes (bytes.length - 4) b).bitStream →
      skipRepeats bytes (n + 1) (loadAt bytes (bytes.length - 4) b) c =
        skipRepeats bytes n (loadAt bytes (bytes.length - 4) ((b + 24) % 32)) (c + 3 * 12) := by
    intro n b c hmany
    have hback : b + 8 * (bytes.length - 4) - 8 * (bytes.length - 7) = b + 24 := by omega
    have houtside : ¬ (loadAt bytes (bytes.length - 4) b).ip + 7 ≤ bytes.length := by
      simp only [loadAt]
      omega
    rw [skipRepeats, if_pos hmany, skipBytes, if_neg houtside]
    simp only [loadAt, hback]
  have hstop : ∀ n b c, 8 < b →
      countRepeats (skipRepeats bytes n (loadAt bytes (bytes.length - 4) b) c).1.bitStream <
        12 := by
    intro n b c hb
    have hfew : countRepeats (loadAt bytes (bytes.length - 4) b).bitStream < 12 :=
      Nat.lt_of_not_le fun hmany => by
        have hle := bitCount_le_of_countRepeats hmany
        omega
    rwa [skipRepeats_of_lt hfew]
  by_cases hmany : 12 ≤ countRepeats (loadAt bytes (bytes.length - 4) bitCount).bitStream
  · rw [hstep _ _ _ hmany]
    have hle := bitCount_le_of_countRepeats hmany
    by_cases height : bitCount = 8
    · rw [height]
      by_cases hagain : 12 ≤ countRepeats (loadAt bytes (bytes.length - 4) 0).bitStream
      · rw [hstep _ _ _ hagain]
        exact hstop _ _ _ (by decide)
      · rw [skipRepeats_of_lt (Nat.lt_of_not_le hagain)]
        exact Nat.lt_of_not_le hagain
    · exact hstop _ _ _ (by omega)
  · rw [skipRepeats_of_lt (Nat.lt_of_not_le hmany)]
    exact Nat.lt_of_not_le hmany

/-- The loop over the repeats ends. -/
theorem skipRepeats_done {fuel : ℕ} (charnum : ℕ) (hlength : 8 ≤ bytes.length)
    (h : pos.Placed bytes) (hfuel : bytes.length ≤ fuel + pos.ip) :
    countRepeats (skipRepeats bytes fuel pos charnum).1.bitStream < 12 := by
  induction fuel generalizing pos charnum with
  | zero =>
      have hip := h.ip_le
      omega
  | succ fuel ih =>
      have hip := h.ip_le
      by_cases hmany : 12 ≤ countRepeats pos.bitStream
      · rw [skipRepeats, if_pos hmany, skipBytes]
        by_cases hinside : pos.ip + 7 ≤ bytes.length
        · rw [if_pos hinside]
          refine ih _ (placed_loadAt (by omega) h.bitCount_lt fun _ => h.early hinside) ?_
          simp only [loadAt]
          omega
        · rw [if_neg hinside]
          obtain ⟨more, rfl⟩ := Nat.exists_eq_add_of_le' (show 2 ≤ fuel by omega)
          exact skipRepeats_last hlength (Nat.mod_lt _ (by decide)) more _
      · rw [skipRepeats_of_lt (Nat.lt_of_not_le hmany)]
        exact Nat.lt_of_not_le hmany

theorem le_skipRepeats (fuel charnum : ℕ) :
    charnum ≤ (skipRepeats bytes fuel pos charnum).2 := by
  induction fuel generalizing pos charnum with
  | zero => exact Nat.le_refl charnum
  | succ fuel ih =>
      rw [skipRepeats]
      by_cases hmany : 12 ≤ countRepeats pos.bitStream
      · rw [if_pos hmany]
        exact Nat.le_trans (Nat.le_add_right charnum _) (ih _)
      · rw [if_neg hmany]

/-- A count is at most what remains. -/
theorem readCount_le (h : st.Open bytes maxSV1 tableLog) : (readCount st).1 ≤ st.remaining := by
  obtain ⟨hle, hlt⟩ := highbit_spec (v := st.remaining) (by have hmore := h.more; omega)
  have hthreshold := h.threshold_eq
  have hdouble := Nat.pow_succ' (m := 2) (n := highbit st.remaining)
  have hlow := Nat.mod_lt st.pos.bitStream (y := st.threshold) (by omega)
  have hhigh := Nat.mod_lt st.pos.bitStream (y := 2 * st.threshold) (by omega)
  unfold readCount
  simp only
  split_ifs <;> simp only <;> omega

theorem readCount_width_le (st : NCountReader) : (readCount st).2 ≤ st.nbBits := by
  unfold readCount
  simp only
  by_cases hsmall : st.pos.bitStream % st.threshold < 2 * st.threshold - 1 - st.remaining
  · rw [if_pos hsmall]
    exact Nat.sub_le _ _
  · rw [if_neg hsmall]

theorem placed_used (h : pos.Placed bytes) {used : ℕ} (hused : used ≤ 24) :
    (reloadNCount bytes { pos with bitCount := pos.bitCount + used }).Placed bytes := by
  have hearly := h.early
  exact placed_reloadNCount h.ip_le (fun hinside => by
    have hlt := hearly hinside
    simp only
    omega)

theorem counted_setCount (h : st.Open bytes maxSV1 tableLog) :
    (setCount st).Counted bytes maxSV1 tableLog := by
  have hle := readCount_le h
  have hmore := h.more
  have hlength := h.counted.length_eq
  have hsum := h.counted.sum_eq
  have hge : (-1 : ℤ) ≤ (readCount st).1 - 1 := by omega
  have hslots := slots_eq_natAbs hge
  refine ⟨h.counted.ip_le, ?_, ?_, ?_, ?_, ?_⟩
  · simp only [setCount]
    omega
  · rw [setCount, List.length_set, hlength]
  · intro n hn
    rcases List.mem_or_eq_of_mem_set hn with hold | hnew
    · exact h.counted.count_ge n hold
    · rw [hnew]
      exact hge
  · have hset := sum_slots_set (show st.charnum < st.normalizedCounter.length by
      rw [hlength]; exact h.charnum_lt) ((readCount st).1 - 1)
    have hnone : slots (st.normalizedCounter.getD st.charnum 0) = 0 := by
      rw [h.counted.zeros _ (Nat.le_refl _)]
      rfl
    simp only [setCount]
    omega
  · intro i hi
    simp only [setCount] at hi ⊢
    rw [List.getD_eq_getElem?_getD, List.getElem?_set_ne (by omega), ← List.getD_eq_getElem?_getD]
    exact h.counted.zeros i (by omega)

/-- The last of the slots go to a symbol that occurs. -/
theorem last_setCount (h : st.Open bytes maxSV1 tableLog) (hone : (setCount st).remaining = 1) :
    ∃ last < maxSV1, (setCount st).charnum = last + 1 ∧
      (setCount st).normalizedCounter.getD last 0 ≠ 0 := by
  have hmore := h.more
  have hlt := h.charnum_lt
  have hlength := h.counted.length_eq
  refine ⟨st.charnum, hlt, rfl, ?_⟩
  simp only [setCount] at hone ⊢
  rw [List.getD_eq_getElem?_getD, List.getElem?_set_self (by omega), Option.getD_some]
  omega

/-- The threshold stays the power of two below what remains. -/
theorem highbit_setCount (h : st.Open bytes maxSV1 tableLog)
    (hle : st.threshold ≤ (setCount st).remaining) :
    highbit (setCount st).remaining = highbit st.remaining := by
  have hmore := h.more
  have hthreshold := h.threshold_eq
  have hless : (setCount st).remaining ≤ st.remaining := Nat.sub_le _ _
  obtain ⟨_, hlt⟩ := highbit_spec (v := st.remaining) (by omega)
  rw [hthreshold] at hle
  have hpos := (counted_setCount h).pos
  exact Nat.le_antisymm
    (Nat.le_of_lt_succ (highbit_lt (by omega) (by omega))) (le_highbit hle)

/-- A count is at most sixteen bits wide. -/
theorem readCount_width_lt (h : st.Open bytes maxSV1 tableLog) (hlog : tableLog ≤ 15) :
    (readCount st).2 ≤ 24 := by
  have hwidth := readCount_width_le st
  have hbits := h.nbBits_eq
  have hsum := h.counted.sum_eq
  have hmore := h.more
  have hpow : 2 ^ tableLog ≤ 2 ^ 15 := Nat.pow_le_pow_right (by decide) hlog
  have hlt := highbit_lt (v := st.remaining) (n := 16) (by omega) (by omega)
  omega

/-- A count is read, and its place is reloaded. -/
theorem turned_takeCount (h : st.Open bytes maxSV1 tableLog) (hlog : tableLog ≤ 15) :
    Turned bytes maxSV1 tableLog (takeCount bytes maxSV1 st) := by
  have hmore := h.more
  have hthreshold := h.threshold_eq
  have hcounted := counted_setCount h
  have hclosed : (setCount st).Closed bytes maxSV1 tableLog := ⟨hcounted, last_setCount h⟩
  have hplaced := placed_used h.placed (readCount_width_lt h hlog)
  unfold takeCount
  simp only
  by_cases hend : (setCount st).remaining < st.threshold ∧ (setCount st).remaining ≤ 1
  · rw [if_pos hend]
    exact Turned.closed hclosed
  rw [if_neg hend]
  by_cases hsmaller : (setCount st).remaining < st.threshold
  · rw [if_pos hsmaller]
    have hleft : 1 < (setCount st).remaining := by omega
    by_cases hfull : maxSV1 ≤ (setCount st).charnum
    · rw [if_pos hfull]
      exact Turned.closed ⟨⟨hcounted.ip_le, hcounted.pos, hcounted.length_eq, hcounted.count_ge,
        hcounted.sum_eq, hcounted.zeros⟩, hclosed.last⟩
    · rw [if_neg hfull]
      exact Turned.opened ⟨⟨hplaced.ip_le, hcounted.pos, hcounted.length_eq, hcounted.count_ge,
        hcounted.sum_eq, hcounted.zeros⟩, hplaced, hleft, Nat.lt_of_not_le hfull, rfl, rfl⟩
  · rw [if_neg hsmaller]
    have hsame := highbit_setCount h (Nat.le_of_not_lt hsmaller)
    have hleft : 1 < (setCount st).remaining := by
      have hpos := hcounted.pos
      have hfew := (highbit_spec (v := st.remaining) (by omega)).2
      rw [Nat.pow_succ'] at hfew
      omega
    by_cases hfull : maxSV1 ≤ (setCount st).charnum
    · rw [if_pos hfull]
      exact Turned.closed hclosed
    · rw [if_neg hfull]
      exact Turned.opened ⟨⟨hplaced.ip_le, hcounted.pos, hcounted.length_eq, hcounted.count_ge,
        hcounted.sum_eq, hcounted.zeros⟩, hplaced, hleft, Nat.lt_of_not_le hfull,
        h.threshold_eq.trans (congrArg (2 ^ ·) hsame.symm),
        h.nbBits_eq.trans (congrArg (· + 1) hsame.symm)⟩

theorem charnum_takeCount (st : NCountReader) :
    (takeCount bytes maxSV1 st).1.charnum = st.charnum + 1 := by
  unfold takeCount
  simp only
  split_ifs <;> rfl

theorem le_readZeros (bytes : List Byte) (pos : NCountPos) (charnum : ℕ) :
    charnum ≤ (readZeros bytes pos charnum).2 :=
  Nat.le_trans (le_skipRepeats bytes.length charnum)
    (Nat.le_trans (Nat.le_add_right _ _) (Nat.le_add_right _ _))

/-- A turn behind which the loop goes on has set a count. -/
theorem charnum_readTurn (hmore : (readTurn bytes maxSV1 st).2 = true) :
    st.charnum < (readTurn bytes maxSV1 st).1.charnum := by
  unfold readTurn at hmore ⊢
  by_cases hprevious : st.previous0 = true
  · rw [if_pos hprevious] at hmore ⊢
    simp only at hmore ⊢
    by_cases hfull : maxSV1 ≤ (readZeros bytes st.pos st.charnum).2
    · rw [if_pos hfull] at hmore
      cases hmore
    · rw [if_neg hfull, charnum_takeCount]
      exact Nat.lt_succ_of_le (le_readZeros bytes st.pos st.charnum)
  · rw [if_neg hprevious, charnum_takeCount]
    exact Nat.lt_succ_self _

/-- Zeros are skipped, and the place behind them is reloaded. -/
theorem turned_readTurn (h : st.Open bytes maxSV1 tableLog) (hlog : tableLog ≤ 15)
    (hlength : 8 ≤ bytes.length) :
    Turned bytes maxSV1 tableLog (readTurn bytes maxSV1 st) := by
  unfold readTurn
  by_cases hprevious : st.previous0 = true
  · have hplaced := placed_skipRepeats bytes.length st.charnum h.placed
    have hdone := skipRepeats_done st.charnum hlength h.placed (Nat.le_add_right _ _)
    have hforward := le_readZeros bytes st.pos st.charnum
    have hzeros : ∀ i, (readZeros bytes st.pos st.charnum).2 ≤ i →
        st.normalizedCounter.getD i 0 = 0 :=
      fun i hi => h.counted.zeros i (Nat.le_trans hforward hi)
    rw [if_pos hprevious]
    simp only
    by_cases hfull : maxSV1 ≤ (readZeros bytes st.pos st.charnum).2
    · rw [if_pos hfull]
      have hmore := h.more
      exact Turned.closed ⟨⟨hplaced.ip_le, h.counted.pos, h.counted.length_eq, h.counted.count_ge,
        h.counted.sum_eq, hzeros⟩, fun hone => by simp only at hone; omega⟩
    · rw [if_neg hfull]
      have hreloaded : (reloadNCount bytes (readZeros bytes st.pos st.charnum).1).Placed bytes :=
        placed_used hplaced (show _ * _ + 2 ≤ 24 by omega)
      have hopen : NCountReader.Open bytes maxSV1 tableLog
          { st with pos := reloadNCount bytes (readZeros bytes st.pos st.charnum).1,
                    charnum := (readZeros bytes st.pos st.charnum).2 } :=
        ⟨⟨hreloaded.ip_le, h.counted.pos, h.counted.length_eq, h.counted.count_ge,
          h.counted.sum_eq, hzeros⟩, hreloaded, h.more, Nat.lt_of_not_le hfull, h.threshold_eq,
          h.nbBits_eq⟩
      exact turned_takeCount hopen hlog
  · rw [if_neg hprevious]
    exact turned_takeCount h hlog

/-- Each turn takes one place, so the loop ends. -/
theorem closed_readCounts {fuel : ℕ} (h : st.Open bytes maxSV1 tableLog) (hlog : tableLog ≤ 15)
    (hlength : 8 ≤ bytes.length) (hfuel : maxSV1 ≤ fuel + st.charnum) :
    (readCounts bytes maxSV1 fuel st).Closed bytes maxSV1 tableLog := by
  induction fuel generalizing st with
  | zero =>
      have hlt := h.charnum_lt
      omega
  | succ fuel ih =>
      have hturned := turned_readTurn h hlog hlength
      rw [readCounts]
      by_cases hmore : (readTurn bytes maxSV1 st).2 = true
      · rw [if_pos hmore]
        have hless := charnum_readTurn hmore
        exact ih (hturned.more hmore) (by omega)
      · rw [if_neg hmore]
        exact hturned.done (by simpa using hmore)

/-- What can be relied on when a description is accepted. -/
structure NCount.Sound (bytes : List Byte) (maxSymbolValue : ℕ) (r : NCount) : Prop where
  size_le : r.size ≤ bytes.length
  tableLog_ge : 5 ≤ r.tableLog
  tableLog_le : r.tableLog ≤ 15
  length_eq : r.normalizedCounter.length = maxSymbolValue + 1
  count_ge : ∀ n ∈ r.normalizedCounter, -1 ≤ n
  sum_slots : (r.normalizedCounter.map slots).sum = 2 ^ r.tableLog
  maxSymbolValue_le : r.maxSymbolValue ≤ maxSymbolValue
  last : r.normalizedCounter.getD r.maxSymbolValue 0 ≠ 0
  zeros : ∀ i, r.maxSymbolValue < i → r.normalizedCounter.getD i 0 = 0

theorem open_start (hlength : 8 ≤ bytes.length) (hmax : 0 < maxSV1) (bitStream : ℕ)
    (hlog : 5 ≤ tableLog) :
    NCountReader.Open bytes maxSV1 tableLog
      { pos := ⟨0, 4, bitStream⟩
        charnum := 0
        remaining := 2 ^ tableLog + 1
        threshold := 2 ^ tableLog
        nbBits := tableLog + 1
        previous0 := false
        normalizedCounter := List.replicate maxSV1 0 } := by
  have hlarge : 2 ^ 5 ≤ 2 ^ tableLog := Nat.pow_le_pow_right (by decide) hlog
  have hhigh : highbit (2 ^ tableLog + 1) = tableLog := by
    refine Nat.le_antisymm (Nat.le_of_lt_succ (highbit_lt (by omega) ?_)) (le_highbit (by omega))
    rw [Nat.pow_succ]
    omega
  refine ⟨⟨?_, Nat.succ_pos _, List.length_replicate, ?_, ?_, ?_⟩, ⟨?_, ?_, ?_⟩, ?_, hmax, ?_, ?_⟩
  · simp only
    omega
  · intro n hn
    rw [List.eq_of_mem_replicate hn]
    decide
  · simp [slots]
  · intro i _
    rw [List.getD_eq_getElem?_getD, List.getElem?_replicate]
    split_ifs <;> rfl
  · simp only
    omega
  · simp only
    omega
  · simp only
    omega
  · simp only
    omega
  · rw [hhigh]
  · rw [hhigh]

theorem readNCountBody_sound {maxSymbolValue : ℕ} {r : NCount} (hlength : 8 ≤ bytes.length)
    (h : readNCountBody bytes maxSymbolValue = .ok r) : r.Sound bytes maxSymbolValue := by
  unfold readNCountBody at h
  simp only at h
  by_cases hlarge : 15 < readLE bytes 0 4 % 16 + 5
  · rw [if_pos hlarge] at h
    cases h
  rw [if_neg hlarge] at h
  have hclosed := closed_readCounts (open_start hlength (Nat.succ_pos maxSymbolValue)
    (readLE bytes 0 4 >>> 4) (Nat.le_add_left 5 _)) (Nat.le_of_not_lt hlarge) hlength
    (Nat.le_add_right (maxSymbolValue + 1) 0)
  set st := readCounts bytes (maxSymbolValue + 1) (maxSymbolValue + 1) _
  by_cases hone : st.remaining = 1
  · rw [if_neg (by omega)] at h
    obtain ⟨last, hlast, hcharnum, hoccurs⟩ := hclosed.last hone
    have hcounted := hclosed.counted
    have hip := hcounted.ip_le
    have hsum := hcounted.sum_eq
    rw [if_neg (by omega)] at h
    by_cases hbits : 32 < st.pos.bitCount
    · rw [if_pos hbits] at h
      cases h
    · rw [if_neg hbits] at h
      cases h
      refine ⟨?_, Nat.le_add_left 5 _, Nat.le_of_not_lt hlarge, hcounted.length_eq,
        hcounted.count_ge, ?_, ?_, ?_, ?_⟩
      · simp only
        omega
      · simp only
        omega
      · simp only
        omega
      · simp only
        rwa [hcharnum, Nat.add_sub_cancel]
      · intro i hi
        simp only at hi ⊢
        exact hcounted.zeros i (by omega)
  · rw [if_pos hone] at h
    cases h

/-- Whatever the bytes are, what is accepted lies within them and is a distribution, and the
last symbol occurs. -/
theorem readNCount_sound {maxSymbolValue : ℕ} {r : NCount}
    (h : readNCount bytes maxSymbolValue = .ok r) : r.Sound bytes maxSymbolValue := by
  unfold readNCount at h
  by_cases hshort : bytes.length < 8
  · rw [if_pos hshort] at h
    cases hpadded : readNCountBody (bytes ++ List.replicate (8 - bytes.length) 0)
      maxSymbolValue with
    | error code =>
        rw [hpadded] at h
        cases h
    | ok r' =>
        rw [hpadded] at h
        simp only at h
        by_cases hsize : bytes.length < r'.size
        · rw [if_pos hsize] at h
          cases h
        · rw [if_neg hsize] at h
          cases h
          have hlength : 8 ≤ (bytes ++ List.replicate (8 - bytes.length) 0).length := by
            rw [List.length_append, List.length_replicate]
            omega
          exact { readNCountBody_sound hlength hpadded with size_le := Nat.le_of_not_lt hsize }
  · rw [if_neg hshort] at h
    exact readNCountBody_sound (Nat.le_of_not_lt hshort) h

end Sound

end ZstdJni.Entropy
