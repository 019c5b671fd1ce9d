/-
# Reading back the description of a distribution

A place in the bytes is at a bit if the bits that are loaded there are the bits behind it.
At least 25 of them are loaded, or all there are, which is enough for every field.
-/

import ZstdJni.Entropy.NCountRead

namespace ZstdJni.Entropy

open ZstdJni.Foundation ZstdJni.Native

section Places

variable {bytes : List Byte} {pos : NCountPos} {bitPos : ℕ}

/-- A place stands at a bit. -/
structure NCountPos.At (bytes : List Byte) (bitPos : ℕ) (pos : NCountPos) : Prop where
  ip_le : pos.ip + 4 ≤ bytes.length
  bits_eq : 8 * pos.ip + pos.bitCount = bitPos
  near : pos.bitCount < 8 ∨ pos.ip + 4 = bytes.length
  loaded : pos = loadAt bytes pos.ip pos.bitCount

/-- What is behind a bit. -/
def bitsFrom (bytes : List Byte) (bitPos : ℕ) : ℕ := littleEndian bytes / 2 ^ bitPos

theorem bitsFrom_add (bytes : List Byte) (bitPos n : ℕ) :
    bitsFrom bytes (bitPos + n) = bitsFrom bytes bitPos / 2 ^ n := by
  rw [bitsFrom, bitsFrom, Nat.div_div_eq_div_mul, Nat.pow_add]

theorem NCountPos.At.placed (h : pos.At bytes bitPos) (hend : bitPos < 8 * bytes.length) :
    pos.Placed bytes := by
  have hip := h.ip_le
  have hbits := h.bits_eq
  have hnear := h.near
  exact ⟨hip, by omega, by omega⟩

/-- The lower bits at a place are the bits behind it. -/
theorem NCountPos.At.bitStream_mod (h : pos.At bytes bitPos) {k : ℕ} (hk : k ≤ 25) :
    pos.bitStream % 2 ^ k = bitsFrom bytes bitPos % 2 ^ k := by
  have hip := h.ip_le
  have hbits := h.bits_eq
  have hword : pos.bitStream = littleEndian bytes / 256 ^ pos.ip % 256 ^ 4 / 2 ^ pos.bitCount := by
    rw [h.loaded]
    simp only [loadAt]
    rw [readLE_eq, Nat.shiftRight_eq_div_pow]
  have hpow : (256 : ℕ) ^ pos.ip * 2 ^ pos.bitCount = 2 ^ bitPos := by
    rw [← hbits, Nat.pow_add, Nat.pow_mul]
  rcases h.near with hnear | hlast
  · have hsplit : (256 : ℕ) ^ 4 = 2 ^ pos.bitCount * 2 ^ (32 - pos.bitCount) := by
      rw [← Nat.pow_add, Nat.add_sub_cancel' (by omega)]
      rfl
    rw [hword, hsplit, Nat.mod_mul_right_div_self, Nat.div_div_eq_div_mul, hpow, ← bitsFrom]
    exact Nat.mod_mod_of_dvd _ (Nat.pow_dvd_pow 2 (by omega))
  · have hlt := littleEndian_lt bytes
    have hsmall : littleEndian bytes / 256 ^ pos.ip < 256 ^ 4 := by
      rw [Nat.div_lt_iff_lt_mul (Nat.pow_pos (by decide)), ← Nat.pow_add, Nat.add_comm, hlast]
      exact hlt
    rw [hword, Nat.mod_eq_of_lt hsmall, Nat.div_div_eq_div_mul, hpow, bitsFrom]

theorem NCountPos.At.bitStream_lt (h : pos.At bytes bitPos) : pos.bitStream < 2 ^ 32 := by
  rw [h.loaded]
  exact Nat.lt_of_lt_of_le (loadAt_lt bytes _ _) (Nat.pow_le_pow_right (by decide) (Nat.sub_le _ _))

theorem at_loadAt {ip bitCount : ℕ} (hip : ip + 4 ≤ bytes.length)
    (hbits : 8 * ip + bitCount = bitPos) (hnear : bitCount < 8 ∨ ip + 4 = bytes.length) :
    (loadAt bytes ip bitCount).At bytes bitPos :=
  ⟨hip, hbits, hnear, rfl⟩

/-- Behind some bits that were used the place is reloaded, unless there are no more. -/
theorem NCountPos.At.reload (h : pos.At bytes bitPos) {used : ℕ} (hused : used ≤ 24)
    (hend : bitPos + used < 8 * bytes.length) {pos' : NCountPos} (hip' : pos'.ip = pos.ip)
    (hcount' : pos'.bitCount = pos.bitCount + used) :
    (reloadNCount bytes pos').At bytes (bitPos + used) := by
  have hip := h.ip_le
  have hbits := h.bits_eq
  have hnear := h.near
  unfold reloadNCount
  rw [hip', hcount']
  split_ifs with hcase
  · exact at_loadAt (by omega) (by omega) (by omega)
  · exact at_loadAt (by omega) (by omega) (by omega)

theorem NCountPos.At.skipBytes (h : pos.At bytes bitPos) (hlength : 8 ≤ bytes.length)
    (hend : bitPos + 24 < 8 * bytes.length) : (skipBytes bytes pos).At bytes (bitPos + 24) := by
  have hip := h.ip_le
  have hbits := h.bits_eq
  have hnear := h.near
  unfold Entropy.skipBytes
  split_ifs with hinside
  · exact at_loadAt (by omega) (by omega) (by omega)
  · exact at_loadAt (by omega) (by omega) (by omega)

end Places

section Zeros

variable {bytes : List Byte} {pos : NCountPos} {bitPos zeros : ℕ} {fields : BitFields}

theorem pack_replicate (repeats : ℕ) :
    BitFields.pack (List.replicate repeats (3, 2)) = 2 ^ (2 * repeats) - 1 := by
  induction repeats with
  | zero => rfl
  | succ repeats ih =>
      have hpos := Nat.two_pow_pos (2 * repeats)
      rw [List.replicate_succ, BitFields.pack_cons, ih, Nat.mul_succ, Nat.pow_add]
      omega

/-- Repeats are counted as they were written. -/
theorem countRepeats_eq {bitStream stream repeats last : ℕ} (hstream : bitStream < 2 ^ 32)
    (hrepeats : repeats ≤ 11) (hlast : last < 3)
    (hmod : ∀ k ≤ 24, bitStream % 2 ^ k = stream % 2 ^ k)
    (hbegins : BitFields.Begins (List.replicate repeats (3, 2) ++ ((last, 2) :: fields)) stream) :
    countRepeats bitStream = repeats ∧ bitStream >>> (2 * repeats) % 4 = last := by
  obtain ⟨hfront, hrest⟩ := hbegins.append
  rw [width_replicate] at hrest
  have hread := hrest.read (show last < 2 ^ 2 by omega)
  have hones : stream % 2 ^ (2 * repeats) = 2 ^ (2 * repeats) - 1 := by
    obtain ⟨behind, hbehind⟩ := hfront
    have hpos := Nat.two_pow_pos (2 * repeats)
    rw [hbehind, width_replicate, pack_replicate, Nat.add_mul_mod_self_left,
      Nat.mod_eq_of_lt (by omega)]
  have hnext : bitStream / 2 ^ (2 * repeats) % 2 ^ 2 = last := by
    rw [← Nat.mod_mul_right_div_self, ← Nat.pow_add, hmod _ (by omega), Nat.pow_add,
      Nat.mod_mul_right_div_self, hread]
  have hle : repeats ≤ countRepeats bitStream := by
    rw [le_countRepeats hstream (by omega), hmod _ (by omega), hones]
  have hnot : ¬ repeats + 1 ≤ countRepeats bitStream := by
    rw [le_countRepeats hstream (by omega), Nat.mul_succ, Nat.pow_add, Nat.mod_mul, hnext]
    have hpos := Nat.two_pow_pos (2 * repeats)
    have hlt := Nat.mod_lt bitStream hpos
    intro hall
    have hbound : 2 ^ (2 * repeats) * last ≤ 2 ^ (2 * repeats) * 2 :=
      Nat.mul_le_mul_left _ (by omega)
    omega
  exact ⟨by omega, by rw [Nat.shiftRight_eq_div_pow]; exact hnext⟩

/-- Twelve repeats and more are seen. -/
theorem twelve_le_countRepeats {bitStream stream repeats : ℕ} (hstream : bitStream < 2 ^ 32)
    (hrepeats : 12 ≤ repeats) (hmod : bitStream % 2 ^ 24 = stream % 2 ^ 24)
    (hbegins : BitFields.Begins (List.replicate repeats (3, 2)) stream) :
    12 ≤ countRepeats bitStream := by
  obtain ⟨behind, hbehind⟩ := hbegins
  obtain ⟨more, rfl⟩ := Nat.exists_eq_add_of_le hrepeats
  rw [List.replicate_add, BitFields.pack_append, BitFields.width_append, width_replicate,
    pack_replicate, Nat.pow_add, Nat.mul_assoc, Nat.add_assoc, ← Nat.mul_add] at hbehind
  rw [le_countRepeats hstream (by decide), hmod, hbehind, Nat.add_mul_mod_self_left]
  rfl

/-- The repeats are skipped, twelve at a time, up to the last few. -/
theorem skipRepeats_spec {fuel repeats last : ℕ} (charnum : ℕ) (hlength : 8 ≤ bytes.length)
    (h : pos.At bytes bitPos) (hlast : last < 3)
    (hbegins : BitFields.Begins (List.replicate repeats (3, 2) ++ ((last, 2) :: fields))
      (bitsFrom bytes bitPos))
    (hend : bitPos + 2 * repeats + 2 < 8 * bytes.length) (hfuel : repeats ≤ 12 * fuel) :
    ∃ skipped ≤ repeats, ∃ pos', pos'.At bytes (bitPos + 2 * skipped) ∧
      skipRepeats bytes fuel pos charnum = (pos', charnum + 3 * skipped) ∧
      repeats - skipped ≤ 11 ∧
      BitFields.Begins (List.replicate (repeats - skipped) (3, 2) ++ ((last, 2) :: fields))
        (bitsFrom bytes (bitPos + 2 * skipped)) := by
  induction fuel generalizing pos bitPos charnum repeats with
  | zero => exact ⟨0, Nat.zero_le _, pos, h, rfl, by omega, hbegins⟩
  | succ fuel ih =>
      by_cases hmany : 12 ≤ repeats
      · have hseen : 12 ≤ countRepeats pos.bitStream :=
          twelve_le_countRepeats h.bitStream_lt hmany (h.bitStream_mod (by decide)) hbegins.append.1
        obtain ⟨more, rfl⟩ := Nat.exists_eq_add_of_le hmany
        have hrest : BitFields.Begins (List.replicate more (3, 2) ++ ((last, 2) :: fields))
            (bitsFrom bytes (bitPos + 24)) := by
          rw [List.replicate_add, List.append_assoc] at hbegins
          have hbehind := hbegins.append.2
          rwa [width_replicate, ← bitsFrom_add] at hbehind
        obtain ⟨skipped, hskipped, pos', hat, hrun, hfew, hbehind⟩ :=
          ih (charnum + 3 * 12) (h.skipBytes hlength (by omega)) hrest (by omega) (by omega)
        refine ⟨12 + skipped, by omega, pos', ?_, ?_, by omega, ?_⟩
        · rwa [Nat.mul_add, ← Nat.add_assoc]
        · rw [skipRepeats, if_pos hseen, hrun]
          congr 1
          omega
        · rwa [Nat.mul_add, ← Nat.add_assoc, Nat.add_sub_add_left]
      · have hexact := countRepeats_eq h.bitStream_lt (by omega) hlast
          (fun k hk => h.bitStream_mod (Nat.le_trans hk (by decide))) hbegins
        refine ⟨0, Nat.zero_le _, pos, h, ?_, by omega, hbegins⟩
        exact skipRepeats_of_lt (by rw [hexact.1]; omega) _ _

/-- The number of zeros is read. -/
theorem readZeros_spec (charnum : ℕ) (hlength : 8 ≤ bytes.length) (h : pos.At bytes bitPos)
    (hbegins : BitFields.Begins (zeroFields zeros ++ fields) (bitsFrom bytes bitPos))
    (hend : bitPos + (zeroFields zeros).width < 8 * bytes.length) :
    (reloadNCount bytes (readZeros bytes pos charnum).1).At bytes
      (bitPos + (zeroFields zeros).width) ∧
      (readZeros bytes pos charnum).2 = charnum + zeros := by
  rw [width_zeroFields] at hend
  rw [zeroFields, List.append_assoc] at hbegins
  obtain ⟨skipped, hskipped, pos', hat, hrun, hfew, hbehind⟩ :=
    skipRepeats_spec charnum hlength h (Nat.mod_lt zeros (by decide)) hbegins (by omega)
      (show zeros / 3 ≤ 12 * bytes.length by omega)
  obtain ⟨hrepeats, hlast⟩ := countRepeats_eq hat.bitStream_lt hfew (Nat.mod_lt zeros (by decide))
    (fun k hk => hat.bitStream_mod (Nat.le_trans hk (by decide))) hbehind
  have hwidth : bitPos + (zeroFields zeros).width =
      bitPos + 2 * skipped + (2 * (zeros / 3 - skipped) + 2) := by
    rw [width_zeroFields]
    omega
  unfold readZeros
  simp only [hrun, hrepeats, hlast]
  refine ⟨?_, by omega⟩
  rw [hwidth]
  exact hat.reload (by omega) (by omega) rfl rfl

end Zeros

section Counts

variable {bytes : List Byte} {maxSV1 tableLog bitPos : ℕ} {st : NCountReader} {n : ℤ}
  {fields : BitFields}

/-- A count is read as it was written. -/
theorem readCount_eq (h : st.Open bytes maxSV1 tableLog) (hlog : tableLog ≤ 15)
    (hat : st.pos.At bytes bitPos)
    (hbegins : BitFields.Begins (countField n st.remaining :: fields) (bitsFrom bytes bitPos))
    (hge : -1 ≤ n) (hless : n.natAbs < st.remaining) :
    readCount st = ((n + 1).toNat, (countField n st.remaining).2) := by
  have hmore := h.more
  have hsum := h.counted.sum_eq
  have hpow : 2 ^ tableLog ≤ 2 ^ 15 := Nat.pow_le_pow_right (by decide) hlog
  have hhigh := highbit_lt (v := st.remaining) (n := 16) (by omega) (by omega)
  obtain ⟨hle, hlt⟩ := highbit_spec (v := st.remaining) (by omega)
  have hread := hbegins.read (countField_lt hge hless)
  have hcode := countField_lt hge hless
  have hdouble := Nat.pow_succ' (m := 2) (n := highbit st.remaining)
  have hlow : st.pos.bitStream % 2 ^ highbit st.remaining =
      bitsFrom bytes bitPos % 2 ^ highbit st.remaining := hat.bitStream_mod (by omega)
  have hhalf : bitsFrom bytes bitPos % 2 ^ highbit st.remaining =
      bitsFrom bytes bitPos % 2 ^ (highbit st.remaining + 1) % 2 ^ highbit st.remaining :=
    (Nat.mod_mod_of_dvd _ (Nat.pow_dvd_pow 2 (Nat.le_succ _))).symm
  have hall : st.pos.bitStream % (2 * 2 ^ highbit st.remaining) =
      bitsFrom bytes bitPos % 2 ^ (highbit st.remaining + 1) := by
    rw [← hdouble]
    exact hat.bitStream_mod (by omega)
  unfold readCount
  rw [h.threshold_eq, h.nbBits_eq, hlow, hall]
  unfold countField at hread hcode ⊢
  simp only at hread hcode ⊢
  set T := 2 ^ highbit st.remaining
  set code := countCode n st.remaining T with hcodeEq
  unfold countCode at hcodeEq
  simp only at hcodeEq
  -- a code below the maximum has one bit less
  by_cases hshort : code < 2 * T - 1 - st.remaining
  · rw [if_pos hshort] at hread hcode ⊢
    rw [hread, if_pos hshort]
    split_ifs at hcodeEq with hlarge
    · omega
    · rw [hcodeEq, Nat.add_sub_cancel]
  · rw [if_neg hshort] at hread hcode ⊢
    rw [hhalf, hread]
    split_ifs at hcodeEq with hlarge
    · have hsub : code % T = code - T := by
        rw [Nat.mod_eq_sub_mod (by omega), Nat.mod_eq_of_lt (by omega)]
      rw [if_neg (by omega), if_pos (by omega), hcodeEq, Nat.add_sub_cancel]
    · have hsame : code % T = code := Nat.mod_eq_of_lt (by omega)
      rw [if_neg (by omega), if_neg (by omega), hcodeEq]

/-- What a count that was written does. -/
structure Took (n : ℤ) (st st' : NCountReader) : Prop where
  charnum_eq : st'.charnum = st.charnum + 1
  remaining_eq : st'.remaining = st.remaining - n.natAbs
  counts_eq : st'.normalizedCounter = st.normalizedCounter.set st.charnum n
  previous0_eq : st'.previous0 = decide (n = 0)

theorem took_setCount (hread : readCount st = ((n + 1).toNat, (countField n st.remaining).2))
    (hge : -1 ≤ n) : Took n st (setCount st) := by
  have hcount : (((readCount st).1 : ℤ) - 1) = n := by
    rw [hread]
    simp only
    omega
  unfold setCount
  simp only [hcount]
  exact ⟨rfl, rfl, rfl, rfl⟩

theorem takeCount_last (h : st.Open bytes maxSV1 tableLog) (hlast : (setCount st).remaining ≤ 1) :
    takeCount bytes maxSV1 st = (setCount st, false) := by
  have htwo := one_lt_threshold h.more
  rw [← h.threshold_eq] at htwo
  exact if_pos ⟨by omega, hlast⟩

theorem takeCount_more (bytes : List Byte) (hmore : 1 < (setCount st).remaining)
    (hroom : (setCount st).charnum < maxSV1) :
    ∃ st', takeCount bytes maxSV1 st = (st', true) ∧
      st'.pos = reloadNCount bytes (setCount st).pos ∧
      st'.charnum = (setCount st).charnum ∧ st'.remaining = (setCount st).remaining ∧
      st'.normalizedCounter = (setCount st).normalizedCounter ∧
      st'.previous0 = (setCount st).previous0 := by
  unfold takeCount
  simp only
  rw [if_neg (by omega)]
  by_cases hsmaller : (setCount st).remaining < st.threshold
  · rw [if_pos hsmaller, if_neg (by simpa using hroom)]
    exact ⟨_, rfl, rfl, rfl, rfl, rfl, rfl⟩
  · rw [if_neg hsmaller, if_neg (by simpa using hroom)]
    exact ⟨_, rfl, rfl, rfl, rfl, rfl, rfl⟩

/-- The zeros in front of a count, if there are any, are skipped. -/
theorem readTurn_eq {skipped : ℕ} (hlength : 8 ≤ bytes.length) (h : st.Open bytes maxSV1 tableLog)
    (hat : st.pos.At bytes bitPos) (hnone : st.previous0 = false → skipped = 0)
    {front : BitFields} (hfront : front = if st.previous0 then zeroFields skipped else [])
    (hbegins : BitFields.Begins (front ++ fields) (bitsFrom bytes bitPos))
    (hend : bitPos + front.width < 8 * bytes.length) (hroom : st.charnum + skipped < maxSV1) :
    ∃ st', st'.Open bytes maxSV1 tableLog ∧ st'.pos.At bytes (bitPos + front.width) ∧
      readTurn bytes maxSV1 st = takeCount bytes maxSV1 st' ∧
      st'.charnum = st.charnum + skipped ∧ st'.remaining = st.remaining ∧
      st'.normalizedCounter = st.normalizedCounter := by
  unfold readTurn
  by_cases hprevious : st.previous0 = true
  · rw [if_pos hprevious] at hfront
    subst hfront
    obtain ⟨hreload, hcharnum⟩ := readZeros_spec st.charnum hlength hat hbegins hend
    rw [if_pos hprevious]
    simp only [hcharnum]
    rw [if_neg (by omega)]
    refine ⟨{ st with pos := reloadNCount bytes (readZeros bytes st.pos st.charnum).1,
                      charnum := st.charnum + skipped },
      ⟨⟨hreload.ip_le, h.counted.pos, h.counted.length_eq, h.counted.count_ge,
        h.counted.sum_eq, fun i hi => h.counted.zeros i (Nat.le_trans (Nat.le_add_right _ _) hi)⟩,
        hreload.placed hend, h.more, hroom, h.threshold_eq, h.nbBits_eq⟩,
      hreload, rfl, rfl, rfl, rfl⟩
  · rw [if_neg hprevious] at hfront
    subst hfront
    rw [if_neg hprevious]
    have hzero := hnone (by simpa using hprevious)
    exact ⟨st, h, hat, rfl, by rw [hzero, Nat.add_zero], rfl, rfl⟩

/-- A count and the zeros in front of it are set. -/
theorem set_behind (front : List ℤ) (skipped : ℕ) (n : ℤ) (more : ℕ) :
    (front ++ List.replicate (skipped + (1 + more)) 0).set (front.length + skipped) n =
      front ++ List.replicate skipped 0 ++ [n] ++ List.replicate more 0 := by
  have hlength : front.length + skipped = (front ++ List.replicate skipped (0 : ℤ)).length := by
    rw [List.length_append, List.length_replicate]
  rw [List.replicate_add, ← List.append_assoc, hlength, List.set_append_right _ _ (Nat.le_refl _),
    Nat.sub_self, List.replicate_add, List.append_assoc _ [n]]
  rfl

/-- Counts that need no slots are zeros. -/
theorem eq_replicate_of_sum {rest : List ℤ} (hge : ∀ n ∈ rest, -1 ≤ n)
    (hsum : (rest.map slots).sum = 0) : rest = List.replicate rest.length 0 := by
  induction rest with
  | nil => rfl
  | cons n rest ih =>
      have habs := slots_eq_natAbs (hge n List.mem_cons_self)
      rw [sum_slots_cons] at hsum
      have hn : n = 0 := by omega
      rw [hn, List.length_cons, List.replicate_succ,
        ← ih (fun m hm => hge m (List.mem_cons_of_mem n hm)) (by omega)]

theorem width_countField_pos (n : ℤ) {remaining : ℕ} (hmore : 1 < remaining) :
    0 < (countField n remaining).2 := by
  have hhigh := le_highbit (v := remaining) (n := 1) (by omega)
  unfold countField
  simp only
  split_ifs <;> omega

/-- As long as slots remain, fields follow. -/
theorem width_countFields_pos {rest : List ℤ} (skipped : ℕ) {remaining : ℕ} (previousIs0 : Bool)
    (hmore : 1 < remaining) (hsum : (rest.map slots).sum ≠ 0) :
    0 < (countFields rest skipped remaining previousIs0).width := by
  induction rest generalizing skipped previousIs0 with
  | nil => exact absurd rfl hsum
  | cons n rest ih =>
      rw [countFields, if_neg (by omega)]
      by_cases hzero : previousIs0 = true ∧ n = 0
      · rw [if_pos hzero]
        rw [sum_slots_cons, hzero.2] at hsum
        exact ih _ _ (by simpa [slots] using hsum)
      · rw [if_neg hzero, BitFields.width_append]
        exact Nat.lt_of_lt_of_le (width_countField_pos n hmore)
          (Nat.le_trans (Nat.le_add_right _ _) (Nat.le_add_left _ _))

/-- Behind the loop all counts are set, and the bits of all fields are used. -/
structure ReadBack (counts : List ℤ) (bitPos : ℕ) (st : NCountReader) : Prop where
  remaining_eq : st.remaining = 1
  counts_eq : st.normalizedCounter = counts
  bits_eq : 8 * st.pos.ip + st.pos.bitCount = bitPos
  bitCount_le : st.pos.bitCount ≤ 32

/-- The loop in front of some counts: the fields of these counts are the bits behind the place,
and the counts in front are set. -/
structure Reading (bytes : List Byte) (maxSV1 tableLog more bitPos skipped : ℕ)
    (front rest : List ℤ) (st : NCountReader) : Prop where
  opened : st.Open bytes maxSV1 tableLog
  place : st.pos.At bytes bitPos
  none : st.previous0 = false → skipped = 0
  begins : BitFields.Begins (countFields rest skipped st.remaining st.previous0)
    (bitsFrom bytes bitPos)
  inside : bitPos + (countFields rest skipped st.remaining st.previous0).width ≤ 8 * bytes.length
  count_ge : ∀ n ∈ rest, -1 ≤ n
  sum_eq : (rest.map slots).sum + 1 = st.remaining
  charnum_eq : st.charnum = front.length
  counts_eq : st.normalizedCounter = front ++ List.replicate (skipped + (rest.length + more)) 0

variable {more skipped : ℕ} {front rest : List ℤ}

theorem countFields_skip (rest : List ℤ) (skipped : ℕ) (hmore : 1 < st.remaining)
    (hzero : st.previous0 = true) :
    countFields (0 :: rest) skipped st.remaining st.previous0 =
      countFields rest (skipped + 1) st.remaining st.previous0 := by
  rw [countFields, if_neg (by omega), if_pos ⟨hzero, rfl⟩, hzero]

/-- A zero behind a zero is counted by the writer, and the reader waits. -/
theorem Reading.skip
    (h : Reading bytes maxSV1 tableLog more bitPos skipped front (0 :: rest) st)
    (hzero : st.previous0 = true) :
    Reading bytes maxSV1 tableLog more bitPos (skipped + 1) front rest st := by
  have hsame := countFields_skip rest skipped h.opened.more hzero
  have hsum := h.sum_eq
  have hnone : slots 0 = 0 := rfl
  rw [sum_slots_cons, hnone, Nat.zero_add] at hsum
  refine ⟨h.opened, h.place, fun hnot => absurd (hzero.symm.trans hnot) (by decide),
    hsame ▸ h.begins, hsame ▸ h.inside, fun m hm => h.count_ge m (List.mem_cons_of_mem 0 hm), hsum,
    h.charnum_eq, ?_⟩
  rw [h.counts_eq, List.length_cons]
  congr 2
  omega

/-- A turn in front of a count is over when the count has been read. -/
theorem Reading.turn (h : Reading bytes maxSV1 tableLog more bitPos skipped front (n :: rest) st)
    (hlength : 8 ≤ bytes.length) (hlog : tableLog ≤ 15) (hturn : ¬ (st.previous0 = true ∧ n = 0)) :
    let bitPos' := bitPos + (countFields (n :: rest) skipped st.remaining st.previous0).width
    let front' := front ++ List.replicate skipped 0 ++ [n]
    (∃ st', readTurn bytes maxSV1 st = (st', false) ∧
        ReadBack (front' ++ rest ++ List.replicate more 0) bitPos' st') ∨
      ∃ st' bitPos'', readTurn bytes maxSV1 st = (st', true) ∧
        bitPos'' + (countFields rest 0 st'.remaining st'.previous0).width = bitPos' ∧
        Reading bytes maxSV1 tableLog more bitPos'' 0 front' rest st' := by
  have hmore := h.opened.more
  have hplaces := h.opened.counted.length_eq
  have hge := h.count_ge n List.mem_cons_self
  have hgeRest : ∀ m ∈ rest, -1 ≤ m := fun m hm => h.count_ge m (List.mem_cons_of_mem n hm)
  have hsum := h.sum_eq
  have hbegins := h.begins
  have hend := h.inside
  have habs := slots_eq_natAbs hge
  have hfront := h.charnum_eq
  have hsplit : skipped + ((n :: rest).length + more) = skipped + (1 + (rest.length + more)) := by
    rw [List.length_cons]
    omega
  rw [h.counts_eq, List.length_append, List.length_replicate, List.length_cons] at hplaces
  rw [sum_slots_cons] at hsum
  rw [countFields, if_neg (by omega), if_neg hturn] at hbegins hend ⊢
  generalize hzeros : (if st.previous0 = true then zeroFields skipped else []) = zeros
    at hbegins hend ⊢
  rw [BitFields.width_append, BitFields.width_cons] at hend ⊢
  have hwide := width_countField_pos n hmore
  obtain ⟨st', hopen, hat', hreadTurn, hcharnum, hremaining, hnormalized⟩ :=
    readTurn_eq hlength h.opened h.place h.none hzeros.symm hbegins (by omega) (by omega)
  have hbehind := hbegins.append.2
  rw [← bitsFrom_add, ← hremaining] at hbehind
  have hread := readCount_eq hopen hlog hat' hbehind hge (by omega)
  have htook := took_setCount hread hge
  have hwidth : (readCount st').2 = (countField n st.remaining).2 := by rw [hread, hremaining]
  have hnarrow := readCount_width_lt hopen hlog
  have hremaining' := htook.remaining_eq
  have hcharnum' := htook.charnum_eq
  have hset : (setCount st').normalizedCounter = front ++ List.replicate skipped 0 ++ [n] ++
      List.replicate (rest.length + more) 0 := by
    rw [htook.counts_eq, hnormalized, h.counts_eq, hcharnum, hfront, hsplit, set_behind]
  simp only
  rw [hreadTurn]
  by_cases hlast : (setCount st').remaining ≤ 1
  · left
    have hpos := (counted_setCount hopen).pos
    have hempty : countFields rest 0 (st.remaining - n.natAbs) (decide (n = 0)) = [] := by
      cases rest with
      | nil => rfl
      | cons m rest => exact if_pos (by omega)
    have hip := hat'.ip_le
    have hbits := hat'.bits_eq
    have hnear := hat'.near
    have hused : (setCount st').pos.bitCount = st'.pos.bitCount + (readCount st').2 := rfl
    have hstay : (setCount st').pos.ip = st'.pos.ip := rfl
    rw [hempty, BitFields.width_nil, Nat.add_zero, ← hwidth]
    refine ⟨setCount st', takeCount_last hopen hlast, by omega, ?_, by omega, by omega⟩
    rw [hset, List.replicate_add, ← eq_replicate_of_sum hgeRest (by omega),
      List.append_assoc _ rest]
  · right
    have hmany : rest.length ≠ 0 := by
      intro hnil
      rw [List.length_eq_zero_iff.mp hnil, List.map_nil, List.sum_nil] at hsum
      omega
    obtain ⟨st'', htake, hpos, hcharnum'', hremaining'', hnormalized'', hprevious''⟩ :=
      takeCount_more bytes (Nat.lt_of_not_le hlast)
        (show (setCount st').charnum < maxSV1 by omega)
    have hturned := (turned_takeCount hopen hlog).more
    rw [htake] at hturned
    have hsame : st.remaining - n.natAbs = st''.remaining := by omega
    have hdecide : decide (n = 0) = st''.previous0 := (hprevious''.trans htook.previous0_eq).symm
    rw [hremaining, hsame, hdecide] at hbehind
    rw [hsame, hdecide] at hend ⊢
    have hlater := width_countFields_pos 0 st''.previous0 (show 1 < st''.remaining by omega)
      (show (rest.map slots).sum ≠ 0 by omega)
    have hat'' : st''.pos.At bytes (bitPos + zeros.width + (readCount st').2) := by
      rw [hpos]
      exact hat'.reload hnarrow (by omega) rfl rfl
    refine ⟨st'', bitPos + zeros.width + (readCount st').2, htake, by omega, hturned rfl, hat'',
      fun _ => rfl, ?_, by omega, hgeRest, by omega, ?_, ?_⟩
    · rw [hwidth, bitsFrom_add]
      exact hbehind.rest
    · simp only [List.length_append, List.length_replicate, List.length_singleton]
      omega
    · rw [hnormalized'', hset, Nat.zero_add]

/-- All counts are read back. -/
theorem Reading.readCounts {fuel : ℕ}
    (h : Reading bytes maxSV1 tableLog more bitPos skipped front rest st)
    (hlength : 8 ≤ bytes.length) (hlog : tableLog ≤ 15) (hfuel : rest.length ≤ fuel) :
    ReadBack (front ++ List.replicate skipped 0 ++ rest ++ List.replicate more 0)
      (bitPos + (countFields rest skipped st.remaining st.previous0).width)
      (readCounts bytes maxSV1 fuel st) := by
  induction rest generalizing st skipped bitPos front fuel with
  | nil =>
      have hmore := h.opened.more
      have hsum := h.sum_eq
      rw [List.map_nil, List.sum_nil] at hsum
      omega
  | cons n rest ih =>
      by_cases hzero : st.previous0 = true ∧ n = 0
      · obtain ⟨hprevious, rfl⟩ := hzero
        have hlater := ih (h.skip hprevious) (Nat.le_of_succ_le hfuel)
        rw [List.replicate_succ', ← List.append_assoc, List.append_assoc _ [0]] at hlater
        rw [countFields_skip rest skipped h.opened.more hprevious]
        exact hlater
      · obtain ⟨fuel, rfl⟩ := Nat.exists_eq_add_of_le' (Nat.le_trans (Nat.le_add_left 1 _) hfuel)
        have hsplit : front ++ List.replicate skipped 0 ++ n :: rest =
            front ++ List.replicate skipped 0 ++ [n] ++ rest := by
          rw [List.append_assoc _ [n], List.singleton_append]
        rw [Entropy.readCounts, hsplit]
        rcases h.turn hlength hlog hzero with ⟨st', hturn, hback⟩ |
          ⟨st', bitPos', hturn, hwidth, hnext⟩
        · rw [hturn]
          exact hback
        · rw [hturn, ← hwidth]
          have hlater := ih hnext (Nat.le_of_succ_le_succ hfuel)
          rw [List.replicate_zero, List.append_nil] at hlater
          exact hlater

end Counts

section Descriptions

variable {bytes : List Byte} {counts : List ℤ} {tableLog maxSymbolValue : ℕ} {fields : BitFields}

theorem begins_fieldBytes (fields : BitFields) (behind : List Byte) :
    fields.Begins (littleEndian (fieldBytes fields ++ behind)) := by
  have hroom : fields.width ≤ 8 * ((fields.width + 7) / 8) := by omega
  have hsplit : (256 : ℕ) ^ ((fields.width + 7) / 8) =
      2 ^ fields.width * 2 ^ (8 * ((fields.width + 7) / 8) - fields.width) := by
    rw [← Nat.pow_add, Nat.add_sub_cancel' hroom, Nat.pow_mul]
  have hsmall : fields.pack < 256 ^ ((fields.width + 7) / 8) := by
    rw [hsplit]
    exact Nat.lt_of_lt_of_le (BitFields.pack_lt fields)
      (Nat.le_mul_of_pos_right _ (Nat.two_pow_pos _))
  refine ⟨2 ^ (8 * ((fields.width + 7) / 8) - fields.width) * littleEndian behind, ?_⟩
  rw [littleEndian_append, length_fieldBytes, fieldBytes, littleEndian_bytesLE,
    Nat.mod_eq_of_lt hsmall, hsplit, Nat.mul_assoc]

/-- What is read of a description. -/
structure ReadAs (counts : List ℤ) (tableLog maxSymbolValue : ℕ) (r : NCount) : Prop where
  counts_eq : r.normalizedCounter =
    counts ++ List.replicate (maxSymbolValue + 1 - counts.length) 0
  tableLog_eq : r.tableLog = tableLog
  size_eq : r.size = (fieldBytes (ncountFields counts tableLog)).length

theorem readNCountBody_fields (hlength : 8 ≤ bytes.length)
    (hbegins : (ncountFields counts tableLog).Begins (littleEndian bytes))
    (hinside : (ncountFields counts tableLog).width ≤ 8 * bytes.length)
    (hge : ∀ n ∈ counts, -1 ≤ n) (hsum : (counts.map slots).sum = 2 ^ tableLog)
    (hlog : 5 ≤ tableLog) (hlog' : tableLog ≤ 15) (hmax : counts.length ≤ maxSymbolValue + 1) :
    ∃ r, readNCountBody bytes maxSymbolValue = .ok r ∧ ReadAs counts tableLog maxSymbolValue r := by
  have hword : readLE bytes 0 4 % 16 = tableLog - 5 := by
    have hread := BitFields.Begins.read hbegins (show tableLog - 5 < 2 ^ 4 by omega)
    rw [readLE_eq, Nat.pow_zero, Nat.div_one, Nat.mod_mod_of_dvd _ (by decide)]
    exact hread
  have hrest : (countFields counts 0 (2 ^ tableLog + 1) false).Begins (bitsFrom bytes 4) :=
    BitFields.Begins.rest hbegins
  have hopen := open_start hlength (Nat.succ_pos maxSymbolValue) (readLE bytes 0 4 >>> 4) hlog
  have hreading : Reading bytes (maxSymbolValue + 1) tableLog
      (maxSymbolValue + 1 - counts.length) 4 0 [] counts
      { pos := ⟨0, 4, readLE bytes 0 4 >>> 4⟩
        charnum := 0
        remaining := 2 ^ tableLog + 1
        threshold := 2 ^ tableLog
        nbBits := tableLog + 1
        previous0 := false
        normalizedCounter := List.replicate (maxSymbolValue + 1) 0 } :=
    ⟨hopen, at_loadAt (by omega) rfl (Or.inl (by decide)), fun _ => rfl, hrest, hinside, hge,
      congrArg (· + 1) hsum, rfl, by
        rw [List.nil_append, Nat.zero_add, Nat.add_sub_cancel' hmax]⟩
  have hback := hreading.readCounts hlength hlog' hmax
  have hclosed := closed_readCounts hopen hlog' hlength (Nat.le_add_right (maxSymbolValue + 1) 0)
  have hlog5 : tableLog - 5 + 5 = tableLog := Nat.sub_add_cancel hlog
  unfold readNCountBody
  simp only [hword, hlog5]
  rw [if_neg (by omega)]
  set st := readCounts bytes (maxSymbolValue + 1) (maxSymbolValue + 1) _
  obtain ⟨last, hlast, hcharnum, -⟩ := hclosed.last hback.remaining_eq
  have hbits : 8 * st.pos.ip + st.pos.bitCount =
      4 + (countFields counts 0 (2 ^ tableLog + 1) false).width := hback.bits_eq
  have hfew := hback.bitCount_le
  rw [if_neg (not_not_intro hback.remaining_eq), if_neg (by omega), if_neg (by omega)]
  refine ⟨_, rfl, ?_, rfl, ?_⟩
  · simpa using hback.counts_eq
  · rw [length_fieldBytes, ncountFields, BitFields.width_cons]
    simp only
    omega

/-- What was written for some counts is read back, whatever is behind it. -/
theorem readNCount_fieldBytes (behind : List Byte) (hge : ∀ n ∈ counts, -1 ≤ n)
    (hsum : (counts.map slots).sum = 2 ^ tableLog) (hlog : 5 ≤ tableLog) (hlog' : tableLog ≤ 15)
    (hmax : counts.length ≤ maxSymbolValue + 1) :
    ∃ r, readNCount (fieldBytes (ncountFields counts tableLog) ++ behind) maxSymbolValue = .ok r ∧
      ReadAs counts tableLog maxSymbolValue r := by
  have hall : ∀ more, 8 ≤ (fieldBytes (ncountFields counts tableLog) ++ more).length →
      ∃ r, readNCountBody (fieldBytes (ncountFields counts tableLog) ++ more) maxSymbolValue =
        .ok r ∧
        ReadAs counts tableLog maxSymbolValue r := by
    intro more hlength
    refine readNCountBody_fields hlength (begins_fieldBytes _ more) ?_ hge hsum hlog hlog' hmax
    rw [List.length_append, length_fieldBytes]
    omega
  unfold readNCount
  by_cases hshort : (fieldBytes (ncountFields counts tableLog) ++ behind).length < 8
  · rw [if_pos hshort, List.append_assoc]
    obtain ⟨r, hr, hread⟩ := hall (behind ++ List.replicate
        (8 - (fieldBytes (ncountFields counts tableLog) ++ behind).length) 0) (by
      simp only [List.length_append, List.length_replicate] at hshort ⊢
      omega)
    have hinside := hread.size_eq
    rw [hr]
    simp only
    rw [if_neg (by rw [List.length_append]; omega)]
    exact ⟨r, rfl, hread⟩
  · rw [if_neg hshort]
    exact hall behind (Nat.le_of_not_lt hshort)

/-- What the writer makes of a distribution is read back, whatever is behind it, and the reader
stops where the writer did. -/
theorem readNCount_writeNCount {bufferSize : ℕ} {bytes : List Byte} (behind : List Byte)
    (hge : ∀ n ∈ counts, -1 ≤ n) (hsum : (counts.map slots).sum = 2 ^ tableLog)
    (hmax : counts.length ≤ maxSymbolValue + 1)
    (h : writeNCount bufferSize counts tableLog = .ok bytes) :
    ∃ r, readNCount (bytes ++ behind) maxSymbolValue = .ok r ∧
      r.normalizedCounter = counts ++ List.replicate (maxSymbolValue + 1 - counts.length) 0 ∧
      r.tableLog = tableLog ∧ r.size = bytes.length := by
  by_cases hlarge : 12 < tableLog
  · rw [writeNCount, if_pos hlarge] at h
    cases h
  by_cases hsmall : tableLog < 5
  · rw [writeNCount, if_neg hlarge, if_pos hsmall] at h
    cases h
  rw [writeNCount_eq hge hsum (by omega) (by omega)] at h
  split_ifs at h with hroom
  cases h
  obtain ⟨r, hr, hread⟩ := readNCount_fieldBytes behind hge hsum
    (show 5 ≤ tableLog by omega) (show tableLog ≤ 15 by omega) hmax
  exact ⟨r, hr, hread.counts_eq, hread.tableLog_eq, hread.size_eq⟩

/-- Two symbols with half of the table each. -/
theorem readNCount_writeNCount_halves :
    ∃ r, readNCount ([16, 63] ++ [7]) 35 = .ok r ∧
      r.normalizedCounter = [16, 16] ++ List.replicate 34 0 ∧ r.tableLog = 5 ∧ r.size = 2 :=
  readNCount_writeNCount [7] (by decide) (by decide) (by decide)
    (show writeNCount 512 [16, 16] 5 = .ok [16, 63] by rfl)

end Descriptions

end ZstdJni.Entropy
