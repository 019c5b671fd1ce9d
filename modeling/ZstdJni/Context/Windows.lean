/-
# Windows in range

Every entry point that takes an offset and a size hands a window to zstd only if it lies
inside of its array or below the limit of its buffer.  A check that is made in 32-bit
arithmetic is sound because the signs are tested before anything is subtracted; the sums
in C do not wrap around because the window has passed the check in Java by then.
-/

import ZstdJni.Context.OneShot

namespace ZstdJni.Context

open ZstdJni.Foundation ZstdJni.Native ZstdJni.CompressCtx

theorem negative_iff (x : JInt) : negative x = true ↔ x.toInt < 0 := by
  rw [negative, BitVec.slt_eq_decide, decide_eq_true_iff]
  rfl

theorem negative_or (x y : JInt) : negative (x ||| y) = (negative x || negative y) := by
  have hmsb (z : JInt) : negative z = z.msb := by
    rw [negative, BitVec.slt_zero_eq_msb]
  rw [hmsb, hmsb, hmsb, BitVec.msb_or]

/-- The difference of a length and an offset that is not negative does not wrap around. -/
theorem fits_remaining {length offset : JInt} (hlength : 0 ≤ length.toInt)
    (hoffset : 0 ≤ offset.toInt) : (Arith.difference length offset).Fits := by
  have hbounds := toInt_bounds length
  have hbounds' := toInt_bounds offset
  exact Arith.fits_difference (by omega) (by omega)

/-- `checkFromIndexSize` refuses exactly the windows that are not inside, and what it computes
does not wrap around. -/
theorem checkFromIndexSize_spec (fromIndex size : JInt) {length : JInt}
    (hlength : 0 ≤ length.toInt) :
    ((checkFromIndexSize fromIndex size length).refuses = true ↔
      ¬ Inside fromIndex.toInt size.toInt length.toInt) ∧
    (∀ a ∈ (checkFromIndexSize fromIndex size length).ariths, a.Fits) ∧
    (checkFromIndexSize fromIndex size length).reason = .indexOutOfBounds := by
  unfold checkFromIndexSize Inside
  by_cases hsigns : negative (length ||| fromIndex ||| size) = true
  · rw [if_pos hsigns]
    rw [negative_or, negative_or, Bool.or_eq_true, Bool.or_eq_true, negative_iff, negative_iff,
      negative_iff] at hsigns
    refine ⟨iff_of_true rfl (by omega), fun _ h => absurd h List.not_mem_nil, rfl⟩
  · rw [if_neg hsigns]
    rw [negative_or, negative_or, Bool.or_eq_true, Bool.or_eq_true, negative_iff, negative_iff,
      negative_iff] at hsigns
    have hfits := fits_remaining hlength (by omega : 0 ≤ fromIndex.toInt)
    refine ⟨?_, fun a ha => List.mem_singleton.mp ha ▸ hfits, rfl⟩
    have hword : (Arith.difference length fromIndex).word.toInt = length.toInt - fromIndex.toInt :=
      hfits
    rw [BitVec.slt_eq_decide, decide_eq_true_iff, hword]
    omega

theorem limit_toInt {memory : Memory} {op : Operand} (hvalid : op.Valid memory) :
    (BitVec.ofNat 32 (op.limit memory)).toInt = op.limit memory :=
  toInt_ofNat_of_lt (Nat.lt_of_le_of_lt (op.limit_le_capacity memory) hvalid.capacity_lt)

/-- The check of a window of an operand. -/
theorem checkWindow_spec {memory : Memory} {op : Operand} (hvalid : op.Valid memory)
    (offset size : JInt) :
    ((checkWindow memory op offset size).refuses = true ↔
      ¬ Inside offset.toInt size.toInt (op.limit memory)) ∧
    (∀ a ∈ (checkWindow memory op offset size).ariths, a.Fits) ∧
    (checkWindow memory op offset size).reason = .indexOutOfBounds := by
  have hlimit := limit_toInt hvalid
  have hpos : 0 ≤ (BitVec.ofNat 32 (op.limit memory)).toInt := by omega
  have hspec := checkFromIndexSize_spec offset size hpos
  rw [hlimit] at hspec
  exact hspec

/-- The window from the position of a buffer to its limit, in 32-bit arithmetic. -/
theorem inside_remaining (b : ByteBuffer) :
    (Arith.difference (BitVec.ofNat 32 b.limit) (BitVec.ofNat 32 b.position)).Fits ∧
    Inside (BitVec.ofNat 32 b.position).toInt
      (BitVec.ofNat 32 b.limit - BitVec.ofNat 32 b.position).toInt b.limit := by
  have hle := b.position_le
  have hlimit := b.limit_le
  have hcapacity := b.capacity_lt
  have hpos : (BitVec.ofNat 32 b.position).toInt = b.position := toInt_ofNat_of_lt (by omega)
  have hlim : (BitVec.ofNat 32 b.limit).toInt = b.limit := toInt_ofNat_of_lt (by omega)
  have hfits : (Arith.difference (BitVec.ofNat 32 b.limit) (BitVec.ofNat 32 b.position)).Fits :=
    fits_remaining (by omega) (by omega)
  have hrest : (BitVec.ofNat 32 b.limit - BitVec.ofNat 32 b.position).toInt =
      (BitVec.ofNat 32 b.limit).toInt - (BitVec.ofNat 32 b.position).toInt := hfits
  refine ⟨hfits, ?_, ?_, ?_⟩ <;> omega

section Native

variable {memory : Memory} {op : Operand} {offset size : JInt} (code : ErrorCode)

/-- A check of C that does not refuse, and whose sums do not wrap around. -/
def Passes (c : Check ErrorCode) : Prop := c.refuses = false ∧ ∀ a ∈ c.ariths, a.Fits

theorem passes_checkSign {x : JInt} (hx : 0 ≤ x.toInt) : Passes (checkSign x code) := by
  refine ⟨?_, fun _ h => absurd h List.not_mem_nil⟩
  rw [← Bool.not_eq_true, checkSign, negative_iff]
  omega

theorem capacity_toInt (hvalid : op.Valid memory) :
    (BitVec.ofNat 32 (op.capacity memory)).toInt = op.capacity memory :=
  toInt_ofNat_of_lt hvalid.capacity_lt

theorem passes_checkSum (hvalid : op.Valid memory)
    (hinside : Inside offset.toInt size.toInt (op.limit memory)) :
    Passes (checkSum offset size (op.capacity memory) code) := by
  obtain ⟨hoffset, hsize, hend⟩ := hinside
  have hcapacity := op.limit_le_capacity memory
  have hlt := hvalid.capacity_lt
  have hfits : (Arith.sum offset size).Fits := Arith.fits_sum (by omega) (by omega)
  have hword : (Arith.sum offset size).word.toInt = offset.toInt + size.toInt := hfits
  refine ⟨?_, fun a ha => List.mem_singleton.mp ha ▸ hfits⟩
  rw [← Bool.not_eq_true, checkSum, BitVec.slt_eq_decide, decide_eq_true_iff, hword,
    capacity_toInt hvalid]
  omega

theorem passes_checkDifference (hvalid : op.Valid memory)
    (hinside : Inside offset.toInt size.toInt (op.limit memory)) :
    Passes (checkDifference offset size (op.capacity memory) code) := by
  obtain ⟨hoffset, hsize, hend⟩ := hinside
  have hcapacity := op.limit_le_capacity memory
  have hcap := capacity_toInt hvalid
  have hfits : (Arith.difference (BitVec.ofNat 32 (op.capacity memory)) size).Fits :=
    fits_remaining (by omega) hsize
  have hword : (Arith.difference (BitVec.ofNat 32 (op.capacity memory)) size).word.toInt =
      (BitVec.ofNat 32 (op.capacity memory)).toInt - size.toInt := hfits
  refine ⟨?_, fun a ha => List.mem_singleton.mp ha ▸ hfits⟩
  rw [← Bool.not_eq_true, checkDifference, BitVec.slt_eq_decide, decide_eq_true_iff, hword, hcap]
  omega

end Native

/-- Both windows of a call are inside. -/
def InsideAll (ops : Operands) (w : Windows) : Prop :=
  Inside w.dstOffset.toInt w.dstSize.toInt (ops.dst.limit ops.memory) ∧
  Inside w.srcOffset.toInt w.srcSize.toInt (ops.src.limit ops.memory)

/-- A call whose windows are guarded: if they are not inside it throws, zstd receives nothing
and the storage stays as it is; otherwise nothing is out of bounds unless it was `excused`, no
sum and no difference wraps around, and a call that `reaches` zstd hands over the windows. -/
structure Guarded {σ : Type} (inside reaches excused : Prop) (memory : Memory) (w : Windows)
    (ran : Ran σ) : Prop where
  refused : ¬ inside → (∃ e, ran.outcome = .threw e) ∧ ran.received = [] ∧ ran.memory = memory
  passed : inside → ran.outcome = .threw .indexOutOfBounds → excused
  fits : inside → ∀ a ∈ ran.ariths, a.Fits
  received : inside → reaches → ran.received = [w]

/-- A check of Java that finds windows inside in order. -/
structure Sound (inside reaches : Prop) (c : Check JavaException) : Prop where
  fits : ∀ a ∈ c.ariths, a.Fits
  reason : inside → c.refuses = true → c.reason ≠ .indexOutOfBounds
  passes : inside → reaches → c.refuses = false

theorem finishSize_ne (ret : ℕ) : finishSize ret ≠ .threw .indexOutOfBounds := by
  unfold finishSize
  by_cases herror : isError (jlong ret) = true
  · rw [if_pos herror]
    exact nofun
  · rw [if_neg herror]
    by_cases hlarge : 2 ^ 31 - 1 < jlong ret
    · rw [if_pos hlarge]
      exact nofun
    · rw [if_neg hlarge]
      exact nofun

/-- Sound checks in Java, with one that refuses windows that are not inside, and checks in C
that pass in the other case, guard a method. -/
theorem oneShot_guarded {σ : Type} (Z : Codec σ) (context : σ) (ops : Operands) (w : Windows)
    {javaChecks : List (Check JavaException)} {nativeChecks : List (Check ErrorCode)}
    {inside reaches : Prop} (hsound : ∀ c ∈ javaChecks, Sound inside reaches c)
    (hrefuses : ¬ inside → ∃ c ∈ javaChecks, c.refuses = true)
    (hnative : inside → ∀ c ∈ nativeChecks, Passes c) :
    Guarded inside reaches False ops.memory w
      (oneShot Z context ops w javaChecks nativeChecks) := by
  have hjavaFits (a : Arith) (ha : a ∈ (firstRefusal javaChecks).2) : a.Fits := by
    obtain ⟨c, hc, hmem⟩ := mem_firstRefusal ha
    exact (hsound c hc).fits a hmem
  unfold oneShot
  rcases hjava : firstRefusal javaChecks with ⟨refusal, ariths⟩
  rw [hjava] at hjavaFits
  cases refusal with
  | some e =>
      refine ⟨fun _ => ⟨⟨e, rfl⟩, rfl, rfl⟩, fun hinside hthrew => ?_, fun _ => hjavaFits,
        fun hinside hreaches => ?_⟩
      · obtain ⟨c, hc, hrefused, hreason⟩ := exists_of_firstRefusal (by rw [hjava])
        exact (hsound c hc).reason hinside hrefused (hreason.trans (Outcome.threw.inj hthrew))
      · have hnone := firstRefusal_eq_none fun c hc => (hsound c hc).passes hinside hreaches
        rw [hjava] at hnone
        exact (nomatch hnone)
  | none =>
      have hinside : inside := by
        by_contra hout
        obtain ⟨c, hc, hrefused⟩ := hrefuses hout
        obtain ⟨reason, hreason⟩ := firstRefusal_eq_some hc hrefused
        rw [hjava] at hreason
        exact (nomatch hreason)
      have hpasses := firstRefusal_eq_none fun c hc => (hnative hinside c hc).1
      have hnativeFits (a : Arith) (ha : a ∈ (firstRefusal nativeChecks).2) : a.Fits := by
        obtain ⟨c, hc, hmem⟩ := mem_firstRefusal ha
        exact (hnative hinside c hc).2 a hmem
      rcases hcode : firstRefusal nativeChecks with ⟨refusal, ariths'⟩
      rw [hcode] at hpasses hnativeFits
      cases refusal with
      | some code => exact (nomatch hpasses)
      | none =>
          refine ⟨fun hout => absurd hinside hout, fun _ hthrew => finishSize_ne _ hthrew,
            fun _ a ha => ?_, fun _ _ => rfl⟩
          rcases List.mem_append.mp ha with ha | ha
          · exact hjavaFits a ha
          · exact hnativeFits a ha

section Methods

variable {σ : Type} (Z : Codec σ) (isOpen : Bool) (context : σ) (ops : Operands) (w : Windows)
  {reaches : Prop}

theorem sound_src : Sound (InsideAll ops w) reaches
    (checkWindow ops.memory ops.src w.srcOffset w.srcSize) := by
  obtain ⟨hrefuses, hfits, _⟩ := checkWindow_spec ops.src_valid w.srcOffset w.srcSize
  refine ⟨hfits, fun hinside h => absurd hinside.2 (hrefuses.mp h), fun hinside _ => ?_⟩
  rw [← Bool.not_eq_true, hrefuses, not_not]
  exact hinside.2

theorem sound_dst : Sound (InsideAll ops w) reaches
    (checkWindow ops.memory ops.dst w.dstOffset w.dstSize) := by
  obtain ⟨hrefuses, hfits, _⟩ := checkWindow_spec ops.dst_valid w.dstOffset w.dstSize
  refine ⟨hfits, fun hinside h => absurd hinside.1 (hrefuses.mp h), fun hinside _ => ?_⟩
  rw [← Bool.not_eq_true, hrefuses, not_not]
  exact hinside.1

theorem sound_ensureOpen {inside : Prop} (message : String) (hopen : reaches → isOpen = true) :
    Sound inside reaches (ensureOpen isOpen message) :=
  ⟨fun _ h => absurd h List.not_mem_nil, fun _ _ => nofun, fun _ h => by
    rw [ensureOpen, hopen h, Bool.not_true]⟩

theorem sound_checkDirect {inside : Prop} (op : Operand) (message : String)
    (hdirect : reaches → op.isDirect = true) : Sound inside reaches (checkDirect op message) :=
  ⟨fun _ h => absurd h List.not_mem_nil, fun _ _ => nofun, fun _ h => by
    rw [checkDirect, hdirect h, Bool.not_true]⟩

/-- One of the two checks of windows refuses when the windows are not inside. -/
theorem exists_refuses {checks : List (Check JavaException)}
    (hsrc : checkWindow ops.memory ops.src w.srcOffset w.srcSize ∈ checks)
    (hdst : checkWindow ops.memory ops.dst w.dstOffset w.dstSize ∈ checks)
    (hout : ¬ InsideAll ops w) : ∃ c ∈ checks, c.refuses = true := by
  by_cases hinside : Inside w.dstOffset.toInt w.dstSize.toInt (ops.dst.limit ops.memory)
  · exact ⟨_, hsrc, (checkWindow_spec ops.src_valid _ _).1.mpr fun h => hout ⟨hinside, h⟩⟩
  · exact ⟨_, hdst, (checkWindow_spec ops.dst_valid _ _).1.mpr hinside⟩

section Native

variable {ops w} (hinside : InsideAll ops w)
include hinside

theorem passes_nativeDirect : ∀ c ∈ nativeDirect ops w, Passes c := by
  have hdst := passes_checkSum .dstSizeTooSmall ops.dst_valid hinside.1
  have hsrc := passes_checkSum .srcSizeWrong ops.src_valid hinside.2
  simp only [nativeDirect, List.forall_mem_cons]
  exact ⟨passes_checkSign _ hinside.1.1, passes_checkSign _ hinside.2.1,
    passes_checkSign _ hinside.2.2.1, hdst, hsrc, fun _ h => absurd h List.not_mem_nil⟩

theorem passes_nativeArray : ∀ c ∈ nativeArray ops w, Passes c := by
  have hdst := passes_checkSum .dstSizeTooSmall ops.dst_valid hinside.1
  have hsrc := passes_checkSum .srcSizeWrong ops.src_valid hinside.2
  simp only [nativeArray, List.forall_mem_cons]
  exact ⟨passes_checkSign _ hinside.1.1, passes_checkSign _ hinside.2.1,
    passes_checkSign _ hinside.2.2.1, hsrc, hdst, fun _ h => absurd h List.not_mem_nil⟩

theorem passes_nativeSigns : ∀ c ∈ nativeSigns w, Passes c := by
  simp only [nativeSigns, List.forall_mem_cons]
  exact ⟨passes_checkSign _ hinside.1.1, passes_checkSign _ hinside.1.2.1,
    passes_checkSign _ hinside.2.1, passes_checkSign _ hinside.2.2.1,
    fun _ h => absurd h List.not_mem_nil⟩

theorem passes_nativeToDirect : ∀ c ∈ nativeToDirect ops w, Passes c := by
  have hdst := passes_checkDifference .dstSizeTooSmall ops.dst_valid hinside.1
  have hsrc := passes_checkDifference .srcSizeWrong ops.src_valid hinside.2
  intro c hc
  rcases List.mem_append.mp hc with hsign | hrest
  · exact passes_nativeSigns hinside c hsign
  · rcases List.mem_pair.mp hrest with rfl | rfl
    · exact hsrc
    · exact hdst

theorem passes_nativeFromDirect : ∀ c ∈ nativeFromDirect ops w, Passes c := by
  have hdst := passes_checkDifference .dstSizeTooSmall ops.dst_valid hinside.1
  have hsrc := passes_checkDifference .srcSizeWrong ops.src_valid hinside.2
  intro c hc
  rcases List.mem_append.mp hc with hsign | hrest
  · exact passes_nativeSigns hinside c hsign
  · rcases List.mem_pair.mp hrest with rfl | rfl
    · exact hdst
    · exact hsrc

end Native

/-- What a method for two direct buffers needs to reach zstd. -/
def ReachesDirect : Prop :=
  isOpen = true ∧ ops.src.isDirect = true ∧ ops.dst.isDirect = true

theorem sound_javaDirect (message : String) :
    ∀ c ∈ javaDirect isOpen ops w message,
      Sound (InsideAll ops w) (ReachesDirect isOpen ops) c := by
  simp only [javaDirect, List.forall_mem_cons]
  exact ⟨sound_ensureOpen isOpen message fun h => h.1, sound_checkDirect _ _ fun h => h.2.1,
    sound_checkDirect _ _ fun h => h.2.2, sound_src ops w, sound_dst ops w,
    fun _ h => absurd h List.not_mem_nil⟩

theorem sound_javaArray (message : String) :
    ∀ c ∈ javaArray isOpen ops w message, Sound (InsideAll ops w) (isOpen = true) c := by
  simp only [javaArray, List.forall_mem_cons]
  exact ⟨sound_src ops w, sound_dst ops w, sound_ensureOpen isOpen message id,
    fun _ h => absurd h List.not_mem_nil⟩

theorem guarded_direct (message : String) :
    Guarded (InsideAll ops w) (ReachesDirect isOpen ops) False ops.memory w
      (oneShot Z context ops w (javaDirect isOpen ops w message) (nativeDirect ops w)) :=
  oneShot_guarded Z context ops w (sound_javaDirect isOpen ops w message)
    (exists_refuses ops w (by simp [javaDirect]) (by simp [javaDirect])) passes_nativeDirect

theorem guarded_array (message : String) :
    Guarded (InsideAll ops w) (isOpen = true) False ops.memory w
      (oneShot Z context ops w (javaArray isOpen ops w message) (nativeArray ops w)) :=
  oneShot_guarded Z context ops w (sound_javaArray isOpen ops w message)
    (exists_refuses ops w (by simp [javaArray]) (by simp [javaArray])) passes_nativeArray

theorem guarded_toDirect :
    Guarded (InsideAll ops w) (isOpen = true ∧ ops.dst.isDirect = true) False ops.memory w
      (decompressByteArrayToDirectByteBuffer Z isOpen context ops w) := by
  refine oneShot_guarded Z context ops w ?_ (exists_refuses ops w (by simp) (by simp))
    passes_nativeToDirect
  simp only [List.forall_mem_cons]
  exact ⟨sound_checkDirect _ _ fun h => h.2, sound_src ops w, sound_dst ops w,
    sound_ensureOpen isOpen _ fun h => h.1, fun _ h => absurd h List.not_mem_nil⟩

theorem guarded_fromDirect :
    Guarded (InsideAll ops w) (isOpen = true ∧ ops.src.isDirect = true) False ops.memory w
      (decompressDirectByteBufferToByteArray Z isOpen context ops w) := by
  refine oneShot_guarded Z context ops w ?_ (exists_refuses ops w (by simp) (by simp))
    passes_nativeFromDirect
  simp only [List.forall_mem_cons]
  exact ⟨sound_checkDirect _ _ fun h => h.2, sound_src ops w, sound_dst ops w,
    sound_ensureOpen isOpen _ fun h => h.1, fun _ h => absurd h List.not_mem_nil⟩

end Methods

section Helpers

variable (ops : Operands) (dstOffset srcOffset : JInt)

/-- The windows that a helper is asked for are inside: the destination from an offset to its
end, and the source with the given length or to its end. -/
def HelperInside (length : Option JInt) : Prop :=
  Inside dstOffset.toInt (ops.dst.limit ops.memory - dstOffset.toInt) (ops.dst.limit ops.memory) ∧
  match length with
  | some length => Inside srcOffset.toInt length.toInt (ops.src.limit ops.memory)
  | none =>
    Inside srcOffset.toInt (ops.src.limit ops.memory - srcOffset.toInt) (ops.src.limit ops.memory)

/-- The windows that a helper passes on. -/
def helperWindows (length : Option JInt) : Windows where
  dstOffset := dstOffset
  dstSize := BitVec.ofNat 32 (ops.dst.limit ops.memory) - dstOffset
  srcOffset := srcOffset
  srcSize := length.getD (BitVec.ofNat 32 (ops.src.limit ops.memory) - srcOffset)

variable {ops dstOffset srcOffset}

/-- What remains of an operand from an offset that is not negative, in 32-bit arithmetic. -/
theorem fits_rest {memory : Memory} {op : Operand} (hvalid : op.Valid memory) {offset : JInt}
    (hoffset : 0 ≤ offset.toInt) :
    (Arith.difference (BitVec.ofNat 32 (op.limit memory)) offset).Fits := by
  have hlimit := limit_toInt hvalid
  exact fits_remaining (by omega) hoffset

/-- The window from an offset to the end is inside in 32-bit arithmetic exactly if it is. -/
theorem inside_rest_iff {memory : Memory} {op : Operand} (hvalid : op.Valid memory)
    (offset : JInt) :
    Inside offset.toInt (BitVec.ofNat 32 (op.limit memory) - offset).toInt (op.limit memory) ↔
      Inside offset.toInt (op.limit memory - offset.toInt) (op.limit memory) := by
  by_cases hoffset : 0 ≤ offset.toInt
  · have hfits : (BitVec.ofNat 32 (op.limit memory) - offset).toInt =
        (BitVec.ofNat 32 (op.limit memory)).toInt - offset.toInt := fits_rest hvalid hoffset
    rw [hfits, limit_toInt hvalid]
  · exact iff_of_false (fun h => hoffset h.1) fun h => hoffset h.1

theorem insideAll_helperWindows (length : Option JInt) :
    InsideAll ops (helperWindows ops dstOffset srcOffset length) ↔
      HelperInside ops dstOffset srcOffset length := by
  unfold InsideAll HelperInside
  refine and_congr (inside_rest_iff ops.dst_valid dstOffset) ?_
  cases length with
  | some length => exact Iff.rfl
  | none => exact inside_rest_iff ops.src_valid srcOffset

variable (ops dstOffset srcOffset)

/-- A helper is guarded if the method behind it is, with the exception that what comes before
the arrays may fail. -/
theorem withDict_guarded {σ : Type} (prepare : Outcome Unit × σ) (length : Option JInt)
    {method : σ → Windows → Ran σ}
    (hmethod : ∀ context w, Guarded (InsideAll ops w) True False ops.memory w (method context w)) :
    Guarded (HelperInside ops dstOffset srcOffset length) (∃ u, prepare.1 = .returned u)
      (prepare.1 = .threw .indexOutOfBounds) ops.memory
      (helperWindows ops dstOffset srcOffset length)
      (withDict prepare ops method dstOffset srcOffset length) := by
  obtain ⟨prepared, context⟩ := prepare
  cases prepared with
  | threw e =>
      refine ⟨fun _ => ⟨⟨e, rfl⟩, rfl, rfl⟩, fun _ h => ?_, fun _ _ h => absurd h List.not_mem_nil,
        fun _ h => (nomatch h.choose_spec)⟩
      rw [Outcome.threw.inj h]
  | returned u =>
      have hran := hmethod context (helperWindows ops dstOffset srcOffset length)
      rw [insideAll_helperWindows] at hran
      have heq : (withDict (.returned u, context) ops method dstOffset srcOffset length).outcome =
          (method context (helperWindows ops dstOffset srcOffset length)).outcome ∧
        (withDict (.returned u, context) ops method dstOffset srcOffset length).received =
          (method context (helperWindows ops dstOffset srcOffset length)).received ∧
        (withDict (.returned u, context) ops method dstOffset srcOffset length).memory =
          (method context (helperWindows ops dstOffset srcOffset length)).memory := by
        cases length <;> exact ⟨rfl, rfl, rfl⟩
      obtain ⟨houtcome, hreceived, hmemory⟩ := heq
      refine ⟨?_, fun hinside h => (hran.passed hinside (houtcome ▸ h)).elim, fun hinside => ?_, ?_⟩
      · rw [houtcome, hreceived, hmemory]
        exact hran.refused
      · have hdst := fits_rest ops.dst_valid hinside.1.1
        have hrest := hran.fits hinside
        cases length with
        | some length =>
            simp only [withDict, List.forall_mem_cons]
            exact ⟨hdst, rfl, hrest⟩
        | none =>
            simp only [withDict, List.forall_mem_cons]
            exact ⟨hdst, fits_rest ops.src_valid hinside.2.1, hrest⟩
      · rw [hreceived]
        exact fun hinside _ => hran.received hinside trivial

theorem guarded_array_open {σ : Type} (Z : Codec σ) (message : String) (context : σ) (w : Windows) :
    Guarded (InsideAll ops w) True False ops.memory w
      (oneShot Z context ops w (javaArray true ops w message) (nativeArray ops w)) := by
  have hguarded := guarded_array Z true context ops w message
  exact ⟨hguarded.refused, hguarded.passed, hguarded.fits, fun hinside _ =>
    hguarded.received hinside rfl⟩

end Helpers

/-- A constructor whose window is guarded: if it is not inside the constructor throws and
nothing is created, otherwise native code receives the window and no difference wraps
around. -/
structure DictGuarded (inside : Prop) (offset length : JInt) (succeeds : Bool) (created : Created) :
    Prop where
  refused : ¬ inside → (∃ e, created.outcome = .threw e) ∧ created.received = []
  fits : inside → ∀ a ∈ created.ariths, a.Fits
  received : inside → created.received = [(offset, length)]
  returned : inside → succeeds = true → created.outcome = .returned ()

/-- Checks of which one refuses exactly if the window is not inside, and that compute without
wrapping around otherwise. -/
theorem create_guarded {inside : Prop} {checks : List (Check JavaException)}
    (hrefuses : ¬ inside → ∃ c ∈ checks, c.refuses = true)
    (hpasses : inside → ∀ c ∈ checks, c.refuses = false ∧ ∀ a ∈ c.ariths, a.Fits)
    (offset length : JInt) (succeeds : Bool) (message : String) :
    DictGuarded inside offset length succeeds (create checks offset length succeeds message) := by
  unfold create
  by_cases hinside : inside
  · have hnone := firstRefusal_eq_none fun c hc => (hpasses hinside c hc).1
    have hfits (a : Arith) (ha : a ∈ (firstRefusal checks).2) : a.Fits := by
      obtain ⟨c, hc, hmem⟩ := mem_firstRefusal ha
      exact (hpasses hinside c hc).2 a hmem
    rcases hchecks : firstRefusal checks with ⟨refusal, ariths⟩
    rw [hchecks] at hnone hfits
    obtain rfl : refusal = none := hnone
    exact ⟨fun hout => absurd hinside hout, fun _ => hfits, fun _ => rfl, fun _ h => if_pos h⟩
  · obtain ⟨c, hc, hrefused⟩ := hrefuses hinside
    obtain ⟨reason, hreason⟩ := firstRefusal_eq_some hc hrefused
    rcases hchecks : firstRefusal checks with ⟨refusal, ariths⟩
    rw [hchecks] at hreason
    obtain rfl : refusal = some reason := hreason
    exact ⟨fun _ => ⟨⟨reason, rfl⟩, rfl⟩, fun h => absurd h hinside, fun h => absurd h hinside,
      fun h => absurd h hinside⟩

/-- The test of a dictionary refuses exactly the windows that are not inside. -/
theorem checkDict_spec {dictLength : JInt} (hlength : 0 ≤ dictLength.toInt) (offset length : JInt) :
    ((checkDict dictLength offset length).refuses = true ↔
      ¬ Inside offset.toInt length.toInt dictLength.toInt) ∧
    ∀ a ∈ (checkDict dictLength offset length).ariths, a.Fits := by
  unfold checkDict Inside
  by_cases hsigns : (negative offset || negative length) = true
  · simp only [if_pos hsigns]
    rw [Bool.or_eq_true, negative_iff, negative_iff] at hsigns
    exact ⟨iff_of_true trivial (by omega), fun _ h => absurd h List.not_mem_nil⟩
  · simp only [if_neg hsigns]
    rw [Bool.or_eq_true, negative_iff, negative_iff] at hsigns
    have hfits := fits_remaining hlength (by omega : 0 ≤ offset.toInt)
    have hword : (Arith.difference dictLength offset).word.toInt =
      dictLength.toInt - offset.toInt :=
      hfits
    refine ⟨?_, fun a ha => List.mem_singleton.mp ha ▸ hfits⟩
    rw [BitVec.slt_eq_decide, decide_eq_true_iff, hword]
    omega

section Dictionaries

variable {dictLength : JInt} (hlength : 0 ≤ dictLength.toInt) (offset length : JInt)
  (succeeds : Bool)
include hlength

theorem passes_checkDict (hinside : Inside offset.toInt length.toInt dictLength.toInt) :
    (checkDict dictLength offset length).refuses = false ∧
      ∀ a ∈ (checkDict dictLength offset length).ariths, a.Fits := by
  obtain ⟨hrefuses, hfits⟩ := checkDict_spec hlength offset length
  refine ⟨?_, hfits⟩
  rw [← Bool.not_eq_true, hrefuses, not_not]
  exact hinside

theorem createDictCompress_guarded :
    DictGuarded (Inside offset.toInt length.toInt dictLength.toInt) offset length succeeds
      (createDictCompress dictLength offset length succeeds) := by
  obtain ⟨hrefuses, _⟩ := checkDict_spec hlength offset length
  refine create_guarded (fun hout => ⟨_, by simp, hrefuses.mpr hout⟩) (fun hinside => ?_) offset
    length succeeds _
  have hfits := fits_remaining hlength hinside.1
  have hword : (Arith.difference dictLength offset).word.toInt = dictLength.toInt - offset.toInt :=
    hfits
  have hshort : negative (Arith.difference dictLength offset).word = false := by
    obtain ⟨_, hsize, hend⟩ := hinside
    rw [← Bool.not_eq_true, negative_iff, hword]
    omega
  simp only [List.forall_mem_cons]
  exact ⟨⟨hshort, hfits, fun _ h => absurd h List.not_mem_nil⟩,
    passes_checkDict hlength offset length hinside, fun _ h => absurd h List.not_mem_nil⟩

theorem createDictDecompress_guarded :
    DictGuarded (Inside offset.toInt length.toInt dictLength.toInt) offset length succeeds
      (createDictDecompress dictLength offset length succeeds) := by
  obtain ⟨hrefuses, _⟩ := checkDict_spec hlength offset length
  refine create_guarded (fun hout => ⟨_, by simp, hrefuses.mpr hout⟩) (fun hinside => ?_) offset
    length succeeds _
  simp only [List.forall_mem_cons]
  exact ⟨passes_checkDict hlength offset length hinside, fun _ h => absurd h List.not_mem_nil⟩

end Dictionaries

/-- The window of a dictionary in a buffer. -/
theorem createDictDirect_guarded (dict : ByteBuffer) (succeeds : Bool) (message : String) :
    DictGuarded (dict.kind = .direct) (BitVec.ofNat 32 dict.position)
      (BitVec.ofNat 32 dict.limit - BitVec.ofNat 32 dict.position) succeeds
      (createDictDirect dict succeeds message) := by
  obtain ⟨hfits, hposition, hsize, hend⟩ := inside_remaining dict
  have hguarded : DictGuarded (dict.kind = .direct) (BitVec.ofNat 32 dict.position)
      (BitVec.ofNat 32 dict.limit - BitVec.ofNat 32 dict.position) succeeds
      (create
        [⟨!decide (dict.kind = .direct), [], .illegalArgument "dict must be a direct buffer"⟩,
          ⟨negative (Arith.difference (BitVec.ofNat 32 dict.limit)
            (BitVec.ofNat 32 dict.position)).word, [], .illegalArgument "dict cannot be empty."⟩]
        (BitVec.ofNat 32 dict.position)
        (BitVec.ofNat 32 dict.limit - BitVec.ofNat 32 dict.position) succeeds message) := by
    refine create_guarded (fun hout => ⟨_, List.mem_cons_self, by simp [hout]⟩) (fun hdirect => ?_)
      _ _ succeeds message
    simp only [List.forall_mem_cons]
    refine ⟨⟨by simp [hdirect], fun _ h => absurd h List.not_mem_nil⟩,
      ⟨?_, fun _ h => absurd h List.not_mem_nil⟩, fun _ h => absurd h List.not_mem_nil⟩
    rw [← Bool.not_eq_true, negative_iff]
    exact Int.not_lt.mpr hsize
  refine ⟨hguarded.refused, fun hdirect => ?_, hguarded.received, hguarded.returned⟩
  simp only [createDictDirect, List.forall_mem_cons]
  exact ⟨hfits, hguarded.fits hdirect⟩

end ZstdJni.Context
