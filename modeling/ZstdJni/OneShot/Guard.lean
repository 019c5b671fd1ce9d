/-
# The limit `MAX_DECOMPRESS_SIZE`

The guard is meant to keep the result arrays below the limit and to refuse sources that
declare more, before anything is allocated or decoded.  Declared sizes are unsigned, the
comparisons are signed, and sums wrap around: the guard works exactly as long as the
declared sizes do not add up to `2 ^ 63`, or some later check refuses the source anyway.
-/

import Mathlib.Algebra.Order.BigOperators.Group.List
import Mathlib.Algebra.Order.Group.Nat
import ZstdJni.OneShot.Walk

namespace ZstdJni.OneShot

open ZstdJni.Foundation ZstdJni.Native

variable {Z : FrameApi} {src : JavaArray}

/-- A call keeps the limit: no result array is longer, and a source with a declared size
or a sum of declared sizes above the limit is refused before anything is allocated or
decoded. -/
structure Guarded (maxSize : ℤ) (sizes : List ℕ) (ran : Ran (List Byte)) : Prop where
  allocate_le : ∀ n, Effect.allocate n ∈ ran.effects → (n : ℤ) ≤ maxSize
  refuses : (∃ size ∈ sizes, maxSize < size) ∨ maxSize < (sizes.sum : ℕ) →
    (∃ e, ran.outcome = .threw e) ∧ ran.effects = []

/-- Sizes that add up to `2 ^ 63` at least, but that pass every signed test. -/
structure Overflows (maxSize : ℤ) (sizes : List ℕ) : Prop where
  known : ∀ size ∈ sizes, zstdIsError size = false
  size_le : ∀ size ∈ sizes, jlong size ≤ maxSize
  sum_le : ∀ front, front <+: sizes → jlong front.sum ≤ maxSize
  total : 0 ≤ jint sizes.sum
  wraps : 2 ^ 63 ≤ sizes.sum

/-- `Zstd.decompress` ends and keeps the limit. -/
def DecompressGuarded (Z : FrameApi) (maxSize : ℤ) (src : JavaArray) : Prop :=
  ∃ ran, Yields (decompress Z maxSize src) ran ∧
    Guarded maxSize (Z.declaredSizes src.bytes) ran

/-- The content size that the frame at an offset declares, if there is a frame. -/
def declaredAt (Z : FrameApi) (src : JavaArray) (srcOffset : ℤ) : List ℕ :=
  if 0 ≤ srcOffset then (Z.declaredSizes (src.bytes.drop srcOffset.toNat)).take 1 else []

/-- Admitted sizes with a total that can be allocated overflow exactly if they add up to
`2 ^ 63`. -/
theorem overflows_iff {maxSize : ℤ} (hlimit : 0 ≤ maxSize) {sizes : List ℕ} :
    Overflows maxSize sizes ↔
      Admitted maxSize 0 sizes ∧ 0 ≤ jint sizes.sum ∧ 2 ^ 63 ≤ sizes.sum := by
  rw [admitted_iff]
  constructor
  · rintro ⟨hknown, hsize, hsum, htotal, hwraps⟩
    exact ⟨⟨hknown, hsize, fun front hfront _ => by simpa using hsum front hfront⟩, htotal, hwraps⟩
  · rintro ⟨⟨hknown, hsize, hsum⟩, htotal, hwraps⟩
    refine ⟨hknown, hsize, fun front hfront => ?_, htotal, hwraps⟩
    by_cases hne : front = []
    · subst hne
      simpa [jlong_of_lt] using hlimit
    · simpa using hsum front hfront hne

/-- Admitted sizes that do not wrap around are all within the limit. -/
theorem sum_le_of_admitted {maxSize : ℤ} (hlimit : 0 ≤ maxSize) {sizes : List ℕ}
    (hadmitted : Admitted maxSize 0 sizes) (hsum : sizes.sum < 2 ^ 63) :
    (sizes.sum : ℤ) ≤ maxSize := by
  by_cases hne : sizes = []
  · subst hne
    simpa using hlimit
  · have hall := ((admitted_iff _ _ _).mp hadmitted).2.2 sizes List.prefix_rfl hne
    rwa [Nat.zero_add, jlong_of_lt hsum] at hall

/-- A call that allocates for admitted sizes keeps the limit exactly if they do not wrap
around. -/
theorem guarded_allocate_iff {maxSize : ℤ} (hlimit : 0 ≤ maxSize) (hlong : maxSize < 2 ^ 63)
    {sizes : List ℕ} (hadmitted : Admitted maxSize 0 sizes)
    {outcome : Outcome (List Byte)} {effects : List Effect}
    (heffects : ∀ n, Effect.allocate n ∈ effects → n ≤ (jint sizes.sum).toNat) :
    Guarded maxSize sizes ⟨outcome, .allocate (jint sizes.sum).toNat :: effects⟩ ↔
      sizes.sum < 2 ^ 63 := by
  constructor
  · intro hguarded
    by_contra hwraps
    have hrefused := (hguarded.refuses (.inr (by omega))).2
    exact absurd hrefused (List.cons_ne_nil _ _)
  · intro hsum
    have hle := sum_le_of_admitted hlimit hadmitted hsum
    have hint : (jint sizes.sum).toNat ≤ sizes.sum := by
      simp only [jint, narrow]
      omega
    refine ⟨fun n hn => ?_, fun hlarge => ?_⟩
    · rcases List.mem_cons.mp hn with hhead | htail
      · obtain rfl := Effect.allocate.inj hhead
        omega
      · have hbound := heffects n htail
        omega
    · rcases hlarge with ⟨size, hmem, hsize⟩ | hsize
      · have hmember := List.le_sum_of_mem hmem
        omega
      · omega

/-- Decoding the frames allocates nothing. -/
theorem effects_decompressFrames (frames : List FrameData) (i : ℕ)
    (srcPosition decompressedPosition : ℤ) (decompressedData : List Byte) (effect : Effect)
    (heffect : effect ∈ (decompressFrames Z src frames i srcPosition decompressedPosition
      decompressedData).effects) : effect = .decompress := by
  have hdecoded (called : Bool) (h : effect ∈ decoded called) : effect = .decompress := by
    cases called <;> simp_all [decoded]
  induction frames generalizing i srcPosition decompressedPosition decompressedData with
  | nil => simp [decompressFrames] at heffect
  | cons frameInfo frames ih =>
      simp only [decompressFrames] at heffect
      split at heffect
      · exact hdecoded _ heffect
      · split_ifs at heffect
        · exact hdecoded _ heffect
        · exact hdecoded _ heffect
        · rcases List.mem_append.mp heffect with h | h
          · exact hdecoded _ h
          · exact ih _ _ _ _ h

/-- A refusal keeps every limit. -/
theorem guarded_refused (maxSize : ℤ) (sizes : List ℕ) (e : JavaException) :
    Guarded maxSize sizes ⟨.threw e, []⟩ :=
  ⟨fun _ h => absurd h List.not_mem_nil, fun _ => ⟨⟨e, rfl⟩, rfl⟩⟩

/-- `decompress` keeps the limit unless the declared sizes of a whole chain of frames
overflow. -/
theorem decompressGuarded_iff (Z : FrameApi) {maxSize : ℤ} (hlimit : 0 ≤ maxSize)
    (hlong : maxSize < 2 ^ 63) (src : JavaArray) :
    DecompressGuarded Z maxSize src ↔
      ¬ ((Z.walk src.bytes).2 = [] ∧ Overflows maxSize (Z.declaredSizes src.bytes)) := by
  obtain ⟨ran, hyields, hcases⟩ := decompress_yields Z maxSize src
  have hguarded : DecompressGuarded Z maxSize src ↔
      Guarded maxSize (Z.declaredSizes src.bytes) ran :=
    ⟨fun ⟨_, hyields', h⟩ => hyields'.unique hyields ▸ h, fun h => ⟨ran, hyields, h⟩⟩
  rw [hguarded, overflows_iff hlimit]
  rcases hcases with ⟨hnot, e, rfl⟩ | ⟨⟨⟨hwhole, hadmitted⟩, htotal⟩, decoding, rfl, rfl⟩
  · exact ⟨fun _ h => hnot ⟨⟨h.1, h.2.1⟩, h.2.2.1⟩, fun _ => guarded_refused _ _ e⟩
  · rw [guarded_allocate_iff hlimit hlong hadmitted fun n hn => by
      have heffect := effects_decompressFrames _ _ _ _ _ _ hn
      contradiction]
    exact ⟨fun hsum h => by omega, fun hnot => by
      by_contra hwraps
      exact hnot ⟨hwhole, hadmitted, htotal, by omega⟩⟩

/-- A frame is decoded to at most as many bytes as there is room for. -/
theorem size_decompressByteArray {dst dst' : List Byte}
    {dstOffset dstSize srcOffset srcSize size : ℤ}
    {called : Bool} (hdst : dst.length < 2 ^ 31)
    (hran : decompressByteArray Z dst dstOffset dstSize src srcOffset srcSize =
      (.returned size, dst', called)) : size.toNat ≤ dst.length := by
  have hlt := Z.decompress_lt (src.part srcOffset srcSize)
    (window dst dstOffset.toNat (dstOffset + dstSize).toNat)
  have hle := Z.decompress_le (src.part srcOffset srcSize)
    (window dst dstOffset.toNat (dstOffset + dstSize).toNat)
  have hwindow : (window dst dstOffset.toNat (dstOffset + dstSize).toNat).length ≤ dst.length := by
    simp only [window, List.length_drop, List.length_take]
    omega
  rcases hreply : Z.decompressDCtx (src.part srcOffset srcSize)
    (window dst dstOffset.toNat (dstOffset + dstSize).toNat) with ⟨ret, written⟩
  simp only [hreply] at hlt hle
  simp only [decompressByteArray, hreply, isError_jlong hlt] at hran
  split_ifs at hran with hsrc hfits herror hlarge <;>
    simp only [Prod.mk.injEq, reduceCtorEq, false_and, Outcome.returned.injEq] at hran
  obtain ⟨rfl, -, -⟩ := hran
  have hret := hle (by simpa using herror)
  rw [toInt_jlong, jint_of_lt (by omega)]
  omega

/-- With a size that is not negative, a frame is decoded into an array of this size, and
copied to a smaller one at most. -/
theorem decompressSized_cases (Z : FrameApi) (src : JavaArray) {originalSize : ℤ}
    (hlow : 0 ≤ originalSize)
    (hhigh : originalSize < 2 ^ 31) (srcOffset srcSize : ℤ) :
    ∃ outcome effects, decompressSized Z src srcOffset srcSize originalSize =
      ⟨outcome, .allocate originalSize.toNat :: effects⟩ ∧
        ∀ n, Effect.allocate n ∈ effects → n ≤ originalSize.toNat := by
  have hdecoded (called : Bool) (n : ℕ) : Effect.allocate n ∉ decoded called := by
    cases called <;> simp [decoded]
  rcases hran : decompressByteArray Z (List.replicate originalSize.toNat 0) 0 originalSize src
    srcOffset srcSize with ⟨outcome, dst, called⟩
  simp only [decompressSized, if_neg (Int.not_lt.mpr hlow), hran]
  cases outcome with
  | threw e => exact ⟨_, _, rfl, fun n hn => absurd hn (hdecoded called n)⟩
  | returned size =>
      have hsize := size_decompressByteArray (by simp; omega) hran
      simp only [List.length_replicate] at hsize
      by_cases hexact : size = originalSize
      · simp only [hexact, ne_eq, not_true_eq_false, if_false]
        exact ⟨_, _, rfl, fun n hn => absurd hn (hdecoded called n)⟩
      · simp only [ne_eq, hexact, not_false_eq_true, if_true, List.cons_append]
        refine ⟨_, _, rfl, fun n hn => ?_⟩
        rcases List.mem_append.mp hn with h | h
        · exact absurd h (hdecoded called n)
        · obtain rfl := Effect.allocate.inj (List.mem_singleton.mp h)
          exact hsize

/-- What `decompressFrame` does: it refuses, or it allocates the low half of the declared
size. -/
theorem decompressFrame_cases (Z : FrameApi) (maxSize : ℤ) (src : JavaArray) (srcOffset : ℤ) :
    (¬ (declaredAt Z src srcOffset ≠ [] ∧ Admitted maxSize 0 (declaredAt Z src srcOffset) ∧
          0 ≤ jint (declaredAt Z src srcOffset).sum) ∧
        ∃ e, decompressFrame Z maxSize src srcOffset = ⟨.threw e, []⟩) ∨
      (Admitted maxSize 0 (declaredAt Z src srcOffset) ∧
          0 ≤ jint (declaredAt Z src srcOffset).sum) ∧
        ∃ outcome effects,
          (∀ n, Effect.allocate n ∈ effects → n ≤ (jint (declaredAt Z src srcOffset).sum).toNat) ∧
          decompressFrame Z maxSize src srcOffset =
            ⟨outcome, .allocate (jint (declaredAt Z src srcOffset).sum).toNat :: effects⟩ := by
  by_cases hinside : 0 ≤ srcOffset ∧ srcOffset < src.bytes.length
  · obtain ⟨hlow, hhigh⟩ := hinside
    obtain ⟨offset, rfl⟩ := Int.eq_ofNat_of_zero_le hlow
    have hsrc : src.bytes = src.bytes.take offset ++ src.bytes.drop offset :=
      (List.take_append_drop _ _).symm
    have hoffset : (src.bytes.take offset).length = offset := by
      rw [List.length_take]
      omega
    have hrest : src.bytes.drop offset ≠ [] := by
      intro h
      have := congrArg List.length h
      simp at this
      omega
    have hdeclared : declaredAt Z src offset =
        (Z.declaredSizes (src.bytes.drop offset)).take 1 := by
      rw [declaredAt, if_pos hlow, Int.toNat_natCast]
    have hfound := findFrameCompressedSize_part (Z := Z) hsrc hrest
    rw [hoffset] at hfound
    rw [hdeclared]
    generalize src.bytes.drop offset = rest at *
    cases hfind : zstdIsError (Z.findFrameCompressedSize rest) with
    | true =>
        refine .inl ⟨fun h => h.1 ?_, .ofResult (jlong (Z.findFrameCompressedSize rest)), ?_⟩
        · rw [FrameApi.declaredSizes, Z.walk_stop hfind]
          rfl
        · simp only [decompressFrame, hfound, hfind, if_true]
    | false =>
        have hcontent := getFrameContentSize_part hsrc hfind
        have hsizes := declaredSizes_frame hfind
        rw [hoffset] at hcontent
        simp only [decompressFrame, hfound, hfind, Bool.false_eq_true, if_false, hcontent, hsizes,
          List.take_succ_cons, List.take_zero, Admitted, List.sum_singleton, Nat.zero_add]
        have hcheck := checkContentSize_jlong
          (Z.contentSize_lt (rest.take (Z.findFrameCompressedSize rest)))
        generalize Z.getFrameContentSize (rest.take (Z.findFrameCompressedSize rest)) = size at *
        cases hresult : checkContentSize (jlong size) with
        | error e =>
            refine .inl ⟨fun h => ?_, e, rfl⟩
            rw [hcheck.mpr h.2.1.1] at hresult
            contradiction
        | ok u =>
            have hknown := hcheck.mp hresult
            by_cases hlarge : maxSize < jlong size
            · simp only [hlarge, if_true]
              exact .inl ⟨fun h => by omega, _, rfl⟩
            · simp only [hlarge, if_false, toInt_jlong]
              by_cases hnegative : jint size < 0
              · simp only [decompressSized, hnegative, if_true]
                exact .inl ⟨fun h => by omega, _, rfl⟩
              · have hbounds := jint_bounds size
                obtain ⟨outcome, effects, hran, heffects⟩ := decompressSized_cases Z src
                  (by omega : 0 ≤ jint size) hbounds.2 offset
                  (toInt (Z.findFrameCompressedSize rest))
                exact .inr ⟨⟨⟨hknown, by omega, by omega, trivial⟩, by omega⟩,
                  outcome, effects, heffects, hran⟩
  · refine .inl ⟨fun h => h.1 ?_, .arrayIndexOutOfBounds srcOffset, ?_⟩
    · rw [declaredAt]
      split_ifs with hlow
      · rw [List.drop_of_length_le (by omega), FrameApi.declaredSizes, Z.walk_stop Z.find_nil]
        rfl
      · rfl
    · have hcheck (size : ℤ) : checkIndices src srcOffset size =
          .error (.arrayIndexOutOfBounds srcOffset) := by
        rw [checkIndices, if_pos (by omega)]
      simp only [decompressFrame, findFrameCompressedSize, hcheck]

/-- `decompressFrame` keeps the limit unless the declared size overflows. -/
theorem guarded_decompressFrame_iff (Z : FrameApi) {maxSize : ℤ} (hlimit : 0 ≤ maxSize)
    (hlong : maxSize < 2 ^ 63) (src : JavaArray) (srcOffset : ℤ) :
    Guarded maxSize (declaredAt Z src srcOffset) (decompressFrame Z maxSize src srcOffset) ↔
      ¬ Overflows maxSize (declaredAt Z src srcOffset) := by
  rw [overflows_iff hlimit]
  rcases decompressFrame_cases Z maxSize src srcOffset with
    ⟨hnot, e, hran⟩ | ⟨⟨hadmitted, htotal⟩, outcome, effects, heffects, hran⟩
  · rw [hran]
    refine ⟨fun _ h => hnot ⟨fun hnil => ?_, h.1, h.2.1⟩, fun _ => guarded_refused _ _ e⟩
    rw [hnil] at h
    simp at h
  · rw [hran, guarded_allocate_iff hlimit hlong hadmitted heffects]
    exact ⟨fun hsum h => by omega, fun hnot => by
      by_contra hwraps
      exact hnot ⟨hadmitted, htotal, by omega⟩⟩

/-- The limit is kept, by both functions, exactly on the sources whose declared sizes do
not overflow. -/
theorem guarded_iff_not_overflows (Z : FrameApi) (maxSize : Fin (2 ^ 63)) (src : JavaArray) :
    (DecompressGuarded Z maxSize src ↔
        ¬ ((Z.walk src.bytes).2 = [] ∧ Overflows maxSize (Z.declaredSizes src.bytes))) ∧
      ∀ srcOffset, (Guarded maxSize (declaredAt Z src srcOffset)
          (decompressFrame Z maxSize src srcOffset) ↔
        ¬ Overflows maxSize (declaredAt Z src srcOffset)) := by
  have hlimit : (0 : ℤ) ≤ (maxSize : ℕ) := Int.natCast_nonneg _
  have hlong : ((maxSize : ℕ) : ℤ) < 2 ^ 63 := by
    have := maxSize.isLt
    omega
  exact ⟨decompressGuarded_iff Z hlimit hlong src,
    fun srcOffset => guarded_decompressFrame_iff Z hlimit hlong src srcOffset⟩

/-- A frame of a single segment with an empty last block, whose header declares
`2 ^ 63 + 2 ^ 30` bytes. -/
def halfRangeFrame : JavaArray where
  bytes := [0x28, 0xB5, 0x2F, 0xFD, 0xE0, 0x00, 0x00, 0x00, 0x40, 0x00, 0x00, 0x00, 0x80,
    0x01, 0x00, 0x00]
  length_lt := by decide

/-- The functions of zstd as far as they concern this frame: it is found, its header is
read, and its content is not as long as declared. -/
def halfRangeApi : FrameApi where
  findFrameCompressedSize input :=
    if halfRangeFrame.bytes.isPrefixOf input then 16 else ErrorCode.prefixUnknown.result
  getFrameContentSize input :=
    if halfRangeFrame.bytes.isPrefixOf input then 2 ^ 63 + 2 ^ 30 else 2 ^ 64 - 2
  decompressDCtx _ dst := (ErrorCode.corruptionDetected.result, dst)
  find_lt input := by
    simp only [ErrorCode.result, ErrorCode.value]
    split_ifs <;> decide
  find_size input := by
    split_ifs with hfound
    · intro _
      have hlength := (List.isPrefixOf_iff_prefix.mp hfound).length_le
      exact ⟨by decide, hlength⟩
    · exact fun hok => absurd hok (by decide)
  contentSize_lt input := by
    split_ifs <;> decide
  decompress_lt _ _ := show ErrorCode.corruptionDetected.result < 2 ^ 64 by decide
  decompress_le _ _ hok :=
    absurd hok (show ¬ zstdIsError ErrorCode.corruptionDetected.result = false by decide)
  decompress_length _ _ := rfl

theorem walk_halfRangeFrame :
    halfRangeApi.walk halfRangeFrame.bytes = ([halfRangeFrame.bytes], []) := by
  have hfind : halfRangeApi.findFrameCompressedSize halfRangeFrame.bytes = 16 := by decide
  rw [FrameApi.walk_frame _ (by rw [hfind]; decide), hfind]
  have hdrop : halfRangeFrame.bytes.drop 16 = [] := by decide
  rw [hdrop, FrameApi.walk_stop _ (FrameApi.find_nil _)]
  rfl

theorem overflows_halfRangeFrame : Overflows (2 ^ 29) [2 ^ 63 + 2 ^ 30] := by
  rw [overflows_iff (by decide)]
  simp only [Admitted, List.sum_singleton]
  decide

/-- With the default limit of 512 megabytes, this frame of 16 bytes makes both functions
allocate a gigabyte. -/
theorem not_guarded_halfRangeFrame :
    ¬ DecompressGuarded halfRangeApi (2 ^ 29) halfRangeFrame ∧
      ¬ Guarded (2 ^ 29) (declaredAt halfRangeApi halfRangeFrame 0)
        (decompressFrame halfRangeApi (2 ^ 29) halfRangeFrame 0) := by
  have hsizes : halfRangeApi.declaredSizes halfRangeFrame.bytes = [2 ^ 63 + 2 ^ 30] := by
    rw [FrameApi.declaredSizes, walk_halfRangeFrame]
    decide
  have hdeclared : declaredAt halfRangeApi halfRangeFrame 0 = [2 ^ 63 + 2 ^ 30] := by
    simp only [declaredAt, Int.le_refl, if_true, Int.toNat_zero, List.drop_zero, hsizes,
      List.take_succ_cons, List.take_zero]
  constructor
  · rw [decompressGuarded_iff _ (by decide) (by decide), walk_halfRangeFrame, hsizes]
    exact fun hnot => hnot ⟨rfl, overflows_halfRangeFrame⟩
  · rw [guarded_decompressFrame_iff _ (by decide) (by decide), hdeclared]
    exact fun hnot => hnot overflows_halfRangeFrame

end ZstdJni.OneShot
