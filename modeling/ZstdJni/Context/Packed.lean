/-
# The packed result of the streaming methods

The native streaming methods of both contexts return four pieces of information in one
`jlong`: an error bit and an error code, or two positions and a flag.  C builds the number
from a `size_t` and two signed `jint`s, with shifts, sign extensions and bits that are set
by an `or`; Java takes it apart with masks, casts and unsigned shifts.

The words are bit vectors here.  The streaming model of the compression context, which
works on natural numbers, is what this arithmetic comes to.
-/

import ZstdJni.CompressCtx.StorageIndependence

namespace ZstdJni.Context

open ZstdJni.Foundation ZstdJni.Native ZstdJni.CompressCtx

/-- `encode_compress_stream_result`, which is also the end of
`decompressDirectByteBufferStream0`. -/
def encodeResult (result : BitVec 64) (dstOffset srcOffset : BitVec 32) : BitVec 64 :=
  if zstdIsError result.toNat then (1#64 <<< 31) ||| BitVec.ofNat 64 (2 ^ 64 - result.toNat)
  else
    let encoded := (dstOffset.signExtend 64 <<< 32) ||| srcOffset.signExtend 64
    if result = 0#64 then encoded ||| (1#64 <<< 63) else encoded

/-- What Java takes from a packed result: the code for an exception, or the new positions and
the flag. -/
inductive Unpacked
  | failed (code : BitVec 64)
  | moved (dstPosition srcPosition : BitVec 32) (flushed : Bool)
  deriving DecidableEq

/-- The arithmetic of `updateStreamPositions`, which is also that of
`decompressDirectByteBufferStream`. -/
def decodeResult (result : BitVec 64) : Unpacked :=
  if result &&& 0x80000000#64 ≠ 0#64 then .failed (-(result &&& 0xFF#64))
  else
    .moved ((result >>> 32).setWidth 32 &&& 0x7FFFFFFF#32)
      ((result &&& 0x7FFFFFFF#64).setWidth 32) (result >>> 63 == 1#64)

/-- A position of a buffer: a `jint` that is not negative. -/
structure Position where
  value : BitVec 32
  msb_eq : value.msb = false

theorem Position.toNat_lt (position : Position) : position.value.toNat < 2 ^ 31 := by
  have h := BitVec.msb_eq_false_iff_two_mul_lt.mp position.msb_eq
  omega

/-- The sign extension of a position changes nothing. -/
theorem Position.toNat_signExtend (position : Position) :
    (position.value.signExtend 64).toNat = position.value.toNat := by
  rw [BitVec.signExtend_eq_setWidth_of_msb_false position.msb_eq,
    BitVec.toNat_setWidth_of_le (by decide)]

/-- The packed number, as in the model over natural numbers. -/
theorem toNat_encodeResult (result : BitVec 64) (dst src : Position) :
    (encodeResult result dst.value src.value).toNat =
      encodeCompressStreamResult result.toNat dst.value.toInt src.value.toInt := by
  have hdst := dst.toNat_lt
  have hshift : dst.value.toNat <<< 32 % 2 ^ 64 = dst.value.toNat <<< 32 := by
    rw [Nat.shiftLeft_eq]
    omega
  rw [BitVec.toInt_eq_toNat_of_msb dst.msb_eq, BitVec.toInt_eq_toNat_of_msb src.msb_eq]
  unfold encodeResult encodeCompressStreamResult
  simp only [Int.toNat_natCast]
  cases herror : zstdIsError result.toNat with
  | true =>
      have hlarge : 2 ^ 64 - 120 < result.toNat := of_decide_eq_true herror
      rw [if_pos rfl, if_pos rfl, BitVec.toNat_or, BitVec.toNat_ofNat,
        Nat.mod_eq_of_lt (by omega)]
      rfl
  | false =>
      simp only [Bool.false_eq_true, if_false]
      have hencoded : ((dst.value.signExtend 64 <<< 32) ||| src.value.signExtend 64).toNat =
          dst.value.toNat <<< 32 ||| src.value.toNat := by
        rw [BitVec.toNat_or, BitVec.toNat_shiftLeft, dst.toNat_signExtend, src.toNat_signExtend,
          hshift]
      by_cases hzero : result = 0#64
      · rw [if_pos hzero, if_pos (by rw [hzero]; rfl), BitVec.toNat_or, hencoded, Nat.or_comm]
        rfl
      · have hne : result.toNat ≠ 0 := fun h => hzero (BitVec.eq_of_toNat_eq h)
        rw [if_neg hzero, if_neg hne, hencoded]

/-- What Java takes from a number, by its value. -/
theorem decodeResult_eq (packed : BitVec 64) :
    decodeResult packed =
      if packed.toNat &&& 0x80000000 ≠ 0 then
        .failed (BitVec.ofInt 64 (-((packed.toNat &&& 0xFF : ℕ) : ℤ)))
      else
        .moved (BitVec.ofNat 32 ((packed.toNat >>> 32) &&& 0x7FFFFFFF))
          (BitVec.ofNat 32 (packed.toNat &&& 0x7FFFFFFF)) (packed.toNat >>> 63 == 1) := by
  have hlt := packed.isLt
  have herror : packed &&& 0x80000000#64 ≠ 0#64 ↔ packed.toNat &&& 0x80000000 ≠ 0 := by
    rw [ne_eq, ne_eq, ← BitVec.toNat_inj, BitVec.toNat_and]
    rfl
  have hcode : -(packed &&& 0xFF#64) = BitVec.ofInt 64 (-((packed.toNat &&& 0xFF : ℕ) : ℤ)) := by
    rw [BitVec.ofInt_neg, BitVec.ofInt_natCast]
    congr 1
    apply BitVec.eq_of_toNat_eq
    rw [BitVec.toNat_and, BitVec.toNat_ofNat]
    exact (Nat.mod_eq_of_lt (Nat.lt_of_le_of_lt Nat.and_le_left hlt)).symm
  have hdst : (packed >>> 32).setWidth 32 &&& 0x7FFFFFFF#32 =
      BitVec.ofNat 32 ((packed.toNat >>> 32) &&& 0x7FFFFFFF) := by
    have hhigh : packed.toNat >>> 32 < 2 ^ 32 := by
      rw [Nat.shiftRight_eq_div_pow]
      omega
    have hmasked : (packed.toNat >>> 32) &&& 0x7FFFFFFF < 2 ^ 32 :=
      Nat.lt_of_le_of_lt Nat.and_le_left hhigh
    apply BitVec.eq_of_toNat_eq
    rw [BitVec.toNat_and, BitVec.toNat_setWidth, BitVec.toNat_ushiftRight, Nat.mod_eq_of_lt hhigh,
      BitVec.toNat_ofNat ((packed.toNat >>> 32) &&& 0x7FFFFFFF), Nat.mod_eq_of_lt hmasked]
    rfl
  have hsrc : (packed &&& 0x7FFFFFFF#64).setWidth 32 =
      BitVec.ofNat 32 (packed.toNat &&& 0x7FFFFFFF) := by
    apply BitVec.eq_of_toNat_eq
    rw [BitVec.toNat_setWidth, BitVec.toNat_and, BitVec.toNat_ofNat]
    rfl
  have hflag : (packed >>> 63 == 1#64) = (packed.toNat >>> 63 == 1) := by
    rw [Bool.eq_iff_iff, beq_iff_eq, beq_iff_eq, ← BitVec.toNat_inj, BitVec.toNat_ushiftRight]
    rfl
  unfold decodeResult
  rw [hcode, hdst, hsrc, hflag]
  exact if_congr herror rfl rfl

/-- Taking apart what was packed: an error is told from the rest and keeps its code, negated;
without an error both positions and the flag come back. -/
theorem decodeResult_encodeResult (result : BitVec 64) (dst src : Position) :
    decodeResult (encodeResult result dst.value src.value) =
      if zstdIsError result.toNat then
        .failed (BitVec.ofInt 64 (-((2 ^ 64 - result.toNat : ℕ) : ℤ)))
      else .moved dst.value src.value (result == 0#64) := by
  rw [decodeResult_eq, toNat_encodeResult, BitVec.toInt_eq_toNat_of_msb dst.msb_eq,
    BitVec.toInt_eq_toNat_of_msb src.msb_eq]
  cases herror : zstdIsError result.toNat with
  | true =>
      have hlarge : 2 ^ 64 - 120 < result.toNat := of_decide_eq_true herror
      rw [encodeCompressStreamResult_error _ _ herror, if_pos ((and_error_bit _).mpr (by omega)),
        if_pos rfl, and_low_byte]
      congr 2
      omega
  | false =>
      obtain ⟨hnobit, hdone, hnewDst, hnewSrc⟩ :=
        packedPositions_parts result.toNat dst.toNat_lt src.toNat_lt
      have hzero : (result.toNat == 0) = (result == 0#64) := by
        rw [Bool.eq_iff_iff, beq_iff_eq, beq_iff_eq, ← BitVec.toNat_inj]
        rfl
      rw [encodeCompressStreamResult_positions herror dst.toNat_lt src.toNat_lt, if_neg hnobit,
        if_neg (by simp), hdone, hnewDst, hnewSrc, hzero, BitVec.ofNat_toNat, BitVec.ofNat_toNat,
        BitVec.setWidth_eq, BitVec.setWidth_eq]

/-- `ZSTD_decompressStream`, given the windows of the input and the output. -/
structure Decompressor (σ : Type) where
  decompressStream : σ → List Byte → List Byte → σ × Progress
  consumed_le : ∀ s input output, (decompressStream s input output).2.consumed ≤ input.length
  produced_le : ∀ s input output, (decompressStream s input output).2.produced ≤ output.length
  output_length : ∀ s input output,
    (decompressStream s input output).2.output.length = output.length
  ret_lt : ∀ s input output, (decompressStream s input output).2.ret < 2 ^ 64

section Native

variable {σ : Type} (Z : Decompressor σ) (isOpen : Bool) (context : σ) (buffers : Buffers)

/-- `decompress_direct_buffer_stream`. -/
def decompressDirectBufferStream : NativeRun σ :=
  let dstOffset : ℤ := buffers.dst.position
  let dstSize : ℤ := buffers.dst.limit
  let srcOffset : ℤ := buffers.src.position
  let srcSize : ℤ := buffers.src.limit
  let fail (code : ErrorCode) := refuse context buffers code.result dstOffset srcOffset
  if 0 > dstOffset then fail .dstSizeTooSmall
  else if 0 > srcOffset then fail .srcSizeWrong
  else if 0 > dstSize then fail .dstSizeTooSmall
  else if 0 > srcSize then fail .srcSizeWrong
  else if dstSize > directBufferCapacity buffers.dst then fail .dstSizeTooSmall
  else if srcSize > directBufferCapacity buffers.src then fail .srcSizeWrong
  else
    let (next, progress) := Z.decompressStream context (buffers.src.remaining buffers.memory)
      (buffers.dst.remaining buffers.memory)
    { result := progress.ret
      dstOffset := jint (dstOffset.toNat + progress.produced)
      srcOffset := jint (srcOffset.toNat + progress.consumed)
      context := next
      memory := Function.update buffers.memory buffers.dst.storage
        (overwrite (buffers.memory buffers.dst.storage)
          (buffers.dst.arrayOffset + buffers.dst.position) progress.output) }

/-- `decompressDirectByteBufferStream(dst, src)`. -/
def decompressDirectByteBufferStream : StreamRun σ :=
  if ¬ isOpen then
    streamThrew context buffers (.illegalState "Decompression context is closed")
  else updateStreamPositions buffers (decompressDirectBufferStream Z context buffers)

end Native

section Calls

variable {σ : Type} {buffers : Buffers}

/-- The positions that a native function stores did not go back, and did not pass the
limits. -/
structure InRange (buffers : Buffers) (native : NativeRun σ) : Prop where
  dst_ge : (buffers.dst.position : ℤ) ≤ native.dstOffset
  dst_le : native.dstOffset ≤ buffers.dst.limit
  src_ge : (buffers.src.position : ℤ) ≤ native.srcOffset
  src_le : native.srcOffset ≤ buffers.src.limit
  result_lt : native.result < 2 ^ 64

/-- A function that returns an error at once leaves the positions alone. -/
theorem inRange_refuse (context : σ) (buffers : Buffers) {result : ℕ} (hresult : result < 2 ^ 64) :
    InRange buffers (refuse context buffers result buffers.dst.position buffers.src.position) := by
  have hdst := buffers.dst.position_le
  have hsrc := buffers.src.position_le
  exact ⟨Int.le_refl _, by simp only [refuse]; omega, Int.le_refl _, by simp only [refuse]; omega,
    hresult⟩

theorem result_lt (code : ErrorCode) : code.result < 2 ^ 64 := by
  cases code <;> decide

/-- A function that runs zstd on the two windows. -/
theorem inRange_progress (buffers : Buffers) (context : σ) (memory : Memory) {progress : Progress}
    (hproduced : progress.produced ≤ buffers.dst.limit - buffers.dst.position)
    (hconsumed : progress.consumed ≤ buffers.src.limit - buffers.src.position)
    (hret : progress.ret < 2 ^ 64) :
    InRange buffers
      ⟨progress.ret, jint ((buffers.dst.position : ℤ).toNat + progress.produced),
        jint ((buffers.src.position : ℤ).toNat + progress.consumed), context, memory⟩ := by
  have hdst := buffers.dst.position_le
  have hsrc := buffers.src.position_le
  have hdstLimit := buffers.dst.limit_le
  have hsrcLimit := buffers.src.limit_le
  have hdstCapacity := buffers.dst.capacity_lt
  have hsrcCapacity := buffers.src.capacity_lt
  rw [Int.toNat_natCast, Int.toNat_natCast, jint_of_lt (by omega), jint_of_lt (by omega)]
  constructor <;> simp only <;> omega

theorem length_window_le (cells : List Byte) (lo hi : ℕ) :
    (window cells lo hi).length ≤ hi - lo := by
  simp only [window, List.length_drop, List.length_take]
  omega

/-- `compress_buffer_stream`, wherever the addresses come from. -/
theorem inRange_compressBufferStream (Z : Compressor σ) (context : σ) (buffers : Buffers)
    (endOp : Directive) (dstStorage dstBase srcStorage srcBase : ℕ) :
    InRange buffers (compressBufferStream Z context buffers endOp dstStorage dstBase
      buffers.dst.position buffers.dst.limit srcStorage srcBase buffers.src.position
      buffers.src.limit) := by
  unfold compressBufferStream
  simp only [Int.toNat_natCast]
  have hinput := length_window_le (buffers.memory srcStorage) (srcBase + buffers.src.position)
    (srcBase + buffers.src.limit)
  have houtput := length_window_le (buffers.memory dstStorage) (dstBase + buffers.dst.position)
    (dstBase + buffers.dst.limit)
  generalize window (buffers.memory srcStorage) (srcBase + buffers.src.position)
    (srcBase + buffers.src.limit) = input at hinput ⊢
  generalize window (buffers.memory dstStorage) (dstBase + buffers.dst.position)
    (dstBase + buffers.dst.limit) = output at houtput ⊢
  have hconsumed := Z.consumed_le context endOp input output
  have hproduced := Z.produced_le context endOp input output
  exact inRange_progress buffers _ _ (Nat.le_trans hproduced (by omega))
    (Nat.le_trans hconsumed (by omega)) (Z.ret_lt context endOp input output)

section Functions

variable (Z : Compressor σ) (context : σ) (buffers : Buffers) (endOp : Directive)

theorem zstdIsError_validate : zstdIsError (validateCompressStreamBounds buffers.dst.position
    buffers.dst.limit buffers.src.position buffers.src.limit) ≠ true := by
  rw [validate_positions buffers]
  simp

theorem inRange_compressDirectBufferStream :
    InRange buffers (compressDirectBufferStream Z context buffers endOp) := by
  unfold compressDirectBufferStream
  simp only
  rw [if_neg (zstdIsError_validate buffers)]
  split_ifs
  · exact inRange_refuse context buffers (result_lt _)
  · exact inRange_refuse context buffers (result_lt _)
  · exact inRange_compressBufferStream Z context buffers endOp _ _ _ _

theorem inRange_compressByteArrayToDirectBufferStream :
    InRange buffers
      (compressByteArrayToDirectBufferStream Z context buffers endOp buffers.src.arrayOffset) := by
  unfold compressByteArrayToDirectBufferStream
  simp only
  rw [if_neg (zstdIsError_validate buffers)]
  split_ifs
  · exact inRange_refuse context buffers (result_lt _)
  · exact inRange_compressBufferStream Z context buffers endOp _ _ _ _
  · exact inRange_refuse context buffers (result_lt _)

theorem inRange_compressDirectBufferToByteArrayStream :
    InRange buffers
      (compressDirectBufferToByteArrayStream Z context buffers endOp buffers.dst.arrayOffset) := by
  unfold compressDirectBufferToByteArrayStream
  simp only
  rw [if_neg (zstdIsError_validate buffers)]
  split_ifs
  · exact inRange_refuse context buffers (result_lt _)
  · exact inRange_compressBufferStream Z context buffers endOp _ _ _ _
  · exact inRange_refuse context buffers (result_lt _)

theorem inRange_compressByteArrayStream :
    InRange buffers
      (compressByteArrayStream Z context buffers endOp buffers.dst.arrayOffset
        buffers.src.arrayOffset) := by
  unfold compressByteArrayStream
  simp only
  rw [if_neg (zstdIsError_validate buffers)]
  split_ifs
  · exact inRange_compressBufferStream Z context buffers endOp _ _ _ _
  · exact inRange_refuse context buffers (result_lt _)
  · exact inRange_refuse context buffers (result_lt _)

end Functions

theorem inRange_decompressDirectBufferStream (Z : Decompressor σ) (context : σ)
    (buffers : Buffers) : InRange buffers (decompressDirectBufferStream Z context buffers) := by
  unfold decompressDirectBufferStream
  simp only
  split_ifs
  · exact inRange_refuse context buffers (result_lt _)
  · exact inRange_refuse context buffers (result_lt _)
  · exact inRange_refuse context buffers (result_lt _)
  · exact inRange_refuse context buffers (result_lt _)
  · exact inRange_refuse context buffers (result_lt _)
  · exact inRange_refuse context buffers (result_lt _)
  · have hconsumed := Z.consumed_le context (buffers.src.remaining buffers.memory)
      (buffers.dst.remaining buffers.memory)
    have hproduced := Z.produced_le context (buffers.src.remaining buffers.memory)
      (buffers.dst.remaining buffers.memory)
    rw [length_remaining buffers.src_fits] at hconsumed
    rw [length_remaining buffers.dst_fits] at hproduced
    exact inRange_progress buffers _ _ hproduced hconsumed (Z.ret_lt _ _ _)

/-- The `jlong` that a native function returns. -/
def packedResult (native : NativeRun σ) : BitVec 64 :=
  encodeResult (BitVec.ofNat 64 native.result) (BitVec.ofInt 32 native.dstOffset)
    (BitVec.ofInt 32 native.srcOffset)

/-- What Java does with the pieces: it throws and leaves the positions, or sets both. -/
def applyUnpacked (buffers : Buffers) (native : NativeRun σ) : Unpacked → StreamRun σ
  | .failed code =>
    ⟨.threw (.zstdException code.toInt (getErrorName code.toInt)), native.context, native.memory,
      buffers.dst.position, buffers.src.position⟩
  | .moved dstPosition srcPosition flushed =>
    ⟨.returned flushed, native.context, native.memory, dstPosition.toNat, srcPosition.toNat⟩

/-- A stored offset in range is a position. -/
def positionOf {offset : ℤ} (hlow : 0 ≤ offset) (hhigh : offset < 2 ^ 31) : Position where
  value := BitVec.ofInt 32 offset
  msb_eq := by
    rw [BitVec.msb_eq_false_iff_two_mul_lt, BitVec.toNat_ofInt]
    omega

/-- The stored offsets of a call in range fit into the packed result. -/
theorem InRange.offsets {native : NativeRun σ} (hrange : InRange buffers native) :
    (0 ≤ native.dstOffset ∧ native.dstOffset < 2 ^ 31) ∧
      0 ≤ native.srcOffset ∧ native.srcOffset < 2 ^ 31 := by
  obtain ⟨hdstLow, hdstHigh, hsrcLow, hsrcHigh, -⟩ := hrange
  have hdstLimit := buffers.dst.limit_le
  have hsrcLimit := buffers.src.limit_le
  have hdstCapacity := buffers.dst.capacity_lt
  have hsrcCapacity := buffers.src.capacity_lt
  omega

/-- What Java makes of a call in range. -/
theorem InRange.updateStreamPositions_eq {native : NativeRun σ} (hrange : InRange buffers native) :
    updateStreamPositions buffers native =
      if zstdIsError native.result then
        ⟨.threw (.zstdException (native.result - 2 ^ 64) (getErrorName (native.result - 2 ^ 64))),
          native.context, native.memory, buffers.dst.position, buffers.src.position⟩
      else
        ⟨.returned (native.result == 0), native.context, native.memory, native.dstOffset.toNat,
          native.srcOffset.toNat⟩ := by
  obtain ⟨⟨hdst, hdstLt⟩, hsrc, hsrcLt⟩ := hrange.offsets
  have hresult := hrange.result_lt
  obtain ⟨result, dstOffset, srcOffset, context, memory⟩ := native
  lift dstOffset to ℕ using hdst
  lift srcOffset to ℕ using hsrc
  exact CompressCtx.updateStreamPositions_eq buffers context memory hresult
    (Int.ofNat_lt.mp hdstLt) (Int.ofNat_lt.mp hsrcLt)

/-- The model over natural numbers does what the bit operations do. -/
theorem updateStreamPositions_eq_applyUnpacked {native : NativeRun σ}
    (hrange : InRange buffers native) :
    updateStreamPositions buffers native =
      applyUnpacked buffers native (decodeResult (packedResult native)) := by
  obtain ⟨⟨hdst, hdstLt⟩, hsrc, hsrcLt⟩ := hrange.offsets
  have hresult := hrange.result_lt
  have hunpacked := decodeResult_encodeResult (BitVec.ofNat 64 native.result)
    (positionOf hdst hdstLt) (positionOf hsrc hsrcLt)
  have htoNat : (BitVec.ofNat 64 native.result).toNat = native.result := by
    rw [BitVec.toNat_ofNat, Nat.mod_eq_of_lt hresult]
  rw [htoNat] at hunpacked
  have hpacked : packedResult native =
      encodeResult (BitVec.ofNat 64 native.result) (positionOf hdst hdstLt).value
        (positionOf hsrc hsrcLt).value := rfl
  rw [hrange.updateStreamPositions_eq, hpacked, hunpacked]
  cases herror : zstdIsError native.result with
  | true =>
      have hlarge : 2 ^ 64 - 120 < native.result := of_decide_eq_true herror
      have hcode : (BitVec.ofInt 64 (-((2 ^ 64 - native.result : ℕ) : ℤ))).toInt =
          native.result - 2 ^ 64 := by
        rw [BitVec.toInt_ofInt_eq_self (by decide) (by omega) (by omega)]
        omega
      simp only [if_true, applyUnpacked, hcode]
  | false =>
      have hzero : (native.result == 0) = (BitVec.ofNat 64 native.result == 0#64) := by
        rw [Bool.eq_iff_iff, beq_iff_eq, beq_iff_eq, ← BitVec.toNat_inj, htoNat]
        rfl
      simp only [Bool.false_eq_true, if_false, applyUnpacked, hzero, positionOf, BitVec.toNat_ofInt]
      congr 1 <;> omega

/-- The positions of a native call are in range, and Java takes from the packed result what
the native function stored. -/
structure Unpacks (buffers : Buffers) (native : NativeRun σ) : Prop where
  inRange : InRange buffers native
  positions_eq : updateStreamPositions buffers native =
    applyUnpacked buffers native (decodeResult (packedResult native))

theorem InRange.unpacks {native : NativeRun σ} (hrange : InRange buffers native) :
    Unpacks buffers native :=
  ⟨hrange, updateStreamPositions_eq_applyUnpacked hrange⟩

end Calls

/-- Java takes apart what C packed, for every result and all positions; and the positions that
the native functions of both contexts pack are in range on every call. -/
theorem packed_round_trip (σ : Type) :
    (∀ (result : BitVec 64) (dst src : Position),
      decodeResult (encodeResult result dst.value src.value) =
        if zstdIsError result.toNat then
          .failed (BitVec.ofInt 64 (-((2 ^ 64 - result.toNat : ℕ) : ℤ)))
        else .moved dst.value src.value (result == 0#64)) ∧
    (∀ (Z : Compressor σ) (context : σ) (buffers : Buffers) (endOp : Directive),
      Unpacks buffers (compressDirectBufferStream Z context buffers endOp) ∧
      Unpacks buffers (compressByteArrayToDirectBufferStream Z context buffers endOp
        buffers.src.arrayOffset) ∧
      Unpacks buffers (compressDirectBufferToByteArrayStream Z context buffers endOp
        buffers.dst.arrayOffset) ∧
      Unpacks buffers (compressByteArrayStream Z context buffers endOp buffers.dst.arrayOffset
        buffers.src.arrayOffset)) ∧
    ∀ (Z : Decompressor σ) (context : σ) (buffers : Buffers),
      Unpacks buffers (decompressDirectBufferStream Z context buffers) := by
  refine ⟨decodeResult_encodeResult, fun Z context buffers endOp => ⟨?_, ?_, ?_, ?_⟩,
    fun Z context buffers => ?_⟩
  · exact (inRange_compressDirectBufferStream Z context buffers endOp).unpacks
  · exact (inRange_compressByteArrayToDirectBufferStream Z context buffers endOp).unpacks
  · exact (inRange_compressDirectBufferToByteArrayStream Z context buffers endOp).unpacks
  · exact (inRange_compressByteArrayStream Z context buffers endOp).unpacks
  · exact (inRange_decompressDirectBufferStream Z context buffers).unpacks

end ZstdJni.Context
