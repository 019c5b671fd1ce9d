/-
# The four storage combinations are one operation

Whatever the storage of the buffers, the call reads the remaining bytes of the source,
writes to the remaining window of the destination, and moves the positions by what was
read and written.  `oneOperation` says this without any addresses; the four native
functions and the packing of their results come down to it.
-/

import Mathlib.Data.Nat.Bitwise
import ZstdJni.CompressCtx.ByteBufferStream

namespace ZstdJni.CompressCtx

open ZstdJni.Foundation ZstdJni.Native

variable {σ : Type}

/-- The operation on the remaining bytes of the buffers. -/
def oneOperation (Z : Compressor σ) (context : σ) (buffers : Buffers) (endOp : Directive) :
    StreamRun σ :=
  let (next, progress) := Z.compressStream2 context endOp (buffers.src.remaining buffers.memory)
    (buffers.dst.remaining buffers.memory)
  let memory := Function.update buffers.memory buffers.dst.storage
    (overwrite (buffers.memory buffers.dst.storage)
      (buffers.dst.arrayOffset + buffers.dst.position) progress.output)
  if zstdIsError progress.ret then
    let code : ℤ := progress.ret - 2 ^ 64
    ⟨.threw (.zstdException code (getErrorName code)), next, memory, buffers.dst.position,
      buffers.src.position⟩
  else
    ⟨.returned (progress.ret == 0), next, memory, buffers.dst.position + progress.produced,
      buffers.src.position + progress.consumed⟩

/-- The two fields of a packed result. -/
theorem or_shiftLeft {high low : ℕ} (hlow : low < 2 ^ 31) :
    (high <<< 32) ||| low = high * 2 ^ 32 + low := by
  rw [← Nat.shiftLeft_add_eq_or_of_lt (by omega), Nat.shiftLeft_eq]

theorem or_one_shiftLeft (bits : ℕ) {low : ℕ} (hlow : low < 2 ^ bits) :
    (1 <<< bits) ||| low = 2 ^ bits + low := by
  rw [← Nat.shiftLeft_add_eq_or_of_lt hlow, Nat.shiftLeft_eq, Nat.one_mul]

/-- The test for the error bit. -/
theorem and_error_bit (result : ℕ) : result &&& 0x80000000 ≠ 0 ↔ result / 2 ^ 31 % 2 = 1 := by
  have hbit : (0x80000000 : ℕ) = 2 ^ 31 := rfl
  rw [hbit, Nat.and_two_pow, Nat.testBit_eq_decide_div_mod_eq]
  simp

theorem and_low_bits (result : ℕ) : result &&& 0x7FFFFFFF = result % 2 ^ 31 :=
  Nat.and_two_pow_sub_one_eq_mod result 31

theorem and_low_byte (result : ℕ) : result &&& 0xFF = result % 2 ^ 8 :=
  Nat.and_two_pow_sub_one_eq_mod result 8

/-- The number for an error. -/
theorem encodeCompressStreamResult_error {result : ℕ} (dstOffset srcOffset : ℤ)
    (herror : zstdIsError result = true) :
    encodeCompressStreamResult result dstOffset srcOffset = 2 ^ 31 + (2 ^ 64 - result) := by
  have hlarge : 2 ^ 64 - 120 < result := of_decide_eq_true herror
  rw [encodeCompressStreamResult, if_pos herror, or_one_shiftLeft 31 (by omega)]

/-- The number for two positions, with the flag in its highest bit. -/
def packedPositions (result dstOffset srcOffset : ℕ) : ℕ :=
  (if result = 0 then 2 ^ 63 else 0) + (dstOffset * 2 ^ 32 + srcOffset)

theorem encodeCompressStreamResult_positions {result dstOffset srcOffset : ℕ}
    (herror : zstdIsError result = false) (hdst : dstOffset < 2 ^ 31) (hsrc : srcOffset < 2 ^ 31) :
    encodeCompressStreamResult result dstOffset srcOffset =
      packedPositions result dstOffset srcOffset := by
  simp only [encodeCompressStreamResult, herror, Bool.false_eq_true, if_false, Int.toNat_natCast,
    or_shiftLeft hsrc, packedPositions]
  split_ifs
  · rw [or_one_shiftLeft 63 (by omega)]
  · rw [Nat.zero_add]

/-- The parts of the number for two positions. -/
theorem packedPositions_parts (result : ℕ) {dstOffset srcOffset : ℕ} (hdst : dstOffset < 2 ^ 31)
    (hsrc : srcOffset < 2 ^ 31) :
    ¬ packedPositions result dstOffset srcOffset &&& 0x80000000 ≠ 0 ∧
    (packedPositions result dstOffset srcOffset >>> 63 == 1) = (result == 0) ∧
    (packedPositions result dstOffset srcOffset >>> 32) &&& 0x7FFFFFFF = dstOffset ∧
    packedPositions result dstOffset srcOffset &&& 0x7FFFFFFF = srcOffset := by
  unfold packedPositions
  refine ⟨?_, ?_, ?_, ?_⟩
  · rw [and_error_bit]
    split_ifs <;> omega
  · rw [Bool.eq_iff_iff, beq_iff_eq, beq_iff_eq, Nat.shiftRight_eq_div_pow]
    split_ifs <;> omega
  · rw [and_low_bits, Nat.shiftRight_eq_div_pow]
    split_ifs <;> omega
  · rw [and_low_bits]
    split_ifs <;> omega

/-- Unpacking gives back what was packed. -/
theorem updateStreamPositions_eq (buffers : Buffers) (context : σ) (memory : Memory)
    {result dstOffset srcOffset : ℕ} (hresult : result < 2 ^ 64) (hdst : dstOffset < 2 ^ 31)
    (hsrc : srcOffset < 2 ^ 31) :
    updateStreamPositions buffers ⟨result, dstOffset, srcOffset, context, memory⟩ =
      if zstdIsError result then
        ⟨.threw (.zstdException (result - 2 ^ 64) (getErrorName (result - 2 ^ 64))), context,
          memory, buffers.dst.position, buffers.src.position⟩
      else ⟨.returned (result == 0), context, memory, dstOffset, srcOffset⟩ := by
  cases herror : zstdIsError result with
  | true =>
      have hlarge : 2 ^ 64 - 120 < result := of_decide_eq_true herror
      have hbyte : -(((2 ^ 31 + (2 ^ 64 - result)) % 2 ^ 8 : ℕ) : ℤ) = (result : ℤ) - 2 ^ 64 := by
        omega
      simp only [updateStreamPositions, encodeCompressStreamResult_error _ _ herror, and_low_byte,
        hbyte]
      rw [if_pos ((and_error_bit _).mpr (by omega)), if_pos trivial]
  | false =>
      obtain ⟨hnobit, hdone, hnewDst, hnewSrc⟩ := packedPositions_parts result hdst hsrc
      simp only [updateStreamPositions, encodeCompressStreamResult_positions herror hdst hsrc,
        hdone, hnewDst, hnewSrc]
      rw [if_neg hnobit, if_neg (by simp)]

section Native

variable (Z : Compressor σ) (context : σ) (buffers : Buffers) (endOp : Directive)

/-- The bounds that Java passes are in order. -/
theorem validate_positions : zstdIsError (validateCompressStreamBounds buffers.dst.position
    buffers.dst.limit buffers.src.position buffers.src.limit) = false := by
  have hdst := buffers.dst.position_le
  have hsrc := buffers.src.position_le
  rw [validateCompressStreamBounds, if_neg (by omega), if_neg (by omega)]
  decide

theorem limit_le_directBufferCapacity {buffer : ByteBuffer} (hkind : buffer.kind = .direct) :
    ¬ (buffer.limit : ℤ) > directBufferCapacity buffer := by
  have hlimit := buffer.limit_le
  rw [directBufferCapacity, if_pos hkind]
  omega

theorem isValid_of_fits {buffer : ByteBuffer} {memory : Memory}
    (hfits : buffer.arrayOffset + buffer.capacity ≤ (memory buffer.storage).length) :
    isValidArrayStreamBuffer (memory buffer.storage).length buffer.arrayOffset buffer.limit =
      true := by
  have hlimit := buffer.limit_le
  rw [isValidArrayStreamBuffer, if_neg (by omega), decide_eq_true_iff]
  omega

/-- The compression that all four native functions come down to. -/
def compressRemaining : NativeRun σ :=
  compressBufferStream Z context buffers endOp buffers.dst.storage buffers.dst.arrayOffset
    buffers.dst.position buffers.dst.limit buffers.src.storage buffers.src.arrayOffset
    buffers.src.position buffers.src.limit

theorem compressDirectBufferStream_eq (hdst : buffers.dst.kind = .direct)
    (hsrc : buffers.src.kind = .direct) :
    compressDirectBufferStream Z context buffers endOp =
      compressRemaining Z context buffers endOp := by
  simp only [compressDirectBufferStream, validate_positions, Bool.false_eq_true, if_false,
    limit_le_directBufferCapacity hdst, limit_le_directBufferCapacity hsrc, compressRemaining]

theorem compressByteArrayToDirectBufferStream_eq (hdst : buffers.dst.kind = .direct) :
    compressByteArrayToDirectBufferStream Z context buffers endOp buffers.src.arrayOffset =
      compressRemaining Z context buffers endOp := by
  simp only [compressByteArrayToDirectBufferStream, validate_positions, Bool.false_eq_true,
    if_false, limit_le_directBufferCapacity hdst, isValid_of_fits buffers.src_fits,
    not_true_eq_false, compressRemaining, Int.toNat_natCast]

theorem compressDirectBufferToByteArrayStream_eq (hsrc : buffers.src.kind = .direct) :
    compressDirectBufferToByteArrayStream Z context buffers endOp buffers.dst.arrayOffset =
      compressRemaining Z context buffers endOp := by
  simp only [compressDirectBufferToByteArrayStream, validate_positions, Bool.false_eq_true,
    if_false, limit_le_directBufferCapacity hsrc, isValid_of_fits buffers.dst_fits,
    not_true_eq_false, compressRemaining, Int.toNat_natCast]

theorem compressByteArrayStream_eq :
    compressByteArrayStream Z context buffers endOp buffers.dst.arrayOffset
      buffers.src.arrayOffset = compressRemaining Z context buffers endOp := by
  simp only [compressByteArrayStream, validate_positions, Bool.false_eq_true, if_false,
    isValid_of_fits buffers.dst_fits, isValid_of_fits buffers.src_fits, not_true_eq_false,
    compressRemaining, Int.toNat_natCast]

theorem length_remaining {buffer : ByteBuffer} {memory : Memory}
    (hfits : buffer.arrayOffset + buffer.capacity ≤ (memory buffer.storage).length) :
    (buffer.remaining memory).length = buffer.limit - buffer.position := by
  have hlimit := buffer.limit_le
  rw [ByteBuffer.remaining, length_window _ (by omega)]
  omega

/-- The compression of the remaining bytes, unpacked in Java, is the one operation. -/
theorem updateStreamPositions_compressRemaining :
    updateStreamPositions buffers (compressRemaining Z context buffers endOp) =
      oneOperation Z context buffers endOp := by
  have hconsumed := Z.consumed_le context endOp (buffers.src.remaining buffers.memory)
    (buffers.dst.remaining buffers.memory)
  have hproduced := Z.produced_le context endOp (buffers.src.remaining buffers.memory)
    (buffers.dst.remaining buffers.memory)
  have hret := Z.ret_lt context endOp (buffers.src.remaining buffers.memory)
    (buffers.dst.remaining buffers.memory)
  rw [length_remaining buffers.src_fits] at hconsumed
  rw [length_remaining buffers.dst_fits] at hproduced
  have hdst := buffers.dst.position_le
  have hsrc := buffers.src.position_le
  have hdstLimit := buffers.dst.limit_le
  have hsrcLimit := buffers.src.limit_le
  have hdstLt := buffers.dst.capacity_lt
  have hsrcLt := buffers.src.capacity_lt
  rcases hcall : Z.compressStream2 context endOp (buffers.src.remaining buffers.memory)
    (buffers.dst.remaining buffers.memory) with ⟨next, progress⟩
  simp only [hcall] at hconsumed hproduced hret
  have hcall' := hcall
  simp only [ByteBuffer.remaining] at hcall'
  simp only [compressRemaining, compressBufferStream, oneOperation, Int.toNat_natCast,
    hcall, hcall']
  rw [jint_of_lt (by omega), jint_of_lt (by omega),
    updateStreamPositions_eq buffers next _ hret (by omega) (by omega)]

/-- Every combination of supported storage is the one operation. -/
theorem compressByteBufferStream_eq (hwritable : buffers.dst.readOnly = false)
    (hdst : buffers.dst.kind ≠ .other) (hsrc : buffers.src.kind ≠ .other) :
    compressByteBufferStream Z true context buffers endOp =
      oneOperation Z context buffers endOp := by
  simp only [compressByteBufferStream, not_true_eq_false, if_false, hwritable, Bool.false_eq_true,
    hdst, hsrc]
  rw [← updateStreamPositions_compressRemaining]
  split_ifs with hdirect hdirect' hdirect'
  · rw [compressDirectBufferStream_eq _ _ _ _ hdirect hdirect']
  · rw [compressByteArrayToDirectBufferStream_eq _ _ _ _ hdirect]
  · rw [compressDirectBufferToByteArrayStream_eq _ _ _ _ hdirect']
  · rw [compressByteArrayStream_eq]

/-- So is the call for direct buffers. -/
theorem compressDirectByteBufferStream_eq (hdst : buffers.dst.kind = .direct)
    (hsrc : buffers.src.kind = .direct) :
    compressDirectByteBufferStream Z true context buffers endOp =
      oneOperation Z context buffers endOp := by
  simp only [compressDirectByteBufferStream, not_true_eq_false, if_false,
    compressDirectBufferStream_eq Z context buffers endOp hdst hsrc,
    updateStreamPositions_compressRemaining]

end Native

/-- The logical contents of a buffer, up to its limit. -/
def ByteBuffer.contents (buffer : ByteBuffer) (memory : Memory) : List Byte :=
  window (memory buffer.storage) buffer.arrayOffset (buffer.arrayOffset + buffer.limit)

/-- The buffers of a call that is supported: the destination is writable, and the storage
of both can be reached. -/
structure Buffers.Supported (buffers : Buffers) : Prop where
  writable : buffers.dst.readOnly = false
  dst_kind : buffers.dst.kind ≠ .other
  src_kind : buffers.src.kind ≠ .other

/-- Two calls with the same logical contents, positions and limits. -/
structure Buffers.SameViews (first second : Buffers) : Prop where
  dst_contents : first.dst.contents first.memory = second.dst.contents second.memory
  src_contents : first.src.contents first.memory = second.src.contents second.memory
  dst_position : first.dst.position = second.dst.position
  src_position : first.src.position = second.src.position
  dst_limit : first.dst.limit = second.dst.limit
  src_limit : first.src.limit = second.src.limit

/-- Two calls end alike: with the same outcome, context, positions and contents of the
destination. -/
structure EndAlike (first second : Buffers) (run run' : StreamRun σ) : Prop where
  outcome : run.outcome = run'.outcome
  context : run.context = run'.context
  dstPosition : run.dstPosition = run'.dstPosition
  srcPosition : run.srcPosition = run'.srcPosition
  contents : first.dst.contents run.memory = second.dst.contents run'.memory

/-- A call has only changed the window of the destination, and has moved the positions
inside of the limits. -/
structure Confined (buffers : Buffers) (run : StreamRun σ) : Prop where
  elsewhere : ∀ storage, storage ≠ buffers.dst.storage →
    run.memory storage = buffers.memory storage
  in_front : (run.memory buffers.dst.storage).take
      (buffers.dst.arrayOffset + buffers.dst.position) =
    (buffers.memory buffers.dst.storage).take (buffers.dst.arrayOffset + buffers.dst.position)
  behind : (run.memory buffers.dst.storage).drop (buffers.dst.arrayOffset + buffers.dst.limit) =
    (buffers.memory buffers.dst.storage).drop (buffers.dst.arrayOffset + buffers.dst.limit)
  dst_moves : buffers.dst.position ≤ run.dstPosition ∧ run.dstPosition ≤ buffers.dst.limit
  src_moves : buffers.src.position ≤ run.srcPosition ∧ run.srcPosition ≤ buffers.src.limit

theorem remaining_eq_drop (buffer : ByteBuffer) (memory : Memory) :
    buffer.remaining memory = (buffer.contents memory).drop buffer.position :=
  window_add _ _ _ _

/-- The remaining bytes of the destination are overwritten. -/
theorem contents_overwrite {buffer : ByteBuffer} {memory : Memory} {output : List Byte}
    (hfits : buffer.arrayOffset + buffer.capacity ≤ (memory buffer.storage).length)
    (hlength : output.length = buffer.limit - buffer.position) :
    buffer.contents (Function.update memory buffer.storage
        (overwrite (memory buffer.storage) (buffer.arrayOffset + buffer.position) output)) =
      (buffer.contents memory).take buffer.position ++ output := by
  have hposition := buffer.position_le
  have hlimit := buffer.limit_le
  have hend : buffer.arrayOffset + buffer.limit =
      buffer.arrayOffset + buffer.position + output.length := by omega
  rw [ByteBuffer.contents, Function.update_self, hend,
    window_overwrite _ _ (Nat.le_add_right _ _) (by omega), ByteBuffer.contents, window, window,
    List.take_drop, List.take_take, Nat.min_eq_left (by omega)]

section Promises

variable (Z : Compressor σ) (context : σ) (endOp : Directive)

theorem oneOperation_endAlike {first second : Buffers} (hsame : first.SameViews second) :
    EndAlike first second (oneOperation Z context first endOp)
      (oneOperation Z context second endOp) := by
  have hdst : first.dst.remaining first.memory = second.dst.remaining second.memory := by
    rw [remaining_eq_drop, remaining_eq_drop, hsame.dst_contents, hsame.dst_position]
  have hsrc : first.src.remaining first.memory = second.src.remaining second.memory := by
    rw [remaining_eq_drop, remaining_eq_drop, hsame.src_contents, hsame.src_position]
  have hlength := Z.output_length context endOp (second.src.remaining second.memory)
    (second.dst.remaining second.memory)
  rw [length_remaining second.dst_fits] at hlength
  rcases hcall : Z.compressStream2 context endOp (second.src.remaining second.memory)
    (second.dst.remaining second.memory) with ⟨next, progress⟩
  simp only [hcall] at hlength
  have hcontents : first.dst.contents (Function.update first.memory first.dst.storage
        (overwrite (first.memory first.dst.storage)
          (first.dst.arrayOffset + first.dst.position) progress.output)) =
      second.dst.contents (Function.update second.memory second.dst.storage
        (overwrite (second.memory second.dst.storage)
          (second.dst.arrayOffset + second.dst.position) progress.output)) := by
    rw [contents_overwrite second.dst_fits hlength, contents_overwrite first.dst_fits
      (by rw [hlength, hsame.dst_limit, hsame.dst_position]), hsame.dst_contents,
      hsame.dst_position]
  simp only [oneOperation, hdst, hsrc, hcall]
  split_ifs
  · exact ⟨rfl, rfl, hsame.dst_position, hsame.src_position, hcontents⟩
  · exact ⟨rfl, rfl, by simp only [hsame.dst_position], by simp only [hsame.src_position],
      hcontents⟩

theorem oneOperation_confined (buffers : Buffers) :
    Confined buffers (oneOperation Z context buffers endOp) := by
  have hconsumed := Z.consumed_le context endOp (buffers.src.remaining buffers.memory)
    (buffers.dst.remaining buffers.memory)
  have hproduced := Z.produced_le context endOp (buffers.src.remaining buffers.memory)
    (buffers.dst.remaining buffers.memory)
  have hlength := Z.output_length context endOp (buffers.src.remaining buffers.memory)
    (buffers.dst.remaining buffers.memory)
  rw [length_remaining buffers.src_fits] at hconsumed
  rw [length_remaining buffers.dst_fits] at hproduced hlength
  have hfits := buffers.dst_fits
  have hdst := buffers.dst.position_le
  have hsrc := buffers.src.position_le
  have hlimit := buffers.dst.limit_le
  rcases hcall : Z.compressStream2 context endOp (buffers.src.remaining buffers.memory)
    (buffers.dst.remaining buffers.memory) with ⟨next, progress⟩
  simp only [hcall] at hconsumed hproduced hlength
  have hfront : ((overwrite (buffers.memory buffers.dst.storage)
      (buffers.dst.arrayOffset + buffers.dst.position) progress.output).take
        (buffers.dst.arrayOffset + buffers.dst.position)) =
      (buffers.memory buffers.dst.storage).take
        (buffers.dst.arrayOffset + buffers.dst.position) :=
    take_overwrite (Nat.le_refl _) (by omega)
  have hbehind : ((overwrite (buffers.memory buffers.dst.storage)
      (buffers.dst.arrayOffset + buffers.dst.position) progress.output).drop
        (buffers.dst.arrayOffset + buffers.dst.limit)) =
      (buffers.memory buffers.dst.storage).drop (buffers.dst.arrayOffset + buffers.dst.limit) :=
    drop_overwrite (by omega) (by omega)
  simp only [oneOperation, hcall]
  split_ifs
  all_goals
    refine ⟨fun storage hne => Function.update_of_ne hne _ _, ?_, ?_, ?_, ?_⟩
    · simpa only [Function.update_self] using hfront
    · simpa only [Function.update_self] using hbehind
    · constructor <;> simp only <;> omega
    · constructor <;> simp only <;> omega

/-- Unpacking an error leaves the positions where they are. -/
theorem positions_of_threw {buffers : Buffers} {native : NativeRun σ} {e : JavaException}
    (hthrew : (updateStreamPositions buffers native).outcome = .threw e) :
    (updateStreamPositions buffers native).dstPosition = buffers.dst.position ∧
      (updateStreamPositions buffers native).srcPosition = buffers.src.position := by
  simp only [updateStreamPositions] at hthrew ⊢
  split_ifs at hthrew ⊢
  exact ⟨rfl, rfl⟩

end Promises

/-- The streaming compression between byte buffers does not depend on their storage. -/
structure StorageIndependent (Z : Compressor σ) : Prop where
  /-- Every supported combination is the one operation. -/
  combinations : ∀ context buffers endOp, buffers.Supported →
    compressByteBufferStream Z true context buffers endOp = oneOperation Z context buffers endOp
  direct : ∀ context buffers endOp, buffers.dst.kind = .direct → buffers.src.kind = .direct →
    compressDirectByteBufferStream Z true context buffers endOp =
      oneOperation Z context buffers endOp
  /-- It depends on the logical contents, the positions and the limits only. -/
  alike : ∀ context endOp first second, Buffers.SameViews first second →
    EndAlike first second (oneOperation Z context first endOp) (oneOperation Z context second endOp)
  confined : ∀ context buffers endOp, Confined buffers (oneOperation Z context buffers endOp)
  /-- An exception of any kind leaves the positions where they are. -/
  exceptions : ∀ isOpen context buffers endOp e,
    (compressByteBufferStream Z isOpen context buffers endOp).outcome = .threw e →
    (compressByteBufferStream Z isOpen context buffers endOp).dstPosition = buffers.dst.position ∧
      (compressByteBufferStream Z isOpen context buffers endOp).srcPosition = buffers.src.position
  exceptions_direct : ∀ isOpen context buffers endOp e,
    (compressDirectByteBufferStream Z isOpen context buffers endOp).outcome = .threw e →
    (compressDirectByteBufferStream Z isOpen context buffers endOp).dstPosition =
        buffers.dst.position ∧
      (compressDirectByteBufferStream Z isOpen context buffers endOp).srcPosition =
        buffers.src.position

theorem storageIndependent (Z : Compressor σ) : StorageIndependent Z where
  combinations context buffers endOp hsupported :=
    compressByteBufferStream_eq Z context buffers endOp hsupported.writable hsupported.dst_kind
      hsupported.src_kind
  direct context buffers endOp hdst hsrc :=
    compressDirectByteBufferStream_eq Z context buffers endOp hdst hsrc
  alike context endOp _ _ hsame := oneOperation_endAlike Z context endOp hsame
  confined context buffers endOp := oneOperation_confined Z context endOp buffers
  exceptions isOpen context buffers endOp e hthrew := by
    unfold compressByteBufferStream at hthrew ⊢
    split_ifs at hthrew ⊢
    all_goals first
      | exact ⟨rfl, rfl⟩
      | exact positions_of_threw hthrew
  exceptions_direct isOpen context buffers endOp e hthrew := by
    unfold compressDirectByteBufferStream at hthrew ⊢
    split_ifs at hthrew ⊢
    · exact positions_of_threw hthrew
    · exact ⟨rfl, rfl⟩

end ZstdJni.CompressCtx
