/-
# Read-only destinations of all operations

When each operation that writes into a buffer of the caller protects a read-only destination.
-/

import ZstdJni.Context.ReadOnlyLoops

namespace ZstdJni.Context

open ZstdJni.Foundation ZstdJni.Native ZstdJni.CompressCtx
open ZstdJni.BufferDecompress (Buffer Refill)
open ZstdJni.BufferCompress (FlushBuffer Ended Compressed)

variable {σ : Type}

/-- When each operation that writes into a buffer of the caller protects a read-only
destination.  Only `compressByteBufferStream` always does. -/
theorem read_only_protected_iff {κ : Type} (isOpen : Bool) (context : σ) :
    (∀ (Z : Compressor σ) (buffers : ReadOnlyBuffers) (endOp : Directive),
      Protected buffers.dst buffers.memory
        (compressByteBufferStream Z isOpen context buffers.toBuffers endOp).outcome
        (compressByteBufferStream Z isOpen context buffers.toBuffers endOp).memory
        (compressByteBufferStream Z isOpen context buffers.toBuffers endOp).dstPosition) ∧
    (∀ (Z : Compressor σ) (buffers : ReadOnlyBuffers) (endOp : Directive),
      Protected buffers.dst buffers.memory
        (compressDirectByteBufferStream Z isOpen context buffers.toBuffers endOp).outcome
        (compressDirectByteBufferStream Z isOpen context buffers.toBuffers endOp).memory
        (compressDirectByteBufferStream Z isOpen context buffers.toBuffers endOp).dstPosition ↔
      isOpen = false ∨ buffers.dst.kind ≠ .direct ∨ buffers.src.kind ≠ .direct ∨
        SparedBy buffers.toBuffers (Z.compressStream2 context endOp
          (buffers.src.remaining buffers.memory) (buffers.dst.remaining buffers.memory)).2) ∧
    (∀ (Z : Decompressor σ) (buffers : ReadOnlyBuffers),
      Protected buffers.dst buffers.memory
        (decompressDirectByteBufferStream Z isOpen context buffers.toBuffers).outcome
        (decompressDirectByteBufferStream Z isOpen context buffers.toBuffers).memory
        (decompressDirectByteBufferStream Z isOpen context buffers.toBuffers).dstPosition ↔
      isOpen = false ∨ buffers.dst.kind ≠ .direct ∨ buffers.src.kind ≠ .direct ∨
        SparedBy buffers.toBuffers (Z.decompressStream context
          (buffers.src.remaining buffers.memory) (buffers.dst.remaining buffers.memory)).2) ∧
    (∀ (Z : BoundedCodec σ) (target : ReadOnlyTarget) (w : Windows),
      (Protected target.dst target.memory
        (compressDirectByteBuffer Z.toCodec isOpen context target.operands w).outcome
        (compressDirectByteBuffer Z.toCodec isOpen context target.operands w).memory
        target.dst.position ↔
      ¬ (ReachesDirect isOpen target.operands ∧ InsideAll target.operands w) ∨
        Spared Z context target.toTarget w) ∧
      (Protected target.dst target.memory
        (decompressDirectByteBuffer Z.toCodec isOpen context target.operands w).outcome
        (decompressDirectByteBuffer Z.toCodec isOpen context target.operands w).memory
        target.dst.position ↔
      ¬ (ReachesDirect isOpen target.operands ∧ InsideAll target.operands w) ∨
        Spared Z context target.toTarget w) ∧
      (Protected target.dst target.memory
        (decompressByteArrayToDirectByteBuffer Z.toCodec isOpen context target.operands w).outcome
        (decompressByteArrayToDirectByteBuffer Z.toCodec isOpen context target.operands w).memory
        target.dst.position ↔
      ¬ ((isOpen = true ∧ target.operands.dst.isDirect = true) ∧ InsideAll target.operands w) ∨
        Spared Z context target.toTarget w)) ∧
    (∀ (Z : BoundedCodec σ) (target : ReadOnlyTarget),
      (Protected target.dst target.memory
        (compressBuffers Z.toCodec isOpen context target.toTarget).outcome
        (compressBuffers Z.toCodec isOpen context target.toTarget).memory
        (compressBuffers Z.toCodec isOpen context target.toTarget).dstPosition ↔
      ¬ ReachesDirect isOpen target.operands ∨ Spared Z context target.toTarget target.windows) ∧
      (Protected target.dst target.memory
        (decompressBuffers Z.toCodec isOpen context target.toTarget).outcome
        (decompressBuffers Z.toCodec isOpen context target.toTarget).memory
        (decompressBuffers Z.toCodec isOpen context target.toTarget).dstPosition ↔
      ¬ ReachesDirect isOpen target.operands ∨ Spared Z context target.toTarget target.windows) ∧
      (Protected target.dst target.memory
        (decompressArrayToBuffer Z.toCodec isOpen context target.toTarget).outcome
        (decompressArrayToBuffer Z.toCodec isOpen context target.toTarget).memory
        (decompressArrayToBuffer Z.toCodec isOpen context target.toTarget).dstPosition ↔
      ¬ (isOpen = true ∧ target.operands.dst.isDirect = true) ∨
        Spared Z context target.toTarget target.windows)) ∧
    (∀ (D : BoundedDecoder σ) (refill : Refill) (target : ReadOnlyBuffer)
      (st : BufferDecompress.State σ),
      (ProtectedTarget target.buffer
        (BufferDecompress.read D.toDecoder refill true target.buffer st).outcome
        (BufferDecompress.read D.toDecoder refill true target.buffer st).target ↔
      target.buffer.kind ≠ .direct ∨ st.closed = true ∨
        (st.streamEnd = false ∧ ∀ source, st.source = some source →
          source.kind ≠ .direct ∨ ReadSpared D refill target.buffer st source)) ∧
      (ProtectedTarget target.buffer
        (BufferDecompress.read D.toDecoder refill false target.buffer st).outcome
        (BufferDecompress.read D.toDecoder refill false target.buffer st).target ↔
      target.buffer.kind = .direct ∨ st.closed = true ∨ st.streamEnd = false)) ∧
    (∀ (E : BoundedEncoder σ κ) (target : ReadOnlyBuffer) (level : ℤ),
      ((∃ e, (BufferCompress.State.create context target.buffer level :
        Except JavaException (BufferCompress.State σ κ)) = .error e) ↔
          target.buffer.kind ≠ .direct) ∧
      (∀ (flushBuffer : BufferCompress.FlushBuffer) (full : Buffer)
        (self : BufferCompress.State σ κ),
        flushBuffer self.handed.length full = .returned target.buffer →
        ((∃ e, (BufferCompress.flushTarget flushBuffer full self).1 = .threw e) ↔
          target.buffer.kind ≠ .direct)) ∧
      ∀ (self : BufferCompress.State σ κ) (source : Buffer), target.buffer.kind = .direct →
        source.kind = .direct →
        (((BufferCompress.compressInto E.toEncoder target.buffer self source).Meets (fun _ => False)
          fun ended => ∃ target', ended.self.target = some target' ∧
            ProtectedTarget target.buffer ended.outcome target') ↔
        isError (jlong (encodeReply E self target.buffer source).ret) = true ∧
          WritesNothingNew target.buffer (encodeReply E self target.buffer source).emitted)) ∧
    (∀ (E : BoundedEncoder σ κ) (flushBuffer : FlushBuffer) (fuel : ℕ) (target : ReadOnlyBuffer)
      (self : BufferCompress.State σ κ), self.target = some target.buffer →
      (∀ (source : Buffer) (ended : Compressed σ κ),
        BufferCompress.compress E.toEncoder flushBuffer fuel source self = some ended →
        (Protects self target.buffer ended.outcome ended.self ↔
          source.kind ≠ .direct ∨ self.closed = true ∨
            (self.initialized = false ∧
              isError (jlong (E.configure self.stream self.init).2) = true) ∨
            CompressSpares E flushBuffer (begun E self, source))) ∧
      (∀ ended : Ended σ κ, BufferCompress.flush E.toEncoder flushBuffer fuel self = some ended →
        (Protects self target.buffer ended.outcome ended.self ↔
          self.closed = true ∨
            (self.initialized = true ∧ DrainSpares E flushBuffer .flush self target.buffer))) ∧
      ∀ ended : Ended σ κ, self.closed = false → closeBody E flushBuffer fuel self = some ended →
        BufferCompress.close E.toEncoder flushBuffer fuel self =
          some { ended with self := ended.self.released } ∧
        (Protects self target.buffer ended.outcome ended.self ↔
          self.initialized = true ∧ DrainSpares E flushBuffer .finish self target.buffer)) := by
  refine ⟨fun Z buffers endOp => ?_, fun Z buffers endOp => ?_, fun Z buffers => ?_,
    fun Z target w => ⟨?_, ?_, ?_⟩, fun Z target => ⟨?_, ?_, ?_⟩,
    fun D refill target st => ⟨?_, ?_⟩,
    fun E target level => ⟨?_, fun flushBuffer full self => ?_, fun self source => ?_⟩,
    fun E flushBuffer fuel target self hat =>
      ⟨fun source ended hrun => ?_, fun ended hrun => ?_, fun ended hopen hrun => ⟨?_, ?_⟩⟩⟩
  · exact compressByteBufferStream_protected _ Z isOpen context endOp buffers.readOnly
  · exact compressDirectByteBufferStream_protected_iff _ Z isOpen context endOp
  · exact decompressDirectByteBufferStream_protected_iff _ Z isOpen context
  · exact oneShot_protected_iff Z context (checked_direct isOpen _ w compressionClosed)
  · exact oneShot_protected_iff Z context (checked_direct isOpen _ w decompressionClosed)
  · exact oneShot_protected_iff Z context (checked_toDirect isOpen _ w)
  · exact whole_protected_iff Z context _ (checked_direct isOpen _ _ compressionClosed)
  · exact whole_protected_iff Z context _ (checked_direct isOpen _ _ decompressionClosed)
  · exact whole_protected_iff Z context _ (checked_toDirect isOpen _ _)
  · exact read_direct_protected_iff D refill st
  · exact read_array_protected_iff D refill st target.no_array
  · exact create_threw_iff context target.buffer level
  · exact flushTarget_threw_iff flushBuffer full target.buffer self
  · exact compressInto_protected_iff E self
  · exact compress_protects_iff flushBuffer hat hrun
  · exact flush_protects_iff flushBuffer hat hrun
  · rw [close_eq_closeBody flushBuffer fuel hopen, hrun]
    rfl
  · exact closeBody_protects_iff flushBuffer hat hrun

/-- A read-only direct buffer of two bytes, and a frame with the byte seven. -/
def readOnlyTarget : ReadOnlyTarget where
  memory := Function.update (fun _ => oneByteFrame) 1 [0, 0]
  dst :=
    { kind := .direct, readOnly := true, storage := 1, arrayOffset := 0, position := 0
      limit := 2, capacity := 2
      position_le := by decide, limit_le := by decide, capacity_lt := by decide }
  src := .buffer oneByteSource.src
  dst_fits := by decide
  src_valid := by
    unfold Operand.Valid
    decide
  readOnly := rfl
  no_array := by decide

/-- `decompress(dst, src)` writes into it. -/
theorem read_only_written :
    ¬ Protected readOnlyTarget.dst readOnlyTarget.memory
      (decompressBuffers oneByteCodec.toCodec true () readOnlyTarget.toTarget).outcome
      (decompressBuffers oneByteCodec.toCodec true () readOnlyTarget.toTarget).memory
      (decompressBuffers oneByteCodec.toCodec true () readOnlyTarget.toTarget).dstPosition := by
  intro hprotected
  rcases (whole_protected_iff oneByteCodec () readOnlyTarget.toTarget
    (checked_direct true _ _ decompressionClosed)).mp hprotected with hreaches | hspared
  · exact hreaches ⟨rfl, rfl, rfl⟩
  · revert hspared
    unfold Spared
    decide

end ZstdJni.Context
