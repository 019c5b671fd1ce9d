/-
# Destinations that are read-only

A buffer may be a read-only view of its memory.  Native code gets the address of a direct
buffer all the same, so that each method has to look at `isReadOnly()` by itself.  Only
`compressByteBufferStream` does.  The others protect a read-only buffer by accident: a heap
buffer that is read-only has no accessible array, and a call may fail before zstd writes.

For every operation that writes into a buffer of the caller, this module says exactly when it
throws and leaves a read-only destination as it was.
-/

import ZstdJni.BufferCompress.Model
import ZstdJni.Context.Allocating
import ZstdJni.Context.Packed

namespace ZstdJni.Context

open ZstdJni.Foundation ZstdJni.Native ZstdJni.CompressCtx

variable {σ : Type}

/-- A destination buffer with a source. -/
structure Target where
  memory : Memory
  dst : ByteBuffer
  src : Operand
  dst_fits : dst.arrayOffset + dst.capacity ≤ (memory dst.storage).length
  src_valid : src.Valid memory

namespace Target

variable (target : Target)

def operands : Operands where
  memory := target.memory
  dst := .buffer target.dst
  src := target.src
  dst_valid := target.dst_fits
  src_valid := target.src_valid

/-- The windows of a call on all that remains: an array is taken from its beginning. -/
def windows : Windows where
  dstOffset := BitVec.ofNat 32 target.dst.position
  dstSize := BitVec.ofNat 32 target.dst.limit - BitVec.ofNat 32 target.dst.position
  srcOffset := match target.src with
    | .array _ => 0#32
    | .buffer b => BitVec.ofNat 32 b.position
  srcSize := match target.src with
    | .array storage => BitVec.ofNat 32 (target.memory storage).length
    | .buffer b => BitVec.ofNat 32 b.limit - BitVec.ofNat 32 b.position

/-- What remains of the destination is inside of it, and so is the source. -/
theorem insideAll_windows : InsideAll target.operands target.windows := by
  obtain ⟨memory, dst, src, hfits, hvalid⟩ := target
  refine ⟨(inside_remaining dst).2, ?_⟩
  cases src with
  | array storage =>
      have hlength : (BitVec.ofNat 32 (memory storage).length).toInt = (memory storage).length :=
        toInt_ofNat_of_lt hvalid
      change Inside 0 (BitVec.ofNat 32 (memory storage).length).toInt (memory storage).length
      unfold Inside
      omega
  | buffer b => exact (inside_remaining b).2

end Target

/-- How a method that moves the position of the destination ended. -/
structure Advanced where
  outcome : Outcome ℤ
  memory : Memory
  dstPosition : ℕ

/-- The statement `dstBuf.position(dstBuf.position() + size)` behind a one-shot method, with the
exception that `position` throws beyond the limit. -/
def advance (dst : ByteBuffer) (ran : Ran σ) : Advanced :=
  match ran.outcome with
  | .threw e => ⟨.threw e, ran.memory, dst.position⟩
  | .returned size =>
    if 0 ≤ dst.position + size ∧ dst.position + size ≤ dst.limit then
      ⟨.returned size, ran.memory, (dst.position + size).toNat⟩
    else ⟨.threw (.illegalArgument "newPosition > limit"), ran.memory, dst.position⟩

section Methods

variable (Z : Codec σ) (isOpen : Bool) (context : σ) (target : Target)

/-- `ZstdCompressCtx.compress(dstBuf, srcBuf)`. -/
def compressBuffers : Advanced :=
  advance target.dst (compressDirectByteBuffer Z isOpen context target.operands target.windows)

/-- `ZstdDecompressCtx.decompress(dstBuf, srcBuf)`. -/
def decompressBuffers : Advanced :=
  advance target.dst (decompressDirectByteBuffer Z isOpen context target.operands target.windows)

/-- `ZstdDecompressCtx.decompress(dstBuf, src)` with an array. -/
def decompressArrayToBuffer : Advanced :=
  advance target.dst
    (decompressByteArrayToDirectByteBuffer Z isOpen context target.operands target.windows)

end Methods

/-- A call throws and leaves the bytes and the position of the destination alone. -/
structure Protected {α : Type} (dst : ByteBuffer) (memory : Memory) (outcome : Outcome α)
    (memory' : Memory) (position' : ℕ) : Prop where
  threw : ∃ e, outcome = .threw e
  bytes_eq : memory' dst.storage = memory dst.storage
  position_eq : position' = dst.position

/-- A read-only destination.  If it is not direct it has no accessible array. -/
structure ReadOnlyTarget extends Target where
  readOnly : dst.readOnly = true
  no_array : dst.kind ≠ .array

section OneShot

variable (Z : BoundedCodec σ) (isOpen : Bool) (context : σ) (target : Target) (w : Windows)

/-- What the codec makes of the two windows. -/
def coded : σ × ℕ × List Byte :=
  Z.run context (target.operands.src.part target.memory w.srcOffset w.srcSize)
    (target.operands.dst.part target.memory w.dstOffset w.dstSize)

/-- The codec fails and leaves the window of the destination as it was. -/
def Spared : Prop :=
  zstdIsError (coded Z context target w).2.1 = true ∧
    (coded Z context target w).2.2 = target.operands.dst.part target.memory w.dstOffset w.dstSize

variable {target w}

theorem length_part (hinside : InsideAll target.operands w) :
    (target.operands.dst.part target.memory w.dstOffset w.dstSize).length = w.dstSize.toNat ∧
    target.dst.arrayOffset + w.dstOffset.toNat + w.dstSize.toNat ≤
      (target.memory target.dst.storage).length ∧ w.dstSize.toNat < 2 ^ 31 := by
  obtain ⟨hoffset, hsize, hend⟩ := hinside.1
  have hoffsetNat := toNat_of_nonneg hoffset
  have hsizeNat := toNat_of_nonneg hsize
  have hlt := toNat_lt_of_nonneg hsize
  have hend' : w.dstOffset.toInt + w.dstSize.toInt ≤ target.dst.limit := hend
  have hlimit := target.dst.limit_le
  have hfits := target.dst_fits
  have hcells : target.dst.arrayOffset + w.dstOffset.toNat + w.dstSize.toNat ≤
      (target.memory target.dst.storage).length := by
    omega
  refine ⟨?_, hcells, hlt⟩
  refine (length_window _ hcells).trans ?_
  exact Nat.add_sub_cancel_left ..

/-- The checks of a method that reaches zstd under a condition on its arguments. -/
structure Checked (reaches : Prop) (ops : Operands) (w : Windows)
    (javaChecks : List (Check JavaException)) (nativeChecks : List (Check ErrorCode)) : Prop where
  refuses : ¬ (reaches ∧ InsideAll ops w) → ∃ c ∈ javaChecks, c.refuses = true
  sound : ∀ c ∈ javaChecks, Sound (InsideAll ops w) reaches c
  native : InsideAll ops w → ∀ c ∈ nativeChecks, Passes c

section Cases

variable {reaches : Prop} {javaChecks : List (Check JavaException)}
  {nativeChecks : List (Check ErrorCode)}
  (hchecked : Checked reaches target.operands w javaChecks nativeChecks)
include hchecked

/-- Either Java refuses, or the codec runs. -/
theorem oneShot_cases :
    (¬ (reaches ∧ InsideAll target.operands w) ∧
      (∃ e, (oneShot Z.toCodec context target.operands w javaChecks nativeChecks).outcome =
        .threw e) ∧
      (oneShot Z.toCodec context target.operands w javaChecks nativeChecks).memory =
        target.memory) ∨
    ((reaches ∧ InsideAll target.operands w) ∧
      (oneShot Z.toCodec context target.operands w javaChecks nativeChecks).outcome =
        (if zstdIsError (coded Z context target w).2.1 = true
          then .threw (.ofResult (jlong (coded Z context target w).2.1))
          else .returned (coded Z context target w).2.1) ∧
      (oneShot Z.toCodec context target.operands w javaChecks nativeChecks).memory
        target.dst.storage = overwrite (target.memory target.dst.storage)
          (target.dst.arrayOffset + w.dstOffset.toNat) (coded Z context target w).2.2) := by
  by_cases hreaches : reaches ∧ InsideAll target.operands w
  · refine .inr ⟨hreaches, ?_⟩
    obtain ⟨hlength, _, hlt⟩ := length_part hreaches.2
    obtain ⟨houtcome, hmemory⟩ := oneShot_run Z.toCodec context target.operands w
      (fun c hc => (hchecked.sound c hc).passes hreaches.2 hreaches.1)
      (fun c hc => (hchecked.native hreaches.2 c hc).1)
    have hret := Z.ret_le context (target.operands.src.part target.memory w.srcOffset w.srcSize)
      (target.operands.dst.part target.memory w.dstOffset w.dstSize)
    refine ⟨houtcome.trans (finishSize_of_bounded (Z.ret_lt _ _ _) hret
      (Nat.lt_of_le_of_lt (Nat.le_of_eq hlength) hlt)), ?_⟩
    rw [hmemory]
    exact Function.update_self ..
  · obtain ⟨c, hc, hrefused⟩ := hchecked.refuses hreaches
    obtain ⟨hthrew, hmemory⟩ := oneShot_refused Z.toCodec context target.operands w nativeChecks hc
      hrefused
    exact .inl ⟨hreaches, hthrew, hmemory⟩

/-- A one-shot method protects its destination exactly if a check in Java refuses, or the codec
fails and spares it. -/
theorem oneShot_protected_iff :
    Protected target.dst target.memory
      (oneShot Z.toCodec context target.operands w javaChecks nativeChecks).outcome
      (oneShot Z.toCodec context target.operands w javaChecks nativeChecks).memory
      target.dst.position ↔
    ¬ (reaches ∧ InsideAll target.operands w) ∨ Spared Z context target w := by
  rcases oneShot_cases Z context hchecked with
    ⟨hreaches, hthrew, hmemory⟩ | ⟨hreaches, houtcome, hstorage⟩
  · refine iff_of_true ⟨hthrew, ?_, rfl⟩ (.inl hreaches)
    rw [hmemory]
  · rw [or_iff_right (not_not.mpr hreaches)]
    obtain ⟨hlength, hcells, _⟩ := length_part hreaches.2
    have hwritten : (coded Z context target w).2.2.length = w.dstSize.toNat :=
      (Z.output_length _ _ _).trans hlength
    have hkept : overwrite (target.memory target.dst.storage)
        (target.dst.arrayOffset + w.dstOffset.toNat) (coded Z context target w).2.2 =
          target.memory target.dst.storage ↔ (coded Z context target w).2.2 =
            target.operands.dst.part target.memory w.dstOffset w.dstSize := by
      rw [overwrite_eq_self_iff (by omega), hwritten]
      rfl
    unfold Spared
    constructor
    · rintro ⟨⟨e, he⟩, hbytes, _⟩
      refine ⟨?_, hkept.mp (hstorage.symm.trans hbytes)⟩
      by_contra herror
      exact (nomatch he.symm.trans (houtcome.trans (if_neg herror)))
    · rintro ⟨herror, hspared⟩
      exact ⟨⟨_, houtcome.trans (if_pos herror)⟩, hstorage.trans (hkept.mpr hspared), rfl⟩

/-- A size that is returned fits into the window. -/
theorem oneShot_returned {size : ℤ}
    (hreturned : (oneShot Z.toCodec context target.operands w javaChecks nativeChecks).outcome =
      .returned size) : 0 ≤ size ∧ size ≤ w.dstSize.toNat := by
  rcases oneShot_cases Z context hchecked with ⟨_, ⟨e, he⟩, _⟩ | ⟨hreaches, houtcome, _⟩
  · exact (nomatch he.symm.trans hreturned)
  · by_cases herror : zstdIsError (coded Z context target w).2.1 = true
    · exact (nomatch (houtcome.trans (if_pos herror)).symm.trans hreturned)
    · have hret := Z.ret_le context
        (target.operands.src.part target.memory w.srcOffset w.srcSize)
        (target.operands.dst.part target.memory w.dstOffset w.dstSize)
      have hle : (coded Z context target w).2.1 ≤ w.dstSize.toNat :=
        Nat.le_trans (hret.resolve_left herror) (Nat.le_of_eq (length_part hreaches.2).1)
      obtain rfl := Outcome.returned.inj ((houtcome.trans (if_neg herror)).symm.trans hreturned)
      omega

end Cases

/-- Moving the position does not matter: a call that throws does not get there. -/
theorem advance_protected_iff {ran : Ran σ}
    (hreturned : ∀ size, ran.outcome = .returned size →
      0 ≤ size ∧ size ≤ target.dst.limit - target.dst.position) :
    Protected target.dst target.memory (advance target.dst ran).outcome
      (advance target.dst ran).memory (advance target.dst ran).dstPosition ↔
    Protected target.dst target.memory ran.outcome ran.memory target.dst.position := by
  unfold advance
  rcases houtcome : ran.outcome with size | e
  · obtain ⟨hlow, hhigh⟩ := hreturned size houtcome
    simp only
    rw [if_pos (by omega)]
    exact iff_of_false (fun h => (nomatch h.threw.choose_spec)) fun h =>
      (nomatch h.threw.choose_spec)
  · exact ⟨fun h => ⟨⟨e, rfl⟩, h.bytes_eq, rfl⟩, fun h => ⟨⟨e, rfl⟩, h.bytes_eq, rfl⟩⟩

theorem refuses_ensureOpen (message : String) (hclosed : ¬ isOpen = true) :
    (ensureOpen isOpen message).refuses = true := by
  rw [ensureOpen, Bool.eq_false_of_not_eq_true hclosed, Bool.not_false]

theorem refuses_checkDirect {op : Operand} (message : String) (hheap : ¬ op.isDirect = true) :
    (checkDirect op message).refuses = true := by
  rw [checkDirect, Bool.eq_false_of_not_eq_true hheap, Bool.not_false]

theorem checked_direct (ops : Operands) (w : Windows) (message : String) :
    Checked (ReachesDirect isOpen ops) ops w (javaDirect isOpen ops w message)
      (nativeDirect ops w) := by
  refine ⟨fun hout => ?_, sound_javaDirect isOpen ops w message, passes_nativeDirect⟩
  by_cases hinside : InsideAll ops w
  · unfold javaDirect
    by_cases hopen : isOpen = true
    · by_cases hsrc : ops.src.isDirect = true
      · have hdst : ¬ ops.dst.isDirect = true := fun h => hout ⟨⟨hopen, hsrc, h⟩, hinside⟩
        exact ⟨_, by simp, refuses_checkDirect "dstBuff must be a direct buffer" hdst⟩
      · exact ⟨_, by simp, refuses_checkDirect "srcBuff must be a direct buffer" hsrc⟩
    · exact ⟨_, List.mem_cons_self, refuses_ensureOpen isOpen message hopen⟩
  · exact exists_refuses ops w (by simp [javaDirect]) (by simp [javaDirect]) hinside

theorem checked_toDirect (ops : Operands) (w : Windows) :
    Checked (isOpen = true ∧ ops.dst.isDirect = true) ops w
      [checkDirect ops.dst "dstBuff must be a direct buffer",
        checkWindow ops.memory ops.src w.srcOffset w.srcSize,
        checkWindow ops.memory ops.dst w.dstOffset w.dstSize,
        ensureOpen isOpen decompressionClosed] (nativeToDirect ops w) := by
  refine ⟨fun hout => ?_, ?_, passes_nativeToDirect⟩
  · by_cases hinside : InsideAll ops w
    · by_cases hopen : isOpen = true
      · have hdst : ¬ ops.dst.isDirect = true := fun h => hout ⟨⟨hopen, h⟩, hinside⟩
        exact ⟨_, List.mem_cons_self, refuses_checkDirect _ hdst⟩
      · exact ⟨_, by simp, refuses_ensureOpen isOpen decompressionClosed hopen⟩
    · exact exists_refuses ops w (by simp) (by simp) hinside
  · simp only [List.forall_mem_cons]
    exact ⟨sound_checkDirect _ _ fun h => h.2, sound_src _ w, sound_dst _ w,
      sound_ensureOpen isOpen _ fun h => h.1, fun _ h => absurd h List.not_mem_nil⟩

/-- The size of the window in the methods on whole buffers. -/
theorem toNat_windows_dstSize (target : Target) :
    (target.windows.dstSize.toNat : ℤ) = target.dst.limit - target.dst.position := by
  have hle := target.dst.position_le
  have hlimit := target.dst.limit_le
  have hcapacity := target.dst.capacity_lt
  change ((BitVec.ofNat 32 target.dst.limit - BitVec.ofNat 32 target.dst.position).toNat : ℤ) = _
  rw [BitVec.toNat_sub, BitVec.toNat_ofNat, BitVec.toNat_ofNat]
  simp only [Nat.reducePow]
  omega

/-- A method on whole buffers protects its destination exactly if the one-shot method behind it
does not reach zstd, or the codec fails and spares it. -/
theorem whole_protected_iff {reaches : Prop} {javaChecks : List (Check JavaException)}
    {nativeChecks : List (Check ErrorCode)} (target : Target)
    (hchecked : Checked reaches target.operands target.windows javaChecks nativeChecks) :
    Protected target.dst target.memory
      (advance target.dst (oneShot Z.toCodec context target.operands target.windows javaChecks
        nativeChecks)).outcome
      (advance target.dst (oneShot Z.toCodec context target.operands target.windows javaChecks
        nativeChecks)).memory
      (advance target.dst (oneShot Z.toCodec context target.operands target.windows javaChecks
        nativeChecks)).dstPosition ↔
    ¬ reaches ∨ Spared Z context target target.windows := by
  have hsize := toNat_windows_dstSize target
  rw [advance_protected_iff fun size h => hsize ▸ oneShot_returned Z context hchecked h,
    oneShot_protected_iff Z context hchecked, and_iff_left target.insideAll_windows]

end OneShot

/-- Two buffers of which the destination is read-only. -/
structure ReadOnlyBuffers extends Buffers where
  readOnly : dst.readOnly = true
  no_array : dst.kind ≠ .array

section Streaming

variable (buffers : Buffers)

/-- What Java makes of the packed result protects the destination exactly if the native function
failed and left it alone. -/
theorem updateStreamPositions_protected_iff {native : NativeRun σ}
    (hrange : InRange buffers native) :
    Protected buffers.dst buffers.memory (updateStreamPositions buffers native).outcome
      (updateStreamPositions buffers native).memory
      (updateStreamPositions buffers native).dstPosition ↔
    zstdIsError native.result = true ∧
      native.memory buffers.dst.storage = buffers.memory buffers.dst.storage := by
  rw [hrange.updateStreamPositions_eq]
  by_cases herror : zstdIsError native.result = true
  · rw [if_pos herror]
    exact ⟨fun h => ⟨herror, h.bytes_eq⟩, fun h => ⟨⟨_, rfl⟩, h.2, rfl⟩⟩
  · rw [if_neg herror]
    exact iff_of_false (fun h => (nomatch h.threw.choose_spec)) fun h => herror h.1

/-- A streaming call of zstd fails and leaves the rest of the destination as it was. -/
def SparedBy (progress : Progress) : Prop :=
  zstdIsError progress.ret = true ∧ progress.output = buffers.dst.remaining buffers.memory

/-- The destination after a streaming call, which wrote to all that remained of it. -/
theorem overwrite_remaining_iff {output : List Byte}
    (hlength : output.length = (buffers.dst.remaining buffers.memory).length) :
    overwrite (buffers.memory buffers.dst.storage)
      (buffers.dst.arrayOffset + buffers.dst.position) output =
        buffers.memory buffers.dst.storage ↔ output = buffers.dst.remaining buffers.memory := by
  have hfits := buffers.dst_fits
  have hle := buffers.dst.position_le
  have hlimit := buffers.dst.limit_le
  rw [length_remaining hfits] at hlength
  have hend : buffers.dst.arrayOffset + buffers.dst.position + output.length =
      buffers.dst.arrayOffset + buffers.dst.limit := by
    omega
  rw [overwrite_eq_self_iff (by omega), hend]
  rfl

theorem zstdIsError_result (code : ErrorCode) : zstdIsError code.result = true := by
  cases code <;> decide

theorem directBufferCapacity_lt_iff (b : ByteBuffer) :
    (b.limit : ℤ) > directBufferCapacity b ↔ b.kind ≠ .direct := by
  have hlimit := b.limit_le
  unfold directBufferCapacity
  by_cases hdirect : b.kind = .direct
  · rw [if_pos hdirect]
    exact iff_of_false (by omega) (not_not.mpr hdirect)
  · rw [if_neg hdirect]
    exact iff_of_true (by omega) hdirect

/-- A native function fails without touching memory unless both buffers are direct, and then
runs zstd. -/
theorem spared_unless_direct_iff (context : σ) {run : NativeRun σ} {spared : Prop}
    (hrun : (zstdIsError run.result = true ∧
      run.memory buffers.dst.storage = buffers.memory buffers.dst.storage) ↔ spared) :
    let native :=
      if (buffers.dst.limit : ℤ) > directBufferCapacity buffers.dst then
        refuse context buffers ErrorCode.dstSizeTooSmall.result buffers.dst.position
          buffers.src.position
      else if (buffers.src.limit : ℤ) > directBufferCapacity buffers.src then
        refuse context buffers ErrorCode.srcSizeWrong.result buffers.dst.position
          buffers.src.position
      else run
    (zstdIsError native.result = true ∧
      native.memory buffers.dst.storage = buffers.memory buffers.dst.storage) ↔
        buffers.dst.kind ≠ .direct ∨ buffers.src.kind ≠ .direct ∨ spared := by
  have hdst := directBufferCapacity_lt_iff buffers.dst
  have hsrc := directBufferCapacity_lt_iff buffers.src
  simp only
  by_cases hdstKind : buffers.dst.kind ≠ .direct
  · rw [if_pos (hdst.mpr hdstKind)]
    exact iff_of_true ⟨zstdIsError_result _, rfl⟩ (.inl hdstKind)
  · rw [if_neg (hdst.not.mpr hdstKind), or_iff_right hdstKind]
    by_cases hsrcKind : buffers.src.kind ≠ .direct
    · rw [if_pos (hsrc.mpr hsrcKind)]
      exact iff_of_true ⟨zstdIsError_result _, rfl⟩ (.inl hsrcKind)
    · rw [if_neg (hsrc.not.mpr hsrcKind), or_iff_right hsrcKind]
      exact hrun

/-- The native function that compresses fails and leaves the destination alone exactly if one of
the buffers is not direct, or zstd spares it. -/
theorem compressDirectBufferStream_spared_iff (Z : Compressor σ) (context : σ) (endOp : Directive) :
    (zstdIsError (compressDirectBufferStream Z context buffers endOp).result = true ∧
      (compressDirectBufferStream Z context buffers endOp).memory buffers.dst.storage =
        buffers.memory buffers.dst.storage) ↔
    buffers.dst.kind ≠ .direct ∨ buffers.src.kind ≠ .direct ∨
      SparedBy buffers (Z.compressStream2 context endOp (buffers.src.remaining buffers.memory)
        (buffers.dst.remaining buffers.memory)).2 := by
  unfold compressDirectBufferStream
  simp only
  rw [if_neg (zstdIsError_validate buffers)]
  refine spared_unless_direct_iff buffers context ?_
  unfold compressBufferStream SparedBy
  simp only [Int.toNat_natCast, Function.update_self]
  exact and_congr_right fun _ =>
    overwrite_remaining_iff buffers (Z.output_length context endOp _ _)

/-- The same for the native function that decompresses. -/
theorem decompressDirectBufferStream_spared_iff (Z : Decompressor σ) (context : σ) :
    (zstdIsError (decompressDirectBufferStream Z context buffers).result = true ∧
      (decompressDirectBufferStream Z context buffers).memory buffers.dst.storage =
        buffers.memory buffers.dst.storage) ↔
    buffers.dst.kind ≠ .direct ∨ buffers.src.kind ≠ .direct ∨
      SparedBy buffers (Z.decompressStream context (buffers.src.remaining buffers.memory)
        (buffers.dst.remaining buffers.memory)).2 := by
  unfold decompressDirectBufferStream
  simp only
  rw [if_neg (by omega), if_neg (by omega), if_neg (by omega), if_neg (by omega)]
  refine spared_unless_direct_iff buffers context ?_
  unfold SparedBy
  simp only [Function.update_self]
  exact and_congr_right fun _ => overwrite_remaining_iff buffers (Z.output_length context _ _)

/-- A streaming method of a context that is closed throws at once. -/
theorem streamThrew_protected (context : σ) (e : JavaException) :
    Protected buffers.dst buffers.memory (streamThrew context buffers e).outcome
      (streamThrew context buffers e).memory (streamThrew context buffers e).dstPosition :=
  ⟨⟨e, rfl⟩, rfl, rfl⟩

theorem compressDirectByteBufferStream_protected_iff (Z : Compressor σ) (isOpen : Bool)
    (context : σ) (endOp : Directive) :
    Protected buffers.dst buffers.memory
      (compressDirectByteBufferStream Z isOpen context buffers endOp).outcome
      (compressDirectByteBufferStream Z isOpen context buffers endOp).memory
      (compressDirectByteBufferStream Z isOpen context buffers endOp).dstPosition ↔
    isOpen = false ∨ buffers.dst.kind ≠ .direct ∨ buffers.src.kind ≠ .direct ∨
      SparedBy buffers (Z.compressStream2 context endOp (buffers.src.remaining buffers.memory)
        (buffers.dst.remaining buffers.memory)).2 := by
  unfold compressDirectByteBufferStream
  cases isOpen with
  | false => exact iff_of_true (streamThrew_protected buffers context _) (.inl rfl)
  | true =>
      simp only [not_true_eq_false, if_false, Bool.true_eq_false, false_or]
      rw [updateStreamPositions_protected_iff buffers
        (inRange_compressDirectBufferStream Z context buffers endOp)]
      exact compressDirectBufferStream_spared_iff buffers Z context endOp

theorem decompressDirectByteBufferStream_protected_iff (Z : Decompressor σ) (isOpen : Bool)
    (context : σ) :
    Protected buffers.dst buffers.memory
      (decompressDirectByteBufferStream Z isOpen context buffers).outcome
      (decompressDirectByteBufferStream Z isOpen context buffers).memory
      (decompressDirectByteBufferStream Z isOpen context buffers).dstPosition ↔
    isOpen = false ∨ buffers.dst.kind ≠ .direct ∨ buffers.src.kind ≠ .direct ∨
      SparedBy buffers (Z.decompressStream context (buffers.src.remaining buffers.memory)
        (buffers.dst.remaining buffers.memory)).2 := by
  unfold decompressDirectByteBufferStream
  cases isOpen with
  | false => exact iff_of_true (streamThrew_protected buffers context _) (.inl rfl)
  | true =>
      simp only [not_true_eq_false, if_false, Bool.true_eq_false, false_or]
      rw [updateStreamPositions_protected_iff buffers
        (inRange_decompressDirectBufferStream Z context buffers)]
      exact decompressDirectBufferStream_spared_iff buffers Z context

/-- The one method that asks whether the destination is read-only. -/
theorem compressByteBufferStream_protected (Z : Compressor σ) (isOpen : Bool) (context : σ)
    (endOp : Directive) (hreadOnly : buffers.dst.readOnly = true) :
    Protected buffers.dst buffers.memory
      (compressByteBufferStream Z isOpen context buffers endOp).outcome
      (compressByteBufferStream Z isOpen context buffers endOp).memory
      (compressByteBufferStream Z isOpen context buffers endOp).dstPosition := by
  unfold compressByteBufferStream
  cases isOpen with
  | false => exact streamThrew_protected buffers context _
  | true =>
      simp only [not_true_eq_false, if_false, hreadOnly, if_true]
      exact streamThrew_protected buffers context _

end Streaming

end ZstdJni.Context
