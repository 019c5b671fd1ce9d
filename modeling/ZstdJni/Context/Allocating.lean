/-
# The decompressing methods that allocate their result

`decompress(byte[], int)` and `decompress(ByteBuffer, int)` of a context, and the static methods
that create a context, load a dictionary into it and call them.  The last argument is only an
upper bound: the array is cut to what was decompressed, the buffer is returned as it was
allocated.  Therefore the two agree only when the bound is exact.

Allocations succeed, and closing the context that a static method created does not change its
outcome.
-/

import ZstdJni.Context.Windows
import ZstdJni.OneShot.Model

namespace ZstdJni.Context

open ZstdJni.Foundation ZstdJni.Native ZstdJni.CompressCtx

variable {σ : Type}

/-- A codec whose result is an error or a number of bytes that fits into the window. -/
structure BoundedCodec (σ : Type) extends Codec σ where
  ret_le : ∀ s input output, zstdIsError (run s input output).2.1 = true ∨
    (run s input output).2.1 ≤ output.length

/-- The source of a call, and a storage that is not used yet. -/
structure Source where
  memory : Memory
  src : ByteBuffer
  src_fits : src.arrayOffset + src.capacity ≤ (memory src.storage).length
  fresh : ℕ
  fresh_ne : fresh ≠ src.storage

namespace Source

variable (source : Source)

/-- The bytes from the position to the limit. -/
def bytes : List Byte := source.src.remaining source.memory

theorem length_bytes : source.bytes.length = source.src.limit - source.src.position := by
  have hfits := source.src_fits
  have hlimit := source.src.limit_le
  have hposition := source.src.position_le
  simp only [bytes, ByteBuffer.remaining, window, List.length_take, List.length_drop]
  omega

/-- An array with the same bytes. -/
def array : OneShot.JavaArray where
  bytes := source.bytes
  length_lt := by
    have hlength := source.length_bytes
    have hlimit := source.src.limit_le
    have hcapacity := source.src.capacity_lt
    omega

/-- `srcBuf.position(srcBuf.limit())`. -/
def taken : ByteBuffer :=
  { source.src with position := source.src.limit, position_le := Nat.le_refl _ }

end Source

theorem toNat_of_nonneg {x : JInt} (hx : 0 ≤ x.toInt) : (x.toNat : ℤ) = x.toInt := by
  have hcond := BitVec.toInt_eq_toNat_cond x
  have hlt := x.isLt
  split at hcond
  · exact hcond.symm
  · omega

theorem toNat_lt_of_nonneg {x : JInt} (hx : 0 ≤ x.toInt) : x.toNat < 2 ^ 31 := by
  have hvalue := toNat_of_nonneg hx
  have hbounds := toInt_bounds x
  omega

/-- `ByteBuffer.allocateDirect(size)`. -/
def allocateDirect (storage : ℕ) (size : JInt) (hsize : 0 ≤ size.toInt) : ByteBuffer where
  kind := .direct
  readOnly := false
  storage := storage
  arrayOffset := 0
  position := 0
  limit := size.toNat
  capacity := size.toNat
  position_le := Nat.zero_le _
  limit_le := Nat.le_refl _
  capacity_lt := toNat_lt_of_nonneg hsize

/-- The zeros that an allocation begins with. -/
def zeros (size : JInt) : List Byte := List.replicate size.toNat 0

/-- The arguments of the native call behind the method for buffers. -/
def bufferOperands (source : Source) (size : JInt) (hsize : 0 ≤ size.toInt) : Operands where
  memory := Function.update source.memory source.fresh (zeros size)
  dst := .buffer (allocateDirect source.fresh size hsize)
  src := .buffer source.src
  dst_valid := by
    simp [Operand.Valid, allocateDirect, zeros]
  src_valid := by
    rw [Operand.Valid, Function.update_of_ne source.fresh_ne.symm]
    exact source.src_fits

/-- The windows of the native call behind the method for buffers. -/
def bufferWindows (source : Source) (size : JInt) : Windows where
  dstOffset := 0#32
  dstSize := size
  srcOffset := BitVec.ofNat 32 source.src.position
  srcSize := BitVec.ofNat 32 source.src.limit - BitVec.ofNat 32 source.src.position

/-- How the method for buffers ended: its outcome, the source and the storage. -/
structure BufferRan where
  outcome : Outcome ByteBuffer
  src : ByteBuffer
  memory : Memory

/-- `ZstdDecompressCtx.decompress(srcBuf, originalSize)`. -/
def decompressBuffer (Z : Codec σ) (isOpen : Bool) (context : σ) (source : Source)
    (originalSize : JInt) : BufferRan :=
  if hsize : 0 ≤ originalSize.toInt then
    let ran := decompressDirectByteBuffer Z isOpen context
      (bufferOperands source originalSize hsize) (bufferWindows source originalSize)
    match ran.outcome with
    | .threw e => ⟨.threw e, source.src, ran.memory⟩
    | .returned _ =>
      ⟨.returned (allocateDirect source.fresh originalSize hsize), source.taken, ran.memory⟩
  else ⟨.threw (.illegalArgument "capacity < 0"), source.src, source.memory⟩

/-- `Arrays.copyOfRange(array, 0, size)`. -/
def copyOfRange (array : List Byte) (size : ℤ) : Outcome (List Byte) :=
  if size < 0 then .threw (.illegalArgument "0 > size")
  else .returned (array.take size.toNat ++ List.replicate (size.toNat - array.length) 0)

/-- The arguments of the native call behind the method for arrays. -/
def arrayOperands (src : OneShot.JavaArray) (size : JInt) (hsize : 0 ≤ size.toInt) : Operands where
  memory := Function.update (fun _ => src.bytes) 1 (zeros size)
  dst := .array 1
  src := .array 0
  dst_valid := by
    simpa [Operand.Valid, zeros] using toNat_lt_of_nonneg hsize
  src_valid := src.length_lt

/-- The windows of the native call behind the method for arrays. -/
def arrayWindows (src : OneShot.JavaArray) (size : JInt) : Windows where
  dstOffset := 0#32
  dstSize := size
  srcOffset := 0#32
  srcSize := BitVec.ofNat 32 src.bytes.length

/-- `ZstdDecompressCtx.decompress(src, originalSize)`. -/
def decompressArray (Z : Codec σ) (isOpen : Bool) (context : σ) (src : OneShot.JavaArray)
    (originalSize : JInt) : Outcome (List Byte) :=
  if hsize : 0 ≤ originalSize.toInt then
    let ran := decompressByteArray Z isOpen context (arrayOperands src originalSize hsize)
      (arrayWindows src originalSize)
    match ran.outcome with
    | .threw e => .threw e
    | .returned size =>
      if size ≠ originalSize.toInt then copyOfRange (ran.memory 1) size
      else .returned (ran.memory 1)
  else
    .threw (.zstdException ErrorCode.generic.value "Original size should not be negative")

/-- The dictionary of a static method. -/
inductive Dictionary
  | none
  | bytes (dict : List Byte)
  | digested (dict : List Byte)

section Static

variable (Z : Codec σ) (load : Dictionary → Outcome Unit × σ) (dict : Dictionary)

/-- `Zstd.decompress(srcBuf, originalSize)`, and with a dictionary. -/
def staticDecompressBuffer (source : Source) (originalSize : JInt) : BufferRan :=
  match load dict with
  | (.threw e, _) => ⟨.threw e, source.src, source.memory⟩
  | (.returned _, context) => decompressBuffer Z true context source originalSize

/-- `Zstd.decompress(src, originalSize)`, and with a dictionary. -/
def staticDecompressArray (src : OneShot.JavaArray) (originalSize : JInt) : Outcome (List Byte) :=
  match load dict with
  | (.threw e, _) => .threw e
  | (.returned _, context) => decompressArray Z true context src originalSize

end Static

/-- A method all of whose checks pass. -/
theorem oneShot_run (Z : Codec σ) (context : σ) (ops : Operands) (w : Windows)
    {javaChecks : List (Check JavaException)} {nativeChecks : List (Check ErrorCode)}
    (hjava : ∀ c ∈ javaChecks, c.refuses = false)
    (hnative : ∀ c ∈ nativeChecks, c.refuses = false) :
    (oneShot Z context ops w javaChecks nativeChecks).outcome =
      finishSize (Z.run context (ops.src.part ops.memory w.srcOffset w.srcSize)
        (ops.dst.part ops.memory w.dstOffset w.dstSize)).2.1 ∧
    (oneShot Z context ops w javaChecks nativeChecks).memory =
      Function.update ops.memory ops.dst.storage
        (overwrite (ops.memory ops.dst.storage) (ops.dst.base + w.dstOffset.toNat)
          (Z.run context (ops.src.part ops.memory w.srcOffset w.srcSize)
            (ops.dst.part ops.memory w.dstOffset w.dstSize)).2.2) := by
  have hnone := firstRefusal_eq_none hjava
  have hnone' := firstRefusal_eq_none hnative
  unfold oneShot
  rcases hchecks : firstRefusal javaChecks with ⟨refusal, ariths⟩
  rcases hchecks' : firstRefusal nativeChecks with ⟨refusal', ariths'⟩
  rw [hchecks] at hnone
  rw [hchecks'] at hnone'
  obtain rfl : refusal = none := hnone
  obtain rfl : refusal' = none := hnone'
  exact ⟨rfl, rfl⟩

/-- A method one of whose checks in Java refuses. -/
theorem oneShot_refused (Z : Codec σ) (context : σ) (ops : Operands) (w : Windows)
    {javaChecks : List (Check JavaException)} (nativeChecks : List (Check ErrorCode))
    {c : Check JavaException} (hc : c ∈ javaChecks) (hrefuses : c.refuses = true) :
    (∃ e, (oneShot Z context ops w javaChecks nativeChecks).outcome = .threw e) ∧
      (oneShot Z context ops w javaChecks nativeChecks).memory = ops.memory := by
  obtain ⟨reason, hreason⟩ := firstRefusal_eq_some hc hrefuses
  unfold oneShot
  rcases hchecks : firstRefusal javaChecks with ⟨refusal, ariths⟩
  rw [hchecks] at hreason
  obtain rfl : refusal = some reason := hreason
  exact ⟨⟨reason, rfl⟩, rfl⟩

/-- A result that is an error or small enough for an `int`. -/
theorem finishSize_of_bounded {ret room : ℕ} (hlt : ret < 2 ^ 64)
    (hret : zstdIsError ret = true ∨ ret ≤ room) (hroom : room < 2 ^ 31) :
    finishSize ret =
      if zstdIsError ret = true then .threw (.ofResult (jlong ret)) else .returned ret := by
  unfold finishSize
  simp only [isError_jlong hlt]
  by_cases herror : zstdIsError ret = true
  · rw [if_pos herror, if_pos herror]
  · have hsmall : ret < 2 ^ 31 := Nat.lt_of_le_of_lt (hret.resolve_left herror) hroom
    have hvalue : jlong ret = ret := jlong_of_lt (by omega)
    rw [if_neg herror, if_neg herror, hvalue, if_neg (by omega), toInt_of_lt (by omega) (by omega)]

theorem overwrite_all {cells fresh : List Byte} (hlength : fresh.length = cells.length) :
    overwrite cells 0 fresh = fresh := by
  simp [overwrite, hlength]

section Results

variable (Z : BoundedCodec σ) (context : σ) (source : Source) {size : JInt} (hsize : 0 ≤ size.toInt)

/-- What the decoder makes of the source, in a window of the given size. -/
def decoded (size : JInt) : σ × ℕ × List Byte := Z.run context source.bytes (zeros size)

theorem length_decoded (size : JInt) : (decoded Z context source size).2.2.length = size.toNat := by
  rw [decoded, Z.output_length, zeros, List.length_replicate]

theorem ret_decoded (size : JInt) : zstdIsError (decoded Z context source size).2.1 = true ∨
    (decoded Z context source size).2.1 ≤ size.toNat := by
  have hret := Z.ret_le context source.bytes (zeros size)
  rw [zeros, List.length_replicate] at hret
  exact hret

include hsize

theorem insideAll_buffer :
    InsideAll (bufferOperands source size hsize) (bufferWindows source size) := by
  have hvalue := toNat_of_nonneg hsize
  refine ⟨⟨Int.le_refl 0, hsize, ?_⟩, (inside_remaining source.src).2⟩
  change (0 : ℤ) + size.toInt ≤ (size.toNat : ℤ)
  omega

theorem insideAll_array (src : OneShot.JavaArray) :
    InsideAll (arrayOperands src size hsize) (arrayWindows src size) := by
  have hvalue := toNat_of_nonneg hsize
  have hlength : (BitVec.ofNat 32 src.bytes.length).toInt = src.bytes.length :=
    toInt_ofNat_of_lt src.length_lt
  have hlimit : (Operand.array 1).limit (arrayOperands src size hsize).memory = size.toNat := by
    simp [Operand.limit, arrayOperands, zeros]
  refine ⟨⟨Int.le_refl 0, hsize, ?_⟩, ⟨Int.le_refl 0, ?_, ?_⟩⟩
  · change (0 : ℤ) + size.toInt ≤ ((Operand.array 1).limit _ : ℕ)
    rw [hlimit]
    omega
  · change 0 ≤ (BitVec.ofNat 32 src.bytes.length).toInt
    omega
  · change (0 : ℤ) + (BitVec.ofNat 32 src.bytes.length).toInt ≤ (src.bytes.length : ℤ)
    omega

omit hsize in
theorem window_zeros : window (zeros size) 0 size.toNat = zeros size := by
  simp [window, zeros]

theorem part_buffer_dst :
    (bufferOperands source size hsize).dst.part (bufferOperands source size hsize).memory
      (bufferWindows source size).dstOffset (bufferWindows source size).dstSize = zeros size := by
  change window (Function.update source.memory source.fresh (zeros size) source.fresh) (0 + 0)
    (0 + 0 + size.toNat) = zeros size
  rw [Function.update_self]
  simpa using window_zeros

theorem part_buffer_src :
    (bufferOperands source size hsize).src.part (bufferOperands source size hsize).memory
      (bufferWindows source size).srcOffset (bufferWindows source size).srcSize = source.bytes := by
  have hle := source.src.position_le
  have hlimit := source.src.limit_le
  have hcapacity := source.src.capacity_lt
  have hposition : (BitVec.ofNat 32 source.src.position).toNat = source.src.position := by
    rw [BitVec.toNat_ofNat, Nat.mod_eq_of_lt (by omega)]
  have hrest : (BitVec.ofNat 32 source.src.limit - BitVec.ofNat 32 source.src.position).toNat =
      source.src.limit - source.src.position := by
    rw [BitVec.toNat_sub, hposition, BitVec.toNat_ofNat]
    simp only [Nat.reducePow]
    omega
  change window (Function.update source.memory source.fresh (zeros size) source.src.storage)
    (source.src.arrayOffset + (BitVec.ofNat 32 source.src.position).toNat)
    (source.src.arrayOffset + (BitVec.ofNat 32 source.src.position).toNat +
      (BitVec.ofNat 32 source.src.limit - BitVec.ofNat 32 source.src.position).toNat) = source.bytes
  rw [Function.update_of_ne source.fresh_ne.symm, hposition, hrest, Nat.add_assoc,
    Nat.add_sub_cancel' hle]
  rfl

/-- The method for buffers, on a direct buffer and an open context. -/
theorem decompressBuffer_direct (hdirect : source.src.kind = .direct) :
    (decompressBuffer Z.toCodec true context source size).outcome =
      (if zstdIsError (decoded Z context source size).2.1 = true
        then .threw (.ofResult (jlong (decoded Z context source size).2.1))
        else .returned (allocateDirect source.fresh size hsize)) ∧
    (decompressBuffer Z.toCodec true context source size).memory source.fresh =
      (decoded Z context source size).2.2 := by
  have hreaches : ReachesDirect true (bufferOperands source size hsize) :=
    ⟨rfl, decide_eq_true hdirect, rfl⟩
  have hinside := insideAll_buffer source hsize
  obtain ⟨houtcome, hmemory⟩ := oneShot_run Z.toCodec context (bufferOperands source size hsize)
    (bufferWindows source size)
    (fun c hc => (sound_javaDirect true _ _ decompressionClosed c hc).passes hinside hreaches)
    (fun c hc => (passes_nativeDirect hinside c hc).1)
  rw [part_buffer_src, part_buffer_dst] at houtcome hmemory
  have hran : (decompressDirectByteBuffer Z.toCodec true context
      (bufferOperands source size hsize) (bufferWindows source size)).outcome =
        if zstdIsError (decoded Z context source size).2.1 = true
          then .threw (.ofResult (jlong (decoded Z context source size).2.1))
          else .returned (decoded Z context source size).2.1 :=
    houtcome.trans (finishSize_of_bounded (Z.ret_lt _ _ _) (ret_decoded Z context source size)
      (toNat_lt_of_nonneg hsize))
  have hcells : (Function.update source.memory source.fresh (zeros size) source.fresh) =
    zeros size :=
    Function.update_self ..
  have hwritten : (decompressDirectByteBuffer Z.toCodec true context
      (bufferOperands source size hsize) (bufferWindows source size)).memory source.fresh =
        (decoded Z context source size).2.2 := by
    rw [decompressDirectByteBuffer, hmemory]
    refine (Function.update_self source.fresh _ _).trans ?_
    change overwrite (Function.update source.memory source.fresh (zeros size) source.fresh) 0
      (decoded Z context source size).2.2 = _
    rw [hcells]
    exact overwrite_all (by rw [length_decoded, zeros, List.length_replicate])
  unfold decompressBuffer
  rw [dif_pos hsize]
  simp only [hran]
  by_cases herror : zstdIsError (decoded Z context source size).2.1 = true
  · simp only [if_pos herror]
    exact ⟨trivial, hwritten⟩
  · simp only [if_neg herror]
    exact ⟨trivial, hwritten⟩

theorem part_array_dst (src : OneShot.JavaArray) :
    (arrayOperands src size hsize).dst.part (arrayOperands src size hsize).memory
      (arrayWindows src size).dstOffset (arrayWindows src size).dstSize = zeros size := by
  change window (Function.update (fun _ => src.bytes) 1 (zeros size) 1) (0 + 0)
    (0 + 0 + size.toNat) = zeros size
  rw [Function.update_self]
  simpa using window_zeros

theorem part_array_src (src : OneShot.JavaArray) :
    (arrayOperands src size hsize).src.part (arrayOperands src size hsize).memory
      (arrayWindows src size).srcOffset (arrayWindows src size).srcSize = src.bytes := by
  have hlt := src.length_lt
  have hlength : (BitVec.ofNat 32 src.bytes.length).toNat = src.bytes.length := by
    rw [BitVec.toNat_ofNat, Nat.mod_eq_of_lt (by omega)]
  change window src.bytes (0 + 0) (0 + 0 + (BitVec.ofNat 32 src.bytes.length).toNat) = src.bytes
  rw [hlength]
  simp [window]

/-- The method for arrays, on an open context. -/
theorem decompressArray_open :
    decompressArray Z.toCodec true context source.array size =
      if zstdIsError (decoded Z context source size).2.1 = true
        then .threw (.ofResult (jlong (decoded Z context source size).2.1))
        else .returned
          ((decoded Z context source size).2.2.take (decoded Z context source size).2.1) := by
  have hinside := insideAll_array hsize source.array
  obtain ⟨houtcome, hmemory⟩ :=
    oneShot_run Z.toCodec context (arrayOperands source.array size hsize)
    (arrayWindows source.array size)
    (fun c hc => (sound_javaArray true _ _ decompressionClosed c hc).passes hinside rfl)
    (fun c hc => (passes_nativeArray hinside c hc).1)
  rw [part_array_src, part_array_dst] at houtcome hmemory
  have hret := ret_decoded Z context source size
  have hlength := length_decoded Z context source size
  have hvalue := toNat_of_nonneg hsize
  have hran : (decompressByteArray Z.toCodec true context (arrayOperands source.array size hsize)
      (arrayWindows source.array size)).outcome =
        if zstdIsError (decoded Z context source size).2.1 = true
          then .threw (.ofResult (jlong (decoded Z context source size).2.1))
          else .returned (decoded Z context source size).2.1 :=
    houtcome.trans (finishSize_of_bounded (Z.ret_lt _ _ _) hret (toNat_lt_of_nonneg hsize))
  have hwritten : (decompressByteArray Z.toCodec true context
    (arrayOperands source.array size hsize)
      (arrayWindows source.array size)).memory 1 = (decoded Z context source size).2.2 := by
    rw [decompressByteArray, hmemory]
    exact overwrite_all (hlength.trans (by simp [arrayOperands, zeros, Operand.storage]))
  unfold decompressArray
  rw [dif_pos hsize]
  simp only [hwritten, hran]
  by_cases herror : zstdIsError (decoded Z context source size).2.1 = true
  · rw [if_pos herror, if_pos herror]
  · have hle := hret.resolve_left herror
    rw [if_neg herror, if_neg herror]
    simp only
    by_cases hexact : ((decoded Z context source size).2.1 : ℤ) = size.toInt
    · rw [if_neg (not_not.mpr hexact), List.take_of_length_le (by omega)]
    · rw [if_pos hexact, copyOfRange, if_neg (by omega), Int.toNat_natCast,
        Nat.sub_eq_zero_of_le (by omega), List.replicate_zero, List.append_nil]

end Results

/-- The two overloads agree: both succeed or both fail, the remaining bytes of the buffer are
those of the array, and the source was taken up to its limit or left alone. -/
structure Agree (source : Source) (ran : BufferRan) (array : Outcome (List Byte)) : Prop where
  succeeds : (∃ dst, ran.outcome = .returned dst) ↔ ∃ bytes, array = .returned bytes
  same : ∀ dst bytes, ran.outcome = .returned dst → array = .returned bytes →
    dst.position = 0 ∧ dst.remaining ran.memory = bytes
  taken : ∀ dst, ran.outcome = .returned dst → ran.src = source.taken
  kept : ∀ e, ran.outcome = .threw e → ran.src = source.src

/-- What the source has to be for the overloads to agree: the decoder refuses it, or it is a
direct buffer of which the decoder makes exactly `size` bytes. -/
def Exact (Z : BoundedCodec σ) (context : σ) (source : Source) (size : JInt) : Prop :=
  zstdIsError (decoded Z context source size).2.1 = true ∨
    source.src.kind = .direct ∧ (decoded Z context source size).2.1 = size.toNat

/-- The source is taken up to its limit by a call that returns, and by no other. -/
theorem decompressBuffer_src (Z : Codec σ) (isOpen : Bool) (context : σ) (source : Source)
    (size : JInt) :
    (∀ dst, (decompressBuffer Z isOpen context source size).outcome = .returned dst →
      (decompressBuffer Z isOpen context source size).src = source.taken) ∧
    ∀ e, (decompressBuffer Z isOpen context source size).outcome = .threw e →
      (decompressBuffer Z isOpen context source size).src = source.src := by
  unfold decompressBuffer
  by_cases hsize : 0 ≤ size.toInt
  · rw [dif_pos hsize]
    rcases houtcome : (decompressDirectByteBuffer Z isOpen context
      (bufferOperands source size hsize) (bufferWindows source size)).outcome with ret | e
    · simp only [houtcome]
      exact ⟨fun _ _ => trivial, fun _ h => (nomatch h)⟩
    · simp only [houtcome]
      exact ⟨fun _ h => (nomatch h), fun _ _ => trivial⟩
  · rw [dif_neg hsize]
    exact ⟨fun _ h => (nomatch h), fun _ _ => rfl⟩

/-- Overloads that both fail agree. -/
theorem agree_of_threw {source : Source} {ran : BufferRan} {array : Outcome (List Byte)}
    {e e' : JavaException} (hbuffer : ran.outcome = .threw e) (harray : array = .threw e')
    (hsrc : ran.src = source.src) : Agree source ran array := by
  refine ⟨iff_of_false (fun ⟨_, h⟩ => ?_) (fun ⟨_, h⟩ => ?_), fun _ _ h => ?_, fun _ h => ?_,
    fun _ _ => hsrc⟩
  · exact (nomatch hbuffer.symm.trans h)
  · exact (nomatch harray.symm.trans h)
  · exact (nomatch hbuffer.symm.trans h)
  · exact (nomatch hbuffer.symm.trans h)

section Agreement

variable (Z : BoundedCodec σ) (context : σ) (source : Source) (size : JInt)

/-- A buffer that is not direct is refused. -/
theorem decompressBuffer_refused (isOpen : Bool)
    (hrefused : isOpen = false ∨ source.src.kind ≠ .direct) :
    ∃ e, (decompressBuffer Z.toCodec isOpen context source size).outcome = .threw e := by
  unfold decompressBuffer
  by_cases hsize : 0 ≤ size.toInt
  · rw [dif_pos hsize]
    have hthrew : ∃ e, (decompressDirectByteBuffer Z.toCodec isOpen context
        (bufferOperands source size hsize) (bufferWindows source size)).outcome = .threw e := by
      rcases hrefused with hclosed | hheap
      · refine (oneShot_refused _ _ _ _ _ List.mem_cons_self ?_).1
        rw [ensureOpen, hclosed, Bool.not_false]
      · refine (oneShot_refused _ _ _ _ _ (List.mem_cons_of_mem _ List.mem_cons_self) ?_).1
        change (!decide (source.src.kind = .direct)) = true
        simpa using hheap
    obtain ⟨e, he⟩ := hthrew
    simp only [he]
    exact ⟨e, rfl⟩
  · rw [dif_neg hsize]
    exact ⟨_, rfl⟩

/-- On an open context the overloads agree exactly if the bound is exact. -/
theorem agree_open_iff (hsize : 0 ≤ size.toInt) :
    Agree source (decompressBuffer Z.toCodec true context source size)
      (decompressArray Z.toCodec true context source.array size) ↔ Exact Z context source size := by
  have harray := decompressArray_open Z context source hsize
  have hsrc := decompressBuffer_src Z.toCodec true context source size
  unfold Exact
  by_cases herror : zstdIsError (decoded Z context source size).2.1 = true
  · rw [if_pos herror] at harray
    refine iff_of_true ?_ (.inl herror)
    obtain ⟨e, hbuffer⟩ : ∃ e,
        (decompressBuffer Z.toCodec true context source size).outcome = .threw e := by
      by_cases hdirect : source.src.kind = .direct
      · have hbuffer := (decompressBuffer_direct Z context source hsize hdirect).1
        rw [if_pos herror] at hbuffer
        exact ⟨_, hbuffer⟩
      · exact decompressBuffer_refused Z context source size true (.inr hdirect)
    exact agree_of_threw hbuffer harray (hsrc.2 e hbuffer)
  · rw [if_neg herror] at harray
    rw [or_iff_right herror]
    by_cases hdirect : source.src.kind = .direct
    · obtain ⟨hbuffer, hmemory⟩ := decompressBuffer_direct Z context source hsize hdirect
      rw [if_neg herror] at hbuffer
      have hlength := length_decoded Z context source size
      have hle := (ret_decoded Z context source size).resolve_left herror
      have hremaining : (allocateDirect source.fresh size hsize).remaining
          (decompressBuffer Z.toCodec true context source size).memory =
            (decoded Z context source size).2.2 := by
        change window ((decompressBuffer Z.toCodec true context source size).memory source.fresh)
          (0 + 0) (0 + size.toNat) = _
        rw [hmemory, ← hlength]
        simp [window]
      rw [and_iff_right hdirect]
      constructor
      · intro hagree
        have hsame := (hagree.same _ _ hbuffer harray).2
        rw [hremaining] at hsame
        have hcount := congrArg List.length hsame
        rw [List.length_take] at hcount
        omega
      · intro hexact
        refine ⟨iff_of_true ⟨_, hbuffer⟩ ⟨_, harray⟩, fun dst bytes hdst hbytes => ?_,
          hsrc.1, hsrc.2⟩
        obtain rfl := Outcome.returned.inj (hbuffer.symm.trans hdst)
        obtain rfl := Outcome.returned.inj (harray.symm.trans hbytes)
        refine ⟨rfl, ?_⟩
        rw [hremaining, List.take_of_length_le (by omega)]
    · refine iff_of_false (fun hagree => ?_) fun h => hdirect h.1
      obtain ⟨e, hbuffer⟩ := decompressBuffer_refused Z context source size true (.inr hdirect)
      obtain ⟨dst, hdst⟩ := hagree.succeeds.mpr ⟨_, harray⟩
      cases hbuffer.symm.trans hdst

/-- The method for arrays refuses a closed context. -/
theorem decompressArray_closed :
    ∃ e, decompressArray Z.toCodec false context source.array size = .threw e := by
  unfold decompressArray
  by_cases hsize : 0 ≤ size.toInt
  · rw [dif_pos hsize]
    obtain ⟨e, he⟩ : ∃ e, (decompressByteArray Z.toCodec false context
        (arrayOperands source.array size hsize) (arrayWindows source.array size)).outcome =
          .threw e :=
      (oneShot_refused _ _ _ _ _
        (List.mem_cons_of_mem _ (List.mem_cons_of_mem _ List.mem_cons_self)) rfl).1
    refine ⟨e, ?_⟩
    simp only [he]
  · rw [dif_neg hsize]
    exact ⟨_, rfl⟩

theorem agree_iff (isOpen : Bool) :
    Agree source (decompressBuffer Z.toCodec isOpen context source size)
      (decompressArray Z.toCodec isOpen context source.array size) ↔
      size.toInt < 0 ∨ isOpen = false ∨ Exact Z context source size := by
  have hsrc := decompressBuffer_src Z.toCodec isOpen context source size
  by_cases hsize : 0 ≤ size.toInt
  · rw [or_iff_right (Int.not_lt.mpr hsize)]
    cases isOpen with
    | false =>
        obtain ⟨e, hbuffer⟩ := decompressBuffer_refused Z context source size false (.inl rfl)
        obtain ⟨e', harray⟩ := decompressArray_closed Z context source size
        exact iff_of_true (agree_of_threw hbuffer harray (hsrc.2 e hbuffer)) (.inl rfl)
    | true =>
        rw [or_iff_right (by decide : ¬ true = false)]
        exact agree_open_iff Z context source size hsize
  · refine iff_of_true ?_ (.inl (Int.not_le.mp hsize))
    have hbuffer : (decompressBuffer Z.toCodec isOpen context source size).outcome =
        .threw (.illegalArgument "capacity < 0") := by
      rw [decompressBuffer, dif_neg hsize]
    have harray : decompressArray Z.toCodec isOpen context source.array size =
        .threw (.zstdException ErrorCode.generic.value "Original size should not be negative") := by
      rw [decompressArray, dif_neg hsize]
    exact agree_of_threw hbuffer harray (hsrc.2 _ hbuffer)

/-- The allocating overloads agree, in a context and as static methods with any dictionary,
exactly if the call fails for a reason that does not depend on the overload, or the source is
direct and decodes to as many bytes as the caller announced. -/
theorem allocating_agree_iff (isOpen : Bool) (load : Dictionary → Outcome Unit × σ)
    (dict : Dictionary) :
    (Agree source (decompressBuffer Z.toCodec isOpen context source size)
      (decompressArray Z.toCodec isOpen context source.array size) ↔
      size.toInt < 0 ∨ isOpen = false ∨ Exact Z context source size) ∧
    (Agree source (staticDecompressBuffer Z.toCodec load dict source size)
      (staticDecompressArray Z.toCodec load dict source.array size) ↔
      size.toInt < 0 ∨ (∃ e, (load dict).1 = .threw e) ∨ Exact Z (load dict).2 source size) := by
  refine ⟨agree_iff Z context source size isOpen, ?_⟩
  unfold staticDecompressBuffer staticDecompressArray
  rcases load dict with ⟨u | e, context⟩
  · rw [agree_iff Z context source size true]
    simp
  · exact iff_of_true (agree_of_threw rfl rfl rfl) (.inr (.inl ⟨e, rfl⟩))

end Agreement

/-- A frame with one raw block of one byte. -/
def oneByteFrame : List Byte := [0x28, 0xB5, 0x2F, 0xFD, 0x20, 0x01, 0x09, 0x00, 0x00, 0x07]

/-- The decoder on this frame; it refuses everything else. -/
def oneByteCodec : BoundedCodec Unit where
  run _ input output :=
    if input = oneByteFrame ∧ 1 ≤ output.length then ((), 1, overwrite output 0 [7])
    else ((), ErrorCode.srcSizeWrong.result, output)
  ret_lt _ input output := by
    split
    · exact (by decide : 1 < 2 ^ 64)
    · exact (by decide : ErrorCode.srcSizeWrong.result < 2 ^ 64)
  output_length _ input output := by
    split
    · next h => exact length_overwrite (by simpa using h.2)
    · rfl
  ret_le _ input output := by
    split
    · next h => exact .inr h.2
    · exact .inl (by decide : zstdIsError ErrorCode.srcSizeWrong.result = true)

/-- A direct buffer with this frame. -/
def oneByteSource : Source where
  memory := fun _ => oneByteFrame
  src :=
    { kind := .direct, readOnly := false, storage := 0, arrayOffset := 0, position := 0
      limit := 10, capacity := 10
      position_le := by decide, limit_le := by decide, capacity_lt := by decide }
  src_fits := by decide
  fresh := 1
  fresh_ne := by decide

/-- With a bound of two bytes the array has one byte and the buffer two. -/
theorem allocating_disagree :
    ¬ Agree oneByteSource
      (staticDecompressBuffer oneByteCodec.toCodec (fun _ => (.returned (), ())) .none
        oneByteSource 2#32)
      (staticDecompressArray oneByteCodec.toCodec (fun _ => (.returned (), ())) .none
        oneByteSource.array 2#32) := by
  intro hagree
  have hexact := (agree_open_iff oneByteCodec () oneByteSource 2#32 (by decide)).mp hagree
  revert hexact
  unfold Exact
  decide

end ZstdJni.Context
