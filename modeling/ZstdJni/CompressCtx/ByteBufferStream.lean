/-
# `compressByteBufferStream`

The streaming compression between byte buffers of any storage.  Java chooses one of four
native functions by the storage of the destination and the source; each of them derives
the addresses from the array offset, the position and the limit, checks the bounds in its
own way, and gets hold of the memory in its own way.  The result comes back packed into
one number, from which Java takes the new positions, the flag and the error.

A buffer is a view of some storage, and destination and source may be views of the same.
The native compressor is a parameter: what it does depends on its state and the two
windows only.  The calls by which the virtual machine hands out memory succeed here.
-/

import Mathlib.Logic.Function.Basic
import ZstdJni.Foundation.FrameEncoder
import ZstdJni.Native.Result

namespace ZstdJni.CompressCtx

open ZstdJni.Foundation ZstdJni.Native

/-- What a call of `ZSTD_compressStream2` reports: how much it read and wrote, its
result, and the window of the output afterwards. -/
structure Progress where
  consumed : ℕ
  produced : ℕ
  ret : ℕ
  output : List Byte

/-- `ZSTD_compressStream2`, given the windows of the input and the output. -/
structure Compressor (σ : Type) where
  compressStream2 : σ → Directive → List Byte → List Byte → σ × Progress
  consumed_le : ∀ s d input output, (compressStream2 s d input output).2.consumed ≤ input.length
  produced_le : ∀ s d input output, (compressStream2 s d input output).2.produced ≤ output.length
  output_length : ∀ s d input output,
    (compressStream2 s d input output).2.output.length = output.length
  ret_lt : ∀ s d input output, (compressStream2 s d input output).2.ret < 2 ^ 64

/-- The storage of all buffers: arrays and blocks of native memory. -/
abbrev Memory := ℕ → List Byte

/-- A byte buffer: a view of some storage from `arrayOffset` on. -/
structure ByteBuffer where
  kind : Kind
  readOnly : Bool
  storage : ℕ
  arrayOffset : ℕ
  position : ℕ
  limit : ℕ
  capacity : ℕ
  position_le : position ≤ limit
  limit_le : limit ≤ capacity
  capacity_lt : capacity < 2 ^ 31

/-- The bytes of a buffer from its position to its limit. -/
def ByteBuffer.remaining (buffer : ByteBuffer) (memory : Memory) : List Byte :=
  window (memory buffer.storage) (buffer.arrayOffset + buffer.position)
    (buffer.arrayOffset + buffer.limit)

/-- The arguments of a call: two buffers whose storage is large enough for them. -/
structure Buffers where
  memory : Memory
  dst : ByteBuffer
  src : ByteBuffer
  dst_fits : dst.arrayOffset + dst.capacity ≤ (memory dst.storage).length
  src_fits : src.arrayOffset + src.capacity ≤ (memory src.storage).length

/-- How a native function ends: its result, the positions it stored, and the context and
the storage afterwards. -/
structure NativeRun (σ : Type) where
  result : ℕ
  dstOffset : ℤ
  srcOffset : ℤ
  context : σ
  memory : Memory

section Native

variable {σ : Type} (Z : Compressor σ) (context : σ) (buffers : Buffers) (endOp : Directive)

/-- `GetDirectBufferCapacity`. -/
def directBufferCapacity (buffer : ByteBuffer) : ℤ :=
  if buffer.kind = .direct then buffer.capacity else -1

/-- `validate_compress_stream_bounds`. -/
def validateCompressStreamBounds (dstOffset dstSize srcOffset srcSize : ℤ) : ℕ :=
  if 0 > dstOffset ∨ dstOffset > dstSize then ErrorCode.dstSizeTooSmall.result
  else if 0 > srcOffset ∨ srcOffset > srcSize then ErrorCode.srcSizeWrong.result
  else 0

/-- `is_valid_array_stream_buffer`, with the length of the array. -/
def isValidArrayStreamBuffer (capacity arrayOffset size : ℤ) : Bool :=
  if 0 > arrayOffset ∨ 0 > size then false
  else decide (arrayOffset ≤ capacity ∧ size ≤ capacity - arrayOffset)

/-- `compress_buffer_stream`, on storage with base addresses. -/
def compressBufferStream (dstStorage dstBase : ℕ) (dstOffset dstSize : ℤ)
    (srcStorage srcBase : ℕ) (srcOffset srcSize : ℤ) : NativeRun σ :=
  let memory := buffers.memory
  let input := window (memory srcStorage) (srcBase + srcOffset.toNat) (srcBase + srcSize.toNat)
  let output := window (memory dstStorage) (dstBase + dstOffset.toNat) (dstBase + dstSize.toNat)
  let (context, progress) := Z.compressStream2 context endOp input output
  { result := progress.ret
    dstOffset := jint (dstOffset.toNat + progress.produced)
    srcOffset := jint (srcOffset.toNat + progress.consumed)
    context := context
    memory := Function.update memory dstStorage
      (overwrite (memory dstStorage) (dstBase + dstOffset.toNat) progress.output) }

/-- A native function that returns an error before it compresses. -/
def refuse (result : ℕ) (dstOffset srcOffset : ℤ) : NativeRun σ :=
  ⟨result, dstOffset, srcOffset, context, buffers.memory⟩

/-- `compress_direct_buffer_stream`. -/
def compressDirectBufferStream : NativeRun σ :=
  let dstOffset : ℤ := buffers.dst.position
  let dstSize : ℤ := buffers.dst.limit
  let srcOffset : ℤ := buffers.src.position
  let srcSize : ℤ := buffers.src.limit
  let result := validateCompressStreamBounds dstOffset dstSize srcOffset srcSize
  if zstdIsError result then refuse context buffers result dstOffset srcOffset
  else if dstSize > directBufferCapacity buffers.dst then
    refuse context buffers ErrorCode.dstSizeTooSmall.result dstOffset srcOffset
  else if srcSize > directBufferCapacity buffers.src then
    refuse context buffers ErrorCode.srcSizeWrong.result dstOffset srcOffset
  else
    compressBufferStream Z context buffers endOp buffers.dst.storage buffers.dst.arrayOffset
      dstOffset dstSize buffers.src.storage buffers.src.arrayOffset srcOffset srcSize

/-- `compress_byte_array_to_direct_buffer_stream`. -/
def compressByteArrayToDirectBufferStream (srcArrayOffset : ℤ) : NativeRun σ :=
  let dstOffset : ℤ := buffers.dst.position
  let dstSize : ℤ := buffers.dst.limit
  let srcOffset : ℤ := buffers.src.position
  let srcSize : ℤ := buffers.src.limit
  let result := validateCompressStreamBounds dstOffset dstSize srcOffset srcSize
  if zstdIsError result then refuse context buffers result dstOffset srcOffset
  else if dstSize > directBufferCapacity buffers.dst then
    refuse context buffers ErrorCode.dstSizeTooSmall.result dstOffset srcOffset
  else if ¬ isValidArrayStreamBuffer (buffers.memory buffers.src.storage).length srcArrayOffset
      srcSize then
    refuse context buffers ErrorCode.srcSizeWrong.result dstOffset srcOffset
  else
    compressBufferStream Z context buffers endOp buffers.dst.storage buffers.dst.arrayOffset
      dstOffset dstSize buffers.src.storage srcArrayOffset.toNat srcOffset srcSize

/-- `compress_direct_buffer_to_byte_array_stream`. -/
def compressDirectBufferToByteArrayStream (dstArrayOffset : ℤ) : NativeRun σ :=
  let dstOffset : ℤ := buffers.dst.position
  let dstSize : ℤ := buffers.dst.limit
  let srcOffset : ℤ := buffers.src.position
  let srcSize : ℤ := buffers.src.limit
  let result := validateCompressStreamBounds dstOffset dstSize srcOffset srcSize
  if zstdIsError result then refuse context buffers result dstOffset srcOffset
  else if ¬ isValidArrayStreamBuffer (buffers.memory buffers.dst.storage).length dstArrayOffset
      dstSize then
    refuse context buffers ErrorCode.dstSizeTooSmall.result dstOffset srcOffset
  else if srcSize > directBufferCapacity buffers.src then
    refuse context buffers ErrorCode.srcSizeWrong.result dstOffset srcOffset
  else
    compressBufferStream Z context buffers endOp buffers.dst.storage dstArrayOffset.toNat dstOffset
      dstSize buffers.src.storage buffers.src.arrayOffset srcOffset srcSize

/-- `compress_byte_array_stream`.  The elements of the destination are fetched, written
to and copied back as a whole, those of the source are fetched and dropped. -/
def compressByteArrayStream (dstArrayOffset srcArrayOffset : ℤ) : NativeRun σ :=
  let dstOffset : ℤ := buffers.dst.position
  let dstSize : ℤ := buffers.dst.limit
  let srcOffset : ℤ := buffers.src.position
  let srcSize : ℤ := buffers.src.limit
  let result := validateCompressStreamBounds dstOffset dstSize srcOffset srcSize
  if zstdIsError result then refuse context buffers result dstOffset srcOffset
  else if ¬ isValidArrayStreamBuffer (buffers.memory buffers.dst.storage).length dstArrayOffset
      dstSize then
    refuse context buffers ErrorCode.dstSizeTooSmall.result dstOffset srcOffset
  else if ¬ isValidArrayStreamBuffer (buffers.memory buffers.src.storage).length srcArrayOffset
      srcSize then
    refuse context buffers ErrorCode.srcSizeWrong.result dstOffset srcOffset
  else
    compressBufferStream Z context buffers endOp buffers.dst.storage dstArrayOffset.toNat dstOffset
      dstSize buffers.src.storage srcArrayOffset.toNat srcOffset srcSize

/-- `encode_compress_stream_result`, as an unsigned number of 64 bits. -/
def encodeCompressStreamResult (result : ℕ) (dstOffset srcOffset : ℤ) : ℕ :=
  if zstdIsError result then (1 <<< 31) ||| (2 ^ 64 - result)
  else
    let encoded := (dstOffset.toNat <<< 32) ||| srcOffset.toNat
    if result = 0 then (1 <<< 63) ||| encoded else encoded

end Native

/-- How a Java call ends: its outcome, the context and the storage, and the positions of
the two buffers. -/
structure StreamRun (σ : Type) where
  outcome : Outcome Bool
  context : σ
  memory : Memory
  dstPosition : ℕ
  srcPosition : ℕ

section Java

variable {σ : Type} (Z : Compressor σ) (isOpen : Bool) (context : σ) (buffers : Buffers)
  (endOp : Directive)

/-- An exception before anything is done. -/
def streamThrew (e : JavaException) : StreamRun σ :=
  ⟨.threw e, context, buffers.memory, buffers.dst.position, buffers.src.position⟩

/-- `updateStreamPositions`, on the number that a native function returns. -/
def updateStreamPositions (native : NativeRun σ) : StreamRun σ :=
  let result := encodeCompressStreamResult native.result native.dstOffset native.srcOffset
  if result &&& 0x80000000 ≠ 0 then
    let code : ℤ := -((result &&& 0xFF : ℕ) : ℤ)
    ⟨.threw (.zstdException code (getErrorName code)), native.context, native.memory,
      buffers.dst.position, buffers.src.position⟩
  else
    ⟨.returned (result >>> 63 == 1), native.context, native.memory,
      (result >>> 32) &&& 0x7FFFFFFF, result &&& 0x7FFFFFFF⟩

/-- `compressByteBufferStream(dst, src, endOp)`. -/
def compressByteBufferStream : StreamRun σ :=
  if ¬ isOpen then
    streamThrew context buffers (.illegalState "Compression context is closed")
  else if buffers.dst.readOnly then
    streamThrew context buffers (.illegalArgument "dst must be writable")
  else if buffers.dst.kind = .other then
    streamThrew context buffers (.illegalArgument "dst must be a direct or array-backed buffer")
  else if buffers.src.kind = .other then
    streamThrew context buffers (.illegalArgument "src must be a direct or array-backed buffer")
  else
    updateStreamPositions buffers
      (if buffers.dst.kind = .direct then
        if buffers.src.kind = .direct then compressDirectBufferStream Z context buffers endOp
        else
          compressByteArrayToDirectBufferStream Z context buffers endOp buffers.src.arrayOffset
      else if buffers.src.kind = .direct then
        compressDirectBufferToByteArrayStream Z context buffers endOp buffers.dst.arrayOffset
      else
        compressByteArrayStream Z context buffers endOp buffers.dst.arrayOffset
          buffers.src.arrayOffset)

/-- `compressDirectByteBufferStream(dst, src, endOp)`. -/
def compressDirectByteBufferStream : StreamRun σ :=
  if ¬ isOpen then
    streamThrew context buffers (.illegalState "Compression context is closed")
  else updateStreamPositions buffers (compressDirectBufferStream Z context buffers endOp)

end Java

end ZstdJni.CompressCtx
