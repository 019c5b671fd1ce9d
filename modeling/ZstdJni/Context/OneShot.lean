/-
# The one-shot methods of the contexts

`compressDirectByteBuffer`, `compressByteArray`, `decompressDirectByteBuffer`,
`decompressByteArray` and the two mixed variants, as Java and C check and run them: Java
compares windows with the length of an array or the limit of a buffer, C compares them once
more, with the length or the capacity, in arithmetic of its own.  Only then zstd gets the
two windows.

An argument of type `int` is a bit vector here.  What is recorded of a call besides its
outcome are the windows that zstd received, and the sums and differences that were computed
for the checks.  The calls by which the virtual machine hands out memory succeed.
-/

import ZstdJni.Foundation.Checks
import ZstdJni.CompressCtx.ByteBufferStream

namespace ZstdJni.Context

open ZstdJni.Foundation ZstdJni.Native ZstdJni.CompressCtx

/-- A Java `int`. -/
abbrev JInt := BitVec 32

/-- A value that is negative as a signed number. -/
def negative (x : JInt) : Bool := x.slt 0#32

/-- An array or a buffer that is passed to a method. -/
inductive Operand
  | array (storage : ℕ)
  | buffer (buffer : ByteBuffer)

namespace Operand

variable (memory : Memory)

/-- The storage of an operand. -/
def storage : Operand → ℕ
  | array storage => storage
  | buffer b => b.storage

/-- Where in the storage the operand begins. -/
def base : Operand → ℕ
  | array _ => 0
  | buffer b => b.arrayOffset

/-- What Java compares windows with: the length of an array, the limit of a buffer. -/
def limit : Operand → ℕ
  | array storage => (memory storage).length
  | buffer b => b.limit

/-- What C compares windows with: the length of an array, the capacity of a buffer. -/
def capacity : Operand → ℕ
  | array storage => (memory storage).length
  | buffer b => b.capacity

/-- `isDirect()`, for a buffer. -/
def isDirect : Operand → Bool
  | array _ => false
  | buffer b => decide (b.kind = .direct)

/-- Arrays have a length that fits into an `int`, and buffers fit into their storage. -/
def Valid : Operand → Prop
  | array storage => (memory storage).length < 2 ^ 31
  | buffer b => b.arrayOffset + b.capacity ≤ (memory b.storage).length

theorem limit_le_capacity (op : Operand) : op.limit memory ≤ op.capacity memory := by
  cases op with
  | array storage => exact Nat.le_refl _
  | buffer b => exact b.limit_le

variable {memory}

theorem Valid.capacity_lt {op : Operand} (hvalid : op.Valid memory) :
    op.capacity memory < 2 ^ 31 := by
  cases op with
  | array storage => exact hvalid
  | buffer b => exact b.capacity_lt

theorem Valid.fits {op : Operand} (hvalid : op.Valid memory) :
    op.base + op.capacity memory ≤ (memory op.storage).length := by
  cases op with
  | array storage => exact Nat.le_of_eq (Nat.zero_add _)
  | buffer b => exact hvalid

end Operand

/-- The arguments of a one-shot method: two operands with a window in each. -/
structure Operands where
  memory : Memory
  dst : Operand
  src : Operand
  dst_valid : dst.Valid memory
  src_valid : src.Valid memory

/-- The windows of a call. -/
structure Windows where
  dstOffset : JInt
  dstSize : JInt
  srcOffset : JInt
  srcSize : JInt

section Checks

variable (memory : Memory)

/-- `Objects.checkFromIndexSize(fromIndex, size, length)`. -/
def checkFromIndexSize (fromIndex size length : JInt) : Check JavaException :=
  if negative (length ||| fromIndex ||| size) then ⟨true, [], .indexOutOfBounds⟩
  else
    ⟨(Arith.difference length fromIndex).word.slt size, [Arith.difference length fromIndex],
      .indexOutOfBounds⟩

/-- The check of a window of an operand. -/
def checkWindow (op : Operand) (offset size : JInt) : Check JavaException :=
  checkFromIndexSize offset size (BitVec.ofNat 32 (op.limit memory))

/-- The check that a buffer is direct. -/
def checkDirect (op : Operand) (message : String) : Check JavaException :=
  ⟨!op.isDirect, [], .illegalArgument message⟩

/-- `ensureOpen()`. -/
def ensureOpen (isOpen : Bool) (message : String) : Check JavaException :=
  ⟨!isOpen, [], .illegalState message⟩

/-- A test `0 > x` in C. -/
def checkSign (x : JInt) (code : ErrorCode) : Check ErrorCode := ⟨negative x, [], code⟩

/-- A test `offset + size > capacity` in C. -/
def checkSum (offset size : JInt) (capacity : ℕ) (code : ErrorCode) : Check ErrorCode :=
  ⟨(BitVec.ofNat 32 capacity).slt (Arith.sum offset size).word, [Arith.sum offset size], code⟩

/-- A test `offset > capacity - size` in C. -/
def checkDifference (offset size : JInt) (capacity : ℕ) (code : ErrorCode) : Check ErrorCode :=
  ⟨(Arith.difference (BitVec.ofNat 32 capacity) size).word.slt offset,
    [Arith.difference (BitVec.ofNat 32 capacity) size], code⟩

end Checks

/-- `ZSTD_compress2` or `ZSTD_decompressDCtx` after a reset of the session, given the source
and the window of the destination: the result, and the window afterwards. -/
structure Codec (σ : Type) where
  run : σ → List Byte → List Byte → σ × ℕ × List Byte
  ret_lt : ∀ s input output, (run s input output).2.1 < 2 ^ 64
  output_length : ∀ s input output, (run s input output).2.2.length = output.length

/-- How a call ended: its outcome, the context and the storage, the windows that zstd
received, and what was computed for the checks. -/
structure Ran (σ : Type) where
  outcome : Outcome ℤ
  context : σ
  memory : Memory
  received : List Windows
  ariths : List Arith

/-- What Java makes of the result of the native method. -/
def finishSize (ret : ℕ) : Outcome ℤ :=
  let size := jlong ret
  if isError size then .threw (.ofResult size)
  else if 2 ^ 31 - 1 < size then
    .threw (.zstdException ErrorCode.generic.value "Output size is greater than MAX_INT")
  else .returned (toInt size)

/-- The bytes of a window of an operand. -/
def Operand.part (op : Operand) (memory : Memory) (offset size : JInt) : List Byte :=
  window (memory op.storage) (op.base + offset.toNat) (op.base + offset.toNat + size.toNat)

section Methods

variable {σ : Type} (Z : Codec σ) (isOpen : Bool) (context : σ) (ops : Operands) (w : Windows)

/-- A one-shot method, by the checks that Java makes and those that C makes. -/
def oneShot (javaChecks : List (Check JavaException)) (nativeChecks : List (Check ErrorCode)) :
    Ran σ :=
  match firstRefusal javaChecks with
  | (some e, ariths) => ⟨.threw e, context, ops.memory, [], ariths⟩
  | (none, ariths) =>
    match firstRefusal nativeChecks with
    | (some code, ariths') => ⟨finishSize code.result, context, ops.memory, [], ariths ++ ariths'⟩
    | (none, ariths') =>
      let (next, ret, written) := Z.run context (ops.src.part ops.memory w.srcOffset w.srcSize)
        (ops.dst.part ops.memory w.dstOffset w.dstSize)
      ⟨finishSize ret, next,
        Function.update ops.memory ops.dst.storage
          (overwrite (ops.memory ops.dst.storage) (ops.dst.base + w.dstOffset.toNat) written),
        [w], ariths ++ ariths'⟩

/-- The checks of `compressDirectByteBuffer0` and `decompressDirectByteBuffer0`. -/
def nativeDirect : List (Check ErrorCode) :=
  [checkSign w.dstOffset .dstSizeTooSmall, checkSign w.srcOffset .srcSizeWrong,
    checkSign w.srcSize .srcSizeWrong,
    checkSum w.dstOffset w.dstSize (ops.dst.capacity ops.memory) .dstSizeTooSmall,
    checkSum w.srcOffset w.srcSize (ops.src.capacity ops.memory) .srcSizeWrong]

/-- The checks of `compressByteArray0` and `decompressByteArray0`. -/
def nativeArray : List (Check ErrorCode) :=
  [checkSign w.dstOffset .dstSizeTooSmall, checkSign w.srcOffset .srcSizeWrong,
    checkSign w.srcSize .srcSizeWrong,
    checkSum w.srcOffset w.srcSize (ops.src.capacity ops.memory) .srcSizeWrong,
    checkSum w.dstOffset w.dstSize (ops.dst.capacity ops.memory) .dstSizeTooSmall]

/-- The signs that both mixed variants check. -/
def nativeSigns : List (Check ErrorCode) :=
  [checkSign w.dstOffset .dstSizeTooSmall, checkSign w.dstSize .dstSizeTooSmall,
    checkSign w.srcOffset .srcSizeWrong, checkSign w.srcSize .srcSizeWrong]

/-- The checks of `decompressByteArrayToDirectByteBuffer0`. -/
def nativeToDirect : List (Check ErrorCode) :=
  nativeSigns w ++
    [checkDifference w.srcOffset w.srcSize (ops.src.capacity ops.memory) .srcSizeWrong,
      checkDifference w.dstOffset w.dstSize (ops.dst.capacity ops.memory) .dstSizeTooSmall]

/-- The checks of `decompressDirectByteBufferToByteArray0`. -/
def nativeFromDirect : List (Check ErrorCode) :=
  nativeSigns w ++
    [checkDifference w.dstOffset w.dstSize (ops.dst.capacity ops.memory) .dstSizeTooSmall,
      checkDifference w.srcOffset w.srcSize (ops.src.capacity ops.memory) .srcSizeWrong]

/-- The checks that the method for direct buffers makes in both contexts. -/
def javaDirect (message : String) : List (Check JavaException) :=
  [ensureOpen isOpen message, checkDirect ops.src "srcBuff must be a direct buffer",
    checkDirect ops.dst "dstBuff must be a direct buffer",
    checkWindow ops.memory ops.src w.srcOffset w.srcSize,
    checkWindow ops.memory ops.dst w.dstOffset w.dstSize]

/-- The checks that the method for arrays makes in both contexts. -/
def javaArray (message : String) : List (Check JavaException) :=
  [checkWindow ops.memory ops.src w.srcOffset w.srcSize,
    checkWindow ops.memory ops.dst w.dstOffset w.dstSize, ensureOpen isOpen message]

def compressionClosed : String := "Compression context is closed"

def decompressionClosed : String := "Decompression context is closed"

/-- `ZstdCompressCtx.compressDirectByteBuffer`. -/
def compressDirectByteBuffer : Ran σ :=
  oneShot Z context ops w (javaDirect isOpen ops w compressionClosed) (nativeDirect ops w)

/-- `ZstdCompressCtx.compressByteArray`. -/
def compressByteArray : Ran σ :=
  oneShot Z context ops w (javaArray isOpen ops w compressionClosed) (nativeArray ops w)

/-- `ZstdDecompressCtx.decompressDirectByteBuffer`. -/
def decompressDirectByteBuffer : Ran σ :=
  oneShot Z context ops w (javaDirect isOpen ops w decompressionClosed) (nativeDirect ops w)

/-- `ZstdDecompressCtx.decompressByteArray`. -/
def decompressByteArray : Ran σ :=
  oneShot Z context ops w (javaArray isOpen ops w decompressionClosed) (nativeArray ops w)

/-- `ZstdDecompressCtx.decompressByteArrayToDirectByteBuffer`. -/
def decompressByteArrayToDirectByteBuffer : Ran σ :=
  oneShot Z context ops w
    [checkDirect ops.dst "dstBuff must be a direct buffer",
      checkWindow ops.memory ops.src w.srcOffset w.srcSize,
      checkWindow ops.memory ops.dst w.dstOffset w.dstSize, ensureOpen isOpen decompressionClosed]
    (nativeToDirect ops w)

/-- `ZstdDecompressCtx.decompressDirectByteBufferToByteArray`. -/
def decompressDirectByteBufferToByteArray : Ran σ :=
  oneShot Z context ops w
    [checkDirect ops.src "srcBuff must be a direct buffer",
      checkWindow ops.memory ops.src w.srcOffset w.srcSize,
      checkWindow ops.memory ops.dst w.dstOffset w.dstSize, ensureOpen isOpen decompressionClosed]
    (nativeFromDirect ops w)

end Methods

section Helpers

variable {σ : Type} (Z : Codec σ) (prepare : Outcome Unit × σ) (ops : Operands)

/-- A static helper that creates a context, loads a dictionary into it and passes on two
arrays: the destination from an offset to its end, and the source from an offset, with a
given length or to its end.  What comes before the arrays either throws or leaves an open
context. -/
def withDict (method : σ → Windows → Ran σ) (dstOffset srcOffset : JInt) (length : Option JInt) :
    Ran σ :=
  match prepare with
  | (.threw e, context) => ⟨.threw e, context, ops.memory, [], []⟩
  | (.returned _, context) =>
    let dstSize := Arith.difference (BitVec.ofNat 32 (ops.dst.limit ops.memory)) dstOffset
    let srcSize := match length with
      | some length => ⟨length, length.toInt⟩
      | none => Arith.difference (BitVec.ofNat 32 (ops.src.limit ops.memory)) srcOffset
    let ran := method context ⟨dstOffset, dstSize.word, srcOffset, srcSize.word⟩
    { ran with ariths := dstSize :: srcSize :: ran.ariths }

/-- `Zstd.compressUsingDict`, with a length or without. -/
def compressUsingDict : JInt → JInt → Option JInt → Ran σ :=
  withDict prepare ops fun context w => compressByteArray Z true context ops w

/-- `Zstd.compressFastDict`, with a length or without. -/
def compressFastDict : JInt → JInt → Option JInt → Ran σ :=
  withDict prepare ops fun context w => compressByteArray Z true context ops w

/-- `Zstd.decompressUsingDict`. -/
def decompressUsingDict (dstOffset srcOffset length : JInt) : Ran σ :=
  withDict prepare ops (fun context w => decompressByteArray Z true context ops w)
    dstOffset srcOffset
    (some length)

/-- `Zstd.decompressFastDict`. -/
def decompressFastDict (dstOffset srcOffset length : JInt) : Ran σ :=
  withDict prepare ops (fun context w => decompressByteArray Z true context ops w)
    dstOffset srcOffset
    (some length)

end Helpers

/-- How a constructor ended: the window that `ZSTD_createCDict` or `ZSTD_createDDict` received,
and what was computed for the checks. -/
structure Created where
  outcome : Outcome Unit
  received : List (JInt × JInt)
  ariths : List Arith

/-- A constructor after its checks: native code creates the dictionary, or leaves the pointer
zero. -/
def create (checks : List (Check JavaException)) (offset length : JInt) (succeeds : Bool)
    (message : String) : Created :=
  match firstRefusal checks with
  | (some e, ariths) => ⟨.threw e, [], ariths⟩
  | (none, ariths) =>
    ⟨if succeeds then .returned () else .threw (.illegalState message), [(offset, length)], ariths⟩

/-- The test `offset < 0 || length < 0 || length > dict.length - offset`. -/
def checkDict (dictLength offset length : JInt) : Check JavaException :=
  let reason := JavaException.illegalArgument "Invalid offset/length for dictionary buffer"
  if negative offset || negative length then ⟨true, [], reason⟩
  else
    ⟨(Arith.difference dictLength offset).word.slt length, [Arith.difference dictLength offset],
      reason⟩

/-- `ZstdDictCompress(dict, offset, length, level)`. -/
def createDictCompress (dictLength offset length : JInt) (succeeds : Bool) : Created :=
  create
    [⟨negative (Arith.difference dictLength offset).word, [Arith.difference dictLength offset],
        .illegalArgument "Dictionary buffer is too short"⟩,
      checkDict dictLength offset length]
    offset length succeeds "ZSTD_createCDict failed"

/-- `ZstdDictDecompress(dict, offset, length)`. -/
def createDictDecompress (dictLength offset length : JInt) (succeeds : Bool) : Created :=
  create [checkDict dictLength offset length] offset length succeeds "ZSTD_createDDict failed"

/-- The constructors from a buffer, whose window is all that remains of it. -/
def createDictDirect (dict : ByteBuffer) (succeeds : Bool) (message : String) : Created :=
  let length := Arith.difference (BitVec.ofNat 32 dict.limit) (BitVec.ofNat 32 dict.position)
  let created := create
    [⟨!decide (dict.kind = .direct), [], .illegalArgument "dict must be a direct buffer"⟩,
      ⟨negative length.word, [], .illegalArgument "dict cannot be empty."⟩]
    (BitVec.ofNat 32 dict.position) length.word succeeds message
  { created with ariths := length :: created.ariths }

end ZstdJni.Context
