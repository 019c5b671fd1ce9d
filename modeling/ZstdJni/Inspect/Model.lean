/-
# Queries on the header of a frame

`Zstd.getFrameContentSize`, `Zstd.decompressedSize` and `Zstd.findFrameCompressedSize`, with
their overloads, and the variants for direct buffers.  Each of them checks the window it is
given and hands it to native code, which reads the header of the frame there.

The windows that native code is asked to read are recorded.  A `size_t` may have 32 or 64
bits here: the content size passes through it on its way to a Java `long`.
-/

import ZstdJni.Native.FrameHeader
import ZstdJni.OneShot.Model

namespace ZstdJni.Inspect

open ZstdJni.Foundation ZstdJni.Native ZstdJni.OneShot

/-- `JNI_ZSTD_decompressedSize`: the content size as a `size_t`. -/
def decompressedSizeOf (w : WordSize) (bytes : List Byte) (magicless : Bool) : ℕ :=
  if magicless then
    match getFrameHeader w .magicless bytes with
    | .decoded header => header.frameContentSize % 2 ^ w.bits
    | _ => 0
  else zstdGetFrameContentSize w bytes % 2 ^ w.bits

/-- The negated code of an error as a `size_t`. -/
def errorSize (w : WordSize) (code : ErrorCode) : ℕ := 2 ^ w.bits - code.value

/-- `getFrameContentSize0`, with the bytes of the window, or nothing if the virtual machine
does not hand out the array. -/
def getFrameContentSize0 (w : WordSize) (memory : Option (List Byte)) (magicless : Bool) : ℤ :=
  match memory with
  | none => jlong (errorSize w .memoryAllocation)
  | some bytes => jlong (decompressedSizeOf w bytes magicless)

/-- A direct buffer as native code sees it: its memory up to the capacity, or nothing if it
has no address. -/
structure DirectMemory where
  capacity : ℕ
  address : Option (List Byte)

/-- `getDirectByteBufferFrameContentSize`, which is a native method. -/
def getDirectByteBufferFrameContentSize (w : WordSize) (src : DirectMemory)
    (srcOffset srcSize : ℤ) (magicless : Bool) : ℤ :=
  if srcOffset < 0 ∨ srcSize < 0 ∨ src.capacity - srcSize < srcOffset then
    -ErrorCode.generic.value
  else
    getFrameContentSize0 w
      (src.address.map fun bytes => window bytes srcOffset.toNat (srcOffset + srcSize).toNat)
      magicless

/-- How a query ends, and the windows that native code was asked to read. -/
structure Inspection where
  outcome : Outcome ℤ
  windows : List (ℤ × ℤ)

section Arrays

variable (native : ℤ → ℤ → Bool → ℤ) (src : JavaArray)

/-- `getFrameContentSize(src, srcPosition, srcSize, magicless)`. -/
def getFrameContentSize (srcPosition srcSize : ℤ) (magicless : Bool) : Inspection :=
  match checkIndices src srcPosition srcSize with
  | .error e => ⟨.threw e, []⟩
  | .ok () => ⟨.returned (native srcPosition srcSize magicless), [(srcPosition, srcSize)]⟩

/-- `getFrameContentSize(src, srcPosition, srcSize)`. -/
def getFrameContentSize3 (srcPosition srcSize : ℤ) : Inspection :=
  getFrameContentSize native src srcPosition srcSize false

/-- `getFrameContentSize(src, srcPosition)`. -/
def getFrameContentSize2 (srcPosition : ℤ) : Inspection :=
  getFrameContentSize3 native src srcPosition (toInt (src.bytes.length - srcPosition))

/-- `getFrameContentSize(src)`. -/
def getFrameContentSize1 : Inspection := getFrameContentSize2 native src 0

/-- `decompressedSize(src, srcPosition, srcSize, magicless)`: its checks do not look at the
signs of the arguments. -/
def decompressedSize (srcPosition srcSize : ℤ) (magicless : Bool) : Inspection :=
  if src.bytes.length ≤ srcPosition then ⟨.threw (.arrayIndexOutOfBounds srcPosition), []⟩
  else if toInt (src.bytes.length - srcPosition) < srcSize then
    ⟨.threw (.arrayIndexOutOfBounds (addInt srcPosition srcSize)), []⟩
  else ⟨.returned (native srcPosition srcSize magicless), [(srcPosition, srcSize)]⟩

/-- `decompressedSize(src, srcPosition, srcSize)`. -/
def decompressedSize3 (srcPosition srcSize : ℤ) : Inspection :=
  decompressedSize native src srcPosition srcSize false

/-- `decompressedSize(src, srcPosition)`. -/
def decompressedSize2 (srcPosition : ℤ) : Inspection :=
  decompressedSize3 native src srcPosition (toInt (src.bytes.length - srcPosition))

/-- `decompressedSize(src)`. -/
def decompressedSize1 : Inspection := decompressedSize2 native src 0

end Arrays

section Find

variable (native : ℤ → ℤ → ℤ) (src : JavaArray)

/-- `findFrameCompressedSize(src, srcPosition, srcSize)`. -/
def findFrameCompressedSize (srcPosition srcSize : ℤ) : Inspection :=
  match checkIndices src srcPosition srcSize with
  | .error e => ⟨.threw e, []⟩
  | .ok () =>
    let size := native srcPosition srcSize
    ⟨if isError size then .threw (.ofResult size) else .returned size, [(srcPosition, srcSize)]⟩

/-- `findFrameCompressedSize(src, srcPosition)`. -/
def findFrameCompressedSize2 (srcPosition : ℤ) : Inspection :=
  findFrameCompressedSize native src srcPosition (toInt (src.bytes.length - srcPosition))

/-- `findFrameCompressedSize(src)`. -/
def findFrameCompressedSize1 : Inspection := findFrameCompressedSize2 native src 0

end Find

/-- The native method behind `getFrameContentSize`, on an array that the virtual machine
hands out. -/
def nativeContentSize (w : WordSize) (src : JavaArray) (offset limit : ℤ) (magicless : Bool) : ℤ :=
  getFrameContentSize0 w (some (src.part offset limit)) magicless

end ZstdJni.Inspect
