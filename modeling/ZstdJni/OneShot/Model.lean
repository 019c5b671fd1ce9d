/-
# `Zstd.decompress(byte[])` and `Zstd.decompressFrame(byte[], int)`

The two functions that allocate their result by themselves, from the content sizes that
the frame headers declare.  The first walks over all frames to add up their sizes, then
decodes them one by one; the second decodes a single frame.

A declared size is an unsigned 64-bit number.  It arrives as a Java `long`, is compared
and added as such, and is cut to an `int` where an array is allocated.  All of these
conversions are in the model.  What the functions do besides computing a result, the
allocation of result arrays and the calls that decode, is recorded in order.
-/

import ZstdJni.Foundation.Loop
import ZstdJni.Native.FrameApi

namespace ZstdJni.OneShot

open ZstdJni.Foundation ZstdJni.Native

/-- A Java byte array. -/
structure JavaArray where
  bytes : List Byte
  length_lt : bytes.length < 2 ^ 31

/-- What a call does besides computing: it allocates an array for a result, or calls
`ZSTD_decompressDCtx`. -/
inductive Effect
  | allocate (size : ℕ)
  | decompress
  deriving DecidableEq

/-- How a call ended, and what it did. -/
structure Ran (α : Type) where
  outcome : Outcome α
  effects : List Effect

/-- Two of the checks that precede a native call on a part of an array. -/
def checkIndices (src : JavaArray) (srcPosition srcSize : ℤ) : Except JavaException Unit :=
  if srcPosition < 0 ∨ src.bytes.length ≤ srcPosition then
    .error (.arrayIndexOutOfBounds srcPosition)
  else if srcSize < 0 ∨ src.bytes.length - srcPosition < srcSize then
    .error (.arrayIndexOutOfBounds (addInt srcPosition srcSize))
  else .ok ()

/-- The part of an array that a native call works on. -/
def JavaArray.part (src : JavaArray) (srcPosition srcSize : ℤ) : List Byte :=
  window src.bytes srcPosition.toNat (srcPosition + srcSize).toNat

/-- `Zstd.findFrameCompressedSize(src, srcPosition)`. -/
def findFrameCompressedSize (Z : FrameApi) (src : JavaArray) (srcPosition : ℤ) :
    Except JavaException ℤ :=
  let srcSize := toInt (src.bytes.length - srcPosition)
  match checkIndices src srcPosition srcSize with
  | .error e => .error e
  | .ok () =>
    let size := jlong (Z.findFrameCompressedSize (src.part srcPosition srcSize))
    if isError size then .error (.ofResult size) else .ok size

/-- `Zstd.getFrameContentSize(src, srcPosition, srcSize)`. -/
def getFrameContentSize (Z : FrameApi) (src : JavaArray) (srcPosition srcSize : ℤ) :
    Except JavaException ℤ :=
  match checkIndices src srcPosition srcSize with
  | .error e => .error e
  | .ok () => .ok (jlong (Z.getFrameContentSize (src.part srcPosition srcSize)))

/-- The test for an unknown or unreadable content size. -/
def checkContentSize (contentSize : ℤ) : Except JavaException Unit :=
  if isError contentSize then
    if contentSize = -1 then .error (.zstdException contentSize "Content size is unknown")
    else .error (.ofResult contentSize)
  else .ok ()

/-- The class `FrameData`. -/
structure FrameData where
  contentSize : ℤ
  compressedSize : ℤ

/-- The constructor of `FrameData`. -/
def FrameData.create (Z : FrameApi) (src : JavaArray) (srcPosition : ℤ) :
    Except JavaException FrameData :=
  match findFrameCompressedSize Z src srcPosition with
  | .error e => .error e
  | .ok compressedSize =>
    match getFrameContentSize Z src srcPosition (toInt compressedSize) with
    | .error e => .error e
    | .ok contentSize =>
      match checkContentSize contentSize with
      | .error e => .error e
      | .ok () => .ok ⟨contentSize, compressedSize⟩

/-- The variables of the loop in `calculateContentSizeAndFrames`. -/
structure SizeState where
  contentSize : ℤ
  srcPosition : ℤ
  frames : List FrameData

/-- One turn of that loop, with `maxSize` the value of `MAX_DECOMPRESS_SIZE`. -/
def sizeTurn (Z : FrameApi) (maxSize : ℤ) (src : JavaArray) (st : SizeState) :
    Turn SizeState (Except JavaException (List FrameData × ℤ)) :=
  if st.srcPosition < src.bytes.length then
    match FrameData.create Z src st.srcPosition with
    | .error e => .leave (.error e)
    | .ok frameData =>
      if src.bytes.length - st.srcPosition < frameData.compressedSize then
        .leave (.error (.runtimeException "Invalid compressed size"))
      else if maxSize < frameData.contentSize then
        .leave (.error (.runtimeException "Frame content size is too large"))
      else if maxSize < addLong st.contentSize frameData.contentSize then
        .leave (.error (.runtimeException "Content size too large"))
      else
        .again ⟨addLong st.contentSize frameData.contentSize,
          addInt st.srcPosition (toInt frameData.compressedSize), st.frames ++ [frameData]⟩
  else .leave (.ok (st.frames, toInt st.contentSize))

/-- `calculateContentSizeAndFrames(src, frames)`. -/
def calculateContentSizeAndFrames (Z : FrameApi) (maxSize : ℤ) (src : JavaArray) (fuel : ℕ) :
    Option (Except JavaException (List FrameData × ℤ)) :=
  iterate (fun st => some (sizeTurn Z maxSize src st)) fuel ⟨0, 0, []⟩

/-- `Objects.checkFromIndexSize(offset, size, length)` fails. -/
def outOfRange (offset size length : ℤ) : Bool :=
  decide (offset < 0 ∨ size < 0 ∨ length - offset < size)

/-- `ZstdDecompressCtx.decompressByteArray` on a fresh context, with the destination
array afterwards.  The `Bool` tells whether the decoder was called. -/
def decompressByteArray (Z : FrameApi) (dst : List Byte) (dstOffset dstSize : ℤ)
    (src : JavaArray) (srcOffset srcSize : ℤ) : Outcome ℤ × List Byte × Bool :=
  if outOfRange srcOffset srcSize src.bytes.length then (.threw .indexOutOfBounds, dst, false)
  else if outOfRange dstOffset dstSize dst.length then (.threw .indexOutOfBounds, dst, false)
  else
    let (ret, written) := Z.decompressDCtx (src.part srcOffset srcSize)
      (window dst dstOffset.toNat (dstOffset + dstSize).toNat)
    let dst := overwrite dst dstOffset.toNat written
    let size := jlong ret
    if isError size then (.threw (.ofResult size), dst, true)
    else if 2 ^ 31 - 1 < size then
      (.threw (.zstdException ErrorCode.generic.value "Output size is greater than MAX_INT"),
        dst, true)
    else (.returned (toInt size), dst, true)

/-- The effect of a call of `decompressByteArray`. -/
def decoded (called : Bool) : List Effect :=
  if called then [.decompress] else []

/-- The loop of `decompress` over the frames, from frame number `i` on. -/
def decompressFrames (Z : FrameApi) (src : JavaArray) :
    List FrameData → ℕ → ℤ → ℤ → List Byte → Ran (List Byte)
  | [], _, _, _, decompressedData => ⟨.returned decompressedData, []⟩
  | frameInfo :: frames, i, srcPosition, decompressedPosition, decompressedData =>
    let (outcome, decompressedData, called) :=
      decompressByteArray Z decompressedData decompressedPosition (toInt frameInfo.contentSize)
        src srcPosition (toInt frameInfo.compressedSize)
    match outcome with
    | .threw e => ⟨.threw e, decoded called⟩
    | .returned size =>
      if isError size then
        ⟨.threw (.zstdException size
          s!"error {getErrorName size} while decompressing {i} frame"), decoded called⟩
      else if size ≠ frameInfo.contentSize then
        ⟨.threw (.illegalState "decompressed size mismatch"), decoded called⟩
      else
        let rest := decompressFrames Z src frames (i + 1)
          (addInt srcPosition (toInt frameInfo.compressedSize))
          (addInt decompressedPosition (toInt frameInfo.contentSize)) decompressedData
        ⟨rest.outcome, decoded called ++ rest.effects⟩

/-- `Zstd.decompress(src)`. -/
def decompress (Z : FrameApi) (maxSize : ℤ) (src : JavaArray) (fuel : ℕ) :
    Option (Ran (List Byte)) :=
  (calculateContentSizeAndFrames Z maxSize src fuel).map fun sizes =>
    match sizes with
    | .error e => ⟨.threw e, []⟩
    | .ok (frames, contentSize) =>
      if contentSize < 0 then ⟨.threw (.negativeArraySize contentSize), []⟩
      else
        let ran := decompressFrames Z src frames 0 0 0 (List.replicate contentSize.toNat 0)
        ⟨ran.outcome, .allocate contentSize.toNat :: ran.effects⟩

/-- `ZstdDecompressCtx.decompress(src, srcOffset, srcSize, originalSize)` on a fresh
context, which is also `Zstd.decompressFrame` with these arguments. -/
def decompressSized (Z : FrameApi) (src : JavaArray) (srcOffset srcSize originalSize : ℤ) :
    Ran (List Byte) :=
  if originalSize < 0 then
    ⟨.threw (.zstdException ErrorCode.generic.value "Original size should not be negative"), []⟩
  else
    let (outcome, dst, called) :=
      decompressByteArray Z (List.replicate originalSize.toNat 0) 0 originalSize src srcOffset
        srcSize
    let effects := .allocate originalSize.toNat :: decoded called
    match outcome with
    | .threw e => ⟨.threw e, effects⟩
    | .returned size =>
      if size ≠ originalSize then
        ⟨.returned (dst.take size.toNat), effects ++ [.allocate size.toNat]⟩
      else ⟨.returned dst, effects⟩

/-- `Zstd.decompressFrame(src, srcOffset)`. -/
def decompressFrame (Z : FrameApi) (maxSize : ℤ) (src : JavaArray) (srcOffset : ℤ) :
    Ran (List Byte) :=
  match findFrameCompressedSize Z src srcOffset with
  | .error e => ⟨.threw e, []⟩
  | .ok size =>
    let compressedSize := toInt size
    match getFrameContentSize Z src srcOffset compressedSize with
    | .error e => ⟨.threw e, []⟩
    | .ok contentSize =>
      match checkContentSize contentSize with
      | .error e => ⟨.threw e, []⟩
      | .ok () =>
        if maxSize < contentSize then
          ⟨.threw (.runtimeException "Frame content size is too large"), []⟩
        else decompressSized Z src srcOffset compressedSize (toInt contentSize)

end ZstdJni.OneShot
