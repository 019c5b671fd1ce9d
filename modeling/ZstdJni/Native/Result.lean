/-
# Native results and the exceptions made of them

Every zstd call returns a `size_t`.  The top 119 values are error codes, all
others are sizes or hints.  On the way to Java the value becomes a `jlong`, or is
cut down to a `jint` and widened again, and only then is it asked whether it is an
error.  This module models the three conversions on integers, the error test, the
texts of the errors, and the exceptions the Java classes throw.

A `size_t` has 64 bits here.
-/

import Mathlib.Algebra.GroupWithZero.Nat
import Mathlib.Algebra.Ring.Int.Defs
import Mathlib.Data.Int.Basic
import Mathlib.Tactic.Common

namespace ZstdJni.Native

/-- A byte of a Java array. -/
abbrev Byte := UInt8

/-- The error codes of zstd that the bindings name or test for. -/
inductive ErrorCode
  | generic | prefixUnknown | versionUnsupported | frameParameterUnsupported
  | frameParameterWindowTooLarge | corruptionDetected | checksumWrong | literalsHeaderWrong
  | dictionaryCorrupted | dictionaryWrong | dictionaryCreationFailed | parameterUnsupported
  | parameterCombinationUnsupported | parameterOutOfBound | tableLogTooLarge
  | maxSymbolValueTooLarge | maxSymbolValueTooSmall | cannotProduceUncompressedBlock
  | stabilityConditionNotRespected | stageWrong | initMissing | memoryAllocation
  | workSpaceTooSmall | dstSizeTooSmall | srcSizeWrong | dstBufferNull
  | noForwardProgressDestFull | noForwardProgressInputEmpty | frameIndexTooLarge | seekableIo
  | dstBufferWrong | srcBufferWrong | sequenceProducerFailed | externalSequencesInvalid
  deriving DecidableEq

namespace ErrorCode

/-- The number zstd gives to an error code. -/
def value : ErrorCode → ℕ
  | generic => 1 | prefixUnknown => 10 | versionUnsupported => 12
  | frameParameterUnsupported => 14 | frameParameterWindowTooLarge => 16
  | corruptionDetected => 20 | checksumWrong => 22 | literalsHeaderWrong => 24
  | dictionaryCorrupted => 30 | dictionaryWrong => 32 | dictionaryCreationFailed => 34
  | parameterUnsupported => 40 | parameterCombinationUnsupported => 41
  | parameterOutOfBound => 42 | tableLogTooLarge => 44 | maxSymbolValueTooLarge => 46
  | maxSymbolValueTooSmall => 48 | cannotProduceUncompressedBlock => 49
  | stabilityConditionNotRespected => 50 | stageWrong => 60 | initMissing => 62
  | memoryAllocation => 64 | workSpaceTooSmall => 66 | dstSizeTooSmall => 70
  | srcSizeWrong => 72 | dstBufferNull => 74 | noForwardProgressDestFull => 80
  | noForwardProgressInputEmpty => 82 | frameIndexTooLarge => 100 | seekableIo => 102
  | dstBufferWrong => 104 | srcBufferWrong => 105 | sequenceProducerFailed => 106
  | externalSequencesInvalid => 107

/-- The text `ERR_getErrorString` gives for an error code. -/
def text : ErrorCode → String
  | generic => "Error (generic)"
  | prefixUnknown => "Unknown frame descriptor"
  | versionUnsupported => "Version not supported"
  | frameParameterUnsupported => "Unsupported frame parameter"
  | frameParameterWindowTooLarge => "Frame requires too much memory for decoding"
  | corruptionDetected => "Data corruption detected"
  | checksumWrong => "Restored data doesn't match checksum"
  | literalsHeaderWrong => "Header of Literals' block doesn't respect format specification"
  | dictionaryCorrupted => "Dictionary is corrupted"
  | dictionaryWrong => "Dictionary mismatch"
  | dictionaryCreationFailed => "Cannot create Dictionary from provided samples"
  | parameterUnsupported => "Unsupported parameter"
  | parameterCombinationUnsupported => "Unsupported combination of parameters"
  | parameterOutOfBound => "Parameter is out of bound"
  | tableLogTooLarge => "tableLog requires too much memory : unsupported"
  | maxSymbolValueTooLarge => "Unsupported max Symbol Value : too large"
  | maxSymbolValueTooSmall => "Specified maxSymbolValue is too small"
  | cannotProduceUncompressedBlock => "This mode cannot generate an uncompressed block"
  | stabilityConditionNotRespected => "pledged buffer stability condition is not respected"
  | stageWrong => "Operation not authorized at current processing stage"
  | initMissing => "Context should be init first"
  | memoryAllocation => "Allocation error : not enough memory"
  | workSpaceTooSmall => "workSpace buffer is not large enough"
  | dstSizeTooSmall => "Destination buffer is too small"
  | srcSizeWrong => "Src size is incorrect"
  | dstBufferNull => "Operation on NULL destination buffer"
  | noForwardProgressDestFull =>
      "Operation made no progress over multiple calls, due to output buffer being full"
  | noForwardProgressInputEmpty =>
      "Operation made no progress over multiple calls, due to input being empty"
  | frameIndexTooLarge => "Frame index is too large"
  | seekableIo => "An I/O error occurred when reading/seeking"
  | dstBufferWrong => "Destination buffer is wrong"
  | srcBufferWrong => "Source buffer is wrong"
  | sequenceProducerFailed => "Block-level external sequence producer returned an error code"
  | externalSequencesInvalid => "External sequences are not valid"

/-- All error codes, in the order of their numbers. -/
def all : List ErrorCode :=
  [generic, prefixUnknown, versionUnsupported, frameParameterUnsupported,
    frameParameterWindowTooLarge, corruptionDetected, checksumWrong, literalsHeaderWrong,
    dictionaryCorrupted, dictionaryWrong, dictionaryCreationFailed, parameterUnsupported,
    parameterCombinationUnsupported, parameterOutOfBound, tableLogTooLarge,
    maxSymbolValueTooLarge, maxSymbolValueTooSmall, cannotProduceUncompressedBlock,
    stabilityConditionNotRespected, stageWrong, initMissing, memoryAllocation,
    workSpaceTooSmall, dstSizeTooSmall, srcSizeWrong, dstBufferNull, noForwardProgressDestFull,
    noForwardProgressInputEmpty, frameIndexTooLarge, seekableIo, dstBufferWrong, srcBufferWrong,
    sequenceProducerFailed, externalSequencesInvalid]

/-- The `size_t` an error is returned as: the negated code. -/
def result (code : ErrorCode) : ℕ := 2 ^ 64 - code.value

end ErrorCode

/-- The bound `ZSTD_error_maxCode` of the error range. -/
def maxCode : ℕ := 120

/-- `ZSTD_isError` on a `size_t`. -/
def zstdIsError (code : ℕ) : Bool := decide (2 ^ 64 - maxCode < code)

/-- The cast of a signed integer to `size_t`. -/
def sizeT (code : ℤ) : ℕ := (code % 2 ^ 64).toNat

/-- The cast of an unsigned integer to a signed one of the given width: the low
bits, read in two's complement. -/
def narrow (bits size : ℕ) : ℤ :=
  if size % 2 ^ bits < 2 ^ (bits - 1) then (size % 2 ^ bits : ℕ)
  else (size % 2 ^ bits : ℕ) - 2 ^ bits

/-- The cast of a `size_t` to `jint`. -/
def jint (size : ℕ) : ℤ := narrow 32 size

/-- The cast of a `size_t` to `jlong`. -/
def jlong (size : ℕ) : ℤ := narrow 64 size

/-- The cast of a Java `long` to `int`. -/
def toInt (value : ℤ) : ℤ := jint (sizeT value)

/-- The sum of two Java `long`s, which wraps around. -/
def addLong (a b : ℤ) : ℤ := jlong (sizeT (a + b))

/-- The sum of two Java `int`s, which wraps around. -/
def addInt (a b : ℤ) : ℤ := jint (sizeT (a + b))

/-- `Zstd.isError`, which takes a Java `long`. -/
def isError (code : ℤ) : Bool := zstdIsError (sizeT code)

/-- `Zstd.getErrorCode`, which takes a Java `long`. -/
def getErrorCode (code : ℤ) : ℤ :=
  if isError code then (2 ^ 64 - sizeT code : ℕ) else 0

/-- `Zstd.getErrorName`, which takes a Java `long`. -/
def getErrorName (code : ℤ) : String :=
  if isError code then
    match ErrorCode.all.find? fun c => (c.value : ℤ) = getErrorCode code with
    | some c => c.text
    | none => "Unspecified error code"
  else "No error detected"

/-- How the storage of a `ByteBuffer` can be reached: it is direct, or has an accessible
array, or neither. -/
inductive Kind
  | direct
  | array
  | other
  deriving DecidableEq

/-- The exceptions the modelled classes throw. -/
inductive JavaException
  | ioException (message : String)
  | zstdIOException (code : ℤ) (message : String)
  | zstdException (code : ℤ) (message : String)
  | illegalState (message : String)
  | illegalArgument (message : String)
  | indexOutOfBounds
  | arrayIndexOutOfBounds (index : ℤ)
  | negativeArraySize (size : ℤ)
  | runtimeException (message : String)
  | nullPointer
  /-- Whatever a callback of the application throws. -/
  | callback (fatal : Bool)
  deriving DecidableEq

/-- `new ZstdIOException(result)`. -/
def JavaException.ofIOResult (result : ℤ) : JavaException :=
  .zstdIOException (getErrorCode result) (getErrorName result)

/-- `new ZstdException(result)`. -/
def JavaException.ofResult (result : ℤ) : JavaException :=
  .zstdException (getErrorCode result) (getErrorName result)

/-- How a Java method ends. -/
inductive Outcome (α : Type)
  | returned (value : α)
  | threw (exception : JavaException)
  deriving DecidableEq

/-- On the values a Java `long` can have, exactly the 119 numbers below zero are
errors. -/
theorem isError_iff {code : ℤ} (hlow : -2 ^ 63 ≤ code) (hhigh : code < 2 ^ 63) :
    isError code = true ↔ -119 ≤ code ∧ code ≤ -1 := by
  unfold isError zstdIsError sizeT maxCode
  rw [decide_eq_true_iff]
  omega

theorem toInt_of_lt {value : ℤ} (hlow : 0 ≤ value) (hhigh : value < 2 ^ 31) :
    toInt value = value := by
  simp only [toInt, jint, narrow, sizeT]
  omega

theorem addInt_of_lt {a b : ℤ} (hlow : 0 ≤ a + b) (hhigh : a + b < 2 ^ 31) :
    addInt a b = a + b :=
  toInt_of_lt hlow hhigh

/-- Sums that wrap around are sums of the unsigned values. -/
theorem addLong_jlong (a b : ℕ) : addLong (jlong a) (jlong b) = jlong (a + b) := by
  simp only [addLong, jlong, narrow, sizeT]
  omega

/-- The narrowing of a number to 64 bits does not change its low 32 bits. -/
theorem toInt_jlong (size : ℕ) : toInt (jlong size) = jint size := by
  simp only [toInt, jlong, jint, narrow, sizeT]
  omega

/-- The error test in Java agrees with the one in zstd on an un-narrowed result. -/
theorem isError_jlong {size : ℕ} (hsize : size < 2 ^ 64) :
    isError (jlong size) = zstdIsError size := by
  have hback : sizeT (jlong size) = size := by
    simp only [sizeT, jlong, narrow]
    omega
  rw [isError, hback]

theorem jlong_of_lt {size : ℕ} (hsize : size < 2 ^ 63) : jlong size = size := by
  simp only [jlong, narrow]
  omega

theorem jint_of_lt {size : ℕ} (hsize : size < 2 ^ 31) : jint size = size := by
  simp only [jint, narrow]
  omega

theorem jint_bounds (size : ℕ) : -2 ^ 31 ≤ jint size ∧ jint size < 2 ^ 31 := by
  simp only [jint, narrow]
  omega

/-- The narrowing to a `jint` does not hide an error. -/
theorem isError_jint_of_zstdIsError {size : ℕ} (hsize : size < 2 ^ 64)
    (herror : zstdIsError size = true) : isError (jint size) = true := by
  have hbounds := jint_bounds size
  rw [isError_iff (by omega) (by omega)]
  have hlarge : 2 ^ 64 - 120 < size := of_decide_eq_true herror
  simp only [jint, narrow]
  omega

/-- A `size_t` that needs the 32nd bit is narrowed to a negative `jint`; the last
119 of them land in the error range. -/
theorem isError_jint_iff {size : ℕ} (hsize : size < 2 ^ 32) :
    isError (jint size) = true ↔ 2 ^ 32 - 119 ≤ size := by
  have hbounds := jint_bounds size
  rw [isError_iff (by omega) (by omega)]
  simp only [jint, narrow]
  omega

/-- Below `2 ^ 32` the narrowing keeps zero apart from all other values. -/
theorem jint_eq_zero_iff {size : ℕ} (hsize : size < 2 ^ 32) : jint size = 0 ↔ size = 0 := by
  simp only [jint, narrow]
  omega

/-- A result that is either an error code or a number below `2 ^ 31` survives the
narrowing: the error test gives the same answer before and after. -/
theorem isError_jint_of_small {size : ℕ} (hsize : size < 2 ^ 64)
    (hsmall : zstdIsError size = false → size < 2 ^ 31) :
    isError (jint size) = zstdIsError size := by
  cases herror : zstdIsError size with
  | true =>
      have hlow : 2 ^ 64 - 120 < size := by
        unfold zstdIsError maxCode at herror
        exact of_decide_eq_true herror
      have hbounds := jint_bounds size
      rw [isError_iff (by omega) (by omega)]
      simp only [jint, narrow]
      omega
  | false =>
      have hless := hsmall herror
      have hbounds := jint_bounds size
      rw [← Bool.not_eq_true, isError_iff (by omega) (by omega), jint_of_lt hless]
      omega

end ZstdJni.Native
