/-
# Frame headers

`ZSTD_getFrameHeader_advanced`, for the format with a magic number and the one without,
and for both widths of a `size_t`: the latter only enters through the largest window that
is accepted.  The content size is an unsigned 64-bit number with two values that are no
sizes.

A frame without its magic number is decoded to the same header, up to the length of the
header itself.
-/

import Mathlib.Data.Nat.Bitwise
import ZstdJni.Native.DStream

namespace ZstdJni.Native

open ZstdJni.Foundation

/-- The width of a `size_t`. -/
inductive WordSize
  | bits32
  | bits64
  deriving DecidableEq

/-- How many bits it has. -/
def WordSize.bits : WordSize → ℕ
  | bits32 => 32
  | bits64 => 64

/-- `ZSTD_WINDOWLOG_MAX`. -/
def WordSize.windowLogMax : WordSize → ℕ
  | bits32 => 30
  | bits64 => 31

/-- `ZSTD_format_e`. -/
inductive Format
  | zstd1
  | magicless
  deriving DecidableEq

/-- `ZSTD_startingInputLength`: the magic number, if there is one, and the descriptor. -/
def Format.startingInputLength : Format → ℕ
  | zstd1 => 5
  | magicless => 1

/-- `ZSTD_FrameType_e`. -/
inductive FrameType
  | frame
  | skippable
  deriving DecidableEq

/-- `ZSTD_FrameHeader`. -/
structure FrameHeader where
  frameContentSize : ℕ
  windowSize : ℕ
  blockSizeMax : ℕ
  frameType : FrameType
  headerSize : ℕ
  dictID : ℕ
  checksumFlag : ℕ
  deriving DecidableEq

/-- What `ZSTD_getFrameHeader_advanced` reports: the header, how many bytes it wants to see,
or an error. -/
inductive HeaderResult
  | decoded (header : FrameHeader)
  | wants (size : ℕ)
  | error (code : ErrorCode)
  deriving DecidableEq

/-- `ZSTD_MAGICNUMBER`, in the order of its bytes. -/
def magicNumber : List Byte := [0x28, 0xB5, 0x2F, 0xFD]

/-- `ZSTD_MAGIC_SKIPPABLE_START`, in the order of its bytes. -/
def skippableStart : List Byte := [0x50, 0x2A, 0x4D, 0x18]

/-- `ZSTD_CONTENTSIZE_UNKNOWN`. -/
def contentSizeUnknown : ℕ := 2 ^ 64 - 1

/-- `ZSTD_CONTENTSIZE_ERROR`. -/
def contentSizeError : ℕ := 2 ^ 64 - 2

/-- `MEM_readLE16`, `MEM_readLE32` and `MEM_readLE64` at a position, by the number of bytes;
with one byte it is `ip[pos]`. -/
def readLE (bytes : List Byte) (pos count : ℕ) : ℕ :=
  littleEndian (window bytes pos (pos + count))

/-- A number is one of the 16 magic numbers of skippable frames. -/
def isSkippableMagic (magic : ℕ) : Bool :=
  magic &&& 0xFFFFFFF0 == littleEndian skippableStart

/-- `ZSTD_did_fieldSize`. -/
def didFieldSize : ℕ → ℕ
  | 0 => 0
  | 1 => 1
  | 2 => 2
  | _ => 4

/-- `ZSTD_fcs_fieldSize`. -/
def fcsFieldSize : ℕ → ℕ
  | 0 => 0
  | 1 => 2
  | 2 => 4
  | _ => 8

/-- How many bytes of fields a descriptor announces. -/
def fieldsSize (fhd : ℕ) : ℕ :=
  let dictID := fhd &&& 3
  let singleSegment := (fhd >>> 5) &&& 1
  let fcsId := fhd >>> 6
  (if singleSegment = 0 then 1 else 0) + didFieldSize dictID + fcsFieldSize fcsId
    + (if singleSegment ≠ 0 ∧ fcsId = 0 then 1 else 0)

/-- `ZSTD_frameHeaderSize_internal`, of a source that reaches to the descriptor. -/
def frameHeaderSize (format : Format) (bytes : List Byte) : ℕ :=
  let minInputSize := format.startingInputLength
  minInputSize + fieldsSize (readLE bytes (minInputSize - 1) 1)

/-- The content size field that starts at a position. -/
def readContentSize (bytes : List Byte) (pos fcsID singleSegment : ℕ) : ℕ :=
  match fcsID with
  | 0 => if singleSegment ≠ 0 then readLE bytes pos 1 else contentSizeUnknown
  | 1 => readLE bytes pos 2 + 256
  | 2 => readLE bytes pos 4
  | _ => readLE bytes pos 8

/-- The part of `ZSTD_getFrameHeader_advanced` that decodes the descriptor and the fields
behind it. -/
def decodeFields (w : WordSize) (format : Format) (bytes : List Byte) : HeaderResult :=
  let minInputSize := format.startingInputLength
  let fhdByte := readLE bytes (minInputSize - 1) 1
  let dictIDSizeCode := fhdByte &&& 3
  let checksumFlag := (fhdByte >>> 2) &&& 1
  let singleSegment := (fhdByte >>> 5) &&& 1
  let fcsID := fhdByte >>> 6
  let wlByte := readLE bytes minInputSize 1
  let windowLog := (wlByte >>> 3) + 10
  if fhdByte &&& 0x08 ≠ 0 then .error .frameParameterUnsupported
  else if singleSegment = 0 ∧ w.windowLogMax < windowLog then .error .frameParameterWindowTooLarge
  else
    let pos := minInputSize + (if singleSegment = 0 then 1 else 0)
    let dictID := readLE bytes pos (didFieldSize dictIDSizeCode)
    let pos := pos + didFieldSize dictIDSizeCode
    let frameContentSize := readContentSize bytes pos fcsID singleSegment
    let windowSize := if singleSegment ≠ 0 then frameContentSize
      else 2 ^ windowLog + 2 ^ windowLog / 8 * (wlByte &&& 7)
    .decoded
      { frameContentSize := frameContentSize
        windowSize := windowSize
        blockSizeMax := min windowSize 131072
        frameType := .frame
        headerSize := frameHeaderSize format bytes
        dictID := dictID
        checksumFlag := checksumFlag }

/-- The first bytes of a source that is too short do not rule out a magic number: they are
written over it, and the number is still one. -/
def startsLikeMagic (bytes : List Byte) : Bool :=
  littleEndian (overwrite magicNumber 0 (bytes.take 4)) == littleEndian magicNumber ||
    isSkippableMagic (littleEndian (overwrite skippableStart 0 (bytes.take 4)))

/-- `ZSTD_getFrameHeader_advanced`. -/
def getFrameHeader (w : WordSize) (format : Format) (bytes : List Byte) : HeaderResult :=
  if bytes.length < format.startingInputLength then
    if 0 < bytes.length ∧ format ≠ .magicless ∧ startsLikeMagic bytes = false then
      .error .prefixUnknown
    else .wants format.startingInputLength
  else if format ≠ .magicless ∧ readLE bytes 0 4 ≠ littleEndian magicNumber then
    if isSkippableMagic (readLE bytes 0 4) then
      if bytes.length < 8 then .wants 8
      else
        .decoded
          { frameContentSize := readLE bytes 4 4
            windowSize := 0
            blockSizeMax := 0
            frameType := .skippable
            headerSize := 8
            dictID := readLE bytes 0 4 - littleEndian skippableStart
            checksumFlag := 0 }
    else .error .prefixUnknown
  else if bytes.length < frameHeaderSize format bytes then .wants (frameHeaderSize format bytes)
  else decodeFields w format bytes

/-- `ZSTD_getFrameContentSize`, built without support for legacy formats. -/
def zstdGetFrameContentSize (w : WordSize) (bytes : List Byte) : ℕ :=
  match getFrameHeader w .zstd1 bytes with
  | .decoded header => if header.frameType = .skippable then 0 else header.frameContentSize
  | _ => contentSizeError

theorem readLE_lt (bytes : List Byte) (pos count : ℕ) : readLE bytes pos count < 256 ^ count := by
  refine Nat.lt_of_lt_of_le (littleEndian_lt _) (Nat.pow_le_pow_right (by decide) ?_)
  simp only [window, List.length_take, List.length_drop]
  omega

theorem readContentSize_lt (bytes : List Byte) (pos fcsID singleSegment : ℕ) :
    readContentSize bytes pos fcsID singleSegment < 2 ^ 64 := by
  unfold readContentSize
  split
  · split
    · have hlt := readLE_lt bytes pos 1
      omega
    · decide
  · have hlt := readLE_lt bytes pos 2
    omega
  · have hlt := readLE_lt bytes pos 4
    omega
  · have hlt := readLE_lt bytes pos 8
    omega

/-- What the fields of a header are decoded to. -/
theorem decodeFields_decoded {w : WordSize} {format : Format} {bytes : List Byte}
    {header : FrameHeader} (hheader : decodeFields w format bytes = .decoded header) :
    header.frameType = .frame ∧ header.frameContentSize < 2 ^ 64 := by
  unfold decodeFields at hheader
  simp only at hheader
  split at hheader
  · exact (nomatch hheader)
  · split at hheader
    · exact (nomatch hheader)
    · obtain rfl := HeaderResult.decoded.inj hheader
      exact ⟨rfl, readContentSize_lt _ _ _ _⟩

/-- The content size of a header has 64 bits. -/
theorem frameContentSize_lt {w : WordSize} {format : Format} {bytes : List Byte}
    {header : FrameHeader} (hheader : getFrameHeader w format bytes = .decoded header) :
    header.frameContentSize < 2 ^ 64 := by
  unfold getFrameHeader at hheader
  split_ifs at hheader
  · obtain rfl := HeaderResult.decoded.inj hheader
    have hlt := readLE_lt bytes 4 4
    exact Nat.lt_trans hlt (by decide)
  · exact (decodeFields_decoded hheader).2

/-- Reading behind the magic number. -/
theorem readLE_magicNumber (rest : List Byte) (pos count : ℕ) :
    readLE (magicNumber ++ rest) (pos + 4) count = readLE rest pos count := by
  have htake : (magicNumber ++ rest).take (pos + 4 + count) =
    magicNumber ++ rest.take (pos + count) := by
    rw [show pos + 4 + count = magicNumber.length + (pos + count) from by
      simp only [magicNumber, List.length_cons, List.length_nil]
      omega, List.take_length_add_append]
  have hdrop (tail : List Byte) : (magicNumber ++ tail).drop (pos + 4) = tail.drop pos := by
    rw [show pos + 4 = magicNumber.length + pos from Nat.add_comm pos 4,
      List.drop_length_add_append]
  rw [readLE, window, htake, hdrop, readLE, window]

/-- The descriptor behind the magic number. -/
theorem readLE_descriptor (rest : List Byte) :
    readLE (magicNumber ++ rest) 4 1 = readLE rest 0 1 :=
  readLE_magicNumber rest 0 1

/-- The header with a magic number is four bytes longer. -/
theorem frameHeaderSize_magicNumber (rest : List Byte) :
    frameHeaderSize .zstd1 (magicNumber ++ rest) = frameHeaderSize .magicless rest + 4 := by
  simp only [frameHeaderSize, Format.startingInputLength, Nat.reduceSub, readLE_descriptor]
  omega

theorem readLE_fields (rest : List Byte) (pos count : ℕ) :
    readLE (magicNumber ++ rest) (5 + pos) count = readLE rest (1 + pos) count := by
  rw [← readLE_magicNumber rest (1 + pos) count]
  congr 1
  omega

/-- The same header with a magic number in front. -/
def HeaderResult.lengthen : HeaderResult → HeaderResult
  | .decoded header => .decoded { header with headerSize := header.headerSize + 4 }
  | .wants size => .wants (size + 4)
  | .error code => .error code

/-- The fields behind the magic number are decoded as those of a frame without one. -/
theorem decodeFields_magicNumber (w : WordSize) (rest : List Byte) :
    decodeFields w .zstd1 (magicNumber ++ rest) = (decodeFields w .magicless rest).lengthen := by
  have hcontent (pos fcsID singleSegment : ℕ) :
      readContentSize (magicNumber ++ rest) (5 + pos) fcsID singleSegment =
        readContentSize rest (1 + pos) fcsID singleSegment := by
    simp only [readContentSize, readLE_fields]
  have hwindow : readLE (magicNumber ++ rest) 5 1 = readLE rest 1 1 := readLE_fields rest 0 1
  simp only [decodeFields, Format.startingInputLength, Nat.reduceSub, Nat.add_assoc]
  simp only [readLE_descriptor, hwindow, hcontent, readLE_fields, frameHeaderSize_magicNumber]
  by_cases hreserved : readLE rest 0 1 &&& 0x08 ≠ 0
  · rw [if_pos hreserved, if_pos hreserved]
    rfl
  · rw [if_neg hreserved, if_neg hreserved]
    by_cases hlarge : (readLE rest 0 1 >>> 5) &&& 1 = 0 ∧
      w.windowLogMax < (readLE rest 1 1 >>> 3) + 10
    · rw [if_pos hlarge, if_pos hlarge]
      rfl
    · rw [if_neg hlarge, if_neg hlarge, HeaderResult.lengthen]
      congr

/-- A frame without its magic number is decoded to the header of the whole frame, up to the
length of the header. -/
theorem getFrameHeader_magicNumber (w : WordSize) (rest : List Byte) :
    getFrameHeader w .zstd1 (magicNumber ++ rest) =
      (getFrameHeader w .magicless rest).lengthen := by
  have hlength : (magicNumber ++ rest).length = rest.length + 4 := by
    rw [List.length_append, Nat.add_comm]
    rfl
  have hmagic : readLE (magicNumber ++ rest) 0 4 = littleEndian magicNumber := rfl
  have hstart : Format.magicless.startingInputLength = 1 := rfl
  have hstart' : Format.zstd1.startingInputLength = 5 := rfl
  unfold getFrameHeader
  rw [hlength, hmagic, frameHeaderSize_magicNumber]
  by_cases hshort : rest.length < Format.magicless.startingInputLength
  · obtain rfl : rest = [] := List.length_eq_zero_iff.mp (by omega)
    rfl
  · have hplain : ¬ (Format.zstd1 ≠ .magicless ∧ littleEndian magicNumber ≠
      littleEndian magicNumber) :=
      fun h => h.2 rfl
    have hnone : ¬ (Format.magicless ≠ .magicless ∧ readLE rest 0 4 ≠ littleEndian magicNumber) :=
      fun h => h.1 rfl
    rw [if_neg hshort, if_neg (by omega), if_neg hplain, if_neg hnone]
    by_cases hfields : rest.length < frameHeaderSize .magicless rest
    · rw [if_pos hfields, if_pos (by omega)]
      rfl
    · rw [if_neg hfields, if_neg (by omega)]
      exact decodeFields_magicNumber w rest

theorem littleEndian_inj {first second : List Byte} (hlength : first.length = second.length)
    (hvalue : littleEndian first = littleEndian second) : first = second := by
  induction first generalizing second with
  | nil => exact (List.length_eq_zero_iff.mp hlength.symm).symm
  | cons a first ih =>
      cases second with
      | nil => exact (nomatch hlength)
      | cons b second =>
          have ha := a.toNat_lt
          have hb := b.toNat_lt
          simp only [littleEndian] at hvalue
          have hhead : a = b := UInt8.toNat_inj.mp (by omega)
          rw [hhead, ih (by simpa using hlength) (by omega)]

/-- A header that is decoded as that of an ordinary frame starts with the magic number. -/
theorem eq_magicNumber_append {w : WordSize} {bytes : List Byte} {header : FrameHeader}
    (hheader : getFrameHeader w .zstd1 bytes = .decoded header)
    (hframe : header.frameType = .frame) : bytes = magicNumber ++ bytes.drop 4 := by
  unfold getFrameHeader at hheader
  split_ifs at hheader with hshort _ hmagic _ _ hfields
  · obtain rfl := HeaderResult.decoded.inj hheader
    exact (nomatch hframe)
  · have hfour : 4 ≤ bytes.length := by
      have hstart : Format.zstd1.startingInputLength = 5 := rfl
      omega
    have hvalue : littleEndian (bytes.take 4) = littleEndian magicNumber := by
      by_contra hne
      exact hmagic ⟨by simp, hne⟩
    have htake : bytes.take 4 = magicNumber :=
      littleEndian_inj (by simp [magicNumber, Nat.min_eq_left hfour]) hvalue
    rw [← htake, List.take_append_drop]

end ZstdJni.Native
