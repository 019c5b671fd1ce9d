/-
# The content size that a query reports

A header that is decoded declares a 64-bit content size, and a header that is not should be
told from every size by a negative result.  On the way to Java the size is cut to a
`size_t`, so that on a 32-bit build neither large sizes nor the value that stands for an
error survive; and the query for frames without a magic number answers zero where the header
cannot be decoded.
-/

import ZstdJni.Inspect.Model

namespace ZstdJni.Inspect

open ZstdJni.Foundation ZstdJni.Native ZstdJni.OneShot

/-- The format that a query asks for. -/
def formatOf (magicless : Bool) : Format := if magicless then .magicless else .zstd1

/-- The size of the content of a frame: skippable frames have none. -/
def contentSize (header : FrameHeader) : ℕ :=
  if header.frameType = .skippable then 0 else header.frameContentSize

/-- A result reports the content size of the header at the front of some bytes. -/
structure Faithful (w : WordSize) (magicless : Bool) (bytes : List Byte) (result : ℤ) : Prop where
  declared : ∀ header, getFrameHeader w (formatOf magicless) bytes = .decoded header →
    contentSize header < 2 ^ 63 → result = contentSize header
  undecoded : (∀ header, getFrameHeader w (formatOf magicless) bytes ≠ .decoded header) → result < 0

/-- The header is decoded, and its size is not one that a 32-bit `size_t` cuts; or it is not
decoded, and the query is the plain one of a 64-bit build. -/
def Reported (w : WordSize) (magicless : Bool) (bytes : List Byte) : Prop :=
  match getFrameHeader w (formatOf magicless) bytes with
  | .decoded header =>
    w = .bits64 ∨ contentSize header < 2 ^ 32 ∨ 2 ^ 63 ≤ contentSize header
  | _ => w = .bits64 ∧ magicless = false

/-- A part of something of a given length. -/
structure Extent (length : ℕ) where
  position : ℕ
  size : ℕ
  inside : position + size ≤ length

/-- The bytes of a part. -/
def Extent.of {length : ℕ} (e : Extent length) (bytes : List Byte) : List Byte :=
  window bytes e.position (e.position + e.size)

/-- Without a magic number there are no skippable frames. -/
theorem frameType_magicless {w : WordSize} {bytes : List Byte} {header : FrameHeader}
    (hheader : getFrameHeader w .magicless bytes = .decoded header) :
    header.frameType = .frame := by
  unfold getFrameHeader at hheader
  split_ifs at hheader with _ _ hmagic
  · exact absurd rfl hmagic.1
  · exact (decodeFields_decoded hheader).1

/-- What native code answers for a header that is decoded. -/
theorem decompressedSizeOf_decoded {w : WordSize} {magicless : Bool} {bytes : List Byte}
    {header : FrameHeader}
    (hheader : getFrameHeader w (formatOf magicless) bytes = .decoded header) :
    decompressedSizeOf w bytes magicless = contentSize header % 2 ^ w.bits := by
  cases magicless with
  | false =>
      have hplain : getFrameHeader w .zstd1 bytes = .decoded header := hheader
      rw [decompressedSizeOf, if_neg (by simp), zstdGetFrameContentSize, hplain]
      rfl
  | true =>
      have hmagicless : getFrameHeader w .magicless bytes = .decoded header := hheader
      rw [decompressedSizeOf, if_pos rfl, hmagicless, contentSize, frameType_magicless hmagicless]
      rfl

/-- What native code answers for a header that is not decoded. -/
theorem decompressedSizeOf_undecoded {w : WordSize} {magicless : Bool} {bytes : List Byte}
    (hnone : ∀ header, getFrameHeader w (formatOf magicless) bytes ≠ .decoded header) :
    decompressedSizeOf w bytes magicless =
      if magicless then 0 else contentSizeError % 2 ^ w.bits := by
  cases magicless with
  | false =>
      rw [decompressedSizeOf, if_neg (by simp), if_neg (by simp), zstdGetFrameContentSize]
      split
      · next header hheader => exact absurd hheader (hnone header)
      · rfl
  | true =>
      rw [decompressedSizeOf, if_pos rfl, if_pos rfl]
      split
      · next header hheader => exact absurd hheader (hnone header)
      · rfl

theorem contentSize_lt {w : WordSize} {format : Format} {bytes : List Byte} {header : FrameHeader}
    (hheader : getFrameHeader w format bytes = .decoded header) : contentSize header < 2 ^ 64 := by
  unfold contentSize
  split
  · decide
  · exact frameContentSize_lt hheader

/-- Only the plain query of a 64-bit build tells that a header is not decoded. -/
theorem faithful_undecoded_iff {w : WordSize} {magicless : Bool} {bytes : List Byte}
    (hnone : ∀ header, getFrameHeader w (formatOf magicless) bytes ≠ .decoded header) :
    Faithful w magicless bytes (getFrameContentSize0 w (some bytes) magicless) ↔
      w = .bits64 ∧ magicless = false := by
  have hresult : getFrameContentSize0 w (some bytes) magicless =
      jlong (if magicless then 0 else contentSizeError % 2 ^ w.bits) := by
    rw [← decompressedSizeOf_undecoded hnone]
    rfl
  have hfaithful : Faithful w magicless bytes (getFrameContentSize0 w (some bytes) magicless) ↔
      jlong (if magicless then 0 else contentSizeError % 2 ^ w.bits) < 0 := by
    rw [← hresult]
    constructor
    · exact fun h => h.undecoded hnone
    · exact fun h => ⟨fun header hheader => absurd hheader (hnone header), fun _ => h⟩
  rw [hfaithful]
  cases w <;> cases magicless <;> decide

/-- A query reports the content size exactly if nothing is cut and no error is hidden. -/
theorem faithful_iff (w : WordSize) (magicless : Bool) (bytes : List Byte) :
    Faithful w magicless bytes (getFrameContentSize0 w (some bytes) magicless) ↔
      Reported w magicless bytes := by
  unfold Reported
  cases hheader : getFrameHeader w (formatOf magicless) bytes with
  | decoded header =>
      have hlt := contentSize_lt hheader
      have hresult : getFrameContentSize0 w (some bytes) magicless =
          jlong (contentSize header % 2 ^ w.bits) := by
        rw [← decompressedSizeOf_decoded hheader]
        rfl
      have hfaithful : Faithful w magicless bytes (getFrameContentSize0 w (some bytes) magicless) ↔
          (contentSize header < 2 ^ 63 → jlong (contentSize header % 2 ^ w.bits) =
            contentSize header) := by
        rw [← hresult]
        constructor
        · exact fun h => h.declared header hheader
        · refine fun h => ⟨fun other hother => ?_, fun hnone => absurd hheader (hnone header)⟩
          obtain rfl := HeaderResult.decoded.inj (hheader.symm.trans hother)
          exact h
      rw [hfaithful]
      cases w with
      | bits64 =>
          refine iff_of_true (fun hsize => ?_) (.inl rfl)
          rw [WordSize.bits, Nat.mod_eq_of_lt hlt, jlong_of_lt hsize]
      | bits32 =>
          have hcut : contentSize header % 2 ^ WordSize.bits32.bits < 2 ^ 32 :=
            Nat.mod_lt _ (by decide)
          rw [jlong_of_lt (by omega)]
          simp only [reduceCtorEq, false_or, WordSize.bits]
          omega
  | wants size =>
      exact faithful_undecoded_iff (fun header h => nomatch hheader.symm.trans h)
  | error code =>
      exact faithful_undecoded_iff (fun header h => nomatch hheader.symm.trans h)

/-- A window inside of the array that starts in front of its end passes the checks. -/
theorem checkIndices_extent {src : JavaArray} (e : Extent src.bytes.length)
    (hstart : e.position < src.bytes.length) :
    checkIndices src e.position e.size = .ok () := by
  have hinside := e.inside
  unfold checkIndices
  rw [if_neg (by omega), if_neg (by omega)]

/-- A window that starts at the end of the array is refused. -/
theorem checkIndices_end {src : JavaArray} (e : Extent src.bytes.length)
    (hstart : ¬ e.position < src.bytes.length) :
    checkIndices src e.position e.size = .error (.arrayIndexOutOfBounds e.position) := by
  unfold checkIndices
  rw [if_pos (by omega)]

/-- The query on an array answers faithfully. -/
def ArrayFaithful (w : WordSize) (magicless : Bool) (src : JavaArray)
    (e : Extent src.bytes.length) : Prop :=
  ∃ result,
    (getFrameContentSize (nativeContentSize w src) src e.position e.size magicless).outcome =
    .returned result ∧ Faithful w magicless (e.of src.bytes) result

theorem arrayFaithful_iff (w : WordSize) (magicless : Bool) (src : JavaArray)
    (e : Extent src.bytes.length) :
    ArrayFaithful w magicless src e ↔
      e.position < src.bytes.length ∧ Reported w magicless (e.of src.bytes) := by
  unfold ArrayFaithful getFrameContentSize
  by_cases hstart : e.position < src.bytes.length
  · rw [checkIndices_extent e hstart, and_iff_right hstart, ← faithful_iff]
    constructor
    · rintro ⟨result, hresult, hfaithful⟩
      obtain rfl := Outcome.returned.inj hresult
      exact hfaithful
    · exact fun hfaithful => ⟨_, rfl, hfaithful⟩
  · rw [checkIndices_end e hstart]
    refine iff_of_false ?_ (fun h => hstart h.1)
    rintro ⟨result, hresult, -⟩
    exact (nomatch hresult)

/-- The query on a direct buffer answers faithfully. -/
def DirectFaithful (w : WordSize) (magicless : Bool) (bytes : List Byte) (e : Extent bytes.length) :
    Prop :=
  Faithful w magicless (e.of bytes)
    (getDirectByteBufferFrameContentSize w ⟨bytes.length, some bytes⟩ e.position e.size magicless)

theorem directFaithful_iff (w : WordSize) (magicless : Bool) (bytes : List Byte)
    (e : Extent bytes.length) :
    DirectFaithful w magicless bytes e ↔ Reported w magicless (e.of bytes) := by
  have hinside := e.inside
  have hbounds : ¬ ((e.position : ℤ) < 0 ∨ (e.size : ℤ) < 0 ∨
      (bytes.length : ℤ) - e.size < e.position) := by omega
  rw [← faithful_iff, DirectFaithful, getDirectByteBufferFrameContentSize, if_neg hbounds]
  rfl

/-- The two queries agree on an ordinary frame, with and without its magic number. -/
def AgreesOnFrame (w : WordSize) (frame : List Byte) : Prop :=
  ∀ header, getFrameHeader w .zstd1 frame = .decoded header → header.frameType = .frame →
    getFrameContentSize0 w (some (frame.drop 4)) true = getFrameContentSize0 w (some frame) false

theorem agreesOnFrame (w : WordSize) (frame : List Byte) : AgreesOnFrame w frame := by
  intro header hheader hframe
  have hmagic := eq_magicNumber_append hheader hframe
  have hlengthen := getFrameHeader_magicNumber w (frame.drop 4)
  rw [← hmagic, hheader] at hlengthen
  cases hrest : getFrameHeader w .magicless (frame.drop 4) with
  | decoded other =>
      rw [hrest] at hlengthen
      have hother := HeaderResult.decoded.inj hlengthen
      have hsize : contentSize header = contentSize other := by
        rw [hother]
        rfl
      have hplain : decompressedSizeOf w frame false = contentSize header % 2 ^ w.bits :=
        decompressedSizeOf_decoded hheader
      have hmagicless : decompressedSizeOf w (frame.drop 4) true = contentSize other % 2 ^ w.bits :=
        decompressedSizeOf_decoded hrest
      simp only [getFrameContentSize0, hplain, hmagicless, hsize]
  | wants size =>
      rw [hrest] at hlengthen
      exact (nomatch hlengthen)
  | error code =>
      rw [hrest] at hlengthen
      exact (nomatch hlengthen)

/-- For every width of a `size_t` and either format, the queries on arrays and on direct
buffers report the content size exactly if the header is decoded to a size that is not cut,
or is not decoded in a plain query of a 64-bit build; an array is not queried at its end.
On ordinary frames both formats agree. -/
theorem content_size_reported_iff (w : WordSize) (magicless : Bool) :
    (∀ (src : JavaArray) (e : Extent src.bytes.length), ArrayFaithful w magicless src e ↔
      e.position < src.bytes.length ∧ Reported w magicless (e.of src.bytes)) ∧
    (∀ (bytes : List Byte) (e : Extent bytes.length), DirectFaithful w magicless bytes e ↔
      Reported w magicless (e.of bytes)) ∧
    ∀ frame, AgreesOnFrame w frame :=
  ⟨arrayFaithful_iff w magicless, directFaithful_iff w magicless, agreesOnFrame w⟩

/-- A header without magic number and with the reserved bit set. -/
def reservedBit : JavaArray := ⟨[0x08, 0x00], by decide⟩

/-- The front of a frame that declares a content of four gigabytes and one byte. -/
def overFourGigabytes : JavaArray :=
  ⟨[0x28, 0xB5, 0x2F, 0xFD, 0xE0, 0x01, 0x00, 0x00, 0x00, 0x01, 0x00, 0x00, 0x00], by decide⟩

/-- A malformed header without magic number is answered with zero; a 32-bit build reports a
content size of one where four gigabytes more are declared, and takes an empty direct buffer
for one of almost four gigabytes. -/
theorem content_size_misreported :
    (getFrameContentSize (nativeContentSize .bits64 reservedBit) reservedBit 0 2 true).outcome =
      .returned 0 ∧
    (getFrameContentSize (nativeContentSize .bits64 overFourGigabytes) overFourGigabytes 0 13
      false).outcome =
      .returned 4294967297 ∧
    (getFrameContentSize (nativeContentSize .bits32 overFourGigabytes) overFourGigabytes 0 13
      false).outcome =
      .returned 1 ∧
    getDirectByteBufferFrameContentSize .bits32 ⟨0, some []⟩ 0 0 false = 4294967294 ∧
    ¬ ArrayFaithful .bits64 true reservedBit ⟨0, 2, by decide⟩ := by
  refine ⟨by decide, by decide, by decide, by decide, ?_⟩
  rw [arrayFaithful_iff]
  rintro ⟨-, hreported⟩
  have hplain : WordSize.bits64 = .bits64 ∧ true = false := hreported
  exact absurd hplain.2 (by decide)

end ZstdJni.Inspect
