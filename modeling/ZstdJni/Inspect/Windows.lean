/-
# The windows of the queries

A window that is handed to native code has to lie inside the array, as native code does
arithmetic on pointers with it.  The checks of `getFrameContentSize` and of
`findFrameCompressedSize` see to that.  Those of `decompressedSize` lack the tests for
negative arguments, and with a negative position the difference that bounds the size can
even wrap around.
-/

import ZstdJni.Inspect.Model

namespace ZstdJni.Inspect

open ZstdJni.Foundation ZstdJni.Native ZstdJni.OneShot

variable {src : JavaArray}

/-- A query throws `ArrayIndexOutOfBoundsException`, or hands over a window inside of the
array. -/
structure Validated (src : JavaArray) (inspection : Inspection) : Prop where
  refused : inspection.windows = [] →
    ∃ index, inspection.outcome = .threw (.arrayIndexOutOfBounds index)
  inside : ∀ w ∈ inspection.windows, 0 ≤ w.1 ∧ 0 ≤ w.2 ∧ w.1 + w.2 ≤ src.bytes.length

/-- A query that is refused. -/
theorem validated_refused (src : JavaArray) (index : ℤ) :
    Validated src ⟨.threw (.arrayIndexOutOfBounds index), []⟩ :=
  ⟨fun _ => ⟨index, rfl⟩, fun _ h => absurd h List.not_mem_nil⟩

/-- A query that hands over one window. -/
theorem validated_window_iff (outcome : Outcome ℤ) (srcPosition srcSize : ℤ) :
    Validated src ⟨outcome, [(srcPosition, srcSize)]⟩ ↔
      0 ≤ srcPosition ∧ 0 ≤ srcSize ∧ srcPosition + srcSize ≤ src.bytes.length := by
  constructor
  · intro hvalidated
    exact hvalidated.inside _ (List.mem_singleton_self _)
  · intro hinside
    refine ⟨fun h => absurd h (List.cons_ne_nil _ _), fun w hw => ?_⟩
    rwa [List.mem_singleton.mp hw]

/-- The checks with both signs leave only windows inside of the array. -/
theorem checkIndices_cases (src : JavaArray) (srcPosition srcSize : ℤ) :
    (∃ index, checkIndices src srcPosition srcSize = .error (.arrayIndexOutOfBounds index)) ∨
    (checkIndices src srcPosition srcSize = .ok () ∧ 0 ≤ srcPosition ∧ 0 ≤ srcSize ∧
      srcPosition + srcSize ≤ src.bytes.length) := by
  unfold checkIndices
  split
  · exact .inl ⟨_, rfl⟩
  · split
    · exact .inl ⟨_, rfl⟩
    · refine .inr ⟨rfl, ?_⟩
      omega

theorem validated_getFrameContentSize (native : ℤ → ℤ → Bool → ℤ) (src : JavaArray)
    (srcPosition srcSize : ℤ) (magicless : Bool) :
    Validated src (getFrameContentSize native src srcPosition srcSize magicless) := by
  unfold getFrameContentSize
  rcases checkIndices_cases src srcPosition srcSize with ⟨index, hcheck⟩ | ⟨hcheck, hinside⟩
  · rw [hcheck]
    exact validated_refused src index
  · rw [hcheck]
    exact (validated_window_iff _ _ _).mpr hinside

theorem validated_findFrameCompressedSize (native : ℤ → ℤ → ℤ) (src : JavaArray)
    (srcPosition srcSize : ℤ) :
    Validated src (findFrameCompressedSize native src srcPosition srcSize) := by
  unfold findFrameCompressedSize
  rcases checkIndices_cases src srcPosition srcSize with ⟨index, hcheck⟩ | ⟨hcheck, hinside⟩
  · rw [hcheck]
    exact validated_refused src index
  · rw [hcheck]
    exact (validated_window_iff _ _ _).mpr hinside

/-- The checks of `decompressedSize` see to it that the window is inside of the array: they
refuse the arguments, or these are not negative. -/
def SizeChecked (src : JavaArray) (srcPosition srcSize : ℤ) : Prop :=
  src.bytes.length ≤ srcPosition ∨ toInt (src.bytes.length - srcPosition) < srcSize ∨
    0 ≤ srcPosition ∧ 0 ≤ srcSize

/-- The difference that bounds the size, for a position inside of the array. -/
theorem toInt_remaining {srcPosition : ℤ} (hlow : 0 ≤ srcPosition)
    (hhigh : srcPosition < src.bytes.length) :
    toInt (src.bytes.length - srcPosition) = src.bytes.length - srcPosition := by
  have hlength := src.length_lt
  exact toInt_of_lt (by omega) (by omega)

theorem validated_decompressedSize_iff (native : ℤ → ℤ → Bool → ℤ) (src : JavaArray)
    (srcPosition srcSize : ℤ) (magicless : Bool) :
    Validated src (decompressedSize native src srcPosition srcSize magicless) ↔
      SizeChecked src srcPosition srcSize := by
  unfold decompressedSize SizeChecked
  by_cases hposition : src.bytes.length ≤ srcPosition
  · rw [if_pos hposition]
    exact iff_of_true (validated_refused src _) (.inl hposition)
  · rw [if_neg hposition]
    by_cases hsize : toInt (src.bytes.length - srcPosition) < srcSize
    · rw [if_pos hsize]
      exact iff_of_true (validated_refused src _) (.inr (.inl hsize))
    · rw [if_neg hsize, validated_window_iff, or_iff_right hposition, or_iff_right hsize]
      constructor
      · exact fun h => ⟨h.1, h.2.1⟩
      · rintro ⟨hlow, hsign⟩
        rw [toInt_remaining hlow (by omega)] at hsize
        exact ⟨hlow, hsign, by omega⟩

/-- Without a size of its own, a query is checked exactly if the position is not negative. -/
theorem sizeChecked_remaining_iff (src : JavaArray) (srcPosition : ℤ) :
    SizeChecked src srcPosition (toInt (src.bytes.length - srcPosition)) ↔ 0 ≤ srcPosition := by
  unfold SizeChecked
  constructor
  · rintro (h | h | h)
    · omega
    · omega
    · exact h.1
  · intro hlow
    by_cases hposition : src.bytes.length ≤ srcPosition
    · exact .inl hposition
    · have hhigh : srcPosition < src.bytes.length := by omega
      have hremaining := toInt_remaining hlow hhigh
      exact .inr (.inr ⟨hlow, by omega⟩)

/-- Every query hands over a window inside of the array or throws, up to `decompressedSize`,
which does so exactly if its checks refuse the arguments or these are not negative. -/
theorem windows_validated_iff (native : ℤ → ℤ → Bool → ℤ) (nativeFind : ℤ → ℤ → ℤ)
    (src : JavaArray) (srcPosition srcSize : ℤ) (magicless : Bool) :
    (Validated src (getFrameContentSize native src srcPosition srcSize magicless) ∧
      Validated src (getFrameContentSize3 native src srcPosition srcSize) ∧
      Validated src (getFrameContentSize2 native src srcPosition) ∧
      Validated src (getFrameContentSize1 native src)) ∧
    (Validated src (findFrameCompressedSize nativeFind src srcPosition srcSize) ∧
      Validated src (findFrameCompressedSize2 nativeFind src srcPosition) ∧
      Validated src (findFrameCompressedSize1 nativeFind src)) ∧
    (Validated src (decompressedSize native src srcPosition srcSize magicless) ↔
      SizeChecked src srcPosition srcSize) ∧
    (Validated src (decompressedSize3 native src srcPosition srcSize) ↔
      SizeChecked src srcPosition srcSize) ∧
    (Validated src (decompressedSize2 native src srcPosition) ↔ 0 ≤ srcPosition) ∧
    Validated src (decompressedSize1 native src) := by
  have hremaining (srcPosition : ℤ) :
      Validated src (decompressedSize2 native src srcPosition) ↔ 0 ≤ srcPosition :=
    (validated_decompressedSize_iff native src srcPosition _ false).trans
      (sizeChecked_remaining_iff src srcPosition)
  refine ⟨⟨?_, ?_, ?_, ?_⟩, ⟨?_, ?_, ?_⟩, ?_, ?_, hremaining srcPosition, ?_⟩
  · exact validated_getFrameContentSize _ _ _ _ _
  · exact validated_getFrameContentSize _ _ _ _ _
  · exact validated_getFrameContentSize _ _ _ _ _
  · exact validated_getFrameContentSize _ _ _ _ _
  · exact validated_findFrameCompressedSize _ _ _ _
  · exact validated_findFrameCompressedSize _ _ _ _
  · exact validated_findFrameCompressedSize _ _ _ _
  · exact validated_decompressedSize_iff _ _ _ _ _
  · exact validated_decompressedSize_iff _ _ _ _ _
  · exact (hremaining 0).mpr (Int.le_refl 0)

/-- An array of eight bytes. -/
def eightBytes : JavaArray := ⟨[0, 1, 2, 3, 4, 5, 6, 7], by decide⟩

/-- `decompressedSize` hands over windows before the array, and windows of a negative length:
the byte in front of the array, a length of -1, and the remaining length for a position of
-1. -/
theorem window_outside :
    (decompressedSize (nativeContentSize .bits64 eightBytes) eightBytes (-1) 1 false).windows =
      [(-1, 1)] ∧
    (decompressedSize (nativeContentSize .bits64 eightBytes) eightBytes 0 (-1) false).windows =
      [(0, -1)] ∧
    (decompressedSize2 (nativeContentSize .bits64 eightBytes) eightBytes (-1)).windows =
      [(-1, 9)] ∧
    ¬ Validated eightBytes
      (decompressedSize (nativeContentSize .bits64 eightBytes) eightBytes (-1) 1 false) := by
  refine ⟨rfl, rfl, rfl, fun hvalidated => ?_⟩
  have hinside := hvalidated.inside (-1, 1) (List.mem_singleton_self _)
  exact absurd hinside.1 (by decide)

end ZstdJni.Inspect
