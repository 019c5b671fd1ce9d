/-
# The size walk

`calculateContentSizeAndFrames` follows the decomposition of the source into frames.  It
succeeds exactly if the frames make up the whole source and their declared sizes are
admitted: no size is in the error range, and neither a size nor a running sum, read as a
signed 64-bit number, is above the limit.
-/

import ZstdJni.OneShot.Model

namespace ZstdJni.OneShot

open ZstdJni.Foundation ZstdJni.Native

variable {Z : FrameApi} {src : JavaArray} {front rest : List Byte}

/-- The sizes that the walk admits when the sizes before them add up to `sum`. -/
def Admitted (maxSize : ℤ) : ℕ → List ℕ → Prop
  | _, [] => True
  | sum, size :: sizes =>
    zstdIsError size = false ∧ jlong size ≤ maxSize ∧ jlong (sum + size) ≤ maxSize ∧
      Admitted maxSize (sum + size) sizes

/-- The running sums that the walk tests are the sums of the fronts. -/
theorem admitted_iff (maxSize : ℤ) (sum : ℕ) (sizes : List ℕ) :
    Admitted maxSize sum sizes ↔
      (∀ size ∈ sizes, zstdIsError size = false) ∧ (∀ size ∈ sizes, jlong size ≤ maxSize) ∧
        ∀ front, front <+: sizes → front ≠ [] → jlong (sum + front.sum) ≤ maxSize := by
  induction sizes generalizing sum with
  | nil =>
      refine ⟨fun _ => ⟨by simp, by simp, fun front hfront hne => ?_⟩, fun _ => trivial⟩
      exact absurd (List.prefix_nil.mp hfront) hne
  | cons size sizes ih =>
      rw [Admitted, ih]
      constructor
      · rintro ⟨hknown, hsize, hsum, hknowns, hsizes, hsums⟩
        refine ⟨List.forall_mem_cons.mpr ⟨hknown, hknowns⟩,
          List.forall_mem_cons.mpr ⟨hsize, hsizes⟩, fun front hfront hne => ?_⟩
        cases front with
        | nil => exact absurd rfl hne
        | cons first front =>
            obtain ⟨rfl, htail⟩ := List.cons_prefix_cons.mp hfront
            cases front with
            | nil => simpa using hsum
            | cons second front =>
                have hrest := hsums _ htail (List.cons_ne_nil _ _)
                rwa [List.sum_cons, ← Nat.add_assoc]
      · rintro ⟨hknowns, hsizes, hsums⟩
        obtain ⟨hknown, hknowns⟩ := List.forall_mem_cons.mp hknowns
        obtain ⟨hsize, hsizes⟩ := List.forall_mem_cons.mp hsizes
        refine ⟨hknown, hsize, ?_, hknowns, hsizes, fun front hfront hne => ?_⟩
        · simpa using hsums [size] (by simp) (List.cons_ne_nil _ _)
        · have hall := hsums (size :: front) (List.cons_prefix_cons.mpr ⟨rfl, hfront⟩)
            (List.cons_ne_nil _ _)
          rwa [List.sum_cons, ← Nat.add_assoc] at hall

/-- Sizes that add up to no more than the limit and an array can hold are admitted. -/
theorem admitted_of_sum_le {maxSize : ℤ} {sum : ℕ} {sizes : List ℕ}
    (hlimit : ((sum + sizes.sum : ℕ) : ℤ) ≤ maxSize) (hint : sum + sizes.sum < 2 ^ 31) :
    Admitted maxSize sum sizes := by
  induction sizes generalizing sum with
  | nil => trivial
  | cons size sizes ih =>
      rw [List.sum_cons] at hlimit hint
      refine ⟨?_, ?_, ?_, ih (by omega) (by omega)⟩
      · rw [zstdIsError, decide_eq_false_iff_not, maxCode]
        omega
      · rw [jlong_of_lt (by omega)]
        omega
      · rw [jlong_of_lt (by omega)]
        omega

/-- What the walk records of a frame. -/
def frameData (Z : FrameApi) (encoded : List Byte) : FrameData :=
  ⟨jlong (Z.getFrameContentSize encoded), encoded.length⟩

theorem part_eq (hsrc : src.bytes = front ++ rest) (size : ℕ) :
    src.part front.length size = rest.take size := by
  have hstart : (front.length : ℤ).toNat = front.length := Int.toNat_natCast _
  have hend : ((front.length : ℤ) + size).toNat = front.length + size := by omega
  rw [JavaArray.part, hstart, hend, window, hsrc, List.take_append,
    List.take_of_length_le (Nat.le_add_right _ _), List.drop_append_of_le_length (Nat.le_refl _),
    List.drop_length, List.nil_append, Nat.add_sub_cancel_left]

theorem checkIndices_part (hsrc : src.bytes = front ++ rest) (hrest : rest ≠ []) {size : ℕ}
    (hsize : size ≤ rest.length) : checkIndices src front.length size = .ok () := by
  have hlength : src.bytes.length = front.length + rest.length := by
    rw [hsrc, List.length_append]
  have hpositive := List.length_pos_iff.mpr hrest
  rw [checkIndices, if_neg (by omega), if_neg (by omega)]

/-- Looking for a frame at a position inside the array. -/
theorem findFrameCompressedSize_part (hsrc : src.bytes = front ++ rest) (hrest : rest ≠ []) :
    findFrameCompressedSize Z src front.length =
      if zstdIsError (Z.findFrameCompressedSize rest) then
        .error (.ofResult (jlong (Z.findFrameCompressedSize rest)))
      else .ok (Z.findFrameCompressedSize rest) := by
  have hlength : src.bytes.length = front.length + rest.length := by
    rw [hsrc, List.length_append]
  have hlt := src.length_lt
  have hsize : toInt (src.bytes.length - front.length) = rest.length := by
    rw [toInt_of_lt (by omega) (by omega)]
    omega
  simp only [findFrameCompressedSize, hsize, checkIndices_part hsrc hrest (Nat.le_refl _),
    part_eq hsrc, List.take_length, isError_jlong (Z.find_lt rest)]
  split_ifs with hfind
  · rfl
  · have hbound := Z.find_size rest (by simpa using hfind)
    rw [jlong_of_lt (by omega)]

/-- The content size of the frame at a position inside the array. -/
theorem getFrameContentSize_part (hsrc : src.bytes = front ++ rest)
    (hfind : zstdIsError (Z.findFrameCompressedSize rest) = false) :
    getFrameContentSize Z src front.length (toInt (Z.findFrameCompressedSize rest)) =
      .ok (jlong (Z.getFrameContentSize (rest.take (Z.findFrameCompressedSize rest)))) := by
  have hlength : src.bytes.length = front.length + rest.length := by
    rw [hsrc, List.length_append]
  have hlt := src.length_lt
  obtain ⟨hpositive, hbound⟩ := Z.find_size rest hfind
  have hrest : rest ≠ [] := List.length_pos_iff.mp (by omega)
  rw [toInt_of_lt (by omega) (by omega)]
  simp only [getFrameContentSize, checkIndices_part hsrc hrest hbound, part_eq hsrc]

theorem checkContentSize_jlong {size : ℕ} (hsize : size < 2 ^ 64) :
    checkContentSize (jlong size) = .ok () ↔ zstdIsError size = false := by
  rw [checkContentSize, isError_jlong hsize]
  split_ifs with herror hunknown <;> simp [herror]

/-- The frame at a position inside the array, if there is one and its size is known. -/
theorem create_part (hsrc : src.bytes = front ++ rest)
    (hfind : zstdIsError (Z.findFrameCompressedSize rest) = false)
    (hknown : zstdIsError
      (Z.getFrameContentSize (rest.take (Z.findFrameCompressedSize rest))) = false) :
    FrameData.create Z src front.length =
      .ok (frameData Z (rest.take (Z.findFrameCompressedSize rest))) := by
  obtain ⟨hpositive, hbound⟩ := Z.find_size rest hfind
  have hrest : rest ≠ [] := List.length_pos_iff.mp (by omega)
  have hcheck := (checkContentSize_jlong (Z.contentSize_lt _)).mpr hknown
  simp only [FrameData.create, findFrameCompressedSize_part hsrc hrest, hfind,
    getFrameContentSize_part hsrc hfind, hcheck, frameData, List.length_take,
    Nat.min_eq_left hbound, Bool.false_eq_true, if_false]

/-- No frame at a position inside the array, or one of unknown size. -/
theorem create_part_error (hsrc : src.bytes = front ++ rest) (hrest : rest ≠ [])
    (hbad : ¬ (zstdIsError (Z.findFrameCompressedSize rest) = false ∧ zstdIsError
      (Z.getFrameContentSize (rest.take (Z.findFrameCompressedSize rest))) = false)) :
    ∃ e, FrameData.create Z src front.length = .error e := by
  cases hfind : zstdIsError (Z.findFrameCompressedSize rest) with
  | true =>
      refine ⟨.ofResult (jlong (Z.findFrameCompressedSize rest)), ?_⟩
      simp only [FrameData.create, findFrameCompressedSize_part hsrc hrest, hfind, if_true]
  | false =>
      have hcheck := mt (checkContentSize_jlong (Z.contentSize_lt _)).mp fun h => hbad ⟨hfind, h⟩
      simp only [FrameData.create, findFrameCompressedSize_part hsrc hrest, hfind,
        getFrameContentSize_part hsrc hfind, Bool.false_eq_true, if_false]
      cases hresult : checkContentSize
          (jlong (Z.getFrameContentSize (rest.take (Z.findFrameCompressedSize rest)))) with
      | error e => exact ⟨e, rfl⟩
      | ok u => exact absurd hresult hcheck

theorem declaredSizes_frame {bytes : List Byte}
    (hfind : zstdIsError (Z.findFrameCompressedSize bytes) = false) :
    Z.declaredSizes bytes =
      Z.getFrameContentSize (bytes.take (Z.findFrameCompressedSize bytes)) ::
        Z.declaredSizes (bytes.drop (Z.findFrameCompressedSize bytes)) := by
  rw [FrameApi.declaredSizes, Z.walk_frame hfind, List.map_cons]
  rfl

/-- The frames of a buffer make up the buffer and have admitted sizes. -/
def WalkAdmitted (Z : FrameApi) (maxSize : ℤ) (sum : ℕ) (bytes : List Byte) : Prop :=
  (Z.walk bytes).2 = [] ∧ Admitted maxSize sum (Z.declaredSizes bytes)

theorem walkAdmitted_frame (maxSize : ℤ) (sum : ℕ) {bytes : List Byte}
    (hfind : zstdIsError (Z.findFrameCompressedSize bytes) = false) :
    WalkAdmitted Z maxSize sum bytes ↔
      zstdIsError (Z.getFrameContentSize (bytes.take (Z.findFrameCompressedSize bytes))) = false ∧
      jlong (Z.getFrameContentSize (bytes.take (Z.findFrameCompressedSize bytes))) ≤ maxSize ∧
      jlong (sum + Z.getFrameContentSize (bytes.take (Z.findFrameCompressedSize bytes))) ≤ maxSize ∧
      WalkAdmitted Z maxSize
        (sum + Z.getFrameContentSize (bytes.take (Z.findFrameCompressedSize bytes)))
        (bytes.drop (Z.findFrameCompressedSize bytes)) := by
  rw [WalkAdmitted, Z.walk_frame hfind, declaredSizes_frame hfind, Admitted, WalkAdmitted]
  tauto

/-- What the walk over the rest of the source computes: the frames with their sizes and
the low half of the sum, or an exception. -/
def SizesOf (Z : FrameApi) (maxSize : ℤ) (sum : ℕ) (frames : List FrameData)
    (bytes : List Byte) (result : Except JavaException (List FrameData × ℤ)) : Prop :=
  (WalkAdmitted Z maxSize sum bytes → result =
    .ok (frames ++ (Z.walk bytes).1.map (frameData Z), jint (sum + (Z.declaredSizes bytes).sum))) ∧
  (¬ WalkAdmitted Z maxSize sum bytes → ∃ e, result = .error e)

/-- A turn of the walk at a frame of known size. -/
theorem sizeTurn_frame (maxSize : ℤ) (sum : ℕ) (frames : List FrameData)
    (hsrc : src.bytes = front ++ rest)
    (hfind : zstdIsError (Z.findFrameCompressedSize rest) = false)
    (hknown : zstdIsError
      (Z.getFrameContentSize (rest.take (Z.findFrameCompressedSize rest))) = false) :
    sizeTurn Z maxSize src ⟨jlong sum, front.length, frames⟩ =
      if maxSize < jlong (Z.getFrameContentSize (rest.take (Z.findFrameCompressedSize rest))) then
        .leave (.error (.runtimeException "Frame content size is too large"))
      else if maxSize <
          jlong (sum + Z.getFrameContentSize (rest.take (Z.findFrameCompressedSize rest))) then
        .leave (.error (.runtimeException "Content size too large"))
      else
        .again
          ⟨jlong (sum + Z.getFrameContentSize (rest.take (Z.findFrameCompressedSize rest))),
            (front ++ rest.take (Z.findFrameCompressedSize rest)).length,
            frames ++ [frameData Z (rest.take (Z.findFrameCompressedSize rest))]⟩ := by
  have hlength : src.bytes.length = front.length + rest.length := by
    rw [hsrc, List.length_append]
  have hlt := src.length_lt
  obtain ⟨hpositive, hbound⟩ := Z.find_size rest hfind
  have htake : (rest.take (Z.findFrameCompressedSize rest)).length =
      Z.findFrameCompressedSize rest := by
    rw [List.length_take, Nat.min_eq_left hbound]
  have hinside : (front.length : ℤ) < src.bytes.length := by omega
  have hfits : ¬ (src.bytes.length : ℤ) - front.length < Z.findFrameCompressedSize rest := by omega
  have hposition : addInt front.length (toInt (Z.findFrameCompressedSize rest)) =
      (front ++ rest.take (Z.findFrameCompressedSize rest)).length := by
    rw [toInt_of_lt (by omega) (by omega), addInt_of_lt (by omega) (by omega), List.length_append,
      htake]
    omega
  simp only [sizeTurn, hinside, if_true, create_part hsrc hfind hknown, frameData, htake, hfits,
    if_false, addLong_jlong, hposition]

/-- The loop from a state in which `front` was walked over. -/
theorem sizeLoop_yields (maxSize : ℤ) (front rest : List Byte) (sum : ℕ) (frames : List FrameData)
    (hsrc : src.bytes = front ++ rest) :
    ∃ result, SizesOf Z maxSize sum frames rest result ∧
      Yields (fun fuel => iterate (fun st => some (sizeTurn Z maxSize src st)) fuel
        ⟨jlong sum, front.length, frames⟩) result := by
  induction hn : rest.length using Nat.strong_induction_on generalizing front rest sum frames with
  | _ n ih =>
      have hlength : src.bytes.length = front.length + rest.length := by
        rw [hsrc, List.length_append]
      have hlt := src.length_lt
      by_cases hrest : rest = []
      · subst hrest
        have hstop := Z.walk_stop Z.find_nil
        refine ⟨.ok (frames, toInt (jlong sum)), ⟨fun _ => ?_, fun hnot => ?_⟩, Yields.leave ?_⟩
        · rw [FrameApi.declaredSizes, hstop, toInt_jlong]
          simp
        · refine absurd ⟨?_, ?_⟩ hnot
          · rw [hstop]
          · rw [FrameApi.declaredSizes, hstop]
            trivial
        · simp only [List.length_nil] at hlength
          have houtside : ¬ (front.length : ℤ) < src.bytes.length := by omega
          simp only [sizeTurn, houtside, if_false]
      · have hinside : (front.length : ℤ) < src.bytes.length := by
          have hpositive := List.length_pos_iff.mpr hrest
          omega
        by_cases hgood : zstdIsError (Z.findFrameCompressedSize rest) = false ∧ zstdIsError
            (Z.getFrameContentSize (rest.take (Z.findFrameCompressedSize rest))) = false
        · obtain ⟨hfind, hknown⟩ := hgood
          have hturn := sizeTurn_frame maxSize sum frames hsrc hfind hknown
          have hiff := walkAdmitted_frame maxSize sum hfind
          have hwalk := Z.walk_frame hfind
          have hsizes := declaredSizes_frame hfind
          obtain ⟨hpositive, hbound⟩ := Z.find_size rest hfind
          generalize hsize : Z.findFrameCompressedSize rest = size at *
          generalize hdeclared : Z.getFrameContentSize (rest.take size) = declared at *
          by_cases hlarge : maxSize < jlong declared
          · rw [if_pos hlarge] at hturn
            exact ⟨_, ⟨fun h => absurd (hiff.mp h).2.1 (by omega), fun _ => ⟨_, rfl⟩⟩,
              Yields.leave (congrArg some hturn)⟩
          · by_cases hsum : maxSize < jlong (sum + declared)
            · rw [if_neg hlarge, if_pos hsum] at hturn
              exact ⟨_, ⟨fun h => absurd (hiff.mp h).2.2.1 (by omega), fun _ => ⟨_, rfl⟩⟩,
                Yields.leave (congrArg some hturn)⟩
            · rw [if_neg hlarge, if_neg hsum] at hturn
              obtain ⟨result, ⟨hok, herror⟩, hyields⟩ := ih (rest.drop size).length
                (by rw [List.length_drop]; omega) (front ++ rest.take size) (rest.drop size)
                (sum + declared) (frames ++ [frameData Z (rest.take size)])
                (by rw [List.append_assoc, List.take_append_drop, hsrc]) rfl
              have hnext : WalkAdmitted Z maxSize sum rest ↔
                  WalkAdmitted Z maxSize (sum + declared) (rest.drop size) :=
                hiff.trans ⟨fun h => h.2.2.2, fun h => ⟨hknown, by omega, by omega, h⟩⟩
              refine ⟨result, ⟨fun h => ?_, fun h => herror (mt hnext.mpr h)⟩,
                Yields.again (congrArg some hturn) hyields⟩
              rw [hok (hnext.mp h), hwalk, hsizes]
              simp [Nat.add_assoc]
        · obtain ⟨e, he⟩ := create_part_error hsrc hrest hgood
          refine ⟨.error e, ⟨fun hadmitted => absurd ?_ hgood, fun _ => ⟨e, rfl⟩⟩, Yields.leave ?_⟩
          · cases hfind : zstdIsError (Z.findFrameCompressedSize rest) with
            | true =>
                rw [WalkAdmitted, Z.walk_stop hfind] at hadmitted
                exact absurd hadmitted.1 hrest
            | false => exact ⟨rfl, ((walkAdmitted_frame _ _ hfind).mp hadmitted).1⟩
          · simp only [sizeTurn, hinside, if_true, he]

/-- What `decompress` does: it refuses, or it allocates the low half of the sum of the
declared sizes and decodes the frames that the walk found. -/
theorem decompress_yields (Z : FrameApi) (maxSize : ℤ) (src : JavaArray) :
    ∃ ran, Yields (decompress Z maxSize src) ran ∧
      (¬ (WalkAdmitted Z maxSize 0 src.bytes ∧ 0 ≤ jint (Z.declaredSizes src.bytes).sum) ∧
          (∃ e, ran = ⟨.threw e, []⟩) ∨
        (WalkAdmitted Z maxSize 0 src.bytes ∧ 0 ≤ jint (Z.declaredSizes src.bytes).sum) ∧
          ∃ decoding, decoding = decompressFrames Z src ((Z.walk src.bytes).1.map (frameData Z))
              0 0 0 (List.replicate (jint (Z.declaredSizes src.bytes).sum).toNat 0) ∧
            ran = ⟨decoding.outcome,
              .allocate (jint (Z.declaredSizes src.bytes).sum).toNat :: decoding.effects⟩) := by
  obtain ⟨result, ⟨hok, herror⟩, hyields⟩ :=
    sizeLoop_yields (Z := Z) maxSize [] src.bytes 0 [] rfl
  refine ⟨_, hyields.map _, ?_⟩
  by_cases hadmitted : WalkAdmitted Z maxSize 0 src.bytes
  · rw [hok hadmitted]
    simp only [Nat.zero_add, List.nil_append]
    split_ifs with hnegative
    · exact .inl ⟨fun h => by omega, _, rfl⟩
    · exact .inr ⟨⟨hadmitted, by omega⟩, _, rfl, rfl⟩
  · obtain ⟨e, rfl⟩ := herror hadmitted
    exact .inl ⟨fun h => hadmitted h.1, e, rfl⟩

end ZstdJni.OneShot
