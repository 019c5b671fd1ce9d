/-
# Decoding a buffer of several frames

`Zstd.decompress(byte[])` walks over the frames twice, once for the sizes and once to
decode, with the sizes cut to `int` the second time.  A frame only decodes into a
destination that is large enough for it, and the frames are decoded one behind the other
into one array; so a size that was cut, or a sum that wrapped around, cannot end in a
result, and a result is exactly the concatenation of the contents.
-/

import ZstdJni.OneShot.Walk

namespace ZstdJni.OneShot

open ZstdJni.Foundation ZstdJni.Native

variable {Z : FrameApi} {src : JavaArray} {front rest : List Byte} {f : Frame Byte Byte}
  {frames : List (Frame Byte Byte)}

/-- The number of bytes in the parts of an array. -/
theorem length_part (hsrc : src.bytes = front ++ rest) :
    front.length + rest.length < 2 ^ 31 := by
  have hlt := src.length_lt
  rwa [hsrc, List.length_append] at hlt

/-- A valid frame is decoded into a large enough place of an array. -/
theorem decompressByteArray_frame (C : FrameApiContract Z) (hf : C.IsFrame f)
    (hsrc : src.bytes = front ++ (f.encoded ++ rest)) {dst : List Byte} (hdst : dst.length < 2 ^ 31)
    {done : ℕ} (hfits : done + f.content.length ≤ dst.length) :
    decompressByteArray Z dst done f.content.length src front.length f.encoded.length =
      (.returned f.content.length, overwrite dst done f.content, true) := by
  have hlength := length_part hsrc
  rw [List.length_append] at hlength
  have htotal : src.bytes.length = front.length + (f.encoded.length + rest.length) := by
    rw [hsrc, List.length_append, List.length_append]
  have hrange : outOfRange front.length f.encoded.length src.bytes.length = false := by
    simp only [outOfRange, decide_eq_false_iff_not]
    omega
  have hrange' : outOfRange done f.content.length dst.length = false := by
    simp only [outOfRange, decide_eq_false_iff_not]
    omega
  have hpart : src.part front.length f.encoded.length = f.encoded := by
    rw [part_eq hsrc, List.take_left]
  have hwindow : (window dst done ((done : ℤ) + f.content.length).toNat).length =
      f.content.length := by
    rw [length_window _ (by omega)]
    omega
  have herror : isError (f.content.length : ℤ) = false := by
    rw [← Bool.not_eq_true, isError_iff (by omega) (by omega)]
    omega
  have hsmall : ¬ (2 ^ 31 - 1 : ℤ) < f.content.length := by omega
  simp only [decompressByteArray, hrange, hrange', hpart, C.decompress_frame hf hwindow,
    Bool.false_eq_true, if_false, jlong_of_lt (show f.content.length < 2 ^ 63 by omega), herror,
    hsmall, toInt_of_lt (show (0 : ℤ) ≤ f.content.length by omega)
      (show (f.content.length : ℤ) < 2 ^ 31 by omega), Int.toNat_natCast]

/-- What is decoded to its declared size is a valid frame, and there is room for it. -/
theorem frame_of_decompressByteArray (C : FrameApiContract Z) {piece behind : List Byte}
    (hdelimited : Z.findFrameCompressedSize (piece ++ behind) = piece.length)
    (hsrc : src.bytes = front ++ (piece ++ rest)) {dst dst' : List Byte} {done : ℕ}
    (hdone : done ≤ dst.length) {size : ℤ} {called : Bool}
    (hran : decompressByteArray Z dst done (jint (Z.getFrameContentSize piece)) src front.length
      piece.length = (.returned size, dst', called))
    (hsize : size = jlong (Z.getFrameContentSize piece)) :
    ∃ f, C.IsFrame f ∧ f.encoded = piece ∧ done + f.content.length ≤ dst.length := by
  have hpart : src.part front.length piece.length = piece := by
    rw [part_eq hsrc, List.take_left]
  have hbounds := jint_bounds (Z.getFrameContentSize piece)
  have hdeclared := Z.contentSize_lt piece
  have hlt := Z.decompress_lt piece
    (window dst (done : ℤ).toNat ((done : ℤ) + jint (Z.getFrameContentSize piece)).toNat)
  have hle := Z.decompress_le piece
    (window dst (done : ℤ).toNat ((done : ℤ) + jint (Z.getFrameContentSize piece)).toNat)
  rcases hreply : Z.decompressDCtx piece
    (window dst (done : ℤ).toNat ((done : ℤ) + jint (Z.getFrameContentSize piece)).toNat)
    with ⟨ret, written⟩
  simp only [hreply] at hlt hle
  simp only [decompressByteArray, hpart, hreply, isError_jlong hlt] at hran
  split_ifs at hran with hrange hrange' herror hlarge <;>
    simp only [Prod.mk.injEq, reduceCtorEq, false_and, Outcome.returned.injEq] at hran
  simp only [outOfRange, decide_eq_true_iff] at hrange'
  have hroom := hle (by simpa using herror)
  rw [length_window _ (by omega)] at hroom
  have hret : ret = Z.getFrameContentSize piece := by
    have hsame := hran.1.trans hsize
    simp only [jlong, toInt, jint, sizeT, narrow] at hsame hlarge
    omega
  obtain ⟨f, hf, rfl⟩ := C.frame_of_decompress hdelimited (by rw [hreply]; simpa using herror)
    (by rw [hreply]; exact hret)
  rw [C.contentSize_frame hf] at hret hroom hrange'
  refine ⟨f, hf, rfl, ?_⟩
  omega

/-- The loop over a valid frame that fits goes on behind it. -/
theorem decompressFrames_cons (C : FrameApiContract Z) (hf : C.IsFrame f)
    (hsrc : src.bytes = front ++ (f.encoded ++ rest)) {dst : List Byte} (hdst : dst.length < 2 ^ 31)
    {done : ℕ} (hfits : done + f.content.length ≤ dst.length) (others : List FrameData) (i : ℕ) :
    (decompressFrames Z src (frameData Z f.encoded :: others) i front.length done dst).outcome =
      (decompressFrames Z src others (i + 1) (front ++ f.encoded).length
        (done + f.content.length : ℕ) (overwrite dst done f.content)).outcome := by
  have hlength := length_part hsrc
  rw [List.length_append] at hlength
  have hcontent : toInt (f.content.length : ℤ) = f.content.length :=
    toInt_of_lt (by omega) (by omega)
  have hencoded : toInt (f.encoded.length : ℤ) = f.encoded.length :=
    toInt_of_lt (by omega) (by omega)
  have herror : isError (f.content.length : ℤ) = false := by
    rw [← Bool.not_eq_true, isError_iff (by omega) (by omega)]
    omega
  have hposition : addInt front.length f.encoded.length = (front ++ f.encoded).length := by
    rw [addInt_of_lt (by omega) (by omega), List.length_append, Int.natCast_add]
  have hdone : addInt done f.content.length = (done + f.content.length : ℕ) := by
    rw [addInt_of_lt (by omega) (by omega), Int.natCast_add]
  simp only [decompressFrames, frameData, C.contentSize_frame hf,
    jlong_of_lt (show f.content.length < 2 ^ 63 by omega), hcontent, hencoded,
    decompressByteArray_frame C hf hsrc hdst hfits, herror, Bool.false_eq_true, if_false, ne_eq,
    not_true_eq_false, hposition, hdone]

/-- The loop over valid frames that fit writes their contents. -/
theorem decompressFrames_valid (C : FrameApiContract Z) (hframes : ∀ f ∈ frames, C.IsFrame f)
    (hsrc : src.bytes = front ++ (encodings frames ++ rest)) {dst : List Byte}
    (hdst : dst.length < 2 ^ 31) {done : ℕ} (hfits : done + (contents frames).length ≤ dst.length)
    (i : ℕ) :
    (decompressFrames Z src (frames.map fun f => frameData Z f.encoded) i front.length done
      dst).outcome = .returned (overwrite dst done (contents frames)) := by
  induction frames generalizing front dst done i with
  | nil => simp [decompressFrames]
  | cons f frames ih =>
      rw [encodings_cons, List.append_assoc] at hsrc
      rw [contents_cons, List.length_append] at hfits
      have hoverwrite : (overwrite dst done f.content).length = dst.length :=
        length_overwrite (by omega)
      rw [List.map_cons, decompressFrames_cons C (hframes f (by simp)) hsrc hdst (by omega),
        ih (fun g hg => hframes g (by simp [hg])) (by rw [hsrc, List.append_assoc])
          (by omega) (by omega), overwrite_overwrite (by omega), contents_cons]

/-- If the loop returns, the pieces it went over are valid frames and fit. -/
theorem frames_of_decompressFrames (C : FrameApiContract Z) {pieces : List (List Byte)}
    (hdelimited : ∀ piece ∈ pieces, ∃ behind,
      Z.findFrameCompressedSize (piece ++ behind) = piece.length)
    (hsrc : src.bytes = front ++ (pieces.flatten ++ rest)) {dst : List Byte}
    (hdst : dst.length < 2 ^ 31) {done : ℕ} (hdone : done ≤ dst.length) {i : ℕ}
    {result : List Byte}
    (hran : (decompressFrames Z src (pieces.map (frameData Z)) i front.length done dst).outcome =
      .returned result) :
    ∃ frames, (∀ f ∈ frames, C.IsFrame f) ∧ pieces = frames.map Frame.encoded ∧
      done + (contents frames).length ≤ dst.length := by
  induction pieces generalizing front dst done i with
  | nil => exact ⟨[], by simp, rfl, by simpa using hdone⟩
  | cons piece pieces ih =>
      rw [List.flatten_cons, List.append_assoc] at hsrc
      have hlength := length_part hsrc
      rw [List.length_append] at hlength
      obtain ⟨f, hf, rfl, hfits⟩ : ∃ f, C.IsFrame f ∧ f.encoded = piece ∧
          done + f.content.length ≤ dst.length := by
        rcases hcall : decompressByteArray Z dst done (jint (Z.getFrameContentSize piece)) src
          front.length piece.length with ⟨outcome, dst', called⟩
        cases outcome with
        | returned size =>
            obtain ⟨behind, hfound⟩ := hdelimited piece List.mem_cons_self
            refine frame_of_decompressByteArray C hfound hsrc hdone hcall ?_
            by_contra hsize
            simp only [List.map_cons, decompressFrames, frameData, toInt_jlong,
              toInt_of_lt (show (0 : ℤ) ≤ piece.length by omega)
                (show (piece.length : ℤ) < 2 ^ 31 by omega), hcall, ne_eq, hsize, not_false_eq_true,
              if_true] at hran
            split_ifs at hran
        | threw e =>
            simp only [List.map_cons, decompressFrames, frameData, toInt_jlong,
              toInt_of_lt (show (0 : ℤ) ≤ piece.length by omega)
                (show (piece.length : ℤ) < 2 ^ 31 by omega), hcall, reduceCtorEq] at hran
      rw [List.map_cons, decompressFrames_cons C hf hsrc hdst hfits] at hran
      have hoverwrite : (overwrite dst done f.content).length = dst.length :=
        length_overwrite (by omega)
      obtain ⟨frames, hframes, rfl, hrest⟩ :=
        ih (fun p hp => hdelimited p (List.mem_cons_of_mem _ hp))
        (by rw [hsrc, List.append_assoc]) (by omega) (by omega) hran
      refine ⟨f :: frames, List.forall_mem_cons.mpr ⟨hf, hframes⟩, rfl, ?_⟩
      rw [contents_cons, List.length_append]
      omega

/-- The walk takes a buffer apart into frames and a rest. -/
theorem flatten_walk (bytes : List Byte) :
    (Z.walk bytes).1.flatten ++ (Z.walk bytes).2 = bytes := by
  induction hn : bytes.length using Nat.strong_induction_on generalizing bytes with
  | _ n ih =>
      cases hfind : zstdIsError (Z.findFrameCompressedSize bytes) with
      | true => rw [Z.walk_stop hfind, List.flatten_nil, List.nil_append]
      | false =>
          have hsize := Z.find_size bytes hfind
          rw [Z.walk_frame hfind, List.flatten_cons, List.append_assoc,
            ih _ (by rw [List.length_drop]; omega) _ rfl, List.take_append_drop]

/-- The walk over valid frames finds these frames. -/
theorem walk_encodings (C : FrameApiContract Z) (hframes : ∀ f ∈ frames, C.IsFrame f)
    (hlength : (encodings frames).length < 2 ^ 31) :
    Z.walk (encodings frames) = (frames.map Frame.encoded, []) := by
  induction frames with
  | nil => exact Z.walk_stop Z.find_nil
  | cons f frames ih =>
      have hfound := C.find_frame (hframes f (by simp)) (encodings frames)
      rw [encodings_cons, List.length_append] at hlength
      have hfind : zstdIsError (Z.findFrameCompressedSize (f.encoded ++ encodings frames)) =
        false := by
        rw [hfound, zstdIsError, decide_eq_false_iff_not, maxCode]
        omega
      rw [encodings_cons, Z.walk_frame hfind, hfound, List.take_left, List.drop_left,
        ih (fun g hg => hframes g (by simp [hg])) (by omega), List.map_cons]

theorem overwrite_whole {cells fresh : List Byte} (hlength : cells.length = fresh.length) :
    overwrite cells 0 fresh = fresh := by
  simp [overwrite, hlength]

/-- A valid frame inside the array is decoded by itself. -/
theorem decompressFrame_valid (C : FrameApiContract Z) (hf : C.IsFrame f)
    (hsrc : src.bytes = front ++ (f.encoded ++ rest)) {maxSize : ℤ}
    (hlimit : (f.content.length : ℤ) ≤ maxSize) (hint : f.content.length < 2 ^ 31) :
    (decompressFrame Z maxSize src front.length).outcome = .returned f.content := by
  have hlength := length_part hsrc
  rw [List.length_append] at hlength
  have hfound := C.find_frame hf rest
  have hfind : zstdIsError (Z.findFrameCompressedSize (f.encoded ++ rest)) = false := by
    rw [hfound, zstdIsError, decide_eq_false_iff_not, maxCode]
    omega
  have hrest : f.encoded ++ rest ≠ [] := by
    have hsize := Z.find_size _ hfind
    exact List.length_pos_iff.mp (by omega)
  have hcompressed : findFrameCompressedSize Z src front.length = .ok f.encoded.length := by
    rw [findFrameCompressedSize_part hsrc hrest, hfind, hfound]
    rfl
  have hcontent := getFrameContentSize_part hsrc hfind
  rw [hfound, List.take_left, C.contentSize_frame hf] at hcontent
  have hcheck : checkContentSize (jlong f.content.length) = .ok () := by
    rw [checkContentSize_jlong (by omega), zstdIsError, decide_eq_false_iff_not, maxCode]
    omega
  have hjlong : jlong f.content.length = f.content.length := jlong_of_lt (by omega)
  have hencoded : toInt (f.encoded.length : ℤ) = f.encoded.length :=
    toInt_of_lt (by omega) (by omega)
  have hdecoded : decompressByteArray Z (List.replicate f.content.length 0) (0 : ℕ)
      f.content.length src front.length f.encoded.length =
        (.returned f.content.length, f.content, true) := by
    rw [decompressByteArray_frame C hf hsrc (by simpa using hint) (by simp),
      overwrite_whole (by simp)]
  rw [hjlong] at hcontent hcheck
  rw [hencoded] at hcontent
  simp only [decompressFrame, hcompressed, hencoded, hcontent, hcheck,
    if_neg (Int.not_lt.mpr hlimit), toInt_of_lt (Int.natCast_nonneg _)
      (show (f.content.length : ℤ) < 2 ^ 31 by omega), decompressSized,
    if_neg (Int.not_lt.mpr (Int.natCast_nonneg f.content.length)), Int.toNat_natCast]
  simp only [Int.natCast_zero] at hdecoded
  simp only [hdecoded, ne_eq, not_true_eq_false, if_false]

/-- The declared sizes of valid frames are the lengths of their contents. -/
theorem declaredSizes_encodings (C : FrameApiContract Z) (hframes : ∀ f ∈ frames, C.IsFrame f)
    (hlength : (encodings frames).length < 2 ^ 31) :
    Z.declaredSizes (encodings frames) = frames.map fun f => f.content.length := by
  rw [FrameApi.declaredSizes, walk_encodings C hframes hlength, List.map_map]
  exact List.map_congr_left fun f hf => C.contentSize_frame (hframes f hf)

theorem sum_content_lengths (frames : List (Frame Byte Byte)) :
    (frames.map fun f => f.content.length).sum = (contents frames).length := by
  induction frames with
  | nil => rfl
  | cons f frames ih => rw [List.map_cons, List.sum_cons, ih, contents_cons, List.length_append]

/-- The loop over all of a source that consists of valid frames. -/
theorem decompressFrames_whole (C : FrameApiContract Z) (hframes : ∀ f ∈ frames, C.IsFrame f)
    (hbytes : src.bytes = encodings frames) (hint : (contents frames).length < 2 ^ 31) :
    (decompressFrames Z src (frames.map (frameData Z ∘ Frame.encoded)) 0 0 0
      (List.replicate (contents frames).length 0)).outcome = .returned (contents frames) := by
  have hsrc : src.bytes = [] ++ (encodings frames ++ []) := by
    rw [hbytes, List.nil_append, List.append_nil]
  have hfits : 0 + (contents frames).length ≤
      (List.replicate (contents frames).length (0 : Byte)).length := by
    rw [List.length_replicate, Nat.zero_add]
  have hvalid := decompressFrames_valid C hframes hsrc (by rwa [List.length_replicate]) hfits 0
  rwa [overwrite_whole List.length_replicate] at hvalid

/-- What the source stands for, if it is a concatenation of valid frames: the frames, in
the order in which they are found by adding up their compressed sizes, with what
`decompressFrame` gives at the offset of each of them. -/
structure Decodes (C : FrameApiContract Z) (maxSize : ℤ) (src : JavaArray)
    (frames : List (Frame Byte Byte)) : Prop where
  valid : ∀ f ∈ frames, C.IsFrame f
  bytes_eq : src.bytes = encodings frames
  walk_eq : Z.walk src.bytes = (frames.map Frame.encoded, [])
  single : ∀ before f after, frames = before ++ f :: after →
    (decompressFrame Z maxSize src (encodings before).length).outcome = .returned f.content

/-- If the frames that were found decode, the source is a concatenation of valid frames
and their contents are the result. -/
theorem decodes_of_returned (C : FrameApiContract Z) {maxSize : ℤ}
    (hadmitted : WalkAdmitted Z maxSize 0 src.bytes) {result : List Byte}
    (hran : (decompressFrames Z src ((Z.walk src.bytes).1.map (frameData Z)) 0 0 0
      (List.replicate (jint (Z.declaredSizes src.bytes).sum).toNat 0)).outcome =
        .returned result) :
    ∃ frames, Decodes C maxSize src frames ∧ result = contents frames := by
  obtain ⟨hwhole, hadmitted⟩ := hadmitted
  have hbounds := jint_bounds (Z.declaredSizes src.bytes).sum
  have hflatten := flatten_walk (Z := Z) src.bytes
  rw [hwhole, List.append_nil] at hflatten
  have hpieces : src.bytes = [] ++ ((Z.walk src.bytes).1.flatten ++ []) := by
    rw [hflatten, List.nil_append, List.append_nil]
  obtain ⟨frames, hframes, hpieces, hfits⟩ := frames_of_decompressFrames C
    (Z.delimits_walk src.bytes) hpieces (by rw [List.length_replicate]; omega) (Nat.zero_le _) hran
  have hbytes : src.bytes = encodings frames := by
    rw [← hflatten, hpieces]
    rfl
  have hlength : (encodings frames).length < 2 ^ 31 := hbytes ▸ src.length_lt
  have hsizes : Z.declaredSizes src.bytes = frames.map fun f => f.content.length := by
    rw [hbytes, declaredSizes_encodings C hframes hlength]
  rw [hsizes, sum_content_lengths] at hfits hran hbounds
  rw [List.length_replicate, Nat.zero_add] at hfits
  have htotal : (jint (contents frames).length).toNat = (contents frames).length := by
    have hle : (jint (contents frames).length).toNat ≤ (contents frames).length := by
      simp only [jint, narrow]
      omega
    omega
  refine ⟨frames, ⟨hframes, hbytes, ?_, ?_⟩, ?_⟩
  · rw [hbytes, walk_encodings C hframes hlength]
  · rintro before f after rfl
    have hmem : f.content.length ∈ Z.declaredSizes src.bytes := by
      rw [hsizes]
      simp
    have hsize := ((admitted_iff _ _ _).mp hadmitted).2.1 _ hmem
    have hcontent : (contents (before ++ f :: after)).length < 2 ^ 31 := by omega
    simp only [contents, List.flatMap_append, List.flatMap_cons, List.length_append] at hcontent
    rw [jlong_of_lt (by omega)] at hsize
    exact decompressFrame_valid C (hframes f (by simp))
      (by rw [hbytes, encodings_append, encodings_cons]) hsize (by omega)
  · rw [htotal, hpieces, List.map_map] at hran
    exact Outcome.returned.inj
      (hran.symm.trans (decompressFrames_whole C hframes hbytes (by omega)))

/-- `Zstd.decompress` ends on every source; what it returns is the content of the frames
that the source consists of, and it returns for every concatenation of valid frames with
a total size within the limit and the range of `int`. -/
theorem decompress_exact (C : FrameApiContract Z) (maxSize : ℤ) (src : JavaArray) :
    ∃ ran, Yields (decompress Z maxSize src) ran ∧
      (∀ result, ran.outcome = .returned result →
        ∃ frames, Decodes C maxSize src frames ∧ result = contents frames) ∧
      ∀ frames, (∀ f ∈ frames, C.IsFrame f) → src.bytes = encodings frames →
        ((contents frames).length : ℤ) ≤ min maxSize (2 ^ 31 - 1) →
        ran.outcome = .returned (contents frames) := by
  obtain ⟨ran, hyields, hcases⟩ := decompress_yields Z maxSize src
  refine ⟨ran, hyields, fun result hresult => ?_, fun frames hframes hbytes hlimit => ?_⟩
  · rcases hcases with ⟨-, e, rfl⟩ | ⟨⟨hadmitted, -⟩, decoding, rfl, rfl⟩
    · simp at hresult
    · exact decodes_of_returned C hadmitted hresult
  · have hlength : (encodings frames).length < 2 ^ 31 := hbytes ▸ src.length_lt
    have hwalk := walk_encodings C hframes hlength
    have hsum : (Z.declaredSizes src.bytes).sum = (contents frames).length := by
      rw [hbytes, declaredSizes_encodings C hframes hlength, sum_content_lengths]
    have hadmitted : WalkAdmitted Z maxSize 0 src.bytes := by
      refine ⟨?_, admitted_of_sum_le ?_ ?_⟩
      · rw [hbytes, hwalk]
      · rw [hsum, Nat.zero_add]
        omega
      · rw [hsum]
        omega
    have hjint : jint (contents frames).length = (contents frames).length := jint_of_lt (by omega)
    rw [hsum, hjint] at hcases
    rcases hcases with ⟨hnot, -⟩ | ⟨-, decoding, rfl, rfl⟩
    · exact absurd ⟨hadmitted, Int.natCast_nonneg _⟩ hnot
    · rw [hbytes, hwalk, List.map_map, Int.toNat_natCast]
      exact decompressFrames_whole C hframes hbytes (by omega)

end ZstdJni.OneShot
