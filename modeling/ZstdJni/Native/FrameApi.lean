/-
# The functions of zstd that work on whole frames

The size walk and the decoding of whole buffers rest on three functions:
`ZSTD_findFrameCompressedSize`, `ZSTD_getFrameContentSize` and `ZSTD_decompressDCtx`
with a fresh context.  They are parameters here, with the bounds that their results are
documented to keep.

`FrameApi.walk` is the decomposition of a buffer into frames that these functions
define: the frames found one after the other, and what is left where none is found.
-/

import ZstdJni.Foundation.FrameTable
import ZstdJni.Native.Result

namespace ZstdJni.Native

open ZstdJni.Foundation

/-- The functions, with the bounds of their results. -/
structure FrameApi where
  /-- `ZSTD_findFrameCompressedSize` of the given bytes. -/
  findFrameCompressedSize : List Byte → ℕ
  /-- `ZSTD_getFrameContentSize` of the given bytes: the 64-bit field of the header, zero
  for a skippable frame, the largest number if the size is not declared. -/
  getFrameContentSize : List Byte → ℕ
  /-- `ZSTD_decompressDCtx` of the given bytes into a destination: the result, and the
  destination afterwards. -/
  decompressDCtx : List Byte → List Byte → ℕ × List Byte
  find_lt : ∀ input, findFrameCompressedSize input < 2 ^ 64
  find_size : ∀ input, zstdIsError (findFrameCompressedSize input) = false →
    0 < findFrameCompressedSize input ∧ findFrameCompressedSize input ≤ input.length
  contentSize_lt : ∀ input, getFrameContentSize input < 2 ^ 64
  decompress_lt : ∀ input dst, (decompressDCtx input dst).1 < 2 ^ 64
  decompress_le : ∀ input dst, zstdIsError (decompressDCtx input dst).1 = false →
    (decompressDCtx input dst).1 ≤ dst.length
  decompress_length : ∀ input dst, (decompressDCtx input dst).2.length = dst.length

namespace FrameApi

variable (Z : FrameApi)

/-- The frames at the front of a buffer, found one after the other, and the rest in which
no frame is found. -/
def walk (bytes : List Byte) : List (List Byte) × List Byte :=
  if _ : zstdIsError (Z.findFrameCompressedSize bytes) = false then
    let rest := walk (bytes.drop (Z.findFrameCompressedSize bytes))
    (bytes.take (Z.findFrameCompressedSize bytes) :: rest.1, rest.2)
  else ([], bytes)
termination_by bytes.length
decreasing_by
  have hsize := Z.find_size bytes ‹_›
  rw [List.length_drop]
  omega

/-- The content sizes that the headers of the frames in a buffer declare. -/
def declaredSizes (bytes : List Byte) : List ℕ :=
  (Z.walk bytes).1.map Z.getFrameContentSize

theorem walk_frame {bytes : List Byte}
    (hfind : zstdIsError (Z.findFrameCompressedSize bytes) = false) :
    Z.walk bytes =
      (bytes.take (Z.findFrameCompressedSize bytes) ::
        (Z.walk (bytes.drop (Z.findFrameCompressedSize bytes))).1,
        (Z.walk (bytes.drop (Z.findFrameCompressedSize bytes))).2) := by
  rw [walk, dif_pos hfind]

theorem walk_stop {bytes : List Byte}
    (hfind : zstdIsError (Z.findFrameCompressedSize bytes) = true) :
    Z.walk bytes = ([], bytes) := by
  rw [walk, dif_neg (by simp [hfind])]

/-- The frames of the walk are delimited by the function that finds them. -/
theorem delimits_walk (bytes : List Byte) :
    ∀ piece ∈ (Z.walk bytes).1, ∃ behind, Z.findFrameCompressedSize (piece ++ behind) =
      piece.length := by
  induction hn : bytes.length using Nat.strong_induction_on generalizing bytes with
  | _ n ih =>
      cases hfind : zstdIsError (Z.findFrameCompressedSize bytes) with
      | true => simp [Z.walk_stop hfind]
      | false =>
          have hsize := Z.find_size bytes hfind
          rw [Z.walk_frame hfind]
          refine List.forall_mem_cons.mpr ⟨⟨bytes.drop (Z.findFrameCompressedSize bytes), ?_⟩, ?_⟩
          · rw [List.take_append_drop, List.length_take, Nat.min_eq_left hsize.2]
          · exact ih _ (by rw [List.length_drop]; omega) _ rfl

theorem find_nil : zstdIsError (Z.findFrameCompressedSize []) = true := by
  by_contra hfind
  have hsize := Z.find_size [] (by simpa using hfind)
  simp only [List.length_nil] at hsize
  omega

end FrameApi

/-- The documented behaviour on frames that declare their content size and need no
dictionary.  Of other input only what the functions say about one delimited frame is used. -/
structure FrameApiContract (Z : FrameApi) where
  /-- The complete, valid frames that need no dictionary and declare their content size;
  skippable frames are frames without content. -/
  IsFrame : Frame Byte Byte → Prop
  find_frame : ∀ {f}, IsFrame f → ∀ rest,
    Z.findFrameCompressedSize (f.encoded ++ rest) = f.encoded.length
  contentSize_frame : ∀ {f}, IsFrame f → Z.getFrameContentSize f.encoded = f.content.length
  decompress_frame : ∀ {f}, IsFrame f → ∀ {dst : List Byte}, dst.length = f.content.length →
    Z.decompressDCtx f.encoded dst = (f.content.length, f.content)
  /-- What `ZSTD_findFrameCompressedSize` delimits and what decodes to its declared size is such
  a frame. -/
  frame_of_decompress : ∀ {input behind dst : List Byte},
    Z.findFrameCompressedSize (input ++ behind) = input.length →
    zstdIsError (Z.decompressDCtx input dst).1 = false →
    (Z.decompressDCtx input dst).1 = Z.getFrameContentSize input → ∃ f, IsFrame f ∧
    f.encoded = input

/-- A table of frames that fit into arrays. -/
structure SizedTable extends FrameTable Byte Byte where
  encoded_lt : ∀ f ∈ frames, f.encoded.length < 2 ^ 31
  content_lt : ∀ f ∈ frames, f.content.length < 2 ^ 31

namespace SizedTable

variable (table : SizedTable) {f : Frame Byte Byte}

/-- The frame of the table that a buffer starts with. -/
theorem lookup_frame (hf : f ∈ table.frames) (rest : List Byte) :
    table.lookup (f.encoded ++ rest) = some f := by
  cases hfound : table.lookup (f.encoded ++ rest) with
  | none =>
      have hnone := List.find?_eq_none.mp hfound f hf
      simp at hnone
  | some found =>
      rw [(FrameTable.lookup_some hf (List.prefix_refl _) hfound).1]

theorem lookup_spec {input : List Byte} (hfound : table.lookup input = some f) :
    f ∈ table.frames ∧ f.encoded <+: input :=
  ⟨List.mem_of_find?_eq_some hfound, by simpa using List.find?_some hfound⟩

/-- The functions of zstd for the frames of a table: only these are found, and they are
decoded into a destination of their size. -/
def api : FrameApi where
  findFrameCompressedSize input :=
    match table.lookup input with
    | some f => f.encoded.length
    | none => ErrorCode.prefixUnknown.result
  getFrameContentSize input :=
    match table.lookup input with
    | some f => f.content.length
    | none => 2 ^ 64 - 2
  decompressDCtx input dst :=
    match table.lookup input with
    | some f =>
      if f.encoded = input ∧ f.content.length = dst.length then (f.content.length, f.content)
      else (ErrorCode.srcSizeWrong.result, dst)
    | none => (ErrorCode.prefixUnknown.result, dst)
  find_lt input := by
    split
    · next f hfound =>
        have hlt := table.encoded_lt f (table.lookup_spec hfound).1
        omega
    · decide
  find_size input := by
    split
    · next f hfound =>
        obtain ⟨hf, hfront⟩ := table.lookup_spec hfound
        exact fun _ => ⟨List.length_pos_iff.mpr (table.encoded_ne_nil f hf), hfront.length_le⟩
    · exact fun hok => absurd hok (by decide)
  contentSize_lt input := by
    split
    · next f hfound =>
        have hlt := table.content_lt f (table.lookup_spec hfound).1
        omega
    · decide
  decompress_lt input dst := by
    split
    · next f hfound =>
        have hlt := table.content_lt f (table.lookup_spec hfound).1
        split_ifs
        · exact Nat.lt_trans hlt (by decide)
        · exact show ErrorCode.srcSizeWrong.result < 2 ^ 64 by decide
    · exact show ErrorCode.prefixUnknown.result < 2 ^ 64 by decide
  decompress_le input dst := by
    split
    · split_ifs with hexact
      · exact fun _ => Nat.le_of_eq hexact.2
      · exact fun hok => absurd hok
          (show ¬ zstdIsError ErrorCode.srcSizeWrong.result = false by decide)
    · exact fun hok => absurd hok
        (show ¬ zstdIsError ErrorCode.prefixUnknown.result = false by decide)
  decompress_length input dst := by
    split
    · split_ifs with hexact
      · exact hexact.2
      · rfl
    · rfl

/-- They behave as documented. -/
def contract : FrameApiContract table.api where
  IsFrame f := f ∈ table.frames
  find_frame hf rest := by simp only [api, table.lookup_frame hf rest]
  contentSize_frame {f} hf := by
    have hfound := table.lookup_frame hf []
    rw [List.append_nil] at hfound
    simp only [api, hfound]
  decompress_frame {f} hf dst hdst := by
    have hfound := table.lookup_frame hf []
    rw [List.append_nil] at hfound
    simp only [api, hfound, hdst, true_and, if_true]
  frame_of_decompress {input behind dst} _ hok _ := by
    simp only [api] at hok
    split at hok
    · next f hfound =>
        split_ifs at hok with hexact
        · exact ⟨f, (table.lookup_spec hfound).1, hexact.1⟩
        · exact absurd hok (show ¬ zstdIsError ErrorCode.srcSizeWrong.result = false by decide)
    · exact absurd hok (show ¬ zstdIsError ErrorCode.prefixUnknown.result = false by decide)

end SizedTable

end ZstdJni.Native
