/-
# The streaming decompressor

What the bindings may rely on when they drive `ZSTD_decompressStream`: the general
contract of a streaming decoder, the shape of skippable frames, and the size of
the hint it returns inside a frame.

The hint is the number of input bytes the decoder would like to see next.  Inside
an ordinary frame it is bounded by a block and its header.  Inside a skippable
frame it is all that is missing of the frame, and a skippable frame declares its
size in a 32-bit field.  Sixteen calls in a row that neither take input nor
produce output are answered with an error.
-/

import ZstdJni.Foundation.FrameTable
import ZstdJni.Native.Result

namespace ZstdJni.Native

open ZstdJni.Foundation

/-- The value of a little-endian byte string. -/
def littleEndian : List Byte → ℕ
  | [] => 0
  | b :: rest => b.toNat + 256 * littleEndian rest

theorem littleEndian_lt (bytes : List Byte) : littleEndian bytes < 256 ^ bytes.length := by
  induction bytes with
  | nil => simp [littleEndian]
  | cons b rest ih =>
      have hb : b.toNat < 256 := b.toNat_lt
      simp only [littleEndian, List.length_cons, Nat.pow_succ]
      omega

/-- The length of the header of a skippable frame, `ZSTD_SKIPPABLEHEADERSIZE`. -/
def skippableHeaderSize : ℕ := 8

/-- The magic numbers `0x184D2A50` to `0x184D2A5F`, in little-endian order. -/
def isSkippable : List Byte → Bool
  | a :: b :: c :: d :: _ => a &&& 0xF0 = 0x50 && b = 0x2A && c = 0x4D && d = 0x18
  | _ => false

/-- The size of its user data that a skippable frame declares after the magic. -/
def skippableSize (encoded : List Byte) : ℕ :=
  littleEndian (window encoded 4 8)

theorem skippableSize_lt (encoded : List Byte) : skippableSize encoded < 2 ^ 32 := by
  have hlen : (window encoded 4 8).length ≤ 4 := by
    simp only [window, List.length_drop, List.length_take]
    omega
  calc skippableSize encoded < 256 ^ (window encoded 4 8).length := littleEndian_lt _
    _ ≤ 256 ^ 4 := Nat.pow_le_pow_right (by decide) hlen
    _ = 2 ^ 32 := by decide

/-- The least value of a `jint` hint that the error test takes for an error, as the
`size_t` it was before the cast. -/
def errorRange : ℕ := 2 ^ 32 - 119

/-- The number of idle calls in a row that `ZSTD_decompressStream` still accepts:
the sixteenth, `ZSTD_NO_FORWARD_PROGRESS_MAX`, is an error. -/
def patience : ℕ := 15

/-- The documented behaviour of `ZSTD_decompressStream` on a stream of zstd frames. -/
structure DStreamContract {σ : Type} (D : Decoder σ Byte Byte) where
  /-- The frames of the format, with their contents. -/
  IsFrame : Frame Byte Byte → Prop
  encoded_ne_nil : ∀ {f}, IsFrame f → f.encoded ≠ []
  skippable_content : ∀ {f}, IsFrame f → isSkippable f.encoded = true → f.content = []
  skippable_length : ∀ {f}, IsFrame f → isSkippable f.encoded = true →
    f.encoded.length = skippableHeaderSize + skippableSize f.encoded
  conforms : D.Conforms IsFrame patience
  /-- A fresh stream stands in front of a frame. -/
  fresh : σ
  place_fresh : conforms.place fresh [] [] 0
  /-- The hint inside a skippable frame, once its header was taken. -/
  skippable_hint : ∀ {s taken given idle f input after room}, conforms.place s taken given idle →
    IsFrame f → taken ++ input <+: f.encoded ++ after → taken <+: f.encoded →
    given <+: f.content → 0 < room → idle < patience → isSkippable f.encoded = true →
    skippableHeaderSize ≤ (taken ++ input.take (D.decode s input room).2.consumed).length →
    (D.decode s input room).2.ret =
      f.encoded.length - (taken ++ input.take (D.decode s input room).2.consumed).length
  /-- Every other hint is a few blocks at most. -/
  small_hint : ∀ {s taken given idle f input after room}, conforms.place s taken given idle →
    IsFrame f → taken ++ input <+: f.encoded ++ after → taken <+: f.encoded →
    given <+: f.content → 0 < room → idle < patience →
    ¬ (isSkippable f.encoded = true ∧ skippableHeaderSize ≤
      (taken ++ input.take (D.decode s input room).2.consumed).length) →
    (D.decode s input room).2.ret < 2 ^ 31

/-- On valid frames the returned number is far from the error codes. -/
theorem DStreamContract.ret_lt {σ : Type} {D : Decoder σ Byte Byte} (C : DStreamContract D) {s : σ}
    {taken given input after : List Byte} {idle room : ℕ} {f : Frame Byte Byte}
    (hplace : C.conforms.place s taken given idle) (hf : C.IsFrame f)
    (hinput : taken ++ input <+: f.encoded ++ after) (htaken : taken <+: f.encoded)
    (hgiven : given <+: f.content) (hroom : 0 < room) (hidle : idle < patience) :
    (D.decode s input room).2.ret < 2 ^ 32 := by
  by_cases hskip : isSkippable f.encoded = true ∧
      skippableHeaderSize ≤ (taken ++ input.take (D.decode s input room).2.consumed).length
  · have hsize := skippableSize_lt f.encoded
    rw [C.skippable_hint hplace hf hinput htaken hgiven hroom hidle hskip.1 hskip.2,
      C.skippable_length hf hskip.1]
    omega
  · have hsmall := C.small_hint hplace hf hinput htaken hgiven hroom hidle hskip
    omega

/-- A table of zstd frames: its skippable frames have the length they declare and no
content. -/
structure ZstdTable extends FrameTable Byte Byte where
  skippable_content : ∀ f ∈ frames, isSkippable f.encoded = true → f.content = []
  skippable_length : ∀ f ∈ frames, isSkippable f.encoded = true →
    f.encoded.length = skippableHeaderSize + skippableSize f.encoded

/-- The hint after `taken` of a frame: what is missing of a skippable frame, once its
header was taken. -/
def zstdHint (taken : List Byte) : ℕ :=
  if isSkippable taken = true ∧ skippableHeaderSize ≤ taken.length then
    skippableHeaderSize + skippableSize taken - taken.length
  else 1

/-- The header of a skippable frame can be read off any part that holds it. -/
theorem isSkippable_of_front {taken encoded : List Byte} (hfront : taken <+: encoded)
    (hlength : skippableHeaderSize ≤ taken.length) :
    isSkippable encoded = isSkippable taken ∧ skippableSize encoded = skippableSize taken := by
  obtain ⟨rest, rfl⟩ := hfront
  simp only [skippableHeaderSize] at hlength
  constructor
  · match taken, hlength with
    | a :: b :: c :: d :: tail, _ => rfl
  · rw [skippableSize, skippableSize, window, window, List.take_append_of_le_length hlength]

theorem zstdHint_of_front {taken encoded : List Byte} (hfront : taken <+: encoded) :
    zstdHint taken =
      if isSkippable encoded = true ∧ skippableHeaderSize ≤ taken.length then
        skippableHeaderSize + skippableSize encoded - taken.length
      else 1 := by
  by_cases hlength : skippableHeaderSize ≤ taken.length
  · obtain ⟨hskip, hsize⟩ := isSkippable_of_front hfront hlength
    rw [zstdHint, hskip, hsize]
  · simp [zstdHint, hlength]

/-- The decompressor of a table of frames. -/
def ZstdTable.decoder (table : ZstdTable) : Decoder (List Byte × ℕ) Byte Byte :=
  table.toFrameTable.decoder zstdHint

section Contract

variable {table : ZstdTable} {s : List Byte × ℕ} {taken given input after : List Byte}
  {room : ℕ} {f : Frame Byte Byte}

/-- What the decompressor of a table returns: zero at the end of a frame, else the hint
for what it has taken. -/
theorem ZstdTable.ret_cases (idle : ℕ) (hplace : table.Place s taken given idle)
    (hf : f ∈ table.frames)
    (hinput : taken ++ input <+: f.encoded ++ after) (htaken : taken <+: f.encoded)
    (hgiven : given <+: f.content) {reply : Reply Byte}
    (hreply : (table.decoder.decode s input room).2 = reply) :
    (reply.ret = 0 ∧ taken ++ input.take reply.consumed = f.encoded) ∨
      (reply.ret = max 1 (zstdHint (taken ++ input.take reply.consumed)) ∧
        taken ++ input.take reply.consumed <+: f.encoded ∧
        (f.content = [] → taken ++ input.take reply.consumed ≠ f.encoded)) := by
  have hanswers := FrameTable.answers zstdHint idle room hplace hf hinput htaken hgiven
  have hret := FrameTable.ret_eq zstdHint idle room hplace hf hinput htaken
  rw [ZstdTable.decoder] at hreply
  rw [hreply] at hanswers
  simp only [hreply] at hret
  rcases hret with hzero | hret
  · exact .inl ⟨hzero, (hanswers.ret_eq_zero_iff.mp hzero).1⟩
  · refine .inr ⟨hret, hanswers.encoded_front, fun hcontent hencoded => ?_⟩
    have hfront := hanswers.content_front
    rw [hcontent, List.prefix_nil] at hfront
    have hzero := hanswers.ret_eq_zero_iff.mpr ⟨hencoded, hfront.trans hcontent.symm⟩
    omega

/-- It behaves as documented. -/
def ZstdTable.contract (table : ZstdTable) : DStreamContract table.decoder where
  IsFrame f := f ∈ table.frames
  encoded_ne_nil hf := table.encoded_ne_nil _ hf
  skippable_content hf := table.skippable_content _ hf
  skippable_length hf := table.skippable_length _ hf
  conforms := table.toFrameTable.conforms zstdHint patience
  fresh := ([], 0)
  place_fresh := ⟨rfl, fun f hf h => table.encoded_ne_nil f hf (List.prefix_nil.mp h)⟩
  skippable_hint := by
    intro s taken given idle f input after room hplace hf hinput htaken hgiven _ _ hskip hheader
    rcases table.ret_cases idle hplace hf hinput htaken hgiven rfl with
      ⟨hzero, hencoded⟩ | ⟨hret, hfront, hne⟩
    · rw [hzero, hencoded, Nat.sub_self]
    · have hlength := table.skippable_length f hf hskip
      have hless := hfront.length_le
      have hstrict := mt hfront.eq_of_length (hne (table.skippable_content f hf hskip))
      rw [hret, zstdHint_of_front hfront, if_pos ⟨hskip, hheader⟩]
      omega
  small_hint := by
    intro s taken given idle f input after room hplace hf hinput htaken hgiven _ _ hskip
    rcases table.ret_cases idle hplace hf hinput htaken hgiven rfl with ⟨hzero, -⟩ |
      ⟨hret, hfront, -⟩
    · rw [hzero]
      decide
    · rw [hret, zstdHint_of_front hfront, if_neg hskip]
      decide

end Contract

end ZstdJni.Native
