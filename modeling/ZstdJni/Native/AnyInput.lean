/-
# The streaming decompressor on any input

What the bindings may rely on when the input need not be valid.  A call takes some of the
input and emits some output, or it fails.  Zero is only returned behind a complete frame.

Calls differ by where the input ends.  While the header of a frame is incomplete, all the
input is taken and the call succeeds, however often it is repeated without input.  Behind
the header the calls that do not move are counted, and too many of them in a row are an
error.  Without input the output is bounded by what the decompressor holds.

Some frames are only decoded in one pass.  A call that stands in front of a frame with a
declared size, with all of it in the input and room for its content, does not look at the
limits that hold for the parts of a frame, such as the one for the window.
-/

import ZstdJni.Native.DStream

namespace ZstdJni.Native

open ZstdJni.Foundation

variable {σ : Type} {D : Decoder σ Byte Byte}

/-- How a call of the decompressor ends, on any input. -/
structure Reacts (C : DStreamContract D) (IsHeaderPart : List Byte → Prop)
    (IsOnePass : Frame Byte Byte → Prop) (owed : σ → ℕ) (s : σ) (taken given : List Byte) (idle : ℕ)
    (input : List Byte) (room : ℕ) (next : σ) (reply : Reply Byte) : Prop where
  consumed_le : reply.consumed ≤ input.length
  emitted_le : reply.emitted.length ≤ room
  ret_lt : reply.ret < 2 ^ 64
  /-- Zero is returned by a call that moved and completed a frame.  The shortcut for one pass
  looks at the input of the call only, also if a part of the header was taken before. -/
  complete : reply.ret = 0 →
    (C.IsFrame ⟨taken ++ input.take reply.consumed, given ++ reply.emitted⟩ ∨
        IsHeaderPart taken ∧ given = [] ∧
          IsOnePass ⟨input.take reply.consumed, reply.emitted⟩) ∧
      0 < reply.consumed + reply.emitted.length ∧ C.conforms.place next [] [] 0
  /-- With an incomplete header all input is taken, and the call is not counted. -/
  header : reply.ret ≠ 0 → zstdIsError reply.ret = false →
    IsHeaderPart (taken ++ input.take reply.consumed) →
    reply.consumed = input.length ∧
      C.conforms.place next (taken ++ input.take reply.consumed) (given ++ reply.emitted) 0
  /-- Behind the header the calls that do not move are counted. -/
  body : reply.ret ≠ 0 → zstdIsError reply.ret = false →
    ¬ IsHeaderPart (taken ++ input.take reply.consumed) →
    Decoder.stalled idle reply ≤ patience ∧
      C.conforms.place next (taken ++ input.take reply.consumed) (given ++ reply.emitted)
        (Decoder.stalled idle reply)
  /-- What is emitted without input was held back before. -/
  output : reply.consumed = 0 → reply.emitted.length + owed next ≤ owed s

/-- The documented behaviour of `ZSTD_decompressStream` on any input. -/
structure AnyInputContract (C : DStreamContract D) where
  /-- The incomplete headers of frames. -/
  IsHeaderPart : List Byte → Prop
  header_nil : IsHeaderPart []
  /-- The frames that are only decoded in one pass. -/
  IsOnePass : Frame Byte Byte → Prop
  onePass_ne_nil : ∀ {f}, IsOnePass f → f.encoded ≠ []
  /-- In front of such a frame, with room for all of its content, a call decodes it. -/
  onePass : ∀ {s : σ} {idle : ℕ} {f : Frame Byte Byte} {input : List Byte} {room : ℕ},
    C.conforms.place s [] [] idle → IsOnePass f → f.encoded <+: input → f.content.length ≤ room →
    (D.decode s input room).2 = ⟨f.encoded.length, f.content, 0⟩
  /-- How much can be emitted without further input. -/
  owed : σ → ℕ
  reacts : ∀ {s : σ} {taken given : List Byte} {idle : ℕ} {input : List Byte} {room : ℕ},
    C.conforms.place s taken given idle → 0 < room →
    Reacts C IsHeaderPart IsOnePass owed s taken given idle input room (D.decode s input room).1
      (D.decode s input room).2
  /-- While the header is incomplete, a call asks for more input and succeeds. -/
  quiet : ∀ {s : σ} {taken : List Byte} {idle : ℕ} {input : List Byte} {room : ℕ},
    C.conforms.place s taken [] idle → 0 < room → IsHeaderPart (taken ++ input) →
    (D.decode s input room).2.ret ≠ 0 ∧ zstdIsError (D.decode s input room).2.ret = false ∧
      (D.decode s input room).2.emitted = [] ∧
      (D.decode s input room).2.consumed = input.length

section Decode

variable {C : DStreamContract D} (H : AnyInputContract C) {s next : σ}
    {taken given input : List Byte}
  {idle room : ℕ} {reply : Reply Byte}

theorem AnyInputContract.reacts_of_decode (hplace : C.conforms.place s taken given idle)
    (hroom : 0 < room) (hdecode : D.decode s input room = (next, reply)) :
    Reacts C H.IsHeaderPart H.IsOnePass H.owed s taken given idle input room next reply := by
  have hreacts := @H.reacts s taken given idle input room hplace hroom
  rwa [hdecode] at hreacts

theorem AnyInputContract.quiet_of_decode (hplace : C.conforms.place s taken [] idle)
    (hroom : 0 < room) (hheader : H.IsHeaderPart (taken ++ input))
    (hdecode : D.decode s input room = (next, reply)) :
    reply.ret ≠ 0 ∧ zstdIsError reply.ret = false ∧ reply.emitted = [] ∧
      reply.consumed = input.length := by
  have hquiet := H.quiet hplace hroom hheader
  rwa [hdecode] at hquiet

theorem AnyInputContract.onePass_of_decode {f : Frame Byte Byte}
    (hplace : C.conforms.place s [] [] idle)
    (hf : H.IsOnePass f) (hinput : f.encoded <+: input) (hroom : f.content.length ≤ room)
    (hdecode : D.decode s input room = (next, reply)) :
    reply = ⟨f.encoded.length, f.content, 0⟩ := by
  have hreply := H.onePass hplace hf hinput hroom
  rwa [hdecode] at hreply

end Decode

/-- The frames that calls with this much room decode. -/
def AnyInputContract.Decodes {C : DStreamContract D} (H : AnyInputContract C) (room : ℕ)
    (f : Frame Byte Byte) : Prop :=
  C.IsFrame f ∨ H.IsOnePass f ∧ f.content.length ≤ room

theorem AnyInputContract.encoded_ne_nil {C : DStreamContract D} (H : AnyInputContract C) {room : ℕ}
    {f : Frame Byte Byte} (hf : H.Decodes room f) : f.encoded ≠ [] := by
  rcases hf with hf | ⟨hf, -⟩
  · exact C.encoded_ne_nil hf
  · exact H.onePass_ne_nil hf

/-- A frame with at most one byte of content, behind a header. -/
structure ShortFrame extends Frame Byte Byte where
  headerSize : ℕ
  headerSize_pos : 0 < headerSize
  headerSize_lt : headerSize < encoded.length
  content_le : content.length ≤ 1
  not_skippable : isSkippable encoded = false

namespace ShortFrame

variable (f : ShortFrame)

/-- The decompressor of this frame.  Its state is what it has taken of the frame, and the
number of calls in a row behind the header that did not move. -/
def decoder : Decoder (List Byte × ℕ) Byte Byte where
  decode s input _ :=
    if f.encoded <+: s.1 ++ input then
      (([], 0), ⟨f.encoded.length - s.1.length, f.content, 0⟩)
    else if s.1 ++ input <+: f.encoded then
      if (s.1 ++ input).length < f.headerSize then ((s.1 ++ input, 0), ⟨input.length, [], 1⟩)
      else if input = [] then
        if s.2 + 1 ≤ patience then ((s.1, s.2 + 1), ⟨0, [], 1⟩)
        else (s, ⟨0, [], ErrorCode.result .noForwardProgressInputEmpty⟩)
      else ((s.1 ++ input, 0), ⟨input.length, [], 1⟩)
    else (s, ⟨0, [], ErrorCode.result .corruptionDetected⟩)

/-- The incomplete headers. -/
def IsHeaderPart (taken : List Byte) : Prop :=
  taken <+: f.encoded ∧ taken.length < f.headerSize

/-- Inside the frame nothing is given; calls behind the header are counted. -/
def Place (s : List Byte × ℕ) (taken given : List Byte) (idle : ℕ) : Prop :=
  s.1 = taken ∧ given = [] ∧ taken <+: f.encoded ∧ taken ≠ f.encoded ∧
    s.2 = if taken.length < f.headerSize then 0 else idle

variable {f} {s : List Byte × ℕ} {taken given input : List Byte} {idle room : ℕ}

/-- What a call inside the frame can do. -/
inductive Called (f : ShortFrame) (s : List Byte × ℕ) (taken input : List Byte) :
    (List Byte × ℕ) × Reply Byte → Prop
  | complete (hconsumed : f.encoded.length - taken.length ≤ input.length)
      (hmoved : taken.length < f.encoded.length)
      (htaken : taken ++ input.take (f.encoded.length - taken.length) = f.encoded) :
      Called f s taken input (([], 0), ⟨f.encoded.length - taken.length, f.content, 0⟩)
  | moved (hfront : taken ++ input <+: f.encoded) (hne : taken ++ input ≠ f.encoded)
      (hheader : (taken ++ input).length < f.headerSize ∨ input ≠ []) :
      Called f s taken input ((taken ++ input, 0), ⟨input.length, [], 1⟩)
  | waiting (hfront : taken ++ input <+: f.encoded) (hne : taken ++ input ≠ f.encoded)
      (hheader : ¬ taken.length < f.headerSize) (hempty : input = [])
      (hcount : s.2 + 1 ≤ patience) :
      Called f s taken input ((taken, s.2 + 1), ⟨0, [], 1⟩)
  | failed (code : ErrorCode)
    (hwrong : ¬ (taken ++ input <+: f.encoded ∨ f.encoded <+: taken ++ input) ∨
      input = [] ∧ ¬ taken.length < f.headerSize ∧ ¬ s.2 + 1 ≤ patience) :
      Called f s taken input (s, ⟨0, [], code.result⟩)

theorem Place.called (hplace : f.Place s taken given idle) (input : List Byte) (room : ℕ) :
    Called f s taken input (f.decoder.decode s input room) := by
  obtain ⟨rfl, -, hfront, hne, -⟩ := hplace
  have hless : s.1.length < f.encoded.length :=
    Nat.lt_of_le_of_ne hfront.length_le fun h => hne (hfront.eq_of_length h)
  simp only [decoder]
  by_cases hwhole : f.encoded <+: s.1 ++ input
  · rw [if_pos hwhole]
    have hlength := hwhole.length_le
    rw [List.length_append] at hlength
    refine .complete (by omega) hless ?_
    rw [append_take_eq hwhole (Nat.le_of_lt hless) (Nat.le_refl _), List.take_length]
  · rw [if_neg hwhole]
    have hpart : s.1 ++ input ≠ f.encoded := fun h => hwhole (h ▸ List.prefix_rfl)
    by_cases hinput : s.1 ++ input <+: f.encoded
    · rw [if_pos hinput]
      by_cases hheader : (s.1 ++ input).length < f.headerSize
      · rw [if_pos hheader]
        exact .moved hinput hpart (.inl hheader)
      · rw [if_neg hheader]
        by_cases hempty : input = []
        · rw [if_pos hempty]
          rw [hempty, List.append_nil] at hheader
          by_cases hcount : s.2 + 1 ≤ patience
          · rw [if_pos hcount]
            exact .waiting hinput hpart hheader hempty hcount
          · rw [if_neg hcount]
            exact .failed _ (.inr ⟨hempty, hheader, hcount⟩)
        · rw [if_neg hempty]
          exact .moved hinput hpart (.inr hempty)
    · rw [if_neg hinput]
      exact .failed _ (.inl (by rintro (h | h) <;> contradiction))

/-- The frame fits behind itself only at its end. -/
theorem fits_of_front {after : List Byte} (hinput : taken ++ input <+: f.encoded ++ after) :
    taken ++ input <+: f.encoded ∨ f.encoded <+: taken ++ input :=
  List.prefix_or_prefix_of_prefix hinput (List.prefix_append f.encoded after)

theorem Place.fresh : f.Place ([], 0) [] [] idle := by
  have hpos := f.headerSize_pos
  refine ⟨rfl, rfl, List.nil_prefix, fun h => ?_, ?_⟩
  · have hlt := f.headerSize_lt
    rw [← h] at hlt
    exact absurd hlt (Nat.not_lt_zero _)
  · exact (if_pos hpos).symm

theorem Place.moved (idle : ℕ) (hfront : taken ++ input <+: f.encoded)
    (hne : taken ++ input ≠ f.encoded)
    (hheader : (taken ++ input).length < f.headerSize ∨ input ≠ []) :
    f.Place (taken ++ input, 0) (taken ++ input.take input.length) ([] ++ [])
      (Decoder.stalled idle (⟨input.length, [], 1⟩ : Reply Byte)) := by
  rw [List.take_length, List.append_nil]
  refine ⟨rfl, rfl, hfront, hne, ?_⟩
  by_cases hlength : (taken ++ input).length < f.headerSize
  · exact (if_pos hlength).symm
  · have hinput : input.length ≠ 0 := mt List.length_eq_zero_iff.mp (hheader.resolve_left hlength)
    rw [if_neg hlength, Decoder.stalled, if_neg (fun h => hinput h.1)]

theorem Place.waiting (hplace : f.Place s taken given idle)
    (hheader : ¬ taken.length < f.headerSize) :
    f.Place (taken, s.2 + 1) (taken ++ input.take 0) ([] ++ [])
      (Decoder.stalled idle (⟨0, [], 1⟩ : Reply Byte)) := by
  obtain ⟨-, -, hfront, hne, hcount⟩ := hplace
  rw [List.take_zero, List.append_nil, List.append_nil]
  refine ⟨rfl, rfl, hfront, hne, ?_⟩
  rw [if_neg hheader] at hcount
  rw [if_neg hheader, Decoder.stalled, if_pos ⟨rfl, rfl⟩, hcount]

theorem answers {after : List Byte} (hplace : f.Place s taken given idle)
    (hinput : taken ++ input <+: f.encoded ++ after) (hroom : 0 < room) (hidle : idle < patience) :
    Decoder.Answers f.Place f.toFrame taken given idle input room
      (f.decoder.decode s input room).1 (f.decoder.decode s input room).2 := by
  have hcalled := hplace.called input room
  generalize f.decoder.decode s input room = called at hcalled ⊢
  have hgiven := hplace.2.1
  subst hgiven
  have hcontent := f.content_le
  cases hcalled with
  | complete hconsumed hmoved htaken =>
      refine ⟨hconsumed, ?_, List.prefix_rfl, by simp only; omega, ?_, fun _ => .fresh, ?_, ?_⟩
      · simp only [htaken, List.prefix_rfl]
      · exact iff_of_true rfl ⟨htaken, rfl⟩
      · exact fun h => absurd rfl h
      · exact fun h => absurd rfl h
  | moved hfront hne hheader =>
      refine ⟨Nat.le_refl _, ?_, List.nil_prefix, Nat.zero_le _, ?_, fun h => ?_, fun _ => ?_,
        fun _ _ => ⟨rfl, ?_⟩⟩
      · rwa [List.take_length]
      · rw [List.take_length]
        exact iff_of_false Nat.one_ne_zero fun h => hne h.1
      · exact absurd h Nat.one_ne_zero
      · exact .moved _ hfront hne hheader
      · rwa [List.take_length]
  | waiting hfront hne hheader hempty hcount =>
      have htaken : taken ++ input.take 0 = taken := by rw [List.take_zero, List.append_nil]
      refine ⟨Nat.zero_le _, ?_, List.nil_prefix, Nat.zero_le _, ?_, fun h => ?_, fun _ => ?_,
        fun _ _ => ⟨by rw [hempty]; rfl, ?_⟩⟩
      · rw [htaken]
        exact hplace.2.2.1
      · rw [htaken]
        exact iff_of_false Nat.one_ne_zero fun h => hplace.2.2.2.1 h.1
      · exact absurd h Nat.one_ne_zero
      · exact hplace.waiting hheader
      · rw [htaken]
        exact hplace.2.2.2.1
  | failed code hwrong =>
      rcases hwrong with hwrong | ⟨-, hheader, hcount⟩
      · exact absurd (fits_of_front hinput) hwrong
      · have hidleEq := hplace.2.2.2.2
        rw [if_neg hheader] at hidleEq
        omega

/-- What the decompressor returns is small unless it is an error. -/
theorem ret_le_of_answers {after : List Byte} (hplace : f.Place s taken given idle)
    (hinput : taken ++ input <+: f.encoded ++ after) (hidle : idle < patience) :
    (f.decoder.decode s input room).2.ret < 2 ^ 31 := by
  have hcalled := hplace.called input room
  generalize f.decoder.decode s input room = called at hcalled ⊢
  cases hcalled with
  | complete => exact (show 0 < 2 ^ 31 by decide)
  | moved => exact (show 1 < 2 ^ 31 by decide)
  | waiting => exact (show 1 < 2 ^ 31 by decide)
  | failed code hwrong =>
      rcases hwrong with hwrong | ⟨-, hheader, hcount⟩
      · exact absurd (fits_of_front hinput) hwrong
      · have hidleEq := hplace.2.2.2.2
        rw [if_neg hheader] at hidleEq
        omega

/-- It behaves as documented on valid frames. -/
def contract (f : ShortFrame) : DStreamContract f.decoder where
  IsFrame g := g = f.toFrame
  encoded_ne_nil := by
    rintro _ rfl h
    have hlt := f.headerSize_lt
    rw [h] at hlt
    exact absurd hlt (Nat.not_lt_zero _)
  skippable_content := by
    rintro _ rfl hskip
    rw [f.not_skippable] at hskip
    contradiction
  skippable_length := by
    rintro _ rfl hskip
    rw [f.not_skippable] at hskip
    contradiction
  conforms :=
    { place := f.Place
      answers := by
        intro s taken given idle g input after room hplace hg hinput _ _ hroom hidle
        subst hg
        exact answers hplace hinput hroom hidle }
  fresh := ([], 0)
  place_fresh := .fresh
  skippable_hint := by
    intro s taken given idle g input after room _ hg _ _ _ _ _ hskip
    subst hg
    rw [f.not_skippable] at hskip
    contradiction
  small_hint := by
    intro s taken given idle g input after room hplace hg hinput _ _ _ hidle _
    subst hg
    exact ret_le_of_answers hplace hinput hidle

end ShortFrame

end ZstdJni.Native
