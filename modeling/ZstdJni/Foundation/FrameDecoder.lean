/-
# Streaming decoders of framed formats

A framed format is a set of frames, each an encoded form with a content.  A
streaming decoder is called over and over with the input at hand and the room
left in the output; it takes some of the input, emits some content and returns a
number, which is zero exactly at the end of a frame.

The contract `Decoder.Conforms` fixes what such a decoder owes its caller while
the input stays on a valid stream.  It is deliberately weak: the decoder may hold
back output, it may leave input unread when its output is full, and it may give
up when it is called too often in a row without being able to move.  What it may
not do is skip, repeat or invent bytes, run past the end of a frame, or leave
both input unread and room unused inside a frame.
-/

import ZstdJni.Foundation.Window

namespace ZstdJni.Foundation

universe u v w

variable {σ : Type u} {α : Type v} {β : Type w}

/-- A frame of a format: its encoded form and the content it stands for. -/
structure Frame (α : Type v) (β : Type w) where
  encoded : List α
  content : List β

/-- The encoded forms of a sequence of frames, one after the other. -/
def encodings (frames : List (Frame α β)) : List α :=
  frames.flatMap Frame.encoded

/-- The contents of a sequence of frames, one after the other. -/
def contents (frames : List (Frame α β)) : List β :=
  frames.flatMap Frame.content

@[simp]
theorem encodings_nil : encodings ([] : List (Frame α β)) = [] := rfl

@[simp]
theorem encodings_cons (f : Frame α β) (rest : List (Frame α β)) :
    encodings (f :: rest) = f.encoded ++ encodings rest := rfl

@[simp]
theorem encodings_append (first second : List (Frame α β)) :
    encodings (first ++ second) = encodings first ++ encodings second := by
  simp [encodings]

@[simp]
theorem contents_nil : contents ([] : List (Frame α β)) = [] := rfl

@[simp]
theorem contents_cons (f : Frame α β) (rest : List (Frame α β)) :
    contents (f :: rest) = f.content ++ contents rest := rfl

/-- What is left behind a part of a list begins with what comes next of it. -/
theorem drop_of_append_front {part next whole : List α} (hfront : part ++ next <+: whole) :
    whole.drop part.length = next ++ whole.drop (part ++ next).length := by
  obtain ⟨tail, rfl⟩ := hfront
  rw [List.drop_left, List.append_assoc, List.drop_left]

/-- What one call of a decoder reports: how much input it took, what it emitted,
and the number it returned. -/
structure Reply (β : Type w) where
  consumed : ℕ
  emitted : List β
  ret : ℕ
  deriving DecidableEq

/-- A streaming decoder, called with the input at hand and the room left. -/
structure Decoder (σ : Type u) (α : Type v) (β : Type w) where
  decode : σ → List α → ℕ → σ × Reply β

namespace Decoder

/-- The number of calls in a row that did not move, after one more call. -/
def stalled (idle : ℕ) (reply : Reply β) : ℕ :=
  if reply.consumed = 0 ∧ reply.emitted = [] then idle + 1 else 0

/-- A good answer inside frame `f`, of which `taken` was already taken and `given`
already emitted.  `place` is the decoder's own notion of being at such a point. -/
structure Answers (place : σ → List α → List β → ℕ → Prop) (f : Frame α β)
    (taken : List α) (given : List β) (idle : ℕ) (input : List α) (room : ℕ)
    (next : σ) (reply : Reply β) : Prop where
  consumed_le : reply.consumed ≤ input.length
  encoded_front : taken ++ input.take reply.consumed <+: f.encoded
  content_front : given ++ reply.emitted <+: f.content
  emitted_le : reply.emitted.length ≤ room
  /-- Zero is returned exactly when the frame is complete and flushed. -/
  ret_eq_zero_iff : reply.ret = 0 ↔
    taken ++ input.take reply.consumed = f.encoded ∧ given ++ reply.emitted = f.content
  boundary : reply.ret = 0 → place next [] [] 0
  inside : reply.ret ≠ 0 →
    place next (taken ++ input.take reply.consumed) (given ++ reply.emitted)
      (stalled idle reply)
  /-- Room left over inside a frame means that more input is what is missing. -/
  greedy : reply.ret ≠ 0 → reply.emitted.length < room →
    reply.consumed = input.length ∧ taken ++ input.take reply.consumed ≠ f.encoded

/-- A call that is not shown the end of the frame does not complete it. -/
theorem Answers.ret_ne_zero {place : σ → List α → List β → ℕ → Prop} {f : Frame α β}
    {taken input : List α} {given : List β} {idle room : ℕ} {next : σ} {reply : Reply β}
    (hanswers : Answers place f taken given idle input room next reply)
    (hshort : (taken ++ input).length < f.encoded.length) : reply.ret ≠ 0 := by
  intro hzero
  have hwhole := congrArg List.length (hanswers.ret_eq_zero_iff.mp hzero).1
  rw [List.length_append, List.length_take] at hwhole
  rw [List.length_append] at hshort
  omega

/-- A decoder conforms to a format when it answers well at every point of every
frame, provided there is room, the input continues the frame, and it was not
called `patience` times in a row without moving. -/
structure Conforms (D : Decoder σ α β) (IsFrame : Frame α β → Prop) (patience : ℕ) where
  /-- The decoder stands inside a frame after this much input and output, having
  been called this many times in a row without moving. -/
  place : σ → List α → List β → ℕ → Prop
  answers : ∀ {s : σ} {taken : List α} {given : List β} {idle : ℕ} {f : Frame α β}
    {input after : List α} {room : ℕ}, place s taken given idle → IsFrame f →
    taken ++ input <+: f.encoded ++ after → taken <+: f.encoded → given <+: f.content →
    0 < room → idle < patience →
    Answers place f taken given idle input room (D.decode s input room).1
      (D.decode s input room).2

/-- The calls that led from the border in front of frame `f` to this point of it were not shown
the end of the frame.  A decoder that was may have emitted what the last bytes of the frame stand
for and left the very last one in the input, until the output has room for the rest. -/
inductive Conforms.Short {D : Decoder σ α β} {IsFrame : Frame α β → Prop} {patience : ℕ}
    (C : D.Conforms IsFrame patience) (f : Frame α β) : σ → List α → List β → Prop
  | start {s : σ} {idle : ℕ} (hplace : C.place s [] [] idle) : C.Short f s [] []
  | call {s : σ} {taken input : List α} {given : List β} {idle room : ℕ}
      (hbefore : C.Short f s taken given) (hplace : C.place s taken given idle)
      (hinput : taken ++ input <+: f.encoded)
      (hshort : (taken ++ input).length < f.encoded.length) (hgiven : given <+: f.content)
      (hroom : 0 < room) (hidle : idle < patience) :
      C.Short f (D.decode s input room).1 (taken ++ input.take (D.decode s input room).2.consumed)
        (given ++ (D.decode s input room).2.emitted)

end Decoder

end ZstdJni.Foundation
