/-
# Streaming encoders of framed formats

The counterpart of a streaming decoder.  An encoder is fed content and room for its
output, call after call, with a directive that says whether the frame goes on, is to be
flushed, or is to be ended.  It keeps back what it likes while the frame goes on, and
returns zero once a flush or an end is complete.

What a flush is good for is stated without a decoder: the output so far suffices for
some content if every sequence of frames that begins with this output has content that
begins with this content.
-/

import ZstdJni.Foundation.FrameDecoder

namespace ZstdJni.Foundation

universe u v w x

variable {σ : Type u} {α : Type v} {β : Type w} {π : Type x}

/-- What an encoder is told to do with the frame. -/
inductive Directive
  | goOn
  | flush
  | finish
  deriving DecidableEq

/-- A streaming encoder with settings of type `π`: a call with content and room, a reset
that begins a new frame, and a change of the settings.  The numbers are results, of
which some mean failure. -/
structure Encoder (σ : Type u) (π : Type x) (α : Type v) (β : Type w) where
  encode : σ → Directive → List β → ℕ → σ × Reply α
  reset : σ → σ × ℕ
  configure : σ → π → σ × ℕ

/-- Output that determines content: whatever frames it is continued to, their contents
begin with `content`. -/
def Suffices (IsFrame : Frame α β → Prop) (output : List α) (content : List β) : Prop :=
  ∀ frames : List (Frame α β), (∀ f ∈ frames, IsFrame f) → output <+: encodings frames →
    content <+: contents frames

/-- A format whose frames delimit themselves and have one content each. -/
structure SelfDelimiting (IsFrame : Frame α β → Prop) : Prop where
  encoded_ne_nil : ∀ {f}, IsFrame f → f.encoded ≠ []
  eq_of_front : ∀ {f f'}, IsFrame f → IsFrame f' → f.encoded <+: f'.encoded → f = f'

/-- Whole frames in front of an output are decoded first. -/
theorem Suffices.encodings_append {IsFrame : Frame α β → Prop} (hformat : SelfDelimiting IsFrame)
    {frames : List (Frame α β)} (hframes : ∀ f ∈ frames, IsFrame f) {output : List α}
    {content : List β} (hsuffices : Suffices IsFrame output content) :
    Suffices IsFrame (encodings frames ++ output) (contents frames ++ content) := by
  induction frames with
  | nil => exact hsuffices
  | cons f rest ih =>
      intro others hothers houtput
      have hf := hframes f (by simp)
      rw [encodings_cons, List.append_assoc] at houtput
      cases others with
      | nil =>
          have hnil := List.prefix_nil.mp houtput
          exact absurd (List.append_eq_nil_iff.mp hnil).1 (hformat.encoded_ne_nil hf)
      | cons f' rest' =>
          have hf' := hothers f' (by simp)
          rw [encodings_cons] at houtput
          obtain rfl : f = f' := by
            rcases List.prefix_or_prefix_of_prefix ((List.prefix_append _ _).trans houtput)
              (List.prefix_append f'.encoded (encodings rest')) with h | h
            · exact hformat.eq_of_front hf hf' h
            · exact (hformat.eq_of_front hf' hf h).symm
          rw [contents_cons, contents_cons, List.append_assoc, List.prefix_append_right_inj]
          exact ih (fun g hg => hframes g (by simp [hg])) rest'
            (fun g hg => hothers g (by simp [hg]))
            ((List.prefix_append_right_inj _).mp houtput)

namespace Encoder

/-- The contract of an encoder for a format, on calls that do not fail.  `place closing s
fed output pending` says that the encoder is inside a frame: `fed` is the content it
took, `output` what it emitted, `pending` bounds the calls that still have output to
emit, and `closing` tells whether the end of the frame was requested. -/
structure Contract (E : Encoder σ π α β) (IsFrame : Frame α β → Prop) (failed : ℕ → Prop) where
  place : Bool → σ → List β → List α → ℕ → Prop
  reset : ∀ s, ¬ failed (E.reset s).2 → ∃ pending, place false (E.reset s).1 [] [] pending
  /-- A call with input takes some of it, or gets rid of some of the pending output. -/
  goOn : ∀ {s fed output pending input room}, place false s fed output pending → input ≠ [] →
    0 < room → ∀ {next reply}, E.encode s .goOn input room = (next, reply) → ¬ failed reply.ret →
    reply.consumed ≤ input.length ∧ reply.emitted.length ≤ room ∧
      ∃ pending', place false next (fed ++ input.take reply.consumed) (output ++ reply.emitted)
        pending' ∧ (reply.consumed = 0 → pending' < pending)
  flush : ∀ {s fed output pending room}, place false s fed output pending → 0 < room →
    ∀ {next reply}, E.encode s .flush [] room = (next, reply) → ¬ failed reply.ret →
    reply.emitted.length ≤ room ∧
      ∃ pending', place false next fed (output ++ reply.emitted) pending' ∧
        (reply.ret = 0 → Suffices IsFrame (output ++ reply.emitted) fed) ∧
        (reply.ret ≠ 0 → pending' < pending)
  finish : ∀ {closing s fed output pending room}, place closing s fed output pending → 0 < room →
    ∀ {next reply}, E.encode s .finish [] room = (next, reply) → ¬ failed reply.ret →
    reply.emitted.length ≤ room ∧
      (reply.ret = 0 → IsFrame ⟨output ++ reply.emitted, fed⟩) ∧
      (reply.ret ≠ 0 → ∃ pending' < pending,
        place true next fed (output ++ reply.emitted) pending')

/-- The session is the one that some call left behind, with the number that the call
answered. -/
inductive Answered (E : Encoder σ π α β) : σ → ℕ → Prop
  | encode (s : σ) (directive : Directive) (input : List β) (room : ℕ) :
      E.Answered (E.encode s directive input room).1 (E.encode s directive input room).2.ret
  | reset (s : σ) : E.Answered (E.reset s).1 (E.reset s).2
  | configure (s : σ) (setting : π) : E.Answered (E.configure s setting).1 (E.configure s setting).2

end Encoder

end ZstdJni.Foundation
