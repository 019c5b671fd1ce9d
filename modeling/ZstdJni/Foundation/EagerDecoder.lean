/-
# A decoder that emits inside a frame

The decoder for a format with one frame whose content becomes available piece by piece: a
schedule says how much of the content can be decoded from how much of the encoded form.
The decoder takes all the input it is given, up to the end of the frame, and emits what the
schedule and the room allow.  Like the decoder of a table it shows that the contract can be
met, here by a decoder that emits before it has seen the end of the frame.

A decoder is prompt if how much it has emitted depends on how much it has taken alone: with room
left it holds nothing back, and until it is shown the end of the frame it does not run ahead of
what can be decoded.
-/

import Mathlib.Order.Monotone.Basic
import Mathlib.Order.Nat
import ZstdJni.Foundation.FrameDecoder

namespace ZstdJni.Foundation

universe u v w

variable {σ : Type u} {α : Type v} {β : Type w}

/-- What a prompt decoder emits: `ready f n` elements of the content of `f` can be decoded from
the first `n` of its encoded form. -/
structure Decoder.Prompt {D : Decoder σ α β} {IsFrame : Frame α β → Prop} {patience : ℕ}
    (C : D.Conforms IsFrame patience) where
  ready : Frame α β → ℕ → ℕ
  ready_zero : ∀ {f}, IsFrame f → ready f 0 = 0
  /-- The decoder does not run ahead of what it has taken, unless it was shown the end of the
  frame. -/
  given_le : ∀ {s : σ} {taken : List α} {given : List β} {f : Frame α β}, IsFrame f →
    C.Short f s taken given → given.length ≤ ready f taken.length
  /-- With room left it holds nothing back. -/
  flushed : ∀ {s : σ} {taken : List α} {given : List β} {idle : ℕ} {f : Frame α β}
    {input after : List α} {room : ℕ}, C.place s taken given idle → IsFrame f →
    taken ++ input <+: f.encoded ++ after → taken <+: f.encoded → given <+: f.content →
    0 < room → idle < patience → (D.decode s input room).2.ret ≠ 0 →
    (D.decode s input room).2.emitted.length < room →
    ready f (taken ++ input.take (D.decode s input room).2.consumed).length ≤
      (given ++ (D.decode s input room).2.emitted).length

/-- A frame and how much of its content can be decoded from how much of its encoded form. -/
structure Schedule (α : Type v) (β : Type w) where
  frame : Frame α β
  ready : ℕ → ℕ
  ready_zero : ready 0 = 0
  ready_mono : Monotone ready
  ready_all : ready frame.encoded.length = frame.content.length

namespace Schedule

variable (plan : Schedule α β)

/-- The number of elements the decoder takes. -/
def takes (s : ℕ × ℕ) (input : List α) : ℕ :=
  min input.length (plan.frame.encoded.length - s.1)

/-- What the decoder emits. -/
def emits (s : ℕ × ℕ) (input : List α) (room : ℕ) : List β :=
  (plan.frame.content.drop s.2).take (min (plan.ready (s.1 + plan.takes s input) - s.2) room)

/-- The decoder of a schedule.  Its state is how much it has taken and emitted of the
frame. -/
def decoder : Decoder (ℕ × ℕ) α β where
  decode s input room :=
    if s.1 + plan.takes s input = plan.frame.encoded.length ∧
        s.2 + (plan.emits s input room).length = plan.frame.content.length then
      ((0, 0), ⟨plan.takes s input, plan.emits s input room, 0⟩)
    else
      ((s.1 + plan.takes s input, s.2 + (plan.emits s input room).length),
        ⟨plan.takes s input, plan.emits s input room, 1⟩)

/-- The state of the decoder counts what was taken and emitted, and no more was emitted than
was ready. -/
def Place (s : ℕ × ℕ) (taken : List α) (given : List β) (_idle : ℕ) : Prop :=
  s = (taken.length, given.length) ∧ given.length ≤ plan.ready taken.length

variable {plan} {taken input after : List α} {given : List β} {room : ℕ}

theorem taken_front (given : List β) (hinput : taken ++ input <+: plan.frame.encoded ++ after)
    (htaken : taken <+: plan.frame.encoded) :
    taken ++ input.take (plan.takes (taken.length, given.length) input) <+: plan.frame.encoded := by
  have hfront : taken ++ input.take (plan.takes (taken.length, given.length) input) <+:
      plan.frame.encoded ++ after :=
    ((List.prefix_append_right_inj taken).mpr (List.take_prefix _ input)).trans hinput
  refine List.prefix_of_prefix_length_le hfront (List.prefix_append _ _) ?_
  have hle := htaken.length_le
  simp only [takes, List.length_append, List.length_take]
  omega

theorem given_front (taken input : List α) (room : ℕ) (hgiven : given <+: plan.frame.content) :
    given ++ plan.emits (taken.length, given.length) input room <+: plan.frame.content := by
  obtain ⟨rest, hrest⟩ := hgiven
  rw [emits, ← hrest, List.drop_left, List.prefix_append_right_inj]
  exact List.take_prefix _ _

/-- The decoder of a schedule answers well at every point of its frame. -/
theorem answers (idle : ℕ) (room : ℕ) {s : ℕ × ℕ} (hplace : plan.Place s taken given idle)
    (hinput : taken ++ input <+: plan.frame.encoded ++ after)
    (htaken : taken <+: plan.frame.encoded)
    (hgiven : given <+: plan.frame.content) :
    Decoder.Answers plan.Place plan.frame taken given idle input room
      (plan.decoder.decode s input room).1 (plan.decoder.decode s input room).2 := by
  obtain ⟨rfl, hgiven_ready⟩ := hplace
  have hready : given.length + (plan.emits (taken.length, given.length) input room).length ≤
      plan.ready (taken.length + plan.takes (taken.length, given.length) input) := by
    have hmono := plan.ready_mono (Nat.le_add_right taken.length
      (plan.takes (taken.length, given.length) input))
    simp only [emits, List.length_take]
    omega
  have hencoded := taken_front given hinput htaken
  have hcontent := given_front taken input room hgiven
  generalize hconsumed : plan.takes (taken.length, given.length) input = consumed at hencoded hready
  generalize hemitted :
    plan.emits (taken.length, given.length) input room = emitted at hcontent hready
  have hconsumed_le : consumed ≤ input.length := by rw [← hconsumed, takes]; omega
  have htakenLength : (taken ++ input.take consumed).length = taken.length + consumed := by
    rw [List.length_append, List.length_take]
    omega
  have hemitted_le : emitted.length ≤ room := by
    rw [← hemitted, emits, List.length_take]
    omega
  have htaken_le := htaken.length_le
  have hdone : taken.length + consumed = plan.frame.encoded.length ∧
      given.length + emitted.length = plan.frame.content.length ↔
      taken ++ input.take consumed = plan.frame.encoded ∧
      given ++ emitted = plan.frame.content := by
    constructor
    · rintro ⟨htotal, hcount⟩
      exact ⟨hencoded.eq_of_length (htakenLength.trans htotal),
        hcontent.eq_of_length (by rw [List.length_append]; exact hcount)⟩
    · rintro ⟨htotal, hcount⟩
      exact ⟨htakenLength.symm.trans (congrArg List.length htotal),
        by rw [← List.length_append, hcount]⟩
  by_cases hfinished : taken.length + consumed = plan.frame.encoded.length ∧
      given.length + emitted.length = plan.frame.content.length
  · have hdecode : plan.decoder.decode (taken.length, given.length) input room =
        ((0, 0), ⟨consumed, emitted, 0⟩) := by
      simp only [decoder, hconsumed, hemitted, if_pos hfinished]
    rw [hdecode]
    exact ⟨hconsumed_le, hencoded, hcontent, hemitted_le, iff_of_true rfl (hdone.mp hfinished),
      fun _ => ⟨rfl, Nat.zero_le _⟩, fun h => absurd rfl h, fun h => absurd rfl h⟩
  · have hdecode : plan.decoder.decode (taken.length, given.length) input room =
        ((taken.length + consumed, given.length + emitted.length), ⟨consumed, emitted, 1⟩) := by
      simp only [decoder, hconsumed, hemitted, if_neg hfinished]
    rw [hdecode]
    refine ⟨hconsumed_le, hencoded, hcontent, hemitted_le,
      iff_of_false Nat.one_ne_zero (mt hdone.mpr hfinished), fun h => absurd h Nat.one_ne_zero,
      fun _ => ?_, fun _ hroom => ?_⟩
    · simp only [Place, htakenLength, List.length_append, true_and]
      exact hready
    · simp only at hroom
      have hmissing : taken.length + consumed ≠ plan.frame.encoded.length := by
        intro htotal
        refine hfinished ⟨htotal, ?_⟩
        have hready := plan.ready_all
        have hgiven_le := hgiven.length_le
        rw [← hemitted, emits, List.length_take, List.length_drop, hconsumed] at hroom ⊢
        simp only [htotal] at hroom ⊢
        omega
      refine ⟨?_, fun htotal => hmissing (htakenLength.symm.trans (congrArg List.length htotal))⟩
      rw [← hconsumed, takes] at hmissing ⊢
      simp only at hmissing ⊢
      omega

/-- The decoder of a schedule conforms to the format of its frame. -/
def conforms (plan : Schedule α β) (patience : ℕ) :
    plan.decoder.Conforms (· = plan.frame) patience where
  place := plan.Place
  answers hplace hf hinput htaken hgiven _ _ := by
    subst hf
    exact answers _ _ hplace hinput htaken hgiven

/-- With room left, the decoder of a schedule has emitted all that is ready. -/
theorem flushed (idle : ℕ) {s : ℕ × ℕ} (hplace : plan.Place s taken given idle)
    (hinput : taken ++ input <+: plan.frame.encoded ++ after)
    (htaken : taken <+: plan.frame.encoded)
    (hret : (plan.decoder.decode s input room).2.ret ≠ 0)
    (hroom : (plan.decoder.decode s input room).2.emitted.length < room) :
    plan.ready (taken ++ input.take (plan.decoder.decode s input room).2.consumed).length ≤
      (given ++ (plan.decoder.decode s input room).2.emitted).length := by
  obtain ⟨rfl, -⟩ := hplace
  have hencoded := (taken_front given hinput htaken).length_le
  have hready := plan.ready_mono hencoded
  rw [plan.ready_all] at hready
  simp only [decoder] at hret hroom ⊢
  split_ifs at hret hroom ⊢
  · exact absurd rfl hret
  · simp only [emits, List.length_append, List.length_take, List.length_drop] at hroom hready ⊢
    have hconsumed : min (plan.takes (taken.length, given.length) input) input.length =
        plan.takes (taken.length, given.length) input := by
      simp only [takes]
      omega
    rw [hconsumed] at hready ⊢
    omega

/-- The decoder of a schedule has emitted no more than what is ready. -/
theorem given_le {patience : ℕ} {s : ℕ × ℕ}
    (hshort : (plan.conforms patience).Short plan.frame s taken given) :
    given.length ≤ plan.ready taken.length := by
  cases hshort with
  | start hplace => exact hplace.2
  | @call s taken input given idle room _ hplace hinput hshort hgiven hroom hidle =>
      have hanswers := (plan.conforms patience).answers hplace rfl
        (hinput.trans (List.prefix_append _ [])) ((List.prefix_append _ _).trans hinput) hgiven
        hroom hidle
      exact (hanswers.inside (hanswers.ret_ne_zero hshort)).2

/-- The decoder of a schedule is prompt. -/
def prompt (plan : Schedule α β) (patience : ℕ) : Decoder.Prompt (plan.conforms patience) where
  ready _ := plan.ready
  ready_zero _ := plan.ready_zero
  given_le hf hshort := by
    subst hf
    exact given_le hshort
  flushed hplace hf hinput htaken _ _ _ hret hroom := by
    subst hf
    exact flushed 0 hplace hinput htaken hret hroom

end Schedule

end ZstdJni.Foundation
