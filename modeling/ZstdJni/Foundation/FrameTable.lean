/-
# A decoder for a table of frames

The simplest decoder that conforms to a format with finitely many frames, none a
prefix of another: it collects input until it holds the encoded form of a frame, then
emits the content as room allows.  The last element of a frame is only taken once all
content is emitted, so that input is left over while output is pending.

It is not meant to be clever.  It shows that the contract of a decoder can be met, and
it is executable, so a claim about a concrete input can be checked against it.
-/

import ZstdJni.Foundation.FrameDecoder

namespace ZstdJni.Foundation

universe v w

variable {α : Type v} {β : Type w}

/-- Taking a frame up to a position behind what was already taken. -/
theorem append_take_eq {taken input encoded : List α} {upto : ℕ}
    (hwhole : encoded <+: taken ++ input) (hfrom : taken.length ≤ upto)
    (hupto : upto ≤ encoded.length) :
    taken ++ input.take (upto - taken.length) = encoded.take upto := by
  obtain ⟨rest, hrest⟩ := hwhole
  calc taken ++ input.take (upto - taken.length) = (taken ++ input).take upto := by
        rw [List.take_append, List.take_of_length_le hfrom]
    _ = encoded.take upto := by rw [← hrest, List.take_append_of_le_length hupto]

variable [DecidableEq α]

/-- A table of frames such that no encoded form is empty or a prefix of another. -/
structure FrameTable (α : Type v) (β : Type w) where
  frames : List (Frame α β)
  encoded_ne_nil : ∀ f ∈ frames, f.encoded ≠ []
  prefix_free : ∀ f ∈ frames, ∀ f' ∈ frames, f.encoded <+: f'.encoded → f = f'

namespace FrameTable

variable (table : FrameTable α β)

/-- The frame whose encoded form the input starts with. -/
def lookup (input : List α) : Option (Frame α β) :=
  table.frames.find? fun f => f.encoded.isPrefixOf input

/-- The decoder of a table.  Its state is what it has taken of the current frame and how
much of the content it has emitted; `hint` is what it returns while input is missing. -/
def decoder (hint : List α → ℕ) : Decoder (List α × ℕ) α β where
  decode s input room :=
    match table.lookup (s.1 ++ input) with
    | none => ((s.1 ++ input, s.2), ⟨input.length, [], max 1 (hint (s.1 ++ input))⟩)
    | some f =>
      let emitted := (f.content.drop s.2).take room
      if s.2 + emitted.length = f.content.length then
        (([], 0), ⟨f.encoded.length - s.1.length, emitted, 0⟩)
      else
        ((f.encoded.dropLast, s.2 + emitted.length),
          ⟨f.encoded.length - 1 - s.1.length, emitted, max 1 (hint f.encoded.dropLast)⟩)

/-- Inside a frame the decoder never holds a whole encoded form. -/
def Place (s : List α × ℕ) (taken : List α) (given : List β) (_idle : ℕ) : Prop :=
  s = (taken, given.length) ∧ ∀ f ∈ table.frames, ¬ f.encoded <+: taken

variable {table} {f : Frame α β} {taken input after : List α} {given : List β} {idle : ℕ}

/-- On input that continues a frame only that frame can be found. -/
theorem lookup_some (hf : f ∈ table.frames) (hinput : input <+: f.encoded ++ after)
    {found : Frame α β} (hfound : table.lookup input = some found) :
    found = f ∧ f.encoded <+: input := by
  have hmem := List.mem_of_find?_eq_some hfound
  have hfront : found.encoded <+: input := by
    simpa using List.find?_some hfound
  rcases List.prefix_or_prefix_of_prefix (hfront.trans hinput) (List.prefix_append f.encoded after)
    with h | h
  · obtain rfl := table.prefix_free found hmem f hf h
    exact ⟨rfl, hfront⟩
  · obtain rfl := table.prefix_free f hf found hmem h
    exact ⟨rfl, hfront⟩

theorem lookup_none (hnone : table.lookup input = none) (hf : f ∈ table.frames) :
    ¬ f.encoded <+: input := by
  have h := List.find?_eq_none.mp hnone f hf
  simpa using h

omit [DecidableEq α] in
theorem Place.length_lt {s : List α × ℕ} (hplace : table.Place s taken given idle)
    (hf : f ∈ table.frames) (htaken : taken <+: f.encoded) :
    taken.length < f.encoded.length := by
  have hle := htaken.length_le
  by_contra hge
  exact hplace.2 f hf (htaken.eq_of_length (by omega) ▸ List.prefix_rfl)

/-- The decoder of a table answers well at every point of every frame of it. -/
theorem answers (hint : List α → ℕ) (idle room : ℕ) {s : List α × ℕ}
    (hplace : table.Place s taken given idle)
    (hf : f ∈ table.frames) (hinput : taken ++ input <+: f.encoded ++ after)
    (htaken : taken <+: f.encoded) (hgiven : given <+: f.content) :
    Decoder.Answers table.Place f taken given idle input room
      ((table.decoder hint).decode s input room).1
        ((table.decoder hint).decode s input room).2 := by
  have hless := hplace.length_lt hf htaken
  obtain ⟨rfl, -⟩ := hplace
  cases hlookup : table.lookup (taken ++ input) with
  | none =>
      have hdecode : (table.decoder hint).decode (taken, given.length) input room =
          ((taken ++ input, given.length),
            ⟨input.length, [], max 1 (hint (taken ++ input))⟩) := by
        simp [decoder, hlookup]
      rw [hdecode]
      have hmissing : ¬ f.encoded <+: taken ++ input := lookup_none hlookup hf
      have hfront : taken ++ input <+: f.encoded :=
        (List.prefix_or_prefix_of_prefix hinput (List.prefix_append f.encoded after)).resolve_right
          hmissing
      have hne : taken ++ input ≠ f.encoded := fun h => hmissing (h ▸ List.prefix_rfl)
      refine ⟨Nat.le_refl _, by simpa using hfront, by simpa using hgiven, Nat.zero_le _,
        ?_, ?_, ?_, ?_⟩
      · simp only [List.take_length]
        constructor
        · intro h
          omega
        · exact fun h => absurd h.1 hne
      · intro h
        simp only at h
        omega
      · intro _
        refine ⟨by simp, ?_⟩
        intro f' hf'
        rw [List.take_length]
        exact lookup_none hlookup hf'
      · intro _ _
        exact ⟨rfl, by simpa using hne⟩
  | some found =>
      obtain ⟨rfl, hall⟩ := lookup_some hf hinput hlookup
      obtain ⟨tail, hcontent⟩ := hgiven
      have hdrop : found.content.drop given.length = tail := by
        rw [← hcontent, List.drop_left]
      by_cases hflushed : given.length + (tail.take room).length = found.content.length
      · have hdecode : (table.decoder hint).decode (taken, given.length) input room =
            (([], 0), ⟨found.encoded.length - taken.length, tail.take room, 0⟩) := by
          simp only [decoder, hlookup, hdrop, if_pos hflushed]
        rw [hdecode]
        have hencoded : taken ++ input.take (found.encoded.length - taken.length) =
          found.encoded := by
          rw [append_take_eq hall (Nat.le_of_lt hless) (Nat.le_refl _), List.take_length]
        have hemitted : given ++ tail.take room = found.content := by
          refine List.IsPrefix.eq_of_length ?_ (by rw [List.length_append, hflushed])
          rw [← hcontent, List.prefix_append_right_inj]
          exact List.take_prefix _ _
        have hlength := hall.length_le
        rw [List.length_append] at hlength
        refine ⟨by simp only; omega, ?_, ?_, List.length_take_le _ _, ?_, ?_, ?_, ?_⟩
        · exact ⟨[], by rw [List.append_nil, hencoded]⟩
        · exact ⟨[], by rw [List.append_nil, hemitted]⟩
        · exact iff_of_true rfl ⟨hencoded, hemitted⟩
        · intro _
          refine ⟨rfl, ?_⟩
          intro f' hf' hnil
          exact table.encoded_ne_nil f' hf' (List.prefix_nil.mp hnil)
        · exact fun h => absurd rfl h
        · exact fun h => absurd rfl h
      · have hdecode : (table.decoder hint).decode (taken, given.length) input room =
            ((found.encoded.dropLast, given.length + (tail.take room).length),
              ⟨found.encoded.length - 1 - taken.length, tail.take room,
                max 1 (hint found.encoded.dropLast)⟩) := by
          simp only [decoder, hlookup, hdrop, if_neg hflushed]
        rw [hdecode]
        have hencoded : taken ++ input.take (found.encoded.length - 1 - taken.length) =
            found.encoded.dropLast := by
          rw [append_take_eq hall (by omega) (by omega), List.dropLast_eq_take]
        have hshort : found.encoded.dropLast.length < found.encoded.length := by
          rw [List.length_dropLast]
          omega
        have hfull : (tail.take room).length = room := by
          have htotal := congrArg List.length hcontent
          rw [List.length_append] at htotal
          rw [List.length_take] at hflushed ⊢
          omega
        have hlength := hall.length_le
        rw [List.length_append] at hlength
        refine ⟨by simp only; omega, ?_, ?_, List.length_take_le _ _, ?_, ?_, ?_, ?_⟩
        · rw [hencoded]
          exact List.dropLast_prefix _
        · rw [← hcontent, List.prefix_append_right_inj]
          exact List.take_prefix _ _
        · refine iff_of_false (by simp only; omega) ?_
          rintro ⟨h, -⟩
          rw [hencoded] at h
          exact absurd (congrArg List.length h) (by omega)
        · intro h
          simp only at h
          omega
        · intro _
          refine ⟨by simp only [hencoded, List.length_append], ?_⟩
          intro f' hf' hfront
          simp only [hencoded] at hfront
          obtain rfl := table.prefix_free f' hf' found hf
            (hfront.trans ( List.dropLast_prefix _))
          exact absurd hfront.length_le (by omega)
        · intro _ hroom
          simp only at hroom
          omega

/-- Inside a frame the decoder of a table returns its hint for what it has taken. -/
theorem ret_eq (hint : List α → ℕ) (idle room : ℕ) {s : List α × ℕ}
    (hplace : table.Place s taken given idle)
    (hf : f ∈ table.frames) (hinput : taken ++ input <+: f.encoded ++ after)
    (htaken : taken <+: f.encoded) :
    let reply := ((table.decoder hint).decode s input room).2
    reply.ret = 0 ∨ reply.ret = max 1 (hint (taken ++ input.take reply.consumed)) := by
  have hless := hplace.length_lt hf htaken
  obtain ⟨rfl, -⟩ := hplace
  cases hlookup : table.lookup (taken ++ input) with
  | none =>
      right
      simp [decoder, hlookup]
  | some found =>
      obtain ⟨rfl, hall⟩ := lookup_some hf hinput hlookup
      simp only [decoder, hlookup]
      split_ifs
      · exact .inl rfl
      · right
        rw [append_take_eq hall (by omega) (by omega), List.dropLast_eq_take]

/-- A table decoder conforms to the format of its table, however often it is called. -/
def conforms (table : FrameTable α β) (hint : List α → ℕ) (patience : ℕ) :
    (table.decoder hint).Conforms (· ∈ table.frames) patience where
  place := table.Place
  answers hplace hf hinput htaken hgiven _ _ := answers hint _ _ hplace hf hinput htaken hgiven

end FrameTable

end ZstdJni.Foundation
