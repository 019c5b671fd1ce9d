/-
# The invariant of the input stream

Six coupled variables of `readInternal` carry the position in the input across
calls.  The invariant ties them to a ghost position: which frames are complete,
how much of the current frame the decompressor took and emitted, and which answers
of the wrapped stream were used up.

Three facts do the work.  A read is only requested when the source buffer is used
up, so no unread byte is overwritten.  No answer of the wrapped stream ends between
the position of the decompressor and the end of the source buffer, so a chunk
border is always met with an empty buffer.  And the flag `frameFinished` is right at
a frame border only: inside a frame it still says "finished" when the frame began in
bytes left over from the chunk that ended the previous one.
-/

import ZstdJni.InputStream.Spec

namespace ZstdJni.InputStream

open ZstdJni.Foundation ZstdJni.Native

variable {σ : Type} {D : Decoder σ Byte Byte} {C : DStreamContract D}

/-- The ghost position of a stream in its source. -/
structure Ghost where
  /-- The frames that are complete. -/
  past : List (Frame Byte Byte)
  /-- The current frame and the ones behind it. -/
  todo : List (Frame Byte Byte)
  /-- What the decompressor took of the current frame. -/
  taken : List Byte
  /-- What it emitted of the content of the current frame. -/
  given : List Byte
  /-- How often in a row it was called without moving. -/
  idle : ℕ
  /-- The answers of the wrapped stream that were used up. -/
  answered : List (Option (List Byte))

namespace Ghost

/-- The number of input bytes the decompressor took. -/
def pos (g : Ghost) : ℕ := (encodings g.past).length + g.taken.length

/-- The content that is still to be delivered. -/
def left (g : Ghost) : List Byte := (contents g.todo).drop g.given.length

/-- The decompressor stands inside the current frame. -/
def Inside (g : Ghost) : Prop := g.taken ≠ [] ∨ g.given ≠ []

/-- What was taken and given belongs to the current frame. -/
def Fits (g : Ghost) : Prop :=
  match g.todo with
  | [] => g.taken = [] ∧ g.given = []
  | f :: _ => g.taken <+: f.encoded ∧ g.given <+: f.content

end Ghost

/-- The part of the invariant that does not depend on what is requested next. -/
structure Core (source : Source C) (st : State σ) (g : Ghost) : Prop where
  frames_eq : source.frames = g.past ++ g.todo
  script_eq : source.upstream.script = g.answered ++ st.upstream.script
  place : C.conforms.place st.stream g.taken g.given g.idle
  fits : g.Fits
  /-- The decompressor was not shown the end of the current frame before it was read. -/
  short : ∀ f ∈ g.todo.head?, (g.taken ++ st.pending).length < f.encoded.length →
    C.conforms.Short f st.stream g.taken g.given
  position : supplied g.answered = encodings g.past ++ g.taken ++ st.pending
  src_length : st.src.length = srcBuffSize
  srcPos_le : st.srcPos ≤ st.srcSize
  srcSize_le : st.srcSize ≤ srcBuffSize
  /-- No answer ends between the decompressor and the end of the buffer. -/
  border : ∀ before, before <+: source.upstream.script → g.pos < (supplied before).length →
    (supplied g.answered).length ≤ (supplied before).length
  /-- No position at which a hint is misread was passed. -/
  clean : ∀ before, before <+: source.upstream.script →
    MisreadAt source.frames (supplied before).length → g.pos < (supplied before).length
  is_open : st.isClosed = false
  pending_le : st.pending.length ≤ lastChunkLength g.answered
  /-- The last byte of a frame was taken from the chunk in the buffer. -/
  behind : ∀ f ∈ g.todo.head?, g.taken = f.encoded →
    st.pending.length < lastChunkLength g.answered
  /-- Bytes are at hand only if the last answer supplied some. -/
  held : st.pending ≠ [] → ∀ earlier reply, g.answered = earlier ++ [reply] → reply.getD [] ≠ []
  /-- The flag is set at a frame border, and inside a frame exactly if the frame began
  in the bytes left over from an earlier one. -/
  finished_iff : st.frameFinished = true ↔
    g.taken.length + st.pending.length < lastChunkLength g.answered ∨
      st.pending = [] ∧ ¬ g.Inside

/-- The invariant between two turns of the loop, and between two calls. -/
structure Inv (source : Source C) (st : State σ) (g : Ghost) : Prop
    extends Core source st g where
  idle_le : g.idle ≤ 1
  /-- A read is only requested with an empty buffer and an incomplete frame. -/
  read_empty : st.needRead = true → st.pending = []
  read_incomplete : st.needRead = true → ∀ f ∈ g.todo.head?, g.taken ≠ f.encoded
  decode_todo : st.needRead = false → g.todo ≠ []
  decode_idle : st.needRead = false → g.idle = 0
  decode_inside : st.needRead = false → st.pending = [] → g.Inside

theorem State.length_pending {self : State σ} (hsize : self.srcSize ≤ self.src.length) :
    self.pending.length = self.srcSize - self.srcPos :=
  length_window _ hsize

namespace Core

variable {source : Source C} {self other : State σ} {g : Ghost}

/-- The core of the invariant does not read `dstPos`, `needRead`, `isContinuous` or
the answers of `available`. -/
theorem of_agree (hcore : Core source self g) (hstream : other.stream = self.stream)
    (hscript : other.upstream.script = self.upstream.script) (hsrc : other.src = self.src)
    (hpos : other.srcPos = self.srcPos) (hsize : other.srcSize = self.srcSize)
    (hfinished : other.frameFinished = self.frameFinished)
    (hclosed : other.isClosed = self.isClosed) : Core source other g := by
  have hpending : other.pending = self.pending := by
    rw [State.pending, hsrc, hpos, hsize, State.pending]
  exact
    { frames_eq := hcore.frames_eq
      script_eq := by rw [hscript]; exact hcore.script_eq
      place := by rw [hstream]; exact hcore.place
      fits := hcore.fits
      short := by rw [hpending, hstream]; exact hcore.short
      position := by rw [hpending]; exact hcore.position
      src_length := by rw [hsrc]; exact hcore.src_length
      srcPos_le := by rw [hpos, hsize]; exact hcore.srcPos_le
      srcSize_le := by rw [hsize]; exact hcore.srcSize_le
      border := hcore.border
      clean := hcore.clean
      is_open := by rw [hclosed]; exact hcore.is_open
      pending_le := by rw [hpending]; exact hcore.pending_le
      behind := by rw [hpending]; exact hcore.behind
      held := by rw [hpending]; exact hcore.held
      finished_iff := by rw [hpending, hfinished]; exact hcore.finished_iff }

/-- The bytes to come are the rest of the frames, possibly cut short. -/
theorem rest_front (hcore : Core source self g) :
    g.taken ++ (self.pending ++ supplied self.upstream.script) <+: encodings g.todo := by
  have hfront := source.supplied_front
  rw [hcore.script_eq, supplied_append, hcore.position, hcore.frames_eq, encodings_append,
    List.append_assoc, List.append_assoc] at hfront
  exact (List.prefix_append_right_inj _).mp hfront

theorem length_pending (hcore : Core source self g) :
    self.pending.length = self.srcSize - self.srcPos :=
  State.length_pending (hcore.src_length ▸ hcore.srcSize_le)

theorem length_supplied (hcore : Core source self g) :
    (supplied g.answered).length = g.pos + self.pending.length := by
  rw [hcore.position, List.length_append, List.length_append, Ghost.pos]

/-- Bytes in the buffer, or a frame that was begun, leave a frame to be done. -/
theorem todo_ne_nil (hcore : Core source self g) (h : self.pending ≠ [] ∨ g.Inside) :
    g.todo ≠ [] := by
  intro htodo
  have hrest := hcore.rest_front
  have hfits := hcore.fits
  rw [Ghost.Fits, htodo] at hfits
  rw [htodo, encodings_nil, hfits.1, List.nil_append, List.prefix_nil,
    List.append_eq_nil_iff] at hrest
  rcases h with hpending | hinside
  · exact hpending hrest.1
  · rcases hinside with htaken | hgiven
    · exact htaken hfits.1
    · exact hgiven hfits.2

end Core

/-- The stream a constructor returns satisfies the invariant. -/
theorem inv_opened (source : Source C) (continuous : Bool) :
    Inv source (source.opened.setContinuous continuous)
      ⟨[], source.frames, [], [], 0, []⟩ where
  frames_eq := rfl
  script_eq := rfl
  place := C.place_fresh
  fits := by
    unfold Ghost.Fits
    split <;> simp
  short := fun _ _ _ => .start C.place_fresh
  position := by simp [State.pending, Source.opened, State.create, State.setContinuous]
  src_length := by simp [Source.opened, State.create, State.setContinuous]
  srcPos_le := le_rfl
  srcSize_le := Nat.zero_le _
  border := by simp
  clean := by
    rintro before - ⟨_, f, _, inside, -, hpos, -, hheader, -⟩
    simp only [Ghost.pos, encodings_nil, List.length_nil, skippableHeaderSize] at *
    omega
  is_open := rfl
  pending_le := by simp [State.pending, Source.opened, State.create, State.setContinuous]
  behind := by
    intro f hf htaken
    have hmem : f ∈ source.frames := List.mem_of_mem_head? hf
    exact absurd htaken.symm (C.encoded_ne_nil (source.frames_valid f hmem))
  held := by simp
  finished_iff := by
    simp [State.pending, Source.opened, State.create, State.setContinuous, Ghost.Inside]
  idle_le := Nat.zero_le _
  read_empty := by simp [State.pending, Source.opened, State.create, State.setContinuous]
  read_incomplete := by
    intro _ f hf
    have hmem : f ∈ source.frames := List.mem_of_mem_head? hf
    exact (C.encoded_ne_nil (source.frames_valid f hmem)).symm
  decode_todo := by simp [Source.opened, State.create, State.setContinuous]
  decode_idle := by simp
  decode_inside := by simp [Source.opened, State.create, State.setContinuous]

end ZstdJni.InputStream
