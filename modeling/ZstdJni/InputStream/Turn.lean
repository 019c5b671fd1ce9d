/-
# One turn of the read loop

What reading from the wrapped stream and calling the decompressor do to the
invariant.  A read of a chunk happens with an empty buffer, so the core of the
invariant moves to the answered script as it is.  A call of the decompressor has
three ends: the frame is complete, the frame goes on, or the hint is one that the
narrowing to a `jint` turns into an error.  The last one happens exactly at the
positions named by `MisreadAt`.
-/

import ZstdJni.InputStream.Invariant

namespace ZstdJni.InputStream

open ZstdJni.Foundation ZstdJni.Native

variable {σ : Type} {D : Decoder σ Byte Byte} {C : DStreamContract D}
variable {source : Source C} {self : State σ} {g : Ghost}

namespace Ghost

/-- The position after one more answer of the wrapped stream. -/
@[simps]
def answer (g : Ghost) (reply : Option (List Byte)) : Ghost :=
  { g with answered := g.answered ++ [reply] }

@[simp]
theorem left_answer (g : Ghost) (reply : Option (List Byte)) : (g.answer reply).left = g.left := rfl

@[simp]
theorem pos_answer (g : Ghost) (reply : Option (List Byte)) : (g.answer reply).pos = g.pos := rfl

@[simp]
theorem inside_answer (g : Ghost) (reply : Option (List Byte)) :
    (g.answer reply).Inside ↔ g.Inside := Iff.rfl

end Ghost

/-- With an empty buffer every answer that supplies more ends at the end of the next
one or later. -/
theorem Core.border_answer (hcore : Core source self g) (hempty : self.pending = [])
    {reply : Option (List Byte)} {rest : List (Option (List Byte))}
    (hscript : self.upstream.script = reply :: rest) (before : List (Option (List Byte)))
    (hbefore : before <+: source.upstream.script) (hpos : g.pos < (supplied before).length) :
    (supplied (g.answered ++ [reply])).length ≤ (supplied before).length := by
  have hanswered : (supplied g.answered).length = g.pos := by
    rw [hcore.length_supplied, hempty]
    rfl
  have hwhole : g.answered ++ [reply] <+: source.upstream.script := by
    rw [hcore.script_eq, hscript]
    exact ⟨rest, by simp⟩
  rcases List.prefix_or_prefix_of_prefix hbefore hwhole with hle | ⟨more, rfl⟩
  · rcases List.prefix_concat_iff.mp hle with rfl | hshort
    · exact le_rfl
    · obtain ⟨more, hmore⟩ := hshort
      have hlength : (supplied g.answered).length =
          (supplied before).length + (supplied more).length := by
        rw [← hmore, supplied_append, List.length_append]
      omega
  · rw [supplied_append _ more, List.length_append]
    omega

/-- Emptying a buffer that was already empty, after an answer without bytes. -/
theorem Core.answer_empty (hcore : Core source self g) (hempty : self.pending = [])
    {reply : Option (List Byte)} {up : Upstream}
    (hscript : self.upstream.script = reply :: up.script) (hreply : reply.getD [] = []) :
    Core source { self with upstream := up, srcPos := 0, srcSize := 0 } (g.answer reply) where
  frames_eq := hcore.frames_eq
  script_eq := by rw [hcore.script_eq, hscript]; simp
  place := hcore.place
  fits := hcore.fits
  short := by
    have hshort := hcore.short
    rw [hempty] at hshort
    simpa [State.pending] using hshort
  position := by
    have hposition := hcore.position
    rw [hempty] at hposition
    simpa [State.pending, hreply] using hposition
  src_length := hcore.src_length
  srcPos_le := le_rfl
  srcSize_le := Nat.zero_le _
  border := hcore.border_answer hempty hscript
  clean := hcore.clean
  is_open := hcore.is_open
  pending_le := by simp [State.pending]
  behind := by
    intro f hf htaken
    have hbehind := hcore.behind f hf htaken
    rw [hempty] at hbehind
    simpa [State.pending, lastChunkLength_append_empty hreply] using hbehind
  held := fun hsome => absurd (window_self _ _) hsome
  finished_iff := by
    have hfinished := hcore.finished_iff
    rw [hempty] at hfinished
    simpa [State.pending, lastChunkLength_append_empty hreply] using hfinished

/-- A chunk goes into a buffer that was used up. -/
theorem Core.answer_chunk (hcore : Core source self g) (hempty : self.pending = [])
    (hincomplete : ∀ f ∈ g.todo.head?, g.taken ≠ f.encoded)
    {chunk : List Byte} {up : Upstream} (hscript : self.upstream.script = some chunk :: up.script)
    (hchunk : chunk ≠ []) :
    Core source
      { self with
        upstream := up, src := overwrite self.src 0 chunk, srcPos := 0, srcSize := chunk.length
        frameFinished := false } (g.answer (some chunk)) := by
  have hlen : chunk.length ≤ srcBuffSize :=
    source.chunk_le chunk (by rw [hcore.script_eq, hscript]; simp)
  have hfits : 0 + chunk.length ≤ self.src.length := by rw [hcore.src_length]; omega
  have hpending : window (overwrite self.src 0 chunk) 0 chunk.length = chunk := by
    simpa using window_overwrite self.src chunk (le_refl 0) (Nat.zero_le _)
  have hpositive : 0 < chunk.length := List.length_pos_iff.mpr hchunk
  exact
    { frames_eq := hcore.frames_eq
      script_eq := by rw [hcore.script_eq, hscript]; simp
      place := hcore.place
      fits := hcore.fits
      short := by
        intro f hf hlength
        refine hcore.short f hf (Nat.lt_of_le_of_lt ?_ hlength)
        rw [hempty, List.length_append, List.length_append, List.length_nil]
        exact Nat.add_le_add_left (Nat.zero_le _) _
      position := by
        have hposition := hcore.position
        rw [hempty] at hposition
        simp [State.pending, hpending, hposition]
      src_length := by rw [length_overwrite hfits]; exact hcore.src_length
      srcPos_le := Nat.zero_le _
      srcSize_le := hlen
      border := hcore.border_answer hempty hscript
      clean := hcore.clean
      is_open := hcore.is_open
      pending_le := by
        simp [State.pending, hpending, lastChunkLength_append_chunk hchunk]
      behind := fun f hf htaken => absurd htaken (hincomplete f hf)
      held := by
        intro _ earlier reply hlast
        obtain rfl := List.singleton_inj.mp (List.append_inj' hlast rfl).2
        exact hchunk
      finished_iff := by
        simp [State.pending, hpending, lastChunkLength_append_chunk hchunk, hchunk] }

section Decode

variable {f : Frame Byte Byte} {rest : List (Frame Byte Byte)} {room : ℕ}

/-- The next state of the decompressor, called on the pending input. -/
def nextStream (D : Decoder σ Byte Byte) (self : State σ) (room : ℕ) : σ :=
  (D.decode self.stream self.pending room).1

/-- The reply of the decompressor, called on the pending input. -/
def nextReply (D : Decoder σ Byte Byte) (self : State σ) (room : ℕ) : Reply Byte :=
  (D.decode self.stream self.pending room).2

/-- What was taken of the current frame after the call. -/
def takenNext (D : Decoder σ Byte Byte) (self : State σ) (g : Ghost) (room : ℕ) : List Byte :=
  g.taken ++ self.pending.take (nextReply D self room).consumed

theorem Core.fits_cons (hcore : Core source self g) (htodo : g.todo = f :: rest) :
    g.taken <+: f.encoded ∧ g.given <+: f.content := by
  have hfits := hcore.fits
  rwa [Ghost.Fits, htodo] at hfits

theorem Core.head_valid (hcore : Core source self g) (htodo : g.todo = f :: rest) :
    C.IsFrame f :=
  source.frames_valid f (by rw [hcore.frames_eq, htodo]; simp)

/-- The pending input continues the current frame. -/
theorem Core.input_front (hcore : Core source self g) (htodo : g.todo = f :: rest) :
    g.taken ++ self.pending <+: f.encoded ++ encodings rest := by
  have hrest := hcore.rest_front
  rw [htodo, encodings_cons, ← List.append_assoc] at hrest
  exact (List.prefix_append _ _).trans hrest

/-- The contract of the decompressor applies at the position of the invariant. -/
theorem Core.answers (hcore : Core source self g) (htodo : g.todo = f :: rest) (hroom : 0 < room)
    (hidle : g.idle ≤ 1) :
    Decoder.Answers C.conforms.place f g.taken g.given g.idle self.pending room
      (nextStream D self room) (nextReply D self room) := by
  have hfits := hcore.fits_cons htodo
  exact C.conforms.answers hcore.place (hcore.head_valid htodo) (hcore.input_front htodo) hfits.1
    hfits.2 hroom (by simp only [patience]; omega)

theorem Core.length_takenNext (hcore : Core source self g) (htodo : g.todo = f :: rest)
    (hroom : 0 < room) (hidle : g.idle ≤ 1) :
    (takenNext D self g room).length = g.taken.length + (nextReply D self room).consumed := by
  have hle := (hcore.answers htodo hroom hidle).consumed_le
  rw [takenNext, List.length_append, List.length_take, Nat.min_eq_left hle]

/-- The two kinds of hints: all that is missing of a skippable frame, or a small one. -/
theorem Core.hint (hcore : Core source self g) (htodo : g.todo = f :: rest) (hroom : 0 < room)
    (hidle : g.idle ≤ 1) :
    (isSkippable f.encoded = true ∧ skippableHeaderSize ≤ (takenNext D self g room).length ∧
      (nextReply D self room).ret = f.encoded.length - (takenNext D self g room).length) ∨
    (¬ (isSkippable f.encoded = true ∧
        skippableHeaderSize ≤ (takenNext D self g room).length) ∧
      (nextReply D self room).ret < 2 ^ 31) := by
  have hfits := hcore.fits_cons htodo
  have hvalid := hcore.head_valid htodo
  have hinput := hcore.input_front htodo
  have hpatience : g.idle < patience := by simp only [patience]; omega
  by_cases hskip : isSkippable f.encoded = true ∧
      skippableHeaderSize ≤ (takenNext D self g room).length
  · exact .inl ⟨hskip.1, hskip.2, C.skippable_hint hcore.place hvalid hinput hfits.1 hfits.2 hroom
      hpatience hskip.1 hskip.2⟩
  · exact .inr ⟨hskip, C.small_hint hcore.place hvalid hinput hfits.1 hfits.2 hroom hpatience hskip⟩

/-- No hint needs more than 32 bits. -/
theorem Core.ret_lt (hcore : Core source self g) (htodo : g.todo = f :: rest) (hroom : 0 < room)
    (hidle : g.idle ≤ 1) : (nextReply D self room).ret < 2 ^ 32 := by
  rcases hcore.hint htodo hroom hidle with ⟨hskip, hheader, hret⟩ | ⟨-, hret⟩
  · have hvalid := hcore.head_valid htodo
    have hlength := C.skippable_length hvalid hskip
    have hsize := skippableSize_lt f.encoded
    omega
  · omega

/-- A hint that looks like an error ends all input at hand at a misread position. -/
theorem Core.misread_of_isError (hcore : Core source self g) (htodo : g.todo = f :: rest)
    (hroom : 0 < room) (hidle : g.idle ≤ 1)
    (herror : isError (jint (nextReply D self room).ret) = true) : source.Misread := by
  rw [isError_jint_iff (hcore.ret_lt htodo hroom hidle)] at herror
  have hlength := hcore.length_takenNext (D := D) htodo hroom hidle
  have hanswers := hcore.answers htodo hroom hidle
  rcases hcore.hint htodo hroom hidle with ⟨hskip, hheader, hret⟩ | ⟨-, hret⟩
  · have hvalid := hcore.head_valid htodo
    have hemitted : (nextReply D self room).emitted = [] := by
      have hfront := hanswers.content_front
      rw [C.skippable_content hvalid hskip, List.prefix_nil, List.append_eq_nil_iff] at hfront
      exact hfront.2
    have hall := (hanswers.greedy (by omega) (by rw [hemitted]; exact hroom)).1
    refine ⟨g.answered, ⟨_, hcore.script_eq.symm⟩, g.past, f, rest,
      (takenNext D self g room).length, by rw [hcore.frames_eq, htodo], ?_, hskip, hheader, ?_⟩
    · rw [hcore.length_supplied, Ghost.pos, hlength, hall]
      omega
    · simp only [errorRange]
      omega
  · omega

/-- At a misread position the hint does look like an error. -/
theorem Core.isError_of_misread (hcore : Core source self g) (htodo : g.todo = f :: rest)
    (hroom : 0 < room) (hidle : g.idle ≤ 1)
    (hmisread : MisreadAt source.frames (g.pos + (nextReply D self room).consumed)) :
    isError (jint (nextReply D self room).ret) = true := by
  have hlength := hcore.length_takenNext (D := D) htodo hroom hidle
  have hle : (takenNext D self g room).length ≤ f.encoded.length :=
    (hcore.answers htodo hroom hidle).encoded_front.length_le
  rw [hcore.frames_eq, htodo, Ghost.pos, Nat.add_assoc, ← hlength] at hmisread
  obtain ⟨hskip, hheader, hrange⟩ := hmisread.inside hle
  rw [isError_jint_iff (hcore.ret_lt htodo hroom hidle)]
  rcases hcore.hint htodo hroom hidle with ⟨-, -, hret⟩ | ⟨hsmall, -⟩
  · rw [hret]
    simp only [errorRange] at hrange
    omega
  · exact absurd ⟨hskip, hheader⟩ hsmall

/-- The object after the native call, before the loop looks at the hint. -/
def called (D : Decoder σ Byte Byte) (self : State σ) (room : ℕ) : State σ :=
  { self with
    stream := nextStream D self room
    dstPos := self.dstPos + (nextReply D self room).emitted.length
    srcPos := self.srcPos + (nextReply D self room).consumed }

theorem pending_called (self : State σ) (room : ℕ) :
    (called D self room).pending = self.pending.drop (nextReply D self room).consumed :=
  window_add _ _ _ _

theorem length_pending_called (D : Decoder σ Byte Byte) (self : State σ) (room : ℕ) :
    (called D self room).pending.length =
      self.pending.length - (nextReply D self room).consumed := by
  rw [pending_called, List.length_drop]

theorem pending_ne_nil_of_called (hsome : (called D self room).pending ≠ []) :
    self.pending ≠ [] := by
  intro hnone
  rw [pending_called, hnone, List.drop_nil] at hsome
  exact hsome rfl

theorem Core.srcPos_le_called (hcore : Core source self g) (htodo : g.todo = f :: rest)
    (hroom : 0 < room) (hidle : g.idle ≤ 1) :
    (called D self room).srcPos ≤ (called D self room).srcSize := by
  have hle := (hcore.answers htodo hroom hidle).consumed_le
  have hsize := hcore.length_pending
  have hsrc := hcore.srcPos_le
  simp only [called]
  omega

/-- A call whose hint is not an error passes no misread position. -/
theorem Core.clean_called (hcore : Core source self g) (htodo : g.todo = f :: rest)
    (hroom : 0 < room) (hidle : g.idle ≤ 1)
    (hok : isError (jint (nextReply D self room).ret) = false)
    (before : List (Option (List Byte))) (hbefore : before <+: source.upstream.script)
    (hmisread : MisreadAt source.frames (supplied before).length) :
    g.pos + (nextReply D self room).consumed < (supplied before).length := by
  have hpos := hcore.clean before hbefore hmisread
  have hborder := hcore.border before hbefore hpos
  have hle := (hcore.answers htodo hroom hidle).consumed_le
  have hsupplied := hcore.length_supplied
  by_contra hnot
  have heq : (supplied before).length = g.pos + (nextReply D self room).consumed := by omega
  rw [heq] at hmisread
  rw [hcore.isError_of_misread htodo hroom hidle hmisread] at hok
  exact Bool.noConfusion hok

/-- The position inside the current frame after a call. -/
def Ghost.stay (g : Ghost) (D : Decoder σ Byte Byte) (self : State σ) (room : ℕ) : Ghost :=
  { g with
    taken := takenNext D self g room
    given := g.given ++ (nextReply D self room).emitted
    idle := Decoder.stalled g.idle (nextReply D self room) }

/-- The position at the border behind the current frame. -/
def Ghost.finish (g : Ghost) (f : Frame Byte Byte) (rest : List (Frame Byte Byte)) : Ghost :=
  ⟨g.past ++ [f], rest, [], [], 0, g.answered⟩

/-- Between two positions at most one frame was completed, and then the second position is the
border behind it. -/
def Ghost.Moves (g after : Ghost) : Prop :=
  after.past = g.past ∨ ∃ f, after.past = g.past ++ [f] ∧ after.taken = [] ∧ after.given = []

/-- A call that had input, or a frame to go on with, ends inside the frame if it does
not end the frame. -/
theorem Core.inside_stay (hcore : Core source self g) (htodo : g.todo = f :: rest)
    (hroom : 0 < room) (hidle : g.idle ≤ 1) (hstart : self.pending = [] → g.Inside)
    (hret : (nextReply D self room).ret ≠ 0) : (g.stay D self room).Inside := by
  by_contra hnot
  simp only [Ghost.Inside, Ghost.stay, takenNext, not_or, not_not, List.append_eq_nil_iff] at hnot
  obtain ⟨⟨htaken, htake⟩, hgiven, hemitted⟩ := hnot
  have hall := ((hcore.answers htodo hroom hidle).greedy hret (by rw [hemitted]; exact hroom)).1
  rw [hall, List.take_length] at htake
  rcases hstart htake with h | h
  · exact h htaken
  · exact h hgiven

/-- A call takes the bytes at hand and is shown no others. -/
theorem Core.short_stay (hcore : Core source self g) (htodo : g.todo = f :: rest)
    (hroom : 0 < room) (hidle : g.idle ≤ 1)
    (hlength : ((g.stay D self room).taken ++ (called D self room).pending).length <
      f.encoded.length) :
    C.conforms.Short f (called D self room).stream (g.stay D self room).taken
      (g.stay D self room).given := by
  have hsame : (g.stay D self room).taken ++ (called D self room).pending =
      g.taken ++ self.pending := by
    rw [pending_called, Ghost.stay, takenNext, List.append_assoc, List.take_append_drop]
  rw [hsame] at hlength
  have hinput : g.taken ++ self.pending <+: f.encoded :=
    List.prefix_of_prefix_length_le (hcore.input_front htodo) (List.prefix_append _ _)
      (Nat.le_of_lt hlength)
  exact .call (hcore.short f (by simp [htodo]) hlength) hcore.place hinput hlength
    (hcore.fits_cons htodo).2 hroom (by simp only [patience]; omega)

/-- The frame goes on: the invariant moves on inside it. -/
theorem Core.stay (hcore : Core source self g) (htodo : g.todo = f :: rest) (hroom : 0 < room)
    (hidle : g.idle ≤ 1) (hstart : self.pending = [] → g.Inside)
    (hok : isError (jint (nextReply D self room).ret) = false)
    (hret : (nextReply D self room).ret ≠ 0) :
    Core source (called D self room) (g.stay D self room) := by
  have hanswers := hcore.answers htodo hroom hidle
  have hlength := hcore.length_takenNext (D := D) htodo hroom hidle
  have hle := hanswers.consumed_le
  have hdrop := length_pending_called D self room
  have hpos : (g.stay D self room).pos = g.pos + (nextReply D self room).consumed := by
    simp only [Ghost.pos, Ghost.stay, hlength]
    omega
  exact
    { frames_eq := hcore.frames_eq
      script_eq := hcore.script_eq
      place := hanswers.inside hret
      fits := by
        simp only [Ghost.Fits, Ghost.stay, htodo]
        exact ⟨hanswers.encoded_front, hanswers.content_front⟩
      short := by
        intro f' hf' hshort
        simp only [Ghost.stay, htodo, List.head?_cons, Option.mem_def, Option.some.injEq] at hf'
        subst hf'
        exact hcore.short_stay htodo hroom hidle hshort
      position := by
        rw [pending_called]
        simpa [Ghost.stay, takenNext] using hcore.position
      src_length := hcore.src_length
      srcPos_le := hcore.srcPos_le_called htodo hroom hidle
      srcSize_le := hcore.srcSize_le
      border := by
        intro before hbefore hless
        exact hcore.border before hbefore (by omega)
      clean := by
        intro before hbefore hmisread
        rw [hpos]
        exact hcore.clean_called htodo hroom hidle hok before hbefore hmisread
      is_open := hcore.is_open
      pending_le := by
        have hle := hcore.pending_le
        simp only [hdrop, Ghost.stay]
        omega
      behind := by
        intro f' hf' htaken
        simp only [Ghost.stay, htodo, List.head?_cons, Option.mem_def, Option.some.injEq] at hf'
        subst hf'
        by_cases hzero : (nextReply D self room).consumed = 0
        · have hsame : g.taken = f.encoded := by
            simpa [Ghost.stay, takenNext, hzero] using htaken
          have hbehind := hcore.behind f (by simp [htodo]) hsame
          simp only [hdrop, Ghost.stay]
          omega
        · have hbound := hcore.pending_le
          simp only [hdrop, Ghost.stay]
          omega
      held := fun hsome => hcore.held (pending_ne_nil_of_called hsome)
      finished_iff := by
        have hinside := hcore.inside_stay htodo hroom hidle hstart hret
        have hold : ¬ (self.pending = [] ∧ ¬ g.Inside) := fun h => h.2 (hstart h.1)
        have hsum : (g.stay D self room).taken.length + (called D self room).pending.length =
            g.taken.length + self.pending.length := by
          simp only [Ghost.stay, hlength, hdrop]
          omega
        rw [hsum]
        have hfinished := hcore.finished_iff
        simp only [hold, or_false] at hfinished
        simp only [hinside, not_true_eq_false, and_false, or_false]
        exact hfinished }

/-- The frame is complete: the invariant moves on to the border behind it. -/
theorem Core.finish (hcore : Core source self g) (htodo : g.todo = f :: rest) (hroom : 0 < room)
    (hidle : g.idle ≤ 1) (hok : isError (jint (nextReply D self room).ret) = false)
    (hret : (nextReply D self room).ret = 0) :
    Core source { called D self room with frameFinished := true } (g.finish f rest) := by
  have hanswers := hcore.answers htodo hroom hidle
  have hlength := hcore.length_takenNext (D := D) htodo hroom hidle
  have hdrop := length_pending_called D self room
  obtain ⟨htaken, hgiven⟩ := hanswers.ret_eq_zero_iff.mp hret
  have hencoded : f.encoded.length = g.taken.length + (nextReply D self room).consumed := by
    rw [← hlength, takenNext, htaken]
  have hpos : (g.finish f rest).pos = g.pos + (nextReply D self room).consumed := by
    simp only [Ghost.pos, Ghost.finish, encodings_append, encodings_cons, encodings_nil,
      List.length_append, List.length_nil]
    omega
  have hbehind : (called D self room).pending.length < lastChunkLength g.answered := by
    by_cases hzero : (nextReply D self room).consumed = 0
    · have hsame : g.taken = f.encoded := by simpa [hzero] using htaken
      have hbehind := hcore.behind f (by simp [htodo]) hsame
      omega
    · have hle := hanswers.consumed_le
      have hbound := hcore.pending_le
      omega
  exact
    { frames_eq := by rw [hcore.frames_eq, htodo]; simp [Ghost.finish]
      script_eq := hcore.script_eq
      place := hanswers.boundary hret
      fits := by
        unfold Ghost.Fits Ghost.finish
        split <;> simp
      short := fun _ _ _ => .start (hanswers.boundary hret)
      position := by
        have hposition := hcore.position
        rw [← List.take_append_drop (nextReply D self room).consumed self.pending] at hposition
        change _ = _ ++ (called D self room).pending
        rw [pending_called]
        simpa [Ghost.finish, ← htaken] using hposition
      src_length := hcore.src_length
      srcPos_le := hcore.srcPos_le_called htodo hroom hidle
      srcSize_le := hcore.srcSize_le
      border := by
        intro before hbefore hless
        exact hcore.border before hbefore (by omega)
      clean := by
        intro before hbefore hmisread
        rw [hpos]
        exact hcore.clean_called htodo hroom hidle hok before hbefore hmisread
      is_open := hcore.is_open
      pending_le := Nat.le_of_lt hbehind
      behind := fun _ _ _ => hbehind
      held := fun hsome => hcore.held (pending_ne_nil_of_called hsome)
      finished_iff := by
        refine iff_of_true rfl (.inl ?_)
        rw [Ghost.finish, List.length_nil, Nat.zero_add]
        exact hbehind }

end Decode

section Hint

variable {f : Frame Byte Byte} {rest : List (Frame Byte Byte)} {room : ℕ}
variable {dst : List Byte} {offset dstSize : ℕ}

/-- What bounds the calls that produce nothing: each either gets an answer from the
wrapped stream, ends a frame, or turns to the wrapped stream. -/
def budget (self : State σ) (g : Ghost) : ℕ :=
  2 * self.upstream.script.length + g.todo.length + (!self.needRead).toNat

/-- Everything that holds when the decompressor is called. -/
structure Ready (source : Source C) (st : State σ) (g : Ghost) (dstSize : ℕ) : Prop where
  core : Core source st g
  room : st.dstPos < dstSize
  todo_ne : g.todo ≠ []
  idle_le : g.idle ≤ 1
  inside : st.pending = [] → g.Inside
  idle : st.pending = [] → g.idle = 0

/-- A call of the decompressor that was taken well: it emitted the next content. -/
structure Advance (source : Source C) (st : State σ) (g : Ghost) (dstSize : ℕ)
    (emitted : List Byte) (next : State σ) (after : Ghost) : Prop where
  inv : Inv source next after
  upstream_eq : next.upstream = st.upstream
  continuous_eq : next.isContinuous = st.isContinuous
  dstPos_eq : next.dstPos = st.dstPos + emitted.length
  dstPos_le : next.dstPos ≤ dstSize
  left_eq : g.left = emitted ++ after.left
  budget_le : emitted = [] →
    budget next after ≤ 2 * st.upstream.script.length + g.todo.length

/-- The three ends of the part of a turn that calls the decompressor. -/
inductive Decoded (source : Source C) (offset dstSize : ℕ) (self : State σ) (g : Ghost)
    (dst : List Byte) : Turn (ReadState σ) (Ended σ) → Prop
  | misread (code : ℤ) (dst' : List Byte) (next : State σ) (hmisread : source.Misread) :
      Decoded source offset dstSize self g dst (.leave ⟨.threw (.ofIOResult code), dst', next⟩)
  | completed (emitted : List Byte) (next : State σ) (after : Ghost)
      (hadvance : Advance source self g dstSize emitted next after) (hmoves : g.Moves after) :
      Decoded source offset dstSize self g dst
        (.leave ⟨.returned (next.dstPos - offset), overwrite dst self.dstPos emitted, next⟩)
  | continued (emitted : List Byte) (next : State σ) (after : Ghost)
      (hadvance : Advance source self g dstSize emitted next after)
      (hpast : after.past = g.past)
      (hgiven : emitted ≠ [] ∨ g.given ≠ [] → after.given ≠ [])
      (hidle : emitted ≠ [] → after.idle = 0) :
      Decoded source offset dstSize self g dst
        (.again ⟨next, overwrite dst self.dstPos emitted, self.dstPos⟩)

/-- Emitting the next content takes it off the content that is left. -/
theorem Core.left_stay (hcore : Core source self g) (htodo : g.todo = f :: rest)
    (hroom : 0 < room) (hidle : g.idle ≤ 1) :
    g.left = (nextReply D self room).emitted ++ (g.stay D self room).left := by
  have hfront := (hcore.answers htodo hroom hidle).content_front
  have hwhole : g.given ++ (nextReply D self room).emitted <+: contents g.todo := by
    rw [htodo, contents_cons]
    exact hfront.trans (List.prefix_append _ _)
  exact drop_of_append_front hwhole

theorem Core.left_finish (hcore : Core source self g) (htodo : g.todo = f :: rest)
    (hroom : 0 < room) (hidle : g.idle ≤ 1) (hret : (nextReply D self room).ret = 0) :
    g.left = (nextReply D self room).emitted ++ (g.finish f rest).left := by
  obtain ⟨-, hgiven⟩ := (hcore.answers htodo hroom hidle).ret_eq_zero_iff.mp hret
  rw [Ghost.left, htodo, contents_cons, ← hgiven, List.append_assoc, List.drop_left]
  rfl

/-- The object after a hint of zero. -/
def State.atBorder (self : State σ) : State σ :=
  { self with frameFinished := true, needRead := self.srcPos == self.srcSize }

/-- The object after any other hint. -/
def State.inFrame (self : State σ) (dstSize : ℕ) : State σ :=
  { self with needRead := decide (self.dstPos < dstSize) }

/-- A frame that goes on: more input is requested exactly if room is left. -/
theorem Ready.inv_stay (hready : Ready source self g dstSize) (htodo : g.todo = f :: rest)
    (hroom : room = dstSize - self.dstPos)
    (hok : isError (jint (nextReply D self room).ret) = false)
    (hret : (nextReply D self room).ret ≠ 0) :
    Inv source ((called D self room).inFrame dstSize) (g.stay D self room) := by
  have hcore := hready.core
  have hpositive : 0 < room := by have := hready.room; omega
  have hanswers := hcore.answers htodo hpositive hready.idle_le
  have hemitted := hanswers.emitted_le
  have hgreedy (hless : (called D self room).dstPos < dstSize) :=
    hanswers.greedy hret (by simp only [called] at hless; omega)
  have hinside := hcore.inside_stay htodo hpositive hready.idle_le hready.inside hret
  have hstalled : (nextReply D self room).emitted = [] →
      Decoder.stalled g.idle (nextReply D self room) ≤ 1 := by
    intro hnone
    unfold Decoder.stalled
    split
    · rename_i hidle
      have hall := (hanswers.greedy hret (by rw [hnone]; exact hpositive)).1
      have hempty : self.pending = [] := List.length_eq_zero_iff.mp (by omega)
      rw [hready.idle hempty]
    · exact Nat.zero_le _
  refine { (hcore.stay htodo hpositive hready.idle_le hready.inside hok hret).of_agree rfl rfl rfl
    rfl rfl rfl rfl with idle_le := ?_, read_empty := ?_, read_incomplete := ?_, decode_todo := ?_
                         decode_idle := ?_, decode_inside := ?_ }
  · by_cases hnone : (nextReply D self room).emitted = []
    · exact hstalled hnone
    · simp [Ghost.stay, Decoder.stalled, hnone]
  · intro hneed
    change (called D self room).pending = []
    rw [pending_called, (hgreedy (of_decide_eq_true hneed)).1, List.drop_length]
  · intro hneed f' hf'
    simp only [Ghost.stay, htodo, List.head?_cons, Option.mem_def, Option.some.injEq] at hf'
    exact hf' ▸ (hgreedy (of_decide_eq_true hneed)).2
  · intro _
    exact hready.todo_ne
  · intro hneed
    have hfull := of_decide_eq_false hneed
    have hsome : (nextReply D self room).emitted ≠ [] := by
      intro hnone
      have hdst := hready.room
      simp only [called, hnone, List.length_nil] at hfull
      omega
    simp [Ghost.stay, Decoder.stalled, hsome]
  · intro _ _
    exact hinside

/-- A frame that is complete: more input is requested exactly if none is at hand. -/
theorem Ready.inv_finish (hready : Ready source self g dstSize) (htodo : g.todo = f :: rest)
    (hroom : 0 < room) (hok : isError (jint (nextReply D self room).ret) = false)
    (hret : (nextReply D self room).ret = 0) :
    Inv source (called D self room).atBorder (g.finish f rest) := by
  have hcore := hready.core.finish htodo hroom hready.idle_le hok hret
  have hlength := hcore.length_pending
  have hpending : (called D self room).pending ≠ [] → rest ≠ [] :=
    fun h => hcore.todo_ne_nil (.inl h)
  have hle := hcore.srcPos_le
  have hempty : (called D self room).srcPos = (called D self room).srcSize ↔
      (called D self room).pending = [] := by
    rw [← List.length_eq_zero_iff]
    change _ ↔ ({ called D self room with frameFinished := true } : State σ).pending.length = 0
    rw [hlength]
    simp only at hle ⊢
    omega
  refine { hcore.of_agree rfl rfl rfl rfl rfl rfl rfl with
    idle_le := Nat.zero_le _, read_empty := ?_, read_incomplete := ?_, decode_todo := ?_
    decode_idle := fun _ => rfl, decode_inside := ?_ }
  · intro hneed
    exact hempty.mp (beq_iff_eq.mp hneed)
  · intro _ f' hf' hnil
    have hmem : f' ∈ source.frames := by
      rw [hcore.frames_eq]
      exact List.mem_append_right _ (List.mem_of_mem_head? hf')
    exact C.encoded_ne_nil (source.frames_valid f' hmem) hnil.symm
  · intro hneed
    exact hpending (fun h => (beq_eq_false_iff_ne.mp hneed) (hempty.mpr h))
  · intro hneed h
    exact absurd (hempty.mpr h) (beq_eq_false_iff_ne.mp hneed)

/-- The part of a turn from the native call on, by what the hint says. -/
theorem decodeTurn_eq (hroom : room = dstSize - self.dstPos) :
    decodeTurn D offset dstSize self dst =
      if isError (jint (nextReply D self room).ret) then
        .leave ⟨.threw (.ofIOResult (jint (nextReply D self room).ret)),
          overwrite dst self.dstPos (nextReply D self room).emitted, called D self room⟩
      else if jint (nextReply D self room).ret = 0 then
        .leave ⟨.returned ((called D self room).dstPos - offset),
          overwrite dst self.dstPos (nextReply D self room).emitted, (called D self room).atBorder⟩
      else
        .again ⟨(called D self room).inFrame dstSize,
          overwrite dst self.dstPos (nextReply D self room).emitted, self.dstPos⟩ := by
  subst hroom
  rfl

/-- The native call and what the loop makes of its hint, from the invariant. -/
theorem Ready.decoded (hready : Ready source self g dstSize) (offset : ℕ) (dst : List Byte) :
    Decoded source offset dstSize self g dst (decodeTurn D offset dstSize self dst) := by
  obtain ⟨f, rest, htodo⟩ := List.exists_cons_of_ne_nil hready.todo_ne
  generalize hroom : dstSize - self.dstPos = room
  have hdst := hready.room
  have hpositive : 0 < room := by omega
  have hidle := hready.idle_le
  have hanswers := hready.core.answers htodo hpositive hidle
  have hemitted := hanswers.emitted_le
  rw [decodeTurn_eq hroom.symm]
  cases hok : isError (jint (nextReply D self room).ret) with
  | true =>
      rw [if_pos rfl]
      exact .misread _ _ _ (hready.core.misread_of_isError htodo hpositive hidle hok)
  | false =>
      have hzero := jint_eq_zero_iff (hready.core.ret_lt (D := D) htodo hpositive hidle)
      rw [if_neg (by simp)]
      by_cases hret : (nextReply D self room).ret = 0
      · rw [if_pos (hzero.mpr hret)]
        refine .completed _ (called D self room).atBorder (g.finish f rest) ?_
          (.inr ⟨f, rfl, rfl, rfl⟩)
        refine ⟨hready.inv_finish htodo hpositive hok hret, rfl, rfl, rfl, ?_,
          hready.core.left_finish htodo hpositive hidle hret, ?_⟩
        · simp only [called, State.atBorder]
          omega
        · intro _
          have hone :=
            Bool.toNat_le (!((called D self room).srcPos == (called D self room).srcSize))
          simp only [budget, called, State.atBorder, Ghost.finish, htodo,
            List.length_cons] at hone ⊢
          omega
      · rw [if_neg (mt hzero.mp hret)]
        refine .continued _ _ (g.stay D self room) ?_ rfl ?_ ?_
        · refine ⟨hready.inv_stay htodo hroom.symm hok hret, rfl, rfl, rfl, ?_,
            hready.core.left_stay htodo hpositive hidle, ?_⟩
          · simp only [called, State.inFrame]
            omega
          · intro hnone
            simp [budget, called, State.inFrame, Ghost.stay, hnone, hdst]
        · intro hsome
          simp only [Ghost.stay, ne_eq, List.append_eq_nil_iff, not_and_or]
          exact hsome.symm
        · intro hsome
          simp [Ghost.stay, Decoder.stalled, hsome]

end Hint

end ZstdJni.InputStream
