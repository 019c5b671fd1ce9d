/-
# What reading a stream of frames should do

The purpose of the input stream, without its buffers and flags: a reader owns the
content that is still to be delivered, and every call takes a non-empty piece off
its front, or reports that nothing is left.

The input side is described here too: which bytes the wrapped stream supplies, and
which places of the input make the narrowed hint of the decompressor look like an
error.
-/

import ZstdJni.InputStream.Model

namespace ZstdJni.InputStream

open ZstdJni.Foundation ZstdJni.Native

variable {σ : Type}

/-- Calls with a positive length inside their array, and skips of a positive number
of bytes with a buffer as long as requested. -/
def Call.Valid : Call → Prop
  | .readByte => True
  | .read dst offset len => 0 ≤ offset ∧ 0 < len ∧ offset + len ≤ dst.length
  | .skip numBytes data => 0 < numBytes ∧ skipBufferLen numBytes ≤ data.length

/-- One call delivers content: with `left` still to come, the call ends with this
outcome and this array, and `rest` is still to come afterwards. -/
inductive Delivers : List Byte → Call → Outcome ℤ × List Byte → List Byte → Prop
  | byte (b : Byte) (rest : List Byte) (dst : List Byte) :
      Delivers (b :: rest) .readByte (.returned b.toNat, dst) rest
  | byteEnd (dst : List Byte) : Delivers [] .readByte (.returned (-1), dst) []
  | bytes {left : List Byte} (piece rest dst : List Byte) (offset len : ℤ)
      (hleft : left = piece ++ rest) (hne : piece ≠ []) (hlen : (piece.length : ℤ) ≤ len) :
      Delivers left (.read dst offset len)
        (.returned piece.length, overwrite dst offset.toNat piece) rest
  | bytesEnd (dst : List Byte) (offset len : ℤ) :
      Delivers [] (.read dst offset len) (.returned (-1), dst) []
  | skipped (left : List Byte) (numBytes : ℤ) (data dst : List Byte) :
      Delivers left (.skip numBytes data) (.returned (min numBytes left.length), dst)
        (left.drop numBytes.toNat)

/-- A sequence of calls delivers content, one call after the other. -/
inductive DeliversAll : List Byte → List Call → List (Outcome ℤ × List Byte) → Prop
  | nil (left : List Byte) : DeliversAll left [] []
  | cons {left rest : List Byte} {call : Call} {calls : List Call}
      {result : Outcome ℤ × List Byte} {results : List (Outcome ℤ × List Byte)}
      (hcall : Delivers left call result rest) (hcalls : DeliversAll rest calls results) :
      DeliversAll left (call :: calls) (result :: results)

/-- A call that delivers does not throw. -/
theorem Delivers.outcome_ne_threw {left rest : List Byte} {call : Call}
    {result : Outcome ℤ × List Byte} (h : Delivers left call result rest)
    {exception : JavaException} : result.1 ≠ .threw exception := by
  cases h <;> simp

/-- What is left after a call is determined by what was left before it and by what it
returned. -/
theorem Delivers.rest_unique {left rest rest' : List Byte} {call : Call}
    {result : Outcome ℤ × List Byte} (h : Delivers left call result rest)
    (h' : Delivers left call result rest') : rest = rest' := by
  cases h with
  | byte b rest dst => cases h'; rfl
  | byteEnd dst => cases h'; rfl
  | bytes piece rest dst offset len hleft hne hlen =>
      generalize hreturned : (Outcome.returned (piece.length : ℤ),
        overwrite dst offset.toNat piece) =
        result at h'
      cases h' with
      | bytes piece' rest' _ _ _ hleft' hne' hlen' =>
          simp only [Prod.mk.injEq, Outcome.returned.injEq, Int.natCast_inj] at hreturned
          exact (List.append_inj (hleft.symm.trans hleft') hreturned.1).2
      | bytesEnd =>
          simp only [Prod.mk.injEq, Outcome.returned.injEq] at hreturned
          omega
  | bytesEnd dst offset len => cases h'; rfl
  | skipped left numBytes data dst => cases h'; rfl

/-- Reading single bytes comes to the end of the content. -/
theorem DeliversAll.exists_end {left : List Byte} (count : ℕ)
    {results : List (Outcome ℤ × List Byte)}
    (h : DeliversAll left (List.replicate (count + 1) .readByte) results)
    (hcount : left.length ≤ count) : ∃ r ∈ results, r.1 = .returned (-1) := by
  induction count generalizing left results with
  | zero =>
      obtain rfl : left = [] := List.length_eq_zero_iff.mp (by omega)
      obtain _ | ⟨hcall, -⟩ := h
      cases hcall
      exact ⟨_, List.mem_cons_self, rfl⟩
  | succ count ih =>
      rw [List.replicate_succ] at h
      obtain _ | ⟨hcall, hcalls⟩ := h
      cases hcall with
      | byte b rest dst =>
          obtain ⟨r, hr, hminus⟩ := ih hcalls (by simpa using hcount)
          exact ⟨r, List.mem_cons_of_mem _ hr, hminus⟩
      | byteEnd dst => exact ⟨_, List.mem_cons_self, rfl⟩

/-- An input of the stream: the frames it is about and the answers of the wrapped
stream.  The supplied bytes are the encoded frames, possibly cut short, and no chunk
is longer than the buffer it is read into. -/
structure Source {D : Decoder σ Byte Byte} (C : DStreamContract D) where
  frames : List (Frame Byte Byte)
  upstream : Upstream
  frames_valid : ∀ f ∈ frames, C.IsFrame f
  supplied_front : supplied upstream.script <+: encodings frames
  chunk_le : ∀ chunk, some chunk ∈ upstream.script → chunk.length ≤ srcBuffSize

/-- The end of input is only reported once nothing more is coming. -/
def Source.EndsLast {D : Decoder σ Byte Byte} {C : DStreamContract D} (source : Source C) : Prop :=
  ∀ before after, source.upstream.script = before ++ none :: after → supplied after = []

/-- A source that supplies all of its frames before it reports the end. -/
structure CompleteSource {D : Decoder σ Byte Byte} (C : DStreamContract D)
    extends Source C where
  complete : supplied upstream.script = encodings frames
  ends_last : toSource.EndsLast

/-- A source that supplies some frames and a part of one more before it reports the
end. -/
structure CutSource {D : Decoder σ Byte Byte} (C : DStreamContract D) extends Source C where
  whole : List (Frame Byte Byte)
  last : Frame Byte Byte
  cut : List Byte
  frames_eq : frames = whole ++ [last]
  supplied_eq : supplied upstream.script = encodings whole ++ cut
  cut_front : cut <+: last.encoded
  cut_ne_nil : cut ≠ []
  cut_ne_last : cut ≠ last.encoded
  ends_last : toSource.EndsLast

/-- The freshly opened stream on a source. -/
def Source.opened {D : Decoder σ Byte Byte} {C : DStreamContract D} (source : Source C) :
    State σ :=
  State.create C.fresh source.upstream

/-- Position `pos` of the encoded frames lies inside a skippable frame, behind its
header, and so much of that frame is missing that the hint, cut to a `jint`, falls
into the error range. -/
def MisreadAt (frames : List (Frame Byte Byte)) (pos : ℕ) : Prop :=
  ∃ before f after inside, frames = before ++ f :: after ∧
    pos = (encodings before).length + inside ∧ isSkippable f.encoded = true ∧
    skippableHeaderSize ≤ inside ∧ inside + errorRange ≤ f.encoded.length

/-- Some answer of the wrapped stream ends at such a position. -/
def Source.Misread {D : Decoder σ Byte Byte} {C : DStreamContract D}
    (source : Source C) : Prop :=
  ∃ before, before <+: source.upstream.script ∧
    MisreadAt source.frames (supplied before).length

/-- The length of the last non-empty chunk among the answers, zero if there is none. -/
def lastChunkLength (script : List (Option (List Byte))) : ℕ :=
  script.foldl
    (fun last answer => if answer.getD [] = [] then last else (answer.getD []).length) 0

@[simp]
theorem supplied_nil : supplied [] = [] := rfl

@[simp]
theorem supplied_append (first second : List (Option (List Byte))) :
    supplied (first ++ second) = supplied first ++ supplied second := by
  simp [supplied]

@[simp]
theorem supplied_cons (answer : Option (List Byte)) (rest : List (Option (List Byte))) :
    supplied (answer :: rest) = answer.getD [] ++ supplied rest := rfl

theorem lastChunkLength_append_empty {script : List (Option (List Byte))}
    {answer : Option (List Byte)} (hempty : answer.getD [] = []) :
    lastChunkLength (script ++ [answer]) = lastChunkLength script := by
  simp [lastChunkLength, List.foldl_append, hempty]

theorem lastChunkLength_append_chunk {script : List (Option (List Byte))}
    {chunk : List Byte} (hchunk : chunk ≠ []) :
    lastChunkLength (script ++ [some chunk]) = chunk.length := by
  simp [lastChunkLength, List.foldl_append, hchunk]

/-- A position inside a frame determines the frame, so a misread position that lies
in `f`, or at its end, lies behind the header of `f` with too much of it missing. -/
theorem MisreadAt.inside {before after : List (Frame Byte Byte)} {f : Frame Byte Byte}
    {taken : ℕ} (hmisread : MisreadAt (before ++ f :: after) ((encodings before).length + taken))
    (htaken : taken ≤ f.encoded.length) :
    isSkippable f.encoded = true ∧ skippableHeaderSize ≤ taken ∧
      taken + errorRange ≤ f.encoded.length := by
  obtain ⟨before', f', after', inside, hframes, hpos, hskip, hheader, hrange⟩ := hmisread
  have hlength (first second : List (Frame Byte Byte)) :
      (encodings (first ++ second)).length =
        (encodings first).length + (encodings second).length := by
    simp
  simp only [skippableHeaderSize, errorRange] at *
  rcases List.append_eq_append_iff.mp hframes with ⟨gap, hbefore, hrest⟩ | ⟨gap, hbefore, hrest⟩
  · cases gap with
    | nil =>
        simp only [List.append_nil, List.nil_append, List.cons.injEq] at hbefore hrest
        obtain ⟨rfl, -⟩ := hrest
        subst hbefore
        obtain rfl : taken = inside := by omega
        exact ⟨hskip, hheader, hrange⟩
    | cons g gap =>
        -- The misread frame starts behind `f`, so it cannot hold a position in `f`.
        simp only [List.cons_append, List.cons.injEq] at hrest
        obtain ⟨rfl, -⟩ := hrest
        rw [hbefore, hlength, encodings_cons, List.length_append] at hpos
        omega
  · cases gap with
    | nil =>
        simp only [List.append_nil, List.nil_append, List.cons.injEq] at hbefore hrest
        obtain ⟨rfl, -⟩ := hrest
        subst hbefore
        obtain rfl : taken = inside := by omega
        exact ⟨hskip, hheader, hrange⟩
    | cons g gap =>
        -- The misread frame ends in front of `f`.
        simp only [List.cons_append, List.cons.injEq] at hrest
        obtain ⟨rfl, -⟩ := hrest
        rw [hbefore, hlength, encodings_cons, List.length_append] at hpos
        omega

end ZstdJni.InputStream
