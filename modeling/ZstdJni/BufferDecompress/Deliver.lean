/-
# Reading into buffers delivers the content

The documented loop, on a source that holds complete frames together with what the
refills supply.  The invariant ties the object to a ghost position: the frame the
decompressor stands in, what it has taken of it and given, and that everything behind
that is in the source at hand or still to be supplied.

A read moves unless the source is empty and the frame incomplete, and then it is refilled;
so the decompressor is never called twice in a row without moving.  A frame border that
coincides with the end of the source is met with the source already refilled, so the
stream ends at the last frame and not before.
-/

import Mathlib.Data.List.GetD
import ZstdJni.BufferDecompress.Spec

namespace ZstdJni.BufferDecompress

open ZstdJni.Foundation ZstdJni.Native

variable {σ : Type} {D : Decoder σ Byte Byte} {C : DStreamContract D} {direct : Bool}

/-- Complete frames, supplied by an initial source and by refills, with targets to read
them into. -/
structure Scenario (C : DStreamContract D) (direct : Bool) where
  frames : List (Frame Byte Byte)
  frames_ne_nil : frames ≠ []
  valid : ∀ f ∈ frames, C.IsFrame f
  source : Buffer
  source_serves : source.Serves direct
  /-- What the refills supply. -/
  pieces : List (List Byte)
  piece_ne_nil : ∀ piece ∈ pieces, piece ≠ []
  supplied : source.remaining ++ pieces.flatten = encodings frames
  refill : Refill
  /-- Each refill hands out the next piece, and an empty buffer behind the last one. -/
  refill_eq : ∀ n current, current.Serves direct → current.remaining = [] →
    ∃ refilled, refill n current = .returned refilled ∧ refilled.Serves direct ∧
      refilled.remaining = pieces.getD n []
  targets : ℕ → Buffer
  target_serves : ∀ n, (targets n).Serves direct
  target_room : ∀ n, 0 < (targets n).room

/-- The ghost position of a stream in its frames. -/
structure Ghost where
  /-- The current frame. -/
  frame : Frame Byte Byte
  /-- The frames behind it. -/
  rest : List (Frame Byte Byte)
  /-- What the decompressor took of the current frame. -/
  taken : List Byte
  /-- What it emitted of its content. -/
  given : List Byte
  /-- How often in a row it was called without moving. -/
  idle : ℕ

namespace Ghost

/-- The encoded bytes that are not taken yet. -/
def encodedLeft (g : Ghost) : List Byte :=
  (g.frame.encoded ++ encodings g.rest).drop g.taken.length

/-- The content that is not given yet. -/
def contentLeft (g : Ghost) : List Byte :=
  (g.frame.content ++ contents g.rest).drop g.given.length

/-- A bound for the number of reads to come. -/
def bound (g : Ghost) : ℕ := 2 * (g.encodedLeft.length + g.contentLeft.length) + (1 - g.idle)

end Ghost

/-- The invariant between two reads, while the stream has not ended. -/
structure Inv (S : Scenario C direct) (st : State σ) (source : Buffer) (g : Ghost) : Prop where
  source_eq : st.source = some source
  serves : source.Serves direct
  is_open : st.closed = false
  not_end : st.streamEnd = false
  valid : ∀ f ∈ g.frame :: g.rest, C.IsFrame f
  place : C.conforms.place st.stream g.taken g.given g.idle
  taken_front : g.taken <+: g.frame.encoded
  given_front : g.given <+: g.frame.content
  /-- What is not taken yet is at hand or still to be supplied. -/
  pending : g.taken ++ (source.remaining ++ (S.pieces.drop st.refills).flatten) =
    g.frame.encoded ++ encodings g.rest
  unfinished : ¬ (g.taken = g.frame.encoded ∧ g.given = g.frame.content)
  idle_cases : g.idle = 0 ∨ g.idle = 1 ∧ source.remaining ≠ []
  /-- Behind a complete frame there is something at hand. -/
  finished : st.finishedFrame = true → source.remaining ≠ []

namespace Inv

variable {S : Scenario C direct} {st : State σ} {source : Buffer} {g : Ghost}

theorem hasRemaining (hinv : Inv S st source g) : st.hasRemaining = true := by
  simp only [State.hasRemaining, hinv.source_eq, hinv.is_open, hinv.not_end, Bool.not_false,
    Bool.true_and, Bool.or_eq_true, Bool.not_eq_true', Buffer.hasRemaining_iff]
  cases hfinished : st.finishedFrame with
  | false => exact .inr rfl
  | true => exact .inl (hinv.finished hfinished)

theorem idle_lt (hinv : Inv S st source g) : g.idle < patience := by
  rcases hinv.idle_cases with h | ⟨h, -⟩
  · rw [h]
    decide
  · rw [h]
    decide

theorem encodedLeft_eq (hinv : Inv S st source g) :
    g.encodedLeft = source.remaining ++ (S.pieces.drop st.refills).flatten := by
  rw [Ghost.encodedLeft, ← hinv.pending, List.drop_left]

theorem input_front (hinv : Inv S st source g) :
    g.taken ++ source.remaining <+: g.frame.encoded ++ encodings g.rest :=
  ⟨(S.pieces.drop st.refills).flatten, by rw [List.append_assoc, hinv.pending]⟩

section Step

variable {n : ℕ} {next : σ} {reply : Reply Byte}

/-- How the decompressor answers a read. -/
theorem answers (hinv : Inv S st source g)
    (hdecode : D.decode st.stream source.remaining (S.targets n).room = (next, reply)) :
    Decoder.Answers C.conforms.place g.frame g.taken g.given g.idle source.remaining
      (S.targets n).room next reply := by
  have hanswers := C.conforms.answers hinv.place (hinv.valid g.frame List.mem_cons_self)
    hinv.input_front hinv.taken_front hinv.given_front (S.target_room n) hinv.idle_lt
  rwa [hdecode] at hanswers

theorem ret_lt (hinv : Inv S st source g)
    (hdecode : D.decode st.stream source.remaining (S.targets n).room = (next, reply)) :
    reply.ret < 2 ^ 32 := by
  have hlt := C.ret_lt hinv.place (hinv.valid g.frame List.mem_cons_self)
    hinv.input_front hinv.taken_front hinv.given_front (S.target_room n) hinv.idle_lt
  rwa [hdecode] at hlt

/-- A call that does not move finds the source empty and the frame incomplete. -/
theorem empty_of_not_moved (hinv : Inv S st source g)
    (hdecode : D.decode st.stream source.remaining (S.targets n).room = (next, reply))
    (hconsumed : reply.consumed = 0) (hemitted : reply.emitted = []) :
    reply.ret ≠ 0 ∧ source.remaining = [] ∧ g.taken ≠ g.frame.encoded := by
  have hanswers := hinv.answers hdecode
  have hzero := hanswers.ret_eq_zero_iff
  rw [hconsumed, hemitted, List.take_zero, List.append_nil, List.append_nil] at hzero
  have hret : reply.ret ≠ 0 := fun h => hinv.unfinished (hzero.mp h)
  have hgreedy := hanswers.greedy hret (by rw [hemitted]; exact S.target_room n)
  rw [hconsumed, List.take_zero, List.append_nil] at hgreedy
  exact ⟨hret, List.length_eq_zero_iff.mp hgreedy.1.symm, hgreedy.2⟩

end Step

end Inv

/-- What is supplied from a refill on, and what is left behind it. -/
theorem Scenario.drop_flatten (S : Scenario C direct) (n : ℕ) :
    (S.pieces.drop n).flatten = S.pieces.getD n [] ++ (S.pieces.drop (n + 1)).flatten := by
  by_cases hn : n < S.pieces.length
  · rw [List.drop_eq_getElem_cons hn, List.flatten_cons, List.getD_eq_getElem _ _ hn]
  · rw [List.drop_eq_nil_of_le (by omega), List.drop_eq_nil_of_le (by omega),
      List.getD_eq_default _ _ (by omega)]
    rfl

/-- While something is to be supplied, a refill is not empty. -/
theorem Scenario.piece_eq_nil (S : Scenario C direct) {n : ℕ} (hpiece : S.pieces.getD n [] = []) :
    (S.pieces.drop n).flatten = [] := by
  by_cases hn : n < S.pieces.length
  · rw [List.getD_eq_getElem _ _ hn] at hpiece
    exact absurd hpiece (S.piece_ne_nil _ (List.getElem_mem hn))
  · rw [List.drop_eq_nil_of_le (by omega)]
    rfl

/-- How a read of the loop ends: what it did, and the source it leaves at hand. -/
structure Stepped (S : Scenario C direct) (st : State σ) (source : Buffer) (g : Ghost) (n : ℕ)
    (ended : Ended σ) (reply : Reply Byte) (left : Buffer) : Prop where
  step : ReadStep D S.refill st (S.targets n) ended (source.remaining.take reply.consumed)
    reply.emitted
  decode : D.decode st.stream source.remaining (S.targets n).room = (ended.object.stream, reply)
  source_eq : ended.object.source = some left
  serves : left.Serves direct
  is_open : ended.object.closed = false
  finishedFrame : ended.object.finishedFrame = decide (reply.ret = 0)
  streamEnd : ended.object.streamEnd = (decide (reply.ret = 0) && !left.hasRemaining)
  /-- What is behind the part that was taken is at hand or still to be supplied. -/
  pending : g.encodedLeft = source.remaining.take reply.consumed ++ (left.remaining ++
    (S.pieces.drop ended.object.refills).flatten)
  /-- The source at hand is empty only if nothing is to be supplied, or if it was left
  alone. -/
  supplied : left.remaining = [] → (S.pieces.drop ended.object.refills).flatten = []

theorem Inv.stepped {S : Scenario C direct} {st : State σ} {source : Buffer} {g : Ghost}
    (hinv : Inv S st source g) (n : ℕ) :
    ∃ reply left, Stepped S st source g n (read D S.refill direct (S.targets n) st) reply left := by
  rcases hdecode : D.decode st.stream source.remaining (S.targets n).room with ⟨next, reply⟩
  have hanswers := hinv.answers hdecode
  have hret := hinv.ret_lt hdecode
  have hconsumed : reply.consumed ≤ source.room := source.length_remaining ▸ hanswers.consumed_le
  have hmoved := Buffer.remaining_advance hconsumed
  have hservesMoved : (source.advance reply.consumed).Serves direct := hinv.serves
  obtain ⟨left, refills, hread, hserves, hkept, hrefilled⟩ := read_ok S.refill
    hinv.is_open hinv.not_end hinv.source_eq (S.target_serves n) hinv.serves hdecode (by omega)
    (by rw [zstdIsError, decide_eq_false_iff_not, maxCode]; omega) hanswers.consumed_le
    hanswers.emitted_le (fun hempty => by
      obtain ⟨refilled, hreturned, hserves, -⟩ := S.refill_eq st.refills _ hservesMoved hempty
      exact ⟨refilled, hreturned, hserves⟩)
  refine ⟨reply, left, ?_⟩
  rw [hread]
  obtain ⟨hstorage, hposition⟩ := Buffer.filled_spec hanswers.emitted_le
  have hsplit : g.encodedLeft = source.remaining.take reply.consumed ++
      ((source.advance reply.consumed).remaining ++ (S.pieces.drop st.refills).flatten) := by
    rw [hinv.encodedLeft_eq, hmoved, ← List.append_assoc, List.take_append_drop]
  have hsource : (left.remaining ++ (S.pieces.drop refills).flatten =
      (source.advance reply.consumed).remaining ++ (S.pieces.drop st.refills).flatten) ∧
      (left.remaining = [] → (S.pieces.drop refills).flatten = []) := by
    cases hmore : (source.advance reply.consumed).hasRemaining with
    | true =>
        obtain ⟨rfl, rfl⟩ := hkept hmore
        exact ⟨rfl, fun h => absurd h ((Buffer.hasRemaining_iff _).mp hmore)⟩
    | false =>
        have hempty := (Buffer.hasRemaining_eq_false_iff _).mp hmore
        obtain ⟨hreturned, rfl⟩ := hrefilled hmore
        obtain ⟨refilled, hreturned', -, hpiece⟩ := S.refill_eq st.refills _ hservesMoved hempty
        rw [hreturned, Outcome.returned.injEq] at hreturned'
        subst hreturned'
        have hall := S.drop_flatten st.refills
        rw [hempty, hpiece, ← hall, List.nil_append]
        refine ⟨rfl, fun hnil => ?_⟩
        have hnone := S.piece_eq_nil hnil
        rw [hall, hnil, List.nil_append] at hnone
        exact hnone
  exact
    { step :=
        { outcome := rfl
          storage := hstorage
          position := hposition
          source :=
            ⟨source, source.advance reply.consumed, reply, hinv.source_eq, hdecode, rfl, rfl,
            Buffer.setPosition_advance hconsumed, fun h => by rw [(hkept h).1]; rfl,
            fun h => ⟨left, (hrefilled h).1, rfl⟩⟩
          finished := by
            refine ⟨fun h => ⟨source, reply, hinv.source_eq, hdecode, of_decide_eq_true h⟩, ?_⟩
            rintro ⟨source', reply', hsource', hdecode', hzero⟩
            rw [hinv.source_eq, Option.some.injEq] at hsource'
            subst hsource'
            rw [hdecode, Prod.mk.injEq] at hdecode'
            exact decide_eq_true (hdecode'.2 ▸ hzero) }
      decode := hdecode
      source_eq := rfl
      serves := hserves
      is_open := hinv.is_open
      finishedFrame := rfl
      streamEnd := by
        simp only [State.afterRead, hinv.not_end]
        cases decide (reply.ret = 0) <;> rfl
      pending := by rw [hsplit, ← hsource.1]; rfl
      supplied := hsource.2 }

section Cases

variable {S : Scenario C direct} {st : State σ} {source left : Buffer} {g : Ghost} {n : ℕ}
  {ended : Ended σ} {reply : Reply Byte}

/-- A read that stays inside the frame. -/
theorem Stepped.inside (hstepped : Stepped S st source g n ended reply left)
    (hinv : Inv S st source g) (hret : reply.ret ≠ 0) :
    ∃ next : Ghost, Inv S ended.object left next ∧ next.bound < g.bound ∧
      next.rest = g.rest ∧
      g.encodedLeft = source.remaining.take reply.consumed ++ next.encodedLeft ∧
      g.contentLeft = reply.emitted ++ next.contentLeft := by
  have hanswers := hinv.answers hstepped.decode
  have hfinished : ended.object.finishedFrame = false := by
    rw [hstepped.finishedFrame, decide_eq_false_iff_not]
    exact hret
  have hend : ended.object.streamEnd = false := by
    rw [hstepped.streamEnd, decide_eq_false hret, Bool.false_and]
  let next : Ghost :=
    { g with
      taken := g.taken ++ source.remaining.take reply.consumed
      given := g.given ++ reply.emitted
      idle := Decoder.stalled g.idle reply }
  have hencoded : g.encodedLeft = source.remaining.take reply.consumed ++ next.encodedLeft :=
    drop_of_append_front (hanswers.encoded_front.trans (List.prefix_append _ _))
  have hcontent : g.contentLeft = reply.emitted ++ next.contentLeft :=
    drop_of_append_front (hanswers.content_front.trans (List.prefix_append _ _))
  have hpending := hstepped.pending
  rw [hencoded, List.append_cancel_left_eq] at hpending
  have hidle : next.idle = 0 ∧ 0 < reply.consumed + reply.emitted.length ∨
      next.idle = 1 ∧ g.idle = 0 ∧ left.remaining ≠ [] := by
    by_cases hstill : reply.consumed = 0 ∧ reply.emitted = []
    · obtain ⟨-, hempty, hne⟩ := hinv.empty_of_not_moved hstepped.decode hstill.1 hstill.2
      have hzero : g.idle = 0 := hinv.idle_cases.resolve_right fun h => h.2 hempty
      refine .inr ⟨by simp only [next, Decoder.stalled, if_pos hstill, hzero], hzero,
        fun hnil => ?_⟩
      rw [hnil, hstepped.supplied hnil, List.append_nil] at hpending
      have hleft := congrArg List.length hencoded
      rw [hempty, List.take_nil, hpending, List.append_nil, Ghost.encodedLeft] at hleft
      simp only [List.length_drop, List.length_append, List.length_nil] at hleft
      have hle := hinv.taken_front.length_le
      exact hne (hinv.taken_front.eq_of_length (by omega))
    · refine .inl ⟨if_neg hstill, ?_⟩
      have hemitted : reply.emitted = [] ↔ reply.emitted.length = 0 :=
        List.length_eq_zero_iff.symm
      rw [hemitted] at hstill
      omega
  refine ⟨next, ?_, ?_, rfl, hencoded, hcontent⟩
  · exact
      { source_eq := hstepped.source_eq
        serves := hstepped.serves
        is_open := hstepped.is_open
        not_end := hend
        valid := hinv.valid
        place := hanswers.inside hret
        taken_front := hanswers.encoded_front
        given_front := hanswers.content_front
        pending := by
          have hfront : next.taken <+: g.frame.encoded ++ encodings g.rest :=
            hanswers.encoded_front.trans (List.prefix_append _ _)
          rw [← hpending]
          exact List.prefix_iff_eq_append.mp hfront
        unfinished := fun h => hret (hanswers.ret_eq_zero_iff.mpr h)
        idle_cases := hidle.imp And.left fun h => ⟨h.1, h.2.2⟩
        finished := fun h => absurd h (by rw [hfinished]; decide) }
  · have hlength := congrArg List.length hencoded
    have hlength' := congrArg List.length hcontent
    have hle := hanswers.consumed_le
    rw [List.length_append, List.length_take] at hlength
    rw [List.length_append] at hlength'
    simp only [Ghost.bound]
    omega

/-- A read that completes a frame. -/
theorem Stepped.complete (hstepped : Stepped S st source g n ended reply left)
    (hinv : Inv S st source g) (hret : reply.ret = 0) :
    g.encodedLeft = source.remaining.take reply.consumed ++ encodings g.rest ∧
      g.contentLeft = reply.emitted ++ contents g.rest ∧
      left.remaining ++ (S.pieces.drop ended.object.refills).flatten = encodings g.rest := by
  have hanswers := hinv.answers hstepped.decode
  obtain ⟨htaken, hgiven⟩ := hanswers.ret_eq_zero_iff.mp hret
  have hencoded : g.encodedLeft = source.remaining.take reply.consumed ++ encodings g.rest := by
    rw [Ghost.encodedLeft, drop_of_append_front
      (hanswers.encoded_front.trans (List.prefix_append _ _)), htaken, List.drop_left]
  refine ⟨hencoded, ?_, ?_⟩
  · rw [Ghost.contentLeft, drop_of_append_front
      (hanswers.content_front.trans (List.prefix_append _ _)), hgiven, List.drop_left]
  · have hpending := hstepped.pending
    rw [hencoded, List.append_cancel_left_eq] at hpending
    exact hpending.symm

/-- A read that completes a frame behind which there is another one. -/
theorem Stepped.border (hstepped : Stepped S st source g n ended reply left)
    (hinv : Inv S st source g) (hret : reply.ret = 0) {f : Frame Byte Byte}
    {rest : List (Frame Byte Byte)} (hrest : g.rest = f :: rest) :
    ∃ next : Ghost, Inv S ended.object left next ∧ next.bound < g.bound ∧
      next.rest = rest ∧
      g.encodedLeft = source.remaining.take reply.consumed ++ next.encodedLeft ∧
      g.contentLeft = reply.emitted ++ next.contentLeft := by
  have hanswers := hinv.answers hstepped.decode
  obtain ⟨hencoded, hcontent, hpending⟩ := hstepped.complete hinv hret
  rw [hrest] at hencoded hcontent hpending
  have hvalid : ∀ later ∈ f :: rest, C.IsFrame later := fun later hlater =>
    hinv.valid later (List.mem_cons_of_mem _ (hrest ▸ hlater))
  have hf := C.encoded_ne_nil (hvalid f List.mem_cons_self)
  have hleft : left.remaining ≠ [] := by
    intro hnil
    rw [hnil, hstepped.supplied hnil, List.append_nil, encodings_cons] at hpending
    exact hf (List.append_eq_nil_iff.mp hpending.symm).1
  have hmoved : 0 < reply.consumed + reply.emitted.length := by
    by_contra hstill
    have hemitted : reply.emitted = [] := List.length_eq_zero_iff.mp (by omega)
    exact (hinv.empty_of_not_moved hstepped.decode (by omega) hemitted).1 hret
  let next : Ghost := ⟨f, rest, [], [], 0⟩
  refine ⟨next, ?_, ?_, rfl, hencoded, hcontent⟩
  · exact
      { source_eq := hstepped.source_eq
        serves := hstepped.serves
        is_open := hstepped.is_open
        not_end := by
          rw [hstepped.streamEnd, (Buffer.hasRemaining_iff _).mpr hleft, Bool.not_true,
            Bool.and_false]
        valid := hvalid
        place := hanswers.boundary hret
        taken_front := List.nil_prefix
        given_front := List.nil_prefix
        pending := hpending
        unfinished := fun h => hf h.1.symm
        idle_cases := .inl rfl
        finished := fun _ => hleft }
  · have hlength := congrArg List.length hencoded
    have hlength' := congrArg List.length hcontent
    have hle := hanswers.consumed_le
    rw [List.length_append, List.length_take] at hlength
    rw [List.length_append] at hlength'
    simp only [Ghost.bound, Ghost.encodedLeft, Ghost.contentLeft, next, List.length_nil,
      List.drop_zero, encodings_cons, contents_cons] at hlength hlength' ⊢
    omega

/-- A read that completes the last frame. -/
theorem Stepped.last (hstepped : Stepped S st source g n ended reply left)
    (hinv : Inv S st source g) (hret : reply.ret = 0) (hrest : g.rest = []) :
    ended.object.hasRemaining = false ∧
      g.encodedLeft = source.remaining.take reply.consumed ∧ g.contentLeft = reply.emitted := by
  obtain ⟨hencoded, hcontent, hpending⟩ := hstepped.complete hinv hret
  rw [hrest] at hencoded hcontent hpending
  rw [encodings_nil, List.append_nil] at hencoded
  rw [contents_nil, List.append_nil] at hcontent
  refine ⟨?_, hencoded, hcontent⟩
  have hempty : left.hasRemaining = false :=
    (Buffer.hasRemaining_eq_false_iff _).mpr (List.append_eq_nil_iff.mp hpending).1
  simp only [State.hasRemaining, hstepped.source_eq, hstepped.streamEnd, hempty, hret,
    decide_true, Bool.not_false, Bool.and_true, Bool.not_true, Bool.and_false, Bool.false_and]

end Cases

/-- The reads from a ghost position to the end: every frame is completed by one of them,
the last frame by the last one. -/
structure Finishes (S : Scenario C direct) (n : ℕ) (st : State σ) (g : Ghost)
    (ends : List (Ended σ)) (takens emitteds : List (List Byte)) : Prop where
  reads : Reads D S.refill direct S.targets n st ends takens emitteds
  encoded : takens.flatten = g.encodedLeft
  content : emitteds.flatten = g.contentLeft
  frames : ends.countP (fun ended => ended.object.finishedFrame) = g.rest.length + 1
  last : ∃ before last, ends = before ++ [last] ∧ last.object.finishedFrame = true ∧
    last.object.hasRemaining = false

section Finish

variable {S : Scenario C direct} {st : State σ} {source left : Buffer} {g next : Ghost} {n : ℕ}
  {reply : Reply Byte} {ends : List (Ended σ)} {takens emitteds : List (List Byte)}

/-- The last read. -/
theorem Stepped.finishes_last
    (hstepped : Stepped S st source g n (read D S.refill direct (S.targets n) st) reply left)
    (hinv : Inv S st source g) (hret : reply.ret = 0) (hrest : g.rest = []) :
    Finishes S n st g [read D S.refill direct (S.targets n) st]
      [source.remaining.take reply.consumed] [reply.emitted] := by
  obtain ⟨hstop, hencoded, hcontent⟩ := hstepped.last hinv hret hrest
  have hfinished : (read D S.refill direct (S.targets n) st).object.finishedFrame = true := by
    rw [hstepped.finishedFrame, decide_eq_true_iff]
    exact hret
  exact
    { reads := .read hinv.hasRemaining rfl hstepped.step (.stop _ _ hstop)
      encoded := by rw [hencoded, List.flatten_singleton]
      content := by rw [hcontent, List.flatten_singleton]
      frames := by simp only [List.countP_singleton, hfinished, if_true, hrest, List.length_nil]
      last := ⟨[], _, rfl, hfinished, hstop⟩ }

/-- A read in front of the others. -/
theorem Finishes.cons
    (hfinishes : Finishes S (n + 1) (read D S.refill direct (S.targets n) st).object
      next ends takens emitteds)
    (hstepped : Stepped S st source g n (read D S.refill direct (S.targets n) st) reply left)
    (hinv : Inv S st source g)
    (hrest : g.rest.length = next.rest.length + if reply.ret = 0 then 1 else 0)
    (hencoded : g.encodedLeft = source.remaining.take reply.consumed ++ next.encodedLeft)
    (hcontent : g.contentLeft = reply.emitted ++ next.contentLeft) :
    Finishes S n st g (read D S.refill direct (S.targets n) st :: ends)
      (source.remaining.take reply.consumed :: takens) (reply.emitted :: emitteds) := by
  obtain ⟨before, last, rfl, hlast⟩ := hfinishes.last
  exact
    { reads := .read hinv.hasRemaining rfl hstepped.step hfinishes.reads
      encoded := by rw [List.flatten_cons, hfinishes.encoded, hencoded]
      content := by rw [List.flatten_cons, hfinishes.content, hcontent]
      frames := by
        rw [List.countP_cons, hfinishes.frames, hstepped.finishedFrame, hrest]
        simp only [decide_eq_true_iff]
        omega
      last := ⟨read D S.refill direct (S.targets n) st :: before, last, rfl, hlast⟩ }

/-- From every ghost position the loop comes to its end. -/
theorem Inv.finishes (bound : ℕ) :
    ∀ {st : State σ} {source : Buffer} {g : Ghost} (n : ℕ) (before : List (Ended σ)),
      Inv S st source g → g.bound = bound →
      ∃ ends takens emitteds last, Finishes S n st g ends takens emitteds ∧
        Yields (fun fuel => iterate
          (fun loop => some (loopTurn D S.refill direct S.targets loop)) fuel ⟨n, st, before⟩)
          ⟨n + ends.length, last, before ++ ends⟩ := by
  induction bound using Nat.strong_induction_on with
  | _ bound ih =>
      intro st source g n before hinv hbound
      obtain ⟨reply, left, hstepped⟩ := hinv.stepped n
      have hmore := hinv.hasRemaining
      have hturn : loopTurn D S.refill direct S.targets ⟨n, st, before⟩ =
          .again ⟨n + 1, (read D S.refill direct (S.targets n) st).object,
            before ++ [read D S.refill direct (S.targets n) st]⟩ := by
        simp only [loopTurn, hmore, if_true, hstepped.step.outcome]
      have hbehind : ∀ next : Ghost,
          Inv S (read D S.refill direct (S.targets n) st).object left next → next.bound < g.bound →
          g.rest.length = next.rest.length + (if reply.ret = 0 then 1 else 0) →
          g.encodedLeft = source.remaining.take reply.consumed ++ next.encodedLeft →
          g.contentLeft = reply.emitted ++ next.contentLeft →
          ∃ ends takens emitteds last, Finishes S n st g ends takens emitteds ∧
            Yields (fun fuel => iterate
              (fun loop => some (loopTurn D S.refill direct S.targets loop)) fuel ⟨n, st, before⟩)
              ⟨n + ends.length, last, before ++ ends⟩ := by
        intro next hnext hless hrest hencoded hcontent
        obtain ⟨ends, takens, emitteds, last, hfinishes, hyields⟩ := ih next.bound (hbound ▸ hless)
          (n + 1) (before ++ [read D S.refill direct (S.targets n) st]) hnext rfl
        refine ⟨_, _, _, last, hfinishes.cons hstepped hinv hrest hencoded hcontent,
          Yields.again (congrArg some hturn) ?_⟩
        rw [List.append_assoc, List.singleton_append, Nat.add_assoc, Nat.add_comm 1] at hyields
        exact hyields
      by_cases hret : reply.ret = 0
      · cases hrest : g.rest with
        | nil =>
            refine ⟨_, _, _, (read D S.refill direct (S.targets n) st).object,
              hstepped.finishes_last hinv hret hrest, Yields.again (congrArg some hturn) ?_⟩
            have hstop := (hstepped.last hinv hret hrest).1
            exact Yields.leave (congrArg some (if_neg (by rw [hstop]; decide)))
        | cons f rest =>
            obtain ⟨next, hnext, hless, hnextRest, hencoded, hcontent⟩ :=
              hstepped.border hinv hret hrest
            exact hbehind next hnext hless (by rw [hrest, hnextRest, if_pos hret]; rfl) hencoded
              hcontent
      · obtain ⟨next, hnext, hless, hnextRest, hencoded, hcontent⟩ := hstepped.inside hinv hret
        exact hbehind next hnext hless (by rw [hnextRest, if_neg hret, Nat.add_zero]) hencoded
          hcontent

end Finish

end ZstdJni.BufferDecompress
