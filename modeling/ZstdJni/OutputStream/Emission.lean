/-
# The output stream emits what is written

The object refines the ledger: the wrapped stream holds the complete frames of the
ledger and a part of the open one, the compressor was fed the content of the open
frame, and the flags say what the ledger says.  Every call keeps this or fails, so a
closed stream has handed over exactly the frames of its closed ledger.
-/

import ZstdJni.OutputStream.Loops

namespace ZstdJni.OutputStream

open ZstdJni.Foundation ZstdJni.Native

variable {σ : Type} {E : Encoder σ Setting Byte Byte} {C : CStreamContract E}
variable {start : Sink} {ledger : Ledger} {self : State σ}
variable {frames : List (Frame Byte Byte)} {output : List Byte}

/-- The object refines the ledger: `frames` were handed over completely behind what the
wrapped stream had at the start, and `output` of the open frame. -/
structure Refines (C : CStreamContract E) (start : Sink) (ledger : Ledger) (st : State σ)
    (frames : List (Frame Byte Byte)) (output : List Byte) : Prop where
  valid : ∀ f ∈ frames, C.IsFrame f
  complete_eq : frames.map Frame.content = ledger.complete
  written_eq : st.out.written = start.written ++ encodings frames ++ output
  faults_suffix : st.out.faults <:+ start.faults
  closeOnFlush_eq : st.closeFrameOnFlush = ledger.closeOnFlush
  is_open : st.isClosed = false
  frameClosed_eq : st.frameClosed = ledger.current.isNone
  frameStarted_eq : st.frameStarted = true ↔ ¬ (ledger.complete = [] ∧ ledger.current = none)
  output_nil : ledger.current = none → output = []
  place : ∀ fed, ledger.current = some fed →
    ∃ pending, C.contract.place false st.stream fed output pending

/-- The stream a constructor returns refines the empty ledger. -/
theorem refines_create (C : CStreamContract E) (stream : σ) (out : Sink) (dst : List Byte) :
    Refines C out .empty (State.create stream out dst) [] [] where
  valid := by simp
  complete_eq := rfl
  written_eq := by simp [State.create]
  faults_suffix := List.suffix_rfl
  closeOnFlush_eq := rfl
  is_open := rfl
  frameClosed_eq := rfl
  frameStarted_eq := by simp [State.create, Ledger.empty]
  output_nil := fun _ => rfl
  place := by simp [Ledger.empty]

theorem contents_eq_flatten (frames : List (Frame Byte Byte)) :
    contents frames = (frames.map Frame.content).flatten :=
  List.flatMap_def ..

/-- Complete frames suffice for their contents. -/
theorem suffices_encodings (C : CStreamContract E) (hvalid : ∀ f ∈ frames, C.IsFrame f) :
    Suffices C.IsFrame (encodings frames) (contents frames) := by
  have hnil : Suffices C.IsFrame ([] : List Byte) [] := fun _ _ _ => List.nil_prefix
  simpa using hnil.encodings_append C.format hvalid

theorem andThen_returned {ended : Ended σ} (houtcome : ended.outcome = .returned ())
    (rest : State σ → Option (Ended σ)) : ended.andThen rest = rest ended.self := by
  rw [Ended.andThen, houtcome]

/-- A failure skips what follows. -/
theorem andThen_broken {faults : List Bool} {ended : Ended σ} (hbroken : Broken E faults ended)
    (rest : State σ → Option (Ended σ)) : ended.andThen rest = some ended := by
  have hfailed := hbroken.failed
  obtain ⟨outcome, self⟩ := ended
  cases outcome with
  | returned value => simp [failed] at hfailed
  | threw e => rfl

/-- What follows on a loop, by how the loop ends. -/
theorem yields_andThen {run : ℕ → Option (Ended σ)} {ended last : Ended σ} (h : Yields run ended)
    {rest : State σ → Option (Ended σ)} (hrest : ended.andThen rest = some last) :
    Yields (fun fuel => (run fuel).bind fun ended => ended.andThen rest) last :=
  h.bind (.of_some fun _ => hrest)

/-- A call ends: with a failure, or as it should and refining the ledger of the call. -/
def Steps (C : CStreamContract E) (start : Sink) (ledger : Ledger) (op : Op)
    (ended : Ended σ) : Prop :=
  Broken E start.faults ended ∨ ended.outcome = ledger.answer op ∧
    ∃ frames output, Refines C start (ledger.step op) ended.self frames output ∧
      (op = .flush → Suffices C.IsFrame (encodings frames ++ output) (ledger.step op).content)

/-- A refused call changes nothing. -/
theorem Refines.refused (hrefines : Refines C start ledger self frames output) {op : Op}
    {outcome : Outcome Unit} (houtcome : outcome = ledger.answer op)
    (hstep : ledger.step op = ledger) (hop : op ≠ .flush) :
    Steps C start ledger op ⟨outcome, self⟩ :=
  .inr ⟨houtcome, frames, output, hstep.symm ▸ hrefines, fun h => absurd h hop⟩

/-- The compressor inside the open frame of the ledger. -/
theorem Refines.emitting (hrefines : Refines C start ledger self frames output) {fed : List Byte}
    (hcurrent : ledger.current = some fed) :
    ∃ pending, Emitting C start.faults (false, ledger.closeOnFlush, false, true)
      (start.written ++ encodings frames)
      false fed output pending self := by
  obtain ⟨pending, hplace⟩ := hrefines.place fed hcurrent
  refine ⟨pending, hplace, hrefines.written_eq, ?_, hrefines.faults_suffix⟩
  have hstarted : self.frameStarted = true := hrefines.frameStarted_eq.mpr (by simp [hcurrent])
  rw [State.flags, hrefines.is_open, hrefines.closeOnFlush_eq, hrefines.frameClosed_eq, hcurrent,
    hstarted]
  rfl

/-- Back from the compressor to the ledger, with a frame open. -/
theorem Refines.of_emitting (hrefines : Refines C start ledger self frames output)
    {fed output' : List Byte} {pending : ℕ} {next : State σ}
    (hemit : Emitting C start.faults (false, ledger.closeOnFlush, false, true)
      (start.written ++ encodings frames)
      false fed output' pending next) :
    Refines C start { ledger with current := some fed } next frames output' := by
  have hflags := hemit.flags_eq
  simp only [State.flags, Prod.mk.injEq] at hflags
  obtain ⟨hclosed, hcof, hframe, hstarted⟩ := hflags
  exact
    { valid := hrefines.valid
      complete_eq := hrefines.complete_eq
      written_eq := hemit.written_eq
      faults_suffix := hemit.faults_suffix
      closeOnFlush_eq := hcof
      is_open := hclosed
      frameClosed_eq := hframe
      frameStarted_eq := by simp [hstarted]
      output_nil := by simp
      place := by
        intro fed' hfed'
        obtain rfl : fed = fed' := Option.some.inj hfed'
        exact ⟨pending, hemit.place⟩ }

/-- The part of `write` that begins a frame leaves the compressor inside one. -/
theorem Refines.beginFrame (hrefines : Refines C start ledger self frames output) :
    Broken E start.faults (beginFrame E self) ∨
      (beginFrame E self).outcome = .returned () ∧ ∃ pending,
        Emitting C start.faults (false, ledger.closeOnFlush, false, true)
          (start.written ++ encodings frames) false
          (ledger.current.getD []) output pending (beginFrame E self).self := by
  have herror := C.isError_reset self.stream
  rw [OutputStream.beginFrame]
  cases hcurrent : ledger.current with
  | some fed =>
      have hframe : self.frameClosed = false := by rw [hrefines.frameClosed_eq, hcurrent]; rfl
      rw [if_neg (by simp [hframe])]
      exact .inr ⟨rfl, hrefines.emitting hcurrent⟩
  | none =>
      have hframe : self.frameClosed = true := by rw [hrefines.frameClosed_eq, hcurrent]; rfl
      have houtput := hrefines.output_nil hcurrent
      rw [if_pos hframe]
      cases hok : zstdIsError (E.reset self.stream).2 with
      | true =>
          have herr : isError (jint (E.reset self.stream).2) = true := herror.trans hok
          simp only [resetCStream, herr, if_true]
          exact .inl (.zstd _ (.reset self.stream) hok rfl)
      | false =>
          have hnone : isError (jint (E.reset self.stream).2) = false := herror.trans hok
          simp only [resetCStream, hnone, Bool.false_eq_true, if_false]
          obtain ⟨pending, hplace⟩ := C.contract.reset self.stream (by simp [hok])
          refine .inr ⟨trivial, pending, ?_, ?_, ?_, hrefines.faults_suffix⟩
          · rw [houtput]
            exact hplace
          · exact hrefines.written_eq
          · rw [State.flags, hrefines.is_open, hrefines.closeOnFlush_eq]

/-- `write` inside its array appends to the open frame, or opens one. -/
theorem Refines.write_steps (hrefines : Refines C start ledger self frames output)
    {src : List Byte} {offset len : ℤ} (hbounds : inBounds src offset len) :
    ∃ ended,
      (Broken E start.faults ended ∨ ended.outcome = .returned () ∧ ∃ output', Refines C start
        (ledger.append (window src offset.toNat (offset + len).toNat)) ended.self frames output') ∧
      Yields (fun fuel => write E fuel src offset len self) ended := by
  obtain ⟨hoffset, hlen, hfits⟩ := hbounds
  simp only [write, if_neg (show ¬ (offset < 0 ∨ len < 0 ∨ src.length - offset < len) by omega),
    if_neg (show ¬ self.isClosed = true by simp [hrefines.is_open])]
  rcases hrefines.beginFrame with hbroken | ⟨houtcome, pending, hemit⟩
  · exact ⟨_, .inl hbroken, .of_some fun _ => andThen_broken hbroken _⟩
  · have hsource : Emitting C start.faults (false, ledger.closeOnFlush, false, true)
        (start.written ++ encodings frames) false (ledger.current.getD []) output pending
        { (OutputStream.beginFrame E self).self with srcPos := offset.toNat } :=
      ⟨hemit.place, hemit.written_eq, hemit.flags_eq, hemit.faults_suffix⟩
    obtain ⟨ended, hpost, hyields⟩ := hsource.write_loop src (offset + len).toNat
      (by simp only; omega) (by omega)
    simp only [andThen_returned houtcome]
    refine ⟨ended, hpost.imp_right ?_, hyields⟩
    rintro ⟨hreturned, output', pending', hnext⟩
    exact ⟨hreturned, output', hrefines.of_emitting hnext⟩

/-- A call of the wrapped stream without bytes throws, or leaves the bytes as they are. -/
theorem Sink.call_cases (effect : Sink → Sink)
    (heffect : ∀ sink, (effect sink).written = sink.written ∧ (effect sink).faults = sink.faults)
    (sink : Sink) :
    ((Sink.call effect sink).1 = .threw sinkFault ∧
        sink.faults = true :: (Sink.call effect sink).2.faults) ∨
      (Sink.call effect sink).1 = .returned () ∧
        (Sink.call effect sink).2.written = sink.written ∧
        (Sink.call effect sink).2.faults <:+ sink.faults := by
  unfold Sink.call
  split
  · exact .inr ⟨rfl, (heffect sink).1, (heffect sink).2 ▸ List.suffix_rfl⟩
  · next rest hfaults => exact .inl ⟨rfl, hfaults⟩
  · next rest hfaults =>
      have hkept := heffect { sink with faults := rest }
      refine .inr ⟨rfl, hkept.1, ?_⟩
      rw [hkept.2, hfaults]
      exact List.suffix_cons _ _

theorem flushOut_cases (self : State σ) :
    Broken E self.out.faults (flushOut self) ∨ (flushOut self).outcome = .returned () ∧
      ∃ out, (flushOut self).self = { self with out := out } ∧ out.written = self.out.written ∧
        out.faults <:+ self.out.faults := by
  refine (Sink.call_cases (fun sink => { sink with flushes := sink.flushes + 1 })
    (fun _ => ⟨rfl, rfl⟩) self.out).imp ?_ ?_
  · rintro ⟨houtcome, hfaults⟩
    exact .sink [] hfaults houtcome
  · rintro ⟨houtcome, hwritten, hfaults⟩
    exact ⟨houtcome, _, rfl, hwritten, hfaults⟩

theorem closeParent_cases (closeParentStream : Bool) (self : State σ) :
    Broken E self.out.faults (closeParent closeParentStream self) ∨
      (closeParent closeParentStream self).outcome = .returned () ∧
      (closeParent closeParentStream self).self.out.written = self.out.written := by
  unfold closeParent
  cases closeParentStream with
  | false => exact .inr ⟨rfl, rfl⟩
  | true =>
      refine (Sink.call_cases id (fun _ => ⟨rfl, rfl⟩)
        { self.out with closes := self.out.closes + 1 }).imp ?_ ?_
      · rintro ⟨houtcome, hfaults⟩
        exact .sink [] hfaults houtcome
      · rintro ⟨houtcome, hwritten, -⟩
        exact ⟨houtcome, hwritten⟩

/-- The refinement does not read the counters of the wrapped stream. -/
theorem Refines.with_out (hrefines : Refines C start ledger self frames output) {out : Sink}
    (hwritten : out.written = self.out.written) (hfaults : out.faults <:+ self.out.faults) :
    Refines C start ledger { self with out := out } frames output :=
  { valid := hrefines.valid
    complete_eq := hrefines.complete_eq
    written_eq := hwritten.trans hrefines.written_eq
    faults_suffix := hfaults.trans hrefines.faults_suffix
    closeOnFlush_eq := hrefines.closeOnFlush_eq
    is_open := hrefines.is_open
    frameClosed_eq := hrefines.frameClosed_eq
    frameStarted_eq := hrefines.frameStarted_eq
    output_nil := hrefines.output_nil
    place := hrefines.place }

/-- The open frame of the ledger is completed: the object after the drain loop, with its
flag set. -/
theorem Refines.finish (hrefines : Refines C start ledger self frames output) {f : Frame Byte Byte}
    (hcurrent : ledger.current = some f.content) (hf : C.IsFrame f) {next : State σ}
    (hwritten : next.out.written = start.written ++ encodings frames ++ f.encoded)
    (hflags : next.flags = (false, ledger.closeOnFlush, false, true))
    (hfaults : next.out.faults <:+ start.faults) :
    Refines C start ledger.finish { next with frameClosed := true } (frames ++ [f]) [] := by
  simp only [State.flags, Prod.mk.injEq] at hflags
  obtain ⟨hclosed, hcof, -, hstarted⟩ := hflags
  exact
    { valid := by
        intro g hg
        rcases List.mem_append.mp hg with hg | hg
        · exact hrefines.valid g hg
        · exact List.mem_singleton.mp hg ▸ hf
      complete_eq := by simp [Ledger.finish, hcurrent, hrefines.complete_eq]
      written_eq := by simpa using hwritten
      faults_suffix := hfaults
      closeOnFlush_eq := hcof
      is_open := hclosed
      frameClosed_eq := rfl
      frameStarted_eq := by simp [Ledger.finish, hstarted, hcurrent]
      output_nil := fun _ => rfl
      place := by simp [Ledger.finish] }

theorem Refines.contents_eq (hrefines : Refines C start ledger self frames output) :
    contents frames = ledger.complete.flatten := by
  rw [contents_eq_flatten, hrefines.complete_eq]

/-- Without an open frame what was handed over suffices. -/
theorem Refines.suffices_of_closed (hrefines : Refines C start ledger self frames output)
    (hcurrent : ledger.current = none) :
    Suffices C.IsFrame (encodings frames ++ output) ledger.content := by
  have hsuffices := suffices_encodings C hrefines.valid
  rw [hrefines.contents_eq] at hsuffices
  simpa [hrefines.output_nil hcurrent, Ledger.content, hcurrent] using hsuffices

/-- `flush` completes the open frame or flushes it. -/
theorem Refines.flush_steps (hrefines : Refines C start ledger self frames output) :
    ∃ ended, Steps C start ledger .flush ended ∧ Yields (fun fuel => flush E fuel self) ended := by
  simp only [flush, if_neg (show ¬ self.isClosed = true by simp [hrefines.is_open])]
  cases hcurrent : ledger.current with
  | none =>
      have hframe : self.frameClosed = true := by rw [hrefines.frameClosed_eq, hcurrent]; rfl
      have hstep : ledger.step .flush = ledger := by
        rw [Ledger.step, Ledger.finish_of_none hcurrent, ite_self]
      simp only [if_pos hframe]
      refine ⟨_, .inr ⟨rfl, frames, output, hstep.symm ▸ hrefines, fun _ => ?_⟩,
        .of_some fun _ => rfl⟩
      rw [hstep]
      exact hrefines.suffices_of_closed hcurrent
  | some fed =>
      have hframe : ¬ self.frameClosed = true := by
        rw [hrefines.frameClosed_eq, hcurrent]
        simp
      obtain ⟨pending, hemit⟩ := hrefines.emitting hcurrent
      simp only [if_neg hframe, hrefines.closeOnFlush_eq]
      cases hcof : ledger.closeOnFlush with
      | true =>
          simp only [if_true]
          obtain ⟨drained, hpost, hyields⟩ := hemit.drain_end
          rcases hpost with hbroken | ⟨houtcome, hflags, hfaults, f, hf, hfed, hwritten⟩
          · exact ⟨drained, .inl hbroken, yields_andThen hyields (andThen_broken hbroken _)⟩
          · refine ⟨_, ?_, yields_andThen hyields (andThen_returned houtcome _)⟩
            have hnext := hrefines.finish (hfed.symm ▸ hcurrent) hf hwritten hflags hfaults
            rcases flushOut_cases (E := E) { drained.self with frameClosed := true } with
              hbroken | ⟨hreturned, out, hself, hout, hless⟩
            · exact .inl (hbroken.of_suffix hfaults)
            · have hstep : ledger.step .flush =
                ledger.finish := by rw [Ledger.step, hcof, if_pos rfl]
              refine .inr ⟨hreturned, frames ++ [f], [], ?_, fun _ => ?_⟩
              · rw [hself, hstep]
                exact hnext.with_out hout hless
              · rw [hstep]
                exact hnext.suffices_of_closed rfl
      | false =>
          simp only [Bool.false_eq_true, if_false]
          obtain ⟨drained, hpost, hyields⟩ := hemit.drain_flush
          rcases hpost with hbroken | ⟨houtcome, output', pending', hnext, hsuffices⟩
          · exact ⟨drained, .inl hbroken, yields_andThen hyields (andThen_broken hbroken _)⟩
          · refine ⟨_, ?_, yields_andThen hyields (andThen_returned houtcome _)⟩
            rcases flushOut_cases (E := E) drained.self with hbroken |
              ⟨hreturned, out, hself, hout, hless⟩
            · exact .inl (hbroken.of_suffix hnext.faults_suffix)
            · have hstep : ledger.step .flush = { ledger with current := some fed } := by
                rw [Ledger.step, if_neg (by simp [hcof]), ← hcurrent]
              refine .inr ⟨hreturned, frames, output', ?_, fun _ => ?_⟩
              · rw [hself, hstep]
                exact (hrefines.of_emitting hnext).with_out hout hless
              · have hwhole := hsuffices.encodings_append C.format hrefines.valid
                rw [hrefines.contents_eq] at hwhole
                rw [hstep]
                exact hwhole

/-- A setter of a parameter is refused inside a frame, and between frames it only changes
the settings of the compressor. -/
theorem Refines.set_steps (hrefines : Refines C start ledger self frames output)
    (setting : Setting) : Steps C start ledger (.set setting) (setterOf E setting self) := by
  rw [setterOf_eq, parameterSetter, if_neg (by simp [hrefines.is_open])]
  cases hcurrent : ledger.current with
  | some fed =>
      have hframe : self.frameClosed = false := by rw [hrefines.frameClosed_eq, hcurrent]; rfl
      rw [if_pos (by simp [hframe])]
      exact hrefines.refused (by simp [Ledger.answer, hcurrent]) rfl (by simp)
  | none =>
      have hframe : self.frameClosed = true := by rw [hrefines.frameClosed_eq, hcurrent]; rfl
      rw [if_neg (by simp [hframe])]
      have herror := C.isError_configure self.stream setting
      simp only
      cases hok : zstdIsError (E.configure self.stream setting).2 with
      | true =>
          rw [if_pos (herror.trans hok)]
          exact .inl (.zstd _ (.configure self.stream setting) hok rfl)
      | false =>
          rw [if_neg (by simp [herror.trans hok])]
          refine .inr ⟨by simp [Ledger.answer, hcurrent], frames, output, ?_, by simp⟩
          exact
            { valid := hrefines.valid
              complete_eq := hrefines.complete_eq
              written_eq := hrefines.written_eq
              faults_suffix := hrefines.faults_suffix
              closeOnFlush_eq := hrefines.closeOnFlush_eq
              is_open := hrefines.is_open
              frameClosed_eq := hrefines.frameClosed_eq
              frameStarted_eq := hrefines.frameStarted_eq
              output_nil := hrefines.output_nil
              place := fun fed hfed => absurd (hcurrent.symm.trans hfed) (by simp) }

theorem Refines.setCloseFrameOnFlush_steps (hrefines : Refines C start ledger self frames output)
    (closeOnFlush : Bool) :
    Steps C start ledger (.setCloseFrameOnFlush closeOnFlush)
      (setCloseFrameOnFlush closeOnFlush self) := by
  rw [setCloseFrameOnFlush]
  cases hcurrent : ledger.current with
  | some fed =>
      have hframe : self.frameClosed = false := by rw [hrefines.frameClosed_eq, hcurrent]; rfl
      rw [if_pos (by simp [hframe])]
      exact hrefines.refused (by simp [Ledger.answer, hcurrent]) (by simp [Ledger.step, hcurrent])
        (by simp)
  | none =>
      have hframe : self.frameClosed = true := by rw [hrefines.frameClosed_eq, hcurrent]; rfl
      rw [if_neg (by simp [hframe])]
      have hstep : ledger.step (.setCloseFrameOnFlush closeOnFlush) =
          { ledger with closeOnFlush := closeOnFlush } := by
        rw [Ledger.step, if_pos hcurrent]
      refine .inr ⟨by simp [Ledger.answer, hcurrent], frames, output, ?_, by simp⟩
      rw [hstep]
      exact
        { valid := hrefines.valid
          complete_eq := hrefines.complete_eq
          written_eq := hrefines.written_eq
          faults_suffix := hrefines.faults_suffix
          closeOnFlush_eq := rfl
          is_open := hrefines.is_open
          frameClosed_eq := hrefines.frameClosed_eq
          frameStarted_eq := hrefines.frameStarted_eq
          output_nil := hrefines.output_nil
          place := hrefines.place }

/-- Every call on an open stream ends, with a failure or refining the ledger. -/
theorem Refines.op_steps (hrefines : Refines C start ledger self frames output) (op : Op) :
    ∃ ended, Steps C start ledger op ended ∧ Yields (fun fuel => op.run E fuel self) ended := by
  cases op with
  | write src offset len =>
      by_cases hbounds : inBounds src offset len
      · obtain ⟨ended, hpost, hyields⟩ := hrefines.write_steps hbounds
        refine ⟨ended, hpost.imp_right ?_, hyields⟩
        rintro ⟨hreturned, output', hnext⟩
        refine ⟨by simpa [Ledger.answer, hbounds] using hreturned, frames, output', ?_, by simp⟩
        simpa [Ledger.step, Op.bytes, hbounds] using hnext
      · refine ⟨⟨.threw .indexOutOfBounds, self⟩, hrefines.refused ?_ ?_ (by simp),
          .of_some fun _ => ?_⟩
        · simp [Ledger.answer, hbounds]
        · simp [Ledger.step, hbounds]
        · rw [Op.run, write, if_pos]
          simp only [inBounds] at hbounds
          omega
  | writeByte i =>
      have hbounds : inBounds [UInt8.ofNat (i % 256).toNat] 0 1 := by simp [inBounds]
      obtain ⟨ended, hpost, hyields⟩ := hrefines.write_steps hbounds
      refine ⟨ended, hpost.imp_right ?_, hyields⟩
      rintro ⟨hreturned, output', hnext⟩
      exact ⟨hreturned, frames, output', hnext, by simp⟩
  | flush => exact hrefines.flush_steps
  | setCloseFrameOnFlush closeOnFlush =>
      exact ⟨_, hrefines.setCloseFrameOnFlush_steps closeOnFlush, .of_some fun _ => rfl⟩
  | set setting => exact ⟨_, hrefines.set_steps setting, .of_some fun _ => rfl⟩

/-- A sequence of calls ends, with a failure of the last one made, or with the answers of the
ledger and refining the ledger of the calls. -/
theorem Refines.runOps (hrefines : Refines C start ledger self frames output) (ops : List Op) :
    ∃ outcomes last, Yields (fun fuel => runOps E fuel self ops) (outcomes, last) ∧
      ((∃ outcome, outcomes.getLast? = some outcome ∧ Broken E start.faults ⟨outcome, last⟩) ∨
        outcomes = ledger.answers ops ∧
        ∃ frames output, Refines C start (ops.foldl Ledger.step ledger) last frames output ∧
          (ops.getLast? = some .flush →
            Suffices C.IsFrame (encodings frames ++ output)
              (ops.foldl Ledger.step ledger).content)) := by
  induction ops generalizing ledger self frames output with
  | nil =>
      exact ⟨[], self, .of_some fun _ => rfl, .inr ⟨rfl, frames, output, hrefines, by simp⟩⟩
  | cons op ops ih =>
      obtain ⟨ended, hsteps, hyields⟩ := hrefines.op_steps op
      rcases hsteps with hbroken | ⟨houtcome, frames', output', hnext, hflush⟩
      · refine ⟨[ended.outcome], ended.self, hyields.bind (.of_some fun _ => ?_),
          .inl ⟨ended.outcome, rfl, hbroken⟩⟩
        rw [if_pos hbroken.failed]
      · have hfailed : ¬ failed ended.outcome = true := by
          rw [houtcome, Ledger.failed_answer]
          exact Bool.false_ne_true
        obtain ⟨outcomes, last, hrest, hpost⟩ := ih hnext
        refine ⟨ended.outcome :: outcomes, last, hyields.bind ?_, ?_⟩
        · simp only [if_neg hfailed]
          exact hrest.bind (.of_some fun _ => rfl)
        · rcases hpost with ⟨outcome, hlast, hbroken⟩ | ⟨rfl, frames'', output'', hlast, hsuffices⟩
          · refine .inl ⟨outcome, ?_, hbroken⟩
            rw [List.getLast?_cons, hlast]
            rfl
          · refine .inr ⟨by rw [houtcome, Ledger.answers], ?_⟩
            cases ops with
            | nil =>
                cases hrest.unique (.of_some fun _ => rfl)
                exact ⟨frames', output', hnext, fun hop => hflush (by simpa using hop)⟩
            | cons op' ops =>
                exact ⟨frames'', output'', hlast, fun hop => hsuffices (by simpa using hop)⟩

/-- The last part of `close` completes the frame the compressor is inside of. -/
theorem Emitting.close_frame {faults : List Bool} {kept : Bool × Bool × Bool × Bool}
    {base fed : List Byte} {pending : ℕ}
    (hemit : Emitting C faults kept base false fed output pending self) (closeParentStream : Bool) :
    ∃ ended, Yields (fun fuel => (drain (endStream E) fuel self).bind fun ended =>
        ended.andThen fun self => some (closeParent closeParentStream self)) ended ∧
      (Broken E faults ended ∨ ended.outcome = .returned () ∧
        ∃ f, C.IsFrame f ∧ f.content = fed ∧ ended.self.out.written = base ++ f.encoded) := by
  obtain ⟨drained, hpost, hyields⟩ := hemit.drain_end
  rcases hpost with hbroken | ⟨houtcome, -, hfaults, f, hf, hfed, hwritten⟩
  · exact ⟨drained, yields_andThen hyields (andThen_broken hbroken _), .inl hbroken⟩
  · refine ⟨_, yields_andThen hyields (andThen_returned houtcome _), ?_⟩
    refine (closeParent_cases (E := E) closeParentStream drained.self).imp
      (fun hbroken => hbroken.of_suffix hfaults) ?_
    rintro ⟨hreturned, hsame⟩
    exact ⟨hreturned, f, hf, hfed, hsame.trans hwritten⟩

/-- The body of `close` completes the open frame, or emits an empty one if there never
was one. -/
theorem Refines.closeBody_emits (hrefines : Refines C start ledger self frames output)
    (closeParentStream : Bool) :
    ∃ ended, Yields (fun fuel => closeBody E fuel closeParentStream self) ended ∧
      (Broken E start.faults ended ∨ ended.outcome = .returned () ∧ ∃ frames,
        (∀ f ∈ frames, C.IsFrame f) ∧ frames.map Frame.content = ledger.close ∧
        ended.self.out.written = start.written ++ encodings frames) := by
  have hstarted := hrefines.frameStarted_eq
  have hlast {fed : List Byte} {ended : Ended σ} (hclose : ledger.close = ledger.complete ++ [fed])
      (hpost : Broken E start.faults ended ∨ ended.outcome = .returned () ∧
        ∃ f, C.IsFrame f ∧ f.content = fed ∧
          ended.self.out.written = start.written ++ encodings frames ++ f.encoded) :
      Broken E start.faults ended ∨ ended.outcome = .returned () ∧ ∃ frames,
        (∀ f ∈ frames, C.IsFrame f) ∧ frames.map Frame.content = ledger.close ∧
        ended.self.out.written = start.written ++ encodings frames := by
    refine hpost.imp_right ?_
    rintro ⟨hreturned, f, hf, hfed, hwritten⟩
    refine ⟨hreturned, frames ++ [f], ?_, ?_, ?_⟩
    · intro f' hf'
      rcases List.mem_append.mp hf' with hf' | hf'
      · exact hrefines.valid f' hf'
      · exact List.mem_singleton.mp hf' ▸ hf
    · rw [hclose, List.map_append, hrefines.complete_eq, List.map_singleton, hfed]
    · simpa using hwritten
  cases hcurrent : ledger.current with
  | some fed =>
      obtain ⟨pending, hemit⟩ := hrefines.emitting hcurrent
      have hbegin : beginEmptyFrame E self = ⟨.returned (), self⟩ := by
        rw [beginEmptyFrame, if_pos (hstarted.mpr (by simp [hcurrent]))]
      have hframe : self.frameClosed = false := by rw [hrefines.frameClosed_eq, hcurrent]; rfl
      obtain ⟨ended, hyields, hpost⟩ := hemit.close_frame closeParentStream
      refine ⟨ended, ?_, hlast ?_ hpost⟩
      · simpa [closeBody, hbegin, Ended.andThen, hframe] using hyields
      · simp [Ledger.close, Ledger.finish, hcurrent]
  | none =>
      have houtput := hrefines.output_nil hcurrent
      have hframe : self.frameClosed = true := by rw [hrefines.frameClosed_eq, hcurrent]; rfl
      by_cases hcomplete : ledger.complete = []
      · have hfresh : ¬ self.frameStarted = true := by simp [hstarted, hcomplete, hcurrent]
        have herror := C.isError_reset self.stream
        cases hok : zstdIsError (E.reset self.stream).2 with
        | true =>
            have herr : isError (jint (E.reset self.stream).2) = true := herror.trans hok
            refine ⟨⟨.threw (.ofIOResult (jint (E.reset self.stream).2)),
              { self with stream := (E.reset self.stream).1 }⟩, .of_some fun _ => ?_,
              .inl (.zstd _ (.reset self.stream) hok rfl)⟩
            simp [closeBody, beginEmptyFrame, hfresh, resetCStream, herr, Ended.andThen]
        | false =>
            have hnone : isError (jint (E.reset self.stream).2) = false := herror.trans hok
            obtain ⟨pending, hplace⟩ := C.contract.reset self.stream (by simp [hok])
            have hemit : Emitting C start.faults
              (false, ledger.closeOnFlush, false, self.frameStarted)
                (start.written ++ encodings frames) false [] [] pending
                { self with stream := (E.reset self.stream).1, frameClosed := false } := by
              refine ⟨hplace, ?_, ?_, hrefines.faults_suffix⟩
              · rw [← houtput]
                exact hrefines.written_eq
              · rw [State.flags, hrefines.is_open, hrefines.closeOnFlush_eq]
            obtain ⟨ended, hyields, hpost⟩ := hemit.close_frame closeParentStream
            refine ⟨ended, ?_, hlast ?_ hpost⟩
            · simpa [closeBody, beginEmptyFrame, hfresh, resetCStream, hnone, Ended.andThen]
                using hyields
            · simp [Ledger.close, hcomplete, hcurrent]
      · have hbegin : beginEmptyFrame E self = ⟨.returned (), self⟩ := by
          rw [beginEmptyFrame, if_pos (hstarted.mpr (by simp [hcomplete]))]
        refine ⟨closeParent closeParentStream self, .of_some fun _ => ?_, ?_⟩
        · simp [closeBody, hbegin, Ended.andThen, hframe]
        · refine (closeParent_cases (E := E) closeParentStream self).imp
            (fun hbroken => hbroken.of_suffix hrefines.faults_suffix) ?_
          rintro ⟨hreturned, hsame⟩
          refine ⟨hreturned, frames, hrefines.valid, ?_, ?_⟩
          · simp [Ledger.close, Ledger.finish, hcomplete, hcurrent, hrefines.complete_eq]
          · rw [hsame, hrefines.written_eq, houtput, List.append_nil]

/-- `close` completes the open frame, or emits an empty one if there never was one. -/
theorem Refines.close_emits (hrefines : Refines C start ledger self frames output)
    (closeParentStream : Bool) :
    ∃ ended, Yields (fun fuel => close E fuel closeParentStream self) ended ∧
      (Broken E start.faults ended ∨ ended.outcome = .returned () ∧ ∃ frames,
        (∀ f ∈ frames, C.IsFrame f) ∧ frames.map Frame.content = ledger.close ∧
        ended.self.out.written = start.written ++ encodings frames) := by
  obtain ⟨ended, hyields, hpost⟩ := hrefines.closeBody_emits closeParentStream
  refine ⟨{ ended with self := { ended.self with isClosed := true } }, ?_,
    hpost.imp_left fun hbroken => hbroken.with_isClosed true⟩
  simp only [close, hrefines.is_open, Bool.false_eq_true, if_false]
  exact hyields.map _

/-- What the output stream is for.  Whatever is called on an open stream, and however it
is closed, every call ends; and unless an answer of the compressor was an error or a call of
the wrapped stream has thrown, every call answers as the ledger says, and the bytes handed
to the wrapped stream are one or more complete frames with exactly the contents that the
ledger of the calls names, one by one, and together with exactly the bytes written.
After every flush the bytes handed over so far suffice for everything written so far. -/
theorem emits_exactly (C : CStreamContract E) (stream : σ) (out : Sink) (dst : List Byte)
    (ops : List Op) (closeParentStream : Bool) :
    ∃ outcomes last,
      Yields (fun fuel => runOps E fuel (State.create stream out dst) ops) (outcomes, last) ∧
      ((∃ outcome, outcomes.getLast? = some outcome ∧ Broken E out.faults ⟨outcome, last⟩) ∨
        outcomes = Ledger.empty.answers ops ∧
        (ops.getLast? = some .flush → ∃ handed, last.out.written = out.written ++ handed ∧
          Suffices C.IsFrame handed (ops.flatMap Op.bytes)) ∧
        ∃ ended, Yields (fun fuel => close E fuel closeParentStream last) ended ∧
          (Broken E out.faults ended ∨ ended.outcome = .returned () ∧ ∃ frames, frames ≠ [] ∧
            (∀ f ∈ frames, C.IsFrame f) ∧
            frames.map Frame.content = (ops.foldl Ledger.step .empty).close ∧
            contents frames = ops.flatMap Op.bytes ∧
            ended.self.out.written = out.written ++ encodings frames)) := by
  have hcontent : (ops.foldl Ledger.step .empty).content = ops.flatMap Op.bytes := by
    rw [Ledger.content_foldl]
    rfl
  obtain ⟨outcomes, last, hyields, hpost⟩ := (refines_create C stream out dst).runOps ops
  refine ⟨outcomes, last, hyields, hpost.imp_right ?_⟩
  rintro ⟨hanswers, frames, output, hrefines, hflush⟩
  refine ⟨hanswers, fun hop => ⟨encodings frames ++ output, ?_, ?_⟩, ?_⟩
  · rw [hrefines.written_eq, List.append_assoc]
  · rw [← hcontent]
    exact hflush hop
  · obtain ⟨ended, hended, hemits⟩ := hrefines.close_emits closeParentStream
    refine ⟨ended, hended, hemits.imp_right ?_⟩
    rintro ⟨hreturned, frames', hvalid, hframes, hwritten⟩
    refine ⟨hreturned, frames', ?_, hvalid, hframes, ?_, hwritten⟩
    · rintro rfl
      exact Ledger.close_ne_nil _ hframes.symm
    · rw [contents_eq_flatten, hframes, Ledger.flatten_close, hcontent]

end ZstdJni.OutputStream
