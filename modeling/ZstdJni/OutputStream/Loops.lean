/-
# The three loops of the output stream

Each loop hands the bytes that the compressor emits to the wrapped stream, call by
call.  The loop of `write` comes to an end because every call takes input or gets rid
of pending output; the drain loops because every call but the last gets rid of pending
output.  A failure of zstd or of the wrapped stream ends each of them at once.
-/

import ZstdJni.OutputStream.Spec

namespace ZstdJni.OutputStream

open ZstdJni.Foundation ZstdJni.Native

variable {σ : Type} {E : Encoder σ Setting Byte Byte} {C : CStreamContract E}
variable {kept : Bool × Bool × Bool × Bool} {self : State σ}
variable {faults : List Bool} {base fed output : List Byte} {closing : Bool} {pending : ℕ}

/-- The flags of the object, which the loops leave alone. -/
def State.flags (self : State σ) : Bool × Bool × Bool × Bool :=
  (self.isClosed, self.closeFrameOnFlush, self.frameClosed, self.frameStarted)

/-- Inside a frame: the compressor took `fed` and emitted `output`, which was handed to
the wrapped stream behind `base`.  The calls of the wrapped stream are counted in `faults`. -/
structure Emitting (C : CStreamContract E) (faults : List Bool) (kept : Bool × Bool × Bool × Bool)
    (base : List Byte) (closing : Bool) (fed output : List Byte) (pending : ℕ) (st : State σ) :
    Prop where
  place : C.contract.place closing st.stream fed output pending
  written_eq : st.out.written = base ++ output
  flags_eq : st.flags = kept
  faults_suffix : st.out.faults <:+ faults

/-- The outcome of handing over the destination buffer. -/
theorem writeOut_cases (self : State σ) :
    (∃ out, writeOut self = (.returned (), { self with out := out }) ∧
      out.written = self.out.written ++ window self.dst 0 self.dstPos ∧
      out.faults <:+ self.out.faults) ∨
    ∃ out, writeOut self = (.threw sinkFault, { self with out := out }) ∧
      self.out.faults = true :: out.faults := by
  unfold writeOut Sink.write Sink.call
  cases hfaults : self.out.faults with
  | nil => exact .inl ⟨_, rfl, rfl, hfaults ▸ List.suffix_rfl⟩
  | cons fault rest =>
      cases fault with
      | true => exact .inr ⟨_, rfl, rfl⟩
      | false => exact .inl ⟨_, rfl, rfl, List.suffix_cons _ _⟩

/-- The cells that were just written are the ones that are handed over. -/
theorem window_emitted (dst emitted : List Byte) :
    window (overwrite dst 0 emitted) 0 emitted.length = emitted := by
  simpa using window_overwrite dst emitted (Nat.le_refl 0) (Nat.zero_le _)

/-- The object after a native call of a drain loop. -/
def drained (E : Encoder σ Setting Byte Byte) (directive : Directive) (self : State σ) : State σ :=
  (drainStream E directive self).2

/-- The reply of the compressor to a native call of a drain loop. -/
def drainReply (E : Encoder σ Setting Byte Byte) (directive : Directive) (self : State σ) :
    Reply Byte :=
  (E.encode self.stream directive [] dstSize).2

/-- The three ends of a turn of a drain loop: a failure, a further turn because output is
pending, or the end of the loop.  The wrapped stream has what was emitted. -/
theorem drainTurn_cases (C : CStreamContract E) (directive : Directive) (self : State σ) :
    (∃ ended, drainTurn (drainStream E directive) self = .leave ended ∧
      Broken E self.out.faults ended) ∨
    (zstdIsError (drainReply E directive self).ret = false ∧
      ∃ next, next.stream = (E.encode self.stream directive [] dstSize).1 ∧
        next.out.written = self.out.written ++ (drainReply E directive self).emitted ∧
        next.flags = self.flags ∧ next.out.faults <:+ self.out.faults ∧
        ((drainReply E directive self).ret ≠ 0 ∧
            drainTurn (drainStream E directive) self = .again next ∨
          (drainReply E directive self).ret = 0 ∧
            drainTurn (drainStream E directive) self = .leave ⟨.returned (), next⟩)) := by
  have herror := C.isError_encode self.stream directive [] dstSize
  have hnative : drainStream E directive self =
      (jint (drainReply E directive self).ret, drained E directive self) := rfl
  unfold drainTurn
  rw [hnative]
  cases hok : zstdIsError (drainReply E directive self).ret with
  | true =>
      left
      have herr : isError (jint (drainReply E directive self).ret) = true := herror.trans hok
      simp only [herr, if_true]
      exact ⟨_, rfl, .zstd _ (.encode self.stream directive [] dstSize) hok rfl⟩
  | false =>
      have hsmall := C.encode_small self.stream directive [] dstSize hok
      have hjint : jint (drainReply E directive self).ret = (drainReply E directive self).ret :=
        jint_of_lt hsmall
      have hnone : isError (jint (drainReply E directive self).ret) = false := herror.trans hok
      simp only [hnone, Bool.false_eq_true, if_false]
      rcases writeOut_cases (drained E directive self) with
        ⟨out, hout, hwritten, hfaults⟩ | ⟨out, hout, hfaults⟩
      · right
        refine ⟨trivial, { drained E directive self with out := out }, rfl, ?_, rfl, hfaults, ?_⟩
        · have hwindow := window_emitted self.dst (drainReply E directive self).emitted
          exact hwritten.trans (congrArg _ hwindow)
        · rw [hout, hjint]
          by_cases hzero : (drainReply E directive self).ret = 0
          · exact .inr ⟨hzero, by rw [hzero]; rfl⟩
          · exact .inl ⟨hzero, if_pos (by omega)⟩
      · left
        rw [hout]
        exact ⟨_, rfl, .sink [] hfaults rfl⟩

/-- Ending a frame: the frame is complete when the loop ends. -/
theorem Emitting.drain_end (hemit : Emitting C faults kept base closing fed output pending self) :
    ∃ ended, (Broken E faults ended ∨ ended.outcome = .returned () ∧
        ended.self.flags = kept ∧ ended.self.out.faults <:+ faults ∧ ∃ f, C.IsFrame f ∧
        f.content = fed ∧
          ended.self.out.written = base ++ f.encoded) ∧
      Yields (fun fuel => drain (endStream E) fuel self) ended := by
  refine iterate_wellFounded Nat.lt_wfRel.wf
    (fun pending st => ∃ closing output, Emitting C faults kept base closing fed output pending st)
      ?_
    pending ⟨closing, output, hemit⟩
  rintro pending st ⟨closing, output, hst⟩
  refine ⟨_, rfl, ?_⟩
  rcases drainTurn_cases C .finish st with ⟨ended, hturn, hbroken⟩ |
    ⟨hok, next, hstream, hwritten, hflags, hfaults, hturn⟩
  · rw [endStream, hturn]
    exact .inl (hbroken.of_suffix hst.faults_suffix)
  · obtain ⟨-, hzero, hmore⟩ :=
      C.contract.finish hst.place dstSize_pos rfl (by simpa [drainReply] using hok)
    rcases hturn with ⟨hret, hturn⟩ | ⟨hret, hturn⟩
    · obtain ⟨pending', hless, hplace⟩ := hmore hret
      rw [endStream, hturn]
      refine ⟨pending', hless, true, _, ⟨hstream ▸ hplace, ?_, hflags.trans hst.flags_eq,
        hfaults.trans hst.faults_suffix⟩⟩
      rw [hwritten, hst.written_eq, List.append_assoc]
      rfl
    · rw [endStream, hturn]
      refine .inr ⟨rfl, hflags.trans hst.flags_eq, hfaults.trans hst.faults_suffix, _,
        hzero hret, rfl, ?_⟩
      rw [hwritten, hst.written_eq, List.append_assoc]
      rfl

/-- Flushing a frame: what was handed over suffices for what was fed. -/
theorem Emitting.drain_flush (hemit : Emitting C faults kept base false fed output pending self) :
    ∃ ended, (Broken E faults ended ∨ ended.outcome = .returned () ∧
        ∃ output pending, Emitting C faults kept base false fed output pending ended.self ∧
          Suffices C.IsFrame output fed) ∧
      Yields (fun fuel => drain (flushStream E) fuel self) ended := by
  refine iterate_wellFounded Nat.lt_wfRel.wf
    (fun pending st => ∃ output, Emitting C faults kept base false fed output pending st) ?_
    pending ⟨output, hemit⟩
  rintro pending st ⟨output, hst⟩
  refine ⟨_, rfl, ?_⟩
  rcases drainTurn_cases C .flush st with ⟨ended, hturn, hbroken⟩ |
    ⟨hok, next, hstream, hwritten, hflags, hfaults, hturn⟩
  · rw [flushStream, hturn]
    exact .inl (hbroken.of_suffix hst.faults_suffix)
  · obtain ⟨-, pending', hplace, hzero, hmore⟩ :=
      C.contract.flush hst.place dstSize_pos rfl (by simpa [drainReply] using hok)
    have hnext : Emitting C faults kept base false fed (output ++ (drainReply E .flush st).emitted)
        pending' next := by
      refine ⟨hstream ▸ hplace, ?_, hflags.trans hst.flags_eq, hfaults.trans hst.faults_suffix⟩
      rw [hwritten, hst.written_eq, List.append_assoc]
    rcases hturn with ⟨hret, hturn⟩ | ⟨hret, hturn⟩
    · rw [flushStream, hturn]
      exact ⟨pending', hmore hret, _, hnext⟩
    · rw [flushStream, hturn]
      exact .inr ⟨rfl, _, pending', hnext, hzero hret⟩

/-- The reply of the compressor to a native call of the loop in `write`. -/
def writeReply (E : Encoder σ Setting Byte Byte) (src : List Byte) (srcSize : ℕ) (self : State σ) :
    Reply Byte :=
  (E.encode self.stream .goOn (window src self.srcPos srcSize) dstSize).2

/-- The three ends of a turn of the loop in `write`: a failure, the end of the source, or
a further turn.  The wrapped stream has what was emitted. -/
theorem writeTurn_cases (C : CStreamContract E) (src : List Byte) (srcSize : ℕ) (self : State σ) :
    (∃ ended, writeTurn E src srcSize self = .leave ended ∧ Broken E self.out.faults ended) ∨
    (srcSize ≤ self.srcPos ∧ writeTurn E src srcSize self = .leave ⟨.returned (), self⟩) ∨
    (self.srcPos < srcSize ∧ zstdIsError (writeReply E src srcSize self).ret = false ∧
      ∃ next, next.stream =
          (E.encode self.stream .goOn (window src self.srcPos srcSize) dstSize).1 ∧
        next.out.written = self.out.written ++ (writeReply E src srcSize self).emitted ∧
        next.srcPos = self.srcPos + (writeReply E src srcSize self).consumed ∧
        next.flags = self.flags ∧ next.out.faults <:+ self.out.faults ∧
        writeTurn E src srcSize self = .again next) := by
  have herror := C.isError_encode self.stream .goOn (window src self.srcPos srcSize) dstSize
  have hnative : compressStream E src srcSize self =
      (jint (writeReply E src srcSize self).ret, (compressStream E src srcSize self).2) := rfl
  unfold writeTurn
  by_cases hmore : self.srcPos < srcSize
  · rw [if_pos hmore, hnative]
    cases hok : zstdIsError (writeReply E src srcSize self).ret with
    | true =>
        left
        have herr : isError (jint (writeReply E src srcSize self).ret) = true := herror.trans hok
        simp only [herr, if_true]
        exact ⟨_, rfl,
          .zstd _ (.encode self.stream .goOn (window src self.srcPos srcSize) dstSize) hok
          rfl⟩
    | false =>
        have hnone : isError (jint (writeReply E src srcSize self).ret) = false :=
          herror.trans hok
        simp only [hnone, Bool.false_eq_true, if_false]
        by_cases hempty : 0 < (compressStream E src srcSize self).2.dstPos
        · rw [if_pos hempty]
          rcases writeOut_cases (compressStream E src srcSize self).2 with
            ⟨out, hout, hwritten, hfaults⟩ | ⟨out, hout, hfaults⟩
          · refine .inr (.inr ⟨hmore, trivial,
              { (compressStream E src srcSize self).2 with out := out }, rfl, ?_, rfl,
              rfl, hfaults, ?_⟩)
            · have hwindow := window_emitted self.dst (writeReply E src srcSize self).emitted
              exact hwritten.trans (congrArg _ hwindow)
            · rw [hout]
          · left
            rw [hout]
            exact ⟨_, rfl, .sink [] hfaults rfl⟩
        · rw [if_neg hempty]
          have hnil : (writeReply E src srcSize self).emitted = [] :=
            List.length_eq_zero_iff.mp (Nat.eq_zero_of_not_pos hempty)
          refine .inr (.inr ⟨hmore, trivial, (compressStream E src srcSize self).2, rfl, ?_, rfl,
            rfl, List.suffix_rfl, rfl⟩)
          rw [hnil, List.append_nil]
          rfl
  · rw [if_neg hmore]
    exact .inr (.inl ⟨Nat.le_of_not_lt hmore, rfl⟩)

/-- The loop of `write` feeds the rest of the source to the compressor. -/
theorem Emitting.write_loop (hemit : Emitting C faults kept base false fed output pending self)
    (src : List Byte) (srcSize : ℕ) (hpos : self.srcPos ≤ srcSize) (hsize : srcSize ≤ src.length) :
    ∃ ended, (Broken E faults ended ∨ ended.outcome = .returned () ∧
        ∃ output pending, Emitting C faults kept base false (fed ++ window src self.srcPos srcSize)
          output pending ended.self) ∧
      Yields (fun fuel => iterate (fun st => some (writeTurn E src srcSize st)) fuel self)
        ended := by
  refine iterate_wellFounded (Prod.lex Nat.lt_wfRel Nat.lt_wfRel).wf
    (fun (bound : ℕ × ℕ) st => bound.1 = srcSize - st.srcPos ∧ st.srcPos ≤ srcSize ∧
      ∃ now output, Emitting C faults kept base false now output bound.2 st ∧
        now ++ window src st.srcPos srcSize = fed ++ window src self.srcPos srcSize) ?_
    (srcSize - self.srcPos, pending) ⟨rfl, hpos, fed, output, hemit, rfl⟩
  rintro ⟨bound, pending⟩ st ⟨rfl, hst, now, output, hnow, hfed⟩
  refine ⟨_, rfl, ?_⟩
  rcases writeTurn_cases C src srcSize st with ⟨ended, hturn, hbroken⟩ | ⟨hend, hturn⟩ |
    ⟨hmore, hok, next, hstream, hwritten, hsrcPos, hflags, hfaults, hturn⟩
  · rw [hturn]
    exact .inl (hbroken.of_suffix hnow.faults_suffix)
  · rw [hturn]
    obtain rfl : st.srcPos = srcSize := by omega
    rw [window_self, List.append_nil] at hfed
    exact .inr ⟨rfl, output, pending, hfed ▸ hnow⟩
  · have hlength := length_window st.srcPos hsize
    have hinput : window src st.srcPos srcSize ≠ [] := by
      rw [← List.length_pos_iff, hlength]
      omega
    obtain ⟨hconsumed, -, pending', hplace, hless⟩ :=
      C.contract.goOn hnow.place hinput dstSize_pos rfl (by simpa [writeReply] using hok)
    have hconsumed' : (writeReply E src srcSize st).consumed ≤ srcSize - st.srcPos := by
      rw [← hlength]
      exact hconsumed
    rw [hturn]
    refine ⟨(srcSize - next.srcPos, pending'), ?_, rfl, by omega,
      now ++ (window src st.srcPos srcSize).take (writeReply E src srcSize st).consumed, _,
      ⟨hstream ▸ hplace, ?_, hflags.trans hnow.flags_eq, hfaults.trans hnow.faults_suffix⟩, ?_⟩
    · by_cases hzero : (writeReply E src srcSize st).consumed = 0
      · rw [hsrcPos, hzero]
        exact Prod.Lex.right _ (hless hzero)
      · exact Prod.Lex.left _ _ (show srcSize - next.srcPos < srcSize - st.srcPos by omega)
    · rw [hwritten, hnow.written_eq, List.append_assoc]
      rfl
    · rw [hsrcPos, window_add, List.append_assoc, List.take_append_drop]
      exact hfed

end ZstdJni.OutputStream
