/-
# The compressor after an error, and inside the end of a frame

`ZSTD_compressStream2` must not be called after it has failed, unless the session was reset,
and between an end of the frame that is not complete and its completion only flushes and
ends are allowed.  The compressing streams throw on an error and stay open, and so they do
when the stream they write to throws in the middle of a loop.  A later call goes on in the
frame that is still open: `close` ends it, also after an error, and `write` gives the
compressor more content, also after an end that is not complete.

The compressor is watched.  For every operation the directive of the first call it makes in
the session at hand is said by the object before the operation, and a run keeps the rules
exactly if every such call is allowed.
-/

import ZstdJni.BufferCompress.Model
import ZstdJni.Foundation.Machine
import ZstdJni.Foundation.Watch
import ZstdJni.OutputStream.Model

namespace ZstdJni.Protocol

open ZstdJni.Foundation ZstdJni.Native

variable {σ τ κ : Type}

/-- A native compressor: the results of its streaming calls are of type `size_t`. -/
structure NativeEncoder (σ π : Type) where
  encoder : Encoder σ π Byte Byte
  ret_lt : ∀ s directive input room, (encoder.encode s directive input room).2.ret < 2 ^ 64

/-! ## The output stream -/

section OutputStream

open ZstdJni.OutputStream

/-- The compressor of an output stream with the record of how it was used.  Setting a
parameter does not reset the session. -/
def NativeEncoder.watched (E : NativeEncoder σ Setting) : Encoder (σ × Watch) Setting Byte Byte :=
  E.encoder.watched zstdIsError id

variable {E : NativeEncoder σ Setting} {self : State (σ × Watch)}

theorem writeOut_stream (self : State σ) : (writeOut self).2.stream = self.stream := by
  simp [writeOut]

/-- The narrowing to a `jint` does not hide that a call has failed. -/
theorem NativeEncoder.fine (E : NativeEncoder σ Setting) (s : σ) (directive : Directive)
    (input : List Byte) (room : ℕ)
    (hfine : isError (jint (E.encoder.encode s directive input room).2.ret) = false) :
    zstdIsError (E.encoder.encode s directive input room).2.ret = false := by
  by_contra herror
  rw [Bool.not_eq_false] at herror
  rw [isError_jint_of_zstdIsError (E.ret_lt s directive input room) herror] at hfine
  exact Bool.noConfusion hfine

/-- One turn of a drain loop makes one call. -/
theorem drainTurn_watched (directive : Directive) (self : State (σ × Watch)) :
    (drainTurn (drainStream E.watched directive) self).Meets
      (fun next => ∃ ret, next.stream.2 = self.stream.2.encoded directive ret false)
      (fun ended => self.stream.2.Encodes directive ended.self.stream.2) := by
  have hfine := E.fine self.stream.1 directive [] dstSize
  generalize hcalled : drainStream E.watched directive self = called
  have hstream : called.2.stream.2 = self.stream.2.encoded directive
      (E.encoder.encode self.stream.1 directive [] dstSize).2.ret
      (zstdIsError (E.encoder.encode self.stream.1 directive [] dstSize).2.ret) := by
    rw [← hcalled]
    rfl
  have hsize : called.1 = jint (E.encoder.encode self.stream.1 directive [] dstSize).2.ret := by
    rw [← hcalled]
    rfl
  obtain ⟨size, next⟩ := called
  have hout := writeOut_stream next
  unfold drainTurn
  rw [hcalled]
  simp only at hstream hsize ⊢
  by_cases herror : isError size = true
  · rw [if_pos herror]
    exact ⟨_, _, hstream⟩
  · rw [if_neg herror]
    rcases hwritten : writeOut next with ⟨_ | _, last⟩
    · rw [hwritten] at hout
      simp only at hout ⊢
      split_ifs
      · refine ⟨(E.encoder.encode self.stream.1 directive [] dstSize).2.ret, ?_⟩
        rw [hout, hstream, hfine (by rw [← hsize]; exact Bool.not_eq_true _ ▸ herror)]
      · exact ⟨_, _, hout ▸ hstream⟩
    · rw [hwritten] at hout
      exact ⟨_, _, hout ▸ hstream⟩

/-- A drain loop makes one call or more. -/
theorem drain_watched {directive : Directive} {fuel : ℕ} {ended : Ended (σ × Watch)}
    (hrun : drain (drainStream E.watched directive) fuel self = some ended) :
    self.stream.2.Calls directive ended.self.stream.2 := by
  refine Watch.calls_of_iterate (fun st : State (σ × Watch) => st.stream.2)
    (fun ended : Ended (σ × Watch) => ended.self.stream.2) ?_ ?_ hrun
  · intro t hturn
    obtain rfl := Option.some.inj hturn
    exact (drainTurn_watched directive self).mono (fun _ _ => trivial) fun _ h => h
  · intro st t hturn
    obtain rfl := Option.some.inj hturn
    exact (drainTurn_watched directive st).mono (fun _ h => h) fun _ h => .inr h

/-- One turn of the loop in `write` makes one call while there is something to write. -/
theorem writeTurn_watched (src : List Byte) {srcSize : ℕ} {self : State (σ × Watch)}
    (hmore : self.srcPos < srcSize) :
    (writeTurn E.watched src srcSize self).Meets
      (fun next => ∃ ret, next.stream.2 = self.stream.2.encoded .goOn ret false)
      (fun ended => self.stream.2.Encodes .goOn ended.self.stream.2) := by
  have hfine := E.fine self.stream.1 .goOn (window src self.srcPos srcSize) dstSize
  generalize hcalled : compressStream E.watched src srcSize self = called
  generalize hreply :
    (E.encoder.encode self.stream.1 .goOn (window src self.srcPos srcSize) dstSize).2.ret =
      ret at hfine
  have hstream : called.2.stream.2 = self.stream.2.encoded .goOn ret (zstdIsError ret) := by
    rw [← hcalled, ← hreply]
    rfl
  have hsize : called.1 = jint ret := by
    rw [← hcalled, ← hreply]
    rfl
  obtain ⟨size, next⟩ := called
  have hout := writeOut_stream next
  unfold writeTurn
  rw [if_pos hmore, hcalled]
  simp only at hstream hsize ⊢
  by_cases herror : isError size = true
  · rw [if_pos herror]
    exact ⟨_, _, hstream⟩
  · have hnext : next.stream.2 = self.stream.2.encoded .goOn ret false := by
      rw [hstream, hfine (by rw [← hsize]; exact Bool.not_eq_true _ ▸ herror)]
    rw [if_neg herror]
    split
    · rcases hwritten : writeOut next with ⟨_ | _, last⟩
      · rw [hwritten] at hout
        exact ⟨ret, hout ▸ hnext⟩
      · rw [hwritten] at hout
        exact ⟨ret, false, hout ▸ hnext⟩
    · exact ⟨ret, hnext⟩

/-- The loop in `write` makes calls exactly if there is something to write. -/
theorem writeLoop_watched {src : List Byte} {srcSize fuel : ℕ} {ended : Ended (σ × Watch)}
    (hrun : iterate (fun st => some (writeTurn E.watched src srcSize st)) fuel self = some ended) :
    self.stream.2.Effect (if self.srcPos < srcSize then some .goOn else none)
      ended.self.stream.2 := by
  by_cases hmore : self.srcPos < srcSize
  · rw [if_pos hmore]
    refine Watch.calls_of_iterate (fun st : State (σ × Watch) => st.stream.2)
      (fun ended : Ended (σ × Watch) => ended.self.stream.2) ?_ ?_ hrun
    · intro t hturn
      obtain rfl := Option.some.inj hturn
      exact (writeTurn_watched src hmore).mono (fun _ _ => trivial) fun _ h => h
    · intro st t hturn
      obtain rfl := Option.some.inj hturn
      by_cases hgo : st.srcPos < srcSize
      · exact (writeTurn_watched src hgo).mono (fun _ h => h) fun _ h => .inr h
      · rw [writeTurn, if_neg hgo]
        exact .inl rfl
  · rw [if_neg hmore]
    refine iterate_sound (fun st => st = self)
      (fun ended => ended.self.stream.2.misused = self.stream.2.misused) ?_ rfl hrun
    rintro st t rfl hturn
    obtain rfl := Option.some.inj hturn
    rw [writeTurn, if_neg hmore]
    exact rfl

/-! ### Runs of an output stream -/

/-- The operations on an output stream.  Setting a dictionary changes the native stream in any
way that is not a reset. -/
inductive OutputOp (σ : Type)
  | op (op : Op) (fuel : ℕ)
  | setDict (effect : σ → σ)
  | close (closeParentStream : Bool) (fuel : ℕ)

/-- One operation.  A setter inside a frame or on a closed stream throws; a call that does not
end takes no step. -/
def outputStep (E : NativeEncoder σ Setting) (st : State (σ × Watch)) :
    OutputOp σ → Option (Unit × State (σ × Watch))
  | .op op fuel => (op.run E.watched fuel st).map fun ended => ((), ended.self)
  | .setDict effect =>
    some ((), if st.isClosed || !st.frameClosed then st
      else { st with stream := (effect st.stream.1, st.stream.2) })
  | .close closeParentStream fuel =>
    (OutputStream.close E.watched fuel closeParentStream st).map fun ended => ((), ended.self)

/-- An output stream over a watched compressor. -/
def outputMachine (E : NativeEncoder σ Setting) :
    Machine (State (σ × Watch)) (OutputOp σ) Unit where
  step := outputStep E

/-- The first streaming call of a `write` that is inside its array. -/
def writeDirective (src : List Byte) (offset len : ℤ) (st : State σ) : Option Directive :=
  if offset < 0 ∨ len < 0 ∨ src.length - offset < len ∨ len = 0 ∨ st.isClosed ∨ st.frameClosed then
    none
  else some .goOn

/-- The directive of the first streaming call that an operation makes in the session at hand.
A call after a reset of its own does not count. -/
def OutputOp.directive (st : State σ) : OutputOp τ → Option Directive
  | .op (.write src offset len) _ => writeDirective src offset len st
  | .op (.writeByte i) _ => writeDirective [UInt8.ofNat (i % 256).toNat] 0 1 st
  | .op .flush _ =>
    if st.isClosed ∨ st.frameClosed then none
    else if st.closeFrameOnFlush then some .finish else some .flush
  | .close _ _ =>
    if st.isClosed ∨ st.frameClosed ∨ !st.frameStarted then none else some .finish
  | _ => none

/-- Every streaming call of the operation is allowed. -/
def OutputOp.Respects (st : State (σ × Watch)) (op : OutputOp σ) : Prop :=
  ∀ directive ∈ op.directive st, st.stream.2.Allows directive

theorem effect_of_stream {w : Watch} {next : Watch} (hsame : next = w) : w.Effect none next :=
  congrArg Watch.misused hsame

/-- The calls that follow on a reset are allowed. -/
theorem effect_of_reset {w next : Watch} {directive : Option Directive}
    (heffect : w.reset.Effect directive next) : w.Effect none next := by
  obtain ⟨hkeeps, hiff⟩ := heffect.misused
  change next.misused = w.misused
  cases hw : w.misused with
  | false => exact (hiff hw).mpr fun d _ => w.allows_reset d
  | true => exact hkeeps hw

/-- `write` begins with a reset if no frame is open. -/
theorem beginFrame_stream (self : State (σ × Watch)) :
    (beginFrame E.watched self).self.stream.2 =
      if self.frameClosed then self.stream.2.reset else self.stream.2 := by
  unfold beginFrame
  split
  · simp only
    split <;> rfl
  · rfl

theorem write_effect {src : List Byte} {offset len : ℤ} {fuel : ℕ} {ended : Ended (σ × Watch)}
    (hrun : write E.watched fuel src offset len self = some ended) :
    self.stream.2.Effect (writeDirective src offset len self) ended.self.stream.2 := by
  unfold write at hrun
  unfold writeDirective
  by_cases hbounds : offset < 0 ∨ len < 0 ∨ src.length - offset < len
  · rw [if_pos hbounds] at hrun
    rw [if_pos (by tauto), ← Option.some.inj hrun]
    exact effect_of_stream rfl
  rw [if_neg hbounds] at hrun
  by_cases hclosed : self.isClosed = true
  · rw [if_pos hclosed] at hrun
    rw [if_pos (by tauto), ← Option.some.inj hrun]
    exact effect_of_stream rfl
  rw [if_neg hclosed] at hrun
  by_cases hframe : self.frameClosed = true
  · have hstream := beginFrame_stream (E := E) self
    rw [if_pos hframe] at hstream
    rw [if_pos (by tauto)]
    generalize beginFrame E.watched self = begun at hrun hstream
    obtain ⟨outcome, next⟩ := begun
    simp only at hstream
    cases outcome with
    | returned _ =>
        have heffect := writeLoop_watched hrun
        rw [hstream] at heffect
        exact effect_of_reset heffect
    | threw e =>
        rw [← Option.some.inj hrun]
        have heffect : self.stream.2.reset.Effect none next.stream.2 := effect_of_stream hstream
        exact effect_of_reset heffect
  · have hbegun : beginFrame E.watched self = ⟨.returned (), self⟩ := if_neg hframe
    rw [hbegun] at hrun
    have heffect := writeLoop_watched hrun
    have hpositive : offset.toNat < (offset + len).toNat ↔ len ≠ 0 := by omega
    simp only [hpositive] at heffect
    by_cases hlen : len = 0
    · rw [if_pos (by tauto)]
      simpa [hlen] using heffect
    · rw [if_neg (by tauto)]
      simpa [hlen] using heffect

/-- What `flush` and `close` do behind their drain loops does not reach the compressor. -/
theorem andThen_stream {ended last : Ended σ} {rest : State σ → Option (Ended σ)}
    (hrest : ∀ st last, rest st = some last → last.self.stream = st.stream)
    (hrun : ended.andThen rest = some last) : last.self.stream = ended.self.stream := by
  obtain ⟨outcome, next⟩ := ended
  cases outcome with
  | returned _ => exact hrest next last hrun
  | threw e => rw [← Option.some.inj hrun]

theorem flush_effect {fuel : ℕ} {ended : Ended (σ × Watch)}
    (hrun : flush E.watched fuel self = some ended) :
    self.stream.2.Effect ((OutputOp.op .flush fuel : OutputOp σ).directive self)
      ended.self.stream.2 := by
  unfold flush at hrun
  unfold OutputOp.directive
  by_cases hidle : self.isClosed = true ∨ self.frameClosed = true
  · simp only [if_pos hidle]
    by_cases hclosed : self.isClosed = true
    · rw [if_pos hclosed] at hrun
      rw [← Option.some.inj hrun]
      exact effect_of_stream rfl
    · rw [if_neg hclosed, if_pos (hidle.resolve_left hclosed)] at hrun
      rw [← Option.some.inj hrun]
      exact effect_of_stream rfl
  · simp only [if_neg hidle]
    rw [not_or] at hidle
    rw [if_neg hidle.1, if_neg hidle.2] at hrun
    split_ifs at hrun ⊢ with hend
    · obtain ⟨drained, hdrained, hlast⟩ := Option.bind_eq_some_iff.mp hrun
      have hstream := andThen_stream (fun st last h => by rw [← Option.some.inj h]; rfl) hlast
      rw [hstream]
      exact drain_watched hdrained
    · obtain ⟨drained, hdrained, hlast⟩ := Option.bind_eq_some_iff.mp hrun
      have hstream := andThen_stream (fun st last h => by rw [← Option.some.inj h]; rfl) hlast
      rw [hstream]
      exact drain_watched hdrained

theorem closeParent_stream (closeParentStream : Bool) (self : State σ) :
    (closeParent closeParentStream self).self.stream = self.stream := by
  unfold closeParent
  split <;> rfl

/-- The drain loop of `close` and what follows on it. -/
theorem closeDrain_effect {closeParentStream : Bool} {fuel : ℕ} {ended : Ended (σ × Watch)}
    (hrun : ((drain (endStream E.watched) fuel self).bind fun ended =>
      ended.andThen fun self => some (closeParent closeParentStream self)) = some ended) :
    self.stream.2.Effect (some .finish) ended.self.stream.2 := by
  obtain ⟨drained, hdrained, hlast⟩ := Option.bind_eq_some_iff.mp hrun
  have hstream := andThen_stream
    (fun st last h => by rw [← Option.some.inj h]; exact closeParent_stream _ _) hlast
  rw [hstream]
  exact drain_watched hdrained

theorem closeBody_effect {closeParentStream : Bool} {fuel : ℕ} {ended : Ended (σ × Watch)}
    (hrun : closeBody E.watched fuel closeParentStream self = some ended) :
    self.stream.2.Effect (if self.frameClosed ∨ !self.frameStarted then none else some .finish)
      ended.self.stream.2 := by
  unfold closeBody at hrun
  by_cases hstarted : self.frameStarted = true
  · have hbegun : beginEmptyFrame E.watched self = ⟨.returned (), self⟩ := if_pos hstarted
    rw [hbegun, Ended.andThen] at hrun
    simp only [hstarted, Bool.not_true, Bool.false_eq_true, or_false]
    split_ifs at hrun ⊢ with hframe
    · rw [← Option.some.inj hrun]
      exact effect_of_stream (by rw [closeParent_stream])
    · exact closeDrain_effect hrun
  · rw [if_pos (.inr (by simp [hstarted]))]
    have hstream : (beginEmptyFrame E.watched self).self.stream.2 = self.stream.2.reset := by
      rw [beginEmptyFrame, if_neg hstarted]
      simp only
      split <;> rfl
    generalize beginEmptyFrame E.watched self = begun at hrun hstream
    obtain ⟨outcome, next⟩ := begun
    simp only at hstream
    cases outcome with
    | returned _ =>
        simp only [Ended.andThen] at hrun
        split_ifs at hrun
        · rw [← Option.some.inj hrun]
          have heffect : self.stream.2.reset.Effect none
              (closeParent closeParentStream next).self.stream.2 :=
            effect_of_stream (by rw [closeParent_stream, hstream])
          exact effect_of_reset heffect
        · have heffect := closeDrain_effect hrun
          rw [hstream] at heffect
          exact effect_of_reset heffect
    | threw e =>
        rw [← Option.some.inj hrun]
        have heffect : self.stream.2.reset.Effect none next.stream.2 := effect_of_stream hstream
        exact effect_of_reset heffect

theorem close_effect {closeParentStream : Bool} {fuel : ℕ} {ended : Ended (σ × Watch)}
    (hrun : OutputStream.close E.watched fuel closeParentStream self = some ended) :
    self.stream.2.Effect ((OutputOp.close closeParentStream fuel : OutputOp σ).directive self)
      ended.self.stream.2 := by
  unfold OutputStream.close at hrun
  unfold OutputOp.directive
  by_cases hclosed : self.isClosed = true
  · rw [if_pos hclosed] at hrun
    simp only [hclosed, true_or, if_true]
    rw [← Option.some.inj hrun]
    exact effect_of_stream rfl
  · rw [if_neg hclosed] at hrun
    obtain ⟨body, hbody, rfl⟩ := Option.map_eq_some_iff.mp hrun
    simp only [hclosed, Bool.false_eq_true, false_or]
    exact closeBody_effect hbody

/-- What every operation does to the record. -/
theorem outputStep_effect {st next : State (σ × Watch)} {op : OutputOp σ}
    (hstep : outputStep E st op = some ((), next)) :
    st.stream.2.Effect (op.directive st) next.stream.2 := by
  cases op with
  | op op fuel =>
      obtain ⟨ended, hrun, hnext⟩ := Option.map_eq_some_iff.mp hstep
      obtain rfl : ended.self = next := congrArg Prod.snd hnext
      cases op with
      | write src offset len => exact write_effect hrun
      | writeByte i => exact write_effect hrun
      | flush => exact flush_effect hrun
      | setCloseFrameOnFlush closeOnFlush =>
          rw [← Option.some.inj hrun]
          refine effect_of_stream ?_
          unfold setCloseFrameOnFlush
          split <;> rfl
      | set setting =>
          rw [← Option.some.inj hrun, setterOf_eq]
          refine effect_of_stream ?_
          unfold parameterSetter
          split
          · rfl
          · split
            · rfl
            · simp only
              split <;> rfl
  | setDict effect =>
      obtain rfl := congrArg Prod.snd (Option.some.inj hstep)
      refine effect_of_stream ?_
      simp only
      split <;> rfl
  | close closeParentStream fuel =>
      obtain ⟨ended, hrun, hnext⟩ := Option.map_eq_some_iff.mp hstep
      obtain rfl : ended.self = next := congrArg Prod.snd hnext
      exact close_effect hrun

end OutputStream

/-! ## The stream that compresses into buffers -/

section BufferCompress

open ZstdJni.BufferCompress
open ZstdJni.BufferDecompress (Buffer)

/-- The compressor of a buffer stream with the record of how it was used.  Its settings are
the functions that begin a session, and these reset it. -/
def NativeEncoder.watchedSession (E : NativeEncoder σ (Init κ)) :
    Encoder (σ × Watch) (Init κ) Byte Byte :=
  E.encoder.watched zstdIsError Watch.reset

variable {E : NativeEncoder σ (Init κ)} {flushBuffer : FlushBuffer}
  {self : State (σ × Watch) κ} {target source : Buffer}

/-- The record after a native function: it makes a streaming call, unless it refuses a target
that is not direct. -/
theorem drainStream_watched (directive : Directive) (stream : σ × Watch) (target : Buffer)
    {encoded : Encoded (σ × Watch)}
    (hencoded : drainStream E.watchedSession stream target directive target.position
      (target.limit - target.position) = encoded) :
    (target.kind = .direct → ∃ ret, encoded.stream.2 = stream.2.encoded directive ret
      (isError encoded.result)) ∧
    (target.kind ≠ .direct → encoded.stream = stream ∧ isError encoded.result = true) := by
  have hlimit := target.limit_le
  have hposition := target.position_le
  constructor
  · intro hdirect
    have hcapacity : target.directCapacity = target.capacity := if_pos hdirect
    rw [drainStream, if_neg (by omega)] at hencoded
    refine ⟨(E.encoder.encode stream.1 directive []
      ((target.limit : ℤ) - target.position).toNat).2.ret, ?_⟩
    rw [← hencoded]
    simp only [callEncode, NativeEncoder.watchedSession, Encoder.watched]
    rw [isError_jlong (E.ret_lt _ _ _ _)]
  · intro hdirect
    have hcapacity : target.directCapacity = -1 := if_neg hdirect
    rw [drainStream, if_pos (by omega)] at hencoded
    rw [← hencoded]
    exact ⟨rfl, show isError (jlong ErrorCode.dstSizeTooSmall.result) = true by decide⟩

/-- `compressDirectByteBuffer`, likewise. -/
theorem compressDirectByteBuffer_watched (stream : σ × Watch) (target source : Buffer)
    {encoded : Encoded (σ × Watch)}
    (hencoded : compressDirectByteBuffer E.watchedSession stream target target.position
      (target.limit - target.position) source source.position (source.limit - source.position) =
      encoded) :
    (target.kind = .direct ∧ source.kind = .direct → ∃ ret,
      encoded.stream.2 = stream.2.encoded .goOn ret (isError encoded.result)) ∧
    (¬ (target.kind = .direct ∧ source.kind = .direct) →
      encoded.stream = stream ∧ isError encoded.result = true) := by
  have hlimit := target.limit_le
  have hposition := target.position_le
  have hsourceLimit := source.limit_le
  constructor
  · rintro ⟨hdirect, hsource⟩
    have hcapacity : target.directCapacity = target.capacity := if_pos hdirect
    have hsourceCapacity : source.directCapacity = source.capacity := if_pos hsource
    rw [compressDirectByteBuffer, if_neg (by omega), if_neg (by omega)] at hencoded
    refine ⟨(E.encoder.encode stream.1 .goOn
      (window source.storage ((source.arrayOffset : ℤ) + source.position).toNat
        ((source.arrayOffset : ℤ) + source.position + (source.limit - source.position)).toNat)
      ((target.limit : ℤ) - target.position).toNat).2.ret, ?_⟩
    rw [← hencoded]
    simp only [callEncode, NativeEncoder.watchedSession, Encoder.watched]
    rw [isError_jlong (E.ret_lt _ _ _ _)]
  · intro hkinds
    rw [compressDirectByteBuffer] at hencoded
    by_cases htarget : (target.position : ℤ) +
      (target.limit - target.position) > target.directCapacity
    · rw [if_pos htarget] at hencoded
      rw [← hencoded]
      exact ⟨rfl, show isError (jlong ErrorCode.dstSizeTooSmall.result) = true by decide⟩
    · have hdirect : target.kind = .direct := by
        by_contra hdirect
        have hcapacity : target.directCapacity = -1 := if_neg hdirect
        omega
      have hcapacity : source.directCapacity = -1 := if_neg fun hsource => hkinds ⟨hdirect, hsource⟩
      rw [if_neg htarget, if_pos (by omega)] at hencoded
      rw [← hencoded]
      exact ⟨rfl, show isError (jlong ErrorCode.srcSizeWrong.result) = true by decide⟩

theorem flushTarget_stream (flushBuffer : FlushBuffer) (target : Buffer) (self : State σ κ) :
    (flushTarget flushBuffer target self).2.stream = self.stream := by
  unfold flushTarget
  simp only
  split
  · rfl
  · split <;> rfl

/-- What a turn of a loop does to the record: it goes round again only after a call that did
not fail. -/
def TurnCalls {α ρ : Type} (watch : α → Watch) (last : ρ → Watch) (w : Watch)
    (directive : Directive) (t : Turn α ρ) : Prop :=
  t.Meets (fun next => ∃ ret, watch next = w.encoded directive ret false)
    fun result => w.Encodes directive (last result)

/-- One turn of a drain loop makes one call if the target is direct, and leaves without one
otherwise. -/
theorem bufferDrainTurn_watched (directive : Directive) (self : State (σ × Watch) κ) :
    ((∃ target, self.target = some target ∧ target.kind = .direct) →
      TurnCalls (fun next : State (σ × Watch) κ => next.stream.2)
        (fun ended : Ended (σ × Watch) κ => ended.self.stream.2) self.stream.2 directive
        (drainTurn flushBuffer (fun stream target offset size =>
          drainStream E.watchedSession stream target directive offset size) self)) ∧
    ((¬ ∃ target, self.target = some target ∧ target.kind = .direct) →
      ∃ ended, drainTurn flushBuffer (fun stream target offset size =>
          drainStream E.watchedSession stream target directive offset size) self = .leave ended ∧
        ended.self.stream = self.stream) := by
  cases htarget : self.target with
  | none =>
      refine ⟨fun ⟨_, h, _⟩ => (nomatch h), fun _ => ?_⟩
      rw [drainTurn, htarget]
      exact ⟨_, rfl, rfl⟩
  | some target =>
      generalize hencoded : drainStream E.watchedSession self.stream target
        directive target.position
        (target.limit - target.position) = encoded
      obtain ⟨hcalled, hrefused⟩ := drainStream_watched directive self.stream target hencoded
      constructor
      · rintro ⟨target', hsome, hdirect⟩
        obtain rfl := Option.some.inj hsome
        obtain ⟨ret, hstream⟩ := hcalled hdirect
        rw [drainTurn, htarget]
        simp only [hencoded]
        by_cases herror : isError encoded.result = true
        · rw [if_pos herror]
          exact ⟨ret, _, hstream⟩
        · rw [Bool.not_eq_true] at herror
          rw [herror] at hstream
          rw [if_neg (by simp [herror])]
          cases encoded.target.setPosition (encoded.target.position + encoded.produced) with
          | error e => exact ⟨ret, false, hstream⟩
          | ok moved =>
              have hflushed := flushTarget_stream flushBuffer moved
                { self with stream := encoded.stream, target := some moved }
              simp only
              rcases hresult : flushTarget flushBuffer moved
                { self with stream := encoded.stream, target := some moved } with ⟨_ | _, next⟩
              · rw [hresult] at hflushed
                have hnext := (congrArg Prod.snd hflushed).trans hstream
                simp only
                split
                · split
                  · exact ⟨ret, false, hnext⟩
                  · exact ⟨ret, hnext⟩
                · exact ⟨ret, false, hnext⟩
              · rw [hresult] at hflushed
                exact ⟨ret, false, (congrArg Prod.snd hflushed).trans hstream⟩
      · intro hnone
        have hdirect : target.kind ≠ .direct := fun h => hnone ⟨target, rfl, h⟩
        obtain ⟨hstream, herror⟩ := hrefused hdirect
        rw [drainTurn, htarget]
        simp only [hencoded]
        rw [if_pos herror]
        exact ⟨_, rfl, hstream⟩

/-- The directive of the first streaming call of a drain loop. -/
def drainDirective (directive : Directive) (self : State σ κ) : Option Directive :=
  match self.target with
  | none => none
  | some target => if target.kind = .direct then some directive else none

theorem bufferDrain_effect {directive : Directive} {fuel : ℕ} {ended : Ended (σ × Watch) κ}
    (hrun : iterate (fun self => some (drainTurn flushBuffer (fun stream target offset size =>
      drainStream E.watchedSession stream target directive offset size) self)) fuel self =
        some ended) :
    self.stream.2.Effect (drainDirective directive self) ended.self.stream.2 := by
  by_cases hdirect : ∃ target, self.target = some target ∧ target.kind = .direct
  · have hsome : drainDirective directive self = some directive := by
      obtain ⟨target, htarget, hkind⟩ := hdirect
      simp [drainDirective, htarget, hkind]
    rw [hsome]
    refine Watch.calls_of_iterate (fun st : State (σ × Watch) κ => st.stream.2)
      (fun ended : Ended (σ × Watch) κ => ended.self.stream.2) ?_ ?_ hrun
    · intro t hturn
      obtain rfl := Option.some.inj hturn
      exact ((bufferDrainTurn_watched directive self).1 hdirect).mono
        (fun _ _ => trivial) fun _ h => h
    · intro st t hturn
      obtain rfl := Option.some.inj hturn
      by_cases hst : ∃ target, st.target = some target ∧ target.kind = .direct
      · exact ((bufferDrainTurn_watched directive st).1 hst).mono (fun _ h => h) fun _ h => .inr h
      · obtain ⟨left, hleave, hstream⟩ := (bufferDrainTurn_watched directive st).2 hst
        rw [hleave]
        exact .inl (congrArg Prod.snd hstream)
  · have hnone : drainDirective directive self = none := by
      unfold drainDirective
      cases htarget : self.target with
      | none => rfl
      | some target => exact if_neg fun hkind => hdirect ⟨target, htarget, hkind⟩
    rw [hnone]
    refine effect_of_stream (congrArg Prod.snd (?_ : ended.self.stream = self.stream))
    refine iterate_sound (fun st => st = self) (fun ended => ended.self.stream = self.stream) ?_ rfl
      hrun
    rintro st t rfl hturn
    obtain rfl := Option.some.inj hturn
    obtain ⟨left, hleave, hstream⟩ := (bufferDrainTurn_watched directive st).2 hdirect
    rw [hleave]
    exact hstream

/-- The part of a turn of `compress` from the native call on makes one call if both buffers
are direct, and leaves without one otherwise. -/
theorem compressInto_watched (target : Buffer) (self : State (σ × Watch) κ) (source : Buffer) :
    (target.kind = .direct ∧ source.kind = .direct →
      TurnCalls (fun next : State (σ × Watch) κ × Buffer => next.1.stream.2)
        (fun ended : Compressed (σ × Watch) κ => ended.self.stream.2) self.stream.2 .goOn
        (compressInto E.watchedSession target self source)) ∧
    (¬ (target.kind = .direct ∧ source.kind = .direct) →
      ∃ ended, compressInto E.watchedSession target self source = .leave ended ∧
        ended.self.stream = self.stream) := by
  generalize hencoded :
    compressDirectByteBuffer E.watchedSession self.stream target target.position
      (target.limit - target.position) source source.position
      (source.limit - source.position) = encoded
  obtain ⟨hcalled, hrefused⟩ :=
    compressDirectByteBuffer_watched self.stream target source hencoded
  constructor
  · intro hdirect
    obtain ⟨ret, hstream⟩ := hcalled hdirect
    rw [compressInto]
    simp only [hencoded]
    by_cases herror : isError encoded.result = true
    · rw [if_pos herror]
      exact ⟨ret, _, hstream⟩
    · rw [Bool.not_eq_true] at herror
      rw [herror] at hstream
      rw [if_neg (by simp [herror])]
      cases encoded.target.setPosition (encoded.target.position + encoded.produced) with
      | error e => exact ⟨ret, false, hstream⟩
      | ok moved =>
          simp only
          cases source.setPosition (source.position + encoded.consumed) with
          | error e => exact ⟨ret, false, hstream⟩
          | ok rest => exact ⟨ret, hstream⟩
  · intro hdirect
    obtain ⟨hstream, herror⟩ := hrefused hdirect
    rw [compressInto]
    simp only [hencoded]
    rw [if_pos herror]
    exact ⟨_, rfl, hstream⟩

/-- The turn of `compress` gets as far as the compressor: the target is direct and has room,
or `flushBuffer` returns one that is and has. -/
def reachesTarget (flushBuffer : FlushBuffer) (self : State σ κ) : Bool :=
  match self.target with
  | none => false
  | some target =>
    if target.hasRemaining then decide (target.kind = .direct)
    else
      match flushBuffer self.handed.length target with
      | .threw _ => false
      | .returned next => decide (next.kind = .direct) && next.hasRemaining

/-- The first streaming call of the loop in `compress`. -/
def compressDirective (flushBuffer : FlushBuffer) (self : State σ κ) (source : Buffer) :
    Option Directive :=
  if source.hasRemaining ∧ reachesTarget flushBuffer self ∧ source.kind = .direct then some .goOn
  else none

/-- One turn of the loop in `compress`. -/
theorem compressTurn_watched (flushBuffer : FlushBuffer) (self : State (σ × Watch) κ)
    (source : Buffer) :
    (source.hasRemaining ∧ reachesTarget flushBuffer self ∧ source.kind = .direct →
      TurnCalls (fun next : State (σ × Watch) κ × Buffer => next.1.stream.2)
        (fun ended : Compressed (σ × Watch) κ => ended.self.stream.2) self.stream.2 .goOn
        (compressTurn E.watchedSession flushBuffer (self, source))) ∧
    (¬ (source.hasRemaining ∧ reachesTarget flushBuffer self ∧ source.kind = .direct) →
      ∃ ended, compressTurn E.watchedSession flushBuffer (self, source) = .leave ended ∧
        ended.self.stream = self.stream) := by
  rw [compressTurn]
  cases hmore : source.hasRemaining with
  | false => exact ⟨fun h => (by cases h.1), fun _ => ⟨_, rfl, rfl⟩⟩
  | true =>
      simp only [if_true, true_and, reachesTarget]
      cases htarget : self.target with
      | none => exact ⟨fun h => (by cases h.1), fun _ => ⟨_, rfl, rfl⟩⟩
      | some target =>
          simp only
          cases hroom : target.hasRemaining with
          | true =>
              simp only [not_true_eq_false, if_false, if_true, decide_eq_true_iff]
              exact compressInto_watched target self source
          | false =>
              simp only [Bool.false_eq_true, not_false_eq_true, if_true, if_false, flushTarget]
              cases hflush : flushBuffer self.handed.length target with
              | threw e => exact ⟨fun h => (by cases h.1), fun _ => ⟨_, rfl, rfl⟩⟩
              | returned next =>
                  simp only
                  by_cases hkind : next.kind = .direct
                  · simp only [hkind, ne_eq, not_true_eq_false, if_false,
                      decide_true, Bool.true_and]
                    cases hspace : next.hasRemaining with
                    | false => exact ⟨fun h => (by cases h.1), fun _ => ⟨_, rfl, rfl⟩⟩
                    | true =>
                        simp only [not_true_eq_false, if_false, true_and]
                        obtain ⟨hcalls, hleaves⟩ := compressInto_watched (E := E) next
                          { self with
                            target := some next, start := next.position
                            handed := self.handed ++ [⟨self.start, target⟩] } source
                        exact ⟨fun h => hcalls ⟨hkind, h⟩, fun h => hleaves fun hboth => h hboth.2⟩
                  · simp only [hkind, ne_eq, not_false_eq_true, if_true,
                      decide_false, Bool.false_and]
                    exact ⟨fun h => (by cases h.1), fun _ => ⟨_, rfl, rfl⟩⟩

theorem compressLoop_effect {fuel : ℕ} {ended : Compressed (σ × Watch) κ}
    (hrun : iterate (fun loop => some (compressTurn E.watchedSession flushBuffer loop)) fuel
      (self, source) = some ended) :
    self.stream.2.Effect (compressDirective flushBuffer self source) ended.self.stream.2 := by
  by_cases hreaches : source.hasRemaining ∧ reachesTarget flushBuffer self ∧ source.kind = .direct
  · rw [compressDirective, if_pos hreaches]
    refine Watch.calls_of_iterate (fun loop : State (σ × Watch) κ × Buffer => loop.1.stream.2)
      (fun ended : Compressed (σ × Watch) κ => ended.self.stream.2) ?_ ?_ hrun
    · intro t hturn
      obtain rfl := Option.some.inj hturn
      exact ((compressTurn_watched flushBuffer self source).1 hreaches).mono
        (fun _ _ => trivial) fun _ h => h
    · rintro ⟨st, rest⟩ t hturn
      obtain rfl := Option.some.inj hturn
      by_cases hst : rest.hasRemaining ∧ reachesTarget flushBuffer st ∧ rest.kind = .direct
      · exact ((compressTurn_watched flushBuffer st rest).1 hst).mono (fun _ h => h) fun _ h =>
          .inr h
      · obtain ⟨left, hleave, hstream⟩ :=
          (compressTurn_watched (E := E) flushBuffer st rest).2 hst
        rw [hleave]
        exact .inl (congrArg Prod.snd hstream)
  · rw [compressDirective, if_neg hreaches]
    refine effect_of_stream (congrArg Prod.snd (?_ : ended.self.stream = self.stream))
    refine iterate_sound (fun loop => loop = (self, source))
      (fun ended => ended.self.stream = self.stream) ?_ rfl hrun
    rintro loop t rfl hturn
    obtain rfl := Option.some.inj hturn
    obtain ⟨left, hleave, hstream⟩ :=
      (compressTurn_watched (E := E) flushBuffer self source).2 hreaches
    rw [hleave]
    exact hstream

/-! ### Runs of a buffer stream -/

/-- The operations on a stream that compresses into buffers. -/
inductive CompressOp (κ : Type)
  | compress (source : Buffer) (fuel : ℕ)
  | flush (fuel : ℕ)
  | setDictBytes (dict : List Byte)
  | setDictFast (dict : κ)
  | close (fuel : ℕ)

/-- One operation; a call that does not end takes no step. -/
def compressStep (E : NativeEncoder σ (Init κ)) (flushBuffer : FlushBuffer)
    (st : State (σ × Watch) κ) : CompressOp κ → Option (Unit × State (σ × Watch) κ)
  | .compress source fuel =>
    (BufferCompress.compress E.watchedSession flushBuffer fuel source st).map fun ended =>
      ((), ended.self)
  | .flush fuel =>
    (BufferCompress.flush E.watchedSession flushBuffer fuel st).map fun ended => ((), ended.self)
  | .setDictBytes dict => some ((), (BufferCompress.setDictBytes dict st).self)
  | .setDictFast dict => some ((), (BufferCompress.setDictFast dict st).self)
  | .close fuel =>
    (BufferCompress.close E.watchedSession flushBuffer fuel st).map fun ended => ((), ended.self)

/-- A buffer stream over a watched compressor. -/
def compressMachine (E : NativeEncoder σ (Init κ)) (flushBuffer : FlushBuffer) :
    Machine (State (σ × Watch) κ) (CompressOp κ) Unit where
  step := compressStep E flushBuffer

/-- The directive of the first streaming call that an operation makes in the session at
hand. -/
def CompressOp.directive (flushBuffer : FlushBuffer) (st : State σ κ) :
    CompressOp κ → Option Directive
  | .compress source _ =>
    if st.closed ∨ !st.initialized then none else compressDirective flushBuffer st source
  | .flush _ => if st.closed ∨ !st.initialized then none else drainDirective .flush st
  | .close _ => if st.closed ∨ !st.initialized then none else drainDirective .finish st
  | _ => none

/-- Every streaming call of the operation is allowed. -/
def CompressOp.Respects (flushBuffer : FlushBuffer) (st : State (σ × Watch) κ)
    (op : CompressOp κ) : Prop :=
  ∀ directive ∈ op.directive flushBuffer st, st.stream.2.Allows directive

theorem compress_effect {fuel : ℕ} {ended : Compressed (σ × Watch) κ}
    (hrun : compress E.watchedSession flushBuffer fuel source self = some ended) :
    self.stream.2.Effect
      ((CompressOp.compress source fuel : CompressOp κ).directive flushBuffer self)
      ended.self.stream.2 := by
  unfold compress at hrun
  simp only [CompressOp.directive]
  by_cases hkind : source.kind ≠ .direct
  · have hnone : compressDirective flushBuffer self source = none :=
      if_neg fun h => hkind h.2.2
    rw [if_pos hkind] at hrun
    rw [hnone, ite_self, ← Option.some.inj hrun]
    exact effect_of_stream rfl
  rw [if_neg hkind] at hrun
  by_cases hclosed : self.closed = true
  · rw [if_pos hclosed] at hrun
    rw [if_pos (.inl hclosed), ← Option.some.inj hrun]
    exact effect_of_stream rfl
  rw [if_neg hclosed] at hrun
  by_cases hinitialized : self.initialized = true
  · rw [if_pos hinitialized] at hrun
    rw [if_neg (by simp [hclosed, hinitialized])]
    exact compressLoop_effect hrun
  · rw [if_neg hinitialized] at hrun
    rw [if_pos (.inr (by simp [hinitialized]))]
    simp only at hrun
    split at hrun
    · have heffect : self.stream.2.reset.Effect none ended.self.stream.2 := by
        rw [← Option.some.inj hrun]
        exact effect_of_stream rfl
      exact effect_of_reset heffect
    · have heffect := compressLoop_effect hrun
      exact effect_of_reset heffect

/-- What every operation does to the record. -/
theorem compressStep_effect {st next : State (σ × Watch) κ} {op : CompressOp κ}
    (hstep : compressStep E flushBuffer st op = some ((), next)) :
    st.stream.2.Effect (op.directive flushBuffer st) next.stream.2 := by
  cases op with
  | compress source fuel =>
      obtain ⟨ended, hrun, hnext⟩ := Option.map_eq_some_iff.mp hstep
      obtain rfl : ended.self = next := congrArg Prod.snd hnext
      exact compress_effect hrun
  | flush fuel =>
      obtain ⟨ended, hrun, hnext⟩ := Option.map_eq_some_iff.mp hstep
      obtain rfl : ended.self = next := congrArg Prod.snd hnext
      unfold flush at hrun
      simp only [CompressOp.directive]
      by_cases hclosed : st.closed = true
      · rw [if_pos hclosed] at hrun
        rw [if_pos (.inl hclosed), ← Option.some.inj hrun]
        exact effect_of_stream rfl
      rw [if_neg hclosed] at hrun
      by_cases hinitialized : st.initialized = true
      · rw [if_pos hinitialized] at hrun
        rw [if_neg (by simp [hclosed, hinitialized])]
        exact bufferDrain_effect hrun
      · rw [if_neg hinitialized] at hrun
        rw [if_pos (.inr (by simp [hinitialized])), ← Option.some.inj hrun]
        exact effect_of_stream rfl
  | setDictBytes dict =>
      obtain rfl := congrArg Prod.snd (Option.some.inj hstep)
      refine effect_of_stream ?_
      simp only [setDictBytes]
      split <;> rfl
  | setDictFast dict =>
      obtain rfl := congrArg Prod.snd (Option.some.inj hstep)
      refine effect_of_stream ?_
      simp only [setDictFast]
      split <;> rfl
  | close fuel =>
      obtain ⟨ended, hrun, hnext⟩ := Option.map_eq_some_iff.mp hstep
      obtain rfl : ended.self = next := congrArg Prod.snd hnext
      unfold BufferCompress.close at hrun
      simp only [CompressOp.directive]
      by_cases hclosed : st.closed = true
      · rw [if_pos hclosed] at hrun
        rw [if_pos (.inl hclosed), ← Option.some.inj hrun]
        exact effect_of_stream rfl
      rw [if_neg hclosed] at hrun
      obtain ⟨inner, hinner, rfl⟩ := Option.map_eq_some_iff.mp hrun
      by_cases hinitialized : st.initialized = true
      · rw [if_pos hinitialized] at hinner
        rw [if_neg (by simp [hclosed, hinitialized])]
        have heffect := bufferDrain_effect hinner
        exact heffect
      · rw [if_neg hinitialized] at hinner
        rw [if_pos (.inr (by simp [hinitialized])), ← Option.some.inj hinner]
        exact effect_of_stream rfl

/-- A direct buffer, which is what the constructor accepts as a target. -/
def DirectBuffer : Type := { target : Buffer // target.kind = .direct }

/-- The object that the constructor makes of a direct target. -/
def openedBuffer (stream : σ) (target : DirectBuffer) (level : ℤ) : State σ κ where
  stream := stream
  target := some target.1
  start := target.1.position
  handed := []
  closed := false
  initialized := false
  level := level
  dict := none
  fastDict := none

theorem create_eq_openedBuffer (stream : σ) (target : DirectBuffer) (level : ℤ) :
    (State.create stream target.1 level : Except JavaException (State σ κ)) =
      .ok (openedBuffer stream target level) :=
  if_neg (not_not.mpr target.2)

end BufferCompress

/-! ## Whole runs -/

/-- On every run of either kind of stream, whatever fails, the compressor is used as
documented exactly if every operation makes only calls that are allowed in the session at
hand. -/
theorem encoder_respected_iff :
    (∀ (E : NativeEncoder σ Setting) (s : σ) (out : OutputStream.Sink) (dst : List Byte)
      (ops : List (OutputOp σ)),
      ((outputMachine E).run (OutputStream.State.create (s, .fresh) out dst) ops).2.stream.2.misused
          = false ↔
        (outputMachine E).AllSteps (fun st op => op.Respects st)
          (OutputStream.State.create (s, .fresh) out dst) ops) ∧
    (∀ (E : NativeEncoder σ (BufferCompress.Init κ)) (flushBuffer : BufferCompress.FlushBuffer)
      (s : σ) (target : DirectBuffer) (level : ℤ) (ops : List (CompressOp κ)),
      ((compressMachine E flushBuffer).run
          (openedBuffer (s, .fresh) target level) ops).2.stream.2.misused = false ↔
        (compressMachine E flushBuffer).AllSteps (fun st op => op.Respects flushBuffer st)
          (openedBuffer (s, .fresh) target level) ops) := by
  constructor
  · intro E s out dst ops
    exact Machine.run_flag_iff (fun st : OutputStream.State (σ × Watch) => st.stream.2.misused)
      (fun st op _ next hstep => (outputStep_effect hstep).misused.1)
      (fun st op _ next hstep => (outputStep_effect hstep).misused.2) rfl ops
  · intro E flushBuffer s target level ops
    exact Machine.run_flag_iff
      (fun st : BufferCompress.State (σ × Watch) κ => st.stream.2.misused)
      (fun st op _ next hstep => (compressStep_effect hstep).misused.1)
      (fun st op _ next hstep => (compressStep_effect hstep).misused.2) rfl ops

/-! ## An error, and an end that is not complete -/

/-- A compressor that has no memory when it is first given content. -/
def noMemory : NativeEncoder Unit Setting where
  encoder :=
    { encode := fun _ directive _ _ =>
        ((), ⟨0, [], if directive = .goOn then ErrorCode.memoryAllocation.result else 0⟩)
      reset := fun _ => ((), 0)
      configure := fun _ _ => ((), 0) }
  ret_lt := by
    intro s directive input room
    simp only
    split
    · exact (show ErrorCode.memoryAllocation.result < 2 ^ 64 by decide)
    · exact (show 0 < 2 ^ 64 by decide)

/-- A compressor that always has one more byte to emit at the end of a frame. -/
def oneMore : NativeEncoder Unit Setting where
  encoder :=
    { encode := fun _ directive input _ =>
        ((),
          ⟨input.length, if directive = .finish then [0] else [], if directive =
            .finish then 1 else 0⟩)
      reset := fun _ => ((), 0)
      configure := fun _ _ => ((), 0) }
  ret_lt := by
    intro s directive input room
    simp only
    split
    · exact (show 1 < 2 ^ 64 by decide)
    · exact (show 0 < 2 ^ 64 by decide)

/-- Closing the stream after an error of the compressor misuses it, and so does a write after
a flush that was to end the frame and in which the wrapped stream threw. -/
theorem misused_of_failure :
    ((outputMachine noMemory).run (OutputStream.State.create ((), .fresh) ⟨[], 0, 0, []⟩ [0])
      [.op (.writeByte 0) 2, .close true 2]).2.stream.2.misused = true ∧
    ((outputMachine oneMore).run (OutputStream.State.create ((), .fresh) ⟨[], 0, 0, [true]⟩ [0])
      [.op (.setCloseFrameOnFlush true) 0, .op (.writeByte 0) 2, .op .flush 2,
        .op (.writeByte 0) 2]).2.stream.2.misused = true :=
  ⟨rfl, rfl⟩

end ZstdJni.Protocol
