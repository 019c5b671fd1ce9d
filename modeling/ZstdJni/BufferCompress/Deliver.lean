/-
# Compressing into buffers delivers the encoding

The invariant ties what the compressor has emitted to the buffers: what was handed to
`flushBuffer`, followed by what was written to the target since it was installed.  A
target may be full when a flush or the end of the frame is requested; such a call emits
nothing and the target is replaced, so that the next call has room.
-/

import Mathlib.Data.Prod.Lex
import ZstdJni.BufferCompress.Model
import ZstdJni.Native.RawFrames

namespace ZstdJni.BufferCompress

open ZstdJni.Foundation ZstdJni.Native
open ZstdJni.BufferDecompress (Buffer)

variable {σ κ : Type} {E : Encoder σ (Init κ) Byte Byte}

/-- The documented behaviour of the streaming functions behind the stream.  A call without
room emits nothing. -/
structure StreamContract (E : Encoder σ (Init κ) Byte Byte) where
  /-- The frames of the format, with their contents. -/
  IsFrame : Frame Byte Byte → Prop
  contract : E.Contract IsFrame fun ret => zstdIsError ret = true
  init : ∀ s init, zstdIsError (E.configure s init).2 = false →
    ∃ pending, contract.place false (E.configure s init).1 [] [] pending
  flush_full : ∀ {s fed output pending}, contract.place false s fed output pending →
    ∀ {next reply}, E.encode s .flush [] 0 = (next, reply) → zstdIsError reply.ret = false →
    reply.emitted = [] ∧ ∃ pending' ≤ pending, contract.place false next fed output pending' ∧
      (reply.ret = 0 → Suffices IsFrame output fed)
  finish_full : ∀ {closing s fed output pending}, contract.place closing s fed output pending →
    ∀ {next reply}, E.encode s .finish [] 0 = (next, reply) → zstdIsError reply.ret = false →
    reply.emitted = [] ∧ (reply.ret = 0 → IsFrame ⟨output, fed⟩) ∧
      (reply.ret ≠ 0 → ∃ pending' ≤ pending, contract.place true next fed output pending')
  encode_size : ∀ s directive input room, (E.encode s directive input room).2.ret < 2 ^ 64
  encode_small : ∀ s directive input room,
    zstdIsError (E.encode s directive input room).2.ret = false →
      (E.encode s directive input room).2.ret < 2 ^ 63
  init_size : ∀ s init, (E.configure s init).2 < 2 ^ 64

/-- zstd has failed: the last answer of the compressor is an error, and the call has thrown
it. -/
def Failed (E : Encoder σ (Init κ) Byte Byte) (stream : σ) (outcome : Outcome Unit) : Prop :=
  ∃ result, E.Answered stream result ∧ zstdIsError result = true ∧
    outcome = .threw (.ofIOResult (jlong result))

theorem Failed.zstdFailed {stream : σ} {outcome : Outcome Unit}
    (hfailed : Failed E stream outcome) :
    zstdFailed outcome = true := by
  obtain ⟨result, -, -, rfl⟩ := hfailed
  rfl

theorem failed_of_encode {s next : σ} {directive : Directive} {input : List Byte} {room : ℕ}
    {reply : Reply Byte} (hencode : E.encode s directive input room = (next, reply))
    (herror : zstdIsError reply.ret = true) :
    Failed E next (.threw (.ofIOResult (jlong reply.ret))) := by
  have hanswered := Encoder.Answered.encode (E := E) s directive input room
  rw [hencode] at hanswered
  exact ⟨reply.ret, hanswered, herror, rfl⟩

/-- Everything that `flushBuffer` was handed. -/
def passed (handed : List Handed) : List Byte := handed.flatMap Handed.bytes

theorem passed_append (handed : List Handed) (last : Handed) :
    passed (handed ++ [last]) = passed handed ++ last.bytes := by
  simp [passed]

/-- `flushBuffer` always answers with a direct buffer that has space. -/
def Obliging (flushBuffer : FlushBuffer) : Prop :=
  ∀ n target, ∃ next, flushBuffer n target = .returned next ∧ next.kind = .direct ∧ 0 < next.room

/-- The buffers of an open stream hold `output`: a part was handed to `flushBuffer`, the
rest is in the target. -/
structure Holding (output : List Byte) (st : State σ κ) (target : Buffer) : Prop where
  target_eq : st.target = some target
  direct : target.kind = .direct
  start_le : st.start ≤ target.position
  output_eq : output = passed st.handed ++ Handed.bytes ⟨st.start, target⟩
  is_open : st.closed = false
  initialized : st.initialized = true

/-! ## The native calls -/

section Native

variable (E) (stream : σ) {target source : Buffer}

/-- The streaming call on the room of a target. -/
def encodeRoom (directive : Directive) (input : List Byte) (target : Buffer) : Encoded σ :=
  let (next, reply) := E.encode stream directive input target.room
  { result := jlong reply.ret
    stream := next
    target := target.writeAt (target.arrayOffset + target.position) reply.emitted
    consumed := reply.consumed
    produced := reply.emitted.length }

theorem callEncode_eq (directive : Directive) (input : List Byte) :
    callEncode E stream target directive input target.position
      ((target.limit : ℤ) - target.position) = encodeRoom E stream directive input target := by
  have hle := target.position_le
  have hoffset : ((target.arrayOffset : ℤ) + target.position).toNat =
      target.arrayOffset + target.position := by omega
  have hroom : ((target.limit : ℤ) - target.position).toNat = target.room := by
    rw [Buffer.room]
    omega
  simp only [callEncode, encodeRoom, hoffset, hroom]

theorem compressDirectByteBuffer_eq (htarget : target.kind = .direct)
    (hsource : source.kind = .direct) :
    compressDirectByteBuffer E stream target target.position
      ((target.limit : ℤ) - target.position) source source.position
      ((source.limit : ℤ) - source.position) =
      encodeRoom E stream .goOn source.remaining target := by
  have htargetLimit := target.limit_le
  have hsourceLimit := source.limit_le
  have hle := source.position_le
  have hstart : ((source.arrayOffset : ℤ) + source.position).toNat =
      source.arrayOffset + source.position := by omega
  have hend : ((source.arrayOffset : ℤ) + source.position +
      ((source.limit : ℤ) - source.position)).toNat = source.arrayOffset + source.limit := by omega
  rw [compressDirectByteBuffer, Buffer.directCapacity, Buffer.directCapacity, if_pos htarget,
    if_pos hsource, if_neg (by omega), if_neg (by omega), hstart, hend, callEncode_eq,
    Buffer.remaining]

theorem drainStream_eq (directive : Directive) (htarget : target.kind = .direct) :
    drainStream E stream target directive target.position
      ((target.limit : ℤ) - target.position) = encodeRoom E stream directive [] target := by
  have hlimit := target.limit_le
  rw [drainStream, Buffer.directCapacity, if_pos htarget, if_neg (by omega), callEncode_eq]

end Native

/-! ## The buffers -/

theorem arrayOffset_filled (target : Buffer) (bytes : List Byte) :
    (target.filled bytes).arrayOffset = target.arrayOffset ∧
      (target.filled bytes).kind = target.kind := by
  simp only [Buffer.filled, Buffer.advance, Buffer.writeAt]
  split
  · exact ⟨rfl, rfl⟩
  · exact ⟨rfl, rfl⟩

/-- What was written to a target since it was installed, after some more was written. -/
theorem bytes_filled {target : Buffer} {start : ℕ} (hstart : start ≤ target.position)
    {emitted : List Byte} (hemitted : emitted.length ≤ target.room) :
    Handed.bytes ⟨start, target.filled emitted⟩ = Handed.bytes ⟨start, target⟩ ++ emitted := by
  obtain ⟨hstorage, hposition⟩ := Buffer.filled_spec hemitted
  have hoffset := (arrayOffset_filled target emitted).1
  have hfits := target.fits
  have hlimit := target.limit_le
  have hle := target.position_le
  simp only [Handed.bytes, hstorage, hposition, hoffset, ← Nat.add_assoc]
  exact window_overwrite _ _ (by omega) (by omega)

theorem setPosition_filled {target : Buffer} {emitted : List Byte}
    (hemitted : emitted.length ≤ target.room) :
    (target.writeAt (target.arrayOffset + target.position) emitted).setPosition
      ((target.writeAt (target.arrayOffset + target.position) emitted).position + emitted.length) =
      .ok (target.filled emitted) := by
  obtain ⟨-, -, hroom⟩ := Buffer.writeAt_position hemitted
  exact Buffer.setPosition_advance (Nat.le_trans hemitted (Nat.le_of_eq hroom.symm))

section Buffers

variable {flushBuffer : FlushBuffer} {output : List Byte} {self : State σ κ} {target : Buffer}

/-- The target takes what the compressor emits. -/
theorem Holding.fill (hholding : Holding output self target) (next : σ) {emitted : List Byte}
    (hemitted : emitted.length ≤ target.room) :
    Holding (output ++ emitted)
      { self with stream := next, target := some (target.filled emitted) }
      (target.filled emitted) where
  target_eq := rfl
  direct := (arrayOffset_filled target emitted).2.trans hholding.direct
  start_le := by
    have hstart := hholding.start_le
    rw [(Buffer.filled_spec hemitted).2]
    simp only
    omega
  output_eq := by
    rw [bytes_filled hholding.start_le hemitted, hholding.output_eq, List.append_assoc]
  is_open := hholding.is_open
  initialized := hholding.initialized

/-- A new target is installed, and the old one was handed over with all it holds. -/
theorem Holding.flushTarget (hholding : Holding output self target)
    (hobliging : Obliging flushBuffer) :
    ∃ next self', flushTarget flushBuffer target self = (.returned next, self') ∧
      Holding output self' next ∧ self'.stream = self.stream ∧ passed self'.handed = output ∧
      0 < next.room := by
  obtain ⟨next, hreturned, hdirect, hroom⟩ := hobliging self.handed.length target
  have hpassed : passed (self.handed ++ [⟨self.start, target⟩]) = output := by
    rw [passed_append, hholding.output_eq]
  refine ⟨next, { self with
    target := some next, start := next.position,
    handed := self.handed ++ [⟨self.start, target⟩] }, ?_, ?_, rfl, hpassed, hroom⟩
  · simp only [BufferCompress.flushTarget, hreturned, hdirect, ne_eq, not_true_eq_false, if_false]
  · exact
      { target_eq := rfl
        direct := hdirect
        start_le := Nat.le_refl _
        output_eq := by simp only [hpassed, Handed.bytes, window_self, List.append_nil]
        is_open := hholding.is_open
        initialized := hholding.initialized }

end Buffers

/-! ## One turn -/

section Turn

variable {flushBuffer : FlushBuffer} {output : List Byte} {self : State σ κ}
    {target source : Buffer}
  {next : σ} {reply : Reply Byte}

/-- The native call of `compress`, and what the loop makes of its result. -/
theorem Holding.compressInto (hholding : Holding output self target)
    (hsource : source.kind = .direct)
    (hencode : E.encode self.stream .goOn source.remaining target.room = (next, reply))
    (hsize : reply.ret < 2 ^ 64) (htaken : zstdIsError reply.ret = false →
      reply.consumed ≤ source.remaining.length ∧ reply.emitted.length ≤ target.room) :
    (zstdIsError reply.ret = true ∧ ∃ ended, compressInto E target self source = .leave ended ∧
        Failed E ended.self.stream ended.outcome) ∨
      (zstdIsError reply.ret = false ∧ ∃ self' target', compressInto E target self source =
          .again (self', source.advance reply.consumed) ∧
        Holding (output ++ reply.emitted) self' target' ∧ self'.stream = next) := by
  have hisError := isError_jlong hsize
  simp only [BufferCompress.compressInto,
    compressDirectByteBuffer_eq E self.stream hholding.direct hsource, encodeRoom,
    hencode, hisError]
  cases herror : zstdIsError reply.ret with
  | true => exact .inl ⟨rfl, _, rfl, failed_of_encode hencode herror⟩
  | false =>
      obtain ⟨hconsumed, hemitted⟩ := htaken herror
      have hmoved := setPosition_filled hemitted
      have hadvance := Buffer.setPosition_advance (source.length_remaining ▸ hconsumed)
      refine .inr ⟨rfl, _, _, ?_, hholding.fill next hemitted, rfl⟩
      simp only [Bool.false_eq_true, if_false, hmoved, hadvance]

/-- One turn of a loop of `flush` or `close`, by the reply of the compressor. -/
theorem Holding.drainTurn (hholding : Holding output self target) (hobliging : Obliging flushBuffer)
    (directive : Directive)
    (hencode : E.encode self.stream directive [] target.room = (next, reply))
    (hsize : reply.ret < 2 ^ 64) (hsmall : zstdIsError reply.ret = false → reply.ret < 2 ^ 63)
    (hemitted : zstdIsError reply.ret = false → reply.emitted.length ≤ target.room) :
    (zstdIsError reply.ret = true ∧ ∃ ended,
        drainTurn flushBuffer (fun stream target => drainStream E stream target directive) self =
          .leave ended ∧ Failed E ended.self.stream ended.outcome) ∨
      (zstdIsError reply.ret = false ∧ ∃ self' target',
        drainTurn flushBuffer (fun stream target => drainStream E stream target directive) self =
          (if reply.ret = 0 then .leave ⟨.returned (), self'⟩ else .again self') ∧
        Holding (output ++ reply.emitted) self' target' ∧ self'.stream = next ∧
        passed self'.handed = output ++ reply.emitted ∧ 0 < target'.room) := by
  have hisError := isError_jlong hsize
  simp only [BufferCompress.drainTurn, hholding.target_eq,
    drainStream_eq E self.stream directive hholding.direct, encodeRoom, hencode, hisError]
  cases herror : zstdIsError reply.ret with
  | true => exact .inl ⟨rfl, _, rfl, failed_of_encode hencode herror⟩
  | false =>
      have hmoved := setPosition_filled (hemitted herror)
      have hpositive : 0 < jlong reply.ret ↔ ¬ reply.ret = 0 := by
        rw [jlong_of_lt (hsmall herror)]
        omega
      obtain ⟨target', self', hflush, hnext, hstream, hpassed, hroom⟩ :=
        (hholding.fill next (hemitted herror)).flushTarget hobliging
      have hspace : target'.hasRemaining = true := (Buffer.room_pos _).mp hroom
      refine .inr ⟨rfl, self', target', ?_, hnext, hstream, hpassed, hroom⟩
      simp only [Bool.false_eq_true, if_false, hmoved, hflush, hpositive, hspace, not_true_eq_false,
        ite_not]

end Turn

/-! ## The loops -/

section Loops

variable {C : StreamContract E} {flushBuffer : FlushBuffer}

/-- The stream is inside a frame: the compressor has taken `fed`, and the buffers hold what
it has emitted. -/
def Emitting (C : StreamContract E) (closing : Bool) (fed : List Byte) (pending : ℕ)
    (self : State σ κ) : Prop :=
  ∃ output target, C.contract.place closing self.stream fed output pending ∧
    Holding output self target

theorem Emitting.is_open {closing : Bool} {fed : List Byte} {pending : ℕ} {self : State σ κ}
    (hemitting : Emitting C closing fed pending self) :
    self.closed = false ∧ self.initialized = true := by
  obtain ⟨output, target, hplace, hholding⟩ := hemitting
  exact ⟨hholding.is_open, hholding.initialized⟩

/-- The order of the bounds of `compress`: the bytes to come, and the calls that can be made
without taking any. -/
abbrev Less : ℕ × ℕ → ℕ × ℕ → Prop := Prod.Lex (· < ·) (· < ·)

/-- One turn of `compress` with bytes to come. -/
theorem Emitting.compressTurn {fed : List Byte} {pending : ℕ} {self : State σ κ} {source : Buffer}
    (hemitting : Emitting C false fed pending self) (hobliging : Obliging flushBuffer)
    (hsource : source.kind = .direct) (hmore : source.hasRemaining = true) :
    (compressTurn E flushBuffer (self, source)).Meets
      (fun next => ∃ fed' pending', Emitting C false fed' pending' next.1 ∧
        next.2.kind = .direct ∧ fed' ++ next.2.remaining = fed ++ source.remaining ∧
        Less (next.2.remaining.length, pending') (source.remaining.length, pending))
      (fun ended => Failed E ended.self.stream ended.outcome) := by
  obtain ⟨output, target, hplace, hholding⟩ := hemitting
  have hne := (Buffer.hasRemaining_iff _).mp hmore
  have hinto : ∀ {self : State σ κ} {target : Buffer},
      C.contract.place false self.stream fed output pending → Holding output self target →
      0 < target.room → (compressInto E target self source).Meets
        (fun next => ∃ fed' pending', Emitting C false fed' pending' next.1 ∧
          next.2.kind = .direct ∧ fed' ++ next.2.remaining = fed ++ source.remaining ∧
          Less (next.2.remaining.length, pending') (source.remaining.length, pending))
        (fun ended => Failed E ended.self.stream ended.outcome) := by
    intro self target hplace hholding hroom
    rcases hencode : E.encode self.stream .goOn source.remaining target.room with ⟨next, reply⟩
    have hsize := C.encode_size self.stream .goOn source.remaining target.room
    rw [hencode] at hsize
    have htaken (hok : zstdIsError reply.ret = false) :=
      C.contract.goOn hplace hne hroom hencode (by simp [hok])
    rcases hholding.compressInto hsource hencode hsize fun hok =>
        ⟨(htaken hok).1, (htaken hok).2.1⟩ with
      ⟨-, ended, hturn, hfailed⟩ | ⟨hok, self', target', hturn, hnext, hstream⟩
    · rw [hturn]
      exact hfailed
    · obtain ⟨hconsumed, -, pending', hplace', hless⟩ := htaken hok
      have hleft := Buffer.remaining_advance (source.length_remaining ▸ hconsumed)
      rw [hturn]
      refine ⟨fed ++ source.remaining.take reply.consumed, pending',
        ⟨_, target', hstream.symm ▸ hplace', hnext⟩, hsource, ?_, ?_⟩
      · rw [hleft, List.append_assoc, List.take_append_drop]
      · simp only [Less, Prod.lex_def, hleft, List.length_drop]
        omega
  simp only [BufferCompress.compressTurn, hmore, if_true, hholding.target_eq]
  cases hspace : target.hasRemaining with
  | true =>
      simp only [not_true_eq_false, if_false]
      exact hinto hplace hholding ((Buffer.room_pos _).mpr hspace)
  | false =>
      obtain ⟨next, self', hflush, hnext, hstream, -, hroom⟩ := hholding.flushTarget hobliging
      have hnextSpace : next.hasRemaining = true := (Buffer.room_pos _).mp hroom
      simp only [Bool.false_eq_true, not_false_eq_true, if_true, hflush, hnextSpace,
        not_true_eq_false, if_false]
      exact hinto (hstream.symm ▸ hplace) hnext hroom

/-- The loop of `compress` ends with the source used up, unless zstd fails. -/
theorem Emitting.compressLoop {fed : List Byte} {pending : ℕ} {self : State σ κ} {source : Buffer}
    (hemitting : Emitting C false fed pending self) (hobliging : Obliging flushBuffer)
    (hsource : source.kind = .direct) :
    ∃ ended, (Failed E ended.self.stream ended.outcome ∨ ended.outcome = .returned () ∧
        ended.source.remaining = [] ∧
        ∃ pending, Emitting C false (fed ++ source.remaining) pending ended.self) ∧
      Yields
        (fun fuel => iterate (fun loop => some (BufferCompress.compressTurn E flushBuffer loop))
        fuel (self, source)) ended := by
  have hwf : WellFounded Less := WellFounded.prod_lex Nat.lt_wfRel.wf Nat.lt_wfRel.wf
  refine iterate_wellFounded hwf
    (fun bound loop => ∃ fed' pending, Emitting C false fed' pending loop.1 ∧
      loop.2.kind = .direct ∧ fed' ++ loop.2.remaining = fed ++ source.remaining ∧
      bound = (loop.2.remaining.length, pending))
    ?_ (source.remaining.length, pending) ⟨fed, pending, hemitting, hsource, rfl, rfl⟩
  rintro bound ⟨self, source'⟩ ⟨fed', pending, hemitting, hkind, hfed, rfl⟩
  refine ⟨_, rfl, ?_⟩
  cases hmore : source'.hasRemaining with
  | true =>
      refine (hemitting.compressTurn hobliging hkind hmore).mono (fun next hnext => ?_) fun _ h =>
        .inl h
      obtain ⟨fed'', pending', hnextEmitting, hnextKind, hnextFed, hless⟩ := hnext
      exact ⟨_, hless, fed'', pending', hnextEmitting, hnextKind, hnextFed.trans hfed, rfl⟩
  | false =>
      have hempty := (Buffer.hasRemaining_eq_false_iff _).mp hmore
      simp only [BufferCompress.compressTurn, hmore, Bool.false_eq_true, if_false]
      refine .inr ⟨rfl, hempty, pending, ?_⟩
      rw [← hfed, hempty, List.append_nil]
      exact hemitting

/-- The bound of the loops of `flush` and `close`: a full target costs one more turn. -/
def drainBound (pending room : ℕ) : ℕ := 2 * pending + if room = 0 then 1 else 0

section Directives

variable {s next : σ} {fed output : List Byte} {pending room : ℕ} {reply : Reply Byte}

/-- A flush, with room or without. -/
theorem StreamContract.flush_any (C : StreamContract E)
    (hplace : C.contract.place false s fed output pending)
    (hencode : E.encode s .flush [] room = (next, reply)) (hok : zstdIsError reply.ret = false) :
    reply.emitted.length ≤ room ∧ ∃ pending',
      C.contract.place false next fed (output ++ reply.emitted) pending' ∧
      (reply.ret = 0 → Suffices C.IsFrame (output ++ reply.emitted) fed) ∧
      (reply.ret ≠ 0 → 2 * pending' < drainBound pending room) := by
  by_cases hroom : room = 0
  · subst hroom
    obtain ⟨hemitted, pending', hle, hnext, hsuffices⟩ := C.flush_full hplace hencode hok
    rw [hemitted, List.append_nil]
    refine ⟨Nat.le_refl _, pending', hnext, hsuffices, fun _ => ?_⟩
    simp only [drainBound, if_true]
    omega
  · obtain ⟨hemitted, pending', hnext, hsuffices, hless⟩ :=
      C.contract.flush hplace (Nat.pos_of_ne_zero hroom) hencode (by simp [hok])
    refine ⟨hemitted, pending', hnext, hsuffices, fun hret => ?_⟩
    have hlt := hless hret
    simp only [drainBound, if_neg hroom]
    omega

/-- The end of the frame, with room or without. -/
theorem StreamContract.finish_any (C : StreamContract E) {closing : Bool}
    (hplace : C.contract.place closing s fed output pending)
    (hencode : E.encode s .finish [] room = (next, reply)) (hok : zstdIsError reply.ret = false) :
    reply.emitted.length ≤ room ∧
      (reply.ret = 0 → C.IsFrame ⟨output ++ reply.emitted, fed⟩) ∧
      (reply.ret ≠ 0 → ∃ pending',
        C.contract.place true next fed (output ++ reply.emitted) pending' ∧
        2 * pending' < drainBound pending room) := by
  by_cases hroom : room = 0
  · subst hroom
    obtain ⟨hemitted, hframe, hopen⟩ := C.finish_full hplace hencode hok
    rw [hemitted, List.append_nil]
    refine ⟨Nat.le_refl _, hframe, fun hret => ?_⟩
    obtain ⟨pending', hle, hnext⟩ := hopen hret
    refine ⟨pending', hnext, ?_⟩
    simp only [drainBound, if_true]
    omega
  · obtain ⟨hemitted, hframe, hopen⟩ :=
      C.contract.finish hplace (Nat.pos_of_ne_zero hroom) hencode (by simp [hok])
    refine ⟨hemitted, hframe, fun hret => ?_⟩
    obtain ⟨pending', hless, hnext⟩ := hopen hret
    refine ⟨pending', hnext, ?_⟩
    simp only [drainBound, if_neg hroom]
    omega

end Directives

/-- The loop of `flush` ends with everything handed over that is needed to decode what was
compressed, unless zstd fails. -/
theorem Emitting.flushLoop {fed : List Byte} {pending : ℕ} {self : State σ κ}
    (hemitting : Emitting C false fed pending self) (hobliging : Obliging flushBuffer) :
    ∃ ended, (Failed E ended.self.stream ended.outcome ∨ ended.outcome = .returned () ∧
        Suffices C.IsFrame (passed ended.self.handed) fed ∧
        ∃ pending, Emitting C false fed pending ended.self) ∧
      Yields (fun fuel => iterate (fun self => some (drainTurn flushBuffer (flushStream E) self))
        fuel self) ended := by
  obtain ⟨output, target, hplace, hholding⟩ := hemitting
  refine iterate_wellFounded Nat.lt_wfRel.wf
    (fun bound self => ∃ output target pending,
      C.contract.place false self.stream fed output pending ∧
      Holding output self target ∧ bound = drainBound pending target.room)
    ?_ _ ⟨output, target, pending, hplace, hholding, rfl⟩
  rintro bound self ⟨output, target, pending, hplace, hholding, rfl⟩
  refine ⟨_, rfl, ?_⟩
  rcases hencode : E.encode self.stream .flush [] target.room with ⟨next, reply⟩
  have hsize := C.encode_size self.stream .flush [] target.room
  have hsmall := C.encode_small self.stream .flush [] target.room
  rw [hencode] at hsize hsmall
  have hflush (hok : zstdIsError reply.ret = false) := C.flush_any hplace hencode hok
  rcases hholding.drainTurn hobliging .flush hencode hsize hsmall fun hok => (hflush hok).1 with
    ⟨-, ended, hturn, hfailed⟩ | ⟨hok, self', target', hturn, hnext, hstream, hpassed, hroom⟩
  · exact hturn.symm ▸ .inl hfailed
  · obtain ⟨-, pending', hplace', hsuffices, hless⟩ := hflush hok
    have hturn' : BufferCompress.drainTurn flushBuffer (flushStream E) self = _ := hturn
    rw [hturn']
    by_cases hret : reply.ret = 0
    · rw [if_pos hret]
      exact .inr ⟨rfl, hpassed.symm ▸ hsuffices hret, pending', _, target', hstream.symm ▸ hplace',
        hnext⟩
    · rw [if_neg hret]
      refine ⟨_, ?_, _, target', pending', hstream.symm ▸ hplace', hnext, rfl⟩
      have hlt := hless hret
      simp only [drainBound, if_neg (Nat.ne_of_gt hroom)]
      exact hlt

/-- The loop of `close` ends with one complete frame handed over, unless zstd fails. -/
theorem Emitting.finishLoop {closing : Bool} {fed : List Byte} {pending : ℕ} {self : State σ κ}
    (hemitting : Emitting C closing fed pending self) (hobliging : Obliging flushBuffer) :
    ∃ ended, (Failed E ended.self.stream ended.outcome ∨ ended.outcome = .returned () ∧
        C.IsFrame ⟨passed ended.self.handed, fed⟩) ∧
      Yields (fun fuel => iterate (fun self => some (drainTurn flushBuffer (endStream E) self))
        fuel self) ended := by
  obtain ⟨output, target, hplace, hholding⟩ := hemitting
  refine iterate_wellFounded Nat.lt_wfRel.wf
    (fun bound self => ∃ closing output target pending,
      C.contract.place closing self.stream fed output pending ∧
      Holding output self target ∧ bound = drainBound pending target.room)
    ?_ _ ⟨closing, output, target, pending, hplace, hholding, rfl⟩
  rintro bound self ⟨closing, output, target, pending, hplace, hholding, rfl⟩
  refine ⟨_, rfl, ?_⟩
  rcases hencode : E.encode self.stream .finish [] target.room with ⟨next, reply⟩
  have hsize := C.encode_size self.stream .finish [] target.room
  have hsmall := C.encode_small self.stream .finish [] target.room
  rw [hencode] at hsize hsmall
  have hfinish (hok : zstdIsError reply.ret = false) := C.finish_any hplace hencode hok
  rcases hholding.drainTurn hobliging .finish hencode hsize hsmall fun hok => (hfinish hok).1 with
    ⟨-, ended, hturn, hfailed⟩ | ⟨hok, self', target', hturn, hnext, hstream, hpassed, hroom⟩
  · exact hturn.symm ▸ .inl hfailed
  · obtain ⟨-, hframe, hopen⟩ := hfinish hok
    have hturn' : BufferCompress.drainTurn flushBuffer (endStream E) self = _ := hturn
    rw [hturn']
    by_cases hret : reply.ret = 0
    · rw [if_pos hret]
      exact .inr ⟨rfl, hpassed.symm ▸ hframe hret⟩
    · obtain ⟨pending', hplace', hless⟩ := hopen hret
      rw [if_neg hret]
      refine ⟨_, ?_, true, _, target', pending', hstream.symm ▸ hplace', hnext, rfl⟩
      simp only [drainBound, if_neg (Nat.ne_of_gt hroom)]
      exact hless

end Loops

/-! ## Whole runs -/

/-- The bytes that a call compresses. -/
def Op.bytes : Op → List Byte
  | .compress source => source.remaining
  | .flush => []

/-- A call of `compress`. -/
def Op.isCompress : Op → Bool
  | .compress _ => true
  | .flush => false

/-- The stream between two calls: before the first `compress` nothing was begun, and from
then on it is inside a frame. -/
inductive Running (C : StreamContract E) : Bool → List Byte → State σ κ → Prop
  | idle {self : State σ κ} {target : Buffer} (htarget : self.target = some target)
      (hdirect : target.kind = .direct) (hstart : self.start = target.position)
      (hhanded : self.handed = []) (hopen : self.closed = false)
      (hfresh : self.initialized = false) : Running C false [] self
  | begun {self : State σ κ} {fed : List Byte} {pending : ℕ}
      (hemitting : Emitting C false fed pending self) : Running C true fed self

section Runs

variable {C : StreamContract E} {flushBuffer : FlushBuffer} {began : Bool} {fed : List Byte}
  {self : State σ κ}

theorem suffices_nil (IsFrame : Frame Byte Byte → Prop) : Suffices IsFrame [] [] :=
  fun _ _ _ => List.nil_prefix

/-- `compress` uses up its source, unless zstd fails. -/
theorem Running.compress (hrunning : Running C began fed self) (hobliging : Obliging flushBuffer)
    {source : Buffer} (hsource : source.kind = .direct) :
    ∃ ended, (Failed E ended.self.stream ended.outcome ∨ ended.outcome = .returned () ∧
        ended.source.remaining = [] ∧ Running C true (fed ++ source.remaining) ended.self) ∧
      Yields (fun fuel => compress E flushBuffer fuel source self) ended := by
  cases hrunning with
  | begun hemitting =>
      obtain ⟨hopen, hinitialized⟩ := hemitting.is_open
      obtain ⟨ended, hpost, hyields⟩ := hemitting.compressLoop hobliging hsource
      refine ⟨ended, hpost.imp_right ?_, ?_⟩
      · rintro ⟨houtcome, hempty, pending, hnext⟩
        exact ⟨houtcome, hempty, .begun hnext⟩
      · simpa only [BufferCompress.compress, hsource, hopen, hinitialized, ne_eq,
          not_true_eq_false, if_false, Bool.false_eq_true, if_true] using hyields
  | @idle _ target htarget hdirect hstart hhanded hopen hfresh =>
      rcases hinit : E.configure self.stream self.init with ⟨next, result⟩
      have hsize := C.init_size self.stream self.init
      have hplace := C.init self.stream self.init
      rw [hinit] at hsize hplace
      have hisError := isError_jlong hsize
      cases herror : zstdIsError result with
      | true =>
          rw [herror] at hisError
          refine ⟨⟨.threw (.ofIOResult (jlong result)), { self with stream := next }, source⟩,
            .inl ⟨result, ?_, herror, rfl⟩, .of_some fun _ => ?_⟩
          · have hanswered := Encoder.Answered.configure (E := E) self.stream self.init
            rwa [hinit] at hanswered
          simp only [BufferCompress.compress, hsource, hopen, hfresh, hinit, hisError, ne_eq,
            not_true_eq_false, if_false, Bool.false_eq_true, if_true]
      | false =>
          rw [herror] at hisError
          obtain ⟨pending, hplace⟩ := hplace herror
          have hemitting : Emitting C false [] pending
              { self with stream := next, initialized := true } := by
            refine ⟨[], target, hplace, ?_⟩
            exact
              { target_eq := htarget
                direct := hdirect
                start_le := Nat.le_of_eq hstart
                output_eq := by simp only [hhanded, hstart, passed, Handed.bytes, window_self,
                  List.flatMap_nil, List.append_nil]
                is_open := hopen
                initialized := rfl }
          obtain ⟨ended, hpost, hyields⟩ := hemitting.compressLoop hobliging hsource
          refine ⟨ended, hpost.imp_right ?_, ?_⟩
          · rintro ⟨houtcome, hempty, pending, hnext⟩
            exact ⟨houtcome, hempty, .begun hnext⟩
          · simpa only [BufferCompress.compress, hsource, hopen, hfresh, hinit, hisError, ne_eq,
              not_true_eq_false, if_false, Bool.false_eq_true, if_true] using hyields

/-- After `flush` everything compressed so far can be decoded from what was handed over,
unless zstd fails. -/
theorem Running.flush (hrunning : Running C began fed self) (hobliging : Obliging flushBuffer) :
    ∃ ended, (Failed E ended.self.stream ended.outcome ∨ ended.outcome = .returned () ∧
        Running C began fed ended.self ∧ Suffices C.IsFrame (passed ended.self.handed) fed) ∧
      Yields (fun fuel => flush E flushBuffer fuel self) ended := by
  cases hrunning with
  | begun hemitting =>
      obtain ⟨hopen, hinitialized⟩ := hemitting.is_open
      obtain ⟨ended, hpost, hyields⟩ := hemitting.flushLoop hobliging
      refine ⟨ended, hpost.imp_right ?_, ?_⟩
      · rintro ⟨houtcome, hsuffices, pending, hnext⟩
        exact ⟨houtcome, .begun hnext, hsuffices⟩
      · simpa only [BufferCompress.flush, hopen, hinitialized, Bool.false_eq_true,
          if_false, if_true] using hyields
  | idle htarget hdirect hstart hhanded hopen hfresh =>
      refine ⟨⟨.returned (), self⟩,
        .inr ⟨rfl, .idle htarget hdirect hstart hhanded hopen hfresh, ?_⟩,
        .of_some fun _ => ?_⟩
      · simp only [hhanded, passed, List.flatMap_nil]
        exact suffices_nil _
      · simp only [BufferCompress.flush, hopen, hfresh, Bool.false_eq_true, if_false]

/-- `close` completes the frame that was begun, unless zstd fails. -/
theorem Running.close (hrunning : Running C began fed self) (hobliging : Obliging flushBuffer) :
    ∃ ended, (Failed E ended.self.stream ended.outcome ∨ ended.outcome = .returned () ∧
        (began = true → C.IsFrame ⟨passed ended.self.handed, fed⟩)) ∧
      Yields (fun fuel => close E flushBuffer fuel self) ended := by
  cases hrunning with
  | begun hemitting =>
      obtain ⟨hopen, hinitialized⟩ := hemitting.is_open
      obtain ⟨ended, hpost, hyields⟩ := hemitting.finishLoop hobliging
      refine ⟨{ ended with self := ended.self.released }, ?_, ?_⟩
      · refine hpost.imp_right ?_
        rintro ⟨houtcome, hframe⟩
        exact ⟨houtcome, fun _ => hframe⟩
      · simp only [BufferCompress.close, hopen, hinitialized, Bool.false_eq_true, if_false,
          if_true]
        exact hyields.map _
  | idle htarget hdirect hstart hhanded hopen hfresh =>
      refine ⟨⟨.returned (), self.released⟩, .inr ⟨rfl, fun h => absurd h (by decide)⟩,
        .of_some fun _ => ?_⟩
      simp only [BufferCompress.close, hopen, hfresh, Bool.false_eq_true, if_false, Option.map_some]

/-- Every call ends, with an error of zstd or as it should. -/
theorem Running.op_run (hrunning : Running C began fed self) (hobliging : Obliging flushBuffer)
    (op : Op) (hsource : ∀ source, op = .compress source → source.kind = .direct) :
    ∃ result next, Yields (fun fuel => op.run E flushBuffer fuel self) (result, next) ∧
      (Failed E next.stream result.1 ∨ result.1 = .returned () ∧
        (∀ source ∈ result.2, source.remaining = []) ∧
        Running C (began || op.isCompress) (fed ++ op.bytes) next ∧
        (op = .flush → Suffices C.IsFrame (passed next.handed) (fed ++ op.bytes))) := by
  cases op with
  | compress source =>
      obtain ⟨ended, hpost, hyields⟩ := hrunning.compress hobliging (hsource source rfl)
      refine ⟨_, _, hyields.map _, hpost.imp_right ?_⟩
      rintro ⟨houtcome, hempty, hnext⟩
      refine ⟨houtcome, ?_, ?_, by simp⟩
      · intro after hafter
        rw [← Option.some.inj hafter]
        exact hempty
      · rw [Op.isCompress, Bool.or_true]
        exact hnext
  | flush =>
      obtain ⟨ended, hpost, hyields⟩ := hrunning.flush hobliging
      refine ⟨_, _, hyields.map _, hpost.imp_right ?_⟩
      rintro ⟨houtcome, hnext, hsuffices⟩
      refine ⟨houtcome, by simp, ?_, fun _ => ?_⟩
      · rw [Op.isCompress, Bool.or_false, Op.bytes, List.append_nil]
        exact hnext
      · rw [Op.bytes, List.append_nil]
        exact hsuffices

/-- A sequence of calls ends; unless zstd fails every call returns with its source used
up. -/
theorem Running.runOps (hrunning : Running C began fed self) (hobliging : Obliging flushBuffer)
    {ops : List Op} (hsources : ∀ source, .compress source ∈ ops → source.kind = .direct) :
    ∃ results last, Yields (fun fuel => runOps E flushBuffer fuel self ops) (results, last) ∧
      ((∃ result, results.getLast? = some result ∧ Failed E last.stream result.1) ∨
        results.length = ops.length ∧
        (∀ result ∈ results, result.1 = .returned () ∧ ∀ source ∈ result.2, source.remaining = []) ∧
        Running C (began || ops.any Op.isCompress) (fed ++ ops.flatMap Op.bytes) last ∧
        (ops.getLast? = some .flush →
          Suffices C.IsFrame (passed last.handed) (fed ++ ops.flatMap Op.bytes))) := by
  induction ops generalizing began fed self with
  | nil =>
      refine ⟨[], self, .of_some fun _ => rfl, .inr ⟨rfl, by simp, ?_, by simp⟩⟩
      simpa using hrunning
  | cons op ops ih =>
      obtain ⟨result, next, hyields, hpost⟩ := hrunning.op_run hobliging op fun source hop =>
        hsources source (by rw [hop]; exact List.mem_cons_self)
      rcases hpost with hfailed | ⟨houtcome, hempty, hnext, hflush⟩
      · refine ⟨[result], next, hyields.bind (.of_some fun _ => ?_), .inl ⟨result, rfl, hfailed⟩⟩
        simp only [if_pos hfailed.zstdFailed]
      · have hfine : ¬ zstdFailed result.1 = true := by
          rw [houtcome]
          exact Bool.false_ne_true
        obtain ⟨results, last, hrest, hall⟩ := ih hnext fun source hmem =>
          hsources source (List.mem_cons_of_mem _ hmem)
        refine ⟨result :: results, last, hyields.bind ?_, ?_⟩
        · simp only [if_neg hfine]
          exact hrest.bind (.of_some fun _ => rfl)
        · rcases hall with ⟨failure, hfailure, hfails⟩ | ⟨hlength, hreturned, hlast, hsuffices⟩
          · refine .inl ⟨failure, ?_, hfails⟩
            rw [List.getLast?_cons, hfailure]
            rfl
          · refine .inr ⟨by rw [List.length_cons, List.length_cons, hlength], ?_, ?_, ?_⟩
            · rintro other hother
              rcases List.mem_cons.mp hother with rfl | hother
              · exact ⟨houtcome, hempty⟩
              · exact hreturned other hother
            · rw [List.any_cons, List.flatMap_cons, ← Bool.or_assoc, ← List.append_assoc]
              exact hlast
            · intro hflushed
              rw [List.flatMap_cons, ← List.append_assoc]
              cases ops with
              | nil =>
                  cases hrest.unique (.of_some fun _ => rfl)
                  simp only [List.getLast?_singleton, Option.some.injEq] at hflushed
                  simpa only [List.flatMap_nil, List.append_nil] using hflush hflushed
              | cons other ops => exact hsuffices (by simpa using hflushed)

end Runs

/-- A session of the stream: the target and the dictionary it is opened with, what
`flushBuffer` answers, and the calls, at least one of which is `compress`. -/
structure Session (κ : Type) where
  target : Buffer
  target_direct : target.kind = .direct
  level : ℤ
  dict : Option (List Byte)
  fastDict : Option κ
  flushBuffer : FlushBuffer
  obliging : Obliging flushBuffer
  ops : List Op
  source_direct : ∀ source, .compress source ∈ ops → source.kind = .direct
  compresses : ops.any Op.isCompress = true

/-- The dictionary is set before the first call. -/
def Session.configured (session : Session κ) (self : State σ κ) : State σ κ :=
  { self with dict := session.dict, fastDict := session.fastDict }

/-- What the compressing stream is for.  Every call ends; unless an answer of the compressor
was an error, every call returns, `compress` with its source used up, and what `flushBuffer` was
handed when `close` returns is one complete frame with exactly the bytes that were compressed.
After every flush what was handed over so far suffices for everything compressed so far. -/
theorem delivers_encoding (C : StreamContract E) (session : Session κ) (stream : σ) :
    ∃ self results last, State.create stream session.target session.level = .ok self ∧
      Yields (fun fuel => runOps E session.flushBuffer fuel (session.configured self) session.ops)
        (results, last) ∧
      ((∃ result, results.getLast? = some result ∧ Failed E last.stream result.1) ∨
        results.length = session.ops.length ∧
        (∀ result ∈ results, result.1 = .returned () ∧ ∀ source ∈ result.2, source.remaining = []) ∧
        (session.ops.getLast? = some .flush →
          Suffices C.IsFrame (passed last.handed) (session.ops.flatMap Op.bytes)) ∧
        ∃ ended, Yields (fun fuel => close E session.flushBuffer fuel last) ended ∧
          (Failed E ended.self.stream ended.outcome ∨ ended.outcome = .returned () ∧
            C.IsFrame ⟨passed ended.self.handed, session.ops.flatMap Op.bytes⟩)) := by
  have hcreate : ∃ self : State σ κ,
      State.create stream session.target session.level = .ok self ∧
        Running C false [] (session.configured self) :=
    ⟨_, if_neg (not_not.mpr session.target_direct),
      .idle rfl session.target_direct rfl rfl rfl rfl⟩
  obtain ⟨self, hself, hrunning⟩ := hcreate
  obtain ⟨results, last, hyields, hpost⟩ :=
    hrunning.runOps session.obliging session.source_direct
  refine ⟨self, results, last, hself, hyields, hpost.imp_right ?_⟩
  rintro ⟨hlength, hreturned, hlast, hflush⟩
  rw [session.compresses, Bool.or_true, List.nil_append] at hlast
  obtain ⟨ended, hclosed, hended⟩ := hlast.close session.obliging
  refine ⟨hlength, hreturned, hflush, ended, hended, hclosed.imp_right ?_⟩
  rintro ⟨houtcome, hframe⟩
  exact ⟨houtcome, hframe rfl⟩

/-! ## A compressor that meets the contract -/

/-- The compressor that does not compress, whatever the session is initialized with. -/
def rawStream (κ : Type) : Encoder RawState (Init κ) Byte Byte where
  encode := rawEncoder.encode
  reset := rawEncoder.reset
  configure _ _ := (⟨[], .fresh⟩, 0)

/-- A call without room emits nothing and keeps the queue. -/
theorem emit_full (queue : List Byte) (stage : RawStage) :
    RawState.emit queue stage 0 0 = (⟨queue, stage⟩, ⟨0, [], if queue = [] then 0 else 1⟩) := by
  simp [RawState.emit]

theorem queue_nil_of_ret {queue : List Byte} (hret : (if queue = [] then 0 else 1) = 0) :
    queue = [] := by
  by_contra hne
  rw [if_neg hne] at hret
  exact absurd hret Nat.one_ne_zero

/-- It behaves as documented. -/
def rawStreamContract (κ : Type) : StreamContract (rawStream κ) where
  IsFrame := IsRawFrame
  contract :=
    { place := RawPlace
      reset := rawContract.reset
      goOn := rawContract.goOn
      flush := rawContract.flush
      finish := rawContract.finish }
  init _ _ _ := ⟨10, rfl, rfl, rfl⟩
  flush_full := by
    rintro ⟨queue, stage⟩ fed output pending hplace next reply hencode -
    have hemit : RawState.emit queue stage 0 0 = (next, reply) := hencode
    rw [emit_full, Prod.mk.injEq] at hemit
    obtain ⟨rfl, rfl⟩ := hemit
    refine ⟨rfl, pending, Nat.le_refl _, hplace, fun hret => ?_⟩
    have hempty := queue_nil_of_ret hret
    cases stage with
    | fresh =>
        obtain ⟨rfl, -, -⟩ := hplace
        exact fun _ _ _ => List.nil_prefix
    | begun =>
        have houtput : output ++ queue = rawHeader ++ rawBlocks fed := hplace.1
        rw [hempty, List.append_nil] at houtput
        exact houtput ▸ suffices_rawBlocks fed
    | closing => exact hplace.elim
  finish_full := by
    rintro closing ⟨queue, stage⟩ fed output pending hplace next reply hencode -
    have hfinish {queue' : List Byte} (hall : output ++ queue' = rawFrame fed)
        (hbound : queue'.length ≤ pending)
        (hemit : RawState.emit queue' .closing 0 0 = (next, reply)) :
        reply.emitted = [] ∧ (reply.ret = 0 → IsRawFrame ⟨output, fed⟩) ∧
          (reply.ret ≠ 0 → ∃ pending' ≤ pending, RawPlace true next fed output pending') := by
      rw [emit_full, Prod.mk.injEq] at hemit
      obtain ⟨rfl, rfl⟩ := hemit
      refine ⟨rfl, fun hret => ?_, fun _ => ⟨_, hbound, hall, rfl⟩⟩
      rw [queue_nil_of_ret hret, List.append_nil] at hall
      exact hall
    cases closing with
    | false =>
        cases stage with
        | fresh =>
            obtain ⟨rfl, hempty, rfl⟩ := hplace
            refine hfinish ?_ ?_ hencode
            · rw [← List.append_assoc, hempty]
              rfl
            · simp only [List.length_append, rawHeader, rawTrailer, List.length_cons,
                List.length_nil]
              omega
        | begun =>
            obtain ⟨houtput, rfl⟩ := hplace
            refine hfinish ?_ ?_ hencode
            · rw [← List.append_assoc, houtput, List.append_assoc]
              rfl
            · simp only [List.length_append, rawTrailer, List.length_cons, List.length_nil]
              omega
        | closing => exact hplace.elim
    | true =>
        cases stage with
        | fresh => exact hplace.elim
        | begun => exact hplace.elim
        | closing =>
            obtain ⟨houtput, rfl⟩ := hplace
            exact hfinish houtput (Nat.le_refl _) hencode
  encode_size s directive input room :=
    Nat.lt_of_le_of_lt (ret_rawEncoder s directive input room) (by decide)
  encode_small s directive input room _ :=
    Nat.lt_of_le_of_lt (ret_rawEncoder s directive input room) (by decide)
  init_size _ _ := Nat.two_pow_pos 64

end ZstdJni.BufferCompress
