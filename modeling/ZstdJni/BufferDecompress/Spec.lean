/-
# What reading into buffers should do

One read takes some of the remaining bytes of the source, writes some content to the
target, and moves both positions by that; a source that is used up is refilled.  Reading
while something remains is a sequence of such reads.

The two native functions come down to one call on the remaining bytes, whatever the
offsets of the buffers in their storage.
-/

import ZstdJni.BufferDecompress.Model

namespace ZstdJni.BufferDecompress

open ZstdJni.Foundation ZstdJni.Native

variable {σ : Type}

/-- The buffer has the storage that the stream requires. -/
def Buffer.Serves (buffer : Buffer) (direct : Bool) : Prop :=
  buffer.kind = if direct then .direct else .array

/-- The number of bytes from the position to the limit. -/
def Buffer.room (buffer : Buffer) : ℕ := buffer.limit - buffer.position

theorem Buffer.length_remaining (buffer : Buffer) : buffer.remaining.length = buffer.room := by
  have hlimit := buffer.limit_le
  have hfits := buffer.fits
  rw [Buffer.remaining, length_window _ (by omega), Buffer.room]
  omega

theorem Buffer.hasRemaining_iff (buffer : Buffer) :
    buffer.hasRemaining = true ↔ buffer.remaining ≠ [] := by
  rw [Buffer.hasRemaining, decide_eq_true_iff, ← List.length_pos_iff, buffer.length_remaining,
    Buffer.room]
  omega

theorem Buffer.hasRemaining_eq_false_iff (buffer : Buffer) :
    buffer.hasRemaining = false ↔ buffer.remaining = [] := by
  rw [← Bool.not_eq_true, Buffer.hasRemaining_iff, ne_eq, not_not]

theorem Buffer.room_pos (buffer : Buffer) : 0 < buffer.room ↔ buffer.hasRemaining = true := by
  rw [Buffer.hasRemaining, decide_eq_true_iff, Buffer.room]
  omega

/-- The decompressor, called with the remaining bytes of the source and the room in the
target. -/
def decodeRemaining (D : Decoder σ Byte Byte) (stream : σ) (target source : Buffer) : Decoded σ :=
  let (next, reply) := D.decode stream source.remaining target.room
  { remaining := jlong reply.ret
    stream := next
    target := target.writeAt (target.arrayOffset + target.position) reply.emitted
    consumed := reply.consumed
    produced := reply.emitted.length }

section Native

variable (D : Decoder σ Byte Byte) (stream : σ) {target source : Buffer}

theorem callDecompressStream_eq :
    callDecompressStream D stream target source ((target.arrayOffset : ℤ) + target.position)
      ((target.limit : ℤ) - target.position) ((source.arrayOffset : ℤ) + source.position)
      ((source.limit : ℤ) - source.position) = decodeRemaining D stream target source := by
  have hsource := source.position_le
  have htarget := target.position_le
  have hstart : ((source.arrayOffset : ℤ) + source.position).toNat =
      source.arrayOffset + source.position := by omega
  have hend : ((source.arrayOffset : ℤ) + source.position +
      ((source.limit : ℤ) - source.position)).toNat = source.arrayOffset + source.limit := by omega
  have hdst : ((target.arrayOffset : ℤ) + target.position).toNat =
      target.arrayOffset + target.position := by omega
  have hroom : ((target.limit : ℤ) - target.position).toNat = target.room := by
    rw [Buffer.room]
    omega
  simp only [callDecompressStream, decodeRemaining, hstart, hend, hdst, hroom, Buffer.remaining]

theorem decompressStreamDirect_eq (htarget : target.kind = .direct)
    (hsource : source.kind = .direct) :
    decompressStreamDirect D stream target source target.position
      ((target.limit : ℤ) - target.position) source.position
      ((source.limit : ℤ) - source.position) = decodeRemaining D stream target source := by
  have htargetLimit := target.limit_le
  have hsourceLimit := source.limit_le
  rw [decompressStreamDirect, Buffer.directCapacity, Buffer.directCapacity, if_pos htarget,
    if_pos hsource, if_neg (by omega), if_neg (by omega), callDecompressStream_eq]

theorem decompressStreamArray_eq (htarget : target.kind = .array) (hsource : source.kind = .array) :
    decompressStreamArray D stream target source (addInt target.position target.arrayOffset)
      ((target.limit : ℤ) - target.position) (addInt source.position source.arrayOffset)
      ((source.limit : ℤ) - source.position) = decodeRemaining D stream target source := by
  have htargetLimit := target.limit_le
  have hsourceLimit := source.limit_le
  have htargetFits := target.fits
  have hsourceFits := source.fits
  have htargetLt := target.array_lt htarget
  have hsourceLt := source.array_lt hsource
  have htargetLe := target.position_le
  have hsourceLe := source.position_le
  have hdst : addInt target.position target.arrayOffset = target.arrayOffset + target.position := by
    rw [addInt_of_lt (by omega) (by omega), Int.add_comm]
  have hsrc : addInt source.position source.arrayOffset = source.arrayOffset + source.position := by
    rw [addInt_of_lt (by omega) (by omega), Int.add_comm]
  rw [hdst, hsrc, decompressStreamArray, if_neg (by omega), if_neg (by omega), if_neg (by omega),
    if_neg (by omega), if_neg (by omega), if_neg (by omega), callDecompressStream_eq]

/-- Both subclasses call the decompressor with the remaining bytes. -/
theorem decompressStream_eq {direct : Bool} (htarget : target.Serves direct)
    (hsource : source.Serves direct) :
    decompressStream D stream target source direct =
      .ok (decodeRemaining D stream target source) := by
  cases direct with
  | true =>
      simp only [decompressStream, if_true]
      rw [decompressStreamDirect_eq D stream htarget hsource]
  | false =>
      have htargetKind : target.kind = .array := htarget
      have hsourceKind : source.kind = .array := hsource
      simp only [decompressStream, Bool.false_eq_true, if_false, htargetKind, hsourceKind, ne_eq,
        not_true_eq_false]
      rw [decompressStreamArray_eq D stream htargetKind hsourceKind]

/-- With the required storage, `read` is `readInternal`. -/
theorem read_eq {direct : Bool} (htarget : target.Serves direct) (refill : Refill) (st : State σ) :
    read D refill direct target st = readInternal D refill direct target st := by
  cases direct with
  | true =>
      have hkind : target.kind = .direct := htarget
      simp [read, hkind]
  | false =>
      have hkind : target.kind = .array := htarget
      simp [read, hkind]

end Native

theorem Buffer.setPosition_ok {buffer : Buffer} {newPosition : ℕ}
    (hle : newPosition ≤ buffer.limit) :
    buffer.setPosition newPosition =
      .ok { buffer with position := newPosition, position_le := hle } :=
  dif_pos hle

/-- The buffer after its position has moved on. -/
def Buffer.advance (buffer : Buffer) (count : ℕ) : Buffer :=
  { buffer with
    position := min (buffer.position + count) buffer.limit
    position_le := Nat.min_le_right _ _ }

theorem Buffer.setPosition_advance {buffer : Buffer} {count : ℕ} (hcount : count ≤ buffer.room) :
    buffer.setPosition (buffer.position + count) = .ok (buffer.advance count) := by
  have hle := buffer.position_le
  rw [Buffer.room] at hcount
  rw [Buffer.setPosition_ok (by omega)]
  simp only [Buffer.advance, Nat.min_eq_left (show buffer.position + count ≤ buffer.limit by omega)]

theorem Buffer.remaining_advance {buffer : Buffer} {count : ℕ} (hcount : count ≤ buffer.room) :
    (buffer.advance count).remaining = buffer.remaining.drop count := by
  have hle := buffer.position_le
  rw [Buffer.room] at hcount
  simp only [Buffer.remaining, Buffer.advance,
    Nat.min_eq_left (show buffer.position + count ≤ buffer.limit by omega), ← Nat.add_assoc,
    window_add]

theorem Buffer.writeAt_position {buffer : Buffer} {bytes : List Byte}
    (hbytes : bytes.length ≤ buffer.room) :
    (buffer.writeAt (buffer.arrayOffset + buffer.position) bytes).storage =
        overwrite buffer.storage (buffer.arrayOffset + buffer.position) bytes ∧
      (buffer.writeAt (buffer.arrayOffset + buffer.position) bytes).position = buffer.position ∧
      (buffer.writeAt (buffer.arrayOffset + buffer.position) bytes).room = buffer.room := by
  have hlimit := buffer.limit_le
  have hfits := buffer.fits
  have hle := buffer.position_le
  rw [Buffer.room] at hbytes
  rw [Buffer.writeAt, dif_pos (by omega)]
  exact ⟨rfl, rfl, rfl⟩

/-- The target after a read that emitted some bytes. -/
def Buffer.filled (target : Buffer) (bytes : List Byte) : Buffer :=
  (target.writeAt (target.arrayOffset + target.position) bytes).advance bytes.length

theorem Buffer.filled_spec {target : Buffer} {bytes : List Byte}
    (hbytes : bytes.length ≤ target.room) :
    (target.filled bytes).storage =
        overwrite target.storage (target.arrayOffset + target.position) bytes ∧
      (target.filled bytes).position = target.position + bytes.length := by
  obtain ⟨hstorage, hposition, hroom⟩ := Buffer.writeAt_position hbytes
  have hlimit : target.position + bytes.length ≤
      (target.writeAt (target.arrayOffset + target.position) bytes).limit := by
    have hle := (target.writeAt (target.arrayOffset + target.position) bytes).position_le
    rw [Buffer.room, hposition] at hroom
    omega
  refine ⟨hstorage, ?_⟩
  simp only [Buffer.filled, Buffer.advance, hposition, Nat.min_eq_left hlimit]

section Read

variable {D : Decoder σ Byte Byte} {refill : Refill} {direct : Bool} {st : State σ}
  {target source : Buffer} {next : σ} {reply : Reply Byte}

/-- The object after a read that leaves `source` at hand. -/
def State.afterRead (st : State σ) (next : σ) (ret : ℕ) (source : Buffer) (refills : ℕ) : State σ :=
  { st with
    stream := next
    source := some source
    finishedFrame := decide (ret = 0)
    streamEnd := if decide (ret = 0) then !source.hasRemaining else st.streamEnd
    refills := refills }

variable (refill) in
/-- A read whose call of the decompressor fails. -/
theorem read_error (hopen : st.closed = false) (hend : st.streamEnd = false)
    (hsource : st.source = some source) (htarget : target.Serves direct)
    (hserves : source.Serves direct)
    (hdecode : D.decode st.stream source.remaining target.room = (next, reply))
    (hsize : reply.ret < 2 ^ 64) (herror : zstdIsError reply.ret = true) :
    (read D refill direct target st).outcome = .threw (.ofIOResult (jlong reply.ret)) := by
  have hisError : isError (jlong reply.ret) = true := by rw [isError_jlong hsize, herror]
  rw [read_eq D htarget]
  simp only [readInternal, hopen, hend, Bool.false_eq_true, if_false, hsource,
    decompressStream_eq D st.stream htarget hserves, decodeRemaining, hdecode, hisError, if_true]

theorem jlong_eq_zero_iff {size : ℕ} (hsize : size < 2 ^ 64) : jlong size = 0 ↔ size = 0 := by
  simp only [jlong, narrow]
  omega

variable (refill) in
/-- A read whose call of the decompressor succeeds, with the source at hand used up or
not. -/
theorem read_ok (hopen : st.closed = false) (hend : st.streamEnd = false)
    (hsource : st.source = some source) (htarget : target.Serves direct)
    (hserves : source.Serves direct)
    (hdecode : D.decode st.stream source.remaining target.room = (next, reply))
    (hsize : reply.ret < 2 ^ 64) (hok : zstdIsError reply.ret = false)
    (hconsumed : reply.consumed ≤ source.remaining.length)
    (hemitted : reply.emitted.length ≤ target.room)
    (hrefill : (source.advance reply.consumed).remaining = [] →
      ∃ refilled, refill st.refills (source.advance reply.consumed) = .returned refilled ∧
        refilled.Serves direct) :
    ∃ source' refills', read D refill direct target st =
        ⟨.returned reply.emitted.length, st.afterRead next reply.ret source' refills',
          target.filled reply.emitted⟩ ∧
      source'.Serves direct ∧
      ((source.advance reply.consumed).hasRemaining = true →
        source' = source.advance reply.consumed ∧ refills' = st.refills) ∧
      ((source.advance reply.consumed).hasRemaining = false →
        refill st.refills (source.advance reply.consumed) = .returned source' ∧
          refills' = st.refills + 1) := by
  have hisError : isError (jlong reply.ret) = false := by rw [isError_jlong hsize, hok]
  rw [source.length_remaining] at hconsumed
  obtain ⟨-, hposition, hroom⟩ := Buffer.writeAt_position hemitted
  have hmoved := Buffer.setPosition_advance hconsumed
  have htargetMoved := Buffer.setPosition_advance
    (Nat.le_trans hemitted (Nat.le_of_eq hroom.symm))
  have hzero : decide (jlong reply.ret = 0) = decide (reply.ret = 0) := by
    simp only [jlong_eq_zero_iff hsize]
  rw [read_eq D htarget]
  simp only [readInternal, hopen, hend, Bool.false_eq_true, if_false, hsource,
    decompressStream_eq D st.stream htarget hserves, decodeRemaining, hdecode, hisError,
    afterDecode, hmoved, htargetMoved]
  cases hleft : (source.advance reply.consumed).hasRemaining with
  | true =>
      refine ⟨source.advance reply.consumed, st.refills, ?_, hserves, fun _ => ⟨rfl, rfl⟩,
        fun h => absurd h (by simp)⟩
      simp only [not_true_eq_false, if_false, finishRead, hzero, State.afterRead, Buffer.filled,
        hopen, hend]
  | false =>
      have hempty := (Buffer.hasRemaining_eq_false_iff _).mp hleft
      obtain ⟨refilled, hrefilled, hrefilledServes⟩ := hrefill hempty
      refine ⟨refilled, st.refills + 1, ?_, hrefilledServes, fun h => absurd h (by simp),
        fun _ => ⟨hrefilled, rfl⟩⟩
      have hkind : ¬ (¬ direct = true ∧ refilled.kind = .direct) ∧
          ¬ (direct = true ∧ refilled.kind ≠ .direct) := by
        rw [Buffer.Serves] at hrefilledServes
        cases direct <;> simp [hrefilledServes]
      simp only [Bool.false_eq_true, not_false_eq_true, if_true, hrefilled, hkind.1, hkind.2,
        if_false, finishRead, hzero, State.afterRead, Buffer.filled, hopen, hend]

end Read

/-- One read on an open stream, by which `taken` is taken off the source and `emitted` is
written to the target. -/
structure ReadStep (D : Decoder σ Byte Byte) (refill : Refill) (st : State σ) (target : Buffer)
    (ended : Ended σ) (taken emitted : List Byte) : Prop where
  outcome : ended.outcome = .returned emitted.length
  /-- The target holds the emitted bytes at its position, which has moved behind them. -/
  storage : ended.target.storage =
    overwrite target.storage (target.arrayOffset + target.position) emitted
  position : ended.target.position = target.position + emitted.length
  /-- The position of the source has moved by what the decompressor consumed, and a source
  that is used up was refilled. -/
  source : ∃ source moved reply, st.source = some source ∧
    D.decode st.stream source.remaining target.room = (ended.object.stream, reply) ∧
    taken = source.remaining.take reply.consumed ∧ emitted = reply.emitted ∧
    source.setPosition (source.position + reply.consumed) = .ok moved ∧
    (moved.hasRemaining = true → ended.object.source = some moved) ∧
    (moved.hasRemaining = false → ∃ refilled, refill st.refills moved = .returned refilled ∧
      ended.object.source = some refilled)
  finished : ended.object.finishedFrame = true ↔ ∃ source reply, st.source = some source ∧
    D.decode st.stream source.remaining target.room = (ended.object.stream, reply) ∧ reply.ret = 0

/-- Reads, one after the other while something remains, with the targets from number `n`
on: how each of them ended, what it took off the source and what it wrote. -/
inductive Reads (D : Decoder σ Byte Byte) (refill : Refill) (direct : Bool) (targets : ℕ → Buffer) :
    ℕ → State σ → List (Ended σ) → List (List Byte) → List (List Byte) → Prop
  | stop (n : ℕ) (st : State σ) (hstop : st.hasRemaining = false) :
      Reads D refill direct targets n st [] [] []
  | read {n : ℕ} {st : State σ} {ended : Ended σ} {ends : List (Ended σ)}
      {taken emitted : List Byte} {takens emitteds : List (List Byte)}
      (hmore : st.hasRemaining = true)
      (hended : ended = read D refill direct (targets n) st)
      (hstep : ReadStep D refill st (targets n) ended taken emitted)
      (hrest : Reads D refill direct targets (n + 1) ended.object ends takens emitteds) :
      Reads D refill direct targets n st (ended :: ends) (taken :: takens) (emitted :: emitteds)

/-- The variables of the documented loop: the number of reads, the object, and how the
reads ended. -/
structure LoopState (σ : Type) where
  reads : ℕ
  object : State σ
  ends : List (Ended σ)

/-- The documented loop `while (hasRemaining()) read(target)`, with the targets in turn. -/
def loopTurn (D : Decoder σ Byte Byte) (refill : Refill) (direct : Bool) (targets : ℕ → Buffer)
    (loop : LoopState σ) : Turn (LoopState σ) (LoopState σ) :=
  if loop.object.hasRemaining then
    let ended := read D refill direct (targets loop.reads) loop.object
    let next := ⟨loop.reads + 1, ended.object, loop.ends ++ [ended]⟩
    match ended.outcome with
    | .returned _ => .again next
    | .threw _ => .leave next
  else .leave loop

/-- The loop on a stream that was just opened. -/
def readLoop (D : Decoder σ Byte Byte) (refill : Refill) (direct : Bool) (targets : ℕ → Buffer)
    (stream : σ) (source : Buffer) (fuel : ℕ) : Option (LoopState σ) :=
  iterate (fun loop => some (loopTurn D refill direct targets loop)) fuel
    ⟨0, State.create stream source, []⟩

end ZstdJni.BufferDecompress
