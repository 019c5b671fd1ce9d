/-
# The buffer-decompressing streams

`BaseZstdBufferDecompressingStreamNoFinalizer` with its two subclasses, one for direct
buffers and one for buffers with an array: `hasRemaining`, `read`, `refill`, the two
native functions behind `decompressStream`, and `close`.

A buffer carries its storage, since the source and the target of a call never share it.
The native decompressor is a parameter, and so is what an overridden `refill` answers.
The dictionary is modelled with the dictionaries.
-/

import ZstdJni.Foundation.Loop
import ZstdJni.Native.DStream

namespace ZstdJni.BufferDecompress

open ZstdJni.Foundation ZstdJni.Native

variable {σ : Type}

/-- A byte buffer: a view of its storage from `arrayOffset` on. -/
structure Buffer where
  kind : Kind
  storage : List Byte
  arrayOffset : ℕ
  position : ℕ
  limit : ℕ
  capacity : ℕ
  position_le : position ≤ limit
  limit_le : limit ≤ capacity
  fits : arrayOffset + capacity ≤ storage.length
  capacity_lt : capacity < 2 ^ 31
  array_lt : kind = .array → storage.length < 2 ^ 31

namespace Buffer

/-- The bytes from the position to the limit. -/
def remaining (buffer : Buffer) : List Byte :=
  window buffer.storage (buffer.arrayOffset + buffer.position) (buffer.arrayOffset + buffer.limit)

/-- `buffer.hasRemaining()`. -/
def hasRemaining (buffer : Buffer) : Bool := decide (buffer.position < buffer.limit)

/-- `buffer.position(newPosition)`. -/
def setPosition (buffer : Buffer) (newPosition : ℕ) : Except JavaException Buffer :=
  if h : newPosition ≤ buffer.limit then
    .ok { buffer with position := newPosition, position_le := h }
  else .error (.illegalArgument "newPosition > limit")

/-- `buffer.clear()`. -/
def clear (buffer : Buffer) : Buffer :=
  { buffer with
    position := 0
    limit := buffer.capacity
    position_le := Nat.zero_le _
    limit_le := Nat.le_refl _ }

/-- The buffer after some bytes were written to its storage. -/
def writeAt (buffer : Buffer) (offset : ℕ) (bytes : List Byte) : Buffer :=
  if h : offset + bytes.length ≤ buffer.storage.length then
    { buffer with
      storage := overwrite buffer.storage offset bytes
      fits := (length_overwrite h).symm ▸ buffer.fits
      array_lt := (length_overwrite h).symm ▸ buffer.array_lt }
  else buffer

/-- `GetDirectBufferCapacity`. -/
def directCapacity (buffer : Buffer) : ℤ :=
  if buffer.kind = .direct then buffer.capacity else -1

end Buffer

/-- What the native call leaves behind: its result, the native stream, the target with
what was written to it, and the two fields it sets. -/
structure Decoded (σ : Type) where
  remaining : ℤ
  stream : σ
  target : Buffer
  consumed : ℕ
  produced : ℕ

section Native

variable (D : Decoder σ Byte Byte) (stream : σ) (target source : Buffer)

/-- The call of `ZSTD_decompressStream` in both native functions, with the offsets of the
two windows in their storage. -/
def callDecompressStream (dstOffset dstSize srcOffset srcSize : ℤ) : Decoded σ :=
  let input := window source.storage srcOffset.toNat (srcOffset + srcSize).toNat
  let (next, reply) := D.decode stream input dstSize.toNat
  { remaining := jlong reply.ret
    stream := next
    target := target.writeAt dstOffset.toNat reply.emitted
    consumed := reply.consumed
    produced := reply.emitted.length }

/-- A native call that returns an error before it decompresses. -/
def refused (code : ErrorCode) : Decoded σ := ⟨jlong code.result, stream, target, 0, 0⟩

/-- The native function for arrays. -/
def decompressStreamArray (dstOffset dstSize srcOffset srcSize : ℤ) : Decoded σ :=
  if 0 > dstOffset then refused stream target .dstSizeTooSmall
  else if 0 > srcOffset then refused stream target .srcSizeWrong
  else if 0 > srcSize then refused stream target .srcSizeWrong
  else if 0 > dstSize then refused stream target .dstSizeTooSmall
  else if srcOffset + srcSize > source.storage.length then refused stream target .srcSizeWrong
  else if dstOffset + dstSize > target.storage.length then refused stream target .dstSizeTooSmall
  else callDecompressStream D stream target source dstOffset dstSize srcOffset srcSize

/-- The native function for direct buffers: the offsets are relative to the address of
the buffer. -/
def decompressStreamDirect (dstOffset dstSize srcOffset srcSize : ℤ) : Decoded σ :=
  if dstOffset + dstSize > target.directCapacity then refused stream target .dstSizeTooSmall
  else if srcOffset + srcSize > source.directCapacity then refused stream target .srcSizeWrong
  else
    callDecompressStream D stream target source (target.arrayOffset + dstOffset) dstSize
      (source.arrayOffset + srcOffset) srcSize

/-- `decompressStream` of the two subclasses, on the remaining bytes of both buffers. -/
def decompressStream (direct : Bool) : Except JavaException (Decoded σ) :=
  let dstSize : ℤ := target.limit - target.position
  let srcSize : ℤ := source.limit - source.position
  if direct then
    .ok (decompressStreamDirect D stream target source target.position dstSize source.position
      srcSize)
  else if source.kind ≠ .array then
    .error (.illegalArgument "provided source ByteBuffer lacks array")
  else if target.kind ≠ .array then
    .error (.illegalArgument "provided destination ByteBuffer lacks array")
  else
    .ok (decompressStreamArray D stream target source
      (addInt target.position target.arrayOffset) dstSize
      (addInt source.position source.arrayOffset) srcSize)

end Native

/-- What `refill` answers: the result of its n-th call with the current buffer. -/
abbrev Refill := ℕ → Buffer → Outcome Buffer

/-- The `refill` that is not overridden. -/
def Refill.default : Refill := fun _ toRefill => .returned toRefill

/-- The fields of the object, with the native stream and the number of calls of `refill`
so far. -/
structure State (σ : Type) where
  stream : σ
  source : Option Buffer
  closed : Bool
  finishedFrame : Bool
  streamEnd : Bool
  refills : ℕ

/-- The object after its constructor. -/
def State.create (stream : σ) (source : Buffer) : State σ where
  stream := stream
  source := some source
  closed := false
  finishedFrame := false
  streamEnd := false
  refills := 0

/-- `hasRemaining()`. -/
def State.hasRemaining (st : State σ) : Bool :=
  match st.source with
  | none => false
  | some source =>
    !st.closed && !st.streamEnd && (source.hasRemaining || !st.finishedFrame)

/-- How a read ends: its outcome, the object and the target afterwards. -/
structure Ended (σ : Type) where
  outcome : Outcome ℤ
  object : State σ
  target : Buffer

/-- The end of `readInternal`: the flags after a call that returned `remaining`, with the
source at hand. -/
def finishRead (remaining : ℤ) (produced : ℕ) (source : Buffer) (st : State σ) (target : Buffer) :
    Ended σ :=
  let finishedFrame := decide (remaining = 0)
  ⟨.returned produced,
    { st with
      source := some source
      finishedFrame := finishedFrame
      streamEnd := if finishedFrame then !source.hasRemaining else st.streamEnd },
    target⟩

/-- The part of `readInternal` behind the native call: the positions, the refill and the
flags. -/
def afterDecode (refill : Refill) (direct : Bool) (decoded : Decoded σ) (source : Buffer)
    (st : State σ) : Ended σ :=
  match source.setPosition (source.position + decoded.consumed) with
  | .error e => ⟨.threw e, st, decoded.target⟩
  | .ok source =>
    let st := { st with source := some source }
    match decoded.target.setPosition (decoded.target.position + decoded.produced) with
    | .error e => ⟨.threw e, st, decoded.target⟩
    | .ok target =>
      if ¬ source.hasRemaining then
        match refill st.refills source with
        | .threw e => ⟨.threw e, { st with refills := st.refills + 1 }, target⟩
        | .returned refilled =>
          let st := { st with source := some refilled, refills := st.refills + 1 }
          if ¬ direct ∧ refilled.kind = .direct then
            ⟨.threw (.illegalArgument "Source buffer should be a non-direct buffer"), st, target⟩
          else if direct ∧ refilled.kind ≠ .direct then
            ⟨.threw (.illegalArgument "Source buffer should be a direct buffer"), st, target⟩
          else finishRead decoded.remaining decoded.produced refilled st target
      else finishRead decoded.remaining decoded.produced source st target

/-- `readInternal(target, isDirectBufferRequired)`. -/
def readInternal (D : Decoder σ Byte Byte) (refill : Refill) (direct : Bool) (target : Buffer)
    (st : State σ) : Ended σ :=
  if st.closed then ⟨.threw (.ioException "Stream closed"), st, target⟩
  else if st.streamEnd then ⟨.returned 0, st, target⟩
  else
    match st.source with
    | none => ⟨.threw (.ioException "Stream closed"), st, target⟩
    | some source =>
      match decompressStream D st.stream target source direct with
      | .error e => ⟨.threw e, st, target⟩
      | .ok decoded =>
        let st := { st with stream := decoded.stream }
        if isError decoded.remaining then
          ⟨.threw (.ofIOResult decoded.remaining), st, decoded.target⟩
        else afterDecode refill direct decoded source st

/-- `read(target)` of the two subclasses. -/
def read (D : Decoder σ Byte Byte) (refill : Refill) (direct : Bool) (target : Buffer)
    (st : State σ) : Ended σ :=
  if direct then
    if target.kind ≠ .direct then
      ⟨.threw (.illegalArgument "Target buffer should be a direct buffer"), st, target⟩
    else readInternal D refill direct target st
  else if target.kind = .direct then
    ⟨.threw (.illegalArgument "Target buffer should be a non-direct buffer"), st, target⟩
  else readInternal D refill direct target st

/-- `close()`, as far as reading is concerned. -/
def close (st : State σ) : State σ :=
  if st.closed then st else { st with closed := true, source := none }

end ZstdJni.BufferDecompress
