/-
# `ZstdInputStreamNoFinalizer`

The decompressing input stream, as the source has it: the fields of the object,
the native call behind `decompressStream`, the loop of `readInternal`, the retry
loops of both `read` methods and the loop of `skip`.

The wrapped stream is a script of answers to its `read` calls, each a chunk of
bytes or the end of input, together with the answers of `available`.  A script
that has run out answers with the end of input.  The native decompressor is a
parameter.  The methods that touch dictionaries are modelled with the
dictionaries, and the pool enters only through the array that `skip` borrows.
-/

import ZstdJni.Foundation.Loop
import ZstdJni.Native.DStream

namespace ZstdJni.InputStream

open ZstdJni.Foundation ZstdJni.Native

variable {σ : Type}

/-- The size of the source buffer, `recommendedDInSize()`: a block with its header. -/
def srcBuffSize : ℕ := 131075

/-- The size of the buffer that `skip` borrows at most, `recommendedDOutSize()`. -/
def recommendedDOutSize : ℕ := 131072

/-- The wrapped stream: what its `read` calls answer, `none` for the end of input,
and what its `available` calls answer. -/
structure Upstream where
  script : List (Option (List Byte))
  avail : ℕ → ℤ

namespace Upstream

/-- One `in.read(src, 0, srcBuffSize)`. -/
def read (up : Upstream) : Option (List Byte) × Upstream :=
  match up.script with
  | [] => (none, up)
  | answer :: rest => (answer, { up with script := rest })

/-- One `in.available()`. -/
def available (up : Upstream) : ℤ × Upstream :=
  (up.avail 0, { up with avail := fun n => up.avail (n + 1) })

end Upstream

/-- The bytes that a sequence of answers supplies. -/
def supplied (script : List (Option (List Byte))) : List Byte :=
  script.flatMap (Option.getD · [])

/-- The fields of a `ZstdInputStreamNoFinalizer`, with the native stream behind it
and the stream it wraps. -/
structure State (σ : Type) where
  stream : σ
  upstream : Upstream
  src : List Byte
  dstPos : ℕ
  srcPos : ℕ
  srcSize : ℕ
  needRead : Bool
  isContinuous : Bool
  frameFinished : Bool
  isClosed : Bool

/-- The stream as its constructor leaves it. -/
def State.create (stream : σ) (upstream : Upstream) : State σ where
  stream := stream
  upstream := upstream
  src := List.replicate srcBuffSize 0
  dstPos := 0
  srcPos := 0
  srcSize := 0
  needRead := true
  isContinuous := false
  frameFinished := true
  isClosed := false

/-- `setContinuous(b)`. -/
def State.setContinuous (self : State σ) (b : Bool) : State σ :=
  { self with isContinuous := b }

/-- `setDict` for bytes or for a dictionary in native memory, which may refuse to be acquired,
`setLongMax` and `setRefMultipleDDicts`: the result of the native call is checked. -/
def State.set (acquired : Outcome Unit) (configure : σ → σ × ℕ) (self : State σ) :
    Outcome Unit × State σ :=
  if self.isClosed then (.threw (.ioException "Stream closed"), self)
  else
    match acquired with
    | .threw e => (.threw e, self)
    | .returned _ =>
      let (next, size) := configure self.stream
      let self := { self with stream := next }
      if isError (jint size) then (.threw (.ofIOResult (jint size)), self) else (.returned (), self)

/-- The bytes of the source buffer that were read but not yet taken. -/
def State.pending (self : State σ) : List Byte :=
  window self.src self.srcPos self.srcSize

/-- The native method `decompressStream`: it decodes from the pending part of the
source buffer into `dst` below `dstSize`, and stores both new positions. -/
def decompressStream (D : Decoder σ Byte Byte) (self : State σ) (dst : List Byte)
    (dstSize : ℕ) : ℤ × List Byte × State σ :=
  let (next, reply) := D.decode self.stream self.pending (dstSize - self.dstPos)
  (jint reply.ret, overwrite dst self.dstPos reply.emitted,
    { self with
      stream := next
      dstPos := self.dstPos + reply.emitted.length
      srcPos := self.srcPos + reply.consumed })

/-- How a method that fills an array ends: its outcome, the array and the object. -/
structure Ended (σ : Type) where
  outcome : Outcome ℤ
  dst : List Byte
  self : State σ

/-- The variables of the loop in `readInternal`. -/
structure ReadState (σ : Type) where
  self : State σ
  dst : List Byte
  lastDstPos : ℤ

/-- The exception for an end of input inside a frame. -/
def truncatedSource : JavaException :=
  .zstdIOException ErrorCode.corruptionDetected.value "Truncated source"

/-- What the block that reads from the wrapped stream decides. -/
inductive Fetch (σ : Type)
  | ended (outcome : Outcome ℤ) (self : State σ)
  | empty (self : State σ)
  | filled (self : State σ)

/-- The block of `readInternal` that reads from the wrapped stream. -/
def fetch (offset : ℕ) (self : State σ) : Fetch σ :=
  match self.upstream.read with
  | (none, up) =>
    let self := { self with upstream := up, srcPos := 0, srcSize := 0 }
    if self.frameFinished then .ended (.returned (-1)) self
    else if self.isContinuous then
      let self := { self with srcSize := self.dstPos - offset }
      if 0 < self.srcSize then .ended (.returned self.srcSize) self
      else .ended (.returned (-1)) self
    else .ended (.threw truncatedSource) self
  | (some [], up) => .empty { self with upstream := up, srcPos := 0, srcSize := 0 }
  | (some chunk, up) =>
    .filled { self with
      upstream := up
      src := overwrite self.src 0 chunk
      srcPos := 0
      srcSize := chunk.length
      frameFinished := false }

/-- The part of a turn of `readInternal` from the native call on. -/
def decodeTurn (D : Decoder σ Byte Byte) (offset dstSize : ℕ) (self : State σ)
    (dst : List Byte) : Turn (ReadState σ) (Ended σ) :=
  let lastDstPos := self.dstPos
  let (size, dst, self) := decompressStream D self dst dstSize
  if isError size then .leave ⟨.threw (.ofIOResult size), dst, self⟩
  else if size = 0 then
    .leave ⟨.returned (self.dstPos - offset), dst,
      { self with frameFinished := true, needRead := self.srcPos == self.srcSize }⟩
  else .again ⟨{ self with needRead := decide (self.dstPos < dstSize) }, dst, lastDstPos⟩

/-- One turn of the loop in `readInternal`.  `available` is only asked when a read
is needed, and the wrapped stream is only read when it claims to have data or the
call has produced nothing yet. -/
def readTurn (D : Decoder σ Byte Byte) (offset dstSize : ℕ) (st : ReadState σ) :
    Turn (ReadState σ) (Ended σ) :=
  if st.self.dstPos < dstSize ∧ st.lastDstPos < st.self.dstPos then
    if st.self.needRead then
      let (available, up) := st.self.upstream.available
      let self := { st.self with upstream := up }
      if 0 < available ∨ self.dstPos = offset then
        match fetch offset self with
        | .ended outcome self => .leave ⟨outcome, st.dst, self⟩
        | .empty self => .again { st with self := self }
        | .filled self => decodeTurn D offset dstSize self st.dst
      else decodeTurn D offset dstSize self st.dst
    else decodeTurn D offset dstSize st.self st.dst
  else .leave ⟨.returned (st.self.dstPos - offset), st.dst, st.self⟩

/-- The bounds test of `read` and `readInternal`. -/
def outOfBounds (dst : List Byte) (offset len : ℤ) : Bool :=
  decide (offset < 0 ∨ len < 0 ∨ dst.length - offset < len)

/-- `readInternal(dst, offset, len)`. -/
def readInternal (D : Decoder σ Byte Byte) (fuel : ℕ) (dst : List Byte) (offset len : ℤ)
    (self : State σ) : Option (Ended σ) :=
  if self.isClosed then some ⟨.threw (.ioException "Stream closed"), dst, self⟩
  else if outOfBounds dst offset len then some ⟨.threw .indexOutOfBounds, dst, self⟩
  else
    iterate (fun st => some (readTurn D offset.toNat (offset + len).toNat st)) fuel
      ⟨{ self with dstPos := offset.toNat }, dst, -1⟩

/-- The loop `while (result == 0) result = readInternal(dst, offset, len)`. -/
def readLoop (D : Decoder σ Byte Byte) (fuel : ℕ) (dst : List Byte) (offset len : ℤ)
    (self : State σ) : Option (Ended σ) :=
  iterate
    (fun st => if st.outcome = .returned 0
      then (readInternal D fuel st.dst offset len st.self).map .again
      else some (.leave st))
    fuel ⟨.returned 0, dst, self⟩

/-- `read(dst, offset, len)`. -/
def read (D : Decoder σ Byte Byte) (fuel : ℕ) (dst : List Byte) (offset len : ℤ)
    (self : State σ) : Option (Ended σ) :=
  if outOfBounds dst offset len then some ⟨.threw .indexOutOfBounds, dst, self⟩
  else if len = 0 then some ⟨.returned 0, dst, self⟩
  else readLoop D fuel dst offset len self

/-- What `read()` returns once its loop has ended. -/
def byteResult (ended : Ended σ) : Ended σ :=
  match ended.outcome with
  | .returned n =>
    { ended with outcome := .returned (if n = 1 then (ended.dst.headD 0).toNat else -1) }
  | .threw _ => ended

/-- `read()`, which reads one byte into an array of its own. -/
def readByte (D : Decoder σ Byte Byte) (fuel : ℕ) (self : State σ) : Option (Ended σ) :=
  (readLoop D fuel [0] 0 1 self).map byteResult

/-- The length of the buffer that `skip` borrows from the pool. -/
def skipBufferLen (numBytes : ℤ) : ℤ := min recommendedDOutSize numBytes

/-- The variables of the loop in `skip`. -/
structure SkipState (σ : Type) where
  toSkip : ℤ
  data : List Byte
  self : State σ

/-- One turn of the loop in `skip`. -/
def skipTurn (D : Decoder σ Byte Byte) (fuel : ℕ) (numBytes : ℤ) (st : SkipState σ) :
    Option (Turn (SkipState σ) (Ended σ)) :=
  if 0 < st.toSkip then
    (read D fuel st.data 0 (min (skipBufferLen numBytes) st.toSkip) st.self).map fun ended =>
      match ended.outcome with
      | .returned n =>
        if n < 0 then .leave { ended with outcome := .returned (numBytes - st.toSkip) }
        else .again ⟨st.toSkip - n, ended.dst, ended.self⟩
      | .threw _ => .leave ended
  else some (.leave ⟨.returned (numBytes - st.toSkip), st.data, st.self⟩)

/-- `skip(numBytes)`, with `data` the array of the buffer that the pool hands out. -/
def skip (D : Decoder σ Byte Byte) (fuel : ℕ) (data : List Byte) (numBytes : ℤ)
    (self : State σ) : Option (Ended σ) :=
  if self.isClosed then some ⟨.threw (.ioException "Stream closed"), data, self⟩
  else if numBytes ≤ 0 then some ⟨.returned 0, data, self⟩
  else iterate (skipTurn D fuel numBytes) fuel ⟨numBytes, data, self⟩

/-- The reading methods, as a caller invokes them. -/
inductive Call
  | readByte
  | read (dst : List Byte) (offset len : ℤ)
  | skip (numBytes : ℤ) (data : List Byte)

/-- What a call does. -/
def Call.run (D : Decoder σ Byte Byte) (fuel : ℕ) (self : State σ) : Call → Option (Ended σ)
  | .readByte => InputStream.readByte D fuel self
  | .read dst offset len => InputStream.read D fuel dst offset len self
  | .skip numBytes data => InputStream.skip D fuel data numBytes self

/-- A sequence of calls on one stream, with what each returned and left in its
array. -/
def runCalls (D : Decoder σ Byte Byte) (fuel : ℕ) :
    State σ → List Call → Option (List (Outcome ℤ × List Byte) × State σ)
  | self, [] => some ([], self)
  | self, call :: calls => do
    let ended ← call.run D fuel self
    let (results, last) ← runCalls D fuel ended.self calls
    return ((ended.outcome, ended.dst) :: results, last)

end ZstdJni.InputStream
