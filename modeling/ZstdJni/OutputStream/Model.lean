/-
# `ZstdOutputStreamNoFinalizer`

The compressing output stream, as the source has it: the three flags about frames, the
loop of `write`, the two drain loops of `flush` and the one of `close`, and the setters
that are only allowed between frames.

The wrapped stream records what was handed to it and how often it was closed; any of
its calls may throw.  The native compressor is a parameter.  The dictionary, the buffer
pool and the freeing of the native stream are not part of this module.
-/

import ZstdJni.Foundation.Loop
import ZstdJni.Native.CStream

namespace ZstdJni.OutputStream

open ZstdJni.Foundation ZstdJni.Native

variable {σ : Type}

/-- The size of the destination buffer, `recommendedCOutSize()`: the bound for a
compressed block with its header and a checksum. -/
def dstSize : ℕ := 131591

theorem dstSize_pos : 0 < dstSize := by decide

/-- The wrapped stream: what was handed to it, how often it was flushed and closed, and
which of its next calls throw. -/
structure Sink where
  written : List Byte
  flushes : ℕ
  closes : ℕ
  faults : List Bool

/-- The exception of a call of the wrapped stream that fails. -/
def sinkFault : JavaException := .callback false

namespace Sink

/-- A call of the wrapped stream with the given effect. -/
def call (effect : Sink → Sink) (sink : Sink) : Outcome Unit × Sink :=
  match sink.faults with
  | [] => (.returned (), effect sink)
  | true :: rest => (.threw sinkFault, { sink with faults := rest })
  | false :: rest => (.returned (), effect { sink with faults := rest })

/-- `out.write(bytes)`. -/
def write (bytes : List Byte) : Sink → Outcome Unit × Sink :=
  call fun sink => { sink with written := sink.written ++ bytes }

/-- `out.flush()`. -/
def flush : Sink → Outcome Unit × Sink :=
  call fun sink => { sink with flushes := sink.flushes + 1 }

/-- `out.close()`. -/
def close (sink : Sink) : Outcome Unit × Sink :=
  call id { sink with closes := sink.closes + 1 }

end Sink

/-- The fields of a `ZstdOutputStreamNoFinalizer`, with the native stream behind it and
the stream it wraps. -/
structure State (σ : Type) where
  stream : σ
  out : Sink
  srcPos : ℕ
  dstPos : ℕ
  dst : List Byte
  isClosed : Bool
  closeFrameOnFlush : Bool
  frameClosed : Bool
  frameStarted : Bool

/-- The stream as its constructor leaves it, with `dst` the array of the buffer that the
pool hands out. -/
def State.create (stream : σ) (out : Sink) (dst : List Byte) : State σ where
  stream := stream
  out := out
  srcPos := 0
  dstPos := 0
  dst := dst
  isClosed := false
  closeFrameOnFlush := false
  frameClosed := true
  frameStarted := false

/-- How a method ends: its outcome and the object. -/
structure Ended (σ : Type) where
  outcome : Outcome Unit
  self : State σ

/-- Go on with the next statements unless an exception was thrown. -/
def Ended.andThen (ended : Ended σ) (rest : State σ → Option (Ended σ)) : Option (Ended σ) :=
  match ended.outcome with
  | .threw e => some ⟨.threw e, ended.self⟩
  | .returned _ => rest ended.self

/-- The native method `resetCStream`. -/
def resetCStream (E : Encoder σ Setting Byte Byte) (self : State σ) : ℤ × State σ :=
  let (next, size) := E.reset self.stream
  (jint size, { self with stream := next })

/-- The native method `compressStream`: it compresses the source from `srcPos` on into
the destination buffer and stores both new positions. -/
def compressStream (E : Encoder σ Setting Byte Byte) (src : List Byte) (srcSize : ℕ)
    (self : State σ) : ℤ × State σ :=
  let (next, reply) := E.encode self.stream .goOn (window src self.srcPos srcSize) dstSize
  (jint reply.ret,
    { self with
      stream := next
      srcPos := self.srcPos + reply.consumed
      dst := overwrite self.dst 0 reply.emitted
      dstPos := reply.emitted.length })

/-- The native methods `flushStream` and `endStream`, by their directive. -/
def drainStream (E : Encoder σ Setting Byte Byte) (directive : Directive) (self : State σ) :
    ℤ × State σ :=
  let (next, reply) := E.encode self.stream directive [] dstSize
  (jint reply.ret,
    { self with
      stream := next
      dst := overwrite self.dst 0 reply.emitted
      dstPos := reply.emitted.length })

/-- The native method `flushStream`. -/
def flushStream (E : Encoder σ Setting Byte Byte) : State σ → ℤ × State σ := drainStream E .flush

/-- The native method `endStream`. -/
def endStream (E : Encoder σ Setting Byte Byte) : State σ → ℤ × State σ := drainStream E .finish

/-- `out.write(dst, 0, (int) dstPos)`. -/
def writeOut (self : State σ) : Outcome Unit × State σ :=
  let (outcome, out) := self.out.write (window self.dst 0 self.dstPos)
  (outcome, { self with out := out })

/-- One turn of the loop in `write`. -/
def writeTurn (E : Encoder σ Setting Byte Byte) (src : List Byte) (srcSize : ℕ)
    (self : State σ) : Turn (State σ) (Ended σ) :=
  if self.srcPos < srcSize then
    let (size, self) := compressStream E src srcSize self
    if isError size then .leave ⟨.threw (.ofIOResult size), self⟩
    else if 0 < self.dstPos then
      match writeOut self with
      | (.returned _, self) => .again self
      | (.threw e, self) => .leave ⟨.threw e, self⟩
    else .again self
  else .leave ⟨.returned (), self⟩

/-- The part of `write` that begins a frame if none is open. -/
def beginFrame (E : Encoder σ Setting Byte Byte) (self : State σ) : Ended σ :=
  if self.frameClosed then
    let (size, self) := resetCStream E self
    if isError size then ⟨.threw (.ofIOResult size), self⟩
    else ⟨.returned (), { self with frameClosed := false, frameStarted := true }⟩
  else ⟨.returned (), self⟩

/-- `write(src, offset, len)`. -/
def write (E : Encoder σ Setting Byte Byte) (fuel : ℕ) (src : List Byte) (offset len : ℤ)
    (self : State σ) : Option (Ended σ) :=
  if offset < 0 ∨ len < 0 ∨ src.length - offset < len then
    some ⟨.threw .indexOutOfBounds, self⟩
  else if self.isClosed then some ⟨.threw (.ioException "StreamClosed"), self⟩
  else
    (beginFrame E self).andThen fun self =>
      iterate (fun self => some (writeTurn E src (offset + len).toNat self)) fuel
        { self with srcPos := offset.toNat }

/-- `write(i)`, which writes the low byte of its argument. -/
def writeByte (E : Encoder σ Setting Byte Byte) (fuel : ℕ) (i : ℤ) (self : State σ) :
    Option (Ended σ) :=
  write E fuel [UInt8.ofNat (i % 256).toNat] 0 1 self

/-- One turn of the loops `do { … } while (size > 0)` in `flush` and `close`, by the native
method that is called. -/
def drainTurn (native : State σ → ℤ × State σ) (self : State σ) : Turn (State σ) (Ended σ) :=
  let (size, self) := native self
  if isError size then .leave ⟨.threw (.ofIOResult size), self⟩
  else
    match writeOut self with
    | (.returned _, self) => if 0 < size then .again self else .leave ⟨.returned (), self⟩
    | (.threw e, self) => .leave ⟨.threw e, self⟩

/-- A loop `do { … } while (size > 0)` of `flush` and `close`. -/
def drain (native : State σ → ℤ × State σ) (fuel : ℕ) (self : State σ) : Option (Ended σ) :=
  iterate (fun self => some (drainTurn native self)) fuel self

/-- `out.flush()`. -/
def flushOut (self : State σ) : Ended σ :=
  let (outcome, out) := self.out.flush
  ⟨outcome, { self with out := out }⟩

/-- `flush()`. -/
def flush (E : Encoder σ Setting Byte Byte) (fuel : ℕ) (self : State σ) : Option (Ended σ) :=
  if self.isClosed then some ⟨.threw (.ioException "StreamClosed"), self⟩
  else if self.frameClosed then some ⟨.returned (), self⟩
  else if self.closeFrameOnFlush then
    (drain (endStream E) fuel self).bind fun ended =>
      ended.andThen fun self => some (flushOut { self with frameClosed := true })
  else
    (drain (flushStream E) fuel self).bind fun ended => ended.andThen fun self =>
      some (flushOut self)

/-- The part of `close` that begins a frame if none was ever started. -/
def beginEmptyFrame (E : Encoder σ Setting Byte Byte) (self : State σ) : Ended σ :=
  if self.frameStarted then ⟨.returned (), self⟩
  else
    let (size, self) := resetCStream E self
    if isError size then ⟨.threw (.ofIOResult size), self⟩
    else ⟨.returned (), { self with frameClosed := false }⟩

/-- The part of `close` that closes the wrapped stream. -/
def closeParent (closeParentStream : Bool) (self : State σ) : Ended σ :=
  if closeParentStream then
    let (outcome, out) := self.out.close
    ⟨outcome, { self with out := out }⟩
  else ⟨.returned (), self⟩

/-- The body of the `try` in `close`. -/
def closeBody (E : Encoder σ Setting Byte Byte) (fuel : ℕ) (closeParentStream : Bool)
    (self : State σ) : Option (Ended σ) :=
  (beginEmptyFrame E self).andThen fun self =>
    if self.frameClosed then some (closeParent closeParentStream self)
    else
      (drain (endStream E) fuel self).bind fun ended =>
        ended.andThen fun self => some (closeParent closeParentStream self)

/-- `close(closeParentStream)`: the stream is closed on every path. -/
def close (E : Encoder σ Setting Byte Byte) (fuel : ℕ) (closeParentStream : Bool)
    (self : State σ) : Option (Ended σ) :=
  if self.isClosed then some ⟨.returned (), self⟩
  else
    (closeBody E fuel closeParentStream self).map fun ended =>
      { ended with self := { ended.self with isClosed := true } }

/-- The exception of a setter that is called inside a frame. -/
def changeOfParameter : JavaException :=
  .illegalState "Change of parameter on initialized stream"

/-- A setter of a parameter of the compressor: only between frames, and the result of the
native call is checked. -/
def parameterSetter (E : Encoder σ Setting Byte Byte) (setting : Setting) (self : State σ) :
    Ended σ :=
  if self.isClosed then ⟨.threw (.ioException "StreamClosed"), self⟩
  else if !self.frameClosed then ⟨.threw changeOfParameter, self⟩
  else
    let (next, size) := E.configure self.stream setting
    let self := { self with stream := next }
    if isError (jint size) then ⟨.threw (.ofIOResult (jint size)), self⟩ else ⟨.returned (), self⟩

section Setters

variable (E : Encoder σ Setting Byte Byte)

/-- `setChecksum(useChecksums)`. -/
def setChecksum (useChecksums : Bool) : State σ → Ended σ :=
  parameterSetter E (.checksum useChecksums)

/-- `setLevel(level)`. -/
def setLevel (level : ℤ) : State σ → Ended σ := parameterSetter E (.level level)

/-- `setLong(windowLog)`. -/
def setLong (windowLog : ℤ) : State σ → Ended σ := parameterSetter E (.long windowLog)

/-- `setWorkers(n)`. -/
def setWorkers (n : ℤ) : State σ → Ended σ := parameterSetter E (.workers n)

/-- `setOverlapLog(overlapLog)`. -/
def setOverlapLog (overlapLog : ℤ) : State σ → Ended σ := parameterSetter E (.overlapLog overlapLog)

/-- `setJobSize(jobSize)`. -/
def setJobSize (jobSize : ℤ) : State σ → Ended σ := parameterSetter E (.jobSize jobSize)

/-- `setTargetLength(targetLength)`. -/
def setTargetLength (targetLength : ℤ) : State σ → Ended σ :=
  parameterSetter E (.targetLength targetLength)

/-- `setMinMatch(minMatch)`. -/
def setMinMatch (minMatch : ℤ) : State σ → Ended σ := parameterSetter E (.minMatch minMatch)

/-- `setSearchLog(searchLog)`. -/
def setSearchLog (searchLog : ℤ) : State σ → Ended σ := parameterSetter E (.searchLog searchLog)

/-- `setChainLog(chainLog)`. -/
def setChainLog (chainLog : ℤ) : State σ → Ended σ := parameterSetter E (.chainLog chainLog)

/-- `setHashLog(hashLog)`. -/
def setHashLog (hashLog : ℤ) : State σ → Ended σ := parameterSetter E (.hashLog hashLog)

/-- `setWindowLog(windowLog)`. -/
def setWindowLog (windowLog : ℤ) : State σ → Ended σ := parameterSetter E (.windowLog windowLog)

/-- `setStrategy(strategy)`. -/
def setStrategy (strategy : ℤ) : State σ → Ended σ := parameterSetter E (.strategy strategy)

/-- The setter of a setting. -/
def setterOf : Setting → State σ → Ended σ
  | .checksum useChecksums => setChecksum E useChecksums
  | .level level => setLevel E level
  | .long windowLog => setLong E windowLog
  | .workers n => setWorkers E n
  | .overlapLog overlapLog => setOverlapLog E overlapLog
  | .jobSize jobSize => setJobSize E jobSize
  | .targetLength targetLength => setTargetLength E targetLength
  | .minMatch minMatch => setMinMatch E minMatch
  | .searchLog searchLog => setSearchLog E searchLog
  | .chainLog chainLog => setChainLog E chainLog
  | .hashLog hashLog => setHashLog E hashLog
  | .windowLog windowLog => setWindowLog E windowLog
  | .strategy strategy => setStrategy E strategy

theorem setterOf_eq (setting : Setting) : setterOf E setting = parameterSetter E setting := by
  cases setting <;> rfl

end Setters

/-- `setCloseFrameOnFlush(closeOnFlush)`, which does not look at `isClosed`. -/
def setCloseFrameOnFlush (closeOnFlush : Bool) (self : State σ) : Ended σ :=
  if !self.frameClosed then ⟨.threw changeOfParameter, self⟩
  else ⟨.returned (), { self with closeFrameOnFlush := closeOnFlush }⟩

/-- `setDict(dict)`, for the bytes of a dictionary or for one in native memory, which may refuse
to be acquired: only between frames, and the result of the native call is checked. -/
def setDict (acquired : Outcome Unit) (load : σ → σ × ℕ) (self : State σ) : Ended σ :=
  if self.isClosed then ⟨.threw (.ioException "StreamClosed"), self⟩
  else if !self.frameClosed then ⟨.threw changeOfParameter, self⟩
  else
    match acquired with
    | .threw e => ⟨.threw e, self⟩
    | .returned _ =>
      let (next, size) := load self.stream
      let self := { self with stream := next }
      if isError (jint size) then ⟨.threw (.ofIOResult (jint size)), self⟩ else ⟨.returned (), self⟩

/-- The calls on an open stream. -/
inductive Op
  | write (src : List Byte) (offset len : ℤ)
  | writeByte (i : ℤ)
  | flush
  | setCloseFrameOnFlush (closeOnFlush : Bool)
  | set (setting : Setting)

/-- What a call does. -/
def Op.run (E : Encoder σ Setting Byte Byte) (fuel : ℕ) (self : State σ) : Op → Option (Ended σ)
  | .write src offset len => OutputStream.write E fuel src offset len self
  | .writeByte i => OutputStream.writeByte E fuel i self
  | .flush => OutputStream.flush E fuel self
  | .setCloseFrameOnFlush closeOnFlush => some (OutputStream.setCloseFrameOnFlush closeOnFlush self)
  | .set setting => some (setterOf E setting self)

/-- The outcomes that report a failure of zstd or of the wrapped stream. -/
def failed : Outcome Unit → Bool
  | .threw (.zstdIOException _ _) => true
  | .threw (.callback _) => true
  | _ => false

/-- A sequence of calls, up to the first failure. -/
def runOps (E : Encoder σ Setting Byte Byte) (fuel : ℕ) :
    State σ → List Op → Option (List (Outcome Unit) × State σ)
  | self, [] => some ([], self)
  | self, op :: ops => do
    let ended ← op.run E fuel self
    if failed ended.outcome then some ([ended.outcome], ended.self)
    else
      let (outcomes, last) ← runOps E fuel ended.self ops
      return (ended.outcome :: outcomes, last)

end ZstdJni.OutputStream
