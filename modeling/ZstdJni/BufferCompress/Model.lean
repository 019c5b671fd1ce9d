/-
# `ZstdDirectBufferCompressingStreamNoFinalizer`

The stream that compresses direct buffers into a direct target: `compress` with its loop,
the loops `do { … } while (needed > 0)` of `flush` and `close`, and the native functions
behind them.

What `flushBuffer` answers is a parameter.  The object records which buffers it was
handed, each with the position it had when it became the target.  The native compressor
is a parameter; its settings are the ways in which a session is initialized.  The locks of
a dictionary are modelled with the dictionaries.
-/

import ZstdJni.BufferDecompress.Spec
import ZstdJni.Foundation.FrameEncoder

namespace ZstdJni.BufferCompress

open ZstdJni.Foundation ZstdJni.Native
open ZstdJni.BufferDecompress (Buffer)

variable {σ κ : Type}

/-- The three native functions that begin a session, with their arguments. -/
inductive Init (κ : Type)
  | initCStream (level : ℤ)
  | initCStreamWithDict (dict : List Byte) (level : ℤ)
  | initCStreamWithFastDict (dict : κ)

/-- A buffer that was handed to `flushBuffer`, with the position at which it was installed
as the target. -/
structure Handed where
  start : ℕ
  buffer : Buffer

/-- What was written to the buffer since it was installed. -/
def Handed.bytes (handed : Handed) : List Byte :=
  window handed.buffer.storage (handed.buffer.arrayOffset + handed.start)
    (handed.buffer.arrayOffset + handed.buffer.position)

/-- What `flushBuffer` answers: the result of its n-th call with the current target. -/
abbrev FlushBuffer := ℕ → Buffer → Outcome Buffer

/-- The fields of the object, with the native stream and the record of `flushBuffer`. -/
structure State (σ κ : Type) where
  stream : σ
  target : Option Buffer
  start : ℕ
  handed : List Handed
  closed : Bool
  initialized : Bool
  level : ℤ
  dict : Option (List Byte)
  fastDict : Option κ

/-- The object after its constructor, which only accepts a direct target. -/
def State.create (stream : σ) (target : Buffer) (level : ℤ) : Except JavaException (State σ κ) :=
  if target.kind ≠ .direct then
    .error (.illegalArgument "Target buffer should be a direct buffer")
  else
    .ok
      { stream := stream
        target := some target
        start := target.position
        handed := []
        closed := false
        initialized := false
        level := level
        dict := none
        fastDict := none }

/-- What a native call leaves behind: its result, the native stream, the target with what
was written to it, and the two fields it sets. -/
structure Encoded (σ : Type) where
  result : ℤ
  stream : σ
  target : Buffer
  consumed : ℕ
  produced : ℕ

section Native

variable (E : Encoder σ (Init κ) Byte Byte) (stream : σ) (target : Buffer)

/-- The streaming call in the native functions. -/
def callEncode (directive : Directive) (input : List Byte) (dstOffset dstSize : ℤ) : Encoded σ :=
  let (next, reply) := E.encode stream directive input dstSize.toNat
  { result := jlong reply.ret
    stream := next
    target := target.writeAt (target.arrayOffset + dstOffset).toNat reply.emitted
    consumed := reply.consumed
    produced := reply.emitted.length }

/-- A native call that returns an error before it compresses. -/
def refused (code : ErrorCode) : Encoded σ := ⟨jlong code.result, stream, target, 0, 0⟩

/-- The native function `compressDirectByteBuffer`. -/
def compressDirectByteBuffer (dstOffset dstSize : ℤ) (source : Buffer) (srcOffset srcSize : ℤ) :
    Encoded σ :=
  if dstOffset + dstSize > target.directCapacity then refused stream target .dstSizeTooSmall
  else if srcOffset + srcSize > source.directCapacity then refused stream target .srcSizeWrong
  else
    callEncode E stream target .goOn
      (window source.storage (source.arrayOffset + srcOffset).toNat
        (source.arrayOffset + srcOffset + srcSize).toNat) dstOffset dstSize

/-- The native functions `flushStream` and `endStream`, by their directive. -/
def drainStream (directive : Directive) (dstOffset dstSize : ℤ) : Encoded σ :=
  if dstOffset + dstSize > target.directCapacity then refused stream target .dstSizeTooSmall
  else callEncode E stream target directive [] dstOffset dstSize

/-- The native function `flushStream`. -/
def flushStream (dstOffset dstSize : ℤ) : Encoded σ :=
  drainStream E stream target .flush dstOffset dstSize

/-- The native function `endStream`. -/
def endStream (dstOffset dstSize : ℤ) : Encoded σ :=
  drainStream E stream target .finish dstOffset dstSize

end Native

/-- The exception for a target that stays full. -/
def noMoreSpace : JavaException :=
  .ioException ("The target buffer has no more space, even after flushing, and there are " ++
    "still bytes to compress")

/-- The statements `target = flushBuffer(target); this.target = target;` with the test that
follows. -/
def flushTarget (flushBuffer : FlushBuffer) (target : Buffer) (self : State σ κ) :
    Outcome Buffer × State σ κ :=
  let handed := self.handed ++ [⟨self.start, target⟩]
  match flushBuffer self.handed.length target with
  | .threw e => (.threw e, { self with handed := handed })
  | .returned next =>
    let self := { self with target := some next, start := next.position, handed := handed }
    if next.kind ≠ .direct then
      (.threw (.illegalArgument "Target buffer should be a direct buffer"), self)
    else (.returned next, self)

/-- How `compress` ends: its outcome, the object and the source afterwards. -/
structure Compressed (σ κ : Type) where
  outcome : Outcome Unit
  self : State σ κ
  source : Buffer

section Methods

variable (E : Encoder σ (Init κ) Byte Byte) (flushBuffer : FlushBuffer)

/-- The part of a turn of `compress` from the native call on. -/
def compressInto (target : Buffer) (self : State σ κ) (source : Buffer) :
    Turn (State σ κ × Buffer) (Compressed σ κ) :=
  let encoded := compressDirectByteBuffer E self.stream target target.position
    (target.limit - target.position) source source.position (source.limit - source.position)
  let self := { self with stream := encoded.stream, target := some encoded.target }
  if isError encoded.result then .leave ⟨.threw (.ofIOResult encoded.result), self, source⟩
  else
    match encoded.target.setPosition (encoded.target.position + encoded.produced) with
    | .error e => .leave ⟨.threw e, self, source⟩
    | .ok target =>
      let self := { self with target := some target }
      match source.setPosition (source.position + encoded.consumed) with
      | .error e => .leave ⟨.threw e, self, source⟩
      | .ok source => .again (self, source)

/-- One turn of the loop in `compress`. -/
def compressTurn (loop : State σ κ × Buffer) : Turn (State σ κ × Buffer) (Compressed σ κ) :=
  let (self, source) := loop
  if source.hasRemaining then
    match self.target with
    | none => .leave ⟨.threw (.ioException "Stream closed"), self, source⟩
    | some target =>
      if ¬ target.hasRemaining then
        match flushTarget flushBuffer target self with
        | (.threw e, self) => .leave ⟨.threw e, self, source⟩
        | (.returned target, self) =>
          if ¬ target.hasRemaining then .leave ⟨.threw noMoreSpace, self, source⟩
          else compressInto E target self source
      else compressInto E target self source
  else .leave ⟨.returned (), self, source⟩

/-- The native call with which `compress` initializes the session. -/
def State.init (self : State σ κ) : Init κ :=
  match self.fastDict, self.dict with
  | some fastDict, _ => .initCStreamWithFastDict fastDict
  | none, some dict => .initCStreamWithDict dict self.level
  | none, none => .initCStream self.level

/-- `compress(source)`. -/
def compress (fuel : ℕ) (source : Buffer) (self : State σ κ) : Option (Compressed σ κ) :=
  if source.kind ≠ .direct then
    some ⟨.threw (.illegalArgument "Source buffer should be a direct buffer"), self, source⟩
  else if self.closed then some ⟨.threw (.ioException "Stream closed"), self, source⟩
  else if self.initialized then
    iterate (fun loop => some (compressTurn E flushBuffer loop)) fuel (self, source)
  else
    let (next, result) := E.configure self.stream self.init
    let self := { self with stream := next }
    if isError (jlong result) then some ⟨.threw (.ofIOResult (jlong result)), self, source⟩
    else
      iterate (fun loop => some (compressTurn E flushBuffer loop)) fuel
        ({ self with initialized := true }, source)

/-- How `flush` and `close` end: their outcome and the object. -/
structure Ended (σ κ : Type) where
  outcome : Outcome Unit
  self : State σ κ

/-- One turn of the loops `do { … } while (needed > 0)` in `flush` and `close`, by the
native function that is called. -/
def drainTurn (native : σ → Buffer → ℤ → ℤ → Encoded σ) (self : State σ κ) :
    Turn (State σ κ) (Ended σ κ) :=
  match self.target with
  | none => .leave ⟨.threw (.ioException "Stream closed"), self⟩
  | some target =>
    let encoded := native self.stream target target.position (target.limit - target.position)
    let self := { self with stream := encoded.stream, target := some encoded.target }
    if isError encoded.result then .leave ⟨.threw (.ofIOResult encoded.result), self⟩
    else
      match encoded.target.setPosition (encoded.target.position + encoded.produced) with
      | .error e => .leave ⟨.threw e, self⟩
      | .ok target =>
        match flushTarget flushBuffer target { self with target := some target } with
        | (.threw e, self) => .leave ⟨.threw e, self⟩
        | (.returned target, self) =>
          if 0 < encoded.result then
            if ¬ target.hasRemaining then .leave ⟨.threw noMoreSpace, self⟩ else .again self
          else .leave ⟨.returned (), self⟩

/-- `flush()`. -/
def flush (fuel : ℕ) (self : State σ κ) : Option (Ended σ κ) :=
  if self.closed then some ⟨.threw (.ioException "Already closed"), self⟩
  else if self.initialized then
    iterate (fun self => some (drainTurn flushBuffer (flushStream E) self)) fuel self
  else some ⟨.returned (), self⟩

/-- The fields that `close` sets on every path. -/
def State.released (self : State σ κ) : State σ κ :=
  { self with closed := true, initialized := false, target := none, dict := none, fastDict := none }

/-- `close()`. -/
def close (fuel : ℕ) (self : State σ κ) : Option (Ended σ κ) :=
  if self.closed then some ⟨.returned (), self⟩
  else
    (if self.initialized then
      iterate (fun self => some (drainTurn flushBuffer (endStream E) self)) fuel self
    else some ⟨.returned (), self⟩).map fun ended => { ended with self := ended.self.released }

end Methods

/-- The exception of a setter that is called on an initialized stream. -/
def changeOfParameter : JavaException :=
  .illegalState "Change of parameter on initialized stream"

/-- `setDict(dict)` with the bytes of a dictionary. -/
def setDictBytes (dict : List Byte) (self : State σ κ) : Ended σ κ :=
  if self.initialized then ⟨.threw changeOfParameter, self⟩
  else ⟨.returned (), { self with dict := some dict, fastDict := none }⟩

/-- `setDict(dict)` with a digested dictionary. -/
def setDictFast (dict : κ) (self : State σ κ) : Ended σ κ :=
  if self.initialized then ⟨.threw changeOfParameter, self⟩
  else ⟨.returned (), { self with dict := none, fastDict := some dict }⟩

/-- The calls on an open stream. -/
inductive Op
  | compress (source : Buffer)
  | flush

/-- What a call does: its outcome, the source of `compress` afterwards, and the object. -/
def Op.run (E : Encoder σ (Init κ) Byte Byte) (flushBuffer : FlushBuffer) (fuel : ℕ)
    (self : State σ κ) : Op → Option ((Outcome Unit × Option Buffer) × State σ κ)
  | .compress source =>
    (BufferCompress.compress E flushBuffer fuel source self).map fun ended =>
      ((ended.outcome, some ended.source), ended.self)
  | .flush =>
    (BufferCompress.flush E flushBuffer fuel self).map fun ended =>
      ((ended.outcome, none), ended.self)

/-- The outcomes that report an error of zstd. -/
def zstdFailed : Outcome Unit → Bool
  | .threw (.zstdIOException _ _) => true
  | _ => false

/-- A sequence of calls, up to the first error of zstd. -/
def runOps (E : Encoder σ (Init κ) Byte Byte) (flushBuffer : FlushBuffer) (fuel : ℕ) :
    State σ κ → List Op → Option (List (Outcome Unit × Option Buffer) × State σ κ)
  | self, [] => some ([], self)
  | self, op :: ops => do
    let (result, next) ← op.run E flushBuffer fuel self
    if zstdFailed result.1 then some ([result], next)
    else
      let (results, last) ← runOps E flushBuffer fuel next ops
      return (result :: results, last)

end ZstdJni.BufferCompress
