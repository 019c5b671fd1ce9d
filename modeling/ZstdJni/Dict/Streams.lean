/-
# The stream classes: dictionaries

`ZstdOutputStreamNoFinalizer`, `ZstdInputStreamNoFinalizer`,
`ZstdDirectBufferCompressingStreamNoFinalizer` and the buffer-decompressing streams, as far
as they touch a dictionary.  Three of the four classes replace their dictionary by the same
steps: acquire the new one, tell the native context, and release the old one, or the new
one if the native call fails.  The direct compressing stream only remembers what it is
given, and tells the native context at its first call of `compress`.

What the calls that compress, decompress, read or write do to the native context, and what
the wrapped streams, the buffer pools and the callbacks throw, are arguments of the model.
-/

import ZstdJni.Dict.Contexts

namespace ZstdJni.Dict

open ZstdJni.Foundation ZstdJni.Native ZstdJni.AutoClose

/-- The four classes. -/
inductive StreamClass
  | output
  | input
  | directCompressing
  | bufferDecompressing
  deriving DecidableEq

/-- A stream with its native context and the dictionary it remembers, `active_dict` or
`fastDict`. -/
structure Stream (D : Type) where
  cls : StreamClass
  /-- `isClosed` or `closed`. -/
  closed : Bool
  native : NativeCtx D
  dict : Option D
  /-- The fields of an output stream. -/
  frameClosed : Bool
  frameStarted : Bool
  /-- The fields of a direct compressing stream: `initialized`, and `dict != null`. -/
  initialized : Bool
  bytes : Bool

namespace Stream

variable {D : Type}

/-- A new stream. -/
def create (cls : StreamClass) : Stream D where
  cls := cls
  closed := false
  native := .create
  dict := none
  frameClosed := true
  frameStarted := false
  initialized := false
  bytes := false

/-- A change of the fields of the stream. -/
def modifyFields (f : Stream D → Stream D) : Java (Sys (Stream D) D) Unit :=
  modify fun s => { s with holder := f s.holder }

/-- `frameClosed` and `frameStarted` of an output stream. -/
def setFrame (frameClosed frameStarted : Bool) : Java (Sys (Stream D) D) Unit :=
  modifyFields fun s => { s with frameClosed := frameClosed, frameStarted := frameStarted }

def setInitialized (initialized : Bool) : Java (Sys (Stream D) D) Unit :=
  modifyFields fun s => { s with initialized := initialized }

/-- The dictionary that a direct compressing stream is given as bytes. -/
def setBytes (bytes : Bool) : Java (Sys (Stream D) D) Unit :=
  modifyFields fun s => { s with bytes := bytes }

def setDict (dict : Option D) : Java (Sys (Stream D) D) Unit :=
  modifyFields fun s => { s with dict := dict }

/-- A check of the fields. -/
def require (p : Stream D → Bool) (e : JavaException) : Java (Sys (Stream D) D) Unit := do
  let s ← get
  if p s.holder then pure () else throw e

/-- The exceptions made of error codes that arrive as an `int` or as a `long`. -/
def intError (code : ErrorCode) : JavaException := .ofIOResult (jint code.result)

def longError (code : ErrorCode) : JavaException := .ofIOResult (jlong code.result)

def changeOfParameter : JavaException :=
  .illegalState "Change of parameter on initialized stream"

/-- A native call, which gives its error code. -/
def nativeCode (f : NativeCtx D → Option ErrorCode × NativeCtx D) :
    Java (Sys (Stream D) D) (Option ErrorCode) := do
  let s ← get
  set { s with holder := { s.holder with native := (f s.holder.native).2 } }
  pure (f s.holder.native).1

/-- A native call, and the exception made of its error code. -/
def nativeCall (exception : ErrorCode → JavaException)
    (f : NativeCtx D → Option ErrorCode × NativeCtx D) : Java (Sys (Stream D) D) Unit := do
  let code ← nativeCode f
  Ctx.refuse (code.map exception)

variable [DecidableEq D]

/-- Calls that compress, decompress, read or write. -/
def work (w : NativeCtx.Work D) : Java (Sys (Stream D) D) Unit := do
  modifyFields fun s => { s with native := s.native.work w }
  Ctx.refuse w.throws

/-- The old dictionary is released and the new one kept. -/
def replaceDict (dict : Option D) : Java (Sys (Stream D) D) Unit := do
  let s ← get
  releaseIfSet s.holder.dict
  setDict dict

/-- The end of `setDict` behind the native call. -/
def settle (exception : ErrorCode → JavaException) (dict : Option D) :
    Option ErrorCode → Java (Sys (Stream D) D) Unit
  | some code => do
    releaseIfSet dict
    throw (exception code)
  | none => replaceDict dict

/-- `setDict` of a dictionary object, behind its checks. -/
def swapDict (exception : ErrorCode → JavaException)
    (f : NativeCtx D → Option ErrorCode × NativeCtx D) (dict : Option D) :
    Java (Sys (Stream D) D) Unit := do
  acquireIfSet dict
  let code ← nativeCode f
  settle exception dict code

/-- `Zstd.loadFastDictCompress`. -/
def loadFastDictCompress : Option D → NativeCtx D → Option ErrorCode × NativeCtx D
  | none, n => (some .dictionaryWrong, n)
  | some d, n => n.refCDict (some d)

/-- `Zstd.loadFastDictDecompress`. -/
def loadFastDictDecompress (dictID : D → ℕ) (memory : Memory) :
    Option D → NativeCtx D → Option ErrorCode × NativeCtx D
  | none, n => (some .dictionaryWrong, n)
  | some d, n => n.refDDict dictID memory (some d)

/-- What `null` arguments are answered with. -/
def requireNonNull (isNull : Bool) : Java (Sys (Stream D) D) Unit :=
  Ctx.refuse (if isNull then some .nullPointer else none)

/-- `freeCStream` and `freeDStream`. -/
def freeStream : Java (Sys (Stream D) D) Unit :=
  modifyFields fun s => { s with native := s.native.free }

def setClosed : Java (Sys (Stream D) D) Unit := modifyFields fun s => { s with closed := true }

/-- `ZSTD_CCtx_reset` of the session. -/
def resetSession (failure : Option ErrorCode) (n : NativeCtx D) :
    Option ErrorCode × NativeCtx D :=
  match failure with
  | some code => (some code, n)
  | none => (none, { n with inFrame := false })

namespace Output

def streamClosed : JavaException := .ioException "StreamClosed"

/-- The two checks of the setters. -/
def checkParameter : Java (Sys (Stream D) D) Unit := do
  require (fun s => !s.closed) streamClosed
  require frameClosed changeOfParameter

/-- The setters of parameters; `setCloseFrameOnFlush` only has the second check. -/
def setParameter (checksClosed : Bool) (throws : Option JavaException) :
    Java (Sys (Stream D) D) Unit := do
  require (fun s => !(checksClosed && s.closed)) streamClosed
  require frameClosed changeOfParameter
  Ctx.refuse throws

/-- `setDict(byte[])`. -/
def setDictBytes (isNull : Bool) (memory : Memory) : Java (Sys (Stream D) D) Unit := do
  checkParameter
  requireNonNull isNull
  nativeCall intError (NativeCtx.loadDictionary memory)

/-- `setDict(ZstdDictCompress)`. -/
def setDict (dict : Option D) : Java (Sys (Stream D) D) Unit := do
  checkParameter
  swapDict intError (loadFastDictCompress dict) dict

/-- `resetCStream`, if a condition on the fields holds, and the fields behind it. -/
def beginFrameIf (p : Stream D → Bool) (failure : Option ErrorCode) (started : Stream D → Bool) :
    Java (Sys (Stream D) D) Unit := do
  let s ← get
  if p s.holder then do
    nativeCall intError (resetSession failure)
    setFrame false (started s.holder)
  else pure ()

/-- `write`. -/
def write (refusal : Option JavaException) (failure : Option ErrorCode) (w : NativeCtx.Work D) :
    Java (Sys (Stream D) D) Unit := do
  Ctx.refuse refusal
  require (fun s => !s.closed) streamClosed
  beginFrameIf frameClosed failure fun _ => true
  work w

/-- The loop of `flush`, which closes the frame or not. -/
def flushFrame (closeFrameOnFlush : Bool) (w : NativeCtx.Work D) :
    Java (Sys (Stream D) D) Unit := do
  work w
  let s ← get
  setFrame closeFrameOnFlush s.holder.frameStarted

/-- `flush`. -/
def flush (closeFrameOnFlush : Bool) (w : NativeCtx.Work D) (parent : Option JavaException) :
    Java (Sys (Stream D) D) Unit := do
  require (fun s => !s.closed) streamClosed
  let s ← get
  if s.holder.frameClosed then pure ()
  else do
    flushFrame closeFrameOnFlush w
    Ctx.refuse parent

/-- The loop of `close`, if a frame is open. -/
def endFrame (w : NativeCtx.Work D) : Java (Sys (Stream D) D) Unit := do
  let s ← get
  if s.holder.frameClosed then pure () else work w

/-- The `try` of `close`. -/
def closeBody (failure : Option ErrorCode) (w : NativeCtx.Work D) (parent : Option JavaException) :
    Java (Sys (Stream D) D) Unit := do
  beginFrameIf (fun s => !s.frameStarted) failure frameStarted
  endFrame w
  Ctx.refuse parent

/-- The `finally` of `close`. -/
def closeFinally (pool : Option JavaException) : Java (Sys (Stream D) D) Unit := do
  replaceDict none
  setClosed
  Ctx.refuse pool
  freeStream

/-- `close` and `closeWithoutClosingParentStream`. -/
def close (failure : Option ErrorCode) (w : NativeCtx.Work D)
    (parent pool : Option JavaException) : Java (Sys (Stream D) D) Unit := do
  let s ← get
  if s.holder.closed then pure ()
  else tryFinally (closeBody failure w parent) (closeFinally pool)

end Output

def streamClosed : JavaException := .ioException "Stream closed"

namespace Input

/-- `setLongMax` and the other setters without a dictionary. -/
def setParameter (throws : Option JavaException) : Java (Sys (Stream D) D) Unit := do
  require (fun s => !s.closed) streamClosed
  Ctx.refuse throws

/-- `setRefMultipleDDicts`. -/
def setRefMultipleDDicts (useMultiple : Bool) : Java (Sys (Stream D) D) Unit := do
  require (fun s => !s.closed) streamClosed
  nativeCall intError (NativeCtx.setRefMultipleDDicts useMultiple)

/-- `setDict(byte[])`. -/
def setDictBytes (isNull : Bool) (memory : Memory) : Java (Sys (Stream D) D) Unit := do
  require (fun s => !s.closed) streamClosed
  requireNonNull isNull
  nativeCall intError (NativeCtx.loadDictionary memory)

/-- `setDict(ZstdDictDecompress)`. -/
def setDict (dictID : D → ℕ) (memory : Memory) (dict : Option D) :
    Java (Sys (Stream D) D) Unit := do
  require (fun s => !s.closed) streamClosed
  swapDict intError (loadFastDictDecompress dictID memory dict) dict

/-- `read`, `skip` and `available`. -/
def read (refusal : Option JavaException) (w : NativeCtx.Work D) :
    Java (Sys (Stream D) D) Unit := do
  Ctx.refuse refusal
  require (fun s => !s.closed) streamClosed
  work w

/-- `close`. -/
def close (pool parent : Option JavaException) : Java (Sys (Stream D) D) Unit := do
  let s ← get
  if s.holder.closed then pure ()
  else do
    replaceDict none
    setClosed
    Ctx.refuse pool
    freeStream
    Ctx.refuse parent

end Input

namespace BufferDecompressing

/-- `setLongMax`. -/
def setParameter (throws : Option JavaException) : Java (Sys (Stream D) D) Unit := do
  require (fun s => !s.closed) streamClosed
  Ctx.refuse throws

/-- `setDict(byte[])`. -/
def setDictBytes (isNull : Bool) (memory : Memory) : Java (Sys (Stream D) D) Unit := do
  requireNonNull isNull
  require (fun s => !s.closed) streamClosed
  nativeCall intError (NativeCtx.loadDictionary memory)

/-- `setDict(ZstdDictDecompress)`. -/
def setDict (dictID : D → ℕ) (memory : Memory) (dict : Option D) :
    Java (Sys (Stream D) D) Unit := do
  requireNonNull dict.isNone
  require (fun s => !s.closed) streamClosed
  swapDict intError (loadFastDictDecompress dictID memory dict) dict

/-- `read` of both subclasses. -/
def read (refusal : Option JavaException) (w : NativeCtx.Work D) :
    Java (Sys (Stream D) D) Unit := do
  Ctx.refuse refusal
  require (fun s => !s.closed) streamClosed
  work w

/-- `close`. -/
def close : Java (Sys (Stream D) D) Unit := do
  let s ← get
  if s.holder.closed then pure ()
  else do
    freeStream
    setClosed
    replaceDict none

end BufferDecompressing

namespace DirectCompressing

/-- The check of both forms of `setDict`. -/
def checkUninitialized : Java (Sys (Stream D) D) Unit :=
  require (fun s => !s.initialized) changeOfParameter

/-- `setDict(byte[])`. -/
def setDictBytes (isNull : Bool) : Java (Sys (Stream D) D) Unit := do
  checkUninitialized
  setBytes !isNull
  Stream.setDict none

/-- `setDict(ZstdDictCompress)`. -/
def setDict (dict : Option D) : Java (Sys (Stream D) D) Unit := do
  checkUninitialized
  setBytes false
  requireNonNull dict.isNone
  acquireIfSet dict
  replaceDict dict

/-- `initCStreamWithFastDict`. -/
def initCStreamWithFastDict (d : D) (n : NativeCtx D) : Option ErrorCode × NativeCtx D :=
  NativeCtx.refCDict (some d) { n with inFrame := false }

/-- `initCStreamWithDict`. -/
def initCStreamWithDict (memory : Memory) (n : NativeCtx D) : Option ErrorCode × NativeCtx D :=
  if memory = .noArray then (some .memoryAllocation, n)
  else NativeCtx.loadDictionary memory { n with inFrame := false }

/-- `initCStream`. -/
def initCStream (n : NativeCtx D) : Option ErrorCode × NativeCtx D :=
  NativeCtx.refCDict none { n with inFrame := false }

/-- The native call of the first `compress`. -/
def init (memory : Memory) (s : Stream D) : NativeCtx D → Option ErrorCode × NativeCtx D :=
  match s.dict with
  | some d => initCStreamWithFastDict d
  | none => if s.bytes then initCStreamWithDict memory else initCStream

/-- `if (!initialized) { … }`. -/
def initIfNeeded (memory : Memory) : Java (Sys (Stream D) D) Unit := do
  let s ← get
  if s.holder.initialized then pure ()
  else do
    nativeCall longError (init memory s.holder)
    setInitialized true

/-- `compress`. -/
def compress (refusal : Option JavaException) (memory : Memory) (w : NativeCtx.Work D) :
    Java (Sys (Stream D) D) Unit := do
  Ctx.refuse refusal
  require (fun s => !s.closed) streamClosed
  initIfNeeded memory
  work w

/-- The loops of `flush` and `close`. -/
def workIfInitialized (w : NativeCtx.Work D) : Java (Sys (Stream D) D) Unit := do
  let s ← get
  if s.holder.initialized then work w else pure ()

/-- `flush`. -/
def flush (w : NativeCtx.Work D) : Java (Sys (Stream D) D) Unit := do
  require (fun s => !s.closed) (.ioException "Already closed")
  workIfInitialized w

/-- The `finally` of `close`. -/
def closeFinally : Java (Sys (Stream D) D) Unit := do
  freeStream
  setClosed
  setInitialized false
  setBytes false
  replaceDict none

/-- `close`. -/
def close (w : NativeCtx.Work D) : Java (Sys (Stream D) D) Unit := do
  let s ← get
  if s.holder.closed then pure ()
  else tryFinally (workIfInitialized w) closeFinally

end DirectCompressing

end Stream

/-- A call of a method of one of the classes, with what its checks, its native calls and
everything it calls back answer. -/
inductive StreamOp (D : Type)
  | outputParameter (checksClosed : Bool) (throws : Option JavaException)
  | outputSetDictBytes (isNull : Bool) (memory : Memory)
  | outputSetDict (dict : Option D)
  | write (refusal : Option JavaException) (failure : Option ErrorCode) (w : NativeCtx.Work D)
  | outputFlush (closeFrameOnFlush : Bool) (w : NativeCtx.Work D) (parent : Option JavaException)
  | outputClose (failure : Option ErrorCode) (w : NativeCtx.Work D)
      (parent pool : Option JavaException)
  | inputParameter (throws : Option JavaException)
  | setRefMultipleDDicts (useMultiple : Bool)
  | inputSetDictBytes (isNull : Bool) (memory : Memory)
  | inputSetDict (memory : Memory) (dict : Option D)
  | inputRead (refusal : Option JavaException) (w : NativeCtx.Work D)
  | inputClose (pool parent : Option JavaException)
  | bufferParameter (throws : Option JavaException)
  | bufferSetDictBytes (isNull : Bool) (memory : Memory)
  | bufferSetDict (memory : Memory) (dict : Option D)
  | bufferRead (refusal : Option JavaException) (w : NativeCtx.Work D)
  | bufferClose
  | directSetDictBytes (isNull : Bool)
  | directSetDict (dict : Option D)
  | directCompress (refusal : Option JavaException) (memory : Memory) (w : NativeCtx.Work D)
  | directFlush (w : NativeCtx.Work D)
  | directClose (w : NativeCtx.Work D)

namespace StreamOp

variable {D : Type}

/-- The class that a method belongs to. -/
def cls : StreamOp D → StreamClass
  | .outputParameter _ _ | .outputSetDictBytes _ _ | .outputSetDict _ | .write _ _ _
  | .outputFlush _ _ _ | .outputClose _ _ _ _ => .output
  | .inputParameter _ | .setRefMultipleDDicts _ | .inputSetDictBytes _ _ | .inputSetDict _ _
  | .inputRead _ _ | .inputClose _ _ => .input
  | .bufferParameter _ | .bufferSetDictBytes _ _ | .bufferSetDict _ _ | .bufferRead _ _
  | .bufferClose => .bufferDecompressing
  | .directSetDictBytes _ | .directSetDict _ | .directCompress _ _ _ | .directFlush _
  | .directClose _ => .directCompressing

/-- The call of a method. -/
def perform [DecidableEq D] (dictID : D → ℕ) : StreamOp D → Java (Sys (Stream D) D) Unit
  | .outputParameter checksClosed throws => Stream.Output.setParameter checksClosed throws
  | .outputSetDictBytes isNull memory => Stream.Output.setDictBytes isNull memory
  | .outputSetDict dict => Stream.Output.setDict dict
  | .write refusal failure w => Stream.Output.write refusal failure w
  | .outputFlush closeFrameOnFlush w parent => Stream.Output.flush closeFrameOnFlush w parent
  | .outputClose failure w parent pool => Stream.Output.close failure w parent pool
  | .inputParameter throws => Stream.Input.setParameter throws
  | .setRefMultipleDDicts useMultiple => Stream.Input.setRefMultipleDDicts useMultiple
  | .inputSetDictBytes isNull memory => Stream.Input.setDictBytes isNull memory
  | .inputSetDict memory dict => Stream.Input.setDict dictID memory dict
  | .inputRead refusal w => Stream.Input.read refusal w
  | .inputClose pool parent => Stream.Input.close pool parent
  | .bufferParameter throws => Stream.BufferDecompressing.setParameter throws
  | .bufferSetDictBytes isNull memory => Stream.BufferDecompressing.setDictBytes isNull memory
  | .bufferSetDict memory dict => Stream.BufferDecompressing.setDict dictID memory dict
  | .bufferRead refusal w => Stream.BufferDecompressing.read refusal w
  | .bufferClose => Stream.BufferDecompressing.close
  | .directSetDictBytes isNull => Stream.DirectCompressing.setDictBytes isNull
  | .directSetDict dict => Stream.DirectCompressing.setDict dict
  | .directCompress refusal memory w => Stream.DirectCompressing.compress refusal memory w
  | .directFlush w => Stream.DirectCompressing.flush w
  | .directClose w => Stream.DirectCompressing.close w

end StreamOp

/-- The streams of all classes. -/
def streamClass {D : Type} [DecidableEq D] (dictID : D → ℕ) :
    HolderClass (Stream D) (StreamOp D) D where
  has s op := s.cls = op.cls
  perform := StreamOp.perform dictID

end ZstdJni.Dict
