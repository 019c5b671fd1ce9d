/-
# `ZstdCompressCtx` and `ZstdDecompressCtx`: locks and dictionaries

Every public method of the two classes, as far as it touches the lock of the context, its
dictionary or its sequence producer.  Almost all of them follow one of a few patterns:
the lock is acquired after `ensureOpen` and given back behind a native call, in a
`finally` or without one.  The methods differ in what they check before, and in their
native calls; a check that throws and what a native call answers are arguments of the
model.

What is done with the states of sequence producers is a matter of its own; here it only
counts that their methods may throw.
-/

import ZstdJni.Context.SequenceProducer
import ZstdJni.Dict.Native
import ZstdJni.Dict.World

namespace ZstdJni.Dict

open ZstdJni.Foundation ZstdJni.Native ZstdJni.AutoClose
open ZstdJni.Context.SequenceProducer (Answer)

/-- The two classes. -/
inductive CtxClass
  | compress
  | decompress
  deriving DecidableEq

/-- The fields of a context. -/
structure Ctx (D : Type) where
  cls : CtxClass
  sharedLock : ℤ
  /-- `nativePtr`, which is zero once the native context is freed. -/
  native : NativeCtx D
  /-- `compression_dict` or `decompression_dict`. -/
  dict : Option D
  /-- `seqprod != null`. -/
  seqprod : Bool

/-- A new context. -/
def Ctx.create {D : Type} (cls : CtxClass) : Ctx D := ⟨cls, 0, .create, none, false⟩

namespace Ctx

variable {D α : Type}

/-- A method of `AutoCloseBase` called on the context. -/
def own (m : Java ℤ α) : Java (Sys (Ctx D) D) α :=
  Method.zoom (fun s => s.holder.sharedLock)
    (fun lock s => { s with holder := { s.holder with sharedLock := lock } }) m

/-- A change of the fields of the context. -/
def modifyFields (f : Ctx D → Ctx D) : Java (Sys (Ctx D) D) Unit :=
  modify fun s => { s with holder := f s.holder }

def setDict (dict : Option D) : Java (Sys (Ctx D) D) Unit :=
  modifyFields fun c => { c with dict := dict }

def setSeqprod (seqprod : Bool) : Java (Sys (Ctx D) D) Unit :=
  modifyFields fun c => { c with seqprod := seqprod }

/-- What `ensureOpen` throws. -/
def closedContext : CtxClass → JavaException
  | .compress => .illegalState "Compression context is closed"
  | .decompress => .illegalState "Decompression context is closed"

def ensureOpen : Java (Sys (Ctx D) D) Unit := do
  let s ← get
  if s.holder.native.alive then pure () else throw (closedContext s.holder.cls)

/-- A check, which may throw. -/
def refuse {σ : Type} : Option JavaException → Java σ Unit
  | none => pure ()
  | some e => throw e

/-- A native call, and the exception made of its error code. -/
def nativeCall (f : NativeCtx D → Option ErrorCode × NativeCtx D) : Java (Sys (Ctx D) D) Unit := do
  let s ← get
  set { s with holder := { s.holder with native := (f s.holder.native).2 } }
  refuse ((f s.holder.native).1.map fun code => .ofResult (jlong code.result))

/-- A native call that compresses or decompresses. -/
def nativeWork [DecidableEq D] (w : NativeCtx.Work D) : Java (Sys (Ctx D) D) Unit := do
  modifyFields fun c => { c with native := c.native.work w }
  refuse w.throws

/-- A method of a sequence producer. -/
def callback {σ : Type} : Answer Unit → Java σ Unit
  | .returns _ => pure ()
  | .throws fatal => throw (.callback fatal)

/-- The lock of the context around a `try` block. -/
def locked (body : Java (Sys (Ctx D) D) Unit) : Java (Sys (Ctx D) D) Unit := do
  own acquireSharedLock
  tryFinally body (own releaseSharedLock)

/-- The setters whose native call is between the acquire and the release without a `try`;
none of these calls throws. -/
inductive PlainSetter
  | setLevel | setMagicless | setChecksum | setContentSize | setDictID | setLong
  deriving DecidableEq

def plainSetter (_ : PlainSetter) : Java (Sys (Ctx D) D) Unit := do
  ensureOpen
  own acquireSharedLock
  own releaseSharedLock

/-- The methods with a `try` block that neither touches the dictionary nor the frame. -/
inductive CheckedMethod
  | setWorkers | setOverlapLog | setJobSize | setTargetLength | setMinMatch | setSearchLog
  | setChainLog | setHashLog | setWindowLog | setStrategy | setSequenceProducerFallback
  | setSearchForExternalRepcodes | setValidateSequences | setEnableLongDistanceMatching
  | getFrameProgression | setPledgedSrcSize
  deriving DecidableEq

def checkedMethod (_ : CheckedMethod) (throws : Option JavaException) :
    Java (Sys (Ctx D) D) Unit := do
  ensureOpen
  locked (refuse throws)

/-- `if (seqprod != null) { seqprod.freeState(seqprod_state); seqprod = null; }`. -/
def freeRegistered (freeState : Answer Unit) : Java (Sys (Ctx D) D) Unit := do
  let s ← get
  if s.holder.seqprod then do
    callback freeState
    setSeqprod false
  else pure ()

/-- The second statement of `registerSequenceProducer`. -/
def registerNew (producer : Bool) (createState getFunctionPointer : Answer Unit) :
    Java (Sys (Ctx D) D) Unit :=
  if producer then do
    callback createState
    callback getFunctionPointer
    setSeqprod true
  else pure ()

/-- The `catch` of `registerSequenceProducer`, which an `Error` passes by. -/
def registerCatch (e : JavaException) : Java (Sys (Ctx D) D) Unit :=
  if e = .callback true then throw e
  else do
    setSeqprod false
    throw e

/-- `registerSequenceProducer`. -/
def registerSequenceProducer (producer : Bool)
    (freeState createState getFunctionPointer : Answer Unit) : Java (Sys (Ctx D) D) Unit := do
  ensureOpen
  locked (tryCatch
    (do freeRegistered freeState; registerNew producer createState getFunctionPointer)
    registerCatch)

variable [DecidableEq D]

/-- `loadCDictFast0` and `loadDDictFast0`. -/
def loadDictFast0 (dictID : D → ℕ) (memory : Memory) (cls : CtxClass) (dict : Option D) :
    NativeCtx D → Option ErrorCode × NativeCtx D :=
  match cls with
  | .compress => NativeCtx.refCDict dict
  | .decompress => NativeCtx.refDDict dictID memory dict

/-- The old dictionary is released and the new one kept.  In the methods that drop the
dictionary this is `if (dict != null) { dict.releaseSharedLock(); dict = null; }`. -/
def replaceDict (dict : Option D) : Java (Sys (Ctx D) D) Unit := do
  let s ← get
  releaseIfSet s.holder.dict
  setDict dict

/-- The `try` of `loadDict(ZstdDictCompress)` and `loadDict(ZstdDictDecompress)`. -/
def loadDictBody (dictID : D → ℕ) (memory : Memory) (dict : Option D) :
    Java (Sys (Ctx D) D) Unit := do
  let s ← get
  nativeCall (loadDictFast0 dictID memory s.holder.cls dict)
  replaceDict dict

/-- `loadDict(ZstdDictCompress)` and `loadDict(ZstdDictDecompress)`.  The dictionary is
acquired outside of the `try`. -/
def loadDict (dictID : D → ℕ) (memory : Memory) (dict : Option D) :
    Java (Sys (Ctx D) D) Unit := do
  ensureOpen
  own acquireSharedLock
  acquireIfSet dict
  tryFinally (loadDictBody dictID memory dict) (own releaseSharedLock)

/-- A native call that drops the dictionary. -/
def dropDict (f : NativeCtx D → Option ErrorCode × NativeCtx D) : Java (Sys (Ctx D) D) Unit := do
  nativeCall f
  replaceDict none

/-- `loadDict(byte[])`. -/
def loadDictBytes (memory : Memory) : Java (Sys (Ctx D) D) Unit := do
  ensureOpen
  locked (dropDict (NativeCtx.loadDictionary memory))

/-- `reset`. -/
def reset (failure : Option ErrorCode) : Java (Sys (Ctx D) D) Unit := do
  ensureOpen
  locked (dropDict (NativeCtx.reset failure))

/-- The methods that compress or decompress. -/
inductive DataMethod
  | compressByteBufferStream | compressDirectByteBufferStream | compressDirectByteBuffer
  | compressByteArray | decompressDirectByteBufferStream | decompressDirectByteBuffer
  | decompressByteArray | decompressByteArrayToDirectByteBuffer
  | decompressDirectByteBufferToByteArray
  deriving DecidableEq

/-- Whether the arguments are checked before `ensureOpen`. -/
def DataMethod.checksFirst : DataMethod → Bool
  | compressByteArray | decompressByteArray | decompressByteArrayToDirectByteBuffer
  | decompressDirectByteBufferToByteArray => true
  | _ => false

/-- The checks of a data method, `ensureOpen` among them. -/
def dataChecks (method : DataMethod) (refusal : Option JavaException) :
    Java (Sys (Ctx D) D) Unit :=
  if method.checksFirst then do
    refuse refusal
    ensureOpen
  else do
    ensureOpen
    refuse refusal

def dataMethod (method : DataMethod) (refusal : Option JavaException) (w : NativeCtx.Work D) :
    Java (Sys (Ctx D) D) Unit := do
  dataChecks method refusal
  locked (nativeWork w)

/-- `compress` and `decompress` in all their forms: a data method, with checks and an
allocation before it and an update of positions or a copy behind it. -/
def convenience (before : Option JavaException) (method : DataMethod)
    (refusal : Option JavaException) (w : NativeCtx.Work D) (behind : Option JavaException) :
    Java (Sys (Ctx D) D) Unit := do
  refuse before
  dataMethod method refusal w
  refuse behind

/-- The first statement of `doClose`.  A decompression context has no producer. -/
def freeNative (freeState : Answer Unit) : Java (Sys (Ctx D) D) Unit := do
  let s ← get
  if s.holder.native.alive then do
    modifyFields fun c => { c with native := c.native.free }
    freeRegistered freeState
  else pure ()

/-- `doClose`. -/
def doClose (freeState : Answer Unit) : Java (Sys (Ctx D) D) Unit := do
  freeNative freeState
  replaceDict none

/-- `close`. -/
def close (freeState : Answer Unit) : Java (Sys (Ctx D) D) Unit := do
  let closing ← own beginClose
  if closing then doClose freeState else pure ()

end Ctx

/-- A call of a method other than `close`, with what its checks, callbacks and native
calls answer. -/
inductive CtxOp (D : Type)
  | plainSetter (setter : Ctx.PlainSetter)
  | checkedMethod (method : Ctx.CheckedMethod) (throws : Option JavaException)
  | registerSequenceProducer (producer : Bool)
      (freeState createState getFunctionPointer : Answer Unit)
  | loadDict (memory : Memory) (dict : Option D)
  | loadDictBytes (memory : Memory)
  | reset (failure : Option ErrorCode)
  | dataMethod (method : Ctx.DataMethod) (refusal : Option JavaException)
      (w : NativeCtx.Work D)
  | convenience (before : Option JavaException) (method : Ctx.DataMethod)
      (refusal : Option JavaException) (w : NativeCtx.Work D) (behind : Option JavaException)

namespace CtxOp

variable {D : Type}

/-- The methods of `ZstdDecompressCtx`. -/
def ofDecompress : CtxOp D → Bool
  | .plainSetter setter => setter = .setMagicless
  | .checkedMethod _ _ => false
  | .registerSequenceProducer _ _ _ _ => false
  | .loadDict _ _ | .loadDictBytes _ | .reset _ => true
  | .dataMethod method _ _ | .convenience _ method _ _ _ =>
    match method with
    | .decompressDirectByteBufferStream | .decompressDirectByteBuffer | .decompressByteArray
    | .decompressByteArrayToDirectByteBuffer | .decompressDirectByteBufferToByteArray => true
    | _ => false

/-- The methods of `ZstdCompressCtx`. -/
def ofCompress : CtxOp D → Bool
  | op@(.dataMethod _ _ _) | op@(.convenience _ _ _ _ _) => !op.ofDecompress
  | _ => true

/-- The methods of a context of the class. -/
def has (c : Ctx D) (op : CtxOp D) : Bool :=
  match c.cls with
  | .compress => op.ofCompress
  | .decompress => op.ofDecompress

/-- The call of a method. -/
def perform [DecidableEq D] (dictID : D → ℕ) : CtxOp D → Java (Sys (Ctx D) D) Unit
  | .plainSetter setter => Ctx.plainSetter setter
  | .checkedMethod method throws => Ctx.checkedMethod method throws
  | .registerSequenceProducer producer freeState createState getFunctionPointer =>
    Ctx.registerSequenceProducer producer freeState createState getFunctionPointer
  | .loadDict memory dict => Ctx.loadDict dictID memory dict
  | .loadDictBytes memory => Ctx.loadDictBytes memory
  | .reset failure => Ctx.reset failure
  | .dataMethod method refusal w => Ctx.dataMethod method refusal w
  | .convenience before method refusal w behind =>
    Ctx.convenience before method refusal w behind

end CtxOp

/-- A call of any public method. -/
inductive CtxCall (D : Type)
  | op (op : CtxOp D)
  | close (freeState : Answer Unit)

/-- The contexts of both classes. -/
def ctxClass {D : Type} [DecidableEq D] (dictID : D → ℕ) : HolderClass (Ctx D) (CtxCall D) D where
  has c
    | .op op => op.has c
    | .close _ => true
  perform
    | .op op => op.perform dictID
    | .close freeState => Ctx.close freeState

end ZstdJni.Dict
