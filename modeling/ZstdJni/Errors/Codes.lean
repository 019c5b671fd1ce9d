/-
# Error codes on their way to exceptions

A native call that fails returns a `size_t` that encodes the error.  It reaches Java as a
`jlong`, as a `jint`, or packed into the result of a streaming call, and it ends in a
`ZstdException` or `ZstdIOException` with a code and a message.  A constructor with one
argument looks both up, one with two arguments takes them as they are.

The code is the one of zstd on every route but two: the packed results, where Java passes on the
negated code to the constructor with two arguments, and the content size of a frame that is
unknown, which looks like an error.
-/

import ZstdJni.BufferCompress.Deliver
import ZstdJni.Context.OneShot
import ZstdJni.Context.Packed
import ZstdJni.InputStream.Model
import ZstdJni.OneShot.Model
import ZstdJni.OutputStream.Model

namespace ZstdJni.Errors

open ZstdJni.Foundation ZstdJni.Native ZstdJni.CompressCtx ZstdJni.Context

/-- A result of a native call for which `ZSTD_isError` holds. -/
structure ErrorResult where
  value : ℕ
  lt : value < 2 ^ 64
  isError : zstdIsError value = true

/-- `ZSTD_getErrorCode` on a `size_t`. -/
def zstdGetErrorCode (r : ℕ) : ℕ := if zstdIsError r then 2 ^ 64 - r else 0

/-- `ZSTD_getErrorName` on a `size_t`. -/
def zstdGetErrorName (r : ℕ) : String :=
  if zstdIsError r then
    match ErrorCode.all.find? fun c => (c.value : ℤ) = zstdGetErrorCode r with
    | some c => c.text
    | none => "Unspecified error code"
  else "No error detected"

/-- An exception carries the code and the name of a result. -/
def Reports (r : ℕ) : JavaException → Prop
  | .zstdException code message => code = zstdGetErrorCode r ∧ message = zstdGetErrorName r
  | .zstdIOException code message => code = zstdGetErrorCode r ∧ message = zstdGetErrorName r
  | _ => False

theorem getErrorCode_eq (v : ℤ) : getErrorCode v = zstdGetErrorCode (sizeT v) := by
  unfold getErrorCode zstdGetErrorCode Native.isError
  split
  · rfl
  · rfl

theorem getErrorName_eq (v : ℤ) : getErrorName v = zstdGetErrorName (sizeT v) := by
  unfold getErrorName zstdGetErrorName
  rw [getErrorCode_eq]
  rfl

namespace ErrorResult

variable (r : ErrorResult)

theorem large : 2 ^ 64 - 120 < r.value := of_decide_eq_true r.isError

theorem sizeT_jlong : sizeT (jlong r.value) = r.value := by
  have hlt := r.lt
  simp only [sizeT, jlong, narrow]
  omega

/-- The narrowing to a `jint` keeps an error, since it is a small negative number. -/
theorem sizeT_jint : sizeT (jint r.value) = r.value := by
  have hlarge := r.large
  have hlt := r.lt
  simp only [sizeT, jint, narrow]
  omega

theorem isError_jlong : Native.isError (jlong r.value) = true := by
  rw [Native.isError, r.sizeT_jlong, r.isError]

theorem isError_jint : Native.isError (jint r.value) = true := by
  rw [Native.isError, r.sizeT_jint, r.isError]

theorem getErrorCode_eq : zstdGetErrorCode r.value = 2 ^ 64 - r.value := if_pos r.isError

theorem reports_ofResult {v : ℤ} (hv : sizeT v = r.value) : Reports r.value (.ofResult v) :=
  ⟨hv ▸ Errors.getErrorCode_eq v, hv ▸ getErrorName_eq v⟩

theorem reports_ofIOResult {v : ℤ} (hv : sizeT v = r.value) : Reports r.value (.ofIOResult v) :=
  ⟨hv ▸ Errors.getErrorCode_eq v, hv ▸ getErrorName_eq v⟩

end ErrorResult

/-- The result for a code of the enumeration, whose code is what the accessor of `Zstd` for it
returns. -/
def ErrorResult.ofCode (code : ErrorCode) : ErrorResult where
  value := code.result
  lt := by cases code <;> decide
  isError := by cases code <;> decide

theorem zstdGetErrorCode_ofCode (code : ErrorCode) :
    zstdGetErrorCode (ErrorResult.ofCode code).value = code.value := by
  cases code <;> decide

/-- The exception of an outcome. -/
def thrown {α : Type} : Outcome α → Option JavaException
  | .returned _ => none
  | .threw e => some e

/-- The exception with which a turn leaves its loop. -/
def leftWith {τ ρ : Type} (outcome : ρ → Option JavaException) : Turn τ ρ → Option JavaException
  | .again _ => none
  | .leave result => outcome result

/-- The methods that hand a setting, a dictionary or a command to zstd and check the result,
apart from the setters of the compressing output stream. -/
inductive Setter
  /-- Of `ZstdCompressCtx`. -/
  | setWorkers | setOverlapLog | setJobSize | setTargetLength | setMinMatch | setSearchLog
  | setChainLog | setHashLog | setWindowLog | setStrategy | setSequenceProducerFallback
  | setSearchForExternalRepcodes | setValidateSequences | setEnableLongDistanceMatching
  | loadDictCompress | loadFastDictCompress | resetCompress | setPledgedSrcSize
  /-- Of `ZstdDecompressCtx`. -/
  | loadDictDecompress | loadFastDictDecompress | resetDecompress
  /-- Of the streams. -/
  | inputSetDict | inputSetFastDict | inputSetLongMax | inputSetRefMultipleDDicts
  | outputSetDict | outputSetFastDict | bufferSetDict | bufferSetFastDict | bufferSetLongMax
  /-- Of `ZstdDictTrainer`. -/
  | trainSamples

/-- The type of the result of the native method. -/
def Setter.native : Setter → ℕ → ℤ
  | loadDictCompress | loadFastDictCompress | resetCompress | setPledgedSrcSize
  | loadDictDecompress | loadFastDictDecompress | resetDecompress | trainSamples => jlong
  | _ => jint

/-- The class of the exception. -/
def Setter.exception : Setter → ℤ → JavaException
  | inputSetDict | inputSetFastDict | inputSetLongMax | inputSetRefMultipleDDicts
  | outputSetDict | outputSetFastDict | bufferSetDict | bufferSetFastDict | bufferSetLongMax =>
    .ofIOResult
  | _ => .ofResult

/-- What a setter does with the result of the native method. -/
def Setter.check (s : Setter) (r : ℕ) : Outcome Unit :=
  if Native.isError (s.native r) then .threw (s.exception (s.native r)) else .returned ()

/-- The kinds of entry points. -/
inductive EntryPoint
  | oneShot
  | findFrameCompressedSize
  | contentSize
  | setter (s : Setter)
  | compressByteBufferStream
  | compressDirectByteBufferStream
  | decompressDirectByteBufferStream
  | outputStream
  | inputStream
  | bufferDecompressingStream
  | bufferCompressingStream

/-- The entry points whose result is packed with two positions. -/
def EntryPoint.IsPacked : EntryPoint → Prop
  | compressByteBufferStream | compressDirectByteBufferStream | decompressDirectByteBufferStream =>
    True
  | _ => False

/-- The calls at an entry point in which a native call fails with a result, and the exception
that they throw, if any. -/
inductive Call (r : ErrorResult) : EntryPoint → Option JavaException → Prop
  | oneShot : Call r .oneShot (thrown (finishSize r.value))
  | findFrameCompressedSize (Z : FrameApi) (src : OneShot.JavaArray) (srcPosition : ℤ)
      (hcheck : OneShot.checkIndices src srcPosition
        (toInt (src.bytes.length - srcPosition)) = .ok ())
      (hret : Z.findFrameCompressedSize
        (src.part srcPosition (toInt (src.bytes.length - srcPosition))) = r.value) :
      Call r .findFrameCompressedSize
        (match OneShot.findFrameCompressedSize Z src srcPosition with
          | .error e => some e
          | .ok _ => none)
  | contentSize :
      Call r .contentSize
        (match OneShot.checkContentSize (jlong r.value) with
          | .error e => some e
          | .ok _ => none)
  | setter (s : Setter) : Call r (.setter s) (thrown (s.check r.value))
  | compressByteBufferStream {σ : Type} (Z : Compressor σ) (context : σ) (buffers : Buffers)
      (endOp : Directive) (hwritable : buffers.dst.readOnly = false)
      (hdst : buffers.dst.kind ≠ .other) (hsrc : buffers.src.kind ≠ .other)
      (hret : (compressRemaining Z context buffers endOp).result = r.value) :
      Call r .compressByteBufferStream
        (thrown (CompressCtx.compressByteBufferStream Z true context buffers endOp).outcome)
  | compressDirectByteBufferStream {σ : Type} (Z : Compressor σ) (context : σ) (buffers : Buffers)
      (endOp : Directive)
      (hret : (compressDirectBufferStream Z context buffers endOp).result = r.value) :
      Call r .compressDirectByteBufferStream
        (thrown (CompressCtx.compressDirectByteBufferStream Z true context buffers endOp).outcome)
  | decompressDirectByteBufferStream {σ : Type} (Z : Decompressor σ) (context : σ)
      (buffers : Buffers)
      (hret : (decompressDirectBufferStream Z context buffers).result = r.value) :
      Call r .decompressDirectByteBufferStream
        (thrown (Context.decompressDirectByteBufferStream Z true context buffers).outcome)
  | beginFrame {σ : Type} (E : Encoder σ Setting Byte Byte) (self : OutputStream.State σ)
      (hclosed : self.frameClosed = true) (hret : (E.reset self.stream).2 = r.value) :
      Call r .outputStream (thrown (OutputStream.beginFrame E self).outcome)
  | beginEmptyFrame {σ : Type} (E : Encoder σ Setting Byte Byte) (self : OutputStream.State σ)
      (hstarted : self.frameStarted = false) (hret : (E.reset self.stream).2 = r.value) :
      Call r .outputStream (thrown (OutputStream.beginEmptyFrame E self).outcome)
  | write {σ : Type} (E : Encoder σ Setting Byte Byte) (src : List Byte) (srcSize : ℕ)
      (self : OutputStream.State σ) (hleft : self.srcPos < srcSize)
      (hret : (E.encode self.stream .goOn (window src self.srcPos srcSize)
        OutputStream.dstSize).2.ret = r.value) :
      Call r .outputStream
        (leftWith (fun ended => thrown ended.outcome) (OutputStream.writeTurn E src srcSize self))
  | drain {σ : Type} (E : Encoder σ Setting Byte Byte) (directive : Directive)
      (self : OutputStream.State σ)
      (hret : (E.encode self.stream directive [] OutputStream.dstSize).2.ret = r.value) :
      Call r .outputStream
        (leftWith (fun ended => thrown ended.outcome)
          (OutputStream.drainTurn (OutputStream.drainStream E directive) self))
  | parameterSetter {σ : Type} (E : Encoder σ Setting Byte Byte) (setting : Setting)
      (self : OutputStream.State σ) (hopen : self.isClosed = false)
      (hclosed : self.frameClosed = true) (hret : (E.configure self.stream setting).2 = r.value) :
      Call r .outputStream (thrown (OutputStream.setterOf E setting self).outcome)
  | read {σ : Type} (D : Decoder σ Byte Byte) (offset dstSize : ℕ) (self : InputStream.State σ)
      (dst : List Byte)
      (hret : (D.decode self.stream self.pending (dstSize - self.dstPos)).2.ret = r.value) :
      Call r .inputStream
        (leftWith (fun ended => thrown ended.outcome)
          (InputStream.decodeTurn D offset dstSize self dst))
  | readBuffer {σ : Type} (D : Decoder σ Byte Byte) (refill : BufferDecompress.Refill)
      (direct : Bool) (target source : BufferDecompress.Buffer) (st : BufferDecompress.State σ)
      (hopen : st.closed = false) (hend : st.streamEnd = false) (hsource : st.source = some source)
      (htarget : target.Serves direct) (hserves : source.Serves direct)
      (hret : (D.decode st.stream source.remaining target.room).2.ret = r.value) :
      Call r .bufferDecompressingStream
        (thrown (BufferDecompress.read D refill direct target st).outcome)
  | compressBuffer {σ κ : Type} (E : Encoder σ (BufferCompress.Init κ) Byte Byte)
      (target source : BufferDecompress.Buffer) (self : BufferCompress.State σ κ)
      (htarget : target.kind = .direct) (hsource : source.kind = .direct)
      (hret : (E.encode self.stream .goOn source.remaining target.room).2.ret = r.value) :
      Call r .bufferCompressingStream
        (leftWith (fun ended => thrown ended.outcome)
          (BufferCompress.compressInto E target self source))
  | drainBuffer {σ κ : Type} (E : Encoder σ (BufferCompress.Init κ) Byte Byte)
      (flushBuffer : BufferCompress.FlushBuffer) (directive : Directive)
      (target : BufferDecompress.Buffer) (self : BufferCompress.State σ κ)
      (hat : self.target = some target) (htarget : target.kind = .direct)
      (hret : (E.encode self.stream directive [] target.room).2.ret = r.value) :
      Call r .bufferCompressingStream
        (leftWith (fun ended => thrown ended.outcome)
          (BufferCompress.drainTurn flushBuffer
            (fun stream target => BufferCompress.drainStream E stream target directive) self))
  | initBuffer {σ κ : Type} (E : Encoder σ (BufferCompress.Init κ) Byte Byte)
      (flushBuffer : BufferCompress.FlushBuffer) (fuel : ℕ) (source : BufferDecompress.Buffer)
      (self : BufferCompress.State σ κ) (hsource : source.kind = .direct)
      (hopen : self.closed = false) (hfresh : self.initialized = false)
      (hret : (E.configure self.stream self.init).2 = r.value) :
      Call r .bufferCompressingStream
        ((BufferCompress.compress E flushBuffer fuel source self).bind fun ended =>
          thrown ended.outcome)

/-- The condition under which an entry point reports a result. -/
def EntryPoint.Faithful (p : EntryPoint) (r : ErrorResult) : Prop :=
  ¬ p.IsPacked ∧ (p = .contentSize → r.value ≠ 2 ^ 64 - 1)

section Exceptions

variable {r : ErrorResult}

/-- An exception from a result that was looked up. -/
theorem exists_ofResult {p : EntryPoint} {v : ℤ} (hv : sizeT v = r.value) (hp : p.Faithful r) :
    ∃ e, some (JavaException.ofResult v) = some e ∧ (Reports r.value e ↔ p.Faithful r) :=
  ⟨_, rfl, iff_of_true (r.reports_ofResult hv) hp⟩

theorem exists_ofIOResult {p : EntryPoint} {v : ℤ} (hv : sizeT v = r.value) (hp : p.Faithful r) :
    ∃ e, some (JavaException.ofIOResult v) = some e ∧ (Reports r.value e ↔ p.Faithful r) :=
  ⟨_, rfl, iff_of_true (r.reports_ofIOResult hv) hp⟩

/-- The exception from a packed result has the right message and the negated code. -/
theorem updateStreamPositions_threw {σ : Type} {buffers : Buffers} {native : NativeRun σ}
    (hrange : InRange buffers native) (hret : native.result = r.value) :
    thrown (updateStreamPositions buffers native).outcome =
      some (.zstdException (-zstdGetErrorCode r.value) (zstdGetErrorName r.value)) := by
  have hlt := r.lt
  have hlarge := r.large
  rw [hrange.updateStreamPositions_eq, hret, if_pos r.isError]
  have hcode : (r.value : ℤ) - 2 ^ 64 = -(zstdGetErrorCode r.value : ℤ) := by
    rw [r.getErrorCode_eq]
    omega
  have hback : sizeT ((r.value : ℤ) - 2 ^ 64) = r.value := by
    simp only [sizeT]
    omega
  rw [getErrorName_eq, hback, hcode]
  rfl

/-- The negated code is not the code. -/
theorem not_reports_negated (r : ErrorResult) :
    ¬ Reports r.value (.zstdException (-zstdGetErrorCode r.value) (zstdGetErrorName r.value)) := by
  rintro ⟨hcode, _⟩
  have hlt := r.lt
  rw [r.getErrorCode_eq] at hcode
  omega

theorem exists_packed {p : EntryPoint} (hp : p.IsPacked) {ex : Option JavaException}
    (hex : ex = some (.zstdException (-zstdGetErrorCode r.value) (zstdGetErrorName r.value))) :
    ∃ e, ex = some e ∧ (Reports r.value e ↔ p.Faithful r) :=
  ⟨_, hex, iff_of_false (not_reports_negated r) fun h => h.1 hp⟩

/-- A setter looks up the code and the message of what it got. -/
theorem Setter.check_threw (s : Setter) :
    ∃ v, sizeT v = r.value ∧ (thrown (s.check r.value) = some (.ofResult v) ∨
      thrown (s.check r.value) = some (.ofIOResult v)) := by
  have hnative : s.native = jlong ∨ s.native = jint := by
    cases s <;> first | exact .inl rfl | exact .inr rfl
  have hexception : s.exception = .ofResult ∨ s.exception = .ofIOResult := by
    cases s <;> first | exact .inl rfl | exact .inr rfl
  have hvalue : sizeT (s.native r.value) = r.value := by
    rcases hnative with h | h
    · rw [h, r.sizeT_jlong]
    · rw [h, r.sizeT_jint]
  refine ⟨s.native r.value, hvalue, ?_⟩
  have herror : Native.isError (s.native r.value) = true := by
    rw [Native.isError, hvalue, r.isError]
  unfold Setter.check
  rw [if_pos herror]
  rcases hexception with h | h
  · exact .inl (by rw [h]; rfl)
  · exact .inr (by rw [h]; rfl)

/-- A content size that looks like an error. -/
theorem checkContentSize_threw :
    ∃ e, OneShot.checkContentSize (jlong r.value) = .error e ∧
      (Reports r.value e ↔ EntryPoint.contentSize.Faithful r) := by
  have hlt := r.lt
  have hlarge := r.large
  have hvalue : jlong r.value = r.value - 2 ^ 64 := by
    simp only [jlong, narrow]
    omega
  unfold OneShot.checkContentSize
  rw [if_pos r.isError_jlong]
  by_cases hunknown : jlong r.value = -1
  · rw [if_pos hunknown]
    refine ⟨_, rfl, iff_of_false (fun h => ?_) fun h => h.2 rfl (by omega)⟩
    have hcode := h.1
    rw [hunknown, r.getErrorCode_eq] at hcode
    omega
  · rw [if_neg hunknown]
    refine ⟨_, rfl, iff_of_true (r.reports_ofResult r.sizeT_jlong) ⟨id, fun _ => ?_⟩⟩
    omega

/-- Entry points that are neither packed nor about a content size. -/
theorem faithful_of {p : EntryPoint} (hpacked : ¬ p.IsPacked) (hne : p ≠ .contentSize) :
    p.Faithful r :=
  ⟨hpacked, fun h => absurd h hne⟩

end Exceptions

/-- Whatever call fails with a result of zstd throws an exception, and this exception carries the
code and the name of the result exactly if the entry point does not pack its result and the
result is not a content size that is unknown. -/
theorem error_reported_iff (r : ErrorResult) (p : EntryPoint) (ex : Option JavaException) :
    Call r p ex → ∃ e, ex = some e ∧ (Reports r.value e ↔ p.Faithful r) := by
  intro hcall
  cases hcall with
  | oneShot =>
      unfold finishSize
      rw [if_pos r.isError_jlong]
      exact exists_ofResult r.sizeT_jlong (faithful_of id fun h => by cases h)
  | findFrameCompressedSize Z src srcPosition hcheck hret =>
      have hresult : OneShot.findFrameCompressedSize Z src srcPosition =
          .error (.ofResult (jlong r.value)) := by
        simp only [OneShot.findFrameCompressedSize, hcheck, hret, r.isError_jlong, if_true]
      rw [hresult]
      exact exists_ofResult r.sizeT_jlong (faithful_of id fun h => by cases h)
  | contentSize =>
      obtain ⟨e, he, hreports⟩ := checkContentSize_threw (r := r)
      rw [he]
      exact ⟨e, rfl, hreports⟩
  | setter s =>
      obtain ⟨v, hv, h | h⟩ := s.check_threw (r := r)
      · rw [h]
        exact exists_ofResult hv (faithful_of id fun h => by cases h)
      · rw [h]
        exact exists_ofIOResult hv (faithful_of id fun h => by cases h)
  | compressByteBufferStream Z context buffers endOp hwritable hdst hsrc hret =>
      refine exists_packed (p := .compressByteBufferStream) trivial ?_
      rw [compressByteBufferStream_eq _ _ _ _ hwritable hdst hsrc,
        ← updateStreamPositions_compressRemaining]
      exact updateStreamPositions_threw
        (inRange_compressBufferStream Z context buffers endOp _ _ _ _) hret
  | compressDirectByteBufferStream Z context buffers endOp hret =>
      refine exists_packed (p := .compressDirectByteBufferStream) trivial ?_
      exact updateStreamPositions_threw
        (inRange_compressDirectBufferStream Z context buffers endOp) hret
  | decompressDirectByteBufferStream Z context buffers hret =>
      refine exists_packed (p := .decompressDirectByteBufferStream) trivial ?_
      exact updateStreamPositions_threw (inRange_decompressDirectBufferStream Z context buffers)
        hret
  | beginFrame E self hclosed hret =>
      have hresult : (OutputStream.beginFrame E self).outcome =
          .threw (.ofIOResult (jint r.value)) := by
        simp only [OutputStream.beginFrame, hclosed, if_true, OutputStream.resetCStream, hret,
          r.isError_jint]
      rw [hresult]
      exact exists_ofIOResult r.sizeT_jint (faithful_of id fun h => by cases h)
  | beginEmptyFrame E self hstarted hret =>
      have hresult : (OutputStream.beginEmptyFrame E self).outcome =
          .threw (.ofIOResult (jint r.value)) := by
        simp only [OutputStream.beginEmptyFrame, hstarted, Bool.false_eq_true, if_false,
          OutputStream.resetCStream, hret, r.isError_jint, if_true]
      rw [hresult]
      exact exists_ofIOResult r.sizeT_jint (faithful_of id fun h => by cases h)
  | write E src srcSize self hleft hret =>
      have hresult : leftWith (fun ended => thrown ended.outcome)
          (OutputStream.writeTurn E src srcSize self) = some (.ofIOResult (jint r.value)) := by
        simp only [OutputStream.writeTurn, hleft, if_true, OutputStream.compressStream, hret,
          r.isError_jint, leftWith, thrown]
      rw [hresult]
      exact exists_ofIOResult r.sizeT_jint (faithful_of id fun h => by cases h)
  | drain E directive self hret =>
      have hresult : leftWith (fun ended => thrown ended.outcome)
          (OutputStream.drainTurn (OutputStream.drainStream E directive) self) =
            some (.ofIOResult (jint r.value)) := by
        simp only [OutputStream.drainTurn, OutputStream.drainStream, hret, r.isError_jint, if_true,
          leftWith, thrown]
      rw [hresult]
      exact exists_ofIOResult r.sizeT_jint (faithful_of id fun h => by cases h)
  | parameterSetter E setting self hopen hclosed hret =>
      have hresult : (OutputStream.setterOf E setting self).outcome =
          .threw (.ofIOResult (jint r.value)) := by
        rw [OutputStream.setterOf_eq]
        simp only [OutputStream.parameterSetter, hopen, hclosed, Bool.false_eq_true, if_false,
          Bool.not_true, hret, r.isError_jint, if_true]
      rw [hresult]
      exact exists_ofIOResult r.sizeT_jint (faithful_of id fun h => by cases h)
  | read D offset dstSize self dst hret =>
      have hresult : leftWith (fun ended => thrown ended.outcome)
          (InputStream.decodeTurn D offset dstSize self dst) =
            some (.ofIOResult (jint r.value)) := by
        simp only [InputStream.decodeTurn, InputStream.decompressStream, hret, r.isError_jint,
          if_true, leftWith, thrown]
      rw [hresult]
      exact exists_ofIOResult r.sizeT_jint (faithful_of id fun h => by cases h)
  | readBuffer D refill direct target source st hopen hend hsource htarget hserves hret =>
      have hlt : (D.decode st.stream source.remaining target.room).2.ret < 2 ^ 64 := hret ▸ r.lt
      have herror : zstdIsError (D.decode st.stream source.remaining target.room).2.ret = true :=
        hret ▸ r.isError
      rw [BufferDecompress.read_error refill hopen hend hsource htarget hserves rfl hlt herror,
        hret]
      exact exists_ofIOResult r.sizeT_jlong (faithful_of id fun h => by cases h)
  | compressBuffer E target source self htarget hsource hret =>
      have hresult : leftWith (fun ended => thrown ended.outcome)
          (BufferCompress.compressInto E target self source) =
            some (.ofIOResult (jlong r.value)) := by
        simp only [BufferCompress.compressInto,
          BufferCompress.compressDirectByteBuffer_eq E self.stream htarget hsource,
          BufferCompress.encodeRoom, hret, r.isError_jlong, if_true, leftWith, thrown]
      rw [hresult]
      exact exists_ofIOResult r.sizeT_jlong (faithful_of id fun h => by cases h)
  | drainBuffer E flushBuffer directive target self hat htarget hret =>
      have hresult : leftWith (fun ended => thrown ended.outcome)
          (BufferCompress.drainTurn flushBuffer
            (fun stream target => BufferCompress.drainStream E stream target directive) self) =
              some (.ofIOResult (jlong r.value)) := by
        simp only [BufferCompress.drainTurn, hat,
          BufferCompress.drainStream_eq E self.stream directive htarget, BufferCompress.encodeRoom,
          hret, r.isError_jlong, if_true, leftWith, thrown]
      rw [hresult]
      exact exists_ofIOResult r.sizeT_jlong (faithful_of id fun h => by cases h)
  | initBuffer E flushBuffer fuel source self hsource hopen hfresh hret =>
      have hresult : ((BufferCompress.compress E flushBuffer fuel source self).bind fun ended =>
          thrown ended.outcome) = some (.ofIOResult (jlong r.value)) := by
        simp only [BufferCompress.compress, hsource, hopen, hfresh, ne_eq, not_true_eq_false,
          if_false, Bool.false_eq_true, hret, r.isError_jlong, if_true, Option.bind_some, thrown]
      rw [hresult]
      exact exists_ofIOResult r.sizeT_jlong (faithful_of id fun h => by cases h)

/-- A destination that is too small for a one-shot method. -/
theorem error_reported_dstSizeTooSmall :
    ∃ e, thrown (finishSize (ErrorResult.ofCode .dstSizeTooSmall).value) = some e ∧
      (Reports (ErrorResult.ofCode .dstSizeTooSmall).value e ↔
        EntryPoint.oneShot.Faithful (.ofCode .dstSizeTooSmall)) :=
  error_reported_iff (.ofCode .dstSizeTooSmall) .oneShot _ .oneShot

/-- A compressor that makes no progress. -/
def idleCompressor : Compressor Unit where
  compressStream2 _ _ _ output := ((), ⟨0, 0, 1, output⟩)
  consumed_le _ _ _ _ := Nat.zero_le _
  produced_le _ _ _ _ := Nat.zero_le _
  output_length _ _ _ _ := rfl
  ret_lt _ _ _ _ := (by decide : 1 < 2 ^ 64)

/-- An empty buffer of some kind. -/
def emptyBuffer (kind : Kind) : ByteBuffer where
  kind := kind
  readOnly := false
  storage := 0
  arrayOffset := 0
  position := 0
  limit := 0
  capacity := 0
  position_le := Nat.le_refl 0
  limit_le := Nat.le_refl 0
  capacity_lt := by decide

/-- A destination on the heap, for a method that needs a direct one. -/
def heapBuffers : Buffers where
  memory _ := []
  dst := emptyBuffer .array
  src := emptyBuffer .direct
  dst_fits := Nat.le_refl 0
  src_fits := Nat.le_refl 0

/-- The code of the exception for a destination that is too small is -70 and not 70. -/
theorem packed_code_negated :
    (compressDirectBufferStream idleCompressor () heapBuffers .finish).result =
      ErrorCode.dstSizeTooSmall.result ∧
    (CompressCtx.compressDirectByteBufferStream idleCompressor true () heapBuffers
      .finish).outcome =
      .threw (.zstdException (-70) "Destination buffer is too small") ∧
    ¬ Reports ErrorCode.dstSizeTooSmall.result
      (.zstdException (-70) "Destination buffer is too small") := by
  refine ⟨by decide, ?_, fun h => absurd h.1 (by decide)⟩
  have hrange := inRange_compressDirectBufferStream idleCompressor () heapBuffers .finish
  have hthrew := updateStreamPositions_threw (r := .ofCode .dstSizeTooSmall) hrange (by decide)
  have hcode : zstdGetErrorCode (ErrorResult.ofCode .dstSizeTooSmall).value = 70 := by decide
  have hname : zstdGetErrorName (ErrorResult.ofCode .dstSizeTooSmall).value =
      "Destination buffer is too small" := by decide
  rw [hcode, hname] at hthrew
  unfold CompressCtx.compressDirectByteBufferStream
  rw [if_neg (by decide)]
  cases houtcome : (updateStreamPositions heapBuffers
      (compressDirectBufferStream idleCompressor () heapBuffers .finish)).outcome with
  | returned flushed => rw [houtcome] at hthrew; exact (nomatch hthrew)
  | threw e =>
      rw [houtcome] at hthrew
      exact congrArg Outcome.threw (Option.some.inj hthrew)

end ZstdJni.Errors
