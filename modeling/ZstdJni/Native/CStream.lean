/-
# The streaming compressor

What the bindings may rely on when they drive `ZSTD_compressStream2`: the general
contract of a streaming encoder for a self-delimiting format, and the size of its
results.  A result that is not an error is the number of bytes that are still to be
flushed, or a lower bound of it, and stays far below `2 ^ 31`: the output buffer of a
single-threaded compressor holds one block, a job of a multi-threaded one at most a
gigabyte.  A parameter that was set is answered with its value or zero.
-/

import ZstdJni.Foundation.FrameEncoder
import ZstdJni.Native.Result

namespace ZstdJni.Native

open ZstdJni.Foundation

/-- The parameters of a compressor that the output stream can set, with their values. -/
inductive Setting
  | checksum (useChecksums : Bool)
  | level (level : ℤ)
  | long (windowLog : ℤ)
  | workers (n : ℤ)
  | overlapLog (overlapLog : ℤ)
  | jobSize (jobSize : ℤ)
  | targetLength (targetLength : ℤ)
  | minMatch (minMatch : ℤ)
  | searchLog (searchLog : ℤ)
  | chainLog (chainLog : ℤ)
  | hashLog (hashLog : ℤ)
  | windowLog (windowLog : ℤ)
  | strategy (strategy : ℤ)
  deriving DecidableEq

/-- The documented behaviour of `ZSTD_compressStream2`, `ZSTD_CCtx_reset` and
`ZSTD_CCtx_setParameter`. -/
structure CStreamContract {σ : Type} (E : Encoder σ Setting Byte Byte) where
  /-- The frames of the format, with their contents. -/
  IsFrame : Frame Byte Byte → Prop
  format : SelfDelimiting IsFrame
  contract : E.Contract IsFrame fun ret => zstdIsError ret = true
  encode_size : ∀ s directive input room, (E.encode s directive input room).2.ret < 2 ^ 64
  encode_small : ∀ s directive input room,
    zstdIsError (E.encode s directive input room).2.ret = false →
      (E.encode s directive input room).2.ret < 2 ^ 31
  reset_size : ∀ s, (E.reset s).2 < 2 ^ 64
  reset_small : ∀ s, zstdIsError (E.reset s).2 = false → (E.reset s).2 < 2 ^ 31
  configure_size : ∀ s setting, (E.configure s setting).2 < 2 ^ 64
  configure_small : ∀ s setting, zstdIsError (E.configure s setting).2 = false →
    (E.configure s setting).2 < 2 ^ 31

namespace CStreamContract

variable {σ : Type} {E : Encoder σ Setting Byte Byte}

/-- The error test in Java agrees with the one in zstd. -/
theorem isError_encode (C : CStreamContract E) (s : σ) (directive : Directive)
    (input : List Byte) (room : ℕ) :
    isError (jint (E.encode s directive input room).2.ret) =
      zstdIsError (E.encode s directive input room).2.ret :=
  isError_jint_of_small (C.encode_size _ _ _ _) (C.encode_small _ _ _ _)

theorem isError_reset (C : CStreamContract E) (s : σ) :
    isError (jint (E.reset s).2) = zstdIsError (E.reset s).2 :=
  isError_jint_of_small (C.reset_size s) (C.reset_small s)

theorem isError_configure (C : CStreamContract E) (s : σ) (setting : Setting) :
    isError (jint (E.configure s setting).2) = zstdIsError (E.configure s setting).2 :=
  isError_jint_of_small (C.configure_size s setting) (C.configure_small s setting)

end CStreamContract

end ZstdJni.Native
