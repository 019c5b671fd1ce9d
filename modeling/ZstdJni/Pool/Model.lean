/-
# Buffers from a pool

The streams take their scratch arrays from a `BufferPool`, which is an interface that
anybody may implement.  `getArrayBackedBuffer` defends against some of what a pool may
return: nothing, or a buffer without an array or with an offset into it.

A pool is what it answers to each request.  What is done with the native streams and with
the buffers is recorded on the way.
-/

import ZstdJni.InputStream.Model
import ZstdJni.OutputStream.Model

namespace ZstdJni.Pool

open ZstdJni.Foundation ZstdJni.Native

/-- A `ByteBuffer`, as far as the streams look at one, with the array behind it if it has
one. -/
structure Buffer where
  hasArray : Bool
  arrayOffset : ℕ
  array : List Byte
  deriving DecidableEq

/-- What `bufferPool.get` does. -/
inductive Answer
  | threw (exception : JavaException)
  | null
  | buffer (buffer : Buffer)
  deriving DecidableEq

/-- What is done with a resource of a stream: the native stream, or a buffer. -/
inductive Event
  | created
  | freed
  | obtained (buffer : Buffer)
  | released (buffer : Buffer)
  deriving DecidableEq

/-- The test of `getArrayBackedBuffer`. -/
def Buffer.isArrayBacked (buffer : Buffer) : Bool := buffer.hasArray && buffer.arrayOffset == 0

/-- `Zstd.getArrayBackedBuffer(bufferPool, size)`, with how the pool takes back a buffer that
is refused. -/
def getArrayBackedBuffer (size : ℤ) (answer : Answer) (release : Outcome Unit) :
    Outcome Buffer × List Event :=
  match answer with
  | .threw e => (.threw e, [])
  | .null =>
    (.threw (.zstdIOException ErrorCode.memoryAllocation.value
      s!"Cannot get ByteBuffer of size {size} from the BufferPool"), [])
  | .buffer buffer =>
    if buffer.isArrayBacked then (.returned buffer, [.obtained buffer])
    else
      match release with
      | .threw e => (.threw e, [.obtained buffer, .released buffer])
      | .returned _ =>
        (.threw (.illegalArgument "provided ByteBuffer lacks array or has non-zero arrayOffset"),
          [.obtained buffer, .released buffer])

/-- A request is answered with an array, or it fails and leaves nothing to be given back. -/
theorem getArrayBackedBuffer_cases (size : ℤ) (answer : Answer) (release : Outcome Unit) :
    (∃ buffer, answer = .buffer buffer ∧ buffer.isArrayBacked = true ∧
      getArrayBackedBuffer size answer release = (.returned buffer, [.obtained buffer])) ∨
    ((∀ buffer, answer = .buffer buffer → buffer.isArrayBacked = false) ∧
      ∃ e events, getArrayBackedBuffer size answer release = (.threw e, events) ∧
        (events = [] ∨ ∃ buffer, events = [.obtained buffer, .released buffer])) := by
  cases answer with
  | threw e => exact Or.inr ⟨nofun, e, [], rfl, Or.inl rfl⟩
  | null => exact Or.inr ⟨nofun, _, [], rfl, Or.inl rfl⟩
  | buffer buffer =>
      cases hbacked : buffer.isArrayBacked with
      | true => exact Or.inl ⟨buffer, rfl, hbacked, if_pos hbacked⟩
      | false =>
          right
          refine ⟨fun other heq => Answer.buffer.inj heq ▸ hbacked, ?_⟩
          have hrefused : ¬ buffer.isArrayBacked = true := by simp [hbacked]
          cases release with
          | threw e =>
              exact ⟨e, _, if_neg hrefused, Or.inr ⟨buffer, rfl⟩⟩
          | returned u =>
              exact ⟨_, _, if_neg hrefused, Or.inr ⟨buffer, rfl⟩⟩

theorem getArrayBackedBuffer_eq_returned_iff {size : ℤ} {answer : Answer} {release : Outcome Unit}
    {buffer : Buffer} :
    (getArrayBackedBuffer size answer release).1 = .returned buffer ↔
      answer = .buffer buffer ∧ buffer.isArrayBacked = true := by
  rcases getArrayBackedBuffer_cases size answer release with
    ⟨got, hanswer, hbacked, hget⟩ | ⟨hrefused, e, events, hget, -⟩
  · rw [hget, hanswer]
    constructor
    · intro heq
      cases heq
      exact ⟨rfl, hbacked⟩
    · rintro ⟨heq, -⟩
      cases heq
      rfl
  · rw [hget]
    refine iff_of_false nofun ?_
    rintro ⟨hanswer, hbacked⟩
    rw [hrefused buffer hanswer] at hbacked
    cases hbacked

variable {σ : Type}

/-- The constructor of `ZstdOutputStreamNoFinalizer`, which creates the native stream first. -/
def constructOutput (stream : σ) (out : OutputStream.Sink) (answer : Answer)
    (release : Outcome Unit) : Outcome (Buffer × OutputStream.State σ) × List Event :=
  match getArrayBackedBuffer OutputStream.dstSize answer release with
  | (.threw e, events) => (.threw e, .created :: events)
  | (.returned buffer, events) =>
    (.returned (buffer, OutputStream.State.create stream out buffer.array), .created :: events)

/-- The constructor of `ZstdInputStreamNoFinalizer`, which gets its buffer first. -/
def constructInput (stream : σ) (upstream : InputStream.Upstream) (answer : Answer)
    (release : Outcome Unit) : Outcome (Buffer × InputStream.State σ) × List Event :=
  match getArrayBackedBuffer InputStream.srcBuffSize answer release with
  | (.threw e, events) => (.threw e, events)
  | (.returned buffer, events) =>
    (.returned (buffer, { InputStream.State.create stream upstream with src := buffer.array }),
      events ++ [.created])

end ZstdJni.Pool
