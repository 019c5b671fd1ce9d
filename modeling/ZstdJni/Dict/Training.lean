/-
# Training a dictionary

There are two ways to train a dictionary.  A `ZstdDictTrainer` takes one sample after the
other, copies those that fit into a direct buffer and keeps a list of their sizes.
`Zstd.trainFromBuffer` takes all samples at once, and its native side collects the sizes in
one loop and copies the samples behind each other in a second one.

The trainer of zstd is a parameter.  It is told where the samples are and how long each of
them is, so of the memory behind the pointer it reads as much as the sizes add up to.
Allocations may fail; a native call that runs out of memory has no result here.
-/

import Mathlib.Algebra.BigOperators.Group.List.Basic
import ZstdJni.Context.OneShot
import ZstdJni.Foundation.Machine
import ZstdJni.Foundation.Window
import ZstdJni.Native.DStream

namespace ZstdJni.Dict

open ZstdJni.Foundation ZstdJni.Native ZstdJni.Context

/-- A call of `ZDICT_trainFromBuffer`, or of `ZDICT_trainFromBuffer_legacy`. -/
structure TrainCall where
  legacy : Bool
  dictCapacity : ℕ
  samples : List Byte
  samplesSizes : List ℕ
  compressionLevel : ℤ
  deriving DecidableEq

/-- The trainer: its result, and what it writes to the front of the dictionary buffer. -/
structure Zdict where
  train : TrainCall → ℕ × List Byte
  result_lt : ∀ call, (train call).1 < 2 ^ 64
  result_le : ∀ call, zstdIsError (train call).1 = false → (train call).1 ≤ call.dictCapacity
  written_le : ∀ call, (train call).2.length ≤ call.dictCapacity

/-- What comes back from a native method: its result, the dictionary buffer, and the call of
the trainer if there was one. -/
structure Trained where
  result : ℤ
  dictBuffer : List Byte
  call : Option TrainCall

/-- The block of memory of a size that `malloc` returns. -/
abbrev Malloc := ℕ → Option (List Byte)

/-- The call of the trainer, with a pointer to samples. -/
def Zdict.trained (Z : Zdict) (legacy : Bool) (samplesBuffer : List Byte) (samplesSizes : List ℕ)
    (dictBuffer : List Byte) (compressionLevel : ℤ) : Trained :=
  let call : TrainCall := ⟨legacy, dictBuffer.length, samplesBuffer.take samplesSizes.sum,
    samplesSizes, compressionLevel⟩
  let (size, written) := Z.train call
  ⟨jlong size, overwrite dictBuffer 0 written, some call⟩

/-- The first loop of `trainFromBuffer0`: the sizes and their sum. -/
def countSizes : List (List Byte) → List ℕ → ℕ → List ℕ × ℕ
  | [], samplesSizes, samplesBufferSize => (samplesSizes, samplesBufferSize)
  | sample :: samples, samplesSizes, samplesBufferSize =>
    countSizes samples (samplesSizes ++ [sample.length]) (samplesBufferSize + sample.length)

/-- The second loop of `trainFromBuffer0`: the samples behind each other. -/
def copySamples : List (List Byte) → List Byte → ℕ → List Byte
  | [], samplesBuffer, _ => samplesBuffer
  | sample :: samples, samplesBuffer, cursor =>
    copySamples samples (overwrite samplesBuffer cursor sample) (cursor + sample.length)

/-- The native method `trainFromBuffer0`. -/
def trainFromBuffer0 (Z : Zdict) (malloc : Malloc) (samples : List (List Byte))
    (dictBuffer : List Byte) (legacy : Bool) (compressionLevel : ℤ) : Option Trained := do
  let _ ← malloc (8 * samples.length)
  let (samplesSizes, samplesBufferSize) := countSizes samples [] 0
  let samplesBuffer ← malloc samplesBufferSize
  return Z.trained legacy (copySamples samples samplesBuffer 0) samplesSizes dictBuffer
    compressionLevel

/-- The exception for ten samples or less. -/
def tooFewSamples : JavaException :=
  .zstdException ErrorCode.generic.value "nb of samples too low"

/-- How a training ends in Java: with a result and a dictionary buffer, or an exception; and
the call of the trainer, if there was one. -/
structure Training (α : Type) where
  outcome : Outcome α
  call : Option TrainCall

/-- `Zstd.trainFromBuffer(samples, dictBuffer, legacy, compressionLevel)`. -/
def trainFromBuffer (Z : Zdict) (malloc : Malloc) (samples : List (List Byte))
    (dictBuffer : List Byte) (legacy : Bool) (compressionLevel : ℤ) :
    Option (Training (ℤ × List Byte)) :=
  if samples.length ≤ 10 then some ⟨.threw tooFewSamples, none⟩
  else
    (trainFromBuffer0 Z malloc samples dictBuffer legacy compressionLevel).map fun trained =>
      ⟨.returned (trained.result, trained.dictBuffer), trained.call⟩

/-- The fields of a `ZstdDictTrainer`. -/
structure Trainer where
  allocatedSize : ℕ
  trainingSamples : List Byte
  position : ℕ
  sampleSizes : List ℤ
  dictSize : JInt
  filledSize : ℤ
  level : ℤ

/-- `new ZstdDictTrainer(sampleSize, dictSize, level)`. -/
def Trainer.create (sampleSize : ℕ) (dictSize : JInt) (level : ℤ) : Trainer where
  allocatedSize := sampleSize
  trainingSamples := List.replicate sampleSize 0
  position := 0
  sampleSizes := []
  dictSize := dictSize
  filledSize := 0
  level := level

/-- `addSample(sample)`.  The buffer throws if it has no room for the sample. -/
def Trainer.addSample (t : Trainer) (sample : List Byte) : Outcome Bool × Trainer :=
  if (t.allocatedSize : ℤ) < t.filledSize + sample.length then (.returned false, t)
  else if t.trainingSamples.length - t.position < sample.length then
    (.threw (.runtimeException "BufferOverflowException"), t)
  else
    (.returned true,
      { t with
        trainingSamples := overwrite t.trainingSamples t.position sample
        position := t.position + sample.length
        sampleSizes := t.sampleSizes ++ [(sample.length : ℤ)]
        filledSize := t.filledSize + sample.length })

/-- The loop of `trainFromBufferDirect0`: the sizes as `size_t` and their sum, unless one is
negative. -/
def convertSizes : List ℤ → List ℕ → ℕ → Option (List ℕ × ℕ)
  | [], samplesSizes, totalSamplesSize => some (samplesSizes, totalSamplesSize)
  | size :: sizes, samplesSizes, totalSamplesSize =>
    if size < 0 then none
    else convertSizes sizes (samplesSizes ++ [size.toNat]) (totalSamplesSize + size.toNat)

/-- The native method `trainFromBufferDirect0`, on the whole of both buffers. -/
def trainFromBufferDirect0 (Z : Zdict) (malloc : Malloc) (samples : List Byte)
    (sampleSizes : List ℤ) (dictBuffer : List Byte) (legacy : Bool) (compressionLevel : ℤ) :
    Option Trained := do
  let _ ← malloc (8 * sampleSizes.length)
  let refused : Trained := ⟨jlong ErrorCode.memoryAllocation.result, dictBuffer, none⟩
  match convertSizes sampleSizes [] 0 with
  | none => return refused
  | some (samplesSizes, totalSamplesSize) =>
    if samples.length < totalSamplesSize then return refused
    else return Z.trained legacy samples samplesSizes dictBuffer compressionLevel

/-- `Zstd.trainFromBufferDirect(samples, sampleSizes, dictBuffer, legacy, compressionLevel)`. -/
def trainFromBufferDirect (Z : Zdict) (malloc : Malloc) (samples : List Byte)
    (sampleSizes : List ℤ) (dictBuffer : List Byte) (legacy : Bool) (compressionLevel : ℤ) :
    Option (Training (ℤ × List Byte)) :=
  if sampleSizes.length ≤ 10 then some ⟨.threw tooFewSamples, none⟩
  else
    (trainFromBufferDirect0 Z malloc samples sampleSizes dictBuffer legacy compressionLevel).map
      fun trained => ⟨.returned (trained.result, trained.dictBuffer), trained.call⟩

/-- The end of `trainSamplesDirect`: an exception for an error, and else the buffer up to its
new limit. -/
def limitDict (result : ℤ) (dictBuffer : List Byte) : Outcome (List Byte) :=
  if isError result then .threw (.ofResult result)
  else if toInt result < 0 ∨ dictBuffer.length < toInt result then
    .threw (.illegalArgument "newLimit")
  else .returned (dictBuffer.take (toInt result).toNat)

/-- `trainSamplesDirect(legacy)`, and `trainSamples(legacy)`, which copies its result. -/
def Trainer.trainSamples (Z : Zdict) (malloc : Malloc) (t : Trainer) (legacy : Bool) :
    Option (Training (List Byte)) :=
  if t.dictSize.toInt < 0 then
    some ⟨.threw (.illegalArgument s!"capacity < 0: ({t.dictSize.toInt} < 0)"), none⟩
  else
    (trainFromBufferDirect Z malloc t.trainingSamples t.sampleSizes
        (List.replicate t.dictSize.toInt.toNat 0) legacy t.level).map fun training =>
      match training.outcome with
      | .threw e => ⟨.threw e, training.call⟩
      | .returned (result, dictBuffer) => ⟨limitDict result dictBuffer, training.call⟩

/-- A trainer under any sequence of samples. -/
def addSamples : Machine Trainer (List Byte) (List Byte × Outcome Bool) where
  step t sample := some ((sample, (t.addSample sample).1), (t.addSample sample).2)

/-- The samples that were accepted. -/
def accepted (events : List (List Byte × Outcome Bool)) : List (List Byte) :=
  events.filterMap fun event => if event.2 = .returned true then some event.1 else none

theorem accepted_append (events more : List (List Byte × Outcome Bool)) :
    accepted (events ++ more) = accepted events ++ accepted more := by
  simp [accepted]

/-- What a trainer keeps is what it has accepted. -/
structure Bookkeeping (t : Trainer) (samples : List (List Byte)) : Prop where
  content : t.trainingSamples.take t.position = samples.flatten
  sizes : t.sampleSizes = samples.map fun sample => (sample.length : ℤ)
  sum : t.sampleSizes.sum = t.filledSize
  filled : t.filledSize = t.position
  position_le : t.position ≤ t.allocatedSize
  capacity : t.trainingSamples.length = t.allocatedSize

theorem bookkeeping_create (sampleSize : ℕ) (dictSize : JInt) (level : ℤ) :
    Bookkeeping (Trainer.create sampleSize dictSize level) [] where
  content := rfl
  sizes := rfl
  sum := rfl
  filled := rfl
  position_le := Nat.zero_le _
  capacity := List.length_replicate

namespace Bookkeeping

variable {t : Trainer} {samples : List (List Byte)}

/-- A sample is accepted exactly if it fits, and the buffer has room for it then. -/
theorem addSample_cases (h : Bookkeeping t samples) (sample : List Byte) :
    (t.allocatedSize < t.position + sample.length ∧ t.addSample sample = (.returned false, t)) ∨
    (t.position + sample.length ≤ t.allocatedSize ∧ t.addSample sample = (.returned true,
      { t with
        trainingSamples := overwrite t.trainingSamples t.position sample
        position := t.position + sample.length
        sampleSizes := t.sampleSizes ++ [(sample.length : ℤ)]
        filledSize := t.filledSize + sample.length })) := by
  have hfilled := h.filled
  have hcapacity := h.capacity
  unfold Trainer.addSample
  by_cases hfits : t.position + sample.length ≤ t.allocatedSize
  · right
    refine ⟨hfits, ?_⟩
    rw [if_neg (by omega), if_neg (by omega)]
  · left
    refine ⟨by omega, ?_⟩
    rw [if_pos (by omega)]

/-- A sample that is accepted is put behind the others. -/
theorem accept (h : Bookkeeping t samples) {sample : List Byte}
    (hfits : t.position + sample.length ≤ t.allocatedSize) :
    Bookkeeping { t with
      trainingSamples := overwrite t.trainingSamples t.position sample
      position := t.position + sample.length
      sampleSizes := t.sampleSizes ++ [(sample.length : ℤ)]
      filledSize := t.filledSize + sample.length } (samples ++ [sample]) := by
  have hcapacity := h.capacity
  have hlength : (overwrite t.trainingSamples t.position sample).length = t.allocatedSize := by
    rw [length_overwrite (by omega), hcapacity]
  have hwritten := window_overwrite t.trainingSamples sample (Nat.zero_le t.position) (by omega)
  simp only [window, List.drop_zero] at hwritten
  constructor
  · rw [List.flatten_append, ← h.content, List.flatten_singleton]
    exact hwritten
  · rw [List.map_append, ← h.sizes]
    rfl
  · rw [List.sum_append, h.sum, List.sum_singleton]
  · simp only [h.filled]
    push_cast
    rfl
  · exact hfits
  · exact hlength

theorem step (h : Bookkeeping t samples) (sample : List Byte) :
    Bookkeeping (t.addSample sample).2
      (samples ++ accepted [(sample, (t.addSample sample).1)]) := by
  rcases h.addSample_cases sample with ⟨-, heq⟩ | ⟨hfits, heq⟩
  · rw [heq]
    simpa [accepted] using h
  · rw [heq]
    simpa [accepted] using h.accept hfits

/-- The sizes do not add up to more than the buffer. -/
theorem sum_le (h : Bookkeeping t samples) :
    (samples.map List.length).sum ≤ t.trainingSamples.length := by
  have hcapacity := h.capacity
  have hposition := h.position_le
  have hlength := congrArg List.length h.content
  rw [List.length_take, List.length_flatten] at hlength
  omega

end Bookkeeping

/-- The bookkeeping of every run, which leaves the buffer as large as it is. -/
theorem bookkeeping_run (t : Trainer) (h : Bookkeeping t []) (samples : List (List Byte)) :
    Bookkeeping (addSamples.run t samples).2 (accepted (addSamples.run t samples).1) ∧
      (addSamples.run t samples).2.allocatedSize = t.allocatedSize := by
  apply Machine.run_inv
    (fun events next => Bookkeeping next (accepted events) ∧ next.allocatedSize = t.allocatedSize) _
    ⟨h, rfl⟩
  rintro events before sample event next ⟨hbook, hsize⟩ hstep
  cases hstep
  rw [accepted_append]
  refine ⟨hbook.step sample, Eq.trans ?_ hsize⟩
  rcases hbook.addSample_cases sample with ⟨-, heq⟩ | ⟨-, heq⟩
  · rw [heq]
  · rw [heq]

theorem countSizes_eq (samples : List (List Byte)) (samplesSizes : List ℕ) (total : ℕ) :
    countSizes samples samplesSizes total =
      (samplesSizes ++ samples.map List.length, total + (samples.map List.length).sum) := by
  induction samples generalizing samplesSizes total with
  | nil => simp [countSizes]
  | cons sample samples ih =>
      rw [countSizes, ih, List.map_cons, List.sum_cons, List.append_assoc, List.singleton_append,
        Nat.add_assoc]

/-- The samples that are copied one behind the other are written as one. -/
theorem copySamples_eq (samples : List (List Byte)) {samplesBuffer : List Byte} {cursor : ℕ}
    (hfits : cursor + samples.flatten.length ≤ samplesBuffer.length) :
    copySamples samples samplesBuffer cursor = overwrite samplesBuffer cursor samples.flatten := by
  induction samples generalizing samplesBuffer cursor with
  | nil => simp [copySamples]
  | cons sample samples ih =>
      rw [List.flatten_cons, List.length_append] at hfits
      have hlength : (overwrite samplesBuffer cursor sample).length = samplesBuffer.length :=
        length_overwrite (by omega)
      rw [copySamples, ih (by omega), overwrite_overwrite (by omega), List.flatten_cons]

theorem convertSizes_eq (sizes samplesSizes : List ℕ) (total : ℕ) :
    convertSizes (sizes.map fun size : ℕ => (size : ℤ)) samplesSizes total =
      some (samplesSizes ++ sizes, total + sizes.sum) := by
  induction sizes generalizing samplesSizes total with
  | nil => simp [convertSizes]
  | cons size sizes ih =>
      rw [List.map_cons, convertSizes, if_neg (by omega), ih]
      simp [Nat.add_assoc]

section Paths

variable {Z : Zdict} {malloc : Malloc}

/-- `malloc` returns a block of the size it is asked for. -/
def Grants (malloc : Malloc) : Prop :=
  ∀ size, ∃ block, malloc size = some block ∧ block.length = size

/-- The call that both paths make. -/
def trainCall (samples : List (List Byte)) (dictCapacity : ℕ) (legacy : Bool)
    (compressionLevel : ℤ) : TrainCall :=
  ⟨legacy, dictCapacity, samples.flatten, samples.map List.length, compressionLevel⟩

/-- What the trainer makes of a call. -/
def Zdict.answer (Z : Zdict) (dictBuffer : List Byte) (call : TrainCall) : Trained :=
  ⟨jlong (Z.train call).1, overwrite dictBuffer 0 (Z.train call).2, some call⟩

theorem trainFromBuffer0_eq (hmalloc : Grants malloc) (samples : List (List Byte))
    (dictBuffer : List Byte) (legacy : Bool) (level : ℤ) :
    trainFromBuffer0 Z malloc samples dictBuffer legacy level =
      some (Z.answer dictBuffer (trainCall samples dictBuffer.length legacy level)) := by
  obtain ⟨sizesBlock, hsizes, -⟩ := hmalloc (8 * samples.length)
  obtain ⟨block, hblock, hlength⟩ := hmalloc (samples.map List.length).sum
  have hflatten : samples.flatten.length = (samples.map List.length).sum := List.length_flatten
  have hcopied : copySamples samples block 0 = samples.flatten := by
    rw [copySamples_eq samples (by omega), overwrite, List.drop_of_length_le (by omega)]
    simp
  simp only [trainFromBuffer0, hsizes, countSizes_eq, Nat.zero_add, List.nil_append,
    Option.bind_eq_bind, Option.bind_some, hblock, hcopied, Option.pure_def, Zdict.trained]
  rw [← hflatten, List.take_length]
  rfl

theorem Bookkeeping.trainFromBufferDirect0_eq {t : Trainer} {samples : List (List Byte)}
    (h : Bookkeeping t samples) (hmalloc : Grants malloc) (dictBuffer : List Byte) (legacy : Bool)
    (level : ℤ) :
    trainFromBufferDirect0 Z malloc t.trainingSamples t.sampleSizes dictBuffer legacy level =
      some (Z.answer dictBuffer (trainCall samples dictBuffer.length legacy level)) := by
  obtain ⟨block, hblock, -⟩ := hmalloc (8 * t.sampleSizes.length)
  have hsizes : t.sampleSizes = (samples.map List.length).map fun size : ℕ => (size : ℤ) := by
    rw [h.sizes, List.map_map]
    rfl
  have hcontent : t.trainingSamples.take (samples.map List.length).sum = samples.flatten := by
    have hposition : (samples.map List.length).sum = t.position := by
      have hlength := congrArg List.length h.content
      have hcapacity := h.capacity
      have hle := h.position_le
      rw [List.length_take, List.length_flatten] at hlength
      omega
    rw [hposition, h.content]
  simp only [trainFromBufferDirect0, hblock, Option.bind_eq_bind, Option.bind_some]
  rw [hsizes, convertSizes_eq]
  simp only [List.nil_append, Nat.zero_add]
  rw [if_neg (Nat.not_lt_of_le h.sum_le)]
  simp only [Zdict.trained, hcontent]
  rfl

/-- The dictionary in a buffer that `Zstd.trainFromBuffer` has filled, or the error. -/
def Training.dictionary (training : Training (ℤ × List Byte)) : Training (List Byte) :=
  match training.outcome with
  | .threw e => ⟨.threw e, training.call⟩
  | .returned (result, dictBuffer) =>
    ⟨if isError result then .threw (.ofResult result)
      else .returned (dictBuffer.take result.toNat), training.call⟩

/-- The limit that `trainSamplesDirect` sets is the end of the dictionary. -/
theorem limitDict_answer (dictBuffer : List Byte) (hsmall : dictBuffer.length < 2 ^ 31)
    {call : TrainCall} (hcall : call.dictCapacity = dictBuffer.length) :
    limitDict (Z.answer dictBuffer call).result (Z.answer dictBuffer call).dictBuffer =
      if isError (Z.answer dictBuffer call).result then
        .threw (.ofResult (Z.answer dictBuffer call).result)
      else .returned ((Z.answer dictBuffer call).dictBuffer.take
        (Z.answer dictBuffer call).result.toNat) := by
  have hresult : isError (Z.answer dictBuffer call).result = zstdIsError (Z.train call).1 :=
    isError_jlong (Z.result_lt call)
  unfold limitDict
  by_cases herror : isError (Z.answer dictBuffer call).result = true
  · rw [if_pos herror, if_pos herror]
  · have hle := Z.result_le call (by rw [← hresult]; exact Bool.eq_false_iff.mpr herror)
    have hwritten := Z.written_le call
    have hlong : (Z.answer dictBuffer call).result = ((Z.train call).1 : ℕ) :=
      jlong_of_lt (by omega)
    have hint : toInt (Z.answer dictBuffer call).result = ((Z.train call).1 : ℕ) := by
      rw [hlong]
      exact toInt_of_lt (by omega) (by omega)
    have hlength : (Z.answer dictBuffer call).dictBuffer.length = dictBuffer.length :=
      length_overwrite (by omega)
    rw [if_neg herror, if_neg herror, if_neg (by omega), hint, hlong]

end Paths

/-- What the two paths have in common, for a trainer and the samples it has accepted. -/
structure PathsAgree (Z : Zdict) (malloc : Malloc) (t : Trainer) (samples : List (List Byte))
    (legacy : Bool) : Prop where
  bookkeeping : Bookkeeping t samples
  /-- A further sample is accepted if there is room for it behind the others. -/
  taken : ∀ sample, t.position + sample.length ≤ t.allocatedSize →
    (t.addSample sample).1 = .returned true
  /-- Else it is rejected, and changes nothing. -/
  rejected : ∀ sample, t.allocatedSize < t.position + sample.length →
    t.addSample sample = (.returned false, t)
  /-- The sizes that are passed to the trainer do not exceed the buffer. -/
  within : (samples.map List.length).sum ≤ t.trainingSamples.length
  /-- Both paths make the same call, if there is a buffer for the dictionary. -/
  call : 10 < samples.length → 0 ≤ t.dictSize.toInt →
    (∃ outcome, t.trainSamples Z malloc legacy =
      some ⟨outcome, some (trainCall samples t.dictSize.toInt.toNat legacy t.level)⟩) ∧
    ∃ outcome, trainFromBuffer Z malloc samples (List.replicate t.dictSize.toInt.toNat 0) legacy
      t.level = some ⟨outcome, some (trainCall samples t.dictSize.toInt.toNat legacy t.level)⟩
  /-- They give the same dictionary, or the same error. -/
  same : 0 ≤ t.dictSize.toInt → t.trainSamples Z malloc legacy =
    (trainFromBuffer Z malloc samples (List.replicate t.dictSize.toInt.toNat 0) legacy
      t.level).map Training.dictionary
  /-- Without a buffer for the dictionary there is no call. -/
  refused : t.dictSize.toInt < 0 → ∃ e, t.trainSamples Z malloc legacy = some ⟨.threw e, none⟩

section Agreement

variable {malloc : Malloc} {t : Trainer} {samples : List (List Byte)}

theorem Bookkeeping.length_sampleSizes (h : Bookkeeping t samples) :
    t.sampleSizes.length = samples.length := by
  rw [h.sizes, List.length_map]

/-- Both paths are decided by the answer of the trainer to one call. -/
theorem Bookkeeping.trainSamples_eq (h : Bookkeeping t samples) (Z : Zdict)
    (hmalloc : Grants malloc)
    (legacy : Bool) (hdict : 0 ≤ t.dictSize.toInt) :
    t.trainSamples Z malloc legacy =
      (trainFromBuffer Z malloc samples (List.replicate t.dictSize.toInt.toNat 0) legacy
        t.level).map Training.dictionary := by
  have hcount := h.length_sampleSizes
  have hsmall : t.dictSize.toInt < 2 ^ 31 := BitVec.toInt_lt
  unfold Trainer.trainSamples trainFromBufferDirect trainFromBuffer
  rw [if_neg (by omega), hcount]
  split
  · rfl
  · rw [h.trainFromBufferDirect0_eq hmalloc, trainFromBuffer0_eq hmalloc]
    simp only [Option.map_some, Training.dictionary, Option.some.injEq, Training.mk.injEq, and_true]
    exact limitDict_answer _ (by simp; omega) rfl

theorem trainFromBuffer_call (Z : Zdict) (hmalloc : Grants malloc) (dictBuffer : List Byte)
    (legacy : Bool) (level : ℤ) (hcount : 10 < samples.length) :
    ∃ outcome, trainFromBuffer Z malloc samples dictBuffer legacy level =
      some ⟨outcome, some (trainCall samples dictBuffer.length legacy level)⟩ := by
  rw [trainFromBuffer, if_neg (by omega), trainFromBuffer0_eq hmalloc]
  exact ⟨_, rfl⟩

theorem Bookkeeping.pathsAgree (h : Bookkeeping t samples) (Z : Zdict) (hmalloc : Grants malloc)
    (legacy : Bool) : PathsAgree Z malloc t samples legacy where
  bookkeeping := h
  taken sample hfits := by
    rcases h.addSample_cases sample with ⟨hfull, -⟩ | ⟨-, heq⟩
    · omega
    · rw [heq]
  rejected sample hfull := by
    rcases h.addSample_cases sample with ⟨-, heq⟩ | ⟨hfits, -⟩
    · exact heq
    · omega
  within := h.sum_le
  call hcount hdict := by
    obtain ⟨outcome, harrays⟩ := trainFromBuffer_call Z hmalloc
      (List.replicate t.dictSize.toInt.toNat 0) legacy t.level hcount
    rw [List.length_replicate] at harrays
    refine ⟨?_, outcome, harrays⟩
    rw [h.trainSamples_eq Z hmalloc legacy hdict, harrays]
    cases outcome with
    | returned filled => exact ⟨_, rfl⟩
    | threw e => exact ⟨_, rfl⟩
  same := h.trainSamples_eq Z hmalloc legacy
  refused hdict := ⟨_, if_pos hdict⟩

end Agreement

/-- After every sequence of samples the two paths agree, and the trainer still has the buffer it
was created with. -/
theorem training_paths_agree (Z : Zdict) {malloc : Malloc} (hmalloc : Grants malloc)
    (sampleSize : ℕ) (dictSize : JInt) (level : ℤ) (samples : List (List Byte)) (legacy : Bool) :
    PathsAgree Z malloc (addSamples.run (Trainer.create sampleSize dictSize level) samples).2
      (accepted (addSamples.run (Trainer.create sampleSize dictSize level) samples).1) legacy ∧
    (addSamples.run (Trainer.create sampleSize dictSize level) samples).2.allocatedSize =
      sampleSize := by
  have hrun := bookkeeping_run _ (bookkeeping_create sampleSize dictSize level) samples
  exact ⟨hrun.1.pathsAgree Z hmalloc legacy, hrun.2⟩

/-- Twelve samples for a buffer of one byte: the ten empty ones and one of the others are
accepted. -/
theorem training_paths_agree_eleven :
    accepted (addSamples.run (Trainer.create 1 8 3) (List.replicate 10 [] ++ [[1], [2]])).1 =
      List.replicate 10 [] ++ [[1]] ∧
    PathsAgree ⟨fun _ => (0, []), fun _ => by decide, fun _ _ => Nat.zero_le _,
      fun _ => Nat.zero_le _⟩
      (fun size => some (List.replicate size 0))
      (addSamples.run (Trainer.create 1 8 3) (List.replicate 10 [] ++ [[1], [2]])).2
      (accepted (addSamples.run (Trainer.create 1 8 3) (List.replicate 10 [] ++ [[1], [2]])).1)
      true :=
  ⟨by decide,
    (training_paths_agree _ (fun size => ⟨List.replicate size 0, rfl, List.length_replicate⟩)
      1 8 3 _ true).1⟩

end ZstdJni.Dict
