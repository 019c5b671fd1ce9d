/-
# What writing a stream of frames should do

The purpose of the output stream, without buffers and native sessions: a ledger of the
contents of the complete frames and of the frame that is open.  Writing appends to the
open frame or opens one, a flush completes it if the stream closes frames on flush, and
closing completes what is open, or an empty frame if nothing was ever begun.
-/

import ZstdJni.OutputStream.Model

namespace ZstdJni.OutputStream

open ZstdJni.Foundation ZstdJni.Native

/-- The contents of the complete frames and of the open one. -/
structure Ledger where
  complete : List (List Byte)
  current : Option (List Byte)
  closeOnFlush : Bool

namespace Ledger

/-- The ledger of a stream that was just opened. -/
def empty : Ledger := ⟨[], none, false⟩

/-- Bytes are written, possibly none. -/
def append (ledger : Ledger) (bytes : List Byte) : Ledger :=
  { ledger with current := some (ledger.current.getD [] ++ bytes) }

/-- The open frame, if there is one, is completed. -/
def finish (ledger : Ledger) : Ledger :=
  { ledger with complete := ledger.complete ++ ledger.current.toList, current := none }

/-- The contents of the frames once the stream is closed: the open frame is completed, and
a stream without any frame gets an empty one. -/
def close (ledger : Ledger) : List (List Byte) :=
  if ledger.complete = [] ∧ ledger.current = none then [[]] else ledger.finish.complete

end Ledger

/-- The window of a write lies inside its array. -/
def inBounds (src : List Byte) (offset len : ℤ) : Prop :=
  0 ≤ offset ∧ 0 ≤ len ∧ offset + len ≤ src.length

instance (src : List Byte) (offset len : ℤ) : Decidable (inBounds src offset len) :=
  inferInstanceAs (Decidable (0 ≤ offset ∧ 0 ≤ len ∧ offset + len ≤ src.length))

/-- The bytes a call writes. -/
def Op.bytes : Op → List Byte
  | .write src offset len =>
    if inBounds src offset len then window src offset.toNat (offset + len).toNat else []
  | .writeByte i => [UInt8.ofNat (i % 256).toNat]
  | _ => []

/-- What a call does to the ledger.  A write outside of its array and a setter inside a
frame are refused and change nothing. -/
def Ledger.step (ledger : Ledger) : Op → Ledger
  | .write src offset len =>
    if inBounds src offset len then ledger.append (Op.write src offset len).bytes else ledger
  | .writeByte i => ledger.append (Op.writeByte i).bytes
  | .flush => if ledger.closeOnFlush then ledger.finish else ledger
  | .setCloseFrameOnFlush closeOnFlush =>
    if ledger.current = none then { ledger with closeOnFlush := closeOnFlush } else ledger
  | .set _ => ledger

/-- What a call answers if nothing fails. -/
def Ledger.answer (ledger : Ledger) : Op → Outcome Unit
  | .write src offset len =>
    if inBounds src offset len then .returned () else .threw .indexOutOfBounds
  | .writeByte _ => .returned ()
  | .flush => .returned ()
  | .setCloseFrameOnFlush _ => if ledger.current = none then .returned () else
    .threw changeOfParameter
  | .set _ => if ledger.current = none then .returned () else .threw changeOfParameter

/-- What a sequence of calls answers if nothing fails. -/
def Ledger.answers : Ledger → List Op → List (Outcome Unit)
  | _, [] => []
  | ledger, op :: ops => ledger.answer op :: (ledger.step op).answers ops

/-- The calls that are refused did not fail. -/
theorem Ledger.failed_answer (ledger : Ledger) (op : Op) : failed (ledger.answer op) = false := by
  cases op with
  | write src offset len => rw [Ledger.answer]; split_ifs <;> rfl
  | writeByte i => rfl
  | flush => rfl
  | setCloseFrameOnFlush closeOnFlush => rw [Ledger.answer]; split_ifs <;> rfl
  | set setting => rw [Ledger.answer]; split_ifs <;> rfl

/-- What is in the ledger, in the order of the frames. -/
def Ledger.content (ledger : Ledger) : List Byte :=
  ledger.complete.flatten ++ ledger.current.getD []

theorem Ledger.content_append (ledger : Ledger) (bytes : List Byte) :
    (ledger.append bytes).content = ledger.content ++ bytes := by
  simp [Ledger.content, Ledger.append]

theorem Ledger.content_finish (ledger : Ledger) : ledger.finish.content = ledger.content := by
  cases h : ledger.current <;> simp [Ledger.content, Ledger.finish, h]

/-- Without an open frame there is nothing to complete. -/
theorem Ledger.finish_of_none {ledger : Ledger} (hcurrent : ledger.current = none) :
    ledger.finish = ledger := by
  obtain ⟨complete, current, closeOnFlush⟩ := ledger
  obtain rfl : current = none := hcurrent
  simp [Ledger.finish]

/-- A call adds the bytes it writes, and no call takes any away. -/
theorem Ledger.content_step (ledger : Ledger) (op : Op) :
    (ledger.step op).content = ledger.content ++ op.bytes := by
  cases op with
  | write src offset len =>
      by_cases h : inBounds src offset len
      · simp only [Ledger.step, if_pos h, Ledger.content_append]
      · simp [Ledger.step, Op.bytes, if_neg h]
  | writeByte i => exact Ledger.content_append _ _
  | flush =>
      simp only [Ledger.step, Op.bytes, List.append_nil]
      split_ifs
      · exact Ledger.content_finish _
      · rfl
  | setCloseFrameOnFlush closeOnFlush =>
      simp only [Ledger.step, Op.bytes, List.append_nil]
      split_ifs <;> rfl
  | set setting => simp [Ledger.step, Op.bytes]

/-- A sequence of calls adds the bytes they write, in order. -/
theorem Ledger.content_foldl (ledger : Ledger) (ops : List Op) :
    (ops.foldl Ledger.step ledger).content = ledger.content ++ ops.flatMap Op.bytes := by
  induction ops generalizing ledger with
  | nil => simp
  | cons op ops ih =>
      rw [List.foldl_cons, ih, Ledger.content_step, List.flatMap_cons, List.append_assoc]

/-- Closing loses nothing. -/
theorem Ledger.flatten_close (ledger : Ledger) : ledger.close.flatten = ledger.content := by
  unfold Ledger.close
  split_ifs with h
  · simp [Ledger.content, h.1, h.2]
  · have hcontent := ledger.content_finish
    simpa [Ledger.content, Ledger.finish] using hcontent

/-- A closed stream has at least one frame. -/
theorem Ledger.close_ne_nil (ledger : Ledger) : ledger.close ≠ [] := by
  unfold Ledger.close
  split_ifs with h
  · simp
  · intro hnil
    simp only [Ledger.finish, List.append_eq_nil_iff, Option.toList_eq_nil_iff] at hnil
    exact h hnil

/-- A call has failed, and why: the last answer of the compressor is an error, or the last
call of the wrapped stream was one of those that throw.  `faults` tells which of the calls of
the wrapped stream throw, counted from some earlier point. -/
inductive Broken {σ : Type} (E : Encoder σ Setting Byte Byte) (faults : List Bool)
    (ended : Ended σ) :
    Prop
  | zstd (result : ℕ) (hanswered : E.Answered ended.self.stream result)
      (herror : zstdIsError result = true)
      (houtcome : ended.outcome = .threw (.ofIOResult (jint result)))
  | sink (before : List Bool) (hfaults : faults = before ++ true :: ended.self.out.faults)
      (houtcome : ended.outcome = .threw sinkFault)

namespace Broken

variable {σ : Type} {E : Encoder σ Setting Byte Byte} {faults : List Bool} {ended : Ended σ}

theorem failed (hbroken : Broken E faults ended) : failed ended.outcome = true := by
  cases hbroken with
  | zstd result hanswered herror houtcome => rw [houtcome]; rfl
  | sink before hfaults houtcome => rw [houtcome]; rfl

/-- The calls of the wrapped stream may be counted from an earlier point. -/
theorem of_suffix (hbroken : Broken E faults ended) {earlier : List Bool}
    (hsuffix : faults <:+ earlier) :
    Broken E earlier ended := by
  obtain ⟨front, rfl⟩ := hsuffix
  cases hbroken with
  | zstd result hanswered herror houtcome => exact .zstd result hanswered herror houtcome
  | sink before hfaults houtcome =>
      exact .sink (front ++ before) (by rw [hfaults, List.append_assoc]) houtcome

/-- The flag that `close` sets does not matter. -/
theorem with_isClosed (hbroken : Broken E faults ended) (isClosed : Bool) :
    Broken E faults { ended with self := { ended.self with isClosed := isClosed } } := by
  cases hbroken with
  | zstd result hanswered herror houtcome => exact .zstd result hanswered herror houtcome
  | sink before hfaults houtcome => exact .sink before hfaults houtcome

end Broken

end ZstdJni.OutputStream
