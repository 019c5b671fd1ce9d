/-
# Destinations of `read` that are read-only

`read(target)` of the two buffer-decompressing streams.  Their model does not record whether a
buffer is read-only, because nothing in the code asks: a read-only buffer is one without an
accessible array.
-/

import ZstdJni.BufferDecompress.Spec
import ZstdJni.Context.ReadOnly

namespace ZstdJni.Context

open ZstdJni.Foundation ZstdJni.Native ZstdJni.CompressCtx
open ZstdJni.BufferDecompress (Buffer Refill)

variable {σ : Type}

/-- A buffer that is read-only: it is direct, or it has no accessible array. -/
structure ReadOnlyBuffer where
  buffer : Buffer
  no_array : buffer.kind ≠ .array

/-- A call throws and leaves the bytes and the position of its target alone. -/
structure ProtectedTarget {α : Type} (target : Buffer) (outcome : Outcome α) (target' : Buffer) :
    Prop where
  threw : ∃ e, outcome = .threw e
  bytes_eq : target'.storage = target.storage
  position_eq : target'.position = target.position

theorem protectedTarget_of_threw {α : Type} (target : Buffer) (e : JavaException) :
    ProtectedTarget target (.threw e : Outcome α) target :=
  ⟨⟨e, rfl⟩, rfl, rfl⟩

/-- A decoder that does not go beyond its windows. -/
structure BoundedDecoder (σ : Type) extends Decoder σ Byte Byte where
  consumed_le : ∀ s input room, (decode s input room).2.consumed ≤ input.length
  emitted_le : ∀ s input room, (decode s input room).2.emitted.length ≤ room

section Reading

variable (D : BoundedDecoder σ) (refill : Refill) (target : Buffer) (st : BufferDecompress.State σ)

/-- What the decoder answers on the remaining bytes of a source. -/
def replyTo (source : Buffer) : Reply Byte := (D.decode st.stream source.remaining target.room).2

/-- The decoder writes what is there already. -/
def WritesNothingNew (emitted : List Byte) : Prop :=
  emitted = window target.storage (target.arrayOffset + target.position)
    (target.arrayOffset + target.position + emitted.length)

/-- The source is used up, and `refill` throws or answers with a buffer that is not direct. -/
def RefillFails (source : Buffer) (consumed : ℕ) : Prop :=
  (source.advance consumed).hasRemaining = false ∧
    ∀ refilled, refill st.refills (source.advance consumed) = .returned refilled →
      refilled.kind ≠ .direct

/-- The decoder fails without writing anything new, or it emits nothing and `refill` fails. -/
def ReadSpared (source : Buffer) : Prop :=
  (isError (jlong (replyTo D target st source).ret) = true ∧
    WritesNothingNew target (replyTo D target st source).emitted) ∨
  (isError (jlong (replyTo D target st source).ret) = false ∧
    (replyTo D target st source).emitted = [] ∧
    RefillFails refill st source (replyTo D target st source).consumed)

variable {target}

theorem writeAt_storage_eq_iff {emitted : List Byte} (hroom : emitted.length ≤ target.room) :
    (target.writeAt (target.arrayOffset + target.position) emitted).storage = target.storage ↔
      WritesNothingNew target emitted := by
  have hfits := target.fits
  have hlimit := target.limit_le
  have hle := target.position_le
  rw [(Buffer.writeAt_position hroom).1, overwrite_eq_self_iff ?_]
  · rfl
  · rw [Buffer.room] at hroom
    omega

/-- A read that throws after it has moved the position. -/
theorem filled_protected_iff {emitted : List Byte} (hroom : emitted.length ≤ target.room)
    (e : JavaException) :
    ProtectedTarget target (.threw e : Outcome ℤ) (target.filled emitted) ↔ emitted = [] := by
  obtain ⟨hstorage, hposition⟩ := Buffer.filled_spec hroom
  constructor
  · rintro ⟨_, _, hsame⟩
    rw [hposition] at hsame
    exact List.length_eq_zero_iff.mp (by omega)
  · rintro rfl
    exact ⟨⟨e, rfl⟩, hstorage.trans (overwrite_nil _ _), hposition⟩

/-- The part of a read behind the native call. -/
theorem afterDecode_protected_iff {source : Buffer} {reply : Reply Byte} {next : σ}
    (hconsumed : reply.consumed ≤ source.room) (hroom : reply.emitted.length ≤ target.room) :
    (ProtectedTarget target
      (BufferDecompress.afterDecode refill true
        ⟨jlong reply.ret, next, target.writeAt (target.arrayOffset + target.position) reply.emitted,
          reply.consumed, reply.emitted.length⟩ source st).outcome
      (BufferDecompress.afterDecode refill true
        ⟨jlong reply.ret, next, target.writeAt (target.arrayOffset + target.position) reply.emitted,
          reply.consumed, reply.emitted.length⟩ source st).target) ↔
    reply.emitted = [] ∧ RefillFails refill st source reply.consumed := by
  obtain ⟨_, hposition, hsame⟩ := Buffer.writeAt_position hroom
  have hadvance := Buffer.setPosition_advance (hsame.symm ▸ hroom)
  unfold BufferDecompress.afterDecode RefillFails
  simp only [Buffer.setPosition_advance hconsumed, hadvance]
  cases hremaining : (source.advance reply.consumed).hasRemaining with
  | true =>
      simp only [not_true_eq_false, if_false, BufferDecompress.finishRead]
      refine iff_of_false (fun h => by cases h.threw.choose_spec) fun h => ?_
      cases h.2.1
  | false =>
      simp only [Bool.false_eq_true, not_false_eq_true, if_true, true_and]
      rcases hrefill : refill st.refills (source.advance reply.consumed) with refilled | e
      · by_cases hkind : refilled.kind = .direct
        · simp only [hkind, ne_eq, not_true_eq_false, if_false, BufferDecompress.finishRead]
          refine iff_of_false (fun h => by cases h.threw.choose_spec) fun h => ?_
          exact h.2 refilled rfl hkind
        · simp only [not_true_eq_false, false_and, if_false, ne_eq, hkind, not_false_eq_true,
            if_true]
          refine (filled_protected_iff hroom _).trans ?_
          rw [and_iff_left]
          intro refilled' hsame
          obtain rfl := Outcome.returned.inj hsame
          exact hkind
      · refine (filled_protected_iff hroom e).trans ?_
        rw [and_iff_left]
        exact fun _ h => by cases h

/-- The native function refuses a source that is not direct. -/
theorem decompressStreamDirect_refused {source : Buffer} (htarget : target.kind = .direct)
    (hsource : source.kind ≠ .direct) (stream : σ) :
    BufferDecompress.decompressStream D.toDecoder stream target source true =
      .ok (BufferDecompress.refused stream target .srcSizeWrong) := by
  have hlimit := target.limit_le
  have hle := source.position_le
  simp only [BufferDecompress.decompressStream, if_true, BufferDecompress.decompressStreamDirect,
    Buffer.directCapacity, if_pos htarget, if_neg hsource]
  rw [if_neg (by omega), if_pos (by omega)]

/-- A read that gets to the decoder. -/
theorem read_decoded_protected_iff {source : Buffer} (htarget : target.Serves true)
    (hsource : source.Serves true) (hclosed : st.closed = false) (hend : st.streamEnd = false)
    (hat : st.source = some source) :
    ProtectedTarget target (BufferDecompress.read D.toDecoder refill true target st).outcome
      (BufferDecompress.read D.toDecoder refill true target st).target ↔
    ReadSpared D refill target st source := by
  have hroom : (replyTo D target st source).emitted.length ≤ target.room := D.emitted_le _ _ _
  have hconsumed : (replyTo D target st source).consumed ≤ source.room :=
    source.length_remaining ▸ D.consumed_le st.stream source.remaining target.room
  have hdecoded := BufferDecompress.decompressStream_eq D.toDecoder st.stream htarget hsource
  unfold BufferDecompress.decodeRemaining at hdecoded
  rw [BufferDecompress.read_eq D.toDecoder htarget]
  unfold BufferDecompress.readInternal ReadSpared
  rw [if_neg (by simp [hclosed]), if_neg (by simp [hend])]
  simp only [hat, hdecoded]
  cases herror : isError (jlong (replyTo D target st source).ret) with
  | true =>
      have herror' :
          isError (jlong (D.decode st.stream source.remaining target.room).2.ret) = true := herror
      simp only [herror', if_true, true_and, Bool.true_eq_false, false_and, or_false]
      rw [← writeAt_storage_eq_iff hroom]
      exact ⟨fun h => h.bytes_eq, fun h => ⟨⟨_, rfl⟩, h, (Buffer.writeAt_position hroom).2.1⟩⟩
  | false =>
      have herror' : isError (jlong (D.decode st.stream source.remaining target.room).2.ret) =
          false := herror
      simp only [herror', Bool.false_eq_true, if_false, false_and, false_or, true_and]
      exact afterDecode_protected_iff refill _ hconsumed hroom

/-- `read` of the stream for direct buffers protects its target exactly if it does not get to
the decoder or is spared by it, and has not come to the end of the stream. -/
theorem read_direct_protected_iff :
    ProtectedTarget target (BufferDecompress.read D.toDecoder refill true target st).outcome
      (BufferDecompress.read D.toDecoder refill true target st).target ↔
    target.kind ≠ .direct ∨ st.closed = true ∨
      (st.streamEnd = false ∧ ∀ source, st.source = some source →
        source.kind ≠ .direct ∨ ReadSpared D refill target st source) := by
  by_cases hkind : target.kind ≠ .direct
  · unfold BufferDecompress.read
    rw [if_pos rfl, if_pos hkind]
    exact iff_of_true (protectedTarget_of_threw target _) (.inl hkind)
  rw [or_iff_right hkind]
  have hread :=
    BufferDecompress.read_eq D.toDecoder (not_not.mp hkind : target.Serves true) refill st
  cases hclosed : st.closed with
  | true =>
      rw [hread, BufferDecompress.readInternal, if_pos hclosed]
      exact iff_of_true (protectedTarget_of_threw target _) (.inl rfl)
  | false =>
      rw [or_iff_right (by decide)]
      have hopen : ¬ st.closed = true := by simp [hclosed]
      cases hend : st.streamEnd with
      | true =>
          rw [hread, BufferDecompress.readInternal, if_neg hopen, if_pos hend]
          exact iff_of_false (fun h => by cases h.threw.choose_spec) fun h => by cases h.1
      | false =>
          rw [and_iff_right rfl]
          have hmore : ¬ st.streamEnd = true := by simp [hend]
          cases hsource : st.source with
          | none =>
              rw [hread, BufferDecompress.readInternal, if_neg hopen, if_neg hmore]
              simp only [hsource]
              exact iff_of_true (protectedTarget_of_threw target _) fun _ h => by cases h
          | some source =>
              simp only [Option.some.injEq, forall_eq']
              by_cases hsrcKind : source.kind ≠ .direct
              · rw [hread, BufferDecompress.readInternal, if_neg hopen, if_neg hmore]
                have herror : isError (jlong ErrorCode.srcSizeWrong.result) = true := by decide
                simp only [hsource, decompressStreamDirect_refused D (not_not.mp hkind) hsrcKind,
                  BufferDecompress.refused, herror, if_true]
                exact iff_of_true (protectedTarget_of_threw target _) (.inl hsrcKind)
              · rw [or_iff_right hsrcKind]
                exact read_decoded_protected_iff D refill st (not_not.mp hkind)
                  (not_not.mp hsrcKind) hclosed hend hsource

/-- `read` of the stream for buffers with an array protects a read-only target unless the stream
has come to its end: there is no array to write to. -/
theorem read_array_protected_iff (hno : target.kind ≠ .array) :
    ProtectedTarget target (BufferDecompress.read D.toDecoder refill false target st).outcome
      (BufferDecompress.read D.toDecoder refill false target st).target ↔
    target.kind = .direct ∨ st.closed = true ∨ st.streamEnd = false := by
  unfold BufferDecompress.read BufferDecompress.readInternal
  rw [if_neg (by decide)]
  by_cases hkind : target.kind = .direct
  · rw [if_pos hkind]
    exact iff_of_true (protectedTarget_of_threw target _) (.inl hkind)
  · rw [if_neg hkind, or_iff_right hkind]
    by_cases hclosed : st.closed = true
    · rw [if_pos hclosed]
      exact iff_of_true (protectedTarget_of_threw target _) (.inl hclosed)
    · rw [if_neg hclosed, or_iff_right hclosed]
      by_cases hend : st.streamEnd = true
      · rw [if_pos hend]
        exact iff_of_false (fun h => (nomatch h.threw.choose_spec)) (by simp [hend])
      · rw [if_neg hend]
        refine iff_of_true ?_ (Bool.eq_false_of_not_eq_true hend)
        cases hsource : st.source with
        | none => exact protectedTarget_of_threw target _
        | some source =>
            simp only [BufferDecompress.decompressStream, Bool.false_eq_true, if_false]
            by_cases hsrcKind : source.kind ≠ .array
            · rw [if_pos hsrcKind]
              exact protectedTarget_of_threw target _
            · rw [if_neg hsrcKind, if_pos hno]
              exact protectedTarget_of_threw target _

end Reading

end ZstdJni.Context
