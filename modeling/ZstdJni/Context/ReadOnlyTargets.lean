/-
# Targets of the compressing stream that are read-only

The target of the stream that compresses direct buffers: what the constructor, a native call and
the test behind `flushBuffer` do to it.  A call may hand the target to `flushBuffer`, which answers
with the next one.  From then on it belongs to the caller again, so what counts is how it was
handed over.
-/

import ZstdJni.BufferCompress.Deliver
import ZstdJni.Context.ReadOnlyStreams

namespace ZstdJni.Context

open ZstdJni.Foundation ZstdJni.Native ZstdJni.CompressCtx
open ZstdJni.BufferDecompress (Buffer)
open ZstdJni.BufferCompress (FlushBuffer)

variable {σ : Type}

/-- An encoder that does not go beyond its windows. -/
structure BoundedEncoder (σ κ : Type) extends Encoder σ (BufferCompress.Init κ) Byte Byte where
  consumed_le : ∀ s d input room, (encode s d input room).2.consumed ≤ input.length
  emitted_le : ∀ s d input room, (encode s d input room).2.emitted.length ≤ room

section Compressing

variable {κ : Type}

/-- The constructor throws exactly for a target that is not direct. -/
theorem create_threw_iff (stream : σ) (target : Buffer) (level : ℤ) :
    (∃ e, (BufferCompress.State.create stream target level :
      Except JavaException (BufferCompress.State σ κ)) = .error e) ↔ target.kind ≠ .direct := by
  unfold BufferCompress.State.create
  by_cases hkind : target.kind ≠ .direct
  · rw [if_pos hkind]
    exact iff_of_true ⟨_, rfl⟩ hkind
  · rw [if_neg hkind]
    exact iff_of_false (fun ⟨_, h⟩ => (nomatch h)) hkind

/-- And so does the test of a target that `flushBuffer` answers with. -/
theorem flushTarget_threw_iff (flushBuffer : BufferCompress.FlushBuffer) (target next : Buffer)
    (self : BufferCompress.State σ κ)
    (hanswer : flushBuffer self.handed.length target = .returned next) :
    (∃ e, (BufferCompress.flushTarget flushBuffer target self).1 = .threw e) ↔
      next.kind ≠ .direct := by
  unfold BufferCompress.flushTarget
  simp only [hanswer]
  by_cases hkind : next.kind ≠ .direct
  · rw [if_pos hkind]
    exact iff_of_true ⟨_, rfl⟩ hkind
  · rw [if_neg hkind]
    exact iff_of_false (fun ⟨_, h⟩ => (nomatch h)) hkind

/-- What the encoder answers on the remaining bytes of a source. -/
def encodeReply (E : BoundedEncoder σ κ) (self : BufferCompress.State σ κ)
    (target source : Buffer) : Reply Byte :=
  (E.encode self.stream .goOn source.remaining target.room).2

theorem length_encodeReply_le (E : BoundedEncoder σ κ) (self : BufferCompress.State σ κ)
    (target source : Buffer) : (encodeReply E self target source).emitted.length ≤ target.room :=
  E.emitted_le _ _ _ _

/-- What the encoder answers on an empty source, to a flush or at the end. -/
def drainReply (E : BoundedEncoder σ κ) (directive : Directive) (self : BufferCompress.State σ κ)
    (target : Buffer) : Reply Byte :=
  (E.encode self.stream directive [] target.room).2

/-- The target of a stream after a call: it was handed to `flushBuffer`, or is still installed. -/
def targetAfter (before after : BufferCompress.State σ κ) : Option Buffer :=
  match after.handed.drop before.handed.length with
  | [] => after.target
  | handed :: _ => some handed.buffer

/-- A call throws and leaves the target that was installed before it alone. -/
def Protects (before : BufferCompress.State σ κ) (target : Buffer) (outcome : Outcome Unit)
    (after : BufferCompress.State σ κ) : Prop :=
  ∃ target', targetAfter before after = some target' ∧ ProtectedTarget target outcome target'

/-- The bytes and the position are as before. -/
structure LeftAlone (target target' : Buffer) : Prop where
  bytes_eq : target'.storage = target.storage
  position_eq : target'.position = target.position

theorem LeftAlone.trans {target target' target'' : Buffer} (h : LeftAlone target target')
    (h' : LeftAlone target' target'') : LeftAlone target target'' :=
  ⟨h'.bytes_eq.trans h.bytes_eq, h'.position_eq.trans h.position_eq⟩

theorem LeftAlone.symm {target target' : Buffer} (h : LeftAlone target target') :
    LeftAlone target' target :=
  ⟨h.bytes_eq.symm, h.position_eq.symm⟩

theorem protects_iff {before after : BufferCompress.State σ κ} {target target' : Buffer}
    {outcome : Outcome Unit} (hafter : targetAfter before after = some target') :
    Protects before target outcome after ↔
      (∃ e, outcome = .threw e) ∧ LeftAlone target target' := by
  constructor
  · rintro ⟨found, hfound, hprotected⟩
    obtain rfl := Option.some.inj (hafter.symm.trans hfound)
    exact ⟨hprotected.threw, hprotected.bytes_eq, hprotected.position_eq⟩
  · rintro ⟨hthrew, halone⟩
    exact ⟨target', hafter, hthrew, halone.bytes_eq, halone.position_eq⟩

/-- A native call fails: its target is not direct, or the encoder answers with an error. -/
def CallFails (target : Buffer) (reply : Reply Byte) : Prop :=
  target.kind ≠ .direct ∨ isError (jlong reply.ret) = true

/-- A native call spares its target: it is not direct, or else the encoder emits nothing, up to
what it writes in front of an error. -/
def CallSpares (target : Buffer) (reply : Reply Byte) : Prop :=
  target.kind = .direct →
    (isError (jlong reply.ret) = true → WritesNothingNew target reply.emitted) ∧
    (isError (jlong reply.ret) = false → reply.emitted = [])

/-- The target behind a native call. -/
def calledTarget (target : Buffer) (reply : Reply Byte) : Buffer :=
  if target.kind ≠ .direct then target
  else if isError (jlong reply.ret) then
    target.writeAt (target.arrayOffset + target.position) reply.emitted
  else target.filled reply.emitted

section Called

variable {target : Buffer} {reply : Reply Byte}

theorem leftAlone_calledTarget_iff (hroom : reply.emitted.length ≤ target.room) :
    LeftAlone target (calledTarget target reply) ↔ CallSpares target reply := by
  unfold calledTarget CallSpares
  by_cases hkind : target.kind = .direct
  · rw [if_neg (not_not.mpr hkind)]
    cases herror : isError (jlong reply.ret) with
    | true =>
        simp only [hkind, if_true, true_implies, Bool.true_eq_false, false_implies, and_true]
        rw [← writeAt_storage_eq_iff hroom]
        exact ⟨fun h => h.bytes_eq, fun h => ⟨h, (Buffer.writeAt_position hroom).2.1⟩⟩
    | false =>
        obtain ⟨hstorage, hposition⟩ := Buffer.filled_spec hroom
        simp only [hkind, Bool.false_eq_true, if_false, false_implies, true_implies, true_and]
        constructor
        · rintro ⟨-, hsame⟩
          rw [hposition] at hsame
          exact List.length_eq_zero_iff.mp (by omega)
        · intro hnil
          rw [hnil] at hstorage hposition ⊢
          exact ⟨hstorage.trans (overwrite_nil _ _), hposition⟩
  · rw [if_pos hkind]
    exact iff_of_true ⟨rfl, rfl⟩ fun h => absurd h hkind

theorem position_le_calledTarget (hroom : reply.emitted.length ≤ target.room) :
    target.position ≤ (calledTarget target reply).position := by
  unfold calledTarget
  split_ifs with hkind herror
  · exact Nat.le_refl _
  · exact Nat.le_of_eq (Buffer.writeAt_position hroom).2.1.symm
  · rw [(Buffer.filled_spec hroom).2]
    omega

/-- A call that does not fail and leaves the position has written nothing. -/
theorem leftAlone_of_position_eq (hroom : reply.emitted.length ≤ target.room)
    (hfine : ¬ CallFails target reply)
    (hsame : (calledTarget target reply).position = target.position) :
    LeftAlone target (calledTarget target reply) := by
  rw [leftAlone_calledTarget_iff hroom]
  obtain ⟨hkind, hok⟩ := not_or.mp hfine
  refine fun _ => ⟨fun herror => absurd herror hok, fun _ => ?_⟩
  rw [calledTarget, if_neg hkind, if_neg hok, (Buffer.filled_spec hroom).2] at hsame
  exact List.length_eq_zero_iff.mp (by omega)

end Called

/-- The native functions refuse a target that is not direct. -/
theorem compressDirectByteBuffer_refused (E : BoundedEncoder σ κ) (stream : σ)
    {target source : Buffer} (hkind : target.kind ≠ .direct) :
    BufferCompress.compressDirectByteBuffer E.toEncoder stream target target.position
      ((target.limit : ℤ) - target.position) source source.position
      ((source.limit : ℤ) - source.position) =
      BufferCompress.refused stream target .dstSizeTooSmall := by
  have hle := target.position_le
  rw [BufferCompress.compressDirectByteBuffer, Buffer.directCapacity, if_neg hkind,
    if_pos (by omega)]

theorem drainStream_refused (E : BoundedEncoder σ κ) (stream : σ) (directive : Directive)
    {target : Buffer} (hkind : target.kind ≠ .direct) :
    BufferCompress.drainStream E.toEncoder stream target directive target.position
      ((target.limit : ℤ) - target.position) =
      BufferCompress.refused stream target .dstSizeTooSmall := by
  have hle := target.position_le
  rw [BufferCompress.drainStream, Buffer.directCapacity, if_neg hkind, if_pos (by omega)]

/-- A native call of `compress`, by the answer of the encoder. -/
theorem compressInto_cases (E : BoundedEncoder σ κ) (self : BufferCompress.State σ κ)
    (target : Buffer) {source : Buffer} (hsource : source.kind = .direct) :
    (CallFails target (encodeReply E self target source) ∧
      ∃ e next, BufferCompress.compressInto E.toEncoder target self source = .leave
        ⟨.threw e, { self with
          stream := next
          target := some (calledTarget target (encodeReply E self target source)) }, source⟩) ∨
    (¬ CallFails target (encodeReply E self target source) ∧
      ∃ next moved, moved.kind = .direct ∧
        BufferCompress.compressInto E.toEncoder target self source = .again
          ({ self with
            stream := next
            target := some (calledTarget target (encodeReply E self target source)) }, moved)) := by
  have hroom : (encodeReply E self target source).emitted.length ≤ target.room :=
    E.emitted_le _ _ _ _
  have hconsumed : (encodeReply E self target source).consumed ≤ source.room :=
    source.length_remaining ▸ E.consumed_le self.stream .goOn source.remaining target.room
  by_cases hkind : target.kind = .direct
  · have hencoded :=
      BufferCompress.compressDirectByteBuffer_eq E.toEncoder self.stream hkind hsource
    unfold BufferCompress.encodeRoom at hencoded
    unfold BufferCompress.compressInto CallFails calledTarget
    rw [if_neg (not_not.mpr hkind)]
    simp only [hencoded]
    cases herror : isError (jlong (encodeReply E self target source).ret) with
    | true =>
        have herror' : isError (jlong
            (E.encode self.stream .goOn source.remaining target.room).2.ret) = true := herror
        exact .inl ⟨.inr rfl, _, _, by rw [if_pos herror', if_pos rfl]; rfl⟩
    | false =>
        have herror' : isError (jlong
            (E.encode self.stream .goOn source.remaining target.room).2.ret) = false := herror
        have hposition := BufferCompress.setPosition_filled hroom
        have hmoved := Buffer.setPosition_advance hconsumed
        unfold encodeReply at hposition hmoved
        refine .inr ⟨fun h => h.elim (absurd hkind) (by simp),
          (E.encode self.stream .goOn source.remaining target.room).1,
          source.advance (encodeReply E self target source).consumed, hsource, ?_⟩
        simp only [herror', Bool.false_eq_true, if_false, hposition, hmoved]
        rfl
  · have herror : isError (jlong ErrorCode.dstSizeTooSmall.result) = true := by decide
    refine .inl
      ⟨.inl hkind, .ofIOResult (jlong ErrorCode.dstSizeTooSmall.result), self.stream, ?_⟩
    unfold BufferCompress.compressInto calledTarget
    rw [compressDirectByteBuffer_refused E self.stream hkind, if_pos hkind]
    simp only [BufferCompress.refused, herror, if_true]

/-- `flushBuffer` does not answer with a direct buffer that is fit to be the next target. -/
def Refuses (flushBuffer : FlushBuffer) (self : BufferCompress.State σ κ) (target : Buffer)
    (unfit : Buffer → Prop) : Prop :=
  ∀ next, flushBuffer self.handed.length target = .returned next →
    next.kind ≠ .direct ∨ unfit next

/-- The target was handed to `flushBuffer` as it is. -/
def HandedOver (before after : BufferCompress.State σ κ) (target : Buffer) : Prop :=
  ∃ rest, after.handed = before.handed ++ ⟨before.start, target⟩ :: rest

/-- The target is still installed. -/
structure Installed (before after : BufferCompress.State σ κ) (target : Buffer) : Prop where
  target_eq : after.target = some target
  start_eq : after.start = before.start
  handed_eq : after.handed = before.handed

/-- The target was handed over or is still installed. -/
def Kept (before after : BufferCompress.State σ κ) (target : Buffer) : Prop :=
  Installed before after target ∨ HandedOver before after target

section After

variable {before after last : BufferCompress.State σ κ} {target : Buffer}

theorem Kept.targetAfter (h : Kept before after target) :
    targetAfter before after = some target := by
  rcases h with hinstalled | ⟨rest, hrest⟩
  · rw [Context.targetAfter, hinstalled.handed_eq, List.drop_length]
    exact hinstalled.target_eq
  · rw [Context.targetAfter, hrest, List.drop_left]

theorem Kept.handed_grows (h : Kept before after target) : before.handed <+: after.handed := by
  rcases h with hinstalled | ⟨rest, hrest⟩
  · exact hinstalled.handed_eq ▸ List.prefix_rfl
  · rw [hrest]
    exact List.prefix_append _ _

theorem Installed.trans (h : Installed before after target) {target' : Buffer}
    (hkept : Kept after last target') : Kept before last target' := by
  rcases hkept with hinstalled | ⟨rest, hrest⟩
  · exact .inl ⟨hinstalled.target_eq, hinstalled.start_eq.trans h.start_eq,
      hinstalled.handed_eq.trans h.handed_eq⟩
  · exact .inr ⟨rest, by rw [hrest, h.handed_eq, h.start_eq]⟩

theorem HandedOver.mono (h : HandedOver before after target)
    (hmore : after.handed <+: last.handed) : HandedOver before last target := by
  obtain ⟨rest, hrest⟩ := h
  obtain ⟨more, hlast⟩ := hmore
  exact ⟨rest ++ more, by rw [← hlast, hrest, List.append_assoc, List.cons_append]⟩

/-- A target that is handed over is no longer installed. -/
theorem HandedOver.handed_ne (h : HandedOver before after target)
    (hmore : after.handed <+: last.handed) : last.handed ≠ before.handed := by
  obtain ⟨rest, hrest⟩ := h.mono hmore
  rw [hrest]
  simp

end After

/-- What `flushTarget` does: the target is handed over, and the next one is installed unless it
is refused. -/
theorem flushTarget_cases (flushBuffer : FlushBuffer) (target : Buffer)
    (self : BufferCompress.State σ κ) :
    (∃ e self', BufferCompress.flushTarget flushBuffer target self = (.threw e, self') ∧
      HandedOver self self' target ∧ ∀ unfit, Refuses flushBuffer self target unfit) ∨
    ∃ next self', BufferCompress.flushTarget flushBuffer target self = (.returned next, self') ∧
      HandedOver self self' target ∧ self'.stream = self.stream ∧
      ∀ unfit, Refuses flushBuffer self target unfit ↔ unfit next := by
  unfold BufferCompress.flushTarget Refuses
  cases hanswer : flushBuffer self.handed.length target with
  | threw e => exact .inl ⟨e, _, rfl, ⟨[], rfl⟩, fun _ _ h => by cases h⟩
  | returned next =>
      by_cases hkind : next.kind = .direct
      · refine .inr ⟨next, _, if_neg (not_not.mpr hkind), ⟨[], rfl⟩, rfl, fun unfit => ?_⟩
        simp only [Outcome.returned.injEq, forall_eq', hkind, ne_eq, not_true_eq_false, false_or]
      · refine .inl ⟨_, _, if_pos hkind, ⟨[], rfl⟩, fun unfit other h => ?_⟩
        cases h
        exact .inl hkind

/-- A native call in `compress` on an installed target and a source, which are both direct,
throws and leaves the target alone exactly if the encoder fails without writing anything new. -/
theorem compressInto_protected_iff (E : BoundedEncoder σ κ) (self : BufferCompress.State σ κ)
    {target source : Buffer} (htarget : target.kind = .direct) (hsource : source.kind = .direct) :
    ((BufferCompress.compressInto E.toEncoder target self source).Meets (fun _ => False)
      fun ended => ∃ target', ended.self.target = some target' ∧
        ProtectedTarget target ended.outcome target') ↔
    isError (jlong (encodeReply E self target source).ret) = true ∧
      WritesNothingNew target (encodeReply E self target source).emitted := by
  rcases compressInto_cases E self target hsource with
    ⟨hfails, e, next, hturn⟩ | ⟨hfine, next, moved, -, hturn⟩
  · have herror := hfails.resolve_left (not_not.mpr htarget)
    have halone := leftAlone_calledTarget_iff (length_encodeReply_le E self target source)
    simp only [CallSpares, htarget, herror, true_implies, Bool.true_eq_false, false_implies,
      and_true] at halone
    simp only [hturn, Turn.Meets, Option.some.injEq, exists_eq_left', herror, true_and, ← halone]
    exact ⟨fun h => ⟨h.bytes_eq, h.position_eq⟩, fun h => ⟨⟨e, rfl⟩, h.bytes_eq, h.position_eq⟩⟩
  · simp only [hturn, Turn.Meets]
    exact iff_of_false not_false fun h => hfine (.inr h.1)

end Compressing

end ZstdJni.Context
