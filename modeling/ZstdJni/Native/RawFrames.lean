/-
# A compressor that does not compress

The simplest compressor that meets the contract: a frame is a header without a content
size, one raw block for each byte, and an empty last block.  These are zstd frames, and
for a stream that is flushed after its only byte they are the ones zstd itself emits.

It shows that the contract of the streaming compressor can be met, and it is executable.
-/

import ZstdJni.Native.CStream

namespace ZstdJni.Native

open ZstdJni.Foundation

/-- The magic number, a frame header descriptor without any flag, and a window of two
megabytes. -/
def rawHeader : List Byte := [0x28, 0xB5, 0x2F, 0xFD, 0x00, 0x58]

/-- A raw block of one byte that is not the last one. -/
def rawBlock (b : Byte) : List Byte := [0x08, 0x00, 0x00, b]

/-- An empty raw block, the last one. -/
def rawTrailer : List Byte := [0x01, 0x00, 0x00]

/-- The blocks of some content. -/
def rawBlocks (content : List Byte) : List Byte := content.flatMap rawBlock

/-- The frame of some content. -/
def rawFrame (content : List Byte) : List Byte := rawHeader ++ (rawBlocks content ++ rawTrailer)

/-- The frames of this compressor. -/
def IsRawFrame (f : Frame Byte Byte) : Prop := f.encoded = rawFrame f.content

theorem rawBlocks_append (first second : List Byte) :
    rawBlocks (first ++ second) = rawBlocks first ++ rawBlocks second := by
  simp [rawBlocks]

/-- Blocks at the front of a frame are blocks of its content. -/
theorem prefix_of_rawBlocks {first content rest : List Byte}
    (h : rawBlocks first <+: rawBlocks content ++ (rawTrailer ++ rest)) : first <+: content := by
  induction first generalizing content with
  | nil => exact List.nil_prefix
  | cons b first ih =>
      cases content with
      | nil =>
          obtain ⟨tail, htail⟩ := h
          simp [rawBlocks, rawBlock, rawTrailer] at htail
      | cons b' content =>
          have hblock : rawBlocks (b :: first) = [0x08, 0x00, 0x00] ++ ([b] ++ rawBlocks first) :=
            rfl
          have hblock' : rawBlocks (b' :: content) ++ (rawTrailer ++ rest) =
              [0x08, 0x00, 0x00] ++ ([b'] ++ (rawBlocks content ++ (rawTrailer ++ rest))) := rfl
          rw [hblock, hblock', List.prefix_append_right_inj] at h
          obtain ⟨rfl, htail⟩ := List.cons_prefix_cons.mp h
          exact List.cons_prefix_cons.mpr ⟨rfl, ih htail⟩

/-- The end of a frame is the end of its content. -/
theorem eq_of_rawBlocks_trailer {first content : List Byte}
    (h : rawBlocks first ++ rawTrailer <+: rawBlocks content ++ rawTrailer) : first = content := by
  induction first generalizing content with
  | nil =>
      cases content with
      | nil => rfl
      | cons b content =>
          obtain ⟨tail, htail⟩ := h
          simp [rawBlocks, rawBlock, rawTrailer] at htail
  | cons b first ih =>
      cases content with
      | nil =>
          obtain ⟨tail, htail⟩ := h
          simp [rawBlocks, rawBlock, rawTrailer] at htail
      | cons b' content =>
          have hblock (c : Byte) (cs : List Byte) : rawBlocks (c :: cs) ++ rawTrailer =
              [0x08, 0x00, 0x00] ++ ([c] ++ (rawBlocks cs ++ rawTrailer)) := rfl
          rw [hblock, hblock, List.prefix_append_right_inj] at h
          obtain ⟨rfl, htail⟩ := List.cons_prefix_cons.mp h
          rw [ih htail]

theorem selfDelimiting_rawFrame : SelfDelimiting IsRawFrame where
  encoded_ne_nil := by
    intro f hf
    rw [hf]
    simp [rawFrame, rawHeader]
  eq_of_front := by
    intro f f' hf hf' h
    rw [hf, hf', rawFrame, rawFrame, List.prefix_append_right_inj] at h
    have hcontent := eq_of_rawBlocks_trailer h
    obtain ⟨encoded, content⟩ := f
    obtain ⟨encoded', content'⟩ := f'
    simp only at hcontent
    subst hcontent
    simp only [IsRawFrame] at hf hf'
    rw [hf, hf']

/-- The header and the blocks of some content suffice for it. -/
theorem suffices_rawBlocks (fed : List Byte) :
    Suffices IsRawFrame (rawHeader ++ rawBlocks fed) fed := by
  intro frames hframes houtput
  cases frames with
  | nil => simp [rawHeader] at houtput
  | cons f rest =>
      have hf : f.encoded = rawFrame f.content := hframes f (by simp)
      rw [encodings_cons, hf, rawFrame, List.append_assoc, List.prefix_append_right_inj,
        List.append_assoc] at houtput
      exact (prefix_of_rawBlocks houtput).trans (List.prefix_append _ _)

/-- What was requested of the frame. -/
inductive RawStage
  | fresh
  | begun
  | closing
  deriving DecidableEq

/-- The state: the bytes that are encoded and not yet emitted, and the stage. -/
structure RawState where
  queue : List Byte
  stage : RawStage

/-- Emit from a queue what there is room for. -/
def RawState.emit (queue : List Byte) (stage : RawStage) (consumed room : ℕ) :
    RawState × Reply Byte :=
  (⟨queue.drop room, stage⟩,
    ⟨consumed, queue.take room, if queue.drop room = [] then 0 else 1⟩)

/-- The compressor that does not compress. -/
def rawEncoder : Encoder RawState Setting Byte Byte where
  encode s directive input room :=
    match directive, s.stage with
    | .goOn, .fresh =>
      RawState.emit (s.queue ++ (rawHeader ++ rawBlocks input)) .begun input.length room
    | .goOn, stage => RawState.emit (s.queue ++ rawBlocks input) stage input.length room
    | .flush, stage => RawState.emit s.queue stage 0 room
    | .finish, .fresh => RawState.emit (s.queue ++ (rawHeader ++ rawTrailer)) .closing 0 room
    | .finish, .begun => RawState.emit (s.queue ++ rawTrailer) .closing 0 room
    | .finish, .closing => RawState.emit s.queue .closing 0 room
  reset _ := (⟨[], .fresh⟩, 0)
  configure s _ := (s, 0)

/-- The position inside a frame: what was emitted and what is queued make up the header
and the blocks of what was fed, and the last block once the end was requested. -/
def RawPlace (closing : Bool) (s : RawState) (fed output : List Byte) (pending : ℕ) : Prop :=
  match closing, s.stage with
  | false, .fresh => fed = [] ∧ output ++ s.queue = [] ∧ pending = s.queue.length + 10
  | false, .begun => output ++ s.queue = rawHeader ++ rawBlocks fed ∧ pending = s.queue.length + 10
  | true, .closing => output ++ s.queue = rawFrame fed ∧ pending = s.queue.length
  | _, _ => False

theorem RawState.emit_ret (queue : List Byte) (stage : RawStage) (consumed room : ℕ) :
    (RawState.emit queue stage consumed room).2.ret ≤ 1 := by
  simp only [RawState.emit]
  split_ifs <;> omega

theorem ret_rawEncoder (s : RawState) (directive : Directive) (input : List Byte) (room : ℕ) :
    (rawEncoder.encode s directive input room).2.ret ≤ 1 := by
  obtain ⟨queue, stage⟩ := s
  cases directive <;> cases stage <;> exact RawState.emit_ret _ _ _ _

/-- Emitting moves the front of the queue to the output. -/
theorem RawState.output_emit (output queue : List Byte) (stage : RawStage) (consumed room : ℕ) :
    (output ++ (RawState.emit queue stage consumed room).2.emitted) ++
      (RawState.emit queue stage consumed room).1.queue = output ++ queue := by
  simp [RawState.emit]

/-- A queue that is not emitted completely gets shorter. -/
theorem RawState.length_emit {queue : List Byte} {stage : RawStage} {consumed room : ℕ}
    (hroom : 0 < room) (hret : (RawState.emit queue stage consumed room).2.ret ≠ 0) :
    (RawState.emit queue stage consumed room).1.queue.length < queue.length := by
  simp only [RawState.emit, ne_eq, ite_eq_left_iff, not_forall] at hret
  obtain ⟨hrest, -⟩ := hret
  have hpositive : 0 < (queue.drop room).length := List.length_pos_iff.mpr hrest
  rw [List.length_drop] at hpositive
  simp only [RawState.emit, List.length_drop]
  omega

/-- A queue that is emitted completely is all output. -/
theorem RawState.output_emit_zero {queue : List Byte} {stage : RawStage} {consumed room : ℕ}
    (hret : (RawState.emit queue stage consumed room).2.ret = 0) (output : List Byte) :
    output ++ (RawState.emit queue stage consumed room).2.emitted = output ++ queue := by
  have hrest : queue.drop room = [] := by
    by_contra hne
    simp [RawState.emit, hne] at hret
  rw [← RawState.output_emit output queue stage consumed room]
  simp [RawState.emit, hrest]

/-- A flush or an end that is not complete made the queue shorter. -/
theorem RawState.length_emit_drain {queue : List Byte} {stage : RawStage} {room bound : ℕ}
    (hroom : 0 < room) (hbound : queue.length ≤ bound)
    (hret : (RawState.emit queue stage 0 room).2.ret ≠ 0) :
    (RawState.emit queue stage 0 room).1.queue.length < bound :=
  lt_of_lt_of_le (RawState.length_emit hroom hret) hbound

/-- The compressor that does not compress meets the contract of an encoder. -/
def rawContract : rawEncoder.Contract IsRawFrame fun ret => zstdIsError ret = true where
  place := RawPlace
  reset s _ := ⟨10, rfl, rfl, rfl⟩
  goOn := by
    rintro ⟨queue, stage⟩ fed output pending input room hplace hinput hroom next reply hencode -
    have htake : input.take input.length = input := List.take_length
    have hconsumed : input.length ≠ 0 := fun h => hinput (List.length_eq_zero_iff.mp h)
    cases stage with
    | fresh =>
        obtain ⟨rfl, hempty, rfl⟩ := hplace
        obtain ⟨rfl, rfl⟩ := Prod.mk.inj hencode
        refine ⟨Nat.le_refl _, List.length_take_le _ _, _, ⟨?_, rfl⟩,
          fun h => absurd h hconsumed⟩
        refine (RawState.output_emit output _ .begun input.length room).trans ?_
        show output ++ (queue ++ (rawHeader ++ rawBlocks input)) =
          rawHeader ++ rawBlocks (input.take input.length)
        rw [← List.append_assoc, hempty, htake]
        rfl
    | begun =>
        obtain ⟨houtput, rfl⟩ := hplace
        obtain ⟨rfl, rfl⟩ := Prod.mk.inj hencode
        refine ⟨Nat.le_refl _, List.length_take_le _ _, _, ⟨?_, rfl⟩,
          fun h => absurd h hconsumed⟩
        refine (RawState.output_emit output _ .begun input.length room).trans ?_
        show output ++ (queue ++ rawBlocks input) =
          rawHeader ++ rawBlocks (fed ++ input.take input.length)
        rw [← List.append_assoc, houtput, htake, rawBlocks_append, List.append_assoc]
    | closing => exact hplace.elim
  flush := by
    rintro ⟨queue, stage⟩ fed output pending room hplace hroom next reply hencode -
    obtain ⟨rfl, rfl⟩ := Prod.mk.inj hencode
    cases stage with
    | fresh =>
        obtain ⟨rfl, hempty, rfl⟩ := hplace
        refine ⟨List.length_take_le _ _, _, ⟨rfl, ?_, rfl⟩, ?_, ?_⟩
        · exact (RawState.output_emit _ _ _ _ _).trans hempty
        · exact fun _ _ _ _ => List.nil_prefix
        · exact fun hret => Nat.add_lt_add_right (RawState.length_emit hroom hret) 10
    | begun =>
        obtain ⟨houtput, rfl⟩ := hplace
        refine ⟨List.length_take_le _ _, _, ⟨?_, rfl⟩, ?_, ?_⟩
        · exact (RawState.output_emit _ _ _ _ _).trans houtput
        · intro hret
          have hall : output ++ (RawState.emit queue .begun 0 room).2.emitted =
              rawHeader ++ rawBlocks fed := (RawState.output_emit_zero hret output).trans houtput
          exact hall ▸ suffices_rawBlocks fed
        · exact fun hret => Nat.add_lt_add_right (RawState.length_emit hroom hret) 10
    | closing => exact hplace.elim
  finish := by
    rintro closing ⟨queue, stage⟩ fed output pending room hplace hroom next reply hencode -
    obtain ⟨rfl, rfl⟩ := Prod.mk.inj hencode
    have hfinish {queue' : List Byte} (hall : output ++ queue' = rawFrame fed)
        (hbound : queue'.length ≤ pending) :
        (RawState.emit queue' .closing 0 room).2.emitted.length ≤ room ∧
          ((RawState.emit queue' .closing 0 room).2.ret = 0 →
            IsRawFrame ⟨output ++ (RawState.emit queue' .closing 0 room).2.emitted, fed⟩) ∧
          ((RawState.emit queue' .closing 0 room).2.ret ≠ 0 → ∃ pending' < pending,
            RawPlace true (RawState.emit queue' .closing 0 room).1 fed
              (output ++ (RawState.emit queue' .closing 0 room).2.emitted) pending') :=
      ⟨List.length_take_le _ _,
        fun hret => (RawState.output_emit_zero hret output).trans hall,
        fun hret => ⟨_, RawState.length_emit_drain hroom hbound hret,
          (RawState.output_emit _ _ _ _ _).trans hall, rfl⟩⟩
    cases closing <;> cases stage <;> try exact hplace.elim
    · obtain ⟨rfl, hempty, rfl⟩ := hplace
      refine hfinish ?_ ?_
      · rw [← List.append_assoc, hempty]
        rfl
      · simp only [List.length_append, rawHeader, rawTrailer, List.length_cons, List.length_nil]
        omega
    · obtain ⟨houtput, rfl⟩ := hplace
      refine hfinish ?_ ?_
      · rw [← List.append_assoc, houtput, List.append_assoc]
        rfl
      · simp only [List.length_append, rawTrailer, List.length_cons, List.length_nil]
        omega
    · obtain ⟨houtput, rfl⟩ := hplace
      exact hfinish houtput (Nat.le_refl _)

/-- The compressor that does not compress behaves as the streaming compressor is
documented to. -/
def rawCStreamContract : CStreamContract rawEncoder where
  IsFrame := IsRawFrame
  format := selfDelimiting_rawFrame
  contract := rawContract
  encode_size s directive input room :=
    lt_of_le_of_lt (ret_rawEncoder s directive input room) (by decide)
  encode_small s directive input room _ :=
    lt_of_le_of_lt (ret_rawEncoder s directive input room) (by decide)
  reset_size _ := Nat.two_pow_pos 64
  reset_small _ _ := Nat.two_pow_pos 31
  configure_size _ _ := Nat.two_pow_pos 64
  configure_small _ _ _ := Nat.two_pow_pos 31

end ZstdJni.Native
