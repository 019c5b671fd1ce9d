/-
# When the documented loop ends

The loop `while (hasRemaining()) { target.clear(); read(target); }` on any source, with the
`refill` that is not overridden.

It ends, except for one kind of source: complete frames that are decoded with the room of
the target and an incomplete header of another frame behind them, and the empty source.
There the source is used up and the last frame is not finished, so `hasRemaining()` stays
true; and the decompressor, which waits for the rest of a header, accepts every further
call without an error.
-/

import Mathlib.Data.Prod.Lex
import ZstdJni.BufferDecompress.Spec
import ZstdJni.Native.AnyInput

namespace ZstdJni.BufferDecompress

open ZstdJni.Foundation ZstdJni.Native

variable {σ : Type} {D : Decoder σ Byte Byte} {C : DStreamContract D} {direct : Bool}

/-- One turn of the documented loop, on the object and the target. -/
def clearTurn (D : Decoder σ Byte Byte) (direct : Bool) (loop : State σ × Buffer) :
    Turn (State σ × Buffer) (Outcome Unit) :=
  if loop.1.hasRemaining then
    let ended := read D Refill.default direct loop.2.clear loop.1
    match ended.outcome with
    | .returned _ => .again (ended.object, ended.target)
    | .threw e => .leave (.threw e)
  else .leave (.returned ())

/-- A source and a target of the storage that the stream requires. -/
structure Setup (direct : Bool) where
  source : Buffer
  source_serves : source.Serves direct
  target : Buffer
  target_serves : target.Serves direct
  capacity_pos : 0 < target.capacity

/-- The documented loop on a stream that was just opened. -/
def Setup.loop (setup : Setup direct) (D : Decoder σ Byte Byte) (stream : σ) (fuel : ℕ) :
    Option (Outcome Unit) :=
  iterate (fun loop => some (clearTurn D direct loop)) fuel
    (State.create stream setup.source, setup.target)

/-- Complete frames that calls with this much room decode, with an incomplete header of
another frame behind them, or nothing at all. -/
def EndsInHeader (H : AnyInputContract C) (capacity : ℕ) (bytes : List Byte) : Prop :=
  ∃ frames cut, (∀ f ∈ frames, H.Decodes capacity f) ∧ bytes = encodings frames ++ cut ∧
    H.IsHeaderPart cut ∧ (cut ≠ [] ∨ frames = [])

/-- The variables of the loop on an open stream, with a source and a target that serve. -/
structure Ready (direct : Bool) (loop : State σ × Buffer) (source : Buffer) : Prop where
  source_eq : loop.1.source = some source
  serves : source.Serves direct
  is_open : loop.1.closed = false
  not_end : loop.1.streamEnd = false
  target_serves : loop.2.Serves direct
  capacity_pos : 0 < loop.2.capacity

theorem Buffer.clear_room (target : Buffer) : target.clear.room = target.capacity :=
  Nat.sub_zero _

theorem Buffer.kind_capacity_filled (target : Buffer) (bytes : List Byte) :
    (target.filled bytes).kind = target.kind ∧ (target.filled bytes).capacity =
      target.capacity := by
  simp only [Buffer.filled, Buffer.advance, Buffer.writeAt]
  split
  · exact ⟨rfl, rfl⟩
  · exact ⟨rfl, rfl⟩

section Turn

variable {loop : State σ × Buffer} {source : Buffer} {next : σ} {reply : Reply Byte}

/-- The loop leaves when the decompressor fails. -/
theorem Ready.clearTurn_error (hready : Ready direct loop source)
    (hmore : loop.1.hasRemaining = true)
    (hdecode : D.decode loop.1.stream source.remaining loop.2.capacity = (next, reply))
    (hsize : reply.ret < 2 ^ 64) (herror : zstdIsError reply.ret = true) :
    clearTurn D direct loop = .leave (.threw (.ofIOResult (jlong reply.ret))) := by
  have htarget : loop.2.clear.Serves direct := hready.target_serves
  rw [← Buffer.clear_room] at hdecode
  have houtcome := read_error Refill.default hready.is_open hready.not_end
    hready.source_eq htarget hready.serves hdecode hsize herror
  simp only [clearTurn, hmore, if_true, houtcome]

/-- Otherwise it goes round again, with the position of the source moved. -/
theorem Ready.clearTurn_ok (hready : Ready direct loop source) (hmore : loop.1.hasRemaining = true)
    (hdecode : D.decode loop.1.stream source.remaining loop.2.capacity = (next, reply))
    (hsize : reply.ret < 2 ^ 64) (hok : zstdIsError reply.ret = false)
    (hconsumed : reply.consumed ≤ source.remaining.length)
    (hemitted : reply.emitted.length ≤ loop.2.capacity) :
    ∃ refills target, clearTurn D direct loop =
        .again (loop.1.afterRead next reply.ret (source.advance reply.consumed) refills, target) ∧
      target.Serves direct ∧ target.capacity = loop.2.capacity := by
  have htarget : loop.2.clear.Serves direct := hready.target_serves
  have hserves : (source.advance reply.consumed).Serves direct := hready.serves
  rw [← Buffer.clear_room] at hdecode hemitted
  obtain ⟨source', refills, hread, -, hkept, hrefilled⟩ := read_ok Refill.default hready.is_open
    hready.not_end hready.source_eq htarget hready.serves hdecode hsize hok hconsumed hemitted
    fun _ => ⟨_, rfl, hserves⟩
  have hsource : source' = source.advance reply.consumed := by
    cases hleft : (source.advance reply.consumed).hasRemaining with
    | true => exact (hkept hleft).1
    | false => exact (Outcome.returned.inj (hrefilled hleft).1).symm
  obtain ⟨hkind, hcapacity⟩ := loop.2.clear.kind_capacity_filled reply.emitted
  refine ⟨refills, loop.2.clear.filled reply.emitted, ?_, ?_, hcapacity⟩
  · simp only [clearTurn, hmore, if_true, hread, hsource]
  · rw [Buffer.Serves, hkind]
    exact htarget

/-- The variables of the loop after a read that leaves the stream open. -/
theorem Ready.after (hready : Ready direct loop source) {consumed refills : ℕ} {target : Buffer}
    {ret : ℕ} (htarget : target.Serves direct) (hcapacity : target.capacity = loop.2.capacity)
    (hend : ret = 0 → source.remaining.drop consumed ≠ [])
    (hconsumed : consumed ≤ source.remaining.length) :
    Ready direct (loop.1.afterRead next ret (source.advance consumed) refills, target)
      (source.advance consumed) where
  source_eq := rfl
  serves := hready.serves
  is_open := hready.is_open
  not_end := by
    rw [source.length_remaining] at hconsumed
    simp only [State.afterRead, hready.not_end]
    by_cases hret : ret = 0
    · have hleft := hend hret
      rw [← Buffer.remaining_advance hconsumed, ← Buffer.hasRemaining_iff] at hleft
      simp only [hret, decide_true, if_true, hleft, Bool.not_true]
    · simp only [hret, decide_false, Bool.false_eq_true, if_false]
  target_serves := htarget
  capacity_pos := hcapacity ▸ hready.capacity_pos

end Turn

/-- The ghost position of a stream on any input: the frames that are complete, and what
was taken and given since then. -/
structure Live (H : AnyInputContract C) (direct : Bool) (capacity : ℕ) (bytes : List Byte)
    (loop : State σ × Buffer) (source : Buffer) (idle : ℕ) : Prop where
  ready : Ready direct loop source
  capacity_eq : loop.2.capacity = capacity
  position : ∃ frames taken given, (∀ f ∈ frames, H.Decodes capacity f) ∧
    C.conforms.place loop.1.stream taken given idle ∧
    bytes = encodings frames ++ (taken ++ source.remaining) ∧
    (source.remaining = [] → ¬ H.IsHeaderPart taken) ∧ (H.IsHeaderPart taken → taken = [])
  idle_le : idle ≤ patience

/-- The bound on the reads to come: the input at hand, the output that is held back, and
the idle calls that are left. -/
def Bounded (H : AnyInputContract C) (direct : Bool) (capacity : ℕ) (bytes : List Byte)
    (bound : ℕ × ℕ × ℕ) (loop : State σ × Buffer) : Prop :=
  ∃ source, loop.1.source = some source ∧ bound.1 = source.remaining.length ∧
    bound.2.1 = H.owed loop.1.stream ∧
    (loop.1.hasRemaining = false ∨
      ∃ idle, Live H direct capacity bytes loop source idle ∧ bound.2.2 = patience - idle)

/-- The order of the bounds. -/
abbrev Less : ℕ × ℕ × ℕ → ℕ × ℕ × ℕ → Prop :=
  Prod.Lex (· < ·) (Prod.Lex (· < ·) (· < ·))

theorem less_of {first second third first' second' third' : ℕ}
    (h : first < first' ∨ first = first' ∧ (second < second' ∨ second = second' ∧ third < third')) :
    Less (first, second, third) (first', second', third') := by
  simpa only [Less, Prod.lex_def] using h

section Ends

variable {H : AnyInputContract C} {capacity : ℕ} {bytes : List Byte} {loop : State σ × Buffer}
  {source : Buffer} {idle : ℕ}

/-- One turn of the loop on a source that does not end in a header. -/
theorem Live.turn (hlive : Live H direct capacity bytes loop source idle)
    (hends : ¬ EndsInHeader H capacity bytes) (hmore : loop.1.hasRemaining = true) :
    (clearTurn D direct loop).Meets
      (fun next => ∃ below, Less below
          (source.remaining.length, H.owed loop.1.stream, patience - idle) ∧
        Bounded H direct capacity bytes below next) (fun _ => True) := by
  have hready := hlive.ready
  have hsame := hlive.capacity_eq
  obtain ⟨frames, taken, given, hframes, hplace, hbytes, hwaiting, hfront⟩ := hlive.position
  rcases hdecode : D.decode loop.1.stream source.remaining loop.2.capacity with ⟨next, reply⟩
  have hreacts := H.reacts_of_decode hplace hready.capacity_pos hdecode
  cases herror : zstdIsError reply.ret with
  | true =>
      rw [hready.clearTurn_error hmore hdecode hreacts.ret_lt herror]
      trivial
  | false =>
      obtain ⟨refills, target, hturn, htarget, hcapacity⟩ := hready.clearTurn_ok hmore hdecode
        hreacts.ret_lt herror hreacts.consumed_le hreacts.emitted_le
      have hconsumed : reply.consumed ≤ source.room :=
        source.length_remaining ▸ hreacts.consumed_le
      have hleft := Buffer.remaining_advance hconsumed
      have hlength : (source.remaining.drop reply.consumed).length =
          source.remaining.length - reply.consumed := List.length_drop
      have hconsumed' := hreacts.consumed_le
      have hsplit : taken ++ source.remaining =
          (taken ++ source.remaining.take reply.consumed) ++
            source.remaining.drop reply.consumed := by
        rw [List.append_assoc, List.take_append_drop]
      rw [hturn]
      by_cases hret : reply.ret = 0
      · obtain ⟨hframe, hmoved, hfresh⟩ := hreacts.complete hret
        refine ⟨((source.remaining.drop reply.consumed).length, H.owed next, patience - 0),
          less_of ?_, source.advance reply.consumed, rfl, by rw [hleft], rfl, ?_⟩
        · have houtput := hreacts.output
          rw [hlength]
          omega
        · by_cases hempty : source.remaining.drop reply.consumed = []
          · left
            have hnone : (source.advance reply.consumed).hasRemaining = false :=
              (Buffer.hasRemaining_eq_false_iff _).mpr (hleft.trans hempty)
            simp only [State.hasRemaining, State.afterRead, hret, decide_true, if_true, hnone,
              Bool.not_false, Bool.not_true, Bool.and_false, Bool.false_and]
          · right
            refine ⟨0, ⟨hready.after htarget hcapacity (fun _ => hempty) hreacts.consumed_le,
              hcapacity.trans hsame, ?_, Nat.zero_le _⟩, rfl⟩
            refine ⟨frames ++ [⟨taken ++ source.remaining.take reply.consumed,
              given ++ reply.emitted⟩], [], [], ?_, hfresh, ?_, ?_, fun _ => rfl⟩
            · intro f hf
              rcases List.mem_append.mp hf with hf | hf
              · exact hframes f hf
              · rw [List.mem_singleton.mp hf]
                refine hframe.imp_right ?_
                rintro ⟨hpart, rfl, honePass⟩
                obtain rfl := hfront hpart
                exact ⟨honePass, hsame ▸ hreacts.emitted_le⟩
            · rw [hbytes, hsplit, hleft]
              simp
            · intro hnil
              rw [hleft] at hnil
              exact absurd hnil hempty
      · by_cases hheader : H.IsHeaderPart (taken ++ source.remaining.take reply.consumed)
        · obtain ⟨hall, -⟩ := hreacts.header hret herror hheader
          rw [hall, List.take_length] at hheader
          by_cases hnil : taken ++ source.remaining = []
          · obtain ⟨rfl, hempty⟩ := List.append_eq_nil_iff.mp hnil
            exact absurd H.header_nil (hwaiting hempty)
          · exact absurd ⟨frames, _, hframes, hbytes, hheader, .inl hnil⟩ hends
        · obtain ⟨hidle, hnext⟩ := hreacts.body hret herror hheader
          refine ⟨((source.remaining.drop reply.consumed).length, H.owed next,
            patience - Decoder.stalled idle reply), less_of ?_, source.advance reply.consumed, rfl,
            by rw [hleft], rfl, .inr ⟨_, ⟨?_, hcapacity.trans hsame, ?_, hidle⟩, rfl⟩⟩
          · have houtput := hreacts.output
            have hemitted : reply.emitted = [] ↔ reply.emitted.length = 0 :=
              List.length_eq_zero_iff.symm
            rw [Decoder.stalled] at hidle ⊢
            rw [hlength]
            split at hidle
            next hstill =>
              rw [if_pos hstill]
              rw [hemitted] at hstill
              omega
            next hstill =>
              rw [if_neg hstill]
              rw [hemitted] at hstill
              omega
          · exact hready.after htarget hcapacity (fun h => absurd h hret) hreacts.consumed_le
          · refine ⟨frames, _, _, hframes, hnext, ?_, fun _ => hheader,
              fun h => absurd h hheader⟩
            rw [hbytes, hsplit, hleft]

end Ends

/-- The stream stands inside a complete frame, with the frames behind it and the header
part at hand. -/
structure InFrames (H : AnyInputContract C) (capacity : ℕ) (cut : List Byte)
    (loop : State σ × Buffer) (source : Buffer) : Prop where
  position : ∃ f rest taken given, C.IsFrame f ∧ (∀ g ∈ rest, H.Decodes capacity g) ∧
    C.conforms.place loop.1.stream taken given 0 ∧
    taken ++ source.remaining = f.encoded ++ (encodings rest ++ cut) ∧
    taken <+: f.encoded ∧ given <+: f.content ∧ ¬ (taken = f.encoded ∧ given = f.content)
  cut_ne_nil : cut ≠ []

/-- The stream stands in front of a frame that is decoded in one pass. -/
structure AtOnePass (H : AnyInputContract C) (capacity : ℕ) (cut : List Byte)
    (loop : State σ × Buffer) (source : Buffer) : Prop where
  position : ∃ f rest, H.IsOnePass f ∧ f.content.length ≤ capacity ∧
    (∀ g ∈ rest, H.Decodes capacity g) ∧ C.conforms.place loop.1.stream [] [] 0 ∧
    source.remaining = f.encoded ++ (encodings rest ++ cut)
  cut_ne_nil : cut ≠ []

/-- The stream stands inside the header part. -/
structure InHeader (C : DStreamContract D) (cut : List Byte) (loop : State σ × Buffer)
    (source : Buffer) : Prop where
  position : ∃ taken idle, C.conforms.place loop.1.stream taken [] idle ∧
    taken ++ source.remaining = cut
  finished : loop.1.finishedFrame = true → source.remaining ≠ []

/-- The loop never gets beyond the header part. -/
def Stuck (H : AnyInputContract C) (direct : Bool) (capacity : ℕ) (cut : List Byte)
    (loop : State σ × Buffer) : Prop :=
  ∃ source, Ready direct loop source ∧ loop.2.capacity = capacity ∧
    (InFrames H capacity cut loop source ∨ AtOnePass H capacity cut loop source ∨
      InHeader C cut loop source)

section Stuck

variable {H : AnyInputContract C} {capacity : ℕ} {cut : List Byte} {loop : State σ × Buffer}
  {source : Buffer}

theorem Ready.hasRemaining (hready : Ready direct loop source)
    (hfinished : loop.1.finishedFrame = true → source.remaining ≠ []) :
    loop.1.hasRemaining = true := by
  simp only [State.hasRemaining, hready.source_eq, hready.is_open, hready.not_end, Bool.not_false,
    Bool.true_and, Bool.or_eq_true, Bool.not_eq_true', Buffer.hasRemaining_iff]
  cases hflag : loop.1.finishedFrame with
  | false => exact .inr rfl
  | true => exact .inl (hfinished hflag)

theorem InFrames.remaining_ne_nil (hin : InFrames H capacity cut loop source) :
    source.remaining ≠ [] := by
  obtain ⟨f, rest, taken, given, -, -, -, hpending, hfront, -⟩ := hin.position
  intro hnil
  have hlength := congrArg List.length hpending
  have hle := hfront.length_le
  have hcut := List.length_pos_iff.mpr hin.cut_ne_nil
  rw [hnil] at hlength
  simp only [List.length_append, List.length_nil] at hlength
  omega

/-- In front of complete frames and the header part the loop is stuck. -/
theorem stuck_of_place {rest : List (Frame Byte Byte)} (hready : Ready direct loop source)
    (hcapacity : loop.2.capacity = capacity) (hplace : C.conforms.place loop.1.stream [] [] 0)
    (hrest : ∀ g ∈ rest, H.Decodes capacity g) (hpending : source.remaining = encodings rest ++ cut)
    (hcut : cut ≠ [] ∨ rest = [])
    (hfinished : loop.1.finishedFrame = true → source.remaining ≠ []) :
    Stuck H direct capacity cut loop := by
  refine ⟨source, hready, hcapacity, ?_⟩
  cases rest with
  | nil => exact .inr (.inr ⟨⟨[], 0, hplace, hpending⟩, hfinished⟩)
  | cons f rest =>
      have hne := hcut.resolve_right (by simp)
      have hbehind : ∀ g ∈ rest, H.Decodes capacity g :=
        fun g hg => hrest g (List.mem_cons_of_mem _ hg)
      rw [encodings_cons, List.append_assoc] at hpending
      rcases hrest f List.mem_cons_self with hf | ⟨hf, hfits⟩
      · have hencoded := C.encoded_ne_nil hf
        exact .inl
          ⟨⟨f, rest, [], [], hf, hbehind, hplace, hpending, List.nil_prefix, List.nil_prefix,
          fun h => hencoded h.1.symm⟩, hne⟩
      · exact .inr (.inl ⟨⟨f, rest, hf, hfits, hbehind, hplace, hpending⟩, hne⟩)

/-- A turn inside the header part stays there. -/
theorem InHeader.turn (H : AnyInputContract C) (hheader : H.IsHeaderPart cut)
    (hready : Ready direct loop source) (hsame : loop.2.capacity = capacity)
    (hin : InHeader C cut loop source) :
    ∃ next, clearTurn D direct loop = .again next ∧ Stuck H direct capacity cut next := by
  obtain ⟨taken, idle, hplace, hpending⟩ := hin.position
  have hmore := hready.hasRemaining hin.finished
  rcases hdecode : D.decode loop.1.stream source.remaining loop.2.capacity with ⟨next, reply⟩
  have hreacts := H.reacts_of_decode hplace hready.capacity_pos hdecode
  obtain ⟨hret, hok, hemitted, hconsumed⟩ :=
    H.quiet_of_decode hplace hready.capacity_pos (hpending ▸ hheader) hdecode
  obtain ⟨refills, target, hturn, htarget, hcapacity⟩ := hready.clearTurn_ok hmore hdecode
    hreacts.ret_lt hok hreacts.consumed_le hreacts.emitted_le
  have htaken : taken ++ source.remaining.take reply.consumed = cut := by
    rw [hconsumed, List.take_length, hpending]
  have hnext := (hreacts.header hret hok (htaken.symm ▸ hheader)).2
  have hleft := Buffer.remaining_advance (source.length_remaining ▸ hreacts.consumed_le)
  refine ⟨_, hturn, source.advance reply.consumed,
    hready.after htarget hcapacity (fun h => absurd h hret) hreacts.consumed_le,
    hcapacity.trans hsame, .inr (.inr ⟨?_, ?_⟩)⟩
  · refine ⟨cut, 0, ?_, ?_⟩
    · rw [htaken, hemitted] at hnext
      exact hnext
    · rw [hleft, hconsumed, List.drop_length, List.append_nil]
  · intro hfinished
    exact absurd (of_decide_eq_true hfinished) hret

/-- A turn in front of a frame that is decoded in one pass moves on to what is behind it. -/
theorem AtOnePass.turn (hready : Ready direct loop source) (hsame : loop.2.capacity = capacity)
    (hat : AtOnePass H capacity cut loop source) :
    ∃ next, clearTurn D direct loop = .again next ∧ Stuck H direct capacity cut next := by
  obtain ⟨f, rest, hf, hfits, hrest, hplace, hpending⟩ := hat.position
  have hremaining : source.remaining ≠ [] := by
    rw [hpending]
    exact List.append_ne_nil_of_left_ne_nil (H.onePass_ne_nil hf) _
  have hmore := hready.hasRemaining fun _ => hremaining
  rcases hdecode : D.decode loop.1.stream source.remaining loop.2.capacity with ⟨next, reply⟩
  have hreacts := H.reacts_of_decode hplace hready.capacity_pos hdecode
  obtain rfl := H.onePass_of_decode hplace hf (hpending ▸ List.prefix_append _ _)
    (hsame ▸ hfits) hdecode
  obtain ⟨refills, target, hturn, htarget, hcapacity⟩ := hready.clearTurn_ok hmore hdecode
    hreacts.ret_lt rfl hreacts.consumed_le hreacts.emitted_le
  have hleft := Buffer.remaining_advance (source.length_remaining ▸ hreacts.consumed_le)
  have hbehind : source.remaining.drop f.encoded.length = encodings rest ++ cut := by
    rw [hpending, List.drop_left]
  have hne : source.remaining.drop f.encoded.length ≠ [] := by
    rw [hbehind]
    exact List.append_ne_nil_of_right_ne_nil _ hat.cut_ne_nil
  exact ⟨_, hturn, stuck_of_place
    (hready.after htarget hcapacity (fun _ => hne) hreacts.consumed_le) (hcapacity.trans hsame)
    (hreacts.complete rfl).2.2 hrest (hleft.trans hbehind)
    (.inl hat.cut_ne_nil) fun _ => hleft ▸ hne⟩

/-- A turn inside a complete frame stays inside it, or moves on to what is behind it. -/
theorem InFrames.turn (hready : Ready direct loop source) (hsame : loop.2.capacity = capacity)
    (hin : InFrames H capacity cut loop source) :
    ∃ next, clearTurn D direct loop = .again next ∧ Stuck H direct capacity cut next := by
  have hremaining := hin.remaining_ne_nil
  obtain ⟨f, rest, taken, given, hf, hvalid, hplace, hpending, htaken, hgiven, hunfinished⟩ :=
    hin.position
  have hmore := hready.hasRemaining fun _ => hremaining
  have hinput : taken ++ source.remaining <+: f.encoded ++ (encodings rest ++ cut) :=
    hpending ▸ List.prefix_rfl
  rcases hdecode : D.decode loop.1.stream source.remaining loop.2.capacity with ⟨next, reply⟩
  have hanswers := C.conforms.answers hplace hf hinput htaken hgiven hready.capacity_pos (by decide)
  have hret := C.ret_lt hplace hf hinput htaken hgiven hready.capacity_pos (by decide)
  rw [hdecode] at hanswers hret
  have hsize : reply.ret < 2 ^ 32 := hret
  have hok : zstdIsError reply.ret = false := by
    rw [zstdIsError, decide_eq_false_iff_not, maxCode]
    omega
  obtain ⟨refills, target, hturn, htarget, hcapacity⟩ := hready.clearTurn_ok hmore hdecode
    (by omega) hok hanswers.consumed_le hanswers.emitted_le
  have hconsumed : reply.consumed ≤ source.room := source.length_remaining ▸ hanswers.consumed_le
  have hleft := Buffer.remaining_advance hconsumed
  have hbehind : (taken ++ source.remaining.take reply.consumed) ++
      source.remaining.drop reply.consumed = f.encoded ++ (encodings rest ++ cut) := by
    rw [List.append_assoc, List.take_append_drop, hpending]
  by_cases hzero : reply.ret = 0
  · obtain ⟨hencoded, hcontent⟩ := hanswers.ret_eq_zero_iff.mp hzero
    simp only at hencoded
    rw [hencoded, List.append_cancel_left_eq] at hbehind
    have hne : source.remaining.drop reply.consumed ≠ [] := by
      intro hnil
      rw [hnil] at hbehind
      exact hin.cut_ne_nil (List.append_eq_nil_iff.mp hbehind.symm).2
    exact ⟨_, hturn, stuck_of_place
      (hready.after htarget hcapacity (fun _ => hne) hanswers.consumed_le) (hcapacity.trans hsame)
      (hanswers.boundary hzero) hvalid (hleft.trans hbehind) (.inl hin.cut_ne_nil)
      fun _ => hleft ▸ hne⟩
  · have hmoved : ¬ (reply.consumed = 0 ∧ reply.emitted = []) := by
      rintro ⟨hnone, hempty⟩
      have hgreedy := hanswers.greedy hzero (by
        simp only [hempty]
        exact hready.capacity_pos)
      exact hremaining (List.length_eq_zero_iff.mp (hgreedy.1.symm.trans hnone))
    refine ⟨_, hturn, source.advance reply.consumed,
      hready.after htarget hcapacity (fun h => absurd h hzero) hanswers.consumed_le,
      hcapacity.trans hsame, .inl ⟨⟨f, rest, _, _, hf, hvalid, ?_, ?_, hanswers.encoded_front,
        hanswers.content_front, fun h => hzero (hanswers.ret_eq_zero_iff.mpr h)⟩, hin.cut_ne_nil⟩⟩
    · have hinside := hanswers.inside hzero
      rw [Decoder.stalled, if_neg hmoved] at hinside
      exact hinside
    · rw [hleft]
      exact hbehind

end Stuck

end ZstdJni.BufferDecompress
