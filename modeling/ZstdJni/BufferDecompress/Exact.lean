/-
# The two buffer-decompressing streams are exact

The heap stream and the direct stream in lockstep: with the same data at hand, and refills
that supply the same data, each read of the one ends as the read of the other.  This holds
for every decompressor and every input.

Together with the delivery of complete frames it makes both streams exact.
-/

import ZstdJni.BufferDecompress.Deliver

namespace ZstdJni.BufferDecompress

open ZstdJni.Foundation ZstdJni.Native

variable {σ : Type} {D : Decoder σ Byte Byte} {C : DStreamContract D}

theorem Buffer.setPosition_eq (buffer : Buffer) (count : ℕ) :
    buffer.setPosition (buffer.position + count) =
      if count ≤ buffer.room then .ok (buffer.advance count)
      else .error (.illegalArgument "newPosition > limit") := by
  by_cases hcount : count ≤ buffer.room
  · rw [Buffer.setPosition_advance hcount, if_pos hcount]
  · have hle := buffer.position_le
    rw [if_neg hcount, Buffer.setPosition, dif_neg]
    rw [Buffer.room] at hcount
    omega

theorem Buffer.room_writeAt (buffer : Buffer) (offset : ℕ) (bytes : List Byte) :
    (buffer.writeAt offset bytes).room = buffer.room := by
  rw [Buffer.writeAt]
  split
  · rfl
  · rfl

theorem Buffer.room_eq_of_remaining {buffer buffer' : Buffer}
    (hremaining : buffer.remaining = buffer'.remaining) : buffer.room = buffer'.room := by
  rw [← Buffer.length_remaining, hremaining, Buffer.length_remaining]

theorem Buffer.hasRemaining_eq_of_remaining {buffer buffer' : Buffer}
    (hremaining : buffer.remaining = buffer'.remaining) :
    buffer.hasRemaining = buffer'.hasRemaining := by
  rw [Bool.eq_iff_iff, Buffer.hasRemaining_iff, Buffer.hasRemaining_iff, hremaining]

/-- A heap stream and a direct stream with the same data at hand. -/
structure Alike (st st' : State σ) : Prop where
  stream : st.stream = st'.stream
  closed : st.closed = st'.closed
  finishedFrame : st.finishedFrame = st'.finishedFrame
  streamEnd : st.streamEnd = st'.streamEnd
  refills : st.refills = st'.refills
  source : ∃ source source', st.source = some source ∧ st'.source = some source' ∧
    source.Serves false ∧ source'.Serves true ∧ source.remaining = source'.remaining

theorem Alike.hasRemaining {st st' : State σ} (halike : Alike st st') :
    st.hasRemaining = st'.hasRemaining := by
  obtain ⟨source, source', hsource, hsource', -, -, hremaining⟩ := halike.source
  simp only [State.hasRemaining, hsource, hsource', halike.closed, halike.streamEnd,
    halike.finishedFrame, Buffer.hasRemaining_eq_of_remaining hremaining]

/-- Refills that supply the same data. -/
def RefillsAlike (refill refill' : Refill) : Prop :=
  ∀ n current current', current.Serves false → current'.Serves true →
    current.remaining = [] → current'.remaining = [] →
    ∃ refilled refilled', refill n current = .returned refilled ∧
      refill' n current' = .returned refilled' ∧ refilled.Serves false ∧ refilled'.Serves true ∧
      refilled.remaining = refilled'.remaining

section Lockstep

variable {refill refill' : Refill} {st st' : State σ}

theorem finishRead_alike {source source' : Buffer} (hsource : source.Serves false)
    (hsource' : source'.Serves true) (hremaining : source.remaining = source'.remaining)
    (halike : Alike st st') (remaining : ℤ) (produced : ℕ) (target target' : Buffer) :
    (finishRead remaining produced source st target).outcome =
        (finishRead remaining produced source' st' target').outcome ∧
      Alike (finishRead remaining produced source st target).object
        (finishRead remaining produced source' st' target').object := by
  refine ⟨rfl, ?_⟩
  exact
    { stream := halike.stream
      closed := halike.closed
      finishedFrame := rfl
      streamEnd := by
        simp only [finishRead, halike.streamEnd, Buffer.hasRemaining_eq_of_remaining hremaining]
      refills := halike.refills
      source := ⟨source, source', rfl, rfl, hsource, hsource', hremaining⟩ }

/-- The part of a read behind the native call. -/
theorem afterDecode_alike (hrefills : RefillsAlike refill refill') {decoded decoded' : Decoded σ}
    (hret : decoded.remaining = decoded'.remaining)
    (hconsumed : decoded.consumed = decoded'.consumed)
    (hproduced : decoded.produced = decoded'.produced)
    (hroom : decoded.target.room = decoded'.target.room) {source source' : Buffer}
    (hsource : source.Serves false) (hsource' : source'.Serves true)
    (hremaining : source.remaining = source'.remaining) (halike : Alike st st') :
    (afterDecode refill false decoded source st).outcome =
        (afterDecode refill' true decoded' source' st').outcome ∧
      Alike (afterDecode refill false decoded source st).object
        (afterDecode refill' true decoded' source' st').object := by
  have hsourceRoom := Buffer.room_eq_of_remaining hremaining
  simp only [afterDecode, Buffer.setPosition_eq, hconsumed, hproduced, hroom, hsourceRoom]
  by_cases hfits : decoded'.consumed ≤ source'.room
  · simp only [hfits, if_true]
    have hmoved : (source.advance decoded'.consumed).remaining =
        (source'.advance decoded'.consumed).remaining := by
      rw [Buffer.remaining_advance (hsourceRoom ▸ hfits), Buffer.remaining_advance hfits,
        hremaining]
    have hserves : (source.advance decoded'.consumed).Serves false := hsource
    have hserves' : (source'.advance decoded'.consumed).Serves true := hsource'
    have hmovedAlike : Alike { st with source := some (source.advance decoded'.consumed) }
        { st' with source := some (source'.advance decoded'.consumed) } :=
      { stream := halike.stream
        closed := halike.closed
        finishedFrame := halike.finishedFrame
        streamEnd := halike.streamEnd
        refills := halike.refills
        source := ⟨_, _, rfl, rfl, hserves, hserves', hmoved⟩ }
    by_cases htarget : decoded'.produced ≤ decoded'.target.room
    · simp only [htarget, if_true, Buffer.hasRemaining_eq_of_remaining hmoved]
      cases hmore : (source'.advance decoded'.consumed).hasRemaining with
      | true =>
          rw [hret]
          exact finishRead_alike hserves hserves' hmoved hmovedAlike _ _ _ _
      | false =>
          have hempty := (Buffer.hasRemaining_eq_false_iff _).mp hmore
          obtain ⟨refilled, refilled', hreturned, hreturned', hrefilled, hrefilled', hpiece⟩ :=
            hrefills st'.refills (source.advance decoded'.consumed)
              (source'.advance decoded'.consumed) hserves hserves' (hmoved.trans hempty) hempty
          have hkind : refilled.kind = .array := hrefilled
          have hkind' : refilled'.kind = .direct := hrefilled'
          simp only [Bool.false_eq_true, not_false_eq_true, if_true, halike.refills, hreturned,
            hreturned', hkind, hkind', hret, not_true_eq_false, and_false, false_and, if_false,
            reduceCtorEq, ne_eq]
          refine finishRead_alike hrefilled hrefilled' hpiece ?_ _ _ _ _
          exact
            { stream := halike.stream
              closed := halike.closed
              finishedFrame := halike.finishedFrame
              streamEnd := halike.streamEnd
              refills := rfl
              source := ⟨_, _, rfl, rfl, hrefilled, hrefilled', hpiece⟩ }
    · simp only [htarget, if_false]
      exact ⟨trivial, hmovedAlike⟩
  · simp only [hfits, if_false]
    exact ⟨trivial, halike⟩

/-- With the same data at hand, a read of a heap stream and one of a direct stream end in
the same way. -/
theorem read_alike (hrefills : RefillsAlike refill refill') {target target' : Buffer}
    (htarget : target.Serves false) (htarget' : target'.Serves true)
    (hroom : target.room = target'.room) (halike : Alike st st') :
    (read D refill false target st).outcome = (read D refill' true target' st').outcome ∧
      Alike (read D refill false target st).object (read D refill' true target' st').object := by
  obtain ⟨source, source', hsource, hsource', hserves, hserves', hremaining⟩ := halike.source
  rcases hdecode : D.decode st'.stream source'.remaining target'.room with ⟨next, reply⟩
  rw [read_eq D htarget, read_eq D htarget']
  simp only [readInternal, halike.closed, halike.streamEnd]
  cases hclosed : st'.closed with
  | true => exact ⟨rfl, halike⟩
  | false =>
      cases hend : st'.streamEnd with
      | true => exact ⟨rfl, halike⟩
      | false =>
          have hnext : Alike
              { st with stream := next, source := some source, closed := false, streamEnd := false }
              { st' with
                stream := next, source := some source', closed := false, streamEnd := false } :=
            { stream := rfl
              closed := rfl
              finishedFrame := halike.finishedFrame
              streamEnd := rfl
              refills := halike.refills
              source := ⟨source, source', rfl, rfl, hserves, hserves', hremaining⟩ }
          simp only [Bool.false_eq_true, if_false, hsource, hsource',
            decompressStream_eq D st'.stream htarget hserves,
            decompressStream_eq D st'.stream htarget' hserves', decodeRemaining, halike.stream,
            hremaining, hroom, hdecode]
          cases isError (jlong reply.ret) with
          | true => exact ⟨rfl, hnext⟩
          | false =>
              have htargets :
                  (target.writeAt (target.arrayOffset + target.position) reply.emitted).room =
                    (target'.writeAt (target'.arrayOffset + target'.position)
                      reply.emitted).room := by
                rw [Buffer.room_writeAt, Buffer.room_writeAt, hroom]
              simp only [Bool.false_eq_true, if_false]
              apply afterDecode_alike hrefills _ _ _ htargets hserves hserves' hremaining hnext
              all_goals rfl

/-- Reads with the same data take the same bytes and write the same content. -/
theorem Reads.alike (hrefills : RefillsAlike refill refill') {targets targets' : ℕ → Buffer}
    (htarget : ∀ n, (targets n).Serves false) (htarget' : ∀ n, (targets' n).Serves true)
    (hroom : ∀ n, (targets n).room = (targets' n).room) {n : ℕ} {ends ends' : List (Ended σ)}
    {takens takens' emitteds emitteds' : List (List Byte)} (halike : Alike st st')
    (hreads : Reads D refill false targets n st ends takens emitteds)
    (hreads' : Reads D refill' true targets' n st' ends' takens' emitteds') :
    ends.map Ended.outcome = ends'.map Ended.outcome ∧ takens = takens' ∧ emitteds = emitteds' := by
  induction hreads generalizing st' ends' takens' emitteds' with
  | stop n st hstop =>
      cases hreads' with
      | stop => exact ⟨rfl, rfl, rfl⟩
      | read hmore => rw [← halike.hasRemaining, hstop] at hmore; contradiction
  | @read n st ended ends taken emitted takens emitteds hmore hended hstep hrest ih =>
      cases hreads' with
      | stop _ _ hstop => rw [← halike.hasRemaining, hmore] at hstop; contradiction
      | @read _ _ ended' ends' taken' emitted' takens' emitteds' hmore' hended' hstep' hrest' =>
          obtain ⟨houtcome, hnext⟩ :=
            read_alike (D := D) hrefills (htarget n) (htarget' n) (hroom n) halike
          rw [← hended, ← hended'] at houtcome hnext
          obtain ⟨source, moved, reply, hsource, hdecode, htaken, hemitted, -⟩ := hstep.source
          obtain ⟨source', moved', reply', hsource', hdecode', htaken', hemitted', -⟩ :=
            hstep'.source
          obtain ⟨_, _, heq, heq', -, -, hremaining⟩ := halike.source
          rw [hsource, Option.some.injEq] at heq
          rw [hsource', Option.some.injEq] at heq'
          rw [← heq, ← heq'] at hremaining
          rw [halike.stream, hremaining, hroom n, hdecode', Prod.mk.injEq] at hdecode
          obtain ⟨houtcomes, rfl, rfl⟩ := ih hnext hrest'
          refine ⟨?_, ?_, ?_⟩
          · rw [List.map_cons, List.map_cons, houtcome, houtcomes]
          · rw [htaken, htaken', hremaining, hdecode.2]
          · rw [hemitted, hemitted', hdecode.2]

end Lockstep

/-- The documented loop on a scenario delivered the frames: what its reads took off the
source is the encoded form of the frames, and what they wrote is the content.  Each frame
is completed by one read, and the last read, after which nothing remains, completes the
last frame. -/
structure Scenario.Delivered {direct : Bool} (S : Scenario C direct) (ends : List (Ended σ))
    (takens emitteds : List (List Byte)) : Prop where
  reads : Reads D S.refill direct S.targets 0 (State.create C.fresh S.source) ends takens emitteds
  encoded : takens.flatten = encodings S.frames
  content : emitteds.flatten = contents S.frames
  frames : ends.countP (fun ended => ended.object.finishedFrame) = S.frames.length
  last : ∃ before last, ends = before ++ [last] ∧ last.object.finishedFrame = true ∧
    last.object.hasRemaining = false

/-- A heap stream and a direct stream with the same data. -/
structure SameData (heap : Scenario C false) (direct : Scenario C true) : Prop where
  source : heap.source.remaining = direct.source.remaining
  pieces : heap.pieces = direct.pieces
  room : ∀ n, (heap.targets n).room = (direct.targets n).room

/-- The buffer-decompressing streams deliver the decoded stream exactly. -/
structure DeliversExactly (C : DStreamContract D) : Prop where
  delivers : ∀ direct (S : Scenario C direct), ∃ loop takens emitteds,
    Yields (readLoop D S.refill direct S.targets C.fresh S.source) loop ∧
      S.Delivered loop.ends takens emitteds
  /-- Heap and direct streams give the same results on the same data. -/
  alike : ∀ (heap : Scenario C false) (direct : Scenario C true), SameData heap direct →
    ∀ ends ends' takens takens' emitteds emitteds', heap.Delivered ends takens emitteds →
      direct.Delivered ends' takens' emitteds' →
      ends.map Ended.outcome = ends'.map Ended.outcome ∧ takens = takens' ∧ emitteds = emitteds'

/-- The invariant holds when the stream was just opened. -/
theorem Scenario.inv_create {direct : Bool} (S : Scenario C direct) {f : Frame Byte Byte}
    {rest : List (Frame Byte Byte)} (hframes : S.frames = f :: rest) :
    Inv S (State.create C.fresh S.source) S.source ⟨f, rest, [], [], 0⟩ where
  source_eq := rfl
  serves := S.source_serves
  is_open := rfl
  not_end := rfl
  valid := hframes ▸ S.valid
  place := C.place_fresh
  taken_front := List.nil_prefix
  given_front := List.nil_prefix
  pending := by
    have hsupplied := S.supplied
    rw [hframes] at hsupplied
    exact hsupplied
  unfinished :=
    fun h => C.encoded_ne_nil (S.valid f (by rw [hframes]; exact List.mem_cons_self)) h.1.symm
  idle_cases := .inl rfl
  finished := fun h => Bool.noConfusion h

theorem SameData.refillsAlike {heap : Scenario C false} {direct : Scenario C true}
    (hsame : SameData heap direct) : RefillsAlike heap.refill direct.refill := by
  intro n current current' hserves hserves' hempty hempty'
  obtain ⟨refilled, hreturned, hrefilled, hpiece⟩ := heap.refill_eq n current hserves hempty
  obtain ⟨refilled', hreturned', hrefilled', hpiece'⟩ :=
    direct.refill_eq n current' hserves' hempty'
  exact ⟨refilled, refilled', hreturned, hreturned', hrefilled, hrefilled',
    by rw [hpiece, hpiece', hsame.pieces]⟩

theorem deliversExactly (C : DStreamContract D) : DeliversExactly C where
  delivers direct S := by
    obtain ⟨f, rest, hframes⟩ := List.exists_cons_of_ne_nil S.frames_ne_nil
    obtain ⟨ends, takens, emitteds, last, hfinishes, hyields⟩ :=
      (S.inv_create hframes).finishes _ 0 [] rfl
    refine ⟨_, takens, emitteds, hyields, ?_⟩
    exact
      { reads := hfinishes.reads
        encoded := by rw [hfinishes.encoded, hframes]; rfl
        content := by rw [hfinishes.content, hframes]; rfl
        frames := by rw [hframes]; exact hfinishes.frames
        last := hfinishes.last }
  alike heap direct hsame ends ends' takens takens' emitteds emitteds' hheap hdirect := by
    refine Reads.alike hsame.refillsAlike heap.target_serves direct.target_serves hsame.room ?_
      hheap.reads hdirect.reads
    exact
      { stream := rfl
        closed := rfl
        finishedFrame := rfl
        streamEnd := rfl
        refills := rfl
        source := ⟨heap.source, direct.source, rfl, rfl, heap.source_serves, direct.source_serves,
          hsame.source⟩ }

end ZstdJni.BufferDecompress
