/-
# Complete streams are delivered exactly

On a source that supplies all of its frames, every call takes the next content off
what is left, or reports the end when nothing is left, unless the wrapped stream
stops at a position where the hint of the decompressor is misread.
-/

import Mathlib.Algebra.Order.BigOperators.Group.List
import Mathlib.Algebra.Order.Ring.Nat
import ZstdJni.InputStream.Read

namespace ZstdJni.InputStream

open ZstdJni.Foundation ZstdJni.Native

variable {σ : Type} {D : Decoder σ Byte Byte} {C : DStreamContract D}
variable {self : State σ} {g : Ghost}

/-- Nothing is supplied any more once the end of the input was met. -/
theorem Core.supplied_rest {source : Source C} (hends : source.EndsLast)
    (hcore : Core source self.drained g) (hend : AtEnd self g) :
    supplied self.upstream.script = [] := by
  rcases hend with hnil | ⟨earlier, hanswered⟩
  · rw [hnil, supplied_nil]
  · refine hends earlier _ ?_
    rw [hcore.script_eq, hanswered, List.append_assoc]
    rfl

/-- At the end of the input the decompressor has taken everything that was supplied. -/
theorem Core.supplied_at_end {source : Source C} (hends : source.EndsLast)
    (hcore : Core source self.drained g) (hend : AtEnd self g) :
    supplied source.upstream.script = encodings g.past ++ g.taken := by
  have hrest := hcore.supplied_rest hends hend
  have hpending : self.drained.pending = [] := window_self _ _
  have hscript := hcore.script_eq
  simp only [State.drained] at hscript
  rw [hscript, supplied_append, hrest, hcore.position, hpending, List.append_nil, List.append_nil]

/-- Once the end of the input was met no misread position is left. -/
theorem Core.not_misread {source : Source C} (hends : source.EndsLast)
    (hcore : Core source self.drained g) (hend : AtEnd self g) : ¬ source.Misread := by
  rintro ⟨before, ⟨rest, hbefore⟩, hmisread⟩
  have hless := hcore.clean before ⟨rest, hbefore⟩ hmisread
  have hall := hcore.supplied_at_end hends hend
  have hlength := congrArg List.length hall
  rw [← hbefore, supplied_append, List.length_append, List.length_append] at hlength
  simp only [Ghost.pos] at hless
  omega

/-- If everything was supplied and taken, the decompressor stands behind the last frame. -/
theorem Inv.todo_nil_of_taken {source : Source C} (hinv : Inv source self.drained g)
    (hneed : self.needRead = true)
    (hcomplete : supplied source.upstream.script = encodings source.frames)
    (hall : supplied source.upstream.script = encodings g.past ++ g.taken) : g.todo = [] := by
  rw [hcomplete, hinv.frames_eq, encodings_append, List.append_cancel_left_eq] at hall
  cases htodo : g.todo with
  | nil => rfl
  | cons f rest =>
      have hfits := (hinv.toCore.fits_cons htodo).1
      have hincomplete := hinv.read_incomplete hneed f (by simp [htodo])
      rw [htodo, encodings_cons] at hall
      have hlength := hfits.length_le
      rw [← hall, List.length_append] at hlength
      have hnil : encodings rest = [] := List.length_eq_zero_iff.mp (by omega)
      rw [hnil, List.append_nil] at hall
      exact absurd hall.symm hincomplete

section Complete

variable {source : CompleteSource C}

/-- A complete source only ends behind its last frame. -/
theorem CompleteSource.todo_nil (hinv : Inv source.toSource self.drained g)
    (hneed : self.needRead = true) (hend : AtEnd self g) : g.todo = [] :=
  hinv.todo_nil_of_taken hneed source.complete
    (hinv.toCore.supplied_at_end source.ends_last hend)

/-- How a reading loop ends on a complete source. -/
inductive ReadEnd (source : CompleteSource C) (g : Ghost) (dst : List Byte) (offset len : ℤ) :
    Ended σ → Prop
  | piece (produced : List Byte) (next : State σ) (after : Ghost) (hne : produced ≠ [])
      (hlen : (produced.length : ℤ) ≤ len) (hinv : Inv source.toSource next after)
      (hleft : g.left = produced ++ after.left) :
      ReadEnd source g dst offset len
        ⟨.returned produced.length, overwrite dst offset.toNat produced, next⟩
  | nothing (next : State σ) (after : Ghost) (hinv : Inv source.toSource next after)
      (hleft : g.left = []) (hafter : after.left = []) (hclean : ¬ source.Misread) :
      ReadEnd source g dst offset len ⟨.returned (-1), dst, next⟩
  | misread (code : ℤ) (dst' : List Byte) (next : State σ) (hmisread : source.Misread) :
      ReadEnd source g dst offset len ⟨.threw (.ofIOResult code), dst', next⟩

/-- A reading loop on a complete source delivers the next content, or reports the end
because nothing is left. -/
theorem Inv.readLoop_end (hinv : Inv source.toSource self g) (dst : List Byte) (offset len : ℤ)
    (fuel : ℕ) (hoffset : 0 ≤ offset) (hlen : 0 < len) (hfits : offset + len ≤ dst.length)
    (hfuel : limit source.toSource + len.toNat + 1 < fuel) :
    ∃ ended, readLoop D fuel dst offset len self = some ended ∧
      ReadEnd source g dst offset len ended := by
  obtain ⟨ended, hrun, hfinish, hne⟩ :=
    hinv.readLoop_finish (D := D) dst offset len fuel hoffset hlen hfits hfuel
  refine ⟨ended, hrun, ?_⟩
  cases hfinish with
  | delivered produced next after hnext hleaves _ =>
      have hroom := hleaves.fits
      refine .piece produced next after ?_ (by omega) hnext hleaves.left_eq
      rintro rfl
      exact hne rfl
  | exhausted produced next after hnext hneed hleaves hend _ hgiven hsame =>
      have htodo := source.todo_nil hnext hneed hend
      have hfits := hnext.fits
      rw [Ghost.Fits, htodo] at hfits
      have hnone : produced = [] := by
        by_contra hsome
        exact hgiven hsome hfits.2
      have hfinished : next.frameFinished = true := by
        refine hnext.finished_iff.mpr (.inr ⟨window_self _ _, ?_⟩)
        simp [Ghost.Inside, hfits.1, hfits.2]
      have hafter : after.left = [] := by simp [Ghost.left, htodo]
      rw [hnone, hfinished, endOutcome, if_pos rfl, overwrite_nil]
      refine .nothing next after (hsame (.inl hfinished) ▸ hnext) ?_ hafter
        (hnext.toCore.not_misread source.ends_last hend)
      rw [hleaves.left_eq, hnone, hafter, List.append_nil]
  | misread code dst' next hmisread => exact .misread code dst' next hmisread

/-- How a call ends on a complete source. -/
def CallEnd (source : CompleteSource C) (g : Ghost) (call : Call) (ended : Ended σ) : Prop :=
  (∃ after, Inv source.toSource ended.self after ∧
    Delivers g.left call (ended.outcome, ended.dst) after.left ∧
    (ended.outcome = .returned (-1) → ¬ source.Misread)) ∨
  (source.Misread ∧ ∃ code, ended.outcome = .threw (.ofIOResult code))

theorem read_eq_readLoop {dst : List Byte} {offset len : ℤ} {fuel : ℕ} (hoffset : 0 ≤ offset)
    (hlen : 0 < len) (hfits : offset + len ≤ dst.length) :
    read D fuel dst offset len self = readLoop D fuel dst offset len self := by
  have hbounds : outOfBounds dst offset len = false := by
    simp only [outOfBounds, decide_eq_false_iff_not]
    omega
  rw [read, if_neg (by simp [hbounds]), if_neg (by omega)]

theorem Inv.readByte_end (hinv : Inv source.toSource self g) {fuel : ℕ}
    (hfuel : limit source.toSource + 2 < fuel) :
    ∃ ended, readByte D fuel self = some ended ∧ CallEnd source g .readByte ended := by
  obtain ⟨ended, hrun, hend⟩ := hinv.readLoop_end (D := D) [0] 0 1 fuel
    (Int.le_refl 0) (by omega) (by simp) (by simp only [Int.toNat_one]; omega)
  rw [readByte, hrun]
  refine ⟨_, rfl, ?_⟩
  cases hend with
  | piece produced next after hne hlen hnext hleft =>
      obtain ⟨b, hb⟩ : ∃ b, produced = [b] := by
        refine List.length_eq_one_iff.mp ?_
        have hpositive := List.length_pos_iff.mpr hne
        omega
      subst hb
      refine .inl ⟨after, hnext, ?_, ?_⟩
      · rw [hleft]
        exact .byte b after.left _
      · simp only [byteResult, List.length_singleton, Int.natCast_one,
          if_true, Outcome.returned.injEq]
        omega
  | nothing next after hnext hleft hafter hclean =>
      refine .inl ⟨after, hnext, ?_, fun _ => hclean⟩
      rw [hleft, hafter]
      exact .byteEnd _
  | misread code dst' next hmisread => exact .inr ⟨hmisread, code, rfl⟩

theorem Inv.read_end (hinv : Inv source.toSource self g) {dst : List Byte} {offset len : ℤ}
    {fuel : ℕ} (hvalid : (Call.read dst offset len).Valid)
    (hfuel : limit source.toSource + len.toNat + 1 < fuel) :
    ∃ ended, read D fuel dst offset len self = some ended ∧
      CallEnd source g (.read dst offset len) ended := by
  obtain ⟨hoffset, hlen, hfits⟩ := hvalid
  obtain ⟨ended, hrun, hend⟩ :=
    hinv.readLoop_end (D := D) dst offset len fuel hoffset hlen hfits hfuel
  rw [read_eq_readLoop hoffset hlen hfits, hrun]
  refine ⟨_, rfl, ?_⟩
  cases hend with
  | piece produced next after hne hroom hnext hleft =>
      refine .inl ⟨after, hnext, ?_, ?_⟩
      · exact .bytes produced after.left dst offset len hleft hne hroom
      · simp only [Outcome.returned.injEq]
        omega
  | nothing next after hnext hleft hafter hclean =>
      refine .inl ⟨after, hnext, ?_, fun _ => hclean⟩
      rw [hleft, hafter]
      exact .bytesEnd dst offset len
  | misread code dst' next hmisread => exact .inr ⟨hmisread, code, rfl⟩

/-- The loop of `skip` has taken `skipped` off the content. -/
structure SkipInv (source : CompleteSource C) (first : Ghost) (numBytes : ℤ) (st : SkipState σ)
    (skipped : List Byte) (g : Ghost) : Prop where
  inv : Inv source.toSource st.self g
  left_eq : first.left = skipped ++ g.left
  toSkip_eq : st.toSkip = numBytes - skipped.length
  toSkip_nonneg : 0 ≤ st.toSkip
  data_length : skipBufferLen numBytes ≤ st.data.length

/-- One turn of the loop in `skip`. -/
theorem SkipInv.skipTurn_meets {first : Ghost} {numBytes : ℤ} {st : SkipState σ}
    {skipped : List Byte} {fuel : ℕ} (data : List Byte)
    (hskip : SkipInv source first numBytes st skipped g)
    (hpositive : 0 < numBytes) (hfuel : limit source.toSource + numBytes.toNat + 1 < fuel) :
    ∃ t, skipTurn D fuel numBytes st = some t ∧
      t.Meets (fun next => ∃ less < st.toSkip.toNat, less = next.toSkip.toNat ∧
          ∃ skipped g, SkipInv source first numBytes next skipped g)
        (CallEnd source first (.skip numBytes data)) := by
  have hcount := hskip.toSkip_eq
  rw [skipTurn]
  by_cases htoSkip : 0 < st.toSkip
  · rw [if_pos htoSkip]
    have hbuffer : 0 < skipBufferLen numBytes := by
      simp only [skipBufferLen, recommendedDOutSize]
      omega
    have hdata := hskip.data_length
    generalize hlen : min (skipBufferLen numBytes) st.toSkip = len
    obtain ⟨ended, hrun, hend⟩ := hskip.inv.readLoop_end (D := D) st.data 0 len fuel
      (Int.le_refl 0) (by omega) (by omega) (by omega)
    rw [read_eq_readLoop (Int.le_refl 0) (by omega) (by omega), hrun]
    refine ⟨_, rfl, ?_⟩
    cases hend with
    | piece produced next after hne hroom hnext hleft =>
        have hmore : 0 < produced.length := List.length_pos_iff.mpr hne
        simp only [Int.natCast_nonneg, Int.not_lt, if_neg, Turn.Meets]
        refine ⟨(st.toSkip - produced.length).toNat, by omega, rfl, skipped ++ produced, after,
          hnext, ?_, ?_, ?_, ?_⟩
        · rw [hskip.left_eq, hleft, List.append_assoc]
        · simp only [List.length_append]
          omega
        · simp only
          omega
        · rw [length_overwrite (by simp; omega)]
          exact hdata
    | nothing next after hnext hleft hafter hclean =>
        refine .inl ⟨after, hnext, ?_, fun _ => hclean⟩
        have hall : first.left = skipped := by rw [hskip.left_eq, hleft, List.append_nil]
        have hmin : min numBytes first.left.length = numBytes - st.toSkip := by
          rw [hall]
          omega
        have hdrop : first.left.drop numBytes.toNat = after.left := by
          rw [hafter, hall]
          exact List.drop_of_length_le (by omega)
        rw [← hdrop]
        change Delivers _ _ (.returned (numBytes - st.toSkip), st.data) _
        rw [← hmin]
        exact .skipped first.left numBytes data st.data
    | misread code dst' next hmisread => exact .inr ⟨hmisread, code, rfl⟩
  · rw [if_neg htoSkip]
    have hnonneg := hskip.toSkip_nonneg
    refine ⟨_, rfl, .inl ⟨g, hskip.inv, ?_, ?_⟩⟩
    · have hmin : min numBytes first.left.length = numBytes - st.toSkip := by
        rw [hskip.left_eq, List.length_append]
        omega
      have hdrop : first.left.drop numBytes.toNat = g.left := by
        have hlength : numBytes.toNat = skipped.length := by omega
        rw [hskip.left_eq, hlength, List.drop_left]
      rw [← hmin, ← hdrop]
      exact .skipped first.left numBytes data st.data
    · simp only [Outcome.returned.injEq]
      omega

theorem Inv.skip_end (hinv : Inv source.toSource self g) {data : List Byte} {numBytes : ℤ}
    {fuel : ℕ} (hvalid : (Call.skip numBytes data).Valid)
    (hfuel : limit source.toSource + numBytes.toNat + 1 < fuel) :
    ∃ ended, skip D fuel data numBytes self = some ended ∧
      CallEnd source g (.skip numBytes data) ended := by
  obtain ⟨hpositive, hdata⟩ := hvalid
  rw [skip, if_neg (by simp [hinv.is_open]), if_neg (by omega)]
  refine iterate_total
    (fun bound st => bound = st.toSkip.toNat ∧
      ∃ skipped g', SkipInv source g numBytes st skipped g')
    ?_ fuel ⟨rfl, [], g, hinv, rfl, by simp, by simp only; omega, hdata⟩ (by simp only; omega)
  rintro bound st ⟨rfl, skipped, g', hskip⟩
  exact hskip.skipTurn_meets data hpositive hfuel

/-- The turns a call needs beyond the bound of its source. -/
def Call.turns : Call → ℕ
  | .readByte => 1
  | .read _ _ len => len.toNat
  | .skip numBytes _ => numBytes.toNat

/-- Every valid call on a complete source delivers, or misreads a hint. -/
theorem Inv.call_end (hinv : Inv source.toSource self g) {call : Call} {fuel : ℕ}
    (hvalid : call.Valid) (hfuel : limit source.toSource + call.turns + 1 < fuel) :
    ∃ ended, call.run D fuel self = some ended ∧ CallEnd source g call ended := by
  cases call with
  | readByte => exact hinv.readByte_end (by simpa [Call.turns] using hfuel)
  | read dst offset len => exact hinv.read_end hvalid hfuel
  | skip numBytes data => exact hinv.skip_end hvalid hfuel

/-- A sequence of valid calls on a complete source delivers the content in order, or one
of the calls misreads a hint and the sequence does not deliver. -/
theorem Inv.runCalls_end (hinv : Inv source.toSource self g) {calls : List Call} (fuel : ℕ)
    (hvalid : ∀ call ∈ calls, call.Valid)
    (hfuel : ∀ call ∈ calls, limit source.toSource + call.turns + 1 < fuel) :
    (∃ results last, runCalls D fuel self calls = some (results, last) ∧
      DeliversAll g.left calls results ∧
      ((∃ r ∈ results, r.1 = .returned (-1)) → ¬ source.Misread)) ∨
    (source.Misread ∧ ∀ results last, runCalls D fuel self calls = some (results, last) →
      ¬ DeliversAll g.left calls results) := by
  induction calls generalizing self g with
  | nil => exact .inl ⟨[], self, rfl, .nil _, by simp⟩
  | cons call calls ih =>
      obtain ⟨ended, hrun, hend⟩ :=
        hinv.call_end (D := D) (hvalid call (by simp)) (hfuel call (by simp))
      rcases hend with ⟨after, hnext, hdelivers, hclean⟩ | ⟨hmisread, code, hthrew⟩
      · rcases ih hnext (fun c hc => hvalid c (by simp [hc])) (fun c hc => hfuel c (by simp [hc]))
          with ⟨later, last, hlater, hall, hlast⟩ | ⟨hmisread, hfails⟩
        · refine .inl ⟨(ended.outcome, ended.dst) :: later, last, ?_, .cons hdelivers hall, ?_⟩
          · exact runCalls_cons.mpr ⟨ended, later, hrun, hlater, rfl⟩
          · rintro ⟨r, hr, hminus⟩
            rcases List.mem_cons.mp hr with rfl | hr
            · exact hclean hminus
            · exact hlast ⟨r, hr, hminus⟩
        · refine .inr ⟨hmisread, fun results last hall hdeliversAll => ?_⟩
          obtain ⟨ended', later, hrun', hlater, rfl⟩ := runCalls_cons.mp hall
          obtain rfl : ended' = ended := Option.some.inj (hrun'.symm.trans hrun)
          obtain _ | ⟨hcall, hcalls⟩ := hdeliversAll
          rw [hcall.rest_unique hdelivers] at hcalls
          exact hfails later last hlater hcalls
      · refine .inr ⟨hmisread, fun results last hall hdeliversAll => ?_⟩
        obtain ⟨ended', later, hrun', -, rfl⟩ := runCalls_cons.mp hall
        obtain rfl : ended' = ended := Option.some.inj (hrun'.symm.trans hrun)
        obtain _ | ⟨hcall, -⟩ := hdeliversAll
        exact hcall.outcome_ne_threw hthrew

end Complete

/-- Every sequence of valid calls ends and delivers the content of the frames. -/
def Source.DeliversExactly (source : Source C) (continuous : Bool) : Prop :=
  ∀ calls : List Call, (∀ call ∈ calls, call.Valid) → ∃ enough, ∀ fuel ≥ enough,
    ∃ results last, runCalls D fuel (source.opened.setContinuous continuous) calls =
      some (results, last) ∧ DeliversAll (contents source.frames) calls results

/-- A stream that delivers everything met no misread position: reading to the end of the
content passes all of them. -/
theorem not_misread_of_deliversExactly {source : CompleteSource C} {continuous : Bool}
    (hexactly : source.DeliversExactly continuous) : ¬ source.Misread := by
  intro hmisread
  have hvalid : ∀ call ∈ List.replicate ((contents source.frames).length + 1) Call.readByte,
      call.Valid := by
    intro call hcall
    rw [List.eq_of_mem_replicate hcall]
    trivial
  obtain ⟨enough, hruns⟩ := hexactly _ hvalid
  obtain ⟨results, last, hrun, hall⟩ := hruns (max enough (limit source.toSource + 3)) (by omega)
  have hend := (inv_opened source.toSource continuous).runCalls_end (D := D)
    (max enough (limit source.toSource + 3)) hvalid (by
      intro call hcall
      rw [List.eq_of_mem_replicate hcall, Call.turns]
      omega)
  rcases hend with ⟨results', last', hrun', hall', hclean⟩ | ⟨-, hfails⟩
  · exact hclean (hall'.exists_end _ (by simp [Ghost.left])) hmisread
  · exact hfails results last hrun hall

theorem deliversExactly_of_not_misread {source : CompleteSource C} (continuous : Bool)
    (hclean : ¬ source.Misread) : source.DeliversExactly continuous := by
  intro calls hvalid
  refine ⟨limit source.toSource + (calls.map Call.turns).sum + 2, fun fuel hfuel => ?_⟩
  have hend := (inv_opened source.toSource continuous).runCalls_end (D := D) fuel hvalid (by
    intro call hcall
    have hle := List.le_sum_of_mem (List.mem_map_of_mem (f := Call.turns) hcall)
    omega)
  rcases hend with ⟨results, last, hrun, hall, -⟩ | ⟨hmisread, -⟩
  · exact ⟨results, last, hrun, hall⟩
  · exact absurd hmisread hclean

/-- The input stream delivers a complete source exactly, whatever is called and however
the source is cut, if and only if no answer of the wrapped stream ends inside a
skippable frame with so much of the frame missing that the hint looks like an error. -/
theorem deliversExactly_iff_not_misread (source : CompleteSource C) (continuous : Bool) :
    source.DeliversExactly continuous ↔ ¬ source.Misread :=
  ⟨not_misread_of_deliversExactly, deliversExactly_of_not_misread continuous⟩

/-- The header of a skippable frame that declares `2 ^ 32 - 1` bytes. -/
def largestHeader : List Byte := [0x50, 0x2A, 0x4D, 0x18, 0xFF, 0xFF, 0xFF, 0xFF]

/-- The skippable frame with this header and nothing but zeros. -/
noncomputable def largestFrame : Frame Byte Byte where
  encoded := largestHeader ++ List.replicate (65537 * 65535) 0
  content := []

theorem skippableSize_largestFrame : skippableSize largestFrame.encoded = 65537 * 65535 := by
  rw [skippableSize, window, largestFrame, List.take_append_of_le_length (by decide)]
  decide

theorem length_largestFrame :
    largestFrame.encoded.length = skippableHeaderSize + 65537 * 65535 := by
  rw [largestFrame, List.length_append, List.length_replicate]
  rfl

/-- The format that has this frame only. -/
noncomputable def largestTable : ZstdTable where
  frames := [largestFrame]
  encoded_ne_nil := by
    intro f hf
    rw [List.mem_singleton.mp hf]
    exact List.cons_ne_nil _ _
  prefix_free := by
    intro f hf f' hf' _
    rw [List.mem_singleton.mp hf, List.mem_singleton.mp hf']
  skippable_content := by
    intro f hf _
    rw [List.mem_singleton.mp hf]
    rfl
  skippable_length := by
    intro f hf _
    rw [List.mem_singleton.mp hf, skippableSize_largestFrame, length_largestFrame]

/-- The frame, cut into a chunk with its header and chunks with its data. -/
noncomputable def largestScript : List (Option (List Byte)) :=
  some largestHeader :: List.replicate 65537 (some (List.replicate 65535 0))

theorem supplied_largestScript : supplied largestScript = encodings [largestFrame] := by
  rw [largestScript, supplied_cons, supplied, List.flatMap_replicate, Option.getD_some,
    Option.getD_some, List.flatten_replicate_replicate, encodings_cons, encodings_nil,
    List.append_nil, largestFrame]

/-- The source that supplies it. -/
noncomputable def largestSource : CompleteSource largestTable.contract where
  frames := [largestFrame]
  upstream := ⟨largestScript, fun _ => 0⟩
  frames_valid := fun _ hf => hf
  supplied_front := supplied_largestScript ▸ List.prefix_rfl
  chunk_le := by
    intro chunk hchunk
    rcases List.mem_cons.mp hchunk with h | h
    · rw [Option.some.inj h]
      decide
    · rw [Option.some.inj (List.eq_of_mem_replicate h), List.length_replicate]
      decide
  complete := supplied_largestScript
  ends_last := by
    intro before after hscript
    have hscript' : largestScript = before ++ none :: after := hscript
    have hmem : none ∈ largestScript := by
      rw [hscript']
      exact List.mem_append_right _ List.mem_cons_self
    rcases List.mem_cons.mp hmem with h | h
    · exact absurd h.symm (Option.some_ne_none _)
    · exact absurd (List.eq_of_mem_replicate h).symm (Option.some_ne_none _)

/-- Not every complete source is delivered: behind the header of this frame the hint is
`2 ^ 32 - 1`, which becomes the `jint` `-1` and is thrown as an error. -/
theorem not_deliversExactly_largestSource : ¬ largestSource.DeliversExactly false := by
  intro hexactly
  refine not_misread_of_deliversExactly hexactly
    ⟨[some largestHeader], ⟨_, rfl⟩, [], largestFrame, [],
    8, rfl, rfl, rfl, le_rfl, ?_⟩
  rw [length_largestFrame]
  decide

end ZstdJni.InputStream
