/-
# Truncated streams

On a source that is cut inside a frame the end of the input is met inside that frame,
and whether this is reported is up to the flag `frameFinished`.  The flag was cleared
if a chunk arrived after the frame had begun or with its first byte.  It is still set if
the whole part of the frame came with the chunk that ended the frame before.
-/

import ZstdJni.InputStream.Complete

namespace ZstdJni.InputStream

open ZstdJni.Foundation ZstdJni.Native

variable {σ : Type} {D : Decoder σ Byte Byte} {C : DStreamContract D}
variable {self : State σ} {g : Ghost}
/-- A call ends this way, whatever budget it is given from some point on. -/
def Call.Ends (D : Decoder σ Byte Byte) (self : State σ) (call : Call) (ended : Ended σ) : Prop :=
  Yields (fun fuel => call.run D fuel self) ended

theorem Call.Ends.of_run {call : Call} (fuel : ℕ) {ended : Ended σ}
    (hrun : call.run D fuel self = some ended) : call.Ends D self ended :=
  ⟨fuel, fun _ hle => Call.run_mono hle hrun⟩

/-- A run of reads that ends with `outcome`: every earlier read returned a byte or a
number of bytes, so none of them reported the end of the stream. -/
inductive EndsWith (D : Decoder σ Byte Byte) : State σ → (ℕ → Call) → Outcome ℤ → Prop
  | stop {self : State σ} {reads : ℕ → Call} {ended : Ended σ}
      (hcall : (reads 0).Ends D self ended) (hstop : ∀ n ≥ 0, ended.outcome ≠ .returned n) :
      EndsWith D self reads ended.outcome
  | go {self : State σ} {reads : ℕ → Call} {ended : Ended σ} {outcome : Outcome ℤ} {n : ℤ}
      (hcall : (reads 0).Ends D self ended) (hn : 0 ≤ n) (hreturned : ended.outcome = .returned n)
      (hrest : EndsWith D ended.self (fun i => reads (i + 1)) outcome) :
      EndsWith D self reads outcome

theorem EndsWith.unique {reads : ℕ → Call} {outcome outcome' : Outcome ℤ}
    (h : EndsWith D self reads outcome) (h' : EndsWith D self reads outcome') :
    outcome = outcome' := by
  induction h with
  | stop hcall hstop =>
      cases h' with
      | stop hcall' _ => rw [Yields.unique hcall hcall']
      | go hcall' hn hreturned _ =>
          rw [Yields.unique hcall hcall'] at hstop
          exact absurd hreturned (hstop _ hn)
  | go hcall hn hreturned _ ih =>
      cases h' with
      | stop hcall' hstop =>
          rw [← Yields.unique hcall hcall'] at hstop
          exact absurd hreturned (hstop _ hn)
      | go hcall' _ _ hrest' =>
          rw [← Yields.unique hcall hcall'] at hrest'
          exact ih hrest'

/-- The calls that read. -/
def Call.IsRead : Call → Prop
  | .readByte => True
  | .read _ _ _ => True
  | .skip _ _ => False

/-- Whatever reads are made, with a positive length inside their arrays, the run of reads
ends with the exception for a truncated source. -/
def Source.TruncationDetected (source : Source C) : Prop :=
  ∀ reads : ℕ → Call, (∀ i, (reads i).Valid ∧ (reads i).IsRead) →
    EndsWith D source.opened reads (.threw truncatedSource)

theorem lastChunkLength_append_of_supplied_nil {script rest : List (Option (List Byte))}
    (hrest : supplied rest = []) : lastChunkLength (script ++ rest) = lastChunkLength script := by
  induction rest generalizing script with
  | nil => rw [List.append_nil]
  | cons answer rest ih =>
      rw [supplied_cons, List.append_eq_nil_iff] at hrest
      rw [List.append_cons, ih hrest.2, lastChunkLength_append_empty hrest.1]

section Cut

variable {source : CutSource C}

/-- A cut source ends inside its last frame, with the part of it that was supplied taken. -/
theorem CutSource.taken_eq (hcore : Core source.toSource self.drained g) (hend : AtEnd self g) :
    g.taken = source.cut := by
  have hall := hcore.supplied_at_end source.ends_last hend
  have hframes := hcore.frames_eq
  have hcut : source.cut.length < source.last.encoded.length := by
    have hle := source.cut_front.length_le
    by_contra hge
    exact source.cut_ne_last (source.cut_front.eq_of_length (by omega))
  have hpositive : 0 < source.cut.length := List.length_pos_iff.mpr source.cut_ne_nil
  have hlength := congrArg List.length hall
  rw [source.supplied_eq, List.length_append, List.length_append] at hlength
  rw [source.frames_eq] at hframes
  rcases List.eq_nil_or_concat g.todo with hnil | ⟨init, f, hconcat⟩
  · have hfits := hcore.fits
    rw [Ghost.Fits, hnil] at hfits
    rw [hnil, List.append_nil] at hframes
    rw [← hframes, hfits.1] at hlength
    simp only [encodings_append, encodings_cons, encodings_nil, List.length_append,
      List.length_nil] at hlength
    omega
  · rw [List.concat_eq_append] at hconcat
    rw [hconcat, ← List.append_assoc] at hframes
    obtain ⟨hwhole, -⟩ := List.append_inj' hframes rfl
    cases init with
    | nil =>
        rw [List.append_nil] at hwhole
        rw [source.supplied_eq, hwhole] at hall
        exact (List.append_cancel_left hall).symm
    | cons first rest =>
        have hfits := (hcore.fits_cons (hconcat.trans (List.cons_append ..))).1.length_le
        rw [hwhole, encodings_append, encodings_cons, List.length_append,
          List.length_append] at hlength
        omega

/-- At the end of a cut source the flag tells whether the last chunk had begun before
the frame. -/
theorem CutSource.finished_iff_lastChunk (hcore : Core source.toSource self.drained g)
    (hend : AtEnd self g) :
    self.frameFinished = true ↔ source.cut.length < lastChunkLength source.upstream.script := by
  have htaken := CutSource.taken_eq hcore hend
  have hinside : g.Inside := .inl (htaken ▸ source.cut_ne_nil)
  have hrest := hcore.supplied_rest source.ends_last hend
  have hpending : self.drained.pending = [] := window_self _ _
  have hscript := hcore.script_eq
  have hfinished := hcore.finished_iff
  simp only [State.drained] at hscript
  rw [hpending, htaken, List.length_nil, Nat.add_zero,
    ← lastChunkLength_append_of_supplied_nil hrest, ← hscript] at hfinished
  simp only [hinside, not_true_eq_false, and_false, or_false] at hfinished
  exact hfinished

/-- What the end of a cut source is reported as. -/
def CutSource.endOutcome (source : CutSource C) : Outcome ℤ :=
  if source.cut.length < lastChunkLength source.upstream.script then .returned (-1)
  else .threw truncatedSource

/-- How a read ends on a cut source: with more bytes and a result in the given range, at
the end of the input, or with a misread hint. -/
def CutEnd (source : CutSource C) (g : Ghost) (range : ℤ → Prop) (ended : Ended σ) : Prop :=
  (∃ after n, Inv source.toSource ended.self after ∧ ended.self.isContinuous = false ∧
    after.left.length < g.left.length ∧ range n ∧ ended.outcome = .returned n) ∨
  (¬ source.Misread ∧ ended.outcome = source.endOutcome) ∨
  (source.Misread ∧ ∃ code, ended.outcome = .threw (.ofIOResult code))

theorem Finish.cutEnd {reach : State σ → Ghost → Prop} {dst : List Byte} {offset dstSize : ℕ}
    {ended : Ended σ} (hfinish : Finish reach source.toSource self g dst offset dstSize ended)
    (hne : ended.outcome ≠ .returned 0) (hcontinuous : self.isContinuous = false) :
    CutEnd source g (fun n => 0 < n ∧ offset + n ≤ dstSize) ended := by
  cases hfinish with
  | delivered produced next after hinv hleaves hbudget =>
      have hfits := hleaves.fits
      have hsome : produced ≠ [] := by
        rintro rfl
        exact hne rfl
      have hmore : 0 < produced.length := List.length_pos_iff.mpr hsome
      refine .inl ⟨after, produced.length, hinv, hleaves.continuous_eq.trans hcontinuous, ?_,
        ⟨by omega, by omega⟩, rfl⟩
      rw [hleaves.left_eq, List.length_append]
      omega
  | exhausted produced next after hinv hneed hleaves hend _ hgiven hsame =>
      refine .inr (.inl ⟨hinv.toCore.not_misread source.ends_last hend, ?_⟩)
      have hiff := CutSource.finished_iff_lastChunk hinv.toCore hend
      rw [hleaves.continuous_eq, hcontinuous, CutSource.endOutcome, InputStream.endOutcome]
      by_cases hfinished : next.frameFinished = true
      · rw [if_pos hfinished, if_pos (hiff.mp hfinished)]
      · rw [if_neg hfinished, if_neg (by simp), if_neg (mt hiff.mpr hfinished)]
  | misread code dst' next hmisread => exact .inr (.inr ⟨hmisread, code, rfl⟩)

/-- A read on a cut source ends in one of the three ways. -/
theorem Inv.read_cutEnd (hinv : Inv source.toSource self g)
    (hcontinuous : self.isContinuous = false)
    {call : Call} (hvalid : call.Valid) (hread : call.IsRead) :
    ∃ ended, call.Ends D self ended ∧ CutEnd source g (0 ≤ ·) ended := by
  cases call with
  | readByte =>
      obtain ⟨inner, hrun, hfinish, hne⟩ := hinv.readLoop_finish (D := D) [0] 0 1
        (limit source.toSource + 3) (Int.le_refl 0) (by omega) (by simp)
        (by simp only [Int.toNat_one]; omega)
      refine ⟨byteResult inner, .of_run (limit source.toSource + 3) ?_, ?_⟩
      · rw [Call.run, InputStream.readByte, hrun, Option.map_some]
      · obtain ⟨outcome, dst, next⟩ := inner
        rcases hfinish.cutEnd hne hcontinuous with
          ⟨after, n, hnext, hsame, hless, ⟨hpositive, hone⟩, rfl⟩ | ⟨hclean, rfl⟩ |
          ⟨hmisread, code, rfl⟩
        · obtain rfl : n = 1 := by omega
          exact .inl ⟨after, _, hnext, hsame, hless, Int.natCast_nonneg _, rfl⟩
        · refine .inr (.inl ⟨hclean, ?_⟩)
          rw [CutSource.endOutcome]
          split_ifs <;> rfl
        · exact .inr (.inr ⟨hmisread, code, rfl⟩)
  | read dst offset len =>
      obtain ⟨hoffset, hlen, hfits⟩ := hvalid
      obtain ⟨ended, hrun, hfinish, hne⟩ := hinv.readLoop_finish (D := D) dst offset len
        (limit source.toSource + len.toNat + 2) hoffset hlen hfits (by omega)
      refine ⟨ended, .of_run (limit source.toSource + len.toNat + 2) ?_, ?_⟩
      · rw [Call.run, read_eq_readLoop hoffset hlen hfits, hrun]
      · refine (hfinish.cutEnd hne hcontinuous).imp_left ?_
        rintro ⟨after, n, hnext, hsame, hless, ⟨hpositive, -⟩, houtcome⟩
        exact ⟨after, n, hnext, hsame, hless, by omega, houtcome⟩
  | skip numBytes data => exact absurd hread id

/-- A run of reads on a cut source ends the way its last chunk decides, unless a hint is
misread on the way. -/
theorem Inv.endsWith (hinv : Inv source.toSource self g) (hcontinuous : self.isContinuous = false)
    (reads : ℕ → Call) (hreads : ∀ i, (reads i).Valid ∧ (reads i).IsRead) :
    (¬ source.Misread ∧ EndsWith D self reads source.endOutcome) ∨
      (source.Misread ∧ ∃ code, EndsWith D self reads (.threw (.ofIOResult code))) := by
  induction hcount : g.left.length using Nat.strongRecOn generalizing self g reads with
  | ind count ih =>
      obtain ⟨ended, hends, hend⟩ :=
        hinv.read_cutEnd (D := D) hcontinuous (hreads 0).1 (hreads 0).2
      rcases hend with ⟨after, n, hnext, hsame, hless, hn, hreturned⟩ | ⟨hclean, houtcome⟩ |
        ⟨hmisread, code, houtcome⟩
      · refine (ih _ (hcount ▸ hless) hnext hsame _ (fun i => hreads (i + 1)) rfl).imp ?_ ?_
        · exact fun ⟨hclean, hrest⟩ => ⟨hclean, .go hends hn hreturned hrest⟩
        · exact fun ⟨hmisread, code, hrest⟩ => ⟨hmisread, code, .go hends hn hreturned hrest⟩
      · refine .inl ⟨hclean, houtcome ▸ .stop hends fun n hn => ?_⟩
        rw [houtcome, CutSource.endOutcome]
        split_ifs
        · simp only [ne_eq, Outcome.returned.injEq]
          omega
        · simp
      · exact .inr ⟨hmisread, code, houtcome ▸ .stop hends fun n _ => by simp [houtcome]⟩

end Cut

/-- No error of zstd has the text of the exception for a truncated source. -/
theorem ofIOResult_ne_truncatedSource (code : ℤ) :
    JavaException.ofIOResult code ≠ truncatedSource := by
  have htext (c : ErrorCode) : c.text ≠ "Truncated source" := by cases c <;> decide
  simp only [JavaException.ofIOResult, truncatedSource, ne_eq, JavaException.zstdIOException.injEq,
    not_and]
  intro _ hname
  unfold getErrorName at hname
  split_ifs at hname
  · split at hname
    · exact htext _ hname
    · revert hname
      decide
  · revert hname
    decide

/-- Where truncation is detected no hint is misread and the flag was cleared. -/
theorem lastChunk_le_of_truncationDetected {source : CutSource C}
    (hdetected : source.TruncationDetected) :
    ¬ source.Misread ∧ lastChunkLength source.upstream.script ≤ source.cut.length := by
  have hreads := hdetected (fun _ => .readByte) fun _ => ⟨trivial, trivial⟩
  rcases (inv_opened source.toSource false).endsWith (D := D) rfl (fun _ => .readByte)
    fun _ => ⟨trivial, trivial⟩ with ⟨hclean, hend⟩ | ⟨-, code, hend⟩
  · refine ⟨hclean, ?_⟩
    by_contra hlast
    have houtcome := hreads.unique hend
    rw [CutSource.endOutcome, if_pos (by omega)] at houtcome
    exact absurd houtcome (by simp)
  · have houtcome := hreads.unique hend
    simp only [Outcome.threw.injEq] at houtcome
    exact absurd houtcome.symm (ofIOResult_ne_truncatedSource code)

theorem truncationDetected_of_lastChunk_le {source : CutSource C} (hclean : ¬ source.Misread)
    (hlast : lastChunkLength source.upstream.script ≤ source.cut.length) :
    source.TruncationDetected := by
  intro reads hreads
  rcases (inv_opened source.toSource false).endsWith (D := D) rfl reads hreads with
    ⟨-, hend⟩ | ⟨hmisread, -⟩
  · rw [CutSource.endOutcome, if_neg (by omega)] at hend
    exact hend
  · exact absurd hmisread hclean

/-- Truncation is detected, whatever reads are made, if and only if no hint is misread
and the part of the last frame is at least as long as the last chunk. -/
theorem truncationDetected_iff (source : CutSource C) :
    source.TruncationDetected ↔
      ¬ source.Misread ∧ lastChunkLength source.upstream.script ≤ source.cut.length :=
  ⟨lastChunk_le_of_truncationDetected, fun h => truncationDetected_of_lastChunk_le h.1 h.2⟩

/-- The zstd frame of the text `a`: magic number, a header for one byte of content in a
single segment, and one raw block, the last. -/
def letterFrame : Frame Byte Byte where
  encoded := [0x28, 0xB5, 0x2F, 0xFD, 0x20, 0x01, 0x09, 0x00, 0x00, 0x61]
  content := [0x61]

/-- The format that has this frame only. -/
def letterTable : ZstdTable where
  frames := [letterFrame]
  encoded_ne_nil := by simp [letterFrame]
  prefix_free := by simp
  skippable_content := by
    intro f hf hskip
    rw [List.mem_singleton.mp hf] at hskip
    exact absurd hskip (by decide)
  skippable_length := by
    intro f hf hskip
    rw [List.mem_singleton.mp hf] at hskip
    exact absurd hskip (by decide)

/-- The frame and the first half of a second one, in one chunk. -/
def letterScript : List (Option (List Byte)) :=
  [some (letterFrame.encoded ++ letterFrame.encoded.take 5)]

/-- The source that supplies them. -/
def letterSource : CutSource letterTable.contract where
  frames := [letterFrame, letterFrame]
  upstream := ⟨letterScript, fun _ => 0⟩
  frames_valid := by
    intro f hf
    exact List.mem_singleton.mpr (by simpa using hf)
  supplied_front := ⟨letterFrame.encoded.drop 5, by decide⟩
  chunk_le := by
    intro chunk hchunk
    rw [Option.some.inj (List.mem_singleton.mp hchunk)]
    decide
  whole := [letterFrame]
  last := letterFrame
  cut := letterFrame.encoded.take 5
  frames_eq := rfl
  supplied_eq := by decide
  cut_front := List.take_prefix _ _
  cut_ne_nil := by decide
  cut_ne_last := by decide
  ends_last := by
    intro before after hscript
    have hscript' : letterScript = before ++ none :: after := hscript
    have hmem : none ∈ letterScript := by
      rw [hscript']
      exact List.mem_append_right _ List.mem_cons_self
    exact absurd hmem (by decide)

/-- Not every truncation is detected: the second frame begins in the chunk that ended
the first one, and its truncation is reported as the end of the stream. -/
theorem not_truncationDetected_letterSource : ¬ letterSource.TruncationDetected :=
  fun hdetected => absurd (lastChunk_le_of_truncationDetected hdetected).2 (by decide)

end ZstdJni.InputStream
