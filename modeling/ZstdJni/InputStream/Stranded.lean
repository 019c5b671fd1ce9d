/-
# The run to a stranded frame

A run that accounts for everything comes to the end of the script, so it passes every
position at which a hint is misread.  A run of reads longer than all that is left, with
more input always said to be available, comes to a stranded frame: no call completes more
than one frame, so one call begins with this frame.  It decodes what was left over of the
frame, asks for more, and meets the end of the input.

Continuous mode therefore loses nothing on exactly the sources without such a position and
without a stranded frame.
-/

import Mathlib.Data.List.Induction
import ZstdJni.InputStream.Continuous

namespace ZstdJni.InputStream

open ZstdJni.Foundation ZstdJni.Native

variable {σ : Type} {D : Decoder σ Byte Byte} {C : DStreamContract D}
variable {source : Source C} {self : State σ} {g : Ghost}
variable {offset dstSize : ℕ}

/-- A run of enough reads that accounts for everything comes to the end of the script. -/
theorem Resumes.exists_end (R : Decoder.Prompt C.conforms) (hresumes : Resumes source self g)
    (hcontinuous : self.isContinuous = true) {calls : List Call}
    (hreads : ∀ call ∈ calls, call.Valid ∧ call.IsRead) {left rest : List Byte}
    (haccounts : AccountsAll D self left calls rest)
    (hcount : self.upstream.script.length + g.left.length < calls.length) :
    ∃ next after, next.upstream.script = [] ∧ Inv source (State.drained next) after := by
  induction calls generalizing self g left with
  | nil => exact absurd hcount (Nat.not_lt_zero _)
  | cons call calls ih =>
      obtain ⟨hvalid, hread⟩ := hreads call List.mem_cons_self
      obtain _ | ⟨hends, haccount, hrest⟩ := haccounts
      obtain ⟨ended, hends', hcases⟩ :=
        hresumes.call_progress_or_loses R hcontinuous hvalid hread
      obtain rfl := hends.unique hends'
      rcases hcases with ⟨after, hprogress⟩ | ⟨hloses, -⟩
      · have hscript := hprogress.script_le
        have hleft := hprogress.accounts.length_le
        have hreads' : ∀ call ∈ calls, call.Valid ∧ call.IsRead :=
          fun call hmem => hreads call (List.mem_cons_of_mem _ hmem)
        rw [List.length_cons] at hcount
        rcases hprogress.moves with hless | hless | ⟨hnil, -, hinv⟩
        · exact ih hprogress.resumes hprogress.continuous hreads' hrest (by omega)
        · exact ih hprogress.resumes hprogress.continuous hreads' hrest (by omega)
        · exact ⟨_, after, hnil, hinv⟩
      · exact absurd haccount (hloses _ _)

/-- At the end of the script every misread position was passed. -/
theorem Core.not_misread_of_end (hcore : Core source self.drained g)
    (hscript : self.upstream.script = []) : ¬ source.Misread := by
  rintro ⟨before, hbefore, hmisread⟩
  have hless := hcore.clean before hbefore hmisread
  have hwhole : source.upstream.script = g.answered ++ self.upstream.script := hcore.script_eq
  rw [hscript, List.append_nil] at hwhole
  have hpending : self.drained.pending = [] := window_self _ _
  have hsupplied := hcore.length_supplied
  rw [hpending, List.length_nil] at hsupplied
  obtain ⟨more, hmore⟩ := hbefore
  rw [← hwhole, ← hmore, supplied_append, List.length_append] at hsupplied
  omega

/-- A script whose answers behind some point supply bytes has its last chunk there. -/
theorem lastChunkLength_append_le (script : List (Option (List Byte)))
    {more : List (Option (List Byte))} (hmore : supplied more ≠ []) :
    lastChunkLength (script ++ more) ≤ (supplied more).length := by
  induction more using List.reverseRecOn with
  | nil => exact absurd rfl hmore
  | append_singleton more answer ih =>
      rw [← List.append_assoc]
      by_cases hempty : answer.getD [] = []
      · have hsame : supplied (more ++ [answer]) = supplied more := by simp [hempty]
        rw [lastChunkLength_append_empty hempty, hsame]
        exact ih (hsame ▸ hmore)
      · obtain ⟨chunk, rfl⟩ : ∃ chunk, answer = some chunk := by
          cases answer with
          | none => exact absurd rfl hempty
          | some chunk => exact ⟨chunk, rfl⟩
        have hchunk : chunk ≠ [] := hempty
        rw [lastChunkLength_append_chunk hchunk]
        simp

namespace Stranding

variable {R : Decoder.Prompt C.conforms} (S : Stranding R source)

theorem frame_valid : C.IsFrame S.frame :=
  source.frames_valid S.frame (by simp [S.frames_eq])

theorem taken_pos : 0 < S.taken.length := by
  by_contra hnone
  have hdecodes := S.decodes
  rw [Nat.eq_zero_of_not_pos hnone, R.ready_zero S.frame_valid] at hdecodes
  exact Nat.lt_irrefl _ hdecodes

/-- The stranded frame is still to come, or it comes next. -/
def Ahead (g : Ghost) : Prop :=
  g.past.length < S.past.length ∨
    (g.past.length = S.past.length ∧ g.taken = [] ∧ g.given = [])

variable {S}

theorem Ahead.moves (hless : g.past.length < S.past.length) {after : Ghost}
    (hmoves : g.Moves after) :
    S.Ahead after := by
  rcases hmoves with hsame | ⟨f, hmore, htaken, hgiven⟩
  · exact .inl (hsame ▸ hless)
  · have hlength := congrArg List.length hmore
    rw [List.length_append, List.length_singleton] at hlength
    rcases Nat.lt_or_ge after.past.length S.past.length with hlt | hge
    · exact .inl hlt
    · exact .inr ⟨by omega, htaken, hgiven⟩

/-- As long as the frame is ahead, the decompressor has taken nothing of it. -/
theorem Ahead.pos_le (hahead : S.Ahead g) (hcore : Core source self g) :
    g.pos ≤ (encodings S.past).length := by
  have hframes := hcore.frames_eq.symm.trans S.frames_eq
  rcases hahead with hless | ⟨hsame, htaken, -⟩
  · obtain ⟨gap, hpast, htodo⟩ | ⟨gap, hpast, -⟩ := List.append_eq_append_iff.mp hframes
    · cases gap with
      | nil =>
          rw [List.append_nil] at hpast
          rw [hpast] at hless
          exact absurd hless (Nat.lt_irrefl _)
      | cons f gap =>
          have hfits := (hcore.fits_cons htodo).1.length_le
          rw [hpast, Ghost.pos, encodings_append, encodings_cons, List.length_append,
            List.length_append]
          omega
    · rw [hpast, List.length_append] at hless
      omega
  · rw [Ghost.pos, (List.append_inj hframes hsame).1, htaken]
    exact Nat.le_refl _

/-- So the script has not come to its end. -/
theorem Ahead.script_ne_nil (hahead : S.Ahead g) (hcore : Core source self.drained g) :
    self.upstream.script ≠ [] := by
  intro hnil
  have hpos := hahead.pos_le hcore
  have hpending : self.drained.pending = [] := window_self _ _
  have hsupplied := hcore.length_supplied
  have hwhole : source.upstream.script = g.answered ++ self.upstream.script := hcore.script_eq
  rw [hnil, List.append_nil, S.script_eq] at hwhole
  rw [← hwhole, hpending, supplied_append, S.supplied_eq] at hsupplied
  simp only [List.length_append, List.length_nil] at hsupplied
  have hsome := S.taken_pos
  omega

/-- Where the frame comes next, what is at hand is what was supplied of it, and no more comes
before the end of the input is reported. -/
theorem at_border (hinv : Inv source self g) (hsame : g.past.length = S.past.length)
    (htaken : g.taken = []) :
    self.pending.length = S.taken.length ∧
      ∃ gap, S.answered = g.answered ++ gap ∧ supplied gap = [] := by
  have hpast := (List.append_inj (hinv.frames_eq.symm.trans S.frames_eq) hsame).1
  have hcount : (supplied g.answered).length = (encodings S.past).length + self.pending.length := by
    rw [hinv.length_supplied, Ghost.pos, hpast, htaken]
    rfl
  have htotal : (supplied S.answered).length = (encodings S.past).length + S.taken.length := by
    rw [S.supplied_eq, List.length_append]
  have hanswered : g.answered <+: source.upstream.script := ⟨_, hinv.script_eq.symm⟩
  have hbefore : S.answered <+: source.upstream.script := ⟨_, S.script_eq.symm⟩
  have hsome := S.taken_pos
  rcases List.prefix_or_prefix_of_prefix hanswered hbefore with ⟨gap, hgap⟩ | ⟨more, hmore⟩
  · have hlength := congrArg (fun script => (supplied script).length) hgap
    simp only [supplied_append, List.length_append] at hlength
    by_cases hnone : supplied gap = []
    · rw [hnone, List.length_nil] at hlength
      exact ⟨by omega, gap, hgap.symm, hnone⟩
    · have hlast := lastChunkLength_append_le g.answered hnone
      have hbehind := S.behind
      rw [hgap] at hlast
      omega
  · have hlength := congrArg (fun script => (supplied script).length) hmore
    simp only [supplied_append, List.length_append] at hlength
    have hborder := hinv.border S.answered hbefore (by
      rw [Ghost.pos, hpast, htaken, htotal, List.length_nil]
      omega)
    have hnone : supplied more = [] := List.length_eq_zero_iff.mp (by omega)
    have hpending : self.pending ≠ [] := List.length_pos_iff.mp (by omega)
    obtain rfl | ⟨earlier, reply, rfl⟩ := List.eq_nil_or_concat' more
    · rw [List.append_nil] at hmore
      exact ⟨by omega, [], by rw [hmore, List.append_nil], rfl⟩
    · rw [supplied_append, List.append_eq_nil_iff] at hnone
      refine absurd ?_ (hinv.held hpending (S.answered ++ earlier) reply ?_)
      · simpa using hnone.2
      · rw [← hmore, List.append_assoc]

end Stranding

/-- A call that has decoded what was left over from the end of an earlier frame, with more
input said to be available. -/
structure Waiting (offset dstSize : ℕ) (st : ReadState σ) : Prop where
  running : st.self.dstPos < dstSize ∧ st.lastDstPos < st.self.dstPos
  produced : st.self.dstPos ≠ offset
  needRead : st.self.needRead = true
  finished : st.self.frameFinished = true
  available : st.self.upstream.avail = fun _ => 1

theorem Waiting.asks {st : ReadState σ} (hwaiting : Waiting offset dstSize st) :
    0 < st.self.upstream.avail 0 ∨ st.self.dstPos = offset := by
  rw [hwaiting.available]
  exact .inl Int.one_pos

/-- It loses what it has decoded if the next answer is the end of the input. -/
theorem Waiting.loses_of_end {st : ReadState σ} (hwaiting : Waiting offset dstSize st)
    (hread : st.self.upstream.available.2.read.1 = none) :
    ∃ fuel ended, iterate (readBody D offset dstSize) fuel st = some ended ∧
      ended.Loses offset := by
  rcases hreply : st.self.upstream.available.2.read with ⟨reply, up⟩
  obtain rfl : reply = none := by rwa [hreply] at hread
  refine ⟨1, ⟨.returned (-1), st.dst, { st.self with upstream := up, srcPos := 0, srcSize := 0 }⟩,
    ?_, .inr ⟨rfl, hwaiting.produced⟩⟩
  simp only [iterate, readBody, readTurn_of_needRead hwaiting.running hwaiting.needRead,
    if_pos hwaiting.asks, fetch, hreply, hwaiting.finished, if_true]

/-- It also does if answers without bytes come in between. -/
theorem Waiting.loses {gap rest : List (Option (List Byte))} (hgap : supplied gap = [])
    (hends : rest.head?.join = none) {st : ReadState σ} (hwaiting : Waiting offset dstSize st)
    (hscript : st.self.upstream.script = gap ++ rest) :
    ∃ fuel ended, iterate (readBody D offset dstSize) fuel st = some ended ∧
      ended.Loses offset := by
  induction gap generalizing st with
  | nil =>
      refine hwaiting.loses_of_end ?_
      rw [List.nil_append] at hscript
      simp only [Upstream.available, Upstream.read, hscript]
      cases rest with
      | nil => rfl
      | cons answer rest => exact hends
  | cons answer gap ih =>
      rw [supplied_cons, List.append_eq_nil_iff] at hgap
      cases answer with
      | none => exact hwaiting.loses_of_end (by simp [Upstream.available, Upstream.read, hscript])
      | some chunk =>
          obtain rfl : chunk = [] := hgap.1
          let up : Upstream := ⟨gap ++ rest, fun n => st.self.upstream.avail (n + 1)⟩
          have hreply : st.self.upstream.available.2.read = (some [], up) := by
            simp [Upstream.available, Upstream.read, hscript, up]
          have hnext : Waiting offset dstSize
              { st with self := { st.self with upstream := up, srcPos := 0, srcSize := 0 } } :=
            ⟨hwaiting.running, hwaiting.produced, hwaiting.needRead, hwaiting.finished,
              by simp [up, hwaiting.available]⟩
          obtain ⟨fuel, ended, hrun, hloses⟩ := ih hgap.2 hnext rfl
          refine ⟨fuel + 1, ended, ?_, hloses⟩
          rw [iterate, readBody, readTurn_of_needRead hwaiting.running hwaiting.needRead,
            if_pos hwaiting.asks]
          simp only [fetch, hreply]
          exact hrun

/-- That more input is always said to be available is kept by every call. -/
theorem available_stable : Stable D (fun self => self.upstream.avail = fun _ => 1)
    fun _ st => st.self.upstream.avail = fun _ => 1 := by
  apply Stable.of_parts
  · exact fun _ _ h => h
  · intro self h
    simp [Upstream.available, h]
  · intro offset self h
    rcases self with ⟨stream, ⟨_ | ⟨_ | _ | _, rest⟩, avail⟩, src, dstPos, srcPos,
      srcSize, needRead, isContinuous, frameFinished, isClosed⟩
    · simp only [fetch, Upstream.read]
      split_ifs <;> exact h
    · simp only [fetch, Upstream.read]
      split_ifs <;> exact h
    · exact h
    · exact h
  · intro offset dstSize self dst h
    rw [decodeTurn_eq rfl]
    split_ifs <;> exact h

section Urgent

variable {R : Decoder.Prompt C.conforms} {S : Stranding R source} {len : ℕ}

/-- A call that starts where the stranded frame comes next throws, or decodes what is at hand of
the frame. -/
theorem Stranding.first_turn (hinv : Inv source self g) (hsame : g.past.length = S.past.length)
    (htaken : g.taken = []) (hgiven : g.given = []) (havail : self.upstream.avail = fun _ => 1)
    (hlen : g.left.length < len) (dst : List Byte) :
    (∃ ended, readTurn D 0 len (readStart self dst 0) = .leave ended ∧ ended.Loses 0) ∨
      ∃ next, readTurn D 0 len (readStart self dst 0) = .again next ∧ Waiting 0 len next ∧
        next.self.upstream = self.upstream := by
  obtain ⟨hpast, htodo⟩ := List.append_inj (hinv.frames_eq.symm.trans S.frames_eq) hsame
  obtain ⟨hpending, gap, hanswered, hgap⟩ := Stranding.at_border (S := S) hinv hsame htaken
  have hsome := S.taken_pos
  have hne : self.pending ≠ [] := List.length_pos_iff.mp (by omega)
  have hneed : self.needRead = false :=
    Bool.eq_false_iff.mpr fun hneed => hne (hinv.read_empty hneed)
  have hfinished : self.frameFinished = true := by
    have hbehind := S.behind
    rw [hanswered, lastChunkLength_append_of_supplied_nil hgap] at hbehind
    exact hinv.finished_iff.mpr (.inl (by rw [htaken, hpending, List.length_nil]; omega))
  generalize hstart : readStart self dst 0 = start
  have hbegun : Inv source start.self g :=
    hstart ▸ (hinv.loopInv_start dst (Nat.zero_le len)).inv
  have hpos : start.self.dstPos = 0 := by rw [← hstart]; rfl
  have hrest : start.self.pending = self.pending := by rw [← hstart]; rfl
  have hroom : 0 < len := by omega
  have hidle := hbegun.idle_le
  have hanswers := hbegun.toCore.answers htodo hroom hidle
  have hvalid := S.frame_valid
  have hfits := hbegun.toCore.fits_cons htodo
  have hincomplete := S.incomplete
  have hret : (nextReply D start.self len).ret ≠ 0 :=
    hanswers.ret_ne_zero (by rwa [htaken, List.nil_append, hrest, hpending])
  have hemitted : (nextReply D start.self len).emitted.length < len := by
    have hcontent := hanswers.content_front.length_le
    rw [hgiven, List.nil_append] at hcontent
    rw [Ghost.left, htodo, hgiven, contents_cons, List.length_nil, List.drop_zero,
      List.length_append] at hlen
    omega
  have hall := (hanswers.greedy hret hemitted).1
  have hproduced : 0 < (nextReply D start.self len).emitted.length := by
    have hflushed := R.flushed hbegun.place hvalid (hbegun.toCore.input_front htodo) hfits.1 hfits.2
      hroom (by simp only [patience]; omega) hret hemitted
    have hdecodes := S.decodes
    rw [htaken, hgiven, List.nil_append, List.nil_append, List.length_take] at hflushed
    change R.ready S.frame (min (nextReply D start.self len).consumed _) ≤
      (nextReply D start.self len).emitted.length at hflushed
    rw [hall, hrest, hpending, Nat.min_self] at hflushed
    exact Nat.lt_of_lt_of_le hdecodes hflushed
  have hrunning : start.self.dstPos < len ∧ start.lastDstPos < start.self.dstPos := by
    rw [← hstart]
    simp only [readStart]
    omega
  have hnoRead : start.self.needRead = false := by rw [← hstart]; exact hneed
  rw [readTurn, if_pos hrunning, if_neg (by simp [hnoRead]),
    decodeTurn_eq (show len = len - start.self.dstPos by omega)]
  split_ifs with herror hzero
  · exact .inl ⟨_, rfl, .inl ⟨_, rfl⟩⟩
  · exact absurd ((jint_eq_zero_iff (hbegun.toCore.ret_lt htodo hroom hidle)).mp hzero) hret
  · refine .inr ⟨_, rfl, ⟨?_, ?_, ?_, ?_, ?_⟩, ?_⟩
    · simp only [State.inFrame, called]
      omega
    · simp only [State.inFrame, called]
      omega
    · refine decide_eq_true ?_
      simp only [called]
      omega
    · rw [← hstart]
      exact hfinished
    · rw [← hstart]
      exact havail
    · rw [← hstart]
      rfl

/-- What a run of long reads, with more input always said to be available, keeps while the
stranded frame is ahead. -/
def Stranding.Heads (S : Stranding R source) (self : State σ) (g : Ghost) : Prop :=
  S.Ahead g ∧ self.upstream.avail = fun _ => 1

/-- `readInternal` comes no further than the stranded frame, or loses output. -/
theorem Stranding.readInternal_meets (hinv : Inv source self g) (hheads : S.Heads self g)
    (hlen : g.left.length < len) {dst : List Byte} (hfits : (len : ℤ) ≤ dst.length) {fuel : ℕ}
    (hfuel : limit source + len + 1 < fuel) :
    ∃ ended, readInternal D fuel dst 0 len self = some ended ∧
      (Finish S.Heads source self g dst (0 : ℤ).toNat (0 + (len : ℤ)).toNat ended ∨
        ended.Loses 0) := by
  obtain ⟨hahead, havail⟩ := hheads
  have hpositive : (0 : ℤ) < len := by omega
  have hbounds := outOfBounds_eq_false (Int.le_refl 0) hpositive (by simpa using hfits)
  obtain ⟨ended, hrun, hfinish⟩ := hinv.readInternal_finish (D := D) dst (Int.le_refl 0) hpositive
    (by simpa using hfits) hfuel
  refine ⟨ended, hrun, ?_⟩
  rcases hahead with hless | ⟨hsame, htaken, hgiven⟩
  · have hkept := available_stable.readInternal_inv havail hrun
    exact .inl (hfinish.of_later rfl rfl (Nat.le_refl _) (Nat.le_refl _)
      fun after hmoves => ⟨Ahead.moves hless hmoves, hkept⟩)
  · right
    have hloses : ∃ fuel ended, readInternal D fuel dst 0 len self = some ended ∧
      ended.Loses 0 := by
      simp only [readInternal_eq hinv.is_open hbounds, Int.zero_add, Int.toNat_natCast]
      rcases Stranding.first_turn (D := D) hinv hsame htaken hgiven havail hlen dst with
        ⟨ended, hturn, hloses⟩ | ⟨next, hturn, hwaiting, hup⟩
      · refine ⟨1, ended, ?_, hloses⟩
        simp only [iterate, readBody, Int.toNat_zero, hturn]
      · obtain ⟨-, gap, hanswered, hgap⟩ := Stranding.at_border (S := S) hinv hsame htaken
        have hscript : self.upstream.script = gap ++ S.rest := by
          have hwhole := hinv.script_eq.symm.trans S.script_eq
          rw [hanswered, List.append_assoc] at hwhole
          exact List.append_cancel_left hwhole
        obtain ⟨fuel, ended, hrun, hloses⟩ := hwaiting.loses hgap S.ends (hup ▸ hscript)
        refine ⟨fuel + 1, ended, ?_, hloses⟩
        rw [iterate, readBody, Int.toNat_zero, hturn]
        exact hrun
    obtain ⟨fuel', ended', hrun', hloses⟩ := hloses
    rcases Nat.le_total fuel fuel' with hle | hle
    · rw [readInternal_mono hle hrun] at hrun'
      exact Option.some.inj hrun' ▸ hloses
    · rw [readInternal_mono hle hrun'] at hrun
      exact Option.some.inj hrun ▸ hloses

/-- A read of all that is left, and more. -/
def wholeRead (len : ℕ) : Call :=
  .read (List.replicate len 0) 0 len

/-- One such read. -/
theorem Stranding.call_meets (hresumes : Resumes source self g) (hheads : S.Heads self g)
    (hcontinuous : self.isContinuous = true) (hlen : g.left.length < len) :
    ∃ ended, (wholeRead len).Ends D self ended ∧ (ended.Loses 0 ∨
      ∃ after, S.Heads ended.self after ∧ Progress source self g (wholeRead len) ended after) := by
  have hpositive : (0 : ℤ) < len := by omega
  have hfits : (len : ℤ) ≤ (List.replicate len (0 : Byte)).length := by simp
  have hfits' : 0 + (len : ℤ) ≤ (List.replicate len (0 : Byte)).length := by simp
  generalize hfuel : limit source + len + 2 = fuel
  have hmeets {base : State σ} (hinv : Inv source base g) (hbase : S.Heads base g) :=
    Inv.readLoop_meets (D := D) S.Heads (Ended.Loses 0) hinv hbase
      (by
        rintro ended (⟨exception, h⟩ | ⟨h, -⟩) <;> simp [h])
      (fun st before hbefore hkept hleft =>
        S.readInternal_meets hbefore hkept (hleft ▸ hlen) hfits (by omega))
      (show limit source + 1 < fuel by omega)
  have hloop : ∃ ended, readLoop D fuel (List.replicate len 0) 0 len self = some ended ∧
      (Finish S.Heads source self g (List.replicate len 0) (0 : ℤ).toNat
        (0 + (len : ℤ)).toNat ended ∨
        ended.Loses 0) ∧ ended.outcome ≠ .returned 0 := by
    have hopen := hresumes.is_open
    rcases hresumes with hinv | ⟨hneed, hinv⟩
    · exact hmeets hinv hheads
    · rw [readLoop_drained hneed hopen (Int.le_refl 0) hpositive hfits']
      obtain ⟨ended, hrun, hend, hne⟩ := hmeets hinv hheads
      exact ⟨ended, hrun, hend.imp_left fun hfinish =>
        hfinish.of_later rfl rfl (Nat.le_refl _) (Nat.le_refl _) fun _ h => h, hne⟩
  obtain ⟨ended, hrun, hend, hne⟩ := hloop
  refine ⟨ended, .of_run fuel ?_, ?_⟩
  · rw [wholeRead, Call.run, read_eq_readLoop (Int.le_refl 0) hpositive hfits']
    exact hrun
  · rcases hend with hfinish | hloses
    · exact (hfinish.progress_or_loses R hne hcontinuous (Int.le_refl 0) hpositive).symm.imp_left
        And.left
    · exact .inl hloses

/-- A run of such reads does not account for everything. -/
theorem Stranding.not_accountsAll (hresumes : Resumes source self g) (hheads : S.Heads self g)
    (hcontinuous : self.isContinuous = true) (hlen : g.left.length < len) {count : ℕ}
    (hcount : self.upstream.script.length + g.left.length < count) (left rest : List Byte) :
    ¬ AccountsAll D self left (List.replicate count (wholeRead len)) rest := by
  intro haccounts
  induction count generalizing self g left with
  | zero => exact Nat.not_lt_zero _ hcount
  | succ count ih =>
      rw [List.replicate_succ] at haccounts
      obtain _ | ⟨hends, haccount, hrest⟩ := haccounts
      obtain ⟨ended, hends', hcases⟩ :=
        Stranding.call_meets (D := D) hresumes hheads hcontinuous hlen
      obtain rfl := hends.unique hends'
      rcases hcases with hloses | ⟨after, hafter, hprogress⟩
      · have hlost : Ended.Loses (0 : ℤ).toNat _ := hloses
        exact hlost.not_accounts (.read (List.replicate len 0) 0 len) _ _ haccount
      · have hscript := hprogress.script_le
        have hleft := hprogress.accounts.length_le
        rcases hprogress.moves with hless | hless | ⟨hnil, -, hinv⟩
        · exact ih hprogress.resumes hafter hprogress.continuous (by omega) (by omega) _ hrest
        · exact ih hprogress.resumes hafter hprogress.continuous (by omega) (by omega) _ hrest
        · exact hafter.1.script_ne_nil hinv.toCore hnil

end Urgent

/-- Where a source strands a frame, a run of long reads loses output. -/
theorem Source.not_strands {R : Decoder.Prompt C.conforms}
    (hall : ∀ avail reads, (source.withAvail avail).LosesNothing reads) : ¬ source.Strands R := by
  intro hstrands
  obtain ⟨S⟩ := (source.strands_withAvail fun _ => 1).mpr hstrands
  generalize hlen : (contents source.frames).length + 1 = len
  let reads : Reads := ⟨List.replicate (source.upstream.script.length + len) (wholeRead len), by
    intro call hcall
    obtain rfl := List.eq_of_mem_replicate hcall
    exact ⟨⟨Int.le_refl 0, by omega, by simp⟩, trivial⟩⟩
  obtain ⟨rest, haccounts, -⟩ := hall (fun _ => 1) reads
  have hahead : S.Ahead ⟨[], source.frames, [], [], 0, []⟩ :=
    (Nat.eq_zero_or_pos S.past.length).symm.imp_right fun hzero => ⟨hzero.symm, rfl, rfl⟩
  refine Stranding.not_accountsAll (.inl (inv_opened (source.withAvail fun _ => 1) true))
    ⟨hahead, rfl⟩ rfl ?_ ?_ _ _ haccounts
  · simp only [Ghost.left, List.length_nil, List.drop_zero, Source.withAvail]
    omega
  · simp only [Ghost.left, List.length_nil, List.drop_zero, Source.withAvail, Source.opened,
      State.create, State.setContinuous]
    omega

/-- Where a hint is misread, a run that reads everything throws. -/
theorem Source.not_misread (R : Decoder.Prompt C.conforms)
    (hall : ∀ avail reads, (source.withAvail avail).LosesNothing reads) : ¬ source.Misread := by
  generalize hcount : source.upstream.script.length + (contents source.frames).length + 1 = count
  let reads : Reads := ⟨List.replicate count .readByte, by
    intro call hcall
    obtain rfl := List.eq_of_mem_replicate hcall
    exact ⟨trivial, trivial⟩⟩
  obtain ⟨rest, haccounts, -⟩ := hall source.upstream.avail reads
  obtain ⟨next, after, hscript, hinv⟩ := Resumes.exists_end R
    (.inl (inv_opened (source.withAvail source.upstream.avail) true)) rfl reads.2 haccounts (by
      simp only [Ghost.left, List.length_nil, List.drop_zero, Source.withAvail, Source.opened,
        State.create, State.setContinuous, reads, List.length_replicate]
      omega)
  exact hinv.toCore.not_misread_of_end hscript

/-- Continuous mode loses nothing, whatever is read and whatever `available` answers, exactly
if no hint is misread and no frame is stranded. -/
theorem losesNothing_iff_not_strands (R : Decoder.Prompt C.conforms) (source : Source C) :
    (∀ avail reads, (source.withAvail avail).LosesNothing reads) ↔
      ¬ source.Misread ∧ ¬ source.Strands R := by
  constructor
  · exact fun hall => ⟨source.not_misread R hall, source.not_strands hall⟩
  · rintro ⟨hclean, hstrands⟩ avail reads
    exact Resumes.accountsAll R (.inl (inv_opened (source.withAvail avail) true)) hclean
      (mt (source.strands_withAvail avail).mp hstrands) rfl reads.2

/-- A zstd frame of the text `ab`: magic number, a header for two bytes of content in a
single segment, and two raw blocks of one byte each. -/
def pairFrame : Frame Byte Byte where
  encoded := [0x28, 0xB5, 0x2F, 0xFD, 0x20, 0x02, 0x08, 0x00, 0x00, 0x61, 0x09, 0x00, 0x00, 0x62]
  content := [0x61, 0x62]

/-- The first byte can be decoded once the first block was taken. -/
def pairPlan : Schedule Byte Byte where
  frame := pairFrame
  ready taken := if taken < 10 then 0 else if taken < 14 then 1 else 2
  ready_zero := rfl
  ready_mono := by
    intro taken more hle
    simp only
    split_ifs <;> omega
  ready_all := rfl

/-- The decompressor of the format that has this frame only. -/
def pairContract : DStreamContract pairPlan.decoder where
  IsFrame f := f = pairFrame
  encoded_ne_nil := by
    rintro f rfl
    simp [pairFrame]
  skippable_content := by
    rintro f rfl hskip
    exact absurd hskip (by decide)
  skippable_length := by
    rintro f rfl hskip
    exact absurd hskip (by decide)
  conforms := pairPlan.conforms patience
  fresh := (0, 0)
  place_fresh := ⟨rfl, Nat.zero_le _⟩
  skippable_hint := by
    intro s taken given idle f input after room _ hf _ _ _ _ _ hskip
    rw [hf] at hskip
    exact absurd hskip (by decide)
  small_hint := by
    intro s taken given idle f input after room _ _ _ _ _ _ _ _
    simp only [Schedule.decoder]
    split
    · exact (show 0 < 2 ^ 31 by decide)
    · exact (show 1 < 2 ^ 31 by decide)

/-- One frame and the first block of a second one come in one chunk, then the wrapped stream
has nothing for the moment, though it claims that data is available. -/
def pairSource : Source pairContract where
  frames := [pairFrame, pairFrame]
  upstream := ⟨[some (pairFrame.encoded ++ pairFrame.encoded.take 10), none,
    some (pairFrame.encoded.drop 10)], fun _ => 1⟩
  frames_valid := by
    intro f hf
    exact (show f = pairFrame by simpa using hf)
  supplied_front := ⟨[], by decide⟩
  chunk_le := by
    intro chunk hchunk
    simp only [List.mem_cons, Option.some.injEq, reduceCtorEq, List.not_mem_nil, or_false,
      false_or] at hchunk
    rcases hchunk with rfl | rfl <;> decide

/-- The decompressor emits what is ready. -/
def pairPrompt : Decoder.Prompt pairContract.conforms :=
  pairPlan.prompt patience

/-- The second frame is stranded. -/
theorem strands_pairSource : pairSource.Strands pairPrompt :=
  ⟨{ answered := [some (pairFrame.encoded ++ pairFrame.encoded.take 10)]
     rest := [none, some (pairFrame.encoded.drop 10)]
     past := [pairFrame]
     frame := pairFrame
     todo := []
     taken := pairFrame.encoded.take 10
     script_eq := rfl
     ends := rfl
     frames_eq := rfl
     supplied_eq := rfl
     incomplete := by decide
     behind := by decide
     decodes := by decide }⟩

/-- Two reads into arrays of ten bytes. -/
def pairReads : Reads :=
  ⟨[.read (List.replicate 10 0) 0 10, .read (List.replicate 10 0) 0 10], by
    intro call hcall
    obtain rfl : call = .read (List.replicate 10 0) 0 10 := by simpa using hcall
    exact ⟨⟨by decide, by decide, by decide⟩, trivial⟩⟩

/-- The object after the first read: the flag is set, and the first block of the second frame
is in the buffer. -/
def pairMid : State (ℕ × ℕ) where
  stream := (0, 0)
  upstream := ⟨[none, some (pairFrame.encoded.drop 10)], fun _ => 1⟩
  src := overwrite (List.replicate srcBuffSize 0) 0
    (pairFrame.encoded ++ pairFrame.encoded.take 10)
  dstPos := 2
  srcPos := 14
  srcSize := 24
  needRead := false
  isContinuous := true
  frameFinished := true
  isClosed := false

/-- The object after the second read, with the first byte of the second frame in the array. -/
def pairLast : State (ℕ × ℕ) :=
  { pairMid with
    stream := (10, 1)
    upstream := ⟨[some (pairFrame.encoded.drop 10)], fun _ => 1⟩
    dstPos := 1
    srcPos := 0
    srcSize := 0
    needRead := true }

/-- The second read answers -1 although it has written the next byte of the content. -/
theorem not_losesNothing_pairSource : ¬ pairSource.LosesNothing pairReads := by
  rintro ⟨rest, haccounts, -⟩
  have hfirst : (Call.read (List.replicate 10 0) 0 10).Ends pairPlan.decoder pairSource.continuous
      ⟨.returned 2, overwrite (List.replicate 10 0) 0 [0x61, 0x62], pairMid⟩ := .of_run 3 rfl
  obtain _ | ⟨hends, -, hrest⟩ := haccounts
  obtain rfl := hends.unique hfirst
  obtain _ | ⟨hends, haccount, -⟩ := hrest
  have hsecond : (Call.read (List.replicate 10 0) 0 10).Ends pairPlan.decoder pairMid
      ⟨.returned (-1), overwrite (List.replicate 10 0) 0 [0x61], pairLast⟩ := .of_run 3 rfl
  obtain rfl := hends.unique hsecond
  exact Ended.Loses.not_accounts (.inr ⟨rfl, by decide⟩)
    (.read (List.replicate 10 0) 0 10) _ _ haccount

end ZstdJni.InputStream
