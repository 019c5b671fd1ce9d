/-
# Continuous mode

With `setContinuous(true)` an end of the input is not final: a call answers with what it
has produced, or with -1 if it has produced nothing, and a later call goes on.  The code
does so only if `frameFinished` is cleared.  The flag is still set inside a frame that
began in the bytes left over from an earlier one.  A call that decodes what was left over,
is told that more input is available and then meets the end of the input answers -1,
although its output is in the array.

Nothing is lost, whatever is read and whatever `available` answers, exactly if no end of
the input is met at such a place, and no answer ends where a hint is misread.
-/

import ZstdJni.Foundation.EagerDecoder
import ZstdJni.InputStream.Stable
import ZstdJni.InputStream.Truncated

namespace ZstdJni.InputStream

open ZstdJni.Foundation ZstdJni.Native

variable {σ : Type} {D : Decoder σ Byte Byte} {C : DStreamContract D}
variable {source : Source C} {self : State σ} {g : Ghost}
variable {dst : List Byte} {offset dstSize : ℕ}

/-- The same frames and answers, with other answers of `available`. -/
def Source.withAvail (source : Source C) (avail : ℕ → ℤ) : Source C :=
  { source with upstream := { source.upstream with avail := avail } }

/-- A frame that output can be lost of.  The wrapped stream reports the end of the input inside
of it, all that was supplied of it came in the last chunk, behind the end of the frame in front
of it, and some of its content can be decoded from that. -/
structure Stranding (R : Decoder.Prompt C.conforms) (source : Source C) where
  /-- The answers in front of the end of the input, and the ones from there on. -/
  answered : List (Option (List Byte))
  rest : List (Option (List Byte))
  /-- The frames in front of the one that is cut, that one, and those behind it. -/
  past : List (Frame Byte Byte)
  frame : Frame Byte Byte
  todo : List (Frame Byte Byte)
  /-- What was supplied of the frame. -/
  taken : List Byte
  script_eq : source.upstream.script = answered ++ rest
  ends : rest.head?.join = none
  frames_eq : source.frames = past ++ frame :: todo
  supplied_eq : supplied answered = encodings past ++ taken
  incomplete : taken.length < frame.encoded.length
  behind : taken.length < lastChunkLength answered
  decodes : 0 < R.ready frame taken.length

/-- The source strands some frame. -/
def Source.Strands (source : Source C) (R : Decoder.Prompt C.conforms) : Prop :=
  Nonempty (Stranding R source)

/-- Which frames are stranded does not depend on what `available` answers. -/
theorem Source.strands_withAvail {R : Decoder.Prompt C.conforms} (avail : ℕ → ℤ) :
    (source.withAvail avail).Strands R ↔ source.Strands R :=
  ⟨fun ⟨S⟩ => ⟨{ S with }⟩, fun ⟨S⟩ => ⟨{ S with }⟩⟩

/-- Where a stream stands between two calls.  A call that answered with what it had produced
at the end of the input leaves a number in `srcSize` that the next read replaces. -/
def Resumes (source : Source C) (st : State σ) (g : Ghost) : Prop :=
  Inv source st g ∨ st.needRead = true ∧ Inv source st.drained g

theorem Resumes.is_open (hresumes : Resumes source self g) : self.isClosed = false := by
  rcases hresumes with hinv | ⟨-, hinv⟩
  · exact hinv.is_open
  · exact hinv.is_open

/-- The first turn of a call that needs input does not look at the buffer. -/
theorem readTurn_drained (hneed : self.needRead = true) (hwindow : offset < dstSize) :
    readTurn D offset dstSize (readStart self dst offset) =
      readTurn D offset dstSize (readStart self.drained dst offset) := by
  have hrunning (other : State σ) : (readStart other dst offset).self.dstPos < dstSize ∧
      (readStart other dst offset).lastDstPos < (readStart other dst offset).self.dstPos := by
    simp only [readStart]
    omega
  rw [readTurn_of_needRead (hrunning self) hneed,
    readTurn_of_needRead (hrunning self.drained) hneed,
    if_pos (.inr rfl), if_pos (.inr rfl)]
  simp only [fetch, readStart, State.drained]
  rcases self.upstream.available.2.read with ⟨_ | _ | _, up⟩ <;> rfl

/-- Neither does the loop `while (result == 0)`. -/
theorem readLoop_drained (hneed : self.needRead = true) (hopen : self.isClosed = false)
    {offset len : ℤ} (hoffset : 0 ≤ offset) (hlen : 0 < len) (hfits : offset + len ≤ dst.length)
    (fuel : ℕ) : readLoop D fuel dst offset len self =
      readLoop D fuel dst offset len self.drained := by
  have hbounds := outOfBounds_eq_false hoffset hlen hfits
  have hcall (fuel : ℕ) : readInternal D fuel dst offset len self =
      readInternal D fuel dst offset len self.drained := by
    have hturn : readBody D offset.toNat (offset + len).toNat (readStart self dst offset.toNat) =
        readBody D offset.toNat (offset + len).toNat (readStart self.drained dst offset.toNat) :=
      congrArg some (readTurn_drained hneed (by omega))
    rw [readInternal_eq hopen hbounds,
      readInternal_eq (show self.drained.isClosed = false from hopen) hbounds]
    cases fuel with
    | zero => rfl
    | succ fuel => rw [iterate, iterate, hturn]
  rw [readLoop_eq, readLoop_eq]
  cases fuel with
  | zero => rfl
  | succ fuel =>
      simp only [iterate, retryBody, if_true]
      rw [hcall]

/-- The loop `while (result == 0)` between any two calls. -/
theorem Resumes.readLoop_finish (hresumes : Resumes source self g) (dst : List Byte)
    {offset len : ℤ} {fuel : ℕ} (hoffset : 0 ≤ offset) (hlen : 0 < len)
    (hfits : offset + len ≤ dst.length) (hfuel : limit source + len.toNat + 1 < fuel) :
    ∃ ended, readLoop D fuel dst offset len self = some ended ∧
      Finish (fun _ _ => True) source self g dst offset.toNat (offset + len).toNat ended ∧
      ended.outcome ≠ .returned 0 := by
  have hopen := hresumes.is_open
  rcases hresumes with hinv | ⟨hneed, hinv⟩
  · exact hinv.readLoop_finish dst offset len fuel hoffset hlen hfits hfuel
  · rw [readLoop_drained hneed hopen hoffset hlen hfits]
    obtain ⟨ended, hrun, hfinish, hne⟩ :=
      hinv.readLoop_finish (D := D) dst offset len fuel hoffset hlen hfits hfuel
    exact ⟨ended, hrun, hfinish.of_later rfl rfl (Nat.le_refl _) (Nat.le_refl _) fun _ h => h, hne⟩

/-- Where a call answers -1 with output in the array, a frame is stranded. -/
theorem Inv.strands (R : Decoder.Prompt C.conforms) (hinv : Inv source self.drained g)
    (hneed : self.needRead = true) (hend : AtEnd self g) (hfinished : self.frameFinished = true)
    (hgiven : g.given ≠ []) : source.Strands R := by
  have hinside : g.Inside := .inr hgiven
  obtain ⟨f, todo, htodo⟩ := List.exists_cons_of_ne_nil (hinv.toCore.todo_ne_nil (.inr hinside))
  have hfits := hinv.toCore.fits_cons htodo
  have hpending : self.drained.pending = [] := window_self _ _
  have hframes := hinv.frames_eq
  rw [htodo] at hframes
  have hsupplied : supplied g.answered = encodings g.past ++ g.taken := by
    rw [hinv.position, hpending, List.append_nil]
  have hincomplete : g.taken.length < f.encoded.length :=
    Nat.lt_of_le_of_ne hfits.1.length_le fun hlength =>
      hinv.read_incomplete hneed f (by simp [htodo]) (hfits.1.eq_of_length hlength)
  have hbehind : g.taken.length < lastChunkLength g.answered := by
    have hflag := hinv.finished_iff.mp hfinished
    simpa [hpending, hinside] using hflag
  have hshort : C.conforms.Short f self.drained.stream g.taken g.given :=
    hinv.short f (by simp [htodo]) (by rwa [hpending, List.append_nil])
  have hdecodes : 0 < R.ready f g.taken.length :=
    Nat.lt_of_lt_of_le (List.length_pos_iff.mpr hgiven)
      (R.given_le (hinv.toCore.head_valid htodo) hshort)
  have hscript : source.upstream.script = g.answered ++ self.upstream.script := hinv.script_eq
  rcases hend with hnil | ⟨earlier, hanswered⟩
  · exact ⟨⟨g.answered, [], g.past, f, todo, g.taken, by rw [hscript, hnil], rfl,
      hframes, hsupplied, hincomplete, hbehind, hdecodes⟩⟩
  · rw [hanswered] at hscript hsupplied hbehind
    rw [lastChunkLength_append_empty rfl] at hbehind
    exact ⟨⟨earlier, none :: self.upstream.script, g.past, f, todo, g.taken, by simp [hscript], rfl,
      hframes, by simpa using hsupplied, hincomplete, hbehind, hdecodes⟩⟩

/-- The array and the window that a reading call fills. -/
inductive Call.Fills : Call → List Byte → ℤ → ℤ → Prop
  | readByte : Call.Fills .readByte [0] 0 1
  | read (dst : List Byte) (offset len : ℤ) : Call.Fills (.read dst offset len) dst offset len

/-- What a call answers accounts for what the decompressor wrote into its array, which is
what `dstPos` has moved by: the next content that was left, or nothing. -/
inductive Accounts : List Byte → Call → Ended σ → List Byte → Prop
  | byte (b : Byte) (rest dst : List Byte) (next : State σ) (hdstPos : next.dstPos = 1) :
      Accounts (b :: rest) .readByte ⟨.returned b.toNat, dst, next⟩ rest
  | bytes {left : List Byte} (piece rest dst : List Byte) (offset len : ℤ) (next : State σ)
      (hleft : left = piece ++ rest) (hne : piece ≠ []) (hlen : (piece.length : ℤ) ≤ len)
      (hdstPos : next.dstPos = offset.toNat + piece.length) :
      Accounts left (.read dst offset len)
        ⟨.returned piece.length, overwrite dst offset.toNat piece, next⟩ rest
  | nothing {call : Call} {dst : List Byte} {offset len : ℤ} (left : List Byte) (next : State σ)
      (hfills : call.Fills dst offset len) (hdstPos : next.dstPos = offset.toNat) :
      Accounts left call ⟨.returned (-1), dst, next⟩ left

/-- A run of calls in which every call ends and accounts for what was written. -/
inductive AccountsAll (D : Decoder σ Byte Byte) :
    State σ → List Byte → List Call → List Byte → Prop
  | nil (self : State σ) (left : List Byte) : AccountsAll D self left [] left
  | cons {self : State σ} {left between rest : List Byte} {call : Call} {calls : List Call}
      {ended : Ended σ} (hcall : call.Ends D self ended)
      (haccounts : Accounts left call ended between)
      (hcalls : AccountsAll D ended.self between calls rest) :
      AccountsAll D self left (call :: calls) rest

/-- Reads with a positive length inside their arrays. -/
def Reads : Type := { calls : List Call // ∀ call ∈ calls, call.Valid ∧ call.IsRead }

/-- A freshly opened stream in continuous mode. -/
def Source.continuous (source : Source C) : State σ :=
  source.opened.setContinuous true

/-- Continuous mode loses nothing: every call accounts for what was written, and once every
answer of a wrapped stream that supplies all the frames was used up, and a call was made for
every byte, nothing is left. -/
def Source.LosesNothing (source : Source C) (reads : Reads) : Prop :=
  ∃ rest, AccountsAll D source.continuous (contents source.frames) reads.1 rest ∧
    (supplied source.upstream.script = encodings source.frames →
      source.upstream.script.length + (contents source.frames).length < reads.1.length →
      rest = [])

theorem AccountsAll.eq_nil {calls : List Call} {left rest : List Byte}
    (h : AccountsAll D self left calls rest) (hleft : left = []) : rest = [] := by
  induction h with
  | nil => exact hleft
  | cons _ haccounts _ ih =>
      refine ih ?_
      cases haccounts with
      | byte => exact absurd hleft (List.cons_ne_nil _ _)
      | bytes piece between _ _ _ _ hpiece => exact (List.append_eq_nil_iff.mp (hpiece ▸ hleft)).2
      | nothing => exact hleft

theorem Accounts.length_le {left rest : List Byte} {call : Call} {ended : Ended σ}
    (h : Accounts left call ended rest) : rest.length ≤ left.length := by
  cases h with
  | byte => simp
  | bytes piece rest _ _ _ _ hleft => simp [hleft]
  | nothing => exact Nat.le_refl _

/-- A call that throws, or that answers -1 with output in its array. -/
def Ended.Loses (offset : ℕ) (ended : Ended σ) : Prop :=
  (∃ exception, ended.outcome = .threw exception) ∨
    (ended.outcome = .returned (-1) ∧ ended.self.dstPos ≠ offset)

/-- Such a call does not account for what was written. -/
theorem Ended.Loses.not_accounts {ended : Ended σ} {call : Call} {dst : List Byte} {offset len : ℤ}
    (hloses : ended.Loses offset.toNat) (hfills : call.Fills dst offset len)
    (left rest : List Byte) :
    ¬ Accounts left call ended rest := by
  intro haccounts
  rcases hloses with ⟨exception, houtcome⟩ | ⟨houtcome, hdstPos⟩
  · cases haccounts <;> cases houtcome
  · cases haccounts with
    | byte b =>
        simp only [Outcome.returned.injEq] at houtcome
        omega
    | bytes piece =>
        simp only [Outcome.returned.injEq] at houtcome
        omega
    | nothing _ _ hfills' hsame =>
        cases hfills <;> cases hfills' <;> exact hdstPos hsame

theorem Ended.Loses.byteResult {ended : Ended σ} (hloses : ended.Loses offset) :
    (byteResult ended).Loses offset := by
  rcases hloses with ⟨exception, houtcome⟩ | ⟨houtcome, hdstPos⟩
  · exact .inl ⟨exception, by simp [InputStream.byteResult, houtcome]⟩
  · exact .inr ⟨by simp [InputStream.byteResult, houtcome], by rwa [byteResult_self]⟩

/-- What one call in continuous mode leaves behind. -/
structure Progress (source : Source C) (st : State σ) (g : Ghost) (call : Call) (ended : Ended σ)
    (after : Ghost) : Prop where
  resumes : Resumes source ended.self after
  continuous : ended.self.isContinuous = true
  accounts : Accounts g.left call ended after.left
  script_le : ended.self.upstream.script.length ≤ st.upstream.script.length
  /-- The call delivered something, used up an answer, or found the script used up and all
  that was supplied taken. -/
  moves : after.left.length < g.left.length ∨
    ended.self.upstream.script.length < st.upstream.script.length ∨
    (ended.self.upstream.script = [] ∧ ended.self.needRead = true ∧
      Inv source ended.self.drained after)

/-- How a reading loop in continuous mode ends: it moves on, or it loses output, and then the
source has a place for it. -/
theorem Finish.progress_or_loses {reach : State σ → Ghost → Prop} (R : Decoder.Prompt C.conforms)
    {dst : List Byte} {offset len : ℤ} {ended : Ended σ}
    (hfinish : Finish reach source self g dst offset.toNat (offset + len).toNat ended)
    (hne : ended.outcome ≠ .returned 0) (hcontinuous : self.isContinuous = true)
    (hoffset : 0 ≤ offset) (hlen : 0 < len) :
    (∃ after, reach ended.self after ∧ Progress source self g (.read dst offset len) ended after) ∨
      (ended.Loses offset.toNat ∧ (source.Misread ∨ source.Strands R)) := by
  have hbytes {produced : List Byte} {next : State σ} {after : Ghost} (hsome : produced ≠ [])
      (hresumes : Resumes source next after)
      (hleaves : Leaves reach self g offset.toNat (offset + len).toNat produced next after) :
      Progress source self g (.read dst offset len)
        ⟨.returned produced.length, overwrite dst offset.toNat produced, next⟩ after := by
    have hpositive := List.length_pos_iff.mpr hsome
    have hfits := hleaves.fits
    refine ⟨hresumes, hleaves.continuous_eq.trans hcontinuous, ?_, hleaves.script_le, .inl ?_⟩
    · exact .bytes produced after.left dst offset len next hleaves.left_eq hsome (by omega)
        hleaves.dstPos_eq
    · rw [hleaves.left_eq, List.length_append]
      omega
  cases hfinish with
  | delivered produced next after hinv hleaves hbudget =>
      refine .inl ⟨after, hleaves.reached, hbytes ?_ (.inl hinv) hleaves⟩
      rintro rfl
      exact hne rfl
  | exhausted produced next after hinv hneed hleaves hend hscript hgiven hsame =>
      have hcont := hleaves.continuous_eq.trans hcontinuous
      have hresumes : Resumes source next after := .inr ⟨hneed, hinv⟩
      rw [hcont, endOutcome, if_pos rfl]
      by_cases hnone : produced = []
      · subst hnone
        refine .inl ⟨after, hleaves.reached, hresumes, hcont, ?_, hleaves.script_le, .inr ?_⟩
        · rw [hleaves.left_eq]
          simpa using Accounts.nothing after.left next (.read dst offset len) hleaves.dstPos_eq
        · exact hscript.symm.imp id fun hnil => ⟨hnil, hneed, hinv⟩
      · have hpositive := List.length_pos_iff.mpr hnone
        cases hfinished : next.frameFinished with
        | true =>
            refine .inr ⟨.inr ⟨by simp, ?_⟩, .inr (hinv.strands R hneed hend hfinished
              (hgiven hnone))⟩
            rw [hleaves.dstPos_eq]
            omega
        | false =>
            rw [if_neg (by simp), if_pos hpositive]
            exact .inl ⟨after, hleaves.reached, hbytes hnone hresumes hleaves⟩
  | misread code dst' next hmisread => exact .inr ⟨.inl ⟨_, rfl⟩, .inl hmisread⟩

/-- A read of one byte accounts for what the read into its array accounts for. -/
theorem Progress.byteResult {ended : Ended σ} {after : Ghost}
    (hprogress : Progress source self g (.read [0] 0 1) ended after) :
    Progress source self g .readByte (byteResult ended) after := by
  obtain ⟨hresumes, hcontinuous, haccounts, hscript, hmoves⟩ := hprogress
  generalize hfirst : g.left = first at haccounts
  generalize hlast : after.left = last at haccounts
  cases haccounts with
  | bytes piece rest _ _ _ next hleft hne hlen hdstPos =>
      obtain ⟨b, rfl⟩ : ∃ b, piece = [b] := by
        refine List.length_eq_one_iff.mp ?_
        have hpositive := List.length_pos_iff.mpr hne
        omega
      refine ⟨hresumes, hcontinuous, ?_, hscript, hmoves⟩
      rw [hfirst, hlast, hleft]
      exact .byte b last _ next hdstPos
  | nothing left next hfills hdstPos =>
      cases hfills
      refine ⟨hresumes, hcontinuous, ?_, hscript, hmoves⟩
      rw [hfirst, hlast]
      exact .nothing first next .readByte hdstPos

/-- One call in continuous mode. -/
theorem Resumes.call_progress_or_loses (R : Decoder.Prompt C.conforms)
    (hresumes : Resumes source self g) (hcontinuous : self.isContinuous = true) {call : Call}
    (hvalid : call.Valid) (hread : call.IsRead) :
    ∃ ended, call.Ends D self ended ∧ ((∃ after, Progress source self g call ended after) ∨
      ((∀ left rest, ¬ Accounts left call ended rest) ∧ (source.Misread ∨ source.Strands R))) := by
  cases call with
  | readByte =>
      obtain ⟨ended, hrun, hfinish, hne⟩ := hresumes.readLoop_finish (D := D) [0]
        (Int.le_refl 0) Int.one_pos (by simp)
        (Nat.lt_succ_self (limit source + (1 : ℤ).toNat + 1))
      refine ⟨byteResult ended, .of_run (limit source + (1 : ℤ).toNat + 1 + 1) ?_, ?_⟩
      · rw [Call.run, InputStream.readByte, hrun]
        rfl
      · rcases hfinish.progress_or_loses R hne hcontinuous (Int.le_refl 0) Int.one_pos with
          ⟨after, -, hprogress⟩ | ⟨hloses, hplace⟩
        · exact .inl ⟨after, hprogress.byteResult⟩
        · exact .inr ⟨hloses.byteResult.not_accounts .readByte, hplace⟩
  | read dst offset len =>
      obtain ⟨hoffset, hlen, hfits⟩ := hvalid
      obtain ⟨ended, hrun, hfinish, hne⟩ := hresumes.readLoop_finish (D := D) dst hoffset hlen hfits
        (Nat.lt_succ_self (limit source + len.toNat + 1))
      refine ⟨ended, .of_run (limit source + len.toNat + 1 + 1) ?_, ?_⟩
      · rw [Call.run, read_eq_readLoop hoffset hlen hfits]
        exact hrun
      · rcases hfinish.progress_or_loses R hne hcontinuous hoffset hlen with
          ⟨after, -, hprogress⟩ | ⟨hloses, hplace⟩
        · exact .inl ⟨after, hprogress⟩
        · exact .inr ⟨hloses.not_accounts (.read dst offset len), hplace⟩
  | skip numBytes data => exact hread.elim

/-- Once the script of a wrapped stream that supplies all the frames is used up and all that
it supplied was taken, nothing is left. -/
theorem Inv.left_nil (hinv : Inv source self.drained g) (hneed : self.needRead = true)
    (hcomplete : supplied source.upstream.script = encodings source.frames)
    (hscript : self.upstream.script = []) : g.left = [] := by
  have hall : supplied source.upstream.script = encodings g.past ++ g.taken := by
    have hposition := hinv.position
    have hpending : self.drained.pending = [] := window_self _ _
    have hanswered : source.upstream.script = g.answered ++ self.upstream.script := hinv.script_eq
    rw [hanswered, hscript, List.append_nil, hposition, hpending, List.append_nil]
  rw [Ghost.left, hinv.todo_nil_of_taken hneed hcomplete hall]
  simp

/-- A run in continuous mode on a source without a place where output is lost. -/
theorem Resumes.accountsAll (R : Decoder.Prompt C.conforms) (hresumes : Resumes source self g)
    (hclean : ¬ source.Misread) (hstrands : ¬ source.Strands R)
    (hcontinuous : self.isContinuous = true) {calls : List Call}
    (hreads : ∀ call ∈ calls, call.Valid ∧ call.IsRead) :
    ∃ rest, AccountsAll D self g.left calls rest ∧
      (supplied source.upstream.script = encodings source.frames →
        self.upstream.script.length + g.left.length < calls.length → rest = []) := by
  induction calls generalizing self g with
  | nil => exact ⟨g.left, .nil self g.left, fun _ h => absurd h (Nat.not_lt_zero _)⟩
  | cons call calls ih =>
      obtain ⟨hvalid, hread⟩ := hreads call List.mem_cons_self
      obtain ⟨ended, hends, ⟨after, hprogress⟩ | ⟨-, hplace⟩⟩ :=
        hresumes.call_progress_or_loses R hcontinuous hvalid hread
      · obtain ⟨rest, hrest, hall⟩ := ih hprogress.resumes hprogress.continuous
          fun call hmem => hreads call (List.mem_cons_of_mem _ hmem)
        refine ⟨rest, .cons hends hprogress.accounts hrest, fun hcomplete hcount => ?_⟩
        have hscript := hprogress.script_le
        have hleft := hprogress.accounts.length_le
        rw [List.length_cons] at hcount
        rcases hprogress.moves with hless | hless | ⟨hnil, hneed, hinv⟩
        · exact hall hcomplete (by omega)
        · exact hall hcomplete (by omega)
        · exact hrest.eq_nil (hinv.left_nil hneed hcomplete hnil)
      · exact (hplace.elim hclean hstrands).elim

end ZstdJni.InputStream
