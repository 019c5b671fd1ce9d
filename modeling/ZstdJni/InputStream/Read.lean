/-
# `readInternal`, the retry loops and `skip`

From one turn to whole calls.  `readInternal` keeps the invariant over all its
turns and ends in one of three ways: it returns what it produced, it meets the end
of the input, or it misreads a hint.  A call that produces nothing and does not end
otherwise uses up budget, so the loop `while (result == 0)` comes to an end, and so
does the loop of `skip`.
-/

import ZstdJni.InputStream.Turn

namespace ZstdJni.InputStream

open ZstdJni.Foundation ZstdJni.Native

variable {σ : Type} {D : Decoder σ Byte Byte} {C : DStreamContract D}
variable {source : Source C} {self : State σ} {g : Ghost}
variable {dst : List Byte} {offset dstSize : ℕ}

/-- What `readInternal` makes of the end of the input, by its two flags and the number
of bytes the call has produced. -/
def endOutcome (finished continuous : Bool) (count : ℕ) : Outcome ℤ :=
  if finished then .returned (-1)
  else if continuous then (if 0 < count then .returned count else .returned (-1))
  else .threw truncatedSource

theorem endOutcome_ne_zero (finished continuous : Bool) (count : ℕ) :
    endOutcome finished continuous count ≠ .returned 0 := by
  unfold endOutcome
  split_ifs with _ _ hcount
  · simp
  · simp only [ne_eq, Outcome.returned.injEq]
    omega
  · simp
  · simp

/-- The end of the input was met: the script has run out or its last answer said so. -/
def AtEnd (self : State σ) (g : Ghost) : Prop :=
  self.upstream.script = [] ∨ ∃ earlier, g.answered = earlier ++ [none]

/-- The object with its source buffer dropped. -/
def State.drained (self : State σ) : State σ :=
  { self with srcPos := 0, srcSize := 0 }

/-- What a call leaves behind that has delivered `produced` and stands at `after`, a position
that it can reach. -/
structure Leaves (reach : State σ → Ghost → Prop) (start : State σ) (first : Ghost)
    (offset dstSize : ℕ) (produced : List Byte) (next : State σ) (after : Ghost) : Prop where
  left_eq : first.left = produced ++ after.left
  fits : offset + produced.length ≤ dstSize
  dstPos_eq : next.dstPos = offset + produced.length
  script_le : next.upstream.script.length ≤ start.upstream.script.length
  continuous_eq : next.isContinuous = start.isContinuous
  reached : reach next after

/-- How a call that fills `dst` from `offset` up to `dstSize` ends. -/
inductive Finish (reach : State σ → Ghost → Prop) (source : Source C) (self : State σ) (g : Ghost)
    (dst : List Byte) (offset dstSize : ℕ) : Ended σ → Prop
  | delivered (produced : List Byte) (next : State σ) (after : Ghost)
      (hinv : Inv source next after)
      (hleaves : Leaves reach self g offset dstSize produced next after)
      (hbudget : produced = [] → budget next after < budget self g) :
      Finish reach source self g dst offset dstSize
        ⟨.returned produced.length, overwrite dst offset produced, next⟩
  | exhausted (produced : List Byte) (next : State σ) (after : Ghost)
      (hinv : Inv source next.drained after) (hneed : next.needRead = true)
      (hleaves : Leaves reach self g offset dstSize produced next after) (hend : AtEnd next after)
      (hscript : next.upstream.script = [] ∨
        next.upstream.script.length < self.upstream.script.length)
      (hgiven : produced ≠ [] → after.given ≠ [])
      (hsame : next.frameFinished = true ∨ next.isContinuous = false → next = next.drained) :
      Finish reach source self g dst offset dstSize
        ⟨endOutcome next.frameFinished next.isContinuous produced.length,
          overwrite dst offset produced, next⟩
  | misread (code : ℤ) (dst' : List Byte) (next : State σ) (hmisread : source.Misread) :
      Finish reach source self g dst offset dstSize ⟨.threw (.ofIOResult code), dst', next⟩

/-- The invariant of the loop in `readInternal`: `produced` is what this call has
delivered so far.  While the call goes round, no frame was completed. -/
structure LoopInv (source : Source C) (start : State σ) (first : Ghost) (dst : List Byte)
    (offset dstSize : ℕ) (st : ReadState σ) (produced : List Byte) (g : Ghost) : Prop extends
    Leaves (fun _ after => after.past = first.past) start first offset dstSize produced
      st.self g where
  inv : Inv source st.self g
  dst_eq : st.dst = overwrite dst offset produced
  /-- Before the first call of the decompressor nothing has changed but the script. -/
  unstarted : st.lastDstPos < offset → produced = [] ∧ budget st.self g ≤ budget start first
  started : (offset : ℤ) ≤ st.lastDstPos → produced = [] → budget st.self g < budget start first
  given : produced ≠ [] → g.given ≠ []
  idle : produced ≠ [] → st.lastDstPos < st.self.dstPos → g.idle = 0

/-- The measure of the loop in `readInternal`. -/
def readMeasure (dstSize : ℕ) (st : ReadState σ) : ℕ :=
  st.self.upstream.script.length + (dstSize - st.self.dstPos) +
    (decide (st.lastDstPos < st.self.dstPos)).toNat

/-! ## The block that reads -/

/-- Where the script stands after an answer of the wrapped stream. -/
theorem Upstream.script_read (up : Upstream) : up.read.2.script = up.script.tail := by
  rcases up with ⟨_ | ⟨answer, rest⟩, avail⟩ <;> rfl

/-- One answer less, or none is left. -/
theorem shorter_of_tail {script : List (Option (List Byte))} {bound : ℕ}
    (hle : script.length ≤ bound) :
    script.tail = [] ∨ script.tail.length < bound := by
  cases script with
  | nil => exact .inl rfl
  | cons answer rest => exact .inr hle

/-- An answer without bytes, or none at all, keeps the invariant. -/
theorem Inv.of_core (hinv : Inv source self g) (hneed : self.needRead = true) {next : State σ}
    {after : Ghost} (hcore : Core source next after) (hnext : next.needRead = true)
    (hpending : next.pending = []) (hidle : after.idle = g.idle) (htodo : after.todo = g.todo)
    (htaken : after.taken = g.taken) : Inv source next after :=
  { hcore with
    idle_le := by rw [hidle]; exact hinv.idle_le
    read_empty := fun _ => hpending
    read_incomplete := by
      intro _
      rw [htodo, htaken]
      exact hinv.read_incomplete hneed
    decode_todo := by simp [hnext]
    decode_idle := by simp [hnext]
    decode_inside := by simp [hnext] }

/-- Dropping a buffer that is used up changes nothing. -/
theorem Core.drained (hcore : Core source self g) (hempty : self.pending = []) :
    Core source self.drained g := by
  have hdrained : self.drained.pending = self.pending := by
    rw [hempty]
    exact window_self _ _
  exact
    { frames_eq := hcore.frames_eq
      script_eq := hcore.script_eq
      place := hcore.place
      fits := hcore.fits
      short := by rw [hdrained]; exact hcore.short
      position := by rw [hdrained]; exact hcore.position
      src_length := hcore.src_length
      srcPos_le := le_rfl
      srcSize_le := Nat.zero_le _
      border := hcore.border
      clean := hcore.clean
      is_open := hcore.is_open
      pending_le := by rw [hdrained]; exact hcore.pending_le
      behind := by rw [hdrained]; exact hcore.behind
      held := by rw [hdrained]; exact hcore.held
      finished_iff := by rw [hdrained]; exact hcore.finished_iff }

/-- The block of `readInternal` at the end of the input, once the source buffer was
dropped. -/
theorem fetch_none (offset : ℕ) {up : Upstream} (hread : self.upstream.read = (none, up)) :
    ∃ next, fetch offset self = .ended
        (endOutcome next.frameFinished next.isContinuous (self.dstPos - offset)) next ∧
      next.drained = { self with upstream := up }.drained ∧ next.needRead = self.needRead ∧
      next.upstream = up ∧ next.isContinuous = self.isContinuous ∧
      (next.frameFinished = true ∨ next.isContinuous = false → next = next.drained) := by
  by_cases hfinished : self.frameFinished = true
  · refine ⟨{ self with upstream := up, srcPos := 0, srcSize := 0 }, ?_, rfl, rfl, rfl, rfl,
      fun _ => rfl⟩
    rw [fetch, hread]
    simp [endOutcome, hfinished]
  · by_cases hcontinuous : self.isContinuous = true
    · refine ⟨{ self with upstream := up, srcPos := 0, srcSize := self.dstPos - offset }, ?_, rfl,
        rfl, rfl, rfl, ?_⟩
      · rw [fetch, hread]
        by_cases hcount : 0 < self.dstPos - offset <;>
          simp [endOutcome, hfinished, hcontinuous, hcount]
      · simp [hfinished, hcontinuous]
    · refine ⟨{ self with upstream := up, srcPos := 0, srcSize := 0 }, ?_, rfl, rfl, rfl, rfl,
        fun _ => rfl⟩
      rw [fetch, hread]
      simp [endOutcome, hfinished, hcontinuous]

/-- The end of the input keeps the invariant. -/
theorem Inv.answer_none (hinv : Inv source self g) (hneed : self.needRead = true) {up : Upstream}
    (hread : self.upstream.read = (none, up)) :
    ∃ after, Inv source { self with upstream := up }.drained after ∧ after.left = g.left ∧
      after.past = g.past ∧ after.given = g.given ∧
      (up.script = [] ∨ ∃ earlier, after.answered = earlier ++ [none]) := by
  have hempty := hinv.read_empty hneed
  cases hscript : self.upstream.script with
  | nil =>
      simp only [Upstream.read, hscript, Prod.mk.injEq, true_and] at hread
      subst hread
      exact ⟨g, hinv.of_core hneed (hinv.toCore.drained hempty) hneed (window_self _ _) rfl rfl rfl,
        rfl, rfl, rfl, .inl hscript⟩
  | cons reply rest =>
      simp only [Upstream.read, hscript, Prod.mk.injEq] at hread
      obtain ⟨rfl, rfl⟩ := hread
      exact ⟨g.answer none, hinv.of_core hneed (hinv.toCore.answer_empty hempty hscript rfl) hneed
        (window_self _ _) rfl rfl rfl, rfl, rfl, rfl, .inr ⟨_, rfl⟩⟩

/-- The invariant does not read the answers of `available`. -/
theorem Inv.asked (hinv : Inv source self g) (avail : ℕ → ℤ) :
    Inv source { self with upstream := { self.upstream with avail := avail } } g :=
  { hinv.toCore.of_agree rfl rfl rfl rfl rfl rfl rfl with
    idle_le := hinv.idle_le
    read_empty := hinv.read_empty
    read_incomplete := hinv.read_incomplete
    decode_todo := hinv.decode_todo
    decode_idle := hinv.decode_idle
    decode_inside := hinv.decode_inside }

section Loop

variable {start : State σ} {first : Ghost} {st : ReadState σ} {produced : List Byte}

/-- A turn that calls the decompressor keeps the loop invariant or ends well.  The
state and position it calls from are those of the loop, possibly after a read. -/
theorem LoopInv.decodeTurn_meets
    (hloop : LoopInv source start first dst offset dstSize st produced g)
    {called : State σ} {now : Ghost} (hready : Ready source called now dstSize)
    (hdstPos : called.dstPos = st.self.dstPos) (hpast : now.past = g.past)
    (hleft : now.left = g.left)
    (hgiven : now.given = g.given) (hcontinuous : called.isContinuous = st.self.isContinuous)
    (hscript : called.upstream.script.length ≤ st.self.upstream.script.length)
    (hbudget : produced = [] →
      2 * called.upstream.script.length + now.todo.length < budget start first)
    (hoffset : offset ≤ dst.length) (hprogress : st.lastDstPos < st.self.dstPos) :
    (decodeTurn D offset dstSize called st.dst).Meets
      (fun next => (∃ produced g, LoopInv source start first dst offset dstSize next produced g) ∧
        readMeasure dstSize next < readMeasure dstSize st)
      (Finish (fun _ => first.Moves) source start first dst offset dstSize) := by
  have hdst (emitted : List Byte) :
      overwrite st.dst called.dstPos emitted = overwrite dst offset (produced ++ emitted) := by
    rw [hloop.dst_eq, hdstPos, hloop.dstPos_eq, overwrite_overwrite hoffset]
  have hcount := hloop.dstPos_eq
  have hdecoded := hready.decoded offset st.dst
  revert hdecoded
  generalize decodeTurn D offset dstSize called st.dst = turn
  intro hdecoded
  cases hdecoded with
  | misread code dst' next hmisread => exact .misread _ _ _ hmisread
  | completed emitted next after hadvance hmoves =>
      have hpos := hadvance.dstPos_eq
      have hreturned : (next.dstPos : ℤ) - offset = ((produced ++ emitted).length : ℕ) := by
        rw [List.length_append]
        omega
      rw [Turn.Meets, hdst, hreturned]
      refine .delivered _ next after hadvance.inv ⟨?_, ?_, ?_, ?_, ?_, ?_⟩ ?_
      · rw [hloop.left_eq, ← hleft, hadvance.left_eq, List.append_assoc]
      · have hle := hadvance.dstPos_le
        rw [List.length_append]
        omega
      · rw [List.length_append]
        omega
      · rw [hadvance.upstream_eq]
        exact Nat.le_trans hscript hloop.script_le
      · rw [hadvance.continuous_eq, hcontinuous, hloop.continuous_eq]
      · rw [Ghost.Moves, hpast, hloop.reached] at hmoves
        exact hmoves
      · intro hnone
        obtain ⟨hproduced, hemitted⟩ := List.append_eq_nil_iff.mp hnone
        exact Nat.lt_of_le_of_lt (hadvance.budget_le hemitted) (hbudget hproduced)
  | continued emitted next after hadvance hsame hafter hidle =>
      have hpos := hadvance.dstPos_eq
      have hle := hadvance.dstPos_le
      rw [Turn.Meets, hdst]
      refine ⟨⟨produced ++ emitted, after, ⟨?_, ?_, ?_, ?_, ?_, ?_⟩, hadvance.inv, rfl,
        ?_, ?_, ?_, ?_⟩, ?_⟩
      · rw [hloop.left_eq, ← hleft, hadvance.left_eq, List.append_assoc]
      · rw [List.length_append]
        omega
      · simp only [List.length_append]
        omega
      · simp only [hadvance.upstream_eq]
        exact Nat.le_trans hscript hloop.script_le
      · rw [hadvance.continuous_eq, hcontinuous, hloop.continuous_eq]
      · exact hsame.trans (hpast.trans hloop.reached)
      · intro hless
        simp only at hless
        omega
      · intro _ hnone
        obtain ⟨hproduced, hemitted⟩ := List.append_eq_nil_iff.mp hnone
        exact Nat.lt_of_le_of_lt (hadvance.budget_le hemitted) (hbudget hproduced)
      · intro hsome
        refine hafter ?_
        by_cases hemitted : emitted = []
        · rw [hemitted, List.append_nil] at hsome
          exact .inr (hgiven ▸ hloop.given hsome)
        · exact .inl hemitted
      · intro _ hless
        refine hidle fun hemitted => ?_
        simp only [hpos, hemitted, List.length_nil] at hless
        omega
      · simp only [readMeasure, hprogress, decide_true, Bool.toNat_true, hadvance.upstream_eq]
        by_cases hemitted : emitted = []
        · have hstuck : ¬ (called.dstPos : ℤ) < next.dstPos := by
            rw [hpos, hemitted]
            simp
          simp only [hstuck, decide_false, Bool.toNat_false]
          omega
        · have hmore : 0 < emitted.length := List.length_pos_iff.mpr hemitted
          have hone := Bool.toNat_le (decide ((called.dstPos : ℤ) < next.dstPos))
          have hroom := hready.room
          omega

theorem LoopInv.asked (hloop : LoopInv source start first dst offset dstSize st produced g)
    (avail : ℕ → ℤ) :
    LoopInv source start first dst offset dstSize
      { st with self := { st.self with upstream := { st.self.upstream with avail := avail } } }
      produced g :=
  { hloop with inv := hloop.inv.asked avail }

/-- A turn that reads from the wrapped stream keeps the loop invariant or ends well. -/
theorem LoopInv.fetch_meets (hloop : LoopInv source start first dst offset dstSize st produced g)
    (hneed : st.self.needRead = true) (hoffset : offset ≤ dst.length)
    (hroom : st.self.dstPos < dstSize) (hprogress : st.lastDstPos < st.self.dstPos) :
    Turn.Meets
      (fun next => (∃ produced g, LoopInv source start first dst offset dstSize next produced g) ∧
        readMeasure dstSize next < readMeasure dstSize st)
      (Finish (fun _ => first.Moves) source start first dst offset dstSize)
      (match fetch offset st.self with
        | .ended outcome self => .leave ⟨outcome, st.dst, self⟩
        | .empty self => .again { st with self := self }
        | .filled self => decodeTurn D offset dstSize self st.dst) := by
  have hempty := hloop.inv.read_empty hneed
  have hproduced : st.self.dstPos - offset = produced.length := by
    rw [hloop.dstPos_eq]
    omega
  have hbudget : produced = [] →
      2 * st.self.upstream.script.length + g.todo.length ≤ budget start first := by
    intro hnone
    have hbound : budget st.self g ≤ budget start first := by
      by_cases hfirst : st.lastDstPos < offset
      · exact (hloop.unstarted hfirst).2
      · exact Nat.le_of_lt (hloop.started (by omega) hnone)
    simp only [budget, hneed] at hbound ⊢
    omega
  cases hread : st.self.upstream.read with
  | mk reply up =>
      cases reply with
      | none =>
          obtain ⟨next, hfetch, hdrained, hnext, hup, hcontinuous, hsame⟩ := fetch_none offset hread
          obtain ⟨after, hinv, hleft, hpast, hgiven, hend⟩ := hloop.inv.answer_none hneed hread
          rw [hfetch, hproduced, Turn.Meets, hloop.dst_eq]
          have hpos : next.drained.dstPos = st.self.dstPos := by rw [hdrained]; rfl
          have htail := st.self.upstream.script_read
          rw [hread] at htail
          have hless := hloop.script_le
          refine .exhausted produced next after (hdrained ▸ hinv) (hnext ▸ hneed)
            ⟨?_, hloop.fits, ?_, ?_, ?_, ?_⟩ ?_ ?_ ?_ hsame
          · rw [hleft]
            exact hloop.left_eq
          · exact hpos.trans hloop.dstPos_eq
          · rw [hup, htail, List.length_tail]
            omega
          · rw [hcontinuous]
            exact hloop.continuous_eq
          · exact .inl (hpast.trans hloop.reached)
          · rw [AtEnd, hup]
            exact hend
          · rw [hup, htail]
            exact shorter_of_tail hless
          · rw [hgiven]
            exact hloop.given
      | some chunk =>
          have hscript : st.self.upstream.script = some chunk :: up.script := by
            cases hscript : st.self.upstream.script with
            | nil => simp [Upstream.read, hscript] at hread
            | cons answer rest =>
                simp only [Upstream.read, hscript, Prod.mk.injEq] at hread
                obtain ⟨rfl, rfl⟩ := hread
                rfl
          have hlength : up.script.length + 1 = st.self.upstream.script.length := by
            rw [hscript, List.length_cons]
          by_cases hchunk : chunk = []
          · subst hchunk
            simp only [fetch, hread, Turn.Meets]
            have hcore := hloop.inv.toCore.answer_empty hempty hscript rfl
            have hspent (hnone : produced = []) :
                budget { st.self with upstream := up, srcPos := 0, srcSize := 0 }
                  (g.answer (some [])) < budget start first := by
              have hbound := hbudget hnone
              have heq : budget { st.self with upstream := up, srcPos := 0, srcSize := 0 }
                  (g.answer (some [])) = 2 * up.script.length + g.todo.length := by
                simp [budget, hneed]
              omega
            refine ⟨⟨produced, g.answer (some []), { hloop with
              script_le := by
                have hless := hloop.script_le
                simp only
                omega
              inv := hloop.inv.of_core hneed hcore hneed (window_self _ _) rfl rfl rfl
              unstarted := ?_, started := fun _ => hspent }⟩, ?_⟩
            · intro hfirst
              obtain ⟨hnone, -⟩ := hloop.unstarted hfirst
              exact ⟨hnone, Nat.le_of_lt (hspent hnone)⟩
            · simp only [readMeasure]
              omega
          · have hcore := hloop.inv.toCore.answer_chunk hempty (hloop.inv.read_incomplete hneed)
              hscript hchunk
            have hsome := hcore.length_pending
            have hpositive : 0 < chunk.length := List.length_pos_iff.mpr hchunk
            obtain ⟨b, bytes, rfl⟩ := List.exists_cons_of_ne_nil hchunk
            simp only [fetch, hread]
            have hpending := List.length_pos_iff.mp (by rw [hsome]; exact hpositive)
            refine hloop.decodeTurn_meets ⟨hcore, hroom, hcore.todo_ne_nil (.inl hpending),
              hloop.inv.idle_le, fun h => absurd h hpending, fun h => absurd h hpending⟩ rfl rfl rfl
              rfl rfl ?_ ?_ hoffset hprogress
            · simp only
              omega
            · intro hnone
              have hbound := hbudget hnone
              simp only [Ghost.answer_todo]
              omega

/-- A turn that may read: it does if the wrapped stream claims to have data, or if the
call has produced nothing. -/
theorem readTurn_of_needRead
    (hcond : st.self.dstPos < dstSize ∧ st.lastDstPos < st.self.dstPos)
    (hneed : st.self.needRead = true) :
    readTurn D offset dstSize st =
      if 0 < st.self.upstream.avail 0 ∨ st.self.dstPos = offset then
        match fetch offset { st.self with upstream := st.self.upstream.available.2 } with
        | .ended outcome self => .leave ⟨outcome, st.dst, self⟩
        | .empty self => .again { st with self := self }
        | .filled self => decodeTurn D offset dstSize self st.dst
      else decodeTurn D offset dstSize { st.self with upstream := st.self.upstream.available.2 }
        st.dst := by
  rw [readTurn, if_pos hcond, if_pos hneed]
  rfl

/-- One turn of the loop in `readInternal` keeps the loop invariant, with less to do, or
ends well. -/
theorem LoopInv.readTurn_meets (hloop : LoopInv source start first dst offset dstSize st produced g)
    (hoffset : offset ≤ dst.length) (hlen : offset < dstSize) :
    (readTurn D offset dstSize st).Meets
      (fun next => (∃ produced g, LoopInv source start first dst offset dstSize next produced g) ∧
        readMeasure dstSize next < readMeasure dstSize st)
      (Finish (fun _ => first.Moves) source start first dst offset dstSize) := by
  have hcount := hloop.dstPos_eq
  by_cases hcond : st.self.dstPos < dstSize ∧ st.lastDstPos < st.self.dstPos
  · obtain ⟨hroom, hprogress⟩ := hcond
    cases hneed : st.self.needRead with
    | true =>
        have hasked := hloop.asked fun n => st.self.upstream.avail (n + 1)
        rw [readTurn_of_needRead ⟨hroom, hprogress⟩ hneed]
        split
        · exact hasked.fetch_meets hneed hoffset hroom hprogress
        · rename_i hfetch
          -- The call has produced something, so it is inside a frame and not idle.
          have hsome : produced ≠ [] := by
            intro hnone
            rw [hnone, List.length_nil] at hcount
            exact hfetch (.inr hcount)
          have hinside : g.Inside := .inr (hloop.given hsome)
          exact hasked.decodeTurn_meets ⟨hasked.inv.toCore, hroom,
            hloop.inv.toCore.todo_ne_nil (.inr hinside), hloop.inv.idle_le, fun _ => hinside,
            fun _ => hloop.idle hsome hprogress⟩ rfl rfl rfl rfl rfl le_rfl (fun h =>
              absurd h hsome)
            hoffset hprogress
    | false =>
        rw [readTurn, if_pos ⟨hroom, hprogress⟩, if_neg (by simp [hneed])]
        refine hloop.decodeTurn_meets ⟨hloop.inv.toCore, hroom, hloop.inv.decode_todo hneed,
          hloop.inv.idle_le, hloop.inv.decode_inside hneed, fun _ => hloop.inv.decode_idle hneed⟩
          rfl rfl rfl rfl rfl le_rfl ?_ hoffset hprogress
        intro hnone
        have hbound : budget st.self g ≤ budget start first := by
          by_cases hfirst : st.lastDstPos < offset
          · exact (hloop.unstarted hfirst).2
          · exact Nat.le_of_lt (hloop.started (by omega) hnone)
        have heq : budget st.self g =
            2 * st.self.upstream.script.length + g.todo.length + 1 := by
          simp [budget, hneed]
        omega
  · rw [readTurn, if_neg hcond]
    have hreturned : (st.self.dstPos : ℤ) - offset = produced.length := by omega
    rw [hreturned, hloop.dst_eq, Turn.Meets]
    refine .delivered produced st.self g hloop.inv
      { hloop.toLeaves with reached := .inl hloop.reached } ?_
    intro hnone
    rw [hnone, List.length_nil] at hcount
    refine hloop.started ?_ hnone
    by_contra hfirst
    exact hcond ⟨by omega, by omega⟩

end Loop

/-! ## Whole calls -/

/-- The variables of the loop in `readInternal` before its first turn. -/
def readStart (self : State σ) (dst : List Byte) (offset : ℕ) : ReadState σ :=
  ⟨{ self with dstPos := offset }, dst, -1⟩

/-- The body of the loop in `readInternal`. -/
def readBody (D : Decoder σ Byte Byte) (offset dstSize : ℕ) (st : ReadState σ) :
    Option (Turn (ReadState σ) (Ended σ)) :=
  some (readTurn D offset dstSize st)

/-- The body of the loop `while (result == 0)`. -/
def retryBody (D : Decoder σ Byte Byte) (fuel : ℕ) (offset len : ℤ) (st : Ended σ) :
    Option (Turn (Ended σ) (Ended σ)) :=
  if st.outcome = .returned 0 then (readInternal D fuel st.dst offset len st.self).map .again
  else some (.leave st)

theorem readInternal_eq (hopen : self.isClosed = false) {offset len : ℤ}
    (hbounds : outOfBounds dst offset len = false) (fuel : ℕ) :
    readInternal D fuel dst offset len self =
      iterate (readBody D offset.toNat (offset + len).toNat) fuel
        (readStart self dst offset.toNat) := by
  rw [readInternal, if_neg (by simp [hopen]), if_neg (by simp [hbounds])]
  rfl

theorem outOfBounds_eq_false {offset len : ℤ} (hoffset : 0 ≤ offset) (hlen : 0 < len)
    (hfits : offset + len ≤ dst.length) : outOfBounds dst offset len = false := by
  simp only [outOfBounds, decide_eq_false_iff_not]
  omega

theorem readLoop_eq (offset len : ℤ) (fuel : ℕ) :
    readLoop D fuel dst offset len self =
      iterate (retryBody D fuel offset len) fuel ⟨.returned 0, dst, self⟩ := rfl

/-- A bound on the budget of every state of a source. -/
def limit (source : Source C) : ℕ :=
  2 * source.upstream.script.length + source.frames.length + 1

theorem Core.budget_le (hcore : Core source self g) : budget self g ≤ limit source := by
  have hone := Bool.toNat_le (!self.needRead)
  simp only [budget, limit, hcore.script_eq, hcore.frames_eq, List.length_append]
  omega

/-- The loop invariant holds before the first turn. -/
theorem Inv.loopInv_start (hinv : Inv source self g) (dst : List Byte)
    (hwindow : offset ≤ dstSize) :
    LoopInv source self g dst offset dstSize (readStart self dst offset) [] g where
  inv :=
    { hinv.toCore.of_agree rfl rfl rfl rfl rfl rfl rfl with
      idle_le := hinv.idle_le
      read_empty := hinv.read_empty
      read_incomplete := hinv.read_incomplete
      decode_todo := hinv.decode_todo
      decode_idle := hinv.decode_idle
      decode_inside := hinv.decode_inside }
  dst_eq := by simp [readStart]
  dstPos_eq := rfl
  fits := hwindow
  left_eq := rfl
  script_le := Nat.le_refl _
  continuous_eq := rfl
  reached := rfl
  unstarted := fun _ => ⟨rfl, Nat.le_refl _⟩
  started := by
    intro hstarted
    simp only [readStart] at hstarted
    omega
  given := fun hne => absurd rfl hne
  idle := fun hne => absurd rfl hne

theorem readMeasure_start (self : State σ) (dst : List Byte) (offset len : ℤ) :
    readMeasure (offset + len).toNat (readStart self dst offset.toNat) ≤
      self.upstream.script.length + len.toNat + 1 := by
  have hone := Bool.toNat_le (decide ((readStart self dst offset.toNat).lastDstPos <
    (readStart self dst offset.toNat).self.dstPos))
  have hroom : (offset + len).toNat - (readStart self dst offset.toNat).self.dstPos ≤
    len.toNat := by
    simp only [readStart]
    omega
  have hscript : (readStart self dst offset.toNat).self.upstream = self.upstream := rfl
  rw [readMeasure, hscript]
  omega

/-- `readInternal` on a valid window ends in one of the three ways. -/
theorem Inv.readInternal_finish (hinv : Inv source self g) (dst : List Byte) {offset len : ℤ}
    {fuel : ℕ} (hoffset : 0 ≤ offset) (hlen : 0 < len) (hfits : offset + len ≤ dst.length)
    (hfuel : limit source + len.toNat + 1 < fuel) :
    ∃ ended, readInternal D fuel dst offset len self = some ended ∧
      Finish (fun _ => g.Moves) source self g dst offset.toNat (offset + len).toNat ended := by
  have hbounds : outOfBounds dst offset len = false := by
    simp only [outOfBounds, decide_eq_false_iff_not]
    omega
  rw [readInternal, if_neg (by simp [hinv.is_open]), if_neg (by simp [hbounds])]
  have hscript : self.upstream.script.length ≤ limit source := by
    have hbudget := hinv.toCore.budget_le
    simp only [budget] at hbudget
    omega
  refine iterate_total
    (fun bound st => (∃ produced g', LoopInv source self g dst offset.toNat
      (offset + len).toNat st produced g') ∧ readMeasure (offset + len).toNat st = bound)
    ?_ fuel ⟨⟨[], g, hinv.loopInv_start dst (by omega)⟩, rfl⟩ ?_
  · rintro bound st ⟨⟨produced, g', hloop⟩, rfl⟩
    exact ⟨_, rfl, (hloop.readTurn_meets (by omega) (by omega)).mono
      (fun next hnext => ⟨_, hnext.2, hnext.1, rfl⟩) fun _ h => h⟩
  · have hmeasure := readMeasure_start self dst offset len
    change readMeasure _ (readStart self dst offset.toNat) < fuel
    omega

/-- Ending well from a later state, with the same content left and no more budget, is
ending well from the earlier one. -/
theorem Finish.of_later {reach reach' : State σ → Ghost → Prop} {earlier : State σ} {first : Ghost}
    {ended : Ended σ} (hfinish : Finish reach source self g dst offset dstSize ended)
    (hleft : g.left = first.left) (hcontinuous : self.isContinuous = earlier.isContinuous)
    (hscript : self.upstream.script.length ≤ earlier.upstream.script.length)
    (hbudget : budget self g ≤ budget earlier first)
    (hreach : ∀ after, reach ended.self after → reach' ended.self after) :
    Finish reach' source earlier first dst offset dstSize ended := by
  have hlater {produced : List Byte} {next : State σ} {after : Ghost}
      (hleaves : Leaves reach self g offset dstSize produced next after)
      (hnext : reach next after → reach' next after) :
      Leaves reach' earlier first offset dstSize produced next after :=
    ⟨hleft ▸ hleaves.left_eq, hleaves.fits, hleaves.dstPos_eq,
      Nat.le_trans hleaves.script_le hscript,
      hleaves.continuous_eq.trans hcontinuous, hnext hleaves.reached⟩
  cases hfinish with
  | delivered produced next after hinv hleaves hless =>
      exact .delivered produced next after hinv (hlater hleaves (hreach after))
        fun h => Nat.lt_of_lt_of_le (hless h) hbudget
  | exhausted produced next after hinv hneed hleaves hend hless hgiven hsame =>
      exact .exhausted produced next after hinv hneed (hlater hleaves (hreach after)) hend
        (hless.imp_right fun h => Nat.lt_of_lt_of_le h hscript) hgiven hsame
  | misread code dst' next hmisread => exact .misread code dst' next hmisread

section Retry

variable {offset len : ℤ} {fuel : ℕ}

/-- The loop `while (result == 0)` around `readInternal` ends, with a result other than zero,
the way its last call does.  `keep` holds of the positions between the calls, and `lost` says
how else a call may end. -/
theorem Inv.readLoop_meets (keep : State σ → Ghost → Prop) (lost : Ended σ → Prop)
    (hinv : Inv source self g) (hkeep : keep self g)
    (hlost : ∀ ended, lost ended → ended.outcome ≠ .returned 0)
    (hcall : ∀ st before, Inv source st before → keep st before → before.left = g.left →
      ∃ ended, readInternal D fuel dst offset len st = some ended ∧
        (Finish keep source st before dst offset.toNat (offset + len).toNat ended ∨ lost ended))
    (hfuel : limit source + 1 < fuel) :
    ∃ ended, readLoop D fuel dst offset len self = some ended ∧
      (Finish keep source self g dst offset.toNat (offset + len).toNat ended ∨ lost ended) ∧
      ended.outcome ≠ .returned 0 := by
  rw [readLoop]
  refine iterate_total
    (fun bound st =>
      (st.outcome ≠ .returned 0 ∧
        (Finish keep source self g dst offset.toNat (offset + len).toNat st ∨ lost st)) ∨
      (st.outcome = .returned 0 ∧ st.dst = dst ∧ ∃ before, Inv source st.self before ∧
        keep st.self before ∧ before.left = g.left ∧ st.self.isContinuous = self.isContinuous ∧
        st.self.upstream.script.length ≤ self.upstream.script.length ∧
        budget st.self before ≤ budget self g ∧ bound = budget st.self before + 1))
    ?_ fuel (.inr ⟨rfl, rfl, g, hinv, hkeep, rfl, rfl, le_rfl, le_rfl, rfl⟩) ?_
  · rintro bound st (⟨hne, hfinish⟩ |
      ⟨hzero, rfl, before, hbefore, hkept, hleft, hcontinuous, hscript, hbudget, rfl⟩)
    · exact ⟨_, if_neg hne, hfinish, hne⟩
    · obtain ⟨ended, hrun, hend⟩ := hcall st.self before hbefore hkept hleft
      refine ⟨.again ended, by rw [if_pos hzero, hrun]; rfl, ?_⟩
      rcases hend with hfinish | hgone
      · by_cases hagain : ended.outcome = .returned 0
        · cases hfinish with
          | delivered produced next after hnext hleaves hless =>
              have hnone : produced = [] := by simpa using hagain
              subst hnone
              have hspent := hless rfl
              refine ⟨budget next after + 1, by omega, .inr ⟨rfl, by simp, after, hnext,
                hleaves.reached, ?_, hleaves.continuous_eq.trans hcontinuous,
                Nat.le_trans hleaves.script_le hscript, by simp only; omega, rfl⟩⟩
              rw [← hleft, hleaves.left_eq, List.nil_append]
          | exhausted => exact absurd hagain (endOutcome_ne_zero _ _ _)
          | misread => simp at hagain
        · exact ⟨0, Nat.succ_pos _, .inl ⟨hagain,
            .inl (hfinish.of_later hleft hcontinuous hscript hbudget fun _ h => h)⟩⟩
      · exact ⟨0, Nat.succ_pos _, .inl ⟨hlost ended hgone, .inr hgone⟩⟩
  · have hbound := hinv.toCore.budget_le
    simp only
    omega

/-- The loop `while (result == 0)` around `readInternal` ends, with a result other than
zero. -/
theorem Inv.readLoop_finish (hinv : Inv source self g) (dst : List Byte) (offset len : ℤ)
    (fuel : ℕ) (hoffset : 0 ≤ offset) (hlen : 0 < len) (hfits : offset + len ≤ dst.length)
    (hfuel : limit source + len.toNat + 1 < fuel) :
    ∃ ended, readLoop D fuel dst offset len self = some ended ∧
      Finish (fun _ _ => True) source self g dst offset.toNat (offset + len).toNat ended ∧
      ended.outcome ≠ .returned 0 := by
  obtain ⟨ended, hrun, hend, hne⟩ := Inv.readLoop_meets (D := D) (fun _ _ => True) (fun _ => False)
    hinv trivial (fun _ h => h.elim)
    (fun st before hbefore _ _ => by
      obtain ⟨ended, hrun, hfinish⟩ :=
        hbefore.readInternal_finish (D := D) dst hoffset hlen hfits hfuel
      exact ⟨ended, hrun, .inl (hfinish.of_later rfl rfl le_rfl le_rfl fun _ _ => trivial)⟩)
    (by omega)
  exact ⟨ended, hrun, hend.resolve_right id, hne⟩

end Retry

/-! ## Larger budgets -/

theorem readInternal_mono {offset len : ℤ} {fuel fuel' : ℕ} {ended : Ended σ}
    (hfuel : fuel ≤ fuel') (hrun : readInternal D fuel dst offset len self = some ended) :
    readInternal D fuel' dst offset len self = some ended := by
  unfold readInternal at hrun ⊢
  split_ifs at hrun ⊢
  · exact hrun
  · exact hrun
  · exact iterate_mono (fun _ _ h => h) hfuel hrun

theorem readLoop_mono {offset len : ℤ} {fuel fuel' : ℕ} {ended : Ended σ}
    (hfuel : fuel ≤ fuel') (hrun : readLoop D fuel dst offset len self = some ended) :
    readLoop D fuel' dst offset len self = some ended := by
  refine iterate_mono (fun st t hturn => ?_) hfuel hrun
  split_ifs at hturn ⊢
  · obtain ⟨next, hnext, rfl⟩ := Option.map_eq_some_iff.mp hturn
    rw [readInternal_mono hfuel hnext]
    rfl
  · exact hturn

theorem read_mono {offset len : ℤ} {fuel fuel' : ℕ} {ended : Ended σ}
    (hfuel : fuel ≤ fuel') (hrun : read D fuel dst offset len self = some ended) :
    read D fuel' dst offset len self = some ended := by
  unfold read at hrun ⊢
  split_ifs at hrun ⊢
  · exact hrun
  · exact hrun
  · exact readLoop_mono hfuel hrun

theorem skip_mono {data : List Byte} {numBytes : ℤ} {fuel fuel' : ℕ} {ended : Ended σ}
    (hfuel : fuel ≤ fuel') (hrun : skip D fuel data numBytes self = some ended) :
    skip D fuel' data numBytes self = some ended := by
  unfold skip at hrun ⊢
  split_ifs at hrun ⊢
  · exact hrun
  · exact hrun
  · refine iterate_mono (fun st t hturn => ?_) hfuel hrun
    unfold skipTurn at hturn ⊢
    split_ifs at hturn ⊢
    · obtain ⟨next, hnext, hrest⟩ := Option.map_eq_some_iff.mp hturn
      rw [read_mono hfuel hnext, ← hrest]
      rfl
    · exact hturn

/-- A call with a result has the same result on every larger budget. -/
theorem Call.run_mono {call : Call} {fuel fuel' : ℕ} {ended : Ended σ} (hfuel : fuel ≤ fuel')
    (hrun : call.run D fuel self = some ended) : call.run D fuel' self = some ended := by
  cases call with
  | readByte =>
      obtain ⟨inner, hinner, hended⟩ := Option.map_eq_some_iff.mp hrun
      rw [Call.run, InputStream.readByte, readLoop_mono hfuel hinner, ← hended]
      rfl
  | read dst offset len => exact read_mono hfuel hrun
  | skip numBytes data => exact skip_mono hfuel hrun

theorem runCalls_cons {call : Call} {calls : List Call} {fuel : ℕ}
    {results : List (Outcome ℤ × List Byte)} {last : State σ} :
    runCalls D fuel self (call :: calls) = some (results, last) ↔
      ∃ ended later, call.run D fuel self = some ended ∧
        runCalls D fuel ended.self calls = some (later, last) ∧
        results = (ended.outcome, ended.dst) :: later := by
  simp only [runCalls, Option.bind_eq_bind, Option.pure_def]
  constructor
  · intro hall
    obtain ⟨ended, hrun, hrest⟩ := Option.bind_eq_some_iff.mp hall
    obtain ⟨⟨later, last'⟩, hlater, heq⟩ := Option.bind_eq_some_iff.mp hrest
    simp only [Option.some.injEq, Prod.mk.injEq] at heq
    obtain ⟨rfl, rfl⟩ := heq
    exact ⟨ended, later, hrun, hlater, rfl⟩
  · rintro ⟨ended, later, hrun, hlater, rfl⟩
    simp [hrun, hlater]

end ZstdJni.InputStream
