/-
# Calls of the compressing stream with a read-only target

The loop of `compress`, and the loops of `flush` and `close`.  A call throws exactly if it comes to
a turn that fails.  It leaves its target alone if nothing new is written to it while it is
installed: in `flush` and `close` that is the first turn, in `compress` there may be several.
-/

import ZstdJni.Context.ReadOnlyTargets

namespace ZstdJni.Context

open ZstdJni.Foundation ZstdJni.Native ZstdJni.CompressCtx
open ZstdJni.BufferDecompress (Buffer)
open ZstdJni.BufferCompress (FlushBuffer Ended Compressed)

variable {σ κ : Type}

section Turns

variable (E : BoundedEncoder σ κ) (flushBuffer : FlushBuffer)

/-- A turn of `compress` fails: there are bytes to come, and the native call on the target fails,
or on the next one if that is full. -/
def CompressFails (loop : BufferCompress.State σ κ × Buffer) : Prop :=
  loop.2.hasRemaining = true ∧ ∀ target, loop.1.target = some target →
    if target.hasRemaining then CallFails target (encodeReply E loop.1 target loop.2)
    else Refuses flushBuffer loop.1 target fun next =>
      next.hasRemaining = false ∨ CallFails next (encodeReply E loop.1 next loop.2)

theorem compressTurn_meets {loop : BufferCompress.State σ κ × Buffer}
    (hsource : loop.2.kind = .direct) :
    (BufferCompress.compressTurn E.toEncoder flushBuffer loop).Meets
      (fun next => next.2.kind = .direct ∧ ¬ CompressFails E flushBuffer loop)
      (fun ended => (∃ e, ended.outcome = .threw e) ↔ CompressFails E flushBuffer loop) := by
  obtain ⟨self, source⟩ := loop
  unfold BufferCompress.compressTurn CompressFails
  cases hmore : source.hasRemaining with
  | false =>
      simp only [hmore, Bool.false_eq_true, if_false, false_and, Turn.Meets]
      exact iff_of_false (fun h => by cases h.choose_spec) not_false
  | true =>
      simp only [hmore, if_true, true_and]
      cases hat : self.target with
      | none =>
          simp only [Turn.Meets]
          exact iff_of_true ⟨_, rfl⟩ fun target h => by cases h
      | some target =>
          simp only [Option.some.injEq, forall_eq']
          cases hspace : target.hasRemaining with
          | true =>
              simp only [not_true_eq_false, if_false, if_true]
              rcases compressInto_cases E self target hsource with
                ⟨hfails, e, next, hturn⟩ | ⟨hfine, next, moved, hmoved, hturn⟩
              · simp only [hturn, Turn.Meets]
                exact iff_of_true ⟨e, rfl⟩ hfails
              · simp only [hturn, Turn.Meets]
                exact ⟨hmoved, hfine⟩
          | false =>
              simp only [Bool.false_eq_true, not_false_eq_true, if_true, if_false]
              rcases flushTarget_cases flushBuffer target self with
                ⟨e, self', hflush, -, hrefuses⟩ | ⟨next, self', hflush, -, hstream, hrefuses⟩
              · simp only [hflush, Turn.Meets]
                exact iff_of_true ⟨e, rfl⟩ (hrefuses _)
              · have hreply : encodeReply E self next source = encodeReply E self' next source := by
                  rw [encodeReply, encodeReply, hstream]
                simp only [hflush, hrefuses, hreply]
                cases hroom : next.hasRemaining with
                | false =>
                    simp only [Bool.false_eq_true, not_false_eq_true, if_true, true_or, Turn.Meets,
                      iff_true]
                    exact ⟨_, rfl⟩
                | true =>
                    simp only [not_true_eq_false, if_false, Bool.true_eq_false, false_or]
                    rcases compressInto_cases E self' next hsource with
                      ⟨hfails, e, _, hturn⟩ | ⟨hfine, _, moved, hmoved, hturn⟩
                    · simp only [hturn, Turn.Meets]
                      exact iff_of_true ⟨e, rfl⟩ hfails
                    · simp only [hturn, Turn.Meets]
                      exact ⟨hmoved, hfine⟩

/-- The target behind a turn of `compress`: there is only a call if it has room, and there are
bytes to come. -/
def turnTarget (loop : BufferCompress.State σ κ × Buffer) (target : Buffer) : Buffer :=
  if loop.2.hasRemaining ∧ target.hasRemaining then
    calledTarget target (encodeReply E loop.1 target loop.2)
  else target

/-- If a turn of `compress` makes a call on the target, it spares it. -/
def TurnSpares (loop : BufferCompress.State σ κ × Buffer) : Prop :=
  ∀ target, loop.1.target = some target → loop.2.hasRemaining = true →
    target.hasRemaining = true → CallSpares target (encodeReply E loop.1 target loop.2)

variable {E} {loop : BufferCompress.State σ κ × Buffer} {target : Buffer}

theorem leftAlone_turnTarget_iff (hat : loop.1.target = some target) :
    LeftAlone target (turnTarget E loop target) ↔ TurnSpares E loop := by
  unfold turnTarget TurnSpares
  simp only [hat, Option.some.injEq, forall_eq']
  by_cases hcalls : loop.2.hasRemaining = true ∧ target.hasRemaining = true
  · rw [if_pos hcalls, leftAlone_calledTarget_iff (length_encodeReply_le E _ _ _)]
    exact ⟨fun h _ _ => h, fun h => h hcalls.1 hcalls.2⟩
  · rw [if_neg hcalls]
    exact iff_of_true ⟨rfl, rfl⟩ fun hmore hroom => absurd ⟨hmore, hroom⟩ hcalls

theorem position_le_turnTarget : target.position ≤ (turnTarget E loop target).position := by
  unfold turnTarget
  split_ifs with hcalls
  · exact position_le_calledTarget (length_encodeReply_le E _ _ _)
  · exact Nat.le_refl _

/-- What a turn of `compress` does to the target.  If it goes on with the same target, only the
position tells whether something was written. -/
theorem compressTurn_target (hat : loop.1.target = some target) (hsource : loop.2.kind = .direct) :
    (BufferCompress.compressTurn E.toEncoder flushBuffer loop).Meets
      (fun next => Installed loop.1 next.1 (turnTarget E loop target) ∧
          ((turnTarget E loop target).position = target.position →
            LeftAlone target (turnTarget E loop target)) ∨
        HandedOver loop.1 next.1 (turnTarget E loop target))
      (fun ended => Kept loop.1 ended.self (turnTarget E loop target)) := by
  obtain ⟨self, source⟩ := loop
  simp only at hat
  unfold BufferCompress.compressTurn turnTarget
  cases hmore : source.hasRemaining with
  | false =>
      simp only [hmore, Bool.false_eq_true, if_false, false_and, Turn.Meets]
      exact .inl ⟨hat, rfl, rfl⟩
  | true =>
      cases hspace : target.hasRemaining with
      | true =>
          simp only [hmore, hat, hspace, not_true_eq_false, if_false, if_true, and_self]
          rcases compressInto_cases E self target hsource with
            ⟨-, e, next, hturn⟩ | ⟨hfine, next, moved, -, hturn⟩
          · simp only [hturn, Turn.Meets]
            exact .inl ⟨rfl, rfl, rfl⟩
          · simp only [hturn, Turn.Meets]
            exact .inl
              ⟨⟨rfl, rfl, rfl⟩, leftAlone_of_position_eq (length_encodeReply_le E _ _ _) hfine⟩
      | false =>
          simp only [hmore, hat, hspace, Bool.false_eq_true, not_false_eq_true, if_true, if_false,
            and_false]
          rcases flushTarget_cases flushBuffer target self with
            ⟨e, self', hflush, hover, -⟩ | ⟨next, self', hflush, hover, -, -⟩
          · simp only [hflush, Turn.Meets]
            exact .inr hover
          · simp only [hflush]
            cases hroom : next.hasRemaining with
            | false =>
                simp only [Bool.false_eq_true, not_false_eq_true, if_true, Turn.Meets]
                exact .inr hover
            | true =>
                simp only [not_true_eq_false, if_false]
                rcases compressInto_cases E self' next hsource with
                  ⟨-, e, _, hturn⟩ | ⟨-, _, moved, -, hturn⟩
                · simp only [hturn, Turn.Meets]
                  exact .inr hover
                · simp only [hturn, Turn.Meets]
                  exact .inr hover

theorem compressTurn_handed (hsource : loop.2.kind = .direct) :
    (BufferCompress.compressTurn E.toEncoder flushBuffer loop).Meets
      (fun next => loop.1.handed <+: next.1.handed)
      (fun ended => loop.1.handed <+: ended.self.handed) := by
  cases hat : loop.1.target with
  | some target =>
      refine (compressTurn_target flushBuffer hat hsource).mono (fun next hnext => ?_)
        fun ended h =>
        h.handed_grows
      exact Kept.handed_grows (hnext.imp_left And.left)
  | none =>
      obtain ⟨self, source⟩ := loop
      unfold BufferCompress.compressTurn
      simp only at hat
      cases hmore : source.hasRemaining with
      | false =>
          simp only [hmore, Bool.false_eq_true, if_false, Turn.Meets]
          exact List.prefix_rfl
      | true =>
          simp only [hmore, hat, if_true, Turn.Meets]
          exact List.prefix_rfl

/-- The loop of `compress`. -/
abbrev compressBody (E : BoundedEncoder σ κ) (flushBuffer : FlushBuffer)
    (loop : BufferCompress.State σ κ × Buffer) :
    Option (Turn (BufferCompress.State σ κ × Buffer) (Compressed σ κ)) :=
  some (BufferCompress.compressTurn E.toEncoder flushBuffer loop)

/-- The loop of `compress` throws exactly if a turn fails. -/
theorem compressLoop_threw_iff {fuel : ℕ} {ended : Compressed σ κ} (hsource : loop.2.kind = .direct)
    (hrun : iterate (compressBody E flushBuffer) fuel loop = some ended) :
    (∃ e, ended.outcome = .threw e) ↔
      ∃ last, Visits (compressBody E flushBuffer) loop last ∧ CompressFails E flushBuffer last := by
  refine iterate_bad_iff (fun loop => loop.2.kind = .direct) (CompressFails E flushBuffer)
    (fun ended => ∃ e, ended.outcome = .threw e) ?_ hsource hrun
  intro loop t hsource hturn
  cases hturn
  exact compressTurn_meets E flushBuffer hsource

theorem compressLoop_handed {fuel : ℕ} {ended : Compressed σ κ} (hsource : loop.2.kind = .direct)
    (hrun : iterate (compressBody E flushBuffer) fuel loop = some ended) :
    loop.1.handed <+: ended.self.handed := by
  refine iterate_sound (fun next => next.2.kind = .direct ∧ loop.1.handed <+: next.1.handed)
    (fun ended => loop.1.handed <+: ended.self.handed) ?_ ⟨hsource, List.prefix_rfl⟩ hrun
  rintro state t ⟨hkind, hmore⟩ hturn
  cases hturn
  have hfails := compressTurn_meets E flushBuffer hkind
  have hhanded := compressTurn_handed (E := E) flushBuffer hkind
  cases hnext : BufferCompress.compressTurn E.toEncoder flushBuffer state with
  | again next =>
      rw [hnext] at hfails hhanded
      exact ⟨hfails.1, hmore.trans hhanded⟩
  | leave result =>
      rw [hnext] at hhanded
      exact hmore.trans hhanded

theorem visits_handed {next state : BufferCompress.State σ κ × Buffer}
    (hsource : next.2.kind = .direct)
    (hvisits : Visits (compressBody E flushBuffer) next state) :
    next.1.handed <+: state.1.handed := by
  refine (hvisits.inv (fun state => state.2.kind = .direct ∧ next.1.handed <+: state.1.handed)
    ⟨hsource, List.prefix_rfl⟩ ?_).2
  rintro state after ⟨hkind, hmore⟩ hturn
  have hfails := compressTurn_meets E flushBuffer hkind
  have hhanded := compressTurn_handed (E := E) flushBuffer hkind
  rw [Option.some.inj hturn] at hfails hhanded
  exact ⟨hfails.1, hmore.trans hhanded⟩

/-- No turn of `compress` that is taken while the target is installed writes something new to it. -/
def SparesWhileInstalled (E : BoundedEncoder σ κ) (flushBuffer : FlushBuffer)
    (loop : BufferCompress.State σ κ × Buffer) : Prop :=
  ∀ state, Visits (compressBody E flushBuffer) loop state →
    state.1.handed = loop.1.handed → TurnSpares E state

/-- What the loop of `compress` does to the target. -/
theorem compressLoop_target {fuel : ℕ} {ended : Compressed σ κ}
    (hat : loop.1.target = some target) (hsource : loop.2.kind = .direct)
    (hrun : iterate (compressBody E flushBuffer) fuel loop = some ended) :
    ∃ target', Kept loop.1 ended.self target' ∧ target.position ≤ target'.position ∧
      (LeftAlone target target' ↔ SparesWhileInstalled E flushBuffer loop) := by
  induction fuel generalizing loop target with
  | zero => simp [iterate] at hrun
  | succ fuel ih =>
      have hturn := compressTurn_target (E := E) flushBuffer hat hsource
      have hfails := compressTurn_meets E flushBuffer hsource
      have hposition : target.position ≤ (turnTarget E loop target).position :=
        position_le_turnTarget
      simp only [iterate, compressBody] at hrun
      cases hbody : BufferCompress.compressTurn E.toEncoder flushBuffer loop with
      | leave result =>
          rw [hbody] at hturn hrun
          obtain rfl := Option.some.inj hrun
          refine ⟨_, hturn, hposition, (leftAlone_turnTarget_iff hat).trans ⟨?_, ?_⟩⟩
          · intro hspares state hvisits hsame
            rcases visits_iff.mp hvisits with rfl | ⟨next, hnext, -⟩
            · exact hspares
            · rw [compressBody, hbody] at hnext
              cases hnext
          · exact fun h => h loop .start rfl
      | again next =>
          rw [hbody] at hturn hfails hrun
          have hstep : compressBody E flushBuffer loop = some (.again next) := by
            rw [compressBody, hbody]
          rcases hturn with ⟨hinstalled, hsame⟩ | hover
          · obtain ⟨target', hkept, hle, hiff⟩ := ih hinstalled.target_eq hfails.1 hrun
            refine ⟨target', hinstalled.trans hkept, hposition.trans hle, ⟨?_, ?_⟩⟩
            · intro halone
              have hfirst := hsame (Nat.le_antisymm (hle.trans halone.position_eq.le) hposition)
              intro state hvisits hhanded
              rcases visits_iff.mp hvisits with rfl | ⟨next', hnext, hvisits⟩
              · exact (leftAlone_turnTarget_iff hat).mp hfirst
              · rw [hstep] at hnext
                cases hnext
                exact hiff.mp (hfirst.symm.trans halone) state hvisits
                  (hhanded.trans hinstalled.handed_eq.symm)
            · intro hspares
              have hfirst := (leftAlone_turnTarget_iff hat).mpr (hspares loop .start rfl)
              refine hfirst.trans (hiff.mpr fun state hvisits hhanded => ?_)
              exact hspares state (visits_iff.mpr (.inr ⟨next, hstep, hvisits⟩))
                (hhanded.trans hinstalled.handed_eq)
          · refine ⟨_, .inr (hover.mono (compressLoop_handed flushBuffer hfails.1 hrun)),
              hposition, (leftAlone_turnTarget_iff hat).trans ⟨?_, ?_⟩⟩
            · intro hspares state hvisits hhanded
              rcases visits_iff.mp hvisits with rfl | ⟨next', hnext, hvisits⟩
              · exact hspares
              · rw [hstep] at hnext
                cases hnext
                exact absurd hhanded (hover.handed_ne (visits_handed flushBuffer hfails.1 hvisits))
            · exact fun h => h loop .start rfl

/-- The loop of `compress` spares the target: nothing new is written to it while it is installed,
and a turn fails. -/
def CompressSpares (E : BoundedEncoder σ κ) (flushBuffer : FlushBuffer)
    (loop : BufferCompress.State σ κ × Buffer) : Prop :=
  SparesWhileInstalled E flushBuffer loop ∧
    ∃ last, Visits (compressBody E flushBuffer) loop last ∧ CompressFails E flushBuffer last

theorem compressLoop_protects_iff {fuel : ℕ} {ended : Compressed σ κ}
    (hat : loop.1.target = some target) (hsource : loop.2.kind = .direct)
    (hrun : iterate (compressBody E flushBuffer) fuel loop = some ended) :
    Protects loop.1 target ended.outcome ended.self ↔ CompressSpares E flushBuffer loop := by
  obtain ⟨target', hkept, -, halone⟩ := compressLoop_target flushBuffer hat hsource hrun
  rw [protects_iff hkept.targetAfter, halone, compressLoop_threw_iff flushBuffer hsource hrun]
  exact And.comm

/-- The stream when the loop of `compress` begins. -/
def begun (E : BoundedEncoder σ κ) (self : BufferCompress.State σ κ) : BufferCompress.State σ κ :=
  if self.initialized then self
  else { self with stream := (E.configure self.stream self.init).1, initialized := true }

theorem begun_target (self : BufferCompress.State σ κ) : (begun E self).target = self.target := by
  unfold begun
  split_ifs
  · rfl
  · rfl

theorem begun_handed (self : BufferCompress.State σ κ) : (begun E self).handed = self.handed := by
  unfold begun
  split_ifs
  · rfl
  · rfl

/-- `compress` protects the target exactly if it is refused, cannot begin the session, or its loop
spares the target. -/
theorem compress_protects_iff {fuel : ℕ} {self : BufferCompress.State σ κ} {source : Buffer}
    {ended : Compressed σ κ} (hat : self.target = some target)
    (hrun : BufferCompress.compress E.toEncoder flushBuffer fuel source self = some ended) :
    Protects self target ended.outcome ended.self ↔
      source.kind ≠ .direct ∨ self.closed = true ∨
        (self.initialized = false ∧
          isError (jlong (E.configure self.stream self.init).2) = true) ∨
        CompressSpares E flushBuffer (begun E self, source) := by
  have hinstalled {self' : BufferCompress.State σ κ} (htarget : self'.target = self.target)
      (hhanded : self'.handed = self.handed) (e : JavaException) :
      Protects self target (.threw e) self' := by
    refine ⟨target, ?_, protectedTarget_of_threw target e⟩
    rw [targetAfter, hhanded, List.drop_length, htarget]
    exact hat
  unfold BufferCompress.compress at hrun
  by_cases hkind : source.kind ≠ .direct
  · rw [if_pos hkind] at hrun
    obtain rfl := Option.some.inj hrun
    exact iff_of_true (hinstalled rfl rfl _) (.inl hkind)
  rw [if_neg hkind] at hrun
  rw [or_iff_right hkind]
  have hloop
    (hrun : iterate (compressBody E flushBuffer) fuel (begun E self, source) = some ended) :
      Protects self target ended.outcome ended.self ↔
        CompressSpares E flushBuffer (begun E self, source) := by
    have hspares := compressLoop_protects_iff flushBuffer ((begun_target self).trans hat)
      (not_not.mp hkind) hrun
    rwa [Protects, targetAfter, begun_handed] at hspares
  cases hclosed : self.closed with
  | true =>
      rw [if_pos hclosed] at hrun
      obtain rfl := Option.some.inj hrun
      exact iff_of_true (hinstalled rfl rfl _) (.inl rfl)
  | false =>
      rw [if_neg (by simp [hclosed])] at hrun
      rw [or_iff_right Bool.false_ne_true]
      cases hinit : self.initialized with
      | true =>
          rw [if_pos hinit] at hrun
          rw [or_iff_right (fun h => Bool.false_ne_true h.1.symm)]
          exact hloop (by rw [begun, if_pos hinit]; exact hrun)
      | false =>
          rw [if_neg (by simp [hinit])] at hrun
          simp only [true_and]
          cases herror : isError (jlong (E.configure self.stream self.init).2) with
          | true =>
              simp only [herror, if_true] at hrun
              obtain rfl := Option.some.inj hrun
              exact iff_of_true (hinstalled rfl rfl _) (.inl rfl)
          | false =>
              simp only [herror, Bool.false_eq_true, if_false] at hrun
              rw [or_iff_right Bool.false_ne_true]
              exact hloop (by rw [begun, if_neg (by simp [hinit])]; exact hrun)

end Turns

section Drain

variable (E : BoundedEncoder σ κ) (flushBuffer : FlushBuffer) (directive : Directive)

/-- A turn of `flush` or `close` fails: the native call does, or `flushBuffer` does not answer with
a direct buffer, which must have room if there is more to come. -/
def DrainFails (self : BufferCompress.State σ κ) : Prop :=
  ∀ target, self.target = some target →
    CallFails target (drainReply E directive self target) ∨
    Refuses flushBuffer self (calledTarget target (drainReply E directive self target)) fun next =>
      0 < jlong (drainReply E directive self target).ret ∧ next.hasRemaining = false

/-- The loops of `flush` and `close`. -/
abbrev drainBody (self : BufferCompress.State σ κ) :
    Option (Turn (BufferCompress.State σ κ) (Ended σ κ)) :=
  some (BufferCompress.drainTurn flushBuffer (fun stream target =>
    BufferCompress.drainStream E.toEncoder stream target directive) self)

variable {E} {self : BufferCompress.State σ κ} {target : Buffer}

theorem drainFails_iff (hat : self.target = some target) :
    DrainFails E flushBuffer directive self ↔
      CallFails target (drainReply E directive self target) ∨
      Refuses flushBuffer self (calledTarget target (drainReply E directive self target))
        fun next =>
        0 < jlong (drainReply E directive self target).ret ∧ next.hasRemaining = false := by
  unfold DrainFails
  simp only [hat, Option.some.injEq, forall_eq']

/-- What a turn of `flush` or `close` does to the target, and when it throws. -/
theorem drainTurn_meets (hat : self.target = some target) :
    (BufferCompress.drainTurn flushBuffer (fun stream target =>
      BufferCompress.drainStream E.toEncoder stream target directive) self).Meets
      (fun next => ¬ DrainFails E flushBuffer directive self ∧
        HandedOver self next (calledTarget target (drainReply E directive self target)))
      (fun ended => ((∃ e, ended.outcome = .threw e) ↔ DrainFails E flushBuffer directive self) ∧
        Kept self ended.self (calledTarget target (drainReply E directive self target))) := by
  have hroom : (drainReply E directive self target).emitted.length ≤ target.room :=
    E.emitted_le _ _ _ _
  rw [drainFails_iff flushBuffer directive hat]
  unfold BufferCompress.drainTurn
  simp only [hat]
  by_cases hkind : target.kind = .direct
  · have hdrained := BufferCompress.drainStream_eq E.toEncoder self.stream directive hkind
    unfold BufferCompress.encodeRoom at hdrained
    simp only [hdrained]
    cases herror : isError (jlong (drainReply E directive self target).ret) with
    | true =>
        have herror' :
            isError (jlong (E.encode self.stream directive [] target.room).2.ret) = true := herror
        simp only [herror', if_true, Turn.Meets]
        refine ⟨iff_of_true ⟨_, rfl⟩ (.inl (.inr herror)), .inl ⟨?_, rfl, rfl⟩⟩
        rw [calledTarget, if_neg (not_not.mpr hkind), if_pos herror]
        rfl
    | false =>
        have herror' :
            isError (jlong (E.encode self.stream directive [] target.room).2.ret) = false := herror
        have hposition := BufferCompress.setPosition_filled hroom
        have hcalled : calledTarget target (drainReply E directive self target) =
            target.filled (drainReply E directive self target).emitted := by
          rw [calledTarget, if_neg (not_not.mpr hkind), if_neg (by simp [herror])]
        have hfine : ¬ CallFails target (drainReply E directive self target) :=
          fun h => h.elim (absurd hkind) (by simp [herror])
        rw [or_iff_right hfine, hcalled]
        unfold drainReply at hposition ⊢
        simp only [herror', Bool.false_eq_true, if_false, hposition]
        rcases flushTarget_cases flushBuffer
          (target.filled (E.encode self.stream directive [] target.room).2.emitted)
          { self with
            stream := (E.encode self.stream directive [] target.room).1
            target :=
              some (target.filled (E.encode self.stream directive [] target.room).2.emitted) }
          with ⟨e, self', hflush, hover, hrefuses⟩ | ⟨next, self', hflush, hover, -, hrefuses⟩
        · simp only [hflush, Turn.Meets]
          exact ⟨iff_of_true ⟨e, rfl⟩ (hrefuses _), .inr hover⟩
        · have hunfit : Refuses flushBuffer self
              (target.filled (E.encode self.stream directive [] target.room).2.emitted)
              (fun next => 0 < jlong (E.encode self.stream directive [] target.room).2.ret ∧
                next.hasRemaining = false) ↔ _ := hrefuses _
          simp only [hflush, hunfit]
          by_cases hmore : 0 < jlong (E.encode self.stream directive [] target.room).2.ret
          · cases hspace : next.hasRemaining with
            | false =>
                simp only [hmore, Bool.false_eq_true, not_false_eq_true, if_true, Turn.Meets,
                  and_self, iff_true]
                exact ⟨⟨_, rfl⟩, .inr hover⟩
            | true =>
                simp only [hmore, not_true_eq_false, if_true, if_false, Turn.Meets,
                  Bool.true_eq_false, and_false, not_false_eq_true, true_and]
                exact hover
          · simp only [hmore, if_false, false_and, Turn.Meets, iff_false]
            refine ⟨?_, .inr hover⟩
            rintro ⟨e, h⟩
            cases h
  · have herror : isError (jlong ErrorCode.dstSizeTooSmall.result) = true := by decide
    simp only [drainStream_refused E self.stream directive hkind, BufferCompress.refused, herror,
      if_true, Turn.Meets]
    refine ⟨iff_of_true ⟨_, rfl⟩ (.inl (.inl hkind)), .inl ⟨?_, rfl, rfl⟩⟩
    rw [calledTarget, if_pos hkind]

theorem drainTurn_handed (self : BufferCompress.State σ κ) :
    (BufferCompress.drainTurn flushBuffer (fun stream target =>
      BufferCompress.drainStream E.toEncoder stream target directive) self).Meets
      (fun next => self.handed <+: next.handed)
      (fun ended => self.handed <+: ended.self.handed) := by
  cases hat : self.target with
  | some target =>
      exact (drainTurn_meets flushBuffer directive hat).mono
        (fun next h => Kept.handed_grows (.inr h.2)) fun ended h => h.2.handed_grows
  | none =>
      unfold BufferCompress.drainTurn
      simp only [hat, Turn.Meets]
      exact List.prefix_rfl

theorem drainTurn_fails (self : BufferCompress.State σ κ) :
    (BufferCompress.drainTurn flushBuffer (fun stream target =>
      BufferCompress.drainStream E.toEncoder stream target directive) self).Meets
      (fun _ => True ∧ ¬ DrainFails E flushBuffer directive self)
      (fun ended => (∃ e, ended.outcome = .threw e) ↔ DrainFails E flushBuffer directive self) := by
  cases hat : self.target with
  | some target =>
      exact (drainTurn_meets flushBuffer directive hat).mono (fun next h => ⟨trivial, h.1⟩)
        fun ended h => h.1
  | none =>
      unfold BufferCompress.drainTurn
      simp only [hat, Turn.Meets]
      exact iff_of_true ⟨_, rfl⟩ fun target h => by rw [hat] at h; cases h

/-- `flush` or `close` spares the target: the first native call does, and a turn fails. -/
def DrainSpares (E : BoundedEncoder σ κ) (flushBuffer : FlushBuffer) (directive : Directive)
    (self : BufferCompress.State σ κ) (target : Buffer) : Prop :=
  CallSpares target (drainReply E directive self target) ∧
    ∃ last, Visits (drainBody E flushBuffer directive) self last ∧
      DrainFails E flushBuffer directive last

/-- The loops of `flush` and `close` protect the target exactly if they spare it. -/
theorem drainLoop_protects_iff {fuel : ℕ} {ended : Ended σ κ} (hat : self.target = some target)
    (hrun : iterate (drainBody E flushBuffer directive) fuel self = some ended) :
    Protects self target ended.outcome ended.self ↔
      DrainSpares E flushBuffer directive self target := by
  have hthrew : (∃ e, ended.outcome = .threw e) ↔
      ∃ last, Visits (drainBody E flushBuffer directive) self last ∧
        DrainFails E flushBuffer directive last := by
    refine iterate_bad_iff (fun _ => True) (DrainFails E flushBuffer directive)
      (fun ended => ∃ e, ended.outcome = .threw e) ?_ trivial hrun
    intro state t _ hturn
    cases hturn
    exact drainTurn_fails flushBuffer directive state
  have hkept : Kept self ended.self (calledTarget target (drainReply E directive self target)) := by
    have hturn := drainTurn_meets (E := E) flushBuffer directive hat
    cases fuel with
    | zero => simp [iterate] at hrun
    | succ fuel =>
        simp only [iterate, drainBody] at hrun
        cases hbody : BufferCompress.drainTurn flushBuffer (fun stream target =>
            BufferCompress.drainStream E.toEncoder stream target directive) self with
        | leave result =>
            rw [hbody] at hturn hrun
            obtain rfl := Option.some.inj hrun
            exact hturn.2
        | again next =>
            rw [hbody] at hturn hrun
            refine .inr (hturn.2.mono ?_)
            refine iterate_sound (fun state => next.handed <+: state.handed)
              (fun ended => next.handed <+: ended.self.handed) ?_ List.prefix_rfl hrun
            intro state t hmore hstep
            cases hstep
            exact (drainTurn_handed flushBuffer directive state).mono
              (fun _ h => hmore.trans h) fun _ h => hmore.trans h
  have hroom : (drainReply E directive self target).emitted.length ≤ target.room :=
    E.emitted_le _ _ _ _
  rw [protects_iff hkept.targetAfter, leftAlone_calledTarget_iff hroom, hthrew]
  exact And.comm

/-- `flush` protects the target exactly if the stream is closed, or a session is initialized and
the loop spares the target. -/
theorem flush_protects_iff {fuel : ℕ} {ended : Ended σ κ} (hat : self.target = some target)
    (hrun : BufferCompress.flush E.toEncoder flushBuffer fuel self = some ended) :
    Protects self target ended.outcome ended.self ↔
      self.closed = true ∨
        (self.initialized = true ∧ DrainSpares E flushBuffer .flush self target) := by
  unfold BufferCompress.flush at hrun
  cases hclosed : self.closed with
  | true =>
      rw [if_pos hclosed] at hrun
      obtain rfl := Option.some.inj hrun
      have hkept : Kept self self target := .inl ⟨hat, rfl, rfl⟩
      exact iff_of_true ((protects_iff hkept.targetAfter).mpr ⟨⟨_, rfl⟩, rfl, rfl⟩) (.inl rfl)
  | false =>
      rw [if_neg (by simp [hclosed])] at hrun
      rw [or_iff_right Bool.false_ne_true]
      cases hinit : self.initialized with
      | true =>
          rw [if_pos hinit] at hrun
          rw [and_iff_right rfl]
          exact drainLoop_protects_iff flushBuffer .flush hat hrun
      | false =>
          rw [if_neg (by simp [hinit])] at hrun
          obtain rfl := Option.some.inj hrun
          refine iff_of_false ?_ fun h => Bool.false_ne_true h.1
          rintro ⟨_, -, hprotected⟩
          cases hprotected.threw.choose_spec

/-- `close` on an open stream up to its `finally` block, which forgets the target. -/
def closeBody (E : BoundedEncoder σ κ) (flushBuffer : FlushBuffer) (fuel : ℕ)
    (self : BufferCompress.State σ κ) : Option (Ended σ κ) :=
  if self.initialized then iterate (drainBody E flushBuffer .finish) fuel self
  else some ⟨.returned (), self⟩

theorem close_eq_closeBody (fuel : ℕ) (hopen : self.closed = false) :
    BufferCompress.close E.toEncoder flushBuffer fuel self =
      (closeBody E flushBuffer fuel self).map fun ended =>
        { ended with self := ended.self.released } := by
  unfold BufferCompress.close
  rw [if_neg (by simp [hopen])]
  rfl

/-- `close` protects the target exactly if a session is initialized and the loop spares the
target. -/
theorem closeBody_protects_iff {fuel : ℕ} {ended : Ended σ κ} (hat : self.target = some target)
    (hrun : closeBody E flushBuffer fuel self = some ended) :
    Protects self target ended.outcome ended.self ↔
      self.initialized = true ∧ DrainSpares E flushBuffer .finish self target := by
  unfold closeBody at hrun
  cases hinit : self.initialized with
  | true =>
      rw [if_pos hinit] at hrun
      rw [and_iff_right rfl]
      exact drainLoop_protects_iff flushBuffer .finish hat hrun
  | false =>
      rw [if_neg (by simp [hinit])] at hrun
      obtain rfl := Option.some.inj hrun
      refine iff_of_false ?_ fun h => Bool.false_ne_true h.1
      rintro ⟨_, -, hprotected⟩
      cases hprotected.threw.choose_spec

end Drain

end ZstdJni.Context
