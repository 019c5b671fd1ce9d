/-
# Closing the wrapped stream

`close()` finishes the frame before it closes the wrapped stream, and both stand in the
same `try`.  So a failure while the frame is finished (of the reset, of a call of
`endStream` or of `out.write`) passes over `out.close()`, and the `finally` only releases
what the library owns.

A run is any sequence of calls, whatever fails in it.  The wrapped stream is closed by the
first `close()` exactly if the frame can be finished, and by no later call.
-/

import ZstdJni.Foundation.Machine
import ZstdJni.OutputStream.Stable

namespace ZstdJni.OutputStream

open ZstdJni.Foundation ZstdJni.Native

variable {σ : Type} {E : Encoder σ Setting Byte Byte}

/-- The compressor, driven by `ZSTD_e_end` from a session on, comes to the end of the frame
without an error, and the wrapped stream, some of whose next calls throw, takes every piece
of it. -/
inductive Finishes (E : Encoder σ Setting Byte Byte) : σ → List Bool → Prop
  | piece {s : σ} {faults : List Bool}
      (hok : isError (jint (E.encode s .finish [] dstSize).2.ret) = false)
      (htaken : faults.head? ≠ some true)
      (hrest : 0 < jint (E.encode s .finish [] dstSize).2.ret →
        Finishes E (E.encode s .finish [] dstSize).1 faults.tail) : Finishes E s faults

/-- No call that `close()` makes before it comes to the wrapped stream fails: the reset if no
frame was ever started, and the calls that finish the frame that is open then. -/
def FinishesFrame (E : Encoder σ Setting Byte Byte) (self : State σ) : Prop :=
  if self.frameStarted then self.frameClosed = true ∨ Finishes E self.stream self.out.faults
  else isError (jint (E.reset self.stream).2) = false ∧
    Finishes E (E.reset self.stream).1 self.out.faults

/-- A call on a stream that does not close it. -/
inductive Use (σ : Type)
  | op (op : Op)
  | setDict (acquired : Outcome Unit) (load : σ → σ × ℕ)

/-- What a call does. -/
def Use.run (E : Encoder σ Setting Byte Byte) (fuel : ℕ) (self : State σ) : Use σ → Option (Ended σ)
  | .op call => call.run E fuel self
  | .setDict acquired load => some (OutputStream.setDict acquired load self)

/-- A call on a stream, with the fuel for its loops. -/
inductive Call (σ : Type)
  | use (use : Use σ) (fuel : ℕ)
  | close (closeParentStream : Bool) (fuel : ℕ)

/-- The stream under any sequence of calls, whatever they throw. -/
def machine (E : Encoder σ Setting Byte Byte) : Machine (State σ) (Call σ) (Outcome Unit) where
  step self
    | .use use fuel => (use.run E fuel self).map fun ended => (ended.outcome, ended.self)
    | .close closeParentStream fuel =>
      (close E fuel closeParentStream self).map fun ended => (ended.outcome, ended.self)

/-- The stream after its construction and calls other than `close`. -/
def afterUses (E : Encoder σ Setting Byte Byte) (stream : σ) (out : Sink) (dst : List Byte)
    (uses : List (Use σ × ℕ)) : State σ :=
  ((machine E).run (State.create stream out dst) (uses.map fun p => .use p.1 p.2)).2

/-- The wrapped stream was not closed on the way, and neither was the stream. -/
structure Keeps (before after : State σ) : Prop where
  closes_eq : after.out.closes = before.out.closes
  isClosed_eq : after.isClosed = before.isClosed

theorem Keeps.refl (self : State σ) : Keeps self self := ⟨rfl, rfl⟩

theorem Keeps.trans {first second third : State σ} (h : Keeps first second)
    (h' : Keeps second third) : Keeps first third :=
  ⟨h'.closes_eq.trans h.closes_eq, h'.isClosed_eq.trans h.isClosed_eq⟩

/-- A call of the wrapped stream that does not close it. -/
theorem Sink.call_closes {effect : Sink → Sink}
    (heffect : ∀ sink, (effect sink).closes = sink.closes)
    (sink : Sink) : (sink.call effect).2.closes = sink.closes := by
  unfold Sink.call
  cases sink.faults with
  | nil => exact heffect sink
  | cons fault rest =>
      cases fault with
      | true => rfl
      | false => exact heffect _

theorem Sink.write_closes (bytes : List Byte) (sink : Sink) :
    (sink.write bytes).2.closes = sink.closes := by
  unfold Sink.write
  apply Sink.call_closes
  intro sink
  rfl

theorem Sink.flush_closes (sink : Sink) : sink.flush.2.closes = sink.closes := by
  unfold Sink.flush
  apply Sink.call_closes
  intro sink
  rfl

/-- Handing over the destination buffer succeeds exactly if the next call of the wrapped
stream does not throw, and takes that call off. -/
theorem writeOut_spec (self : State σ) :
    (writeOut self).2.stream = self.stream ∧ Keeps self (writeOut self).2 ∧
    ((self.out.faults.head? ≠ some true ∧ (writeOut self).1 = .returned () ∧
        (writeOut self).2.out.faults = self.out.faults.tail) ∨
      (self.out.faults.head? = some true ∧ (writeOut self).1 = .threw sinkFault)) := by
  refine ⟨rfl, ⟨Sink.write_closes _ self.out, rfl⟩, ?_⟩
  unfold writeOut Sink.write Sink.call
  cases hfaults : self.out.faults with
  | nil => exact .inl ⟨by simp, rfl, hfaults⟩
  | cons fault rest =>
      cases fault with
      | true => exact .inr ⟨rfl, rfl⟩
      | false => exact .inl ⟨by simp, rfl, rfl⟩

/-- No action of a method other than `close` closes one of the streams. -/
theorem keeps_stable (start : State σ) : Stable E (Keeps start) where
  reset _ h := ⟨h.closes_eq, h.isClosed_eq⟩
  compress _ _ _ h := ⟨h.closes_eq, h.isClosed_eq⟩
  drain _ _ h := ⟨h.closes_eq, h.isClosed_eq⟩
  configure _ _ h := ⟨h.closes_eq, h.isClosed_eq⟩
  writeOut st h := h.trans (writeOut_spec st).2.1
  flushOut st h := h.trans ⟨Sink.flush_closes st.out, rfl⟩
  assign _ _ _ _ _ h := ⟨h.closes_eq, h.isClosed_eq⟩

/-- Setting a dictionary changes nothing but the native stream, and that only if the stream is
open. -/
theorem setDict_self (acquired : Outcome Unit) (load : σ → σ × ℕ) (self : State σ) :
    (setDict acquired load self).self = self ∨ self.isClosed = false ∧
      (setDict acquired load self).self = { self with stream := (load self.stream).1 } := by
  unfold setDict
  split
  · exact .inl rfl
  · next hopen =>
      split
      · exact .inl rfl
      · split
        · exact .inl rfl
        · right
          simp only
          split
          · exact ⟨Bool.eq_false_iff.mpr hopen, rfl⟩
          · exact ⟨Bool.eq_false_iff.mpr hopen, rfl⟩

/-- A call other than `close`, whatever it throws. -/
theorem use_keeps {use : Use σ} {fuel : ℕ} {self : State σ} {ended : Ended σ}
    (hrun : use.run E fuel self = some ended) : Keeps self ended.self := by
  cases use with
  | op op => exact (keeps_stable self).op_inv (Keeps.refl self) hrun
  | setDict acquired load =>
      obtain rfl := Option.some.inj hrun
      rcases setDict_self acquired load self with hself | ⟨-, hself⟩
      · rw [hself]
        exact Keeps.refl self
      · rw [hself]
        exact ⟨rfl, rfl⟩

/-- The loop that finishes the frame ends without an exception exactly if nothing fails in
it. -/
theorem drain_returned_iff {fuel : ℕ} {self : State σ} {ended : Ended σ}
    (hdrain : drain (endStream E) fuel self = some ended) :
    ended.outcome = .returned () ↔ Finishes E self.stream self.out.faults := by
  refine iterate_sound
    (fun st => Finishes E st.stream st.out.faults ↔ Finishes E self.stream self.out.faults)
    (fun ended => ended.outcome = .returned () ↔ Finishes E self.stream self.out.faults)
    ?_ Iff.rfl hdrain
  intro st turn hst hturn
  obtain rfl := Option.some.inj hturn
  rw [← hst]
  obtain ⟨hstream, -, hwrite⟩ := writeOut_spec (endStream E st).2
  have hfaults : (endStream E st).2.out.faults = st.out.faults := rfl
  rw [hfaults] at hwrite
  unfold drainTurn
  simp only
  split
  · next herror =>
      refine iff_of_false (by simp) fun hfinishes => ?_
      obtain ⟨hok, -, -⟩ := hfinishes
      exact absurd (herror.symm.trans hok) (by simp)
  · next herror =>
      have hok : isError (jint (E.encode st.stream .finish [] dstSize).2.ret) = false :=
        Bool.eq_false_iff.mpr herror
      rcases hwrite with ⟨htaken, houtcome, htail⟩ | ⟨hfault, houtcome⟩
      · rw [show writeOut (endStream E st).2 = (.returned (), (writeOut (endStream E st).2).2) from
          Prod.ext houtcome rfl]
        have hnext : Finishes E st.stream st.out.faults ↔
            (0 < jint (E.encode st.stream .finish [] dstSize).2.ret →
              Finishes E (E.encode st.stream .finish [] dstSize).1 st.out.faults.tail) :=
          ⟨fun ⟨_, _, hrest⟩ => hrest, .piece hok htaken⟩
        by_cases hmore : 0 < (endStream E st).1
        · simp only [if_pos hmore, Turn.Meets]
          rw [hstream, htail, hnext]
          exact ⟨fun h _ => h, fun h => h hmore⟩
        · simp only [if_neg hmore, Turn.Meets, true_iff]
          exact hnext.mpr fun h => absurd h hmore
      · rw [show writeOut (endStream E st).2 = (.threw sinkFault, (writeOut (endStream E st).2).2)
          from Prod.ext houtcome rfl]
        refine iff_of_false (by simp) fun hfinishes => ?_
        obtain ⟨-, htaken, -⟩ := hfinishes
        exact htaken hfault

/-- How often the wrapped stream is closed. -/
def closeCount (closeParentStream : Bool) : ℕ := if closeParentStream then 1 else 0

/-- `out.close()` counts whether or not it throws. -/
theorem closeParent_closes (closeParentStream : Bool) (self : State σ) :
    (closeParent closeParentStream self).self.out.closes =
      self.out.closes + closeCount closeParentStream := by
  unfold closeParent
  cases closeParentStream with
  | false => rfl
  | true =>
      have hcloses : ∀ sink : Sink, (sink.call id).2.closes = sink.closes :=
        Sink.call_closes fun _ => rfl
      exact hcloses { self.out with closes := self.out.closes + 1 }

/-- The part of `close` from the frame that is open on. -/
theorem closeOpen_closes_iff {closeParentStream : Bool} {fuel : ℕ} {self : State σ}
    {ended last : Ended σ} (hdrain : drain (endStream E) fuel self = some ended)
    (hlast : ended.andThen (fun st => some (closeParent closeParentStream st)) = some last) :
    last.self.out.closes = self.out.closes + closeCount closeParentStream ↔
      (closeParentStream = true → Finishes E self.stream self.out.faults) := by
  have hreturned := drain_returned_iff hdrain
  have hkeeps := (keeps_stable self).drain_inv (Keeps.refl self) hdrain
  unfold Ended.andThen at hlast
  split at hlast
  · next e houtcome =>
      obtain rfl := Option.some.inj hlast
      have hfails : ¬ Finishes E self.stream self.out.faults := by
        rw [← hreturned, houtcome]
        simp
      simp only [hkeeps.closes_eq]
      cases closeParentStream with
      | false => exact iff_of_true rfl (fun h => absurd h (by simp))
      | true => exact iff_of_false (by simp [closeCount]) (fun h => hfails (h rfl))
  · next houtcome =>
      obtain rfl := Option.some.inj hlast
      rw [closeParent_closes, hkeeps.closes_eq]
      exact iff_of_true rfl fun _ => hreturned.mp houtcome

/-- The body of `close` closes the wrapped stream exactly if the frame can be finished. -/
theorem closeBody_closes_iff {closeParentStream : Bool} {fuel : ℕ} {self : State σ}
    {ended : Ended σ} (hbody : closeBody E fuel closeParentStream self = some ended) :
    ended.self.out.closes = self.out.closes + closeCount closeParentStream ↔
      (closeParentStream = true → FinishesFrame E self) := by
  unfold closeBody beginEmptyFrame at hbody
  unfold FinishesFrame
  by_cases hstarted : self.frameStarted = true
  · simp only [if_pos hstarted, Ended.andThen] at hbody ⊢
    by_cases hclosed : self.frameClosed = true
    · rw [if_pos hclosed] at hbody
      obtain rfl := Option.some.inj hbody
      exact iff_of_true (closeParent_closes _ _) fun _ => .inl hclosed
    · rw [if_neg hclosed] at hbody
      obtain ⟨drained, hdrain, hrest⟩ := Option.bind_eq_some_iff.mp hbody
      rw [closeOpen_closes_iff hdrain hrest, or_iff_right hclosed]
  · simp only [if_neg hstarted] at hbody ⊢
    by_cases herror : isError (resetCStream E self).1 = true
    · simp only [if_pos herror, Ended.andThen, Option.some.injEq] at hbody
      obtain rfl := hbody
      cases closeParentStream with
      | false => exact iff_of_true rfl (fun h => absurd h (by simp))
      | true =>
          refine iff_of_false (by simp [closeCount, resetCStream]) fun h => ?_
          exact absurd (herror.symm.trans (h rfl).1) (by simp)
    · simp only [if_neg herror, Ended.andThen, Bool.false_eq_true, if_false] at hbody
      obtain ⟨drained, hdrain, hrest⟩ := Option.bind_eq_some_iff.mp hbody
      have hok : isError (jint (E.reset self.stream).2) = false := Bool.eq_false_iff.mpr herror
      rw [and_iff_right hok]
      exact closeOpen_closes_iff hdrain hrest

/-- Closing an open stream closes the wrapped one exactly if the frame can be finished; the
stream is closed in any case. -/
theorem close_closes_iff {closeParentStream : Bool} {fuel : ℕ} {self : State σ} {ended : Ended σ}
    (hopen : self.isClosed = false) (hclose : close E fuel closeParentStream self = some ended) :
    (ended.self.out.closes = self.out.closes + closeCount closeParentStream ↔
      (closeParentStream = true → FinishesFrame E self)) ∧ ended.self.isClosed = true := by
  unfold close at hclose
  rw [hopen, if_neg (by simp)] at hclose
  obtain ⟨body, hbody, rfl⟩ := Option.map_eq_some_iff.mp hclose
  have hiff := closeBody_closes_iff hbody
  exact ⟨hiff, rfl⟩

/-- Calls other than `close` leave the wrapped stream and the stream open. -/
theorem keeps_afterUses (stream : σ) (out : Sink) (dst : List Byte) (uses : List (Use σ × ℕ)) :
    Keeps (State.create stream out dst) (afterUses E stream out dst uses) := by
  unfold afterUses
  generalize State.create stream out dst = start
  induction uses generalizing start with
  | nil => exact Keeps.refl start
  | cons first uses ih =>
      rw [List.map_cons, Machine.run]
      cases hrun : first.1.run E first.2 start with
      | none =>
          have hstep : (machine E).step start (.use first.1 first.2) = none := by
            simp [machine, hrun]
          simp only [hstep]
          exact ih start
      | some ended =>
          have hstep : (machine E).step start (.use first.1 first.2) =
              some (ended.outcome, ended.self) := by
            simp [machine, hrun]
          simp only [hstep]
          exact (use_keeps hrun).trans (ih ended.self)

/-- No call on a closed stream touches how often the wrapped stream was closed. -/
theorem run_closes_of_closed {self : State σ} (hclosed : self.isClosed = true)
    (calls : List (Call σ)) :
    ((machine E).run self calls).2.out.closes = self.out.closes := by
  refine (Machine.run_inv (M := machine E)
    (fun _ st => st.isClosed = true ∧ st.out.closes = self.out.closes) ?_ ⟨hclosed, rfl⟩ calls).2
  rintro events st call event next ⟨hst, hcloses⟩ hstep
  cases call with
  | use use fuel =>
      obtain ⟨ended, hrun, hnext⟩ := Option.map_eq_some_iff.mp hstep
      obtain ⟨rfl, rfl⟩ := Prod.mk.inj hnext
      have hkeeps := use_keeps hrun
      exact ⟨hkeeps.isClosed_eq.trans hst, hkeeps.closes_eq.trans hcloses⟩
  | close closeParentStream fuel =>
      obtain ⟨ended, hrun, hnext⟩ := Option.map_eq_some_iff.mp hstep
      obtain ⟨rfl, rfl⟩ := Prod.mk.inj hnext
      rw [close, if_pos hst] at hrun
      obtain rfl := Option.some.inj hrun
      exact ⟨hst, hcloses⟩

/-- After any calls, whatever failed in them, the first `close` has closed the wrapped stream
exactly once (not at all if it is to be left open) exactly if the frame can be finished; no
later call makes up for it. -/
theorem parent_closed_iff (E : Encoder σ Setting Byte Byte) (stream : σ) (out : Sink)
    (dst : List Byte) (uses : List (Use σ × ℕ)) (closeParentStream : Bool) (fuel : ℕ)
    (ended : Ended σ)
    (hclose : close E fuel closeParentStream (afterUses E stream out dst uses) = some ended)
    (later : List (Call σ)) :
    (ended.self.out.closes = out.closes + closeCount closeParentStream ↔
      (closeParentStream = true → FinishesFrame E (afterUses E stream out dst uses))) ∧
    ((machine E).run ended.self later).2.out.closes = ended.self.out.closes := by
  have hkeeps := keeps_afterUses (E := E) stream out dst uses
  obtain ⟨hiff, hclosed⟩ := close_closes_iff hkeeps.isClosed_eq hclose
  rw [hkeeps.closes_eq] at hiff
  exact ⟨hiff, run_closes_of_closed hclosed later⟩

/-- A compressor that finishes a frame by one byte. -/
def oneByte : Encoder Unit Setting Byte Byte where
  encode := fun _ _ input _ => ((), ⟨input.length, [0], 0⟩)
  reset := fun _ => ((), 0)
  configure := fun _ _ => ((), 0)

/-- A write and a close on a stream that fails nowhere. -/
theorem parent_closed_of_write :
    ∃ ended,
      close oneByte 1 true (afterUses oneByte () ⟨[], 0, 0, []⟩ [0] [(.op (.writeByte 7), 2)]) =
        some ended ∧ ended.self.out.closes = 1 := by
  refine ⟨_, rfl, ?_⟩
  have hiff :=
    (parent_closed_iff oneByte () ⟨[], 0, 0, []⟩ [0] [(.op (.writeByte 7), 2)] true 1 _ rfl
    []).1
  exact hiff.mpr fun _ => .inr (.piece rfl (by decide) fun h => absurd h (by decide))

/-- The wrapped stream throws when it is given the last bytes: the first `close()` throws that
exception without closing it, and a second one does nothing. -/
theorem parent_left_open :
    ((machine oneByte).run (State.create () ⟨[], 0, 0, [true]⟩ [0])
      [.close true 1, .close true 1]).1 = [.threw sinkFault, .returned ()] ∧
    ((machine oneByte).run (State.create () ⟨[], 0, 0, [true]⟩ [0])
      [.close true 1, .close true 1]).2.out.closes = 0 :=
  ⟨rfl, rfl⟩

end ZstdJni.OutputStream
