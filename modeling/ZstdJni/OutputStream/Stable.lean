/-
# What every method of the output stream preserves

The methods of the stream are put together from a few actions: the native calls, the calls
of the wrapped stream and assignments to the flags.  A property of the object that each of
these actions keeps is kept by every method, whether it returns or throws.
-/

import ZstdJni.OutputStream.Model

namespace ZstdJni.OutputStream

open ZstdJni.Foundation ZstdJni.Native

variable {σ : Type} {E : Encoder σ Setting Byte Byte}

/-- A property that no action of a method other than `close` breaks. -/
structure Stable (E : Encoder σ Setting Byte Byte) (inv : State σ → Prop) : Prop where
  reset : ∀ st, inv st → inv (resetCStream E st).2
  compress : ∀ src srcSize st, inv st → inv (compressStream E src srcSize st).2
  drain : ∀ directive st, inv st → inv (drainStream E directive st).2
  configure : ∀ setting st, inv st → inv { st with stream := (E.configure st.stream setting).1 }
  writeOut : ∀ st, inv st → inv (writeOut st).2
  flushOut : ∀ st, inv st → inv (flushOut st).self
  assign : ∀ (st : State σ) (srcPos : ℕ) (closeFrameOnFlush frameClosed frameStarted : Bool),
    inv st → inv { st with
      srcPos := srcPos
      closeFrameOnFlush := closeFrameOnFlush
      frameClosed := frameClosed
      frameStarted := frameStarted }

/-- What a method does after a part that may throw. -/
theorem Ended.andThen_inv {inv : State σ → Prop} {ended last : Ended σ}
    {rest : State σ → Option (Ended σ)}
    (hended : inv ended.self) (hrest : ∀ last, rest ended.self = some last → inv last.self)
    (hlast : ended.andThen rest = some last) : inv last.self := by
  unfold Ended.andThen at hlast
  split at hlast
  · obtain rfl := Option.some.inj hlast
    exact hended
  · exact hrest _ hlast

namespace Stable

variable {inv : State σ → Prop} (hstable : Stable E inv)
include hstable

theorem drainTurn_meets (directive : Directive) {st : State σ} (hinv : inv st) :
    (drainTurn (drainStream E directive) st).Meets inv (fun ended => inv ended.self) := by
  have hnative := hstable.drain directive st hinv
  have hwrite := hstable.writeOut _ hnative
  unfold drainTurn
  simp only
  split
  · exact hnative
  · split
    · next h =>
        rw [h] at hwrite
        split
        · exact hwrite
        · exact hwrite
    · next h =>
        rw [h] at hwrite
        exact hwrite

theorem drain_inv {directive : Directive} {fuel : ℕ} {st : State σ} {ended : Ended σ}
    (hinv : inv st) (hdrain : OutputStream.drain (drainStream E directive) fuel st = some ended) :
    inv ended.self := by
  apply iterate_sound inv (fun ended => inv ended.self) _ hinv hdrain
  intro st turn hst hturn
  obtain rfl := Option.some.inj hturn
  exact hstable.drainTurn_meets directive hst

theorem writeTurn_meets (src : List Byte) (srcSize : ℕ) {st : State σ} (hinv : inv st) :
    (writeTurn E src srcSize st).Meets inv (fun ended => inv ended.self) := by
  have hnative := hstable.compress src srcSize st hinv
  have hwrite := hstable.writeOut _ hnative
  unfold writeTurn
  split
  · simp only
    split
    · exact hnative
    · split
      · split
        · next h =>
            rw [h] at hwrite
            exact hwrite
        · next h =>
            rw [h] at hwrite
            exact hwrite
      · exact hnative
  · exact hinv

theorem beginFrame_inv {st : State σ} (hinv : inv st) : inv (beginFrame E st).self := by
  have hreset := hstable.reset st hinv
  unfold beginFrame
  split
  · simp only
    split
    · exact hreset
    · apply hstable.assign _ _ _ _ _ hreset
  · exact hinv

theorem write_inv {src : List Byte} {offset len : ℤ} {fuel : ℕ} {st : State σ} {ended : Ended σ}
    (hinv : inv st) (hwrite : write E fuel src offset len st = some ended) : inv ended.self := by
  unfold write at hwrite
  split at hwrite
  · obtain rfl := Option.some.inj hwrite
    exact hinv
  · split at hwrite
    · obtain rfl := Option.some.inj hwrite
      exact hinv
    · have hbegin := hstable.beginFrame_inv hinv
      apply Ended.andThen_inv hbegin _ hwrite
      intro last hlast
      apply iterate_sound inv (fun ended => inv ended.self) _
        (hstable.assign _ _ _ _ _ hbegin) hlast
      intro st turn hst hturn
      obtain rfl := Option.some.inj hturn
      exact hstable.writeTurn_meets src _ hst

theorem flush_inv {fuel : ℕ} {st : State σ} {ended : Ended σ} (hinv : inv st)
    (hflush : flush E fuel st = some ended) : inv ended.self := by
  unfold flush at hflush
  split at hflush
  · obtain rfl := Option.some.inj hflush
    exact hinv
  · split at hflush
    · obtain rfl := Option.some.inj hflush
      exact hinv
    · split at hflush
      · obtain ⟨drained, hdrain, hrest⟩ := Option.bind_eq_some_iff.mp hflush
        have hdrained := hstable.drain_inv hinv hdrain
        apply Ended.andThen_inv hdrained _ hrest
        intro last hlast
        obtain rfl := Option.some.inj hlast
        apply hstable.flushOut
        apply hstable.assign _ _ _ _ _ hdrained
      · obtain ⟨drained, hdrain, hrest⟩ := Option.bind_eq_some_iff.mp hflush
        have hdrained := hstable.drain_inv hinv hdrain
        apply Ended.andThen_inv hdrained _ hrest
        intro last hlast
        obtain rfl := Option.some.inj hlast
        exact hstable.flushOut _ hdrained

/-- Every call other than `close` keeps a stable property. -/
theorem op_inv {op : Op} {fuel : ℕ} {st : State σ} {ended : Ended σ} (hinv : inv st)
    (hrun : op.run E fuel st = some ended) : inv ended.self := by
  cases op with
  | write src offset len => exact hstable.write_inv hinv hrun
  | writeByte i =>
      rw [Op.run, writeByte] at hrun
      exact hstable.write_inv hinv hrun
  | flush => exact hstable.flush_inv hinv hrun
  | setCloseFrameOnFlush closeOnFlush =>
      obtain rfl := Option.some.inj hrun
      unfold setCloseFrameOnFlush
      split
      · exact hinv
      · exact hstable.assign _ _ _ _ _ hinv
  | set setting =>
      obtain rfl := Option.some.inj hrun
      rw [setterOf_eq]
      unfold parameterSetter
      split
      · exact hinv
      · split
        · exact hinv
        · simp only
          split
          · exact hstable.configure setting st hinv
          · exact hstable.configure setting st hinv

theorem beginEmptyFrame_inv {st : State σ} (hinv : inv st) : inv (beginEmptyFrame E st).self := by
  have hreset := hstable.reset st hinv
  unfold beginEmptyFrame
  split
  · exact hinv
  · simp only
    split
    · exact hreset
    · apply hstable.assign _ _ _ _ _ hreset

/-- `close` keeps a stable property that closing the wrapped stream and the assignment to
`isClosed` keep. -/
theorem close_inv (hparent : ∀ closeParentStream st, inv st →
      inv (closeParent closeParentStream st).self)
    (hclosed : ∀ st, inv st → inv { st with isClosed := true }) {closeParentStream : Bool}
    {fuel : ℕ} {st : State σ} {ended : Ended σ} (hinv : inv st)
    (hclose : close E fuel closeParentStream st = some ended) : inv ended.self := by
  unfold close at hclose
  split at hclose
  · obtain rfl := Option.some.inj hclose
    exact hinv
  · obtain ⟨last, hbody, rfl⟩ := Option.map_eq_some_iff.mp hclose
    apply hclosed
    have hbegin := hstable.beginEmptyFrame_inv hinv
    apply Ended.andThen_inv hbegin _ hbody
    intro last hlast
    split at hlast
    · obtain rfl := Option.some.inj hlast
      exact hparent closeParentStream _ hbegin
    · obtain ⟨drained, hdrain, hrest⟩ := Option.bind_eq_some_iff.mp hlast
      have hdrained := hstable.drain_inv hbegin hdrain
      apply Ended.andThen_inv hdrained _ hrest
      intro last hlast
      obtain rfl := Option.some.inj hlast
      exact hparent closeParentStream _ hdrained

end Stable

end ZstdJni.OutputStream
