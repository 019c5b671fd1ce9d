/-
# The shared lock of an object that one thread uses

The methods of `AutoCloseBase` as they run when no other thread interferes: the
compare-and-set of the first turn succeeds.  The lock is the only state.  Each method is
the run of a thread that is alone with the object.
-/

import ZstdJni.AutoClose.Model
import ZstdJni.Foundation.Method

namespace ZstdJni.Dict

open ZstdJni.Foundation ZstdJni.Native ZstdJni.AutoClose

/-- Fallible methods of a class of zstd-jni, over the state they may read and change. -/
abbrev Java (σ : Type) := Method σ JavaException

/-- `acquireSharedLock`. -/
def acquireSharedLock : Java ℤ Unit := do
  let sharedLock ← get
  if sharedLock < 0 then throw (.illegalState "Closed")
  else if sharedLock = maxValue then throw (.illegalState "Shared lock overflow")
  else set (sharedLock + 1)

/-- `releaseSharedLock`. -/
def releaseSharedLock : Java ℤ Unit := do
  let sharedLock ← get
  if sharedLock < 0 then throw (.illegalState "Closed")
  else if sharedLock = 0 then throw (.illegalState "Shared lock underflow")
  else set (sharedLock - 1)

/-- `close` up to `doClose`: whether that is called. -/
def beginClose : Java ℤ Bool := do
  let sharedLock ← get
  if sharedLock = sharedLockClosed then pure false
  else if sharedLock ≠ 0 then throw (.illegalState "Attempt to close while in use")
  else do
    set sharedLockClosed
    pure true

/-- The lock may be acquired. -/
def Acquirable (sharedLock : ℤ) : Prop := 0 ≤ sharedLock ∧ sharedLock ≠ maxValue

instance (sharedLock : ℤ) : Decidable (Acquirable sharedLock) :=
  inferInstanceAs (Decidable (_ ∧ _))

theorem acquire_call_of_acquirable {sharedLock : ℤ} (hlock : Acquirable sharedLock) :
    acquireSharedLock.call sharedLock = (.ok (), sharedLock + 1) := by
  have hopen : ¬ sharedLock < 0 := by
    have := hlock.1
    omega
  rw [acquireSharedLock, Method.call_bind]
  simp only [Method.call_get, if_neg hopen, if_neg hlock.2]
  rfl

/-- A refused acquire changes nothing. -/
theorem acquire_call_of_not {sharedLock : ℤ} (hlock : ¬ Acquirable sharedLock) :
    ∃ e, acquireSharedLock.call sharedLock = (.error e, sharedLock) := by
  rw [acquireSharedLock, Method.call_bind]
  by_cases hclosed : sharedLock < 0
  · refine ⟨.illegalState "Closed", ?_⟩
    simp only [Method.call_get, if_pos hclosed]
    rfl
  · have hfull : sharedLock = maxValue := by
      by_contra hne
      exact hlock ⟨by omega, hne⟩
    refine ⟨.illegalState "Shared lock overflow", ?_⟩
    simp only [Method.call_get, if_neg hclosed, if_pos hfull]
    rfl

theorem release_call_of_pos {sharedLock : ℤ} (hlock : 0 < sharedLock) :
    releaseSharedLock.call sharedLock = (.ok (), sharedLock - 1) := by
  have hopen : ¬ sharedLock < 0 := by omega
  have hused : sharedLock ≠ 0 := by omega
  rw [releaseSharedLock, Method.call_bind]
  simp only [Method.call_get, if_neg hopen, if_neg hused]
  rfl

theorem beginClose_zero : beginClose.call 0 = (.ok true, sharedLockClosed) := rfl

theorem beginClose_closed : beginClose.call sharedLockClosed = (.ok false, sharedLockClosed) := rfl

theorem beginClose_of_used {sharedLock : ℤ} (hopen : sharedLock ≠ sharedLockClosed)
    (hused : sharedLock ≠ 0) :
    beginClose.call sharedLock =
      (.error (.illegalState "Attempt to close while in use"), sharedLock) := by
  rw [beginClose, Method.call_bind]
  simp only [Method.call_get, if_neg hopen, if_pos hused]
  rfl

theorem beginClose_snd (sharedLock : ℤ) :
    (beginClose.call sharedLock).2 = sharedLock ∨
      sharedLock = 0 ∧ (beginClose.call sharedLock).2 = sharedLockClosed := by
  by_cases hclosed : sharedLock = sharedLockClosed
  · left
    rw [hclosed, beginClose_closed]
  · by_cases hused : sharedLock = 0
    · right
      rw [hused, beginClose_zero]
      exact ⟨rfl, rfl⟩
    · left
      rw [beginClose_of_used hclosed hused]

section Alone

variable {T : Type} [DecidableEq T] {o : Object T} {t : T}

/-- An input that lets a thread go on inside of a method, and one that is outside stay there. -/
def goesOn (t : T) : T × Choice := (t, .doCloseEnds (.returned ()))

theorem acquire_alone (hpc : o.pc t = .outside) (hlock : o.sharedLock ≤ maxValue) :
    ((machine T).run o [(t, .acquire), goesOn t, goesOn t]).2.sharedLock =
      (acquireSharedLock.call o.sharedLock).2 := by
  by_cases hacq : Acquirable o.sharedLock
  · have hopen : ¬ o.sharedLock < 0 := by
      have := hacq.1
      omega
    have hsum : addInt o.sharedLock 1 = o.sharedLock + 1 := by
      have hroom := hacq.2
      unfold maxValue at hroom hlock
      apply addInt_of_lt
      · omega
      · omega
    rw [acquire_call_of_acquirable hacq]
    simp [Machine.run, machine, goesOn, Object.step, Object.call, Object.goto, hpc, hopen, hacq.2,
      hsum]
  · obtain ⟨e, hrefused⟩ := acquire_call_of_not hacq
    rw [hrefused]
    by_cases hclosed : o.sharedLock < 0
    · simp [Machine.run, machine, goesOn, Object.step, Object.call, Object.goto, hpc, hclosed]
    · have hfull : o.sharedLock = maxValue := by
        by_contra hne
        exact hacq ⟨by omega, hne⟩
      simp [Machine.run, machine, goesOn, Object.step, Object.call, Object.goto, hpc, hfull,
        maxValue]

theorem release_alone (hpc : o.pc t = .outside) (hown : 0 < o.holds t)
    (hpos : 0 < o.sharedLock) (hlock : o.sharedLock ≤ maxValue) :
    ((machine T).run o [(t, .release), goesOn t, goesOn t]).2.sharedLock =
      (releaseSharedLock.call o.sharedLock).2 := by
  have hopen : ¬ o.sharedLock < 0 := by omega
  have hused : o.sharedLock ≠ 0 := by omega
  have hsum : addInt o.sharedLock (-1) = o.sharedLock - 1 := by
    unfold maxValue at hlock
    apply addInt_of_lt
    · omega
    · omega
  rw [release_call_of_pos hpos]
  simp [Machine.run, machine, goesOn, Object.step, Object.call, Object.goto, hpc, hopen, hused,
    hsum, hown]

theorem close_alone (hpc : o.pc t = .outside) (hmonitor : o.monitor = none) :
    ((machine T).run o [(t, .close), goesOn t, goesOn t, goesOn t]).2.sharedLock =
      (beginClose.call o.sharedLock).2 := by
  by_cases hclosed : o.sharedLock = sharedLockClosed
  · rw [hclosed, beginClose_closed]
    simp [Machine.run, machine, goesOn, Object.step, Object.call, Object.goto, hpc, hmonitor,
      hclosed]
  · by_cases hused : o.sharedLock = 0
    · rw [hused, beginClose_zero]
      simp [Machine.run, machine, goesOn, Object.step, Object.call, Object.goto, hpc, hmonitor,
        hused, sharedLockClosed]
    · rw [beginClose, Method.call_bind]
      simp only [Method.call_get, if_neg hclosed, if_pos hused]
      simp [Machine.run, machine, goesOn, Object.step, Object.call, Object.goto, hpc, hmonitor,
        hused, hclosed]

end Alone

end ZstdJni.Dict
